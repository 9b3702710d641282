import Mathlib.Data.List.Basic

/-!
# The SSD-backed store

`SSDStore.cpp` keeps a map `cache_` in memory and an `evictionQueue_` of keys in insertion
order, one entry per `put` (so a key put twice is queued twice and a removed key stays
queued). When the map reaches `cacheLimit_` entries, `evict` pops keys from the front of the
queue, writes `cache_[key]` to the key's file and erases the key, until the map is below the
limit. The files live in one directory, one file `dir/key.cache` per key, and are read back
with one `getline`.

`cache_[key]` on a key that is no longer in the map inserts an empty string, so popping a
stale queue entry overwrites the key's file with an empty value. A `put`, a second `put` of
the same key and two more `put`s then lose the value of the first key.
-/

namespace DistributedCaching.SSD

/-- The part of the file system the store touches: regular files by path, and the existing
directories. A path is taken as the string it is: the model does not resolve `.` and `..`
components, cut a path at a NUL as `c_str()` does, or refuse a file name over the 255 bytes
of `NAME_MAX` or a path over the 4096 bytes of `PATH_MAX`. The laws about file contents are
stated for keys and directories where none of these arises (`KeyAdmissible`). -/
structure FileSystem where
  files : String → Option String
  directories : List String

namespace FileSystem

/-- The directory part of a path: everything before its last `/`. -/
def parentPath (path : String) : String :=
  ⟨((path.toList.reverse.dropWhile (fun c => c != '/')).drop 1).reverse⟩

/-- `std::ofstream(path)` then `<< contents`: the file is created or truncated when its
directory exists, and nothing happens otherwise. -/
def writeFile (disk : FileSystem) (path contents : String) : FileSystem :=
  if parentPath path ∈ disk.directories then
    { disk with files := fun other => if other = path then some contents else disk.files other }
  else
    disk

/-- `fs::remove(path)` on a regular file. -/
def removeFile (disk : FileSystem) (path : String) : FileSystem :=
  { disk with files := fun other => if other = path then none else disk.files other }

/-- `fs::exists(path)`. -/
def pathExists (disk : FileSystem) (path : String) : Bool :=
  (disk.files path).isSome || decide (path ∈ disk.directories)

/-- `path::filename()`: the part after the last `/`. -/
def fileName (path : String) : String :=
  ⟨(path.toList.reverse.takeWhile (fun c => c != '/')).reverse⟩

/-- `path::stem()` as libstdc++ computes it: the file name up to its last `.`, or the whole
file name when that `.` is its first character, when it has no `.`, or when it is at most two
characters long and starts with `.`. -/
def stem (path : String) : String :=
  let name := (fileName path).toList
  match name.reverse.dropWhile (fun c => c != '.') with
  | [] => ⟨name⟩
  | _ :: before =>
      if before = [] ∨ (name.length ≤ 2 ∧ name.head? = some '.') then ⟨name⟩
      else ⟨before.reverse⟩

end FileSystem

/-- `std::getline`: the characters before the first newline. -/
def firstLine (contents : String) : String :=
  ⟨contents.toList.takeWhile (fun c => c != '\n')⟩

/-- The state of an `SSDStore` together with the disk it works on. -/
structure SSDStore where
  cache : List (String × String)
  evictionQueue : List String
  cacheLimit : Nat
  dirPath : String
  disk : FileSystem

namespace SSDStore

/-- `cache_.find(key)`. -/
def lookup (store : SSDStore) (key : String) : Option String :=
  (store.cache.find? (fun entry => entry.1 == key)).map Prod.snd

/-- `cache_[key] = value`. -/
def assign (cache : List (String × String)) (key value : String) : List (String × String) :=
  if cache.any (fun entry => entry.1 == key) then
    cache.map (fun entry => if entry.1 == key then (key, value) else entry)
  else
    cache ++ [(key, value)]

/-- `cache_.erase(key)`. -/
def eraseKey (cache : List (String × String)) (key : String) : List (String × String) :=
  cache.filter (fun entry => entry.1 != key)

def getFilePath (store : SSDStore) (key : String) : String :=
  store.dirPath ++ "/" ++ key ++ ".cache"

def persistKeyValue (store : SSDStore) (key value : String) : SSDStore :=
  { store with disk := store.disk.writeFile (store.getFilePath key) value }

def loadFromFile (store : SSDStore) (key : String) : String :=
  match store.disk.files (store.getFilePath key) with
  | some contents => firstLine contents
  | none => ""

def isCacheFull (store : SSDStore) : Bool :=
  decide (store.cache.length ≥ store.cacheLimit)

/-- The loop of `evict`, one queue entry per iteration; `none` is `front()` on an empty
queue, which is undefined behaviour. -/
def evictLoop (store : SSDStore) : List String → Option SSDStore
  | [] => if store.isCacheFull then none else some { store with evictionQueue := [] }
  | key :: rest =>
      if store.isCacheFull then
        let persisted := store.persistKeyValue key ((store.lookup key).getD "")
        evictLoop { persisted with cache := eraseKey persisted.cache key } rest
      else
        some { store with evictionQueue := key :: rest }

def evict (store : SSDStore) : Option SSDStore :=
  evictLoop store store.evictionQueue

def put (store : SSDStore) (key value : String) : Option SSDStore :=
  let inserted := { store with
    cache := assign store.cache key value, evictionQueue := store.evictionQueue ++ [key] }
  if inserted.isCacheFull then inserted.evict else some inserted

def get (store : SSDStore) (key : String) : String :=
  (store.lookup key).getD (store.loadFromFile key)

def remove (store : SSDStore) (key : String) : SSDStore :=
  { store with
    cache := eraseKey store.cache key,
    disk := store.disk.removeFile (store.getFilePath key) }

def «exists» (store : SSDStore) (key : String) : Bool :=
  (store.lookup key).isSome || store.disk.pathExists (store.getFilePath key)

def persist (store : SSDStore) : SSDStore :=
  store.cache.foldl (fun current entry => current.persistKeyValue entry.1 entry.2) store

/-- A store over an empty, existing directory (`loadCache` finds nothing). -/
def create (dir : String) (cacheLimit : Nat) : SSDStore :=
  ⟨[], [], cacheLimit, dir, ⟨fun _ => none, [dir]⟩⟩

/-- `loadCache` over the paths the directory iterator lists, in its order: the stem of each
file name is a key, whose value is read from the key's own file, and the key is queued. -/
def loadCache (store : SSDStore) (entries : List String) : SSDStore :=
  entries.foldl (fun current entry =>
    let key := FileSystem.stem entry
    { current with
      cache := assign current.cache key (current.loadFromFile key),
      evictionQueue := current.evictionQueue ++ [key] }) store

/-- The constructor on a disk as it is: the directory is created when it does not exist,
then `loadCache` reads the paths its iterator lists. -/
def construct (dir : String) (cacheLimit : Nat) (disk : FileSystem) (entries : List String) :
    SSDStore :=
  let disk := if disk.pathExists dir then disk
    else { disk with directories := dir :: disk.directories }
  loadCache ⟨[], [], cacheLimit, dir, disk⟩ entries

end SSDStore

/-- A call of the store's interface, or a pass of the eviction thread; `loadCache` carries
the paths the directory iterator lists. -/
inductive StoreCall where
  | put (key value : String)
  | get (key : String)
  | remove (key : String)
  | «exists» (key : String)
  | persist
  | loadCache (entries : List String)
  | evictionPass
  deriving DecidableEq, Repr

/-- A key whose file the system finds under the name `getFilePath` gives it: non-empty, with
no `/` (which would name a file in a subdirectory, or resolve a `.` or `..` component), no NUL
(at which `c_str()` cuts the path), and a file name `key.cache` within `NAME_MAX`. -/
def KeyAdmissible (key : String) : Prop :=
  key ≠ "" ∧ '/' ∉ key.toList ∧ '\x00' ∉ key.toList ∧ (key ++ ".cache").utf8ByteSize ≤ 255

instance : DecidablePred KeyAdmissible := fun _ =>
  inferInstanceAs (Decidable (_ ∧ _ ∧ _ ∧ _))

/-- A store directory that `c_str()` does not cut, under which the file path of every
admissible key stays within the 4096 bytes of `PATH_MAX`: no NUL, at most 3839 bytes. -/
def DirAdmissible (dir : String) : Prop :=
  '\x00' ∉ dir.toList ∧ dir.utf8ByteSize < 3840

instance : DecidablePred DirAdmissible := fun _ =>
  inferInstanceAs (Decidable (_ ∧ _))

/-- The path `getFilePath` gives a key names the key's own file: the key is admissible, the
directory holds no NUL, and the path is within `PATH_MAX`. -/
def SSDStore.FilePathAdmissible (store : SSDStore) (key : String) : Prop :=
  KeyAdmissible key ∧ '\x00' ∉ store.dirPath.toList ∧ (store.getFilePath key).utf8ByteSize < 4096

instance (store : SSDStore) : DecidablePred store.FilePathAdmissible := fun _ =>
  inferInstanceAs (Decidable (_ ∧ _ ∧ _))

/-- Admissible keys, and values that hold no newline. -/
def StoreCall.Admissible : StoreCall → Prop
  | .put key value => KeyAdmissible key ∧ '\n' ∉ value.toList
  | .get key | .remove key | .exists key => KeyAdmissible key
  | .persist | .loadCache _ | .evictionPass => True

instance : DecidablePred StoreCall.Admissible := fun call => by
  cases call <;> unfold StoreCall.Admissible <;> infer_instance

namespace SSDStore

def call (store : SSDStore) : StoreCall → Option SSDStore
  | .put key value => store.put key value
  | .get _ | .exists _ => some store
  | .remove key => some (store.remove key)
  | .persist => some store.persist
  | .loadCache entries => some (store.loadCache entries)
  | .evictionPass => store.evict

/-- Calls made one after another; `none` once one of them reaches undefined behaviour. -/
def calls (store : SSDStore) : List StoreCall → Option SSDStore
  | [] => some store
  | next :: rest => (store.call next).bind (fun current => current.calls rest)

end SSDStore

/-- The map the calls describe: the value of the latest `put` of the key not followed by a
`remove` of it. -/
def latestValue (sequence : List StoreCall) (key : String) : Option String :=
  sequence.foldl (fun current call =>
    match call with
    | .put written value => if written = key then some value else current
    | .remove removed => if removed = key then none else current
    | _ => current) none

/-! ## A key put twice -/

/-- Limit 2: the second eviction pops the stale queue entry of `a` and persists an empty
value over the file holding `2`. -/
def staleQueueCalls : List StoreCall :=
  [.put "a" "1", .put "a" "2", .put "b" "3", .put "c" "4"]

theorem staleQueueCalls_lose_value :
    (∀ call ∈ staleQueueCalls, call.Admissible) ∧
      latestValue staleQueueCalls "a" = some "2" ∧
      ((SSDStore.create "/tmp/ssd_cache" 2).calls staleQueueCalls).map
        (fun store => store.get "a") = some "" := by
  decide

end DistributedCaching.SSD
