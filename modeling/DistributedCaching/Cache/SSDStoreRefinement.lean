import DistributedCaching.Cache.SSDStoreLaws

/-!
# The store serves the map its calls describe, when no key is put twice

The SSD store of `SSDStore.cpp`, with the cache, the queue and the files taken together, is
a map from keys to values: `get` answers every key with the latest value a `put` gave it, or
with the empty string once the key is removed or was never put. Evictions write a value to
its file before erasing it from the cache, `persist` writes every cached value, and a stale
queue entry of a removed key writes an empty value over a file `remove` deleted.

That holds as long as no key is put twice. A second `put` of a key still in the cache or in
the queue leaves two queue entries for it, and the later one writes an empty value over the
file the earlier one wrote. Keys are file names the system keeps as they are
(`KeyAdmissible`), values single lines, and the directory listing of `loadCache` is not
involved.
-/

namespace DistributedCaching.SSD

open Lru.Recency (lookup without)

/-! ## The map the calls describe -/

/-- The key a call puts, if it is a `put`. -/
def StoreCall.putKey? : StoreCall → Option String
  | .put key _ => some key
  | .get _ | .remove _ | .exists _ | .persist | .loadCache _ | .evictionPass => none

/-- Whether a call reads the directory listing. -/
def StoreCall.readsDirectory : StoreCall → Bool
  | .loadCache _ => true
  | .put _ _ | .get _ | .remove _ | .exists _ | .persist | .evictionPass => false

/-- What a call does to the map the calls describe. -/
def StoreCall.update (model : String → Option String) : StoreCall → String → Option String
  | .put written value => fun key => if written = key then some value else model key
  | .remove removed => fun key => if removed = key then none else model key
  | .get _ | .exists _ | .persist | .loadCache _ | .evictionPass => model

theorem latestValue_append_singleton (calls : List StoreCall) (call : StoreCall) :
    latestValue (calls ++ [call]) = call.update (latestValue calls) := by
  funext key
  unfold latestValue
  rw [List.foldl_append]
  cases call <;> rfl

@[simp]
theorem StoreCall.update_put (model : String → Option String) (written value key : String) :
    (StoreCall.put written value).update model key =
      if written = key then some value else model key := rfl

@[simp]
theorem StoreCall.update_remove (model : String → Option String) (removed key : String) :
    (StoreCall.remove removed).update model key = if removed = key then none else model key := rfl

/-! ## Erasing a key from the cache -/

theorem nodup_keys_eraseKey {cache : List (String × String)} (keysNodup : (cache.map Prod.fst).Nodup)
    (key : String) : ((SSDStore.eraseKey cache key).map Prod.fst).Nodup := by
  rw [SSDStore.eraseKey_eq, Lru.Recency.keys_without]
  exact keysNodup.filter _

theorem mem_keys_eraseKey {cache : List (String × String)} {key other : String} :
    other ∈ (SSDStore.eraseKey cache key).map Prod.fst ↔
      other ∈ cache.map Prod.fst ∧ other ≠ key := by
  rw [SSDStore.eraseKey_eq, Lru.Recency.keys_without, List.mem_filter]
  simp

theorem lookup_eraseKey (cache : List (String × String)) (key other : String) :
    lookup (SSDStore.eraseKey cache key) other = if other = key then none else lookup cache other :=
  Lru.Recency.lookup_without cache key other

/-! ## Files of distinct keys -/

namespace SSDStore

theorem getFilePath_injective (store : SSDStore) {key other : String}
    (same : store.getFilePath key = store.getFilePath other) : key = other := by
  have chars := congrArg String.toList same
  rw [getFilePath_toList, getFilePath_toList] at chars
  exact String.ext (List.append_cancel_right (List.cons.inj (List.append_cancel_left chars)).2)

theorem loadFromFile_of_files {store : SSDStore} {key : String} {contents : Option String}
    (found : store.disk.files (store.getFilePath key) = contents) :
    store.loadFromFile key = (contents.map firstLine).getD "" := by
  unfold loadFromFile
  rw [found]
  cases contents <;> rfl

theorem loadFromFile_persistKeyValue_self (store : SSDStore) {key : String} (value : String)
    (dirExists : store.dirPath ∈ store.disk.directories) (noSlash : '/' ∉ key.toList) :
    (store.persistKeyValue key value).loadFromFile key = firstLine value :=
  loadFromFile_of_files (files_persistKeyValue store value dirExists noSlash)

/-- Writing one key's file leaves every other key's file as it was. -/
theorem files_persistKeyValue_of_ne (store : SSDStore) {key other : String} (value : String)
    (different : key ≠ other) :
    (store.persistKeyValue key value).disk.files (store.getFilePath other) =
      store.disk.files (store.getFilePath other) := by
  have otherPath : store.getFilePath other ≠ store.getFilePath key :=
    fun same => different (store.getFilePath_injective same).symm
  unfold persistKeyValue FileSystem.writeFile
  split_ifs <;> simp [otherPath]

theorem loadFromFile_persistKeyValue_of_ne (store : SSDStore) {key other : String}
    (value : String) (different : key ≠ other) :
    (store.persistKeyValue key value).loadFromFile other = store.loadFromFile other := by
  rw [loadFromFile_of_files (files_persistKeyValue_of_ne store value different),
    loadFromFile_of_files rfl]

theorem directories_persistKeyValue (store : SSDStore) (key value : String) :
    (store.persistKeyValue key value).disk.directories = store.disk.directories := by
  unfold persistKeyValue FileSystem.writeFile
  split_ifs <;> rfl

/-- Writing a list of entries to their files changes the disk only, and only the files of the
listed keys. -/
theorem persistAll_spec (entries : List (String × String)) (store : SSDStore) :
    ∃ disk : FileSystem,
      entries.foldl (fun current entry => current.persistKeyValue entry.1 entry.2) store =
        { store with disk := disk } ∧
      disk.directories = store.disk.directories ∧
      ∀ other, (∀ entry ∈ entries, entry.1 ≠ other) →
        disk.files (store.getFilePath other) = store.disk.files (store.getFilePath other) := by
  induction entries generalizing store with
  | nil => exact ⟨store.disk, rfl, rfl, fun _ _ => rfl⟩
  | cons entry rest inductionHypothesis =>
      obtain ⟨disk, persisted, directories, files⟩ :=
        inductionHypothesis (store.persistKeyValue entry.1 entry.2)
      refine ⟨disk, persisted, directories.trans (directories_persistKeyValue _ _ _),
        fun other others => ?_⟩
      exact (files other fun later member => others later (List.mem_cons_of_mem _ member)).trans
        (files_persistKeyValue_of_ne store _ (others entry (List.mem_cons_self _ _)))

@[simp]
theorem getFilePath_remove (store : SSDStore) (removed key : String) :
    (store.remove removed).getFilePath key = store.getFilePath key := rfl

@[simp]
theorem disk_remove (store : SSDStore) (removed : String) :
    (store.remove removed).disk = store.disk.removeFile (store.getFilePath removed) := rfl

theorem loadFromFile_remove (store : SSDStore) (removed key : String) :
    (store.remove removed).loadFromFile key =
      if removed = key then "" else store.loadFromFile key := by
  by_cases same : removed = key
  · subst same
    rw [if_pos rfl, loadFromFile_of_files (show (store.remove removed).disk.files
      (store.getFilePath removed) = none by simp [FileSystem.removeFile])]
    rfl
  · have otherPath : store.getFilePath key ≠ store.getFilePath removed :=
      fun equal => same (store.getFilePath_injective equal).symm
    rw [if_neg same, loadFromFile_of_files (show (store.remove removed).disk.files
      (store.getFilePath key) = store.disk.files (store.getFilePath key) by
        simp [FileSystem.removeFile, otherPath]), loadFromFile_of_files rfl]

end SSDStore

/-! ## The invariant -/

/-- A store that serves `model`, with `queue` the keys its eviction loop will pop: its
directory exists and is admissible, the cached keys are distinct and queued once, every
queued key was put (as a single path component), a cached key holds its model value, a queued
key that is no longer cached has been removed from the model, and a key that is not cached
has its model value (or nothing) in its file. -/
structure Serves (putKeys : List String) (model : String → Option String) (queue : List String)
    (store : SSDStore) : Prop where
  dirExists : store.dirPath ∈ store.disk.directories
  dirAdmissible : DirAdmissible store.dirPath
  keysNodup : (store.cache.map Prod.fst).Nodup
  queueNodup : queue.Nodup
  queued : ∀ key ∈ store.cache.map Prod.fst, key ∈ queue
  queueWritten : ∀ key ∈ queue, key ∈ putKeys
  noSlash : ∀ key ∈ putKeys, '/' ∉ key.toList
  oneLine : ∀ key value, model key = some value → '\n' ∉ value.toList
  cached : ∀ key value, store.lookup key = some value → model key = some value
  stale : ∀ key ∈ queue, store.lookup key = none → model key = none
  stored : ∀ key, store.lookup key = none → store.loadFromFile key = (model key).getD ""

namespace Serves

variable {putKeys : List String} {model : String → Option String}

/-- The invariant does not read the store's own queue field. -/
theorem setQueue {queue : List String} {store : SSDStore}
    (serves : Serves putKeys model queue store) (newQueue : List String) :
    Serves putKeys model queue { store with evictionQueue := newQueue } :=
  ⟨serves.dirExists, serves.dirAdmissible, serves.keysNodup, serves.queueNodup, serves.queued,
    serves.queueWritten, serves.noSlash, serves.oneLine, serves.cached, serves.stale,
    serves.stored⟩

/-- The value a key's file receives when the key leaves the cache is its model value. -/
theorem lookup_getD {queue : List String} {store : SSDStore}
    (serves : Serves putKeys model queue store) {key : String} (queuedKey : key ∈ queue) :
    (store.lookup key).getD "" = (model key).getD "" := by
  cases found : store.lookup key with
  | none => rw [serves.stale key queuedKey found]
  | some value => rw [serves.cached key value found]

theorem firstLine_getD {queue : List String} {store : SSDStore}
    (serves : Serves putKeys model queue store) (key : String) :
    firstLine ((model key).getD "") = (model key).getD "" := by
  cases found : model key with
  | none => rfl
  | some value => exact SSDStore.firstLine_of_oneLine (serves.oneLine key value found)

/-- One iteration of the eviction loop: the front key's file receives its model value and the
key leaves the cache and the queue. -/
theorem evictStep {key : String} {rest : List String} {store : SSDStore}
    (serves : Serves putKeys model (key :: rest) store) :
    let persisted := store.persistKeyValue key ((store.lookup key).getD "")
    Serves putKeys model rest
      { persisted with cache := SSDStore.eraseKey persisted.cache key } := by
  intro persisted
  have front : key ∈ key :: rest := List.mem_cons_self key rest
  have keyNoSlash := serves.noSlash key (serves.queueWritten key front)
  have keyNotRest := (List.nodup_cons.1 serves.queueNodup).1
  have lookupEvicted (other : String) :
      SSDStore.lookup { persisted with cache := SSDStore.eraseKey persisted.cache key } other =
        if other = key then none else store.lookup other :=
    lookup_eraseKey store.cache key other
  refine ⟨?_, serves.dirAdmissible, nodup_keys_eraseKey serves.keysNodup key,
    (List.nodup_cons.1 serves.queueNodup).2,
    fun other member => ?_, fun other member => serves.queueWritten other (List.mem_cons_of_mem key member),
    serves.noSlash, serves.oneLine, fun other value found => ?_, fun other member found => ?_,
    fun other found => ?_⟩
  · show store.dirPath ∈ persisted.disk.directories
    rw [SSDStore.directories_persistKeyValue]
    exact serves.dirExists
  · obtain ⟨cached, differs⟩ := mem_keys_eraseKey.1 member
    exact (List.mem_cons.1 (serves.queued other cached)).resolve_left differs
  · rw [lookupEvicted] at found
    split_ifs at found
    exact serves.cached other value found
  · rw [lookupEvicted, if_neg (fun same : other = key => keyNotRest (same ▸ member))] at found
    exact serves.stale other (List.mem_cons_of_mem key member) found
  · change persisted.loadFromFile other = _
    rw [lookupEvicted] at found
    by_cases same : other = key
    · subst same
      rw [SSDStore.loadFromFile_persistKeyValue_self store _ serves.dirExists keyNoSlash,
        serves.lookup_getD front, serves.firstLine_getD]
    · rw [if_neg same] at found
      rw [SSDStore.loadFromFile_persistKeyValue_of_ne store _ (Ne.symm same)]
      exact serves.stored other found

/-- The eviction loop runs to its end over a serving store and leaves a serving store. -/
theorem evictLoop (queue : List String) :
    ∀ store : SSDStore, Serves putKeys model queue store → 0 < store.cacheLimit →
      ∃ evicted, store.evictLoop queue = some evicted ∧
        Serves putKeys model evicted.evictionQueue evicted ∧
        evicted.cacheLimit = store.cacheLimit := by
  induction queue with
  | nil =>
      intro store serves positive
      have empty : store.cache = [] :=
        List.map_eq_nil_iff.1 (List.eq_nil_iff_forall_not_mem.2 fun key member =>
          List.not_mem_nil key (serves.queued key member))
      have notFull : store.isCacheFull = false := by
        simpa [SSDStore.isCacheFull, empty] using positive.ne'
      exact ⟨{ store with evictionQueue := [] }, by rw [SSDStore.evictLoop, notFull]; rfl,
        serves.setQueue [], rfl⟩
  | cons key rest inductionHypothesis =>
      intro store serves positive
      by_cases full : store.isCacheFull
      · rw [SSDStore.evictLoop, if_pos full]
        exact inductionHypothesis _ serves.evictStep positive
      · rw [SSDStore.evictLoop, if_neg full]
        exact ⟨_, rfl, serves.setQueue (key :: rest), rfl⟩

theorem put {store : SSDStore} (serves : Serves putKeys model store.evictionQueue store)
    (positive : 0 < store.cacheLimit) {key value : String} (fresh : key ∉ putKeys)
    (noSlash : '/' ∉ key.toList) (oneLine : '\n' ∉ value.toList) :
    ∃ next, store.put key value = some next ∧
      Serves (putKeys ++ [key]) ((StoreCall.put key value).update model) next.evictionQueue next ∧
      next.cacheLimit = store.cacheLimit := by
  have notQueued : key ∉ store.evictionQueue := fun queuedKey =>
    fresh (serves.queueWritten key queuedKey)
  have lookupInserted (other : String) :
      SSDStore.lookup { store with
        cache := SSDStore.assign store.cache key value
        evictionQueue := store.evictionQueue ++ [key] } other =
        if key = other then some value else store.lookup other :=
    lookup_assign store.cache key value other
  have inserted : Serves (putKeys ++ [key]) ((StoreCall.put key value).update model)
      (store.evictionQueue ++ [key])
      { store with
        cache := SSDStore.assign store.cache key value
        evictionQueue := store.evictionQueue ++ [key] } := by
    refine ⟨serves.dirExists, serves.dirAdmissible, nodup_keys_assign serves.keysNodup key value,
      serves.queueNodup.append (List.nodup_singleton key) (List.disjoint_singleton.2 notQueued),
      fun other member => ?_, fun other member => ?_, fun other member => ?_,
      fun other written found => ?_, fun other written found => ?_,
      fun other member found => ?_, fun other found => ?_⟩
    · rcases mem_keys_assign.1 member with old | rfl
      · exact List.mem_append_left _ (serves.queued other old)
      · exact List.mem_append_right _ (List.mem_singleton_self _)
    · rcases List.mem_append.1 member with old | new
      · exact List.mem_append_left _ (serves.queueWritten other old)
      · exact List.mem_append_right _ new
    · rcases List.mem_append.1 member with old | new
      · exact serves.noSlash other old
      · exact List.mem_singleton.1 new ▸ noSlash
    · rw [StoreCall.update_put] at found
      split_ifs at found
      · cases found
        exact oneLine
      · exact serves.oneLine other written found
    · rw [lookupInserted] at found
      rw [StoreCall.update_put]
      split_ifs at found ⊢
      · exact found
      · exact serves.cached other written found
    · rw [lookupInserted] at found
      rw [StoreCall.update_put]
      split_ifs at found ⊢
      rcases List.mem_append.1 member with old | new
      · exact serves.stale other old found
      · exact absurd (List.mem_singleton.1 new).symm ‹key ≠ other›
    · rw [lookupInserted] at found
      rw [StoreCall.update_put]
      split_ifs at found ⊢
      exact serves.stored other found
  unfold SSDStore.put
  dsimp only
  split
  · exact inserted.evictLoop _ _ positive
  · exact ⟨_, rfl, inserted, rfl⟩

theorem remove {store : SSDStore} (serves : Serves putKeys model store.evictionQueue store)
    (key : String) :
    Serves putKeys ((StoreCall.remove key).update model) (store.remove key).evictionQueue
      (store.remove key) := by
  have lookupRemoved (other : String) :
      (store.remove key).lookup other = if key = other then none else store.lookup other :=
    (lookup_eraseKey store.cache key other).trans (if_congr eq_comm rfl rfl)
  refine ⟨serves.dirExists, serves.dirAdmissible, nodup_keys_eraseKey serves.keysNodup key,
    serves.queueNodup,
    fun other member => serves.queued other (mem_keys_eraseKey.1 member).1, serves.queueWritten,
    serves.noSlash, fun other written found => ?_, fun other written found => ?_,
    fun other member found => ?_, fun other found => ?_⟩
  · rw [StoreCall.update_remove] at found
    split_ifs at found
    exact serves.oneLine other written found
  · rw [lookupRemoved] at found
    rw [StoreCall.update_remove]
    split_ifs at found ⊢
    exact serves.cached other written found
  · rw [lookupRemoved] at found
    rw [StoreCall.update_remove]
    split_ifs at found ⊢
    · rfl
    · exact serves.stale other member found
  · rw [lookupRemoved] at found
    rw [SSDStore.loadFromFile_remove, StoreCall.update_remove]
    split_ifs at found ⊢
    · rfl
    · exact serves.stored other found

theorem persist {queue : List String} {store : SSDStore}
    (serves : Serves putKeys model queue store) : Serves putKeys model queue store.persist := by
  obtain ⟨disk, persisted, directories, files⟩ := SSDStore.persistAll_spec store.cache store
  unfold SSDStore.persist
  rw [persisted]
  refine ⟨directories ▸ serves.dirExists, serves.dirAdmissible, serves.keysNodup,
    serves.queueNodup, serves.queued,
    serves.queueWritten, serves.noSlash, serves.oneLine, serves.cached, serves.stale,
    fun other found => ?_⟩
  have uncached : ∀ entry ∈ store.cache, entry.1 ≠ other := fun entry member same =>
    (Lru.Recency.lookup_eq_none_iff store.cache other).1 found (same ▸ List.mem_map_of_mem _ member)
  rw [SSDStore.loadFromFile_of_files (files other uncached)]
  rw [← serves.stored other found, SSDStore.loadFromFile_of_files rfl]

/-- Every call other than `loadCache`, with a fresh key if it is a `put`, keeps a store
serving the map its calls describe. -/
theorem call {store : SSDStore} (serves : Serves putKeys model store.evictionQueue store)
    (positive : 0 < store.cacheLimit) (call : StoreCall) (admissible : call.Admissible)
    (notListing : call.readsDirectory = false)
    (fresh : ∀ key, call.putKey? = some key → key ∉ putKeys) :
    ∃ next, store.call call = some next ∧
      Serves (putKeys ++ call.putKey?.toList) (call.update model) next.evictionQueue next ∧
      next.cacheLimit = store.cacheLimit := by
  cases call with
  | put key value => exact serves.put positive (fresh key rfl) admissible.1.2.1 admissible.2
  | get | «exists» =>
      exact ⟨store, rfl, by simpa [StoreCall.putKey?, StoreCall.update] using serves, rfl⟩
  | remove key =>
      exact ⟨_, rfl, by simpa [StoreCall.putKey?, StoreCall.update] using serves.remove key, rfl⟩
  | persist =>
      obtain ⟨disk, persisted, -⟩ := SSDStore.persistAll_spec store.cache store
      have served := serves.persist
      refine ⟨store.persist, rfl, ?_, ?_⟩ <;> unfold SSDStore.persist at served ⊢ <;>
        rw [persisted] at served ⊢
      simpa [StoreCall.putKey?, StoreCall.update] using served
  | loadCache => cases notListing
  | evictionPass =>
      simpa [SSDStore.call, SSDStore.evict, StoreCall.putKey?, StoreCall.update] using
        serves.evictLoop _ _ positive

/-- A run of such calls, after the calls `before`, keeps the store serving the map all the
calls describe. -/
theorem calls (rest : List StoreCall) :
    ∀ (before : List StoreCall) (store : SSDStore),
      Serves (before.filterMap StoreCall.putKey?) (latestValue before) store.evictionQueue store →
      0 < store.cacheLimit → (∀ call ∈ rest, call.Admissible ∧ call.readsDirectory = false) →
      ((before ++ rest).filterMap StoreCall.putKey?).Nodup →
      ∃ final, store.calls rest = some final ∧
        Serves ((before ++ rest).filterMap StoreCall.putKey?) (latestValue (before ++ rest))
          final.evictionQueue final := by
  induction rest with
  | nil =>
      intro before store serves _ _ _
      exact ⟨store, rfl, by simpa using serves⟩
  | cons call rest inductionHypothesis =>
      intro before store serves positive allowed putOnce
      have fresh : ∀ key, call.putKey? = some key → key ∉ before.filterMap StoreCall.putKey? := by
        intro key putting earlier
        rw [List.filterMap_append, List.filterMap_cons, putting] at putOnce
        exact List.disjoint_of_nodup_append putOnce earlier (List.mem_cons_self key _)
      obtain ⟨next, step, nextServes, nextLimit⟩ := serves.call positive call
        (allowed call (List.mem_cons_self _ _)).1 (allowed call (List.mem_cons_self _ _)).2 fresh
      have stepped : Serves ((before ++ [call]).filterMap StoreCall.putKey?)
          (latestValue (before ++ [call])) next.evictionQueue next := by
        rw [latestValue_append_singleton, List.filterMap_append]
        cases putting : call.putKey? <;> simpa [putting] using nextServes
      obtain ⟨final, run, finalServes⟩ := inductionHypothesis (before ++ [call]) next stepped
        (nextLimit ▸ positive) (fun later member => allowed later (List.mem_cons_of_mem _ member))
        (by simpa using putOnce)
      refine ⟨final, by rw [SSDStore.calls, step]; exact run, ?_⟩
      simpa using finalServes

end Serves

end DistributedCaching.SSD
