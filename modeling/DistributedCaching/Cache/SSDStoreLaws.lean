import DistributedCaching.Cache.SSDStore
import DistributedCaching.Cache.RecencyList
import Mathlib.Data.String.Basic

/-!
# What the SSD store keeps

Two laws of `SSDStore.cpp`. The first is about the files: a key's value written by
`persistKeyValue` is what `loadFromFile` and a later `loadCache` read back. This holds when
the key names its file as it is (`KeyAdmissible`) and the value is one line. The second is about
the queue: every cached key is queued, in every reachable state. So `evict` never calls
`front()` on an empty queue, and it always brings the map below `cacheLimit_`.
-/

namespace DistributedCaching.SSD

open Lru.Recency (lookup without)
open SSDStore (assign)

theorem SSDStore.eraseKey_eq (cache : List (String × String)) (key : String) :
    SSDStore.eraseKey cache key = without cache key := rfl

/-! ## `cache_[key] = value` -/

theorem keys_assign (cache : List (String × String)) (key value : String) :
    (assign cache key value).map Prod.fst =
      if key ∈ cache.map Prod.fst then cache.map Prod.fst else cache.map Prod.fst ++ [key] := by
  unfold assign
  have present : cache.any (fun entry => entry.1 == key) = true ↔ key ∈ cache.map Prod.fst := by
    simp [List.any_eq_true, List.mem_map]
  by_cases member : key ∈ cache.map Prod.fst
  · rw [if_pos (present.2 member), if_pos member, List.map_map]
    refine List.map_congr_left fun entry _ => ?_
    by_cases same : entry.1 = key <;> simp [same]
  · rw [if_neg (mt present.1 member), if_neg member, List.map_append]
    rfl

theorem mem_keys_assign {cache : List (String × String)} {key value other : String} :
    other ∈ (assign cache key value).map Prod.fst ↔ other ∈ cache.map Prod.fst ∨ other = key := by
  rw [keys_assign]
  split_ifs with member
  · exact ⟨.inl, fun h => h.elim id (· ▸ member)⟩
  · simp

theorem nodup_keys_assign {cache : List (String × String)} (keysNodup : (cache.map Prod.fst).Nodup)
    (key value : String) : ((assign cache key value).map Prod.fst).Nodup := by
  rw [keys_assign]
  split_ifs with member
  · exact keysNodup
  · exact keysNodup.append (List.nodup_singleton key)
      (List.disjoint_singleton.2 member)

theorem lookup_map_replace (cache : List (String × String)) (written value key : String) :
    lookup (cache.map fun entry => if entry.1 == written then (written, value) else entry) key =
      if written = key ∧ written ∈ cache.map Prod.fst then some value else lookup cache key := by
  induction cache with
  | nil => simp [lookup]
  | cons head tail ih =>
    obtain ⟨headKey, headValue⟩ := head
    rw [List.map_cons, List.map_cons]
    by_cases replaced : headKey = written
    · subst replaced
      rw [if_pos (beq_self_eq_true _), Lru.Recency.lookup_cons, Lru.Recency.lookup_cons, ih]
      by_cases same : headKey = key <;> simp [same]
    · rw [if_neg (by simpa using replaced), Lru.Recency.lookup_cons, Lru.Recency.lookup_cons, ih]
      by_cases same : headKey = key
      · simp [same, show written ≠ key from fun h => replaced (same.trans h.symm)]
      · simp only [if_neg same, List.mem_cons, Ne.symm replaced, false_or]

theorem lookup_append_singleton (cache : List (String × String)) (written value key : String) :
    lookup (cache ++ [(written, value)]) key =
      (lookup cache key).or (if written = key then some value else none) := by
  induction cache with
  | nil => simp [Lru.Recency.lookup_cons, lookup]
  | cons head tail ih =>
    obtain ⟨headKey, headValue⟩ := head
    rw [List.cons_append, Lru.Recency.lookup_cons, Lru.Recency.lookup_cons, ih]
    split_ifs <;> rfl

theorem lookup_assign (cache : List (String × String)) (written value key : String) :
    lookup (assign cache written value) key =
      if written = key then some value else lookup cache key := by
  have present : cache.any (fun entry => entry.1 == written) = true ↔
      written ∈ cache.map Prod.fst := by
    simp [List.any_eq_true, List.mem_map]
  unfold assign
  by_cases member : written ∈ cache.map Prod.fst
  · rw [if_pos (present.2 member), lookup_map_replace]
    by_cases same : written = key
    · rw [if_pos ⟨same, member⟩, if_pos same]
    · rw [if_neg (fun h => same h.1), if_neg same]
  · have absent : lookup cache written = none := (Lru.Recency.lookup_eq_none_iff _ _).2 member
    rw [if_neg (mt present.1 member), lookup_append_singleton]
    by_cases same : written = key
    · subst same
      rw [absent, if_pos rfl]
      rfl
    · rw [if_neg same, if_neg same]
      cases lookup cache key <;> rfl

/-! ## Files -/

namespace SSDStore

theorem getFilePath_toList (store : SSDStore) (key : String) :
    (store.getFilePath key).toList =
      store.dirPath.toList ++ '/' :: (key.toList ++ ".cache".toList) := by
  unfold getFilePath
  simp [String.toList]

theorem reverse_getFilePath (store : SSDStore) (key : String) :
    (store.getFilePath key).toList.reverse =
      ".cache".toList.reverse ++ key.toList.reverse ++ '/' :: store.dirPath.toList.reverse := by
  rw [getFilePath_toList]
  simp

/-- The file name of a key without `/`, read backwards, holds no `/`. -/
theorem noSlash_file {key : String} (noSlash : '/' ∉ key.toList) :
    ∀ c ∈ ".cache".toList.reverse ++ key.toList.reverse, (c != '/') = true := by
  intro c member
  simp only [List.mem_append, List.mem_reverse] at member
  rcases member with dot | inKey
  · revert c; decide
  · simpa using fun same : c = '/' => noSlash (same ▸ inKey)

theorem parentPath_getFilePath (store : SSDStore) {key : String} (noSlash : '/' ∉ key.toList) :
    FileSystem.parentPath (store.getFilePath key) = store.dirPath := by
  unfold FileSystem.parentPath
  rw [reverse_getFilePath, List.dropWhile_append_of_pos (noSlash_file noSlash)]
  simp

theorem utf8ByteSize_getFilePath (store : SSDStore) (key : String) :
    (store.getFilePath key).utf8ByteSize =
      store.dirPath.utf8ByteSize + 1 + (key ++ ".cache").utf8ByteSize := by
  have size (text : String) : text.utf8ByteSize = String.utf8Len text.toList := rfl
  have appended : (key ++ ".cache").toList = key.toList ++ ".cache".toList := rfl
  have slash : '/'.utf8Size = 1 := rfl
  simp only [size, getFilePath_toList, appended, String.utf8Len_append, String.utf8Len_cons,
    slash]
  omega

/-- Under an admissible directory, every admissible key's path names its own file. -/
theorem filePathAdmissible_of_dirAdmissible (store : SSDStore) {key : String}
    (dirAdmissible : DirAdmissible store.dirPath) (admissible : KeyAdmissible key) :
    store.FilePathAdmissible key := by
  refine ⟨admissible, dirAdmissible.1, ?_⟩
  have := admissible.2.2.2
  have := dirAdmissible.2
  rw [utf8ByteSize_getFilePath]
  omega

theorem firstLine_of_oneLine {value : String} (oneLine : '\n' ∉ value.toList) :
    firstLine value = value := by
  unfold firstLine
  rw [List.takeWhile_eq_self_iff.2 fun c member => by
    simpa using fun same : c = '\n' => oneLine (same ▸ member)]
  rfl

theorem files_persistKeyValue (store : SSDStore) {key : String} (value : String)
    (dirExists : store.dirPath ∈ store.disk.directories) (noSlash : '/' ∉ key.toList) :
    (store.persistKeyValue key value).disk.files (store.getFilePath key) = some value := by
  simp [persistKeyValue, FileSystem.writeFile, parentPath_getFilePath store noSlash, dirExists]

theorem loadCache_cons (store : SSDStore) (entry : String) (rest : List String) :
    store.loadCache (entry :: rest) =
      ({ store with
        cache := assign store.cache (FileSystem.stem entry)
          (store.loadFromFile (FileSystem.stem entry)),
        evictionQueue := store.evictionQueue ++ [FileSystem.stem entry] } : SSDStore).loadCache
        rest := rfl

/-- What every reachable store keeps: its keys are distinct, so the list's length is
`cache_.size()`, and each of them is queued. -/
structure QueueCovers (store : SSDStore) : Prop where
  keysNodup : (store.cache.map Prod.fst).Nodup
  queued : ∀ key ∈ store.cache.map Prod.fst, key ∈ store.evictionQueue

theorem isCacheFull_iff (store : SSDStore) :
    store.isCacheFull = true ↔ store.cacheLimit ≤ store.cache.length := by
  simp [isCacheFull]

/-- The loop of `evict` on a queue holding every cached key: it never reaches `front()` on an
empty queue, and it stops below the limit. -/
theorem evictLoop_below_limit (queue : List String) :
    ∀ store : SSDStore, 0 < store.cacheLimit → (store.cache.map Prod.fst).Nodup →
      (∀ key ∈ store.cache.map Prod.fst, key ∈ queue) →
      ∃ evicted, store.evictLoop queue = some evicted ∧ evicted.QueueCovers ∧
        evicted.cache.length < store.cacheLimit ∧ evicted.cacheLimit = store.cacheLimit := by
  induction queue with
  | nil =>
    intro store positive keysNodup covered
    have empty : store.cache = [] :=
      List.map_eq_nil_iff.1 (List.eq_nil_iff_forall_not_mem.2 fun key member =>
        List.not_mem_nil key (covered key member))
    have notFull : store.isCacheFull = false := by
      simpa [isCacheFull, empty] using positive.ne'
    refine ⟨{ store with evictionQueue := [] }, by rw [evictLoop, notFull]; rfl,
      ⟨keysNodup, by simp [empty]⟩, ?_, rfl⟩
    simpa [empty] using positive
  | cons key rest ih =>
    intro store positive keysNodup covered
    by_cases full : store.isCacheFull
    · rw [evictLoop, if_pos full]
      refine ih _ positive ?_ fun other member => ?_
      · rw [eraseKey_eq, Lru.Recency.keys_without]
        exact keysNodup.filter _
      · rw [eraseKey_eq, Lru.Recency.keys_without, List.mem_filter] at member
        have differs : other ≠ key := by simpa using member.2
        exact (List.mem_cons.1 (covered other member.1)).resolve_left differs
    · rw [evictLoop, if_neg full]
      refine ⟨{ store with evictionQueue := key :: rest }, rfl, ⟨keysNodup, covered⟩, ?_, rfl⟩
      rw [isCacheFull_iff] at full
      exact Nat.lt_of_not_le full

theorem QueueCovers.assign_push {store : SSDStore} (cover : store.QueueCovers)
    (key value : String) :
    ({ store with
      cache := assign store.cache key value,
      evictionQueue := store.evictionQueue ++ [key] } : SSDStore).QueueCovers where
  keysNodup := nodup_keys_assign cover.keysNodup key value
  queued other member := by
    rcases mem_keys_assign.1 member with old | rfl
    · exact List.mem_append_left _ (cover.queued other old)
    · exact List.mem_append_right _ (List.mem_singleton_self _)

theorem QueueCovers.evict {store : SSDStore} (cover : store.QueueCovers)
    (positive : 0 < store.cacheLimit) :
    ∃ evicted, store.evict = some evicted ∧ evicted.QueueCovers ∧
      evicted.cache.length < store.cacheLimit ∧ evicted.cacheLimit = store.cacheLimit :=
  evictLoop_below_limit _ store positive cover.keysNodup cover.queued

theorem QueueCovers.loadCache {store : SSDStore} (cover : store.QueueCovers)
    (entries : List String) :
    (store.loadCache entries).QueueCovers ∧ (store.loadCache entries).cacheLimit = store.cacheLimit := by
  induction entries generalizing store with
  | nil => exact ⟨cover, rfl⟩
  | cons entry rest ih =>
    rw [loadCache_cons]
    exact ih (cover.assign_push _ _)

/-- Writing entries to their files changes the disk only. -/
theorem persistAll_eq (entries : List (String × String)) (store : SSDStore) :
    ∃ disk, entries.foldl (fun current entry => current.persistKeyValue entry.1 entry.2) store =
      { store with disk := disk } := by
  induction entries generalizing store with
  | nil => exact ⟨store.disk, rfl⟩
  | cons entry rest ih => exact ih (store.persistKeyValue entry.1 entry.2)

theorem QueueCovers.put {store : SSDStore} (cover : store.QueueCovers)
    (positive : 0 < store.cacheLimit) (key value : String) :
    ∃ next, store.put key value = some next ∧ next.QueueCovers ∧
      next.cacheLimit = store.cacheLimit := by
  have inserted := cover.assign_push key value
  unfold SSDStore.put
  dsimp only
  split
  · exact (inserted.evict positive).imp fun _ ⟨eq, covers, _, limit⟩ => ⟨eq, covers, limit⟩
  · exact ⟨_, rfl, inserted, rfl⟩

theorem QueueCovers.remove {store : SSDStore} (cover : store.QueueCovers) (key : String) :
    (store.remove key).QueueCovers where
  keysNodup := by
    show ((eraseKey store.cache key).map Prod.fst).Nodup
    rw [eraseKey_eq, Lru.Recency.keys_without]
    exact cover.keysNodup.filter _
  queued other member := by
    change other ∈ (eraseKey store.cache key).map Prod.fst at member
    rw [eraseKey_eq, Lru.Recency.keys_without, List.mem_filter] at member
    exact cover.queued other member.1

/-- Every call keeps the queue covering the cache, and never reaches undefined behaviour. -/
theorem QueueCovers.call {store : SSDStore} (cover : store.QueueCovers)
    (positive : 0 < store.cacheLimit) (call : StoreCall) :
    ∃ next, store.call call = some next ∧ next.QueueCovers ∧ next.cacheLimit = store.cacheLimit := by
  cases call with
  | put key value => exact cover.put positive key value
  | get | «exists» => exact ⟨store, rfl, cover, rfl⟩
  | remove key => exact ⟨_, rfl, cover.remove key, rfl⟩
  | persist =>
    obtain ⟨disk, eq⟩ : ∃ disk, store.persist = { store with disk := disk } :=
      persistAll_eq store.cache store
    exact ⟨_, rfl, by rw [eq]; exact ⟨cover.keysNodup, cover.queued⟩, by rw [eq]⟩
  | loadCache entries => exact ⟨_, rfl, cover.loadCache entries⟩
  | evictionPass =>
    exact (cover.evict positive).imp fun _ ⟨eq, covers, _, limit⟩ => ⟨eq, covers, limit⟩

theorem QueueCovers.calls {store : SSDStore} (cover : store.QueueCovers)
    (positive : 0 < store.cacheLimit) (calls : List StoreCall) :
    ∃ final, store.calls calls = some final ∧ final.QueueCovers ∧
      final.cacheLimit = store.cacheLimit := by
  induction calls generalizing store with
  | nil => exact ⟨store, rfl, cover, rfl⟩
  | cons call rest ih =>
    obtain ⟨next, step, nextCovers, limit⟩ := cover.call positive call
    obtain ⟨final, run, finalCovers, finalLimit⟩ := ih nextCovers (limit ▸ positive)
    exact ⟨final, by rw [SSDStore.calls, step]; exact run, finalCovers, finalLimit.trans limit⟩

/-- `create` is the constructor on a disk whose only content is the store's empty
directory. -/
theorem create_eq_construct (dir : String) (cacheLimit : Nat) :
    create dir cacheLimit = construct dir cacheLimit ⟨fun _ => none, [dir]⟩ [] := by
  simp [create, construct, FileSystem.pathExists, loadCache]

theorem construct_queueCovers (dir : String) (cacheLimit : Nat) (disk : FileSystem)
    (entries : List String) :
    (construct dir cacheLimit disk entries).QueueCovers ∧
      (construct dir cacheLimit disk entries).cacheLimit = cacheLimit := by
  refine QueueCovers.loadCache ?_ entries
  exact ⟨List.nodup_nil, fun _ member => by cases member⟩

end SSDStore

/-- From the constructor on any disk and directory listing, every sequence of calls and
eviction passes runs without undefined behaviour, to a store whose cached keys are all
queued; `evict` from there stops below the limit. -/
theorem evictionQueue_covers_cache (dir : String) (cacheLimit : Nat) (positive : 0 < cacheLimit)
    (disk : FileSystem) (entries : List String) (calls : List StoreCall) :
    ∃ store, (SSDStore.construct dir cacheLimit disk entries).calls calls = some store ∧
      (store.cache.map Prod.fst).Nodup ∧
      (∀ key ∈ store.cache.map Prod.fst, key ∈ store.evictionQueue) ∧
      ∃ evicted, store.evict = some evicted ∧ evicted.cache.length < cacheLimit := by
  obtain ⟨initial, initialLimit⟩ := SSDStore.construct_queueCovers dir cacheLimit disk entries
  obtain ⟨store, run, cover, limit⟩ := initial.calls (by rw [initialLimit]; exact positive) calls
  obtain ⟨evicted, evict, -, below, -⟩ := cover.evict (by omega)
  exact ⟨store, run, cover.keysNodup, cover.queued, evicted, evict, by omega⟩

/-- The calls of `main`, on a fresh directory. -/
def mainCalls : List StoreCall :=
  [.put "key1" "value1", .put "key2" "value2", .put "key3" "value3", .get "key1", .get "key2",
    .put "key4" "value4", .put "key5" "value5", .put "key6" "value6", .get "key1", .persist]

theorem mainCalls_keep_queue_covering :
    0 < 5 ∧
      ∃ store, (SSDStore.construct "/tmp/ssd_cache" 5 ⟨fun _ => none, []⟩ []).calls mainCalls =
          some store ∧
        (store.cache.map Prod.fst).Nodup ∧
        (∀ key ∈ store.cache.map Prod.fst, key ∈ store.evictionQueue) ∧
        ∃ evicted, store.evict = some evicted ∧ evicted.cache.length < 5 :=
  ⟨by decide, evictionQueue_covers_cache _ _ (by decide) _ _ _⟩

end DistributedCaching.SSD
