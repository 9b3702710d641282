import Mathlib.Data.List.MinMax
import Mathlib.Data.List.Nodup

/-!
# First-in-first-out eviction

`FIFOPolicy.cpp` keeps an `unordered_map<int, int>` and a `queue<int>` of keys. A `put` of a
key that is not in the map evicts the front of the queue when the queue has `capacity`
entries, then queues the key. A `put` of a present key only updates its value. `get` returns
`-1` for a key that is not in the map.

What the cache is for is stated as a reference map whose entries carry the step at which the
key entered. A new key put into a full map drops the entry that entered first. `Matches`
relates the queue to that map: the queue holds its keys, once each, in the order they
entered. Every call keeps the relation and answers as the reference does.
-/

namespace DistributedCaching.Fifo

/-- The state of a `FIFOCache`. -/
structure FIFOCache where
  capacity : Nat
  cacheMap : Int → Option Int
  cacheQueue : List Int

/-- A call of the public interface that the eviction policy is reached from. -/
inductive FifoCall where
  | put (key value : Int)
  | get (key : Int)
  | isEmpty
  | clear
  deriving DecidableEq, Repr

/-- What a call returns. -/
inductive FifoReply where
  | done
  | value (value : Int)
  | flag (empty : Bool)
  deriving DecidableEq, Repr

namespace FIFOCache

def create (capacity : Nat) : Except String FIFOCache :=
  if capacity = 0 then .error "Cache capacity must be greater than 0"
  else .ok ⟨capacity, fun _ => none, []⟩

def get (cache : FIFOCache) (key : Int) : Int :=
  match cache.cacheMap key with
  | none => -1
  | some value => value

/-- `none` is `front()` on an empty queue, which is undefined behaviour. -/
def evict (cache : FIFOCache) : Option FIFOCache :=
  match cache.cacheQueue with
  | [] => none
  | keyToRemove :: rest =>
      some { cache with
        cacheQueue := rest,
        cacheMap := fun other => if other = keyToRemove then none else cache.cacheMap other }

def put (cache : FIFOCache) (key value : Int) : Option FIFOCache := do
  let queued ← if cache.cacheMap key = none then do
      let room ← if cache.cacheQueue.length = cache.capacity then cache.evict else pure cache
      pure { room with cacheQueue := room.cacheQueue ++ [key] }
    else pure cache
  pure { queued with
    cacheMap := fun other => if other = key then some value else queued.cacheMap other }

def isEmpty (cache : FIFOCache) : Bool :=
  cache.cacheQueue.isEmpty

def clear (cache : FIFOCache) : FIFOCache :=
  { cache with cacheQueue := [], cacheMap := fun _ => none }

def call (cache : FIFOCache) : FifoCall → Option (FifoReply × FIFOCache)
  | .put key value => (cache.put key value).map (fun next => (.done, next))
  | .get key => some (.value (cache.get key), cache)
  | .isEmpty => some (.flag cache.isEmpty, cache)
  | .clear => some (.done, cache.clear)

/-- The replies of calls made one after another, and the final state; `none` once one of
them reaches undefined behaviour. -/
def runCalls (cache : FIFOCache) : List FifoCall → Option (List FifoReply × FIFOCache)
  | [] => some ([], cache)
  | next :: rest => do
      let (reply, after) ← cache.call next
      let (replies, final) ← after.runCalls rest
      pure (reply :: replies, final)

end FIFOCache

/-! ## The reference map -/

/-- Entries `(key, value, step at which the key entered)` with distinct keys, and the step
of the next key to enter. -/
structure FifoMap where
  capacity : Nat
  entries : List (Int × Int × Nat)
  clock : Nat

namespace FifoMap

def empty (capacity : Nat) : FifoMap :=
  ⟨capacity, [], 0⟩

def find (map : FifoMap) (key : Int) : Option (Int × Int × Nat) :=
  map.entries.find? (fun entry => entry.1 == key)

def enteredAt (map : FifoMap) (key : Int) : Nat :=
  ((map.find key).map (fun entry => entry.2.2)).getD 0

/-- The entry that entered first. -/
def first (map : FifoMap) : Option (Int × Int × Nat) :=
  map.entries.argmin (fun entry => entry.2.2)

/-- A key enters with its value at the current step. -/
def enter (map : FifoMap) (key value : Int) : FifoMap :=
  { map with entries := (key, value, map.clock) :: map.entries, clock := map.clock + 1 }

/-- A present key takes a new value and keeps the step it entered at. -/
def update (map : FifoMap) (key value : Int) : FifoMap :=
  { map with entries := map.entries.map fun entry =>
      if entry.1 = key then (key, value, entry.2.2) else entry }

def erase (map : FifoMap) (key : Int) : FifoMap :=
  { map with entries := map.entries.filter fun entry => entry.1 != key }

def apply (map : FifoMap) : FifoCall → FifoReply × FifoMap
  | .put key value =>
      match map.find key with
      | some _ => (.done, map.update key value)
      | none =>
          if map.entries.length ≥ map.capacity then
            match map.first with
            | some victim => (.done, (map.erase victim.1).enter key value)
            | none => (.done, map.enter key value)
          else (.done, map.enter key value)
  | .get key => (.value (((map.find key).map fun entry => entry.2.1).getD (-1)), map)
  | .isEmpty => (.flag map.entries.isEmpty, map)
  | .clear => (.done, { map with entries := [] })

def runCalls (map : FifoMap) : List FifoCall → List FifoReply × FifoMap
  | [] => ([], map)
  | next :: rest =>
      let (replies, final) := (map.apply next).2.runCalls rest
      ((map.apply next).1 :: replies, final)

section Entries

variable (map : FifoMap) (key value other : Int)

theorem find_enter :
    (map.enter key value).find other =
      if key = other then some (key, value, map.clock) else map.find other := by
  by_cases same : key = other <;> simp [find, enter, same]

theorem find_update :
    (map.update key value).find other =
      if other = key then (map.find other).map (fun entry => (key, value, entry.2.2))
      else map.find other := by
  unfold find update
  rw [List.find?_map]
  have sameKey : ((fun entry : Int × Int × Nat => entry.1 == other) ∘
      fun entry => if entry.1 = key then (key, value, entry.2.2) else entry) =
      fun entry => entry.1 == other := by
    funext entry
    by_cases replaced : entry.1 = key <;> simp [replaced]
  rw [sameKey]
  cases found : map.entries.find? (fun entry => entry.1 == other) with
  | none => split_ifs <;> rfl
  | some entry =>
    have entryKey : entry.1 = other := by simpa using List.find?_some found
    by_cases same : other = key <;> simp [entryKey, same]

theorem find_erase :
    (map.erase key).find other = if other = key then none else map.find other := by
  unfold find erase
  rw [List.find?_filter]
  split_ifs with same
  · subst same
    exact List.find?_eq_none.2 fun entry _ => by simp
  · congr 1
    funext entry
    by_cases found : entry.1 = other
    · simp [found, same]
    · simp [found]

theorem enteredAt_update : (map.update key value).enteredAt other = map.enteredAt other := by
  unfold enteredAt
  rw [find_update]
  split_ifs <;> cases map.find other <;> rfl

theorem enteredAt_erase_of_ne (different : other ≠ key) :
    (map.erase key).enteredAt other = map.enteredAt other := by
  simp [enteredAt, find_erase, different]

theorem enteredAt_enter_of_ne (different : key ≠ other) :
    (map.enter key value).enteredAt other = map.enteredAt other := by
  simp [enteredAt, find_enter, different]

theorem enteredAt_enter_self : (map.enter key value).enteredAt key = map.clock := by
  simp [enteredAt, find_enter]

theorem find_isSome_iff : (map.find key).isSome ↔ key ∈ map.entries.map Prod.fst := by
  simp [find, List.find?_isSome, List.mem_map]

/-- With distinct keys, an entry is what its key finds. -/
theorem find_of_mem (keysNodup : (map.entries.map Prod.fst).Nodup)
    {entry : Int × Int × Nat} (member : entry ∈ map.entries) : map.find entry.1 = some entry := by
  obtain ⟨capacity, entries, clock⟩ := map
  unfold find
  induction entries with
  | nil => cases member
  | cons head tail ih =>
    rw [List.map_cons, List.nodup_cons] at keysNodup
    rcases List.mem_cons.1 member with rfl | inTail
    · simp
    · have different : head.1 ≠ entry.1 := fun same =>
        keysNodup.1 (same ▸ List.mem_map_of_mem Prod.fst inTail)
      simp [different, ih keysNodup.2 inTail]

end Entries

end FifoMap

/-- The queue implements the map: the same keys, the queue without repeats and in the order
the keys entered, the same values, every step in the past, within a positive capacity. -/
structure Matches (cache : FIFOCache) (map : FifoMap) : Prop where
  sameCapacity : cache.capacity = map.capacity
  queueNodup : cache.cacheQueue.Nodup
  sameKeys : (map.entries.map Prod.fst).Perm cache.cacheQueue
  sameValues : ∀ key, cache.cacheMap key = (map.find key).map fun entry => entry.2.1
  oldestFirst : (cache.cacheQueue.map map.enteredAt).Pairwise (· < ·)
  past : ∀ entry ∈ map.entries, entry.2.2 < map.clock
  bounded : cache.cacheQueue.length ≤ map.capacity
  positive : 0 < map.capacity

namespace Matches

variable {cache : FIFOCache} {map : FifoMap}

theorem mapKeysNodup (matching : Matches cache map) : (map.entries.map Prod.fst).Nodup :=
  matching.sameKeys.nodup_iff.2 matching.queueNodup

theorem length_eq (matching : Matches cache map) :
    map.entries.length = cache.cacheQueue.length := by
  simpa using matching.sameKeys.length_eq

/-- The queue holds exactly the keys of the map. -/
theorem mem_queue_iff (matching : Matches cache map) (key : Int) :
    key ∈ cache.cacheQueue ↔ (cache.cacheMap key).isSome := by
  rw [matching.sameValues, Option.isSome_map', FifoMap.find_isSome_iff, matching.sameKeys.mem_iff]

theorem enteredAt_lt_clock (matching : Matches cache map) {key : Int}
    (queued : key ∈ cache.cacheQueue) : map.enteredAt key < map.clock := by
  obtain ⟨entry, member, rfl⟩ := List.mem_map.1 (matching.sameKeys.mem_iff.2 queued)
  simpa [FifoMap.enteredAt, map.find_of_mem matching.mapKeysNodup member] using
    matching.past entry member

/-- The entry that entered first has the key at the front of the queue. -/
theorem first_eq_front (matching : Matches cache map) {front : Int} {rest : List Int}
    (queue : cache.cacheQueue = front :: rest) :
    ∃ victim, map.first = some victim ∧ victim.1 = front := by
  have nonempty : map.entries ≠ [] := fun empty => by
    simpa [empty, queue] using matching.length_eq
  have hasFirst : map.first ≠ none := mt List.argmin_eq_none.1 nonempty
  obtain ⟨victim, found⟩ := Option.ne_none_iff_exists'.1 hasFirst
  refine ⟨victim, found, by_contra fun different => ?_⟩
  have victimMember := List.argmin_mem found
  have victimQueued : victim.1 ∈ rest := by
    have := matching.sameKeys.mem_iff.1 (List.mem_map_of_mem Prod.fst victimMember)
    simpa [queue, different] using this
  obtain ⟨frontEntry, frontMember, frontKey⟩ :=
    List.mem_map.1 (matching.sameKeys.mem_iff.2 (by simp [queue] : front ∈ cache.cacheQueue))
  have earlier : map.enteredAt front < map.enteredAt victim.1 := by
    have ordered := matching.oldestFirst
    rw [queue, List.map_cons, List.pairwise_cons] at ordered
    exact ordered.1 _ (List.mem_map_of_mem _ victimQueued)
  simp only [FifoMap.enteredAt, ← frontKey, map.find_of_mem matching.mapKeysNodup frontMember,
    map.find_of_mem matching.mapKeysNodup victimMember, Option.map_some', Option.getD_some]
    at earlier
  exact List.not_lt_of_mem_argmin frontMember found earlier

/-- A new value for a present key: the queue and every entry step stay. -/
theorem update (matching : Matches cache map) {key : Int} (present : cache.cacheMap key ≠ none)
    (value : Int) :
    Matches { cache with
        cacheMap := fun other => if other = key then some value else cache.cacheMap other }
      (map.update key value) where
  sameCapacity := matching.sameCapacity
  queueNodup := matching.queueNodup
  sameKeys := by
    have sameFirst : ((map.update key value).entries.map Prod.fst) = map.entries.map Prod.fst := by
      simp only [FifoMap.update, List.map_map]
      refine List.map_congr_left fun entry _ => ?_
      by_cases replaced : entry.1 = key <;> simp [replaced]
    rw [sameFirst]
    exact matching.sameKeys
  sameValues other := by
    rw [FifoMap.find_update]
    by_cases same : other = key
    · subst same
      obtain ⟨entry, found⟩ := Option.ne_none_iff_exists'.1
        (by simpa [matching.sameValues] using present : map.find other ≠ none)
      simp [found]
    · simp [same, matching.sameValues]
  oldestFirst := by
    have kept : (map.update key value).enteredAt = map.enteredAt :=
      funext (map.enteredAt_update key value)
    rw [kept]
    exact matching.oldestFirst
  past entry member := by
    obtain ⟨old, oldMember, rfl⟩ := List.mem_map.1 member
    split_ifs <;> exact matching.past old oldMember
  bounded := matching.bounded
  positive := matching.positive

/-- The front key leaves the queue and the map. -/
theorem evictFront (matching : Matches cache map) {front : Int} {rest : List Int}
    (queue : cache.cacheQueue = front :: rest) :
    Matches { cache with
        cacheQueue := rest,
        cacheMap := fun other => if other = front then none else cache.cacheMap other }
      (map.erase front) where
  sameCapacity := matching.sameCapacity
  queueNodup := (List.nodup_cons.1 (queue ▸ matching.queueNodup)).2
  sameKeys := by
    have frontAbsent := (List.nodup_cons.1 (queue ▸ matching.queueNodup)).1
    have keys : (map.erase front).entries.map Prod.fst =
        (map.entries.map Prod.fst).filter (fun key => key != front) := by
      simp only [FifoMap.erase, List.filter_map]
      rfl
    have restKept : (front :: rest).filter (fun key => key != front) = rest := by
      rw [List.filter_cons_of_neg (by simp), List.filter_eq_self]
      intro key member
      simpa using fun same : key = front => frontAbsent (same ▸ member)
    rw [keys, ← restKept, ← queue]
    exact matching.sameKeys.filter _
  sameValues other := by
    rw [FifoMap.find_erase]
    by_cases same : other = front <;> simp [same, matching.sameValues]
  oldestFirst := by
    have ordered := matching.oldestFirst
    rw [queue, List.map_cons, List.pairwise_cons] at ordered
    have frontAbsent := (List.nodup_cons.1 (queue ▸ matching.queueNodup)).1
    rw [List.map_congr_left fun key member => map.enteredAt_erase_of_ne front key
      (fun same => frontAbsent (same ▸ member))]
    exact ordered.2
  past entry member := matching.past entry (List.mem_of_mem_filter member)
  bounded := by
    have := matching.bounded
    rw [queue, List.length_cons] at this
    show rest.length ≤ map.capacity
    omega
  positive := matching.positive

/-- A key that is not in the map enters it, at the back of the queue, when there is room. -/
theorem enter (matching : Matches cache map) {key : Int} (absent : cache.cacheMap key = none)
    (room : cache.cacheQueue.length < map.capacity) (value : Int) :
    Matches { cache with
        cacheQueue := cache.cacheQueue ++ [key],
        cacheMap := fun other => if other = key then some value else cache.cacheMap other }
      (map.enter key value) where
  sameCapacity := matching.sameCapacity
  queueNodup := by
    have notQueued : key ∉ cache.cacheQueue := by simp [matching.mem_queue_iff, absent]
    exact matching.queueNodup.append (List.nodup_singleton key)
      (List.disjoint_singleton.2 notQueued)
  sameKeys := by
    simpa [FifoMap.enter] using (matching.sameKeys.cons key).trans
      (List.perm_append_singleton key cache.cacheQueue).symm
  sameValues other := by
    rw [FifoMap.find_enter]
    by_cases same : other = key
    · simp [same]
    · simp [same, Ne.symm same, matching.sameValues]
  oldestFirst := by
    have notQueued : key ∉ cache.cacheQueue := by simp [matching.mem_queue_iff, absent]
    rw [List.map_append, List.map_singleton, FifoMap.enteredAt_enter_self,
      List.map_congr_left fun other member => map.enteredAt_enter_of_ne key value other
        (fun same => notQueued (same ▸ member)), List.pairwise_append]
    refine ⟨matching.oldestFirst, List.pairwise_singleton _ _, fun stamp member later inLater => ?_⟩
    obtain ⟨other, queued, rfl⟩ := List.mem_map.1 member
    rw [List.mem_singleton.1 inLater]
    exact matching.enteredAt_lt_clock queued
  past entry member := by
    rcases List.mem_cons.1 member with rfl | old
    · exact Nat.lt_succ_self _
    · exact Nat.lt_succ_of_lt (matching.past entry old)
  bounded := by
    simp only [List.length_append, List.length_singleton]
    exact room
  positive := matching.positive

theorem clear (matching : Matches cache map) : Matches cache.clear { map with entries := [] } :=
  ⟨matching.sameCapacity, List.nodup_nil, List.Perm.nil, fun _ => rfl, List.Pairwise.nil,
    fun _ member => absurd member (List.not_mem_nil _), Nat.zero_le _, matching.positive⟩

/-- Every call answers as the map does and keeps the relation; none reaches undefined
behaviour. -/
theorem apply (matching : Matches cache map) (call : FifoCall) :
    ∃ next, cache.call call = some ((map.apply call).1, next) ∧ Matches next (map.apply call).2 := by
  cases call with
  | put key value =>
    cases found : map.find key with
    | some entry =>
      have present : cache.cacheMap key ≠ none := by simp [matching.sameValues, found]
      have applied : map.apply (.put key value) = (.done, map.update key value) := by
        simp [FifoMap.apply, found]
      rw [applied]
      refine ⟨_, ?_, matching.update present value⟩
      simp [FIFOCache.call, FIFOCache.put, present]
    | none =>
      have absent : cache.cacheMap key = none := by simp [matching.sameValues, found]
      by_cases full : cache.cacheQueue.length = cache.capacity
      · obtain ⟨front, rest, queue⟩ : ∃ front rest, cache.cacheQueue = front :: rest := by
          refine List.exists_cons_of_ne_nil fun empty => ?_
          have := matching.positive
          simp [empty, matching.sameCapacity] at full
          omega
        obtain ⟨victim, first, victimKey⟩ := matching.first_eq_front queue
        have lengths : rest.length + 1 = cache.capacity := by
          rw [← full, queue, List.length_cons]
        have sameCapacity := matching.sameCapacity
        have mapFull : map.entries.length ≥ map.capacity := by
          rw [matching.length_eq, queue, List.length_cons]; omega
        have applied : map.apply (.put key value) = (.done, (map.erase front).enter key value) := by
          simp [FifoMap.apply, found, mapFull, first, victimKey]
        rw [applied]
        have evicted := matching.evictFront queue
        refine ⟨_, ?_, evicted.enter (by simp [absent]) (by show rest.length < map.capacity; omega)
          value⟩
        simp [FIFOCache.call, FIFOCache.put, absent, lengths, FIFOCache.evict, queue]
      · have room : cache.cacheQueue.length < map.capacity := by
          have := matching.bounded
          rw [← matching.sameCapacity] at this ⊢
          omega
        have mapRoom : ¬ map.entries.length ≥ map.capacity := by
          rw [matching.length_eq]; omega
        have applied : map.apply (.put key value) = (.done, map.enter key value) := by
          simp [FifoMap.apply, found, mapRoom]
        rw [applied]
        refine ⟨_, ?_, matching.enter absent room value⟩
        simp [FIFOCache.call, FIFOCache.put, absent, full]
  | get key =>
    refine ⟨cache, ?_, matching⟩
    simp only [FIFOCache.call, FifoMap.apply, FIFOCache.get, matching.sameValues]
    cases map.find key <;> rfl
  | isEmpty =>
    refine ⟨cache, ?_, matching⟩
    have sameEmpty : cache.cacheQueue.isEmpty = map.entries.isEmpty := by
      have lengths := matching.length_eq
      cases queue : cache.cacheQueue <;> cases entries : map.entries <;> simp_all
    simp [FIFOCache.call, FifoMap.apply, FIFOCache.isEmpty, sameEmpty]
  | clear => exact ⟨_, rfl, matching.clear⟩

/-- The queue answers every call sequence as the map does, and ends matching it. -/
theorem runCalls (matching : Matches cache map) (calls : List FifoCall) :
    ∃ final, cache.runCalls calls = some ((map.runCalls calls).1, final) ∧
      Matches final (map.runCalls calls).2 := by
  induction calls generalizing cache map with
  | nil => exact ⟨cache, rfl, matching⟩
  | cons call rest ih =>
    obtain ⟨next, step, nextMatching⟩ := matching.apply call
    obtain ⟨final, run, finalMatching⟩ := ih nextMatching
    exact ⟨final, by simp [FIFOCache.runCalls, FifoMap.runCalls, step, run], finalMatching⟩

end Matches

/-- For every positive capacity the constructor returns a cache that answers every sequence
of `put`, `get`, `isEmpty` and `clear` calls as the reference map does, never reaching
undefined behaviour; its queue holds exactly the keys of its map, once each, in the order
they entered, and never more than `capacity` of them. -/
theorem fifoCache_matches_fifoMap (capacity : Nat) (positive : 0 < capacity) :
    ∃ cache, FIFOCache.create capacity = .ok cache ∧
      ∀ calls : List FifoCall, ∃ final,
        cache.runCalls calls = some (((FifoMap.empty capacity).runCalls calls).1, final) ∧
        Matches final ((FifoMap.empty capacity).runCalls calls).2 ∧
        ∀ key, (final.cacheMap key).isSome ↔ key ∈ final.cacheQueue := by
  have created : FIFOCache.create capacity = .ok ⟨capacity, fun _ => none, []⟩ := by
    simp [FIFOCache.create, Nat.pos_iff_ne_zero.1 positive]
  have initial : Matches ⟨capacity, fun _ => none, []⟩ (FifoMap.empty capacity) :=
    ⟨rfl, List.nodup_nil, List.Perm.nil, fun _ => rfl, List.Pairwise.nil,
      fun _ member => absurd member (List.not_mem_nil _), Nat.zero_le _, positive⟩
  refine ⟨_, created, fun calls => ?_⟩
  obtain ⟨final, run, matching⟩ := initial.runCalls calls
  exact ⟨final, run, matching, fun key => (matching.mem_queue_iff key).symm⟩

theorem capacityThree_matches_fifoMap :
    0 < 3 ∧
      ∃ cache, FIFOCache.create 3 = .ok cache ∧
        ∀ calls : List FifoCall, ∃ final,
          cache.runCalls calls = some (((FifoMap.empty 3).runCalls calls).1, final) ∧
          Matches final ((FifoMap.empty 3).runCalls calls).2 ∧
          ∀ key, (final.cacheMap key).isSome ↔ key ∈ final.cacheQueue :=
  ⟨by decide, fifoCache_matches_fifoMap 3 (by decide)⟩

/-- The calls of `main`. -/
def mainCalls : List FifoCall :=
  [.put 1 10, .put 2 20, .put 3 30, .get 1, .put 4 40, .get 1, .get 2, .get 3, .get 4,
    .put 5 50, .get 2, .put 6 60, .get 3, .get 4, .get 5, .get 6, .clear, .isEmpty]

example :
    (FIFOCache.create 3).toOption.bind (fun cache => (cache.runCalls mainCalls).map Prod.fst) =
      some [.done, .done, .done, .value 10, .done, .value (-1), .value 20, .value 30, .value 40,
        .done, .value (-1), .done, .value (-1), .value 40, .value 50, .value 60, .done,
        .flag true] := by
  decide

end DistributedCaching.Fifo
