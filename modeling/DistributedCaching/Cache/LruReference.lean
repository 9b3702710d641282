import Mathlib.Data.List.MinMax
import DistributedCaching.Cache.InMemoryStore

/-!
# Least-recently-used eviction

What `InMemoryStore` is for, stated without lists or iterators: a finite map from keys to a
value and the step at which the key was last touched. Each call is one step; `put` and a
successful `get` touch their key; a `put` of a new key into a full map first deletes the key
with the oldest touch step, which is also what `getLRUKey` names.

`Matches` relates the recency list to such a map: the same keys and values, and the list
ordered by strictly decreasing touch step. It is preserved by every call, so the list is an
implementation of the map, and through `InMemoryStore.Wf.runOps` so is the store.
-/

namespace DistributedCaching.Lru

/-- The reference map: entries `(key, value, touch step)` with distinct keys, and the step
of the next call. -/
structure LruMap where
  capacity : Nat
  entries : List (String × String × Nat)
  clock : Nat

namespace LruMap

def empty (capacity : Nat) : LruMap :=
  ⟨capacity, [], 0⟩

/-- The step at which a key was last touched. -/
def touchedAt (map : LruMap) (key : String) : Nat :=
  ((Recency.lookup map.entries key).map Prod.snd).getD 0

/-- An entry with the oldest touch step. -/
def oldest (map : LruMap) : Option (String × String × Nat) :=
  map.entries.argmin (fun entry => entry.2.2)

/-- The step of a call that touches nothing. -/
def tick (map : LruMap) : LruMap :=
  { map with clock := map.clock + 1 }

/-- A call that sets `key` to `value` and touches it. -/
def stamp (map : LruMap) (key value : String) : LruMap :=
  { map with
    entries := (key, value, map.clock) :: Recency.without map.entries key,
    clock := map.clock + 1 }

def erase (map : LruMap) (key : String) : LruMap :=
  { map with entries := Recency.without map.entries key }

def apply (map : LruMap) : StoreOp → Option Reply × LruMap
  | .put key value =>
      match Recency.lookup map.entries key with
      | some _ => (some .done, map.stamp key value)
      | none =>
          if map.entries.length ≥ map.capacity then
            match map.oldest with
            | some victim => (some .done, (map.erase victim.1).stamp key value)
            | none => (some .done, map.stamp key value)
          else
            (some .done, map.stamp key value)
  | .get key =>
      match Recency.lookup map.entries key with
      | some (value, _) => (some (.value value), map.stamp key value)
      | none => (none, map.tick)
  | .remove key =>
      match Recency.lookup map.entries key with
      | some _ => (some .done, (map.erase key).tick)
      | none => (none, map.tick)
  | .exists key => (some (.flag (Recency.lookup map.entries key).isSome), map.tick)
  | .size => (some (.count map.entries.length), map.tick)
  | .clear => (some .done, { map with entries := [] }.tick)
  | .getLRUKey =>
      match map.oldest with
      | some victim => (some (.key victim.1), map.tick)
      | none => (none, map.tick)

/-- The replies of a sequence of calls. -/
def runOps (map : LruMap) : List StoreOp → List (Option Reply)
  | [] => []
  | op :: rest => (map.apply op).1 :: (map.apply op).2.runOps rest

@[simp]
theorem capacity_apply (map : LruMap) (op : StoreOp) : (map.apply op).2.capacity = map.capacity := by
  cases op <;> simp only [apply] <;> repeat' split
  all_goals rfl

end LruMap

/-- The recency list implements the map: same keys and values, touch steps strictly
decreasing along the list and all in the past, within a positive capacity. -/
structure Matches (entries : List (String × String)) (map : LruMap) : Prop where
  keysNodup : (entries.map Prod.fst).Nodup
  sameKeys : (map.entries.map Prod.fst).Perm (entries.map Prod.fst)
  sameValues : ∀ key, (Recency.lookup map.entries key).map Prod.fst = Recency.lookup entries key
  newestFirst : (entries.map (fun entry => map.touchedAt entry.1)).Pairwise (· > ·)
  past : ∀ entry ∈ map.entries, entry.2.2 < map.clock
  bounded : entries.length ≤ map.capacity
  positive : 0 < map.capacity

namespace LruMap

variable (map : LruMap) {key other : String}

@[simp]
theorem touchedAt_stamp_self (value : String) : (map.stamp key value).touchedAt key = map.clock := by
  simp [touchedAt, stamp, Recency.lookup_cons]

theorem touchedAt_stamp_of_ne (value : String) (different : other ≠ key) :
    (map.stamp key value).touchedAt other = map.touchedAt other := by
  simp [touchedAt, stamp, Recency.lookup_cons, Recency.lookup_without, different, Ne.symm different]

theorem touchedAt_erase_of_ne (different : other ≠ key) :
    (map.erase key).touchedAt other = map.touchedAt other := by
  simp [touchedAt, erase, Recency.lookup_without, different]

end LruMap

namespace Matches

variable {entries : List (String × String)} {map : LruMap}

theorem mapKeysNodup (matching : Matches entries map) : (map.entries.map Prod.fst).Nodup :=
  matching.sameKeys.nodup_iff.2 matching.keysNodup

theorem length_eq (matching : Matches entries map) : map.entries.length = entries.length := by
  simpa using matching.sameKeys.length_eq

theorem touchedAt_of_mem (matching : Matches entries map) {entry : String × String × Nat}
    (member : entry ∈ map.entries) : map.touchedAt entry.1 = entry.2.2 := by
  simp [LruMap.touchedAt, Recency.lookup_of_mem matching.mapKeysNodup member]

theorem touchedAt_lt_clock (matching : Matches entries map) {key : String}
    (present : key ∈ entries.map Prod.fst) : map.touchedAt key < map.clock := by
  obtain ⟨entry, member, rfl⟩ := List.mem_map.1 (matching.sameKeys.mem_iff.2 present)
  rw [matching.touchedAt_of_mem member]
  exact matching.past entry member

/-- The entries of the other keys stay newest first, read in any map that keeps their touch
steps. -/
theorem newestFirst_without (matching : Matches entries map) (key : String) {changed : LruMap}
    (kept : ∀ other, other ≠ key → changed.touchedAt other = map.touchedAt other) :
    ((Recency.without entries key).map (fun entry => changed.touchedAt entry.1)).Pairwise
      (· > ·) := by
  rw [List.map_congr_left fun entry member => kept entry.1 (Recency.ne_of_mem_without member)]
  exact matching.newestFirst.sublist ((List.filter_sublist _).map _)

/-- A call that touches nothing keeps the relation. -/
theorem tick (matching : Matches entries map) : Matches entries map.tick :=
  { matching with past := fun entry member => Nat.lt_succ_of_lt (matching.past entry member) }

/-- Touching a key on both sides keeps the relation: it becomes the newest entry. -/
theorem stamp (matching : Matches entries map) (key value : String)
    (fits : ((key, value) :: Recency.without entries key).length ≤ map.capacity) :
    Matches ((key, value) :: Recency.without entries key) (map.stamp key value) where
  keysNodup := by
    rw [List.map_cons, Recency.keys_without]
    exact List.nodup_cons.2 ⟨by simp, matching.keysNodup.filter _⟩
  sameKeys := by
    simp only [LruMap.stamp, List.map_cons, Recency.keys_without]
    exact (matching.sameKeys.filter _).cons key
  sameValues other := by
    simp only [LruMap.stamp, Recency.lookup_cons, Recency.lookup_without]
    split_ifs <;> simp [matching.sameValues]
  newestFirst := by
    rw [List.map_cons, List.pairwise_cons, LruMap.touchedAt_stamp_self]
    refine ⟨fun touched member => ?_,
      matching.newestFirst_without key fun _ different => map.touchedAt_stamp_of_ne value different⟩
    obtain ⟨entry, entryMember, rfl⟩ := List.mem_map.1 member
    rw [map.touchedAt_stamp_of_ne value (Recency.ne_of_mem_without entryMember)]
    exact matching.touchedAt_lt_clock
      (List.mem_map_of_mem Prod.fst (List.mem_of_mem_filter entryMember))
  past entry member := by
    simp only [LruMap.stamp, List.mem_cons] at member
    rcases member with rfl | member
    · exact Nat.lt_succ_self _
    · exact Nat.lt_succ_of_lt (matching.past entry (List.mem_of_mem_filter member))
  bounded := fits
  positive := matching.positive

/-- Deleting a key on both sides keeps the relation. -/
theorem erase (matching : Matches entries map) (key : String) :
    Matches (Recency.without entries key) (map.erase key) where
  keysNodup := by
    rw [Recency.keys_without]
    exact matching.keysNodup.filter _
  sameKeys := by
    simp only [LruMap.erase, Recency.keys_without]
    exact matching.sameKeys.filter _
  sameValues other := by
    simp only [LruMap.erase, Recency.lookup_without]
    split_ifs <;> simp [matching.sameValues]
  newestFirst :=
    matching.newestFirst_without key fun _ different => map.touchedAt_erase_of_ne different
  past entry member := matching.past entry (List.mem_of_mem_filter member)
  bounded := le_trans (List.length_filter_le _ _) matching.bounded
  positive := matching.positive

/-- A map without entries matches the empty list. -/
theorem ofNoEntries (positive : 0 < map.capacity) (noEntries : map.entries = []) : Matches [] map :=
  ⟨List.nodup_nil, by simp [noEntries], fun _ => by rw [noEntries]; rfl, List.Pairwise.nil,
    fun _ member => by simp [noEntries] at member, Nat.zero_le _, positive⟩

theorem lookup_map_eq_none (matching : Matches entries map) {key : String}
    (absent : Recency.lookup entries key = none) : Recency.lookup map.entries key = none := by
  simpa [absent] using matching.sameValues key

theorem lookup_map_eq_some (matching : Matches entries map) {key value : String}
    (found : Recency.lookup entries key = some value) :
    ∃ touched, Recency.lookup map.entries key = some (value, touched) := by
  have sameValue := matching.sameValues key
  rw [found, Option.map_eq_some'] at sameValue
  obtain ⟨⟨stored, touched⟩, mapFound, rfl⟩ := sameValue
  exact ⟨touched, mapFound⟩

theorem oldest_eq_none (matching : Matches entries map) (empty : entries = []) :
    map.oldest = none :=
  List.argmin_eq_none.2 (List.length_eq_zero.1 (by rw [matching.length_eq, empty]; rfl))

/-- The oldest entry of the map has the key of the last entry of the list. -/
theorem oldest_eq_last (matching : Matches entries map) {init : List (String × String)}
    {last : String × String} (split : entries = init ++ [last]) :
    ∃ victim, map.oldest = some victim ∧ victim.1 = last.1 := by
  have nonempty : map.entries ≠ [] := fun empty => by
    simpa [empty, split] using matching.length_eq
  have hasOldest : map.oldest ≠ none := mt List.argmin_eq_none.1 nonempty
  obtain ⟨victim, found⟩ := Option.ne_none_iff_exists'.1 hasOldest
  refine ⟨victim, found, by_contra fun different => ?_⟩
  have victimMember := List.argmin_mem found
  have victimKey : victim.1 ∈ init.map Prod.fst := by
    have := matching.sameKeys.mem_iff.1 (List.mem_map_of_mem Prod.fst victimMember)
    simpa [split, different] using this
  obtain ⟨lastEntry, lastMember, lastKey⟩ :=
    List.mem_map.1 (matching.sameKeys.mem_iff.2 (by simp [split] : last.1 ∈ entries.map Prod.fst))
  have newer : map.touchedAt victim.1 > map.touchedAt last.1 := by
    have ordered := matching.newestFirst
    rw [split, List.map_append, List.pairwise_append] at ordered
    obtain ⟨initEntry, initMember, initKey⟩ := List.mem_map.1 victimKey
    exact ordered.2.2 _ (List.mem_map.2 ⟨initEntry, initMember, by rw [initKey]⟩) _ (by simp)
  rw [matching.touchedAt_of_mem victimMember, ← lastKey, matching.touchedAt_of_mem lastMember]
    at newer
  exact List.not_lt_of_mem_argmin lastMember found newer

theorem fits_of_found (matching : Matches entries map) {key stored : String}
    (found : Recency.lookup entries key = some stored) (value : String) :
    ((key, value) :: Recency.without entries key).length ≤ map.capacity := by
  have sameLength := Recency.length_without_of_mem matching.keysNodup
    (Recency.mem_keys_of_lookup_eq_some found)
  simpa [sameLength] using matching.bounded

/-- A new key put into a full list: the list drops its last entry, and the map its oldest,
which has the same key. -/
theorem evictThenStamp {init : List (String × String)} {last : String × String}
    (matching : Matches (init ++ [last]) map) {key : String} (value : String)
    (absent : key ∉ (init ++ [last]).map Prod.fst) (full : (init ++ [last]).length ≥ map.capacity) :
    Matches (Recency.trim map.capacity ((key, value) :: (init ++ [last])))
      ((map.erase last.1).stamp key value) := by
  have keyAbsent : key ∉ init.map Prod.fst := fun member => absent (by simp [member])
  have erased := matching.erase last.1
  rw [Recency.without_last matching.keysNodup] at erased
  have restamped := erased.stamp key value
  rw [Recency.without_of_not_mem _ _ keyAbsent] at restamped
  have lengths : init.length + 1 = map.capacity := by
    have := matching.bounded
    simp only [List.length_append, List.length_singleton] at this full
    omega
  rw [Recency.trim_of_lt _ (by simp; omega), ← List.cons_append, List.dropLast_concat]
  exact restamped (by simp [LruMap.erase, lengths])

/-- A `put` keeps the relation: an update or an insertion with room touches the key, and an
insertion into a full list drops its last entry, which is the map's oldest. -/
theorem put (matching : Matches entries map) (key value : String) :
    Matches (Recency.trim map.capacity ((key, value) :: Recency.without entries key))
      (map.apply (.put key value)).2 := by
  cases found : Recency.lookup entries key with
  | some stored =>
      obtain ⟨touched, mapFound⟩ := matching.lookup_map_eq_some found
      have fits := matching.fits_of_found found value
      simp only [LruMap.apply, mapFound, Recency.trim_of_le _ fits]
      exact matching.stamp key value fits
  | none =>
      have absent := (Recency.lookup_eq_none_iff _ _).1 found
      have stamped := matching.stamp key value
      rw [Recency.without_of_not_mem _ _ absent] at stamped ⊢
      simp only [LruMap.apply, matching.lookup_map_eq_none found, matching.length_eq]
      split
      · rename_i full
        obtain rfl | ⟨init, last, rfl⟩ := List.eq_nil_or_concat entries
        · exact absurd full (by simpa [Nat.pos_iff_ne_zero] using matching.positive)
        rw [List.concat_eq_append] at matching absent full ⊢
        obtain ⟨victim, oldestIs, victimKey⟩ := matching.oldest_eq_last rfl
        simp only [oldestIs, victimKey]
        exact matching.evictThenStamp value absent full
      · rw [Recency.trim_of_le _ (by simp; omega)]
        exact stamped (by simp; omega)

/-- Every call gives the same reply on both sides and keeps the relation. -/
theorem apply (matching : Matches entries map) (op : StoreOp) :
    (Recency.apply map.capacity entries op).1 = (map.apply op).1 ∧
      Matches (Recency.apply map.capacity entries op).2 (map.apply op).2 := by
  cases op with
  | put key value =>
      refine ⟨?_, matching.put key value⟩
      simp only [Recency.apply, LruMap.apply]
      split <;> (try split) <;> (try split) <;> rfl
  | get key =>
      cases found : Recency.lookup entries key with
      | none =>
          simp only [Recency.apply, LruMap.apply, found, matching.lookup_map_eq_none found]
          exact ⟨trivial, matching.tick⟩
      | some value =>
          obtain ⟨touched, mapFound⟩ := matching.lookup_map_eq_some found
          simp only [Recency.apply, LruMap.apply, found, mapFound]
          exact ⟨trivial, matching.stamp key value (matching.fits_of_found found value)⟩
  | remove key =>
      cases found : Recency.lookup entries key with
      | none =>
          simp only [Recency.apply, LruMap.apply, found, matching.lookup_map_eq_none found]
          exact ⟨trivial, matching.tick⟩
      | some value =>
          obtain ⟨touched, mapFound⟩ := matching.lookup_map_eq_some found
          simp only [Recency.apply, LruMap.apply, found, mapFound]
          exact ⟨trivial, (matching.erase key).tick⟩
  | «exists» key =>
      simp only [Recency.apply, LruMap.apply, ← matching.sameValues key, Option.isSome_map']
      exact ⟨trivial, matching.tick⟩
  | size =>
      simp only [Recency.apply, LruMap.apply, matching.length_eq]
      exact ⟨trivial, matching.tick⟩
  | clear => exact ⟨rfl, ofNoEntries matching.positive rfl⟩
  | getLRUKey =>
      obtain rfl | ⟨init, last, rfl⟩ := List.eq_nil_or_concat entries
      · simp only [Recency.apply, LruMap.apply, matching.oldest_eq_none rfl, List.getLast?_nil]
        exact ⟨trivial, matching.tick⟩
      · rw [List.concat_eq_append] at matching ⊢
        obtain ⟨victim, oldestIs, victimKey⟩ := matching.oldest_eq_last rfl
        simp only [Recency.apply, LruMap.apply, oldestIs, List.getLast?_concat, victimKey]
        exact ⟨trivial, matching.tick⟩

/-- The list layer answers every call sequence as the map does. -/
theorem runOps (matching : Matches entries map) (ops : List StoreOp) :
    Recency.runOps map.capacity entries ops = map.runOps ops := by
  induction ops generalizing entries map with
  | nil => rfl
  | cons op rest inductionHypothesis =>
      have step := matching.apply op
      have restAgrees := inductionHypothesis step.2
      rw [LruMap.capacity_apply] at restAgrees
      rw [Recency.runOps, LruMap.runOps, step.1, restAgrees]

end Matches

/-- For every positive capacity the constructor returns a store that answers every call
sequence as the reference map does: the same replies, and the map's failures thrown with the
calls' texts. It never holds more entries than its capacity. -/
theorem inMemoryStore_behaves_as_lruMap (capacity : Nat) (positive : 0 < capacity) :
    ∃ store, InMemoryStore.create capacity = .ok store ∧
      ∀ ops : List StoreOp,
        store.runOps ops =
            List.zipWith Outcome.ofOption ops ((LruMap.empty capacity).runOps ops) ∧
          (store.afterOps ops).size ≤ capacity := by
  have created : InMemoryStore.create capacity = .ok ⟨capacity, fun _ => none, [], 0⟩ := by
    simp [InMemoryStore.create, Nat.pos_iff_ne_zero.1 positive]
  obtain ⟨wf, noEntries, sameSize⟩ := InMemoryStore.create_wf created
  refine ⟨_, created, fun ops => ⟨?_, ?_⟩⟩
  · rw [wf.runOps, noEntries, sameSize]
    have initial : Matches [] (LruMap.empty capacity) := Matches.ofNoEntries positive rfl
    exact congrArg _ (initial.runOps ops)
  · obtain ⟨finalWf, finalMaxSize⟩ := wf.afterOps ops
    exact finalWf.bounded.trans_eq (finalMaxSize.trans sameSize)

/-- The calls of the source's demonstration: three puts, a fourth that evicts, a `get`, a
`size`, a `remove` and a `clear`. -/
def mainScript : List StoreOp :=
  [.put "key1" "value1", .put "key2" "value2", .put "key3" "value3", .put "key4" "value4",
    .get "key2", .size, .remove "key3", .clear]

theorem mainScript_behaves_as_lruMap :
    ∃ store, InMemoryStore.create 3 = .ok store ∧
      store.runOps mainScript =
        List.zipWith Outcome.ofOption mainScript ((LruMap.empty 3).runOps mainScript) := by
  obtain ⟨store, created, behaves⟩ := inMemoryStore_behaves_as_lruMap 3 (by decide)
  exact ⟨store, created, (behaves mainScript).1⟩

end DistributedCaching.Lru
