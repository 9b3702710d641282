import Mathlib.Data.List.Nodup

/-!
# The recency list of the LRU store

The interface of `InMemoryStore.cpp` and what its calls compute on the list of entries,
most recently used first, that `cache_list` holds. The store itself also keeps a map from
keys to list iterators; `InMemoryStore.lean` proves that the map only ever speeds up what
this list computes, and `LruReference.lean` that the list computes least-recently-used
eviction.
-/

namespace DistributedCaching.Lru

/-- A call of the public interface of `InMemoryStore`. -/
inductive StoreOp where
  | put (key value : String)
  | get (key : String)
  | remove (key : String)
  | «exists» (key : String)
  | size
  | clear
  | getLRUKey
  deriving DecidableEq, Repr

/-- What a call returns when it neither throws nor reaches undefined behaviour. -/
inductive Reply where
  | done
  | value (value : String)
  | flag (present : Bool)
  | count (size : Nat)
  | key (key : String)
  deriving DecidableEq, Repr

/-- How a call ends: it returns, throws a `runtime_error` with its `what()` text, or
reaches undefined behaviour (an iterator of the map that designates no node). -/
inductive Outcome where
  | returned (reply : Reply)
  | thrown (what : String)
  | undefined
  deriving DecidableEq, Repr

/-- The text of the one exception each call can throw. -/
def StoreOp.failure : StoreOp → String
  | .get _ => "Key not found in cache"
  | .remove _ => "Key not found for removal"
  | .getLRUKey => "Cache is empty"
  | _ => ""

/-- A call's outcome from its reply, or from its failure when there is none. -/
def Outcome.ofOption (op : StoreOp) : Option Reply → Outcome
  | some reply => .returned reply
  | none => .thrown op.failure

namespace Recency

section Keyed

variable {β : Type}

/-- The value of a key in a list of keyed entries. -/
def lookup (entries : List (String × β)) (key : String) : Option β :=
  (entries.find? (fun entry => entry.1 == key)).map Prod.snd

/-- The entries of the other keys. -/
def without (entries : List (String × β)) (key : String) : List (String × β) :=
  entries.filter (fun entry => entry.1 != key)

end Keyed

variable (capacity : Nat)

/-- `evictIfNecessary` on the list: drop the last entry when the list is over capacity. -/
def trim (entries : List (String × String)) : List (String × String) :=
  if entries.length > capacity then entries.dropLast else entries

/-- One call on the entries: its reply (`none` when it throws) and the entries after it. -/
def apply (entries : List (String × String)) : StoreOp → Option Reply × List (String × String)
  | .put key value => (some .done, trim capacity ((key, value) :: without entries key))
  | .get key =>
      match lookup entries key with
      | some value => (some (.value value), (key, value) :: without entries key)
      | none => (none, entries)
  | .remove key =>
      match lookup entries key with
      | some _ => (some .done, without entries key)
      | none => (none, entries)
  | .exists key => (some (.flag (lookup entries key).isSome), entries)
  | .size => (some (.count entries.length), entries)
  | .clear => (some .done, [])
  | .getLRUKey =>
      match entries.getLast? with
      | some last => (some (.key last.1), entries)
      | none => (none, entries)

/-- The replies of a sequence of calls. -/
def runOps (entries : List (String × String)) : List StoreOp → List (Option Reply)
  | [] => []
  | op :: rest => (apply capacity entries op).1 :: runOps (apply capacity entries op).2 rest

/-! ### Lookup and removal -/

section Keyed

variable {β : Type}

theorem lookup_cons (key other : String) (value : β) (entries : List (String × β)) :
    lookup ((key, value) :: entries) other =
      if key = other then some value else lookup entries other := by
  by_cases same : key = other <;> simp [lookup, same]

theorem lookup_eq_none_iff (entries : List (String × β)) (key : String) :
    lookup entries key = none ↔ key ∉ entries.map Prod.fst := by
  simp only [lookup, Option.map_eq_none', List.find?_eq_none, beq_iff_eq, List.mem_map]
  constructor
  · rintro absent ⟨entry, member, rfl⟩
    exact absent entry member rfl
  · rintro absent entry member rfl
    exact absent ⟨entry, member, rfl⟩

theorem mem_of_lookup_eq_some {entries : List (String × β)} {key : String} {value : β}
    (found : lookup entries key = some value) : (key, value) ∈ entries := by
  obtain ⟨entry, entryFound, rfl⟩ := Option.map_eq_some'.1 found
  obtain rfl : entry.1 = key := by simpa using List.find?_some entryFound
  exact List.mem_of_find?_eq_some entryFound

theorem mem_keys_of_lookup_eq_some {entries : List (String × β)} {key : String} {value : β}
    (found : lookup entries key = some value) : key ∈ entries.map Prod.fst :=
  List.mem_map_of_mem Prod.fst (mem_of_lookup_eq_some found)

theorem without_cons (head : String × β) (tail : List (String × β)) (key : String) :
    without (head :: tail) key =
      if head.1 = key then without tail key else head :: without tail key := by
  by_cases removed : head.1 = key <;> simp [without, removed]

theorem lookup_without (entries : List (String × β)) (key other : String) :
    lookup (without entries key) other = if other = key then none else lookup entries other := by
  induction entries with
  | nil => simp [lookup, without]
  | cons head tail inductionHypothesis =>
      obtain ⟨headKey, headValue⟩ := head
      rw [without_cons]
      by_cases removed : headKey = key <;> by_cases same : other = key <;>
        simp_all [lookup_cons, eq_comm]

theorem ne_of_mem_without {entries : List (String × β)} {key : String} {entry : String × β}
    (member : entry ∈ without entries key) : entry.1 ≠ key := by
  simpa using (List.mem_filter.1 member).2

theorem keys_without (entries : List (String × β)) (key : String) :
    (without entries key).map Prod.fst =
      (entries.map Prod.fst).filter (fun other => other != key) := by
  simp only [without, List.filter_map]
  rfl

theorem without_of_not_mem (entries : List (String × β)) (key : String)
    (absent : key ∉ entries.map Prod.fst) : without entries key = entries := by
  refine List.filter_eq_self.2 fun entry member => ?_
  have : entry.1 ≠ key := fun same => absent (same ▸ List.mem_map_of_mem Prod.fst member)
  simpa using this

theorem lookup_of_mem {entries : List (String × β)} (keysNodup : (entries.map Prod.fst).Nodup)
    {key : String} {value : β} (member : (key, value) ∈ entries) :
    lookup entries key = some value := by
  induction entries with
  | nil => cases member
  | cons head tail inductionHypothesis =>
      obtain ⟨headKey, headValue⟩ := head
      rw [List.map_cons, List.nodup_cons] at keysNodup
      rw [lookup_cons]
      rcases List.mem_cons.1 member with equal | inTail
      · cases equal
        simp
      · have different : headKey ≠ key := fun same =>
          keysNodup.1 (List.mem_map.2 ⟨_, inTail, same.symm⟩)
        rw [if_neg different]
        exact inductionHypothesis keysNodup.2 inTail

theorem length_without_of_mem {entries : List (String × β)}
    (keysNodup : (entries.map Prod.fst).Nodup) {key : String}
    (present : key ∈ entries.map Prod.fst) : (without entries key).length + 1 = entries.length := by
  induction entries with
  | nil => cases present
  | cons head tail inductionHypothesis =>
      rw [List.map_cons, List.nodup_cons] at keysNodup
      rw [List.map_cons, List.mem_cons] at present
      rw [without_cons]
      by_cases same : head.1 = key
      · rw [if_pos same, without_of_not_mem tail key (same ▸ keysNodup.1), List.length_cons]
      · rw [if_neg same, List.length_cons, List.length_cons,
          inductionHypothesis keysNodup.2 (present.resolve_left (Ne.symm same))]

/-- With distinct keys, the entries of the last entry's key are that entry alone. -/
theorem without_last {init : List (String × β)} {last : String × β}
    (keysNodup : ((init ++ [last]).map Prod.fst).Nodup) : without (init ++ [last]) last.1 = init := by
  rw [List.map_append, List.nodup_append] at keysNodup
  have lastAbsent : last.1 ∉ init.map Prod.fst :=
    fun member => keysNodup.2.2 member (List.mem_singleton_self _)
  have dropped : without [last] last.1 = [] := by
    simp [without]
  rw [without, List.filter_append]
  show without init last.1 ++ without [last] last.1 = init
  rw [without_of_not_mem _ _ lastAbsent, dropped, List.append_nil]

end Keyed

theorem trim_of_le {entries : List (String × String)} (fits : entries.length ≤ capacity) :
    trim capacity entries = entries := by
  simp [trim, Nat.not_lt.2 fits]

theorem trim_of_lt {entries : List (String × String)} (over : capacity < entries.length) :
    trim capacity entries = entries.dropLast := by
  simp [trim, over]

end Recency

end DistributedCaching.Lru
