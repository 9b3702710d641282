import Mathlib.Algebra.Order.Ring.Int
import Mathlib.Data.List.MinMax
import Mathlib.Data.List.Perm.Basic

/-!
# Last-write-wins conflict resolution

`LastWriteWins.cpp` keeps, per key, a value with the `system_clock` time point of the write
that produced it; a time point is modelled by its tick count. `resolve_conflict` installs an
incoming entry when the key is absent or the incoming timestamp is strictly newer, and keeps
the stored entry otherwise; `put` does the same with the current clock reading.

Replicas that apply the same updates in different orders always agree on the timestamp they
keep: it is the largest one offered. They agree on the value only when updates with equal
timestamps carry equal values. Between two different values with the same newest timestamp
there is no tie-break, and the one applied first stays.
-/

namespace DistributedCaching.LastWriteWins

/-- A stored value together with the time point of the write that produced it. -/
structure CacheValue where
  value : String
  timestamp : Int
  deriving DecidableEq, Repr

/-- The key-value table (`unordered_map<string, CacheValue> cache`). -/
structure LastWriteWinsCache where
  cache : String → Option CacheValue

namespace LastWriteWinsCache

/-- The empty table a node starts with. -/
def empty : LastWriteWinsCache := ⟨fun _ => none⟩

/-- `cache[key] = entry`. -/
def set (table : LastWriteWinsCache) (key : String) (entry : CacheValue) :
    LastWriteWinsCache :=
  ⟨fun other => if other = key then some entry else table.cache other⟩

@[simp]
theorem set_cache_self (table : LastWriteWinsCache) (key : String) (entry : CacheValue) :
    (table.set key entry).cache key = some entry := by
  simp [set]

@[simp]
theorem set_cache_of_ne (table : LastWriteWinsCache) {key other : String}
    (entry : CacheValue) (different : other ≠ key) :
    (table.set key entry).cache other = table.cache other := by
  simp [set, different]

def resolveConflict (table : LastWriteWinsCache) (key incomingValue : String)
    (incomingTimestamp : Int) : LastWriteWinsCache :=
  match table.cache key with
  | none => table.set key ⟨incomingValue, incomingTimestamp⟩
  | some current =>
      if incomingTimestamp > current.timestamp then
        table.set key ⟨incomingValue, incomingTimestamp⟩
      else
        table

/-- `put` stamped with the clock reading `now` taken under the lock. -/
def put (table : LastWriteWinsCache) (key value : String) (now : Int) :
    LastWriteWinsCache :=
  match table.cache key with
  | none => table.set key ⟨value, now⟩
  | some current =>
      if now > current.timestamp then table.set key ⟨value, now⟩ else table

def get (table : LastWriteWinsCache) (key : String) : String :=
  match table.cache key with
  | some current => current.value
  | none => "Key not found"

/-- A local `put` resolves exactly as an incoming update stamped with the same time point. -/
theorem put_eq_resolveConflict (table : LastWriteWinsCache) (key value : String) (now : Int) :
    table.put key value now = table.resolveConflict key value now :=
  rfl

/-- Apply incoming updates for one key, in list order. -/
def applyUpdates (table : LastWriteWinsCache) (key : String) (updates : List CacheValue) :
    LastWriteWinsCache :=
  updates.foldl (fun current update =>
    current.resolveConflict key update.value update.timestamp) table

end LastWriteWinsCache

/-! ## The entry of one key -/

/-- What `resolve_conflict` leaves for its key, given the entry stored before. -/
def keepNewer : Option CacheValue → CacheValue → Option CacheValue
  | none, incoming => some incoming
  | some current, incoming =>
      if incoming.timestamp > current.timestamp then some incoming else some current

/-- The largest timestamp seen so far, as `keepNewer` tracks it. -/
def newestTimestamp : Option Int → Int → Option Int
  | none, incoming => some incoming
  | some current, incoming => some (max current incoming)

namespace LastWriteWinsCache

theorem resolveConflict_cache_self (table : LastWriteWinsCache) (key : String)
    (update : CacheValue) :
    (table.resolveConflict key update.value update.timestamp).cache key =
      keepNewer (table.cache key) update := by
  unfold resolveConflict
  cases stored : table.cache key with
  | none => simp [keepNewer]
  | some current =>
      by_cases newer : update.timestamp > current.timestamp
      · simp [keepNewer, newer]
      · simp [keepNewer, newer, stored]

theorem resolveConflict_cache_of_ne (table : LastWriteWinsCache) {key other : String}
    (incomingValue : String) (incomingTimestamp : Int) (different : other ≠ key) :
    (table.resolveConflict key incomingValue incomingTimestamp).cache other =
      table.cache other := by
  unfold resolveConflict
  split
  · exact set_cache_of_ne _ _ different
  · split
    · exact set_cache_of_ne _ _ different
    · rfl

theorem applyUpdates_cache_self (table : LastWriteWinsCache) (key : String)
    (updates : List CacheValue) :
    (table.applyUpdates key updates).cache key = updates.foldl keepNewer (table.cache key) := by
  induction updates generalizing table with
  | nil => rfl
  | cons update rest inductionHypothesis =>
      simp only [applyUpdates, List.foldl_cons] at inductionHypothesis ⊢
      rw [inductionHypothesis, resolveConflict_cache_self]

/-- Updates for one key leave every other key alone. -/
theorem applyUpdates_cache_of_ne (table : LastWriteWinsCache) {key other : String}
    (updates : List CacheValue) (different : other ≠ key) :
    (table.applyUpdates key updates).cache other = table.cache other := by
  induction updates generalizing table with
  | nil => rfl
  | cons update rest inductionHypothesis =>
      simp only [applyUpdates, List.foldl_cons] at inductionHypothesis ⊢
      rw [inductionHypothesis, resolveConflict_cache_of_ne _ _ _ different]

end LastWriteWinsCache

/-! ## Order independence -/

theorem keepNewer_timestamp (stored : Option CacheValue) (update : CacheValue) :
    (keepNewer stored update).map CacheValue.timestamp =
      newestTimestamp (stored.map CacheValue.timestamp) update.timestamp := by
  cases stored with
  | none => rfl
  | some current =>
      simp only [keepNewer, newestTimestamp]
      split_ifs <;> simp only [Option.map_some', Option.some.injEq] <;> omega

theorem foldl_keepNewer_timestamp (stored : Option CacheValue) (updates : List CacheValue) :
    (updates.foldl keepNewer stored).map CacheValue.timestamp =
      (updates.map CacheValue.timestamp).foldl newestTimestamp
        (stored.map CacheValue.timestamp) := by
  induction updates generalizing stored with
  | nil => rfl
  | cons update rest inductionHypothesis =>
      rw [List.foldl_cons, inductionHypothesis, keepNewer_timestamp]
      rfl

/-- `resolve_conflict` keeps the stored entry unless the incoming one is strictly newer: the
step of `List.argmax` by timestamp, which keeps the first of equally newest entries. -/
theorem keepNewer_eq_argAux :
    keepNewer = List.argAux fun incoming current : CacheValue =>
      current.timestamp < incoming.timestamp := by
  funext stored incoming
  cases stored <;> rfl

theorem newestTimestamp_right_comm (seen : Option Int) (first second : Int) :
    newestTimestamp (newestTimestamp seen first) second =
      newestTimestamp (newestTimestamp seen second) first := by
  cases seen <;> simp only [newestTimestamp, Option.some.injEq] <;> omega

/-- Two updates commute unless they share a timestamp and differ. -/
theorem keepNewer_right_comm (stored : Option CacheValue) {first second : CacheValue}
    (tieAgrees : first.timestamp = second.timestamp → first.value = second.value) :
    keepNewer (keepNewer stored first) second = keepNewer (keepNewer stored second) first := by
  have same : first.timestamp = second.timestamp → first = second := fun tied => by
    cases first
    cases second
    simp_all
  cases stored with
  | none =>
      simp only [keepNewer]
      split_ifs <;> first | omega | rfl | exact congrArg some (same (by omega))
  | some current =>
      simp only [keepNewer]
      split_ifs <;> simp only [keepNewer] <;> split_ifs <;>
        first | omega | rfl | exact congrArg some (same (by omega))

namespace LastWriteWinsCache

/-- What a key holds after updates is the first entry with the newest timestamp among the
stored entry and the updates, in the order they are applied (`List.argmax`). -/
theorem applyUpdates_cache_argmax (table : LastWriteWinsCache) (key : String)
    (updates : List CacheValue) :
    (table.applyUpdates key updates).cache key =
      ((table.cache key).toList ++ updates).argmax CacheValue.timestamp := by
  rw [applyUpdates_cache_self, List.argmax, List.foldl_append, ← keepNewer_eq_argAux]
  cases table.cache key <;> rfl

/-- Replicas that apply the same updates for a key in two different orders keep the same
timestamp for it, and the same value as well when updates with equal timestamps carry equal
values. From any state, the entry kept is the first with the newest timestamp among the
stored entry and the updates in the order applied: between equal newest timestamps with
different values, the one met first stays. -/
theorem applyUpdates_perm (table : LastWriteWinsCache) (key : String)
    {updates reordered : List CacheValue} (permuted : updates.Perm reordered) :
    ((table.applyUpdates key updates).cache key).map CacheValue.timestamp =
        ((table.applyUpdates key reordered).cache key).map CacheValue.timestamp ∧
      ((∀ first ∈ updates, ∀ second ∈ updates,
          first.timestamp = second.timestamp → first.value = second.value) →
        (table.applyUpdates key updates).cache key =
          (table.applyUpdates key reordered).cache key) ∧
      (table.applyUpdates key updates).cache key =
        ((table.cache key).toList ++ updates).argmax CacheValue.timestamp := by
  refine ⟨?_, fun tiesAgree => ?_, applyUpdates_cache_argmax table key updates⟩
  · simp only [applyUpdates_cache_self, foldl_keepNewer_timestamp]
    exact (permuted.map _).foldl_eq' (fun _ _ _ _ seen => newestTimestamp_right_comm seen _ _) _
  · simp only [applyUpdates_cache_self]
    exact permuted.foldl_eq' (fun first firstMember second secondMember stored =>
      keepNewer_right_comm stored (tiesAgree first firstMember second secondMember)) _

end LastWriteWinsCache

/-- The writes of `main`: two puts and the conflict dated five seconds ahead, in ticks. -/
def mainUpdates : List CacheValue :=
  [⟨"value1", 100⟩, ⟨"value2", 200⟩, ⟨"conflict_value", 5200⟩]

theorem mainUpdates_reversed_agree :
    (LastWriteWinsCache.empty.applyUpdates "key1" mainUpdates).cache "key1" =
      (LastWriteWinsCache.empty.applyUpdates "key1" mainUpdates.reverse).cache "key1" :=
  (LastWriteWinsCache.applyUpdates_perm LastWriteWinsCache.empty "key1"
    (List.reverse_perm _).symm).2.1 (by decide)

/-- Two updates with the same timestamp and different values: the one applied first stays. -/
theorem tiedUpdates_keep_first_applied :
    List.Perm [(⟨"value1", 5⟩ : CacheValue), ⟨"value2", 5⟩] [⟨"value2", 5⟩, ⟨"value1", 5⟩] ∧
      (LastWriteWinsCache.empty.applyUpdates "key1"
        [⟨"value1", 5⟩, ⟨"value2", 5⟩]).get "key1" = "value1" ∧
      (LastWriteWinsCache.empty.applyUpdates "key1"
        [⟨"value2", 5⟩, ⟨"value1", 5⟩]).get "key1" = "value2" :=
  ⟨.swap _ _ _, rfl, rfl⟩

/-! ## Writes to many keys, interleaved -/

/-- A write reaching the table: a local `put` with the clock reading it takes, or an incoming
update passed to `resolve_conflict`. -/
inductive WriteCall where
  | put (key value : String) (now : Int)
  | resolveConflict (key incomingValue : String) (incomingTimestamp : Int)
  deriving DecidableEq, Repr

namespace WriteCall

def key : WriteCall → String
  | .put key _ _ | .resolveConflict key _ _ => key

/-- The entry the write offers for its key. -/
def entry : WriteCall → CacheValue
  | .put _ value now => ⟨value, now⟩
  | .resolveConflict _ incomingValue incomingTimestamp => ⟨incomingValue, incomingTimestamp⟩

end WriteCall

namespace LastWriteWinsCache

def call (table : LastWriteWinsCache) : WriteCall → LastWriteWinsCache
  | .put key value now => table.put key value now
  | .resolveConflict key incomingValue incomingTimestamp =>
      table.resolveConflict key incomingValue incomingTimestamp

/-- Writes applied one after another, as the mutex orders them. -/
def calls (table : LastWriteWinsCache) (sequence : List WriteCall) : LastWriteWinsCache :=
  sequence.foldl call table

theorem call_cache (table : LastWriteWinsCache) (write : WriteCall) (other : String) :
    (table.call write).cache other =
      if write.key = other then keepNewer (table.cache other) write.entry
      else table.cache other := by
  have resolves : table.call write = table.resolveConflict write.key write.entry.value
      write.entry.timestamp := by
    cases write <;> rfl
  rw [resolves]
  split
  · rename_i same
    subst same
    exact resolveConflict_cache_self table write.key write.entry
  · rename_i different
    exact resolveConflict_cache_of_ne table _ _ (Ne.symm different)

/-- Each key's entry depends only on the writes to that key, in the order they were
applied. -/
theorem calls_cache (table : LastWriteWinsCache) (sequence : List WriteCall) (key : String) :
    (table.calls sequence).cache key =
      ((sequence.filter fun write => write.key = key).map WriteCall.entry).foldl keepNewer
        (table.cache key) := by
  induction sequence generalizing table with
  | nil => rfl
  | cons write rest inductionHypothesis =>
      rw [calls, List.foldl_cons, ← calls, inductionHypothesis, call_cache]
      by_cases same : write.key = key <;> simp [same]

end LastWriteWinsCache

/-- After any interleaving of `put` and `resolve_conflict` calls on an empty table, each key
holds the entry of the first write to it with the newest timestamp, among the writes to that
key in the order they were applied (`List.argmax`), and nothing if none was written. -/
theorem lastWriteWins_keeps_first_newest (sequence : List WriteCall) (key : String) :
    (LastWriteWinsCache.empty.calls sequence).cache key =
      ((sequence.filter fun write => write.key = key).map WriteCall.entry).argmax
        CacheValue.timestamp := by
  rw [LastWriteWinsCache.calls_cache, List.argmax, ← keepNewer_eq_argAux]
  rfl

end DistributedCaching.LastWriteWins
