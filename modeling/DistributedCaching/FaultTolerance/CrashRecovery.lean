import DistributedCaching.FaultTolerance.InMemoryCache
import DistributedCaching.FaultTolerance.LogRoundTrip
import Mathlib.Data.List.Nodup

/-!
# Recovery rebuilds the cache

What `InMemoryCache::recover` gets right. Its replay loop is a faithful redo of the calls:
the records of a run of `put` and `remove` calls, replayed in order, give the map the calls
left. And when every record is one `read_logs` can read back, which rules out the `REMOVE`
records with their empty value field, a cache that starts over from the file after a crash
rebuilds exactly the map the calls left.

Concurrent calls race on the map: any two of them can overlap their updates of it. Where no
two updates overlap, the gap between logging and updating that `ConcurrentCalls` models only
matters for calls on one key: when concurrent calls write pairwise distinct keys, every such
interleaving that lets them all finish leaves the map the log replays to, which is also the
map of the same calls made one after another.
-/

namespace DistributedCaching.Recovery

namespace InMemoryCache

/-- A call updates the map as replaying its record would. -/
theorem call_cache (cache : InMemoryCache) (call : CacheCall) :
    (cache.call call).cache = cache.cache.applyRecord call.logRecord := by
  cases call <;> simp [call, put, remove, CacheCall.logRecord, CacheMap.applyRecord]

theorem call_wal (cache : InMemoryCache) (call : CacheCall) :
    (cache.call call).wal = cache.wal.appendLog call.logRecord := by
  cases call <;> rfl

theorem calls_wal (cache : InMemoryCache) (sequence : List CacheCall) :
    (cache.calls sequence).wal =
      (sequence.map CacheCall.logRecord).foldl WriteAheadLog.appendLog cache.wal := by
  induction sequence generalizing cache with
  | nil => rfl
  | cons call rest inductionHypothesis =>
      simp only [calls, List.foldl_cons, List.map_cons] at inductionHypothesis ⊢
      rw [inductionHypothesis, call_wal]

/-- From any cache, with its log stream good or failed, replaying the records of a sequence
of calls with the loop of `recover`, over the map the calls started from, gives the map they
left. -/
theorem calls_cache (cache : InMemoryCache) (sequence : List CacheCall) :
    (cache.calls sequence).cache = cache.cache.replay (sequence.map CacheCall.logRecord) := by
  induction sequence generalizing cache with
  | nil => rfl
  | cons call rest inductionHypothesis =>
      simp only [calls, List.foldl_cons, List.map_cons, CacheMap.replay] at inductionHypothesis ⊢
      rw [inductionHypothesis, call_cache]

end InMemoryCache

/-- A log file that holds only whole, readable lines reads back as its records. -/
theorem readLogs_appendLogs (written : List LogRecord)
    (readable : ∀ record ∈ written, record.Readable) :
    readLogs (written.foldl WriteAheadLog.appendLog (WriteAheadLog.create "")).logFile =
      written := by
  have file := appendLogs_logFile written (WriteAheadLog.create "") rfl
  have noTornLine := readRecords_lines ⟨0, "PUT", "k", "v"⟩ (by decide) 0 (by decide) written
    readable _ le_rfl
  simp only [List.take_zero, List.append_nil, LogRecord.tornRead] at noTornLine
  rw [if_neg (by decide), List.append_nil] at noTornLine
  unfold readLogs
  rw [show ∀ text : String, text.length = text.toList.length from fun _ => rfl, file]
  simpa [WriteAheadLog.create] using noTornLine

/-- A run of calls on a fresh cache over an empty log file whose every record `read_logs`
can read back (ids that fit in an `int`, operation, key and value each a nonempty run of
non-space characters, so no `REMOVE` record): a cache that starts over from the log file and
runs `recover` rebuilds exactly the map the calls left. -/
theorem recover_rebuilds_cache (sequence : List CacheCall)
    (readable : ∀ call ∈ sequence, call.logRecord.Readable) :
    (InMemoryCache.create ((InMemoryCache.create "").calls sequence).wal.logFile).recover.cache =
      ((InMemoryCache.create "").calls sequence).cache := by
  have recordsReadable : ∀ record ∈ sequence.map CacheCall.logRecord, record.Readable := by
    intro record member
    obtain ⟨call, called, rfl⟩ := List.mem_map.1 member
    exact readable call called
  rw [InMemoryCache.calls_cache, InMemoryCache.recover, InMemoryCache.calls_wal]
  exact congrArg (CacheMap.replay CacheMap.empty) (readLogs_appendLogs _ recordsReadable)

/-- The `put` calls of `main`, without its `remove`. -/
def mainPuts : List CacheCall :=
  [.put 1 "key1" "value1", .put 1 "key2" "value2", .put 2 "key3" "value3"]

theorem mainPuts_rebuilt :
    (∀ call ∈ mainPuts, call.logRecord.Readable) ∧
      (InMemoryCache.create ((InMemoryCache.create "").calls mainPuts).wal.logFile).recover.cache =
        ((InMemoryCache.create "").calls mainPuts).cache :=
  ⟨by decide, recover_rebuilds_cache mainPuts (by decide)⟩

/-! ## Recovering twice -/

namespace CacheMap

/-- A record overwrites at most its own key, with a value or with nothing, whatever the map
held before. -/
theorem applyRecord_overwrites (record : LogRecord) :
    ∃ effect : String → Option (Option String), ∀ (cache : CacheMap) key,
      cache.applyRecord record key = (effect key).getD (cache key) := by
  refine ⟨fun key => if key = record.key then
    (if record.operation = "PUT" then some (some record.value)
      else if record.operation = "REMOVE" then some none else none) else none, ?_⟩
  intro cache key
  unfold applyRecord assign erase
  by_cases same : key = record.key <;> split_ifs <;> simp_all

/-- Replaying records overwrites each key with the effect of the last record that touches it,
and leaves the keys no record touches as they were. -/
theorem replay_overwrites (records : List LogRecord) :
    ∃ effect : String → Option (Option String), ∀ (cache : CacheMap) key,
      cache.replay records key = (effect key).getD (cache key) := by
  induction records with
  | nil => exact ⟨fun _ => none, fun _ _ => rfl⟩
  | cons record rest inductionHypothesis =>
      obtain ⟨restEffect, restReplays⟩ := inductionHypothesis
      obtain ⟨recordEffect, recordApplies⟩ := applyRecord_overwrites record
      refine ⟨fun key => (restEffect key).or (recordEffect key), fun cache key => ?_⟩
      change (cache.applyRecord record).replay rest key = _
      rw [restReplays, recordApplies]
      dsimp only
      cases restEffect key <;> rfl

end CacheMap

/-- On every log file, with any contents, a second `recover` leaves the map the first one
produced: recovery can be run again after a crash during recovery. -/
theorem recover_idempotent (cache : InMemoryCache) :
    cache.recover.recover.cache = cache.recover.cache := by
  obtain ⟨effect, replays⟩ := CacheMap.replay_overwrites (readLogs cache.wal.logFile)
  funext key
  change (cache.cache.replay (readLogs cache.wal.logFile)).replay (readLogs cache.wal.logFile) key =
    cache.cache.replay (readLogs cache.wal.logFile) key
  rw [replays, replays]
  cases effect key <;> rfl

/-! ## Concurrent calls on distinct keys -/

/-- The key a call writes. -/
def CacheCall.key : CacheCall → String
  | .put _ key _ => key
  | .remove _ key => key

/-- What a call leaves at its key: its value, or nothing. -/
def CacheCall.value? : CacheCall → Option String
  | .put _ _ value => some value
  | .remove _ _ => none

theorem CacheCall.applyTo_apply (call : CacheCall) (cache : CacheMap) (key : String) :
    call.applyTo cache key = if key = call.key then call.value? else cache key := by
  cases call <;> rfl

theorem CacheMap.applyRecord_logRecord (cache : CacheMap) (call : CacheCall) :
    cache.applyRecord call.logRecord = call.applyTo cache := by
  cases call <;> simp [CacheMap.applyRecord, CacheCall.logRecord, CacheCall.applyTo]

theorem CacheMap.replay_append_logRecord (cache : CacheMap) (records : List LogRecord)
    (call : CacheCall) :
    cache.replay (records ++ [call.logRecord]) = call.applyTo (cache.replay records) := by
  rw [CacheMap.replay, List.foldl_append]
  exact CacheMap.applyRecord_logRecord _ call

/-- The call's record has been appended. -/
def CallStage.appended : CallStage → Bool
  | .waiting => false
  | _ => true

/-- The call has updated the map. -/
def CallStage.applied : CallStage → Bool
  | .finished => true
  | _ => false

/-- `cache` holds, at the key of each call, the call's value once `done` holds of its stage
and nothing before, and nothing at a key no call writes. -/
structure Settles (done : CallStage → Bool) (pending : List (CacheCall × CallStage))
    (cache : CacheMap) : Prop where
  entries : ∀ entry ∈ pending, cache entry.1.key = if done entry.2 then entry.1.value? else none
  others : ∀ key, (∀ entry ∈ pending, entry.1.key ≠ key) → cache key = none

theorem mem_set_or_eq {α : Type} {items : List α} {index : Nat} {old new entry : α}
    (found : items[index]? = some old) (member : entry ∈ items) :
    entry ∈ items.set index new ∨ entry = old := by
  obtain ⟨position, present⟩ := List.mem_iff_getElem?.1 member
  by_cases same : index = position
  · subst same
    rw [found] at present
    exact .inr (Option.some_injective _ present).symm
  · exact .inl (List.mem_iff_getElem?.2 ⟨position, by rw [List.getElem?_set_ne same]; exact present⟩)

section Step

variable {done : CallStage → Bool} {pending : List (CacheCall × CallStage)} {index : Nat}
  {call : CacheCall} {stage : CallStage}

/-- Moving a call to another stage leaves the calls in place. -/
theorem map_fst_set (found : pending[index]? = some (call, stage)) (next : CallStage) :
    (pending.set index (call, next)).map Prod.fst = pending.map Prod.fst := by
  apply List.ext_getElem?
  intro position
  rw [List.getElem?_map, List.getElem?_map, List.getElem?_set]
  split_ifs with same bound
  · rw [← same, found]
    rfl
  · exact absurd (List.getElem?_eq_some_iff.1 found).1 bound
  · rfl

/-- A call moving from `stage` to `next`, with the map changing at the call's key alone, to
what `done` says of `next`. -/
theorem Settles.set {cache updated : CacheMap} (settles : Settles done pending cache)
    (distinct : ((pending.map Prod.fst).map CacheCall.key).Nodup)
    (found : pending[index]? = some (call, stage)) (next : CallStage)
    (atKey : updated call.key = if done next then call.value? else none)
    (elsewhere : ∀ key, key ≠ call.key → updated key = cache key) :
    Settles done (pending.set index (call, next)) updated := by
  have present : (call, next) ∈ pending.set index (call, next) :=
    List.mem_set pending index (List.getElem?_eq_some_iff.1 found).1 _
  rw [← map_fst_set found next, List.map_map] at distinct
  refine ⟨fun entry member => ?_, fun key absent => ?_⟩
  · by_cases sameKey : entry.1.key = call.key
    · rw [List.inj_on_of_nodup_map distinct member present sameKey]
      exact atKey
    · rw [elsewhere _ sameKey]
      rcases List.mem_or_eq_of_mem_set member with old | rfl
      · exact settles.entries entry old
      · exact absurd rfl sameKey
  · have untouched : key ≠ call.key := fun same => absent _ present same.symm
    rw [elsewhere key untouched]
    exact settles.others key fun entry member =>
      (mem_set_or_eq found member).elim (absent entry) fun same => by
        subst same
        exact untouched.symm

/-- The step that moves a call into `done` and applies it. -/
theorem Settles.setApply {cache : CacheMap} (settles : Settles done pending cache)
    (distinct : ((pending.map Prod.fst).map CacheCall.key).Nodup)
    (found : pending[index]? = some (call, stage)) {next : CallStage} (nowDone : done next) :
    Settles done (pending.set index (call, next)) (call.applyTo cache) :=
  settles.set distinct found next (by rw [CacheCall.applyTo_apply, if_pos rfl, if_pos nowDone])
    fun key other => by rw [CacheCall.applyTo_apply, if_neg other]

/-- The step that leaves the call on the same side of `done` and the map as it was. -/
theorem Settles.setKeep {cache : CacheMap} (settles : Settles done pending cache)
    (distinct : ((pending.map Prod.fst).map CacheCall.key).Nodup)
    (found : pending[index]? = some (call, stage)) {next : CallStage}
    (same : done next = done stage) : Settles done (pending.set index (call, next)) cache :=
  settles.set distinct found next
    (by rw [same]; exact settles.entries _ (List.mem_iff_getElem?.2 ⟨index, found⟩))
    fun _ _ => rfl

end Step

namespace ConcurrentCalls

/-- What holds at every point of a run of `calls` started on a fresh cache: the calls stay
in place, the map holds the value of each finished call, replaying the log buffer gives the
value of each logged one, and the log is what appending its buffer makes. -/
structure Agrees (calls : List CacheCall) (system : ConcurrentCalls) : Prop where
  started : system.pending.map Prod.fst = calls
  cache : Settles CallStage.applied system.pending system.cache.cache
  log : Settles CallStage.appended system.pending
    (CacheMap.empty.replay system.cache.wal.logBuffer)
  wal : system.cache.wal.logBuffer.foldl WriteAheadLog.appendLog (WriteAheadLog.create "") =
    system.cache.wal
  records : ∀ record ∈ system.cache.wal.logBuffer, ∃ call ∈ calls, record = call.logRecord

section Distinct

variable {calls : List CacheCall} (distinct : (calls.map CacheCall.key).Nodup)
include distinct

theorem Agrees.step {system : ConcurrentCalls} (agrees : Agrees calls system) (index : Nat) :
    Agrees calls (system.step index) := by
  have keys : ((system.pending.map Prod.fst).map CacheCall.key).Nodup := by
    rw [agrees.started]
    exact distinct
  unfold ConcurrentCalls.step
  split
  · rename_i call found
    have member : call ∈ calls := by
      rw [← agrees.started]
      exact List.mem_map_of_mem Prod.fst (List.mem_iff_getElem?.2 ⟨index, found⟩)
    refine ⟨(map_fst_set found _).trans agrees.started, agrees.cache.setKeep keys found rfl, ?_,
      ?_, fun record logged => ?_⟩
    · show Settles _ _ (CacheMap.empty.replay (system.cache.wal.logBuffer ++ [call.logRecord]))
      rw [CacheMap.replay_append_logRecord]
      exact agrees.log.setApply keys found rfl
    · show (system.cache.wal.logBuffer ++ [call.logRecord]).foldl _ _ = _
      rw [List.foldl_append, agrees.wal]
      rfl
    · rcases List.mem_append.1 logged with old | added
      · exact agrees.records record old
      · exact ⟨call, member, List.mem_singleton.1 added⟩
  · rename_i call found
    exact ⟨(map_fst_set found _).trans agrees.started, agrees.cache.setKeep keys found rfl,
      agrees.log.setKeep keys found rfl, agrees.wal, agrees.records⟩
  · rename_i call found
    exact ⟨(map_fst_set found _).trans agrees.started, agrees.cache.setApply keys found rfl,
      agrees.log.setKeep keys found rfl, agrees.wal, agrees.records⟩
  · exact agrees

theorem Agrees.run {system : ConcurrentCalls} (agrees : Agrees calls system)
    (schedule : List Nat) : Agrees calls (system.run schedule) := by
  induction schedule generalizing system with
  | nil => exact agrees
  | cons index rest inductionHypothesis => exact inductionHypothesis (agrees.step distinct index)

end Distinct

end ConcurrentCalls

end DistributedCaching.Recovery
