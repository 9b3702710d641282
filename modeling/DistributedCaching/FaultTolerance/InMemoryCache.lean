import DistributedCaching.FaultTolerance.WriteAheadLog

/-!
# The logged in-memory cache and its recovery

`InMemoryCache` of `LogBasedRecovery.cpp` appends a `PUT` or `REMOVE` record to its
write-ahead log and then updates its map; `recover` replays the records `read_logs` returns,
in file order, over the map it has.

Two things separate the recovered map from the live one. A `REMOVE` record is written with
an empty value field, which the reader cannot see: the last record of a log is then lost and
an earlier one swallows the next record's id. And `put` and `remove` release `log_mutex`
between logging and updating, so concurrent calls can update the map in the opposite order
to the one they were logged in. Nothing orders their map updates either: two calls whose
updates of the `unordered_map` overlap race on it, and the behaviour is then undefined.
-/

namespace DistributedCaching.Recovery

/-- The cache map of `std::unordered_map<std::string, std::string>`. -/
def CacheMap : Type := String → Option String

namespace CacheMap

def empty : CacheMap := fun _ => none

/-- `cache[key] = value`. -/
def assign (cache : CacheMap) (key value : String) : CacheMap :=
  fun other => if other = key then some value else cache other

/-- `cache.erase(key)`. -/
def erase (cache : CacheMap) (key : String) : CacheMap :=
  fun other => if other = key then none else cache other

/-- One iteration of the replay loop of `recover`. -/
def applyRecord (cache : CacheMap) (record : LogRecord) : CacheMap :=
  if record.operation = "PUT" then cache.assign record.key record.value
  else if record.operation = "REMOVE" then cache.erase record.key
  else cache

/-- Replay records in order. -/
def replay (cache : CacheMap) (records : List LogRecord) : CacheMap :=
  records.foldl applyRecord cache

end CacheMap

/-- The state of an `InMemoryCache`: its map and its log. -/
structure InMemoryCache where
  cache : CacheMap
  wal : WriteAheadLog

/-- A `put` or `remove` call with its arguments. -/
inductive CacheCall where
  | put (transactionId : Int) (key value : String)
  | remove (transactionId : Int) (key : String)
  deriving DecidableEq, Repr

/-- The record a call appends before it touches the map. -/
def CacheCall.logRecord : CacheCall → LogRecord
  | .put transactionId key value => ⟨transactionId, "PUT", key, value⟩
  | .remove transactionId key => ⟨transactionId, "REMOVE", key, ""⟩

namespace InMemoryCache

/-- `InMemoryCache(log_path)` over a log file holding `contents`: an empty map. -/
def create (contents : String) : InMemoryCache :=
  ⟨CacheMap.empty, WriteAheadLog.create contents⟩

def put (cache : InMemoryCache) (transactionId : Int) (key value : String) :
    InMemoryCache :=
  ⟨cache.cache.assign key value, cache.wal.appendLog ⟨transactionId, "PUT", key, value⟩⟩

def get (cache : InMemoryCache) (key : String) : String :=
  (cache.cache key).getD ""

def remove (cache : InMemoryCache) (transactionId : Int) (key : String) : InMemoryCache :=
  ⟨cache.cache.erase key, cache.wal.appendLog ⟨transactionId, "REMOVE", key, ""⟩⟩

def recover (cache : InMemoryCache) : InMemoryCache :=
  { cache with cache := cache.cache.replay (readLogs cache.wal.logFile) }

def call (cache : InMemoryCache) : CacheCall → InMemoryCache
  | .put transactionId key value => cache.put transactionId key value
  | .remove transactionId key => cache.remove transactionId key

/-- Calls made one after another. -/
def calls (cache : InMemoryCache) (sequence : List CacheCall) : InMemoryCache :=
  sequence.foldl call cache

end InMemoryCache

/-! ## Recovery after a `put` and a `remove` -/

/-- The `REMOVE` line ends in a blank value field, so a fresh cache recovering from the file
reads no `REMOVE` record and brings the removed key back. -/
theorem putRemove_recover_resurrects :
    ((InMemoryCache.create "").calls [.put 1 "key1" "value1", .remove 2 "key1"]).wal.logFile =
        "1 PUT key1 value1\n2 REMOVE key1 \n" ∧
      ((InMemoryCache.create "").calls [.put 1 "key1" "value1", .remove 2 "key1"]).cache "key1" =
        none ∧
      (InMemoryCache.create ((InMemoryCache.create "").calls
        [.put 1 "key1" "value1", .remove 2 "key1"]).wal.logFile).recover.cache "key1" =
        some "value1" := by
  decide

/-- A cache over an empty log whose output stream has failed (the disk is full, say). -/
def failedLogCache : InMemoryCache :=
  ⟨CacheMap.empty, (WriteAheadLog.create "").streamFails⟩

/-- `append_log` does not look at the stream, so a `put` after the failure returns normally,
its value reaches the map, and a cache recovering from the unchanged file does not have the
key. -/
theorem failedAppend_still_applied :
    (failedLogCache.put 1 "key1" "value1").cache "key1" = some "value1" ∧
      (failedLogCache.put 1 "key1" "value1").wal.logFile = "" ∧
      (InMemoryCache.create (failedLogCache.put 1 "key1" "value1").wal.logFile).recover.cache
        "key1" = none := by
  decide

/-! ## Concurrent calls -/

/-- What a call does to the map once its record is logged. -/
def CacheCall.applyTo : CacheCall → CacheMap → CacheMap
  | .put _ key value, cache => cache.assign key value
  | .remove _ key, cache => cache.erase key

/-- How far a concurrent call has got: not started, record appended and `log_mutex`
released, updating the map, or done. -/
inductive CallStage where
  | waiting
  | logged
  | writing
  | finished
  deriving DecidableEq, Repr

/-- Concurrent `put` and `remove` calls on one cache; each appends its record in one atomic
step, then starts and ends its update of the map in two more. `raced` records that a call
started its map update while another call's was in progress: the two writes of the
`unordered_map` are unsynchronised, and from then on the map the model computes says nothing
about the program. -/
structure ConcurrentCalls where
  cache : InMemoryCache
  pending : List (CacheCall × CallStage)
  raced : Bool

namespace ConcurrentCalls

/-- The calls, none started, on a fresh cache over an empty log file. -/
def start (calls : List CacheCall) : ConcurrentCalls :=
  ⟨InMemoryCache.create "", calls.map (fun call => (call, .waiting)), false⟩

/-- The call at position `index` takes its next step. -/
def step (system : ConcurrentCalls) (index : Nat) : ConcurrentCalls :=
  match system.pending[index]? with
  | some (call, .waiting) =>
      { system with
        cache := { system.cache with wal := system.cache.wal.appendLog call.logRecord }
        pending := system.pending.set index (call, .logged) }
  | some (call, .logged) =>
      { system with
        pending := system.pending.set index (call, .writing)
        raced := system.raced || system.pending.any (fun entry => entry.2 == .writing) }
  | some (call, .writing) =>
      { system with
        cache := { system.cache with cache := call.applyTo system.cache.cache }
        pending := system.pending.set index (call, .finished) }
  | _ => system

def run (system : ConcurrentCalls) (schedule : List Nat) : ConcurrentCalls :=
  schedule.foldl step system

def AllFinished (system : ConcurrentCalls) : Prop :=
  ∀ entry ∈ system.pending, entry.2 = .finished

instance (system : ConcurrentCalls) : Decidable system.AllFinished :=
  inferInstanceAs (Decidable (∀ entry ∈ system.pending, entry.2 = .finished))

end ConcurrentCalls

/-- Two calls: both log, then the second updates the map, then the first, the two updates
one after the other. -/
def crossedSchedule : List Nat :=
  [0, 1, 1, 1, 0, 0]

/-- Two `put`s of one key, logged in one order and applied in the other. -/
def crossedPuts : ConcurrentCalls :=
  (ConcurrentCalls.start [.put 1 "key1" "value1", .put 2 "key1" "value2"]).run crossedSchedule

/-- Without overlapping map updates, the map keeps the value logged first, while replaying
the log, from its records or from the file, gives the value logged last. -/
theorem crossedPuts_cache_differs_from_replay :
    crossedPuts.AllFinished ∧ crossedPuts.raced = false ∧
      readLogs crossedPuts.cache.wal.logFile = crossedPuts.cache.wal.logBuffer ∧
      crossedPuts.cache.cache "key1" = some "value1" ∧
      CacheMap.empty.replay crossedPuts.cache.wal.logBuffer "key1" = some "value2" := by
  decide

end DistributedCaching.Recovery
