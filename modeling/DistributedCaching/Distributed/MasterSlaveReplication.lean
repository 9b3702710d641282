import DistributedCaching.Int32
import Mathlib.Data.List.Basic

/-!
# Master-slave replication

`MasterSlaveReplication.cpp`: `MasterNode::updateData` bumps the master's `int` version
(`incrementInt`), stores the data, and detaches one `replicate(slave)` thread per slave. A
thread compares `slave->getVersion() < version` and then calls
`slave->updateData(data, version)`: the `int` argument is copied when the call is made,
while `data` is bound by reference and read inside the call, when the slave stores it. The
slave stores both unconditionally. These are three separate steps of the thread, interleaved
with other threads and later updates. `manualFailover` detaches the same thread for every
slave found behind the master.

Since the check and the write are separate and the slave never compares versions itself,
a thread that read an older version can write after one that read a newer version: the
slave's version goes back and stays behind the master once every thread has finished. And a
slave can hold the data of a later update than its version says.
-/

namespace DistributedCaching.MasterSlave

structure SlaveNode where
  nodeId : Int
  dataVersion : Int
  data : String
  deriving DecidableEq, Repr

/-- `SlaveNode(int id)`. -/
def SlaveNode.create (id : Int) : SlaveNode :=
  ⟨id, 0, ""⟩

/-- The slave stores what it is given, whatever its own version. -/
def SlaveNode.updateData (slave : SlaveNode) (newData : String) (version : Int) : SlaveNode :=
  { slave with data := newData, dataVersion := version }

structure MasterNode where
  version : Int
  data : String
  deriving DecidableEq, Repr

/-- Where a `replicate(slave)` thread stands: before the version check, before copying the
master's version as the argument of `SlaveNode::updateData`, inside that call with the
version it copied, or done. -/
inductive ReplicateStage where
  | checking
  | reading
  | updating (version : Int)
  | finished
  deriving DecidableEq, Repr

structure ReplicateThread where
  slave : Nat
  stage : ReplicateStage
  deriving DecidableEq, Repr

/-- The master, its slaves, and every `replicate` thread detached so far. -/
structure Replication where
  master : MasterNode
  slaves : List SlaveNode
  threads : List ReplicateThread
  deriving DecidableEq, Repr

/-- What can happen next: an update of the master, a manual failover, or one step of a
thread. -/
inductive ReplicationEvent where
  | updateData (newData : String)
  | manualFailover
  | threadStep (thread : Nat)
  deriving DecidableEq, Repr

namespace Replication

/-- A master at version 0 with the given slaves (all `addSlave`d), no thread yet. -/
def create (slaveIds : List Int) : Replication :=
  ⟨⟨0, ""⟩, slaveIds.map SlaveNode.create, []⟩

/-- The slaves `slave->getVersion() < version` finds behind the master. -/
def behind (system : Replication) : List Nat :=
  (List.range system.slaves.length).filter (fun index =>
    decide (((system.slaves[index]?).map SlaveNode.dataVersion).getD 0 < system.master.version))

/-- One step of the thread at position `index`. -/
def threadStep (system : Replication) (index : Nat) : Replication :=
  match system.threads[index]? with
  | none => system
  | some thread =>
      let advance (stage : ReplicateStage) : List ReplicateThread :=
        system.threads.set index { thread with stage := stage }
      match thread.stage with
      | .checking =>
          if thread.slave ∈ system.behind then { system with threads := advance .reading }
          else { system with threads := advance .finished }
      | .reading =>
          { system with threads := advance (.updating system.master.version) }
      | .updating version =>
          { system with
            slaves := system.slaves.modify
              (fun slave => slave.updateData system.master.data version) thread.slave,
            threads := advance .finished }
      | .finished => system

def step (system : Replication) : ReplicationEvent → Replication
  | .updateData newData =>
      { system with
        master := ⟨incrementInt system.master.version, newData⟩,
        threads := system.threads ++
          (List.range system.slaves.length).map (fun slave => ⟨slave, .checking⟩) }
  | .manualFailover =>
      { system with
        threads := system.threads ++ system.behind.map (fun slave => ⟨slave, .checking⟩) }
  | .threadStep index => system.threadStep index

def run (system : Replication) (events : List ReplicationEvent) : Replication :=
  events.foldl step system

def AllFinished (system : Replication) : Prop :=
  ∀ thread ∈ system.threads, thread.stage = .finished

instance (system : Replication) : Decidable system.AllFinished :=
  inferInstanceAs (Decidable (∀ thread ∈ system.threads, thread.stage = .finished))

end Replication

/-! ## A delayed push -/

/-- The first update's thread passes its check and reads version 1; the second update's
thread then checks, reads version 2 and writes it; the first thread writes last. -/
def delayedPushEvents : List ReplicationEvent :=
  [.updateData "Initial data", .threadStep 0, .threadStep 0,
    .updateData "Updated data after modification", .threadStep 1, .threadStep 1, .threadStep 1]

theorem delayedPush_rolls_back :
    ((Replication.create [1]).run delayedPushEvents).slaves.map SlaveNode.dataVersion = [2] ∧
      ((Replication.create [1]).run (delayedPushEvents ++ [.threadStep 0])).slaves.map
        SlaveNode.dataVersion = [1] ∧
      ((Replication.create [1]).run (delayedPushEvents ++ [.threadStep 0])).AllFinished ∧
      ((Replication.create [1]).run (delayedPushEvents ++ [.threadStep 0])).master =
        ⟨2, "Updated data after modification"⟩ := by
  decide

/-! ## Every replica holds a version and data the master wrote -/

/-- The data an event gives the master, if it is an `updateData` call. -/
def ReplicationEvent.newData? : ReplicationEvent → Option String
  | .updateData newData => some newData
  | .manualFailover | .threadStep _ => none

/-- `data` is what the master held at `version`, given the data of its updates so far: the
empty string of the constructor at version 0, and update `index` at version `index + 1`. -/
def Versioned (written : List String) (version : Int) (data : String) : Prop :=
  (version = 0 ∧ data = "") ∨ ∃ index : Nat, written[index]? = some data ∧ version = index + 1

/-- What a slave can hold: the constructor's state, or a version the master has held with the
data of that update or of a later one, the master's data when the push was applied. -/
def Replicated (written : List String) (version : Int) (data : String) : Prop :=
  (version = 0 ∧ data = "") ∨
    ∃ index : Nat, written[index]? = some data ∧ 1 ≤ version ∧ version ≤ index + 1

theorem getElem?_append_of_some {written : List String} {index : Nat} {data : String}
    (found : written[index]? = some data) (more : List String) :
    (written ++ more)[index]? = some data :=
  List.getElem?_append_left (List.getElem?_eq_some_iff.1 found).1 ▸ found

theorem Versioned.append {written : List String} {version : Int} {data : String}
    (versioned : Versioned written version data) (more : List String) :
    Versioned (written ++ more) version data := by
  rcases versioned with initial | ⟨index, found, rfl⟩
  · exact .inl initial
  · exact .inr ⟨index, getElem?_append_of_some found more, rfl⟩

theorem Replicated.append {written : List String} {version : Int} {data : String}
    (replicated : Replicated written version data) (more : List String) :
    Replicated (written ++ more) version data := by
  rcases replicated with initial | ⟨index, found, bounds⟩
  · exact .inl initial
  · exact .inr ⟨index, getElem?_append_of_some found more, bounds⟩

theorem versioned_newest (written : List String) (newData : String) :
    Versioned (written ++ [newData]) (written.length + 1) newData :=
  .inr ⟨written.length, by simp, rfl⟩

theorem Replicated.bounds {written : List String} {version : Int} {data : String}
    (replicated : Replicated written version data) : 0 ≤ version ∧ version ≤ written.length := by
  rcases replicated with ⟨rfl, -⟩ | ⟨index, found, low, high⟩
  · exact ⟨Int.le_refl 0, Int.ofNat_nonneg _⟩
  · have := (List.getElem?_eq_some_iff.1 found).1
    omega

/-- A push applied at a version the master has held, once the master is at its newest
version, leaves the slave a state it can hold. -/
theorem Versioned.replicated {written : List String} {newest version : Int} {data : String}
    (versioned : Versioned written newest data) (newestLength : newest = written.length)
    (low : 1 ≤ version) (high : version ≤ written.length) : Replicated written version data := by
  rcases versioned with ⟨rfl, -⟩ | ⟨index, found, rfl⟩
  · omega
  · exact .inr ⟨index, found, low, by omega⟩

theorem mem_modify {α : Type} {f : α → α} {n : Nat} {items : List α} {item : α}
    (member : item ∈ items.modify f n) : ∃ old ∈ items, item = old ∨ item = f old := by
  obtain ⟨position, found⟩ := List.mem_iff_getElem?.1 member
  rw [List.getElem?_modify] at found
  obtain ⟨old, present, changed⟩ := Option.map_eq_some'.1 found
  refine ⟨old, List.mem_iff_getElem?.2 ⟨position, present⟩, ?_⟩
  split at changed
  · exact .inr changed.symm
  · exact .inl changed.symm

namespace Replication

/-- A thread exists only after an update, and a thread inside `SlaveNode::updateData` copied
a version the master has held, other than the constructor's. -/
def ThreadValid (written : List String) (thread : ReplicateThread) : Prop :=
  0 < written.length ∧
    ∀ version, thread.stage = .updating version → 1 ≤ version ∧ version ≤ written.length

/-- The master is at the version of its last update with that update's data, every slave
holds a state it can hold, and every thread is valid. -/
structure Faithful (written : List String) (system : Replication) : Prop where
  masterVersion : system.master.version = written.length
  master : Versioned written system.master.version system.master.data
  slaves : ∀ slave ∈ system.slaves, Replicated written slave.dataVersion slave.data
  threads : ∀ thread ∈ system.threads, ThreadValid written thread

variable {written : List String} {system : Replication}

theorem ThreadValid.append {thread : ReplicateThread} (valid : ThreadValid written thread)
    (more : List String) : ThreadValid (written ++ more) thread := by
  have nonempty := valid.1
  refine ⟨by simp only [List.length_append]; omega, fun version updating => ?_⟩
  have := valid.2 version updating
  simp only [List.length_append]
  omega

/-- A thread before its call is valid once an update has been made. -/
theorem threadValid_of_stage {slave : Nat} {stage : ReplicateStage}
    (nonempty : 0 < written.length) (notUpdating : ∀ version, stage ≠ .updating version) :
    ThreadValid written ⟨slave, stage⟩ :=
  ⟨nonempty, fun version updating => absurd updating (notUpdating version)⟩

theorem Faithful.setThread (faithful : system.Faithful written) (index : Nat)
    {next : ReplicateThread} (nextValid : ThreadValid written next) :
    ∀ thread ∈ system.threads.set index next, ThreadValid written thread := by
  intro thread member
  rcases List.mem_or_eq_of_mem_set member with old | rfl
  · exact faithful.threads thread old
  · exact nextValid

/-- A thread step copies the master's version into a thread, or the master's data and a
thread's version into its slave. -/
theorem Faithful.threadStep (faithful : system.Faithful written) (index : Nat) :
    (system.threadStep index).Faithful written := by
  unfold Replication.threadStep
  split
  · exact faithful
  · rename_i thread found
    have valid := faithful.threads thread (List.mem_iff_getElem?.2 ⟨index, found⟩)
    dsimp only
    split
    · split <;>
        exact { faithful with threads := faithful.setThread index (threadValid_of_stage valid.1 nofun) }
    · refine { faithful with threads := faithful.setThread index ⟨valid.1, fun version copied => ?_⟩ }
      obtain rfl := ReplicateStage.updating.inj copied
      have nonempty := valid.1
      rw [faithful.masterVersion]
      omega
    · rename_i version stage
      have bounds := valid.2 version stage
      refine { faithful with
        slaves := fun slave member => ?_,
        threads := faithful.setThread index (threadValid_of_stage valid.1 nofun) }
      obtain ⟨old, oldMember, same | updated⟩ := mem_modify member
      · exact same ▸ faithful.slaves old oldMember
      · exact updated ▸ faithful.master.replicated faithful.masterVersion bounds.1 bounds.2
    · exact faithful

/-- A slave `manualFailover` finds behind the master means an update has been made. -/
theorem Faithful.length_pos_of_behind (faithful : system.Faithful written) {slave : Nat}
    (behind : slave ∈ system.behind) : 0 < written.length := by
  have stored := (List.mem_filter.1 behind).2
  rw [decide_eq_true_eq, faithful.masterVersion] at stored
  cases found : system.slaves[slave]? with
  | none =>
      rw [found, Option.map_none', Option.getD_none] at stored
      omega
  | some node =>
      have nonneg := (faithful.slaves node (List.mem_iff_getElem?.2 ⟨slave, found⟩)).bounds.1
      rw [found, Option.map_some', Option.getD_some] at stored
      omega

theorem Faithful.step (faithful : system.Faithful written) (event : ReplicationEvent)
    (room : (written ++ event.newData?.toList).length < 2147483648) :
    (system.step event).Faithful (written ++ event.newData?.toList) := by
  cases event with
  | updateData newData =>
      simp only [ReplicationEvent.newData?, Option.toList_some, List.length_append,
        List.length_singleton] at room ⊢
      have bumped : incrementInt system.master.version = written.length + 1 := by
        rw [faithful.masterVersion]
        exact incrementInt_of_lt (Int.ofNat_nonneg _) (by omega)
      simp only [Replication.step]
      refine ⟨by simp [bumped], ?_, fun slave member =>
        (faithful.slaves slave member).append _, fun thread member => ?_⟩
      · rw [bumped]
        exact versioned_newest written newData
      · rcases List.mem_append.1 member with old | new
        · exact (faithful.threads thread old).append _
        · obtain ⟨slave, _, rfl⟩ := List.mem_map.1 new
          exact threadValid_of_stage (by simp) nofun
  | manualFailover =>
      simp only [Replication.step, ReplicationEvent.newData?, Option.toList_none, List.append_nil]
      refine { faithful with threads := fun thread member => ?_ }
      rcases List.mem_append.1 member with old | new
      · exact faithful.threads thread old
      · obtain ⟨slave, behind, rfl⟩ := List.mem_map.1 new
        exact threadValid_of_stage (faithful.length_pos_of_behind behind) nofun
  | threadStep index =>
      simpa only [ReplicationEvent.newData?, Option.toList_none, List.append_nil] using
        faithful.threadStep index

theorem Faithful.run (faithful : system.Faithful written) (events : List ReplicationEvent)
    (room : (written ++ events.filterMap ReplicationEvent.newData?).length < 2147483648) :
    (system.run events).Faithful (written ++ events.filterMap ReplicationEvent.newData?) := by
  induction events generalizing system written with
  | nil => simpa using faithful
  | cons event rest inductionHypothesis =>
      have stepRoom : (written ++ event.newData?.toList).length < 2147483648 := by
        cases data : event.newData? <;> simp [data] at room ⊢ <;> omega
      have stepped := inductionHypothesis (faithful.step event stepRoom)
      cases data : event.newData? <;> simpa [run, data] using stepped (by simpa [data] using room)

end Replication

end DistributedCaching.MasterSlave
