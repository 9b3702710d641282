import Mathlib.Data.List.Basic

/-!
# Paxos leader election

`Paxos.cpp`: each `PaxosNode` is an acceptor guarded by its own mutex, and
`PaxosSystem::propose` is the proposer, which calls the nodes one at a time: `prepare` and,
on a promise, `learn` on every node in order, a majority check, then `accept` on every node
in order. Concurrent `propose` calls interleave at these per-node calls, so the system is
modelled as the node states, the calls in flight with their local variables, and a step
that advances one call by one node call.

A promise reports the node's accepted value without the id it was accepted under, and the
proposer adopts whichever entry `accepted_values.begin()` designates, an order the standard
leaves unspecified (the designation is therefore a parameter). A run of three proposers on
three nodes then chooses two different values: a stale value accepted under a lower id
overrides one that a majority accepted under a higher id.
-/

namespace DistributedCaching.Paxos

/-- The acceptor state of one `PaxosNode`. -/
structure PaxosNode where
  nodeId : Nat
  promisedId : Int
  acceptedId : Int
  acceptedValue : Option String
  deriving DecidableEq, Repr

namespace PaxosNode

/-- `PaxosNode(int id)`: nothing promised or accepted yet. -/
def create (id : Nat) : PaxosNode :=
  ⟨id, -1, -1, none⟩

def prepare (node : PaxosNode) (proposalId : Int) : Bool × PaxosNode :=
  if proposalId > node.promisedId then
    (true, { node with promisedId := proposalId })
  else
    (false, node)

def accept (node : PaxosNode) (proposalId : Int) (value : String) : Bool × PaxosNode :=
  if proposalId ≥ node.promisedId then
    (true, { node with
      promisedId := proposalId, acceptedId := proposalId, acceptedValue := some value })
  else
    (false, node)

def learn (node : PaxosNode) : Option String :=
  node.acceptedValue

end PaxosNode

/-! ## The acceptor on its own -/

/-- A call of the acceptor's interface. -/
inductive AcceptorCall where
  | prepare (proposalId : Int)
  | accept (proposalId : Int) (value : String)
  deriving DecidableEq, Repr

namespace PaxosNode

/-- The node after one call. -/
def call (node : PaxosNode) : AcceptorCall → PaxosNode
  | .prepare proposalId => (node.prepare proposalId).2
  | .accept proposalId value => (node.accept proposalId value).2

/-- The node after calls made one after another. -/
def calls (node : PaxosNode) (sequence : List AcceptorCall) : PaxosNode :=
  sequence.foldl call node

/-- From a node that has promised what it accepted, a call keeps that, and neither number
goes down. -/
theorem call_spec {node : PaxosNode} (ordered : node.acceptedId ≤ node.promisedId)
    (next : AcceptorCall) :
    (node.call next).acceptedId ≤ (node.call next).promisedId ∧
      node.promisedId ≤ (node.call next).promisedId ∧
      node.acceptedId ≤ (node.call next).acceptedId := by
  cases next with
  | prepare proposalId =>
      simp only [call, prepare]
      split_ifs <;> dsimp only <;> omega
  | accept proposalId value =>
      simp only [call, accept]
      split_ifs <;> dsimp only <;> omega

theorem calls_spec {node : PaxosNode} (ordered : node.acceptedId ≤ node.promisedId)
    (sequence : List AcceptorCall) :
    (node.calls sequence).acceptedId ≤ (node.calls sequence).promisedId ∧
      node.promisedId ≤ (node.calls sequence).promisedId ∧
      node.acceptedId ≤ (node.calls sequence).acceptedId := by
  induction sequence generalizing node with
  | nil => exact ⟨ordered, Int.le_refl _, Int.le_refl _⟩
  | cons next rest inductionHypothesis =>
      obtain ⟨nextOrdered, promisedGrows, acceptedGrows⟩ := call_spec ordered next
      obtain ⟨restOrdered, restPromised, restAccepted⟩ := inductionHypothesis nextOrdered
      exact ⟨restOrdered, Int.le_trans promisedGrows restPromised,
        Int.le_trans acceptedGrows restAccepted⟩

theorem prepare_below {node : PaxosNode} (ordered : node.acceptedId ≤ node.promisedId)
    {proposalId : Int} (below : proposalId < node.acceptedId) :
    node.prepare proposalId = (false, node) := by
  unfold prepare
  rw [if_neg (by omega)]

theorem accept_below {node : PaxosNode} (ordered : node.acceptedId ≤ node.promisedId)
    {proposalId : Int} (below : proposalId < node.acceptedId) (value : String) :
    node.accept proposalId value = (false, node) := by
  unfold accept
  rw [if_neg (by omega)]

end PaxosNode

/-- Along every sequence of calls from the constructor, the accepted id never exceeds the
promised one, neither ever goes down, and once a node has accepted an id it refuses, without
changing, every later `prepare` or `accept` below it. -/
theorem acceptor_never_goes_back (id : Nat) (before after : List AcceptorCall) :
    let earlier := (PaxosNode.create id).calls before
    let later := earlier.calls after
    later.acceptedId ≤ later.promisedId ∧ earlier.promisedId ≤ later.promisedId ∧
      earlier.acceptedId ≤ later.acceptedId ∧
      ∀ proposalId < earlier.acceptedId, ∀ value : String,
        later.prepare proposalId = (false, later) ∧ later.accept proposalId value = (false, later) := by
  intro earlier later
  have earlierOrdered :=
    (PaxosNode.calls_spec (Int.le_refl (PaxosNode.create id).acceptedId) before).1
  obtain ⟨laterOrdered, promisedGrows, acceptedGrows⟩ := PaxosNode.calls_spec earlierOrdered after
  refine ⟨laterOrdered, promisedGrows, acceptedGrows, fun proposalId below value => ?_⟩
  have laterBelow : proposalId < later.acceptedId := Int.lt_of_lt_of_le below acceptedGrows
  exact ⟨PaxosNode.prepare_below laterOrdered laterBelow,
    PaxosNode.accept_below laterOrdered laterBelow value⟩

/-- Where one `propose` call stands: before the `prepare` of a node (at the end of the
nodes, the majority check), before the `learn` of a node that promised, before the `accept`
of a node with the value decided for phase 2, or returned. -/
inductive ProposeStage where
  | prepare (index : Nat)
  | learn (index : Nat)
  | accept (index : Nat) (decidedValue : String)
  | returned (result : Bool) (decidedValue : Option String)
  deriving DecidableEq, Repr

/-- One `propose(proposer_id, proposal_id, value)` call with its local variables. -/
structure ProposeCall where
  proposerId : Int
  proposalId : Int
  value : String
  numPrepareAccepted : Nat
  acceptedValues : List (Nat × String)
  numAcceptAccepted : Nat
  stage : ProposeStage
  deriving DecidableEq, Repr

/-- A call about to start its prepare loop. -/
def ProposeCall.start (proposerId proposalId : Int) (value : String) : ProposeCall :=
  ⟨proposerId, proposalId, value, 0, [], 0, .prepare 0⟩

/-- `accepted_values[id] = value` on the insertion-ordered entries. -/
def assignEntry (entries : List (Nat × String)) (id : Nat) (value : String) :
    List (Nat × String) :=
  entries.filter (fun entry => entry.1 != id) ++ [(id, value)]

section Step

variable (designate : List (Nat × String) → String)

/-- One node call (or the majority check between the phases) of a `propose` call: the new
nodes, the new call, and the successful accepts it made, as `(node, id, value)`. -/
def callStep (nodes : List PaxosNode) (call : ProposeCall) :
    List PaxosNode × ProposeCall × List (Nat × Int × String) :=
  match call.stage with
  | .prepare index =>
      match nodes[index]? with
      | some node =>
          let (promised, prepared) := node.prepare call.proposalId
          if promised then
            (nodes.set index prepared,
              { call with numPrepareAccepted := call.numPrepareAccepted + 1,
                          stage := .learn index }, [])
          else
            (nodes, { call with stage := .prepare (index + 1) }, [])
      | none =>
          if call.numPrepareAccepted ≤ nodes.length / 2 then
            (nodes, { call with stage := .returned false none }, [])
          else
            let decided :=
              if call.acceptedValues.isEmpty then call.value else designate call.acceptedValues
            (nodes, { call with stage := .accept 0 decided }, [])
  | .learn index =>
      match nodes[index]?.bind PaxosNode.learn with
      | some learned =>
          (nodes, { call with
            acceptedValues := assignEntry call.acceptedValues index learned,
            stage := .prepare (index + 1) }, [])
      | none => (nodes, { call with stage := .prepare (index + 1) }, [])
  | .accept index decided =>
      match nodes[index]? with
      | some node =>
          let (accepted, updated) := node.accept call.proposalId decided
          if accepted then
            (nodes.set index updated,
              { call with numAcceptAccepted := call.numAcceptAccepted + 1,
                          stage := .accept (index + 1) decided },
              [(index, call.proposalId, decided)])
          else
            (nodes, { call with stage := .accept (index + 1) decided }, [])
      | none =>
          (nodes, { call with
            stage := .returned (call.numAcceptAccepted > nodes.length / 2) (some decided) }, [])
  | .returned _ _ => (nodes, call, [])

end Step

/-- The nodes of a `PaxosSystem`, the `propose` calls in flight on it, and (ghost) every
successful `accept` so far. -/
structure PaxosSystem where
  nodes : List PaxosNode
  calls : List ProposeCall
  acceptLog : List (Nat × Int × String)
  deriving DecidableEq, Repr

namespace PaxosSystem

/-- `PaxosSystem(num_nodes)` with one `propose(proposer, id, value)` call per triple, none
of them started. -/
def create (numNodes : Nat) (proposals : List (Int × Int × String)) : PaxosSystem :=
  ⟨(List.range numNodes).map PaxosNode.create,
    proposals.map (fun proposal => ProposeCall.start proposal.1 proposal.2.1 proposal.2.2),
    []⟩

variable (designate : List (Nat × String) → String)

/-- The call at position `caller` takes one step. -/
def step (system : PaxosSystem) (caller : Nat) : PaxosSystem :=
  match system.calls[caller]? with
  | none => system
  | some call =>
      let (nodes, advanced, accepts) := callStep designate system.nodes call
      ⟨nodes, system.calls.set caller advanced, system.acceptLog ++ accepts⟩

/-- The interleaving that lets the calls at the listed positions step, in that order. -/
def run (system : PaxosSystem) (schedule : List Nat) : PaxosSystem :=
  schedule.foldl (step designate) system

/-- `value` has been accepted under `proposalId` by a majority of the nodes. -/
def AcceptedByMajority (system : PaxosSystem) (proposalId : Int) (value : String) : Prop :=
  ((List.range system.nodes.length).filter
    (fun index => decide ((index, proposalId, value) ∈ system.acceptLog))).length >
      system.nodes.length / 2

instance (system : PaxosSystem) (proposalId : Int) (value : String) :
    Decidable (system.AcceptedByMajority proposalId value) :=
  inferInstanceAs (Decidable (_ > _))

end PaxosSystem

/-! ## Two values chosen -/

/-- Designate the entry inserted first. -/
def designateFirst (entries : List (Nat × String)) : String :=
  (entries.headD (0, "")).2

theorem designateFirst_mem (entries : List (Nat × String)) (nonempty : entries ≠ []) :
    ∃ entry ∈ entries, designateFirst entries = entry.2 := by
  cases entries with
  | nil => exact absurd rfl nonempty
  | cons first rest => exact ⟨first, List.mem_cons_self first rest, rfl⟩

/-- Three proposers with distinct ids on three nodes. -/
def racingProposals : List (Int × Int × String) :=
  [(1, 1, "Value_W"), (2, 2, "Value_V"), (3, 3, "Value_U")]

/-- The first proposer gets its value accepted by node 0 only; the third promises node 0
and learns that value; the second wins nodes 1 and 2 and returns true; the third then
finishes its prepare loop, adopts the stale value and wins all three nodes. -/
def racingSchedule : List Nat :=
  List.replicate 8 0 ++ List.replicate 2 2 ++ List.replicate 10 1 ++
    List.replicate 9 2 ++ List.replicate 3 0

def racingRun : PaxosSystem :=
  (PaxosSystem.create 3 racingProposals).run designateFirst racingSchedule

set_option maxRecDepth 2000 in
theorem racingRun_chooses_two_values :
    (∀ entries, entries ≠ [] → ∃ entry ∈ entries, designateFirst entries = entry.2) ∧
      (racingProposals.map (fun proposal => proposal.2.1)).Nodup ∧
      racingRun.AcceptedByMajority 2 "Value_V" ∧
      racingRun.AcceptedByMajority 3 "Value_W" ∧
      racingRun.calls.map ProposeCall.stage =
        [.returned false (some "Value_W"), .returned true (some "Value_V"),
          .returned true (some "Value_W")] :=
  ⟨designateFirst_mem, by decide⟩

end DistributedCaching.Paxos
