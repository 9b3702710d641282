import DistributedCaching.Int32
import Mathlib.Data.List.Basic

/-!
# Strong consistency by majority rounds

`StrongConsistency.cpp`: a `Node` promises a proposal number above its highest one and
accepts a number at or above it; `Paxos::runPaxos` runs a prepare round, an accept round
and, when both reach the quorum `nodes.size() / 2 + 1`, makes every node learn the value.
`ConsensusCluster::proposeValue` numbers its rounds with `++proposalNum` on a function-local
`static int`.

The prepare round only counts promises: it neither collects the values nodes have accepted
nor makes the round adopt one (`Node::acceptedValue` is written and never read). So a round
is never bound by an earlier chosen value. Every call of `proposeValue` made after the
previous one has returned passes both rounds, and makes all nodes accept and learn its own
value: two successive calls with different values choose different values. This holds until
the counter overflows (`incrementInt`): after `INT_MAX` calls no number exceeds the `INT_MAX`
every node has promised, and no call passes again.
-/

namespace DistributedCaching.StrongConsistency

/-- The fields of a `Node` that its methods read or write. -/
structure Node where
  id : Nat
  value : String
  highestProposalNum : Int
  acceptedProposalNum : Int
  acceptedValue : String
  deriving DecidableEq, Repr

namespace Node

/-- `Node(int nodeId)`: both numbers `-1`, strings default-constructed. -/
def create (nodeId : Nat) : Node :=
  ⟨nodeId, "", -1, -1, ""⟩

/-- The proposed value is not used: a promise carries nothing back. -/
def propose (node : Node) (proposalNum : Int) (_proposedValue : String) : Bool × Node :=
  if proposalNum > node.highestProposalNum then
    (true, { node with highestProposalNum := proposalNum })
  else
    (false, node)

/-- Accepting does not raise `highestProposalNum`. -/
def accept (node : Node) (proposalNum : Int) (proposedValue : String) : Bool × Node :=
  if proposalNum ≥ node.highestProposalNum then
    (true, { node with acceptedProposalNum := proposalNum, acceptedValue := proposedValue })
  else
    (false, node)

def learn (node : Node) (learnedValue : String) : Node :=
  { node with value := learnedValue }

end Node

/-- After accepting proposal 5, a node still promises 4 and accepts 3, and the accepted
number goes back from 5 to 3. -/
theorem acceptedProposal_rolls_back :
    ((Node.create 0).accept 5 "ValueA").2.acceptedProposalNum = 5 ∧
      (((Node.create 0).accept 5 "ValueA").2.propose 4 "").1 = true ∧
      ((Node.create 0).accept 5 "ValueA").2.accept 3 "ValueB" =
        (true, { ((Node.create 0).accept 5 "ValueA").2 with
          acceptedProposalNum := 3, acceptedValue := "ValueB" }) := by
  decide

/-- The quorum of `Paxos(vector<Node*>)`. -/
def quorumSize (nodes : List Node) : Nat :=
  nodes.length / 2 + 1

/-- Call `node->propose(proposalNum, "")` on every node: the promises and the new nodes. -/
def proposeAll (proposalNum : Int) : List Node → Nat × List Node
  | [] => (0, [])
  | node :: rest =>
      let (promised, prepared) := node.propose proposalNum ""
      let (promises, preparedRest) := proposeAll proposalNum rest
      (promises + if promised then 1 else 0, prepared :: preparedRest)

/-- Call `node->accept(proposalNum, proposedValue)` on every node. -/
def acceptAll (proposalNum : Int) (proposedValue : String) : List Node → Nat × List Node
  | [] => (0, [])
  | node :: rest =>
      let (accepted, updated) := node.accept proposalNum proposedValue
      let (accepts, updatedRest) := acceptAll proposalNum proposedValue rest
      (accepts + if accepted then 1 else 0, updated :: updatedRest)

def preparePhase (nodes : List Node) (_proposerId : Int) (proposalNum : Int) :
    Bool × List Node :=
  let (promises, prepared) := proposeAll proposalNum nodes
  (decide (promises ≥ quorumSize nodes), prepared)

def acceptPhase (nodes : List Node) (_proposerId : Int) (proposalNum : Int)
    (proposedValue : String) : Bool × List Node :=
  let (accepts, updated) := acceptAll proposalNum proposedValue nodes
  (decide (accepts ≥ quorumSize nodes), updated)

def learnPhase (nodes : List Node) (_proposerId : Int) (value : String) : List Node :=
  nodes.map (fun node => node.learn value)

def runPaxos (nodes : List Node) (proposerId proposalNum : Int) (value : String) :
    List Node :=
  let (prepared, promisedNodes) := preparePhase nodes proposerId proposalNum
  if prepared then
    let (accepted, acceptedNodes) := acceptPhase promisedNodes proposerId proposalNum value
    if accepted then learnPhase acceptedNodes proposerId value else acceptedNodes
  else
    promisedNodes

/-- The nodes of a `ConsensusCluster` and the `static int proposalNum` of `proposeValue`
(one counter for the process; a single cluster is modelled). -/
structure ConsensusCluster where
  nodes : List Node
  proposalNum : Int
  deriving DecidableEq, Repr

namespace ConsensusCluster

def create (nodeCount : Nat) : ConsensusCluster :=
  ⟨(List.range nodeCount).map Node.create, 0⟩

def proposeValue (cluster : ConsensusCluster) (proposerId : Int) (value : String) :
    ConsensusCluster :=
  ⟨runPaxos cluster.nodes proposerId (incrementInt cluster.proposalNum) value,
    incrementInt cluster.proposalNum⟩

/-- `proposeValue` calls made one after another. -/
def proposeValues (cluster : ConsensusCluster) (calls : List (Int × String)) :
    ConsensusCluster :=
  calls.foldl (fun current call => current.proposeValue call.1 call.2) cluster

@[simp] theorem create_proposalNum (nodeCount : Nat) : (create nodeCount).proposalNum = 0 := rfl

@[simp] theorem proposeValues_nil (cluster : ConsensusCluster) :
    cluster.proposeValues [] = cluster := rfl

@[simp] theorem proposeValues_cons (cluster : ConsensusCluster) (call : Int × String)
    (calls : List (Int × String)) :
    cluster.proposeValues (call :: calls) = (cluster.proposeValue call.1 call.2).proposeValues calls :=
  rfl

theorem proposeValues_append (cluster : ConsensusCluster) (calls later : List (Int × String)) :
    cluster.proposeValues (calls ++ later) = (cluster.proposeValues calls).proposeValues later :=
  List.foldl_append _ _ _ _

end ConsensusCluster

/-! ## A round above every number seen passes -/

section Rounds

variable (proposalNum : Int)

theorem proposeAll_of_lt (nodes : List Node)
    (below : ∀ node ∈ nodes, node.highestProposalNum < proposalNum) :
    proposeAll proposalNum nodes =
      (nodes.length, nodes.map (fun node => { node with highestProposalNum := proposalNum })) := by
  induction nodes with
  | nil => rfl
  | cons node rest inductionHypothesis =>
      simp only [List.mem_cons, forall_eq_or_imp] at below
      simp [proposeAll, Node.propose, below.1, inductionHypothesis below.2]

theorem acceptAll_of_le (proposedValue : String) (nodes : List Node)
    (atMost : ∀ node ∈ nodes, node.highestProposalNum ≤ proposalNum) :
    acceptAll proposalNum proposedValue nodes =
      (nodes.length, nodes.map (fun node =>
        { node with acceptedProposalNum := proposalNum, acceptedValue := proposedValue })) := by
  induction nodes with
  | nil => rfl
  | cons node rest inductionHypothesis =>
      simp only [List.mem_cons, forall_eq_or_imp] at atMost
      simp [acceptAll, Node.accept, atMost.1, inductionHypothesis atMost.2]

theorem quorumSize_le_length {nodes : List Node} (hasNodes : nodes ≠ []) :
    quorumSize nodes ≤ nodes.length := by
  have := List.length_pos.2 hasNodes
  unfold quorumSize
  omega

/-- Both phases of a round numbered above every node's highest number pass, and every node
ends promised and accepted at that number and has learned the round's value. -/
theorem runPaxos_of_lt {nodes : List Node} (hasNodes : nodes ≠ []) (proposerId : Int)
    (value : String) (below : ∀ node ∈ nodes, node.highestProposalNum < proposalNum) :
    (preparePhase nodes proposerId proposalNum).1 = true ∧
      (acceptPhase (preparePhase nodes proposerId proposalNum).2 proposerId proposalNum
        value).1 = true ∧
      runPaxos nodes proposerId proposalNum value =
        nodes.map (fun node => { node with
          value := value, highestProposalNum := proposalNum,
          acceptedProposalNum := proposalNum, acceptedValue := value }) := by
  have quorum := quorumSize_le_length hasNodes
  have promotedAtMost : ∀ node ∈ nodes.map (fun node =>
      { node with highestProposalNum := proposalNum }), node.highestProposalNum ≤ proposalNum := by
    simp
  have prepared : preparePhase nodes proposerId proposalNum = (true, nodes.map (fun node =>
      { node with highestProposalNum := proposalNum })) := by
    simp [preparePhase, proposeAll_of_lt proposalNum nodes below, quorum]
  have accepted : acceptPhase (nodes.map (fun node =>
      { node with highestProposalNum := proposalNum })) proposerId proposalNum value =
      (true, nodes.map (fun node => { node with
        highestProposalNum := proposalNum, acceptedProposalNum := proposalNum,
        acceptedValue := value })) := by
    simpa [acceptPhase, acceptAll_of_le proposalNum value _ promotedAtMost, quorumSize] using quorum
  refine ⟨by rw [prepared], by rw [prepared, accepted], ?_⟩
  simp [runPaxos, prepared, accepted, learnPhase, Node.learn]

/-- A round numbered at or below every node's highest number gets no promise and changes no
node. -/
theorem proposeAll_of_ge (nodes : List Node)
    (atLeast : ∀ node ∈ nodes, proposalNum ≤ node.highestProposalNum) :
    proposeAll proposalNum nodes = (0, nodes) := by
  induction nodes with
  | nil => rfl
  | cons node rest inductionHypothesis =>
      simp only [List.mem_cons, forall_eq_or_imp] at atLeast
      simp [proposeAll, Node.propose, Int.not_lt.2 atLeast.1, inductionHypothesis atLeast.2]

theorem runPaxos_of_ge (nodes : List Node) (proposerId : Int) (value : String)
    (atLeast : ∀ node ∈ nodes, proposalNum ≤ node.highestProposalNum) :
    runPaxos nodes proposerId proposalNum value = nodes := by
  simp [runPaxos, preparePhase, proposeAll_of_ge proposalNum nodes atLeast, quorumSize]

end Rounds

/-! ## Calls made one after another -/

namespace ConsensusCluster

/-- The counter of `proposeValue` has not wrapped and is at or above every number a node has
promised. -/
def Fresh (cluster : ConsensusCluster) : Prop :=
  0 ≤ cluster.proposalNum ∧ ∀ node ∈ cluster.nodes, node.highestProposalNum ≤ cluster.proposalNum

theorem fresh_create (nodeCount : Nat) : (create nodeCount).Fresh := by
  simp [Fresh, create, Node.create]

/-- On a fresh cluster with nodes, a round numbered one above the counter passes both
phases. -/
theorem proposeValue_of_fresh {cluster : ConsensusCluster} (fresh : cluster.Fresh)
    (hasNodes : cluster.nodes ≠ []) (proposerId : Int) (value : String) :
    (preparePhase cluster.nodes proposerId (cluster.proposalNum + 1)).1 = true ∧
      (acceptPhase (preparePhase cluster.nodes proposerId (cluster.proposalNum + 1)).2
        proposerId (cluster.proposalNum + 1) value).1 = true :=
  (runPaxos_of_lt (cluster.proposalNum + 1) hasNodes proposerId value
    (fun node member => Int.lt_add_one_iff.2 (fresh.2 node member))).imp_right And.left

/-- A call on a fresh cluster whose counter is below `INT_MAX` makes every node promise,
accept and learn its own value under the call's number. -/
theorem proposeValue_nodes {cluster : ConsensusCluster} (fresh : cluster.Fresh)
    (room : cluster.proposalNum < 2147483647) (proposerId : Int) (value : String) :
    (cluster.proposeValue proposerId value).nodes =
      cluster.nodes.map (fun node => { node with
        value := value, highestProposalNum := cluster.proposalNum + 1,
        acceptedProposalNum := cluster.proposalNum + 1, acceptedValue := value }) := by
  by_cases hasNodes : cluster.nodes = []
  · simp [proposeValue, runPaxos, preparePhase, hasNodes, proposeAll, quorumSize]
  · rw [proposeValue, incrementInt_of_lt fresh.1 room]
    exact (runPaxos_of_lt _ hasNodes proposerId value
      (fun node member => Int.lt_add_one_iff.2 (fresh.2 node member))).2.2

theorem proposeValue_fresh {cluster : ConsensusCluster} (fresh : cluster.Fresh)
    (room : cluster.proposalNum < 2147483647) (proposerId : Int) (value : String) :
    (cluster.proposeValue proposerId value).Fresh ∧
      (cluster.proposeValue proposerId value).proposalNum = cluster.proposalNum + 1 ∧
      (cluster.proposeValue proposerId value).nodes.length = cluster.nodes.length := by
  have counter : (cluster.proposeValue proposerId value).proposalNum = cluster.proposalNum + 1 :=
    incrementInt_of_lt fresh.1 room
  have nonneg := fresh.1
  rw [Fresh, proposeValue_nodes fresh room, counter, List.length_map]
  exact ⟨⟨by omega, by simp⟩, rfl, rfl⟩

/-- Calls made one after another on a fresh cluster, fewer than the counter has room for, keep
it fresh and raise the counter by one each. -/
theorem proposeValues_fresh {cluster : ConsensusCluster} (fresh : cluster.Fresh)
    (calls : List (Int × String)) (room : cluster.proposalNum + calls.length < 2147483648) :
    (cluster.proposeValues calls).Fresh ∧
      (cluster.proposeValues calls).proposalNum = cluster.proposalNum + calls.length ∧
      (cluster.proposeValues calls).nodes.length = cluster.nodes.length := by
  induction calls generalizing cluster with
  | nil => exact ⟨fresh, by simp, rfl⟩
  | cons call rest inductionHypothesis =>
      simp only [List.length_cons] at room
      obtain ⟨nextFresh, nextCounter, nextLength⟩ :=
        proposeValue_fresh fresh (by omega) call.1 call.2
      obtain ⟨restFresh, restCounter, restLength⟩ :=
        inductionHypothesis nextFresh (by omega)
      rw [proposeValues_cons]
      exact ⟨restFresh, by simp only [restCounter, nextCounter, List.length_cons]; omega,
        restLength.trans nextLength⟩

/-- Before the counter wraps, whatever calls came before, the next `proposeValue` passes both
phases under the number one above the count of calls, and every node accepts and learns that
call's own value under it. -/
theorem proposeValue_learns_own_value (nodeCount : Nat) (hasNodes : 0 < nodeCount)
    (calls : List (Int × String)) (beforeOverflow : calls.length < 2147483647)
    (proposerId : Int) (value : String) :
    ((create nodeCount).proposeValues calls).proposalNum = calls.length ∧
      (preparePhase ((create nodeCount).proposeValues calls).nodes proposerId
        (calls.length + 1)).1 = true ∧
      (acceptPhase (preparePhase ((create nodeCount).proposeValues calls).nodes proposerId
        (calls.length + 1)).2 proposerId (calls.length + 1) value).1 = true ∧
      ∀ node ∈ (((create nodeCount).proposeValues calls).proposeValue proposerId value).nodes,
        node.value = value ∧ node.acceptedValue = value ∧
          node.acceptedProposalNum = calls.length + 1 := by
  obtain ⟨fresh, counter, length⟩ :=
    proposeValues_fresh (fresh_create nodeCount) calls (by simp only [create_proposalNum]; omega)
  rw [create_proposalNum, Int.zero_add] at counter
  have nonempty : ((create nodeCount).proposeValues calls).nodes ≠ [] :=
    List.ne_nil_of_length_pos (by rw [length]; simpa [create] using hasNodes)
  obtain ⟨prepared, accepted⟩ := proposeValue_of_fresh fresh nonempty proposerId value
  rw [counter] at prepared accepted
  refine ⟨counter, prepared, accepted, ?_⟩
  rw [proposeValue_nodes fresh (by omega), counter]
  simp

/-- Once every node has promised `INT_MAX`, no call changes a node again: the counter never
goes above `INT_MAX`. -/
theorem proposeValues_of_saturated {cluster : ConsensusCluster}
    (saturated : ∀ node ∈ cluster.nodes, node.highestProposalNum = 2147483647)
    (calls : List (Int × String)) : (cluster.proposeValues calls).nodes = cluster.nodes := by
  induction calls generalizing cluster with
  | nil => rfl
  | cons call rest inductionHypothesis =>
      have unchanged : (cluster.proposeValue call.1 call.2).nodes = cluster.nodes :=
        runPaxos_of_ge _ _ _ _ fun node member =>
          (saturated node member).symm ▸ incrementInt_le _
      rw [proposeValues_cons, inductionHypothesis (unchanged.symm ▸ saturated), unchanged]

/-- After `INT_MAX` calls the counter wraps: every later call is refused and changes no node,
whatever it proposes. -/
theorem proposeValues_refused_after_overflow (nodeCount : Nat) (calls later : List (Int × String))
    (overflow : calls.length = 2147483647) :
    ((create nodeCount).proposeValues calls).proposalNum = 2147483647 ∧
      ((create nodeCount).proposeValues (calls ++ later)).nodes =
        ((create nodeCount).proposeValues calls).nodes := by
  obtain ⟨earlier, last, rfl⟩ := (List.eq_nil_or_concat calls).resolve_left
    (fun empty => by simp [empty] at overflow)
  rw [List.concat_eq_append] at overflow ⊢
  rw [List.length_append, List.length_singleton] at overflow
  obtain ⟨fresh, counter, -⟩ := proposeValues_fresh (fresh_create nodeCount) earlier
    (by simp only [create_proposalNum]; omega)
  rw [create_proposalNum, Int.zero_add] at counter
  have lastCounter := (proposeValue_fresh fresh (by omega) last.1 last.2).2.1
  have saturated : ∀ node ∈ ((create nodeCount).proposeValues (earlier ++ [last])).nodes,
      node.highestProposalNum = 2147483647 := by
    rw [proposeValues_append, proposeValues_cons, proposeValues_nil,
      proposeValue_nodes fresh (by omega), List.forall_mem_map, counter]
    intro _ _
    dsimp only
    omega
  refine ⟨?_, by rw [proposeValues_append _ _ later, proposeValues_of_saturated saturated]⟩
  rw [proposeValues_append, proposeValues_cons, proposeValues_nil, lastCounter, counter]
  omega

end ConsensusCluster

/-! ## The two proposers of `main`, one after the other -/

/-- `ValueA` passes the accept phase under number 1, then `ValueB` passes it under number 2,
and the learn phases teach the nodes both values in turn. -/
theorem mainProposals_choose_two_values :
    (acceptPhase (preparePhase (ConsensusCluster.create 5).nodes 0 1).2 0 1 "ValueA").1 = true ∧
      (acceptPhase (preparePhase ((ConsensusCluster.create 5).proposeValue 0 "ValueA").nodes
        1 2).2 1 2 "ValueB").1 = true ∧
      ((ConsensusCluster.create 5).proposeValue 0 "ValueA").nodes.map Node.value =
        List.replicate 5 "ValueA" ∧
      (((ConsensusCluster.create 5).proposeValue 0 "ValueA").proposeValue 1 "ValueB").nodes.map
        Node.value = List.replicate 5 "ValueB" := by
  decide

end DistributedCaching.StrongConsistency
