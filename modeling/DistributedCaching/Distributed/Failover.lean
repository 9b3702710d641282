import Mathlib.Data.List.Basic

/-!
# Leader failover of the distributed cache

`DistributedCache.cpp`: every node runs `heartbeatMonitor`, which asks
`rpcClient.checkAllPeersAlive(peerNodes)` and, on `false`, calls `handleFailover`; a node
that is not the leader then promotes itself. Nothing ever clears `isLeader`, and the node
neither asks which peer failed nor whether a leader is still alive.

`checkAllPeersAlive` is not among the sources. Its answer is an input of the model, and a
`false` is admitted only when some listed peer has actually failed. Until a node fails,
nothing changes, and the one node constructed as leader is the only leader. After a failure,
every live follower whose round sees it becomes a leader too.
-/

namespace DistributedCaching.Failover

/-- The fields of a `DistributedCache` node that failover reads or writes. -/
structure DistributedCache where
  nodeId : String
  peerNodes : List String
  isLeader : Bool
  deriving DecidableEq, Repr

namespace DistributedCache

def promoteToLeader (node : DistributedCache) : DistributedCache :=
  { node with isLeader := true }

def handleFailover (node : DistributedCache) : DistributedCache :=
  if node.isLeader then node else node.promoteToLeader

end DistributedCache

/-- The nodes of a cluster and the ids of those that have failed. -/
structure Cluster where
  nodes : List DistributedCache
  failed : List String
  deriving DecidableEq, Repr

/-- A node fails, or a node runs one round of `heartbeatMonitor` in which
`checkAllPeersAlive` answers `allPeersAlive`. -/
inductive ClusterEvent where
  | fail (node : Nat)
  | heartbeatRound (node : Nat) (allPeersAlive : Bool)
  deriving DecidableEq, Repr

namespace Cluster

/-- The constructed nodes, none failed. -/
def start (nodes : List DistributedCache) : Cluster :=
  ⟨nodes, []⟩

/-- `checkAllPeersAlive` answers `false` only when a listed peer has failed. -/
def Admits (cluster : Cluster) (node : DistributedCache) (allPeersAlive : Bool) : Prop :=
  allPeersAlive = true ∨ ∃ peer ∈ node.peerNodes, peer ∈ cluster.failed

instance (cluster : Cluster) (node : DistributedCache) (allPeersAlive : Bool) :
    Decidable (cluster.Admits node allPeersAlive) :=
  inferInstanceAs (Decidable (_ ∨ _))

/-- A failed node takes no step, and an answer the peers' state does not admit is not a
possible round. -/
def step (cluster : Cluster) : ClusterEvent → Cluster
  | .fail index =>
      match cluster.nodes[index]? with
      | some node => { cluster with failed := cluster.failed ++ [node.nodeId] }
      | none => cluster
  | .heartbeatRound index allPeersAlive =>
      match cluster.nodes[index]? with
      | some node =>
          if node.nodeId ∉ cluster.failed ∧ cluster.Admits node allPeersAlive ∧
              allPeersAlive = false then
            { cluster with nodes := cluster.nodes.set index node.handleFailover }
          else
            cluster
      | none => cluster

def run (cluster : Cluster) (events : List ClusterEvent) : Cluster :=
  events.foldl step cluster

/-- The live nodes that have `isLeader` set. -/
def liveLeaders (cluster : Cluster) : List String :=
  (cluster.nodes.filter (fun node => node.isLeader && !decide (node.nodeId ∈ cluster.failed))).map
    DistributedCache.nodeId

/-! ### Steps and runs -/

/-- What one step can do: nothing, record a failure, or promote a node at a round that
sees a failed peer. -/
theorem step_cases (cluster : Cluster) (event : ClusterEvent) :
    cluster.step event = cluster ∨
      (∃ failing : DistributedCache,
        cluster.step event = { cluster with failed := cluster.failed ++ [failing.nodeId] }) ∨
      (∃ index node, cluster.nodes[index]? = some node ∧
        (∃ peer ∈ node.peerNodes, peer ∈ cluster.failed) ∧
        cluster.step event =
          { cluster with nodes := cluster.nodes.set index node.handleFailover }) := by
  cases event with
  | fail index =>
      cases found : cluster.nodes[index]? with
      | none => exact .inl (by simp [step, found])
      | some node => exact .inr (.inl ⟨node, by simp [step, found]⟩)
  | heartbeatRound index allPeersAlive =>
      cases found : cluster.nodes[index]? with
      | none => exact .inl (by simp [step, found])
      | some node =>
          by_cases promoted : node.nodeId ∉ cluster.failed ∧
              cluster.Admits node allPeersAlive ∧ allPeersAlive = false
          · obtain ⟨_, admitted, rfl⟩ := promoted
            refine .inr (.inr ⟨index, node, found, ?_, by simp [step, found, *]⟩)
            simpa [Admits] using admitted
          · exact .inl (by simp only [step, found]; rw [if_neg promoted])

/-- A step after which no node has failed changed nothing: a round can only promote after a
failure. -/
theorem step_eq_self_of_failed_eq_nil (cluster : Cluster) (event : ClusterEvent)
    (noFailure : (cluster.step event).failed = []) : cluster.step event = cluster := by
  rcases step_cases cluster event with
    unchanged | ⟨failing, failure⟩ | ⟨_, _, _, ⟨_, _, failedPeer⟩, promotion⟩
  · exact unchanged
  · simp [failure] at noFailure
  · have noneFailed : cluster.failed = [] := by rw [promotion] at noFailure; exact noFailure
    simp [noneFailed] at failedPeer

theorem run_eq_self_of_failed_eq_nil (cluster : Cluster) (events : List ClusterEvent)
    (noFailure : (cluster.run events).failed = []) : cluster.run events = cluster := by
  induction events generalizing cluster with
  | nil => rfl
  | cons event rest inductionHypothesis =>
      have restUnchanged := inductionHypothesis (cluster.step event) noFailure
      have stepUnchanged := step_eq_self_of_failed_eq_nil cluster event
        (by rw [← restUnchanged]; exact noFailure)
      simp only [run, List.foldl_cons] at restUnchanged ⊢
      rw [restUnchanged, stepUnchanged]

theorem handleFailover_isLeader (node : DistributedCache) :
    node.handleFailover.isLeader = true := by
  unfold DistributedCache.handleFailover
  split
  · assumption
  · rfl

/-- A live node whose round is told that not all peers are alive, while one of its peers has
failed, is leader after the round, whatever the other nodes hold. -/
theorem step_heartbeatRound_isLeader (cluster : Cluster) {index : Nat} {node : DistributedCache}
    (found : cluster.nodes[index]? = some node) (live : node.nodeId ∉ cluster.failed)
    (failedPeer : ∃ peer ∈ node.peerNodes, peer ∈ cluster.failed) :
    ((cluster.step (.heartbeatRound index false)).nodes[index]?).map DistributedCache.isLeader =
      some true := by
  simp only [step, found]
  rw [if_pos ⟨live, .inr failedPeer, trivial⟩]
  simp [(List.getElem?_eq_some_iff.1 found).1, handleFailover_isLeader node]

/-- No step clears a leader flag. -/
theorem step_isLeader (cluster : Cluster) (event : ClusterEvent) (index : Nat)
    (leader : (cluster.nodes[index]?).map DistributedCache.isLeader = some true) :
    ((cluster.step event).nodes[index]?).map DistributedCache.isLeader = some true := by
  rcases step_cases cluster event with
    unchanged | ⟨failing, failure⟩ | ⟨promoted, node, found, _, promotion⟩
  · rwa [unchanged]
  · rwa [failure]
  · rw [promotion]
    by_cases same : promoted = index
    · subst same
      rw [found, Option.map_some', Option.some.injEq] at leader
      simp [(List.getElem?_eq_some_iff.1 found).1, handleFailover_isLeader node]
    · simpa [List.getElem?_set_ne same] using leader

theorem run_isLeader (cluster : Cluster) (events : List ClusterEvent) (index : Nat)
    (leader : (cluster.nodes[index]?).map DistributedCache.isLeader = some true) :
    ((cluster.run events).nodes[index]?).map DistributedCache.isLeader = some true := by
  induction events generalizing cluster with
  | nil => exact leader
  | cons event rest inductionHypothesis =>
      exact inductionHypothesis (cluster.step event) (step_isLeader cluster event index leader)

end Cluster

/-- In every run, no node loses its leader flag, and until some node has failed no node
changes at all: the node constructed as leader stays the only leader. After any run, a live
node with a failed peer whose next round is told that not all peers are alive is leader
after it, whether or not a leader is alive. -/
theorem leadership_changes_only_after_failure (nodes : List DistributedCache)
    (events : List ClusterEvent) :
    (∀ index : Nat, (nodes[index]?).map DistributedCache.isLeader = some true →
      (((Cluster.start nodes).run events).nodes[index]?).map DistributedCache.isLeader =
        some true) ∧
      (((Cluster.start nodes).run events).failed = [] →
        ((Cluster.start nodes).run events).nodes = nodes) ∧
      (∀ (index : Nat) (node : DistributedCache),
        ((Cluster.start nodes).run events).nodes[index]? = some node →
        node.nodeId ∉ ((Cluster.start nodes).run events).failed →
        (∃ peer ∈ node.peerNodes, peer ∈ ((Cluster.start nodes).run events).failed) →
        ((((Cluster.start nodes).run events).step (.heartbeatRound index false)).nodes[index]?).map
          DistributedCache.isLeader = some true) :=
  ⟨fun index leader => Cluster.run_isLeader (Cluster.start nodes) events index leader,
    fun noFailure => congrArg Cluster.nodes
      (Cluster.run_eq_self_of_failed_eq_nil (Cluster.start nodes) events noFailure),
    fun _ _ found live failedPeer => Cluster.step_heartbeatRound_isLeader _ found live failedPeer⟩

/-! ## Two live leaders -/

def mainPeers : List String :=
  ["node1", "node2", "node3"]

/-- Three nodes over the peer list of `main`, `node1` constructed as leader. -/
def threeNodes : List DistributedCache :=
  [⟨"node1", mainPeers, true⟩, ⟨"node2", mainPeers, false⟩, ⟨"node3", mainPeers, false⟩]

/-- A follower fails; the other follower's round sees it and promotes itself while the
leader is alive. -/
theorem followerFailure_makes_two_leaders :
    ((Cluster.start threeNodes).run [.fail 2, .heartbeatRound 1 false]).liveLeaders =
      ["node1", "node2"] := by
  decide

end DistributedCaching.Failover
