import DistributedCaching.Cache.RecencyList

/-!
# The heartbeat failure detector

`HeartbeatManager.cpp` keeps a map from node ids to a record `{id, alive,
lastHeartbeatTimestamp}`. `registerNode` and `receiveHeartbeat` stamp a node with
`static_cast<int>(system_clock::now().time_since_epoch().count())`, and each pass of
`monitorNodes` marks dead, and reports to the failure callback, every alive node whose stamp
is more than `failureThresholdMs` below the current one.

Time is an argument of each event: the clock's tick count, nanoseconds in libstdc++. The cast
keeps it modulo `2^32` as a two's-complement `int`, and the difference is taken in `int`;
the model computes both on `BitVec 32`, with the wrap-around the compiled code has (the
overflowing subtraction is undefined in the language). The callback fires exactly when a pass
flips a node's flag from alive to dead, so at most once between two heartbeats of the node;
but the comparison sets nanoseconds against milliseconds, and a difference that wraps past
`2^31` reads as negative.
-/

namespace DistributedCaching.Heartbeat

/-- `static_cast<int>` of a clock reading. -/
def timestamp (now : Int) : BitVec 32 :=
  BitVec.ofInt 32 now

/-- The record `HeartbeatManager::Node`. -/
structure Node where
  id : String
  alive : Bool
  lastHeartbeatTimestamp : BitVec 32
  deriving DecidableEq, Repr

/-- The state the calls and the monitor thread share: the threshold, the map of nodes in the
map's iteration order, and whether a failure callback has been set. -/
structure HeartbeatManager where
  failureThresholdMs : BitVec 32
  nodes : List (String × Node)
  hasCallback : Bool
  deriving DecidableEq, Repr

/-- A public call, or one pass of the loop of `monitorNodes`, with the clock reading it takes. -/
inductive HeartbeatEvent where
  | registerNode (nodeId : String) (now : Int)
  | removeNode (nodeId : String)
  | receiveHeartbeat (nodeId : String) (now : Int)
  | monitorPass (now : Int)
  | setFailureThreshold (thresholdMs : BitVec 32)
  | setNodeFailureCallback
  deriving DecidableEq, Repr

namespace HeartbeatManager

/-- `HeartbeatManager(heartbeatInterval, failureThreshold)`: no node, no callback. -/
def create (failureThreshold : BitVec 32) : HeartbeatManager :=
  ⟨failureThreshold, [], false⟩

/-- The record of a node id. -/
def nodeOf (manager : HeartbeatManager) (nodeId : String) : Option Node :=
  Lru.Recency.lookup manager.nodes nodeId

/-- Rewrite every record in place, given its key. -/
def updateNodes (nodes : List (String × Node)) (update : String → Node → Node) :
    List (String × Node) :=
  nodes.map (fun entry => (entry.1, update entry.1 entry.2))

/-- `nodes[nodeId] = Node{ nodeId, true, now }`. -/
def registerNode (manager : HeartbeatManager) (nodeId : String) (now : Int) :
    HeartbeatManager :=
  let node : Node := ⟨nodeId, true, timestamp now⟩
  { manager with
    nodes :=
      if manager.nodes.any (fun entry => entry.1 == nodeId) then
        updateNodes manager.nodes (fun key current => if key = nodeId then node else current)
      else
        manager.nodes ++ [(nodeId, node)] }

/-- `nodes.erase(nodeId)`. -/
def removeNode (manager : HeartbeatManager) (nodeId : String) : HeartbeatManager :=
  { manager with nodes := Lru.Recency.without manager.nodes nodeId }

/-- A registered node is stamped and marked alive; another id changes nothing. -/
def receiveHeartbeat (manager : HeartbeatManager) (nodeId : String) (now : Int) :
    HeartbeatManager :=
  { manager with
    nodes := updateNodes manager.nodes (fun key node =>
      if key = nodeId then { node with lastHeartbeatTimestamp := timestamp now, alive := true }
      else node) }

/-- `node.alive && currentTime - node.lastHeartbeatTimestamp > failureThresholdMs`. -/
def silent (manager : HeartbeatManager) (currentTime : BitVec 32) (node : Node) : Bool :=
  node.alive && manager.failureThresholdMs.slt (currentTime - node.lastHeartbeatTimestamp)

/-- One pass of `monitorNodes`: the nodes after it, and the ids it reports to the callback,
in iteration order. -/
def monitorPass (manager : HeartbeatManager) (now : Int) : HeartbeatManager × List String :=
  let currentTime := timestamp now
  ({ manager with
      nodes := updateNodes manager.nodes (fun _ node =>
        if manager.silent currentTime node then { node with alive := false } else node) },
    if manager.hasCallback then
      (manager.nodes.filter (fun entry => manager.silent currentTime entry.2)).map
        (fun entry => entry.2.id)
    else [])

/-- One event: the state after it and the node ids it reports as failed. -/
def step (manager : HeartbeatManager) : HeartbeatEvent → HeartbeatManager × List String
  | .registerNode nodeId now => (manager.registerNode nodeId now, [])
  | .removeNode nodeId => (manager.removeNode nodeId, [])
  | .receiveHeartbeat nodeId now => (manager.receiveHeartbeat nodeId now, [])
  | .monitorPass now => manager.monitorPass now
  | .setFailureThreshold thresholdMs => ({ manager with failureThresholdMs := thresholdMs }, [])
  | .setNodeFailureCallback => ({ manager with hasCallback := true }, [])

/-- A run: the final state and every reported id, in order. -/
def run (manager : HeartbeatManager) : List HeartbeatEvent → HeartbeatManager × List String
  | [] => (manager, [])
  | event :: rest =>
      let next := manager.step event
      let later := next.1.run rest
      (later.1, next.2 ++ later.2)

/-- The alive flag of a registered node. -/
def aliveFlag (manager : HeartbeatManager) (nodeId : String) : Option Bool :=
  (manager.nodeOf nodeId).map Node.alive

/-- `1` while the node is registered and alive, `0` otherwise. -/
def armed (manager : HeartbeatManager) (nodeId : String) : Nat :=
  if manager.aliveFlag nodeId = some true then 1 else 0

end HeartbeatManager

/-- The events that set a node's flag: its registration and its heartbeats. -/
def HeartbeatEvent.refreshes (nodeId : String) : HeartbeatEvent → Bool
  | .registerNode registered _ => registered == nodeId
  | .receiveHeartbeat beating _ => beating == nodeId
  | _ => false

/-! ## Records by key -/

namespace HeartbeatManager

theorem keys_updateNodes (nodes : List (String × Node)) (update : String → Node → Node) :
    (updateNodes nodes update).map Prod.fst = nodes.map Prod.fst := by
  simp [updateNodes, Function.comp_def]

theorem lookup_updateNodes (nodes : List (String × Node)) (update : String → Node → Node)
    (nodeId : String) :
    Lru.Recency.lookup (updateNodes nodes update) nodeId =
      (Lru.Recency.lookup nodes nodeId).map (update nodeId) := by
  induction nodes with
  | nil => rfl
  | cons head tail inductionHypothesis =>
      obtain ⟨key, node⟩ := head
      simp only [updateNodes, List.map_cons] at inductionHypothesis ⊢
      rw [Lru.Recency.lookup_cons, Lru.Recency.lookup_cons, inductionHypothesis]
      split_ifs with same
      · rw [same]
        rfl
      · rfl

section Records

variable (manager : HeartbeatManager) {nodeId other : String}

theorem nodeOf_registerNode (now : Int) :
    (manager.registerNode nodeId now).nodeOf other =
      if other = nodeId then some ⟨nodeId, true, timestamp now⟩ else manager.nodeOf other := by
  unfold registerNode nodeOf
  split
  · rename_i present
    rw [lookup_updateNodes]
    split_ifs with same
    · subst same
      obtain ⟨entry, member, sameKey⟩ := List.any_eq_true.1 present
      have : Lru.Recency.lookup manager.nodes other ≠ none := fun absent =>
        (Lru.Recency.lookup_eq_none_iff _ _).1 absent
          (List.mem_map.2 ⟨entry, member, by simpa using sameKey⟩)
      obtain ⟨node, found⟩ := Option.ne_none_iff_exists'.1 this
      simp [found]
    · simp [same]
  · rename_i absent
    have missing : manager.nodes.find? (fun entry => entry.1 == nodeId) = none :=
      List.find?_eq_none.2 fun entry member same => absent (List.any_eq_true.2 ⟨entry, member, same⟩)
    simp only [Lru.Recency.lookup, List.find?_append, List.find?_singleton]
    by_cases same : other = nodeId
    · subst same
      simp [missing]
    · simp [same, Ne.symm same]

theorem nodeOf_removeNode :
    (manager.removeNode nodeId).nodeOf other =
      if other = nodeId then none else manager.nodeOf other :=
  Lru.Recency.lookup_without manager.nodes nodeId other

theorem nodeOf_receiveHeartbeat (now : Int) :
    (manager.receiveHeartbeat nodeId now).nodeOf other =
      (manager.nodeOf other).map (fun node =>
        if other = nodeId then { node with lastHeartbeatTimestamp := timestamp now, alive := true }
        else node) := by
  simp only [receiveHeartbeat, nodeOf, lookup_updateNodes]

theorem nodeOf_monitorPass (now : Int) :
    (manager.monitorPass now).1.nodeOf other =
      (manager.nodeOf other).map (fun node =>
        if manager.silent (timestamp now) node then { node with alive := false } else node) := by
  simp only [monitorPass, nodeOf, lookup_updateNodes]

end Records

/-! ## The map's invariant -/

/-- Every id is a key once, and every record holds its key as its id. -/
structure Wf (manager : HeartbeatManager) : Prop where
  keysNodup : (manager.nodes.map Prod.fst).Nodup
  ownIds : ∀ entry ∈ manager.nodes, entry.2.id = entry.1

theorem wf_create (failureThreshold : BitVec 32) : (create failureThreshold).Wf :=
  ⟨List.nodup_nil, nofun⟩

theorem ownIds_updateNodes {nodes : List (String × Node)} {update : String → Node → Node}
    (keepsId : ∀ entry ∈ nodes, (update entry.1 entry.2).id = entry.1) :
    ∀ entry ∈ updateNodes nodes update, entry.2.id = entry.1 := by
  intro entry member
  obtain ⟨original, originalMember, rfl⟩ := List.mem_map.1 member
  exact keepsId original originalMember

theorem Wf.updateNodes {manager : HeartbeatManager} (wf : manager.Wf)
    {update : String → Node → Node}
    (keepsId : ∀ entry ∈ manager.nodes, (update entry.1 entry.2).id = entry.1)
    (failureThresholdMs : BitVec 32) (hasCallback : Bool) :
    (⟨failureThresholdMs, updateNodes manager.nodes update, hasCallback⟩ : HeartbeatManager).Wf :=
  ⟨by rw [keys_updateNodes]; exact wf.keysNodup, ownIds_updateNodes keepsId⟩

variable {manager : HeartbeatManager}

theorem Wf.registerNode (wf : manager.Wf) (nodeId : String) (now : Int) :
    (manager.registerNode nodeId now).Wf := by
  by_cases present : manager.nodes.any (fun entry => entry.1 == nodeId)
  · simp only [HeartbeatManager.registerNode, present, if_true]
    refine wf.updateNodes (fun entry member => ?_) _ _
    split_ifs with same
    · exact same.symm
    · exact wf.ownIds entry member
  · have absent : nodeId ∉ manager.nodes.map Prod.fst := fun member =>
      present (List.any_eq_true.2 (by simpa using member))
    simp only [HeartbeatManager.registerNode, present]
    refine ⟨by simpa [List.nodup_append] using And.intro wf.keysNodup absent, fun entry member => ?_⟩
    rcases List.mem_append.1 member with member | member
    · exact wf.ownIds entry member
    · simp only [List.mem_singleton] at member
      rw [member]

theorem Wf.removeNode (wf : manager.Wf) (nodeId : String) : (manager.removeNode nodeId).Wf :=
  have sublist : (Lru.Recency.without manager.nodes nodeId).Sublist manager.nodes :=
    List.filter_sublist _
  ⟨wf.keysNodup.sublist (sublist.map _), fun entry member => wf.ownIds entry (sublist.subset member)⟩

theorem Wf.receiveHeartbeat (wf : manager.Wf) (nodeId : String) (now : Int) :
    (manager.receiveHeartbeat nodeId now).Wf := by
  unfold HeartbeatManager.receiveHeartbeat
  exact wf.updateNodes (fun entry member => by split_ifs <;> exact wf.ownIds entry member) _ _

theorem Wf.monitorPass (wf : manager.Wf) (now : Int) : (manager.monitorPass now).1.Wf := by
  simp only [HeartbeatManager.monitorPass]
  exact wf.updateNodes (fun entry member => by split_ifs <;> exact wf.ownIds entry member) _ _

/-- Every event keeps the invariant. -/
theorem Wf.step_wf (wf : manager.Wf) : ∀ event, (manager.step event).1.Wf
  | .registerNode nodeId now => wf.registerNode nodeId now
  | .removeNode nodeId => wf.removeNode nodeId
  | .receiveHeartbeat nodeId now => wf.receiveHeartbeat nodeId now
  | .monitorPass now => wf.monitorPass now
  | .setFailureThreshold _ => ⟨wf.keysNodup, wf.ownIds⟩
  | .setNodeFailureCallback => ⟨wf.keysNodup, wf.ownIds⟩

theorem Wf.run_wf (wf : manager.Wf) (events : List HeartbeatEvent) :
    (manager.run events).1.Wf := by
  induction events generalizing manager with
  | nil => exact wf
  | cons event rest inductionHypothesis => exact inductionHypothesis (wf.step_wf event)

/-! ## Failure reports -/

theorem mem_failed_iff (wf : manager.Wf) (currentTime : BitVec 32) (nodeId : String) :
    nodeId ∈ (manager.nodes.filter (fun entry => manager.silent currentTime entry.2)).map
        Prod.fst ↔
      (manager.nodeOf nodeId).any (manager.silent currentTime) = true := by
  constructor
  · intro member
    obtain ⟨⟨key, node⟩, filtered, rfl⟩ := List.mem_map.1 member
    obtain ⟨entryMember, isSilent⟩ := List.mem_filter.1 filtered
    rw [nodeOf, Lru.Recency.lookup_of_mem wf.keysNodup entryMember]
    exact isSilent
  · intro isSilent
    cases found : manager.nodeOf nodeId with
    | none => simp [found] at isSilent
    | some node =>
        rw [found, Option.any_some] at isSilent
        exact List.mem_map.2 ⟨(nodeId, node),
          List.mem_filter.2 ⟨Lru.Recency.mem_of_lookup_eq_some found, isSilent⟩, rfl⟩

/-- A pass reports a node once when the callback is set and the node is silent, and never
otherwise. -/
theorem count_monitorPass (wf : manager.Wf) (now : Int) (nodeId : String) :
    (manager.monitorPass now).2.count nodeId =
      if manager.hasCallback ∧ (manager.nodeOf nodeId).any (manager.silent (timestamp now))
      then 1 else 0 := by
  by_cases callback : manager.hasCallback
  · have ids : (manager.nodes.filter (fun entry => manager.silent (timestamp now) entry.2)).map
          (fun entry => entry.2.id) =
        (manager.nodes.filter (fun entry => manager.silent (timestamp now) entry.2)).map
          Prod.fst :=
      List.map_congr_left fun entry member => wf.ownIds entry (List.mem_of_mem_filter member)
    have nodup := wf.keysNodup.sublist ((List.filter_sublist
      (p := fun entry => manager.silent (timestamp now) entry.2) manager.nodes).map Prod.fst)
    simp only [monitorPass, callback, if_true, ids, List.count_eq_of_nodup nodup, true_and,
      mem_failed_iff wf]
  · simp [monitorPass, callback]

/-- Apart from a pass, an event reports nothing and marks no node dead. -/
theorem aliveFlag_of_dead_of_not_pass {nodeId : String} (event : HeartbeatEvent)
    (notPass : ∀ now, event ≠ .monitorPass now)
    (dead : (manager.step event).1.aliveFlag nodeId = some false) :
    manager.aliveFlag nodeId = some false ∧ (manager.step event).2 = [] := by
  cases event with
  | registerNode registered now =>
      by_cases same : nodeId = registered <;>
        simp_all [step, aliveFlag, nodeOf_registerNode]
  | removeNode removed =>
      by_cases same : nodeId = removed <;> simp_all [step, aliveFlag, nodeOf_removeNode]
  | receiveHeartbeat beating now =>
      by_cases same : nodeId = beating <;>
        cases found : manager.nodeOf nodeId <;>
          simp_all [step, aliveFlag, nodeOf_receiveHeartbeat]
  | monitorPass now => exact absurd rfl (notPass now)
  | setFailureThreshold thresholdMs => exact ⟨dead, rfl⟩
  | setNodeFailureCallback => exact ⟨dead, rfl⟩

/-- Only a pass turns a flag from alive to dead, and it reports the node exactly then. -/
theorem count_step (wf : manager.Wf) (event : HeartbeatEvent) (nodeId : String) :
    (manager.step event).2.count nodeId =
      if manager.hasCallback ∧ manager.aliveFlag nodeId = some true ∧
          (manager.step event).1.aliveFlag nodeId = some false then 1 else 0 := by
  by_cases pass : ∃ now, event = .monitorPass now
  · obtain ⟨now, rfl⟩ := pass
    rw [step, count_monitorPass wf, aliveFlag, aliveFlag, nodeOf_monitorPass]
    cases manager.nodeOf nodeId with
    | none => simp
    | some node =>
        by_cases isSilent : manager.silent (timestamp now) node
        · have alive : node.alive = true := by
            simp only [silent, Bool.and_eq_true] at isSilent
            exact isSilent.1
          simp [isSilent, alive]
        · simp [isSilent]
  · have notPass : ∀ now, event ≠ .monitorPass now := fun now same => pass ⟨now, same⟩
    by_cases flip : manager.hasCallback ∧ manager.aliveFlag nodeId = some true ∧
        (manager.step event).1.aliveFlag nodeId = some false
    · have := (aliveFlag_of_dead_of_not_pass event notPass flip.2.2).1
      rw [flip.2.1] at this
      cases this
    · rw [if_neg flip]
      cases event <;> first | exact absurd rfl (notPass _) | rfl

/-- A flag no refresh of the node touches can only be alive after an event if it was before. -/
theorem aliveFlag_step_of_quiet {nodeId : String} (event : HeartbeatEvent)
    (quiet : event.refreshes nodeId = false)
    (alive : (manager.step event).1.aliveFlag nodeId = some true) :
    manager.aliveFlag nodeId = some true := by
  cases event with
  | registerNode registered now =>
      have different : nodeId ≠ registered := fun same => by
        simp [same, HeartbeatEvent.refreshes] at quiet
      simpa [step, aliveFlag, nodeOf_registerNode, different] using alive
  | removeNode removed =>
      by_cases same : nodeId = removed <;>
        simp_all [step, aliveFlag, nodeOf_removeNode]
  | receiveHeartbeat beating now =>
      have different : nodeId ≠ beating := fun same => by
        simp [same, HeartbeatEvent.refreshes] at quiet
      simpa [step, aliveFlag, nodeOf_receiveHeartbeat, different] using alive
  | monitorPass now =>
      rw [step, aliveFlag, nodeOf_monitorPass] at alive
      cases found : manager.nodeOf nodeId with
      | none => simp [found] at alive
      | some node =>
          rw [found] at alive
          by_cases isSilent : manager.silent (timestamp now) node <;>
            simp_all [aliveFlag]
  | setFailureThreshold thresholdMs => exact alive
  | setNodeFailureCallback => exact alive

theorem count_step_add_armed (wf : manager.Wf) {nodeId : String} (event : HeartbeatEvent)
    (quiet : event.refreshes nodeId = false) :
    (manager.step event).2.count nodeId + (manager.step event).1.armed nodeId ≤
      manager.armed nodeId := by
  rw [count_step wf]
  by_cases flip : manager.hasCallback ∧ manager.aliveFlag nodeId = some true ∧
      (manager.step event).1.aliveFlag nodeId = some false
  · simp [armed, flip]
  · have rearmed : (manager.step event).1.aliveFlag nodeId = some true →
        manager.aliveFlag nodeId = some true :=
      aliveFlag_step_of_quiet event quiet
    rw [if_neg flip, armed, armed]
    split_ifs <;> simp_all

/-- Over events that neither register nor refresh the node, the reports of it and its
alive flag at the end together never exceed its alive flag at the start. -/
theorem count_run_add_armed (wf : manager.Wf) {nodeId : String} (events : List HeartbeatEvent)
    (quiet : ∀ event ∈ events, event.refreshes nodeId = false) :
    (manager.run events).2.count nodeId + (manager.run events).1.armed nodeId ≤
      manager.armed nodeId := by
  induction events generalizing manager with
  | nil => simp [run]
  | cons event rest inductionHypothesis =>
      have stepBound := count_step_add_armed wf event (quiet event (List.mem_cons_self _ _))
      have restBound := inductionHypothesis (wf.step_wf event)
        (fun later member => quiet later (List.mem_cons_of_mem _ member))
      simp only [run, List.count_append]
      omega

end HeartbeatManager

/-! ## Runs from the constructor -/

/-- In every run, a step reports a node's id exactly when it is a pass that flips the node's
flag from alive to dead (with the callback set); and from any reachable state, over events
that neither register the node nor bring a heartbeat from it, the id is reported at most
once. -/
theorem failureCallback_once_per_silence (failureThreshold : BitVec 32)
    (history : List HeartbeatEvent) (nodeId : String) :
    let manager := ((HeartbeatManager.create failureThreshold).run history).1
    (∀ event, (manager.step event).2.count nodeId =
        if manager.hasCallback ∧ manager.aliveFlag nodeId = some true ∧
            (manager.step event).1.aliveFlag nodeId = some false then 1 else 0) ∧
      ∀ later : List HeartbeatEvent, (∀ event ∈ later, event.refreshes nodeId = false) →
        (manager.run later).2.count nodeId ≤ 1 := by
  intro manager
  have wf : manager.Wf := (HeartbeatManager.wf_create failureThreshold).run_wf history
  refine ⟨fun event => HeartbeatManager.count_step wf event nodeId, fun later quiet => ?_⟩
  have bound := HeartbeatManager.count_run_add_armed wf later quiet
  have armedAtMostOne : manager.armed nodeId ≤ 1 := by
    unfold HeartbeatManager.armed
    split_ifs <;> omega
  omega

/-- The threshold of `main` (3000) and its callback, with `Node1` registered at a clock
reading of `1.7 · 10^18` ns: a pass one millisecond later reports it, and a pass four
seconds later does not. -/
theorem nanosecondStamps_against_millisecondThreshold :
    ((HeartbeatManager.create 3000).run [.setNodeFailureCallback,
        .registerNode "Node1" 1700000000000000000, .monitorPass 1700000000001000000]).2 =
      ["Node1"] ∧
    ((HeartbeatManager.create 3000).run [.setNodeFailureCallback,
        .registerNode "Node1" 1700000000000000000, .monitorPass 1700000004000000000]).2 =
      [] := by
  decide

end DistributedCaching.Heartbeat
