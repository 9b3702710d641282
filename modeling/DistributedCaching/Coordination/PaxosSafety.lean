import DistributedCaching.Coordination.Paxos

/-!
# What every interleaving of `propose` calls keeps

Two safety properties of `PaxosSystem::propose` that hold whatever order the concurrent
calls reach the nodes in, and whichever entry `accepted_values.begin()` designates.

A call returns `true` only after a majority of the nodes accepted its proposal id with the
value it decided: `num_accept_accepted` counts successful `accept` calls on distinct nodes,
one per iteration of the loop, so it never exceeds the number of nodes the ghost log records
for that id and value.

Every value a node accepts was the `value` argument of some `propose` call, provided the
designated entry is one of the collected ones: a promise hands back only values accepted
earlier, and those were decided by earlier calls from the same two sources.
-/

namespace DistributedCaching.Paxos

/-! ## Counting the nodes that accepted -/

/-- The nodes below `bound` that the log records as having accepted `value` under
`proposalId`. -/
def acceptCount (log : List (Nat × Int × String)) (proposalId : Int) (value : String)
    (bound : Nat) : Nat :=
  ((List.range bound).filter (fun index => decide ((index, proposalId, value) ∈ log))).length

theorem acceptCount_le_append (log more : List (Nat × Int × String)) (proposalId : Int)
    (value : String) (bound : Nat) :
    acceptCount log proposalId value bound ≤ acceptCount (log ++ more) proposalId value bound :=
  ((List.range bound).monotone_filter_right fun index recorded => by
    simp only [decide_eq_true_eq] at recorded ⊢
    exact List.mem_append_left more recorded).length_le

theorem acceptCount_succ (log : List (Nat × Int × String)) (proposalId : Int)
    (value : String) (bound : Nat) :
    acceptCount log proposalId value (bound + 1) =
      acceptCount log proposalId value bound +
        if (bound, proposalId, value) ∈ log then 1 else 0 := by
  unfold acceptCount
  rw [List.range_succ, List.filter_append, List.length_append]
  by_cases recorded : (bound, proposalId, value) ∈ log <;> simp [recorded]

/-- A successful `accept` at node `index` adds that node to the count past it. -/
theorem acceptCount_accept (log : List (Nat × Int × String)) (index : Nat) (proposalId : Int)
    (value : String) :
    acceptCount log proposalId value index + 1 ≤
      acceptCount (log ++ [(index, proposalId, value)]) proposalId value (index + 1) := by
  rw [acceptCount_succ, if_pos (List.mem_append_right log (List.mem_singleton_self _))]
  exact Nat.succ_le_succ (acceptCount_le_append log _ proposalId value index)

theorem acceptCount_le_succ (log : List (Nat × Int × String)) (proposalId : Int)
    (value : String) (bound : Nat) :
    acceptCount log proposalId value bound ≤ acceptCount log proposalId value (bound + 1) := by
  rw [acceptCount_succ]
  exact Nat.le_add_right _ _

/-! ## The count a call has reached -/

/-- What a call's accept counter is bounded by at each stage, over `n` nodes: nothing is
counted before phase 2, during phase 2 the counter is at most the nodes before the current
one that the log records for the call's id and decided value, and a call that returned
`true` has a majority recorded. -/
def StageSound (n : Nat) (log : List (Nat × Int × String)) (proposalId : Int)
    (numAcceptAccepted : Nat) : ProposeStage → Prop
  | .prepare _ | .learn _ => numAcceptAccepted = 0
  | .accept index decided =>
      index ≤ n ∧ numAcceptAccepted ≤ acceptCount log proposalId decided index
  | .returned result decided =>
      result = true → ∃ value, decided = some value ∧ n / 2 < acceptCount log proposalId value n

theorem StageSound.append {n : Nat} {log : List (Nat × Int × String)} {proposalId : Int}
    {numAcceptAccepted : Nat} {stage : ProposeStage}
    (sound : StageSound n log proposalId numAcceptAccepted stage)
    (more : List (Nat × Int × String)) :
    StageSound n (log ++ more) proposalId numAcceptAccepted stage := by
  cases stage with
  | prepare _ | learn _ => exact sound
  | accept index decided =>
      exact ⟨sound.1, Nat.le_trans sound.2 (acceptCount_le_append log more _ _ _)⟩
  | returned result decided =>
      intro returnedTrue
      obtain ⟨value, rfl, majority⟩ := sound returnedTrue
      exact ⟨value, rfl, Nat.lt_of_lt_of_le majority (acceptCount_le_append log more _ _ _)⟩

section Step

variable (designate : List (Nat × String) → String)

/-- A step of a call leaves the number of nodes alone. -/
theorem length_callStep (nodes : List PaxosNode) (call : ProposeCall) :
    (callStep designate nodes call).1.length = nodes.length := by
  unfold callStep
  split
  · split
    · split
      split <;> simp
    · split <;> rfl
  · split <;> rfl
  · split
    · split
      split <;> simp
    · rfl
  · rfl

theorem proposalId_callStep (nodes : List PaxosNode) (call : ProposeCall) :
    (callStep designate nodes call).2.1.proposalId = call.proposalId := by
  unfold callStep
  split
  · split
    · split
      split <;> rfl
    · split <;> rfl
  · split <;> rfl
  · split
    · split
      split <;> rfl
    · rfl
  · rfl

/-- One step of a call keeps its counter within what the log records. -/
theorem StageSound.callStep {nodes : List PaxosNode} {log : List (Nat × Int × String)}
    {call : ProposeCall}
    (sound : StageSound nodes.length log call.proposalId call.numAcceptAccepted call.stage) :
    StageSound nodes.length (log ++ (callStep designate nodes call).2.2) call.proposalId
      (callStep designate nodes call).2.1.numAcceptAccepted
      (callStep designate nodes call).2.1.stage := by
  unfold Paxos.callStep
  split
  · rename_i index stage
    rw [stage] at sound
    split
    · split
      split <;> exact sound
    · split
      · exact fun returnedFalse => absurd returnedFalse Bool.false_ne_true
      · exact ⟨Nat.zero_le _, by rw [sound]; exact Nat.zero_le _⟩
  · rename_i index stage
    rw [stage] at sound
    split <;> exact sound
  · rename_i index decided stage
    rw [stage] at sound
    split
    · rename_i node found
      have inside : index < nodes.length := (List.getElem?_eq_some_iff.1 found).1
      split
      rename_i accepted updated accepting
      split
      · exact ⟨inside, Nat.le_trans (Nat.succ_le_succ sound.2) (acceptCount_accept log index _ _)⟩
      · rw [List.append_nil]
        exact ⟨inside, Nat.le_trans sound.2 (acceptCount_le_succ log _ _ _)⟩
    · rename_i missing
      have atEnd : index = nodes.length :=
        Nat.le_antisymm sound.1 (List.getElem?_eq_none_iff.1 missing)
      rw [List.append_nil]
      intro majority
      exact ⟨decided, rfl, Nat.lt_of_lt_of_le (of_decide_eq_true majority) (atEnd ▸ sound.2)⟩
  · rw [List.append_nil]
    exact sound

end Step

namespace PaxosSystem

variable (designate : List (Nat × String) → String)

/-- Every call's counter is within what the log records. -/
def CallsSound (system : PaxosSystem) : Prop :=
  ∀ call ∈ system.calls, StageSound system.nodes.length system.acceptLog call.proposalId
    call.numAcceptAccepted call.stage

theorem callsSound_create (numNodes : Nat) (proposals : List (Int × Int × String)) :
    (create numNodes proposals).CallsSound := by
  intro call member
  obtain ⟨proposal, _, rfl⟩ := List.mem_map.1 member
  rfl

theorem CallsSound.step {system : PaxosSystem} (sound : system.CallsSound) (caller : Nat) :
    (system.step designate caller).CallsSound := by
  unfold PaxosSystem.step
  split
  · exact sound
  · rename_i call found
    have callSound := StageSound.callStep designate (sound call (List.mem_iff_getElem?.2 ⟨caller, found⟩))
    have sameLength := length_callStep designate system.nodes call
    have sameId := proposalId_callStep designate system.nodes call
    split
    rename_i nodes advanced accepts stepped
    rw [stepped] at callSound sameLength sameId
    intro other member
    dsimp only at sameLength sameId ⊢
    rw [sameLength]
    rcases List.mem_or_eq_of_mem_set member with old | rfl
    · exact (sound other old).append accepts
    · rw [sameId]
      exact callSound

theorem CallsSound.run {system : PaxosSystem} (sound : system.CallsSound) (schedule : List Nat) :
    (system.run designate schedule).CallsSound := by
  induction schedule generalizing system with
  | nil => exact sound
  | cons caller rest inductionHypothesis => exact inductionHypothesis (sound.step designate caller)

end PaxosSystem

/-- Whatever the interleaving and whichever entry `accepted_values.begin()` designates, a
`propose` call that has returned `true` has had the value it decided accepted under its
proposal id by a majority of the nodes. -/
theorem proposeTrue_acceptedByMajority (designate : List (Nat × String) → String)
    (numNodes : Nat) (proposals : List (Int × Int × String)) (schedule : List Nat) :
    ∀ call ∈ ((PaxosSystem.create numNodes proposals).run designate schedule).calls,
      ∀ decided, call.stage = .returned true decided → ∃ value, decided = some value ∧
        ((PaxosSystem.create numNodes proposals).run designate schedule).AcceptedByMajority
          call.proposalId value := by
  intro call member decided returned
  have sound := (PaxosSystem.callsSound_create numNodes proposals).run designate schedule call member
  rw [returned] at sound
  exact sound rfl

/-- One proposer on three nodes, its call run to the end. -/
def singleProposerRun : PaxosSystem :=
  (PaxosSystem.create 3 [(1, 1000, "Value_A")]).run designateFirst (List.replicate 11 0)

theorem singleProposer_returns_with_majority :
    let returnedCall : ProposeCall :=
      ⟨1, 1000, "Value_A", 3, [], 3, .returned true (some "Value_A")⟩
    returnedCall ∈ singleProposerRun.calls ∧
      returnedCall.stage = .returned true (some "Value_A") ∧
      ∃ value, some "Value_A" = some value ∧
        singleProposerRun.AcceptedByMajority returnedCall.proposalId value :=
  ⟨by decide, rfl, proposeTrue_acceptedByMajority designateFirst 3 [(1, 1000, "Value_A")]
    (List.replicate 11 0) _ (by decide) _ rfl⟩

/-! ## Only proposed values are accepted -/

/-- The value a call has decided for phase 2, once it has one. -/
def ProposeStage.decidedValue : ProposeStage → Option String
  | .accept _ decided => some decided
  | .returned _ decided => decided
  | .prepare _ | .learn _ => none

theorem PaxosNode.learn_prepare (node : PaxosNode) (proposalId : Int) :
    (node.prepare proposalId).2.learn = node.learn := by
  unfold PaxosNode.prepare
  split <;> rfl

theorem PaxosNode.learn_accept (node : PaxosNode) (proposalId : Int) (value : String) :
    (node.accept proposalId value).2.learn = node.learn ∨
      (node.accept proposalId value).2.learn = some value := by
  unfold PaxosNode.accept
  split
  · exact .inr rfl
  · exact .inl rfl

section Values

variable (values : List String)

/-- Every value the nodes report through `learn` is among `values`. -/
def NodesValuesFrom (nodes : List PaxosNode) : Prop :=
  ∀ node ∈ nodes, ∀ value, node.learn = some value → value ∈ values

/-- A call's own value, the values it collected and the value it decided are among
`values`. -/
structure CallValuesFrom (call : ProposeCall) : Prop where
  own : call.value ∈ values
  entries : ∀ entry ∈ call.acceptedValues, entry.2 ∈ values
  decided : ∀ value, call.stage.decidedValue = some value → value ∈ values

variable {values}

theorem NodesValuesFrom.set {nodes : List PaxosNode} (nodesFrom : NodesValuesFrom values nodes)
    (index : Nat) {node : PaxosNode} (learned : ∀ value, node.learn = some value → value ∈ values) :
    NodesValuesFrom values (nodes.set index node) := fun other member =>
  (List.mem_or_eq_of_mem_set member).elim (nodesFrom other) (fun same => same ▸ learned)

theorem NodesValuesFrom.learn {nodes : List PaxosNode} (nodesFrom : NodesValuesFrom values nodes)
    {index : Nat} {learned : String} (found : nodes[index]?.bind PaxosNode.learn = some learned) :
    learned ∈ values := by
  obtain ⟨node, present, learns⟩ := Option.bind_eq_some.1 found
  exact nodesFrom node (List.mem_iff_getElem?.2 ⟨index, present⟩) learned learns

theorem mem_assignEntry {entries : List (Nat × String)} {id : Nat} {value : String}
    {entry : Nat × String} (member : entry ∈ assignEntry entries id value) :
    entry ∈ entries ∨ entry = (id, value) := by
  rcases List.mem_append.1 member with kept | added
  · exact .inl (List.mem_of_mem_filter kept)
  · exact .inr (List.mem_singleton.1 added)

variable (designate : List (Nat × String) → String)
  (designates : ∀ entries, entries ≠ [] → ∃ entry ∈ entries, designate entries = entry.2)
include designates

/-- The value decided between the phases is the call's own or a collected one. -/
theorem CallValuesFrom.decide {call : ProposeCall} (callFrom : CallValuesFrom values call) :
    (if call.acceptedValues.isEmpty then call.value else designate call.acceptedValues) ∈ values := by
  split
  · exact callFrom.own
  · rename_i nonempty
    obtain ⟨entry, member, designated⟩ :=
      designates call.acceptedValues (fun empty => nonempty (by rw [empty]; rfl))
    exact designated ▸ callFrom.entries entry member

/-- One step of a call keeps every value it can move among `values`. -/
theorem valuesFrom_callStep {nodes : List PaxosNode} {call : ProposeCall}
    (nodesFrom : NodesValuesFrom values nodes) (callFrom : CallValuesFrom values call) :
    NodesValuesFrom values (callStep designate nodes call).1 ∧
      CallValuesFrom values (callStep designate nodes call).2.1 ∧
      ∀ entry ∈ (callStep designate nodes call).2.2, entry.2.2 ∈ values := by
  have keeps (next : ProposeCall) (own : next.value = call.value)
      (entries : next.acceptedValues = call.acceptedValues)
      (decided : ∀ value, next.stage.decidedValue = some value → value ∈ values) :
      CallValuesFrom values next :=
    ⟨own ▸ callFrom.own, entries ▸ callFrom.entries, decided⟩
  have none_accepted : ∀ entry ∈ ([] : List (Nat × Int × String)), entry.2.2 ∈ values := nofun
  unfold Paxos.callStep
  split
  · split
    · rename_i node found
      split
      rename_i promised prepared preparing
      have reports : prepared.learn = node.learn := by
        rw [← PaxosNode.learn_prepare node call.proposalId, preparing]
      split
      · refine ⟨nodesFrom.set _ fun value learns => ?_, keeps _ rfl rfl fun _ => nofun, none_accepted⟩
        exact nodesFrom node (List.mem_iff_getElem?.2 ⟨_, found⟩) value (reports ▸ learns)
      · exact ⟨nodesFrom, keeps _ rfl rfl fun _ => nofun, none_accepted⟩
    · split
      · exact ⟨nodesFrom, keeps _ rfl rfl fun _ => nofun, none_accepted⟩
      · refine ⟨nodesFrom, keeps _ rfl rfl fun value decided => ?_, none_accepted⟩
        cases decided
        exact callFrom.decide designate designates
  · split
    · rename_i learned found
      refine ⟨nodesFrom, ⟨callFrom.own, fun entry member => ?_, fun _ => nofun⟩, none_accepted⟩
      rcases mem_assignEntry member with old | rfl
      · exact callFrom.entries entry old
      · exact nodesFrom.learn found
    · exact ⟨nodesFrom, keeps _ rfl rfl fun _ => nofun, none_accepted⟩
  · rename_i index decided stage
    have decidedFrom : decided ∈ values := callFrom.decided decided (by rw [stage]; rfl)
    have stillDecided (next : ProposeCall) (own : next.value = call.value)
        (entries : next.acceptedValues = call.acceptedValues)
        (same : next.stage.decidedValue = some decided) : CallValuesFrom values next :=
      keeps next own entries fun _ decides => by
        rw [same] at decides
        cases decides
        exact decidedFrom
    split
    · rename_i node found
      split
      rename_i accepted updated accepting
      have reports : updated.learn = node.learn ∨ updated.learn = some decided := by
        have reported := PaxosNode.learn_accept node call.proposalId decided
        rwa [accepting] at reported
      split
      · refine ⟨nodesFrom.set _ fun value learns => ?_, stillDecided _ rfl rfl rfl, ?_⟩
        · rcases reports with same | set
          · exact nodesFrom node (List.mem_iff_getElem?.2 ⟨_, found⟩) value (same ▸ learns)
          · rw [set] at learns
            cases learns
            exact decidedFrom
        · intro entry member
          rw [List.mem_singleton.1 member]
          exact decidedFrom
      · exact ⟨nodesFrom, stillDecided _ rfl rfl rfl, none_accepted⟩
    · exact ⟨nodesFrom, stillDecided _ rfl rfl rfl, none_accepted⟩
  · exact ⟨nodesFrom, callFrom, none_accepted⟩

end Values

namespace PaxosSystem

/-- Every value the nodes, the calls and the log hold is among `values`. -/
structure ValuesFrom (values : List String) (system : PaxosSystem) : Prop where
  nodes : NodesValuesFrom values system.nodes
  calls : ∀ call ∈ system.calls, CallValuesFrom values call
  log : ∀ entry ∈ system.acceptLog, entry.2.2 ∈ values

theorem valuesFrom_create (numNodes : Nat) (proposals : List (Int × Int × String)) :
    (create numNodes proposals).ValuesFrom (proposals.map fun proposal => proposal.2.2) where
  nodes node member value learns := by
    obtain ⟨id, _, rfl⟩ := List.mem_map.1 member
    cases learns
  calls call member := by
    obtain ⟨proposal, proposed, rfl⟩ := List.mem_map.1 member
    exact ⟨List.mem_map_of_mem _ proposed, nofun, fun _ => nofun⟩
  log _ := nofun

variable (designate : List (Nat × String) → String)
  (designates : ∀ entries, entries ≠ [] → ∃ entry ∈ entries, designate entries = entry.2)
include designates

theorem ValuesFrom.step {values : List String} {system : PaxosSystem}
    (valuesFrom : system.ValuesFrom values) (caller : Nat) :
    (system.step designate caller).ValuesFrom values := by
  unfold PaxosSystem.step
  split
  · exact valuesFrom
  · rename_i call found
    obtain ⟨nodesFrom, callFrom, acceptsFrom⟩ := valuesFrom_callStep designate designates
      valuesFrom.nodes (valuesFrom.calls call (List.mem_iff_getElem?.2 ⟨caller, found⟩))
    split
    rename_i nodes advanced accepts stepped
    rw [stepped] at nodesFrom callFrom acceptsFrom
    refine ⟨nodesFrom, fun other member => ?_, fun entry member => ?_⟩
    · rcases List.mem_or_eq_of_mem_set member with old | rfl
      · exact valuesFrom.calls other old
      · exact callFrom
    · rcases List.mem_append.1 member with old | new
      · exact valuesFrom.log entry old
      · exact acceptsFrom entry new

theorem ValuesFrom.run {values : List String} {system : PaxosSystem}
    (valuesFrom : system.ValuesFrom values) (schedule : List Nat) :
    (system.run designate schedule).ValuesFrom values := by
  induction schedule generalizing system with
  | nil => exact valuesFrom
  | cons caller rest inductionHypothesis =>
      exact inductionHypothesis (valuesFrom.step designate designates caller)

end PaxosSystem

/-- Whatever the interleaving, if `accepted_values.begin()` designates one of the collected
entries, every `accept` that succeeds and every value a node reports through `learn` carries
the `value` argument of one of the `propose` calls. -/
theorem acceptedValues_were_proposed (designate : List (Nat × String) → String)
    (designates : ∀ entries, entries ≠ [] → ∃ entry ∈ entries, designate entries = entry.2)
    (numNodes : Nat) (proposals : List (Int × Int × String)) (schedule : List Nat) :
    let system := (PaxosSystem.create numNodes proposals).run designate schedule
    (∀ entry ∈ system.acceptLog, entry.2.2 ∈ proposals.map fun proposal => proposal.2.2) ∧
      ∀ node ∈ system.nodes, ∀ value, node.learn = some value →
        value ∈ proposals.map fun proposal => proposal.2.2 := by
  intro system
  have valuesFrom := (PaxosSystem.valuesFrom_create numNodes proposals).run designate designates
    schedule
  exact ⟨valuesFrom.log, valuesFrom.nodes⟩

/-- The two proposers of `main` on five nodes, each call run to the end in turn. -/
theorem mainProposers_accept_only_proposed_values :
    (∀ entries, entries ≠ [] → ∃ entry ∈ entries, designateFirst entries = entry.2) ∧
      let system := (PaxosSystem.create 5 [(1, 1000, "Value_A"), (2, 2000, "Value_B")]).run
        designateFirst (List.replicate 17 0 ++ List.replicate 17 1)
      (∀ entry ∈ system.acceptLog, entry.2.2 ∈ ["Value_A", "Value_B"]) ∧
        ∀ node ∈ system.nodes, ∀ value, node.learn = some value →
          value ∈ ["Value_A", "Value_B"] :=
  ⟨designateFirst_mem, acceptedValues_were_proposed designateFirst designateFirst_mem 5
    [(1, 1000, "Value_A"), (2, 2000, "Value_B")] (List.replicate 17 0 ++ List.replicate 17 1)⟩

end DistributedCaching.Paxos
