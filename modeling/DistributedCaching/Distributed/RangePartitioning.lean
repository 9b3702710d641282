import Mathlib.Data.List.Perm.Basic

/-!
# Range partitioning

The partition table of `RangePartitioning.cpp`: inclusive integer key ranges, each bound to
a node, scanned in insertion order by `findNodeForKey`. `addPartition` rejects a call only
when `startRange >= endRange`; it never compares the new range with the accepted ones, so
overlapping ranges are accepted and a lookup in the overlap answers with whichever range was
added first.

The positive result is that insertion order is irrelevant exactly in the situation the
configuration is meant to be in: when the accepted ranges are pairwise disjoint, every
reordering of the same calls is accepted as well and answers every key in the same way.
-/

namespace DistributedCaching.Partitioning

/-- A cache node as the partition table stores and returns it. -/
structure Node where
  nodeId : String
  ipAddress : String
  port : Int
  deriving DecidableEq, Repr

/-- One inclusive key range `[startRange, endRange]` bound to its node. -/
structure RangePartition where
  startRange : Int
  endRange : Int
  node : Node
  deriving DecidableEq, Repr

/-- The exceptions the partition table throws, with their `what()` texts. -/
inductive PartitionError where
  | invalidArgument (what : String)
  | outOfRange (what : String)
  deriving DecidableEq, Repr

namespace RangePartition

def isInRange (partition : RangePartition) (key : Int) : Bool :=
  decide (key ≥ partition.startRange) && decide (key ≤ partition.endRange)

@[simp]
theorem isInRange_eq_true (partition : RangePartition) (key : Int) :
    partition.isInRange key = true ↔
      partition.startRange ≤ key ∧ key ≤ partition.endRange := by
  simp [isInRange]

/-- Two inclusive ranges share no key: one ends before the other starts. -/
def Disjoint (first second : RangePartition) : Prop :=
  first.endRange < second.startRange ∨ second.endRange < first.startRange

instance (first second : RangePartition) : Decidable (Disjoint first second) :=
  inferInstanceAs (Decidable (_ ∨ _))

theorem not_both_isInRange_of_disjoint {first second : RangePartition}
    (disjoint : Disjoint first second) (key : Int) :
    ¬ (first.isInRange key = true ∧ second.isInRange key = true) := by
  simp only [isInRange_eq_true]
  rcases disjoint with before | after <;> omega

end RangePartition

/-- The ordered partition table (`std::vector<RangePartition> partitions`). -/
structure RangePartitioning where
  partitions : List RangePartition
  deriving DecidableEq, Repr

namespace RangePartitioning

def addPartition (table : RangePartitioning) (startRange endRange : Int) (node : Node) :
    Except PartitionError RangePartitioning :=
  if startRange ≥ endRange then
    .error (.invalidArgument "Start range must be less than end range.")
  else
    .ok ⟨table.partitions ++ [⟨startRange, endRange, node⟩]⟩

/-- The first partition in insertion order whose range holds the key answers it. -/
def findNodeForKey (table : RangePartitioning) (key : Int) : Except PartitionError Node :=
  match table.partitions.find? (·.isInRange key) with
  | some partition => .ok partition.node
  | none => .error (.outOfRange "Key out of range of all partitions.")

/-- A sequence of `addPartition` calls, one per listed partition; the first throw ends it, as
an uncaught exception would. -/
def addPartitions (table : RangePartitioning) :
    List RangePartition → Except PartitionError RangePartitioning
  | [] => .ok table
  | call :: rest =>
      match table.addPartition call.startRange call.endRange call.node with
      | .error failure => .error failure
      | .ok next => next.addPartitions rest

/-- Configuring a fresh table with the given calls. -/
def configure (calls : List RangePartition) : Except PartitionError RangePartitioning :=
  addPartitions ⟨[]⟩ calls

theorem addPartitions_eq_ok_iff (table result : RangePartitioning) (calls : List RangePartition) :
    table.addPartitions calls = .ok result ↔
      (∀ call ∈ calls, call.startRange < call.endRange) ∧
        result = ⟨table.partitions ++ calls⟩ := by
  induction calls generalizing table with
  | nil =>
      simp only [addPartitions, Except.ok.injEq, List.not_mem_nil, List.append_nil]
      exact ⟨fun equal => ⟨nofun, equal.symm⟩, fun ⟨_, equal⟩ => equal.symm⟩
  | cons call rest inductionHypothesis =>
      by_cases empty : call.startRange ≥ call.endRange
      · simp only [addPartitions, addPartition, if_pos empty, List.mem_cons, forall_eq_or_imp]
        exact ⟨nofun, fun ⟨⟨valid, _⟩, _⟩ => absurd valid (by omega)⟩
      · simp only [addPartitions, addPartition, if_neg empty, inductionHypothesis,
          List.mem_cons, forall_eq_or_imp, List.append_assoc, List.singleton_append]
        exact ⟨fun ⟨valid, equal⟩ => ⟨⟨by omega, valid⟩, equal⟩,
          fun ⟨⟨_, valid⟩, equal⟩ => ⟨valid, equal⟩⟩

/-- A configuration is accepted exactly when every call has `startRange < endRange`, and then
the table holds the calls' ranges in call order, overlapping or not. -/
theorem configure_eq_ok_iff (calls : List RangePartition) (result : RangePartitioning) :
    configure calls = .ok result ↔
      (∀ call ∈ calls, call.startRange < call.endRange) ∧ result = ⟨calls⟩ :=
  addPartitions_eq_ok_iff ⟨[]⟩ result calls

/-! ## Order independence for disjoint ranges -/

section FirstMatch

variable {α : Type} {p : α → Bool}

/-- When no two elements both satisfy `p`, `find?` answers with the one that does, if any. -/
theorem find?_eq_some_iff_of_unique {items : List α}
    (unique : items.Pairwise (fun a b => ¬ (p a = true ∧ p b = true))) (item : α) :
    items.find? p = some item ↔ item ∈ items ∧ p item = true := by
  induction items with
  | nil => simp
  | cons head tail inductionHypothesis =>
      rw [List.pairwise_cons] at unique
      by_cases headMatches : p head = true
      · rw [List.find?_cons_of_pos _ headMatches, Option.some.injEq, List.mem_cons]
        refine ⟨fun equal => ⟨.inl equal.symm, equal ▸ headMatches⟩, ?_⟩
        rintro ⟨rfl | member, itemMatches⟩
        · rfl
        · exact absurd ⟨headMatches, itemMatches⟩ (unique.1 item member)
      · rw [List.find?_cons_of_neg _ headMatches, inductionHypothesis unique.2, List.mem_cons]
        refine ⟨fun ⟨member, itemMatches⟩ => ⟨.inr member, itemMatches⟩, ?_⟩
        rintro ⟨rfl | member, itemMatches⟩
        · exact absurd itemMatches headMatches
        · exact ⟨member, itemMatches⟩

theorem find?_eq_of_perm_of_unique {first second : List α} (permuted : first.Perm second)
    (unique : first.Pairwise (fun a b => ¬ (p a = true ∧ p b = true))) :
    first.find? p = second.find? p := by
  have uniqueSecond := (permuted.pairwise_iff
    (fun {_ _} both => fun ⟨left, right⟩ => both ⟨right, left⟩)).1 unique
  exact Option.ext fun item => by
    simp only [Option.mem_def, find?_eq_some_iff_of_unique unique,
      find?_eq_some_iff_of_unique uniqueSecond, permuted.mem_iff]

end FirstMatch

/-- Every sequence of calls whose ranges are each well formed is accepted, overlapping or not,
and keeps its calls in insertion order. If a configuration is accepted and its ranges are
pairwise disjoint, every reordering of the same calls is accepted too and answers every key
as the original does. -/
theorem findNodeForKey_perm_of_disjoint {calls reordered : List RangePartition}
    {table : RangePartitioning} (accepted : configure calls = .ok table)
    (permuted : calls.Perm reordered)
    (disjoint : table.partitions.Pairwise RangePartition.Disjoint) :
    (∀ (anyCalls : List RangePartition) (result : RangePartitioning),
      configure anyCalls = .ok result ↔
        (∀ call ∈ anyCalls, call.startRange < call.endRange) ∧ result = ⟨anyCalls⟩) ∧
    ∃ reorderedTable, configure reordered = .ok reorderedTable ∧
      ∀ key, reorderedTable.findNodeForKey key = table.findNodeForKey key := by
  refine ⟨configure_eq_ok_iff, ?_⟩
  obtain ⟨valid, rfl⟩ := (configure_eq_ok_iff calls table).1 accepted
  refine ⟨⟨reordered⟩, (configure_eq_ok_iff reordered _).2
    ⟨fun call member => valid call (permuted.mem_iff.2 member), rfl⟩, fun key => ?_⟩
  have unique := disjoint.imp
    (fun separated => RangePartition.not_both_isInRange_of_disjoint separated key)
  simp only [findNodeForKey, find?_eq_of_perm_of_unique permuted unique]

end RangePartitioning

/-! ## The configuration of `main`, and an overlapping one -/

def node1 : Node := ⟨"Node1", "192.168.1.1", 8080⟩
def node2 : Node := ⟨"Node2", "192.168.1.2", 8080⟩
def node3 : Node := ⟨"Node3", "192.168.1.3", 8080⟩

/-- The three partitions `main` adds. -/
def mainPartitions : List RangePartition :=
  [⟨0, 99, node1⟩, ⟨100, 199, node2⟩, ⟨200, 299, node3⟩]

theorem mainPartitions_reversed_agree :
    (∀ (anyCalls : List RangePartition) (result : RangePartitioning),
      RangePartitioning.configure anyCalls = .ok result ↔
        (∀ call ∈ anyCalls, call.startRange < call.endRange) ∧ result = ⟨anyCalls⟩) ∧
    ∃ reorderedTable,
      RangePartitioning.configure mainPartitions.reverse = .ok reorderedTable ∧
        ∀ key, reorderedTable.findNodeForKey key =
          (⟨mainPartitions⟩ : RangePartitioning).findNodeForKey key :=
  RangePartitioning.findNodeForKey_perm_of_disjoint
    (rfl : RangePartitioning.configure mainPartitions = .ok ⟨mainPartitions⟩)
    (List.reverse_perm _).symm (by decide)

/-- Two overlapping ranges; `addPartition` accepts both. -/
def overlappingPartitions : List RangePartition :=
  [⟨0, 10, node1⟩, ⟨5, 15, node2⟩]

theorem overlappingPartitions_lookup_depends_on_order :
    RangePartitioning.configure overlappingPartitions = .ok ⟨overlappingPartitions⟩ ∧
      RangePartitioning.configure overlappingPartitions.reverse =
        .ok ⟨overlappingPartitions.reverse⟩ ∧
      ¬ overlappingPartitions.Pairwise RangePartition.Disjoint ∧
      RangePartitioning.findNodeForKey ⟨overlappingPartitions⟩ 7 = .ok node1 ∧
      RangePartitioning.findNodeForKey ⟨overlappingPartitions.reverse⟩ 7 = .ok node2 :=
  ⟨rfl, rfl, by decide, rfl, rfl⟩

end DistributedCaching.Partitioning
