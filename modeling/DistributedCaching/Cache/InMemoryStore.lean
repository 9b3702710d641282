import Mathlib.Data.List.Nodup
import DistributedCaching.Cache.RecencyList

/-!
# The LRU store

`InMemoryStore.cpp` keeps its entries twice: in `cache_list`, a list of nodes, most recently
used first, and in `cache_map`, from each key to an iterator designating the key's node. A
node's address is modelled by a number `ref`, which a node keeps for its lifetime and which
the map's iterators hold; dereferencing an iterator that designates no node is undefined
behaviour.

The invariant `Consistent` says that the map designates exactly the nodes of the list, one
per key; `Wf` adds the capacity bound. Every call keeps `Wf`, never reaches undefined
behaviour, and computes on the list of entries what `Recency.apply` computes.
-/

namespace DistributedCaching.Lru

/-- A node of `cache_list`. The access time it also stores is read only by `printCache`. -/
structure CacheNode where
  ref : Nat
  key : String
  value : String
  deriving DecidableEq, Repr

/-- The state of an `InMemoryStore`; `nextRef` is the address the next node gets. -/
structure InMemoryStore where
  maxSize : Nat
  cacheMap : String → Option Nat
  cacheList : List CacheNode
  nextRef : Nat

namespace InMemoryStore

def create (size : Nat) : Except String InMemoryStore :=
  if size = 0 then .error "Cache size cannot be zero" else .ok ⟨size, fun _ => none, [], 0⟩

/-- The node an iterator designates. -/
def nodeAt (store : InMemoryStore) (ref : Nat) : Option CacheNode :=
  store.cacheList.find? (fun node => node.ref == ref)

/-- `found->second->value = value`. -/
def setNodeValue (store : InMemoryStore) (ref : Nat) (value : String) : InMemoryStore :=
  { store with cacheList := store.cacheList.map (fun node =>
      if node.ref = ref then { node with value := value } else node) }

/-- `cache_list.splice(cache_list.begin(), cache_list, node_itr)`. -/
def touchNode (store : InMemoryStore) (ref : Nat) : InMemoryStore :=
  match store.nodeAt ref with
  | some node =>
      { store with cacheList := node :: store.cacheList.filter (fun other => other.ref != ref) }
  | none => store

def evictIfNecessary (store : InMemoryStore) : InMemoryStore :=
  if store.cacheList.length > store.maxSize then
    match store.cacheList.getLast? with
    | some nodeToEvict =>
        { store with
          cacheMap := fun key => if key = nodeToEvict.key then none else store.cacheMap key,
          cacheList := store.cacheList.dropLast }
    | none => store
  else
    store

def put (store : InMemoryStore) (key value : String) : Outcome × InMemoryStore :=
  match store.cacheMap key with
  | some ref =>
      match store.nodeAt ref with
      | some _ => (.returned .done, ((store.setNodeValue ref value).touchNode ref).evictIfNecessary)
      | none => (.undefined, store)
  | none =>
      (.returned .done,
        { store with
          cacheMap := fun other => if other = key then some store.nextRef else store.cacheMap other,
          cacheList := ⟨store.nextRef, key, value⟩ :: store.cacheList,
          nextRef := store.nextRef + 1 }.evictIfNecessary)

/-- The value is read through the iterator, which the splice leaves designating the same
node. -/
def get (store : InMemoryStore) (key : String) : Outcome × InMemoryStore :=
  match store.cacheMap key with
  | some ref =>
      match store.nodeAt ref with
      | some node => (.returned (.value node.value), store.touchNode ref)
      | none => (.undefined, store)
  | none => (.thrown "Key not found in cache", store)

def remove (store : InMemoryStore) (key : String) : Outcome × InMemoryStore :=
  match store.cacheMap key with
  | some ref =>
      match store.nodeAt ref with
      | some _ =>
          (.returned .done,
            { store with
              cacheMap := fun other => if other = key then none else store.cacheMap other,
              cacheList := store.cacheList.filter (fun node => node.ref != ref) })
      | none => (.undefined, store)
  | none => (.thrown "Key not found for removal", store)

def «exists» (store : InMemoryStore) (key : String) : Bool :=
  (store.cacheMap key).isSome

def size (store : InMemoryStore) : Nat :=
  store.cacheList.length

def clear (store : InMemoryStore) : InMemoryStore :=
  { store with cacheMap := fun _ => none, cacheList := [] }

def getLRUKey (store : InMemoryStore) : Outcome :=
  match store.cacheList.getLast? with
  | some node => .returned (.key node.key)
  | none => .thrown "Cache is empty"

def apply (store : InMemoryStore) : StoreOp → Outcome × InMemoryStore
  | .put key value => store.put key value
  | .get key => store.get key
  | .remove key => store.remove key
  | .exists key => (.returned (.flag (store.exists key)), store)
  | .size => (.returned (.count store.size), store)
  | .clear => (.returned .done, store.clear)
  | .getLRUKey => (store.getLRUKey, store)

/-! ## The invariant -/

/-- The list's entries, most recently used first. -/
def entries (store : InMemoryStore) : List (String × String) :=
  store.cacheList.map (fun node => (node.key, node.value))

/-- The key and address of every node, in list order. -/
def keyRefs (store : InMemoryStore) : List (String × Nat) :=
  store.cacheList.map (fun node => (node.key, node.ref))

/-- The map designates exactly the nodes of the list, one node per key and per address, and
every address is below the next one to be allocated. -/
structure Consistent (store : InMemoryStore) : Prop where
  keysNodup : (store.keyRefs.map Prod.fst).Nodup
  refsNodup : (store.keyRefs.map Prod.snd).Nodup
  designates : ∀ key ref, store.cacheMap key = some ref ↔ (key, ref) ∈ store.keyRefs
  refsFresh : ∀ pair ∈ store.keyRefs, pair.2 < store.nextRef

/-- `Consistent`, with the capacity the constructor guarantees and `put` maintains. -/
structure Wf (store : InMemoryStore) : Prop where
  consistent : store.Consistent
  bounded : store.cacheList.length ≤ store.maxSize
  positive : 0 < store.maxSize

/-! ## Nodes with distinct keys and addresses -/

section Nodes

variable {store : InMemoryStore}

@[simp]
theorem keyRefs_map_fst (store : InMemoryStore) :
    store.keyRefs.map Prod.fst = store.cacheList.map CacheNode.key := by
  simp [keyRefs]

@[simp]
theorem keyRefs_map_snd (store : InMemoryStore) :
    store.keyRefs.map Prod.snd = store.cacheList.map CacheNode.ref := by
  simp [keyRefs]

@[simp]
theorem entries_map_fst (store : InMemoryStore) :
    store.entries.map Prod.fst = store.cacheList.map CacheNode.key := by
  simp [entries]

theorem find?_ref_of_mem {nodes : List CacheNode} (refsNodup : (nodes.map CacheNode.ref).Nodup)
    {node : CacheNode} (member : node ∈ nodes) :
    nodes.find? (fun other => other.ref == node.ref) = some node := by
  induction nodes with
  | nil => cases member
  | cons head tail inductionHypothesis =>
      rw [List.map_cons, List.nodup_cons] at refsNodup
      rcases List.mem_cons.1 member with rfl | inTail
      · simp
      · have different : head.ref ≠ node.ref := fun same =>
          refsNodup.1 (List.mem_map.2 ⟨_, inTail, same.symm⟩)
        rw [List.find?_cons_of_neg _ (by simpa using different)]
        exact inductionHypothesis refsNodup.2 inTail

theorem Consistent.ref_eq_iff (consistent : store.Consistent) {first second : CacheNode}
    (firstMember : first ∈ store.cacheList) (secondMember : second ∈ store.cacheList) :
    first.ref = second.ref ↔ first.key = second.key := by
  have keysNodup := consistent.keysNodup
  have refsNodup := consistent.refsNodup
  simp only [keyRefs_map_fst, keyRefs_map_snd] at keysNodup refsNodup
  constructor
  · intro same
    rw [List.inj_on_of_nodup_map refsNodup firstMember secondMember same]
  · intro same
    rw [List.inj_on_of_nodup_map keysNodup firstMember secondMember same]

theorem Consistent.nodeAt_of_mem (consistent : store.Consistent) {node : CacheNode}
    (member : node ∈ store.cacheList) : store.nodeAt node.ref = some node :=
  find?_ref_of_mem (by simpa using consistent.refsNodup) member

/-- A key is missing from the map, or the map designates the node of the list with that key. -/
theorem Consistent.cacheMap_cases (consistent : store.Consistent) (key : String) :
    store.cacheMap key = none ∨
      ∃ node ∈ store.cacheList, node.key = key ∧ store.cacheMap node.key = some node.ref := by
  cases found : store.cacheMap key with
  | none => exact .inl rfl
  | some ref =>
      obtain ⟨node, member, rfl, rfl⟩ :
          ∃ node ∈ store.cacheList, node.key = key ∧ node.ref = ref := by
        simpa [keyRefs] using (consistent.designates key ref).1 found
      exact .inr ⟨node, member, rfl, found⟩

/-- A key the map does not find is held by no node. -/
theorem Consistent.cacheMap_eq_none (consistent : store.Consistent) {key : String}
    (missing : store.cacheMap key = none) : key ∉ store.cacheList.map CacheNode.key := by
  intro member
  obtain ⟨node, nodeMember, rfl⟩ := List.mem_map.1 member
  have designated := (consistent.designates node.key node.ref).2 (List.mem_map_of_mem _ nodeMember)
  rw [missing] at designated
  cases designated

theorem Consistent.lookup_of_mem (consistent : store.Consistent) {node : CacheNode}
    (member : node ∈ store.cacheList) : Recency.lookup store.entries node.key = some node.value :=
  Recency.lookup_of_mem (by simpa using consistent.keysNodup)
    (List.mem_map_of_mem (fun node => (node.key, node.value)) member)

/-- Dropping a node by its address drops its key's entry. -/
theorem Consistent.entries_filter (consistent : store.Consistent) {node : CacheNode}
    (member : node ∈ store.cacheList) :
    (store.cacheList.filter (fun other => other.ref != node.ref)).map
        (fun other => (other.key, other.value)) =
      Recency.without store.entries node.key := by
  rw [Recency.without, entries, List.filter_map]
  congr 1
  refine List.filter_congr fun other otherMember => ?_
  show (other.ref != node.ref) = (other.key != node.key)
  by_cases same : other.key = node.key
  · rw [(consistent.ref_eq_iff otherMember member).2 same, same, bne_self_eq_false,
      bne_self_eq_false]
  · rw [bne_iff_ne.2 (mt (consistent.ref_eq_iff otherMember member).1 same), bne_iff_ne.2 same]

/-- `Consistent` depends on the list only through the keys and addresses of its nodes. -/
theorem Consistent.of_perm {other : InMemoryStore} (consistent : store.Consistent)
    (sameMap : other.cacheMap = store.cacheMap) (sameNext : other.nextRef = store.nextRef)
    (permuted : other.keyRefs.Perm store.keyRefs) : other.Consistent where
  keysNodup := (permuted.map Prod.fst).nodup_iff.2 consistent.keysNodup
  refsNodup := (permuted.map Prod.snd).nodup_iff.2 consistent.refsNodup
  designates key ref := by rw [sameMap, consistent.designates, permuted.mem_iff]
  refsFresh pair member := sameNext ▸ consistent.refsFresh pair (permuted.mem_iff.1 member)

/-- Moving a node to the front permutes the list. -/
theorem Consistent.touchNode_perm (consistent : store.Consistent) {node : CacheNode}
    (member : node ∈ store.cacheList) :
    (node :: store.cacheList.filter (fun other => other.ref != node.ref)).Perm store.cacheList := by
  have nodup : store.cacheList.Nodup :=
    List.Nodup.of_map CacheNode.ref (by simpa using consistent.refsNodup)
  have erased : store.cacheList.filter (fun other => other.ref != node.ref) =
      store.cacheList.erase node := by
    rw [nodup.erase_eq_filter]
    refine List.filter_congr fun other otherMember => ?_
    by_cases same : other = node
    · subst same
      rw [bne_self_eq_false, bne_self_eq_false]
    · have different : other.ref ≠ node.ref := fun equal =>
        same (List.inj_on_of_nodup_map (by simpa using consistent.refsNodup) otherMember member equal)
      rw [bne_iff_ne.2 same, bne_iff_ne.2 different]
  rw [erased]
  exact (List.perm_cons_erase member).symm

/-- Dropping a node by its address is dropping it by its key. -/
theorem Consistent.filter_ref_eq_filter_key (consistent : store.Consistent) {node : CacheNode}
    (member : node ∈ store.cacheList) :
    store.cacheList.filter (fun other => other.ref != node.ref) =
      store.cacheList.filter (fun other => other.key != node.key) := by
  refine List.filter_congr fun other otherMember => ?_
  by_cases same : other.key = node.key
  · rw [(consistent.ref_eq_iff otherMember member).2 same, same, bne_self_eq_false,
      bne_self_eq_false]
  · rw [bne_iff_ne.2 (mt (consistent.ref_eq_iff otherMember member).1 same), bne_iff_ne.2 same]

end Nodes

/-! ## Eviction -/

section Eviction

variable {store : InMemoryStore}

@[simp]
theorem maxSize_evictIfNecessary (store : InMemoryStore) :
    store.evictIfNecessary.maxSize = store.maxSize := by
  unfold evictIfNecessary
  split_ifs
  · cases store.cacheList.getLast? <;> rfl
  · rfl

@[simp]
theorem nextRef_evictIfNecessary (store : InMemoryStore) :
    store.evictIfNecessary.nextRef = store.nextRef := by
  unfold evictIfNecessary
  split_ifs
  · cases store.cacheList.getLast? <;> rfl
  · rfl

theorem evictIfNecessary_of_le (fits : store.cacheList.length ≤ store.maxSize) :
    store.evictIfNecessary = store := by
  simp [evictIfNecessary, Nat.not_lt.2 fits]

theorem evictIfNecessary_of_lt (over : store.maxSize < store.cacheList.length) :
    ∃ last, store.cacheList.getLast? = some last ∧
      store.evictIfNecessary = { store with
        cacheMap := fun key => if key = last.key then none else store.cacheMap key,
        cacheList := store.cacheList.dropLast } := by
  obtain ⟨last, lastNode⟩ : ∃ last, store.cacheList.getLast? = some last :=
    Option.ne_none_iff_exists'.1 (by
      rw [Ne, List.getLast?_eq_none_iff]
      rintro empty
      rw [empty] at over
      exact Nat.not_lt_zero _ over)
  exact ⟨last, lastNode, by simp [evictIfNecessary, over, lastNode]⟩

theorem entries_evictIfNecessary (store : InMemoryStore) :
    store.evictIfNecessary.entries = Recency.trim store.maxSize store.entries := by
  by_cases over : store.maxSize < store.cacheList.length
  · obtain ⟨last, _, evicted⟩ := evictIfNecessary_of_lt over
    simp [evicted, entries, Recency.trim, over]
  · rw [evictIfNecessary_of_le (Nat.not_lt.1 over)]
    simp [entries, Recency.trim, over]

theorem length_evictIfNecessary (almost : store.cacheList.length ≤ store.maxSize + 1) :
    store.evictIfNecessary.cacheList.length ≤ store.maxSize := by
  by_cases over : store.maxSize < store.cacheList.length
  · obtain ⟨last, _, evicted⟩ := evictIfNecessary_of_lt over
    simp only [evicted, List.length_dropLast]
    omega
  · rw [evictIfNecessary_of_le (Nat.not_lt.1 over)]
    omega

/-- Evicting the last node erases exactly its key from the map. -/
theorem Consistent.evictIfNecessary (consistent : store.Consistent) :
    store.evictIfNecessary.Consistent := by
  by_cases over : store.maxSize < store.cacheList.length
  · obtain ⟨last, lastNode, evicted⟩ := evictIfNecessary_of_lt over
    rw [evicted]
    have split : store.keyRefs.dropLast ++ [(last.key, last.ref)] = store.keyRefs :=
      List.dropLast_append_getLast? _ (by simp [keyRefs, List.getLast?_map, lastNode])
    have keysNodup := consistent.keysNodup
    rw [← split, List.map_append, List.nodup_append] at keysNodup
    have lastAbsent : last.key ∉ store.keyRefs.dropLast.map Prod.fst := fun member =>
      keysNodup.2.2 member (List.mem_singleton_self _)
    have shorter : ({ store with
        cacheMap := fun key => if key = last.key then none else store.cacheMap key,
        cacheList := store.cacheList.dropLast } : InMemoryStore).keyRefs =
        store.keyRefs.dropLast := by
      simp [keyRefs]
    have sublist := List.dropLast_sublist store.keyRefs
    refine ⟨?_, ?_, ?_, ?_⟩ <;> simp only [shorter]
    · exact keysNodup.1
    · exact consistent.refsNodup.sublist (sublist.map _)
    · intro key ref
      by_cases same : key = last.key
      · subst same
        simp only [if_true]
        exact ⟨nofun, fun member => absurd (List.mem_map_of_mem Prod.fst member) lastAbsent⟩
      · rw [if_neg same, consistent.designates, ← split, List.mem_append, List.mem_singleton]
        simp [same]
    · exact fun pair member => consistent.refsFresh pair (sublist.subset member)
  · rwa [evictIfNecessary_of_le (Nat.not_lt.1 over)]

/-- A consistent store at most one node over capacity is well formed after eviction. -/
theorem Consistent.wf_evictIfNecessary (consistent : store.Consistent)
    (almost : store.cacheList.length ≤ store.maxSize + 1) (positive : 0 < store.maxSize) :
    store.evictIfNecessary.Wf :=
  ⟨consistent.evictIfNecessary,
    by rw [maxSize_evictIfNecessary]; exact length_evictIfNecessary almost,
    by rw [maxSize_evictIfNecessary]; exact positive⟩

end Eviction

/-! ## Updating and moving a node -/

section Touch

variable {store : InMemoryStore}

@[simp]
theorem setNodeValue_cacheMap (store : InMemoryStore) (ref : Nat) (value : String) :
    (store.setNodeValue ref value).cacheMap = store.cacheMap := rfl

@[simp]
theorem setNodeValue_maxSize (store : InMemoryStore) (ref : Nat) (value : String) :
    (store.setNodeValue ref value).maxSize = store.maxSize := rfl

@[simp]
theorem setNodeValue_nextRef (store : InMemoryStore) (ref : Nat) (value : String) :
    (store.setNodeValue ref value).nextRef = store.nextRef := rfl

theorem keyRefs_setNodeValue (store : InMemoryStore) (ref : Nat) (value : String) :
    (store.setNodeValue ref value).keyRefs = store.keyRefs := by
  simp only [keyRefs, setNodeValue, List.map_map]
  refine List.map_congr_left fun node _ => ?_
  by_cases same : node.ref = ref <;> simp [same]

theorem filter_setNodeValue (store : InMemoryStore) (ref : Nat) (value : String) :
    (store.setNodeValue ref value).cacheList.filter (fun other => other.ref != ref) =
      store.cacheList.filter (fun other => other.ref != ref) := by
  simp only [setNodeValue]
  induction store.cacheList with
  | nil => rfl
  | cons head tail inductionHypothesis =>
      by_cases same : head.ref = ref
      · simp [same, inductionHypothesis]
      · simp [same, List.filter_cons, inductionHypothesis]

theorem mem_setNodeValue {node : CacheNode} (member : node ∈ store.cacheList) (value : String) :
    { node with value := value } ∈ (store.setNodeValue node.ref value).cacheList :=
  List.mem_map.2 ⟨node, member, by simp⟩

/-- Moving a node of a consistent store to the front: the entries and the invariant. -/
theorem Consistent.touchNode (consistent : store.Consistent) {node : CacheNode}
    (member : node ∈ store.cacheList) :
    (store.touchNode node.ref).cacheList =
        node :: store.cacheList.filter (fun other => other.ref != node.ref) ∧
      (store.touchNode node.ref).cacheMap = store.cacheMap ∧
      (store.touchNode node.ref).maxSize = store.maxSize ∧
      (store.touchNode node.ref).entries =
        (node.key, node.value) :: Recency.without store.entries node.key ∧
      (store.touchNode node.ref).Consistent := by
  have moved : store.touchNode node.ref = { store with
      cacheList := node :: store.cacheList.filter (fun other => other.ref != node.ref) } := by
    simp [InMemoryStore.touchNode, consistent.nodeAt_of_mem member]
  refine ⟨by rw [moved], by rw [moved], by rw [moved], ?_, ?_⟩
  · rw [moved, entries, List.map_cons, ← consistent.entries_filter member]
  · rw [moved]
    exact consistent.of_perm rfl rfl ((consistent.touchNode_perm member).map _)

end Touch

/-! ## The calls -/

/-- One call computes what the list layer computes on the entries, with the list layer's
failures thrown under the call's own text, and keeps the invariant and the capacity. -/
structure Simulates (store : InMemoryStore) (op : StoreOp) : Prop where
  outcome : (store.apply op).1 = Outcome.ofOption op (Recency.apply store.maxSize store.entries op).1
  entries : (store.apply op).2.entries = (Recency.apply store.maxSize store.entries op).2
  wf : (store.apply op).2.Wf
  maxSize : (store.apply op).2.maxSize = store.maxSize

section Calls

variable {store : InMemoryStore}

theorem Wf.simulates_put_of_found (wf : store.Wf) {node : CacheNode}
    (member : node ∈ store.cacheList) (found : store.cacheMap node.key = some node.ref)
    (value : String) : Simulates store (.put node.key value) := by
  have updated : (store.setNodeValue node.ref value).Consistent :=
    wf.consistent.of_perm rfl rfl (by rw [keyRefs_setNodeValue])
  have renewed := mem_setNodeValue member value
  obtain ⟨movedList, _, movedMax, _, movedConsistent⟩ := updated.touchNode renewed
  have movedLength : ((store.setNodeValue node.ref value).touchNode node.ref).cacheList.length =
      store.cacheList.length := by
    rw [movedList, (updated.touchNode_perm renewed).length_eq]
    simp [setNodeValue]
  have movedEntries : ((store.setNodeValue node.ref value).touchNode node.ref).entries =
      (node.key, value) :: Recency.without store.entries node.key := by
    rw [← wf.consistent.entries_filter member, ← filter_setNodeValue store node.ref value]
    simp only [entries, movedList, List.map_cons]
  have result : store.apply (.put node.key value) = (.returned .done,
      ((store.setNodeValue node.ref value).touchNode node.ref).evictIfNecessary) := by
    simp [apply, put, found, wf.consistent.nodeAt_of_mem member]
  rw [setNodeValue_maxSize] at movedMax
  refine ⟨by simp [result, Recency.apply, Outcome.ofOption], ?_, ?_, by simp [result, movedMax]⟩
  · rw [result, entries_evictIfNecessary, movedMax, movedEntries]
    rfl
  · rw [result]
    exact movedConsistent.wf_evictIfNecessary
      (by rw [movedLength, movedMax]; exact Nat.le_succ_of_le wf.bounded)
      (by rw [movedMax]; exact wf.positive)

/-- The store after a `put` of a new key, before eviction. -/
def insertNode (store : InMemoryStore) (key value : String) : InMemoryStore :=
  { store with
    cacheMap := fun other => if other = key then some store.nextRef else store.cacheMap other,
    cacheList := ⟨store.nextRef, key, value⟩ :: store.cacheList,
    nextRef := store.nextRef + 1 }

theorem Consistent.insertNode (consistent : store.Consistent) {key : String}
    (missing : store.cacheMap key = none) (value : String) :
    (store.insertNode key value).Consistent := by
  have absent := consistent.cacheMap_eq_none missing
  have fresh : store.nextRef ∉ store.cacheList.map CacheNode.ref := fun member => by
    obtain ⟨node, nodeMember, equal⟩ := List.mem_map.1 member
    have := consistent.refsFresh _ (List.mem_map_of_mem (fun node => (node.key, node.ref)) nodeMember)
    simp only [equal] at this
    exact Nat.lt_irrefl _ this
  have keysNodup := consistent.keysNodup
  have refsNodup := consistent.refsNodup
  simp only [keyRefs_map_fst, keyRefs_map_snd] at keysNodup refsNodup
  refine ⟨?_, ?_, fun other ref => ?_, fun pair member => ?_⟩
  · simpa [InMemoryStore.insertNode, keyRefs] using And.intro absent keysNodup
  · simpa [InMemoryStore.insertNode, keyRefs] using And.intro fresh refsNodup
  · simp only [InMemoryStore.insertNode, keyRefs, List.map_cons, List.mem_cons, Prod.mk.injEq]
    by_cases same : other = key
    · subst same
      have notHeld : (other, ref) ∉ store.keyRefs := fun member =>
        absent (by simpa using List.mem_map_of_mem Prod.fst member)
      simp only [if_true, Option.some.injEq, true_and]
      exact ⟨fun equal => .inl equal.symm, fun held => held.elim Eq.symm
        (fun member => absurd member notHeld)⟩
    · simp only [if_neg same, same, false_and, false_or]
      exact consistent.designates other ref
  · simp only [InMemoryStore.insertNode, keyRefs, List.map_cons, List.mem_cons] at member
    rcases member with rfl | member
    · exact Nat.lt_succ_self _
    · exact Nat.lt_succ_of_lt (consistent.refsFresh pair member)

theorem Wf.simulates_put_of_missing (wf : store.Wf) {key : String}
    (missing : store.cacheMap key = none) (value : String) :
    Simulates store (.put key value) := by
  have absent := wf.consistent.cacheMap_eq_none missing
  have insertedEntries : (store.insertNode key value).entries =
      (key, value) :: Recency.without store.entries key := by
    rw [Recency.without_of_not_mem _ _ (by simpa using absent)]
    rfl
  have result : store.apply (.put key value) =
      (.returned .done, (store.insertNode key value).evictIfNecessary) := by
    simp [apply, put, missing, insertNode]
  refine ⟨by simp [result, Recency.apply, Outcome.ofOption], ?_, ?_, by simp [result, insertNode]⟩
  · rw [result, entries_evictIfNecessary, insertedEntries]
    rfl
  · rw [result]
    exact (wf.consistent.insertNode missing value).wf_evictIfNecessary
      (by simp [insertNode, wf.bounded]) wf.positive

theorem Consistent.lookup_eq_none (consistent : store.Consistent) {key : String}
    (missing : store.cacheMap key = none) : Recency.lookup store.entries key = none :=
  (Recency.lookup_eq_none_iff _ _).2 (by simpa using consistent.cacheMap_eq_none missing)

theorem Wf.simulates_get_of_found (wf : store.Wf) {node : CacheNode}
    (member : node ∈ store.cacheList) (found : store.cacheMap node.key = some node.ref) :
    Simulates store (.get node.key) := by
  obtain ⟨movedList, _, movedMax, movedEntries, movedConsistent⟩ :=
    wf.consistent.touchNode member
  have result : store.apply (.get node.key) =
      (.returned (.value node.value), store.touchNode node.ref) := by
    simp [apply, get, found, wf.consistent.nodeAt_of_mem member]
  have looked := wf.consistent.lookup_of_mem member
  have movedLength : (store.touchNode node.ref).cacheList.length = store.cacheList.length := by
    rw [movedList, (wf.consistent.touchNode_perm member).length_eq]
  refine ⟨by simp [result, Recency.apply, looked, Outcome.ofOption],
    by simp [result, Recency.apply, looked, movedEntries], ?_, by simp [result, movedMax]⟩
  rw [result]
  exact ⟨movedConsistent, by rw [movedLength, movedMax]; exact wf.bounded,
    by rw [movedMax]; exact wf.positive⟩

theorem Wf.simulates_get_of_missing (wf : store.Wf) {key : String}
    (missing : store.cacheMap key = none) : Simulates store (.get key) := by
  have result : store.apply (.get key) = (.thrown "Key not found in cache", store) := by
    simp [apply, get, missing]
  have looked := wf.consistent.lookup_eq_none missing
  refine ⟨?_, ?_, ?_, ?_⟩ <;>
    simp [result, Recency.apply, looked, Outcome.ofOption, StoreOp.failure, wf]

/-- The store after a `remove` of a present key. -/
def removeNode (store : InMemoryStore) (key : String) (ref : Nat) : InMemoryStore :=
  { store with
    cacheMap := fun other => if other = key then none else store.cacheMap other,
    cacheList := store.cacheList.filter (fun node => node.ref != ref) }

theorem Consistent.removeNode (consistent : store.Consistent) {node : CacheNode}
    (member : node ∈ store.cacheList) : (store.removeNode node.key node.ref).Consistent := by
  have fewer : (store.removeNode node.key node.ref).keyRefs =
      store.keyRefs.filter (fun pair => pair.1 != node.key) := by
    simp only [InMemoryStore.removeNode, keyRefs, consistent.filter_ref_eq_filter_key member,
      List.filter_map]
    rfl
  have sublist : (store.removeNode node.key node.ref).keyRefs.Sublist store.keyRefs := by
    rw [fewer]
    exact List.filter_sublist _
  refine ⟨consistent.keysNodup.sublist (sublist.map _),
    consistent.refsNodup.sublist (sublist.map _), fun other ref => ?_,
    fun pair held => consistent.refsFresh pair (sublist.subset held)⟩
  rw [fewer, List.mem_filter]
  by_cases same : other = node.key
  · subst same
    simp [InMemoryStore.removeNode]
  · simp [InMemoryStore.removeNode, same, consistent.designates]

theorem Wf.simulates_remove_of_found (wf : store.Wf) {node : CacheNode}
    (member : node ∈ store.cacheList) (found : store.cacheMap node.key = some node.ref) :
    Simulates store (.remove node.key) := by
  have result : store.apply (.remove node.key) =
      (.returned .done, store.removeNode node.key node.ref) := by
    simp [apply, remove, found, wf.consistent.nodeAt_of_mem member, removeNode]
  have looked := wf.consistent.lookup_of_mem member
  refine ⟨by simp [result, Recency.apply, looked, Outcome.ofOption], ?_, ?_,
    by simp [result, removeNode]⟩
  · simp only [result, Recency.apply, looked, ← wf.consistent.entries_filter member]
    rfl
  · rw [result]
    exact ⟨wf.consistent.removeNode member,
      le_trans (List.length_filter_le _ _) wf.bounded, wf.positive⟩

theorem Wf.simulates_remove_of_missing (wf : store.Wf) {key : String}
    (missing : store.cacheMap key = none) : Simulates store (.remove key) := by
  have result : store.apply (.remove key) = (.thrown "Key not found for removal", store) := by
    simp [apply, remove, missing]
  have looked := wf.consistent.lookup_eq_none missing
  refine ⟨?_, ?_, ?_, ?_⟩ <;>
    simp [result, Recency.apply, looked, Outcome.ofOption, StoreOp.failure, wf]

/-- Every call of a well-formed store simulates the list layer. -/
theorem Wf.simulates (wf : store.Wf) : ∀ op, Simulates store op
  | .put key value => by
      obtain missing | ⟨node, member, rfl, found⟩ := wf.consistent.cacheMap_cases key
      · exact wf.simulates_put_of_missing missing value
      · exact wf.simulates_put_of_found member found value
  | .get key => by
      obtain missing | ⟨node, member, rfl, found⟩ := wf.consistent.cacheMap_cases key
      · exact wf.simulates_get_of_missing missing
      · exact wf.simulates_get_of_found member found
  | .remove key => by
      obtain missing | ⟨node, member, rfl, found⟩ := wf.consistent.cacheMap_cases key
      · exact wf.simulates_remove_of_missing missing
      · exact wf.simulates_remove_of_found member found
  | .exists key => by
      have present : (store.cacheMap key).isSome = (Recency.lookup store.entries key).isSome := by
        obtain missing | ⟨node, member, rfl, found⟩ := wf.consistent.cacheMap_cases key
        · simp [missing, wf.consistent.lookup_eq_none missing]
        · simp [found, wf.consistent.lookup_of_mem member]
      exact ⟨by simp [apply, Recency.apply, Outcome.ofOption, «exists», present], rfl, wf, rfl⟩
  | .size => ⟨by simp [apply, Recency.apply, Outcome.ofOption, size, entries], rfl, wf, rfl⟩
  | .clear =>
      ⟨rfl, rfl,
        ⟨⟨List.nodup_nil, List.nodup_nil, fun _ _ => by simp [apply, clear, keyRefs], nofun⟩,
          Nat.zero_le _, wf.positive⟩, rfl⟩
  | .getLRUKey => by
      refine ⟨?_, ?_, wf, rfl⟩ <;>
        simp only [apply, Recency.apply, getLRUKey, entries, List.getLast?_map] <;>
        cases store.cacheList.getLast? <;> rfl

/-- The outcomes of a sequence of calls. -/
def runOps (store : InMemoryStore) : List StoreOp → List Outcome
  | [] => []
  | op :: rest => (store.apply op).1 :: (store.apply op).2.runOps rest

/-- From a well-formed store, every call sequence ends as the list layer says: the same
replies, the list layer's failures thrown with the calls' texts, never undefined
behaviour. -/
theorem Wf.runOps (wf : store.Wf) (ops : List StoreOp) :
    store.runOps ops =
      List.zipWith Outcome.ofOption ops (Recency.runOps store.maxSize store.entries ops) := by
  induction ops generalizing store with
  | nil => rfl
  | cons op rest inductionHypothesis =>
      have step := wf.simulates op
      rw [runOps, inductionHypothesis step.wf, step.maxSize, step.entries, step.outcome]
      rfl

/-- The store after a sequence of calls. -/
def afterOps (store : InMemoryStore) : List StoreOp → InMemoryStore
  | [] => store
  | op :: rest => (store.apply op).2.afterOps rest

/-- Every call sequence keeps the invariant and the capacity. -/
theorem Wf.afterOps (wf : store.Wf) (ops : List StoreOp) :
    (store.afterOps ops).Wf ∧ (store.afterOps ops).maxSize = store.maxSize := by
  induction ops generalizing store with
  | nil => exact ⟨wf, rfl⟩
  | cons op rest inductionHypothesis =>
      have step := wf.simulates op
      obtain ⟨restWf, restMaxSize⟩ := inductionHypothesis step.wf
      exact ⟨restWf, restMaxSize.trans step.maxSize⟩

/-- The constructor returns a well-formed, empty store. -/
theorem create_wf {size : Nat} (created : create size = .ok store) :
    store.Wf ∧ store.entries = [] ∧ store.maxSize = size := by
  unfold create at created
  split at created
  · cases created
  · cases created
    refine ⟨⟨⟨List.nodup_nil, List.nodup_nil, fun _ _ => ?_, fun _ member => nomatch member⟩,
      Nat.zero_le _, Nat.pos_of_ne_zero ‹_›⟩, rfl, rfl⟩
    simp [keyRefs]

/-- `Consistent` in the source's terms: distinct keys along the list, the map's keys are the
list's keys, and the map sends each key to an iterator designating the node with that key. -/
theorem Consistent.keys_and_iterators (consistent : store.Consistent) :
    (store.cacheList.map CacheNode.key).Nodup ∧
      (∀ key, (store.cacheMap key).isSome ↔ key ∈ store.cacheList.map CacheNode.key) ∧
      ∀ key ref, store.cacheMap key = some ref →
        ∃ node, store.nodeAt ref = some node ∧ node.key = key := by
  refine ⟨by simpa using consistent.keysNodup, fun key => ?_, fun key ref found => ?_⟩
  · rcases consistent.cacheMap_cases key with missing | ⟨node, member, rfl, found⟩
    · simp [missing, consistent.cacheMap_eq_none missing]
    · simp [found, List.mem_map_of_mem CacheNode.key member]
  · rcases consistent.cacheMap_cases key with missing | ⟨node, member, rfl, designated⟩
    · rw [missing] at found
      cases found
    · rw [designated, Option.some.injEq] at found
      exact ⟨node, found ▸ consistent.nodeAt_of_mem member, rfl⟩

end Calls

/-- For every positive capacity, in every state the calls reach from the constructor, the keys
of the list's nodes are distinct, the map has exactly those keys, and each key's iterator
designates the node with that key: every call, the eviction inside `put` included, keeps the
map and the list in step. -/
theorem cacheMap_designates_list_nodes (capacity : Nat) (positive : 0 < capacity) :
    ∃ store, create capacity = .ok store ∧ ∀ ops : List StoreOp,
      ((store.afterOps ops).cacheList.map CacheNode.key).Nodup ∧
      (∀ key, ((store.afterOps ops).cacheMap key).isSome ↔
        key ∈ (store.afterOps ops).cacheList.map CacheNode.key) ∧
      ∀ key ref, (store.afterOps ops).cacheMap key = some ref →
        ∃ node, (store.afterOps ops).nodeAt ref = some node ∧ node.key = key := by
  have created : create capacity = .ok ⟨capacity, fun _ => none, [], 0⟩ := by
    simp [create, Nat.pos_iff_ne_zero.1 positive]
  exact ⟨_, created, fun ops =>
    ((create_wf created).1.afterOps ops).1.consistent.keys_and_iterators⟩

theorem capacityOne_designates_list_nodes :
    0 < 1 ∧ ∃ store, create 1 = .ok store ∧ ∀ ops : List StoreOp,
      ((store.afterOps ops).cacheList.map CacheNode.key).Nodup ∧
      (∀ key, ((store.afterOps ops).cacheMap key).isSome ↔
        key ∈ (store.afterOps ops).cacheList.map CacheNode.key) ∧
      ∀ key ref, (store.afterOps ops).cacheMap key = some ref →
        ∃ node, (store.afterOps ops).nodeAt ref = some node ∧ node.key = key :=
  ⟨by decide, cacheMap_designates_list_nodes 1 (by decide)⟩

end InMemoryStore

end DistributedCaching.Lru
