import MqttBroker.MyhashmapContents

/-! What `erase` takes out of a `myhashmap`: the first node of the key and
nothing else. The source reads the head of the chain before it is known to
exist, so a key whose bucket is empty is not erased but dereferenced. -/
namespace MqttBroker.Myhashmap

variable {m m' : Myhashmap α} {key other : Key} {chain rest : List (Node α)}

/-- Every node is in the bucket of its key. -/
def InBuckets (m : Myhashmap α) : Prop :=
  ∀ (id : Nat) (chain : List (Node α)), m.buckets[id]? = some chain →
    ∀ node ∈ chain, bucketOf m.capacity node.key = id

/-- Some node has the key. -/
def Holds (m : Myhashmap α) (key : Key) : Prop := ∃ node ∈ m.nodes, node.key = key

/-- The map without its first node for the key, every other node where it was. -/
structure Without (m : Myhashmap α) (key : Key) (m' : Myhashmap α) : Prop where
  buckets : m'.buckets = m.buckets.map (List.eraseP (·.key = key))
  nodes : m'.nodes = m.nodes.eraseP (·.key = key)
  counted : m.Holds key → m'.count = m.count - 1
  absent : ¬ m.Holds key → m' = m
  others : ∀ other, other ≠ key → m'.get other = m.get other

/-- The erasure completes and is exact. -/
def ErasesExactly (m : Myhashmap α) (key : Key) : Prop :=
  ∃ m', m.erase key = .ok m' ∧ m.Without key m'

/-! ### One chain -/

theorem unlink_some (removed : unlink key chain = some rest) :
    rest = chain.eraseP (·.key = key) ∧ ∃ node ∈ chain, node.key = key := by
  induction chain generalizing rest with
  | nil => cases removed
  | cons node tail ih =>
    unfold unlink at removed
    split at removed
    · cases removed
      exact ⟨by simp [*], node, List.mem_cons_self, ‹_›⟩
    · obtain ⟨shorter, removedTail, rfl⟩ := Option.map_eq_some_iff.mp removed
      obtain ⟨same, gone, member, of_key⟩ := ih removedTail
      exact ⟨by simp [*], gone, List.mem_cons_of_mem _ member, of_key⟩

theorem eraseP_absent (absent : ∀ node ∈ chain, node.key ≠ key) :
    chain.eraseP (·.key = key) = chain :=
  List.eraseP_of_forall_not fun node member => by simpa using absent node member

/-- The first node of a key among all chains is the first of the one chain that
has such nodes. -/
theorem eraseP_flatten {chains : List (List (Node α))} {id : Nat} (at_id : chains[id]? = some chain)
    (only : ∀ (i : Nat) (held : List (Node α)), chains[i]? = some held → i ≠ id → ∀ node ∈ held, node.key ≠ key)
    (holds : ∃ node ∈ chain, node.key = key) :
    chains.flatten.eraseP (·.key = key) = (chains.set id (chain.eraseP (·.key = key))).flatten := by
  induction chains generalizing id with
  | nil => cases at_id
  | cons head tail ih =>
    cases id with
    | zero =>
      obtain rfl : head = chain := by simpa using at_id
      obtain ⟨node, member, of_key⟩ := holds
      rw [List.flatten_cons, List.eraseP_append_left (a := node) (by simpa using of_key) _ member]
      rfl
    | succ id =>
      have clear : ∀ node ∈ head, node.key ≠ key := only 0 head rfl (Nat.zero_ne_add_one id)
      have below := ih (by simpa using at_id) fun i held at_i other =>
        only (i + 1) held (by simpa using at_i) fun same => other (Nat.succ.inj same)
      rw [List.flatten_cons, List.eraseP_append_right _ fun node member => by simpa using clear node member,
        below]
      rfl

/-! ### The whole map -/

namespace InBuckets

/-- Only the bucket of a key has nodes for it. -/
theorem elsewhere (placed : m.InBuckets) {id : Nat} (at_id : m.buckets[id]? = some chain)
    (other : id ≠ bucketOf m.capacity key) : ∀ node ∈ chain, node.key ≠ key := by
  rintro node member rfl
  exact other (placed id chain at_id node member).symm

theorem holds_iff (placed : m.InBuckets) : m.Holds key ↔ ∃ node ∈ m.bucket key, node.key = key := by
  constructor
  · rintro ⟨node, member, rfl⟩
    obtain ⟨id, chain, at_id, inside⟩ := mem_nodes.mp member
    refine ⟨node, ?_, rfl⟩
    rw [bucket, placed id chain at_id node inside, List.getD_eq_getElem?_getD, at_id]
    exact inside
  · rintro ⟨node, member, of_key⟩
    exact ⟨node, mem_nodes_of_bucket member, of_key⟩

theorem map_absent (absent : ¬ m.Holds key) :
    m.buckets.map (List.eraseP (·.key = key)) = m.buckets := by
  refine (List.map_congr_left fun chain member => ?_).trans (List.map_id _)
  refine eraseP_absent fun node inside same => absent ⟨node, ?_, same⟩
  exact List.mem_flatten.mpr ⟨chain, member, inside⟩

/-- Only one chain is written where a key is taken out of all of them. -/
theorem map_set (placed : m.InBuckets) (key : Key) :
    m.buckets.map (List.eraseP (·.key = key)) =
      m.buckets.set (bucketOf m.capacity key) ((m.bucket key).eraseP (·.key = key)) := by
  refine List.ext_getElem? fun id => ?_
  rw [List.getElem?_map, List.getElem?_set]
  cases at_id : m.buckets[id]? with
  | none =>
    have outside : m.buckets.length ≤ id := List.getElem?_eq_none_iff.mp at_id
    split
    · rw [if_neg (by omega)]
      rfl
    · rfl
  | some chain =>
    by_cases here : bucketOf m.capacity key = id
    · have inside : id < m.buckets.length := (List.getElem?_eq_some_iff.mp at_id).1
      rw [if_pos here, if_pos (by omega), bucket, here, List.getD_eq_getElem?_getD, at_id]
      rfl
    · rw [if_neg here, Option.map_some, eraseP_absent (placed.elsewhere at_id (Ne.symm here))]

end InBuckets

/-- Without a chain to look at there is nothing to erase from. -/
theorem erase_empty (empty : m.bucket key = []) : ¬ ∃ m', m.erase key = .ok m' := by
  rintro ⟨m', erased⟩
  by_cases buckets : 0 < m.capacity
  · simp [erase, index_eq buckets, chain_eq buckets, bind, Except.bind, empty] at erased
  · have none : m.buckets = [] := List.eq_nil_of_length_eq_zero (by rw [capacity] at buckets; omega)
    by_cases named : key.length > 0
    · simp [erase, index, capacity, none, named, bind, Except.bind] at erased
    · simp [erase, index, chain, none, named, bind, Except.bind] at erased

theorem capacity_of_bucket (nonempty : m.bucket key ≠ []) : 0 < m.capacity := by
  rw [Nat.pos_iff_ne_zero]
  intro empty
  have none : m.buckets = [] := List.eq_nil_of_length_eq_zero empty
  exact nonempty (by simp [bucket, none])

/-- An erased key leaves its chain without its first node. -/
theorem without_removed (placed : m.InBuckets) (buckets : 0 < m.capacity)
    (unlinked : unlink key (m.bucket key) = some rest) : m.Without key (m.removed key rest) := by
  obtain ⟨rfl, holds⟩ := unlink_some unlinked
  have inside : bucketOf m.capacity key < m.buckets.length := bucketOf_lt buckets key
  have at_key : m.buckets[bucketOf m.capacity key]? = some (m.bucket key) := by
    simp [bucket, List.getElem?_eq_getElem inside]
  refine ⟨(placed.map_set key).symm, ?_, fun _ => rfl, fun absent => ?_, fun other different => ?_⟩
  · refine (eraseP_flatten at_key (fun id chain at_id different => ?_) holds).symm
    exact placed.elsewhere at_id different
  · exact absurd (placed.holds_iff.mpr holds) absent
  · rw [get_eq (by rwa [removed_capacity]), get_eq buckets, removed, bucket_set buckets]
    split
    · rename_i shared
      rw [find_unlink_other different unlinked, bucket, bucket, shared]
    · rfl

theorem without_kept (absent : ¬ m.Holds key) : m.Without key m := by
  refine ⟨(InBuckets.map_absent absent).symm, ?_, fun holds => absurd holds absent, fun _ => rfl, fun _ _ => rfl⟩
  exact (eraseP_absent fun node member same => absent ⟨node, member, same⟩).symm

/-- A key is erased exactly if its bucket is not empty, whether the key is
there or not. -/
theorem erases_exactly_iff (placed : m.InBuckets) (key : Key) :
    m.ErasesExactly key ↔ m.bucket key ≠ [] := by
  constructor
  · rintro ⟨m', erased, -⟩ empty
    exact erase_empty empty ⟨m', erased⟩
  · intro nonempty
    have buckets := capacity_of_bucket nonempty
    cases unlinked : unlink key (m.bucket key) with
    | some rest =>
      refine ⟨m.removed key rest, ?_, without_removed placed buckets unlinked⟩
      simp [erase, index_eq buckets, chain_eq buckets, bind, Except.bind, nonempty, unlinked, removed]
    | none =>
      refine ⟨m, ?_, without_kept fun holds => ?_⟩
      · simp [erase, index_eq buckets, chain_eq buckets, bind, Except.bind, nonempty, unlinked]
      · obtain ⟨node, member, of_key⟩ := placed.holds_iff.mp holds
        exact unlink_none unlinked node member of_key

/-- Two sessions of one bucket, one of them twice. -/
def threeSessions : Myhashmap UInt16 :=
  { buckets := [[⟨[97], 1⟩, ⟨[98], 2⟩, ⟨[97], 3⟩]], count := 3 }

theorem erases_exactly_repeated_key : threeSessions.ErasesExactly [97] := by
  refine (erases_exactly_iff (fun id chain held node member => ?_) [97]).mpr (by decide)
  obtain ⟨inside, -⟩ := List.getElem?_eq_some_iff.mp held
  exact (Nat.lt_one_iff.mp (bucketOf_lt Nat.one_pos node.key)).trans (Nat.lt_one_iff.mp inside).symm

/-- A user who is not there is deleted from a table without users. -/
theorem unknown_user_dereferences_null :
    (ofCapacity 1 [] : Myhashmap UInt16 × Heap).1.InBuckets ∧
      (ofCapacity 1 [] : Myhashmap UInt16 × Heap).1.erase [97] = .error .nullDeref ∧
      ¬ (ofCapacity 1 [] : Myhashmap UInt16 × Heap).1.ErasesExactly [97] := by
  refine ⟨(sound_ofCapacity Nat.one_pos).placed, rfl, ?_⟩
  rintro ⟨m', erased, -⟩
  cases erased

end MqttBroker.Myhashmap
