import MqttBroker.Myhashmap

/-! The entries of a `myhashmap` as the set of its nodes. A sound map keeps
every node in the bucket of its key and has one node for a key, so lookups
speak of the nodes. -/
namespace MqttBroker.Myhashmap

/-- The map has buckets, in the right one of which every node is, and no key
twice; its vector of buckets has size zero. -/
structure Sound (m : Myhashmap α) : Prop where
  buckets : 0 < m.capacity
  unsized : m.size = 0
  placed : ∀ (id : Nat) (chain : List (Node α)), m.buckets[id]? = some chain →
    ∀ node ∈ chain, bucketOf m.capacity node.key = id
  unique : (m.nodes.map Node.key).Nodup

variable {m m' : Myhashmap α} {key : Key} {data : α} {node other : Node α}

theorem mem_nodes : node ∈ m.nodes ↔
    ∃ (id : Nat) (chain : List (Node α)), m.buckets[id]? = some chain ∧ node ∈ chain := by
  rw [nodes, List.mem_flatten]
  constructor
  · rintro ⟨chain, held, inside⟩
    obtain ⟨id, held⟩ := List.mem_iff_getElem?.mp held
    exact ⟨id, chain, held, inside⟩
  · rintro ⟨id, chain, held, inside⟩
    exact ⟨chain, List.mem_of_getElem? held, inside⟩

theorem mem_nodes_of_bucket (member : node ∈ m.bucket key) : node ∈ m.nodes := by
  rw [bucket, List.getD_eq_getElem?_getD] at member
  cases held : m.buckets[bucketOf m.capacity key]? with
  | none =>
    rw [held] at member
    exact absurd member List.not_mem_nil
  | some chain =>
    rw [held] at member
    exact mem_nodes.mpr ⟨_, chain, held, member⟩

namespace Sound

theorem mem_bucket (sound : Sound m) (member : node ∈ m.nodes) : node ∈ m.bucket node.key := by
  obtain ⟨id, chain, held, inside⟩ := mem_nodes.mp member
  rw [bucket, sound.placed id chain held node inside, List.getD_eq_getElem?_getD, held]
  exact inside

/-- One key has one node. -/
theorem eq_of_key (sound : Sound m) (first : node ∈ m.nodes) (second : other ∈ m.nodes)
    (same : node.key = other.key) : node = other :=
  List.inj_on_of_nodup_map sound.unique first second same

theorem get_some (sound : Sound m) : m.get key = .ok (some data) ↔ ⟨key, data⟩ ∈ m.nodes := by
  rw [get_eq sound.buckets, Except.ok.injEq, Option.map_eq_some_iff]
  constructor
  · rintro ⟨node, found, rfl⟩
    obtain rfl : node.key = key := by simpa using List.find?_some found
    exact mem_nodes_of_bucket (List.mem_of_find?_eq_some found)
  · intro member
    cases found : find key (m.bucket key) with
    | none =>
      have absent := List.find?_eq_none.mp found _ (sound.mem_bucket member)
      simp at absent
    | some node =>
      have same : node.key = key := by simpa using List.find?_some found
      have inside := mem_nodes_of_bucket (List.mem_of_find?_eq_some found)
      exact ⟨node, rfl, by rw [sound.eq_of_key inside member same]⟩

theorem get_none (sound : Sound m) :
    m.get key = .ok none ↔ ∀ node ∈ m.nodes, node.key ≠ key := by
  constructor
  · rintro absent node member rfl
    have held := sound.get_some.mpr member
    rw [absent] at held
    cases held
  · intro absent
    rw [get_eq sound.buckets, Except.ok.injEq, Option.map_eq_none_iff]
    exact List.find?_eq_none.mpr fun node member => by
      simpa using absent node (mem_nodes_of_bucket member)

end Sound

theorem sound_ofCapacity {capacity : Nat} (positive : 0 < capacity) :
    Sound (ofCapacity capacity [] : Myhashmap α × Heap).1 := by
  refine ⟨by simpa [ofCapacity, Myhashmap.capacity] using positive, rfl, ?_, ?_⟩
  · intro id chain held node member
    simp only [ofCapacity, Heap.alloc_nil, if_true, List.getElem?_replicate] at held
    split at held
    · cases held
      cases member
    · cases held
  · simp [ofCapacity, nodes]

theorem nodes_ofCapacity (capacity : Nat) :
    (ofCapacity capacity [] : Myhashmap α × Heap).1.nodes = [] := by
  simp [ofCapacity, nodes]

/-- Writing the chain of a key with nodes of its bucket keeps every node in its
place. -/
theorem Sound.placed_set (sound : Sound m) {chain : List (Node α)}
    (fits : ∀ node ∈ chain, bucketOf m.capacity node.key = bucketOf m.capacity key) :
    ∀ (id : Nat) (held : List (Node α)),
      (m.buckets.set (bucketOf m.capacity key) chain)[id]? = some held →
      ∀ node ∈ held, bucketOf m.capacity node.key = id := by
  intro id held at_id node member
  rw [List.getElem?_set] at at_id
  split at at_id
  · rename_i same
    split at at_id
    · cases at_id
      rw [fits node member, same]
    · cases at_id
  · exact sound.placed id held at_id node member

theorem Sound.bucket_fits (sound : Sound m) (member : node ∈ m.bucket key) :
    bucketOf m.capacity node.key = bucketOf m.capacity key := by
  rw [bucket, List.getD_eq_getElem?_getD] at member
  cases held : m.buckets[bucketOf m.capacity key]? with
  | none =>
    rw [held] at member
    exact absurd member List.not_mem_nil
  | some chain =>
    rw [held] at member
    exact sound.placed _ chain held node member

/-! ### Insertion -/

theorem perm_appended (buckets : 0 < m.capacity) (key : Key) (data : α) :
    (m.appended key data).nodes.Perm (⟨key, data⟩ :: m.nodes) :=
  Multiset.coe_eq_coe.mp (nodes_appended buckets key data)

theorem mem_appended (buckets : 0 < m.capacity) :
    node ∈ (m.appended key data).nodes ↔ node = ⟨key, data⟩ ∨ node ∈ m.nodes := by
  rw [(perm_appended buckets key data).mem_iff, List.mem_cons]

theorem Sound.appended (sound : Sound m) (fresh : ∀ node ∈ m.nodes, node.key ≠ key) (data : α) :
    Sound (m.appended key data) := by
  refine ⟨by rw [appended_capacity]; exact sound.buckets, sound.unsized, ?_, ?_⟩
  · rw [appended_capacity]
    refine sound.placed_set fun node member => ?_
    rcases List.mem_append.mp member with member | member
    · exact sound.bucket_fits member
    · rw [List.mem_singleton.mp member]
  · rw [((perm_appended sound.buckets key data).map Node.key).nodup_iff, List.map_cons,
      List.nodup_cons]
    refine ⟨fun member => ?_, sound.unique⟩
    obtain ⟨node, inside, same⟩ := List.mem_map.mp member
    exact fresh node inside same

/-- An addition after which the key is found has appended the key's node. -/
theorem Sound.add_found (sound : Sound m) {heap after : Heap}
    (added : m.add key data heap = .ok (true, m', after)) (found : m'.get key = .ok (some data')) :
    m' = m.appended key data := by
  obtain ⟨result, ran, ends⟩ := add_ends sound.buckets sound.unsized key data heap
  rw [added] at ran
  cases ran
  cases ends with
  | appended => rfl
  | emptied _ crowded =>
    rw [emptied_get sound.buckets crowded] at found
    cases found

/-- A map that has grown holds nothing, in good order. -/
theorem nodes_emptied : m.emptied.nodes = [] := by
  simp [nodes, emptied]

theorem sound_emptied (buckets : 0 < m.capacity) (crowded : m.Crowded key) : Sound m.emptied := by
  refine ⟨emptied_capacity buckets crowded, rfl, fun id chain held node member => ?_, ?_⟩
  · have inside := mem_nodes.mpr ⟨id, chain, held, member⟩
    rw [nodes_emptied] at inside
    cases inside
  · rw [nodes_emptied]
    exact List.nodup_nil

/-! ### Removal -/

theorem unlink_perm {chain rest : List (Node α)} (removed : unlink key chain = some rest) :
    ∃ node, node.key = key ∧ chain.Perm (node :: rest) := by
  induction chain generalizing rest with
  | nil => cases removed
  | cons node tail ih =>
    unfold unlink at removed
    split at removed
    · cases removed
      exact ⟨node, ‹_›, .refl _⟩
    · obtain ⟨shorter, removedTail, rfl⟩ := Option.map_eq_some_iff.mp removed
      obtain ⟨gone, same, perm⟩ := ih removedTail
      exact ⟨gone, same, (perm.cons node).trans (.swap gone node shorter)⟩

theorem unlink_none {chain : List (Node α)} (kept : unlink key chain = none) :
    ∀ node ∈ chain, node.key ≠ key := by
  induction chain with
  | nil => exact nofun
  | cons node tail ih =>
    unfold unlink at kept
    split at kept
    · cases kept
    · exact List.forall_mem_cons.mpr ⟨‹_›, ih (Option.map_eq_none_iff.mp kept)⟩

/-- Erasing a key leaves the nodes of the other keys. -/
theorem Sound.erase (sound : Sound m) (erased : m.erase key = .ok m') :
    Sound m' ∧ ∀ node, node ∈ m'.nodes ↔ node ∈ m.nodes ∧ node.key ≠ key := by
  simp only [Myhashmap.erase, index_eq sound.buckets, chain_eq sound.buckets, bind, Except.bind]
    at erased
  split at erased
  · cases erased
  · split at erased
    · rename_i rest unlinked
      cases erased
      obtain ⟨gone, of_key, perm⟩ := unlink_perm unlinked
      have moved := nodes_set sound.buckets key rest
      rw [Multiset.coe_eq_coe.mpr perm, ← Multiset.cons_coe, Multiset.add_cons, ← Multiset.cons_add]
        at moved
      have split : m.nodes.Perm (gone :: (m.removed key rest).nodes) :=
        Multiset.coe_eq_coe.mp (add_right_cancel moved).symm
      have unique := (split.map Node.key).nodup_iff.mp sound.unique
      rw [List.map_cons, List.nodup_cons] at unique
      have same : (m.removed key rest).capacity = m.capacity := removed_capacity
      rw [← removed]
      refine ⟨⟨same ▸ sound.buckets, sound.unsized, ?_, unique.2⟩, fun node => ?_⟩
      · rw [same]
        refine sound.placed_set fun node member => sound.bucket_fits ?_
        exact perm.mem_iff.mpr (List.mem_cons_of_mem _ member)
      · rw [split.mem_iff, List.mem_cons]
        constructor
        · refine fun member => ⟨.inr member, fun same => unique.1 ?_⟩
          exact List.mem_map.mpr ⟨node, member, same.trans of_key.symm⟩
        · rintro ⟨rfl | member, other⟩
          · exact absurd of_key other
          · exact member
    · rename_i kept
      cases erased
      refine ⟨sound, fun node => ⟨fun member => ⟨member, ?_⟩, And.left⟩⟩
      rintro rfl
      exact unlink_none kept node (sound.mem_bucket member) rfl

/-- Erasing adds no node, whatever the map is like. -/
theorem mem_of_erase (erased : m.erase key = .ok m') (member : node ∈ m'.nodes) : node ∈ m.nodes := by
  simp only [Myhashmap.erase, bind, Except.bind] at erased
  cases at_key : m.index key with
  | error kind => simp [at_key] at erased
  | ok id =>
    rw [at_key] at erased
    dsimp only [chain] at erased
    cases held : m.buckets[id]? with
    | none => simp [held] at erased
    | some chain =>
      simp only [held] at erased
      split at erased
      · cases erased
      · split at erased
        · rename_i rest unlinked
          cases erased
          obtain ⟨other, kept, at_other, inside⟩ := mem_nodes.mp member
          rw [List.getElem?_set] at at_other
          split at at_other
          · rename_i same
            subst same
            split at at_other
            · obtain rfl := Option.some.inj at_other
              exact mem_nodes.mpr ⟨id, chain, held, (unlink_sublist unlinked).subset inside⟩
            · cases at_other
          · exact mem_nodes.mpr ⟨other, kept, at_other, inside⟩
        · cases erased
          exact member

/-! ### Changes of the data -/

/-- The map with the nodes changed one by one. -/
def mapped (m : Myhashmap α) (f : Node α → Node α) : Myhashmap α :=
  { m with buckets := m.buckets.map (List.map f) }

theorem nodes_mapped (f : Node α → Node α) : (m.mapped f).nodes = m.nodes.map f := by
  simp only [nodes, mapped, List.map_flatten]

theorem Sound.mapped (sound : Sound m) {f : Node α → Node α} (keeps : ∀ node, (f node).key = node.key) :
    Sound (m.mapped f) := by
  refine ⟨by simpa [Myhashmap.mapped, Myhashmap.capacity] using sound.buckets, sound.unsized, ?_, ?_⟩
  · intro id chain held node member
    simp only [Myhashmap.mapped, List.getElem?_map, Option.map_eq_some_iff] at held
    obtain ⟨before, held, rfl⟩ := held
    obtain ⟨node, inside, rfl⟩ := List.mem_map.mp member
    have placed := sound.placed id before held node inside
    rw [keeps]
    simpa [Myhashmap.mapped, Myhashmap.capacity] using placed
  · rw [nodes_mapped, List.map_map]
    have same : Node.key ∘ f = Node.key := funext keeps
    rw [same]
    exact sound.unique

/-- The node that a lookup finds is the one whose data is replaced. -/
theorem setFirst_split {chain : List (Node α)} (found : find key chain = some node) (data : α) :
    ∃ front back, chain = front ++ node :: back ∧ setFirst key data chain = front ++ ⟨key, data⟩ :: back := by
  induction chain with
  | nil => cases found
  | cons first rest ih =>
    by_cases here : first.key = key
    · have same : first = node := by simpa [find, here] using found
      subst same
      exact ⟨[], rest, rfl, by simp [setFirst, here]⟩
    · have later : find key rest = some node := by simpa [find, here] using found
      obtain ⟨front, back, whole, written⟩ := ih later
      exact ⟨first :: front, back, by rw [whole, List.cons_append], by simp [setFirst, here, written]⟩

theorem Sound.find_some (sound : Sound m) (held : ⟨key, data⟩ ∈ m.nodes) :
    find key (m.bucket key) = some ⟨key, data⟩ := by
  have got := sound.get_some.mpr held
  rw [get_eq sound.buckets, Except.ok.injEq, Option.map_eq_some_iff] at got
  obtain ⟨node, found, rfl⟩ := got
  have of_key : node.key = key := by simpa using List.find?_some found
  rw [found, ← of_key]

/-- One node is exchanged for another of its key. -/
theorem Sound.nodes_rewritten (sound : Sound m) {old : α} (held : ⟨key, old⟩ ∈ m.nodes) (data : α) :
    ∃ rest : Multiset (Node α), (m.nodes : Multiset (Node α)) = ⟨key, old⟩ ::ₘ rest ∧
      ((m.rewritten key data).nodes : Multiset (Node α)) = ⟨key, data⟩ ::ₘ rest := by
  obtain ⟨front, back, whole, written⟩ := setFirst_split (sound.find_some held) data
  obtain ⟨rest, split⟩ := Multiset.exists_cons_of_mem (Multiset.mem_coe.mpr held)
  refine ⟨rest, split, ?_⟩
  have spread (node : Node α) : ((front ++ node :: back : List (Node α)) : Multiset (Node α)) =
      {node} + (front + back : Multiset (Node α)) := by
    rw [← Multiset.coe_add, ← Multiset.cons_coe, ← Multiset.singleton_add]
    abel
  have moved := nodes_set sound.buckets key (setFirst key data (m.bucket key))
  rw [written, whole, spread, spread, split, ← Multiset.singleton_add] at moved
  rw [nodes, rewritten, written, ← Multiset.singleton_add]
  refine add_right_cancel (b := ({⟨key, old⟩} + (front + back) : Multiset (Node α))) (moved.trans ?_)
  abel

theorem Sound.rewritten (sound : Sound m) {old : α} (held : ⟨key, old⟩ ∈ m.nodes) (data : α) :
    Sound (m.rewritten key data) := by
  obtain ⟨front, back, whole, written⟩ := setFirst_split (sound.find_some held) data
  refine ⟨by rw [rewritten_capacity]; exact sound.buckets, sound.unsized, ?_, ?_⟩
  · rw [rewritten_capacity]
    refine sound.placed_set fun node member => ?_
    rw [written] at member
    rcases List.mem_append.mp member with before | member
    · exact sound.bucket_fits (whole ▸ List.mem_append_left _ before)
    · rcases List.mem_cons.mp member with rfl | after
      · rfl
      · exact sound.bucket_fits (whole ▸ List.mem_append_right _ (List.mem_cons_of_mem _ after))
  · obtain ⟨rest, before, after⟩ := sound.nodes_rewritten held data
    have unique := sound.unique
    rw [← Multiset.coe_nodup, ← Multiset.map_coe] at unique ⊢
    rw [before, Multiset.map_cons] at unique
    rw [after, Multiset.map_cons]
    exact unique

end MqttBroker.Myhashmap
