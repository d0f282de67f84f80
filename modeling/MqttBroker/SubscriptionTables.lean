import MqttBroker.SubscriptionWalks

/-! What holds of the table of every node in a tree the broker builds: its keys
are distinct, it counts at least the nodes it has, and the vector of its
buckets has no elements, only storage. Growth forgets the nodes and keeps the
count, so the count may be too high. -/
namespace MqttBroker.Subscription
open Myhashmap

structure SoundTable (m : Myhashmap Subscription) : Prop where
  distinct : ∀ key, ((m.bucket key).map Node.key).Nodup
  counted : m.nodes.length ≤ m.count
  unsized : m.size = 0

def Sound (tree : Subscription) : Prop :=
  ∀ path curNode, nodeAt path tree = some curNode → SoundTable curNode.childNodes

section Tables
variable {m : Myhashmap Subscription} {key : Key} {data : Subscription}

/-- Writing one chain leaves the keys of the others alone. -/
theorem SoundTable.set (sound : SoundTable m) (buckets : 0 < m.capacity)
    {chain : List (Node Subscription)} (distinct : (chain.map Node.key).Nodup) {n : Nat}
    (counted : chain.length + m.count ≤ n + (m.bucket key).length) :
    SoundTable { m with buckets := m.buckets.set (bucketOf m.capacity key) chain, count := n } := by
  refine ⟨fun other => ?_, ?_, sound.unsized⟩
  · rw [bucket_set buckets]
    split
    · exact distinct
    · exact sound.distinct other
  · have sizes := congrArg Multiset.card (nodes_set buckets key chain)
    simp only [Multiset.card_add, Multiset.coe_card] at sizes
    have before := sound.counted
    simp only [nodes] at sizes before ⊢
    omega

theorem SoundTable.rewritten (sound : SoundTable m) (buckets : 0 < m.capacity) (key : Key)
    (data : Subscription) : SoundTable (m.rewritten key data) := by
  apply sound.set buckets
  · rw [map_key_setFirst]
    exact sound.distinct key
  · rw [length_setFirst]
    omega

theorem SoundTable.appended (sound : SoundTable m) (buckets : 0 < m.capacity)
    (absent : find key (m.bucket key) = none) : SoundTable (m.appended key data) := by
  apply sound.set buckets
  · rw [List.map_append, List.map_singleton, List.nodup_append]
    refine ⟨sound.distinct key, List.nodup_singleton _, ?_⟩
    rintro held member _ single rfl
    obtain ⟨entry, inside, rfl⟩ := List.mem_map.mp member
    have apart := List.find?_eq_none.mp absent entry inside
    simp_all
  · rw [List.length_append, List.length_singleton]
    omega

theorem SoundTable.emptied : SoundTable m.emptied := by
  have bare : ∀ other, m.emptied.bucket other = [] := by
    intro other
    simp only [bucket, Myhashmap.emptied, List.getD_eq_getElem?_getD, List.getElem?_replicate]
    split <;> rfl
  refine ⟨fun other => ?_, ?_, rfl⟩
  · rw [bare]
    exact List.nodup_nil
  · simp [nodes, Myhashmap.emptied]

theorem SoundTable.removed (sound : SoundTable m) (buckets : 0 < m.capacity)
    {rest : List (Node Subscription)} (unlinked : unlink key (m.bucket key) = some rest) :
    SoundTable (m.removed key rest) := by
  have shorter := length_unlink unlinked
  apply sound.set buckets
  · exact ((unlink_sublist unlinked).map Node.key).nodup (sound.distinct key)
  · omega

end Tables

section Trees
variable {tree after below : Subscription} {key : Key} {topic : Key} {qos : UInt8}

theorem Sound.table (sound : Sound tree) : SoundTable tree.childNodes := sound [] tree rfl

theorem Sound.child (sound : Sound tree) (held : tree.child key = some below) : Sound below := by
  intro path curNode there
  apply sound (key :: path)
  rw [nodeAt, held]
  exact there

theorem sound_of_children (table : SoundTable tree.childNodes)
    (children : ∀ key below, tree.child key = some below → Sound below) : Sound tree := by
  intro path curNode there
  cases path with
  | nil =>
    cases there
    exact table
  | cons key rest =>
    obtain ⟨below, held, deeper⟩ := Option.bind_eq_some_iff.mp there
    exact children key below held rest curNode deeper

theorem new_sound (heap : Heap) : Sound (new heap).1 := by
  have bare : ∀ key, ((new heap).1.childNodes.bucket key) = [] := by
    intro key
    unfold new Myhashmap.ofCapacity
    split
    · exact leaf_bucket emptyQos key
    · simp [bucket]
  apply sound_of_children
  · refine ⟨fun key => ?_, ?_, ?_⟩
    · rw [bare]
      exact List.nodup_nil
    all_goals
      unfold new Myhashmap.ofCapacity
      split <;> simp [nodes]
  · intro key below held
    rw [Subscription.child, bare] at held
    cases held

theorem leaf_sound (qos : UInt8) : Sound (leaf qos) :=
  sound_of_children (new_sound []).table fun key below held => by
    rw [leaf_child] at held
    cases held

/-- A child rewritten in a sound tree. -/
theorem Sound.rewritten (sound : Sound tree) (buckets : 0 < tree.childNodes.capacity) (key : Key)
    (rewritten : Sound below) : Sound (.node qos (tree.childNodes.rewritten key below)) := by
  apply sound_of_children
  · exact sound.table.rewritten buckets key below
  · intro other next held
    rw [child_rewritten buckets] at held
    split at held
    · obtain ⟨-, -, rfl⟩ := Option.map_eq_some_iff.mp held
      exact rewritten
    · exact sound.child held

theorem Sound.appended (sound : Sound tree) (buckets : 0 < tree.childNodes.capacity)
    (absent : tree.child key = none) (fresh : Sound below) :
    Sound (.node qos (tree.childNodes.appended key below)) := by
  apply sound_of_children
  · exact sound.table.appended buckets (Option.map_eq_none_iff.mp absent)
  · intro other next held
    rw [child_appended buckets] at held
    rcases Option.or_eq_some_iff.mp held with here | ⟨-, added⟩
    · exact sound.child here
    · split at added
      · cases added
        exact fresh
      · cases added

theorem emptied_sound (buckets : 0 < tree.childNodes.capacity)
    (crowded : tree.childNodes.Crowded key) : Sound (.node qos tree.childNodes.emptied) := by
  apply sound_of_children
  · exact SoundTable.emptied
  · intro other next held
    rw [child_emptied buckets crowded] at held
    cases held

/-- Subscribing keeps a tree sound, however the allocations go. -/
theorem addSub_sound {fuel : Nat} {heap : Heap} {result : UInt8 × Subscription × Heap}
    (sound : Sound tree) (ended : addSub fuel topic qos tree heap = .ok result) :
    Sound result.2.1 := by
  induction fuel generalizing tree topic heap result with
  | zero => cases ended
  | succ fuel ih =>
    rw [addSub] at ended
    by_cases done : topic.length = 0
    · rw [if_pos done] at ended
      cases ended
      exact sound_of_children sound.table fun key below held => sound.child held
    rw [if_neg done] at ended
    simp only [bind, Except.bind] at ended
    cases got : tree.childNodes.get (level topic) with
    | error fault => rw [got] at ended; cases ended
    | ok found =>
      have buckets := capacity_of_get got
      have held := child_of_get got
      rw [got] at ended
      cases found with
      | some tmp =>
        simp only at ended
        cases deeper : addSub fuel (afterLevel topic) qos tmp heap with
        | error fault => rw [deeper] at ended; cases ended
        | ok reply =>
          rw [deeper] at ended
          cases ended
          exact sound.rewritten buckets _ (ih (sound.child held) deeper)
      | none =>
        simp only at ended
        by_cases room : heap.alloc.1 = true
        · rw [if_pos room] at ended
          obtain ⟨stored, added, ends⟩ := add_ends buckets sound.table.unsized (level topic)
            (new heap.alloc.2).1 (new heap.alloc.2).2
          have kept : Sound (.node tree.maxQos stored.2.1) := by
            cases ends with
            | refused heap => exact sound_of_children sound.table fun key below held => sound.child held
            | appended heap => exact sound.appended buckets held (new_sound _)
            | emptied heap crowded => exact emptied_sound buckets crowded
          rw [added] at ended
          simp only at ended
          cases again : stored.2.1.get (level topic) with
          | error fault => rw [again] at ended; cases ended
          | ok found =>
            rw [again] at ended
            cases found with
            | none =>
              cases ended
              exact kept
            | some tmp =>
              simp only at ended
              have there : (Subscription.node tree.maxQos stored.2.1).child (level topic) = some tmp :=
                child_of_get again
              cases deeper : addSub fuel (afterLevel topic) qos tmp stored.2.2 with
              | error fault => rw [deeper] at ended; cases ended
              | ok reply =>
                rw [deeper] at ended
                cases ended
                exact kept.rewritten (capacity_of_get again) _ (ih (kept.child there) deeper)
        · rw [if_neg room] at ended
          cases ended
          exact sound

/-- Rewriting one node keeps a tree sound if it keeps the node so. -/
theorem modifyAt_sound {f : Subscription → Outcome Subscription} {path : List Key}
    (keeps : ∀ curNode after, Sound curNode → f curNode = .ok after → Sound after)
    (sound : Sound tree) (ended : modifyAt f path tree = .ok after) : Sound after := by
  induction path generalizing tree after with
  | nil => exact keeps tree after sound ended
  | cons key rest ih =>
    simp only [modifyAt, bind, Except.bind] at ended
    cases got : tree.childNodes.get key with
    | error fault => rw [got] at ended; cases ended
    | ok found =>
      rw [got] at ended
      cases found with
      | none => cases ended
      | some below =>
        simp only at ended
        cases deeper : modifyAt f rest below with
        | error fault => rw [deeper] at ended; cases ended
        | ok reply =>
          rw [deeper] at ended
          cases ended
          exact sound.rewritten (capacity_of_get got) key (ih (sound.child (child_of_get got)) deeper)

/-- An erasure that completes removes a node or changes nothing. -/
theorem erase_cases {m m' : Myhashmap Subscription} (erased : m.erase key = .ok m') :
    m' = m ∨ 0 < m.capacity ∧ ∃ rest, unlink key (m.bucket key) = some rest ∧ m' = m.removed key rest := by
  by_cases buckets : 0 < m.capacity
  · simp only [erase, index_eq buckets, chain_eq buckets, bind, Except.bind] at erased
    split at erased
    · cases erased
    · split at erased
      · rename_i rest unlinked
        cases erased
        exact .inr ⟨buckets, rest, unlinked, rfl⟩
      · cases erased
        exact .inl rfl
  · have none : m.capacity = 0 := by omega
    have bare : m.buckets = [] := List.eq_nil_of_length_eq_zero none
    by_cases empty : key.length > 0
    · simp [erase, index, none, empty, bind, Except.bind] at erased
    · simp [erase, index, empty, chain, bare, bind, Except.bind] at erased

theorem Sound.removed (sound : Sound tree) (buckets : 0 < tree.childNodes.capacity)
    {rest : List (Node Subscription)} (unlinked : unlink key (tree.childNodes.bucket key) = some rest) :
    Sound (.node qos (tree.childNodes.removed key rest)) := by
  apply sound_of_children
  · exact sound.table.removed buckets unlinked
  · intro other next held
    rw [child_removed buckets qos key other (sound.table.distinct key) unlinked] at held
    split at held
    · cases held
    · exact sound.child held

theorem deleteSub_sound (sound : Sound tree) (ended : deleteSub topic tree = .ok after) : Sound after := by
  simp only [deleteSub, bind, Except.bind] at ended
  cases cut : deleteWalk (tree.height + 1) topic tree [] none with
  | error fault => rw [cut] at ended; cases ended
  | ok decided =>
    rw [cut] at ended
    cases decided with
    | nothing =>
      cases ended
      exact sound
    | clear path =>
      refine modifyAt_sound (fun curNode after whole same => ?_) sound ended
      cases same
      exact sound_of_children whole.table fun key below held => whole.child held
    | erase parent key =>
      refine modifyAt_sound (fun curNode after whole same => ?_) sound ended
      cases erased : curNode.childNodes.erase key with
      | error fault => rw [erased] at same; cases same
      | ok childNodes =>
        rw [erased] at same
        cases same
        rcases erase_cases erased with rfl | ⟨buckets, rest, unlinked, rfl⟩
        · exact sound_of_children whole.table fun key below held => whole.child held
        · exact whole.removed buckets unlinked

end Trees

end MqttBroker.Subscription
