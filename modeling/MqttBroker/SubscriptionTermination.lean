import MqttBroker.SubscriptionWalks

/-! How many iterations the walks over the topic tree make. A lookup goes one
node down each time and so ends within the height of the tree. A removal stays
at the root: it ends at the first separator or looks the empty level up for
ever. A subscription ends by taking the topic in, which it stops doing at the
first separator. -/
namespace MqttBroker.Subscription
open Myhashmap

/-! ### Lookup and removal -/

/-- `is_subed_to` with the tree it is called on in hand, `path` being where
`cur_node` is in it. -/
def isSubedToFrom : Nat → Key → List Key → Subscription → Outcome (UInt8 × Subscription)
  | 0, _, _, _ => .error .endless
  | fuel + 1, topic, path, tree =>
    match nodeAt path tree with
    | none => .error .nullDeref
    | some curNode =>
      if topic.length = 0 then .ok (curNode.maxQos, tree)
      else do
        match ← curNode.childNodes.get (level topic) with
        | none => .ok (emptyQos, tree)
        | some _ => isSubedToFrom fuel (afterLevel topic) (path ++ [level topic]) tree

theorem nodeAt_append (path : List Key) (key : Key) (tree : Subscription) :
    nodeAt (path ++ [key]) tree = (nodeAt path tree).bind fun curNode => curNode.child key := by
  induction path generalizing tree with
  | nil => simp [nodeAt]
  | cons head rest ih =>
    rw [List.cons_append, nodeAt, nodeAt]
    cases tree.child head with
    | none => rfl
    | some below => exact ih below

/-- Following the pointer is following its path in a tree that stays as it is. -/
theorem isSubedToFrom_eq {tree curNode : Subscription} {path : List Key} (fuel : Nat) (topic : Key)
    (here : nodeAt path tree = some curNode) :
    isSubedToFrom fuel topic path tree = (isSubedToLoop fuel topic curNode).map (·, tree) := by
  induction fuel generalizing topic path curNode with
  | zero => rfl
  | succ fuel ih =>
    simp only [isSubedToFrom, here, isSubedToLoop]
    by_cases done : topic.length = 0
    · rw [if_pos done, if_pos done]
      rfl
    · rw [if_neg done, if_neg done]
      cases got : curNode.childNodes.get (level topic) with
      | error fault => rfl
      | ok found =>
        cases found with
        | none => rfl
        | some below =>
          apply ih
          rw [nodeAt_append, here]
          exact child_of_get got

theorem isSubedToLoop_ends {fuel : Nat} (topic : Key) {curNode : Subscription}
    (high : curNode.height ≤ fuel) : isSubedToLoop fuel topic curNode ≠ .error .endless := by
  induction fuel generalizing topic curNode with
  | zero =>
    obtain ⟨n, height⟩ := height_succ curNode
    omega
  | succ fuel ih =>
    rw [isSubedToLoop]
    by_cases done : topic.length = 0
    · rw [if_pos done]
      intro same
      cases same
    · rw [if_neg done]
      cases got : curNode.childNodes.get (level topic) with
      | error fault =>
        intro same
        cases same
        exact get_ends _ _ got
      | ok found =>
        cases found with
        | none =>
          intro same
          cases same
        | some below =>
          have lower := child_height (child_of_get got)
          exact ih (afterLevel topic) (by omega)

theorem lookup_ends (topic : Key) (tree : Subscription) :
    isSubedTo topic tree ≠ .error .endless :=
  isSubedToLoop_ends topic (Nat.le_succ _)

/-- Behind a separator the walk of `delete_sub` asks the root for the node of
the empty key, and comes back with the same topic where there is one. -/
theorem deleteWalk_circles {tree : Subscription} (held : (tree.child []).isSome) (fuel : Nat)
    (rest : Key) (delParent : List Key) (delTopic : Option Key) :
    deleteWalk fuel (separator :: rest) tree delParent delTopic = .error .endless := by
  obtain ⟨delPNode, held⟩ := Option.isSome_iff_exists.mp held
  induction fuel generalizing delParent delTopic with
  | zero => rfl
  | succ fuel ih =>
    unfold deleteWalk
    rw [level_cons_separator, afterLevel_cons_separator, if_neg (by simp),
      get_child (capacity_of_child held), held]
    simp only [bind, Except.bind, ih, ite_self]

theorem deleteWalk_stops {tree : Subscription} (buckets : 0 < tree.childNodes.capacity)
    (absent : tree.child [] = none) (fuel : Nat) (rest : Key) (delParent : List Key)
    (delTopic : Option Key) :
    deleteWalk (fuel + 1) (separator :: rest) tree delParent delTopic = .ok .nothing := by
  unfold deleteWalk
  rw [level_cons_separator, if_neg (by simp), get_child buckets, absent]
  rfl

/-- The root has a node for the first level of the topic, and one for the empty
key, where the walk of `delete_sub` stays. -/
def Circles (topic : Key) (tree : Subscription) : Prop :=
  separator ∈ topic ∧ (tree.child (level topic)).isSome ∧ (tree.child []).isSome

instance (topic : Key) (tree : Subscription) : Decidable (Circles topic tree) :=
  inferInstanceAs (Decidable (_ ∧ _))

section Removal
variable {tree : Subscription} {topic : Key}

theorem deleteWalk_endless (circles : Circles topic tree) (fuel : Nat) (delParent : List Key)
    (delTopic : Option Key) :
    deleteWalk fuel topic tree delParent delTopic = .error .endless := by
  obtain ⟨nested, first, empty⟩ := circles
  obtain ⟨rest, shape⟩ := afterLevel_separator nested
  obtain ⟨delPNode, held⟩ := Option.isSome_iff_exists.mp first
  cases fuel with
  | zero => rfl
  | succ fuel =>
    unfold deleteWalk
    rw [if_neg (level_shorter nested), shape, get_child (capacity_of_child held), held]
    simp only [bind, Except.bind, deleteWalk_circles empty, ite_self]

theorem deleteWalk_nested (nested : separator ∈ topic) (buckets : 0 < tree.childNodes.capacity)
    (straight : ¬ Circles topic tree) {fuel : Nat} (high : tree.height ≤ fuel) (delParent : List Key)
    (delTopic : Option Key) : deleteWalk fuel topic tree delParent delTopic = .ok .nothing := by
  obtain ⟨n, height⟩ := height_succ tree
  obtain ⟨fuel, rfl⟩ : ∃ m, fuel = m + 1 := ⟨fuel - 1, by omega⟩
  obtain ⟨rest, shape⟩ := afterLevel_separator nested
  unfold deleteWalk
  rw [if_neg (level_shorter nested), shape, get_child buckets]
  cases held : tree.child (level topic) with
  | none => rfl
  | some delPNode =>
    have absent : tree.child [] = none := by
      cases empty : tree.child [] with
      | none => rfl
      | some _ => exact absurd ⟨nested, by simp [held], by simp [empty]⟩ straight
    -- the node below the root makes the tree high enough for the second iteration
    obtain ⟨m, lower⟩ := height_succ delPNode
    have below := child_height held
    obtain ⟨fuel, rfl⟩ : ∃ m, fuel = m + 1 := ⟨fuel - 1, by omega⟩
    simp only [bind, Except.bind, deleteWalk_stops buckets absent, ite_self]

theorem deleteWalk_bare (bare : ¬ 0 < tree.childNodes.capacity) (fuel : Nat) (topic : Key)
    (delParent : List Key) (delTopic : Option Key) :
    ∃ fault, fault ≠ .endless ∧
      deleteWalk (fuel + 1) topic tree delParent delTopic = .error fault := by
  cases got : tree.childNodes.get (level topic) with
  | error fault =>
    refine ⟨fault, fun same => get_ends _ _ (same ▸ got), ?_⟩
    unfold deleteWalk
    rw [got]
    simp only [bind, Except.bind, ite_self]
  | ok found => exact absurd (capacity_of_get got) bare

/-- The last level is decided on at once. -/
theorem deleteWalk_plain (plain : separator ∉ topic) (fuel : Nat) (delParent : List Key)
    (delTopic : Option Key) :
    deleteWalk (fuel + 1) topic tree delParent delTopic ≠ .error .endless := by
  unfold deleteWalk
  rw [level_whole plain, if_pos rfl]
  cases got : tree.childNodes.get topic with
  | error fault =>
    intro same
    cases same
    exact get_ends _ _ got
  | ok found =>
    cases found with
    | none => exact nofun
    | some gnode =>
      simp only [bind, Except.bind]
      split
      · exact nofun
      · split <;> exact nofun

theorem deleteWalk_ends {fuel : Nat} (high : tree.height ≤ fuel) (straight : ¬ Circles topic tree) :
    deleteWalk fuel topic tree [] none ≠ .error .endless := by
  obtain ⟨n, height⟩ := height_succ tree
  obtain ⟨m, enough⟩ : ∃ m, fuel = m + 1 := ⟨fuel - 1, by omega⟩
  by_cases nested : separator ∈ topic
  · by_cases buckets : 0 < tree.childNodes.capacity
    · rw [deleteWalk_nested nested buckets straight high]
      exact nofun
    · obtain ⟨fault, other, faulted⟩ := deleteWalk_bare buckets m topic [] none
      rw [enough, faulted]
      intro same
      cases same
      exact other rfl
  · rw [enough]
    exact deleteWalk_plain nested m [] none

end Removal

theorem modifyAt_ends {f : Subscription → Outcome Subscription}
    (ends : ∀ curNode, f curNode ≠ .error .endless) (path : List Key) (tree : Subscription) :
    modifyAt f path tree ≠ .error .endless := by
  induction path generalizing tree with
  | nil => exact ends tree
  | cons key rest ih =>
    rw [modifyAt]
    cases got : tree.childNodes.get key with
    | error fault =>
      intro same
      cases same
      exact get_ends _ _ got
    | ok found =>
      cases found with
      | none => exact nofun
      | some below =>
        intro same
        simp only [bind, Except.bind] at same
        split at same
        · rename_i fault faulted
          cases same
          exact ih below faulted
        · cases same

/-- The removal ends wherever its walk does. -/
theorem deleteSub_ends_iff (topic : Key) (tree : Subscription) :
    deleteSub topic tree ≠ .error .endless ↔ ¬ Circles topic tree := by
  constructor
  · intro ends circles
    apply ends
    simp only [deleteSub, deleteWalk_endless circles, bind, Except.bind]
  · intro straight
    have walked := deleteWalk_ends (Nat.le_succ tree.height) straight
    unfold deleteSub
    simp only [bind, Except.bind]
    cases cut : deleteWalk (tree.height + 1) topic tree [] none with
    | error fault => simpa [cut] using walked
    | ok decided =>
      cases decided with
      | nothing => exact nofun
      | clear path => exact modifyAt_ends (fun _ => by simp) path tree
      | erase parent key =>
        refine modifyAt_ends (fun delParent same => ?_) parent tree
        split at same
        · rename_i fault faulted
          cases same
          exact erase_ends _ _ faulted
        · cases same

/-- The loops of a lookup and of a removal make no more iterations than the
tree has nodes on its longest branch, both calls end, and a lookup hands the
tree back as it was. -/
structure LoopsEnd (topic : Key) (tree : Subscription) : Prop where
  lookupLoop : ∀ fuel, tree.height ≤ fuel → isSubedToLoop fuel topic tree ≠ .error .endless
  lookup : isSubedTo topic tree ≠ .error .endless
  unchanged : ∀ fuel,
    isSubedToFrom fuel topic [] tree = (isSubedToLoop fuel topic tree).map (·, tree)
  removalLoop : ∀ fuel, tree.height ≤ fuel → deleteWalk fuel topic tree [] none ≠ .error .endless
  removal : deleteSub topic tree ≠ .error .endless

theorem loops_end_iff (tree : Subscription) (topic : Key) :
    LoopsEnd topic tree ↔ ¬ Circles topic tree := by
  constructor
  · exact fun ends => (deleteSub_ends_iff topic tree).mp ends.removal
  · exact fun straight =>
      { lookupLoop := fun _ high => isSubedToLoop_ends topic high
        lookup := lookup_ends topic tree
        unchanged := fun fuel => isSubedToFrom_eq fuel topic rfl
        removalLoop := fun _ high => deleteWalk_ends high straight
        removal := (deleteSub_ends_iff topic tree).mpr straight }

/-- The tree that subscribing to `/x` leaves behind when memory runs out below
the node of the empty level. -/
def halfTaken : Subscription := .node emptyQos ((leaf emptyQos).childNodes.appended [] (leaf emptyQos))

/-- On the tree left by a subscription to `/x`, unsubscribing from `/y` never
comes to an end. -/
theorem removal_never_ends :
    addSub 3 [separator, 0x78] 1 (leaf emptyQos) [true, true, true, false] =
      .ok (subErrorCode, halfTaken, []) ∧
    (∀ fuel, deleteWalk fuel [separator, 0x79] halfTaken [] none = .error .endless) ∧
    ¬ LoopsEnd [separator, 0x79] halfTaken := by
  have circles : Circles [separator, 0x79] halfTaken := ⟨List.mem_cons_self, rfl, rfl⟩
  exact ⟨rfl, fun fuel => deleteWalk_endless circles fuel [] none,
    fun ends => (deleteSub_ends_iff _ _).mp ends.removal circles⟩

/-! ### Subscribing -/

/-- One iteration of the loop of `add_sub`: the part of the topic it takes off,
and whether it makes a node for it. -/
structure Iteration where
  consumed : Key
  created : Bool
  deriving DecidableEq

/-- `add_sub` with a record of its iterations. -/
def addSubTraced : Nat → Key → UInt8 → Subscription → Heap →
    List Iteration × Outcome (UInt8 × Subscription × Heap)
  | 0, _, _, _, _ => ([], .error .endless)
  | fuel + 1, topic, qos, curNode, heap =>
    if topic.length = 0 then ([], .ok (qos, .node qos curNode.childNodes, heap))
    else
      match curNode.childNodes.get (level topic) with
      | .error fault => ([⟨level topic, false⟩], .error fault)
      | .ok (some tmp) =>
        let below := addSubTraced fuel (afterLevel topic) qos tmp heap
        (⟨level topic, false⟩ :: below.1, below.2.map fun below =>
          (below.1, .node curNode.maxQos (curNode.childNodes.rewritten (level topic) below.2.1),
            below.2.2))
      | .ok none =>
        if heap.alloc.1 then
          let fresh := new heap.alloc.2
          match curNode.childNodes.add (level topic) fresh.1 fresh.2 with
          | .error fault => ([⟨level topic, true⟩], .error fault)
          | .ok added =>
            match added.2.1.get (level topic) with
            | .error fault => ([⟨level topic, true⟩], .error fault)
            | .ok none =>
              ([⟨level topic, true⟩], .ok (subErrorCode, .node curNode.maxQos added.2.1, added.2.2))
            | .ok (some tmp) =>
              let below := addSubTraced fuel (afterLevel topic) qos tmp added.2.2
              (⟨level topic, true⟩ :: below.1, below.2.map fun below =>
                (below.1, .node curNode.maxQos (added.2.1.rewritten (level topic) below.2.1),
                  below.2.2))
        else ([⟨level topic, false⟩], .ok (subErrorCode, curNode, heap.alloc.2))

/-- The record changes nothing. -/
theorem addSubTraced_result (fuel : Nat) (topic : Key) (qos : UInt8) (curNode : Subscription)
    (heap : Heap) :
    (addSubTraced fuel topic qos curNode heap).2 = addSub fuel topic qos curNode heap := by
  induction fuel generalizing topic curNode heap with
  | zero => rfl
  | succ fuel ih =>
    rw [addSubTraced, addSub]
    by_cases done : topic.length = 0
    · rw [if_pos done, if_pos done]
    · rw [if_neg done, if_neg done]
      cases curNode.childNodes.get (level topic) with
      | error fault => rfl
      | ok found =>
        cases found with
        | some tmp => simp only [← ih, bind, Except.bind, Except.map]
        | none =>
          by_cases room : heap.alloc.1
          · simp only [if_pos room, bind, Except.bind]
            cases curNode.childNodes.add (level topic) (new heap.alloc.2).1 (new heap.alloc.2).2 with
            | error fault => rfl
            | ok added =>
              simp only
              cases added.2.1.get (level topic) with
              | error fault => rfl
              | ok found =>
                cases found with
                | none => rfl
                | some tmp => simp only [← ih, Except.map]
          · simp only [if_neg room, bind, Except.bind]

section Traced
variable {tree : Subscription} {topic : Key}

/-- The first iteration takes the first level off. -/
theorem first_level_consumed (named : topic ≠ []) (fuel : Nat) (qos : UInt8) (curNode : Subscription)
    (heap : Heap) :
    ∃ iteration ∈ (addSubTraced (fuel + 1) topic qos curNode heap).1, iteration.consumed = level topic := by
  have some : ¬ topic.length = 0 := fun zero => named (List.eq_nil_of_length_eq_zero zero)
  rw [addSubTraced, if_neg some]
  split
  · exact ⟨_, List.mem_singleton_self _, rfl⟩
  · exact ⟨_, List.mem_cons_self, rfl⟩
  · split
    · dsimp only
      split
      · exact ⟨_, List.mem_singleton_self _, rfl⟩
      · split
        · exact ⟨_, List.mem_singleton_self _, rfl⟩
        · exact ⟨_, List.mem_singleton_self _, rfl⟩
        · exact ⟨_, List.mem_cons_self, rfl⟩
    · exact ⟨_, List.mem_singleton_self _, rfl⟩

/-- What is left of a topic after its first level begins with the separator,
from which the next iteration takes nothing off. -/
theorem nothing_consumed (nested : separator ∈ topic) {fuel : Nat} {qos : UInt8}
    {curNode : Subscription} {heap : Heap} {result : UInt8 × Subscription × Heap}
    (ended : addSub fuel (afterLevel topic) qos curNode heap = .ok result) :
    ∃ iteration ∈ (addSubTraced fuel (afterLevel topic) qos curNode heap).1, iteration.consumed = [] := by
  obtain ⟨rest, shape⟩ := afterLevel_separator nested
  rw [shape] at ended ⊢
  cases fuel with
  | zero => cases ended
  | succ fuel =>
    have first := first_level_consumed (List.cons_ne_nil separator rest) fuel qos curNode heap
    rwa [level_cons_separator] at first

theorem levels_nonempty (topic : Key) : 0 < (levels topic).length :=
  List.length_pos_of_ne_nil (List.splitOn_ne_nil _ _)

/-! One iteration, by what stands under the root for the first level. -/

theorem traced_present (named : topic ≠ []) {tmp : Subscription}
    (held : tree.child (level topic) = some tmp) (buckets : 0 < tree.childNodes.capacity) (fuel : Nat)
    (qos : UInt8) :
    addSubTraced (fuel + 1) topic qos tree [] =
      let below := addSubTraced fuel (afterLevel topic) qos tmp []
      (⟨level topic, false⟩ :: below.1, below.2.map fun below =>
        (below.1, .node tree.maxQos (tree.childNodes.rewritten (level topic) below.2.1), below.2.2)) := by
  have some : ¬ topic.length = 0 := fun zero => named (List.eq_nil_of_length_eq_zero zero)
  rw [addSubTraced, if_neg some, get_child buckets, held]

theorem traced_dropped (named : topic ≠ []) (absent : tree.child (level topic) = none)
    (buckets : 0 < tree.childNodes.capacity) (unsized : tree.childNodes.size = 0)
    (crowded : tree.childNodes.Crowded (level topic)) (fuel : Nat) (qos : UInt8) :
    addSubTraced (fuel + 1) topic qos tree [] =
      ([⟨level topic, true⟩], .ok (subErrorCode, .node tree.maxQos tree.childNodes.emptied, [])) := by
  have some : ¬ topic.length = 0 := fun zero => named (List.eq_nil_of_length_eq_zero zero)
  rw [addSubTraced, if_neg some, get_child buckets, absent]
  simp [new_eq, add_crowded buckets unsized crowded, emptied_get buckets crowded]

theorem traced_appended (named : topic ≠ []) (absent : tree.child (level topic) = none)
    (buckets : 0 < tree.childNodes.capacity) (roomy : ¬ tree.childNodes.Crowded (level topic))
    (fuel : Nat) (qos : UInt8) :
    addSubTraced (fuel + 1) topic qos tree [] =
      let below := addSubTraced fuel (afterLevel topic) qos (leaf emptyQos) []
      (⟨level topic, true⟩ :: below.1, below.2.map fun below =>
        (below.1, .node tree.maxQos
          ((tree.childNodes.appended (level topic) (leaf emptyQos)).rewritten (level topic) below.2.1),
          below.2.2)) := by
  have some : ¬ topic.length = 0 := fun zero => named (List.eq_nil_of_length_eq_zero zero)
  have got : (tree.childNodes.appended (level topic) (leaf emptyQos)).get (level topic) =
      .ok (.some (leaf emptyQos)) := appended_get buckets (Option.map_eq_none_iff.mp absent)
  rw [addSubTraced, if_neg some, get_child buckets, absent]
  simp only [new_eq, add_roomy buckets roomy, got, Heap.alloc_nil, if_true]

end Traced

/-- Every allocation succeeding, the loop ends, with an iteration and a new
node for each level at most, and takes a part of the topic off each time. -/
def OnePerLevel (topic : Key) (qos : UInt8) (tree : Subscription) : Prop :=
  ∃ fuel result, addSub fuel topic qos tree [] = .ok result ∧
    let iterations := (addSubTraced fuel topic qos tree []).1
    iterations.length ≤ (levels topic).length ∧
    (iterations.filter Iteration.created).length ≤ (levels topic).length ∧
    ∀ iteration ∈ iterations, iteration.consumed ≠ []

/-- The topic is one level, or its first level stays without a node because
adding one empties the table of the root. -/
def TakenWhole (topic : Key) (tree : Subscription) : Prop :=
  topic = [] ∨ 0 < tree.childNodes.capacity ∧ (separator ∉ topic ∨
    level topic ≠ [] ∧ tree.child (level topic) = none ∧ tree.childNodes.Crowded (level topic))

section
variable {tree : Subscription} {topic : Key}

/-- A topic with a separator is taken in only as far as its first level, and
only where the node for that level is lost on the way in. -/
theorem taken_of_one_per_level {qos : UInt8} (whole : OnePerLevel topic qos tree) :
    TakenWhole topic tree := by
  obtain ⟨fuel, result, ended, -, -, consumed⟩ := whole
  by_cases named : topic = []
  · exact .inl named
  have buckets := capacity_of_addSub named ended
  refine .inr ⟨buckets, ?_⟩
  by_cases plain : separator ∉ topic
  · exact .inl plain
  have nested : separator ∈ topic := not_not.mp plain
  right
  cases fuel with
  | zero => cases ended
  | succ fuel =>
    rw [← addSubTraced_result] at ended
    have stuck : ∀ below : List Iteration, (∀ iteration ∈ below, iteration.consumed ≠ []) →
        ¬ ∃ iteration ∈ below, iteration.consumed = [] :=
      fun below all some => some.elim fun iteration holds => all iteration holds.1 holds.2
    cases held : tree.child (level topic) with
    | some tmp =>
      rw [traced_present named held buckets] at ended consumed
      obtain ⟨below, endedBelow⟩ := of_map_ok ended
      rw [addSubTraced_result] at endedBelow
      exact absurd (nothing_consumed nested endedBelow)
        (stuck _ fun iteration inside => consumed iteration (List.mem_cons_of_mem _ inside))
    | none =>
      by_cases crowded : tree.childNodes.Crowded (level topic)
      · obtain ⟨iteration, inside, first⟩ := first_level_consumed named fuel qos tree []
        exact ⟨first ▸ consumed iteration inside, rfl, crowded⟩
      · rw [traced_appended named held buckets crowded] at ended consumed
        obtain ⟨below, endedBelow⟩ := of_map_ok ended
        rw [addSubTraced_result] at endedBelow
        exact absurd (nothing_consumed nested endedBelow)
          (stuck _ fun iteration inside => consumed iteration (List.mem_cons_of_mem _ inside))

theorem one_per_level_of_taken (unsized : tree.childNodes.size = 0) (qos : UInt8)
    (taken : TakenWhole topic tree) : OnePerLevel topic qos tree := by
  have some := levels_nonempty topic
  by_cases named : topic = []
  · subst named
    exact ⟨1, _, rfl, by simp [addSubTraced], by simp [addSubTraced], by simp [addSubTraced]⟩
  obtain ⟨buckets, ways⟩ := taken.resolve_left named
  have consumes : level topic ≠ [] := by
    rcases ways with plain | ⟨nonempty, -⟩
    · rwa [level_whole plain]
    · exact nonempty
  have once : ∀ (fuel : Nat) (created : Bool) (result : UInt8 × Subscription × Heap),
      addSubTraced fuel topic qos tree [] = ([⟨level topic, created⟩], .ok result) →
      OnePerLevel topic qos tree := by
    intro fuel created result traced
    refine ⟨fuel, result, ?_, ?_⟩
    · rw [← addSubTraced_result, traced]
    · rw [traced]
      refine ⟨some, ?_, fun iteration inside => ?_⟩
      · exact Nat.le_trans (List.length_filter_le _ _) some
      · obtain rfl := List.mem_singleton.mp inside
        exact consumes
  by_cases lost : tree.child (level topic) = none ∧ tree.childNodes.Crowded (level topic)
  · exact once 1 true _ (traced_dropped named lost.1 buckets unsized lost.2 0 qos)
  have plain : separator ∉ topic := by
    rcases ways with plain | ⟨-, absent, crowded⟩
    · exact plain
    · exact absurd ⟨absent, crowded⟩ lost
  have ends : ∀ curNode, addSubTraced 1 (afterLevel topic) qos curNode [] =
      ([], .ok (qos, .node qos curNode.childNodes, [])) := by
    intro curNode
    rw [afterLevel_whole plain]
    rfl
  cases held : tree.child (level topic) with
  | some tmp =>
    apply once 2 false
    rw [traced_present named held buckets, ends]
    rfl
  | none =>
    have roomy : ¬ tree.childNodes.Crowded (level topic) := fun crowded => lost ⟨held, crowded⟩
    apply once 2 true
    rw [traced_appended named held buckets roomy, ends]
    rfl

/-- A vector of buckets only ever has storage reserved, so its `size` is zero. -/
theorem one_per_level_iff (unsized : tree.childNodes.size = 0) (topic : Key) (qos : UInt8) :
    OnePerLevel topic qos tree ↔ TakenWhole topic tree :=
  ⟨taken_of_one_per_level, one_per_level_of_taken unsized qos⟩

theorem one_level_taken : OnePerLevel [97] 1 (leaf emptyQos) :=
  (one_per_level_iff rfl [97] 1).mpr (.inr ⟨by decide, .inl (by decide)⟩)

/-- The first level of `a/b` is taken in and the separator after it never. -/
theorem second_level_never_reached : ¬ OnePerLevel [97, separator, 98] 1 (leaf emptyQos) := by
  rintro ⟨fuel, result, ended, -⟩
  rw [← addSubTraced_result] at ended
  cases fuel with
  | zero => cases ended
  | succ fuel =>
    have first : (leaf emptyQos).child (level [97, separator, 98]) = none := rfl
    have rest : afterLevel [97, separator, 98] = [separator, 98] := by decide
    rw [traced_appended (List.cons_ne_nil _ _) first Nat.one_pos fun crowded => crowded.1 rfl] at ended
    obtain ⟨below, endedBelow⟩ := of_map_ok ended
    rw [addSubTraced_result, rest, leaf_endless] at endedBelow
    cases endedBelow

end

end MqttBroker.Subscription
