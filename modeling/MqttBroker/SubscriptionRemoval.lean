import MqttBroker.MyhashmapContents
import MqttBroker.SubscriptionTables
import MqttBroker.SubscriptionTermination

/-! Removal, against the tree as a map from paths of levels to QoS. The walk
stays at the root and in front of the first separator: for a topic with one it
decides nothing, where it ends at all, and for a topic without one it takes the
node below the root for granted. -/
namespace MqttBroker.Subscription
open Myhashmap

/-- Every leaf below the root carries a QoS. -/
def LeavesGranted (tree : Subscription) : Prop :=
  ∀ path curNode, path ≠ [] → nodeAt path tree = some curNode → curNode.childNodes.nodes = [] →
    curNode.maxQos ≠ emptyQos

/-- `delete_sub` of a topic with a path takes its QoS away and no other, and
leaves no dead branch; of a topic without one it returns with the tree as it
was. -/
def PrunesExactly (topic : Key) (tree : Subscription) : Prop :=
  if (nodeAt (levels topic) tree).isSome then
    ∃ after, deleteSub topic tree = .ok after ∧ qosAt (levels topic) after = emptyQos ∧
      (∀ path, path ≠ levels topic → qosAt path after = qosAt path tree) ∧ LeavesGranted after
  else deleteSub topic tree = .ok tree

/-- A topic of one level has a node below the root, which has children if its
count says so. For a longer topic the root has a bucket and not both nodes the
walk would circle on, and the topic is not subscribed. -/
def Prunable (topic : Key) (tree : Subscription) : Prop :=
  (separator ∉ topic ∧ ∃ gnode, tree.child topic = some gnode ∧
    (gnode.childNodes.count > 0 → gnode.childNodes.nodes ≠ [])) ∨
  (separator ∈ topic ∧ 0 < tree.childNodes.capacity ∧ ¬ Circles topic tree ∧
    qosAt (levels topic) tree = emptyQos)

section Removal
variable {tree after gnode : Subscription} {topic : Key}

theorem levels_whole (plain : separator ∉ topic) : levels topic = [topic] := by
  apply List.splitOnP_eq_singleton
  intro byte member
  simpa using fun same : byte = separator => plain (same ▸ member)

/-! ### Topics with a separator -/

theorem deleteSub_nested (nested : separator ∈ topic) (buckets : 0 < tree.childNodes.capacity)
    (straight : ¬ Circles topic tree) : deleteSub topic tree = .ok tree := by
  have walked := deleteWalk_nested nested buckets straight (Nat.le_succ tree.height) [] none
  simp only [deleteSub, walked, bind, Except.bind]

theorem deleteSub_circles (circles : Circles topic tree) : deleteSub topic tree = .error .endless := by
  simp only [deleteSub, deleteWalk_endless circles, bind, Except.bind]

theorem deleteSub_bare (bare : ¬ 0 < tree.childNodes.capacity) :
    ∃ fault, deleteSub topic tree = .error fault := by
  obtain ⟨fault, -, walked⟩ := deleteWalk_bare bare tree.height topic [] none
  exact ⟨fault, by simp only [deleteSub, walked, bind, Except.bind]⟩

/-! ### Topics of one level -/

/-- A last level without a node is read all the same. -/
theorem deleteSub_absent (buckets : 0 < tree.childNodes.capacity) (plain : separator ∉ topic)
    (absent : tree.child topic = none) : deleteSub topic tree = .error .nullDeref := by
  have walked : deleteWalk (tree.height + 1) topic tree [] none = .error .nullDeref := by
    unfold deleteWalk
    rw [level_whole plain, if_pos rfl, get_child buckets, absent]
    rfl
  simp only [deleteSub, walked, bind, Except.bind]

theorem deleteSub_parent (plain : separator ∉ topic) (held : tree.child topic = some gnode)
    (counted : gnode.childNodes.count > 0) :
    deleteSub topic tree = .ok (.node tree.maxQos
      (tree.childNodes.rewritten topic (.node emptyQos gnode.childNodes))) := by
  have buckets := capacity_of_child held
  have walked : deleteWalk (tree.height + 1) topic tree [] none = .ok (.clear [topic]) := by
    unfold deleteWalk
    rw [level_whole plain, if_pos rfl, get_child buckets, held]
    simp only [bind, Except.bind, if_pos counted]
  simp only [deleteSub, walked, modifyAt, get_child buckets, held, bind, Except.bind]

theorem deleteSub_leaf (plain : separator ∉ topic)
    (held : tree.child topic = some gnode) (counted : ¬ gnode.childNodes.count > 0) :
    ∃ rest, unlink topic (tree.childNodes.bucket topic) = some rest ∧
      deleteSub topic tree = .ok (.node tree.maxQos (tree.childNodes.removed topic rest)) := by
  have buckets := capacity_of_child held
  obtain ⟨entry, found, -⟩ := Option.map_eq_some_iff.mp held
  obtain ⟨rest, unlinked, erased⟩ := erase_found buckets found
  refine ⟨rest, unlinked, ?_⟩
  have walked : deleteWalk (tree.height + 1) topic tree [] none = .ok (.erase [] topic) := by
    unfold deleteWalk
    rw [level_whole plain, if_pos rfl, get_child buckets, held]
    simp only [bind, Except.bind, if_neg counted]
  simp only [deleteSub, walked, modifyAt, erased, bind, Except.bind]

/-- Writing the QoS of a node below the root changes that of its path only. -/
theorem nodeAt_rewritten (held : tree.child topic = some gnode) (qos : UInt8) (key : Key)
    (rest : List Key) :
    nodeAt (key :: rest) (.node tree.maxQos
      (tree.childNodes.rewritten topic (.node qos gnode.childNodes))) =
      if key = topic then nodeAt rest (.node qos gnode.childNodes) else nodeAt (key :: rest) tree := by
  rw [nodeAt, child_rewritten (capacity_of_child held), held]
  split <;> rfl

theorem nodeAt_removed (sound : Sound tree) (held : tree.child topic = some gnode)
    {chain : List (Node Subscription)}
    (unlinked : unlink topic (tree.childNodes.bucket topic) = some chain) (key : Key)
    (rest : List Key) :
    nodeAt (key :: rest) (.node tree.maxQos (tree.childNodes.removed topic chain)) =
      if key = topic then none else nodeAt (key :: rest) tree := by
  rw [nodeAt, child_removed (capacity_of_child held) _ _ _ (sound.table.distinct topic) unlinked]
  split <;> rfl

theorem child_of_no_nodes {key : Key} (empty : gnode.childNodes.nodes = []) : gnode.child key = none := by
  cases held : gnode.child key with
  | none => rfl
  | some below =>
    obtain ⟨entry, found, -⟩ := Option.map_eq_some_iff.mp held
    have inside := mem_nodes_of_bucket (List.mem_of_find?_eq_some found)
    rw [empty] at inside
    cases inside

theorem nodeAt_level (held : tree.child topic = some gnode) : nodeAt [topic] tree = some gnode := by
  rw [nodeAt, held]
  rfl

/-- A node with children keeps its place and loses its QoS. -/
theorem deleteSub_parent_prunes (granted : LeavesGranted tree) (plain : separator ∉ topic)
    (held : tree.child topic = some gnode) (counted : gnode.childNodes.count > 0)
    (children : gnode.childNodes.nodes ≠ []) :
    ∃ after, deleteSub topic tree = .ok after ∧ qosAt (levels topic) after = emptyQos ∧
      (∀ path, path ≠ levels topic → qosAt path after = qosAt path tree) ∧ LeavesGranted after := by
  refine ⟨_, deleteSub_parent plain held counted, ?_, fun path other => ?_, ?_⟩
  · rw [levels_whole plain, qosAt, nodeAt_rewritten held, if_pos rfl]
    rfl
  · rw [levels_whole plain] at other
    cases path with
    | nil => rfl
    | cons key rest =>
      rw [qosAt, qosAt, nodeAt_rewritten held]
      by_cases same : key = topic
      · subst same
        cases rest with
        | nil => exact absurd rfl other
        | cons next rest =>
          rw [if_pos rfl, nodeAt, nodeAt, held]
          rfl
      · rw [if_neg same]
  · intro path curNode below there leaf
    cases path with
    | nil => exact absurd rfl below
    | cons key rest =>
      rw [nodeAt_rewritten held] at there
      by_cases same : key = topic
      · subst same
        rw [if_pos rfl] at there
        cases rest with
        | nil =>
          cases there
          exact absurd leaf children
        | cons next rest =>
          apply granted (key :: next :: rest) curNode below ?_ leaf
          rw [nodeAt, held]
          exact there
      · rw [if_neg same] at there
        exact granted _ curNode below there leaf

/-- A node without children goes. -/
theorem deleteSub_leaf_prunes (sound : Sound tree) (granted : LeavesGranted tree)
    (plain : separator ∉ topic) (held : tree.child topic = some gnode)
    (counted : ¬ gnode.childNodes.count > 0) :
    ∃ after, deleteSub topic tree = .ok after ∧ qosAt (levels topic) after = emptyQos ∧
      (∀ path, path ≠ levels topic → qosAt path after = qosAt path tree) ∧ LeavesGranted after := by
  obtain ⟨chain, unlinked, deleted⟩ := deleteSub_leaf plain held counted
  have childless : gnode.childNodes.nodes = [] := by
    have bound := (sound.child held).table.counted
    exact List.eq_nil_of_length_eq_zero (by omega)
  refine ⟨_, deleted, ?_, fun path other => ?_, ?_⟩
  · rw [levels_whole plain, qosAt, nodeAt_removed sound held unlinked, if_pos rfl]
    rfl
  · rw [levels_whole plain] at other
    cases path with
    | nil => rfl
    | cons key rest =>
      rw [qosAt, qosAt, nodeAt_removed sound held unlinked]
      by_cases same : key = topic
      · subst same
        cases rest with
        | nil => exact absurd rfl other
        | cons next rest =>
          rw [if_pos rfl, nodeAt, held, Option.bind_some, nodeAt, child_of_no_nodes childless]
          rfl
      · rw [if_neg same]
  · intro path curNode below there leaf
    cases path with
    | nil => exact absurd rfl below
    | cons key rest =>
      rw [nodeAt_removed sound held unlinked] at there
      by_cases same : key = topic
      · rw [if_pos same] at there
        cases there
      · rw [if_neg same] at there
        exact granted _ curNode below there leaf

/-- A leaf whose count is too high is not taken for one, and stays. -/
theorem deleteSub_keeps_leaf (plain : separator ∉ topic) (held : tree.child topic = some gnode)
    (counted : gnode.childNodes.count > 0) (childless : gnode.childNodes.nodes = [])
    (deleted : deleteSub topic tree = .ok after) : ¬ LeavesGranted after := by
  rw [deleteSub_parent plain held counted] at deleted
  cases deleted
  intro granted
  apply granted [topic] (.node emptyQos gnode.childNodes) (List.cons_ne_nil _ _) ?_ childless rfl
  rw [nodeAt_rewritten held, if_pos rfl]
  rfl

end Removal

/-- A removal that does not end, or faults, prunes nothing. -/
theorem not_prunes_of_error {tree : Subscription} {topic : Key} {fault : Fault}
    (faulted : deleteSub topic tree = .error fault) : ¬ PrunesExactly topic tree := by
  unfold PrunesExactly
  rw [faulted]
  split
  · rintro ⟨after, same, -⟩
    cases same
  · intro wrong
    cases wrong

theorem prunes_nested_iff {tree : Subscription} {topic : Key} (granted : LeavesGranted tree)
    (nested : separator ∈ topic) :
    PrunesExactly topic tree ↔ 0 < tree.childNodes.capacity ∧ ¬ Circles topic tree ∧
      qosAt (levels topic) tree = emptyQos := by
  by_cases buckets : 0 < tree.childNodes.capacity
  · by_cases circles : Circles topic tree
    · have stuck := not_prunes_of_error (deleteSub_circles circles)
      exact ⟨fun prunes => absurd prunes stuck, fun holds => absurd circles holds.2.1⟩
    · unfold PrunesExactly
      rw [deleteSub_nested nested buckets circles]
      split
      · constructor
        · rintro ⟨after, same, gone, -⟩
          cases same
          exact ⟨buckets, circles, gone⟩
        · exact fun holds => ⟨tree, rfl, holds.2.2, fun _ _ => rfl, granted⟩
      · rename_i missing
        have none : nodeAt (levels topic) tree = none := by simpa using missing
        exact ⟨fun _ => ⟨buckets, circles, by rw [qosAt, none]; rfl⟩, fun _ => rfl⟩
  · obtain ⟨fault, faulted⟩ := (deleteSub_bare buckets : ∃ fault, deleteSub topic tree = .error fault)
    exact ⟨fun prunes => absurd prunes (not_prunes_of_error faulted),
      fun holds => absurd holds.1 buckets⟩

theorem prunes_level_iff {tree : Subscription} {topic : Key} (sound : Sound tree)
    (granted : LeavesGranted tree) (plain : separator ∉ topic) :
    PrunesExactly topic tree ↔ ∃ gnode, tree.child topic = some gnode ∧
      (gnode.childNodes.count > 0 → gnode.childNodes.nodes ≠ []) := by
  unfold PrunesExactly
  cases held : tree.child topic with
  | none =>
    have faulted : ∃ fault, deleteSub topic tree = .error fault := by
      by_cases buckets : 0 < tree.childNodes.capacity
      · exact ⟨_, deleteSub_absent buckets plain held⟩
      · exact deleteSub_bare buckets
    obtain ⟨fault, faulted⟩ := faulted
    have missing : nodeAt (levels topic) tree = none := by
      rw [levels_whole plain, nodeAt, held]
      rfl
    rw [missing, faulted]
    constructor
    · intro wrong
      cases wrong
    · rintro ⟨_, ⟨⟩, -⟩
  | some gnode =>
    have there : (nodeAt (levels topic) tree).isSome := by
      rw [levels_whole plain, nodeAt_level held]
      rfl
    rw [if_pos there]
    constructor
    · rintro ⟨after, deleted, -, -, leaves⟩
      exact ⟨gnode, rfl, fun counted childless =>
        deleteSub_keeps_leaf plain held counted childless deleted leaves⟩
    · rintro ⟨_, ⟨⟩, children⟩
      by_cases counted : gnode.childNodes.count > 0
      · exact deleteSub_parent_prunes granted plain held counted (children counted)
      · exact deleteSub_leaf_prunes sound granted plain held counted

theorem prunes_exactly_iff {tree : Subscription} (sound : Sound tree) (granted : LeavesGranted tree)
    (topic : Key) : PrunesExactly topic tree ↔ Prunable topic tree := by
  unfold Prunable
  by_cases nested : separator ∈ topic
  · rw [prunes_nested_iff granted nested]
    exact ⟨fun holds => .inr ⟨nested, holds⟩, fun ways => ways.elim
      (fun level => absurd nested level.1) (fun walk => walk.2)⟩
  · rw [prunes_level_iff sound granted nested]
    exact ⟨fun holds => .inl ⟨nested, holds⟩, fun ways => ways.elim
      (fun level => level.2) (fun walk => absurd walk.1 nested)⟩

/-- The tree with `a` subscribed. -/
def oneLevel : Subscription :=
  .node emptyQos ((leaf emptyQos).childNodes.appended [97] (leaf 1))

theorem child_oneLevel (key : Key) :
    oneLevel.child key = if key = [97] then some (leaf 1) else none := by
  have buckets : 0 < (leaf emptyQos).childNodes.capacity := Nat.one_pos
  rw [oneLevel, child_appended buckets, leaf_child, Option.none_or]

theorem level_pruned : PrunesExactly [97] oneLevel := by
  have sound : Sound oneLevel := (leaf_sound emptyQos).appended Nat.one_pos rfl (leaf_sound 1)
  have granted : LeavesGranted oneLevel := by
    intro path curNode below there childless
    cases path with
    | nil => exact absurd rfl below
    | cons key rest =>
      obtain ⟨next, held, deeper⟩ := Option.bind_eq_some_iff.mp there
      rw [child_oneLevel] at held
      split at held
      · cases held
        cases rest with
        | nil =>
          cases deeper
          decide
        | cons other rest =>
          rw [nodeAt, leaf_child] at deeper
          cases deeper
      · cases held
  have leafHeld : oneLevel.child [97] = some (leaf 1) := by rw [child_oneLevel, if_pos rfl]
  exact (prunes_exactly_iff sound granted [97]).mpr
    (.inl ⟨by decide, leaf 1, leafHeld, fun counted => absurd counted (by decide)⟩)

/-- Unsubscribing from a topic without a node in an empty tree. -/
theorem missing_level_dereferences_null :
    LeavesGranted (leaf emptyQos) ∧ deleteSub [97] (leaf emptyQos) = .error .nullDeref ∧
      ¬ PrunesExactly [97] (leaf emptyQos) := by
  have deleted : deleteSub [97] (leaf emptyQos) = .error .nullDeref := rfl
  have missing : nodeAt (levels [97]) (leaf emptyQos) = none := rfl
  refine ⟨fun path curNode below there => ?_, deleted, ?_⟩
  · cases path with
    | nil => exact absurd rfl below
    | cons key rest =>
      rw [nodeAt, leaf_child] at there
      cases there
  · rw [PrunesExactly, missing, deleted]
    intro wrong
    cases wrong

end MqttBroker.Subscription
