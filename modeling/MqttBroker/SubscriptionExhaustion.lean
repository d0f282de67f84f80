import Mathlib.Logic.Relation
import MqttBroker.SubscriptionRemoval

/-! Subscribing with allocations that fail. The node, its map node and the key
copy are answered with an error; a failed array of buckets in the constructor
of the node is not noticed, and the node then has no bucket for the calls that
come later. -/
namespace MqttBroker.Subscription
open Myhashmap

/-- A node made where the array of its buckets was, or was not, allocated. -/
def fresh : Bool → Subscription
  | true => leaf emptyQos
  | false => .node emptyQos {}

/-- What the allocations of one level come to. -/
inductive Admission
  /-- No memory for the node, its map node or the copy of its key. -/
  | refused
  /-- The table is grown, which loses every node of it. -/
  | dropped
  /-- The new node is in the table, with its bucket or without. -/
  | stored (buckets : Bool) (rest : Heap)

/-- The allocations of one level in the order the code makes them: the node,
its bucket, the map node, the copy of a key that is not empty, and the new
buckets where the table is crowded. -/
def admission (crowded : Prop) [Decidable crowded] (key : Key) (heap : Heap) : Admission :=
  if heap.alloc.1 then
    let buckets := heap.alloc.2.alloc
    let mapNode := buckets.2.alloc
    if mapNode.1 then
      let copy := if key.length = 0 then (true, mapNode.2) else mapNode.2.alloc
      if copy.1 then
        if crowded then
          if copy.2.alloc.1 then .dropped else .stored buckets.1 copy.2.alloc.2
        else .stored buckets.1 copy.2
      else .refused
    else .refused
  else .refused

instance (m : Myhashmap α) (key : Key) : Decidable (m.Crowded key) :=
  inferInstanceAs (Decidable (_ ∧ _))

/-- The admission of a level below a node. -/
def admissionAt (curNode : Subscription) (key : Key) (heap : Heap) : Admission :=
  admission (curNode.childNodes.Crowded key) key heap

theorem new_fresh (heap : Heap) : new heap = (fresh heap.alloc.1, heap.alloc.2) := by
  unfold new Myhashmap.ofCapacity
  cases heap.alloc.1 <;> rfl

/-- What `add` does with the node of a level, the node itself being allocated. -/
inductive Adds (m : Myhashmap Subscription) (key : Key) : Admission → Bool × Myhashmap Subscription × Heap → Prop
  | refused (heap : Heap) : Adds m key .refused (false, m, heap)
  | dropped (heap : Heap) : m.Crowded key → Adds m key .dropped (true, m.emptied, heap)
  | stored (buckets : Bool) (rest : Heap) :
    Adds m key (.stored buckets rest) (true, m.appended key (fresh buckets), rest)

theorem ofRange_copy (key : Key) (heap : Heap) :
    ((Myvector.ofRange key heap).1.size = key.length ↔
      (if key.length = 0 then (true, heap) else heap.alloc).1 = true) ∧
    (Myvector.ofRange key heap).2 = (if key.length = 0 then (true, heap) else heap.alloc).2 := by
  unfold Myvector.ofRange Myvector.size
  by_cases empty : key.length = 0
  · rw [if_pos empty, if_pos empty]
    exact ⟨by simp [empty], rfl⟩
  · rw [if_neg empty, if_neg empty]
    cases heap.alloc.1
    · exact ⟨by simpa using Ne.symm empty, rfl⟩
    · exact ⟨by simp, rfl⟩

theorem add_admits {m : Myhashmap Subscription} (buckets : 0 < m.capacity) (unsized : m.size = 0)
    (key : Key) {heap : Heap} (room : heap.alloc.1 = true) :
    ∃ added, m.add key (new heap.alloc.2).1 (new heap.alloc.2).2 = .ok added ∧
      Adds m key (admission (m.Crowded key) key heap) added := by
  rw [new_fresh]
  generalize made : heap.alloc.2.alloc = bucket
  simp only [admission, room, if_true, made, add, index_eq buckets, chain_eq buckets, bind, Except.bind]
  cases mapNode : bucket.2.alloc.1 with
  | false => exact ⟨_, rfl, .refused _⟩
  | true =>
    obtain ⟨copies, after⟩ := ofRange_copy key bucket.2.alloc.2
    simp only [if_true, ← after]
    by_cases copied : (Myvector.ofRange key bucket.2.alloc.2).1.size = key.length
    · rw [if_neg (not_not.mpr copied), if_pos (copies.mp copied), of_range_size key _ copied]
      by_cases crowded : m.Crowded key
      · have grows : m.bucket key ≠ [] ∧ m.count + 1 > m.capacity * rehashSizeTimes := crowded
        rw [if_pos grows, if_pos crowded, rehash_empties (by exact unsized)]
        cases grown : (Myvector.ofRange key bucket.2.alloc.2).2.alloc.1 with
        | true => exact ⟨_, rfl, .dropped _ crowded⟩
        | false => exact ⟨_, rfl, .stored _ _⟩
      · have stays : ¬ (m.bucket key ≠ [] ∧ m.count + 1 > m.capacity * rehashSizeTimes) := crowded
        rw [if_neg stays, if_neg crowded]
        exact ⟨_, rfl, .stored _ _⟩
    · rw [if_pos copied, if_neg (fun copy => copied (copies.mpr copy))]
      exact ⟨_, rfl, .refused _⟩

/-! ### One iteration -/

section Iterations
variable {curNode tmp : Subscription} {topic : Key} {heap rest : Heap}

theorem addSub_present (named : topic ≠ []) (held : curNode.child (level topic) = some tmp)
    (fuel : Nat) (qos : UInt8) (heap : Heap) :
    addSub (fuel + 1) topic qos curNode heap =
      (addSub fuel (afterLevel topic) qos tmp heap).map fun below =>
        (below.1, .node curNode.maxQos (curNode.childNodes.rewritten (level topic) below.2.1),
          below.2.2) := by
  have some : ¬ topic.length = 0 := fun zero => named (List.eq_nil_of_length_eq_zero zero)
  rw [addSub, if_neg some, get_child (capacity_of_child held), held]
  rfl

theorem addSub_absent (named : topic ≠ []) (absent : curNode.child (level topic) = none)
    (buckets : 0 < curNode.childNodes.capacity) (unsized : curNode.childNodes.size = 0) (fuel : Nat)
    (qos : UInt8) (heap : Heap) :
    match admissionAt curNode (level topic) heap with
    | .refused => ∃ after, addSub (fuel + 1) topic qos curNode heap = .ok (subErrorCode, curNode, after)
    | .dropped => ∃ after, addSub (fuel + 1) topic qos curNode heap =
        .ok (subErrorCode, .node curNode.maxQos curNode.childNodes.emptied, after)
    | .stored made rest => addSub (fuel + 1) topic qos curNode heap =
        (addSub fuel (afterLevel topic) qos (fresh made) rest).map fun below =>
          (below.1, .node curNode.maxQos ((curNode.childNodes.appended (level topic) (fresh made)).rewritten
            (level topic) below.2.1), below.2.2) := by
  have some : ¬ topic.length = 0 := fun zero => named (List.eq_nil_of_length_eq_zero zero)
  have whole : Subscription.node curNode.maxQos curNode.childNodes = curNode := by cases curNode; rfl
  have missing : curNode.childNodes.get (level topic) = .ok none := by rw [get_child buckets, absent]
  rw [addSub, if_neg some, missing]
  simp only [bind, Except.bind]
  by_cases room : heap.alloc.1 = true
  · obtain ⟨added, ended, adds⟩ := add_admits buckets unsized (level topic) room
    rw [if_pos room, ended, admissionAt]
    generalize admission (curNode.childNodes.Crowded (level topic)) (level topic) heap = admitted at adds
    cases adds with
    | refused after =>
      refine ⟨after, ?_⟩
      simp only [missing, whole]
    | dropped after crowded =>
      refine ⟨after, ?_⟩
      simp only [emptied_get buckets crowded]
    | stored made rest =>
      simp only [appended_get buckets (Option.map_eq_none_iff.mp absent)]
      rfl
  · rw [admissionAt, admission, if_neg room]
    exact ⟨heap.alloc.2, by rw [if_neg room]⟩

end Iterations

/-! ### Later calls -/

/-- A later call on the tree, its allocations succeeding. -/
inductive Call
  | addSub (topic : Key) (qos : UInt8)
  | isSubedTo (topic : Key)
  | deleteSub (topic : Key)

/-- The tree after a call; `fuel` bounds the loop of `add_sub`. -/
def Call.run (fuel : Nat) (tree : Subscription) : Call → Outcome Subscription
  | .addSub topic qos => (Subscription.addSub fuel topic qos tree []).map fun result => result.2.1
  | .isSubedTo topic => (Subscription.isSubedTo topic tree).map fun _ => tree
  | .deleteSub topic => Subscription.deleteSub topic tree

/-- The trees that calls lead to. -/
def Later : Subscription → Subscription → Prop :=
  Relation.ReflTransGen fun tree after => ∃ (call : Call) (fuel : Nat), call.run fuel tree = .ok after

/-- No later call takes a hash modulo a zero capacity or indexes buckets that
are not there. -/
def Safe (tree : Subscription) : Prop :=
  ∀ after, Later tree after → ∀ (call : Call) (fuel : Nat) (fault : Fault),
    call.run fuel after = .error fault → fault ≠ .divideByZero ∧ fault ≠ .outOfBounds

/-- The root has a bucket, and so has every node that a topic leads to. -/
def Ready (tree : Subscription) : Prop :=
  0 < tree.childNodes.capacity ∧
    ∀ key below, separator ∉ key → tree.child key = some below → Bucketed below

section Later
variable {tree after below : Subscription} {topic key : Key} {qos : UInt8}

theorem bucketed_node (qos : UInt8) : Bucketed (.node qos below.childNodes) ↔ Bucketed below := by
  rw [bucketed_iff, bucketed_iff below]
  rfl

theorem leaf_bucketed (qos : UInt8) : Bucketed (leaf qos) := by
  rw [bucketed_iff]
  refine ⟨Nat.one_pos, fun below held => ?_⟩
  rw [leaf_child] at held
  cases held

theorem not_bucketed_bare : ¬ Bucketed (fresh false) := by
  rw [bucketed_iff]
  exact fun bucketed => absurd bucketed.1 (Nat.lt_irrefl 0)

/-- A node that stands down the empty levels rewritten. -/
theorem Bucketed.rewritten (bucketed : Bucketed tree) (deeper : Bucketed below) (key : Key) :
    Bucketed (.node qos (tree.childNodes.rewritten key below)) := by
  obtain ⟨buckets, children⟩ := (bucketed_iff tree).mp bucketed
  rw [bucketed_iff]
  refine ⟨by rwa [childNodes_node, rewritten_capacity], fun next held => ?_⟩
  rw [child_rewritten buckets] at held
  split at held
  · obtain ⟨-, -, rfl⟩ := Option.map_eq_some_iff.mp held
    exact deeper
  · exact children next held

theorem emptied_bucketed (buckets : 0 < tree.childNodes.capacity)
    (crowded : tree.childNodes.Crowded key) : Bucketed (.node qos tree.childNodes.emptied) := by
  rw [bucketed_iff]
  refine ⟨emptied_capacity buckets crowded, fun next held => ?_⟩
  rw [child_emptied buckets crowded] at held
  cases held

theorem Bucketed.appended (bucketed : Bucketed tree) (added : Bucketed below) :
    Bucketed (.node qos (tree.childNodes.appended key below)) := by
  obtain ⟨buckets, children⟩ := (bucketed_iff tree).mp bucketed
  rw [bucketed_iff]
  refine ⟨by rwa [childNodes_node, appended_capacity], fun next held => ?_⟩
  rw [child_appended buckets] at held
  rcases Option.or_eq_some_iff.mp held with here | ⟨-, new⟩
  · exact children next here
  · split at new
    · cases new
      exact added
    · cases new

theorem Ready.rewritten (ready : Ready tree) (deeper : Bucketed below) (key : Key) :
    Ready (.node qos (tree.childNodes.rewritten key below)) := by
  refine ⟨by rw [childNodes_node, rewritten_capacity]; exact ready.1, fun other next plain held => ?_⟩
  rw [child_rewritten ready.1] at held
  split at held
  · obtain ⟨-, -, rfl⟩ := Option.map_eq_some_iff.mp held
    exact deeper
  · exact ready.2 other next plain held

theorem Ready.appended (ready : Ready tree) (added : Bucketed below) (key : Key) :
    Ready (.node qos (tree.childNodes.appended key below)) := by
  refine ⟨by rw [childNodes_node, appended_capacity]; exact ready.1, fun other next plain held => ?_⟩
  rw [child_appended ready.1] at held
  rcases Option.or_eq_some_iff.mp held with here | ⟨-, new⟩
  · exact ready.2 other next plain here
  · split at new
    · cases new
      exact added
    · cases new

theorem emptied_ready (buckets : 0 < tree.childNodes.capacity)
    (crowded : tree.childNodes.Crowded key) : Ready (.node qos tree.childNodes.emptied) := by
  refine ⟨emptied_capacity buckets crowded, fun other next plain held => ?_⟩
  rw [child_emptied buckets crowded] at held
  cases held

theorem Ready.removed (ready : Ready tree) (sound : Sound tree) {rest : List (Node Subscription)}
    (unlinked : unlink key (tree.childNodes.bucket key) = some rest) :
    Ready (.node qos (tree.childNodes.removed key rest)) := by
  refine ⟨by rw [childNodes_node, removed_capacity]; exact ready.1, fun other next plain held => ?_⟩
  rw [child_removed ready.1 qos key other (sound.table.distinct key) unlinked] at held
  split at held
  · cases held
  · exact ready.2 other next plain held

/-- What `is_subed_to` answers on a tree that is ready. -/
def answer (topic : Key) (tree : Subscription) : UInt8 :=
  if topic = [] then tree.maxQos
  else if separator ∈ topic then emptyQos
  else ((tree.child topic).map maxQos).getD emptyQos

theorem isSubedTo_ready (ready : Ready tree) (topic : Key) : isSubedTo topic tree = .ok (answer topic tree) := by
  unfold isSubedTo answer
  by_cases named : topic = []
  · subst named
    rw [if_pos rfl, isSubedToLoop]
    rfl
  have some : ¬ topic.length = 0 := fun zero => named (List.eq_nil_of_length_eq_zero zero)
  rw [if_neg named, isSubedToLoop, if_neg some, get_child ready.1]
  by_cases nested : separator ∈ topic
  · obtain ⟨rest, shape⟩ := afterLevel_separator nested
    rw [if_pos nested, shape]
    cases held : tree.child (level topic) with
    | none => rfl
    | some below =>
      exact isSubedToLoop_separator (ready.2 _ below (level_plain topic) held) rest
        (Nat.le_of_lt (child_height held))
  · rw [if_neg nested, level_whole nested, afterLevel_whole nested]
    cases held : tree.child topic with
    | none => rfl
    | some below =>
      obtain ⟨n, high⟩ := height_succ tree
      rw [high]
      rfl

end Later

/-! ### Down the empty levels -/

/-- A walk down the empty levels with these allocations stops: some level is
refused, or its table is grown away. -/
inductive StopsFrom : Subscription → Heap → Prop
  | deeper : curNode.child [] = some below → StopsFrom below heap → StopsFrom curNode heap
  | refused : curNode.child [] = none → admissionAt curNode [] heap = .refused → StopsFrom curNode heap
  | dropped : curNode.child [] = none → admissionAt curNode [] heap = .dropped → StopsFrom curNode heap
  | stored : curNode.child [] = none → admissionAt curNode [] heap = .stored true rest →
      StopsFrom (leaf emptyQos) rest → StopsFrom curNode heap

section Down
variable {curNode : Subscription} {tail : Key} {qos : UInt8} {heap : Heap}

theorem crowded_of_dropped {key : Key} (admitted : admissionAt curNode key heap = .dropped) :
    curNode.childNodes.Crowded key := by
  apply Classical.byContradiction
  intro roomy
  unfold admissionAt admission at admitted
  simp only [if_neg roomy] at admitted
  repeat' split at admitted
  all_goals cases admitted

/-- What a completed walk down the empty levels comes to. -/
structure Stopped (curNode : Subscription) (heap : Heap) (result : UInt8 × Subscription × Heap) : Prop where
  stops : StopsFrom curNode heap
  before : Bucketed curNode
  refused : result.1 = subErrorCode
  after : Bucketed result.2.1
  kept : result.2.1.maxQos = curNode.maxQos

theorem addSub_stopped {fuel : Nat} {result : UInt8 × Subscription × Heap} (sound : Sound curNode)
    (ended : addSub fuel (separator :: tail) qos curNode heap = .ok result) :
    Stopped curNode heap result := by
  induction fuel generalizing curNode heap result with
  | zero => cases ended
  | succ fuel ih =>
    have named : separator :: tail ≠ [] := List.cons_ne_nil _ _
    have buckets := capacity_of_addSub named ended
    cases held : curNode.child [] with
    | some below =>
      have step := addSub_present named (by rw [level_cons_separator]; exact held) fuel qos heap
      rw [ended, level_cons_separator, afterLevel_cons_separator] at step
      obtain ⟨inner, endedBelow⟩ := of_map_ok step.symm
      rw [endedBelow] at step
      cases step
      have deeper := ih (sound.child held) endedBelow
      have before : Bucketed curNode := (bucketed_iff curNode).mpr ⟨buckets, fun other there => by
        rw [held] at there
        cases there
        exact deeper.before⟩
      exact ⟨.deeper held deeper.stops, before, deeper.refused, before.rewritten deeper.after [], rfl⟩
    | none =>
      have before : Bucketed curNode := (bucketed_iff curNode).mpr ⟨buckets, fun other there => by
        rw [held] at there
        cases there⟩
      have step := addSub_absent named (by rw [level_cons_separator]; exact held) buckets
        sound.table.unsized fuel qos heap
      rw [ended, level_cons_separator, afterLevel_cons_separator] at step
      cases admitted : admissionAt curNode [] heap with
      | refused =>
        rw [admitted] at step
        obtain ⟨after, same⟩ := step
        cases same
        exact ⟨.refused held admitted, before, rfl, before, rfl⟩
      | dropped =>
        rw [admitted] at step
        obtain ⟨after, same⟩ := step
        cases same
        exact ⟨.dropped held admitted, before, rfl,
          emptied_bucketed buckets (crowded_of_dropped admitted), rfl⟩
      | stored made rest =>
        rw [admitted] at step
        obtain ⟨inner, endedBelow⟩ := of_map_ok step.symm
        simp only [endedBelow] at step
        cases step
        have room := capacity_of_addSub named endedBelow
        cases made with
        | false => exact absurd room (Nat.lt_irrefl 0)
        | true =>
          have deeper := ih (leaf_sound emptyQos) endedBelow
          have added : Bucketed (.node curNode.maxQos (curNode.childNodes.appended [] (leaf emptyQos))) :=
            before.appended deeper.before
          exact ⟨.stored held admitted deeper.stops, before, deeper.refused,
            added.rewritten deeper.after [], rfl⟩

theorem addSub_stops (stops : StopsFrom curNode heap) (bucketed : Bucketed curNode)
    (sound : Sound curNode) (tail : Key) (qos : UInt8) :
    ∃ fuel result, addSub fuel (separator :: tail) qos curNode heap = .ok result := by
  have named : separator :: tail ≠ [] := List.cons_ne_nil _ _
  induction stops with
  | deeper held _ ih =>
    obtain ⟨fuel, result, ended⟩ := ih (((bucketed_iff _).mp bucketed).2 _ held) (sound.child held)
    have step := addSub_present named (by rw [level_cons_separator]; exact held) fuel qos
    rw [afterLevel_cons_separator] at step
    exact ⟨fuel + 1, _, (step _).trans (congrArg (Except.map _) ended)⟩
  | @refused curNode heap held admitted =>
    have step := addSub_absent named (by rw [level_cons_separator]; exact held)
      ((bucketed_iff _).mp bucketed).1 sound.table.unsized 0 qos heap
    rw [level_cons_separator, admitted] at step
    obtain ⟨after, ended⟩ := step
    exact ⟨1, _, ended⟩
  | @dropped curNode heap held admitted =>
    have step := addSub_absent named (by rw [level_cons_separator]; exact held)
      ((bucketed_iff _).mp bucketed).1 sound.table.unsized 0 qos heap
    rw [level_cons_separator, admitted] at step
    obtain ⟨after, ended⟩ := step
    exact ⟨1, _, ended⟩
  | @stored curNode heap rest held admitted _ ih =>
    obtain ⟨fuel, result, ended⟩ := ih (leaf_bucketed emptyQos) (leaf_sound emptyQos)
    have step := addSub_absent named (by rw [level_cons_separator]; exact held)
      ((bucketed_iff _).mp bucketed).1 sound.table.unsized fuel qos heap
    rw [level_cons_separator, afterLevel_cons_separator, admitted] at step
    exact ⟨fuel + 1, _, step.trans (congrArg (Except.map _) ended)⟩

theorem admission_nil (curNode : Subscription) (key : Key) :
    admissionAt curNode key [] = if curNode.childNodes.Crowded key then .dropped else .stored true [] := by
  unfold admissionAt admission
  by_cases crowded : curNode.childNodes.Crowded key
  · simp [crowded]
  · simp [crowded]

/-- With allocations that succeed the walk has no fault but its endlessness. -/
theorem addSub_down_faults {fuel : Nat} {fault : Fault} (bucketed : Bucketed curNode)
    (sound : Sound curNode) (faulted : addSub fuel (separator :: tail) qos curNode [] = .error fault) :
    fault = .endless := by
  induction fuel generalizing curNode with
  | zero =>
    cases faulted
    rfl
  | succ fuel ih =>
    have named : separator :: tail ≠ [] := List.cons_ne_nil _ _
    obtain ⟨buckets, children⟩ := (bucketed_iff curNode).mp bucketed
    cases held : curNode.child [] with
    | some below =>
      have step := addSub_present named (by rw [level_cons_separator]; exact held) fuel qos []
      rw [faulted, afterLevel_cons_separator] at step
      exact ih (children below held) (sound.child held) (of_map_error step.symm)
    | none =>
      have step := addSub_absent named (by rw [level_cons_separator]; exact held) buckets
        sound.table.unsized fuel qos []
      rw [faulted, level_cons_separator, afterLevel_cons_separator, admission_nil] at step
      split at step
      · rename_i heq
        split at heq <;> cases heq
      · obtain ⟨after, same⟩ := step
        cases same
      · rename_i made rest heq
        split at heq
        · cases heq
        · cases heq
          rw [fresh, leaf_endless] at step
          cases step
          rfl

end Down

/-! ### From the root -/

/-- What the rest of the topic comes to below the node of its first level. -/
inductive EndsBelow (topic : Key) (qos : UInt8) (curNode : Subscription) (heap : Heap) :
    UInt8 × Subscription × Heap → Prop
  | last : separator ∉ topic → EndsBelow topic qos curNode heap (qos, .node qos curNode.childNodes, heap)
  | stopped : separator ∈ topic → Stopped curNode heap result → EndsBelow topic qos curNode heap result

/-- The tree with the node of a level replaced. -/
def replaced (tree : Subscription) (key : Key) (below : Subscription) : Subscription :=
  .node tree.maxQos (tree.childNodes.rewritten key below)

/-- The tree with a new node for a level. -/
def extended (tree : Subscription) (key : Key) (buckets : Bool) : Subscription :=
  .node tree.maxQos (tree.childNodes.appended key (fresh buckets))

/-- Every way `add_sub` can end on a root with a bucket. -/
inductive Ends (topic : Key) (qos : UInt8) (tree : Subscription) (heap : Heap) :
    UInt8 × Subscription × Heap → Prop
  | root : topic = [] → Ends topic qos tree heap (qos, .node qos tree.childNodes, heap)
  | refused (after : Heap) : tree.child (level topic) = none →
    admissionAt tree (level topic) heap = .refused → Ends topic qos tree heap (subErrorCode, tree, after)
  | dropped (after : Heap) : tree.child (level topic) = none →
    admissionAt tree (level topic) heap = .dropped →
    Ends topic qos tree heap (subErrorCode, .node tree.maxQos tree.childNodes.emptied, after)
  | present : tree.child (level topic) = some curNode → EndsBelow topic qos curNode heap below →
    Ends topic qos tree heap (below.1, tree.replaced (level topic) below.2.1, below.2.2)
  | stored : tree.child (level topic) = none →
    admissionAt tree (level topic) heap = .stored made rest → EndsBelow topic qos (fresh made) rest below →
    Ends topic qos tree heap
      (below.1, (tree.extended (level topic) made).replaced (level topic) below.2.1, below.2.2)

section Root
variable {tree curNode : Subscription} {topic other : Key} {qos : UInt8} {heap rest : Heap} {made : Bool}
  {result below : UInt8 × Subscription × Heap}

theorem fresh_sound (made : Bool) : Sound (fresh made) := by
  cases made with
  | true => exact leaf_sound emptyQos
  | false =>
    apply sound_of_children
    · exact ⟨fun key => by simp [fresh, bucket], by simp [fresh, nodes], rfl⟩
    · intro key below held
      rw [child_none_of_bare rfl] at held
      cases held

theorem addSub_ends_below {fuel : Nat} (sound : Sound curNode)
    (ended : addSub fuel (afterLevel topic) qos curNode heap = .ok below) :
    EndsBelow topic qos curNode heap below := by
  by_cases nested : separator ∈ topic
  · obtain ⟨tail, shape⟩ := afterLevel_separator nested
    rw [shape] at ended
    exact .stopped nested (addSub_stopped sound ended)
  · rw [afterLevel_whole nested] at ended
    cases fuel with
    | zero => cases ended
    | succ fuel =>
      cases ended
      exact .last nested

theorem addSub_ends {fuel : Nat} (sound : Sound tree)
    (ended : addSub fuel topic qos tree heap = .ok result) : Ends topic qos tree heap result := by
  cases fuel with
  | zero => cases ended
  | succ fuel =>
    by_cases named : topic = []
    · subst named
      cases ended
      exact .root rfl
    have buckets := capacity_of_addSub named ended
    cases held : tree.child (level topic) with
    | some tmp =>
      rw [addSub_present named held] at ended
      obtain ⟨below, endedBelow⟩ := of_map_ok ended
      rw [endedBelow] at ended
      cases ended
      exact .present held (addSub_ends_below (sound.child held) endedBelow)
    | none =>
      have step := addSub_absent named held buckets sound.table.unsized fuel qos heap
      rw [ended] at step
      cases admitted : admissionAt tree (level topic) heap with
      | refused =>
        rw [admitted] at step
        obtain ⟨after, same⟩ := step
        cases same
        exact .refused after held admitted
      | dropped =>
        rw [admitted] at step
        obtain ⟨after, same⟩ := step
        cases same
        exact .dropped after held admitted
      | stored made rest =>
        rw [admitted] at step
        obtain ⟨below, endedBelow⟩ := of_map_ok step.symm
        simp only [endedBelow] at step
        cases step
        exact .stored held admitted (addSub_ends_below (fresh_sound made) endedBelow)

/-! What each of them leaves behind. -/

theorem EndsBelow.bucketed_iff (ends : EndsBelow topic qos curNode heap below) :
    Bucketed below.2.1 ↔ Bucketed curNode := by
  cases ends with
  | last _ => exact bucketed_node qos
  | stopped _ stopped => exact ⟨fun _ => stopped.before, fun _ => stopped.after⟩

theorem child_replaced (held : tree.child topic = some curNode) (node : Subscription) (other : Key) :
    (tree.replaced topic node).child other = if other = topic then some node else tree.child other := by
  rw [replaced, child_rewritten (capacity_of_child held), held]
  rfl

theorem child_extended (buckets : 0 < tree.childNodes.capacity) (absent : tree.child topic = none)
    (other : Key) :
    (tree.extended topic made).child other = if other = topic then some (fresh made) else tree.child other := by
  rw [extended, child_appended buckets]
  split
  · rename_i same
    rw [same, absent]
    rfl
  · exact Option.or_none

theorem extended_level (buckets : 0 < tree.childNodes.capacity) (absent : tree.child topic = none)
    (made : Bool) : (tree.extended topic made).child topic = some (fresh made) := by
  rw [child_extended buckets absent, if_pos rfl]

theorem replaced_ready_iff (held : tree.child (level topic) = some curNode)
    (ends : EndsBelow topic qos curNode heap below) :
    Ready (tree.replaced (level topic) below.2.1) ↔ Ready tree := by
  have buckets := capacity_of_child held
  have size : 0 < (tree.replaced (level topic) below.2.1).childNodes.capacity := by
    rwa [replaced, childNodes_node, rewritten_capacity]
  constructor
  · intro ready
    refine ⟨buckets, fun key node plain there => ?_⟩
    have after := ready.2 key
    rw [child_replaced held] at after
    by_cases same : key = level topic
    · rw [same, held] at there
      cases there
      rw [if_pos same] at after
      exact ends.bucketed_iff.mp (after _ plain rfl)
    · rw [if_neg same] at after
      exact after node plain there
  · intro ready
    exact ready.rewritten (ends.bucketed_iff.mpr (ready.2 _ _ (level_plain topic) held)) _

theorem extended_ready_iff (buckets : 0 < tree.childNodes.capacity)
    (absent : tree.child (level topic) = none) :
    Ready (tree.extended (level topic) made) ↔ Ready tree ∧ made = true := by
  constructor
  · intro ready
    have new := ready.2 _ _ (level_plain topic) (extended_level buckets absent made)
    refine ⟨⟨buckets, fun key node plain there => ready.2 key node plain ?_⟩, ?_⟩
    · have apart : key ≠ level topic := by
        rintro rfl
        rw [absent] at there
        cases there
      rw [child_extended buckets absent, if_neg apart]
      exact there
    · cases made with
      | true => rfl
      | false => exact absurd new not_bucketed_bare
  · rintro ⟨ready, rfl⟩
    exact ready.appended (leaf_bucketed emptyQos) _

theorem answer_extended (buckets : 0 < tree.childNodes.capacity) (absent : tree.child (level topic) = none)
    (other : Key) : answer other (tree.extended (level topic) made) = answer other tree := by
  unfold answer
  rw [child_extended buckets absent]
  by_cases same : other = level topic
  · rw [if_pos same, same, absent]
    cases made <;> rfl
  · rw [if_neg same]
    rfl

/-- Only the topic itself is answered differently. -/
theorem answer_replaced (held : tree.child (level topic) = some curNode)
    (ends : EndsBelow topic qos curNode heap below) (apart : other ≠ topic) :
    answer other (tree.replaced (level topic) below.2.1) = answer other tree := by
  unfold answer
  rw [child_replaced held]
  by_cases same : other = level topic
  · rw [if_pos same, same, held]
    cases ends with
    | last plain => exact absurd (same.trans (level_whole plain)) apart
    | stopped _ stopped =>
      simp only [Option.map_some, stopped.kept]
      rfl
  · rw [if_neg same]
    rfl

/-- Where the last level is reached the topic has the QoS, and elsewhere the
walk was refused. -/
theorem answer_topic (named : topic ≠ []) (held : tree.child (level topic) = some curNode)
    (ends : EndsBelow topic qos curNode heap below) :
    (below.1 = qos ∧ answer topic (tree.replaced (level topic) below.2.1) = qos) ∨
      below.1 = subErrorCode := by
  cases ends with
  | last plain =>
    left
    refine ⟨rfl, ?_⟩
    unfold answer
    rw [child_replaced held, if_neg named, if_neg plain, if_pos (level_whole plain).symm]
    rfl
  | stopped _ stopped => exact .inr stopped.refused

end Root

/-! ### Safety of later calls -/

section Safety
variable {tree after : Subscription} {topic : Key} {qos : UInt8}

theorem Ends.ready {result : UInt8 × Subscription × Heap} (ready : Ready tree)
    (ends : Ends topic qos tree [] result) : Ready result.2.1 := by
  cases ends with
  | root _ => exact ready
  | refused _ _ _ => exact ready
  | dropped _ _ admitted => exact emptied_ready ready.1 (crowded_of_dropped admitted)
  | present held below => exact (replaced_ready_iff held below).mpr ready
  | @stored made rest below absent admitted ends =>
    rw [admission_nil] at admitted
    split at admitted
    · cases admitted
    · cases admitted
      have there := extended_level ready.1 absent true
      exact (replaced_ready_iff there ends).mpr ((extended_ready_iff ready.1 absent).mpr ⟨ready, rfl⟩)

theorem addSub_below_faults {curNode : Subscription} {fuel : Nat} {fault : Fault}
    (bucketed : Bucketed curNode) (sound : Sound curNode)
    (faulted : addSub fuel (afterLevel topic) qos curNode [] = .error fault) : fault = .endless := by
  by_cases nested : separator ∈ topic
  · obtain ⟨tail, shape⟩ := afterLevel_separator nested
    rw [shape] at faulted
    exact addSub_down_faults bucketed sound faulted
  · rw [afterLevel_whole nested] at faulted
    cases fuel with
    | zero =>
      cases faulted
      rfl
    | succ fuel => cases faulted

theorem addSub_faults {fuel : Nat} {fault : Fault} (ready : Ready tree) (sound : Sound tree)
    (faulted : addSub fuel topic qos tree [] = .error fault) : fault = .endless := by
  cases fuel with
  | zero =>
    cases faulted
    rfl
  | succ fuel =>
    by_cases named : topic = []
    · subst named
      cases faulted
    cases held : tree.child (level topic) with
    | some tmp =>
      rw [addSub_present named held] at faulted
      exact addSub_below_faults (ready.2 _ tmp (level_plain topic) held) (sound.child held)
        (of_map_error faulted)
    | none =>
      have step := addSub_absent named held ready.1 sound.table.unsized fuel qos []
      rw [faulted, admission_nil] at step
      by_cases crowded : tree.childNodes.Crowded (level topic)
      · rw [if_pos crowded] at step
        obtain ⟨after, same⟩ := step
        cases same
      · rw [if_neg crowded] at step
        exact addSub_below_faults (leaf_bucketed emptyQos) (leaf_sound emptyQos) (of_map_error step.symm)

theorem deleteSub_ready (ready : Ready tree) (sound : Sound tree) (topic : Key) :
    (∃ fault, deleteSub topic tree = .error fault ∧ (fault = .nullDeref ∨ fault = .endless)) ∨
      ∃ after, deleteSub topic tree = .ok after ∧ Ready after := by
  by_cases nested : separator ∈ topic
  · by_cases circles : Circles topic tree
    · exact .inl ⟨_, deleteSub_circles circles, .inr rfl⟩
    · exact .inr ⟨tree, deleteSub_nested nested ready.1 circles, ready⟩
  · cases held : tree.child topic with
    | none => exact .inl ⟨_, deleteSub_absent ready.1 nested held, .inl rfl⟩
    | some gnode =>
      right
      by_cases counted : gnode.childNodes.count > 0
      · refine ⟨_, deleteSub_parent nested held counted, ?_⟩
        exact ready.rewritten ((bucketed_node emptyQos).mpr (ready.2 topic gnode nested held)) topic
      · obtain ⟨rest, unlinked, deleted⟩ := deleteSub_leaf nested held counted
        exact ⟨_, deleted, ready.removed sound unlinked⟩

/-- A call on a tree that is ready leaves it so, and runs into no missing
bucket. -/
theorem call_ready (ready : Ready tree) (sound : Sound tree) (call : Call) (fuel : Nat) :
    (∀ after, call.run fuel tree = .ok after → Ready after ∧ Sound after) ∧
    ∀ fault, call.run fuel tree = .error fault → fault ≠ .divideByZero ∧ fault ≠ .outOfBounds := by
  cases call with
  | addSub topic qos =>
    constructor
    · intro after ended
      obtain ⟨result, stored⟩ := of_map_ok ended
      rw [Call.run, stored] at ended
      cases ended
      exact ⟨(addSub_ends sound stored).ready ready, addSub_sound sound stored⟩
    · intro fault faulted
      obtain rfl := addSub_faults ready sound (of_map_error faulted)
      exact ⟨nofun, nofun⟩
  | isSubedTo topic =>
    rw [Call.run, isSubedTo_ready ready]
    constructor
    · intro after ended
      cases ended
      exact ⟨ready, sound⟩
    · exact nofun
  | deleteSub topic =>
    rw [Call.run]
    rcases deleteSub_ready ready sound topic with ⟨fault, faulted, ways⟩ | ⟨after, deleted, kept⟩
    · rw [faulted]
      refine ⟨nofun, fun other same => ?_⟩
      cases same
      rcases ways with rfl | rfl <;> exact ⟨nofun, nofun⟩
    · constructor
      · intro other ended
        have whole := deleteSub_sound sound ended
        rw [deleted] at ended
        cases ended
        exact ⟨kept, whole⟩
      · rw [deleted]
        exact nofun

theorem later_ready (ready : Ready tree) (sound : Sound tree) (later : Later tree after) :
    Ready after ∧ Sound after := by
  induction later with
  | refl => exact ⟨ready, sound⟩
  | tail _ step ih =>
    obtain ⟨call, fuel, ended⟩ := step
    exact (call_ready ih.1 ih.2 call fuel).1 _ ended

theorem safe_of_ready (ready : Ready tree) (sound : Sound tree) : Safe tree := by
  intro after later call fuel fault faulted
  have both := later_ready ready sound later
  exact (call_ready both.1 both.2 call fuel).2 fault faulted

/-- A lookup of a level and a separator behind it finds a node without a
bucket. -/
theorem isSubedTo_probe {key : Key} {below : Subscription} (plain : separator ∉ key)
    (held : tree.child key = some below) (bare : ¬ Bucketed below) :
    isSubedTo (key ++ [separator]) tree = .error .outOfBounds := by
  obtain ⟨first, rest⟩ := level_append_separator plain
  rw [isSubedTo, isSubedToLoop, if_neg (by simp), first, rest, get_child (capacity_of_child held), held]
  exact isSubedToLoop_bare bare [] (Nat.le_of_lt (child_height held))

theorem ready_of_safe (safe : Safe tree) : Ready tree := by
  have now := safe tree .refl
  have buckets : 0 < tree.childNodes.capacity := by
    apply Classical.byContradiction
    intro bare
    have faulted : (Call.isSubedTo [separator]).run 0 tree = .error .outOfBounds := by
      rw [Call.run, isSubedTo, isSubedToLoop, if_neg (by simp), level_cons_separator, get_empty_bare bare]
      rfl
    exact (now _ 0 _ faulted).2 rfl
  refine ⟨buckets, fun key below plain held => ?_⟩
  apply Classical.byContradiction
  intro bare
  have faulted : (Call.isSubedTo (key ++ [separator])).run 0 tree = .error .outOfBounds := by
    rw [Call.run, isSubedTo_probe plain held bare]
    rfl
  exact (now _ 0 _ faulted).2 rfl

end Safety

/-! ### Surviving exhaustion -/

/-- With these allocations `add_sub` ends with the QoS, the topic being
subscribed with it then, or with `SUB_ERROR_CODE`; no other topic is answered
differently, and no later call runs into a missing bucket. -/
def Survives (topic : Key) (qos : UInt8) (tree : Subscription) (heap : Heap) : Prop :=
  ∃ fuel result, addSub fuel topic qos tree heap = .ok result ∧
    ((result.1 = qos ∧ isSubedTo topic result.2.1 = .ok qos) ∨ result.1 = subErrorCode) ∧
    (∀ other, other ≠ topic → isSubedTo other result.2.1 = isSubedTo other tree) ∧
    Safe result.2.1

/-- The allocations leave nothing half made: a new node for the first level
gets its bucket, a topic with further levels is refused on the way down, and
the root's table is grown only where nothing but the root is subscribed. -/
def Admitted (topic : Key) (tree : Subscription) (heap : Heap) : Prop :=
  topic = [] ∨
    match tree.child (level topic) with
    | some curNode => separator ∉ topic ∨ StopsFrom curNode heap
    | none =>
      match admissionAt tree (level topic) heap with
      | .refused => True
      | .dropped => ∀ other, other ≠ [] → isSubedTo other tree = .ok emptyQos
      | .stored buckets rest => buckets = true ∧ (separator ∉ topic ∨ StopsFrom (leaf emptyQos) rest)

section Survival
variable {tree curNode : Subscription} {topic : Key} {qos : UInt8} {heap rest : Heap}
  {result below : UInt8 × Subscription × Heap}

theorem EndsBelow.stops (ends : EndsBelow topic qos curNode heap below) :
    separator ∉ topic ∨ StopsFrom curNode heap := by
  cases ends with
  | last plain => exact .inl plain
  | stopped _ stopped => exact .inr stopped.stops

theorem addSub_below_completes (ways : separator ∉ topic ∨ StopsFrom curNode heap)
    (bucketed : Bucketed curNode) (sound : Sound curNode) (qos : UInt8) :
    ∃ fuel below, addSub fuel (afterLevel topic) qos curNode heap = .ok below := by
  by_cases nested : separator ∈ topic
  · obtain ⟨tail, shape⟩ := afterLevel_separator nested
    rw [shape]
    exact addSub_stops (ways.resolve_left (not_not.mpr nested)) bucketed sound tail qos
  · rw [afterLevel_whole nested]
    exact ⟨1, _, rfl⟩

theorem addSub_completes (sound : Sound tree) (ready : Ready tree) (admitted : Admitted topic tree heap)
    (qos : UInt8) : ∃ fuel result, addSub fuel topic qos tree heap = .ok result := by
  by_cases named : topic = []
  · subst named
    exact ⟨1, _, rfl⟩
  replace admitted := admitted.resolve_left named
  cases held : tree.child (level topic) with
  | some tmp =>
    rw [held] at admitted
    obtain ⟨fuel, below, ended⟩ := addSub_below_completes admitted
      (ready.2 _ tmp (level_plain topic) held) (sound.child held) qos
    exact ⟨fuel + 1, _, (addSub_present named held fuel qos heap).trans (congrArg (Except.map _) ended)⟩
  | none =>
    rw [held] at admitted
    simp only at admitted
    cases outcome : admissionAt tree (level topic) heap with
    | refused =>
      have step := addSub_absent named held ready.1 sound.table.unsized 0 qos heap
      rw [outcome] at step
      obtain ⟨after, ended⟩ := step
      exact ⟨1, _, ended⟩
    | dropped =>
      have step := addSub_absent named held ready.1 sound.table.unsized 0 qos heap
      rw [outcome] at step
      obtain ⟨after, ended⟩ := step
      exact ⟨1, _, ended⟩
    | stored made rest =>
      rw [outcome] at admitted
      obtain ⟨rfl, ways⟩ := admitted
      obtain ⟨fuel, below, ended⟩ := addSub_below_completes ways (leaf_bucketed emptyQos)
        (leaf_sound emptyQos) qos
      have step := addSub_absent named held ready.1 sound.table.unsized fuel qos heap
      rw [outcome] at step
      exact ⟨fuel + 1, _, step.trans (congrArg (Except.map _) ended)⟩

/-- A root whose table has been grown answers for nothing but itself. -/
theorem isSubedTo_emptied (buckets : 0 < tree.childNodes.capacity)
    (crowded : tree.childNodes.Crowded (level topic)) {other : Key} (named : other ≠ []) :
    isSubedTo other (.node tree.maxQos tree.childNodes.emptied) = .ok emptyQos := by
  rw [isSubedTo_ready (emptied_ready buckets crowded), answer, if_neg named,
    child_emptied buckets crowded]
  split <;> rfl

theorem ready_of_unsubscribed (buckets : 0 < tree.childNodes.capacity)
    (nothing : ∀ other, other ≠ [] → isSubedTo other tree = .ok emptyQos) : Ready tree := by
  refine ⟨buckets, fun key below plain held => ?_⟩
  apply Classical.byContradiction
  intro bare
  have answered := nothing (key ++ [separator]) (by simp)
  rw [isSubedTo_probe plain held bare] at answered
  cases answered

theorem isSubedTo_absent (buckets : 0 < tree.childNodes.capacity) (named : topic ≠ [])
    (absent : tree.child (level topic) = none) : isSubedTo topic tree = .ok emptyQos := by
  have some : ¬ topic.length = 0 := fun zero => named (List.eq_nil_of_length_eq_zero zero)
  rw [isSubedTo, isSubedToLoop, if_neg some, get_child buckets, absent]
  rfl

theorem admitted_of_survives (sound : Sound tree) (survives : Survives topic qos tree heap) :
    Ready tree ∧ Admitted topic tree heap := by
  obtain ⟨fuel, result, ended, -, others, safe⟩ := survives
  have readyAfter := ready_of_safe safe
  by_cases named : topic = []
  · subst named
    cases fuel with
    | zero => cases ended
    | succ fuel =>
      cases ended
      exact ⟨readyAfter, .inl rfl⟩
  have buckets := capacity_of_addSub named ended
  cases addSub_ends sound ended with
  | root empty => exact absurd empty named
  | refused after absent admitted =>
    refine ⟨readyAfter, .inr ?_⟩
    rw [absent]
    simp only [admitted]
  | dropped after absent admitted =>
    have nothing : ∀ other, other ≠ [] → isSubedTo other tree = .ok emptyQos := by
      intro other nonempty
      by_cases same : other = topic
      · rw [same]
        exact isSubedTo_absent buckets named absent
      · rw [← others other same]
        exact isSubedTo_emptied buckets (crowded_of_dropped admitted) nonempty
    refine ⟨ready_of_unsubscribed buckets nothing, .inr ?_⟩
    rw [absent]
    simpa only [admitted] using nothing
  | present held ends =>
    refine ⟨(replaced_ready_iff held ends).mp readyAfter, .inr ?_⟩
    rw [held]
    exact ends.stops
  | stored absent admitted ends =>
    have there := fun made => extended_level buckets absent made
    obtain ⟨ready, rfl⟩ := (extended_ready_iff buckets absent).mp
      ((replaced_ready_iff (there _) ends).mp readyAfter)
    refine ⟨ready, .inr ?_⟩
    rw [absent]
    simp only [admitted]
    exact ⟨trivial, ends.stops⟩

theorem survives_of_admitted (sound : Sound tree) (ready : Ready tree)
    (admitted : Admitted topic tree heap) : Survives topic qos tree heap := by
  obtain ⟨fuel, result, ended⟩ := addSub_completes sound ready admitted qos
  have soundAfter := addSub_sound sound ended
  refine ⟨fuel, result, ended, ?_⟩
  by_cases named : topic = []
  · subst named
    cases fuel with
    | zero => cases ended
    | succ fuel =>
      cases ended
      refine ⟨.inl ⟨rfl, rfl⟩, fun other apart => ?_, safe_of_ready ready soundAfter⟩
      have readyAfter : Ready (.node qos tree.childNodes) := ready
      rw [isSubedTo_ready ready, isSubedTo_ready readyAfter, answer, answer, if_neg apart, if_neg apart]
      rfl
  replace admitted := admitted.resolve_left named
  cases addSub_ends sound ended with
  | root empty => exact absurd empty named
  | refused after absent outcome =>
    exact ⟨.inr rfl, fun _ _ => rfl, safe_of_ready ready sound⟩
  | dropped after absent outcome =>
    rw [absent] at admitted
    simp only [outcome] at admitted
    have crowded := crowded_of_dropped outcome
    refine ⟨.inr rfl, fun other apart => ?_, safe_of_ready (emptied_ready ready.1 crowded) soundAfter⟩
    by_cases empty : other = []
    · subst empty
      rw [isSubedTo_ready ready, isSubedTo_ready (emptied_ready ready.1 crowded)]
      rfl
    · rw [isSubedTo_emptied ready.1 crowded empty, admitted other empty]
  | present held ends =>
    have readyAfter := (replaced_ready_iff held ends).mpr ready
    refine ⟨?_, fun other apart => ?_, safe_of_ready readyAfter soundAfter⟩
    · rw [isSubedTo_ready readyAfter]
      exact (answer_topic named held ends).imp (And.imp_right (congrArg Except.ok)) id
    · rw [isSubedTo_ready readyAfter, isSubedTo_ready ready, answer_replaced held ends apart]
  | @stored made rest below absent outcome ends =>
    rw [absent] at admitted
    simp only [outcome] at admitted
    have there := extended_level ready.1 absent made
    have readyBetween := (extended_ready_iff ready.1 absent).mpr ⟨ready, admitted.1⟩
    have readyAfter := (replaced_ready_iff there ends).mpr readyBetween
    refine ⟨?_, fun other apart => ?_, safe_of_ready readyAfter soundAfter⟩
    · rw [isSubedTo_ready readyAfter]
      exact (answer_topic named there ends).imp (And.imp_right (congrArg Except.ok)) id
    · rw [isSubedTo_ready readyAfter, isSubedTo_ready ready, answer_replaced there ends apart,
        answer_extended ready.1 absent]

end Survival

theorem survives_exhaustion_iff {tree : Subscription} (sound : Sound tree) (topic : Key) (qos : UInt8)
    (heap : Heap) : Survives topic qos tree heap ↔ Ready tree ∧ Admitted topic tree heap :=
  ⟨admitted_of_survives sound, fun both => survives_of_admitted sound both.1 both.2⟩

/-- The map node is refused. -/
theorem refusal_survived : Survives [97] 1 (leaf emptyQos) [true, true, false] := by
  have ready : Ready (leaf emptyQos) := ⟨Nat.one_pos, fun key below _ held => by
    rw [leaf_child] at held
    cases held⟩
  exact (survives_exhaustion_iff (leaf_sound emptyQos) [97] 1 [true, true, false]).mpr
    ⟨ready, .inr trivial⟩

/-- The array of buckets in the new node is refused: the topic is subscribed,
and a lookup of `a/` indexes buckets that are not there. -/
theorem missing_buckets_unnoticed : ¬ Survives [97] 1 (leaf emptyQos) [true, false] := by
  rintro ⟨fuel, result, ended, -, -, safe⟩
  have stored : addSub 2 [97] 1 (leaf emptyQos) [true, false] =
      .ok (1, .node emptyQos { buckets := [[⟨[97], .node 1 {}⟩]], size := 0, count := 1 }, []) := rfl
  obtain rfl := addSub_unique ended stored
  have faulted : (Call.isSubedTo [97, separator]).run 0
      (.node emptyQos { buckets := [[⟨[97], .node 1 {}⟩]], size := 0, count := 1 }) =
        .error .outOfBounds := rfl
  exact (safe _ .refl _ 0 _ faulted).2 rfl

end MqttBroker.Subscription
