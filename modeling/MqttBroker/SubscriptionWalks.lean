import Mathlib.Data.List.TakeWhile
import MqttBroker.Subscription

/-! What the walks over the topic tree have in common: the levels of a topic
as the walks cut them, the child below a node for a level, and how deep the
tree is. A lookup and a removal end within the height of the tree. -/
namespace MqttBroker.Subscription
open Myhashmap

/-! ### Levels -/

theorem level_whole {topic : Key} (plain : separator ∉ topic) : level topic = topic :=
  List.takeWhile_eq_self_iff.mpr fun byte member => by
    simpa using fun same : byte = separator => plain (same ▸ member)

theorem afterLevel_whole {topic : Key} (plain : separator ∉ topic) : afterLevel topic = [] := by
  rw [afterLevel, level_whole plain, List.drop_length]

/-- What follows the first level of a topic with a separator is the separator
itself. -/
theorem afterLevel_separator {topic : Key} (nested : separator ∈ topic) :
    ∃ rest, afterLevel topic = separator :: rest := by
  induction topic with
  | nil => cases nested
  | cons byte tail ih =>
    by_cases here : byte = separator
    · exact ⟨tail, by simp [afterLevel, level, here]⟩
    · obtain ⟨rest, step⟩ := ih ((List.mem_cons.mp nested).resolve_left (Ne.symm here))
      exact ⟨rest, by simpa [afterLevel, level, here] using step⟩

theorem level_shorter {topic : Key} (nested : separator ∈ topic) :
    topic.length ≠ (level topic).length := by
  obtain ⟨rest, shape⟩ := afterLevel_separator nested
  intro same
  rw [afterLevel, ← same, List.drop_length] at shape
  cases shape

@[simp] theorem level_cons_separator (rest : Key) : level (separator :: rest) = [] := by
  simp [level]

@[simp] theorem afterLevel_cons_separator (rest : Key) :
    afterLevel (separator :: rest) = separator :: rest := by
  simp [afterLevel]

/-- A level with a separator behind it. -/
theorem level_append_separator {key : Key} (plain : separator ∉ key) :
    level (key ++ [separator]) = key ∧ afterLevel (key ++ [separator]) = [separator] := by
  have first : level (key ++ [separator]) = key := by
    unfold level
    rw [List.takeWhile_append_of_pos fun byte member => by
      simpa using fun same : byte = separator => plain (same ▸ member)]
    simp
  exact ⟨first, by rw [afterLevel, first, List.drop_left]⟩

/-- The part of a topic in front of its first separator holds none. -/
theorem level_plain (topic : Key) : separator ∉ level topic := by
  intro member
  simpa using List.mem_takeWhile_imp member

/-- The levels of a topic, the parts between its separators. -/
def levels (topic : Key) : List Key := topic.splitOn separator

/-! ### Children and heights -/

/-- The child of a node for a level. -/
def child (curNode : Subscription) (key : Key) : Option Subscription :=
  (find key (curNode.childNodes.bucket key)).map Node.data

/-- The node at the end of a path of keys. -/
def nodeAt : List Key → Subscription → Option Subscription
  | [], curNode => some curNode
  | key :: rest, curNode => (curNode.child key).bind (nodeAt rest)

/-- The QoS of a path, that of a path without a node being `emptyQos`. -/
def qosAt (path : List Key) (tree : Subscription) : UInt8 :=
  ((nodeAt path tree).map maxQos).getD emptyQos

section Children
variable {curNode below : Subscription} {key : Key}

theorem get_child (buckets : 0 < curNode.childNodes.capacity) (key : Key) :
    curNode.childNodes.get key = .ok (curNode.child key) := get_eq buckets key

/-- A lookup completes only on a table with buckets. -/
theorem capacity_of_get {m : Myhashmap Subscription} {found : Option Subscription}
    (got : m.get key = .ok found) : 0 < m.capacity := by
  apply Nat.pos_of_ne_zero
  intro none
  have bare : m.buckets = [] := List.eq_nil_of_length_eq_zero none
  by_cases empty : key.length > 0
  · simp [Myhashmap.get, index, none, empty, bind, Except.bind] at got
  · simp [Myhashmap.get, index, empty, chain, bare, bind, Except.bind] at got

/-- A lookup that completes finds the child. -/
theorem child_of_get {found : Option Subscription} (got : curNode.childNodes.get key = .ok found) :
    curNode.child key = found := by
  rw [get_child (capacity_of_get got)] at got
  exact Except.ok.inj got

/-- A node just appended is found, where there was none before. -/
theorem appended_get {m : Myhashmap Subscription} (buckets : 0 < m.capacity) {data : Subscription}
    (absent : find key (m.bucket key) = none) :
    (m.appended key data).get key = .ok (some data) := by
  rw [get_eq (by rwa [appended_capacity]), find_appended buckets, absent, if_pos rfl]
  rfl

/-- Looking a key up takes one step, whatever the table. -/
theorem get_ends (m : Myhashmap Subscription) (key : Key) : m.get key ≠ .error .endless := by
  intro got
  by_cases buckets : 0 < m.capacity
  · rw [get_eq buckets] at got
    cases got
  · have none : m.capacity = 0 := by omega
    have bare : m.buckets = [] := List.eq_nil_of_length_eq_zero none
    by_cases empty : key.length > 0
    · simp [Myhashmap.get, index, none, empty, bind, Except.bind] at got
    · simp [Myhashmap.get, index, empty, chain, bare, bind, Except.bind] at got

/-- So does erasing one. -/
theorem erase_ends (m : Myhashmap Subscription) (key : Key) : m.erase key ≠ .error .endless := by
  intro erased
  by_cases buckets : 0 < m.capacity
  · simp only [erase, index_eq buckets, chain_eq buckets, bind, Except.bind] at erased
    split at erased
    · cases erased
    · split at erased <;> cases erased
  · have none : m.capacity = 0 := by omega
    have bare : m.buckets = [] := List.eq_nil_of_length_eq_zero none
    by_cases empty : key.length > 0
    · simp [erase, index, none, empty, bind, Except.bind] at erased
    · simp [erase, index, empty, chain, bare, bind, Except.bind] at erased

theorem child_none_of_bare (bare : curNode.childNodes.capacity = 0) (key : Key) :
    curNode.child key = none := by
  have empty : curNode.childNodes.buckets = [] := List.eq_nil_of_length_eq_zero bare
  simp [child, bucket, empty, find]

theorem capacity_of_child (held : curNode.child key = some below) : 0 < curNode.childNodes.capacity := by
  apply Nat.pos_of_ne_zero
  intro bare
  rw [child_none_of_bare bare] at held
  cases held

theorem heightNode_le {chain : List (Node Subscription)} {entry : Node Subscription}
    (member : entry ∈ chain) : heightNode entry ≤ heightChain chain := by
  induction chain with
  | nil => cases member
  | cons head rest ih =>
    rw [heightChain]
    rcases List.mem_cons.mp member with rfl | inside
    · exact Nat.le_max_left _ _
    · exact Nat.le_trans (ih inside) (Nat.le_max_right _ _)

theorem heightChain_le {buckets : List (List (Node Subscription))}
    {chain : List (Node Subscription)} (member : chain ∈ buckets) :
    heightChain chain ≤ heightBuckets buckets := by
  induction buckets with
  | nil => cases member
  | cons head rest ih =>
    rw [heightBuckets]
    rcases List.mem_cons.mp member with rfl | inside
    · exact Nat.le_max_left _ _
    · exact Nat.le_trans (ih inside) (Nat.le_max_right _ _)

theorem height_succ (curNode : Subscription) : ∃ n, curNode.height = n + 1 := by
  cases curNode with
  | node _ childNodes => exact ⟨heightMap childNodes, by rw [height]⟩

/-- Every child is less high than its parent. -/
theorem child_height (held : curNode.child key = some below) : below.height < curNode.height := by
  cases curNode with
  | node maxQos childNodes =>
    obtain ⟨entry, found, rfl⟩ := Option.map_eq_some_iff.mp held
    have inChain : entry ∈ childNodes.bucket key := List.mem_of_find?_eq_some found
    have inBuckets : childNodes.bucket key ∈ childNodes.buckets := by
      unfold bucket at inChain ⊢
      rw [List.getD_eq_getElem?_getD] at inChain ⊢
      cases at_id : childNodes.buckets[bucketOf childNodes.capacity key]? with
      | none => simp [at_id] at inChain
      | some chain => exact List.mem_of_getElem? at_id
    have low := Nat.le_trans (heightNode_le inChain) (heightChain_le inBuckets)
    have whole : (Subscription.node maxQos childNodes).height =
        heightBuckets childNodes.buckets + 1 := by
      rw [height]
      cases childNodes
      rfl
    rw [whole]
    cases entry
    exact Nat.lt_succ_of_le low

/-! The child of a node whose table has been written. -/

@[simp] theorem maxQos_node (qos : UInt8) (m : Myhashmap Subscription) :
    (Subscription.node qos m).maxQos = qos := rfl

@[simp] theorem childNodes_node (qos : UInt8) (m : Myhashmap Subscription) :
    (Subscription.node qos m).childNodes = m := rfl

@[simp] theorem child_node (qos : UInt8) (key : Key) :
    (Subscription.node qos curNode.childNodes).child key = curNode.child key := rfl

theorem child_rewritten (buckets : 0 < curNode.childNodes.capacity) (qos : UInt8) (key other : Key)
    (data : Subscription) :
    (Subscription.node qos (curNode.childNodes.rewritten key data)).child other =
      if other = key then (curNode.child key).map fun _ => data else curNode.child other := by
  rw [child, childNodes_node, find_rewritten buckets]
  split
  · rw [child, Option.map_map, Option.map_map]
    rfl
  · rfl

theorem child_removed (buckets : 0 < curNode.childNodes.capacity) (qos : UInt8) (key other : Key)
    {rest : List (Node Subscription)} (unique : ((curNode.childNodes.bucket key).map Node.key).Nodup)
    (unlinked : unlink key (curNode.childNodes.bucket key) = some rest) :
    (Subscription.node qos (curNode.childNodes.removed key rest)).child other =
      if other = key then none else curNode.child other := by
  rw [child, childNodes_node, find_removed other buckets unique unlinked]
  split <;> rfl

theorem child_appended (buckets : 0 < curNode.childNodes.capacity) (qos : UInt8) (key other : Key)
    (data : Subscription) :
    (Subscription.node qos (curNode.childNodes.appended key data)).child other =
      (curNode.child other).or (if other = key then some data else none) := by
  rw [child, childNodes_node, find_appended buckets, child]
  cases find other (curNode.childNodes.bucket other) with
  | some entry => rfl
  | none => split <;> rfl

theorem child_emptied (buckets : 0 < curNode.childNodes.capacity) {crowding : Key}
    (crowded : curNode.childNodes.Crowded crowding) (qos : UInt8) (key : Key) :
    (Subscription.node qos curNode.childNodes.emptied).child key = none :=
  child_of_get (emptied_get buckets crowded key)

end Children

/-! ### A node without children -/

/-- A node as `Subscription()` makes it, with the given QoS. -/
def leaf (qos : UInt8) : Subscription := .node qos { buckets := [[]] }

theorem new_eq : Subscription.new [] = (leaf emptyQos, []) := rfl

@[simp] theorem leaf_bucket (qos : UInt8) (topic : Key) : (leaf qos).childNodes.bucket topic = [] := by
  simp only [bucket, leaf, childNodes]
  cases bucketOf _ topic <;> rfl

@[simp] theorem leaf_child (qos : UInt8) (key : Key) : (leaf qos).child key = none := by
  rw [child, leaf_bucket]
  rfl

theorem leaf_get_empty (qos : UInt8) : (leaf qos).childNodes.get [] = .ok none := rfl

/-- From a leaf on, the empty level in front of a separator is added again and
again. -/
theorem leaf_endless (fuel : Nat) (rest : Key) (qos held : UInt8) :
    addSub fuel (separator :: rest) qos (leaf held) [] = .error .endless := by
  induction fuel generalizing held with
  | zero => rfl
  | succ fuel ih =>
    have added : (leaf held).childNodes.add [] (leaf emptyQos) [] =
        .ok (true, (leaf held).childNodes.appended [] (leaf emptyQos), []) :=
      add_roomy Nat.one_pos fun crowded => crowded.1 rfl
    have got : ((leaf held).childNodes.appended [] (leaf emptyQos)).get [] =
        .ok (some (leaf emptyQos)) := rfl
    simp [addSub, leaf_get_empty, new_eq, added, got, ih, bind, Except.bind]

theorem of_map_ok {f : α → β} {outcome : Outcome α} {answer : β} (ended : outcome.map f = .ok answer) :
    ∃ found, outcome = .ok found := by
  cases outcome with
  | error fault => cases ended
  | ok found => exact ⟨found, rfl⟩

theorem of_map_error {f : α → β} {outcome : Outcome α} {fault : Fault}
    (faulted : outcome.map f = .error fault) : outcome = .error fault := by
  cases outcome with
  | error fault' => exact congrArg Except.error (Except.error.inj faulted)
  | ok found => cases faulted

/-- A subscription to a level completes only on a table with buckets. -/
theorem capacity_of_addSub {tree : Subscription} {topic : Key} (named : topic ≠ []) {fuel : Nat}
    {qos : UInt8} {heap : Heap} {result : UInt8 × Subscription × Heap}
    (ended : addSub fuel topic qos tree heap = .ok result) :
    0 < tree.childNodes.capacity := by
  have some : ¬ topic.length = 0 := fun zero => named (List.eq_nil_of_length_eq_zero zero)
  cases fuel with
  | zero => cases ended
  | succ fuel =>
    rw [addSub, if_neg some] at ended
    cases got : tree.childNodes.get (level topic) with
    | error fault =>
      rw [got] at ended
      cases ended
    | ok found => exact capacity_of_get got

/-! ### The empty levels behind a separator -/

/-- Every node down the empty levels has a bucket, the first one included. -/
def Bucketed (curNode : Subscription) : Prop :=
  ∀ n below, nodeAt (List.replicate n []) curNode = some below → 0 < below.childNodes.capacity

theorem bucketed_iff (curNode : Subscription) :
    Bucketed curNode ↔ 0 < curNode.childNodes.capacity ∧
      ∀ below, curNode.child [] = some below → Bucketed below := by
  constructor
  · intro bucketed
    refine ⟨bucketed 0 curNode rfl, fun below held n deeper at_n => bucketed (n + 1) deeper ?_⟩
    rw [List.replicate_succ, nodeAt, held]
    exact at_n
  · rintro ⟨buckets, below⟩ n deeper at_n
    cases n with
    | zero =>
      cases at_n
      exact buckets
    | succ n =>
      rw [List.replicate_succ, nodeAt] at at_n
      obtain ⟨next, held, rest⟩ := Option.bind_eq_some_iff.mp at_n
      exact below next held n deeper rest

/-- Where the way down runs into a node without a bucket and the first lookup
completes, it leads to a node from which it does so too. -/
theorem not_bucketed_child {curNode : Subscription} (bare : ¬ Bucketed curNode)
    {found : Option Subscription} (got : curNode.childNodes.get [] = .ok found) :
    ∃ below, found = some below ∧ ¬ Bucketed below := by
  rw [bucketed_iff] at bare
  have held := child_of_get got
  cases found with
  | none => exact absurd ⟨capacity_of_get got, fun below there => by rw [held] at there; cases there⟩ bare
  | some below =>
    refine ⟨below, rfl, fun deeper => bare ⟨capacity_of_get got, fun other there => ?_⟩⟩
    rw [held] at there
    cases there
    exact deeper

/-- Behind a separator a lookup goes down the empty levels and finds nothing. -/
theorem isSubedToLoop_separator {fuel : Nat} {curNode : Subscription} (bucketed : Bucketed curNode)
    (rest : Key) (high : curNode.height ≤ fuel) :
    isSubedToLoop fuel (separator :: rest) curNode = .ok emptyQos := by
  induction fuel generalizing curNode with
  | zero =>
    obtain ⟨n, height⟩ := height_succ curNode
    omega
  | succ fuel ih =>
    obtain ⟨buckets, deeper⟩ := (bucketed_iff curNode).mp bucketed
    rw [isSubedToLoop, if_neg (by simp), level_cons_separator, afterLevel_cons_separator,
      get_child buckets]
    cases held : curNode.child [] with
    | none => rfl
    | some below =>
      have lower := child_height held
      exact ih (deeper below held) (by omega)

/-- Without buckets the empty key is looked for outside of them. -/
theorem get_empty_bare {m : Myhashmap Subscription} (bare : ¬ 0 < m.capacity) :
    m.get [] = .error .outOfBounds := by
  have none : m.buckets = [] := List.eq_nil_of_length_eq_zero (Nat.eq_zero_of_not_pos bare)
  simp [Myhashmap.get, index, chain, none, bind, Except.bind]

/-- A node without a bucket down the empty levels stops every lookup. -/
theorem isSubedToLoop_bare {fuel : Nat} {curNode : Subscription} (bare : ¬ Bucketed curNode)
    (rest : Key) (high : curNode.height ≤ fuel) :
    isSubedToLoop fuel (separator :: rest) curNode = .error .outOfBounds := by
  induction fuel generalizing curNode with
  | zero =>
    obtain ⟨n, height⟩ := height_succ curNode
    omega
  | succ fuel ih =>
    rw [isSubedToLoop, if_neg (by simp), level_cons_separator, afterLevel_cons_separator]
    by_cases buckets : 0 < curNode.childNodes.capacity
    · have got := get_child buckets []
      obtain ⟨below, held, deeper⟩ := not_bucketed_child bare got
      have lower := child_height held
      rw [got, held]
      exact ih deeper (by omega)
    · rw [get_empty_bare buckets]
      rfl

end MqttBroker.Subscription
