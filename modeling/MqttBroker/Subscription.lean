import MqttBroker.Myhashmap

/-! `Subscription`, the tree of topic levels under a client. The source walks
it with pointers; here a walk that writes rebuilds the nodes above it, and a
pointer kept for later is the path of keys from the root. -/
namespace MqttBroker

def emptyQos : UInt8 := 255

def subErrorCode : UInt8 := 0x80

/-- `'/'` -/
def separator : UInt8 := 0x2F

inductive Subscription
  | node (maxQos : UInt8) (childNodes : Myhashmap Subscription)

namespace Subscription

def maxQos : Subscription → UInt8
  | .node maxQos _ => maxQos

def childNodes : Subscription → Myhashmap Subscription
  | .node _ childNodes => childNodes

/-- `Subscription()`, with one bucket for children. -/
def new (heap : Heap) : Subscription × Heap :=
  let childNodes := Myhashmap.ofCapacity 1 heap
  (.node emptyQos childNodes.1, childNodes.2)

/-! The number of nodes on the longest branch. -/
mutual
def height : Subscription → Nat
  | .node _ childNodes => heightMap childNodes + 1
def heightMap : Myhashmap Subscription → Nat
  | ⟨buckets, _, _⟩ => heightBuckets buckets
def heightBuckets : List (List (Node Subscription)) → Nat
  | [] => 0
  | chain :: rest => max (heightChain chain) (heightBuckets rest)
def heightChain : List (Node Subscription) → Nat
  | [] => 0
  | entry :: rest => max (heightNode entry) (heightChain rest)
def heightNode : Node Subscription → Nat
  | ⟨_, data⟩ => height data
end

/-- The topic up to its next separator, and what `topic_ptr` and `len` stand
for afterwards: the separator is not skipped. -/
def level (topic : Key) : Key := topic.takeWhile (· ≠ separator)

def afterLevel (topic : Key) : Key := topic.drop (level topic).length

/-- `add_sub` as a loop of at most `fuel` iterations. -/
def addSub : Nat → Key → UInt8 → Subscription → Heap → Outcome (UInt8 × Subscription × Heap)
  | 0, _, _, _, _ => .error .endless
  | fuel + 1, topic, qos, curNode, heap =>
    if topic.length = 0 then .ok (qos, .node qos curNode.childNodes, heap)
    else do
      match ← curNode.childNodes.get (level topic) with
      | some tmp =>
        let below ← addSub fuel (afterLevel topic) qos tmp heap
        .ok (below.1, .node curNode.maxQos (curNode.childNodes.rewritten (level topic) below.2.1),
          below.2.2)
      | none =>
        if heap.alloc.1 then
          let fresh := new heap.alloc.2
          let added ← curNode.childNodes.add (level topic) fresh.1 fresh.2
          match ← added.2.1.get (level topic) with
          | none => .ok (subErrorCode, .node curNode.maxQos added.2.1, added.2.2)
          | some tmp =>
            let below ← addSub fuel (afterLevel topic) qos tmp added.2.2
            .ok (below.1, .node curNode.maxQos (added.2.1.rewritten (level topic) below.2.1),
              below.2.2)
        else .ok (subErrorCode, curNode, heap.alloc.2)

/-- A loop that ends within its fuel ends the same way with more. -/
theorem addSub_more {fuel : Nat} {topic : Key} {qos : UInt8} {curNode : Subscription} {heap : Heap}
    {result : UInt8 × Subscription × Heap} (ended : addSub fuel topic qos curNode heap = .ok result) :
    addSub (fuel + 1) topic qos curNode heap = .ok result := by
  induction fuel generalizing topic curNode heap result with
  | zero => cases ended
  | succ fuel ih =>
    rw [addSub] at ended ⊢
    by_cases done : topic.length = 0
    · rwa [if_pos done] at ended ⊢
    · rw [if_neg done] at ended ⊢
      simp only [bind, Except.bind] at ended ⊢
      cases got : curNode.childNodes.get (level topic) with
      | error fault => rw [got] at ended; cases ended
      | ok found =>
        rw [got] at ended
        cases found with
        | some tmp =>
          simp only at ended ⊢
          cases below : addSub fuel (afterLevel topic) qos tmp heap with
          | error fault => rw [below] at ended; cases ended
          | ok reply => rwa [ih below, ← below]
        | none =>
          simp only at ended ⊢
          split at ended
          · rename_i room
            rw [if_pos room]
            cases added : curNode.childNodes.add (level topic) (new heap.alloc.2).1
                (new heap.alloc.2).2 with
            | error fault => rw [added] at ended; cases ended
            | ok stored =>
              rw [added] at ended
              simp only at ended ⊢
              cases again : stored.2.1.get (level topic) with
              | error fault => rw [again] at ended; cases ended
              | ok found =>
                rw [again] at ended
                cases found with
                | none => exact ended
                | some tmp =>
                  simp only at ended ⊢
                  cases below : addSub fuel (afterLevel topic) qos tmp stored.2.2 with
                  | error fault => rw [below] at ended; cases ended
                  | ok reply => rwa [ih below, ← below]
          · rename_i full
            rwa [if_neg full]

/-- Two bounds under which the loop ends do not change how it ends. -/
theorem addSub_unique {fuel fuel' : Nat} {topic : Key} {qos : UInt8} {curNode : Subscription}
    {heap : Heap} {result result' : UInt8 × Subscription × Heap}
    (ended : addSub fuel topic qos curNode heap = .ok result)
    (ended' : addSub fuel' topic qos curNode heap = .ok result') : result = result' := by
  have more : ∀ n fuel result, addSub fuel topic qos curNode heap = .ok result →
      addSub (fuel + n) topic qos curNode heap = .ok result := by
    intro n fuel result ended
    induction n with
    | zero => exact ended
    | succ n ih => exact addSub_more ih
  have first := more fuel' fuel result ended
  rw [Nat.add_comm, more fuel fuel' result' ended'] at first
  exact (Except.ok.inj first).symm

/-- `is_subed_to` as a loop of at most `fuel` iterations. -/
def isSubedToLoop : Nat → Key → Subscription → Outcome UInt8
  | 0, _, _ => .error .endless
  | fuel + 1, topic, curNode =>
    if topic.length = 0 then .ok curNode.maxQos
    else do
      match ← curNode.childNodes.get (level topic) with
      | none => .ok emptyQos
      | some child => isSubedToLoop fuel (afterLevel topic) child

/-- Every iteration goes one node down, so the height is fuel enough. -/
def isSubedTo (topic : Key) (curNode : Subscription) : Outcome UInt8 :=
  isSubedToLoop (curNode.height + 1) topic curNode

/-- What the walk of `delete_sub` decides to do with the tree. -/
inductive Cut
  | nothing
  | clear (path : List Key)
  | erase (parent : List Key) (key : Key)

/-- The walk of `delete_sub` as a loop of at most `fuel` iterations. `cur_node`
stays where it is, so every level is looked up at the node the walk begins at.
`delParent` is the path of `del_parent` from there. -/
def deleteWalk : Nat → Key → Subscription → (delParent : List Key) → Option Key → Outcome Cut
  | 0, _, _, _, _ => .error .endless
  | fuel + 1, topic, curNode, delParent, delTopic =>
    if topic.length = (level topic).length then do
      match ← curNode.childNodes.get (level topic) with
      | none => .error .nullDeref
      | some gnode =>
        if gnode.childNodes.count > 0 then .ok (.clear [level topic])
        else
          match delTopic with
          | some key => .ok (.erase delParent key)
          | none => .ok (.erase [] (level topic))
    else do
      match ← curNode.childNodes.get (level topic) with
      | none => .ok .nothing
      | some delPNode =>
        if delPNode.maxQos ≠ emptyQos ∨ delPNode.childNodes.count > 1 then
          deleteWalk fuel (afterLevel topic) curNode [level topic] none
        else
          deleteWalk fuel (afterLevel topic) curNode delParent (delTopic.or (some (level topic)))

/-- The tree with the node at `path` rewritten. -/
def modifyAt (f : Subscription → Outcome Subscription) : List Key → Subscription → Outcome Subscription
  | [], curNode => f curNode
  | key :: rest, curNode => do
    match ← curNode.childNodes.get key with
    | none => .error .nullDeref
    | some child =>
      let below ← modifyAt f rest child
      .ok (.node curNode.maxQos (curNode.childNodes.rewritten key below))

/-- A walk that has not ended within the height of the tree goes on for ever. -/
def deleteSub (topic : Key) (curNode : Subscription) : Outcome Subscription := do
  match ← deleteWalk (curNode.height + 1) topic curNode [] none with
  | .nothing => .ok curNode
  | .clear path => modifyAt (fun gnode => .ok (.node emptyQos gnode.childNodes)) path curNode
  | .erase parent key =>
    modifyAt (fun delParent => do
      let childNodes ← delParent.childNodes.erase key
      .ok (.node delParent.maxQos childNodes)) parent curNode

end Subscription
end MqttBroker
