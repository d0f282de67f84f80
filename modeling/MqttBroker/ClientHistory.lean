import Mathlib.Logic.Function.Basic
import MqttBroker.Client
import MqttBroker.SubscriptionWalks

/-! Histories of `subscribe`, `unsubscribe` and `del_subs` on one client,
against the map from topics to the last QoS subscribed.

The walks do not skip the separator after a level, so a topic with a separator
has endlessly many empty levels: subscribing to one never ends. The histories
that work keep the tree one level deep (`Flat`). -/
namespace MqttBroker.ClientHistory
open Myhashmap Subscription

inductive Op
  | subscribe (topic : Key) (qos : UInt8)
  | unsubscribe (topic : Key)
  | delSubs

/-- The QoS `is_subscribed` should answer with. -/
abbrev Entries := Key → UInt8

def Entries.call (entries : Entries) : Op → Entries
  | .subscribe topic qos => Function.update entries topic qos
  | .unsubscribe topic => Function.update entries topic emptyQos
  | .delSubs => fun _ => emptyQos

/-- The call ends, every allocation succeeding, and a subscription is answered
with the QoS it asked for. -/
def Performs (client : Client) : Op → Client → Prop
  | .subscribe topic qos, after => ∃ fuel heap, client.subscribe fuel topic qos [] = .ok (qos, after, heap)
  | .unsubscribe topic, after => client.unsubscribe topic = .ok after
  | .delSubs, after => after = (client.delSubs []).1

def Agrees (client : Client) (entries : Entries) : Prop :=
  ∀ topic, client.isSubscribed topic = .ok (entries topic)

/-- Every call of the history performs, and `is_subscribed` is right before
and after each of them. -/
def Conforms : Client → Entries → List Op → Prop
  | client, entries, [] => Agrees client entries
  | client, entries, op :: rest =>
    Agrees client entries ∧ ∃ after, Performs client op after ∧ Conforms after (entries.call op) rest

/-- The node directly below the root for a topic. -/
def child (client : Client) (topic : Key) : Option (Node Subscription) :=
  find topic (client.subscriptions.childNodes.bucket topic)

/-- A subscription is to a topic without a separator, and does not grow the
root's table; a topic that is unsubscribed has a separator or a node of its
own. -/
def Plain (client : Client) : Op → Prop
  | .subscribe topic _ => separator ∉ topic ∧
      (topic = [] ∨ (child client topic).isSome ∨ ¬ client.subscriptions.childNodes.Crowded topic)
  | .unsubscribe topic => separator ∈ topic ∨ (child client topic).isSome
  | .delSubs => True

/-- Every call of the history is plain in the state in which it is made. -/
def PlainHistory : Client → List Op → Prop
  | _, [] => True
  | client, op :: rest => Plain client op ∧ ∃ after, Performs client op after ∧ PlainHistory after rest

/-! ### A tree one level deep -/

/-- The subscriptions are leaves directly below the root, each under the topic
it is for. -/
structure Flat (client : Client) (entries : Entries) : Prop where
  buckets : 0 < client.subscriptions.childNodes.capacity
  unsized : client.subscriptions.childNodes.size = 0
  root : client.subscriptions.maxQos = entries []
  leaves : ∀ topic node, child client topic = some node →
    node.data = leaf (entries topic) ∧ topic ≠ [] ∧ separator ∉ topic
  others : ∀ topic, topic ≠ [] → child client topic = none → entries topic = emptyQos
  unique : ∀ topic, ((client.subscriptions.childNodes.bucket topic).map Node.key).Nodup

section Flat
variable {client after : Client} {entries : Entries} {topic : Key} {qos : UInt8}

theorem Flat.get (flat : Flat client entries) (key : Key) :
    client.subscriptions.childNodes.get key = .ok ((child client key).map Node.data) :=
  get_eq flat.buckets key

theorem Flat.nested (flat : Flat client entries) (nested : separator ∈ topic) :
    entries topic = emptyQos := by
  refine flat.others topic (List.ne_nil_of_mem nested) ?_
  cases found : child client topic with
  | none => rfl
  | some node => exact absurd nested (flat.leaves topic node found).2.2

theorem Flat.child_empty (flat : Flat client entries) : child client [] = none := by
  cases found : child client [] with
  | none => rfl
  | some node => exact absurd rfl (flat.leaves [] node found).2.1

theorem Flat.agrees (flat : Flat client entries) : Agrees client entries := by
  intro topic
  obtain ⟨n, high⟩ := height_succ client.subscriptions
  rw [Client.isSubscribed, isSubedTo, high]
  by_cases empty : topic = []
  · subst empty
    simp [isSubedToLoop, flat.root]
  · have named : ¬ topic.length = 0 := fun zero => empty (List.eq_nil_of_length_eq_zero zero)
    rw [isSubedToLoop, if_neg named, flat.get (level topic)]
    by_cases nested : separator ∈ topic
    · obtain ⟨rest, shape⟩ := afterLevel_separator nested
      cases found : child client (level topic) with
      | none => exact congrArg Except.ok (flat.nested nested).symm
      | some node =>
        simp [isSubedToLoop, (flat.leaves _ node found).1, shape, leaf_get_empty,
          flat.nested nested, bind, Except.bind]
    · rw [level_whole nested, afterLevel_whole nested]
      cases found : child client topic with
      | none => exact congrArg Except.ok (flat.others topic empty found).symm
      | some node =>
        simp [isSubedToLoop, (flat.leaves _ node found).1, leaf, maxQos, bind, Except.bind]

/-- The client with another table below the root. -/
def below (client : Client) (childNodes : Myhashmap Subscription) : Client :=
  { client with subscriptions := .node client.subscriptions.maxQos childNodes }

@[simp] theorem below_childNodes (childNodes : Myhashmap Subscription) :
    (below client childNodes).subscriptions.childNodes = childNodes := rfl

@[simp] theorem child_below (childNodes : Myhashmap Subscription) :
    child (below client childNodes) topic = find topic (childNodes.bucket topic) := rfl

/-- Writing one bucket leaves the keys of the others alone. -/
private theorem unique_set {m : Myhashmap Subscription} (buckets : 0 < m.capacity)
    (unique : ∀ topic, ((m.bucket topic).map Node.key).Nodup) {chain : List (Node Subscription)}
    (kept : (chain.map Node.key).Nodup) (key other : Key) (n : Nat) :
    ((bucket { m with buckets := m.buckets.set (bucketOf m.capacity key) chain, count := n }
      other).map Node.key).Nodup := by
  rw [bucket_set buckets]
  split
  · exact kept
  · exact unique other

/-- A leaf written under a topic of its own keeps the tree flat. -/
private theorem flat_write (flat : Flat client entries) (topic : Key) (qos : UInt8)
    (named : topic ≠ []) (whole : separator ∉ topic) {childNodes : Myhashmap Subscription}
    (buckets : 0 < childNodes.capacity) (unsized : childNodes.size = 0)
    (found : ∀ other, find other (childNodes.bucket other) =
      if other = topic then some ⟨topic, leaf qos⟩ else child client other)
    (unique : ∀ other, ((childNodes.bucket other).map Node.key).Nodup) :
    Flat (below client childNodes) (entries.call (.subscribe topic qos)) := by
  refine ⟨buckets, unsized, ?_, fun other node held => ?_, fun other nonempty none => ?_, unique⟩
  · rw [Entries.call, Function.update_of_ne (Ne.symm named)]
    exact flat.root
  · rw [child_below, found] at held
    by_cases same : other = topic
    · rw [if_pos same] at held
      cases held
      rw [same, Entries.call, Function.update_self]
      exact ⟨rfl, named, whole⟩
    · rw [if_neg same] at held
      rw [Entries.call, Function.update_of_ne same]
      exact flat.leaves other node held
  · rw [child_below, found] at none
    by_cases same : other = topic
    · rw [if_pos same] at none
      cases none
    · rw [if_neg same] at none
      rw [Entries.call, Function.update_of_ne same]
      exact flat.others other nonempty none

/-- A plain subscription puts a leaf with the QoS under its topic. -/
theorem flat_subscribe (flat : Flat client entries) (plain : Plain client (.subscribe topic qos)) :
    ∃ after, Performs client (.subscribe topic qos) after ∧
      Flat after (entries.call (.subscribe topic qos)) := by
  obtain ⟨whole, ways⟩ := plain
  by_cases empty : topic = []
  · subst empty
    refine ⟨{ client with subscriptions := .node qos client.subscriptions.childNodes },
      ⟨1, [], rfl⟩, flat.buckets, flat.unsized, by simp [Entries.call, maxQos], ?_, ?_, flat.unique⟩
    · intro other node held
      obtain ⟨data, named, plain⟩ := flat.leaves other node held
      rw [Entries.call, Function.update_of_ne named]
      exact ⟨data, named, plain⟩
    · intro other named none
      rw [Entries.call, Function.update_of_ne named]
      exact flat.others other named none
  · have named : ¬ topic.length = 0 := fun zero => empty (List.eq_nil_of_length_eq_zero zero)
    have last : ∀ held, addSub 1 [] qos (leaf held) [] = .ok (qos, leaf qos, []) := fun _ => rfl
    cases found : child client topic with
    | some node =>
      have key : node.key = topic := by simpa using List.find?_some found
      refine ⟨below client (client.subscriptions.childNodes.rewritten topic (leaf qos)),
        ⟨2, [], ?_⟩,
        flat_write flat topic qos empty whole (by rw [rewritten_capacity]; exact flat.buckets)
          flat.unsized (fun other => ?_) (fun other => ?_)⟩
      · rw [Client.subscribe, addSub, if_neg named, level_whole whole, afterLevel_whole whole,
          flat.get topic, found]
        simp [(flat.leaves topic node found).1, last, below, bind, Except.bind]
      · rw [find_rewritten flat.buckets]
        by_cases same : other = topic
        · rw [if_pos same, if_pos same, ← child, found, Option.map_some, key]
        · rw [if_neg same, if_neg same, child]
      · refine unique_set flat.buckets flat.unique ?_ topic other _
        rw [map_key_setFirst]
        exact flat.unique topic
    | none =>
      have roomy : ¬ client.subscriptions.childNodes.Crowded topic := by
        rcases ways with nil | present | roomy
        · exact absurd nil empty
        · rw [found] at present
          cases present
        · exact roomy
      let added := client.subscriptions.childNodes.appended topic (leaf emptyQos)
      have buckets : 0 < added.capacity := by rw [appended_capacity]; exact flat.buckets
      have here : find topic (added.bucket topic) = some ⟨topic, leaf emptyQos⟩ := by
        rw [find_appended flat.buckets, ← child, found, if_pos rfl]
        rfl
      have unique : ∀ other, ((added.bucket other).map Node.key).Nodup := by
        intro other
        refine unique_set flat.buckets flat.unique ?_ topic other _
        rw [List.map_append, List.map_singleton, List.nodup_append]
        refine ⟨flat.unique topic, List.nodup_singleton _, ?_⟩
        rintro key member _ single rfl
        obtain ⟨node, held, rfl⟩ := List.mem_map.mp member
        have absent := List.find?_eq_none.mp found node held
        simp_all
      refine ⟨below client (added.rewritten topic (leaf qos)), ⟨2, [], ?_⟩,
        flat_write flat topic qos empty whole (by rw [rewritten_capacity]; exact buckets)
          flat.unsized (fun other => ?_) (fun other => ?_)⟩
      · have got : added.get topic = .ok (some (leaf emptyQos)) := by
          rw [get_eq buckets, here]
          rfl
        rw [Client.subscribe, addSub, if_neg named, level_whole whole, afterLevel_whole whole,
          flat.get topic, found]
        simp [new_eq, add_roomy flat.buckets roomy, got, added, last, below, bind, Except.bind]
      · rw [find_rewritten buckets]
        by_cases same : other = topic
        · rw [if_pos same, if_pos same, here]
          rfl
        · rw [if_neg same, if_neg same, find_appended flat.buckets, if_neg same, Option.or_none,
            child]
      · refine unique_set buckets unique ?_ topic other _
        rw [map_key_setFirst]
        exact unique topic

/-- A subscription that is not plain ends, if at all, in the emptied table of
the root. -/
private theorem rough_subscribe_ends (flat : Flat client entries)
    (rough : ¬ Plain client (.subscribe topic qos)) {fuel : Nat} {result : UInt8} {heap : Heap}
    (ended : client.subscribe fuel topic qos [] = .ok (result, after, heap)) :
    result = subErrorCode ∧ after = below client client.subscriptions.childNodes.emptied ∧
      topic ≠ [] ∧ client.subscriptions.childNodes.Crowded (level topic) := by
  have nonempty : topic ≠ [] := by
    rintro rfl
    exact rough ⟨List.not_mem_nil, .inl rfl⟩
  have named : ¬ topic.length = 0 := fun zero => nonempty (List.eq_nil_of_length_eq_zero zero)
  cases fuel with
  | zero => cases ended
  | succ fuel =>
    rw [Client.subscribe, addSub, if_neg named, flat.get] at ended
    cases found : child client (level topic) with
    | some node =>
      have nested : separator ∈ topic := by
        apply Classical.byContradiction
        intro whole
        rw [level_whole whole] at found
        exact rough ⟨whole, .inr (.inl (by rw [found]; rfl))⟩
      obtain ⟨rest, shape⟩ := afterLevel_separator nested
      simp [found, (flat.leaves _ node found).1, shape, leaf_endless, bind, Except.bind] at ended
    | none =>
      by_cases crowded : client.subscriptions.childNodes.Crowded (level topic)
      · have gone : client.subscriptions.childNodes.emptied.get (level topic) = .ok none :=
          emptied_get flat.buckets crowded _
        simp [found, new_eq, add_crowded flat.buckets flat.unsized crowded, gone, bind,
          Except.bind] at ended
        exact ⟨ended.1.symm, ended.2.1.symm, nonempty, crowded⟩
      · have nested : separator ∈ topic := by
          apply Classical.byContradiction
          intro whole
          rw [level_whole whole] at crowded
          exact rough ⟨whole, .inr (.inr crowded)⟩
        obtain ⟨rest, shape⟩ := afterLevel_separator nested
        have got : (client.subscriptions.childNodes.appended (level topic) (leaf emptyQos)).get
            (level topic) = .ok (some (leaf emptyQos)) := by
          rw [get_eq (by rw [appended_capacity]; exact flat.buckets), find_appended flat.buckets,
            ← child, found, if_pos rfl]
          rfl
        simp [found, new_eq, add_roomy flat.buckets crowded, got, shape, leaf_endless, bind,
          Except.bind] at ended

/-- A subscription that is not plain does not perform with the right answer
afterwards: it never ends, or it empties the root's table. -/
theorem rough_subscribe (flat : Flat client entries) (rough : ¬ Plain client (.subscribe topic qos))
    (performs : Performs client (.subscribe topic qos) after) :
    ¬ Agrees after (entries.call (.subscribe topic qos)) := by
  obtain ⟨fuel, heap, ended⟩ := performs
  obtain ⟨code, rfl, nonempty, crowded⟩ := rough_subscribe_ends flat rough ended
  intro agrees
  have named : ¬ topic.length = 0 := fun zero => nonempty (List.eq_nil_of_length_eq_zero zero)
  have right := agrees topic
  rw [Entries.call, Function.update_self, code, Client.isSubscribed, isSubedTo, isSubedToLoop,
    if_neg named, below_childNodes, emptied_get flat.buckets crowded] at right
  cases right

theorem flat_unsubscribe (flat : Flat client entries) (plain : Plain client (.unsubscribe topic)) :
    ∃ after, Performs client (.unsubscribe topic) after ∧
      Flat after (entries.call (.unsubscribe topic)) := by
  obtain ⟨n, high⟩ := height_succ client.subscriptions
  by_cases nested : separator ∈ topic
  · have unchanged : entries.call (.unsubscribe topic) = entries :=
      Function.update_eq_self_iff.mpr (flat.nested nested).symm
    refine ⟨client, ?_, by rw [unchanged]; exact flat⟩
    have walked : deleteWalk (client.subscriptions.height + 1) topic client.subscriptions [] none =
        .ok .nothing := by
      obtain ⟨rest, shape⟩ := afterLevel_separator nested
      rw [high, deleteWalk, if_neg (level_shorter nested), flat.get]
      cases found : child client (level topic) with
      | none => rfl
      | some node =>
        simp [deleteWalk, shape, flat.get, flat.child_empty, bind, Except.bind]
    simp [Performs, Client.unsubscribe, deleteSub, walked, bind, Except.bind]
  · obtain ⟨node, found⟩ := Option.isSome_iff_exists.mp (plain.resolve_left nested)
    obtain ⟨leafData, named, -⟩ := flat.leaves topic node found
    obtain ⟨rest, unlinked, erased⟩ := erase_found flat.buckets found
    have unique := flat.unique topic
    refine ⟨below client (client.subscriptions.childNodes.removed topic rest), ?_, ?_⟩
    · have walked : deleteWalk (client.subscriptions.height + 1) topic client.subscriptions []
          none = .ok (.erase [] topic) := by
        rw [deleteWalk, level_whole nested, if_pos rfl, flat.get, found]
        simp [leafData, leaf, childNodes, bind, Except.bind]
      simp [Performs, Client.unsubscribe, deleteSub, walked, modifyAt, erased, below, bind,
        Except.bind]
    · have gone := fun other => find_removed other flat.buckets unique unlinked
      refine ⟨by rw [below]; exact removed_capacity.trans_gt flat.buckets, flat.unsized, ?_, ?_, ?_, ?_⟩
      · rw [Entries.call, Function.update_of_ne (Ne.symm named)]
        exact flat.root
      · intro other entry held
        rw [child_below, gone] at held
        by_cases same : other = topic
        · rw [if_pos same] at held
          cases held
        · rw [if_neg same] at held
          rw [Entries.call, Function.update_of_ne same]
          exact flat.leaves other entry held
      · intro other nonempty none
        rw [child_below, gone] at none
        by_cases same : other = topic
        · rw [same, Entries.call, Function.update_self]
        · rw [if_neg same] at none
          rw [Entries.call, Function.update_of_ne same]
          exact flat.others other nonempty none
      · exact fun other => unique_set flat.buckets flat.unique
          (find_unlink topic unique unlinked).1 topic other _

/-- The node of a topic that has none is read all the same. -/
theorem rough_unsubscribe (flat : Flat client entries) (rough : ¬ Plain client (.unsubscribe topic)) :
    ¬ Performs client (.unsubscribe topic) after := by
  rw [Plain, not_or] at rough
  have absent : child client topic = none := by simpa using rough.2
  have walked : deleteWalk (client.subscriptions.height + 1) topic client.subscriptions [] none =
      .error .nullDeref := by
    rw [deleteWalk, level_whole rough.1, if_pos rfl, flat.get, absent]
    rfl
  simp [Performs, Client.unsubscribe, deleteSub, walked, bind, Except.bind]

theorem flat_delSubs : Flat (client.delSubs []).1 (entries.call .delSubs) :=
  ⟨Nat.one_pos, rfl, rfl, fun topic node held => by simp [child, Client.delSubs, new_eq, find] at held,
    fun _ _ _ => rfl, fun topic => by simp [Client.delSubs, new_eq]⟩

end Flat

/-- A plain call performs in one way, and keeps the tree flat. -/
theorem flat_call {client : Client} {entries : Entries} {op : Op} (flat : Flat client entries)
    (plain : Plain client op) :
    ∃ after, Performs client op after ∧ Flat after (entries.call op) ∧
      ∀ other, Performs client op other → other = after := by
  cases op with
  | subscribe topic qos =>
    obtain ⟨after, performs, flat'⟩ := flat_subscribe flat plain
    refine ⟨after, performs, flat', ?_⟩
    rintro other ⟨fuel, heap, ended⟩
    obtain ⟨fuel', heap', ended'⟩ := performs
    simp only [Client.subscribe, bind, Except.bind] at ended ended'
    cases first : client.subscriptions.addSub fuel topic qos [] with
    | error fault => rw [first] at ended; cases ended
    | ok result =>
      cases second : client.subscriptions.addSub fuel' topic qos [] with
      | error fault => rw [second] at ended'; cases ended'
      | ok result' =>
        obtain rfl := addSub_unique first second
        rw [first] at ended
        rw [second] at ended'
        cases ended
        cases ended'
        rfl
  | unsubscribe topic =>
    obtain ⟨after, performs, flat'⟩ := flat_unsubscribe flat plain
    exact ⟨after, performs, flat', fun other also => Except.ok.inj (also.symm.trans performs)⟩
  | delSubs => exact ⟨_, rfl, flat_delSubs, fun _ same => same⟩

theorem rough_call {client after : Client} {entries : Entries} {op : Op} (flat : Flat client entries)
    (rough : ¬ Plain client op) (performs : Performs client op after) :
    ¬ Agrees after (entries.call op) := by
  cases op with
  | subscribe topic qos => exact rough_subscribe flat rough performs
  | unsubscribe topic => exact absurd performs (rough_unsubscribe flat rough)
  | delSubs => exact absurd trivial rough

theorem Conforms.agrees {client : Client} {entries : Entries} {ops : List Op}
    (conforms : Conforms client entries ops) : Agrees client entries := by
  cases ops with
  | nil => exact conforms
  | cons _ _ => exact conforms.1

theorem conforms_iff_plain_from {client : Client} {entries : Entries} (flat : Flat client entries)
    (ops : List Op) : Conforms client entries ops ↔ PlainHistory client ops := by
  induction ops generalizing client entries with
  | nil => exact ⟨fun _ => trivial, fun _ => flat.agrees⟩
  | cons op rest ih =>
    constructor
    · rintro ⟨-, after, performs, rests⟩
      have plain : Plain client op := by
        apply Classical.byContradiction
        exact fun rough => rough_call flat rough performs rests.agrees
      obtain ⟨after', -, flat', only⟩ := flat_call flat plain
      obtain rfl := only after performs
      exact ⟨plain, after, performs, (ih flat').mp rests⟩
    · rintro ⟨plain, after, performs, rests⟩
      obtain ⟨after', -, flat', only⟩ := flat_call flat plain
      obtain rfl := only after performs
      exact ⟨flat.agrees, after, performs, (ih flat').mpr rests⟩

/-- A client as it is created, before any call. -/
def fresh : Client := (Client.new 0 []).1

/-- A history of a new client conforms exactly when every call in it is plain. -/
theorem conforms_iff_plain (ops : List Op) :
    Conforms fresh (fun _ => emptyQos) ops ↔ PlainHistory fresh ops :=
  conforms_iff_plain_from (@flat_delSubs fresh fun _ => emptyQos) ops

/-- Subscribing to `a/b` never ends. -/
theorem nested_topic_never_subscribed :
    (∀ fuel, fresh.subscribe fuel [97, separator, 98] 1 [] = .error .endless) ∧
      ¬ Conforms fresh (fun _ => emptyQos) [.subscribe [97, separator, 98] 1] := by
  have endless : ∀ fuel, fresh.subscribe fuel [97, separator, 98] 1 [] = .error .endless := by
    intro fuel
    cases fuel with
    | zero => rfl
    | succ fuel =>
      have split : level [97, separator, 98] = [97] := by decide
      have rest : afterLevel [97, separator, 98] = [separator, 98] := by decide
      have missing : fresh.subscriptions.childNodes.get [97] = .ok none := rfl
      have added : fresh.subscriptions.childNodes.add [97] (leaf emptyQos) [] =
          .ok (true, fresh.subscriptions.childNodes.appended [97] (leaf emptyQos), []) :=
        add_roomy Nat.one_pos fun crowded => crowded.1 rfl
      have found : (fresh.subscriptions.childNodes.appended [97] (leaf emptyQos)).get [97] =
          .ok (some (leaf emptyQos)) := rfl
      simp [Client.subscribe, addSub, split, rest, missing, new_eq, added, found, leaf_endless,
        bind, Except.bind]
  refine ⟨endless, ?_⟩
  rintro ⟨-, after, ⟨fuel, heap, performs⟩, -⟩
  rw [endless] at performs
  cases performs

end MqttBroker.ClientHistory
