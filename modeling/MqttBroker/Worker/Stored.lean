import MqttBroker.PublishHashmapReachability
import MqttBroker.Worker.Items

/-! What a step with messages does to their table. -/
namespace MqttBroker.World
open Worker PublishHashmap PublishHashmapReachability

/-- One change of the table; what is added has a property. -/
inductive StoreStep (P : UInt16 → List UInt8 → UInt8 → Prop) (m : PublishHashmap) : PublishHashmap → Prop
  | add {x : UInt16} {frame : List UInt8} {qos : UInt8} (count : UInt8) (heap : Heap) : P x frame qos →
      StoreStep P m (m.add x frame qos count heap).2.1
  | recount {x : UInt16} {i : Nat} (count : UInt8) : m.get x = some i →
      StoreStep P m { m with slots := m.slots.set i { slotAt m.slots i with count := count } }
  | erase (x : UInt16) : StoreStep P m (m.erase x)

section Steps
variable {P : UInt16 → List UInt8 → UInt8 → Prop} {Q : NodePubmap → Prop} {m m' : PublishHashmap}

theorem findable_steps (steps : Relation.ReflTransGen (StoreStep P) m m') (findable : Findable m) :
    Findable m' := by
  refine Logic.reached_invariant (fun m m' findable step => ?_) findable steps
  cases step with
  | add count heap => exact findable.add _ _ _ count heap
  | recount count found => exact findable.recount found count
  | erase x => exact findable.erase x

/-- A property of the slots that does not depend on their counts. -/
theorem slots_steps (steps : Relation.ReflTransGen (StoreStep P) m m') (free : Q {})
    (emptied : ∀ node, Q node → Q { node with data := [] })
    (recounted : ∀ node count, Q node → Q { node with count := count })
    (added : ∀ x frame qos count, P x frame qos → Q ⟨count, qos, x, frame⟩)
    (all : AllSlots Q m.slots) : AllSlots Q m'.slots := by
  induction steps with
  | refl => exact all
  | tail _ step ih =>
    cases step with
    | add count heap brought => exact ih.add free emptied (added _ _ _ count brought) heap
    | recount count => exact ih.set (recounted _ count (ih.slotAt free _)) _
    | erase x => exact ih.erase free x

/-- What a slot has under a packet id is a packet of a kind. -/
def Under (x : UInt16) (Kind : List UInt8 → Prop) (node : NodePubmap) : Prop :=
  node.pubpackId = x → node.data ≠ [] → Kind node.data

instance (x : UInt16) (Kind : List UInt8 → Prop) [DecidablePred Kind] : DecidablePred (Under x Kind) :=
  fun node => inferInstanceAs (Decidable (_ → _ → Kind node.data))

theorem under_steps {x : UInt16} {Kind : List UInt8 → Prop} (steps : Relation.ReflTransGen (StoreStep P) m m')
    (used : x ≠ 0) (added : ∀ y frame qos, P y frame qos → y = x → Kind frame)
    (under : AllSlots (Under x Kind) m.slots) : AllSlots (Under x Kind) m'.slots := by
  refine slots_steps steps ?_ ?_ ?_ ?_ under
  · exact fun free => absurd free.symm used
  · exact fun _ _ _ none => absurd rfl none
  · exact fun _ _ holds => holds
  · exact fun y frame qos _ brought same _ => added y frame qos brought same

end Steps

variable {w w' : World} {owed owed' : List Admitted}

/-- What a step does to the table: it brings nothing, or one message, with the
sockets and the table reported as they are before it, and changes no item then.
A message in the hands of `publish_by_topic` has been there before, or is the
one that comes. -/
inductive StoreAct (w : World) (owed : List Admitted) (w' : World) (owed' : List Admitted) : Prop
  | level : Relation.ReflTransGen (StoreStep fun _ _ _ => False) w.publishMsgStore w'.publishMsgStore →
      (∀ m ∈ owed', m.stamp.isSome → m ∈ owed) → StoreAct w owed w' owed'
  | brings {x : UInt16} {frame : List UInt8} {qos : UInt8} {ok : Bool} :
      .adding w.socks w.publishMsgStore x frame qos ok ∈ w'.trace → Source w'.trace x frame qos →
      w'.socks = w.socks →
      Relation.ReflTransGen (StoreStep fun x' frame' qos' => x' = x ∧ frame' = frame ∧ qos' = qos)
        w.publishMsgStore w'.publishMsgStore →
      (∀ m ∈ owed', m.stamp.isSome → m.packetId = x ∧ m.frame = frame ∧
        ∃ qos', .distributing m.publisher m.topic m.frame qos' x ∈ w'.trace) →
      StoreAct w owed w' owed'

theorem down_steps {P : UInt16 → List UInt8 → UInt8 → Prop} {x : UInt16} {i : Nat}
    (found : w.publishMsgStore.get x = some i) :
    Relation.ReflTransGen (StoreStep P) w.publishMsgStore (w.countDown i x).publishMsgStore := by
  have lowered : Relation.ReflTransGen (StoreStep P) w.publishMsgStore (w.lowered i) :=
    .single (.recount ((w.nodeAt i).count - 1) found)
  simp only [countDown]
  split
  · exact lowered.tail (.erase x)
  · exact lowered

theorem forget_steps {P : UInt16 → List UInt8 → UInt8 → Prop} (w : World) (x : UInt16) :
    Relation.ReflTransGen (StoreStep P) w.publishMsgStore (w.forget x).publishMsgStore := by
  unfold World.forget
  cases found : w.publishMsgStore.get x with
  | none => exact .refl
  | some i => exact down_steps found

/-- Nothing is added to a table for an id that it was just found to have. -/
theorem no_readd (findable : Findable w.publishMsgStore) {x y : UInt16} {j : Nat}
    (found : w.publishMsgStore.get y = some j) (same : (w.nodeAt j).pubpackId = x) :
    w.publishMsgStore.get x ≠ none := by
  have id : (w.nodeAt j).pubpackId = y := findable.shaped.get_id found
  rw [← same, id, found]
  exact Option.some_ne_none j

theorem store_act (act : MessageAct w owed w' owed') (findable : Findable w.publishMsgStore) :
    StoreAct w owed w' owed' := by
  have up {w₁ : World} {x : UInt16} {i : Nat} (same : w₁.publishMsgStore = w.publishMsgStore)
      (found : w.publishMsgStore.get x = some i) :
      Relation.ReflTransGen (StoreStep fun _ _ _ => False) w.publishMsgStore (w₁.countUp i).publishMsgStore := by
    rw [← same] at found ⊢
    exact .single (.recount _ found)
  have still : ∀ m ∈ owed, m.stamp.isSome → m ∈ owed := fun _ member _ => member
  have unstamped {owed : List Admitted} (none : ∀ m ∈ owed, m.stamp = none) {P : Admitted → Prop} :
      ∀ m ∈ owed, m.stamp.isSome → P m := by
    intro m member stamped
    rw [none m member] at stamped
    cases stamped
  have gone {P : Admitted → Prop} : ∀ m ∈ ([] : List Admitted), m.stamp.isSome → P m :=
    fun _ member => absurd member List.not_mem_nil
  cases act with
  | start | unheard | unknown | reply | send | matched | answer | resend | await => exact .level .refl still
  | accept => exact .level .refl (unstamped (List.forall_mem_singleton.mpr rfl))
  | incoming _ _ _ _ added =>
    refine .level ?_ still
    rw [(itemAdded_frame added).1]
  | enter m qos heap distributes =>
    refine .brings List.mem_cons_self (distributes.source.grown ⟨[_, _], rfl⟩) rfl
      (.single (.add 1 heap ⟨rfl, rfl, rfl⟩)) ?_
    intro m' member _
    obtain rfl := List.mem_singleton.mp member
    exact ⟨rfl, rfl, qos, List.mem_cons_of_mem _ List.mem_cons_self⟩
  | refuse _ _ _ _ heap distributes =>
    exact .brings List.mem_cons_self (distributes.source.grown ⟨[_, _], rfl⟩) rfl
      (.single (.add 1 heap ⟨rfl, rfl, rfl⟩)) gone
  | readd packetId y frame qos heap found same absent =>
    exact absurd absent (no_readd findable found same)
  | retainRefused _ _ _ _ heap _ none source =>
    exact .brings List.mem_cons_self (source.grown ⟨[_, _], rfl⟩) rfl (.single (.add 2 heap ⟨rfl, rfl, rfl⟩))
      (unstamped none)
  | retainNew _ _ _ heap _ _ _ none source =>
    exact .brings (List.mem_cons_of_mem _ (List.mem_cons_of_mem _ List.mem_cons_self))
      (source.grown ⟨[_, _, _, _], rfl⟩) rfl
      (.single (.add 2 heap ⟨rfl, rfl, rfl⟩)) (unstamped none)
  | retainReplace packetId frame qos heap taken before none source =>
    rename_i topic old
    let kept := ((w.log (.retain topic frame qos packetId)).stored packetId frame qos 2 heap).log
      (.retaining packetId)
    have came : Event.adding w.socks w.publishMsgStore packetId frame qos
        (w.publishMsgStore.add packetId frame qos 2 heap).1 ∈ (kept.forget old).trace :=
      logged_grown ⟨_, forget_trace _⟩ (List.mem_cons_of_mem _ List.mem_cons_self)
    have longer : ∃ events, (kept.forget old).trace = events ++ w.trace := ⟨_, forget_grown [_, _, _] rfl⟩
    exact .brings came (source.grown longer) (forget_socks _)
      (.head (.add 2 heap ⟨rfl, rfl, rfl⟩) (forget_steps kept old)) (unstamped none)
  | enqueue _ _ _ _ _ _ _ _ added found => exact .level (up (itemAdded_frame added).1 found) still
  | deliver _ _ _ found added => exact .level (up (itemAdded_frame added).1 found) still
  | retire _ _ found => exact .level (down_steps found) gone
  | release sock packetId f =>
    rename_i i item _ _ _ _ _
    exact .level (forget_steps (w.setItem sock i f) packetId) still
  | abandon sock =>
    rename_i i j item _ _ _ _ _
    exact .level (forget_steps ((w.log (.unsent item)).setItem sock i ({ · with packetId := 0 })) _) still

theorem findable_act (act : MessageAct w owed w' owed') (findable : Findable w.publishMsgStore) :
    Findable w'.publishMsgStore := by
  rcases store_act act findable with ⟨steps, -⟩ | ⟨-, -, -, steps, -⟩
  · exact findable_steps steps findable
  · exact findable_steps steps findable

theorem findable_initial (boot : Boot) : Findable (initial boot).publishMsgStore :=
  reached_findable (by decide) (by decide) (.refl : Reached 5 _)

theorem reachable_findable (reachable : Reachable w) : Findable w.publishMsgStore := by
  refine reachable.messages (fun _ => True) (fun w _ => Findable w.publishMsgStore) findable_initial ?_ ?_
    fun _ _ => trivial
  · intro w w' _ kept findable
    rw [kept.store]
    exact findable
  · exact fun act _ findable => findable_act act findable

end MqttBroker.World
