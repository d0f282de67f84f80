import MqttBroker.Protocol.PublishPacket
import MqttBroker.Worker.Items

/-! Wills. The payload of a will is handed to `publish_by_topic` as it is, where
the packet of a PUBLISH belongs. -/
namespace MqttBroker

/-- A connection with a client ends by a DISCONNECT. -/
def Event.Disconnects (conn : Nat) : Event → Prop
  | .dropping _ sockst false => sockst.client.isSome ∧ sockst.tls = conn
  | _ => False

/-- A connection with a client ends in another way: it is dropped with its will
sent, or taken over. -/
def Event.EndsOtherwise (conn : Nat) : Event → Prop
  | .dropping _ sockst true => sockst.client.isSome ∧ sockst.tls = conn
  | .evicting _ victim _ _ => victim.client.isSome ∧ victim.tls = conn
  | _ => False

/-- A will is published for a connection. -/
def Event.wills (conn : Nat) : Event → Bool
  | .willed of .. => of = conn
  | _ => false

instance (conn : Nat) : DecidablePred (Event.Disconnects conn) := fun e => by
  unfold Event.Disconnects
  split <;> infer_instance

instance (conn : Nat) : DecidablePred (Event.EndsOtherwise conn) := fun e => by
  rcases e with ⟨⟩
  case dropping sendwill => rcases sendwill with ⟨⟩ <;> dsimp only [Event.EndsOtherwise] <;> infer_instance
  all_goals
    dsimp only [Event.EndsOtherwise]
    infer_instance

namespace Wills
open Protocol Worker World

/-- If the connection ended without a DISCONNECT, its will has been published
once, and that as a PUBLISH with the will's topic, payload and QoS; after a
DISCONNECT none has been. -/
structure Kept (trace : List Event) (conn : Nat) (will : Will) : Prop where
  published : (∃ e ∈ trace, e.EndsOtherwise conn) → ∃ frame retain,
    trace.filter (Event.wills conn) = [.willed conn will.topic.elems will.msg.elems will.qos frame] ∧
      Carries frame will.topic.elems will.msg.elems will.qos retain
  withheld : (∃ e ∈ trace, e.Disconnects conn) → trace.filter (Event.wills conn) = []

variable {w w' : World} {owed owed' : List Admitted} {masked masked' : Masked} {conn : Nat} {will : Will}

theorem sessionAct_logs (act : SessionAct w masked w' masked') :
    ∃ events, w'.trace = events ++ w.trace ∧ ∀ e ∈ events, e.OfSession := by
  cases act with
  | phase | name | burn | touch | hide | unhide | vanish => exact ⟨[], rfl, List.forall_mem_nil _⟩
  | connecting | acceptNew | evict | acceptStored | resubscribe | disconnect | erase | detach =>
    exact ⟨[_], rfl, List.forall_mem_singleton.mpr trivial⟩

theorem messageAct_logs (act : MessageAct w owed w' owed') :
    ∃ events, w'.trace = events ++ w.trace ∧ ∀ e ∈ events, e.OfMessage := by
  have counts : ∀ node, (Event.uncounting node).OfMessage := fun _ => trivial
  have added {w w' : World} {sock : Fin 64} {item : PackidStateItem} (added : ItemAdded w sock item w') :
      ∃ e : Event, w'.trace = e :: w.trace ∧ e.OfMessage := by
    rcases trace_added added with ⟨i, same⟩ | same
    · exact ⟨_, same, trivial⟩
    · exact ⟨_, same, trivial⟩
  cases act with
  | await => exact ⟨[], rfl, List.forall_mem_nil _⟩
  | start | accept | readd | retire | unheard | unknown | reply | send | matched | answer | resend =>
    exact ⟨[_], rfl, List.forall_mem_singleton.mpr trivial⟩
  | enter | refuse | retainRefused => exact ⟨[_, _], rfl, by simp [Event.OfMessage]⟩
  | retainNew => exact ⟨[_, _, _, _], rfl, by simp [Event.OfMessage]⟩
  | retainReplace =>
    exact ⟨_, forget_grown [_, _, _] rfl, forgotten_all counts (by simp [Event.OfMessage])⟩
  | enqueue _ _ _ _ _ _ _ _ adds =>
    obtain ⟨e, grown, kind⟩ := added adds
    refine ⟨[.counting _, e], congrArg (_ :: ·) grown, ?_⟩
    exact List.forall_mem_cons.mpr ⟨trivial, List.forall_mem_singleton.mpr kind⟩
  | deliver _ _ _ _ adds =>
    obtain ⟨e, grown, kind⟩ := added adds
    refine ⟨[.sought .., .counting _, e], congrArg (_ :: _ :: ·) grown, ?_⟩
    exact List.forall_mem_cons.mpr ⟨trivial, List.forall_mem_cons.mpr ⟨trivial, List.forall_mem_singleton.mpr kind⟩⟩
  | incoming _ _ _ _ adds =>
    obtain ⟨e, grown, kind⟩ := added adds
    exact ⟨[e], grown, List.forall_mem_singleton.mpr kind⟩
  | release => exact ⟨_, forget_grown [] rfl, forgotten_all counts (List.forall_mem_nil _)⟩
  | abandon =>
    exact ⟨_, forget_grown [_] rfl, forgotten_all counts (List.forall_mem_singleton.mpr trivial)⟩

/-- The wills published are those of connections that `drop_conn` has ended, and
the packet is the payload. -/
def Bare (trace : List Event) : Prop :=
  ∀ conn topic payload qos frame, .willed conn topic payload qos frame ∈ trace →
    frame = payload ∧ ∃ e ∈ trace, e.EndsOtherwise conn

theorem Bare.grown {trace events : List Event} (bare : Bare trace)
    (none : ∀ e ∈ events, ∀ conn, ¬ e.wills conn) : Bare (events ++ trace) := by
  intro conn topic payload qos frame member
  rcases List.mem_append.mp member with member | member
  · exact absurd (decide_eq_true rfl) (none _ member conn)
  · obtain ⟨raw, e, ended, ends⟩ := bare conn topic payload qos frame member
    exact ⟨raw, e, List.mem_append_right _ ended, ends⟩

theorem bare_act {c c' : Config} (bare : Bare c.world.trace) (act : Act c c') : Bare c'.world.trace := by
  cases act with
  | quiet quiet =>
    obtain ⟨_, _, rfl⟩ := quiet
    exact bare
  | @note w _ _ e neutral =>
    intro conn topic payload qos frame member
    rcases List.mem_cons.mp member with rfl | member
    · obtain ⟨raw, sock, sockst, dropped, attached, same⟩ := neutral
      exact ⟨raw, _, List.mem_cons_of_mem _ dropped, attached, same⟩
    · obtain ⟨raw, e, ended, ends⟩ := bare conn topic payload qos frame member
      exact ⟨raw, e, List.mem_cons_of_mem _ ended, ends⟩
  | session act =>
    obtain ⟨events, grown, kind⟩ := sessionAct_logs act
    rw [grown]
    refine bare.grown fun e member conn wills => ?_
    cases e <;> first | exact absurd wills Bool.false_ne_true | exact kind _ member
  | message act =>
    obtain ⟨events, grown, kind⟩ := messageAct_logs act
    rw [grown]
    refine bare.grown fun e member conn wills => ?_
    cases e <;> first | exact absurd wills Bool.false_ne_true | exact kind _ member

theorem bare_reachable (reachable : Reachable w) : Bare w.trace := by
  refine reachable.invariant (fun c => Bare c.world.trace) (fun _ => ?_) fun _ _ => bare_act
  exact fun _ _ _ _ _ member => absurd member List.not_mem_nil

/-- A will's payload is no packet with that payload. -/
theorem not_carries_itself {payload topic : List UInt8} {qos : UInt8} {retain : Bool} :
    ¬ Carries payload topic payload qos retain := by
  rintro ⟨m, decoded, -, same, -⟩
  have shorter := payload_shorter decoded
  rw [same] at shorter
  exact absurd shorter (lt_irrefl _)

/-- No will is published as it should be. -/
theorem not_kept (reachable : Reachable w) (ended : ∃ e ∈ w.trace, e.EndsOtherwise conn) :
    ¬ Kept w.trace conn will := by
  intro kept
  obtain ⟨frame, retain, published, carries⟩ := kept.published ended
  have found : .willed conn will.topic.elems will.msg.elems will.qos frame ∈ w.trace.filter (Event.wills conn) := by
    rw [published]
    exact List.mem_singleton_self _
  rw [(bare_reachable reachable _ _ _ _ _ (List.mem_of_mem_filter found)).1] at carries
  exact not_carries_itself carries

/-- What a will demands of its connection is met exactly if the connection did
not end without a DISCONNECT. -/
theorem will_kept_iff (reachable : Reachable w) (conn : Nat) (will : Will) :
    Kept w.trace conn will ↔ ¬ ∃ e ∈ w.trace, e.EndsOtherwise conn := by
  constructor
  · exact fun kept ended => not_kept reachable ended kept
  · intro orderly
    refine ⟨fun ended => absurd ended orderly, fun _ => ?_⟩
    refine List.filter_eq_nil_iff.mpr fun e member wills => ?_
    cases e with
    | willed =>
      have same := of_decide_eq_true wills
      exact orderly (same ▸ (bare_reachable reachable _ _ _ _ _ member).2)
    | _ => exact absurd wills Bool.false_ne_true

/-- A CONNECT with client id "a", a clean session and the will "!" for topic "t". -/
def willConnect : List UInt8 :=
  [0x10, 19, 0, 4, 0x4D, 0x51, 0x54, 0x54, 4, 6, 0, 60, 0, 1, 97, 0, 1, 116, 0, 1, 33]

/-- The client with that will is accepted on the first connection. -/
def accepts : Event → Bool
  | .acknowledged conn _ _ will _ _ _ =>
    decide (conn = 1 ∧ will.presenceFlag ∧ will.topic.elems = [116] ∧ will.msg.elems = [33])
  | _ => false

theorem accepted {trace : List Event} (shown : trace.any accepts) : ∃ clientid clean will prev connack subscriptions,
    .acknowledged 1 clientid clean will prev connack subscriptions ∈ trace ∧ will.presenceFlag := by
  obtain ⟨e, member, shown⟩ := List.any_eq_true.mp shown
  cases e with
  | acknowledged conn clientid clean will prev connack subscriptions =>
    obtain ⟨rfl, present, -⟩ := of_decide_eq_true shown
    exact ⟨clientid, clean, will, prev, connack, subscriptions, member, present⟩
  | _ => exact absurd shown Bool.false_ne_true

/-- A client with a will that disconnects. -/
theorem disconnect_keeps_will : ∃ w clientid clean will prev connack subscriptions, Reachable w ∧
    .acknowledged 1 clientid clean will prev connack subscriptions ∈ w.trace ∧ will.presenceFlag ∧
    (∃ e ∈ w.trace, e.Disconnects 1) ∧ Kept w.trace 1 will := by
  obtain ⟨w, -, reachable, shown⟩ := reached_run .clean
    [accepting 1, reading 1 willConnect, reading 1 (some [0xE0, 0])]
    (fun w => w.trace.any accepts && (decide (∃ e ∈ w.trace, e.Disconnects 1) &&
      decide (¬ ∃ e ∈ w.trace, e.EndsOtherwise 1))) (by decide +kernel)
  simp only [Bool.and_eq_true, decide_eq_true_eq] at shown
  obtain ⟨clientid, clean, will, prev, connack, subscriptions, member, present⟩ := accepted shown.1
  exact ⟨w, clientid, clean, will, prev, connack, subscriptions, reachable, member, present, shown.2.1,
    (will_kept_iff reachable 1 will).mpr shown.2.2⟩

/-- A read error has the payload alone published, a takeover nothing. -/
theorem wills_lost : (∃ w clientid clean will prev connack subscriptions, Reachable w ∧
      .acknowledged 1 clientid clean will prev connack subscriptions ∈ w.trace ∧ will.presenceFlag ∧
      .willed 1 [116] [33] 0 [33] ∈ w.trace ∧ ¬ Kept w.trace 1 will) ∧
    ∃ w clientid clean will prev connack subscriptions, Reachable w ∧
      .acknowledged 1 clientid clean will prev connack subscriptions ∈ w.trace ∧ will.presenceFlag ∧
      w.trace.filter (Event.wills 1) = [] ∧ ¬ Kept w.trace 1 will := by
  constructor
  · obtain ⟨w, -, reachable, shown⟩ := reached_run .clean
      [accepting 1, reading 1 willConnect, reading 1 none]
      (fun w => w.trace.any accepts && (decide (∃ e ∈ w.trace, e.EndsOtherwise 1) &&
        w.trace.any fun
          | .willed conn topic payload qos frame =>
            decide (conn = 1 ∧ topic = [116] ∧ payload = [33] ∧ qos = 0 ∧ frame = [33])
          | _ => false)) (by decide +kernel)
    simp only [Bool.and_eq_true, decide_eq_true_eq] at shown
    obtain ⟨clientid, clean, will, prev, connack, subscriptions, member, present⟩ := accepted shown.1
    refine ⟨w, clientid, clean, will, prev, connack, subscriptions, reachable, member, present, ?_,
      not_kept reachable shown.2.1⟩
    obtain ⟨e, published, shown⟩ := List.any_eq_true.mp shown.2.2
    cases e with
    | willed =>
      obtain ⟨rfl, rfl, rfl, rfl, rfl⟩ := of_decide_eq_true shown
      exact published
    | _ => exact absurd shown Bool.false_ne_true
  · obtain ⟨w, -, reachable, shown⟩ := reached_run .clean
      [accepting 1, reading 1 willConnect, accepting 2, reading 2 (connectPacket [97] 2)]
      (fun w => w.trace.any accepts && (decide (∃ e ∈ w.trace, e.EndsOtherwise 1) &&
        (w.trace.filter (Event.wills 1)).isEmpty)) (by decide +kernel)
    simp only [Bool.and_eq_true, decide_eq_true_eq] at shown
    obtain ⟨clientid, clean, will, prev, connack, subscriptions, member, present⟩ := accepted shown.1
    exact ⟨w, clientid, clean, will, prev, connack, subscriptions, reachable, member, present,
      List.isEmpty_iff.mp shown.2.2, not_kept reachable shown.2.1⟩

end Wills

end MqttBroker
