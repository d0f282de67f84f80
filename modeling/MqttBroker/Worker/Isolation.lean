import MqttBroker.Worker.Items

/-! Connections on one socket number. An item outlives the connection it was
made for, and what the next connection on the number sends and receives is
matched with it. -/
namespace MqttBroker
open Worker World

/-- A packet written for an item, or an acknowledgement matched with one, is of
the connection the item was made for. -/
def Event.Isolated : Event → Prop
  | .wrote _ sockst _ (some item) => item.origin.conn = sockst.tls
  | .acked _ sockst _ item => item.origin.conn = sockst.tls
  | _ => True

/-- A connection is set up on a socket without items in use, and no
acknowledgement has the packet id of a free item. -/
def Event.Settled : Event → Prop
  | .started _ items => ∀ item ∈ items, item.packetId = 0
  | .acked _ _ packetId _ => packetId ≠ 0
  | _ => True

instance : DecidablePred Event.Isolated := fun e => by
  rcases e with ⟨⟩
  case wrote item => rcases item with ⟨⟩ <;> dsimp only [Event.Isolated] <;> infer_instance
  all_goals
    dsimp only [Event.Isolated]
    infer_instance

instance : DecidablePred Event.Settled := fun e => by
  rcases e with ⟨⟩ <;> dsimp only [Event.Settled] <;> infer_instance

/-- The items in use are of the connections of their sockets. -/
def Isolated (w : World) : Prop :=
  (∀ sock, ∀ item ∈ w.items sock, item.packetId ≠ 0 →
      item.origin.conn = (w.socks sock).tls) ∧
    ∀ e ∈ w.trace, e.Isolated

namespace Isolated

variable {w w' : World} {sock : Fin 64} {item : PackidStateItem} {owed owed' : List Admitted}

theorem event_other {e : Event} (other : ¬ e.OfMessage) : e.Isolated := by
  cases e with
  | wrote _ _ _ item =>
    cases item with
    | none => trivial
    | some => exact absurd trivial other
  | acked => exact absurd trivial other
  | _ => trivial

theorem frame (kept : MessagesKept w w') (isolated : Isolated w) : Isolated w' := by
  obtain ⟨events, grown, others⟩ := kept.trace
  refine ⟨fun sock item member used => ?_, fun e member => ?_⟩
  · rw [kept.items] at member
    rw [kept.tls]
    exact isolated.1 sock item member used
  · rw [grown] at member
    rcases List.mem_append.mp member with member | member
    · exact event_other (others e member)
    · exact isolated.2 e member

/-- A step that changes no item and no connection. -/
theorem of_same (events : List Event) (isolated : Isolated w) (socks : w'.socks = w.socks)
    (grown : w'.trace = events ++ w.trace) (fine : ∀ e ∈ events, e.Isolated) : Isolated w' := by
  refine ⟨fun sock item member used => ?_, fun e member => ?_⟩
  · rw [items, socks] at member
    rw [socks]
    exact isolated.1 sock item member used
  · rw [grown] at member
    exact (List.mem_append.mp member).elim (fine e) (isolated.2 e)

theorem log {e : Event} (isolated : Isolated w) (fine : e.Isolated) : Isolated (w.log e) :=
  isolated.of_same [e] rfl rfl (List.forall_mem_singleton.mpr fine)

theorem added (isolated : Isolated w) (conn : item.origin.conn = (w.socks sock).tls)
    (added : ItemAdded w sock item w') : Isolated w' := by
  refine ⟨fun s x member used => ?_, fun e member => ?_⟩
  · rw [tls_added added]
    rcases mem_added added member with member | ⟨rfl, rfl⟩
    · exact isolated.1 s x member used
    · exact conn
  · rcases trace_added added with ⟨i, same⟩ | same <;> rw [same] at member <;>
      exact List.forall_mem_cons.mpr ⟨trivial, isolated.2⟩ e member

/-- An item that is changed stays free, or in use for its connection. -/
theorem changed {i : Nat} {f : PackidStateItem → PackidStateItem} (isolated : Isolated w)
    (at_i : (w.items sock)[i]? = some item)
    (id : (f item).packetId = item.packetId ∨ (f item).packetId = 0)
    (origin : (f item).origin = item.origin) : Isolated (w.setItem sock i f) := by
  refine ⟨fun s x member used => ?_, isolated.2⟩
  rw [tls_setItem]
  rcases mem_setItem at_i member with member | ⟨rfl, rfl⟩
  · exact isolated.1 s x member used
  · rw [origin]
    refine isolated.1 s item (List.mem_of_getElem? at_i) ?_
    rcases id with same | free
    · rwa [same] at used
    · exact absurd free used

theorem start (isolated : Isolated w) (free : ∀ item ∈ w.items sock, item.packetId = 0) :
    Isolated { (w.log (.started sock (w.items sock))).setSock sock ({ · with tls := w.nextTls }) with
      nextTls := w.nextTls + 1 } := by
  refine ⟨fun s item member used => ?_, (isolated.log (e := .started sock _) trivial).2⟩
  by_cases here : s = sock
  · subst here
    simp only [items, setSock_socks] at member
    exact absurd (free item member) used
  · simp only [items, setSock_other _ _ here] at member ⊢
    exact isolated.1 s item member used

/-- Every step with messages keeps the connections apart, if the run meets the
condition. -/
theorem kept (act : MessageAct w owed w' owed') (meets : ∀ e ∈ w'.trace, e.Settled)
    (isolated : Isolated w) : Isolated w' := by
  cases act with
  | start sock =>
    exact isolated.start (meets (.started sock _) List.mem_cons_self)
  | enter m qos =>
    exact isolated.of_same [.adding _ _ _ _ _ _, .distributing m.publisher m.topic m.frame qos m.packetId] rfl
      rfl (by simp [Event.Isolated])
  | @refuse _ packetId topic frame qos _ publisher =>
    exact isolated.of_same [.adding _ _ _ _ _ _, .distributing publisher topic frame qos packetId] rfl
      rfl (by simp [Event.Isolated])
  | accept => exact isolated.log trivial
  | readd =>
    exact isolated.of_same [.adding _ _ _ _ _ _] rfl rfl (List.forall_mem_singleton.mpr trivial)
  | retainRefused packetId topic frame qos =>
    exact isolated.of_same [.adding _ _ _ _ _ _, .retain topic frame qos packetId] rfl rfl
      (by simp [Event.Isolated])
  | enqueue _ _ _ _ _ _ _ _ added =>
    exact (isolated.added rfl added).of_same [.counting _] rfl rfl
      (List.forall_mem_singleton.mpr trivial)
  | deliver _ _ _ _ added =>
    exact (isolated.added rfl added).of_same [.sought _ _ _ _, .counting _] rfl rfl
      (by simp [Event.Isolated])
  | unheard | unknown => exact isolated.log trivial
  | retire => exact isolated.of_same [.uncounting _] rfl rfl (List.forall_mem_singleton.mpr trivial)
  | @retainNew _ _ packetId frame qos _ topic =>
    exact isolated.of_same
      [.keeping _ _ _, .retaining packetId, .adding _ _ _ _ _ _, .retain topic frame qos packetId] rfl
      rfl (by simp [Event.Isolated])
  | @retainReplace _ _ packetId frame qos _ topic =>
    exact isolated.of_same _ (forget_socks _)
      (forget_grown [.retaining packetId, .adding _ _ _ _ _ _, .retain topic frame qos packetId] rfl)
      (forgotten_all (fun _ => trivial) (by simp [Event.Isolated]))
  | incoming sock _ conn _ added => exact isolated.added conn added
  | reply sock bytes f at_i used _ advances =>
    obtain ⟨-, -, id, origin⟩ := advances.kept
    exact (isolated.log (e := .wrote sock _ _ (some _))
      (isolated.1 sock _ (List.mem_of_getElem? at_i) used)).changed at_i id origin
  | resend => exact isolated.log trivial
  | send sock qos deleteRetain at_i _ live =>
    refine isolated.log (isolated.1 sock _ (List.mem_of_getElem? at_i) ?_)
    rcases live with used | ⟨conn, acked⟩
    · exact used
    · exact meets _ (List.mem_cons_of_mem _ acked)
  | matched sock at_i =>
    have used := meets _ List.mem_cons_self
    exact isolated.log (isolated.1 sock _ (List.mem_of_getElem? at_i) used)
  | answer sock f at_i _ advances =>
    have used := meets (.acked sock _ _ _) List.mem_cons_self
    obtain ⟨-, -, id, origin⟩ := advances.kept
    exact (isolated.log (e := .acked sock _ _ _)
      (isolated.1 sock _ (List.mem_of_getElem? at_i) used)).changed at_i id origin
  | await sock at_i => exact isolated.changed at_i (.inl rfl) rfl
  | release sock packetId f at_i _ _ _ releases =>
    obtain ⟨ends, origin⟩ := releases.kept
    have id := ends.symm.imp_left fun kept => kept.1
    exact (isolated.changed at_i id origin).of_same _ (forget_socks _) (forget_grown [] rfl)
      (forgotten_all (fun _ => trivial) (List.forall_mem_nil _))
  | abandon sock at_i =>
    exact ((isolated.log (e := .unsent _) trivial).changed at_i (.inr rfl) rfl).of_same _
      (forget_socks _) (forget_grown [] rfl) (forgotten_all (fun _ => trivial) (List.forall_mem_nil _))

/-- In a run that meets the condition no packet is written for an item of
another connection, and no acknowledgement is matched with one. -/
theorem connections_isolated (reachable : Reachable w) (meets : ∀ e ∈ w.trace, e.Settled) : Isolated w :=
  reachable.messages Event.Settled (fun w _ => Isolated w)
    (fun _ => ⟨fun _ _ member => absurd member List.not_mem_nil, List.forall_mem_nil _⟩) frame kept meets

/-- One connection on a socket after another, the first with its reply sent. -/
def repliedInTime : List (Message × Env) :=
  [accepting 1, reading 1 (connectPacket [97] 2), reading 1 (publishPacket 0x32 [116] [0, 5, 1]),
    writing 1, reading 1 none, accepting 1, reading 1 (connectPacket [98] 2)]

theorem replied_in_time : ∃ w, (initial .clean).run repliedInTime = .ok w ∧ Isolated w := by
  obtain ⟨w, ran, reachable, meets⟩ := reached_run .clean repliedInTime
    (fun w => w.trace.all fun e => decide e.Settled) (by decide +kernel)
  exact ⟨w, ran, connections_isolated reachable (by simpa using meets)⟩

/-- The first connection ends before its reply is sent. -/
def repliedLate : List (Message × Env) :=
  [accepting 1, reading 1 (connectPacket [97] 2), reading 1 (publishPacket 0x32 [116] [0, 5, 1]),
    reading 1 none, accepting 1, reading 1 (connectPacket [98] 2), writing 1]

/-- The next connection gets the PUBACK of the one before. -/
theorem replied_to_next_connection : ∃ w, (initial .clean).run repliedLate = .ok w ∧
    Reachable w ∧ ¬ ∀ e ∈ w.trace, e.Isolated := by
  obtain ⟨w, ran, reachable, seen⟩ := reached_run .clean repliedLate
    (fun w => !w.trace.all fun e => decide e.Isolated) (by decide +kernel)
  exact ⟨w, ran, reachable, by simpa using seen⟩

end Isolated
end MqttBroker
