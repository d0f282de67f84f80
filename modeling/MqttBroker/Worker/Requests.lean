import MqttBroker.Server
import MqttBroker.Worker.Branches

/-! What one event asks of `socks_for_fds`, in order: the requests of each
fan-out and of each takeover come together, and every other request and close is
for the socket of the event. Unless its packet is a stray one, the event ends
with the socket closed or a request queued for it. -/
namespace MqttBroker
open Logic Server Worker World Conclusion Branches

/-- The stage after a call of the worker; `none` for a call that is not made in
this stage. -/
def Server.Stage.after : Stage → Event → Option Stage
  | .busy own concluded, .queued ⟨sock, .read⟩ ok | .busy own concluded, .queued ⟨sock, .write⟩ ok =>
    if sock = own then some (.busy own (concluded || ok)) else none
  | .busy own concluded, .queued ⟨target, .delread⟩ ok => some (.publishing own concluded target ok)
  | .busy own concluded, .queued ⟨prev, .delall⟩ _ =>
    some (if prev = own then .busy own false else .evicting own concluded prev)
  | .busy own _, .closed sock => if sock = own then some (.busy own true) else none
  | .publishing own concluded target queued, .queued ⟨sock, .write⟩ ok =>
    if sock = target then
      some (if ok then .busy own concluded else .retrying own concluded target queued)
    else none
  | .retrying own concluded target _, .queued ⟨sock, .read⟩ _ =>
    if sock = target then some (.busy own concluded) else none
  | .evicting own concluded prev, .closed sock => if sock = prev then some (.busy own concluded) else none
  | _, .queued .. | _, .closed _ => none
  | stage, _ => some stage

/-- The stage after these calls, oldest first. -/
def Server.Stage.run (stage : Stage) (calls : List Event) : Option Stage := calls.foldlM Stage.after stage

/-- A read request of this socket comes next. -/
def Retried (sock : Fin 64) : List Event → Prop
  | .queued ⟨target, .read⟩ _ :: _ => target = sock
  | _ => False

/-- What lets the worker conclude an event: a read request is queued, and so is
a write request unless a read request makes up for it. A packet of a connected
client is one that a branch is for, and no message is sent again for an
acknowledgement of the wrong length. -/
def Event.Heeded (later : List Event) : Event → Prop
  | .queued ⟨_, .read⟩ ok => ok = true
  | .queued ⟨sock, .write⟩ ok => ok = true ∨ Retried sock later
  | .received _ sockst packet => sockst.clientid = [] ∨ Recognised (packet.getD 0 0)
  | .resending .. => False
  | _ => True

/-- All of these calls are heeded, oldest first. -/
def Heeded : List Event → Prop
  | [] => True
  | e :: later => e.Heeded later ∧ Heeded later

namespace Requests

variable {own prev target sock : Fin 64} {concluded ok : Bool} {events early late later : List Event} {e : Event}
  {stage stage' : Stage} {w w₁ w' : World} {α β : Type}

theorem run_append (early late : List Event) :
    stage.run (early ++ late) = (stage.run early).bind (·.run late) := by
  simp only [Stage.run, List.foldlM_append]
  rfl

theorem run_cons (e : Event) (later : List Event) : stage.run (e :: later) = (stage.after e).bind (·.run later) := rfl

theorem heeded_of_append (heeded : Heeded (early ++ late)) : Heeded late := by
  induction early with
  | nil => exact heeded
  | cons e early ih => exact ih heeded.2

/-! ### Calls that are made together -/

/-- The worker may make these calls in an event of the socket, and owes it no
more after them than before. -/
def Plays (own : Fin 64) (events : List Event) : Prop :=
  ∀ concluded, ∃ still, (Stage.busy own concluded).run events = some (.busy own still) ∧
    (concluded = true → still = true)

/-- The worker may make these calls in an event of the socket, and has concluded
it after them if they are heeded. -/
def Settles (own : Fin 64) (events : List Event) : Prop :=
  ∀ concluded, ∃ still, (Stage.busy own concluded).run events = some (.busy own still) ∧
    ∀ later, (∀ sock, ¬ Retried sock later) → Heeded (events ++ later) → still = true

theorem plays_nil : Plays own [] := fun concluded => ⟨concluded, rfl, id⟩

theorem Plays.append (first : Plays own early) (rest : Plays own late) : Plays own (early ++ late) := by
  intro concluded
  obtain ⟨mid, begun, kept⟩ := first concluded
  obtain ⟨still, ended, kept'⟩ := rest mid
  refine ⟨still, ?_, fun held => kept' (kept held)⟩
  rw [run_append, begun]
  exact ended

theorem Settles.preceded (first : Plays own early) (rest : Settles own late) : Settles own (early ++ late) := by
  intro concluded
  obtain ⟨mid, begun, -⟩ := first concluded
  obtain ⟨still, ended, settled⟩ := rest mid
  refine ⟨still, ?_, fun later apart heeded => settled later apart ?_⟩
  · rw [run_append, begun]
    exact ended
  · rw [List.append_assoc] at heeded
    exact heeded_of_append heeded

/-- What comes after the conclusion does not begin with a read request. -/
theorem Settles.followed (first : Settles own early) (rest : Plays own late)
    (apart : ∀ later sock, (∀ sock, ¬ Retried sock later) → ¬ Retried sock (late ++ later)) :
    Settles own (early ++ late) := by
  intro concluded
  obtain ⟨mid, begun, settled⟩ := first concluded
  obtain ⟨still, ended, kept⟩ := rest mid
  refine ⟨still, ?_, fun later next heeded => kept ?_⟩
  · rw [run_append, begun]
    exact ended
  · rw [List.append_assoc] at heeded
    exact settled _ (fun sock => apart later sock next) heeded

/-- An event of this kind is no call that the stages are about. -/
def Calm : Event → Prop
  | .queued .. | .closed _ => False
  | _ => True

theorem after_calm (calm : Calm e) (stage : Stage) : stage.after e = some stage := by
  cases e <;> first | exact calm.elim | (cases stage <;> rfl)

theorem plays_calm (calm : ∀ e ∈ events, Calm e) : Plays own events := by
  induction events with
  | nil => exact plays_nil
  | cons e events ih =>
    obtain ⟨here, rest⟩ := List.forall_mem_cons.mp calm
    intro concluded
    rw [run_cons, after_calm here]
    exact ih rest concluded

/-- The events of a branch that only asks for its own socket. -/
def Tame (own : Fin 64) : Event → Prop
  | .queued ⟨sock, .read⟩ _ | .queued ⟨sock, .write⟩ _ => sock = own
  | .queued .. | .closed _ => False
  | _ => True

theorem after_tame (tame : Tame own e) :
    ∃ still, (Stage.busy own concluded).after e = some (.busy own still) ∧ (concluded = true → still = true) := by
  cases e with
  | queued msg ok =>
    obtain ⟨sock, op⟩ := msg
    cases op with
    | read | write =>
      refine ⟨concluded || ok, if_pos tame, fun held => ?_⟩
      rw [held, Bool.true_or]
    | delread | delall => exact tame.elim
  | closed => exact tame.elim
  | _ => exact ⟨concluded, rfl, id⟩

theorem plays_tame (tame : ∀ e ∈ events, Tame own e) : Plays own events := by
  induction events with
  | nil => exact plays_nil
  | cons e events ih =>
    obtain ⟨here, rest⟩ := List.forall_mem_cons.mp tame
    intro concluded
    obtain ⟨mid, begun, kept⟩ := @after_tame own concluded e here
    obtain ⟨still, ended, kept'⟩ := ih rest mid
    refine ⟨still, ?_, fun held => kept' (kept held)⟩
    rw [run_cons, begun]
    exact ended

theorem local_tame {sockst : SockCid} (held : e.Local own sockst True (OwnRequest own)) : Tame own e := by
  cases e with
  | queued msg ok =>
    obtain ⟨sock, op⟩ := msg
    obtain ⟨rfl, rfl | rfl⟩ : sock = own ∧ (op = .read ∨ op = .write) := held
    · rfl
    · rfl
  | closed => exact held.elim
  | _ => exact trivial

theorem tables_calm (e : Event) (kind : OfTables e) : Calm e := by
  cases e <;> first | exact trivial | exact kind.elim

/-- The first two requests of a fan-out, the second of which is queued. -/
theorem plays_offered (own target : Fin 64) (ok : Bool) :
    Plays own [.queued ⟨target, .delread⟩ ok, .queued ⟨target, .write⟩ true] := by
  intro concluded
  exact ⟨concluded, by simp [Stage.run, Stage.after], id⟩

/-- The three requests of a fan-out, the second of which is refused. -/
theorem plays_retried (own target : Fin 64) (ok ok' : Bool) :
    Plays own [.queued ⟨target, .delread⟩ ok, .queued ⟨target, .write⟩ false, .queued ⟨target, .read⟩ ok'] := by
  intro concluded
  exact ⟨concluded, by simp [Stage.run, Stage.after], id⟩

theorem plays_eviction (other : prev ≠ own) (ok : Bool) {victim : SockCid} {clientid : Key} {client : Client} :
    Plays own [.queued ⟨prev, .delall⟩ ok, .evicting prev victim clientid client, .closed prev] := by
  intro concluded
  exact ⟨concluded, by simp [Stage.run, Stage.after, other], id⟩

/-- Dropping the connection concludes the event, whatever is queued. -/
theorem run_dropped {sockst : SockCid} {sendwill : Bool} :
    (Stage.busy own concluded).run [.dropping own sockst sendwill, .queued ⟨own, .delall⟩ ok, .closed own] =
      some (.busy own true) := by
  simp [Stage.run, Stage.after]

/-! ### Along a run -/

/-- A run whose calls may be made in an event of the socket. -/
def Played (own : Fin 64) (w w' : World) : Prop :=
  ∃ events, w'.trace = events ++ w.trace ∧ Plays own events.reverse

/-- A run that concludes the event. -/
def Settled (own : Fin 64) (w w' : World) : Prop :=
  ∃ events, w'.trace = events ++ w.trace ∧ Settles own events.reverse

namespace Played

theorem refl (w : World) : Played own w w := ⟨[], rfl, plays_nil⟩

theorem trans {w₂ : World} (first : Played own w w₁) (rest : Played own w₁ w₂) : Played own w w₂ := by
  obtain ⟨early, grown, plays⟩ := first
  obtain ⟨late, grown', plays'⟩ := rest
  refine ⟨late ++ early, ?_, ?_⟩
  · rw [grown', grown, List.append_assoc]
  · rw [List.reverse_append]
    exact plays.append plays'

theorem log {e : Event} (calm : Calm e) : Played own w (w.log e) :=
  ⟨[e], rfl, plays_calm (List.forall_mem_singleton.mpr calm)⟩

theorem of_local (held : Local own True (OwnRequest own) w w') : Played own w w' := by
  obtain ⟨events, grown, fine⟩ := held.grown
  exact ⟨events, grown, plays_tame fun e member => local_tame (fine e (List.mem_reverse.mp member))⟩

end Played

theorem Settled.preceded (first : Played own w w₁) (rest : Settled own w₁ w') : Settled own w w' := by
  obtain ⟨early, grown, plays⟩ := first
  obtain ⟨late, grown', settles⟩ := rest
  refine ⟨late ++ early, ?_, ?_⟩
  · rw [grown', grown, List.append_assoc]
  · rw [List.reverse_append]
    exact .preceded plays settles

theorem played_bind {m : Worker α} {f : α → Worker β} (first : Along (Played own) m)
    (rest : ∀ a, Along (Played own) (f a)) : Along (Played own) (m >>= f) := by
  refine Along.bind ?_ first rest
  exact Played.trans

theorem played_local {m : Worker α} (held : Along (Local own True (OwnRequest own)) m) : Along (Played own) m :=
  held.mono fun _ _ => .of_local

theorem played_quiet {m : Worker α} (quiet : Along Quiet m) : Along (Played own) m := played_local (local_quiet quiet)

theorem played_shared {m : Worker α} (shared : Along (Undisturbed (Event.Shared (OwnRequest own))) m) :
    Along (Played own) m := played_local (local_shared shared)

theorem played_log (calm : Calm e) : Along (Played own) (Worker.log e) := by
  intro w u w' ran
  obtain rfl := log_ok.mp ran
  exact .log calm

theorem settled_bind {m : Worker α} {f : α → Worker β} (first : Along (Played own) m)
    (rest : ∀ a, Along (Settled own) (f a)) : Along (Settled own) (m >>= f) := by
  intro w b w' ran
  obtain ⟨a, mid, begun, ran⟩ := bind_ok.mp ran
  exact .preceded (first w a mid begun) (rest a mid b w' ran)

theorem settled_quiet {m : Worker α} {f : α → Worker β} (quiet : Along Quiet m)
    (rest : ∀ a, Along (Settled own) (f a)) : Along (Settled own) (m >>= f) := settled_bind (played_quiet quiet) rest

/-! ### Publishing and dropping -/

theorem sendtoque_trace {msg : Message} (ran : sendtoque msg w = .ok (ok, w')) :
    w'.trace = .queued msg ok :: w.trace := by
  obtain ⟨env, rfl⟩ := sendtoque_ok ran
  rfl

/-- A client that is offered a message has two or three requests made for it. -/
theorem played_fanOut (topic frame : List UInt8) (qos : UInt8) (packetId : UInt16) (publisher : Option Publisher)
    (stamp i : Nat) (nodes : List (Node Client)) :
    Along (Played own) (fanOut topic frame qos packetId publisher stamp i nodes) := by
  induction nodes with
  | nil => exact played_quiet (quiet_pure _)
  | cons node rest ih =>
    unfold fanOut
    split
    · refine played_bind (played_quiet (quiet_check _)) fun granted => ?_
      split
      · exact ih
      · cases node.data.sock with
        | none => exact fun _ _ _ ran => absurd ran fault_ok
        | some target =>
          intro w u w' ran
          obtain ⟨ok, w₁, first, ran⟩ := bind_ok.mp ran
          obtain ⟨asked, w₂, second, ran⟩ := bind_ok.mp ran
          have two : w₂.trace = [.queued ⟨target, .write⟩ asked, .queued ⟨target, .delread⟩ ok] ++ w.trace := by
            rw [sendtoque_trace second, sendtoque_trace first]
            rfl
          split at ran
          · rename_i asked
            subst asked
            refine Played.trans ⟨_, two, plays_offered own target ok⟩ ?_
            refine played_bind (played_quiet (quiet_sockAt _)) (fun sockst => ?_) _ _ _ ran
            refine played_bind (played_shared (shared_addPacketId _ _)) fun _ => ?_
            exact played_bind (played_shared (shared_countUp _)) fun _ => ih
          · rename_i asked
            rw [Bool.not_eq_true] at asked
            subst asked
            obtain ⟨ok', w₃, third, ran⟩ := bind_ok.mp ran
            have three : w₃.trace = [.queued ⟨target, .read⟩ ok', .queued ⟨target, .write⟩ false,
                .queued ⟨target, .delread⟩ ok] ++ w.trace := by
              rw [sendtoque_trace third, two]
              rfl
            exact Played.trans ⟨_, three, plays_retried own target ok ok'⟩ (ih _ _ _ ran)
    · exact ih

/-- The call that begins `publish_by_topic` is no read request. -/
theorem publishByTopic_played {topic frame : List UInt8} {qos : UInt8} {packetId : UInt16}
    {publisher : Option Publisher} {u : Unit}
    (ran : publishByTopic topic frame qos packetId publisher w = .ok (u, w')) :
    Played own (w.log (.distributing publisher topic frame qos packetId)) w' := by
  rw [publishByTopic, log_bind_ok, get_bind_ok] at ran
  refine played_bind (played_shared (shared_storeAdd _ _ _ _)) (fun _ => ?_) _ _ _ ran
  refine played_bind (played_quiet (quiet_storeGet _)) fun found => ?_
  cases found with
  | none => exact played_quiet (quiet_pure _)
  | some i =>
    intro w u w' ran
    rw [get_bind_ok, log_bind_ok] at ran
    refine Played.trans (.log (by exact trivial)) (played_bind (played_fanOut _ _ _ _ _ _ _ _) (fun _ => ?_) _ _ _ ran)
    exact played_shared (shared_countDown _ _)

theorem played_publishByTopic (topic frame : List UInt8) (qos : UInt8) (packetId : UInt16)
    (publisher : Option Publisher) : Along (Played own) (publishByTopic topic frame qos packetId publisher) :=
  fun _ _ _ ran => .trans (.log (by exact trivial)) (publishByTopic_played ran)

theorem played_publishWill (sockst : SockCid) (sendwill : Bool) :
    Along (Played own) (publishWill sockst sendwill) := by
  unfold publishWill
  cases sockst.client with
  | none => exact played_quiet (quiet_pure _)
  | some addr =>
    refine played_bind (played_quiet (quiet_deref _)) fun client => ?_
    have writes (f : Client → Client) : Along (Played own) (Worker.setClient (some addr) f) := by
      intro w u w' ran
      obtain ⟨_, -, rfl⟩ := setClient_ok ran
      exact .refl w
    split
    · refine played_bind (writes _) fun _ => played_bind (played_quiet quiet_random) fun _ => ?_
      refine played_bind (played_log (by exact trivial)) fun _ => ?_
      exact played_bind (played_publishByTopic _ _ _ _ _) fun _ => writes _
    · exact played_quiet (quiet_pure _)

theorem played_endSession (sock : Fin 64) : Along (Played own) (endSession sock) := by
  intro w u w' ran
  rw [endSession, sockAt_bind_ok] at ran
  obtain ⟨⟨⟩, w₁, released, ran⟩ := bind_ok.mp ran
  obtain rfl := setSock_ok.mp ran
  obtain ⟨events, grown, calm⟩ := releaseClient_trace (P := Calm) (fun _ _ => trivial) released
  exact ⟨events, grown, plays_calm fun e member => calm e (List.mem_reverse.mp member)⟩

/-- The rest of a call that has concluded the event. -/
theorem settles_concluded (concludes : ∀ concluded, (Stage.busy own concluded).run early = some (.busy own true))
    (rest : Plays own late) : Settles own (early ++ late) := by
  intro concluded
  obtain ⟨still, ended, kept⟩ := rest true
  refine ⟨still, ?_, fun _ _ _ => kept rfl⟩
  rw [run_append, concludes]
  exact ended

/-- Whatever follows the drop of the connection, the event is concluded. -/
theorem settled_drop_then {sendwill : Bool} {f : Unit → Worker β} (rest : Along (Played own) (f ())) :
    Along (Settled own) (dropConn own sendwill >>= f) := by
  intro w b w' ran
  obtain ⟨⟨⟩, mid, dropped, ran⟩ := bind_ok.mp ran
  rw [dropConn, sockAt_bind_ok, log_bind_ok] at dropped
  obtain ⟨ok, w₁, asked, dropped⟩ := bind_ok.mp dropped
  obtain ⟨env, rfl⟩ := sendtoque_ok asked
  rw [log_bind_ok, sockAt_bind_ok] at dropped
  have willed : Played own _ mid := played_bind (played_publishWill _ _) (fun _ => played_endSession own) _ _ _ dropped
  obtain ⟨events, grown, plays⟩ := willed.trans (rest _ _ _ ran)
  refine ⟨events ++ [.closed own, .queued ⟨own, .delall⟩ ok, .dropping own (w.socks own) sendwill], ?_, ?_⟩
  · rw [grown, List.append_assoc]
    rfl
  · rw [List.reverse_append]
    exact settles_concluded (fun _ => run_dropped) plays

theorem settled_dropConn (own : Fin 64) (sendwill : Bool) : Along (Settled own) (dropConn own sendwill) := by
  have ends : Along (Settled own) (dropConn own sendwill >>= fun _ => pure ()) :=
    settled_drop_then (played_quiet (quiet_pure _))
  rwa [bind_pure] at ends

/-! ### Requests for the socket itself -/

/-- A request for the socket settles it, if nothing after it is about the queue. -/
theorem settled_request {op : Operation} (asks : op = .read ∨ op = .write) {f : Bool → Worker β}
    (rest : ∀ ok, Along (Passes Calm) (f ok)) : Along (Settled own) (sendtoque ⟨own, op⟩ >>= f) := by
  intro w b w' ran
  obtain ⟨ok, mid, asked, ran⟩ := bind_ok.mp ran
  obtain ⟨events, grown, calm⟩ := rest ok _ _ _ ran
  refine ⟨events ++ [.queued ⟨own, op⟩ ok], ?_, ?_⟩
  · rw [grown, sendtoque_trace asked, List.append_assoc]
    rfl
  rw [List.reverse_append, List.reverse_singleton, List.singleton_append]
  have calm : ∀ e ∈ events.reverse, Calm e := fun e member => calm e (List.mem_reverse.mp member)
  intro concluded
  obtain ⟨still, ended, kept⟩ := plays_calm calm (concluded || ok)
  refine ⟨still, ?_, fun later apart heeded => kept ?_⟩
  · rw [run_cons]
    rcases asks with rfl | rfl <;> simpa [Stage.after] using ended
  have apart (sock : Fin 64) : ¬ Retried sock (events.reverse ++ later) := by
    cases split : events.reverse with
    | nil => exact apart sock
    | cons e early =>
      have here : Calm e := calm e (split ▸ List.mem_cons_self)
      cases e <;> first | exact here.elim | exact id
  have queued : ok = true := by
    rcases asks with rfl | rfl
    · exact heeded.1
    · exact heeded.1.resolve_right (apart own)
  rw [queued, Bool.or_true]

theorem settled_ask {op : Operation} (asks : op = .read ∨ op = .write) :
    Along (Settled own) (do let _ ← sendtoque ⟨own, op⟩) := settled_request asks fun _ => passes_pure _

theorem settled_answer (bytes : List UInt8) :
    Along (Settled own) (do
      let _ ← connWrite own bytes none
      let _ ← sendtoque ⟨own, .read⟩) :=
  settled_bind (played_local (local_write _ _)) fun _ => settled_ask (.inl rfl)

theorem calm_queueItem (state : PacketState) (packetid : UInt16) (qos : UInt8) (frame topic : List UInt8) (ok : Bool) :
    Along (Passes Calm) (if ok then do
      let sockst ← sockAt own
      addPacketId own ⟨packetid, state, qos, true, { conn := sockst.tls, frame, topic }⟩
      else pure ()) := by
  split
  · exact passes_bind (passes_quiet (quiet_sockAt _)) fun _ => passes_addPacketId tables_calm _ _
  · exact passes_pure _

theorem settled_reply (qos : UInt8) (packetid : UInt16) (frame topic : List UInt8) :
    Along (Settled own) (replyToPublisher own qos packetid frame topic) := by
  unfold replyToPublisher
  split
  · exact settled_request (.inr rfl) (calm_queueItem _ _ _ _ _)
  split
  · exact settled_request (.inr rfl) (calm_queueItem _ _ _ _ _)
  · exact settled_ask (.inl rfl)

theorem settled_publishEvent (own : Fin 64) (header : Header) : Along (Settled own) (publishEvent own header) := by
  refine settled_quiet (quiet_byteAt 0) fun head => ?_
  cases publishQos head with
  | none => exact settled_dropConn own true
  | some qos =>
    refine settled_quiet (quiet_ntohsAt _) fun topicLen => settled_quiet (quiet_rangeAt _ _) fun topic => ?_
    refine settled_quiet ?_ fun packetid => ?_
    · split
      · exact quiet_packetIdAt _
      · exact quiet_random
    refine settled_quiet (quiet_rangeAt _ _) fun frame => settled_quiet (quiet_sockAt _) fun sockst => ?_
    refine settled_bind (played_log (by exact trivial)) fun _ => ?_
    refine settled_bind ?_ fun _ => ?_
    · split
      · exact played_shared (shared_retainMessage _ _ _ _)
      · exact played_quiet (quiet_pure _)
    intro w u w' ran
    obtain ⟨⟨⟩, mid, replied, ran⟩ := bind_ok.mp ran
    obtain ⟨early, grown, settles⟩ := settled_reply _ _ _ _ _ _ _ replied
    obtain ⟨late, grown', plays⟩ := @publishByTopic_played own _ _ _ _ _ _ _ _ ran
    refine ⟨late ++ .distributing (some ⟨sockst.tls, sockst.clientid⟩) topic frame qos packetid :: early, ?_, ?_⟩
    · rw [grown', World.log, grown, List.append_assoc]
      rfl
    · rw [List.reverse_append, List.reverse_cons, List.append_assoc]
      refine settles.followed (Plays.append (plays_calm ?_) plays) fun _ _ _ => id
      exact List.forall_mem_singleton.mpr trivial

/-! ### SUBSCRIBE, UNSUBSCRIBE and DISCONNECT -/

theorem settled_subscribeEvent (own : Fin 64) (header : Header) : Along (Settled own) (subscribeEvent own header) := by
  refine settled_quiet (quiet_byteAt _) fun head => ?_
  split
  · exact settled_dropConn own true
  refine settled_quiet (quiet_onHeap _) fun suback => ?_
  split
  · exact settled_dropConn own true
  refine settled_quiet (quiet_byteAt _) fun msb => settled_quiet (quiet_byteAt _) fun lsb => ?_
  refine settled_bind (played_local (local_subscribeLoop (fun _ => id) trivial _ _ _ _)) fun suback => ?_
  refine settled_quiet (quiet_subackLength _ _ _ _ _) fun written => ?_
  cases written with
  | none => exact settled_dropConn own true
  | some suback => exact settled_answer _

/-- UNSUBSCRIBE with the wrong reserved bits drops the connection and goes on. -/
theorem settled_unsubscribeEvent (own : Fin 64) (header : Header) :
    Along (Settled own) (unsubscribeEvent own header) := by
  refine settled_quiet (quiet_byteAt _) fun head => ?_
  have topics (curPos : Nat) (packetLength : UInt16) :
      Along (Played own) (unsubscribeLoop own buffSize curPos packetLength) :=
    played_local (local_unsubscribeLoop trivial _ _ _)
  split
  · refine settled_drop_then (played_quiet (quiet_byteAt _) |> (played_bind · fun msb => ?_))
    refine played_bind (played_quiet (quiet_byteAt _)) fun lsb => played_bind (topics _ _) fun _ => ?_
    refine played_bind (played_quiet quiet_stackByte) fun byte => ?_
    refine played_bind (played_local (local_write _ _)) fun _ => ?_
    exact played_bind (played_shared (shared_request ⟨rfl, .inl rfl⟩)) fun _ => played_quiet (quiet_pure _)
  · refine settled_quiet (quiet_pure _) fun _ => settled_quiet (quiet_byteAt _) fun msb => ?_
    refine settled_quiet (quiet_byteAt _) fun lsb => settled_bind (topics _ _) fun _ => ?_
    exact settled_quiet quiet_stackByte fun _ => settled_answer _

theorem settled_disconnectEvent (own : Fin 64) : Along (Settled own) (disconnectEvent own) := by
  refine settled_quiet (quiet_sockAt _) fun sockst => settled_quiet (quiet_deref _) fun client => ?_
  refine settled_bind (played_log (by exact trivial)) fun _ => ?_
  refine settled_bind ?_ fun _ => settled_dropConn own false
  exact played_shared (shared_setClient _ fun _ _ => id)

/-! ### Acknowledgements -/

/-- An event that begins with a call that is not heeded. -/
theorem settles_unheeded (plays : Plays own (e :: events)) (unheeded : ∀ later, ¬ e.Heeded later) :
    Settles own (e :: events) := by
  intro concluded
  obtain ⟨still, ended, -⟩ := plays concluded
  exact ⟨still, ended, fun later _ heeded => absurd heeded.1 (unheeded _)⟩

/-- A message that is sent again concludes nothing, and is not heeded. -/
theorem settled_settle (own : Fin 64) (header : Header) (awaited : PacketState)
    (settled : PackidStateItem → PackidStateItem) {op : Operation} (asks : op = .read ∨ op = .write) :
    Along (Settled own) (settle own header awaited settled op) := by
  refine settled_bind (played_local (local_findItem trivial _)) fun found => ?_
  cases found.2 with
  | none => exact settled_dropConn own true
  | some entry =>
    refine settled_quiet (quiet_storeGet _) fun msgInfo => settled_quiet (quiet_wrongLength _) fun wrong => ?_
    split
    · cases msgInfo with
      | none => exact settled_dropConn own true
      | some node =>
        intro w u w' ran
        rw [get_bind_ok, log_bind_ok] at ran
        obtain ⟨events, grown, fine⟩ :=
          (local_publish _ _ _ _ _ _ _ _ _ ran : Local own True (OwnRequest own) _ _).grown
        refine ⟨events ++ [.resending entry.1 (w.nodeAt node)], ?_, ?_⟩
        · rw [grown, List.append_assoc]
          rfl
        rw [List.reverse_append, List.reverse_singleton, List.singleton_append]
        refine settles_unheeded (plays_tame ?_) fun _ => id
        exact List.forall_mem_cons.mpr ⟨trivial, fun e member => local_tame (fine e (List.mem_reverse.mp member))⟩
    · refine settled_bind (played_shared (shared_countDownIf _ _)) fun _ => ?_
      exact settled_bind (played_local (local_setItem _ _ _)) fun _ => settled_ask asks

theorem settled_advance (own : Fin 64) (header : Header) (awaited : PacketState)
    (advanced : PackidStateItem → PackidStateItem) {op : Operation} (asks : op = .read ∨ op = .write) :
    Along (Settled own) (advance own header awaited advanced op) := by
  refine settled_quiet (quiet_wrongLength _) fun wrong => ?_
  split
  · exact settled_dropConn own true
  refine settled_bind (played_local (local_findItem trivial _)) fun found => ?_
  cases found.2 with
  | none => exact settled_dropConn own true
  | some entry => exact settled_bind (played_local (local_setItem _ _ _)) fun _ => settled_ask asks

/-! ### CONNECT -/

/-- `connect_mqtt` makes no call that the stages are about. -/
theorem played_connectMqtt (own : Fin 64) (curPos : Nat) : Along (Played own) (connectMqtt own curPos) := by
  intro w ret w' ran
  rcases connectMqtt_names own curPos _ _ _ ran with ⟨-, kept⟩ | ⟨clientid, w₁, -, ⟨env, buf, rfl⟩, rfl⟩
  · exact .of_local kept
  · exact ⟨[], rfl, plays_nil⟩

theorem settled_acceptConnect (own : Fin 64) (clean : Bool) (will : Will) (prev : Option Client) :
    Along (Settled own) (acceptConnect own clean will prev) := by
  have writes (client : Option Nat) {f : Client → Client} (keeps : ∀ client, (f client).sock = client.sock) :
      Along (Played own) (Worker.setClient client f) :=
    played_shared (shared_setClient _ fun client target held => (keeps client).symm.trans held)
  refine settled_quiet (quiet_sockAt _) fun sockst => settled_quiet (quiet_deref _) fun client => ?_
  refine settled_quiet (quiet_onHeap _) fun assigned => settled_bind (writes _ fun _ => rfl) fun _ => ?_
  refine settled_bind ?_ fun connack => ?_
  · exact played_local (local_bind (local_write _ _) fun _ => local_pure _)
  refine settled_bind (played_log (by exact trivial)) fun _ => ?_
  unfold requestAfterConnack
  split
  · exact settled_bind (writes _ fun _ => rfl) fun _ => settled_ask (.inr rfl)
  · exact settled_ask (.inl rfl)

/-- A takeover never evicts the socket it is for. -/
theorem played_takeOver (own : Fin 64) (client : Client) : Along (Played own) (takeOver own client) := by
  intro w u w' ran
  unfold takeOver at ran
  cases recorded : client.sock with
  | none =>
    rw [recorded] at ran
    rw [(pure_ok.mp ran).2]
    exact .refl w
  | some prevSock =>
    rw [recorded] at ran
    obtain ⟨ok, w₁, asked, ran⟩ := bind_ok.mp ran
    obtain ⟨env, rfl⟩ := sendtoque_ok asked
    rw [sockAt_bind_ok, sockAt_bind_ok, log_bind_ok, setSock_bind_ok, sockAt_bind_ok] at ran
    obtain ⟨addr, held, still, at_addr, ran⟩ := deref_bind_ok ran
    have other : prevSock ≠ own := by
      rintro rfl
      rw [World.setSock_socks] at still
      cases still
    rw [log_bind_ok] at ran
    have three : w'.trace = [.closed prevSock, .evicting prevSock (w.socks prevSock) (w.socks own).clientid client,
        .queued ⟨prevSock, .delall⟩ ok] ++ w.trace := by
      split at ran
      · rw [onHeap_bind_ok] at ran
        obtain ⟨_, same, rfl⟩ := setClient_ok ran
        rfl
      · obtain ⟨-, rfl⟩ := pure_ok.mp ran
        rfl
    exact ⟨_, three, plays_eviction other ok⟩

theorem settled_connectEvent (own : Fin 64) (curPos : Nat) : Along (Settled own) (connectEvent own curPos) := by
  refine settled_bind (played_connectMqtt own curPos) fun ret => ?_
  split
  · exact settled_dropConn own true
  intro w u w' ran
  dsimp only at ran
  rw [sockAt_bind_ok, get_bind_ok] at ran
  obtain ⟨prev, stored, ran⟩ := check_bind_ok ran
  rw [log_bind_ok, setSock_bind_ok] at ran
  have entered : Played own w ((w.log (.connecting own (w.socks own).clientid
      (decide (ret.1 = .cleanSession)) prev)).setSock own ({ · with client := prev.map Client.addr })) :=
    ⟨[_], rfl, plays_calm (List.forall_mem_singleton.mpr trivial)⟩
  refine .preceded entered ?_
  cases prev with
  | none =>
    obtain ⟨added, w₁, made, ran⟩ := bind_ok.mp ran
    refine .preceded ⟨[], (newClient_trace made).1, plays_nil⟩ ?_
    split at ran
    · exact settled_acceptConnect _ _ _ _ _ _ _ ran
    · exact settled_dropConn own true _ _ _ ran
  | some client =>
    exact settled_bind (played_takeOver own client) (fun _ => settled_acceptConnect _ _ _ _) _ _ _ ran

/-! ### The event -/

/-- A packet of a connected client is settled if a branch is for it. -/
theorem dispatch_settled {header : Header} {u : Unit} (start : dispatch own header w = .ok (u, w')) :
    Settled own w w' ∨ ¬ Recognised (w.buf.getD 0 0) ∧ w' = w := by
  obtain ⟨head, _, read, ran⟩ := bind_ok.mp start
  obtain ⟨rfl, rfl⟩ := byteAt_ok read
  split at ran
  · exact .inl (settled_publishEvent own header _ _ _ ran)
  split at ran
  · exact .inl (settled_settle own header _ _ (.inl rfl) _ _ _ ran)
  split at ran
  · exact .inl (settled_settle own header _ _ (.inr rfl) _ _ _ ran)
  split at ran
  · exact .inl (settled_advance own header _ _ (.inl rfl) _ _ _ ran)
  split at ran
  · exact .inl (settled_advance own header _ _ (.inr rfl) _ _ _ ran)
  split at ran
  · exact .inl (settled_subscribeEvent own header _ _ _ ran)
  split at ran
  · exact .inl (settled_unsubscribeEvent own header _ _ _ ran)
  split at ran
  · exact .inl (settled_answer _ _ _ _ ran)
  split at ran
  · exact .inl (settled_disconnectEvent own _ _ _ ran)
  · refine .inr ⟨?_, (pure_ok.mp ran).2⟩
    rintro (kind | kind | kind | kind | kind | kind | kind | kind | kind) <;> contradiction

/-- The first byte of a packet that a branch is for is in the buffer. -/
theorem recognised_take {buf : List UInt8} {n : Nat} (known : Recognised ((buf.take n).getD 0 0)) :
    Recognised (buf.getD 0 0) := by
  cases n with
  | zero =>
    rw [List.take_zero] at known
    exact absurd known (by decide)
  | succ n => cases buf <;> exact known

theorem settled_readEvent (own : Fin 64) : Along (Settled own) (readEvent own) := by
  refine settled_quiet quiet_readPacket fun packet => ?_
  cases packet with
  | none => exact settled_dropConn own true
  | some header =>
    intro w u w' ran
    dsimp only at ran
    rw [get_bind_ok, log_bind_ok] at ran
    have received : Played own w (w.log (.received own (w.socks own) (w.buf.take header.packetLength.toNat))) :=
      .log trivial
    split at ran
    · exact .preceded received (settled_connectEvent own _ _ _ _ ran)
    · rename_i named
      rcases dispatch_settled ran with settled | ⟨unknown, rfl⟩
      · exact .preceded received settled
      · refine ⟨[_], rfl, settles_unheeded (plays_calm (List.forall_mem_singleton.mpr trivial)) fun later heeded => ?_⟩
        exact unknown (recognised_take (heeded.resolve_left named))

theorem settled_writeEvent (own : Fin 64) : Along (Settled own) (writeEvent own) := by
  intro w u w' ran
  rw [writeEvent, get_bind_ok] at ran
  refine settled_bind ?_ (fun more => settled_ask ?_) _ _ _ ran
  · exact played_local (local_writeLoop _ _ _ _)
  · cases more
    · exact .inl rfl
    · exact .inr rfl

theorem settled_mqttPhase {msg : Message} (asks : msg.op = .read ∨ msg.op = .write) :
    Along (Settled msg.socket) (mqttPhase msg) := by
  unfold mqttPhase
  rcases asks with op | op <;> rw [op]
  · exact settled_readEvent _
  · exact settled_writeEvent _

/-- A handshake that waits is taken for one that has failed. -/
theorem settled_handshakeEvent {msg : Message} (asks : msg.op = .read ∨ msg.op = .write) (first : Bool) :
    Along (Settled msg.socket) (handshakeEvent msg first) := by
  have phase (phs : Phase) : Along (Passes Calm) (Worker.setSock msg.socket ({ · with phs := phs })) := by
    intro w u w' ran
    obtain rfl := setSock_ok.mp ran
    exact .refl w
  have awaits {op : Operation} (asks : op = .read ∨ op = .write) :
      Along (Settled msg.socket) (awaitHandshake msg.socket first op) := by
    refine settled_request asks fun ok => ?_
    split
    · exact phase _
    · exact passes_pure _
  refine settled_quiet quiet_handshake fun code => ?_
  split
  · exact settled_dropConn msg.socket true
  split
  · refine settled_bind (fun w u w' ran => ?_) fun _ => settled_ask (.inl rfl)
    obtain ⟨events, grown, calm⟩ := phase _ _ _ _ ran
    exact ⟨events, grown, plays_calm fun e member => calm e (List.mem_reverse.mp member)⟩
  split
  · exact awaits (.inr rfl)
  split
  · exact awaits (.inl rfl)
  · exact settled_mqttPhase asks

/-- What one message asks of the queue may be asked in an event of its socket, and
concludes the event if it is heeded. -/
theorem handle_settled {msg : Message} (asks : msg.op = .read ∨ msg.op = .write) {u : Unit}
    (ran : handle msg w = .ok (u, w')) : Settled msg.socket w w' := by
  rw [handle, sockAt_bind_ok] at ran
  cases phase : (w.socks msg.socket).phs with
  | uninit =>
    rw [phase] at ran
    dsimp only at ran
    rw [onHeap_bind_ok] at ran
    split at ran
    · obtain ⟨⟨⟩, w₁, begun, ran⟩ := bind_ok.mp ran
      have started : w₁.trace = [.started msg.socket (w.items msg.socket)] ++ w.trace := by
        cases begun
        rfl
      refine .preceded ⟨_, started, ?_⟩ (settled_handshakeEvent asks true _ _ _ ran)
      exact plays_calm (List.forall_mem_singleton.mpr trivial)
    · obtain rfl := log_ok.mp ran
      refine ⟨[.closed msg.socket], rfl, ?_⟩
      exact fun concluded => ⟨true, by simp [Stage.run, Stage.after], fun _ _ _ => rfl⟩
  | tlsHandshake =>
    rw [phase] at ran
    exact settled_handshakeEvent asks false _ _ _ ran
  | mqtt =>
    rw [phase] at ran
    exact settled_mqttPhase asks _ _ _ ran

end Requests
end MqttBroker
