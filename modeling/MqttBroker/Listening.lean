import MqttBroker.Broker
import MqttBroker.Worker.Admission

/-! The server never goes deaf. No message names the listening socket, so it is
always selected for reading, and the loop up to `max_socket` comes to every
other socket that `select` can report. -/
namespace MqttBroker
open Logic Server World Branches Outcomes

/-- What the event asks the server for, and what it closes, are sockets of this
kind. -/
def Event.Within (good : Fin 64 → Prop) : Event → Prop
  | .queued msg _ => good msg.socket
  | .closed sock => good sock
  | _ => True

/-- A socket that the loop of `tcp_server_task` comes to. -/
def Server.System.Reaches (s : System) (sock : Fin 64) : Prop := sock ≠ s.listenSock ∧ sock.val ≤ s.maxSocket

/-- The messages that the task is still to send. -/
def Server.Task.unsent : Task → List Message
  | .scanning ready => ready
  | .clearing msg ready => msg :: ready
  | .selecting | .accepting .. => []

def Choice.Prompt : Choice → Prop
  | .take env => env.Prompt
  | .serve _ | .call => True

instance : DecidablePred Choice.Prompt := fun choice => by
  rcases choice with action | env | ⟨⟩ <;> dsimp only [Choice.Prompt] <;> infer_instance

namespace Broker

/-- A step in which a handshake answers 0 or a negative code. -/
def PromptStep (b b' : Broker) : Prop := ∃ choice, choice.Prompt ∧ b.step choice = some b'

/-- The sets and the messages name sockets that the loop comes to, and so does
what the worker keeps. -/
structure Tuned (s : System) : Prop where
  listens : s.listenSock ∈ s.master.readfds
  reads : ∀ sock ∈ s.master.readfds, sock ≠ s.listenSock → s.Reaches sock
  writes : ∀ sock ∈ s.master.writefds, s.Reaches sock
  pending : ∀ msg ∈ s.pendingSocks, s.Reaches msg.socket
  requested : ∀ msg ∈ s.socksForFds, s.Reaches msg.socket
  unsent : ∀ msg ∈ s.task.unsent, s.Reaches msg.socket

structure Attentive (b : Broker) : Prop where
  tuned : Tuned b.server
  calls : ∀ e ∈ b.calls, e.Within b.server.Reaches
  recorded : ∀ sock, b.world.Records sock → b.server.Reaches sock
  reached : b.world.PromptlyReached

variable {b b' : Broker} {s t : System} {w w' : World} {own sock : Fin 64} {good : Fin 64 → Prop} {e : Event}
  {msg : Message} {action : Action} {events : List Event}

/-! ### What the worker asks for -/

theorem reported_within (self : good own) (reported : e.Reported own fun msg => good msg.socket) : e.Within good := by
  cases e with
  | queued => exact reported
  | closed =>
    rcases reported with rfl | asked
    · exact self
    · exact asked
  | _ => exact trivial

/-- Where the own socket and those the clients are recorded under are of a kind,
the worker asks for such sockets only and records clients under such only. -/
def Keeps (good : Fin 64 → Prop) (w w' : World) : Prop :=
  (∃ events, w'.trace = events ++ w.trace ∧ ∀ e ∈ events, e.Within good) ∧ ∀ target, w'.Records target → good target

theorem handled_keeps (self : good own) (recorded : ∀ target, w.Records target → good target)
    (handled : Handled own (fun msg => good msg.socket) w w') : Keeps good w w' := by
  obtain ⟨events, grown, reported⟩ := handled.reports
  refine ⟨⟨events, grown, fun e member => reported_within self (reported e member)⟩, fun target held => ?_⟩
  rcases handled.records held with before | rfl
  · exact recorded target before
  · exact self

/-! ### Steps of the server -/

theorem readyMessages_iff {listenSock : Fin 64} {maxSocket : Nat} {readfds writefds : Finset (Fin 64)} :
    msg ∈ readyMessages listenSock maxSocket readfds writefds ↔ (msg.socket.val ≤ maxSocket ∧ msg.socket ≠ listenSock) ∧
      (msg.op = .read ∧ msg.socket ∈ readfds ∨ msg.op = .write ∧ msg.socket ∈ writefds) := by
  obtain ⟨sock, op⟩ := msg
  simp only [readyMessages, List.mem_flatMap, List.mem_filter, List.mem_finRange, true_and, decide_eq_true_eq,
    List.mem_append, List.mem_ite_nil_right, List.mem_singleton, Message.mk.injEq]
  constructor
  · rintro ⟨other, inside, ⟨ready, rfl, rfl⟩ | ⟨ready, rfl, rfl⟩⟩
    · exact ⟨inside, .inl ⟨rfl, ready⟩⟩
    · exact ⟨inside, .inr ⟨rfl, ready⟩⟩
  · rintro ⟨inside, ⟨rfl, ready⟩ | ⟨rfl, ready⟩⟩
    · exact ⟨sock, inside, .inl ⟨ready, rfl, rfl⟩⟩
    · exact ⟨sock, inside, .inr ⟨ready, rfl, rfl⟩⟩

theorem mem_sent {queue : List Message} {later : Message} (member : later ∈ (sendToBack queue msg).2) :
    later ∈ queue ∨ later = msg := by
  unfold sendToBack at member
  split at member
  · exact (List.mem_append.mp member).imp_right List.mem_singleton.mp
  · exact .inl member

/-- A message changes nothing of the other sockets, and adds its own at most. -/
theorem apply_sockets (fds : FdSets) (msg : Message) :
    (∀ sock ∈ (fds.apply msg).readfds, sock ∈ fds.readfds ∨ sock = msg.socket) ∧
      (∀ sock ∈ (fds.apply msg).writefds, sock ∈ fds.writefds ∨ sock = msg.socket) ∧
      ∀ sock ∈ fds.readfds, sock ≠ msg.socket → sock ∈ (fds.apply msg).readfds := by
  unfold FdSets.apply
  split <;> simp only [Finset.mem_insert, Finset.mem_erase] <;> tauto

theorem clear_sockets (fds : FdSets) (msg : Message) :
    (∀ sock ∈ (fds.clear msg).readfds, sock ∈ fds.readfds) ∧
      (∀ sock ∈ (fds.clear msg).writefds, sock ∈ fds.writefds) ∧
      ∀ sock ∈ fds.readfds, sock ≠ msg.socket → sock ∈ (fds.clear msg).readfds := by
  unfold FdSets.clear
  split <;> (try simp only [Finset.mem_erase]) <;> tauto

theorem readyMessages_reach {readfds writefds : Finset (Fin 64)} :
    ∀ msg ∈ readyMessages s.listenSock s.maxSocket readfds writefds, s.Reaches msg.socket := by
  intro msg member
  obtain ⟨⟨inside, other⟩, -⟩ := readyMessages_iff.mp member
  exact ⟨other, inside⟩

theorem sent_reach {queue : List Message} (held : ∀ msg ∈ queue, s.Reaches msg.socket) (here : s.Reaches msg.socket) :
    ∀ later ∈ (sendToBack queue msg).2, s.Reaches later.socket := by
  intro later member
  rcases mem_sent member with before | rfl
  · exact held later before
  · exact here

/-- The server still listens where it did, and its loop comes to no fewer sockets. -/
structure Widens (s t : System) : Prop where
  listenSock : t.listenSock = s.listenSock
  maxSocket : s.maxSocket ≤ t.maxSocket

theorem Widens.reaches (widens : Widens s t) (reaches : s.Reaches sock) : t.Reaches sock :=
  ⟨widens.listenSock ▸ reaches.1, reaches.2.trans widens.maxSocket⟩

theorem tuned_accept (tuned : Tuned s) {newSock : Fin 64} (served : serve s (.accept (some newSock)) = some t) :
    Tuned t ∧ Widens s t := by
  simp only [serve] at served
  split at served
  · split at served
    · rename_i free
      cases served
      have widens : Widens s { s with maxSocket := max s.maxSocket newSock } := ⟨rfl, Nat.le_max_left _ _⟩
      have kept {queue : List Message} (held : ∀ msg ∈ queue, s.Reaches msg.socket) : ∀ msg ∈ queue,
          { s with maxSocket := max s.maxSocket newSock }.Reaches msg.socket :=
        fun msg member => widens.reaches (held msg member)
      refine ⟨⟨tuned.listens, ?_, ?_, ?_, kept tuned.requested, ?_⟩, rfl, Nat.le_max_left _ _⟩
      · exact fun sock member other => widens.reaches (tuned.reads sock member other)
      · exact fun sock member => widens.reaches (tuned.writes sock member)
      · exact sent_reach (kept tuned.pending) ⟨free.2, Nat.le_max_right _ _⟩
      · exact readyMessages_reach (s := { s with maxSocket := max s.maxSocket newSock })
    · cases served
  · cases served

theorem tuned_serve (tuned : Tuned s) (served : serve s action = some t) : Tuned t ∧ Widens s t := by
  cases action with
  | select readfds writefds =>
    simp only [serve] at served
    split at served
    · split at served
      · split at served <;> cases served
        · exact ⟨⟨tuned.listens, tuned.reads, tuned.writes, tuned.pending, tuned.requested,
            List.forall_mem_nil _⟩, rfl, Nat.le_refl _⟩
        · exact ⟨⟨tuned.listens, tuned.reads, tuned.writes, tuned.pending, tuned.requested,
            readyMessages_reach⟩, rfl, Nat.le_refl _⟩
      · cases served
    · cases served
  | accept newSock =>
    cases newSock with
    | some newSock => exact tuned_accept tuned served
    | none =>
      simp only [serve] at served
      split at served
      · cases served
        exact ⟨⟨tuned.listens, tuned.reads, tuned.writes, tuned.pending, tuned.requested,
          readyMessages_reach⟩, rfl, Nat.le_refl _⟩
      · cases served
  | send =>
    simp only [serve] at served
    split at served
    · rename_i msg ready task
      cases served
      have unsent := tuned.unsent
      rw [task] at unsent
      have here := unsent msg List.mem_cons_self
      exact ⟨⟨tuned.listens, tuned.reads, tuned.writes, sent_reach tuned.pending here, tuned.requested, unsent⟩,
        rfl, Nat.le_refl _⟩
    · cases served
  | clear =>
    simp only [serve] at served
    split at served
    · rename_i msg ready task
      cases served
      have unsent := tuned.unsent
      rw [task] at unsent
      obtain ⟨here, rest⟩ := List.forall_mem_cons.mp unsent
      obtain ⟨reads, writes, kept⟩ := clear_sockets s.master msg
      refine ⟨⟨kept _ tuned.listens here.1.symm, ?_, ?_, tuned.pending, tuned.requested, rest⟩, rfl, Nat.le_refl _⟩
      · exact fun sock member => tuned.reads sock (reads sock member)
      · exact fun sock member => tuned.writes sock (writes sock member)
    · cases served
  | drain =>
    simp only [serve] at served
    split at served
    · cases served
      exact ⟨⟨tuned.listens, tuned.reads, tuned.writes, tuned.pending, tuned.requested,
        List.forall_mem_nil _⟩, rfl, Nat.le_refl _⟩
    · rename_i msg rest task queue
      cases served
      have requested := tuned.requested
      rw [queue] at requested
      obtain ⟨here, rest⟩ := List.forall_mem_cons.mp requested
      obtain ⟨reads, writes, kept⟩ := apply_sockets s.master msg
      refine ⟨⟨kept _ tuned.listens here.1.symm, ?_, ?_, tuned.pending, rest, tuned.unsent⟩, rfl, Nat.le_refl _⟩
      · intro sock member other
        rcases reads sock member with before | rfl
        · exact tuned.reads sock before other
        · exact here
      · intro sock member
        rcases writes sock member with before | rfl
        · exact tuned.writes sock before
        · exact here
    · cases served
  | _ => cases served

/-! ### Steps of the broker -/

theorem within_mono {good better : Fin 64 → Prop} (wider : ∀ sock, good sock → better sock) (held : e.Within good) :
    e.Within better := by
  cases e <;> first | exact wider _ held | exact trivial

theorem attentive_start (listenSock : Fin 64) (boot : Boot) : Attentive (start listenSock boot) := by
  refine ⟨⟨?_, ?_, ?_, ?_, ?_, ?_⟩, ?_, ?_, ⟨boot, .refl⟩⟩
  · exact Finset.mem_singleton_self listenSock
  · exact fun sock member other => absurd (Finset.mem_singleton.mp member) other
  · exact fun sock member => absurd member (Finset.notMem_empty sock)
  · exact List.forall_mem_nil _
  · exact List.forall_mem_nil _
  · exact List.forall_mem_nil _
  · exact List.forall_mem_nil _
  · rintro sock ⟨node, member, -⟩
    have none : (World.initial boot).clientStore.nodes = [] := Myhashmap.nodes_ofCapacity 10
    rw [start, none] at member
    cases member

theorem attentive_serve (attentive : Attentive b) (stepped : b.step (.serve action) = some b') :
    Attentive b' ∧ b'.server.listenSock = b.server.listenSock := by
  obtain ⟨server, served, rfl⟩ := Option.map_eq_some_iff.mp stepped
  obtain ⟨tuned, widens⟩ := tuned_serve attentive.tuned served
  have same : (b.served server action).server = server ∧ (b.served server action).calls = b.calls ∧
      (b.served server action).world = b.world := by
    unfold Broker.served
    split
    · exact ⟨rfl, rfl, rfl⟩
    · exact ⟨rfl, rfl, rfl⟩
    · split <;> exact ⟨rfl, rfl, rfl⟩
    · exact ⟨rfl, rfl, rfl⟩
  obtain ⟨at_server, calls, world⟩ := same
  refine ⟨⟨?_, ?_, ?_, world ▸ attentive.reached⟩, ?_⟩
  · rw [at_server]
    exact tuned
  · rw [calls, at_server]
    exact fun e member => within_mono (fun _ => widens.reaches) (attentive.calls e member)
  · rw [world, at_server]
    exact fun sock recorded => widens.reaches (attentive.recorded sock recorded)
  · rw [at_server]
    exact widens.listenSock

theorem attentive_take (attentive : Attentive b) {env : Env} (prompt : env.Prompt)
    (stepped : b.step (.take env) = some b') : Attentive b' ∧ b'.server.listenSock = b.server.listenSock := by
  simp only [step] at stepped
  split at stepped
  · rename_i msg rest idle pending
    split at stepped
    · rename_i w ran
      cases stepped
      have held := attentive.tuned.pending
      rw [pending] at held
      obtain ⟨here, later⟩ := List.forall_mem_cons.mp held
      have tended := Admission.tended_reached attentive.reached
      have linked := Admission.linked_reachable (Admission.PromptlyReached.reachable attentive.reached)
      have asks : Asks msg.socket (fun msg => b.server.Reaches msg.socket) { b.world with env := env } :=
        ⟨fun _ => here, fun target recorded _ => attentive.recorded target recorded⟩
      have handled := handle_handled asks linked.sound (tended.fits msg.socket).settled prompt ran
      have recorded : ∀ target, { b.world with env := env }.Records target → b.server.Reaches target :=
        attentive.recorded
      obtain ⟨⟨events, grown, within⟩, recorded⟩ := handled_keeps here recorded handled
      obtain ⟨boot, run⟩ := attentive.reached
      refine ⟨⟨?_, ?_, recorded, boot, run.tail ⟨msg, env, prompt, ran⟩⟩, rfl⟩
      · obtain ⟨listens, reads, writes, -, requested, unsent⟩ := attentive.tuned
        exact ⟨listens, reads, writes, later, requested, unsent⟩
      · have taken : w.trace.take (w.trace.length - b.world.trace.length) = events := by
          rw [grown]
          simp
        dsimp only
        rw [taken]
        exact fun e member => within e (List.mem_reverse.mp member)
    · cases stepped
  · cases stepped

theorem attentive_call (attentive : Attentive b) (stepped : b.step .call = some b') :
    Attentive b' ∧ b'.server.listenSock = b.server.listenSock := by
  obtain ⟨tuned, calls, recorded, reached⟩ := attentive
  simp only [step] at stepped
  split at stepped
  · cases stepped
  · rename_i msg ok later at_calls
    rw [at_calls] at calls
    obtain ⟨here, rest⟩ := List.forall_mem_cons.mp calls
    split at stepped
    · cases stepped
      obtain ⟨listens, reads, writes, pending, requested, unsent⟩ := tuned
      exact ⟨⟨⟨listens, reads, writes, pending, sent_reach requested here, unsent⟩, rest, recorded, reached⟩, rfl⟩
    · cases stepped
  · rename_i sock later at_calls
    rw [at_calls] at calls
    cases stepped
    obtain ⟨listens, reads, writes, pending, requested, unsent⟩ := tuned
    exact ⟨⟨⟨listens, reads, writes, pending, requested, unsent⟩, (List.forall_mem_cons.mp calls).2, recorded, reached⟩,
      rfl⟩
  · rename_i e later _ _ at_calls
    rw [at_calls] at calls
    cases stepped
    exact ⟨⟨tuned, (List.forall_mem_cons.mp calls).2, recorded, reached⟩, rfl⟩

theorem attentive_step (attentive : Attentive b) (stepped : PromptStep b b') :
    Attentive b' ∧ b'.server.listenSock = b.server.listenSock := by
  obtain ⟨choice, prompt, stepped⟩ := stepped
  cases choice with
  | serve action => exact attentive_serve attentive stepped
  | take env => exact attentive_take attentive prompt stepped
  | call => exact attentive_call attentive stepped

theorem attentive_reached {listenSock : Fin 64} {boot : Boot}
    (run : Relation.ReflTransGen PromptStep (start listenSock boot) b) :
    Attentive b ∧ b.server.listenSock = listenSock := by
  induction run with
  | refl => exact ⟨attentive_start listenSock boot, rfl⟩
  | tail _ stepped ih =>
    obtain ⟨attentive, same⟩ := attentive_step ih.1 stepped
    exact ⟨attentive, same.trans ih.2⟩

/-- The server always listens: the listening socket is selected for reading only,
and no message and no close is about it. -/
theorem always_listens {listenSock : Fin 64} {boot : Boot}
    (run : Relation.ReflTransGen PromptStep (start listenSock boot) b) :
    listenSock ∈ b.server.master.readfds ∧ listenSock ∉ b.server.master.writefds ∧
      (∀ msg ∈ b.server.pendingSocks ++ b.server.socksForFds, msg.socket ≠ listenSock) ∧
      ∀ e ∈ b.calls, e.Within (· ≠ listenSock) := by
  obtain ⟨⟨tuned, calls, -, -⟩, rfl⟩ := attentive_reached run
  refine ⟨tuned.listens, fun member => (tuned.writes _ member).1 rfl, ?_, ?_⟩
  · exact List.forall_mem_append.mpr ⟨fun msg member => (tuned.pending msg member).1,
      fun msg member => (tuned.requested msg member).1⟩
  · exact fun e member => within_mono (fun _ reaches => reaches.1) (calls e member)

/-- The first client is connected, and nothing is under way. -/
def connected : List Choice := opening ++ handling (reading 1 (some (connectPacket [97] 2))) 5 ++ idle 1

/-- Then both the listening socket and the client's are selected for reading. -/
example : (perform (fun _ _ => true) (start 0 .clean) connected).any
    (fun b => decide (b.server.master.readfds = {0, 1})) = true := by decide +kernel

/-- What these choices show is reached. -/
theorem performed_promptly (choices : List Choice) (shows : Broker → Bool)
    (ran : (perform (fun _ choice => decide choice.Prompt) (start 0 .clean) choices).any shows = true) :
    ∃ b, Relation.ReflTransGen PromptStep (start 0 .clean) b ∧ shows b = true := by
  obtain ⟨b, ran, shown⟩ := (Option.any_eq_true _ _).mp ran
  refine ⟨b, perform_reaches (fun _ choice _ prompt stepped => ?_) ran, shown⟩
  exact ⟨choice, of_decide_eq_true prompt, stepped⟩

theorem connected_listens : ∃ b : Broker, 1 ∈ b.server.accepted ∧ (0 : Fin 64) ∈ b.server.master.readfds ∧
    (0 : Fin 64) ∉ b.server.master.writefds := by
  obtain ⟨b, run, shown⟩ := performed_promptly connected (fun b => decide (1 ∈ b.server.accepted))
    (by decide +kernel)
  obtain ⟨reads, writes, -⟩ := always_listens run
  exact ⟨b, of_decide_eq_true shown, reads, writes⟩

theorem readyMessages_nodup {listenSock : Fin 64} {maxSocket : Nat} {readfds writefds : Finset (Fin 64)} :
    (readyMessages listenSock maxSocket readfds writefds).Nodup := by
  refine List.nodup_flatMap.mpr ⟨fun sock _ => ?_, ?_⟩
  · split <;> split <;> simp
  · refine ((List.nodup_finRange 64).filter _).imp fun {sock other} apart => ?_
    refine List.disjoint_left.mpr fun msg member member' => apart ?_
    have named {sock : Fin 64} (member : msg ∈ (if sock ∈ readfds then [(⟨sock, .read⟩ : Message)] else []) ++
        if sock ∈ writefds then [⟨sock, .write⟩] else []) : msg.socket = sock := by
      simp only [List.mem_append, List.mem_ite_nil_right, List.mem_singleton] at member
      rcases member with ⟨-, rfl⟩ | ⟨-, rfl⟩ <;> rfl
    exact (named member).symm.trans (named member')

/-- Whatever `select` reports of the sets, also before the new connection of the
same turn, the loop sends one message for each readiness of another socket. -/
theorem every_readiness_sent {listenSock : Fin 64} {boot : Boot}
    (run : Relation.ReflTransGen PromptStep (start listenSock boot) b) {readfds writefds : Finset (Fin 64)}
    (reads : readfds ⊆ b.server.master.readfds) (writes : writefds ⊆ b.server.master.writefds) {maxSocket : Nat}
    (larger : b.server.maxSocket ≤ maxSocket) : (readyMessages listenSock maxSocket readfds writefds).Nodup ∧
      ∀ msg, msg ∈ readyMessages listenSock maxSocket readfds writefds ↔
        msg.op = .read ∧ msg.socket ∈ readfds ∧ msg.socket ≠ listenSock ∨ msg.op = .write ∧ msg.socket ∈ writefds := by
  obtain ⟨⟨tuned, -, -, -⟩, rfl⟩ := attentive_reached run
  refine ⟨readyMessages_nodup, fun msg => readyMessages_iff.trans ⟨?_, ?_⟩⟩
  · rintro ⟨⟨-, other⟩, ⟨op, ready⟩ | ⟨op, ready⟩⟩
    · exact .inl ⟨op, ready, other⟩
    · exact .inr ⟨op, ready⟩
  · rintro (⟨op, ready, other⟩ | ⟨op, ready⟩)
    · obtain ⟨-, inside⟩ := tuned.reads msg.socket (reads ready) other
      exact ⟨⟨inside.trans larger, other⟩, .inl ⟨op, ready⟩⟩
    · obtain ⟨other, inside⟩ := tuned.writes msg.socket (writes ready)
      exact ⟨⟨inside.trans larger, other⟩, .inr ⟨op, ready⟩⟩

/-- The server waits for the first client: when it is ready, the worker is told. -/
theorem connected_sent : ∃ b : Broker, (1 : Fin 64) ∈ b.server.master.readfds ∧
    ⟨1, .read⟩ ∈ readyMessages 0 b.server.maxSocket b.server.master.readfds ∅ := by
  obtain ⟨b, run, shown⟩ := performed_promptly connected (fun b => decide (1 ∈ b.server.master.readfds))
    (by decide +kernel)
  have ready := of_decide_eq_true shown
  have empty : ∅ ⊆ b.server.master.writefds := Finset.empty_subset _
  obtain ⟨-, sent⟩ := every_readiness_sent run (Finset.Subset.refl _) empty (Nat.le_refl _)
  exact ⟨b, ready, (sent ⟨1, .read⟩).mpr (.inl ⟨rfl, ready, by decide⟩)⟩

end Broker
end MqttBroker
