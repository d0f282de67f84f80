import Mathlib.Data.List.Forall2
import MqttBroker.Server
import MqttBroker.Worker.Closings

/-! The whole broker: `tcp_server_task`, and the worker with its data, over the
queues `pending_socks` and `socks_for_fds`.

The worker's data changes when it takes a message; what it asks of the queue
and of the sockets on the way is carried out one call at a time, between the
steps of the server. -/
namespace MqttBroker
open Logic Server World

/-- The worker of `server` takes no part. `calls` are the events of the message
under way that are still to come, oldest first. The source keeps nothing of the
rest: how often each number was accepted, the same as of the last `select`, and
for each message of `pending_socks` the count its connection had. -/
structure Broker where
  server : System
  world : World
  calls : List Event := []
  ages : Fin 64 → Nat := fun _ => 0
  selected : Fin 64 → Nat := fun _ => 0
  marks : List Nat := []

/-- What the scheduler, the network and the outside world decide. -/
inductive Choice
  | serve (action : Action)
  | take (env : Env)
  | call

/-- The system hands out the lowest free number. -/
def Server.Lowest (s : System) : Action → Prop
  | .accept (some newSock) => ∀ sock < newSock, sock = s.listenSock ∨ sock ∈ s.accepted
  | _ => True

instance (s : System) (action : Action) : Decidable (Lowest s action) := by
  unfold Lowest
  split <;> infer_instance

/-- The task will still send a readiness of the socket to `pending_socks`. -/
def Server.System.Reports (s : System) (sock : Fin 64) : Prop :=
  match s.task with
  | .selecting => False
  | .accepting readfds writefds => sock ≠ s.listenSock ∧ (sock ∈ readfds ∨ sock ∈ writefds)
  | .scanning ready | .clearing _ ready => ∃ msg ∈ ready, msg.socket = sock

/-- A connection is set up on the socket, or closed. -/
def Event.Uses (sock : Fin 64) : Event → Prop
  | .started own _ | .closed own => own = sock
  | _ => False

namespace Broker

/-- Both tasks before their loops. -/
def start (listenSock : Fin 64) (boot : Boot) : Broker where
  server := Server.start listenSock
  world := .initial boot

/-- The marks once a message with this one was sent to `pending_socks`. -/
def marked (b : Broker) (mark : Nat) : List Nat :=
  if b.server.pendingSocks.length < queueLength then b.marks ++ [mark] else b.marks

/-- The server has done a step. A readiness is of the connection that owned the
socket when `select` reported it. -/
def served (b : Broker) (server : System) : Action → Broker
  | .select _ _ => { b with server := server, selected := b.ages }
  | .accept (some newSock) => { b with
      server := server
      ages := Function.update b.ages newSock (b.ages newSock + 1)
      marks := b.marked (b.ages newSock + 1) }
  | .send =>
    match b.server.task with
    | .scanning (msg :: _) => { b with server := server, marks := b.marked (b.selected msg.socket) }
    | _ => { b with server := server }
  | _ => { b with server := server }

/-- One step of either task. A call that sends to `socks_for_fds` answers as the
queue is then, and a socket that is closed is free to be handed out again. -/
def step (b : Broker) : Choice → Option Broker
  | .serve action => (Server.serve b.server action).map (b.served · action)
  | .take env =>
    match b.calls, b.server.pendingSocks with
    | [], msg :: rest =>
      match Worker.handle msg { b.world with env := env } with
      | .ok (_, w) => some { b with
          server := { b.server with pendingSocks := rest }
          world := w
          calls := (w.trace.take (w.trace.length - b.world.trace.length)).reverse
          marks := b.marks.tail }
      | .error _ => none
    | _, _ => none
  | .call =>
    match b.calls with
    | [] => none
    | .queued msg ok :: later =>
      let sent := sendToBack b.server.socksForFds msg
      if ok = sent.1 then some { b with
        server := { b.server with socksForFds := sent.2 }
        calls := later }
      else none
    | .closed sock :: later => some { b with
        server := { b.server with accepted := b.server.accepted.erase sock }
        calls := later }
    | _ :: later => some { b with calls := later }

/-- The next message for the worker is from the connection that owns its socket. -/
def TakesOwned (b : Broker) : Prop :=
  ∀ msg rest, b.calls = [] → b.server.pendingSocks = msg :: rest →
    msg.socket ∈ b.server.accepted ∧ b.marks.head? = some (b.ages msg.socket)

/-- A socket that is set up or closed next was accepted, and not closed since. -/
def ClosesOpen (b : Broker) : Prop :=
  ∀ e later sock, b.calls = e :: later → e.Uses sock → sock ∈ b.server.accepted

/-- No readiness reported for the socket is left to be taken. -/
def Clear (b : Broker) (sock : Fin 64) : Prop :=
  (∀ msg ∈ b.server.pendingSocks, msg.socket ≠ sock) ∧ ¬ b.server.Reports sock

/-- `select` reports open sockets only, a takeover evicts an open socket, and
a socket is closed when no readiness of it is left. -/
def Fresh (b : Broker) : Choice → Prop
  | .serve (.select readfds writefds) =>
    ∀ sock ∈ readfds ∪ writefds, sock = b.server.listenSock ∨ sock ∈ b.server.accepted
  | .call =>
    match b.calls with
    | .closed sock :: _ => b.Clear sock
    | .evicting prevSock _ _ _ :: _ => prevSock ∈ b.server.accepted
    | _ => True
  | _ => True

/-- A new connection gets the lowest free number. -/
def Numbers (b : Broker) : Choice → Prop
  | .serve action => Lowest b.server action
  | _ => True

def Step (b b' : Broker) : Prop := ∃ choice, b.Numbers choice ∧ b.step choice = some b'

def FreshStep (b b' : Broker) : Prop :=
  ∃ choice, b.Numbers choice ∧ b.Fresh choice ∧ b.step choice = some b'

/-- The mark is that of the connection that owns the socket of the message. -/
def Owns (b : Broker) (msg : Message) (mark : Nat) : Prop :=
  msg.socket ∈ b.server.accepted ∧ mark = b.ages msg.socket

/-- What is queued and reported comes from connections that still own their
sockets. -/
structure Owned (b : Broker) : Prop where
  pending : List.Forall₂ b.Owns b.server.pendingSocks b.marks
  reported : ∀ sock, b.server.Reports sock → sock ∈ b.server.accepted ∧ b.selected sock = b.ages sock
  calls : Closings.Careful b.server.accepted b.calls

variable {b b' : Broker} {server : System} {msg : Message} {action : Action} {mark : Nat} {sock : Fin 64}

/-! ### Steps of the server -/

theorem readyMessages_reported {listenSock : Fin 64} {maxSocket : Nat} {readfds writefds : Finset (Fin 64)}
    (member : msg ∈ readyMessages listenSock maxSocket readfds writefds) :
    msg.socket ≠ listenSock ∧ (msg.socket ∈ readfds ∨ msg.socket ∈ writefds) := by
  obtain ⟨sock, inside, member⟩ := List.mem_flatMap.mp member
  obtain ⟨-, other⟩ := of_decide_eq_true (List.mem_filter.mp inside).2
  rcases List.mem_append.mp member with member | member
  · split at member
    · obtain rfl := List.mem_singleton.mp member
      exact ⟨other, .inl ‹_›⟩
    · cases member
  · split at member
    · obtain rfl := List.mem_singleton.mp member
      exact ⟨other, .inr ‹_›⟩
    · cases member

/-- A message that is sent has the mark of the connection that owns its socket. -/
theorem Owned.sent (owned : Owned b) (member : msg.socket ∈ b.server.accepted) (fresh : mark = b.ages msg.socket) :
    List.Forall₂ b.Owns (sendToBack b.server.pendingSocks msg).2 (b.marked mark) := by
  unfold sendToBack marked
  split
  · exact List.rel_append owned.pending (.cons ⟨member, fresh⟩ .nil)
  · exact owned.pending

/-- Only what the task reports and what the queue holds matters. -/
theorem Owned.frame (owned : Owned b) (accepted : b'.server.accepted = b.server.accepted) (ages : b'.ages = b.ages)
    (selected : b'.selected = b.selected) (calls : b'.calls = b.calls)
    (pending : List.Forall₂ b.Owns b'.server.pendingSocks b'.marks)
    (fewer : ∀ sock, b'.server.Reports sock → b.server.Reports sock) : Owned b' := by
  refine ⟨?_, fun sock reports => ?_, ?_⟩
  · refine pending.imp fun msg mark held => ?_
    rw [Owns, accepted, ages]
    exact held
  · rw [accepted, ages, selected]
    exact owned.reported sock (fewer sock reports)
  · rw [accepted, calls]
    exact owned.calls

theorem owned_select (owned : Owned b) {readfds writefds : Finset (Fin 64)}
    (fresh : b.Fresh (.serve (.select readfds writefds)))
    (stepped : Server.serve b.server (.select readfds writefds) = some server) :
    Owned (b.served server (.select readfds writefds)) := by
  simp only [Server.serve] at stepped
  split at stepped
  · split at stepped
    · have open_sock (sock : Fin 64) (other : sock ≠ b.server.listenSock)
          (reported : sock ∈ readfds ∨ sock ∈ writefds) : sock ∈ b.server.accepted :=
        (fresh sock (Finset.mem_union.mpr reported)).resolve_left other
      split at stepped
      · cases stepped
        refine ⟨owned.pending, fun sock reports => ⟨open_sock sock reports.1 reports.2, rfl⟩, owned.calls⟩
      · cases stepped
        refine ⟨owned.pending, fun sock reports => ?_, owned.calls⟩
        obtain ⟨msg, member, rfl⟩ := reports
        obtain ⟨other, reported⟩ := readyMessages_reported member
        exact ⟨open_sock msg.socket other reported, rfl⟩
    · cases stepped
  · cases stepped

theorem owned_accept (owned : Owned b) {newSock : Fin 64}
    (stepped : Server.serve b.server (.accept (some newSock)) = some server) :
    Owned (b.served server (.accept (some newSock))) := by
  simp only [Server.serve] at stepped
  split at stepped
  · rename_i readfds writefds task
    split at stepped
    · rename_i free
      cases stepped
      have older {sock : Fin 64} (member : sock ∈ b.server.accepted) :
          Function.update b.ages newSock (b.ages newSock + 1) sock = b.ages sock := by
        refine Function.update_of_ne ?_ _ _
        rintro rfl
        exact free.1 member
      have kept : List.Forall₂ (fun msg mark => msg.socket ∈ insert newSock b.server.accepted ∧
          mark = Function.update b.ages newSock (b.ages newSock + 1) msg.socket) b.server.pendingSocks b.marks :=
        owned.pending.imp fun msg mark held => ⟨Finset.mem_insert_of_mem held.1, held.2.trans (older held.1).symm⟩
      refine ⟨?_, fun sock reports => ?_, owned.calls.mono (Finset.subset_insert _ _)⟩
      · change List.Forall₂ _ (sendToBack b.server.pendingSocks ⟨newSock, .write⟩).2 (b.marked _)
        unfold sendToBack marked
        split
        · refine List.rel_append kept (.cons ⟨Finset.mem_insert_self newSock _, ?_⟩ .nil)
          exact (Function.update_self newSock _ b.ages).symm
        · exact kept
      · obtain ⟨msg, member, rfl⟩ := reports
        obtain ⟨other, reported⟩ := readyMessages_reported member
        have before : b.server.Reports msg.socket := by
          unfold System.Reports
          rw [task]
          exact ⟨other, reported⟩
        obtain ⟨member, same⟩ := owned.reported msg.socket before
        exact ⟨Finset.mem_insert_of_mem member, same.trans (older member).symm⟩
    · cases stepped
  · cases stepped

theorem owned_send (owned : Owned b) (stepped : Server.serve b.server .send = some server) :
    Owned (b.served server .send) := by
  simp only [Server.serve] at stepped
  split at stepped
  · rename_i msg ready task
    cases stepped
    have reports (sock : Fin 64) (left : ∃ later ∈ msg :: ready, later.socket = sock) : b.server.Reports sock := by
      unfold System.Reports
      rw [task]
      exact left
    obtain ⟨member, same⟩ := owned.reported msg.socket (reports msg.socket ⟨msg, List.mem_cons_self, rfl⟩)
    simp only [served, task]
    refine owned.frame rfl rfl rfl rfl (owned.sent member same) fun sock left => reports sock ?_
    obtain ⟨later, inside, names⟩ := left
    exact ⟨later, List.mem_cons_of_mem msg inside, names⟩
  · cases stepped

/-- A step of the server that reports nothing new and sends nothing. -/
theorem owned_quiet (owned : Owned b) (accepted : server.accepted = b.server.accepted)
    (pending : server.pendingSocks = b.server.pendingSocks)
    (fewer : ∀ sock, server.Reports sock → b.server.Reports sock) : Owned { b with server := server } :=
  owned.frame accepted rfl rfl rfl (pending ▸ owned.pending) fewer

theorem owned_serve (owned : Owned b) (fresh : b.Fresh (.serve action))
    (stepped : Server.serve b.server action = some server) : Owned (b.served server action) := by
  cases action with
  | select readfds writefds => exact owned_select owned fresh stepped
  | accept newSock =>
    cases newSock with
    | none =>
      simp only [Server.serve] at stepped
      split at stepped
      · rename_i readfds writefds task
        cases stepped
        refine owned_quiet owned rfl rfl fun sock reports => ?_
        obtain ⟨msg, member, rfl⟩ := reports
        unfold System.Reports
        rw [task]
        exact readyMessages_reported member
      · cases stepped
    | some newSock => exact owned_accept owned stepped
  | send => exact owned_send owned stepped
  | clear =>
    simp only [Server.serve] at stepped
    split at stepped
    · rename_i msg ready task
      cases stepped
      refine owned_quiet owned rfl rfl fun sock reports => ?_
      unfold System.Reports
      rw [task]
      exact reports
    · cases stepped
  | drain =>
    simp only [Server.serve] at stepped
    split at stepped
    · cases stepped
      exact owned_quiet owned rfl rfl fun sock reports => reports.elim
    · rename_i task queue
      cases stepped
      refine owned_quiet owned rfl rfl fun sock reports => ?_
      unfold System.Reports at reports ⊢
      exact reports
    · cases stepped
  | _ => cases stepped

/-! ### Steps of the worker -/

theorem owned_take (owned : Owned b) {env : Env} (stepped : b.step (.take env) = some b') : Owned b' := by
  simp only [step] at stepped
  split at stepped
  · rename_i msg rest idle pending
    split at stepped
    · rename_i w ran
      cases stepped
      obtain ⟨events, grown, careful⟩ := Closings.handle_careful ran
      have queued := owned.pending
      rw [pending] at queued
      cases marks : b.marks with
      | nil =>
        rw [marks] at queued
        cases queued
      | cons mark marks =>
        rw [marks] at queued
        obtain ⟨⟨member, -⟩, later⟩ := List.forall₂_cons.mp queued
        refine ⟨?_, owned.reported, ?_⟩
        · exact later
        · have taken : w.trace.take (w.trace.length - b.world.trace.length) = events := by
            rw [grown]
            simp
          dsimp only
          rw [taken]
          exact careful.mono (Finset.singleton_subset_iff.mpr member)
    · cases stepped
  · cases stepped

theorem owned_call (owned : Owned b) (fresh : b.Fresh .call) (stepped : b.step .call = some b') : Owned b' := by
  have careful := owned.calls
  cases calls : b.calls with
  | nil =>
    simp only [step, calls] at stepped
    cases stepped
  | cons e later =>
    rw [calls] at careful
    simp only [Fresh, calls] at fresh
    cases e with
    | closed sock =>
      simp only [step, calls] at stepped
      cases stepped
      refine ⟨?_, fun other reports => ?_, careful.2⟩
      · refine ((List.forall₂_and_left _ _).mpr ⟨fresh.1, owned.pending⟩).imp fun msg mark held => ?_
        exact ⟨Finset.mem_erase.mpr ⟨held.1, held.2.1⟩, held.2.2⟩
      · obtain ⟨member, same⟩ := owned.reported other reports
        refine ⟨Finset.mem_erase.mpr ⟨?_, member⟩, same⟩
        rintro rfl
        exact fresh.2 reports
    | queued msg ok =>
      simp only [step, calls] at stepped
      split at stepped
      · cases stepped
        exact ⟨owned.pending, owned.reported, careful⟩
      · cases stepped
    | evicting prevSock victim clientid client =>
      simp only [step, calls] at stepped
      cases stepped
      have careful : Closings.Careful (insert prevSock b.server.accepted) later := careful
      rw [Finset.insert_eq_of_mem fresh] at careful
      exact ⟨owned.pending, owned.reported, careful⟩
    | started sock items =>
      simp only [step, calls] at stepped
      cases stepped
      exact ⟨owned.pending, owned.reported, careful.2⟩
    | _ =>
      simp only [step, calls] at stepped
      cases stepped
      exact ⟨owned.pending, owned.reported, careful⟩

/-! ### Runs -/

theorem owned_step (owned : Owned b) (stepped : FreshStep b b') : Owned b' := by
  obtain ⟨choice, -, fresh, stepped⟩ := stepped
  cases choice with
  | serve action =>
    obtain ⟨server, served, rfl⟩ := Option.map_eq_some_iff.mp stepped
    exact owned_serve owned fresh served
  | take env => exact owned_take owned stepped
  | call => exact owned_call owned fresh stepped

theorem owned_start (listenSock : Fin 64) (boot : Boot) : Owned (start listenSock boot) :=
  ⟨.nil, fun _ reports => reports.elim, trivial⟩

theorem Owned.takesOwned (owned : Owned b) : b.TakesOwned := by
  intro msg rest _ pending
  have queued := owned.pending
  rw [pending] at queued
  cases marks : b.marks with
  | nil =>
    rw [marks] at queued
    cases queued
  | cons mark later =>
    rw [marks] at queued
    obtain ⟨⟨member, same⟩, -⟩ := List.forall₂_cons.mp queued
    exact ⟨member, congrArg some same⟩

theorem Owned.closesOpen (owned : Owned b) : b.ClosesOpen := by
  intro e later sock calls uses
  have careful := owned.calls
  rw [calls] at careful
  cases e with
  | started own items => exact uses ▸ careful.1
  | closed own => exact uses ▸ careful.1
  | _ => exact uses.elim

/-- Whatever the interleaving: while every step is fresh, the worker takes no
message that has outlived its connection, and sets up and closes open sockets
only. -/
theorem events_owned {listenSock : Fin 64} {boot : Boot}
    (run : Relation.ReflTransGen FreshStep (start listenSock boot) b) : b.TakesOwned ∧ b.ClosesOpen := by
  have owned : Owned b := reached_invariant (fun _ _ owned stepped => owned_step owned stepped)
    (owned_start listenSock boot) run
  exact ⟨owned.takesOwned, owned.closesOpen⟩

instance (b : Broker) (sock : Fin 64) : Decidable (b.server.Reports sock) := by
  unfold System.Reports
  split <;> infer_instance

instance (b : Broker) (sock : Fin 64) : Decidable (b.Clear sock) := inferInstanceAs (Decidable (_ ∧ _))

instance (b : Broker) (choice : Choice) : Decidable (b.Fresh choice) := by
  unfold Fresh
  split
  · infer_instance
  · split <;> infer_instance
  · infer_instance

instance (b : Broker) (choice : Choice) : Decidable (b.Numbers choice) := by
  unfold Numbers
  split <;> infer_instance

/-- These choices one after the other, as long as they are allowed. -/
def perform (allows : Broker → Choice → Bool) (b : Broker) (choices : List Choice) : Option Broker :=
  choices.foldlM (fun b choice => if allows b choice then b.step choice else none) b

theorem perform_reaches {allows : Broker → Choice → Bool} {R : Broker → Broker → Prop}
    (each : ∀ b choice b', allows b choice → b.step choice = some b' → R b b') {choices : List Choice}
    (ran : perform allows b choices = some b') : Relation.ReflTransGen R b b' := by
  refine foldlM_reaches (fun b choice b' stepped => ?_) ran
  split at stepped
  · exact each b choice b' ‹_› stepped
  · cases stepped

/-- The server drains this many requests in an idle turn of its loop. -/
def idle (requests : Nat) : List Choice :=
  .serve (.select ∅ ∅) :: List.replicate (requests + 1) (.serve .drain)

/-- The server hands over what `select` reports of one socket. -/
def handOver (readfds writefds : Finset (Fin 64)) : List Choice :=
  [.serve (.select readfds writefds), .serve .send, .serve .clear, .serve .drain]

/-- The worker takes a message and makes this many of its calls. -/
def handling (taken : Message × Env) (calls : Nat) : List Choice :=
  .take taken.2 :: List.replicate calls .call

/-- The first connection is accepted and its handshake done, and a packet of it
is reported. -/
def opening : List Choice :=
  [.serve (.select {0} ∅), .serve (.accept (some 1)), .serve .drain] ++ handling (accepting 1) 2 ++ idle 1 ++
    handOver {1} ∅

/-- The first connection ends, and its number is given to the second: the worker
takes the message of the second. -/
theorem second_owned : ∃ b, Relation.ReflTransGen FreshStep (start 0 .clean) b ∧
    b.server.pendingSocks = [⟨1, .write⟩] ∧ b.ages 1 = 2 ∧ b.marks.head? = some 2 := by
  have ran : (perform (fun b choice => b.Numbers choice && b.Fresh choice) (start 0 .clean)
      (opening ++ handling (reading 1 none) 3 ++ [.serve (.select {0} ∅), .serve (.accept (some 1))])).any
      (fun b => b.calls.isEmpty && b.server.pendingSocks = [⟨1, .write⟩] && b.ages 1 = 2) = true := by
    decide +kernel
  obtain ⟨b, ran, shown⟩ := (Option.any_eq_true _ _).mp ran
  simp only [Bool.and_eq_true, List.isEmpty_iff, decide_eq_true_eq] at shown
  obtain ⟨⟨idle, pending⟩, second⟩ := shown
  have run : Relation.ReflTransGen FreshStep (start 0 .clean) b :=
    perform_reaches (fun _ choice _ allowed stepped => by
      simp only [Bool.and_eq_true, decide_eq_true_eq] at allowed
      exact ⟨choice, allowed.1, allowed.2, stepped⟩) ran
  refine ⟨b, run, pending, second, ?_⟩
  rw [((events_owned run).1 _ _ idle pending).2, second]

/-- A client that is subscribed to "t" publishes to it and ends its connection:
its last readiness to read and the write that its message asks for are under way
together. -/
def stale : List Choice :=
  opening ++ handling (reading 1 (some (connectPacket [97] 2))) 5 ++ idle 1 ++ handOver {1} ∅ ++
    handling (subscribing 1 [116] 0) 5 ++ idle 1 ++ handOver {1} ∅ ++
    handling (reading 1 (some (publishPacket 0x30 [116] [98]))) 3 ++ idle 1 ++ handOver {1} ∅ ++
    List.replicate 8 .call ++ idle 2 ++ handOver ∅ {1} ++ handling (reading 1 none) 4

/-- The next call sets a TLS session up on a socket that is not accepted. -/
def restarts (accepted : Finset (Fin 64)) : List Event → Bool
  | .started sock _ :: _ => sock ∉ accepted
  | _ => false

/-- The worker has closed the socket and takes its write readiness: it sets up a
connection on a socket that is not open. -/
theorem event_outlives : ∃ b b', Relation.ReflTransGen Step (start 0 .clean) b ∧ Step b b' ∧
    ¬ b.TakesOwned ∧ ¬ b'.ClosesOpen := by
  have ran : (perform (fun b choice => b.Numbers choice) (start 0 .clean) stale).any
      (fun b => b.calls.isEmpty && b.server.pendingSocks = [⟨1, .write⟩] && 1 ∉ b.server.accepted &&
        (b.step (.take {})).any fun b' => restarts b'.server.accepted b'.calls) = true := by
    decide +kernel
  obtain ⟨b, ran, shown⟩ := (Option.any_eq_true _ _).mp ran
  simp only [Bool.and_eq_true, List.isEmpty_iff, decide_eq_true_eq, Option.any_eq_true] at shown
  obtain ⟨⟨⟨idle, pending⟩, closed⟩, b', taken, restarts⟩ := shown
  have run : Relation.ReflTransGen Step (start 0 .clean) b :=
    perform_reaches (fun _ choice _ numbered stepped => ⟨choice, of_decide_eq_true numbered, stepped⟩) ran
  refine ⟨b, b', run, ⟨.take {}, trivial, taken⟩, fun owned => closed (owned _ _ idle pending).1, fun closes => ?_⟩
  unfold Broker.restarts at restarts
  split at restarts
  · rename_i sock items later calls
    exact of_decide_eq_true restarts (closes _ _ sock calls rfl)
  · cases restarts

end Broker
end MqttBroker
