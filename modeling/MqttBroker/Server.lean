import Mathlib.Data.Finset.Insert
import Mathlib.Data.Fintype.Basic
import MqttBroker.Logic.Program
import MqttBroker.Message

/-! `tcp_server_task` and the worker as two processes over the queues
`pending_socks` and `socks_for_fds`.

Of the worker only its requests and closes are kept, in any order and for any
sockets; an event it took is concluded by closing the socket or by a request
that was queued. Taking a message and setting the bit it asks for is one step
of the server, and so is accepting a socket and announcing it. -/
namespace MqttBroker.Server

/-- The length both queues are created with. -/
def queueLength : Nat := 50

/-- `xQueueSendToBack` on a queue that is full until the wait is over loses the
message. -/
def sendToBack (queue : List Message) (msg : Message) : Bool × List Message :=
  if queue.length < queueLength then (true, queue ++ [msg]) else (false, queue)

/-- `master_readfds` and `master_writefds`. -/
structure FdSets where
  readfds : Finset (Fin 64)
  writefds : Finset (Fin 64)

/-- What the server does with a message from `socks_for_fds`. -/
def FdSets.apply (fds : FdSets) (msg : Message) : FdSets :=
  match msg.op with
  | .read => { fds with readfds := insert msg.socket fds.readfds }
  | .write => { fds with writefds := insert msg.socket fds.writefds }
  | .delread => { fds with readfds := fds.readfds.erase msg.socket }
  | .delall => ⟨fds.readfds.erase msg.socket, fds.writefds.erase msg.socket⟩

/-- The `FD_CLR` after a readiness has been sent to `pending_socks`. -/
def FdSets.clear (fds : FdSets) (msg : Message) : FdSets :=
  match msg.op with
  | .read => { fds with readfds := fds.readfds.erase msg.socket }
  | .write => { fds with writefds := fds.writefds.erase msg.socket }
  | .delread | .delall => fds

/-- Where `tcp_server_task` stands in its loop. With nothing left to hand over
it empties `socks_for_fds`. -/
inductive Task
  | selecting
  | accepting (readfds writefds : Finset (Fin 64))
  | scanning (ready : List Message)
  | clearing (msg : Message) (ready : List Message)

/-- Where the worker stands in an event of `sock`, which is `concluded` once
the socket is closed or has a request queued. `publishing` and `retrying` are
between the requests of a fan-out to `target`, with whether the `delread` was
queued; `evicting` is before the close of a takeover. -/
inductive Stage
  | waiting
  | busy (sock : Fin 64) (concluded : Bool)
  | publishing (sock : Fin 64) (concluded : Bool) (target : Fin 64) (queued : Bool)
  | retrying (sock : Fin 64) (concluded : Bool) (target : Fin 64) (queued : Bool)
  | evicting (sock : Fin 64) (concluded : Bool) (prev : Fin 64)

structure System where
  listenSock : Fin 64
  maxSocket : Nat
  accepted : Finset (Fin 64)
  master : FdSets
  pendingSocks : List Message
  socksForFds : List Message
  task : Task
  worker : Stage

/-- Both tasks at the start of their loops. -/
def start (listenSock : Fin 64) : System where
  listenSock := listenSock
  maxSocket := listenSock
  accepted := ∅
  master := ⟨{listenSock}, ∅⟩
  pendingSocks := []
  socksForFds := []
  task := .selecting
  worker := .waiting

/-- The messages of the `for` loop over the sockets `select` found ready. -/
def readyMessages (listenSock : Fin 64) (maxSocket : Nat) (readfds writefds : Finset (Fin 64)) :
    List Message :=
  ((List.finRange 64).filter fun sock => sock.val ≤ maxSocket ∧ sock ≠ listenSock).flatMap fun sock =>
    (if sock ∈ readfds then [⟨sock, .read⟩] else []) ++
      if sock ∈ writefds then [⟨sock, .write⟩] else []

/-- What the scheduler, the network and the worker's data decide. -/
inductive Action
  | select (readfds writefds : Finset (Fin 64))
  | accept (newSock : Option (Fin 64))
  | send
  | clear
  | drain
  | receive
  | requestOwn (write : Bool)
  | fanOut (target : Fin 64)
  | requestWrite
  | requestRead
  | delall
  | close
  | takeOver (prev : Fin 64)
  | closePrev
  | conclude

/-- A step of `tcp_server_task`. -/
def serve (s : System) : Action → Option System
  | .select readfds writefds =>
    match s.task with
    | .selecting =>
      if readfds ⊆ s.master.readfds ∧ writefds ⊆ s.master.writefds then
        if s.listenSock ∈ readfds then some { s with task := .accepting readfds writefds }
        else some { s with
          task := .scanning (readyMessages s.listenSock s.maxSocket readfds writefds) }
      else none
    | _ => none
  | .accept none =>
    match s.task with
    | .accepting readfds writefds => some { s with
        task := .scanning (readyMessages s.listenSock s.maxSocket readfds writefds) }
    | _ => none
  | .accept (some newSock) =>
    match s.task with
    | .accepting readfds writefds =>
      if newSock ∉ s.accepted ∧ newSock ≠ s.listenSock then some { s with
          accepted := insert newSock s.accepted
          maxSocket := max s.maxSocket newSock
          pendingSocks := (sendToBack s.pendingSocks ⟨newSock, .write⟩).2
          task := .scanning
            (readyMessages s.listenSock (max s.maxSocket newSock) readfds writefds) }
      else none
    | _ => none
  | .send =>
    match s.task with
    | .scanning (msg :: ready) => some { s with
        pendingSocks := (sendToBack s.pendingSocks msg).2
        task := .clearing msg ready }
    | _ => none
  | .clear =>
    match s.task with
    | .clearing msg ready => some { s with
        master := s.master.clear msg
        task := .scanning ready }
    | _ => none
  | .drain =>
    match s.task, s.socksForFds with
    | .scanning [], [] => some { s with task := .selecting }
    | .scanning [], msg :: rest => some { s with
        master := s.master.apply msg
        socksForFds := rest }
    | _, _ => none
  | _ => none

/-- A step of the worker. A takeover may close any socket, the worker's own
among them. -/
def work (s : System) : Action → Option System
  | .receive =>
    match s.worker, s.pendingSocks with
    | .waiting, msg :: rest => some { s with
        pendingSocks := rest
        worker := .busy msg.socket false }
    | _, _ => none
  | .requestOwn write =>
    match s.worker with
    | .busy sock concluded =>
      let sent := sendToBack s.socksForFds ⟨sock, if write then .write else .read⟩
      some { s with
        socksForFds := sent.2
        worker := .busy sock (concluded || sent.1) }
    | _ => none
  | .fanOut target =>
    match s.worker with
    | .busy sock concluded =>
      let sent := sendToBack s.socksForFds ⟨target, .delread⟩
      some { s with
        socksForFds := sent.2
        worker := .publishing sock concluded target sent.1 }
    | _ => none
  | .requestWrite =>
    match s.worker with
    | .publishing sock concluded target queued =>
      let sent := sendToBack s.socksForFds ⟨target, .write⟩
      some { s with
        socksForFds := sent.2
        worker := if sent.1 then .busy sock concluded else .retrying sock concluded target queued }
    | _ => none
  | .requestRead =>
    match s.worker with
    | .retrying sock concluded target _ => some { s with
        socksForFds := (sendToBack s.socksForFds ⟨target, .read⟩).2
        worker := .busy sock concluded }
    | _ => none
  | .delall =>
    match s.worker with
    | .busy sock _ => some { s with
        socksForFds := (sendToBack s.socksForFds ⟨sock, .delall⟩).2
        worker := .busy sock false }
    | _ => none
  | .close =>
    match s.worker with
    | .busy sock _ => some { s with
        accepted := s.accepted.erase sock
        worker := .busy sock true }
    | _ => none
  | .takeOver prev =>
    match s.worker with
    | .busy sock concluded => some { s with
        socksForFds := (sendToBack s.socksForFds ⟨prev, .delall⟩).2
        worker := .evicting sock concluded prev }
    | _ => none
  | .closePrev =>
    match s.worker with
    | .evicting sock concluded prev => some { s with
        accepted := s.accepted.erase prev
        worker := .busy sock concluded }
    | _ => none
  | .conclude =>
    match s.worker with
    | .busy _ true => some { s with worker := .waiting }
    | _ => none
  | _ => none

/-- One step of either process. -/
def step (s : System) (action : Action) : Option System :=
  (serve s action).or (work s action)

/-- The worker is in an event of the socket, or between the requests of a
fan-out or a takeover for it. -/
def Stage.Processing (sock : Fin 64) : Stage → Prop
  | .waiting => False
  | .busy own _ => sock = own
  | .publishing own _ target _ | .retrying own _ target _ => sock = own ∨ sock = target
  | .evicting own _ prev => sock = own ∨ sock = prev

/-- The socket is waited for, or an event or request of it is under way. -/
def Tracked (s : System) (sock : Fin 64) : Prop :=
  sock ∈ s.master.readfds ∨ sock ∈ s.master.writefds ∨
    (∃ msg ∈ s.pendingSocks ++ s.socksForFds, msg.socket = sock) ∨ s.worker.Processing sock

instance (sock : Fin 64) : (worker : Stage) → Decidable (worker.Processing sock)
  | .waiting => isFalse id
  | .busy own _ => inferInstanceAs (Decidable (sock = own))
  | .publishing own _ target _ | .retrying own _ target _ =>
    inferInstanceAs (Decidable (sock = own ∨ sock = target))
  | .evicting own _ prev => inferInstanceAs (Decidable (sock = own ∨ sock = prev))

instance (s : System) (sock : Fin 64) : Decidable (Tracked s sock) :=
  inferInstanceAs (Decidable (_ ∨ _ ∨ (∃ msg ∈ s.pendingSocks ++ s.socksForFds, _) ∨ _))

/-- No message is lost that its sender does not make up for: one for
`pending_socks` finds a free slot, and so does the last request of a fan-out
whose `delread` was queued. -/
def Ready (s : System) : Action → Prop
  | .accept (some _) | .send => s.pendingSocks.length < queueLength
  | .requestRead =>
    match s.worker with
    | .retrying _ _ _ true => s.socksForFds.length < queueLength
    | _ => True
  | _ => True

/-- A step the queues are ready for. -/
def ReadyStep (s t : System) : Prop :=
  ∃ action, Ready s action ∧ step s action = some t

/-! ### What the server will wait for -/

/-- The sets as they are once the bit of a readiness handed over is cleared. -/
def System.cleared (s : System) : FdSets :=
  match s.task with
  | .clearing msg _ => s.master.clear msg
  | _ => s.master

/-- The sets as they are once the requests under way have been applied too. -/
def System.settled (s : System) : FdSets := s.socksForFds.foldl FdSets.apply s.cleared

def FdSets.Covers (fds : FdSets) (sock : Fin 64) : Prop :=
  sock ∈ fds.readfds ∨ sock ∈ fds.writefds

/-- The part of an event that still owes the socket a request or its close. -/
def Stage.Holds (sock : Fin 64) : Stage → Prop
  | .waiting => False
  | .busy own concluded => sock = own ∧ concluded = false
  | .publishing own concluded target queued | .retrying own concluded target queued =>
    (sock = own ∧ concluded = false) ∨ (sock = target ∧ queued = true)
  | .evicting own concluded prev => (sock = own ∧ concluded = false) ∨ sock = prev

/-- Every accepted socket will be waited for again: by the sets once they are
settled, through a readiness in `pending_socks`, or by what the worker owes. -/
def Kept (s : System) : Prop :=
  ∀ sock ∈ s.accepted, s.settled.Covers sock ∨ (∃ msg ∈ s.pendingSocks, msg.socket = sock) ∨
    s.worker.Holds sock

section Sets
variable {fds fds' : FdSets} {msg : Message} {sock : Fin 64} {queue : List Message}

theorem apply_other (other : sock ≠ msg.socket) : (fds.apply msg).Covers sock ↔ fds.Covers sock := by
  cases op : msg.op <;> simp [FdSets.apply, FdSets.Covers, op, other]

theorem clear_other (other : sock ≠ msg.socket) :
    (sock ∈ (fds.clear msg).readfds ↔ sock ∈ fds.readfds) ∧
      (sock ∈ (fds.clear msg).writefds ↔ sock ∈ fds.writefds) := by
  cases op : msg.op <;> simp [FdSets.clear, op, other]

theorem clear_covers (covers : (fds.clear msg).Covers sock) : fds.Covers sock := by
  cases op : msg.op <;> simp only [FdSets.clear, FdSets.Covers, op, Finset.mem_erase] at covers ⊢ <;>
    tauto

theorem apply_request (write : Bool) :
    (fds.apply ⟨sock, if write then .write else .read⟩).Covers sock := by
  cases write <;> simp [FdSets.apply, FdSets.Covers]

/-- Whether a socket ends up in the sets depends on its own bits only. -/
theorem settle_congr (read : sock ∈ fds.readfds ↔ sock ∈ fds'.readfds)
    (write : sock ∈ fds.writefds ↔ sock ∈ fds'.writefds) (queue : List Message) :
    (queue.foldl FdSets.apply fds).Covers sock ↔ (queue.foldl FdSets.apply fds').Covers sock := by
  induction queue generalizing fds fds' with
  | nil => exact or_congr read write
  | cons msg rest ih =>
    refine ih ?_ ?_ <;>
      cases op : msg.op <;> simp [FdSets.apply, op, read, write]

/-- A socket that ends up in the sets has a bit now or a request in the
queue. -/
theorem settle_covers (covers : (queue.foldl FdSets.apply fds).Covers sock) :
    fds.Covers sock ∨ ∃ msg ∈ queue, msg.socket = sock := by
  induction queue generalizing fds with
  | nil => exact .inl covers
  | cons msg rest ih =>
    by_cases same : sock = msg.socket
    · exact .inr ⟨msg, List.mem_cons_self, same.symm⟩
    · rcases ih covers with before | ⟨later, member, names⟩
      · exact .inl ((apply_other same).mp before)
      · exact .inr ⟨later, List.mem_cons_of_mem msg member, names⟩

end Sets

theorem sendToBack_room {queue : List Message} (room : queue.length < queueLength) (msg : Message) :
    sendToBack queue msg = (true, queue ++ [msg]) := if_pos room

theorem sendToBack_full {queue : List Message} {msg : Message}
    (lost : (sendToBack queue msg).1 = false) : (sendToBack queue msg).2 = queue := by
  unfold sendToBack at lost ⊢
  split at lost
  · cases lost
  · exact if_neg ‹_› ▸ rfl

/-- A message sent changes nothing for the sockets it does not name. -/
theorem settle_sent {fds : FdSets} {queue : List Message} {msg : Message} {sock : Fin 64}
    (other : sock ≠ msg.socket) (covers : (queue.foldl FdSets.apply fds).Covers sock) :
    ((sendToBack queue msg).2.foldl FdSets.apply fds).Covers sock := by
  unfold sendToBack
  split
  · rw [List.foldl_append]
    exact (apply_other other).mpr covers
  · exact covers

/-- A request that is queued covers its socket. -/
theorem settle_request {fds : FdSets} {queue : List Message} {sock : Fin 64} {write : Bool}
    (sent : (sendToBack queue ⟨sock, if write then .write else .read⟩).1 = true) :
    ((sendToBack queue ⟨sock, if write then .write else .read⟩).2.foldl FdSets.apply fds).Covers
      sock := by
  unfold sendToBack at sent ⊢
  split at sent
  · rw [if_pos ‹_›, List.foldl_append]
    exact apply_request write
  · cases sent

/-! ### Each process keeps it -/

section Steps
variable {s t : System} {action : Action}

theorem kept_serve (kept : Kept s) (ready : Ready s action) (stepped : serve s action = some t) :
    Kept t := by
  cases action with
  | select readfds writefds =>
    simp only [serve] at stepped
    split at stepped
    · rename_i task
      have same : s.settled = t.settled ∧ s.accepted = t.accepted ∧
          s.pendingSocks = t.pendingSocks ∧ s.worker = t.worker := by
        split at stepped
        · split at stepped <;> cases stepped <;> simp [System.settled, System.cleared, task]
        · cases stepped
      obtain ⟨settled, accepted, pending, worker⟩ := same
      rwa [Kept, settled, accepted, pending, worker] at kept
    · cases stepped
  | accept newSock =>
    cases task : s.task <;> cases newSock <;> simp only [serve, task, reduceCtorEq] at stepped
    case accepting.none => 
      cases stepped
      simpa [Kept, System.settled, System.cleared, task] using kept
    case accepting.some readfds writefds newSock =>
      split at stepped
      · cases stepped
        intro sock member
        rw [sendToBack_room ready]
        rcases Finset.mem_insert.mp member with rfl | before
        · exact .inr (.inl ⟨_, List.mem_append_right _ (List.mem_singleton_self _), rfl⟩)
        · rcases kept sock before with covers | ⟨msg, member, names⟩ | holds
          · exact .inl (by simpa [System.settled, System.cleared, task] using covers)
          · exact .inr (.inl ⟨msg, List.mem_append_left _ member, names⟩)
          · exact .inr (.inr holds)
      · cases stepped
  | send =>
    simp only [serve] at stepped
    split at stepped
    · rename_i msg rest task
      cases stepped
      intro sock member
      rw [sendToBack_room ready]
      by_cases named : sock = msg.socket
      · exact .inr (.inl ⟨msg, List.mem_append_right _ (List.mem_singleton_self _), named.symm⟩)
      · rcases kept sock member with covers | ⟨msg, member, names⟩ | holds
        · simp only [System.settled, System.cleared, task] at covers ⊢
          have bits : (sock ∈ (s.master.clear msg).readfds ↔ sock ∈ s.master.readfds) ∧
              (sock ∈ (s.master.clear msg).writefds ↔ sock ∈ s.master.writefds) :=
            clear_other named
          exact .inl ((settle_congr bits.1 bits.2 _).mpr covers)
        · exact .inr (.inl ⟨msg, List.mem_append_left _ member, names⟩)
        · exact .inr (.inr holds)
    · cases stepped
  | clear =>
    simp only [serve] at stepped
    split at stepped
    · rename_i task
      cases stepped
      simpa [Kept, System.settled, System.cleared, task] using kept
    · cases stepped
  | drain =>
    simp only [serve] at stepped
    split at stepped
    · rename_i task queue
      cases stepped
      simpa [Kept, System.settled, System.cleared, task, queue] using kept
    · rename_i task queue
      cases stepped
      simpa [Kept, System.settled, System.cleared, task, queue] using kept
    · cases stepped
  | _ => cases stepped

/-- A message the worker sends about `named` keeps the other sockets covered;
`named` has to be accounted for. -/
theorem kept_sent (kept : Kept s) {named : Fin 64} {op : Operation} {worker : Stage}
    (owed : ∀ sock, sock ≠ named → s.worker.Holds sock → worker.Holds sock)
    (own : named ∈ s.accepted →
      ((sendToBack s.socksForFds ⟨named, op⟩).2.foldl FdSets.apply s.cleared).Covers named ∨
        (∃ msg ∈ s.pendingSocks, msg.socket = named) ∨ worker.Holds named) :
    Kept { s with socksForFds := (sendToBack s.socksForFds ⟨named, op⟩).2, worker := worker } := by
  intro sock member
  by_cases same : sock = named
  · subst same
    exact own member
  · rcases kept sock member with covers | pending | holds
    · exact .inl (settle_sent same covers)
    · exact .inr (.inl pending)
    · exact .inr (.inr (owed sock same holds))

/-- The worker may close a socket and forget about it. -/
theorem kept_closed (kept : Kept s) {closed : Fin 64} {worker : Stage}
    (owed : ∀ sock, sock ≠ closed → s.worker.Holds sock → worker.Holds sock) :
    Kept { s with accepted := s.accepted.erase closed, worker := worker } := by
  intro sock member
  obtain ⟨other, before⟩ := Finset.mem_erase.mp member
  rcases kept sock before with covers | pending | holds
  · exact .inl covers
  · exact .inr (.inl pending)
  · exact .inr (.inr (owed sock other holds))

/-- A message about a socket the worker still owes to may be lost. -/
theorem kept_unsettled (kept : Kept s) {named : Fin 64} {op : Operation} {worker : Stage}
    (owed : ∀ sock, s.worker.Holds sock → worker.Holds sock)
    (sent : (sendToBack s.socksForFds ⟨named, op⟩).1 = true → worker.Holds named) :
    Kept { s with socksForFds := (sendToBack s.socksForFds ⟨named, op⟩).2, worker := worker } := by
  refine kept_sent kept (fun sock _ => owed sock) fun member => ?_
  cases queued : (sendToBack s.socksForFds ⟨named, op⟩).1 with
  | true => exact .inr (.inr (sent queued))
  | false =>
    rw [sendToBack_full queued]
    exact (kept named member).imp_right (Or.imp_right (owed named))

/-- A request covers the socket it is for, unless it is lost and the worker
owes it still. -/
theorem kept_request (kept : Kept s) {named : Fin 64} {write : Bool} {worker : Stage}
    (owed : ∀ sock, sock ≠ named → s.worker.Holds sock → worker.Holds sock)
    (lost : (sendToBack s.socksForFds ⟨named, if write then .write else .read⟩).1 = false →
      s.worker.Holds named → worker.Holds named) :
    Kept { s with
      socksForFds := (sendToBack s.socksForFds ⟨named, if write then .write else .read⟩).2
      worker := worker } := by
  refine kept_sent kept owed fun member => ?_
  cases sent : (sendToBack s.socksForFds ⟨named, if write then .write else .read⟩).1 with
  | true => exact .inl (settle_request sent)
  | false =>
    rw [sendToBack_full sent]
    exact (kept named member).imp_right (Or.imp_right (lost sent))

theorem kept_work (kept : Kept s) (ready : Ready s action) (stepped : work s action = some t) :
    Kept t := by
  cases action with
  | receive =>
    cases worker : s.worker <;> cases pending : s.pendingSocks <;>
      simp only [work, worker, pending, reduceCtorEq] at stepped
    case waiting.cons msg rest =>
      cases stepped
      intro sock member
      rcases kept sock member with covers | ⟨other, named, names⟩ | holds
      · exact .inl covers
      · rw [pending] at named
        rcases List.mem_cons.mp named with rfl | later
        · exact .inr (.inr ⟨names.symm, rfl⟩)
        · exact .inr (.inl ⟨other, later, names⟩)
      · rw [worker] at holds
        cases holds
  | requestOwn write =>
    cases worker : s.worker <;> simp only [work, worker, reduceCtorEq] at stepped
    case busy own concluded =>
      cases stepped
      refine kept_request kept (fun sock other holds => ?_) fun lost holds => ?_
      · rw [worker] at holds
        exact absurd holds.1 other
      · rw [worker] at holds
        exact ⟨rfl, by rw [lost, Bool.or_false]; exact holds.2⟩
  | fanOut target =>
    cases worker : s.worker <;> simp only [work, worker, reduceCtorEq] at stepped
    case busy own concluded =>
      cases stepped
      refine kept_unsettled kept (fun sock holds => ?_) fun sent => ?_
      · rw [worker] at holds
        exact .inl holds
      · exact .inr ⟨rfl, sent⟩
  | requestWrite =>
    cases worker : s.worker <;> simp only [work, worker, reduceCtorEq] at stepped
    case publishing own concluded target queued =>
      cases stepped
      refine @kept_request _ kept target true _ (fun sock other holds => ?_) fun lost holds => ?_
      · rw [worker] at holds
        have before := holds.resolve_right fun named => other named.1
        split
        · exact before
        · exact .inl before
      · rw [worker] at holds
        rw [if_pos rfl] at lost
        rw [lost]
        exact holds
  | requestRead =>
    cases worker : s.worker <;> simp only [work, worker, reduceCtorEq] at stepped
    case retrying own concluded target queued =>
      cases stepped
      refine @kept_request _ kept target false _ (fun sock other holds => ?_) fun lost holds => ?_
      · rw [worker] at holds
        exact holds.resolve_right fun named => other named.1
      · rw [worker] at holds
        rcases holds with own | ⟨-, queued⟩
        · exact own
        · subst queued
          rw [Ready, worker] at ready
          rw [sendToBack_room ready] at lost
          cases lost
  | delall =>
    cases worker : s.worker <;> simp only [work, worker, reduceCtorEq] at stepped
    case busy own concluded =>
      cases stepped
      refine kept_unsettled kept (fun sock holds => ?_) fun sent => ⟨rfl, rfl⟩
      rw [worker] at holds
      exact ⟨holds.1, rfl⟩
  | close =>
    cases worker : s.worker <;> simp only [work, worker, reduceCtorEq] at stepped
    case busy own concluded =>
      cases stepped
      refine kept_closed kept fun sock other holds => ?_
      rw [worker] at holds
      exact absurd holds.1 other
  | takeOver prev =>
    cases worker : s.worker <;> simp only [work, worker, reduceCtorEq] at stepped
    case busy own concluded =>
      cases stepped
      refine kept_unsettled kept (fun sock holds => ?_) fun sent => .inr rfl
      rw [worker] at holds
      exact .inl holds
  | closePrev =>
    cases worker : s.worker <;> simp only [work, worker, reduceCtorEq] at stepped
    case evicting own concluded prev =>
      cases stepped
      refine kept_closed kept fun sock other holds => ?_
      rw [worker] at holds
      exact holds.resolve_right other
  | conclude =>
    cases worker : s.worker <;> simp only [work, worker, reduceCtorEq] at stepped
    case busy own concluded =>
      cases concluded <;> simp only [reduceCtorEq] at stepped
      cases stepped
      intro sock member
      rcases kept sock member with covers | pending | holds
      · exact .inl covers
      · exact .inr (.inl pending)
      · rw [worker] at holds
        cases holds.2
  | _ => cases stepped

theorem kept_step (kept : Kept s) (stepped : ReadyStep s t) : Kept t := by
  obtain ⟨action, ready, taken⟩ := stepped
  rcases Option.or_eq_some_iff.mp taken with served | ⟨-, worked⟩
  · exact kept_serve kept ready served
  · exact kept_work kept ready worked

end Steps

theorem Kept.tracked {s : System} (kept : Kept s) {sock : Fin 64} (member : sock ∈ s.accepted) :
    Tracked s sock := by
  have bits : s.cleared.Covers sock → s.master.Covers sock := by
    unfold System.cleared
    split
    · exact clear_covers
    · exact id
  rcases kept sock member with covers | ⟨msg, pending, names⟩ | holds
  · rcases settle_covers covers with now | ⟨msg, queued, names⟩
    · exact (bits now).imp id .inl
    · exact .inr (.inr (.inl ⟨msg, List.mem_append_right _ queued, names⟩))
  · exact .inr (.inr (.inl ⟨msg, List.mem_append_left _ pending, names⟩))
  · refine .inr (.inr (.inr ?_))
    cases place : s.worker <;> rw [place] at holds <;>
      simp only [Stage.Holds, Stage.Processing] at holds ⊢ <;> tauto

/-- However the two tasks interleave, and whatever is ready: as long as no
message is lost, every accepted socket that is not closed is waited for, named
by a message or in the worker's hands. -/
theorem accepted_tracked {listenSock : Fin 64} {s : System}
    (run : Relation.ReflTransGen ReadyStep (start listenSock) s) :
    ∀ sock ∈ s.accepted, Tracked s sock := by
  have kept : Kept s := Logic.reached_invariant (fun _ _ held stepped => kept_step held stepped)
    (fun sock member => absurd member (Finset.notMem_empty sock)) run
  exact fun sock member => kept.tracked member

/-- Both queues have a free slot. -/
def Roomy (s : System) : Prop := s.pendingSocks.length < queueLength ∧ s.socksForFds.length < queueLength

instance : DecidablePred Roomy := fun _ => inferInstanceAs (Decidable (_ ∧ _))

theorem Roomy.ready {s : System} (roomy : Roomy s) (action : Action) : Ready s action := by
  cases action with
  | accept newSock =>
    cases newSock with
    | none => trivial
    | some newSock => exact roomy.1
  | send => exact roomy.1
  | requestRead =>
    simp only [Ready]
    split
    · exact roomy.2
    · trivial
  | _ => trivial

/-- A connection arrives, the worker waits for a packet of it, and the packet is
reported. -/
def readable : List Action :=
  [.select {0} ∅, .accept (some 1), .receive, .requestOwn false, .conclude, .drain, .drain, .select {1} ∅, .send,
    .clear]

theorem readable_tracked : ∃ s, Relation.ReflTransGen ReadyStep (start 0) s ∧ 1 ∈ s.accepted ∧
    ¬ s.master.Covers 1 ∧ s.pendingSocks = [⟨1, .read⟩] ∧ Tracked s 1 := by
  have reported : (readable.foldlM (fun s action => if Roomy s then step s action else none) (start 0)).any
      (fun s => 1 ∈ s.accepted ∧ (1 ∉ s.master.readfds ∧ 1 ∉ s.master.writefds) ∧ s.pendingSocks = [⟨1, .read⟩]) =
        true := by decide +kernel
  obtain ⟨s, ran, shown⟩ := (Option.any_eq_true _ _).mp reported
  obtain ⟨accepted, cleared, handed⟩ := of_decide_eq_true shown
  have run : Relation.ReflTransGen ReadyStep (start 0) s := by
    refine Logic.foldlM_reaches (fun s action t stepped => ?_) ran
    split at stepped
    · exact ⟨action, Roomy.ready ‹_› action, stepped⟩
    · cases stepped
  exact ⟨s, run, accepted, not_or.mpr cleared, handed, accepted_tracked run 1 accepted⟩

/-- The steps both tasks can take, whether or not the queues are ready. -/
def AnyStep (s t : System) : Prop := ∃ action, step s action = some t

def perform (s : System) (actions : List Action) : Option System := actions.foldlM step s

theorem perform_reaches {s t : System} {actions : List Action} (ran : perform s actions = some t) :
    Relation.ReflTransGen AnyStep s t :=
  Logic.foldlM_reaches (fun _ action _ stepped => ⟨action, stepped⟩) ran

/-- The server's loop while one connection after the other arrives. -/
def flood (sockets : List (Fin 64)) : List Action :=
  sockets.flatMap fun sock => [.select {0} ∅, .accept (some sock), .drain]

/-- Fifty-one connections before the worker takes the first: the queue has no
slot for the announcement of the last, and nothing waits for that socket. -/
theorem announcement_lost :
    ∃ s, Relation.ReflTransGen AnyStep (start 0) s ∧ ∃ sock ∈ s.accepted, ¬ Tracked s sock := by
  have lost : (perform (start 0) (flood ((List.finRange 52).tail.map (Fin.castLE (by decide))))).any
      (fun s => 51 ∈ s.accepted ∧ ¬ Tracked s 51) = true := by decide +kernel
  obtain ⟨s, ran, untracked⟩ := (Option.any_eq_true _ _).mp lost
  obtain ⟨accepted, hung⟩ := of_decide_eq_true untracked
  exact ⟨s, perform_reaches ran, 51, accepted, hung⟩

end MqttBroker.Server
