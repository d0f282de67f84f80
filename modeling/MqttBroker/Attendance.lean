import MqttBroker.Broker
import MqttBroker.Worker.Requests

/-! The broker refines its two processes of requests and closes: the calls of the
worker's events are steps of the abstract worker, and a message that is handled
is an event it has concluded. What holds of the processes holds of the broker. -/
namespace MqttBroker
open Logic Server World Requests

instance (sock : Fin 64) : DecidablePred (Retried sock)
  | [] => isFalse id
  | e :: _ => by
    unfold Retried
    split <;> infer_instance

instance (later : List Event) : DecidablePred (Event.Heeded later) := fun e => by
  rcases e with ⟨⟩
  case queued msg _ => rcases msg with ⟨_, ⟨⟩⟩ <;> dsimp only [Event.Heeded] <;> infer_instance
  all_goals
    dsimp only [Event.Heeded]
    infer_instance

instance : DecidablePred Heeded
  | [] => isTrue trivial
  | e :: later =>
    have : Decidable (Heeded later) := instDecidablePredListEventHeeded later
    inferInstanceAs (Decidable (e.Heeded later ∧ Heeded later))

instance (s : System) (action : Action) : Decidable (Ready s action) := by
  rcases action with ⟨⟩
  case accept newSock => rcases newSock with ⟨⟩ <;> dsimp only [Ready] <;> infer_instance
  case requestRead =>
    dsimp only [Ready]
    rcases s.worker with ⟨⟩
    case retrying queued => rcases queued with ⟨⟩ <;> infer_instance
    all_goals infer_instance
  all_goals
    dsimp only [Ready]
    infer_instance

/-- The server with the worker in a stage. -/
def Broker.staged (b : Broker) (stage : Stage) : System := { b.server with worker := stage }

/-- What the server sends to `pending_socks` finds room there. -/
def Broker.Readied (b : Broker) : Choice → Prop
  | .serve action => Ready b.server action
  | .take _ | .call => True

instance (b : Broker) : DecidablePred b.Readied := fun choice => by
  rcases choice with ⟨⟩ <;> dsimp only [Broker.Readied] <;> infer_instance

/-- A step after which the calls of the worker are heeded. -/
def Broker.HeededStep (b b' : Broker) : Prop :=
  ∃ choice, b.Readied choice ∧ b.step choice = some b' ∧ Heeded b'.calls

/-- The server waits for the socket, a message names it, or the worker is about
to ask for it or to close it. -/
def Broker.Awaited (b : Broker) (sock : Fin 64) : Prop :=
  b.server.master.Covers sock ∨ (∃ msg ∈ b.server.pendingSocks ++ b.server.socksForFds, msg.socket = sock) ∨
    ∃ e ∈ b.calls, e.Requests sock ∨ e = .closed sock

namespace Broker

variable {b b' : Broker} {own sock : Fin 64} {s t : System} {stage stage' : Stage} {calls later : List Event}
  {e : Event} {msg : Message} {ok : Bool} {action : Action}

/-! ### The stages -/

/-- A worker that waits makes no call for an event. -/
theorem run_waiting {concluded : Bool} : Stage.waiting.run calls ≠ some (.busy own concluded) := by
  induction calls with
  | nil => simp [Stage.run]
  | cons e later ih =>
    rw [run_cons]
    cases e <;> first | exact ih | simp [Stage.after]

/-- The ways in which a call leads from one stage to the next. -/
inductive Called : Stage → Event → Stage → Prop
  | calm {stage : Stage} {e : Event} (calm : Calm e) : Called stage e stage
  | asks (own : Fin 64) (concluded write ok : Bool) :
    Called (.busy own concluded) (.queued ⟨own, if write then .write else .read⟩ ok) (.busy own (concluded || ok))
  | offers (own : Fin 64) (concluded : Bool) (target : Fin 64) (ok : Bool) :
    Called (.busy own concluded) (.queued ⟨target, .delread⟩ ok) (.publishing own concluded target ok)
  | writes (own : Fin 64) (concluded : Bool) (target : Fin 64) (queued ok : Bool) :
    Called (.publishing own concluded target queued) (.queued ⟨target, .write⟩ ok)
      (if ok then .busy own concluded else .retrying own concluded target queued)
  | reads (own : Fin 64) (concluded : Bool) (target : Fin 64) (queued ok : Bool) :
    Called (.retrying own concluded target queued) (.queued ⟨target, .read⟩ ok) (.busy own concluded)
  | drops (own : Fin 64) (concluded ok : Bool) :
    Called (.busy own concluded) (.queued ⟨own, .delall⟩ ok) (.busy own false)
  | closes (own : Fin 64) (concluded : Bool) : Called (.busy own concluded) (.closed own) (.busy own true)
  | takesOver (own : Fin 64) (concluded : Bool) (prev : Fin 64) (ok : Bool) :
    Called (.busy own concluded) (.queued ⟨prev, .delall⟩ ok) (.evicting own concluded prev)
  | evicts (own : Fin 64) (concluded : Bool) (prev : Fin 64) :
    Called (.evicting own concluded prev) (.closed prev) (.busy own concluded)

theorem after_called (next : stage.after e = some stage') : Called stage e stage' := by
  by_cases calm : Calm e
  · rw [after_calm calm] at next
    cases next
    exact .calm calm
  cases e with
  | queued msg ok =>
    obtain ⟨target, op⟩ := msg
    cases stage with
    | waiting => simp [Stage.after] at next
    | busy own concluded =>
      cases op <;> simp only [Stage.after, Option.ite_none_right_eq_some, Option.some.injEq] at next
      case write | read =>
        obtain ⟨rfl, rfl⟩ := next
        first | exact .asks target concluded true ok | exact .asks target concluded false ok
      case delread =>
        cases next
        exact .offers own concluded target ok
      case delall =>
        split at next
        · cases next
          subst target
          exact .drops own concluded ok
        · cases next
          exact .takesOver own concluded target ok
    | publishing own concluded named queued =>
      cases op <;> simp only [Stage.after, Option.ite_none_right_eq_some, Option.some.injEq, reduceCtorEq] at next
      obtain ⟨rfl, rfl⟩ := next
      exact .writes own concluded target queued ok
    | retrying own concluded named queued =>
      cases op <;> simp only [Stage.after, Option.ite_none_right_eq_some, Option.some.injEq, reduceCtorEq] at next
      obtain ⟨rfl, rfl⟩ := next
      exact .reads own concluded target queued ok
    | evicting => simp [Stage.after] at next
  | closed target =>
    cases stage <;> simp only [Stage.after, Option.ite_none_right_eq_some, Option.some.injEq, reduceCtorEq] at next
    case busy own concluded =>
      obtain ⟨rfl, rfl⟩ := next
      exact .closes target concluded
    case evicting own concluded prev =>
      obtain ⟨rfl, rfl⟩ := next
      exact .evicts own concluded target
  | _ => exact absurd trivial calm

/-- What an event owes a socket after one of its calls it owed before, or the
call is what it owes. -/
theorem holds_after (next : stage.after e = some stage') (holds : stage.Holds sock) :
    (e.Requests sock ∨ e = .closed sock) ∨ stage'.Holds sock := by
  cases after_called next with
  | calm => exact .inr holds
  | asks own concluded write ok =>
    obtain ⟨rfl, -⟩ := holds
    cases write <;> exact .inl (.inl rfl)
  | offers own concluded target ok => exact .inr (.inl holds)
  | writes own concluded target queued ok =>
    rcases holds with held | ⟨rfl, -⟩
    · cases ok
      · exact .inr (.inl held)
      · exact .inr held
    · exact .inl (.inl rfl)
  | reads own concluded target queued ok =>
    rcases holds with held | ⟨rfl, -⟩
    · exact .inr held
    · exact .inl (.inl rfl)
  | drops own concluded ok => exact .inr ⟨holds.1, rfl⟩
  | closes own concluded => exact .inl (.inr (congrArg Event.closed holds.1.symm))
  | takesOver own concluded prev ok => exact .inr (.inl holds)
  | evicts own concluded prev =>
    rcases holds with held | rfl
    · exact .inr held
    · exact .inl (.inr rfl)

/-- An event that will be concluded has the calls that it owes still to come. -/
theorem holds_called (ends : stage.run calls = some (.busy own true)) (holds : stage.Holds sock) :
    ∃ e ∈ calls, e.Requests sock ∨ e = .closed sock := by
  induction calls generalizing stage with
  | nil =>
    cases ends
    cases holds.2
  | cons e later ih =>
    rw [run_cons] at ends
    obtain ⟨stage', next, ends⟩ := Option.bind_eq_some_iff.mp ends
    rcases holds_after next holds with now | still
    · exact ⟨e, List.mem_cons_self, now⟩
    · obtain ⟨e', member, pays⟩ := ih ends still
      exact ⟨e', List.mem_cons_of_mem e member, pays⟩

/-! ### The steps -/

/-- An event whose calls have all been made is concluded, any other one has its
conclusion still to come. -/
def Stands (stage : Stage) (calls : List Event) : Prop :=
  calls = [] ∧ stage = .waiting ∨ calls ≠ [] ∧ ∃ own, stage.run calls = some (.busy own true)

/-- What the server hands over, or is about to, is that a socket is ready to be
read or written. -/
def Reporting (s : System) : Prop :=
  (∀ msg ∈ s.pendingSocks, msg.op = .read ∨ msg.op = .write) ∧
    match s.task with
    | .scanning ready | .clearing _ ready => ∀ msg ∈ ready, msg.op = .read ∨ msg.op = .write
    | _ => True

/-- The server does not look at the stage of the worker. -/
theorem serve_staged (stage : Stage) (served : serve s action = some t) :
    serve { s with worker := stage } action = some { t with worker := stage } := by
  cases action with
  | select readfds writefds =>
    simp only [serve] at served ⊢
    split at served
    · split at served
      · split at served <;> cases served <;> simp_all
      · cases served
    · cases served
  | accept newSock =>
    cases newSock <;> simp only [serve] at served ⊢ <;> split at served <;> try cases served
    · simp_all
    · split at served <;> cases served
      simp_all
  | send | clear =>
    simp only [serve] at served ⊢
    split at served <;> cases served
    simp_all
  | drain =>
    simp only [serve] at served ⊢
    split at served <;> cases served <;> simp_all
  | _ => cases served

theorem sent_reporting {queue : List Message} (held : ∀ msg ∈ queue, msg.op = .read ∨ msg.op = .write)
    (here : msg.op = .read ∨ msg.op = .write) :
    ∀ later ∈ (sendToBack queue msg).2, later.op = .read ∨ later.op = .write := by
  unfold sendToBack
  split
  · exact List.forall_mem_append.mpr ⟨held, List.forall_mem_singleton.mpr here⟩
  · exact held

theorem readyMessages_reporting {listenSock : Fin 64} {maxSocket : Nat} {readfds writefds : Finset (Fin 64)} :
    ∀ msg ∈ readyMessages listenSock maxSocket readfds writefds, msg.op = .read ∨ msg.op = .write := by
  intro msg member
  obtain ⟨sock, -, member⟩ := List.mem_flatMap.mp member
  rcases List.mem_append.mp member with member | member <;> split at member
  · exact .inl (congrArg Message.op (List.mem_singleton.mp member))
  · cases member
  · exact .inr (congrArg Message.op (List.mem_singleton.mp member))
  · cases member

theorem reporting_serve (held : Reporting s) (served : serve s action = some t) : Reporting t := by
  obtain ⟨pending, task⟩ := held
  cases action with
  | select readfds writefds =>
    simp only [serve] at served
    split at served
    · split at served
      · split at served <;> cases served
        · exact ⟨pending, trivial⟩
        · exact ⟨pending, readyMessages_reporting⟩
      · cases served
    · cases served
  | accept newSock =>
    cases newSock <;> simp only [serve] at served <;> split at served <;> try cases served
    · exact ⟨pending, readyMessages_reporting⟩
    · split at served <;> cases served
      exact ⟨sent_reporting pending (.inr rfl), readyMessages_reporting⟩
  | send =>
    simp only [serve] at served
    split at served
    · rename_i msg ready at_task
      cases served
      rw [at_task] at task
      obtain ⟨here, rest⟩ := List.forall_mem_cons.mp task
      exact ⟨sent_reporting pending here, rest⟩
    · cases served
  | clear =>
    simp only [serve] at served
    split at served
    · rename_i msg ready at_task
      cases served
      rw [at_task] at task
      exact ⟨pending, task⟩
    · cases served
  | drain =>
    simp only [serve] at served
    split at served <;> cases served
    · exact ⟨pending, trivial⟩
    · rename_i at_task _
      refine ⟨pending, ?_⟩
      dsimp only
      rw [at_task]
      exact List.forall_mem_nil _
  | _ => cases served

/-- A call that sends answers as the queue is then. -/
theorem queued_step (stepped : b.step .call = some b') (calls : b.calls = .queued msg ok :: later) :
    ok = (sendToBack b.server.socksForFds msg).1 ∧ b' = { b with
      server := { b.server with socksForFds := (sendToBack b.server.socksForFds msg).2 }
      calls := later } := by
  simp only [step, calls] at stepped
  split at stepped
  · cases stepped
    exact ⟨‹_›, rfl⟩
  · cases stepped

/-- A call is a step of the abstract worker, or none. -/
theorem called_step (called : Called stage e stage') (stepped : b.step .call = some b') (calls : b.calls = e :: later)
    (heeded : e.Heeded later) :
    b'.calls = later ∧ b'.server.pendingSocks = b.server.pendingSocks ∧ b'.server.task = b.server.task ∧
      Relation.ReflTransGen ReadyStep (b.staged stage) (b'.staged stage') := by
  have one {s t : System} (action : Action) (ready : Ready s action) (idle : serve s action = none)
      (worked : work s action = some t) : Relation.ReflTransGen ReadyStep s t :=
    .single ⟨action, ready, by rw [Server.step, idle, worked]; rfl⟩
  cases called with
  | calm calm =>
    simp only [step, calls] at stepped
    cases e <;> first
      | exact calm.elim
      | (cases stepped; exact ⟨rfl, rfl, rfl, .refl⟩)
  | asks own concluded write ok =>
    obtain ⟨rfl, rfl⟩ := queued_step stepped calls
    exact ⟨rfl, rfl, rfl, one (.requestOwn write) trivial rfl rfl⟩
  | offers own concluded target ok =>
    obtain ⟨rfl, rfl⟩ := queued_step stepped calls
    exact ⟨rfl, rfl, rfl, one (.fanOut target) trivial rfl rfl⟩
  | writes own concluded target queued ok =>
    obtain ⟨rfl, rfl⟩ := queued_step stepped calls
    exact ⟨rfl, rfl, rfl, one .requestWrite trivial rfl rfl⟩
  | reads own concluded target queued ok =>
    obtain ⟨sent, rfl⟩ := queued_step stepped calls
    refine ⟨rfl, rfl, rfl, one .requestRead ?_ rfl rfl⟩
    have room : b.server.socksForFds.length < queueLength := by
      have queued : (sendToBack b.server.socksForFds ⟨target, .read⟩).1 = true := sent ▸ heeded
      by_contra full
      rw [sendToBack, if_neg full] at queued
      cases queued
    cases queued
    · trivial
    · exact room
  | drops own concluded ok =>
    obtain ⟨-, rfl⟩ := queued_step stepped calls
    exact ⟨rfl, rfl, rfl, one .delall trivial rfl rfl⟩
  | closes own concluded =>
    simp only [step, calls] at stepped
    cases stepped
    exact ⟨rfl, rfl, rfl, one .close trivial rfl rfl⟩
  | takesOver own concluded prev ok =>
    obtain ⟨-, rfl⟩ := queued_step stepped calls
    exact ⟨rfl, rfl, rfl, one (.takeOver prev) trivial rfl rfl⟩
  | evicts own concluded prev =>
    simp only [step, calls] at stepped
    cases stepped
    exact ⟨rfl, rfl, rfl, one .closePrev trivial rfl rfl⟩

theorem cleared_covers {s : System} (covers : s.cleared.Covers sock) : s.master.Covers sock := by
  unfold System.cleared at covers
  split at covers
  · exact clear_covers covers
  · exact covers

/-- The system shows what the broker does, and the worker's stage what its calls
still have to do. -/
structure Shows (b : Broker) (s : System) : Prop where
  reporting : Reporting b.server
  heeded : Heeded b.calls
  staged : ∃ stage, Stands stage b.calls ∧ s = b.staged stage

theorem shows_start (listenSock : Fin 64) (boot : Boot) :
    Shows (start listenSock boot) (Server.start listenSock) :=
  ⟨⟨List.forall_mem_nil _, trivial⟩, trivial, .waiting, .inl ⟨rfl, rfl⟩, rfl⟩

theorem shows_serve (shown : Shows b s) (ready : Ready b.server action)
    (stepped : b.step (.serve action) = some b') : ∃ t, Relation.ReflTransGen ReadyStep s t ∧ Shows b' t := by
  obtain ⟨reporting, heeded, stage, stands, rfl⟩ := shown
  obtain ⟨server, served, rfl⟩ := Option.map_eq_some_iff.mp stepped
  have same : (b.served server action).server = server ∧ (b.served server action).calls = b.calls := by
    unfold Broker.served
    split
    · exact ⟨rfl, rfl⟩
    · exact ⟨rfl, rfl⟩
    · split <;> exact ⟨rfl, rfl⟩
    · exact ⟨rfl, rfl⟩
  obtain ⟨same, calls⟩ := same
  have ready : Ready (b.staged stage) action := by
    cases action with
    | accept newSock => cases newSock <;> exact ready
    | requestRead => cases served
    | _ => exact ready
  have one : ReadyStep (b.staged stage) { server with worker := stage } :=
    ⟨action, ready, by rw [Server.step, staged, serve_staged stage served]; rfl⟩
  refine ⟨_, .single one, ?_, calls ▸ heeded, stage, calls ▸ stands, ?_⟩
  · rw [same]
    exact reporting_serve reporting served
  · rw [staged, same]

/-- A worker whose calls have all been made concludes the event. -/
theorem stands_of_run (ends : stage.run calls = some (.busy own true)) :
    ∃ stage', Stands stage' calls ∧ Relation.ReflTransGen ReadyStep (b.staged stage) (b.staged stage') := by
  cases calls with
  | nil =>
    cases ends
    exact ⟨.waiting, .inl ⟨rfl, rfl⟩, .single ⟨.conclude, trivial, rfl⟩⟩
  | cons e later => exact ⟨stage, .inr ⟨nofun, own, ends⟩, .refl⟩

theorem shows_call (shown : Shows b s) (stepped : b.step .call = some b') :
    ∃ t, Relation.ReflTransGen ReadyStep s t ∧ Shows b' t := by
  obtain ⟨reporting, heeded, stage, stands, rfl⟩ := shown
  rcases stands with ⟨none, -⟩ | ⟨-, own, ends⟩
  · simp only [step, none, reduceCtorEq] at stepped
  cases calls : b.calls with
  | nil => simp only [step, calls, reduceCtorEq] at stepped
  | cons e later =>
    rw [calls] at ends heeded
    rw [run_cons] at ends
    obtain ⟨stage', next, ends⟩ := Option.bind_eq_some_iff.mp ends
    obtain ⟨left, pending, task, reached⟩ := called_step (after_called next) stepped calls heeded.1
    obtain ⟨last, stands, further⟩ := stands_of_run (b := b') ends
    refine ⟨_, reached.trans further, ?_, left ▸ heeded.2, last, left ▸ stands, rfl⟩
    rw [Reporting, pending, task]
    exact reporting

/-- A message that is taken is an event that will be concluded. -/
theorem shows_take {env : Env} (shown : Shows b s) (stepped : b.step (.take env) = some b')
    (heeded : Heeded b'.calls) : ∃ t, Relation.ReflTransGen ReadyStep s t ∧ Shows b' t := by
  obtain ⟨reporting, -, stage, stands, rfl⟩ := shown
  simp only [step] at stepped
  split at stepped
  · rename_i msg rest idle pending
    split at stepped
    · rename_i w ran
      cases stepped
      rcases stands with ⟨-, rfl⟩ | ⟨some, -⟩
      swap
      · exact absurd idle some
      have asks : ∀ later ∈ b.server.pendingSocks, later.op = .read ∨ later.op = .write := reporting.1
      rw [pending] at asks
      obtain ⟨here, later⟩ := List.forall_mem_cons.mp asks
      obtain ⟨events, grown, settles⟩ := handle_settled here ran
      have taken : w.trace.take (w.trace.length - b.world.trace.length) = events := by
        rw [grown]
        simp
      dsimp only at heeded
      rw [taken] at heeded
      obtain ⟨still, ends, settled⟩ := settles false
      obtain rfl := settled [] (fun _ => id) (by rwa [List.append_nil])
      have received : ReadyStep (b.staged .waiting)
          { b.server with pendingSocks := rest, worker := .busy msg.socket false } := by
        refine ⟨.receive, trivial, ?_⟩
        simp only [Server.step, serve, work, staged, pending]
        rfl
      let b' : Broker := { b with server := { b.server with pendingSocks := rest } }
      obtain ⟨last, stands, further⟩ := stands_of_run (b := b') ends
      refine ⟨_, .head received further, ⟨later, reporting.2⟩, ?_, last, ?_, rfl⟩
      · dsimp only
        rwa [taken]
      · dsimp only
        rwa [taken]
    · cases stepped
  · cases stepped

theorem shows_step (shown : Shows b s) (stepped : HeededStep b b') :
    ∃ t, Relation.ReflTransGen ReadyStep s t ∧ Shows b' t := by
  obtain ⟨choice, ready, stepped, heeded⟩ := stepped
  cases choice with
  | serve action => exact shows_serve shown ready stepped
  | take env => exact shows_take shown stepped heeded
  | call => exact shows_call shown stepped

theorem reached_shown {listenSock : Fin 64} {boot : Boot}
    (run : Relation.ReflTransGen HeededStep (start listenSock boot) b) :
    ∃ s, Relation.ReflTransGen ReadyStep (Server.start listenSock) s ∧ Shows b s := by
  refine simulated_run (fun b b' s shown stepped => ?_) (shows_start listenSock boot) run
  exact shows_step shown stepped

/-- Every run of the broker in which the calls are heeded is a run of the abstract
system, and the abstract worker waits exactly between two messages. -/
theorem worker_refines {listenSock : Fin 64} {boot : Boot}
    (run : Relation.ReflTransGen HeededStep (start listenSock boot) b) :
    ∃ stage, Relation.ReflTransGen ReadyStep (Server.start listenSock) (b.staged stage) ∧
      (stage = .waiting ↔ b.calls = []) := by
  obtain ⟨_, reached, -, -, stage, stands, rfl⟩ := reached_shown run
  refine ⟨stage, reached, ?_⟩
  rcases stands with ⟨none, waiting⟩ | ⟨some, own, ends⟩
  · exact iff_of_true waiting none
  · refine iff_of_false ?_ some
    rintro rfl
    exact run_waiting ends

/-- In such a run every accepted socket that is not closed is waited for, named by
a message, or about to be asked for or closed. -/
theorem sockets_awaited {listenSock : Fin 64} {boot : Boot}
    (run : Relation.ReflTransGen HeededStep (start listenSock boot) b) :
    ∀ sock ∈ b.server.accepted, b.Awaited sock := by
  obtain ⟨_, reached, -, -, stage, stands, rfl⟩ := reached_shown run
  have kept : Kept (b.staged stage) := reached_invariant (fun _ _ held stepped => kept_step held stepped)
    (fun sock member => absurd member (Finset.notMem_empty sock)) reached
  intro sock member
  rcases kept sock member with covers | ⟨msg, pending, names⟩ | holds
  · rcases settle_covers covers with now | ⟨msg, queued, names⟩
    · exact .inl (cleared_covers now)
    · exact .inr (.inl ⟨msg, List.mem_append_right _ queued, names⟩)
  · exact .inr (.inl ⟨msg, List.mem_append_left _ pending, names⟩)
  · rcases stands with ⟨-, rfl⟩ | ⟨-, own, ends⟩
    · exact holds.elim
    · exact .inr (.inr (holds_called ends holds))

/-- The choice is ready, and the calls after it are heeded. -/
def heeds (b : Broker) (choice : Choice) : Bool :=
  decide (b.Readied choice) && (b.step choice).all fun b' => decide (Heeded b'.calls)

theorem heeds_step {choice : Choice} (allowed : b.heeds choice) (stepped : b.step choice = some b') :
    HeededStep b b' := by
  rw [heeds, stepped, Option.all_some, Bool.and_eq_true, decide_eq_true_eq, decide_eq_true_eq] at allowed
  exact ⟨choice, allowed.1, stepped, allowed.2⟩

/-- A connection that ends before its CONNECT is closed, and asked for no more. -/
example : (perform heeds (start 0 .clean) (opening ++ handling (reading 1 none) 3)).any
    (fun b => decide (1 ∉ b.server.accepted) && b.calls.isEmpty) = true := by decide +kernel

/-- The first client connects: the worker is in the middle of the message. -/
theorem connect_refined : ∃ (b : Broker) (stage : Stage), b.calls ≠ [] ∧ stage ≠ .waiting ∧
    Relation.ReflTransGen ReadyStep (Server.start 0) (b.staged stage) := by
  have ran : (perform heeds (start 0 .clean)
      (opening ++ handling (reading 1 (some (connectPacket [97] 2))) 2)).any (fun b => !b.calls.isEmpty) = true := by
    decide +kernel
  obtain ⟨b, ran, shown⟩ := (Option.any_eq_true _ _).mp ran
  have busy : b.calls ≠ [] := by simpa using shown
  obtain ⟨stage, reached, waits⟩ := worker_refines (perform_reaches (fun _ _ _ => heeds_step) ran)
  exact ⟨b, stage, busy, fun waiting => busy (waits.mp waiting), reached⟩

/-- The first client is connected, and nothing is under way. -/
theorem connected_awaited : ∃ b : Broker, 1 ∈ b.server.accepted ∧ b.calls = [] ∧ b.Awaited 1 := by
  have ran : (perform heeds (start 0 .clean)
      (opening ++ handling (reading 1 (some (connectPacket [97] 2))) 5 ++ idle 1)).any
      (fun b => decide (1 ∈ b.server.accepted) && b.calls.isEmpty) = true := by
    decide +kernel
  obtain ⟨b, ran, shown⟩ := (Option.any_eq_true _ _).mp ran
  rw [Bool.and_eq_true, decide_eq_true_eq, List.isEmpty_iff] at shown
  exact ⟨b, shown.1, shown.2, sockets_awaited (perform_reaches (fun _ _ _ => heeds_step) ran) 1 shown.1⟩

end Broker
end MqttBroker
