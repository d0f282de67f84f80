import MqttBroker.Attendance
import MqttBroker.Listening
import MqttBroker.Worker.Wakeups

/-! What is to be sent is watched for: while a connection has something to send,
its socket is in `master_writefds` once the requests under way are heeded, or
the worker is told already that it can be written. -/
namespace MqttBroker
open Logic Server Worker World Wakeups Supply

/-- The sets once all that the worker has asked for, or is about to, is done. -/
def Broker.promised (b : Broker) : FdSets := b.calls.foldl Event.heed b.server.settled

/-- The socket will be selected for writing, or was and the worker is told so. -/
def Broker.Watches (b : Broker) (sock : Fin 64) : Prop :=
  sock ∈ b.promised.writefds ∨ ⟨sock, .write⟩ ∈ b.server.pendingSocks

/-- A step in which what the server sends finds room, a handshake answers 0 or a
negative code, no request to write is lost, and the table holds what is added to
it. -/
def Broker.ServingStep (b b' : Broker) : Prop :=
  ∃ choice : Choice, b.Readied choice ∧ choice.Prompt ∧ b.step choice = some b' ∧
    ∀ e ∈ b'.calls, e.Sent ∧ Provides e

namespace Broker

variable {b b' : Broker} {s t : System} {sock : Fin 64} {fds fds' : FdSets} {e : Event} {events : List Event}
  {msg : Message} {action : Action}

/-! ### The sets -/

/-- Whether a socket is in `writefds` in the end depends on whether it is now. -/
theorem heed_mono (more : sock ∈ fds.writefds → sock ∈ fds'.writefds) :
    sock ∈ (e.heed fds).writefds → sock ∈ (e.heed fds').writefds := by
  cases e with
  | queued msg ok =>
    obtain ⟨target, op⟩ := msg
    cases ok with
    | false => exact more
    | true =>
      cases op with
      | write => exact fun member => Finset.mem_insert.mpr ((Finset.mem_insert.mp member).imp_right more)
      | read | delread => exact more
      | delall => exact fun member => Finset.mem_erase.mpr ((Finset.mem_erase.mp member).imp_right more)
  | _ => exact more

theorem foldl_heed_mono (more : sock ∈ fds.writefds → sock ∈ fds'.writefds) :
    sock ∈ (events.foldl Event.heed fds).writefds → sock ∈ (events.foldl Event.heed fds').writefds := by
  induction events generalizing fds fds' with
  | nil => exact more
  | cons e events ih => exact ih (heed_mono more)

theorem foldl_apply_mono {queue : List Message} (more : sock ∈ fds.writefds → sock ∈ fds'.writefds) :
    sock ∈ (queue.foldl FdSets.apply fds).writefds → sock ∈ (queue.foldl FdSets.apply fds').writefds := by
  induction queue generalizing fds fds' with
  | nil => exact more
  | cons msg queue ih => exact ih (heed_mono (e := .queued msg true) more)

theorem heedAll_reverse (fds : FdSets) (events : List Event) :
    events.reverse.foldl Event.heed fds = heedAll fds events := List.foldl_reverse

/-! ### The server -/

/-- What becomes of the bit of a socket, and of a message that says so. -/
theorem served_watched (ready : Ready s action) (served : serve s action = some t) :
    (sock ∈ s.settled.writefds → sock ∈ t.settled.writefds ∨ ⟨sock, .write⟩ ∈ t.pendingSocks) ∧
      ∀ msg ∈ s.pendingSocks, msg ∈ t.pendingSocks := by
  have keeps (settled : t.settled = s.settled) (pending : t.pendingSocks = s.pendingSocks) :
      (sock ∈ s.settled.writefds → sock ∈ t.settled.writefds ∨ ⟨sock, .write⟩ ∈ t.pendingSocks) ∧
        ∀ msg ∈ s.pendingSocks, msg ∈ t.pendingSocks :=
    ⟨fun member => .inl (settled ▸ member), fun _ member => pending ▸ member⟩
  cases action with
  | select readfds writefds =>
    simp only [serve] at served
    split at served
    · rename_i task
      split at served
      · split at served <;> cases served
        · exact keeps (by simp [System.settled, System.cleared, task]) rfl
        · exact keeps (by simp [System.settled, System.cleared, task]) rfl
      · cases served
    · cases served
  | accept newSock =>
    cases task : s.task <;> cases newSock <;> simp only [serve, task, reduceCtorEq] at served
    case accepting.none =>
      cases served
      exact keeps (by simp [System.settled, System.cleared, task]) rfl
    case accepting.some readfds writefds newSock =>
      split at served
      · cases served
        rw [sendToBack_room ready]
        refine ⟨fun member => .inl ?_, fun msg member => List.mem_append_left _ member⟩
        simpa [System.settled, System.cleared, task] using member
      · cases served
  | send =>
    simp only [serve] at served
    split at served
    · rename_i msg rest task
      cases served
      rw [sendToBack_room ready]
      refine ⟨fun member => ?_, fun later member => List.mem_append_left _ member⟩
      by_cases same : msg = ⟨sock, .write⟩
      · exact .inr (List.mem_append_right _ (List.mem_singleton.mpr same.symm))
      refine .inl (foldl_apply_mono (fun before => ?_) member)
      obtain ⟨target, op⟩ := msg
      have before : sock ∈ s.master.writefds := by simpa [System.cleared, task] using before
      cases op with
      | write => exact Finset.mem_erase.mpr ⟨fun here => same (here ▸ rfl), before⟩
      | read | delread | delall => exact before
    · cases served
  | clear =>
    simp only [serve] at served
    split at served
    · rename_i msg rest task
      cases served
      exact keeps (by simp [System.settled, System.cleared, task]) rfl
    · cases served
  | drain =>
    simp only [serve] at served
    split at served
    · rename_i task queue
      cases served
      exact keeps (by simp [System.settled, System.cleared, task]) rfl
    · rename_i msg rest task queue
      cases served
      exact keeps (by simp [System.settled, System.cleared, task, queue]) rfl
    · cases served
  | _ => cases served

/-! ### Each step keeps it -/

/-- Between two steps of either task. -/
structure Watchful (b : Broker) : Prop where
  attentive : Attentive b
  provides : ∀ e ∈ b.world.trace, Provides e
  ordered : ∀ sock, Ordered sock b.world.trace
  watched : ∀ sock, b.world.Due sock → b.Watches sock

/-- The server leaves the worker's data and calls alone. -/
theorem serve_ok (stepped : b.step (.serve action) = some b') :
    ∃ server, serve b.server action = some server ∧ b'.server = server ∧ b'.calls = b.calls ∧ b'.world = b.world := by
  obtain ⟨server, served, rfl⟩ := Option.map_eq_some_iff.mp stepped
  refine ⟨server, served, ?_⟩
  unfold Broker.served
  split
  · exact ⟨rfl, rfl, rfl⟩
  · exact ⟨rfl, rfl, rfl⟩
  · split <;> exact ⟨rfl, rfl, rfl⟩
  · exact ⟨rfl, rfl, rfl⟩

theorem watches_serve (ready : b.Readied (.serve action)) (stepped : b.step (.serve action) = some b')
    (watches : b.Watches sock) : b'.Watches sock := by
  obtain ⟨server, served, rfl, calls, -⟩ := serve_ok stepped
  obtain ⟨bit, sent⟩ := @served_watched _ _ sock _ ready served
  rw [Watches, promised, calls]
  rcases watches with promised | told
  · by_cases told : ⟨sock, .write⟩ ∈ b'.server.pendingSocks
    · exact .inr told
    · exact .inl (foldl_heed_mono (fun before => (bit before).resolve_right told) promised)
  · exact .inr (sent _ told)

theorem promised_call (stepped : b.step .call = some b') :
    b'.promised = b.promised ∧ b'.server.pendingSocks = b.server.pendingSocks ∧ b'.world = b.world := by
  simp only [step] at stepped
  split at stepped
  · cases stepped
  · rename_i msg ok later calls
    split at stepped
    · rename_i answered
      cases stepped
      refine ⟨?_, rfl, rfl⟩
      have sent : (sendToBack b.server.socksForFds msg).2.foldl FdSets.apply b.server.cleared =
          Event.heed b.server.settled (.queued msg ok) := by
        rw [answered]
        unfold sendToBack
        split
        · exact List.foldl_append
        · rfl
      rw [promised, promised, calls, List.foldl_cons, ← sent]
      rfl
    · cases stepped
  · rename_i target later calls
    cases stepped
    refine ⟨?_, rfl, rfl⟩
    rw [promised, promised, calls]
    rfl
  · rename_i e later queued closed calls
    cases stepped
    refine ⟨?_, rfl, rfl⟩
    rw [promised, promised, calls, List.foldl_cons]
    have still : e.heed b.server.settled = b.server.settled := by
      cases e with
      | queued msg ok => exact absurd rfl (queued msg ok)
      | _ => rfl
    rw [still]

/-- What is to be sent is in the table. -/
theorem stocked_reached {w : World} (reachable : Reachable w) (provides : ∀ e ∈ w.trace, Provides e) :
    Stocked sock w := by
  intro item member used sends
  have supplied := reached_supplied reachable provides
  refine supplied.covered.found used fun none => ?_
  have referred : (w.items sock).countP (Ledger.Refers item.packetId) ≠ 0 :=
    Nat.ne_of_gt (List.countP_pos_iff.mpr ⟨item, member, decide_eq_true ⟨rfl, used, .inl sends⟩⟩)
  have all : Ledger.references w item.packetId = 0 := by
    unfold need at none
    omega
  exact referred (Finset.sum_eq_zero_iff.mp all sock (Finset.mem_univ sock))

theorem watchful_take (watchful : Watchful b) {env : Env} (prompt : env.Prompt)
    (stepped : b.step (.take env) = some b') (fine : ∀ e ∈ b'.calls, e.Sent ∧ Provides e) : Watchful b' := by
  have attentive := (attentive_take watchful.attentive prompt stepped).1
  simp only [step] at stepped
  split at stepped
  · rename_i msg rest idle pending
    split at stepped
    · rename_i w ran
      cases stepped
      have reached := watchful.attentive.reached
      have woken (sock : Fin 64) : Wakes sock { b.world with env := env } w := wakes_handle msg _ _ _ ran
      have taken {events : List Event} (grown : w.trace = events ++ b.world.trace) :
          (w.trace.take (w.trace.length - b.world.trace.length)).reverse = events.reverse := by
        rw [grown]
        simp
      refine ⟨attentive, ?_, fun sock => ?_, fun sock due => ?_⟩
      · obtain ⟨events, grown, -⟩ := woken 0
        dsimp only at fine ⊢
        rw [taken grown] at fine
        rw [grown]
        refine List.forall_mem_append.mpr ⟨fun e member => ?_, watchful.provides⟩
        exact (fine e (List.mem_reverse.mpr member)).2
      · obtain ⟨events, -, ordered, -⟩ := woken sock
        exact ordered (watchful.ordered sock)
      have before (due : World.Due { b.world with env := env } sock) : b.Watches sock :=
        watchful.watched sock ⟨due.asked, due.waits⟩
      rw [Watches, promised, idle, pending] at before
      by_cases told : ⟨sock, .write⟩ ∈ rest
      · exact .inr told
      refine .inl ?_
      by_cases here : msg = ⟨sock, .write⟩
      · subst here
        have stocked : Stocked sock b.world :=
          stocked_reached (Admission.PromptlyReached.reachable reached) watchful.provides
        obtain ⟨events, grown, roused⟩ := rouses_handle reached stocked ran
        dsimp only [promised] at fine ⊢
        rw [taken grown] at fine ⊢
        rw [heedAll_reverse]
        exact roused (fun e member => (fine e (List.mem_reverse.mpr member)).1) _ due
      · obtain ⟨events, grown, -, woken⟩ := woken sock
        dsimp only [promised] at fine ⊢
        rw [taken grown] at fine ⊢
        rw [heedAll_reverse]
        refine woken (fun e member => (fine e (List.mem_reverse.mpr member)).1) _ (fun due => ?_) due
        rcases before due with bit | member
        · exact bit
        · rcases List.mem_cons.mp member with same | later
          · exact absurd same.symm here
          · exact absurd later told
    · cases stepped
  · cases stepped

theorem watchful_step (watchful : Watchful b) (stepped : ServingStep b b') : Watchful b' := by
  obtain ⟨choice, ready, prompt, stepped, fine⟩ := stepped
  cases choice with
  | serve action =>
    obtain ⟨_, -, -, -, world⟩ := serve_ok stepped
    refine ⟨(attentive_serve watchful.attentive stepped).1, world ▸ watchful.provides, world ▸ watchful.ordered,
      fun sock due => ?_⟩
    exact watches_serve ready stepped (watchful.watched sock (world ▸ due))
  | take env => exact watchful_take watchful prompt stepped fine
  | call =>
    obtain ⟨same, pending, world⟩ := promised_call stepped
    refine ⟨(attentive_call watchful.attentive stepped).1, world ▸ watchful.provides, world ▸ watchful.ordered,
      fun sock due => ?_⟩
    rw [Watches, same, pending]
    exact watchful.watched sock (world ▸ due)

theorem watchful_start (listenSock : Fin 64) (boot : Boot) : Watchful (start listenSock boot) :=
  ⟨attentive_start listenSock boot, List.forall_mem_nil _, fun _ => lawful_nil,
    fun _ due => absurd due.asked not_since_nil⟩

/-- No item is left lying: each is put in after its connection was to be written,
and while one waits to be sent on such a connection its socket is watched for;
once nothing is under way it is in `master_writefds`. -/
theorem due_watched {listenSock : Fin 64} {boot : Boot}
    (run : Relation.ReflTransGen ServingStep (start listenSock boot) b) (sock : Fin 64) :
    Ordered sock b.world.trace ∧ (b.world.Due sock → b.Watches sock ∧
      (b.calls = [] → b.server.socksForFds = [] → b.server.pendingSocks = [] → b.server.task = .selecting →
        sock ∈ b.server.master.writefds)) := by
  have watchful : Watchful b := by
    induction run with
    | refl => exact watchful_start listenSock boot
    | tail _ stepped ih => exact watchful_step ih stepped
  refine ⟨watchful.ordered sock, fun due => ⟨watchful.watched sock due, fun calls queue pending task => ?_⟩⟩
  rcases watchful.watched sock due with promised | told
  · simpa [Broker.promised, System.settled, System.cleared, calls, queue, task] using promised
  · rw [pending] at told
    cases told

/-- The choice is ready, prompt and heeded. -/
def serves (b : Broker) (choice : Choice) : Bool :=
  decide (b.Readied choice) && decide choice.Prompt &&
    (b.step choice).all fun b' => decide (∀ e ∈ b'.calls, e.Sent ∧ Provides e)

theorem serves_step {choice : Choice} (allowed : b.serves choice) (stepped : b.step choice = some b') :
    ServingStep b b' := by
  simp only [serves, stepped, Option.all_some, Bool.and_eq_true, decide_eq_true_eq] at allowed
  obtain ⟨⟨ready, prompt⟩, fine⟩ := allowed
  exact ⟨choice, ready, prompt, stepped, fine⟩

/-- A client has published with QoS 1 and is owed its PUBACK. -/
def owing : List Choice :=
  connected ++ handOver {1} ∅ ++ handling (reading 1 (some (publishPacket 0x32 [116] [0, 5, 9]))) 8 ++ idle 1

/-- Nothing is under way. -/
def Quiescent (b : Broker) : Bool :=
  b.calls.isEmpty && b.server.socksForFds.isEmpty && b.server.pendingSocks.isEmpty &&
    match b.server.task with
    | .selecting => true
    | _ => false

theorem puback_watched : ∃ b : Broker, b.world.Due 1 ∧ (1 : Fin 64) ∈ b.server.master.writefds := by
  have ran : (perform serves (start 0 .clean) owing).any
      (fun b => decide (b.world.Due 1) && b.Quiescent) = true := by
    decide +kernel
  obtain ⟨b, ran, shown⟩ := (Option.any_eq_true _ _).mp ran
  simp only [Quiescent, Bool.and_eq_true, List.isEmpty_iff, decide_eq_true_eq] at shown
  obtain ⟨due, ⟨⟨calls, queue⟩, pending⟩, task⟩ := shown
  have selecting : b.server.task = .selecting := by
    split at task
    · assumption
    · cases task
  obtain ⟨-, watched⟩ := due_watched (perform_reaches (fun _ _ _ => serves_step) ran) 1
  exact ⟨b, due, (watched due).2 calls queue pending selecting⟩

end Broker
end MqttBroker
