import MqttBroker.Broker
import MqttBroker.Logic.Traces
import MqttBroker.Worker.Admission
import MqttBroker.Worker.Draining
import MqttBroker.Worker.Supply

/-! Whether the server will look for the moment at which a socket can be written.
An item comes up to be sent together with a request to write its socket, and a
write that does not send the last one asks for another, so a socket with
something to send stays in `master_writefds` once it is there. -/
namespace MqttBroker
open Logic Server Worker World Conclusion

/-- The sets once the server has done what a call of the worker asks of it. -/
def Event.heed (fds : FdSets) : Event → FdSets
  | .queued msg true => fds.apply msg
  | _ => fds

/-- The sets once all of these are done, of which the last comes first. -/
def heedAll (fds : FdSets) (events : List Event) : FdSets := events.foldr (fun e fds => e.heed fds) fds

/-- A request to write, if it is one, is not lost. -/
def Event.Sent : Event → Prop
  | .queued ⟨_, .write⟩ ok => ok = true
  | _ => True

instance : DecidablePred Event.Sent := fun e => by
  rcases e with ⟨⟩
  case queued msg _ => rcases msg with ⟨_, ⟨⟩⟩ <;> dsimp only [Event.Sent] <;> infer_instance
  all_goals
    dsimp only [Event.Sent]
    infer_instance

/-- A request to write the socket, which is queued. -/
def Event.AsksWrite (sock : Fin 64) : Event → Prop
  | .queued ⟨target, .write⟩ ok => target = sock ∧ ok = true
  | _ => False

instance (sock : Fin 64) : DecidablePred (Event.AsksWrite sock) := fun e => by
  rcases e with ⟨⟩
  case queued msg _ => rcases msg with ⟨_, ⟨⟩⟩ <;> dsimp only [Event.AsksWrite] <;> infer_instance
  all_goals
    dsimp only [Event.AsksWrite]
    infer_instance

instance (sock : Fin 64) : DecidablePred (Event.Uses sock) := fun e => by
  rcases e with ⟨⟩ <;> dsimp only [Event.Uses] <;> infer_instance

/-- An item is put in for the socket. -/
def Event.Fills (sock : Fin 64) : Event → Prop
  | .enqueued _ target _ _ => target = sock
  | _ => False

/-- An item is only put in once its connection is to be written. -/
def Ordered (sock : Fin 64) : List Event → Prop :=
  Lawful fun earlier e => e.Fills sock → Since (Event.Uses sock) (Event.AsksWrite sock) earlier

/-- The connection has something to send, and was to be written before. -/
structure World.Due (w : World) (sock : Fin 64) : Prop where
  asked : Since (Event.Uses sock) (Event.AsksWrite sock) w.trace
  waits : ∃ item ∈ w.items sock, PackidStateItem.Pending item

instance (w : World) (sock : Fin 64) : Decidable (w.Due sock) :=
  decidable_of_iff (Since (Event.Uses sock) (Event.AsksWrite sock) w.trace ∧
    ∃ item ∈ w.items sock, PackidStateItem.Pending item) ⟨fun due => ⟨due.1, due.2⟩, fun due => ⟨due.1, due.2⟩⟩

namespace Wakeups

/-- If the socket was waited for whenever it was due, it is so after all of the
requests are heeded. -/
def Wakes (sock : Fin 64) (w w' : World) : Prop :=
  ∃ events, w'.trace = events ++ w.trace ∧ (Ordered sock w.trace → Ordered sock w'.trace) ∧
    ((∀ e ∈ events, e.Sent) → ∀ fds : FdSets, (w.Due sock → sock ∈ fds.writefds) → w'.Due sock →
      sock ∈ (heedAll fds events).writefds)

/-- No item is put in, and the server is not told to forget the socket. -/
def Plain (sock : Fin 64) : Event → Prop
  | .queued ⟨target, .delall⟩ _ => target ≠ sock
  | .enqueued .. => False
  | _ => True

variable {sock own target : Fin 64} {w w₁ w' : World} {fds : FdSets} {e : Event} {events : List Event}
  {item : PackidStateItem} {msg : Message} {ok : Bool} {α β : Type}

/-! ### Single calls -/

theorem Wakes.trans (first : Wakes sock w w₁) (rest : Wakes sock w₁ w') : Wakes sock w w' := by
  obtain ⟨early, grown, ordered, wakes⟩ := first
  obtain ⟨late, grown', ordered', wakes'⟩ := rest
  refine ⟨late ++ early, by rw [grown', grown, List.append_assoc], ordered' ∘ ordered, fun sent fds before => ?_⟩
  obtain ⟨sent', sent⟩ := List.forall_mem_append.mp sent
  have all : heedAll fds (late ++ early) = heedAll (heedAll fds early) late := List.foldr_append
  rw [all]
  exact wakes' sent' _ (wakes sent fds before)

/-- Nothing is said, and no item comes up. -/
theorem Wakes.silent (same : w'.trace = w.trace)
    (fewer : ∀ item ∈ w'.items sock, PackidStateItem.Pending item →
      ∃ item ∈ w.items sock, PackidStateItem.Pending item) :
    Wakes sock w w' := by
  refine ⟨[], same, fun ordered => same ▸ ordered, fun _ fds before due => before ⟨same ▸ due.asked, ?_⟩⟩
  obtain ⟨item, member, waits⟩ := due.waits
  exact fewer item member waits

theorem Wakes.same (trace : w'.trace = w.trace) (items : w'.items sock = w.items sock) : Wakes sock w w' :=
  .silent trace fun item member waits => ⟨item, items ▸ member, waits⟩

theorem Wakes.refl (w : World) : Wakes sock w w := .same rfl rfl

theorem asksWrite_iff : e.AsksWrite sock ↔ e = .queued ⟨sock, .write⟩ true := by
  constructor
  · intro asks
    cases e with
    | queued msg ok =>
      obtain ⟨target, op⟩ := msg
      cases op with
      | write =>
        obtain ⟨rfl, rfl⟩ := asks
        rfl
      | read | delread | delall => exact asks.elim
    | _ => exact asks.elim
  · rintro rfl
    exact ⟨rfl, rfl⟩

/-- Only a close takes a socket out of the set. -/
theorem heed_keeps (plain : Plain sock e) (member : sock ∈ fds.writefds) : sock ∈ (e.heed fds).writefds := by
  cases e with
  | queued msg ok =>
    obtain ⟨target, op⟩ := msg
    cases ok with
    | false => exact member
    | true =>
      cases op with
      | write => exact Finset.mem_insert_of_mem member
      | read | delread => exact member
      | delall => exact Finset.mem_erase.mpr ⟨plain.symm, member⟩
  | _ => exact member

theorem plain_fills (plain : Plain sock e) : ¬ e.Fills sock := by
  cases e <;> first | exact id | exact plain.elim

/-- One event, and no item comes up. -/
theorem Wakes.said (grown : w'.trace = e :: w.trace) (items : w'.items sock = w.items sock) (plain : Plain sock e) :
    Wakes sock w w' := by
  refine ⟨[e], grown, fun ordered => ?_, fun _ fds before due => ?_⟩
  · rw [grown]
    exact lawful_cons.mpr ⟨fun fills => absurd fills (plain_fills plain), ordered⟩
  obtain ⟨asked, waits⟩ := due
  rw [grown] at asked
  rw [items] at waits
  by_cases asks : e.AsksWrite sock
  · obtain rfl := asksWrite_iff.mp asks
    exact Finset.mem_insert_self sock _
  · exact heed_keeps plain (before ⟨asked.of_cons asks, waits⟩)

theorem wakes_bind {m : Worker α} {f : α → Worker β} (first : Along (Wakes sock) m)
    (rest : ∀ a, Along (Wakes sock) (f a)) : Along (Wakes sock) (m >>= f) := by
  refine Along.bind ?_ first rest
  exact Wakes.trans

theorem wakes_quiet {m : Worker α} (quiet : Along Quiet m) : Along (Wakes sock) m := by
  intro w a w' ran
  obtain ⟨env, buf, rfl⟩ := quiet w a w' ran
  exact .same rfl rfl

theorem wakes_pure (a : α) : Along (Wakes sock) (pure a : Worker α) := wakes_quiet (quiet_pure a)

theorem wakes_log (plain : Plain sock e) : Along (Wakes sock) (Worker.log e) := by
  intro w u w' ran
  obtain rfl := log_ok.mp ran
  exact .said rfl rfl plain

theorem wakes_request (op : Operation) (asks : op ≠ .delall) : Along (Wakes sock) (sendtoque ⟨target, op⟩) := by
  intro w ok w' ran
  obtain ⟨env, rfl⟩ := sendtoque_ok ran
  refine .said rfl rfl ?_
  cases op with
  | delall => exact absurd rfl asks
  | _ => exact trivial

theorem wakes_write (target : Fin 64) (bytes : List UInt8) (item : Option PackidStateItem) :
    Along (Wakes sock) (connWrite target bytes item) := by
  intro w ok w' ran
  obtain ⟨env, rfl⟩ := connWrite_ok ran
  exact .said rfl rfl trivial

theorem wakes_setClient (client : Option Nat) (f : Client → Client) :
    Along (Wakes sock) (Worker.setClient client f) := by
  intro w u w' ran
  obtain ⟨addr, -, rfl⟩ := setClient_ok ran
  exact .same rfl rfl

/-- A socket is written without its items. -/
theorem Wakes.setSock {f : SockCid → SockCid} (keeps : ∀ sockst, (f sockst).packidState = sockst.packidState) :
    Wakes sock w (w.setSock target f) := by
  refine .same rfl ?_
  by_cases here : sock = target
  · subst here
    rw [World.items, setSock_socks, keeps, World.items]
  · rw [World.items, setSock_other _ _ here, World.items]

theorem wakes_setSock (target : Fin 64) {f : SockCid → SockCid}
    (keeps : ∀ sockst, (f sockst).packidState = sockst.packidState) : Along (Wakes sock) (Worker.setSock target f) := by
  intro w u w' ran
  obtain rfl := setSock_ok.mp ran
  exact .setSock keeps

theorem wakes_storeAdd (packetId : UInt16) (frame : List UInt8) (qos count : UInt8) :
    Along (Wakes sock) (storeAdd packetId frame qos count) := by
  intro w ok w' ran
  obtain ⟨-, env, buf, rfl⟩ := storeAdd_ok ran
  exact .said rfl rfl trivial

theorem wakes_countUp (i : Nat) : Along (Wakes sock) (Worker.countUp i) := by
  intro w u w' ran
  obtain rfl := countUp_ok.mp ran
  exact .said rfl rfl trivial

theorem wakes_countDown (i : Nat) (packetId : UInt16) : Along (Wakes sock) (Worker.countDown i packetId) := by
  intro w u w' ran
  obtain rfl := countDown_ok.mp ran
  exact .said rfl rfl trivial

theorem wakes_countDownIf (packetId : UInt16) (found : Option Nat) :
    Along (Wakes sock) (countDownIf packetId found) := by
  cases found with
  | none => exact wakes_pure _
  | some i => exact wakes_countDown i packetId

/-! ### Items -/

/-- An item is changed into one that does not wait. -/
theorem Wakes.served {i : Nat} {f : PackidStateItem → PackidStateItem}
    (served : ∀ x, PackidStateItem.Pending (f x) → PackidStateItem.Pending x) :
    Wakes sock w (w.setItem target i f) := by
  refine .silent rfl fun item member waits => ?_
  by_cases here : sock = target
  · subst here
    rw [items_setItem] at member
    obtain ⟨k, at_k⟩ := List.mem_iff_getElem?.mp member
    rw [List.getElem?_modify] at at_k
    obtain ⟨old, at_old, rfl⟩ := Option.map_eq_some_iff.mp at_k
    refine ⟨old, List.mem_of_getElem? at_old, ?_⟩
    split at waits
    · exact served old waits
    · exact waits
  · rw [items_setItem_other here] at member
    exact ⟨item, member, waits⟩

theorem wakes_served (target : Fin 64) (i : Nat) {f : PackidStateItem → PackidStateItem}
    (served : ∀ x, PackidStateItem.Pending (f x) → PackidStateItem.Pending x) :
    Along (Wakes sock) (modify (·.setItem target i f) : Worker Unit) := by
  intro w u w' ran
  obtain rfl := modify_ok.mp ran
  exact .served served

/-- An item comes up after the request to write its socket is queued. -/
theorem Wakes.offered (added : ItemAdded (w.log (.queued ⟨target, .write⟩ true)) target item w') :
    Wakes sock w w' := by
  obtain ⟨e, grown, idle, fills⟩ : ∃ e, w'.trace = e :: .queued ⟨target, .write⟩ true :: w.trace ∧
      (∀ fds : FdSets, e.heed fds = fds ∧ ¬ e.AsksWrite sock) ∧ (e.Fills sock → target = sock) := by
    rcases trace_added added with ⟨i, grown⟩ | grown
    · exact ⟨_, grown, fun _ => ⟨rfl, id⟩, id⟩
    · exact ⟨_, grown, fun _ => ⟨rfl, id⟩, False.elim⟩
  refine ⟨[e, .queued ⟨target, .write⟩ true], grown, fun ordered => ?_, fun _ fds before due => ?_⟩
  · rw [grown]
    refine lawful_cons.mpr ⟨fun filled => .now ⟨fills filled, rfl⟩, lawful_cons.mpr ⟨False.elim, ordered⟩⟩
  have all : heedAll fds [e, .queued ⟨target, .write⟩ true] =
      { fds with writefds := insert target fds.writefds } := (idle _).1
  rw [all]
  by_cases here : sock = target
  · subst here
    exact Finset.mem_insert_self sock _
  refine Finset.mem_insert_of_mem (before ⟨?_, ?_⟩)
  · have asked := due.asked
    rw [grown] at asked
    refine (asked.of_cons (idle fds).2).of_cons ?_
    rintro ⟨same, -⟩
    exact here same.symm
  · obtain ⟨item, member, waits⟩ := due.waits
    obtain ⟨k, at_k⟩ := List.mem_iff_getElem?.mp member
    rcases at_added added with ⟨-, same⟩ | ⟨j, -, came⟩
    · exact ⟨item, same ▸ member, waits⟩
    · rcases came sock k item at_k with at_k | ⟨at_target, -⟩
      · exact ⟨item, List.mem_of_getElem? at_k, waits⟩
      · exact absurd at_target here

/-- A write is requested, and an item put in if the request is queued. -/
theorem wakes_offer {f : Bool → Worker β} (item : SockCid → PackidStateItem) {rest : Worker β}
    (puts : f true = sockAt target >>= fun sockst => addPacketId target (item sockst) >>= fun _ => rest)
    (goes_on : Along (Wakes sock) rest) (gives_up : Along (Wakes sock) (f false)) :
    Along (Wakes sock) (sendtoque ⟨target, .write⟩ >>= f) := by
  intro w b w' ran
  obtain ⟨ok, w₁, asked, ran⟩ := bind_ok.mp ran
  cases ok with
  | false => exact (wakes_request .write nofun _ _ _ asked).trans (gives_up _ _ _ ran)
  | true =>
    rw [puts, sockAt_bind_ok] at ran
    obtain ⟨u, w₂, added, last⟩ := bind_ok.mp ran
    obtain ⟨env, rfl⟩ := sendtoque_ok asked
    have offered : Wakes sock { w with env := env } w₂ := .offered (addPacketId_ok added)
    have quiet : Wakes sock w { w with env := env } := .same rfl rfl
    exact quiet.trans (offered.trans (goes_on _ _ _ last))

/-! ### Publishing and dropping -/

theorem wakes_fanOut (topic frame : List UInt8) (qos : UInt8) (packetId : UInt16) (publisher : Option Publisher)
    (stamp i : Nat) (nodes : List (Node Client)) :
    Along (Wakes sock) (fanOut topic frame qos packetId publisher stamp i nodes) := by
  induction nodes with
  | nil => exact wakes_pure _
  | cons node rest ih =>
    unfold fanOut
    split
    · refine wakes_bind (wakes_quiet (quiet_check _)) fun granted => ?_
      split
      · exact ih
      · cases node.data.sock with
        | none => exact fun _ _ _ ran => absurd ran fault_ok
        | some target =>
          refine wakes_bind (wakes_request .delread (by decide)) fun _ => ?_
          have added : Along (Wakes sock) (do
              Worker.countUp i
              fanOut topic frame qos packetId publisher stamp i rest) := wakes_bind (wakes_countUp _) fun _ => ih
          refine wakes_offer _ rfl added ?_
          exact wakes_bind (wakes_request .read (by decide)) fun _ => ih
    · exact ih

theorem wakes_publishByTopic (topic frame : List UInt8) (qos : UInt8) (packetId : UInt16)
    (publisher : Option Publisher) : Along (Wakes sock) (publishByTopic topic frame qos packetId publisher) := by
  refine wakes_bind (wakes_log trivial) fun _ => Along.get fun w => ?_
  refine wakes_bind (wakes_storeAdd _ _ _ _) (fun _ => ?_) w
  refine wakes_bind (wakes_quiet (quiet_storeGet _)) fun found => ?_
  cases found with
  | none => exact wakes_pure _
  | some i =>
    refine Along.get fun w => wakes_bind (wakes_log ?_) (fun _ => ?_) w
    · exact trivial
    · exact wakes_bind (wakes_fanOut _ _ _ _ _ _ _ _) fun _ => wakes_countDown _ _

theorem wakes_publishWill (sockst : SockCid) (sendwill : Bool) : Along (Wakes sock) (publishWill sockst sendwill) := by
  unfold publishWill
  cases sockst.client with
  | none => exact wakes_pure _
  | some addr =>
    refine wakes_bind (wakes_quiet (quiet_deref _)) fun client => ?_
    split
    · refine wakes_bind (wakes_setClient _ _) fun _ => wakes_bind (wakes_quiet quiet_random) fun _ => ?_
      refine wakes_bind (wakes_log trivial) fun _ => ?_
      exact wakes_bind (wakes_publishByTopic _ _ _ _ _) fun _ => wakes_setClient _ _
    · exact wakes_pure _

theorem wakes_endSession (target : Fin 64) : Along (Wakes sock) (endSession target) := by
  refine wakes_bind (wakes_quiet (quiet_sockAt _)) fun sockst => ?_
  refine wakes_bind ?_ fun _ => wakes_setSock _ fun _ => rfl
  unfold releaseClient
  cases sockst.client with
  | none => exact wakes_pure _
  | some addr =>
    refine wakes_bind (wakes_quiet (quiet_deref _)) fun client => wakes_bind (wakes_log trivial) fun _ => ?_
    split
    · intro w u w' ran
      rw [get_bind_ok] at ran
      obtain ⟨erased, -, ran⟩ := check_bind_ok ran
      obtain rfl := set_ok.mp ran
      exact .same rfl rfl
    · exact wakes_setClient _ _

/-- Some events, and no item comes up. -/
theorem Wakes.spoke (grown : w'.trace = events ++ w.trace) (items : w'.items sock = w.items sock)
    (plain : ∀ e ∈ events, Plain sock e) : Wakes sock w w' := by
  induction events generalizing w' with
  | nil => exact .same grown items
  | cons e events ih =>
    obtain ⟨here, rest⟩ := List.forall_mem_cons.mp plain
    have before : Wakes sock w { w with trace := events ++ w.trace } := ih rfl rfl rest
    exact before.trans (.said grown items here)

/-- A socket that has just been closed, or set up, is not due. -/
theorem not_due_used (newest : w.trace = e :: events) (uses : e.Uses sock) : ¬ w.Due sock := by
  rintro ⟨asked, -⟩
  rw [newest, since_cons] at asked
  rcases asked with asks | ⟨goes_on, -⟩
  · obtain rfl := asksWrite_iff.mp asks
    exact uses
  · exact goes_on uses

/-- The server is told to forget a socket, and the socket is closed. -/
theorem Wakes.shut (grown : w'.trace = .closed target :: events ++ w.trace) (items : w'.items sock = w.items sock)
    (plain : ∀ e ∈ events, ∀ other, other ≠ target → Plain other e) (unfilled : ∀ e ∈ events, ¬ e.Fills sock) :
    Wakes sock w w' := by
  by_cases here : sock = target
  · subst here
    refine ⟨_, grown, fun ordered => ?_, fun _ fds _ due => absurd due (not_due_used grown rfl)⟩
    rw [grown]
    refine Lawful.append ordered fun e member earlier fills => ?_
    rcases List.mem_cons.mp member with rfl | member
    · exact fills.elim
    · exact absurd fills (unfilled e member)
  · exact .spoke grown items (List.forall_mem_cons.mpr ⟨trivial, fun e member => plain e member sock here⟩)

theorem wakes_dropConn (target : Fin 64) (sendwill : Bool) : Along (Wakes sock) (dropConn target sendwill) := by
  intro w u w' ran
  rw [dropConn, sockAt_bind_ok, log_bind_ok] at ran
  obtain ⟨ok, w₁, asked, ran⟩ := bind_ok.mp ran
  obtain ⟨env, rfl⟩ := sendtoque_ok asked
  rw [log_bind_ok, sockAt_bind_ok] at ran
  have willed : Wakes sock _ w' :=
    wakes_bind (wakes_publishWill _ _) (fun _ => wakes_endSession target) _ _ _ ran
  have plain : ∀ e ∈ [.queued ⟨target, .delall⟩ ok, .dropping target (w.socks target) sendwill],
      (∀ other, other ≠ target → Plain other e) ∧ ¬ e.Fills sock := by
    simp only [List.forall_mem_cons, List.not_mem_nil, false_implies, implies_true, and_true]
    exact ⟨⟨fun other apart => apart.symm, id⟩, fun _ _ => trivial, id⟩
  refine Wakes.trans ?_ willed
  exact .shut rfl rfl (fun e member => (plain e member).1) fun e member => (plain e member).2

/-! ### PUBLISH and its acknowledgements -/

theorem wakes_ask (op : Operation) (asks : op ≠ .delall) :
    Along (Wakes sock) (do let _ ← sendtoque ⟨target, op⟩) :=
  wakes_bind (wakes_request op asks) fun _ => wakes_pure _

theorem wakes_answer (target : Fin 64) (bytes : List UInt8) :
    Along (Wakes sock) (do
      let _ ← connWrite target bytes none
      let _ ← sendtoque ⟨target, .read⟩) :=
  wakes_bind (wakes_write _ _ _) fun _ => wakes_ask .read nofun

theorem wakes_reply (target : Fin 64) (qos : UInt8) (packetid : UInt16) (frame topic : List UInt8) :
    Along (Wakes sock) (replyToPublisher target qos packetid frame topic) := by
  have acks (state : PacketState) : Along (Wakes sock) (queueAck target state packetid qos frame topic) := by
    have done : Along (Wakes sock) (pure () : Worker Unit) := wakes_pure _
    refine wakes_offer (fun sockst => ⟨packetid, state, qos, true, { conn := sockst.tls, frame, topic }⟩) ?_ done done
    simp only [bind_pure_unit, if_true]
  unfold replyToPublisher
  split
  · exact acks _
  split
  · exact acks _
  · exact wakes_ask .read nofun

theorem wakes_retainMessage (topic frame : List UInt8) (qos : UInt8) (packetid : UInt16) :
    Along (Wakes sock) (retainMessage topic frame qos packetid) := by
  refine wakes_bind (wakes_log trivial) fun _ => wakes_bind (wakes_storeAdd _ _ _ _) fun ok => ?_
  split
  swap
  · exact wakes_pure _
  refine wakes_bind (wakes_log trivial) fun _ => Along.get fun w => ?_
  refine wakes_bind (wakes_quiet (quiet_check _)) (fun kept => ?_) w
  cases kept with
  | none =>
    refine wakes_bind (wakes_quiet (quiet_check _)) fun added => wakes_bind (wakes_log trivial) fun _ => ?_
    intro w u w' ran
    rw [get_bind_ok] at ran
    obtain rfl := set_ok.mp ran
    exact .same rfl rfl
  | some retainedMsg =>
    refine wakes_bind (wakes_quiet (quiet_storeGet _)) fun found => wakes_bind (wakes_countDownIf _ _) fun _ => ?_
    intro w u w' ran
    obtain rfl := modify_ok.mp ran
    exact .same rfl rfl

theorem wakes_publishEvent (target : Fin 64) (header : Header) : Along (Wakes sock) (publishEvent target header) := by
  refine wakes_bind (wakes_quiet (quiet_byteAt _)) fun head => ?_
  cases publishQos head with
  | none => exact wakes_dropConn _ _
  | some qos =>
    refine wakes_bind (wakes_quiet (quiet_ntohsAt _)) fun topicLen => ?_
    refine wakes_bind (wakes_quiet (quiet_rangeAt _ _)) fun topic => wakes_bind (wakes_quiet ?_) fun packetid => ?_
    · split
      · exact quiet_packetIdAt _
      · exact quiet_random
    refine wakes_bind (wakes_quiet (quiet_rangeAt _ _)) fun frame => ?_
    refine wakes_bind (wakes_quiet (quiet_sockAt _)) fun _ => ?_
    refine wakes_bind (wakes_log trivial) fun _ => wakes_bind ?_ fun _ => ?_
    · split
      · exact wakes_retainMessage _ _ _ _
      · exact wakes_pure _
    · exact wakes_bind (wakes_reply _ _ _ _ _) fun _ => wakes_publishByTopic _ _ _ _ _

theorem freed_served (x : PackidStateItem) : ¬ PackidStateItem.Pending { x with packetId := 0 } :=
  fun waits => waits.1 rfl

theorem awaiting_served (qos : UInt8) (x : PackidStateItem) :
    ¬ PackidStateItem.Pending { x with state := if qos = 1 then .getpuback else .getpubrec } := by
  rintro ⟨-, waits⟩
  split at waits <;> simp at waits

theorem wakes_publish (frame : List UInt8) (qos : UInt8) (packetId : UInt16) (target : Fin 64) (i : Nat)
    (item : PackidStateItem) (deleteRetain : Bool) :
    Along (Wakes sock) (publish frame qos packetId target i item deleteRetain) := by
  unfold publish
  split
  · exact fun _ _ _ ran => absurd ran fault_ok
  refine wakes_bind (wakes_write _ _ _) fun written => wakes_bind (wakes_quiet (quiet_storeGet _)) fun node => ?_
  refine wakes_bind (fun w u w' ran => ?_) fun _ => ?_
  · obtain rfl := logFailure_ok ran
    split
    · exact .refl w
    · exact .said rfl rfl trivial
  split
  · refine wakes_bind (wakes_served _ _ fun x waits => ?_) fun _ => wakes_countDownIf _ _
    exact absurd waits (freed_served x)
  · refine wakes_bind (wakes_served _ _ fun x waits => ?_) fun _ => ?_
    · exact absurd waits (awaiting_served qos x)
    split
    · exact wakes_bind (wakes_storeAdd _ _ _ _) fun _ => wakes_pure _
    · exact wakes_pure _

theorem wakes_findItem (target : Fin 64) (awaited : PacketState) : Along (Wakes sock) (findItem target awaited) := by
  refine wakes_bind (wakes_quiet (quiet_packetIdAt _)) fun pubidCheck => Along.get fun w => ?_
  dsimp only
  split
  · refine wakes_bind (wakes_log ?_) (fun _ => wakes_pure _) w
    exact trivial
  · exact wakes_pure _ w

/-- An item moves on, and the request that goes with it is queued. -/
theorem wakes_moved (target : Fin 64) (i : Nat) {f : PackidStateItem → PackidStateItem} {op : Operation}
    (asks : op ≠ .delall) (moved : op ≠ .write → ∀ x, PackidStateItem.Pending (f x) → PackidStateItem.Pending x) :
    Along (Wakes sock) (do
      modify (·.setItem target i f)
      let _ ← sendtoque ⟨target, op⟩) := by
  by_cases write : op = .write
  swap
  · exact wakes_bind (wakes_served _ _ (moved write)) fun _ => wakes_ask op asks
  subst write
  intro w u w' ran
  obtain ⟨ok, w₁, asked, ran⟩ := bind_ok.mp (modify_bind_ok.mp ran)
  obtain ⟨env, rfl⟩ := sendtoque_ok asked
  obtain ⟨-, rfl⟩ := pure_ok.mp ran
  refine ⟨[.queued ⟨target, .write⟩ ok], rfl, fun ordered => lawful_cons.mpr ⟨False.elim, ordered⟩,
    fun sent fds before due => ?_⟩
  obtain rfl : ok = true := sent _ (List.mem_singleton_self _)
  by_cases here : sock = target
  · subst here
    exact Finset.mem_insert_self sock _
  obtain ⟨asked, waits⟩ := due
  refine Finset.mem_insert_of_mem (before ⟨asked.of_cons ?_, ?_⟩)
  · rintro ⟨same, -⟩
    exact here same.symm
  · have same : (w.setItem target i f).items sock = w.items sock := items_setItem_other here
    exact same ▸ waits

theorem wakes_settle (target : Fin 64) (header : Header) (awaited : PacketState)
    {settled : PackidStateItem → PackidStateItem} {op : Operation} (asks : op ≠ .delall)
    (moved : op ≠ .write → ∀ x, PackidStateItem.Pending (settled x) → PackidStateItem.Pending x) :
    Along (Wakes sock) (settle target header awaited settled op) := by
  refine wakes_bind (wakes_findItem _ _) fun found => ?_
  obtain ⟨pubidCheck, found⟩ := found
  cases found with
  | none => exact wakes_dropConn _ _
  | some entry =>
    refine wakes_bind (wakes_quiet (quiet_storeGet _)) fun msgInfo => ?_
    refine wakes_bind (wakes_quiet (quiet_wrongLength _)) fun wrong => ?_
    split
    · cases msgInfo with
      | none => exact wakes_dropConn _ _
      | some node =>
        refine Along.get fun w => wakes_bind (wakes_log ?_) (fun _ => wakes_publish _ _ _ _ _ _ _) w
        exact trivial
    · exact wakes_bind (wakes_countDownIf _ _) fun _ => wakes_moved _ _ asks moved

theorem wakes_advance (target : Fin 64) (header : Header) (awaited : PacketState)
    {advanced : PackidStateItem → PackidStateItem} {op : Operation} (asks : op ≠ .delall)
    (moved : op ≠ .write → ∀ x, PackidStateItem.Pending (advanced x) → PackidStateItem.Pending x) :
    Along (Wakes sock) (advance target header awaited advanced op) := by
  refine wakes_bind (wakes_quiet (quiet_wrongLength _)) fun wrong => ?_
  split
  · exact wakes_dropConn _ _
  refine wakes_bind (wakes_findItem _ _) fun found => ?_
  obtain ⟨pubidCheck, found⟩ := found
  cases found with
  | none => exact wakes_dropConn _ _
  | some entry => exact wakes_moved _ _ asks moved

/-! ### SUBSCRIBE, UNSUBSCRIBE, PINGREQ and DISCONNECT -/

theorem wakes_sendRetained (target : Fin 64) (topic : Key) (reqQos : UInt8) :
    Along (Wakes sock) (sendRetained target topic reqQos) := by
  refine Along.get fun w => wakes_bind (wakes_quiet (quiet_check _)) (fun kept => ?_) w
  cases kept with
  | none => exact wakes_log trivial
  | some retainedMsg =>
    refine wakes_bind (wakes_quiet (quiet_storeGet _)) fun found => ?_
    cases found with
    | none => exact wakes_log trivial
    | some i =>
      refine Along.get fun w => ?_
      have counted : Along (Wakes sock) (do
          Worker.countUp i
          Worker.log (.sought target topic (some (w.nodeAt i)) true)) :=
        wakes_bind (wakes_countUp _) fun _ => wakes_log trivial
      refine wakes_offer _ rfl counted ?_ w
      exact wakes_log trivial

theorem wakes_subscribeTopic (target : Fin 64) (topic : Key) (reqQos : UInt8) (suback : Myvector UInt8) :
    Along (Wakes sock) (subscribeTopic target topic reqQos suback) := by
  refine wakes_bind (wakes_quiet (quiet_sockAt _)) fun sockst => ?_
  refine wakes_bind (wakes_quiet (quiet_deref _)) fun client => Along.get fun w => ?_
  refine wakes_bind (wakes_quiet (quiet_check _)) (fun result => ?_) w
  refine wakes_bind (wakes_quiet (quiet_onHeap _)) fun _ => wakes_bind (wakes_setClient _ _) fun _ => ?_
  refine wakes_bind (wakes_log trivial) fun _ => wakes_bind (wakes_quiet (quiet_onHeap _)) fun suback => ?_
  exact wakes_bind (wakes_sendRetained _ _ _) fun _ => wakes_pure _

theorem wakes_subscribeLoop (target : Fin 64) (turns curPos : Nat) (packetLength : UInt16) (suback : Myvector UInt8) :
    Along (Wakes sock) (subscribeLoop target turns curPos packetLength suback) := by
  induction turns generalizing curPos packetLength suback with
  | zero => exact fun _ _ _ ran => absurd ran fault_ok
  | succ turns ih =>
    unfold subscribeLoop
    split
    · exact wakes_pure _
    · refine wakes_bind (wakes_quiet (quiet_ntohsAt _)) fun topicLen => ?_
      refine wakes_bind (wakes_quiet (quiet_rangeAt _ _)) fun topic => ?_
      refine wakes_bind (wakes_quiet (quiet_byteAt _)) fun reqQos => ?_
      exact wakes_bind (wakes_subscribeTopic _ _ _ _) fun suback => ih _ _ _

theorem wakes_subscribeEvent (target : Fin 64) (header : Header) :
    Along (Wakes sock) (subscribeEvent target header) := by
  refine wakes_bind (wakes_quiet (quiet_byteAt _)) fun head => ?_
  split
  · exact wakes_dropConn _ _
  refine wakes_bind (wakes_quiet (quiet_onHeap _)) fun suback => ?_
  split
  · exact wakes_dropConn _ _
  refine wakes_bind (wakes_quiet (quiet_byteAt _)) fun msb => wakes_bind (wakes_quiet (quiet_byteAt _)) fun lsb => ?_
  refine wakes_bind (wakes_subscribeLoop _ _ _ _ _) fun suback => ?_
  refine wakes_bind (wakes_quiet (quiet_subackLength _ _ _ _ _)) fun measured => ?_
  cases measured with
  | none => exact wakes_dropConn _ _
  | some suback => exact wakes_answer _ _

theorem wakes_unsubscribeLoop (target : Fin 64) (turns curPos : Nat) (packetLength : UInt16) :
    Along (Wakes sock) (unsubscribeLoop target turns curPos packetLength) := by
  induction turns generalizing curPos packetLength with
  | zero => exact fun _ _ _ ran => absurd ran fault_ok
  | succ turns ih =>
    unfold unsubscribeLoop
    split
    · exact wakes_pure _
    · refine wakes_bind (wakes_quiet (quiet_ntohsAt _)) fun topicLen => ?_
      refine wakes_bind (wakes_quiet (quiet_rangeAt _ _)) fun topic => wakes_bind ?_ fun _ => ih _ _
      refine wakes_bind (wakes_quiet (quiet_sockAt _)) fun sockst => ?_
      refine wakes_bind (wakes_quiet (quiet_deref _)) fun client => wakes_bind (wakes_quiet (quiet_check _)) fun _ => ?_
      exact wakes_bind (wakes_setClient _ _) fun _ => wakes_log trivial

theorem wakes_unsubscribeEvent (target : Fin 64) (header : Header) :
    Along (Wakes sock) (unsubscribeEvent target header) := by
  refine wakes_bind (wakes_quiet (quiet_byteAt _)) fun head => wakes_bind ?_ fun _ => ?_
  · split
    · exact wakes_dropConn _ _
    · exact wakes_pure _
  refine wakes_bind (wakes_quiet (quiet_byteAt _)) fun msb => wakes_bind (wakes_quiet (quiet_byteAt _)) fun _ => ?_
  refine wakes_bind (wakes_unsubscribeLoop _ _ _ _) fun _ => wakes_bind (wakes_quiet quiet_stackByte) fun byte => ?_
  exact wakes_answer _ _

theorem wakes_disconnectEvent (target : Fin 64) : Along (Wakes sock) (disconnectEvent target) := by
  refine wakes_bind (wakes_quiet (quiet_sockAt _)) fun sockst => ?_
  refine wakes_bind (wakes_quiet (quiet_deref _)) fun client => wakes_bind (wakes_log trivial) fun _ => ?_
  exact wakes_bind (wakes_setClient _ _) fun _ => wakes_dropConn _ _

/-! ### CONNECT -/

theorem wakes_connectMqtt (target : Fin 64) (curPos : Nat) : Along (Wakes sock) (connectMqtt target curPos) := by
  have refused : Along (Wakes sock) (pure (.disconnect, {}) : Worker (MqttConnReturn × Will)) := wakes_pure _
  refine wakes_bind (wakes_quiet (quiet_byteAt _)) fun head => ?_
  dsimp only
  split
  · exact refused
  refine wakes_bind (wakes_quiet (quiet_ntohsAt _)) fun protocolLen => ?_
  split
  · exact refused
  refine wakes_bind (wakes_quiet (quiet_matchesAt _ _)) fun named => ?_
  split
  · exact refused
  refine wakes_bind (wakes_quiet (quiet_byteAt _)) fun level => ?_
  split
  · exact wakes_bind (wakes_bind (wakes_write _ _ _) fun _ => wakes_pure _) fun _ => refused
  refine wakes_bind (wakes_quiet (quiet_byteAt _)) fun connFlags => ?_
  split
  · exact refused
  split
  · exact refused
  refine wakes_bind (wakes_quiet (quiet_ntohsAt _)) fun _ => wakes_bind (wakes_quiet (quiet_ntohsAt _)) fun _ => ?_
  split
  · exact refused
  refine wakes_bind (wakes_quiet (quiet_rangeAt _ _)) fun clientid => ?_
  refine wakes_bind (wakes_setSock _ fun _ => rfl) fun _ => ?_
  exact wakes_quiet (quiet_readOptions _ _ _)

theorem wakes_newClient (target : Fin 64) (clientid : Key) : Along (Wakes sock) (newClient target clientid) := by
  refine wakes_bind (wakes_quiet (quiet_onHeap _)) fun allocated => ?_
  split
  swap
  · exact wakes_pure _
  refine Along.get fun w => wakes_bind (wakes_quiet (quiet_onHeap _)) (fun client => ?_) w
  intro w b w' ran
  rw [get_bind_ok] at ran
  obtain ⟨added, -, ran⟩ := check_bind_ok ran
  rw [set_bind_ok] at ran
  have stored : Wakes sock w { w with
      clientStore := added.2.1
      env := { w.env with heap := added.2.2 }
      nextAddr := w.nextAddr + 1 } := .same rfl rfl
  refine stored.trans ?_
  split at ran
  · obtain ⟨held, -, ran⟩ := check_bind_ok ran
    rw [setSock_bind_ok] at ran
    refine Wakes.trans ?_ (wakes_bind (wakes_setClient _ _) (fun _ => wakes_pure _) _ _ _ ran)
    exact .setSock fun _ => rfl
  · exact wakes_pure _ _ _ _ ran

theorem wakes_takeOver (target : Fin 64) (client : Client) : Along (Wakes sock) (takeOver target client) := by
  intro w u w' ran
  unfold takeOver at ran
  cases recorded : client.sock with
  | none =>
    rw [recorded] at ran
    exact wakes_pure _ _ _ _ ran
  | some prevSock =>
    rw [recorded] at ran
    obtain ⟨ok, w₁, asked, ran⟩ := bind_ok.mp ran
    obtain ⟨env, rfl⟩ := sendtoque_ok asked
    rw [sockAt_bind_ok, sockAt_bind_ok, log_bind_ok, setSock_bind_ok, sockAt_bind_ok] at ran
    obtain ⟨addr, held, -, -, ran⟩ := deref_bind_ok ran
    rw [log_bind_ok] at ran
    have plain : ∀ e ∈ [.evicting prevSock (w.socks prevSock) (w.socks target).clientid client,
        .queued ⟨prevSock, .delall⟩ ok], (∀ other, other ≠ prevSock → Plain other e) ∧ ¬ e.Fills sock := by
      simp only [List.forall_mem_cons, List.not_mem_nil, false_implies, implies_true, and_true]
      exact ⟨⟨fun _ _ => trivial, id⟩, fun other apart => apart.symm, id⟩
    have kept (w₁ : World) :
        (w₁.setSock prevSock ({ · with phs := .uninit, client := none, clientid := [] })).items sock =
        w₁.items sock := by
      by_cases here : sock = prevSock
      · subst here
        rw [World.items, setSock_socks, World.items]
      · rw [World.items, setSock_other _ _ here, World.items]
    generalize closed : World.log _ (.closed prevSock) = w₂ at ran
    have cleared : Wakes sock w₂ w' := by
      split at ran
      · exact wakes_bind (wakes_quiet (quiet_onHeap _)) (fun _ => wakes_setClient _ _) _ _ _ ran
      · exact wakes_pure _ _ _ _ ran
    refine Wakes.trans ?_ cleared
    subst closed
    exact .shut rfl (kept _) (fun e member => (plain e member).1) fun e member => (plain e member).2

theorem wakes_acceptConnect (target : Fin 64) (clean : Bool) (will : Will) (prev : Option Client) :
    Along (Wakes sock) (acceptConnect target clean will prev) := by
  refine wakes_bind (wakes_quiet (quiet_sockAt _)) fun sockst => ?_
  refine wakes_bind (wakes_quiet (quiet_deref _)) fun client => ?_
  refine wakes_bind (wakes_quiet (quiet_onHeap _)) fun assigned => wakes_bind (wakes_setClient _ _) fun _ => ?_
  refine wakes_bind (wakes_bind (wakes_write _ _ _) fun _ => wakes_pure _) fun connack => ?_
  refine wakes_bind (wakes_log trivial) fun _ => ?_
  unfold requestAfterConnack
  split
  · exact wakes_bind (wakes_setClient _ _) fun _ => wakes_ask .write nofun
  · exact wakes_ask .read nofun

theorem wakes_connectEvent (target : Fin 64) (curPos : Nat) : Along (Wakes sock) (connectEvent target curPos) := by
  refine wakes_bind (wakes_connectMqtt _ _) fun ret => ?_
  split
  · exact wakes_dropConn _ _
  refine wakes_bind (wakes_quiet (quiet_sockAt _)) fun sockst => Along.get fun w => ?_
  refine wakes_bind (wakes_quiet (quiet_check _)) (fun stored => ?_) w
  refine wakes_bind (wakes_log trivial) fun _ => wakes_bind (wakes_setSock _ fun _ => rfl) fun _ => ?_
  cases stored with
  | none =>
    refine wakes_bind (wakes_newClient _ _) fun made => ?_
    split
    · exact wakes_acceptConnect _ _ _ _
    · exact wakes_dropConn _ _
  | some client => exact wakes_bind (wakes_takeOver _ _) fun _ => wakes_acceptConnect _ _ _ _

/-! ### The event -/

theorem wakes_dispatch (target : Fin 64) (header : Header) : Along (Wakes sock) (dispatch target header) := by
  refine wakes_bind (wakes_quiet (quiet_byteAt _)) fun head => ?_
  repeat' split
  · exact wakes_publishEvent _ _
  · exact wakes_settle _ _ _ nofun fun _ x waits => absurd waits (freed_served x)
  · exact wakes_settle _ _ _ nofun fun write => absurd rfl write
  · exact wakes_advance _ _ _ nofun fun _ x waits => absurd waits (freed_served x)
  · exact wakes_advance _ _ _ nofun fun write => absurd rfl write
  · exact wakes_subscribeEvent _ _
  · exact wakes_unsubscribeEvent _ _
  · exact wakes_answer _ _
  · exact wakes_disconnectEvent _
  · exact wakes_pure _

theorem wakes_readEvent (target : Fin 64) : Along (Wakes sock) (readEvent target) := by
  refine wakes_bind (wakes_quiet quiet_readPacket) fun packet => ?_
  cases packet with
  | none => exact wakes_dropConn _ _
  | some header =>
    refine Along.get fun w => wakes_bind (wakes_log ?_) (fun _ => ?_) w
    · exact trivial
    split
    · exact wakes_connectEvent _ _
    · exact wakes_dispatch _ _

theorem wakes_transmit (target : Fin 64) (i : Nat) (item : PackidStateItem) :
    Along (Wakes sock) (transmit target i item) := by
  have acks (type : UInt8) {sent : PackidStateItem → PackidStateItem}
      (served : ∀ x, ¬ PackidStateItem.Pending (sent x)) : Along (Wakes sock) (sendAck target i item type sent) :=
    wakes_bind (wakes_write _ _ _) fun _ => wakes_served _ _ fun x waits => absurd waits (served x)
  unfold transmit
  cases item.state with
  | sendpuback | sendpubcomp => exact acks _ freed_served
  | sendpubrec | sendpubrel => exact acks _ fun x => by simp [PackidStateItem.Pending]
  | sendpublish =>
    refine wakes_bind (wakes_quiet (quiet_storeGet _)) fun found => ?_
    cases found with
    | none => exact wakes_pure _
    | some node => exact Along.get fun w => wakes_publish _ _ _ _ _ _ _ w
  | _ => exact wakes_pure _

theorem wakes_writeLoop (target : Fin 64) (items : List PackidStateItem) (i : Nat) (packetidPtr : Option Nat)
    (alreadySent : Bool) : Along (Wakes sock) (writeLoop target i items packetidPtr alreadySent) := by
  induction items generalizing i packetidPtr alreadySent with
  | nil => exact wakes_pure _
  | cons item rest ih =>
    unfold writeLoop
    dsimp only
    generalize (if PackidStateItem.Pending item then some i else packetidPtr) = packetidPtr
    split
    · exact ih _ _ _
    split
    · exact wakes_pure _
    · exact wakes_bind (wakes_transmit _ _ _) fun _ => ih _ _ _

theorem wakes_writeEvent (target : Fin 64) : Along (Wakes sock) (writeEvent target) := by
  refine Along.get fun w => wakes_bind (wakes_writeLoop _ _ _ _ _) (fun more => wakes_ask _ ?_) w
  split <;> exact nofun

theorem wakes_mqttPhase (msg : Message) : Along (Wakes sock) (mqttPhase msg) := by
  unfold mqttPhase
  split
  · exact wakes_readEvent _
  · exact wakes_writeEvent _
  · exact wakes_pure _
  · exact wakes_pure _

theorem wakes_handshakeEvent (msg : Message) (first : Bool) : Along (Wakes sock) (handshakeEvent msg first) := by
  have awaits (op : Operation) (asks : op ≠ .delall) : Along (Wakes sock) (awaitHandshake msg.socket first op) := by
    refine wakes_bind (wakes_request op asks) fun _ => ?_
    split
    · exact wakes_setSock _ fun _ => rfl
    · exact wakes_pure _
  refine wakes_bind (wakes_quiet quiet_handshake) fun code => ?_
  split
  · exact wakes_dropConn _ _
  split
  · exact wakes_bind (wakes_setSock _ fun _ => rfl) fun _ => wakes_ask .read nofun
  split
  · exact awaits .write nofun
  split
  · exact awaits .read nofun
  · exact wakes_mqttPhase msg

theorem wakes_startTls (target : Fin 64) : Along (Wakes sock) (startTls target) := by
  refine Along.get fun w => wakes_bind (wakes_log ?_) (fun _ => ?_) w
  · exact trivial
  refine wakes_bind (wakes_setSock _ fun _ => rfl) fun _ => ?_
  intro w u w' ran
  obtain rfl := modify_ok.mp ran
  exact .same rfl rfl

theorem wakes_handle (msg : Message) : Along (Wakes sock) (handle msg) := by
  refine wakes_bind (wakes_quiet (quiet_sockAt _)) fun sockst => ?_
  cases sockst.phs with
  | uninit =>
    refine wakes_bind (wakes_quiet (quiet_onHeap _)) fun allocated => ?_
    split
    · exact wakes_bind (wakes_startTls _) fun _ => wakes_handshakeEvent _ _
    · exact wakes_log trivial
  | tlsHandshake => exact wakes_handshakeEvent _ _
  | mqtt => exact wakes_mqttPhase _

/-! ### The write branch -/

/-- Whatever the sets are, a socket that is due is waited for afterwards. -/
def Rouses (sock : Fin 64) (w w' : World) : Prop :=
  ∃ events, w'.trace = events ++ w.trace ∧ ((∀ e ∈ events, e.Sent) → ∀ fds : FdSets,
    w'.Due sock → sock ∈ (heedAll fds events).writefds)

theorem Wakes.rouses (wakes : Wakes sock w w') (idle : ¬ w.Due sock) : Rouses sock w w' := by
  obtain ⟨events, grown, -, wakes⟩ := wakes
  exact ⟨events, grown, fun sent fds => wakes sent fds fun due => absurd due idle⟩

theorem Rouses.preceded (same : w₁.trace = e :: w.trace) (rouses : Rouses sock w₁ w') : Rouses sock w w' := by
  obtain ⟨events, grown, rouses⟩ := rouses
  refine ⟨events ++ [e], by rw [grown, same, List.append_assoc]; rfl, fun sent fds => ?_⟩
  have all : heedAll fds (events ++ [e]) = heedAll (e.heed fds) events := List.foldr_append
  rw [all]
  exact rouses (List.forall_mem_append.mp sent).1 _

/-- Every message that is to be sent on the socket is in the table. -/
def Stocked (sock : Fin 64) (w : World) : Prop :=
  ∀ item ∈ w.items sock, item.packetId ≠ 0 → item.state = .sendpublish →
    ∃ i, w.publishMsgStore.get item.packetId = some i

/-- The item at an index no longer waits, and the rest is as it was. -/
def Serves (sock : Fin 64) (i : Nat) (item : PackidStateItem) (w w' : World) : Prop :=
  ∃ f : PackidStateItem → PackidStateItem,
    w'.items sock = (w.items sock).modify i f ∧ ¬ PackidStateItem.Pending (f item)

theorem Serves.frame {i : Nat} (serves : Serves sock i item w₁ w') (same : w₁.items = w.items) :
    Serves sock i item w w' := by
  obtain ⟨f, items, served⟩ := serves
  exact ⟨f, same ▸ items, served⟩

theorem items_countDownIf {packetId : UInt16} {found : Option Nat} {u : Unit}
    (ran : countDownIf packetId found w = .ok (u, w')) : w'.items = w.items := by
  cases found with
  | none =>
    obtain ⟨-, rfl⟩ := pure_ok.mp ran
    rfl
  | some node =>
    obtain rfl := countDown_ok.mp ran
    rfl

theorem publish_served {frame : List UInt8} {qos : UInt8} {packetId : UInt16} {i : Nat} {deleteRetain : Bool}
    {u : Unit} (ran : publish frame qos packetId sock i item deleteRetain w = .ok (u, w')) :
    Serves sock i item w w' := by
  unfold publish at ran
  split at ran
  · exact absurd ran fault_ok
  obtain ⟨written, w₁, wrote, ran⟩ := bind_ok.mp ran
  obtain ⟨env, rfl⟩ := connWrite_ok wrote
  rw [storeGet_bind_ok] at ran
  obtain ⟨⟨⟩, w₂, told, ran⟩ := bind_ok.mp ran
  have same : w₂.items = w.items := by
    obtain rfl := logFailure_ok told
    split <;> rfl
  refine Serves.frame ?_ same
  split at ran
  · rw [modify_bind_ok] at ran
    refine ⟨({ · with packetId := 0 }), ?_, freed_served item⟩
    rw [items_countDownIf ran]
    exact items_setItem
  · rw [modify_bind_ok] at ran
    refine ⟨({ · with state := if qos = 1 then .getpuback else .getpubrec }), ?_, awaiting_served qos item⟩
    split at ran
    · obtain ⟨ok, w₃, added, ran⟩ := bind_ok.mp ran
      obtain ⟨-, env, buf, rfl⟩ := storeAdd_ok added
      obtain ⟨-, rfl⟩ := pure_ok.mp ran
      exact items_setItem
    · obtain ⟨-, rfl⟩ := pure_ok.mp ran
      exact items_setItem

theorem transmit_served {i : Nat} {u : Unit} (stocked : Stocked sock w) (member : item ∈ w.items sock)
    (waits : PackidStateItem.Pending item) (ran : transmit sock i item w = .ok (u, w')) : Serves sock i item w w' := by
  have acks {type : UInt8} {sent : PackidStateItem → PackidStateItem} (served : ¬ PackidStateItem.Pending (sent item))
      (ran : sendAck sock i item type sent w = .ok (u, w')) : Serves sock i item w w' := by
    obtain ⟨ok, w₁, wrote, ran⟩ := bind_ok.mp ran
    obtain ⟨env, rfl⟩ := connWrite_ok wrote
    obtain rfl := modify_ok.mp ran
    exact ⟨sent, items_setItem, served⟩
  unfold transmit at ran
  cases state : item.state with
  | sendpuback | sendpubcomp =>
    rw [state] at ran
    exact acks (freed_served item) ran
  | sendpubrec | sendpubrel =>
    rw [state] at ran
    refine acks ?_ ran
    simp [PackidStateItem.Pending]
  | sendpublish =>
    rw [state] at ran
    obtain ⟨node, found⟩ := stocked item member waits.1 state
    dsimp only at ran
    rw [storeGet_bind_ok, found] at ran
    exact publish_served (get_bind_ok.mp ran)
  | getpuback | getpubrec | getpubrel | getpubcomp =>
    have waits := waits.2
    simp [state] at waits

/-- After the last item has been sent nothing is left to send, and any item
behind it makes the worker ask for another write. -/
theorem rouses_writeEvent {u : Unit} (stocked : Stocked sock w) (ran : writeEvent sock w = .ok (u, w')) :
    Rouses sock w w' := by
  have woken : Wakes sock w w' := wakes_writeEvent sock _ _ _ ran
  cases waiting : Draining.pending 0 (w.items sock) with
  | nil =>
    have idle := Draining.pending_nil.mp waiting
    refine woken.rouses fun due => ?_
    obtain ⟨item, member, waits⟩ := due.waits
    exact idle item member waits
  | cons entry more =>
    obtain ⟨j, item⟩ := entry
    obtain ⟨front, back, split, rfl, idle, waits, -⟩ := Draining.pending_cons waiting
    rw [writeEvent, get_bind_ok, split, Draining.writeLoop_found idle waits] at ran
    obtain ⟨more, w₁, loop, ran⟩ := bind_ok.mp ran
    obtain ⟨⟨⟩, w₀, sent, done⟩ := bind_ok.mp loop
    obtain ⟨rfl, rfl⟩ := pure_ok.mp done
    obtain ⟨ok, w₂, asked, ran⟩ := bind_ok.mp ran
    obtain ⟨env, rfl⟩ := sendtoque_ok asked
    obtain ⟨-, rfl⟩ := pure_ok.mp ran
    have silent : Wakes sock w w₁ := wakes_transmit sock _ item _ _ _ sent
    obtain ⟨events, grown, -, -⟩ := silent
    refine ⟨.queued _ ok :: events, congrArg (Event.queued _ ok :: ·) grown, fun heard fds due => ?_⟩
    by_cases last : back = []
    · subst last
      have member : item ∈ w.items sock := split ▸ List.mem_append_right front List.mem_cons_self
      obtain ⟨f, items, served⟩ := transmit_served stocked member waits sent
      rw [split, Nat.zero_add, Draining.modify_behind] at items
      obtain ⟨other, member, still⟩ := due.waits
      have member : other ∈ w₁.items sock := member
      rw [items] at member
      rcases List.mem_append.mp member with before | here
      · exact absurd still (idle other before)
      · obtain rfl := List.mem_singleton.mp here
        exact absurd still served
    · have asks : (if decide (back ≠ []) then Operation.write else .read) = .write := by simp [last]
      rw [asks] at heard ⊢
      obtain rfl : ok = true := heard _ List.mem_cons_self
      exact Finset.mem_insert_self sock _

/-- A message that says a socket can be written. -/
theorem rouses_handle (reached : w.PromptlyReached) {env : Env} (stocked : Stocked sock w)
    (ran : handle ⟨sock, .write⟩ { w with env := env } = .ok ((), w')) : Rouses sock { w with env := env } w' := by
  have phs := ((Admission.tended_reached reached).fits sock).phs
  rw [handle, sockAt_bind_ok] at ran
  dsimp only at ran
  by_cases up : secured w.trace sock
  · rw [if_pos up] at phs
    rw [phs] at ran
    exact rouses_writeEvent stocked ran
  · rw [if_neg up] at phs
    rw [phs] at ran
    dsimp only at ran
    rw [onHeap_bind_ok] at ran
    split at ran
    · obtain ⟨⟨⟩, w₁, started, ran⟩ := bind_ok.mp ran
      have newest : w₁.trace = .started sock (w.items sock) :: w.trace := by
        rw [startTls, get_bind_ok, log_bind_ok, setSock_bind_ok] at started
        obtain rfl := modify_ok.mp started
        rfl
      have shaken : Wakes sock w₁ w' := wakes_handshakeEvent _ _ _ _ _ ran
      exact (shaken.rouses (not_due_used newest rfl)).preceded newest
    · obtain rfl := log_ok.mp ran
      refine ⟨[.closed sock], rfl, fun _ fds due => absurd due (not_due_used rfl rfl)⟩

end Wakeups
end MqttBroker
