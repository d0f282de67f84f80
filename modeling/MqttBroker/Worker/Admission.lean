import MqttBroker.Logic.Traces
import MqttBroker.Worker.Lifetime
import MqttBroker.Worker.Outcomes

/-! Who is served, over a run. A TLS session is set up on a socket, then a
CONNECT is accepted and acknowledged, and only then are packets of a client
served, until the socket is closed. What the worker keeps of its sockets says
exactly which of these has happened. -/
namespace MqttBroker
open Logic Worker World Branches Outcomes

/-- The TLS handshake answers 0 or a negative code, as one that fails or waits
has. -/
def Env.Prompt (env : Env) : Prop := ∀ code ∈ env.handshakes, code ≤ 0

instance (env : Env) : Decidable env.Prompt := inferInstanceAs (Decidable (∀ code ∈ env.handshakes, code ≤ 0))

/-- One message handled in a world in which every handshake answers at once. -/
def World.PromptTurn (w w' : World) : Prop :=
  ∃ msg env, env.Prompt ∧ Worker.handle msg { w with env := env } = .ok ((), w')

/-- The states at the head of the event loop in such runs. -/
def World.PromptlyReached (w : World) : Prop :=
  ∃ boot, Relation.ReflTransGen PromptTurn (initial boot) w

/-- A TLS session is set up on the socket, which has not been closed since. -/
def secured : List Event → Fin 64 → Bool
  | [], _ => false
  | .started other _ :: older, sock => other = sock || secured older sock
  | .closed other :: older, sock => other ≠ sock && secured older sock
  | _ :: older, sock => secured older sock

/-- The socket of the last CONNECT that was accepted, unless it has been closed
since, and its client. -/
def lastConnect : List Event → Option (Fin 64 × Key)
  | [] => none
  | .connecting sock clientid _ _ :: _ => some (sock, clientid)
  | .closed sock :: older => (lastConnect older).filter (·.1 ≠ sock)
  | _ :: older => lastConnect older

/-- The connection and the client that a CONNACK has admitted on the socket,
which has not been closed since. -/
def admitted : List Event → Fin 64 → Option (Nat × Key)
  | [], _ => none
  | .acknowledged conn clientid .. :: older, sock =>
    if lastConnect older = some (sock, clientid) then some (conn, clientid) else admitted older sock
  | .closed other :: older, sock => if other = sock then none else admitted older sock
  | _ :: older, sock => admitted older sock

/-- A TLS session is set up where there is none, and read, written and dropped
while it is there. Only the UNSUBACK for a packet with the wrong reserved bits
is written to a session that is gone, dropped for that packet. -/
def Event.OverTls (up : Fin 64 → Bool) (received : Option (Fin 64 × List UInt8)) : Event → Prop
  | .started sock _ => ¬ up sock
  | .received sock _ _ | .dropping sock _ _ => up sock
  | .wrote sock _ bytes item => up sock ∨ bytes.head? = some 0xB0 ∧ item = none ∧ Misread sock received
  | _ => True

/-- A CONNECT is accepted where no client is admitted, and a packet is served
only as one of the client that is. -/
def Event.OfAdmitted (table : Fin 64 → Option (Nat × Key)) : Event → Prop
  | .connecting sock _ _ _ => table sock = none
  | .publishing sock sockst _ _ _ _ => table sock = some (sockst.tls, sockst.clientid)
  | .acked sock sockst _ _ => ∃ clientid, table sock = some (sockst.tls, clientid)
  | .sought sock _ _ _ => (table sock).isSome
  | .resubscribed clientid _ | .disconnecting clientid _ => ∃ sock conn, table sock = some (conn, clientid)
  | .distributing publisher _ _ _ _ =>
    ∀ sender, publisher = some sender → ∃ sock, table sock = some (sender.conn, sender.clientid)
  | _ => True

/-- The event is one that the sockets it is about allow. -/
def Event.Allowed (up : Fin 64 → Bool) (table : Fin 64 → Option (Nat × Key))
    (received : Option (Fin 64 × List UInt8)) (e : Event) : Prop :=
  e.OverTls up received ∧ e.OfAdmitted table

namespace Admission

/-- What the events before tell of the sockets. -/
def view (trace : List Event) : (Fin 64 → Bool) × (Fin 64 → Option (Nat × Key)) := (secured trace, admitted trace)

/-- Every event is allowed by those before it. -/
def Proper : List Event → Prop :=
  Lawful fun earlier e => e.Allowed (secured earlier) (admitted earlier) (lastReceived earlier)

/-- What the worker keeps of a socket is what has happened on it. -/
structure Fits (w : World) (sock : Fin 64) : Prop where
  settled : (w.socks sock).phs ≠ .tlsHandshake
  unset : (w.socks sock).phs = .uninit → (w.socks sock).clientid = []
  up : secured w.trace sock = decide ((w.socks sock).phs = .mqtt)
  table : admitted w.trace sock =
    if (w.socks sock).clientid = [] then none else some ((w.socks sock).tls, (w.socks sock).clientid)

theorem Fits.phs {w : World} {sock : Fin 64} (fits : Fits w sock) :
    (w.socks sock).phs = if secured w.trace sock then .mqtt else .uninit := by
  rw [fits.up]
  cases phase : (w.socks sock).phs with
  | uninit => rfl
  | tlsHandshake => exact absurd phase fits.settled
  | mqtt => rfl

structure Tended (w : World) : Prop where
  fits : ∀ sock, Fits w sock
  proper : Proper w.trace

/-- The events that set up and end nothing. -/
def Idle : Event → Prop
  | .started .. | .closed _ | .acknowledged .. => False
  | _ => True

variable {w w₁ w' : World} {own sock : Fin 64} {P : Message → Prop} {e : Event} {events trace : List Event}
  {received : Option (Fin 64 × List UInt8)} {misread : Prop}

theorem view_idle (idle : Idle e) (earlier : List Event) : view (e :: earlier) = view earlier := by
  cases e <;> first | rfl | exact idle.elim

/-- Events that are allowed whatever was received last. -/
theorem proper_idle (proper : Proper trace) (idle : ∀ e ∈ events, Idle e)
    (allowed : ∀ e ∈ events, ∀ received, e.Allowed (secured trace) (admitted trace) received) :
    view (events ++ trace) = view trace ∧ Proper (events ++ trace) := by
  induction events with
  | nil => exact ⟨rfl, proper⟩
  | cons e events ih =>
    obtain ⟨idle_here, idle⟩ := List.forall_mem_cons.mp idle
    obtain ⟨allowed_here, allowed⟩ := List.forall_mem_cons.mp allowed
    obtain ⟨seen, proper⟩ := ih idle allowed
    obtain ⟨up, table⟩ := Prod.mk.inj seen
    have allowed_now :
        e.Allowed (secured (events ++ trace)) (admitted (events ++ trace)) (lastReceived (events ++ trace)) := by
      rw [up, table]
      exact allowed_here _
    exact ⟨(view_idle idle_here _).trans seen, lawful_cons.mpr ⟨allowed_now, proper⟩⟩

theorem local_idle {sockst : SockCid} {S : Prop} (held : e.Local own sockst S P) : Idle e := by
  cases e <;> first | exact trivial | exact held.elim

theorem local_over_tls {sockst : SockCid} {S : Prop} {up : Fin 64 → Bool} (is_up : up own)
    (held : e.Local own sockst S P) : e.OverTls up received := by
  cases e with
  | wrote =>
    obtain ⟨rfl, -⟩ := held
    exact .inl is_up
  | received =>
    obtain ⟨rfl, -⟩ := held
    exact is_up
  | dropping | started => exact held.elim
  | _ => exact trivial

/-- Where a client is named only if it is admitted, the packets of its connection
are its own. -/
theorem local_of_admitted {sockst : SockCid} {table : Fin 64 → Option (Nat × Key)}
    (named : sockst.clientid ≠ [] → table own = some (sockst.tls, sockst.clientid))
    (held : e.Local own sockst (sockst.clientid ≠ []) P) : e.OfAdmitted table := by
  cases e with
  | publishing =>
    obtain ⟨serves, rfl, alike⟩ := held
    exact (named serves).trans (by rw [alike.2.1, alike.2.2.2])
  | acked =>
    obtain ⟨serves, rfl, same⟩ := held
    exact ⟨_, (named serves).trans (by rw [same])⟩
  | sought =>
    obtain ⟨serves, rfl⟩ := held
    exact Option.isSome_of_eq_some (named serves)
  | resubscribed | disconnecting =>
    obtain ⟨serves, rfl⟩ := held
    exact ⟨own, _, named serves⟩
  | distributing =>
    obtain ⟨serves, rfl⟩ := held
    rintro _ ⟨⟩
    exact ⟨own, named serves⟩
  | connecting => exact held.elim
  | _ => exact trivial

theorem local_allowed {sockst : SockCid} {up : Fin 64 → Bool} {table : Fin 64 → Option (Nat × Key)}
    (is_up : up own) (named : sockst.clientid ≠ [] → table own = some (sockst.tls, sockst.clientid))
    (held : e.Local own sockst (sockst.clientid ≠ []) P) : e.Allowed up table received :=
  ⟨local_over_tls is_up held, local_of_admitted named held⟩

theorem shared_idle (shared : e.Shared P) : Idle e := by
  cases e <;> first | exact trivial | exact shared.elim

theorem shared_allowed {up : Fin 64 → Bool} {table : Fin 64 → Option (Nat × Key)} (shared : e.Shared P) :
    e.Allowed up table received := by
  cases e <;> first | exact ⟨trivial, trivial⟩ | exact shared.elim

theorem late_idle (late : e.Late own misread P) : Idle e := by
  cases e <;> first | exact trivial | exact late.elim

theorem late_unread (late : e.Late own misread P) (earlier : List Event) :
    lastReceived (e :: earlier) = lastReceived earlier := by
  cases e <;> first | rfl | exact late.elim

/-- Of what a dropped connection still reports nothing is about a client. -/
theorem late_allowed {up : Fin 64 → Bool} {table : Fin 64 → Option (Nat × Key)}
    (late : e.Late own (Misread own received) P) : e.Allowed up table received := by
  cases e with
  | wrote =>
    obtain ⟨rfl, unsuback⟩ := late
    exact ⟨.inr unsuback, trivial⟩
  | distributing =>
    obtain rfl : _ = none := late
    exact ⟨trivial, nofun⟩
  | _ => first | exact ⟨trivial, trivial⟩ | exact late.elim

/-- The connection of a socket as the events tell it. -/
def Known (w : World) (sock : Fin 64) : Prop := admitted w.trace sock =
  if (w.socks sock).clientid = [] then none else some ((w.socks sock).tls, (w.socks sock).clientid)

theorem Known.named (known : Known w sock) (named : (w.socks sock).clientid ≠ []) :
    admitted w.trace sock = some ((w.socks sock).tls, (w.socks sock).clientid) := known.trans (if_neg named)

theorem Known.unnamed (known : Known w sock) (unnamed : (w.socks sock).clientid = []) :
    admitted w.trace sock = none := known.trans (if_pos unnamed)

/-- A socket whose connection is kept fits if nothing has happened on it. -/
theorem Fits.kept (fits : Fits w sock) (alike : (w'.socks sock).Alike (w.socks sock))
    (up : secured w'.trace sock = secured w.trace sock) (table : admitted w'.trace sock = admitted w.trace sock) :
    Fits w' sock := by
  obtain ⟨-, clientid, phs, tls⟩ := alike
  refine ⟨phs ▸ fits.settled, fun uninit => clientid.trans (fits.unset (phs ▸ uninit)), ?_, ?_⟩
  · rw [up, fits.up, phs]
  · rw [table, fits.table, clientid, tls]

/-- A socket without a connection. -/
theorem fits_free (phs : (w.socks sock).phs = .uninit) (clientid : (w.socks sock).clientid = [])
    (up : secured w.trace sock = false) (table : admitted w.trace sock = none) : Fits w sock := by
  refine ⟨?_, fun _ => clientid, ?_, ?_⟩
  · rw [phs]
    decide
  · rw [up, phs]
    rfl
  · rw [table, if_pos clientid]

theorem idle_tended (tended : Tended w) (alike : ∀ sock, (w'.socks sock).Alike (w.socks sock))
    (grown : w'.trace = events ++ w.trace) (idle : ∀ e ∈ events, Idle e)
    (allowed : ∀ e ∈ events, ∀ received, e.Allowed (secured w.trace) (admitted w.trace) received) : Tended w' := by
  obtain ⟨seen, proper⟩ := proper_idle tended.proper idle allowed
  rw [← grown] at seen proper
  refine ⟨fun sock => (tended.fits sock).kept (alike sock) ?_ ?_, proper⟩
  · exact congrFun (congrArg Prod.fst seen) sock
  · exact congrFun (congrArg Prod.snd seen) sock

/-- A branch of the worker for a socket whose session is set up. -/
theorem local_tended (tended : Tended w) (up : secured w.trace own) (kept : Local own (w.Named own) P w w') :
    Tended w' := by
  obtain ⟨events, grown, fine⟩ := kept.grown
  have known : Known w own := (tended.fits own).table
  refine idle_tended tended kept.alike grown (fun e member => local_idle (fine e member)) fun e member _ => ?_
  exact local_allowed up known.named (fine e member)

theorem early_idle (early : e.Early own (w.socks own) P) : Idle e := by
  rcases early with held | ⟨by_, sendwill, rfl⟩ | ⟨unnamed, clientid, clean, prev, rfl⟩
  · exact local_idle held
  · exact trivial
  · exact trivial

theorem early_allowed (up : secured w.trace own) (known : Known w own) (early : e.Early own (w.socks own) P) :
    e.Allowed (secured w.trace) (admitted w.trace) received := by
  rcases early with held | ⟨by_, sendwill, rfl⟩ | ⟨unnamed, clientid, clean, prev, rfl⟩
  · exact local_allowed up known.named held
  · exact ⟨up, trivial⟩
  · exact ⟨trivial, known.unnamed unnamed⟩

/-- After its close nothing is seen on a socket, and the same as before on every
other. -/
theorem view_closed (own : Fin 64) {before : List Event} (seen : view before = view trace) :
    (∀ sock, sock ≠ own → secured (.closed own :: before) sock = secured trace sock ∧
      admitted (.closed own :: before) sock = admitted trace sock) ∧
      secured (.closed own :: before) own = false ∧ admitted (.closed own :: before) own = none := by
  obtain ⟨up, table⟩ := Prod.mk.inj seen
  refine ⟨fun sock other => ?_, ?_, ?_⟩
  · simp [secured, admitted, other.symm, up, table]
  · simp [secured]
  · simp [admitted]

/-- What comes after a drop is about the packet that was received before it. -/
theorem proper_late {late before : List Event} (proper : Proper (.closed own :: before))
    (after : ∀ e ∈ late, e.Late own (Misread own (lastReceived before)) P) :
    view (late ++ .closed own :: before) = view (.closed own :: before) ∧ Proper (late ++ .closed own :: before) := by
  obtain ⟨seen, proper⟩ := Lawful.unchanged (fun trace => (view trace, lastReceived trace))
    (fun seen e => e.Allowed seen.1.1 seen.1.2 seen.2) proper
    (fun e member earlier => Prod.ext (view_idle (late_idle (after e member)) earlier)
      (late_unread (after e member) earlier)) fun e member => late_allowed (after e member)
  exact ⟨(Prod.mk.inj seen).1, proper⟩

theorem dropped_tended (others : ∀ sock, sock ≠ own → Fits w sock) (proper : Proper w.trace)
    (up : secured w.trace own) (known : Known w own) (dropped : Dropped own P w w') : Tended w' := by
  obtain ⟨late, early, grown, after, before⟩ := dropped.grown
  obtain ⟨seen, proper⟩ := proper_idle proper (fun e member => early_idle (before e member))
    fun e member _ => early_allowed up known (before e member)
  have closed : Proper (.closed own :: (early ++ w.trace)) := lawful_cons.mpr ⟨⟨trivial, trivial⟩, proper⟩
  obtain ⟨seen', proper⟩ := proper_late closed after
  rw [List.append_assoc, List.cons_append] at grown
  rw [← grown] at seen' proper
  obtain ⟨up', table'⟩ := Prod.mk.inj seen'
  obtain ⟨elsewhere, up_own, table_own⟩ := view_closed own seen
  refine ⟨fun sock => ?_, proper⟩
  by_cases here : sock = own
  · subst here
    exact fits_free dropped.phs dropped.clientid (up' ▸ up_own) (table' ▸ table_own)
  · obtain ⟨same_up, same_table⟩ := elsewhere sock here
    refine (others sock here).kept (dropped.others sock here) ?_ ?_
    · rw [up', same_up]
    · rw [table', same_table]

/-- What is seen after a takeover: nothing on the socket it evicts. -/
theorem evicted_proper {evicted : Option (Fin 64)} {evictions before : List Event}
    (evicts : Evictions P evicted evictions) (proper : Proper before) : Proper (evictions ++ before) ∧
      (∀ sock, evicted ≠ some sock → secured (evictions ++ before) sock = secured before sock ∧
        admitted (evictions ++ before) sock = admitted before sock) ∧
      (∀ sock, evicted = some sock → secured (evictions ++ before) sock = false ∧
        admitted (evictions ++ before) sock = none) ∧
      ∀ own clientid, evicted ≠ some own → lastConnect before = some (own, clientid) →
        lastConnect (evictions ++ before) = some (own, clientid) := by
  cases evicts with
  | none => exact ⟨proper, fun _ _ => ⟨rfl, rfl⟩, nofun, fun _ _ _ => id⟩
  | @some prevSock victim clientid client ok asked =>
    have called : Proper (.evicting prevSock victim clientid client :: .queued ⟨prevSock, .delall⟩ ok :: before) :=
      lawful_cons.mpr ⟨⟨trivial, trivial⟩, lawful_cons.mpr ⟨⟨trivial, trivial⟩, proper⟩⟩
    have seen : view (.evicting prevSock victim clientid client :: .queued ⟨prevSock, .delall⟩ ok :: before) =
      view before := rfl
    obtain ⟨elsewhere, up, table⟩ := view_closed prevSock seen
    refine ⟨lawful_cons.mpr ⟨⟨trivial, trivial⟩, called⟩, fun sock kept => ?_, ?_, ?_⟩
    · exact elsewhere sock fun same => kept (same ▸ rfl)
    · rintro _ ⟨⟩
      exact ⟨up, table⟩
    · intro own clientid apart last
      have other : own ≠ prevSock := fun same => apart (same ▸ rfl)
      simp [lastConnect, last, other]

/-- The CONNACK admits the client on its own socket only. -/
theorem connected_tended {evicted : Option (Fin 64)} (tended : Tended w) (up : secured w.trace own)
    (connected : Connected own P evicted w w') : Tended w' := by
  obtain ⟨late, sockst, evictions, early, clean, will, prev, subscriptions, grown, after, evicts, before⟩ :=
    connected.grown
  have known : Known w own := (tended.fits own).table
  have unnamed := known.unnamed connected.unnamed
  obtain ⟨seen, proper⟩ := proper_idle tended.proper (fun e member => local_idle (before e member))
    fun e member _ => local_allowed up known.named (local_mono (before e member) False.elim)
  obtain ⟨up₁, table₁⟩ := Prod.mk.inj seen
  generalize id_eq : (w'.socks own).clientid = clientid at grown
  have entered : Proper (.connecting own clientid clean prev :: (early ++ w.trace)) := by
    refine lawful_cons.mpr ⟨⟨trivial, ?_⟩, proper⟩
    exact (congrFun table₁ own).trans unnamed
  obtain ⟨proper, elsewhere, gone, last⟩ := evicted_proper evicts entered
  obtain ⟨up_own, -⟩ := elsewhere own connected.apart
  have up_own := up_own.trans (congrFun up₁ own)
  have acknowledged : Proper (.acknowledged (w.socks own).tls clientid clean will prev connackSent subscriptions ::
      .wrote own sockst connackSent none :: (evictions ++ .connecting own clientid clean prev :: (early ++ w.trace))) :=
    lawful_cons.mpr ⟨⟨trivial, trivial⟩, lawful_cons.mpr ⟨⟨.inl (up_own.trans up), trivial⟩, proper⟩⟩
  obtain ⟨seen, proper⟩ := proper_idle acknowledged (fun e member => shared_idle (after e member))
    fun e member _ => shared_allowed (after e member)
  have grown : w'.trace = late ++ .acknowledged (w.socks own).tls clientid clean will prev connackSent subscriptions ::
      .wrote own sockst connackSent none ::
        (evictions ++ .connecting own clientid clean prev :: (early ++ w.trace)) := by
    rw [grown]
    simp only [List.append_assoc, List.cons_append]
  rw [← grown] at seen proper
  obtain ⟨up', table'⟩ := Prod.mk.inj seen
  have table (sock : Fin 64) : admitted w'.trace sock = if own = sock then some ((w.socks own).tls, clientid) else
      admitted (evictions ++ .connecting own clientid clean prev :: (early ++ w.trace)) sock := by
    rw [table']
    simp [admitted, lastConnect, last own clientid connected.apart rfl]
  refine ⟨fun sock => ?_, proper⟩
  by_cases here : sock = own
  · subst here
    have phs := connected.kept.1
    have secured_phs : (w.socks sock).phs = .mqtt := of_decide_eq_true ((tended.fits sock).up.symm.trans up)
    refine ⟨?_, ?_, ?_, ?_⟩
    · rw [phs, secured_phs]
      decide
    · rw [phs, secured_phs]
      nofun
    · rw [up', phs]
      exact up_own.trans (tended.fits sock).up
    · rw [table, if_pos rfl, if_neg connected.named, connected.kept.2, id_eq]
  · have other : ¬ own = sock := fun same => here same.symm
    by_cases kept : evicted = some sock
    · obtain ⟨-, -, clientid_none, phs⟩ := connected.free sock kept
      obtain ⟨up_gone, table_gone⟩ := gone sock kept
      refine fits_free phs clientid_none (up' ▸ up_gone) ?_
      rw [table, if_neg other, table_gone]
    · obtain ⟨up_same, table_same⟩ := elsewhere sock kept
      refine (tended.fits sock).kept (connected.others sock here kept) ?_ ?_
      · rw [up']
        exact up_same.trans (congrFun up₁ sock)
      · rw [table, if_neg other, table_same]
        exact congrFun table₁ sock

/-! ### One message -/

/-- The socket is closed before a session is set up on it. -/
theorem refused_tended (tended : Tended w) (fresh : (w.socks own).phs = .uninit) : Tended (w.log (.closed own)) := by
  obtain ⟨elsewhere, up, table⟩ := view_closed own (Eq.refl (view w.trace))
  refine ⟨fun sock => ?_, lawful_cons.mpr ⟨⟨trivial, trivial⟩, tended.proper⟩⟩
  by_cases here : sock = own
  · subst here
    exact fits_free fresh ((tended.fits sock).unset fresh) up table
  · exact (tended.fits sock).kept (Alike.refl _) (elsewhere sock here).1 (elsewhere sock here).2

theorem begun_proper (tended : Tended w) (fresh : (w.socks own).phs = .uninit) : Proper (begun own w).trace ∧
    secured (begun own w).trace own ∧ Known (begun own w) own ∧ ∀ sock, sock ≠ own → Fits (begun own w) sock := by
  have down : secured w.trace own = false := by
    rw [(tended.fits own).up, fresh]
    rfl
  have at_own : ((begun own w).socks own).clientid = [] := by
    rw [begun_own]
    exact (tended.fits own).unset fresh
  refine ⟨lawful_cons.mpr ⟨⟨?_, trivial⟩, tended.proper⟩, ?_, ?_, fun sock other => ?_⟩
  · exact fun up => absurd (down.symm.trans up) (by decide)
  · exact Bool.or_eq_true_iff.mpr (.inl (decide_eq_true rfl))
  · rw [Known, if_pos at_own]
    exact ((tended.fits own).table).trans (if_pos ((tended.fits own).unset fresh))
  · refine (tended.fits sock).kept ?_ ?_ rfl
    · rw [begun_other other]
      exact Alike.refl _
    · change (decide (own = sock) || secured w.trace sock) = _
      rw [decide_eq_false other.symm, Bool.false_or]

theorem handled_tended (tended : Tended w) (handled : Handled own P w w') : Tended w' := by
  cases handled with
  | refused fresh quiet =>
    obtain ⟨env, buf, rfl⟩ := quiet
    exact ⟨fun sock => ((refused_tended tended fresh).fits sock).kept (Alike.refl _) rfl rfl,
      (refused_tended tended fresh).proper⟩
  | failed fresh dropped =>
    obtain ⟨proper, up, known, others⟩ := begun_proper tended fresh
    exact dropped_tended others proper up known dropped
  | secured fresh kept =>
    obtain ⟨proper, up, known, others⟩ := begun_proper tended fresh
    obtain ⟨events, grown, shared⟩ := kept.grown
    have ready : Tended ((begun own w).setSock own ({ · with phs := .mqtt })) := by
      refine ⟨fun sock => ?_, proper⟩
      by_cases here : sock = own
      · subst here
        have at_own := setSock_socks (begun sock w) sock ({ · with phs := .mqtt })
        refine ⟨?_, ?_, ?_, ?_⟩ <;> rw [at_own]
        · nofun
        · nofun
        · exact up
        · exact known
      · refine (others sock here).kept ?_ rfl rfl
        rw [setSock_other _ _ here]
        exact Alike.refl _
    exact idle_tended ready kept.alike grown (fun e member => shared_idle (shared e member))
      fun e member _ => shared_allowed (shared e member)
  | met settled turned =>
    have up : secured w.trace own := by
      rw [(tended.fits own).up, settled]
      rfl
    rcases turned with kept | dropped | ⟨evicted, connected⟩
    · exact local_tended tended up kept
    · exact dropped_tended (fun sock _ => tended.fits sock) tended.proper up (tended.fits own).table dropped
    · exact connected_tended tended up connected

/-! ### Runs -/

theorem PromptlyReached.reachable (reached : w.PromptlyReached) : Reachable w := by
  obtain ⟨boot, run⟩ := reached
  refine ⟨boot, Relation.ReflTransGen.mono ?_ _ _ run⟩
  rintro _ _ ⟨msg, env, -, ran⟩
  exact ⟨msg, env, ran⟩

theorem promptly_run {msgs : List (Message × Env)} (prompt : ∀ m ∈ msgs, m.2.Prompt) {boot : Boot}
    (ran : (initial boot).run msgs = .ok w) : Relation.ReflTransGen PromptTurn (initial boot) w := by
  generalize initial boot = start at ran
  induction msgs generalizing start with
  | nil =>
    cases ran
    exact .refl
  | cons entry rest ih =>
    obtain ⟨here, prompt⟩ := List.forall_mem_cons.mp prompt
    unfold World.run at ran
    split at ran
    · rename_i handled
      exact .head ⟨_, _, here, handled⟩ (ih prompt _ ran)
    · cases ran

theorem linked_reachable (reachable : Reachable w) : Lifetime.Linked w :=
  reachable.sessions (fun _ => True) (fun w _ => Lifetime.Linked w) Lifetime.linked_initial
    (fun kept linked => linked.frame kept) (fun act _ linked => linked.kept act) fun _ _ => trivial

theorem tended_initial (boot : Boot) : Tended (initial boot) := by
  refine ⟨fun sock => fits_free rfl rfl rfl rfl, ?_⟩
  exact lawful_nil

theorem tended_reached (reached : w.PromptlyReached) : Tended w := by
  obtain ⟨boot, run⟩ := reached
  induction run with
  | refl => exact tended_initial boot
  | @tail w₁ w₂ before last ih =>
    obtain ⟨msg, env, prompt, ran⟩ := last
    have linked := linked_reachable (PromptlyReached.reachable ⟨boot, before⟩)
    have tended : Tended { w₁ with env := env } := ⟨fun sock => (ih.fits sock).kept (Alike.refl _) rfl rfl, ih.proper⟩
    have handled : Handled msg.socket (fun _ => True) { w₁ with env := env } w₂ :=
      handle_handled ⟨fun _ => trivial, fun _ _ _ => trivial⟩ linked.sound (ih.fits msg.socket).settled prompt ran
    exact handled_tended tended handled

/-- Lawful also by what a law implies. -/
theorem proper_mono {law : List Event → Event → Prop} (proper : Proper trace)
    (implied : ∀ earlier e, e.Allowed (secured earlier) (admitted earlier) (lastReceived earlier) →
      law earlier e) : Lawful law trace :=
  fun late e earlier split => implied earlier e (proper late e earlier split)

/-- The clients the worker knows its sockets by are those it has admitted, and it
serves no others. -/
theorem served_when_admitted (reached : w.PromptlyReached) :
    (∀ sock, admitted w.trace sock =
      if (w.socks sock).clientid = [] then none else some ((w.socks sock).tls, (w.socks sock).clientid)) ∧
      Lawful (fun earlier e => e.OfAdmitted (admitted earlier)) w.trace :=
  have tended := tended_reached reached
  ⟨fun sock => (tended.fits sock).table, proper_mono tended.proper fun _ _ allowed => allowed.2⟩

/-- What a completed run of such messages shows is reached. -/
theorem reached_promptly (boot : Boot) (msgs : List (Message × Env)) (prompt : ∀ m ∈ msgs, m.2.Prompt)
    (shows : World → Bool) (shown : ((initial boot).run msgs).toOption.any shows = true) :
    ∃ w : World, w.PromptlyReached ∧ shows w = true := by
  obtain ⟨w, ran, -, shown⟩ := reached_run boot msgs shows shown
  exact ⟨w, ⟨boot, promptly_run prompt ran⟩, shown⟩

/-- A client connects, and publishes a message of QoS 1. -/
def publishing : List (Message × Env) :=
  [accepting 1, reading 1 (connectPacket [97] 2), reading 1 (some (publishPacket 0x32 [116] [0, 5, 9]))]

/-- The events of a PUBLISH that is accepted on a socket. -/
def publishes (sock : Fin 64) : Event → Bool
  | .publishing other .. => other = sock
  | _ => false

theorem publisher_served : ∃ w : World, w.PromptlyReached ∧ w.trace.any (publishes 1) ∧
    admitted w.trace 1 = some ((w.socks 1).tls, [97]) ∧
    Lawful (fun earlier e => e.OfAdmitted (admitted earlier)) w.trace := by
  obtain ⟨w, reached, shown⟩ := reached_promptly .clean publishing (by decide)
    (fun w => w.trace.any (publishes 1) && decide ((w.socks 1).clientid = [97])) (by decide +kernel)
  simp only [Bool.and_eq_true, decide_eq_true_eq] at shown
  obtain ⟨publishes, clientid⟩ := shown
  obtain ⟨known, served⟩ := served_when_admitted reached
  refine ⟨w, reached, publishes, ?_, served⟩
  rw [known, clientid]
  rfl

/-- A socket is in the MQTT phase while its TLS session is up, and has no client
otherwise. -/
theorem sessions_set_up (reached : w.PromptlyReached) :
    (∀ sock, (w.socks sock).phs = if secured w.trace sock then .mqtt else .uninit) ∧
      (∀ sock, secured w.trace sock = false → (w.socks sock).clientid = []) ∧
      Lawful (fun earlier e => e.OverTls (secured earlier) (lastReceived earlier)) w.trace := by
  have tended := tended_reached reached
  refine ⟨fun sock => (tended.fits sock).phs, fun sock down => (tended.fits sock).unset ?_, ?_⟩
  · rw [(tended.fits sock).phs, down]
    rfl
  · exact proper_mono tended.proper fun _ _ allowed => allowed.1

/-- One client connects and leaves, another does not get through the handshake. -/
def leaving : List (Message × Env) :=
  [accepting 1, reading 1 (connectPacket [97] 2), reading 1 none, (⟨2, .read⟩, { handshakes := [-1] })]

/-- Neither of them has a session in the end. -/
example : ((World.initial .clean).run leaving).toOption.any
    (fun w => !secured w.trace 1 && !secured w.trace 2) = true := by decide +kernel

/-- The close of a socket. -/
def closes (sock : Fin 64) : Event → Bool
  | .closed other => other = sock
  | _ => false

theorem sessions_gone : ∃ w : World, w.PromptlyReached ∧ w.trace.any (closes 1) ∧ w.trace.any (closes 2) ∧
    (w.socks 1).phs = .uninit ∧ (w.socks 1).clientid = [] ∧
    Lawful (fun earlier e => e.OverTls (secured earlier) (lastReceived earlier)) w.trace := by
  obtain ⟨w, reached, shown⟩ := reached_promptly .clean leaving (by decide)
    (fun w => w.trace.any (closes 1) && w.trace.any (closes 2) && !secured w.trace 1) (by decide +kernel)
  simp only [Bool.and_eq_true, Bool.not_eq_true'] at shown
  obtain ⟨⟨first, second⟩, down⟩ := shown
  obtain ⟨phs, unset, lawful⟩ := sessions_set_up reached
  exact ⟨w, reached, first, second, by rw [phs, down]; rfl, unset 1 down, lawful⟩

end Admission
end MqttBroker
