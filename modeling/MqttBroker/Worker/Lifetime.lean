import MqttBroker.Worker.Pairing

/-! Sessions over a run: what a client starts with, what stays of it when its
connection ends, and what its CONNACK says about it. -/
namespace MqttBroker
open Worker World

/-- No topic is subscribed. -/
def Subscription.Silent (subscriptions : Subscription) : Prop :=
  ∀ topic qos, subscriptions.isSubedTo topic = .ok qos → qos = emptyQos

/-- The session of a client id: the CleanSession flag of its last accepted
CONNECT, and the subscriptions since. -/
def sessionOf : List Event → Key → Option (Bool × Subscription)
  | [], _ => none
  | .acknowledged _ named clean _ _ _ subscriptions :: older, clientid =>
    if named = clientid then some (clean, subscriptions) else sessionOf older clientid
  | .resubscribed named subscriptions :: older, clientid =>
    if named = clientid then (sessionOf older clientid).map fun session => (session.1, subscriptions)
    else sessionOf older clientid
  | _ :: older, clientid => sessionOf older clientid

/-- The client is connected, with CleanSession 1. -/
def Client.Ends (client : Client) : Prop := client.sock.isSome ∧ client.cleanSession

/-- What an accepted CONNECT answers, and starts the client with. -/
def Event.Starts : Event → Prop
  | .acknowledged _ _ _ _ prev connack subscriptions => connack = connackSent ∧
    ((∃ heap, subscriptions = (Subscription.new heap).1) ∧ (∀ client, prev = some client → client.Ends) ∨
      ∃ client, prev = some client ∧ ¬ client.Ends ∧ subscriptions = client.subscriptions)
  | _ => True

/-- No client that is connected with CleanSession 0 disconnects. -/
def Event.Stays : Event → Prop
  | .disconnecting _ client => client.cleanSession
  | _ => True

namespace Lifetime

/-- The session-present bit of a CONNACK is 1. -/
def Present (connack : List UInt8) : Prop := connack.getD 2 0 &&& 1 = 1

/-- A session is stored that outlives its connection. -/
def Stored (prev : Option Client) : Prop := ∃ client, prev = some client ∧ client.cleanSession = false

/-- The subscriptions of every session with CleanSession 0 are stored. -/
def Keeps (w : World) : Prop :=
  ∀ clientid subscriptions, sessionOf w.trace clientid = some (false, subscriptions) →
    ∃ client, w.clientStore.get clientid = .ok (some client) ∧ client.subscriptions = subscriptions

/-- Every CONNECT with CleanSession 0 finds the subscriptions of the session
before it, if that was one with CleanSession 0. -/
def Finds (trace : List Event) : Prop :=
  ∀ conn clientid will prev connack subscriptions before older,
    .acknowledged conn clientid false will prev connack subscriptions :: older <:+ trace →
      sessionOf older clientid = some (false, before) → subscriptions = before

/-- Every client has an address of its own, and a socket that points to one has
its client id. -/
structure Linked (w : World) : Prop where
  sound : w.clientStore.Sound
  below : ∀ node ∈ w.clientStore.nodes, node.data.addr < w.nextAddr
  addrs : ∀ node ∈ w.clientStore.nodes, ∀ other ∈ w.clientStore.nodes,
    node.data.addr = other.data.addr → node = other
  pointers : ∀ sock addr, (w.socks sock).client = some addr → addr < w.nextAddr ∧
    (w.socks sock).clientid ≠ [] ∧
      ∀ node ∈ w.clientStore.nodes, node.data.addr = addr → node.key = (w.socks sock).clientid

variable {w w' : World} {masked masked' : Masked} {sock : Fin 64} {addr : Nat} {client : Client}
  {f : Client → Client} {g : SockCid → SockCid} {node : Node Client} {trace : List Event} {clientid : Key}

/-! ### Addresses -/

namespace Linked

theorem frame (kept : SessionsKept w w') (linked : Linked w) : Linked w' where
  sound := kept.clients ▸ linked.sound
  below := by
    rw [kept.clients, kept.nextAddr]
    exact linked.below
  addrs := kept.clients ▸ linked.addrs
  pointers sock addr := by
    rw [kept.client, kept.clients, kept.nextAddr, kept.clientid]
    exact linked.pointers sock addr

theorem log (linked : Linked w) (e : Event) : Linked (w.log e) :=
  ⟨linked.sound, linked.below, linked.addrs, linked.pointers⟩

/-- The client at an address is the data of the node there. -/
theorem data (linked : Linked w) (held : w.clientAt addr = some client) (member : node ∈ w.clientStore.nodes)
    (here : node.data.addr = addr) : node.data = client := by
  obtain ⟨other, inside, rfl, there⟩ := clientAt_node held
  rw [linked.addrs node member other inside (here.trans there.symm)]

/-- A client is written. -/
theorem setClient (linked : Linked w) (keeps : ∀ client, (f client).addr = client.addr) :
    Linked (w.setClient addr f) where
  sound := linked.sound.mapped fun _ => written_key
  below node member := by
    rw [nodes_setClient] at member
    obtain ⟨node, inside, rfl⟩ := List.mem_map.mp member
    rw [written_addr keeps]
    exact linked.below node inside
  addrs node member other member' same := by
    rw [nodes_setClient] at member member'
    obtain ⟨node, inside, rfl⟩ := List.mem_map.mp member
    obtain ⟨other, inside', rfl⟩ := List.mem_map.mp member'
    rw [written_addr keeps, written_addr keeps] at same
    rw [linked.addrs node inside other inside' same]
  pointers sock addr held := by
    obtain ⟨below, named, keys⟩ := linked.pointers sock addr held
    refine ⟨below, named, fun node member here => ?_⟩
    rw [nodes_setClient] at member
    obtain ⟨node, inside, rfl⟩ := List.mem_map.mp member
    rw [written_addr keeps] at here
    rw [written_key]
    exact keys node inside here

/-- A socket is rewritten and then points to no client, or to one of its id. -/
theorem setSock (linked : Linked w) (pointer : ∀ addr, (g (w.socks sock)).client = some addr →
      addr < w.nextAddr ∧ (g (w.socks sock)).clientid ≠ [] ∧
        ∀ node ∈ w.clientStore.nodes, node.data.addr = addr → node.key = (g (w.socks sock)).clientid) :
    Linked (w.setSock sock g) where
  sound := linked.sound
  below := linked.below
  addrs := linked.addrs
  pointers other addr held := by
    by_cases here : other = sock
    · subst here
      rw [setSock_socks] at held ⊢
      exact pointer addr held
    · rw [setSock_other _ _ here] at held ⊢
      exact linked.pointers other addr held

theorem reset (linked : Linked w) (sock : Fin 64) : Linked (w.reset sock) := by
  refine linked.setSock fun addr held => ?_
  cases held

/-- Fewer clients are stored. -/
theorem shrink (linked : Linked w) {store : Myhashmap Client} (sound : store.Sound)
    (left : ∀ node ∈ store.nodes, node ∈ w.clientStore.nodes) : Linked { w with clientStore := store } where
  sound := sound
  below node inside := linked.below node (left node inside)
  addrs node inside other inside' := linked.addrs node (left node inside) other (left other inside')
  pointers sock addr held := by
    obtain ⟨below, named, keys⟩ := linked.pointers sock addr held
    exact ⟨below, named, fun node inside => keys node (left node inside)⟩

/-- A new client is stored at the next address. -/
theorem grow (linked : Linked w) {key : Key} {store : Myhashmap Client} (fresh : client.addr = w.nextAddr)
    (sound : store.Sound)
    (member : ∀ node, node ∈ store.nodes ↔ node = ⟨key, client⟩ ∨ node ∈ w.clientStore.nodes) :
    Linked { w with clientStore := store, nextAddr := w.nextAddr + 1 } := by
  have older {node : Node Client} (inside : node ∈ store.nodes) (here : node.data.addr = client.addr) :
      node = ⟨key, client⟩ := by
    refine ((member node).mp inside).resolve_right fun old => ?_
    have below := linked.below node old
    omega
  refine ⟨sound, fun node inside => ?_, fun node inside other inside' same => ?_, fun sock addr held => ?_⟩
  · rcases (member node).mp inside with rfl | old
    · exact fresh ▸ Nat.lt_succ_self _
    · exact Nat.lt_succ_of_lt (linked.below node old)
  · rcases (member node).mp inside with rfl | old
    · exact (older inside' same.symm).symm
    · rcases (member other).mp inside' with rfl | old'
      · exact older inside same
      · exact linked.addrs node old other old' same
  · obtain ⟨below, named, keys⟩ := linked.pointers sock addr held
    refine ⟨Nat.lt_succ_of_lt below, named, fun node inside here => ?_⟩
    rcases (member node).mp inside with rfl | old
    · have here : client.addr = addr := here
      omega
    · exact keys node old here

theorem kept (act : SessionAct w masked w' masked') (linked : Linked w) : Linked w' := by
  cases act with
  | phase => exact linked.frame (.setSock .refl fun _ => ⟨rfl, rfl⟩)
  | name sock clientid unnamed =>
    exact linked.setSock fun addr held => absurd unnamed (linked.pointers sock addr held).2.1
  | @connecting sock clientid clean prev unnamed named stored =>
    refine (linked.log _).setSock fun addr held => ?_
    obtain ⟨client, rfl, rfl⟩ := Option.map_eq_some_iff.mp held
    have member := linked.sound.get_some.mp stored
    refine ⟨linked.below _ member, named, fun node inside here => ?_⟩
    rw [linked.addrs node inside _ member here]
  | burn =>
    refine ⟨linked.sound, fun node member => Nat.lt_succ_of_lt (linked.below node member), linked.addrs, ?_⟩
    intro sock addr held
    obtain ⟨below, rest⟩ := linked.pointers sock addr held
    exact ⟨Nat.lt_succ_of_lt below, rest⟩
  | @acceptNew sock clean carried will heap before after store client found named absent added stored =>
    obtain ⟨new, sound, member⟩ := acceptNew_store linked.sound absent added stored
    have fresh : client.addr = w.nextAddr := by rw [new]; rfl
    have grown := linked.grow fresh sound member
    refine Linked.log (Linked.setClient (Linked.setClient (grown.setSock ?_) ?_) ?_) _
    · intro addr held
      obtain rfl := Option.some.inj held
      refine ⟨fresh ▸ Nat.lt_succ_self _, named, fun node inside here => ?_⟩
      exact congrArg Node.key (grown.addrs node inside _ ((member _).mpr (.inl rfl)) here)
    · exact fun _ => rfl
    · exact fun _ => rfl
  | evict => exact (linked.log _).reset _
  | acceptStored | resubscribe =>
    refine Linked.log (linked.setClient ?_) _
    exact fun _ => rfl
  | touch | hide | unhide => exact linked.setClient fun _ => rfl
  | disconnect => exact (linked.log _).setClient fun _ => rfl
  | vanish => exact linked.reset _
  | erase sock held at_client clean erased =>
    obtain ⟨sound, member⟩ := linked.sound.erase erased
    exact ((linked.log _).shrink sound fun node inside => ((member node).mp inside).1).reset _
  | detach =>
    refine Linked.reset (Linked.setClient (linked.log _) ?_) _
    exact fun _ => rfl

end Linked

/-! ### What a CONNECT answers -/

theorem starts_kept (act : SessionAct w masked w' masked') (linked : Linked w) (held : ∀ e ∈ w.trace, e.Starts) :
    ∀ e ∈ w'.trace, e.Starts := by
  cases act with
  | phase | name | burn | touch | hide | unhide | vanish => exact held
  | connecting | evict | resubscribe | disconnect | erase | detach =>
    exact List.forall_mem_cons.mpr ⟨trivial, held⟩
  | @acceptNew sock clean carried will heap before after store client found named absent added stored at_addr =>
    refine List.forall_mem_cons.mpr ⟨⟨rfl, .inl ⟨⟨heap, ?_⟩, nofun⟩⟩, held⟩
    obtain ⟨new, -, member⟩ := acceptNew_store linked.sound absent added stored
    have fresh : client.addr = w.nextAddr := by rw [new]; rfl
    obtain ⟨node, inside, rfl, here⟩ := clientAt_node at_addr
    rcases (member node).mp inside with rfl | old
    · dsimp only
      rw [new]
      rfl
    · have below := linked.below node old
      omega
  | @acceptStored sock clean carried will prev client cleared connecting stored attached at_addr clears =>
    refine List.forall_mem_cons.mpr ⟨⟨rfl, ?_⟩, held⟩
    obtain rfl : prev = client := linked.data at_addr (linked.sound.get_some.mp stored) rfl
    by_cases ends : prev.sock.isSome ∧ prev.cleanSession
    · rw [if_pos ends] at clears
      obtain ⟨heap, rfl⟩ := clears
      exact .inl ⟨⟨heap, rfl⟩, fun client same => Option.some.inj same ▸ ends⟩
    · rw [if_neg ends] at clears
      subst clears
      exact .inr ⟨prev, rfl, ends, rfl⟩

/-! ### What is kept -/

theorem sessionOf_other {e : Event} (other : ¬ e.OfSession) :
    sessionOf (e :: trace) clientid = sessionOf trace clientid := by
  cases e <;> first | rfl | exact absurd trivial other

theorem sessionOf_append {events : List Event} (others : ∀ e ∈ events, ¬ e.OfSession) :
    sessionOf (events ++ trace) clientid = sessionOf trace clientid := by
  induction events with
  | nil => rfl
  | cons e rest ih =>
    obtain ⟨other, others⟩ := List.forall_mem_cons.mp others
    rw [List.cons_append, sessionOf_other other, ih others]

theorem finds_cons {e : Event} (finds : Finds trace)
    (new : ∀ conn clientid will prev connack subscriptions before,
      e = .acknowledged conn clientid false will prev connack subscriptions →
        sessionOf trace clientid = some (false, before) → subscriptions = before) : Finds (e :: trace) := by
  intro conn clientid will prev connack subscriptions before older suffix left
  rcases List.suffix_cons_iff.mp suffix with same | earlier
  · obtain ⟨rfl, rfl⟩ := List.cons.inj same
    exact new conn clientid will prev connack subscriptions before rfl left
  · exact finds conn clientid will prev connack subscriptions before older earlier left

theorem finds_append {events : List Event} (finds : Finds trace) (others : ∀ e ∈ events, ¬ e.OfSession) :
    Finds (events ++ trace) := by
  induction events with
  | nil => exact finds
  | cons e rest ih =>
    obtain ⟨other, others⟩ := List.forall_mem_cons.mp others
    refine finds_cons (ih others) fun _ _ _ _ _ _ _ same _ => ?_
    subst same
    exact absurd trivial other

/-- The sessions with CleanSession 0 are stored as such, with their
subscriptions. -/
structure Lasting (w : World) : Prop where
  holds : ∀ clientid subscriptions, sessionOf w.trace clientid = some (false, subscriptions) →
    ∃ client, ⟨clientid, client⟩ ∈ w.clientStore.nodes ∧ client.cleanSession = false ∧
      client.subscriptions = subscriptions
  finds : Finds w.trace

theorem log_clientStore {e : Event} : (w.log e).clientStore = w.clientStore := rfl

/-- The node of a client that is written. -/
theorem mem_written (member : ⟨clientid, client⟩ ∈ w.clientStore.nodes) (here : client.addr = addr) :
    ⟨clientid, f client⟩ ∈ (w.setClient addr f).clientStore.nodes := by
  rw [nodes_setClient]
  exact List.mem_map.mpr ⟨_, member, if_pos here⟩

/-- The node of another client. -/
theorem mem_unwritten (member : ⟨clientid, client⟩ ∈ w.clientStore.nodes) (apart : client.addr ≠ addr) :
    ⟨clientid, client⟩ ∈ (w.setClient addr f).clientStore.nodes := by
  rw [nodes_setClient]
  exact List.mem_map.mpr ⟨_, member, if_neg apart⟩

namespace Lasting

theorem frame (kept : SessionsKept w w') (lasting : Lasting w) : Lasting w' := by
  obtain ⟨events, grown, others⟩ := kept.trace
  refine ⟨fun clientid subscriptions => ?_, ?_⟩
  · rw [grown, sessionOf_append others, kept.clients]
    exact lasting.holds clientid subscriptions
  · rw [grown]
    exact finds_append lasting.finds others

/-- Clients with CleanSession 0 that are written keep flag and subscriptions. -/
theorem setClient (lasting : Lasting w) (keeps : ∀ clientid client, ⟨clientid, client⟩ ∈ w.clientStore.nodes →
      client.addr = addr → client.cleanSession = false →
        (f client).cleanSession = false ∧ (f client).subscriptions = client.subscriptions) :
    Lasting (w.setClient addr f) := by
  refine ⟨fun clientid subscriptions current => ?_, lasting.finds⟩
  obtain ⟨client, member, lasts, same⟩ := lasting.holds clientid subscriptions current
  by_cases here : client.addr = addr
  · obtain ⟨still, kept⟩ := keeps clientid client member here lasts
    exact ⟨_, mem_written member here, still, kept.trans same⟩
  · exact ⟨client, mem_unwritten member here, lasts, same⟩

/-- The CONNECT of a client id that is not stored. -/
theorem acceptNew (lasting : Lasting w) (linked : Linked w) {clean : Bool} {carried will : Will}
    {heap before after : Heap} {store : Myhashmap Client} {found : Client}
    (absent : w.clientStore.get (w.socks sock).clientid = .ok none)
    (added : w.clientStore.add (w.socks sock).clientid (Client.new w.nextAddr heap).1 before =
      .ok (true, store, after))
    (stored : store.get (w.socks sock).clientid = .ok (some client))
    (at_addr : { w with clientStore := store }.clientAt client.addr = some found) :
    Lasting (((({ w with clientStore := store, nextAddr := w.nextAddr + 1 }.setSock sock
        ({ · with client := some client.addr })).setClient client.addr
        ({ · with sock := some sock })).setClient client.addr
        ({ · with cleanSession := clean, will := will })).log
      (.acknowledged (w.socks sock).tls (w.socks sock).clientid clean carried none connackSent
        found.subscriptions)) := by
  obtain ⟨new, sound, member⟩ := acceptNew_store linked.sound absent added stored
  have fresh : client.addr = w.nextAddr := by rw [new]; rfl
  have grown := linked.grow fresh sound member
  have inside := (member _).mpr (.inl rfl)
  obtain rfl : client = found := grown.data at_addr inside rfl
  refine ⟨fun clientid subscriptions current => ?_, finds_cons lasting.finds ?_⟩
  · by_cases here : (w.socks sock).clientid = clientid
    · obtain ⟨rfl, rfl⟩ := Prod.mk.inj (Option.some.inj ((if_pos here).symm.trans current))
      subst here
      rw [log_clientStore]
      exact ⟨_, mem_written (mem_written inside rfl) rfl, rfl, rfl⟩
    · replace current : sessionOf w.trace clientid = some (false, subscriptions) := (if_neg here).symm.trans current
      obtain ⟨other, old, lasts, same⟩ := lasting.holds clientid subscriptions current
      have below := linked.below _ old
      have apart : other.addr ≠ client.addr := by
        rw [fresh]
        exact below.ne
      rw [log_clientStore]
      exact ⟨other, mem_unwritten (mem_unwritten ((member _).mpr (.inr old)) apart) apart, lasts, same⟩
  · rintro conn clientid will prev connack subscriptions before same left
    obtain ⟨-, rfl, -⟩ := Event.acknowledged.inj same
    obtain ⟨other, old, -⟩ := lasting.holds _ _ left
    exact absurd rfl (linked.sound.get_none.mp absent _ old)

/-- The CONNECT of a client that is stored. -/
theorem acceptStored (lasting : Lasting w) (linked : Linked w) {clean : Bool} {carried will : Will}
    {prev : Client} {cleared : Option Subscription}
    (stored : w.clientStore.get (w.socks sock).clientid = .ok (some prev))
    (at_addr : w.clientAt prev.addr = some client)
    (clears : if prev.sock.isSome ∧ client.cleanSession then
      ∃ heap, cleared = some (Subscription.new heap).1 else cleared = none) :
    Lasting ((w.setClient prev.addr fun client => { client with
        subscriptions := cleared.getD client.subscriptions
        cleanSession := clean
        will := will }).log
      (.acknowledged (w.socks sock).tls (w.socks sock).clientid clean carried (some prev)
        connackSent (cleared.getD client.subscriptions))) := by
  have inside := linked.sound.get_some.mp stored
  obtain rfl : prev = client := linked.data at_addr inside rfl
  refine ⟨fun clientid subscriptions current => ?_, finds_cons lasting.finds ?_⟩
  · by_cases here : (w.socks sock).clientid = clientid
    · obtain ⟨rfl, rfl⟩ := Prod.mk.inj (Option.some.inj ((if_pos here).symm.trans current))
      subst here
      rw [log_clientStore]
      exact ⟨_, mem_written inside rfl, rfl, rfl⟩
    · replace current : sessionOf w.trace clientid = some (false, subscriptions) := (if_neg here).symm.trans current
      obtain ⟨other, old, lasts, same⟩ := lasting.holds clientid subscriptions current
      have apart : other.addr ≠ prev.addr :=
        fun shared => here (congrArg Node.key (linked.addrs _ old _ inside shared)).symm
      rw [log_clientStore]
      exact ⟨other, mem_unwritten old apart, lasts, same⟩
  · rintro conn clientid will found connack subscriptions before same left
    obtain ⟨-, rfl, rfl, -, -, -, rfl⟩ := Event.acknowledged.inj same
    obtain ⟨other, old, lasts, rfl⟩ := lasting.holds _ _ left
    obtain rfl : other = prev := congrArg Node.data (linked.sound.eq_of_key old inside rfl)
    rw [if_neg (by simp [lasts])] at clears
    rw [clears]
    rfl

/-- The client of a socket has its subscriptions written. -/
theorem resubscribe (lasting : Lasting w) (linked : Linked w) {subscriptions : Subscription}
    (attached : (w.socks sock).client = some addr) (held : w.clientAt addr = some client) :
    Lasting ((w.setClient addr ({ · with subscriptions := subscriptions })).log
      (.resubscribed (w.socks sock).clientid subscriptions)) := by
  obtain ⟨node, inside, rfl, at_addr⟩ := clientAt_node held
  have key := (linked.pointers sock addr attached).2.2 node inside at_addr
  refine ⟨fun clientid after current => ?_, finds_cons lasting.finds nofun⟩
  by_cases here : (w.socks sock).clientid = clientid
  · replace current : (sessionOf w.trace clientid).map (fun session => (session.1, subscriptions)) =
        some (false, after) := (if_pos here).symm.trans current
    obtain ⟨⟨clean, before⟩, session, same⟩ := Option.map_eq_some_iff.mp current
    obtain ⟨rfl, rfl⟩ := Prod.mk.inj same
    obtain ⟨other, old, lasts, -⟩ := lasting.holds clientid before session
    have shared := linked.sound.eq_of_key old inside (here.symm.trans key.symm)
    have at_other : other.addr = addr := by
      rw [← shared] at at_addr
      exact at_addr
    rw [log_clientStore]
    exact ⟨_, mem_written old at_other, lasts, rfl⟩
  · replace current : sessionOf w.trace clientid = some (false, after) := (if_neg here).symm.trans current
    obtain ⟨other, old, lasts, same⟩ := lasting.holds clientid after current
    have apart : other.addr ≠ addr := by
      intro shared
      have same := congrArg Node.key (linked.addrs _ old _ inside (shared.trans at_addr.symm))
      exact here (key.symm.trans same.symm)
    rw [log_clientStore]
    exact ⟨other, mem_unwritten old apart, lasts, same⟩

theorem kept (act : SessionAct w masked w' masked') (meets : ∀ e ∈ w'.trace, e.Stays) (linked : Linked w)
    (lasting : Lasting w) : Lasting w' := by
  cases act with
  | phase | name | burn | vanish => exact ⟨lasting.holds, lasting.finds⟩
  | connecting | evict => exact ⟨lasting.holds, finds_cons lasting.finds nofun⟩
  | acceptNew sock clean carried will named absent added stored at_addr =>
    exact lasting.acceptNew linked absent added stored at_addr
  | acceptStored sock clean carried will connecting stored attached at_addr clears =>
    exact lasting.acceptStored linked stored at_addr clears
  | resubscribe sock subscriptions attached held => exact lasting.resubscribe linked attached held
  | touch | hide | unhide => exact lasting.setClient fun _ _ _ _ lasts => ⟨lasts, rfl⟩
  | @disconnect sock addr client attached held =>
    have ends : client.cleanSession = true := meets _ List.mem_cons_self
    have noted : Lasting (w.log (.disconnecting (w.socks sock).clientid client)) :=
      ⟨lasting.holds, finds_cons lasting.finds nofun⟩
    refine noted.setClient fun clientid other member here lasts => ?_
    obtain rfl : other = client := linked.data held member here
    rw [ends] at lasts
    cases lasts
  | @erase sock addr client store attached held ends erased =>
    refine ⟨fun clientid subscriptions current => ?_, finds_cons lasting.finds nofun⟩
    obtain ⟨other, old, lasts, same⟩ := lasting.holds clientid subscriptions current
    refine ⟨other, ((linked.sound.erase erased).2 _).mpr ⟨old, fun gone => ?_⟩, lasts, same⟩
    obtain ⟨node, inside, rfl, at_addr⟩ := clientAt_node held
    have key := (linked.pointers sock addr attached).2.2 node inside at_addr
    have shared := linked.sound.eq_of_key old inside (gone.trans key.symm)
    rw [← shared, lasts] at ends
    cases ends
  | @detach sock addr client attached held lasts =>
    have noted : Lasting (w.log (.ended sock (w.socks sock).clientid client)) :=
      ⟨lasting.holds, finds_cons lasting.finds nofun⟩
    have rewritten : Lasting ((w.log (.ended sock (w.socks sock).clientid client)).setClient addr
        ({ · with sock := none })) := noted.setClient fun _ _ _ _ lasts => ⟨lasts, rfl⟩
    exact ⟨rewritten.holds, rewritten.finds⟩

end Lasting

/-! ### Runs -/

/-- A new session has no subscription, also if there was no memory for its
table. -/
theorem silent_new (heap : Heap) : (Subscription.new heap).1.Silent := by
  intro topic qos answered
  have bare (m : Myhashmap Subscription) (empty : ∀ chain ∈ m.buckets, chain = []) (key : Key)
      (found : Option Subscription) (got : m.get key = .ok found) : found = none := by
    simp only [Myhashmap.get, Myhashmap.chain, bind, Except.bind] at got
    repeat' split at got
    all_goals cases got
    rename_i held
    split at held
    · rename_i inside
      obtain rfl := Except.ok.inj held
      rw [empty _ (List.mem_of_getElem? inside)]
      rfl
    · cases held
  have empty : ∀ chain ∈ (Subscription.new heap).1.childNodes.buckets, chain = [] := by
    intro chain member
    simp only [Subscription.new, Subscription.childNodes, Myhashmap.ofCapacity] at member
    split at member
    · exact List.eq_of_mem_replicate member
    · cases member
  rw [Subscription.isSubedTo, Subscription.isSubedToLoop] at answered
  split at answered
  · exact (Except.ok.inj answered).symm
  · simp only [bind, Except.bind] at answered
    split at answered
    · cases answered
    · rename_i found got
      rw [bare _ empty _ found got] at answered
      exact (Except.ok.inj answered).symm

theorem linked_initial (boot : Boot) : Linked (initial boot) := by
  have none_stored : (initial boot).clientStore.nodes = [] := Myhashmap.nodes_ofCapacity 10
  refine ⟨Myhashmap.sound_ofCapacity (by decide), ?_, ?_, nofun⟩ <;>
  · rw [none_stored]
    exact nofun

theorem started_reachable (reachable : Reachable w) : ∀ e ∈ w.trace, e.Starts := by
  have held := reachable.sessions (fun _ => True) (fun w _ => Linked w ∧ ∀ e ∈ w.trace, e.Starts)
    (fun boot => ⟨linked_initial boot, List.forall_mem_nil _⟩)
    (fun kept held => by
      obtain ⟨events, grown, others⟩ := kept.trace
      refine ⟨held.1.frame kept, fun e member => ?_⟩
      rw [grown] at member
      rcases List.mem_append.mp member with new | old
      · have other := others e new
        cases e <;> first | exact trivial | exact absurd trivial other
      · exact held.2 e old)
    (fun act _ held => ⟨held.1.kept act, starts_kept act held.1 held.2⟩) fun _ _ => trivial
  exact held.2

theorem lasting_reachable (reachable : Reachable w) (meets : ∀ e ∈ w.trace, e.Stays) : Linked w ∧ Lasting w :=
  reachable.sessions Event.Stays (fun w _ => Linked w ∧ Lasting w)
    (fun boot => ⟨linked_initial boot, nofun, fun _ _ _ _ _ _ _ _ suffix => by
      have nothing := suffix.length_le
      simp [initial] at nothing⟩)
    (fun kept held => ⟨held.1.frame kept, held.2.frame kept⟩)
    (fun act meets held => ⟨held.1.kept act, held.2.kept act meets held.1⟩) meets

/-- What an accepted CONNECT answers and starts with is right exactly in these
cases; and where no client with CleanSession 0 disconnects, its subscriptions are
kept and found again. -/
theorem sessions_follow_flag (reachable : Reachable w) :
    (∀ conn clientid clean will prev connack subscriptions,
      .acknowledged conn clientid clean will prev connack subscriptions ∈ w.trace →
        ((Present connack ↔ clean = false ∧ Stored prev) ↔ ¬ (clean = false ∧ Stored prev)) ∧
          ((clean = true → subscriptions.Silent) ↔
            (clean = true → ∀ client, prev = some client → client.Ends ∨ client.subscriptions.Silent))) ∧
      ((∀ e ∈ w.trace, e.Stays) → Keeps w ∧ Finds w.trace) := by
  refine ⟨fun conn clientid clean will prev connack subscriptions member => ?_, fun meets => ?_⟩
  · obtain ⟨rfl, starts⟩ := started_reachable reachable _ member
    refine ⟨?_, forall_congr' fun _ => ?_⟩
    · have absent : ¬ Present connackSent := by
        unfold Present
        decide
      rw [iff_false_left absent]
    · rcases starts with ⟨⟨heap, rfl⟩, ends⟩ | ⟨client, rfl, lasts, rfl⟩
      · exact iff_of_true (silent_new heap) fun client same => .inl (ends client same)
      · constructor
        · intro silent found same
          exact .inr (Option.some.inj same ▸ silent)
        · exact fun either => (either client rfl).resolve_left lasts
  · obtain ⟨linked, lasting⟩ := lasting_reachable reachable meets
    refine ⟨fun clientid subscriptions current => ?_, lasting.finds⟩
    obtain ⟨client, inside, -, same⟩ := lasting.holds clientid subscriptions current
    exact ⟨client, linked.sound.get_some.mpr inside, same⟩

instance : DecidablePred Event.Stays := fun e => by
  rcases e with ⟨⟩ <;> dsimp only [Event.Stays] <;> infer_instance

/-- The client subscribes to "t" and loses its connection. -/
def leaves : List (Message × Env) :=
  [accepting 1, reading 1 (connectPacket [97] 0), subscribing 1 [116] 1, reading 1 none]

/-- A client's subscription to "t" is granted. -/
def heard (subscriptions : Subscription) : Bool :=
  match subscriptions.isSubedTo [116] with
  | .ok qos => qos == 1
  | .error _ => false

theorem heard_ok {subscriptions : Subscription} (shown : heard subscriptions) :
    subscriptions.isSubedTo [116] = .ok 1 := by
  unfold heard at shown
  split at shown
  · rename_i answered
    rw [answered, beq_iff_eq.mp shown]
  · cases shown

/-- The subscription outlives the connection. -/
theorem subscription_kept : ∃ w client, Reachable w ∧ w.clientStore.get [97] = .ok (some client) ∧
    client.sock = none ∧ client.subscriptions.isSubedTo [116] = .ok 1 ∧
      sessionOf w.trace [97] = some (false, client.subscriptions) ∧ Keeps w ∧ Finds w.trace := by
  obtain ⟨w, -, reachable, shown⟩ := reached_run .clean leaves
    (fun w => decide (∀ e ∈ w.trace, e.Stays) &&
      ((w.clientStore.get [97]).toOption.join.any fun client => client.sock.isNone) &&
        (sessionOf w.trace [97]).any fun session => !session.1 && heard session.2)
    (by decide +kernel)
  simp only [Bool.and_eq_true, decide_eq_true_eq, Option.any_eq_true, Bool.not_eq_true'] at shown
  obtain ⟨⟨stays, offline⟩, ⟨clean, subscriptions⟩, current, rfl, granted⟩ := shown
  obtain ⟨keeps, finds⟩ := (sessions_follow_flag reachable).2 stays
  obtain ⟨client, stored, rfl⟩ := keeps _ _ current
  rw [stored] at offline
  obtain ⟨_, same, offline⟩ := offline
  obtain rfl := Option.some.inj same
  exact ⟨w, client, reachable, stored, Option.isNone_iff_eq_none.mp offline, heard_ok granted, current, keeps,
    finds⟩

/-- A CONNACK without the session-present bit for a client that is stored and
does not ask for a clean session. -/
def deniesSession : Event → Bool
  | .acknowledged _ _ clean _ prev connack _ =>
    !clean && prev.any (!·.cleanSession) && connack.getD 2 0 &&& 1 != 1
  | _ => false

/-- A clean session that starts with a subscription. -/
def startsSubscribed : Event → Bool
  | .acknowledged _ _ clean _ _ _ subscriptions => clean && heard subscriptions
  | _ => false

/-- A client with CleanSession 0 is told that it has no session when it comes
back; with CleanSession 1 it comes back to its old subscriptions; and its
DISCONNECT ends the session. -/
theorem sessions_confused :
    (∃ w conn clientid clean will prev connack subscriptions, Reachable w ∧
      .acknowledged conn clientid clean will prev connack subscriptions ∈ w.trace ∧
        ¬ (Present connack ↔ clean = false ∧ Stored prev)) ∧
    (∃ w conn clientid will prev connack subscriptions, Reachable w ∧
      .acknowledged conn clientid true will prev connack subscriptions ∈ w.trace ∧ ¬ subscriptions.Silent) ∧
    ∃ w, Reachable w ∧ ¬ Keeps w := by
  refine ⟨?_, ?_, ?_⟩
  · obtain ⟨w, -, reachable, shown⟩ := reached_run .clean
      (leaves ++ [accepting 1, reading 1 (connectPacket [97] 0)])
      (fun w => w.trace.any deniesSession) (by decide +kernel)
    obtain ⟨e, member, shown⟩ := List.any_eq_true.mp shown
    cases e with
    | acknowledged conn clientid clean will prev connack subscriptions =>
      simp only [deniesSession, Bool.and_eq_true, Bool.not_eq_true', Option.any_eq_true, bne_iff_ne] at shown
      obtain ⟨⟨rfl, stored⟩, absent⟩ := shown
      exact ⟨w, conn, clientid, false, will, prev, connack, subscriptions, reachable, member,
        fun right => absent (right.mpr ⟨rfl, stored⟩)⟩
    | _ => exact absurd shown Bool.false_ne_true
  · obtain ⟨w, -, reachable, shown⟩ := reached_run .clean
      (leaves ++ [accepting 1, reading 1 (connectPacket [97] 2)])
      (fun w => w.trace.any startsSubscribed) (by decide +kernel)
    obtain ⟨e, member, shown⟩ := List.any_eq_true.mp shown
    cases e with
    | acknowledged conn clientid clean will prev connack subscriptions =>
      obtain ⟨rfl, granted⟩ := Bool.and_eq_true_iff.mp shown
      exact ⟨w, conn, clientid, will, prev, connack, subscriptions, reachable, member,
        fun silent => absurd (silent _ _ (heard_ok granted)) (by decide)⟩
    | _ => exact absurd shown Bool.false_ne_true
  · obtain ⟨w, -, reachable, shown⟩ := reached_run .clean
      [accepting 1, reading 1 (connectPacket [97] 0), subscribing 1 [116] 1, reading 1 (some [0xE0, 0])]
      (fun w => (w.clientStore.get [97]).toOption.any Option.isNone &&
        (sessionOf w.trace [97]).any fun session => !session.1) (by decide +kernel)
    simp only [Bool.and_eq_true, Option.any_eq_true, Bool.not_eq_true'] at shown
    obtain ⟨gone, ⟨clean, subscriptions⟩, current, rfl⟩ := shown
    refine ⟨w, reachable, fun keeps => ?_⟩
    obtain ⟨client, stored, -⟩ := keeps _ _ current
    rw [stored] at gone
    obtain ⟨_, same, gone⟩ := gone
    obtain rfl := Option.some.inj same
    cases gone

end Lifetime
end MqttBroker
