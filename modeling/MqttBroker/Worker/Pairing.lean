import MqttBroker.Worker.Sessions

/-! Sockets and clients. The socket table and `Client::sock` agree as long as
every CONNECT has a new client id; a stored client that connects again is never
recorded under its new socket. -/
namespace MqttBroker
open Worker World

/-- Every CONNECT so far found no stored client. -/
def Event.FirstConnect : Event → Prop
  | .connecting _ _ _ (some _) => False
  | _ => True

def Event.NoTakeover : Event → Prop
  | .evicting .. => False
  | _ => True

/-- The socket that a takeover closes is the one of the client id. -/
def Event.ClosesOwn : Event → Prop
  | .evicting _ victim clientid client =>
    victim.client = some client.addr ∧ victim.clientid = clientid
  | _ => True

/-- The socket table and the stored clients name each other. -/
def Paired (w : World) : Prop :=
  (∀ sock addr, (w.socks sock).client = some addr ↔
      ∃ client, w.clientStore.get (w.socks sock).clientid = .ok (some client) ∧
        client.addr = addr ∧ client.sock = some sock) ∧
    ∀ node ∈ w.clientStore.nodes,
      node.data.sock = none ↔ ∀ sock, (w.socks sock).client ≠ some node.data.addr

/-- The socket of a client, also while it is -1 for its will. -/
def Client.attachedTo (masked : Masked) (client : Client) : Option (Fin 64) :=
  match masked with
  | some (addr, sock) => if client.addr = addr then sock else client.sock
  | none => client.sock

/-- Every socket that a stored client has recorded is attached to it. -/
structure Recorded (w : World) (masked : Masked) : Prop where
  sound : w.clientStore.Sound
  below : ∀ node ∈ w.clientStore.nodes, node.data.addr < w.nextAddr
  addrs : ∀ node ∈ w.clientStore.nodes, ∀ other ∈ w.clientStore.nodes,
    node.data.addr = other.data.addr → node = other
  unnamed : ∀ sock, (w.socks sock).clientid = [] → (w.socks sock).client = none
  attached : ∀ node ∈ w.clientStore.nodes, ∀ sock, node.data.attachedTo masked = some sock →
    (w.socks sock).client = some node.data.addr ∧ (w.socks sock).clientid = node.key

/-- Every client a socket is attached to is stored and has recorded it. -/
def Attached (w : World) (masked : Masked) : Prop :=
  ∀ sock addr, (w.socks sock).client = some addr →
    ∃ node ∈ w.clientStore.nodes, node.key = (w.socks sock).clientid ∧ node.data.addr = addr ∧
      node.data.attachedTo masked = some sock

variable {w w' : World} {masked masked' : Masked} {sock : Fin 64} {addr : Nat} {client : Client}
  {f : Client → Client} {g : SockCid → SockCid}

theorem paired_of (recorded : Recorded w none) (attached : Attached w none) : Paired w := by
  refine ⟨fun sock addr => ⟨fun held => ?_, ?_⟩, fun node member => ⟨fun loose sock held => ?_, ?_⟩⟩
  · obtain ⟨node, member, key, same, at_sock⟩ := attached sock addr held
    exact ⟨node.data, recorded.sound.get_some.mpr (key ▸ member), same, at_sock⟩
  · rintro ⟨client, stored, rfl, at_sock⟩
    exact (recorded.attached _ (recorded.sound.get_some.mp stored) sock at_sock).1
  · obtain ⟨other, inside, -, same, at_sock⟩ := attached sock _ held
    obtain rfl := recorded.addrs other inside node member same
    have at_sock : other.data.sock = some sock := at_sock
    rw [loose] at at_sock
    cases at_sock
  · intro loose
    cases at_sock : node.data.sock with
    | none => rfl
    | some sock => exact absurd (recorded.attached node member sock at_sock).1 (loose sock)

namespace Recorded

theorem frame (kept : SessionsKept w w') (recorded : Recorded w masked) : Recorded w' masked where
  sound := kept.clients ▸ recorded.sound
  below := by
    rw [kept.clients, kept.nextAddr]
    exact recorded.below
  addrs := kept.clients ▸ recorded.addrs
  unnamed sock := by
    rw [kept.client, kept.clientid]
    exact recorded.unnamed sock
  attached := by
    rw [kept.clients]
    intro node member sock
    rw [kept.client, kept.clientid]
    exact recorded.attached node member sock

/-- The trace is not read. -/
theorem log (recorded : Recorded w masked) (e : Event) : Recorded (w.log e) masked :=
  ⟨recorded.sound, recorded.below, recorded.addrs, recorded.unnamed, recorded.attached⟩

/-- A socket that no client has recorded is rewritten. -/
theorem setSock (recorded : Recorded w masked)
    (loose : ∀ node ∈ w.clientStore.nodes, node.data.attachedTo masked ≠ some sock)
    (named : (g (w.socks sock)).clientid = [] → (g (w.socks sock)).client = none) :
    Recorded (w.setSock sock g) masked where
  sound := recorded.sound
  below := recorded.below
  addrs := recorded.addrs
  unnamed other := by
    by_cases here : other = sock
    · subst here
      rw [setSock_socks]
      exact named
    · rw [setSock_other _ _ here]
      exact recorded.unnamed other
  attached node member other at_sock := by
    have here : other ≠ sock := by
      rintro rfl
      exact loose node member at_sock
    rw [setSock_other _ _ here]
    exact recorded.attached node member other at_sock

/-- No stored client has recorded a socket that is attached to none. -/
theorem loose (recorded : Recorded w masked) (free : (w.socks sock).client = none) :
    ∀ node ∈ w.clientStore.nodes, node.data.attachedTo masked ≠ some sock := by
  intro node member at_sock
  rw [(recorded.attached node member sock at_sock).1] at free
  cases free

/-- A client is written; what it has recorded then is attached to it. -/
theorem setClient (recorded : Recorded w masked) (keeps : ∀ client, (f client).addr = client.addr)
    (attached : ∀ node ∈ w.clientStore.nodes, ∀ sock,
      (written addr f node).data.attachedTo masked' = some sock →
      (w.socks sock).client = some node.data.addr ∧ (w.socks sock).clientid = node.key) :
    Recorded (w.setClient addr f) masked' where
  sound := recorded.sound.mapped fun _ => written_key
  below node member := by
    rw [nodes_setClient] at member
    obtain ⟨node, inside, rfl⟩ := List.mem_map.mp member
    rw [written_addr keeps]
    exact recorded.below node inside
  addrs node member other member' same := by
    rw [nodes_setClient] at member member'
    obtain ⟨node, inside, rfl⟩ := List.mem_map.mp member
    obtain ⟨other, inside', rfl⟩ := List.mem_map.mp member'
    rw [written_addr keeps, written_addr keeps] at same
    rw [recorded.addrs node inside other inside' same]
  unnamed := recorded.unnamed
  attached node member sock at_sock := by
    rw [nodes_setClient] at member
    obtain ⟨node, inside, rfl⟩ := List.mem_map.mp member
    rw [written_addr keeps, written_key]
    exact attached node inside sock at_sock

/-- A client is written and stays attached to what it was. -/
theorem rewrite (recorded : Recorded w masked) (keeps : ∀ client, (f client).addr = client.addr)
    (same : ∀ node ∈ w.clientStore.nodes,
      (written addr f node).data.attachedTo masked' = node.data.attachedTo masked) :
    Recorded (w.setClient addr f) masked' := by
  refine recorded.setClient keeps fun node member sock at_sock => ?_
  rw [same node member] at at_sock
  exact recorded.attached node member sock at_sock

end Recorded

theorem attachedTo_written {node : Node Client}
    (keeps : ∀ client, (f client).addr = client.addr ∧ (f client).sock = client.sock) :
    (written addr f node).data.attachedTo masked = node.data.attachedTo masked := by
  unfold written
  split
  · simp only [Client.attachedTo, (keeps _).1, (keeps _).2]
  · rfl

/-- Hiding a client's socket while its will is published. -/
theorem attachedTo_hidden (recorded : Recorded w none) (held : w.clientAt addr = some client)
    {node : Node Client} (member : node ∈ w.clientStore.nodes) :
    (written addr ({ · with sock := none }) node).data.attachedTo (some (addr, client.sock)) =
      node.data.attachedTo none := by
  by_cases here : node.data.addr = addr
  · obtain ⟨other, inside, rfl, there⟩ := clientAt_node held
    obtain rfl := recorded.addrs node member other inside (here.trans there.symm)
    rw [written_here here]
    exact if_pos here
  · rw [written_other here]
    exact if_neg here

theorem attachedTo_shown {node : Node Client} {at_sock : Option (Fin 64)} :
    (written addr ({ · with sock := at_sock }) node).data.attachedTo none =
      node.data.attachedTo (some (addr, at_sock)) := by
  by_cases here : node.data.addr = addr
  · rw [written_here here]
    exact (if_pos here).symm
  · rw [written_other here]
    exact (if_neg here).symm

/-- What the steps of an accepted CONNECT of a new client id do to the store. -/
theorem acceptNew_store (sound : w.clientStore.Sound) {key : Key} {heap before after : Heap}
    {store : Myhashmap Client} (absent : w.clientStore.get key = .ok none)
    (added : w.clientStore.add key (Client.new w.nextAddr heap).1 before = .ok (true, store, after))
    (found : store.get key = .ok (some client)) :
    client = (Client.new w.nextAddr heap).1 ∧ store.Sound ∧
      ∀ node, node ∈ store.nodes ↔ node = ⟨key, client⟩ ∨ node ∈ w.clientStore.nodes := by
  have fresh := sound.get_none.mp absent
  obtain rfl := sound.add_found added found
  have grown := sound.appended fresh (Client.new w.nextAddr heap).1
  have member (node : Node Client) :
      node ∈ (w.clientStore.appended key (Client.new w.nextAddr heap).1).nodes ↔
        node = ⟨key, (Client.new w.nextAddr heap).1⟩ ∨ node ∈ w.clientStore.nodes :=
    Myhashmap.mem_appended sound.buckets
  obtain same : client = (Client.new w.nextAddr heap).1 := by
    rcases (member _).mp (grown.get_some.mp found) with new | old
    · exact congrArg Node.data new
    · exact absurd rfl (fresh _ old)
  subst same
  exact ⟨rfl, grown, member⟩

/-- A new client is stored, its socket set, and the client told the socket. -/
theorem Recorded.acceptNew (recorded : Recorded w none) {heap before after : Heap}
    {store : Myhashmap Client} (named : (w.socks sock).clientid ≠ [])
    (absent : w.clientStore.get (w.socks sock).clientid = .ok none)
    (added : w.clientStore.add (w.socks sock).clientid (Client.new w.nextAddr heap).1 before =
      .ok (true, store, after))
    (found : store.get (w.socks sock).clientid = .ok (some client)) :
    Recorded ((({ w with clientStore := store, nextAddr := w.nextAddr + 1 }.setSock sock
      ({ · with client := some client.addr })).setClient client.addr ({ · with sock := some sock })))
      none := by
  obtain ⟨new, sound, member⟩ := acceptNew_store recorded.sound absent added found
  have at_addr : client.addr = w.nextAddr := by rw [new]; rfl
  have unattached : client.sock = none := by rw [new]; rfl
  have older {node : Node Client} (inside : node ∈ store.nodes)
      (here : node.data.addr = client.addr) : node = ⟨(w.socks sock).clientid, client⟩ := by
    refine ((member node).mp inside).resolve_right fun old => ?_
    have below := recorded.below node old
    rw [here, at_addr] at below
    exact lt_irrefl _ below
  have stored : Recorded { w with clientStore := store, nextAddr := w.nextAddr + 1 } none := by
    refine ⟨sound, fun node inside => ?_, fun node inside other inside' same => ?_,
      recorded.unnamed, fun node inside sock at_sock => ?_⟩
    · rcases (member node).mp inside with rfl | old
      · exact at_addr ▸ Nat.lt_succ_self _
      · exact Nat.lt_succ_of_lt (recorded.below node old)
    · rcases (member node).mp inside with rfl | old
      · exact (older inside' same.symm).symm
      · rcases (member other).mp inside' with rfl | old'
        · exact older inside same
        · exact recorded.addrs node old other old' same
    · rcases (member node).mp inside with rfl | old
      · have at_sock : client.sock = some sock := at_sock
        rw [unattached] at at_sock
        cases at_sock
      · exact recorded.attached node old sock at_sock
  have loose : ∀ node ∈ store.nodes, node.data.attachedTo none ≠ some sock := by
    intro node inside at_sock
    rcases (member node).mp inside with rfl | old
    · have at_sock : client.sock = some sock := at_sock
      rw [unattached] at at_sock
      cases at_sock
    · have key := (recorded.attached node old sock at_sock).2
      exact recorded.sound.get_none.mp absent node old key.symm
  have entered : Recorded ({ w with clientStore := store, nextAddr := w.nextAddr + 1 }.setSock sock
      ({ · with client := some client.addr })) none :=
    stored.setSock loose fun empty => absurd empty named
  refine entered.setClient (fun _ => rfl) fun node inside s at_sock => ?_
  by_cases here : node.data.addr = client.addr
  · rw [written_here here] at at_sock
    obtain rfl : sock = s := Option.some.inj at_sock
    rw [older inside here, setSock_socks]
    exact ⟨rfl, rfl⟩
  · rw [written_other here] at at_sock
    exact entered.attached node inside s at_sock

theorem Recorded.kept (act : SessionAct w masked w' masked') (meets : ∀ e ∈ w'.trace, e.NoTakeover)
    (recorded : Recorded w masked) : Recorded w' masked' := by
  cases act with
  | phase => exact recorded.frame (.setSock .refl fun _ => ⟨rfl, rfl⟩)
  | name sock clientid unnamed =>
    have free := recorded.unnamed sock unnamed
    exact recorded.setSock (recorded.loose free) fun _ => free
  | connecting sock clientid clean unnamed named =>
    have free := recorded.unnamed sock unnamed
    exact (recorded.log _).setSock (recorded.loose free) fun empty => absurd empty named
  | burn =>
    exact ⟨recorded.sound, fun node member => Nat.lt_succ_of_lt (recorded.below node member),
      recorded.addrs, recorded.unnamed, recorded.attached⟩
  | acceptNew sock clean carried will named absent added found =>
    refine Recorded.log (Recorded.rewrite (recorded.acceptNew named absent added found) ?_ ?_) _
    · exact fun _ => rfl
    · exact fun _ _ => attachedTo_written fun _ => ⟨rfl, rfl⟩
  | evict => exact absurd (meets _ List.mem_cons_self) not_false
  | acceptStored | resubscribe =>
    refine Recorded.log (recorded.rewrite ?_ ?_) _
    · exact fun _ => rfl
    · exact fun _ _ => attachedTo_written fun _ => ⟨rfl, rfl⟩
  | touch => exact recorded.rewrite (fun _ => rfl) fun _ _ => attachedTo_written fun _ => ⟨rfl, rfl⟩
  | disconnect =>
    refine (recorded.log _).rewrite (fun _ => rfl) fun _ _ => ?_
    exact attachedTo_written fun _ => ⟨rfl, rfl⟩
  | hide sock held at_client =>
    exact recorded.rewrite (fun _ => rfl) fun _ member => attachedTo_hidden recorded at_client member
  | unhide => exact recorded.rewrite (fun _ => rfl) fun _ _ => attachedTo_shown
  | vanish sock free => exact recorded.setSock (recorded.loose free) fun _ => rfl
  | erase sock held at_client clean erased =>
    obtain ⟨sound, member⟩ := recorded.sound.erase erased
    have left := fun node inside => ((member node).mp inside).1
    refine Recorded.setSock (w := { w.log _ with clientStore := _ }) ⟨sound,
      fun node inside => recorded.below node (left node inside),
      fun node inside other inside' => recorded.addrs node (left node inside) other
        (left other inside'), recorded.unnamed,
      fun node inside => recorded.attached node (left node inside)⟩ ?_ fun _ => rfl
    intro node inside at_sock
    obtain ⟨old, other⟩ := (member node).mp inside
    exact other (recorded.attached node old sock at_sock).2.symm
  | @detach sock addr client held at_client unclean =>
    have detached : Recorded (w.setClient addr ({ · with sock := none })) none := by
      refine recorded.setClient (fun _ => rfl) fun node inside s at_sock => ?_
      by_cases here : node.data.addr = addr
      · rw [written_here here] at at_sock
        cases at_sock
      · rw [written_other here] at at_sock
        exact recorded.attached node inside s at_sock
    refine (detached.log (.ended sock (w.socks sock).clientid client)).setSock ?_ fun _ => rfl
    intro node inside at_sock
    have inside : node ∈ (w.setClient addr ({ · with sock := none })).clientStore.nodes := inside
    rw [nodes_setClient] at inside
    obtain ⟨node, old, rfl⟩ := List.mem_map.mp inside
    by_cases here : node.data.addr = addr
    · rw [written_here here] at at_sock
      cases at_sock
    · rw [written_other here] at at_sock
      have there := (recorded.attached node old sock at_sock).1
      exact here (Option.some.inj (there.symm.trans held))

namespace Attached

theorem frame (kept : SessionsKept w w') (attached : Attached w masked) : Attached w' masked := by
  intro sock addr held
  rw [kept.client] at held
  rw [kept.clients, kept.clientid]
  exact attached sock addr held

theorem log (attached : Attached w masked) (e : Event) : Attached (w.log e) masked := attached

/-- A socket that is attached to no client then is rewritten. -/
theorem setSock (attached : Attached w masked) (free : (g (w.socks sock)).client = none) :
    Attached (w.setSock sock g) masked := by
  intro other addr held
  by_cases here : other = sock
  · subst here
    rw [setSock_socks, free] at held
    cases held
  · rw [setSock_other _ _ here] at held ⊢
    exact attached other addr held

/-- A client is written and stays attached to what it was. -/
theorem rewrite (attached : Attached w masked) (keeps : ∀ client, (f client).addr = client.addr)
    (same : ∀ node ∈ w.clientStore.nodes,
      (written addr f node).data.attachedTo masked' = node.data.attachedTo masked) :
    Attached (w.setClient addr f) masked' := by
  intro sock addr' held
  obtain ⟨node, member, key, at_addr, at_sock⟩ := attached sock addr' held
  refine ⟨written addr f node, ?_, ?_, ?_, (same node member).trans at_sock⟩
  · rw [nodes_setClient]
    exact List.mem_map_of_mem member
  · rw [written_key]
    exact key
  · rw [written_addr keeps]
    exact at_addr

/-- The socket of a node that goes is reset, so the other sockets are attached
to nodes that stay. -/
theorem others (attached : Attached w none) (recorded : Recorded w none) {addr : Nat}
    (held : (w.socks sock).client = some addr) {other : Fin 64} (different : other ≠ sock)
    {addr' : Nat} (held' : (w.socks other).client = some addr') :
    ∃ node ∈ w.clientStore.nodes, node.key = (w.socks other).clientid ∧ node.data.addr = addr' ∧
      node.data.sock = some other ∧ node.key ≠ (w.socks sock).clientid ∧ node.data.addr ≠ addr := by
  obtain ⟨gone, inside, gone_key, gone_addr, gone_sock⟩ := attached sock addr held
  obtain ⟨node, member, key, at_addr, at_sock⟩ := attached other addr' held'
  have apart : node ≠ gone := by
    rintro rfl
    exact different (Option.some.inj (at_sock.symm.trans gone_sock))
  refine ⟨node, member, key, at_addr, at_sock, fun same => apart ?_, fun same => apart ?_⟩
  · exact recorded.sound.eq_of_key member inside (same.trans gone_key.symm)
  · exact recorded.addrs node member gone inside (same.trans gone_addr.symm)

theorem acceptNew (attached : Attached w none) (recorded : Recorded w none)
    {heap before after : Heap} {store : Myhashmap Client}
    (absent : w.clientStore.get (w.socks sock).clientid = .ok none)
    (added : w.clientStore.add (w.socks sock).clientid (Client.new w.nextAddr heap).1 before =
      .ok (true, store, after))
    (found : store.get (w.socks sock).clientid = .ok (some client)) :
    Attached ((({ w with clientStore := store, nextAddr := w.nextAddr + 1 }.setSock sock
      ({ · with client := some client.addr })).setClient client.addr ({ · with sock := some sock })))
      none := by
  obtain ⟨new, -, member⟩ := acceptNew_store recorded.sound absent added found
  have at_addr : client.addr = w.nextAddr := by rw [new]; rfl
  intro other addr held
  rw [nodes_setClient]
  by_cases here : other = sock
  · subst here
    simp only [setClient_socks, setSock_socks] at held ⊢
    have here : (⟨(w.socks other).clientid, client⟩ : Node Client).data.addr = client.addr := rfl
    refine ⟨_, List.mem_map_of_mem ((member _).mpr (.inl rfl)), written_key, ?_, ?_⟩
    · rw [written_here here]
      exact Option.some.inj held
    · rw [written_here here]
      rfl
  · simp only [setClient_socks, setSock_other _ _ here] at held ⊢
    obtain ⟨node, old, key, same, at_sock⟩ := attached other addr held
    have older : node.data.addr ≠ client.addr := by
      rw [at_addr]
      exact (recorded.below node old).ne
    refine ⟨node, List.mem_map.mpr ⟨node, ?_, written_other older⟩, key, same, at_sock⟩
    exact (member node).mpr (.inr old)

theorem kept (act : SessionAct w masked w' masked') (meets : ∀ e ∈ w'.trace, e.FirstConnect)
    (recorded : Recorded w masked) (attached : Attached w masked) : Attached w' masked' := by
  cases act with
  | phase => exact attached.frame (.setSock .refl fun _ => ⟨rfl, rfl⟩)
  | name sock clientid unnamed => exact attached.setSock (recorded.unnamed sock unnamed)
  | @connecting sock clientid clean prev unnamed named stored =>
    have first := meets (.connecting sock clientid clean prev) List.mem_cons_self
    cases prev with
    | none => exact (attached.log _).setSock rfl
    | some => exact absurd first not_false
  | burn => exact attached
  | acceptNew sock clean carried will named absent added found =>
    refine Attached.log (Attached.rewrite (attached.acceptNew recorded absent added found) ?_ ?_) _
    · exact fun _ => rfl
    · exact fun _ _ => attachedTo_written fun _ => ⟨rfl, rfl⟩
  | evict sock prevSock connecting => exact absurd (meets _ (List.mem_cons_of_mem _ connecting)) not_false
  | acceptStored sock clean carried will connecting =>
    exact absurd (meets _ (List.mem_cons_of_mem _ connecting)) not_false
  | resubscribe =>
    refine Attached.log (attached.rewrite ?_ ?_) _
    · exact fun _ => rfl
    · exact fun _ _ => attachedTo_written fun _ => ⟨rfl, rfl⟩
  | touch => exact attached.rewrite (fun _ => rfl) fun _ _ => attachedTo_written fun _ => ⟨rfl, rfl⟩
  | disconnect =>
    refine (attached.log _).rewrite (fun _ => rfl) fun _ _ => ?_
    exact attachedTo_written fun _ => ⟨rfl, rfl⟩
  | hide sock held at_client =>
    exact attached.rewrite (fun _ => rfl) fun _ member => attachedTo_hidden recorded at_client member
  | unhide => exact attached.rewrite (fun _ => rfl) fun _ _ => attachedTo_shown
  | vanish sock free => exact attached.setSock rfl
  | @erase sock addr client store held at_client clean erased =>
    obtain ⟨-, member⟩ := recorded.sound.erase erased
    intro other addr' held'
    by_cases here : other = sock
    · subst here
      simp only [reset, setSock_socks] at held'
      cases held'
    · rw [reset_other here] at held' ⊢
      obtain ⟨node, inside, key, at_addr, at_sock, stays, -⟩ :=
        attached.others recorded held here held'
      exact ⟨node, (member node).mpr ⟨inside, stays⟩, key, at_addr, at_sock⟩
  | @detach sock addr client held at_client unclean =>
    intro other addr' held'
    by_cases here : other = sock
    · subst here
      simp only [reset, setSock_socks] at held'
      cases held'
    · rw [reset_other here] at held' ⊢
      obtain ⟨node, inside, key, at_addr, at_sock, -, stays⟩ :=
        attached.others recorded held here held'
      have still : node ∈ (w.setClient addr ({ · with sock := none })).clientStore.nodes := by
        rw [nodes_setClient]
        exact List.mem_map.mpr ⟨node, inside, written_other stays⟩
      exact ⟨node, still, key, at_addr, at_sock⟩

end Attached
/-- Initially there is no client and no socket is attached. -/
theorem recorded_initial (boot : Boot) : Recorded (initial boot) none := by
  have none_stored : (initial boot).clientStore.nodes = [] := Myhashmap.nodes_ofCapacity 10
  refine ⟨Myhashmap.sound_ofCapacity (by decide), ?_, ?_, fun _ _ => rfl, ?_⟩ <;>
  · rw [none_stored]
    exact nofun

theorem attached_initial (boot : Boot) : Attached (initial boot) none := by
  intro sock addr held
  cases held

/-! ### Takeovers -/

/-- What a step with sessions writes to the trace. -/
theorem session_event (act : SessionAct w masked w' masked') :
    w'.trace = w.trace ∨ ∃ e, w'.trace = e :: w.trace ∧ (e.NoTakeover ∨
      ∃ sock prevSock clientid clean client,
        e = .evicting prevSock (w.socks prevSock) clientid client ∧
        .connecting sock clientid clean (some client) ∈ w.trace ∧
        w.clientStore.get clientid = .ok (some client) ∧ client.sock = some prevSock ∧
        masked = none) := by
  cases act with
  | phase | name | burn | touch | hide | unhide | vanish => exact .inl rfl
  | connecting | acceptNew | acceptStored | resubscribe | disconnect | erase | detach =>
    exact .inr ⟨_, rfl, .inl trivial⟩
  | evict sock prevSock connecting stored recorded =>
    exact .inr ⟨_, rfl, .inr ⟨sock, prevSock, _, _, _, rfl, connecting, stored, recorded, rfl⟩⟩

theorem noTakeover_other {e : Event} (other : ¬ e.OfSession) : e.NoTakeover := by
  cases e with
  | evicting => exact other trivial
  | _ => trivial

theorem closesOwn_of_noTakeover {e : Event} (none : e.NoTakeover) : e.ClosesOwn := by
  cases e with
  | evicting => exact absurd none not_false
  | _ => trivial

/-- Without a reconnect there is no takeover. -/
theorem noTakeover_kept (act : SessionAct w masked w' masked')
    (meets : ∀ e ∈ w'.trace, e.FirstConnect) (held : ∀ e ∈ w.trace, e.NoTakeover) :
    ∀ e ∈ w'.trace, e.NoTakeover := by
  rcases session_event act with same | ⟨e, grown, none | ⟨_, _, _, _, _, -, connecting, -⟩⟩
  · rwa [same]
  · rw [grown]
    exact List.forall_mem_cons.mpr ⟨none, held⟩
  · rw [grown] at meets
    exact absurd (meets _ (List.mem_cons_of_mem _ connecting)) not_false

/-- The first takeover in a trace closes the socket of its client id. -/
def FirstClosesOwn (trace : List Event) : Prop :=
  ∀ e older, e :: older <:+ trace → (∀ x ∈ older, x.NoTakeover) → e.ClosesOwn

theorem firstClosesOwn_cons {trace : List Event} {e : Event} (held : FirstClosesOwn trace)
    (new : (∀ x ∈ trace, x.NoTakeover) → e.ClosesOwn) : FirstClosesOwn (e :: trace) := by
  intro x older suffix none
  rcases List.suffix_cons_iff.mp suffix with same | earlier
  · cases same
    exact new none
  · exact held x older earlier none

theorem firstClosesOwn_append {trace events : List Event} (held : FirstClosesOwn trace)
    (others : ∀ e ∈ events, ¬ e.OfSession) : FirstClosesOwn (events ++ trace) := by
  induction events with
  | nil => exact held
  | cons e rest ih =>
    have later := List.forall_mem_cons.mp others
    exact firstClosesOwn_cons (ih later.2) fun _ =>
      closesOwn_of_noTakeover (noTakeover_other later.1)

/-- The invariant that carries the takeovers. -/
def TakesOwn (w : World) (masked : Masked) : Prop :=
  ((∀ e ∈ w.trace, e.NoTakeover) → Recorded w masked) ∧ FirstClosesOwn w.trace

theorem takesOwn_frame (kept : SessionsKept w w') (held : TakesOwn w masked) :
    TakesOwn w' masked := by
  obtain ⟨events, grown, others⟩ := kept.trace
  refine ⟨fun none => (held.1 (meets_before ⟨events, grown⟩ none)).frame kept, ?_⟩
  rw [grown]
  exact firstClosesOwn_append held.2 others

theorem takesOwn_kept (act : SessionAct w masked w' masked') (held : TakesOwn w masked) :
    TakesOwn w' masked' := by
  refine ⟨fun none => Recorded.kept act none (held.1 (meets_before (sessionAct_trace act) none)), ?_⟩
  rcases session_event act with same | ⟨e, grown, none | ⟨_, prevSock, _, _, client, rfl, _, stored,
    at_sock, rfl⟩⟩
  · rw [same]
    exact held.2
  · rw [grown]
    exact firstClosesOwn_cons held.2 fun _ => closesOwn_of_noTakeover none
  · rw [grown]
    refine firstClosesOwn_cons held.2 fun none => ?_
    have recorded := held.1 none
    exact recorded.attached _ (recorded.sound.get_some.mp stored) prevSock at_sock

/-- In a run in which no stored client connects again the two tables agree; and
the first takeover of any run closes the socket of its client id. -/
theorem sockets_paired (reachable : Reachable w) :
    ((∀ e ∈ w.trace, e.FirstConnect) → Paired w) ∧ FirstClosesOwn w.trace := by
  constructor
  · intro meets
    have held := reachable.sessions Event.FirstConnect
      (fun w masked => (∀ e ∈ w.trace, e.NoTakeover) ∧ Recorded w masked ∧ Attached w masked)
      (fun boot => ⟨List.forall_mem_nil _, recorded_initial boot, attached_initial boot⟩)
      (fun kept held => by
        obtain ⟨events, grown, others⟩ := kept.trace
        refine ⟨fun e member => ?_, held.2.1.frame kept, held.2.2.frame kept⟩
        rw [grown] at member
        exact (List.mem_append.mp member).elim (fun new => noTakeover_other (others e new))
          (held.1 e))
      (fun act meets held => by
        have none := noTakeover_kept act meets held.1
        exact ⟨none, Recorded.kept act none held.2.1, Attached.kept act meets held.2.1 held.2.2⟩)
      meets
    exact paired_of held.2.1 held.2.2
  · have held := reachable.sessions (fun _ => True) TakesOwn
      (fun boot => ⟨fun _ => recorded_initial boot, fun _ _ suffix => by
        have nothing := suffix.length_le
        simp [initial] at nothing⟩)
      takesOwn_frame (fun act _ => takesOwn_kept act) fun _ _ => trivial
    exact held.2

instance : DecidablePred Event.FirstConnect := fun e => by
  unfold Event.FirstConnect
  split <;> infer_instance

/-- Two clients connect and the connection of one ends. -/
def connectedOnce : List (Message × Env) :=
  [accepting 1, reading 1 (connectPacket [97] 0), accepting 2, reading 2 (connectPacket [98] 2),
    reading 1 none]

theorem connected_once_paired : ∃ w, (initial .clean).run connectedOnce = .ok w ∧
    Paired w ∧ FirstClosesOwn w.trace := by
  obtain ⟨w, ran, reachable, meets⟩ := reached_run .clean connectedOnce
    (fun w => w.trace.all fun e => decide e.FirstConnect) (by decide +kernel)
  have paired := sockets_paired reachable
  exact ⟨w, ran, paired.1 (by simpa using meets), paired.2⟩

/-- A client whose session was kept connects again. -/
def connectedAgain : List (Message × Env) :=
  [accepting 1, reading 1 (connectPacket [97] 0), reading 1 none, accepting 1,
    reading 1 (connectPacket [97] 0)]

/-- The socket is attached to a client that is recorded as offline. -/
theorem reconnect_not_recorded : ∃ w, (initial .clean).run connectedAgain = .ok w ∧
    Reachable w ∧ ¬ Paired w := by
  obtain ⟨w, ran, reachable, seen⟩ := reached_run .clean
    connectedAgain (fun w => (w.socks 1).client == some 0 &&
      (w.clientStore.get (w.socks 1).clientid).toOption.join.any fun client => client.sock == none)
    (by decide +kernel)
  refine ⟨w, ran, reachable, fun paired => ?_⟩
  rw [Bool.and_eq_true, beq_iff_eq] at seen
  obtain ⟨client, stored, -, at_sock⟩ := (paired.1 1 0).mp seen.1
  rw [stored] at seen
  have offline : (client.sock == none) = true := seen.2
  simp [at_sock] at offline

end MqttBroker
