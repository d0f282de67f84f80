import MqttBroker.Worker.Stored

/-! The fan-out of a message by `publish_by_topic`: which items are due, and
when exactly those are made and counted. -/
namespace MqttBroker.FanOut
open Logic Worker World PublishHashmap PublishHashmapReachability

/-- What `publish_by_topic` is called with. -/
structure Publication where
  topic : List UInt8
  frame : List UInt8
  qos : UInt8
  packetId : UInt16
  publisher : Option Publisher

/-- A client that is connected or has a persistent session. -/
def Attached (client : Client) : Prop := client.sock ≠ none ∨ ¬ client.cleanSession

/-- A client that a message of the topic is for. -/
def Recipient (topic : Key) (client : Client) : Prop :=
  Attached client ∧ ∃ granted, client.isSubscribed topic = .ok granted ∧ granted ≠ emptyQos

/-- An item that is due. -/
structure Delivery where
  clientid : Key
  target : Fin 64
  qos : UInt8

/-- The items due: one for each connected recipient whose write request the
queue takes. A recipient takes two answers of the queue, and one more if the
request is refused. -/
def deliveries (topic : Key) (qos : UInt8) : List (Node Client) → List Bool → List Delivery
  | [], _ => []
  | ⟨clientid, client⟩ :: rest, sends =>
    match client.sock, client.isSubscribed topic with
    | some target, .ok granted =>
      if granted = emptyQos then deliveries topic qos rest sends
      else if sends.tail.headD true then
        ⟨clientid, target, min granted qos⟩ :: deliveries topic qos rest sends.tail.tail
      else deliveries topic qos rest sends.tail.tail.tail
    | _, _ => deliveries topic qos rest sends

/-- The item of a delivery, on the connection its socket has. -/
def Delivery.item (p : Publication) (conns : Fin 64 → Nat) (stamp : Nat) (d : Delivery) :
    PackidStateItem :=
  ⟨p.packetId, .sendpublish, d.qos, true,
    ⟨conns d.target, p.frame, p.topic, some d.clientid, p.publisher, stamp⟩⟩

/-! ### Items on a vector -/

/-- `add_packet_id` on the vector of a socket. -/
def queueItem (v : Myvector PackidStateItem) (item : PackidStateItem) (heap : Heap) :
    Myvector PackidStateItem × Heap :=
  match v.elems.findIdx? (·.packetId = 0) with
  | some i => ({ v with elems := v.elems.modify i fun _ => item }, heap)
  | none => v.pushBack item heap

/-- The items that are in use. -/
def inUse (v : Myvector PackidStateItem) : List PackidStateItem := v.elems.filter (·.packetId ≠ 0)

/-- The item can be told from a free slot, and there is one or memory for one. -/
def Fits (v : Myvector PackidStateItem) (item : PackidStateItem) (heap : Heap) : Prop :=
  item.packetId ≠ 0 ∧ ((∃ old ∈ v.elems, old.packetId = 0) ∨ v.size < v.capacity ∨ heap.alloc.1)

instance (v : Myvector PackidStateItem) (item : PackidStateItem) (heap : Heap) :
    Decidable (Fits v item heap) := inferInstanceAs (Decidable (_ ∧ _))

variable {v : Myvector PackidStateItem} {item : PackidStateItem} {heap : Heap}

theorem filter_modify_free {l : List PackidStateItem} {i : Nat} {old : PackidStateItem}
    (at_i : l[i]? = some old) (free : old.packetId = 0) (used : item.packetId ≠ 0) :
    ((l.modify i fun _ => item).filter (·.packetId ≠ 0)).Perm (item :: l.filter (·.packetId ≠ 0)) := by
  obtain ⟨inside, rfl⟩ := List.getElem?_eq_some_iff.mp at_i
  have split := List.take_append_drop i l
  rw [List.drop_eq_getElem_cons inside] at split
  rw [List.modify_eq_take_cons_drop inside]
  conv => rhs; rw [← split]
  simp only [List.filter_append, List.filter_cons, used, free, ne_eq, not_false_eq_true, decide_true,
    not_true_eq_false, decide_false, if_true, Bool.false_eq_true, if_false]
  exact List.perm_middle

/-- An item that fits is put among those in use. -/
theorem queue_fits (fits : Fits v item heap) :
    (inUse (queueItem v item heap).1).Perm (item :: inUse v) := by
  obtain ⟨used, room⟩ := fits
  unfold queueItem
  split
  · rename_i i found
    obtain ⟨inside, free, -⟩ := List.findIdx?_eq_some_iff_getElem.mp found
    exact filter_modify_free (List.getElem?_eq_getElem inside) (of_decide_eq_true free) used
  · rename_i none_free
    have none_free := List.findIdx?_eq_none_iff.mp none_free
    have pushed : (v.pushBack item heap).1.elems = v.elems ++ [item] := by
      unfold Myvector.pushBack
      rcases room with ⟨old, member, free⟩ | room | room
      · have not_free := none_free old member
        simp [free] at not_free
      · rw [if_neg (by omega)]
      · rw [if_pos room]
        split <;> rfl
    have last : [item].filter (·.packetId ≠ 0) = [item] := by simp [used]
    rw [inUse, pushed, List.filter_append, last]
    exact List.perm_append_comm

/-- One that does not fit adds nothing to them. -/
theorem queue_lost (lost : ¬ Fits v item heap) :
    (inUse (queueItem v item heap).1).length ≤ (inUse v).length := by
  unfold queueItem
  split
  · rename_i i found
    obtain ⟨inside, free, -⟩ := List.findIdx?_eq_some_iff_getElem.mp found
    have unused : item.packetId = 0 := by
      by_contra used
      exact lost ⟨used, .inl ⟨_, List.getElem_mem inside, of_decide_eq_true free⟩⟩
    have split := List.take_append_drop i v.elems
    rw [List.drop_eq_getElem_cons inside] at split
    rw [inUse, List.modify_eq_take_cons_drop inside, inUse]
    conv => rhs; rw [← split]
    simp only [List.filter_append, List.filter_cons, unused, ne_eq, not_true_eq_false, decide_false,
      Bool.false_eq_true, if_false, List.length_append]
    split <;> simp
  · rename_i none_free
    unfold Myvector.pushBack inUse
    by_cases used : item.packetId = 0
    · split
      · split <;> simp [List.filter_append, used]
      · simp [List.filter_append, used]
    · have full : ¬ v.size < v.capacity := fun room => lost ⟨used, .inr (.inl room)⟩
      have memory : ¬ heap.alloc.1 = true := fun room => lost ⟨used, .inr (.inr room)⟩
      rw [if_pos (by omega), if_neg memory]

/-- The items come to the vectors of their sockets one after another. -/
def queueItems (vs : Fin 64 → Myvector PackidStateItem) (heap : Heap) :
    List (Fin 64 × PackidStateItem) → (Fin 64 → Myvector PackidStateItem) × Heap
  | [] => (vs, heap)
  | (sock, item) :: rest =>
    let queued := queueItem (vs sock) item heap
    queueItems (Function.update vs sock queued.1) queued.2 rest

/-- Each of them fits when it comes. -/
def AllFit (vs : Fin 64 → Myvector PackidStateItem) (heap : Heap) :
    List (Fin 64 × PackidStateItem) → Prop
  | [] => True
  | (sock, item) :: rest =>
    let queued := queueItem (vs sock) item heap
    Fits (vs sock) item heap ∧ AllFit (Function.update vs sock queued.1) queued.2 rest

instance decidableAllFit (vs : Fin 64 → Myvector PackidStateItem) (heap : Heap) :
    (items : List (Fin 64 × PackidStateItem)) → Decidable (AllFit vs heap items)
  | [] => .isTrue trivial
  | (sock, item) :: rest =>
    let queued := queueItem (vs sock) item heap
    @instDecidableAnd _ _ (inferInstanceAs (Decidable (Fits (vs sock) item heap)))
      (decidableAllFit (Function.update vs sock queued.1) queued.2 rest)

/-- The items for one socket. -/
def itemsFor (sock : Fin 64) (items : List (Fin 64 × PackidStateItem)) : List PackidStateItem :=
  (items.filter (·.1 = sock)).map Prod.snd

variable {vs : Fin 64 → Myvector PackidStateItem} {items : List (Fin 64 × PackidStateItem)} {sock : Fin 64}

theorem itemsFor_cons (entry : Fin 64 × PackidStateItem) :
    itemsFor sock (entry :: items) =
      if entry.1 = sock then entry.2 :: itemsFor sock items else itemsFor sock items := by
  unfold itemsFor
  rw [List.filter_cons]
  by_cases here : entry.1 = sock <;> simp [here]

theorem queueItems_fit (fit : AllFit vs heap items) (sock : Fin 64) :
    (inUse ((queueItems vs heap items).1 sock)).Perm (itemsFor sock items ++ inUse (vs sock)) := by
  induction items generalizing vs heap with
  | nil => exact .refl _
  | cons entry rest ih =>
    obtain ⟨target, item⟩ := entry
    obtain ⟨fits, fit⟩ := fit
    refine (ih fit).trans ?_
    rw [itemsFor_cons]
    by_cases here : target = sock
    · subst here
      rw [if_pos rfl, Function.update_self]
      exact ((queue_fits fits).append_left _).trans List.perm_middle
    · rw [if_neg here, Function.update_of_ne (Ne.symm here)]

/-- At most these items are added. -/
theorem queueItems_le (vs : Fin 64 → Myvector PackidStateItem) (heap : Heap)
    (items : List (Fin 64 × PackidStateItem)) (sock : Fin 64) :
    (inUse ((queueItems vs heap items).1 sock)).length ≤
      (itemsFor sock items).length + (inUse (vs sock)).length := by
  induction items generalizing vs heap with
  | nil => simp [queueItems, itemsFor]
  | cons entry rest ih =>
    obtain ⟨target, item⟩ := entry
    refine (ih _ _).trans ?_
    rw [itemsFor_cons]
    by_cases here : target = sock
    · subst here
      rw [if_pos rfl, Function.update_self, List.length_cons]
      by_cases fits : Fits (vs target) item heap
      · have more := (queue_fits fits).length_eq
        rw [List.length_cons] at more
        omega
      · have less := queue_lost fits
        omega
    · rw [if_neg here, Function.update_of_ne (Ne.symm here)]

/-- If one does not fit, its socket has one too few. -/
theorem queueItems_lost (lost : ¬ AllFit vs heap items) : ∃ sock,
    (inUse ((queueItems vs heap items).1 sock)).length <
      (itemsFor sock items).length + (inUse (vs sock)).length := by
  induction items generalizing vs heap with
  | nil => exact absurd trivial lost
  | cons entry rest ih =>
    obtain ⟨target, item⟩ := entry
    by_cases fits : Fits (vs target) item heap
    · obtain ⟨sock, fewer⟩ := ih fun fit => lost ⟨fits, fit⟩
      refine ⟨sock, fewer.trans_le ?_⟩
      rw [itemsFor_cons]
      by_cases here : target = sock
      · subst here
        have more := (queue_fits fits).length_eq
        rw [List.length_cons] at more
        rw [if_pos rfl, Function.update_self, List.length_cons]
        omega
      · rw [if_neg here, Function.update_of_ne (Ne.symm here)]
    · refine ⟨target, (queueItems_le _ _ rest target).trans_lt ?_⟩
      have less := queue_lost fits
      rw [itemsFor_cons, if_pos rfl, Function.update_self, List.length_cons]
      omega

/-- All fit exactly if each socket gets its items. -/
theorem allFit_iff : AllFit vs heap items ↔ ∀ sock,
    (inUse ((queueItems vs heap items).1 sock)).Perm (itemsFor sock items ++ inUse (vs sock)) := by
  constructor
  · exact queueItems_fit
  · intro placed
    by_contra lost
    obtain ⟨sock, fewer⟩ := queueItems_lost lost
    have same := (placed sock).length_eq
    rw [List.length_append] at same
    omega

/-! ### The loop over the clients -/

/-- The vectors of the sockets. -/
def vectors (w : World) (sock : Fin 64) : Myvector PackidStateItem := (w.socks sock).packidState

/-- The numbers of the connections of the sockets. -/
def conns (w : World) (sock : Fin 64) : Nat := (w.socks sock).tls

/-- The table with the count at an index raised. -/
def raised (store : PublishHashmap) (j : Nat) (n : UInt8) : PublishHashmap :=
  let node := PublishHashmap.slotAt store.slots j
  { store with slots := store.slots.set j { node with count := node.count + n } }

/-- What the loop does once it has made some items. -/
structure Queued (w : World) (j : Nat) (items : List (Fin 64 × PackidStateItem)) (w' : World) : Prop where
  vectors : vectors w' = (queueItems (vectors w) w.env.heap items).1
  heap : w'.env.heap = (queueItems (FanOut.vectors w) w.env.heap items).2
  conns : conns w' = conns w
  store : w'.publishMsgStore = raised w.publishMsgStore j (UInt8.ofNat items.length)

variable {w w' w₁ : World} {j : Nat} {target : Fin 64}

theorem raised_zero (store : PublishHashmap) : raised store j 0 = store := by
  simp only [raised, UInt8.add_zero, PublishHashmap.slotAt]
  by_cases inside : j < store.slots.length
  · rw [List.getD_eq_getElem?_getD, List.getElem?_eq_getElem inside, Option.getD_some,
      List.set_getElem_self]
  · rw [List.set_eq_of_length_le (by omega)]

theorem raised_raised (store : PublishHashmap) (m n : UInt8) :
    raised (raised store j m) j n = raised store j (m + n) := by
  by_cases inside : j < store.slots.length
  · simp only [raised, PublishHashmap.slotAt, List.set_set, List.getD_eq_getElem?_getD]
    rw [List.getElem?_set_self inside]
    simp only [Option.getD_some, UInt8.add_assoc]
  · simp only [raised, List.set_eq_of_length_le (Nat.le_of_not_lt inside)]

theorem raised_get (store : PublishHashmap) (n : UInt8) (packetId : UInt16) :
    (raised store j n).get packetId = store.get packetId :=
  PublishHashmap.get_set store j
    { PublishHashmap.slotAt store.slots j with count := (PublishHashmap.slotAt store.slots j).count + n }
    rfl packetId

theorem Queued.refl : Queued w j [] w := ⟨rfl, rfl, rfl, (raised_zero _).symm⟩

/-- What the loop works on is not what a message to the queue changes. -/
theorem Queued.of_same (queued : Queued w₁ j items w') (same : FanOut.vectors w₁ = FanOut.vectors w)
    (heap : w₁.env.heap = w.env.heap) (conns : FanOut.conns w₁ = FanOut.conns w)
    (store : w₁.publishMsgStore = w.publishMsgStore) : Queued w j items w' := by
  obtain ⟨vectors', heap', conns', store'⟩ := queued
  rw [same, heap] at vectors' heap'
  exact ⟨vectors', heap', conns'.trans conns, store'.trans (by rw [store])⟩

/-- `add_packet_id` completes, with the item on the vector of its socket. -/
theorem addPacketId_run (w : World) (sock : Fin 64) (item : PackidStateItem) :
    ∃ w', addPacketId sock item w = .ok ((), w') ∧
      vectors w' = Function.update (vectors w) sock (queueItem (vectors w sock) item w.env.heap).1 ∧
      w'.env = { w.env with heap := (queueItem (vectors w sock) item w.env.heap).2 } ∧
      conns w' = conns w ∧ w'.publishMsgStore = w.publishMsgStore := by
  have packets (w : World) (f : SockCid → SockCid) :
      vectors (w.setSock sock f) = Function.update (vectors w) sock (f (w.socks sock)).packidState := by
    funext s
    by_cases here : s = sock
    · subst here
      rw [Function.update_self, vectors, setSock_socks]
    · rw [Function.update_of_ne here, vectors, setSock_other _ _ here, vectors]
  have numbers (w : World) (f : SockCid → SockCid) (keeps : ∀ sockst, (f sockst).tls = sockst.tls) :
      conns (w.setSock sock f) = conns w := by
    funext s
    by_cases here : s = sock
    · subst here
      rw [conns, setSock_socks, keeps, conns]
    · rw [conns, setSock_other _ _ here, conns]
  have same : (vectors w sock).elems = w.items sock := rfl
  cases found : (w.items sock).findIdx? (·.packetId = 0) with
  | some i =>
    refine ⟨(w.log (.enqueued w.socks sock i item)).setItem sock i fun _ => item, ?_, ?_, ?_, ?_, rfl⟩
    · rw [addPacketId, get_bind_ok, found]
      rfl
    · rw [setItem, packets, queueItem, same, found]
      rfl
    · rw [queueItem, same, found]
      rfl
    · exact numbers _ _ fun _ => rfl
  | none =>
    let grown := (w.socks sock).packidState.pushBack item w.env.heap
    refine ⟨(({ w with env := { w.env with heap := grown.2 } }.log
        (if grown.1.size = (w.items sock).length then .lost item
          else .enqueued w.socks sock (w.items sock).length item)).setSock sock
        ({ · with packidState := grown.1 })), ?_, ?_, ?_, ?_, rfl⟩
    · rw [addPacketId, get_bind_ok, found]
      rfl
    · rw [packets, queueItem, same, found]
      rfl
    · rw [queueItem, same, found]
      rfl
    · exact numbers _ _ fun _ => rfl

/-- An item is made and counted, then others. -/
theorem Queued.cons (w₁ : World) {item : PackidStateItem}
    (placed : FanOut.vectors w₁ =
      Function.update (FanOut.vectors w) target (queueItem (FanOut.vectors w target) item w.env.heap).1)
    (heap : w₁.env.heap = (queueItem (FanOut.vectors w target) item w.env.heap).2)
    (conns : FanOut.conns w₁ = FanOut.conns w) (store : w₁.publishMsgStore = raised w.publishMsgStore j 1)
    (queued : Queued w₁ j items w') : Queued w j ((target, item) :: items) w' := by
  obtain ⟨vectors', heap', conns', store'⟩ := queued
  rw [placed, heap] at vectors' heap'
  refine ⟨vectors', heap', conns'.trans conns, ?_⟩
  rw [store', store, raised_raised, List.length_cons, UInt8.ofNat_add, UInt8.add_comm]
  rfl

/-- The walk through a client's subscriptions completes, and one that is
subscribed has a socket. -/
def Served (topic : Key) (client : Client) : Prop :=
  Attached client → ∃ granted, client.isSubscribed topic = .ok granted ∧
    (granted ≠ emptyQos → client.sock ≠ none)

section Loop
variable {p : Publication} {stamp : Nat} {clientid : Key} {client : Client} {rest : List (Node Client)}
  {granted : UInt8}

theorem fanOut_detached (detached : ¬ Attached client) :
    fanOut p.topic p.frame p.qos p.packetId p.publisher stamp j (⟨clientid, client⟩ :: rest) =
      fanOut p.topic p.frame p.qos p.packetId p.publisher stamp j rest :=
  if_neg detached

theorem fanOut_attached (attached : Attached client) (subscribed : client.isSubscribed p.topic = .ok granted) :
    fanOut p.topic p.frame p.qos p.packetId p.publisher stamp j (⟨clientid, client⟩ :: rest) =
      (if granted = emptyQos then fanOut p.topic p.frame p.qos p.packetId p.publisher stamp j rest
      else
        match client.sock with
        | none => fault .outOfBounds
        | some target => do
          let _ ← sendtoque ⟨target, .delread⟩
          if ← sendtoque ⟨target, .write⟩ then
            let sockst ← sockAt target
            addPacketId target ⟨p.packetId, .sendpublish, if granted > p.qos then p.qos else granted,
              true, ⟨sockst.tls, p.frame, p.topic, some clientid, p.publisher, stamp⟩⟩
            Worker.countUp j
          else
            let _ ← sendtoque ⟨target, .read⟩
          fanOut p.topic p.frame p.qos p.packetId p.publisher stamp j rest) := by
  refine (if_pos attached).trans ?_
  rw [subscribed]
  rfl

/-- The loop completes with the items due. -/
theorem fanOut_run (p : Publication) (stamp : Nat) {nodes : List (Node Client)} (w : World)
    (served : ∀ node ∈ nodes, Served p.topic node.data) :
    ∃ w', fanOut p.topic p.frame p.qos p.packetId p.publisher stamp j nodes w = .ok ((), w') ∧
      Queued w j ((deliveries p.topic p.qos nodes w.env.sends).map fun d =>
        (d.target, d.item p (conns w) stamp)) w' := by
  induction nodes generalizing w with
  | nil => exact ⟨w, rfl, .refl⟩
  | cons node rest ih =>
    obtain ⟨clientid, client⟩ := node
    obtain ⟨here, later⟩ := List.forall_mem_cons.mp served
    unfold deliveries
    by_cases attached : Attached client
    · obtain ⟨granted, subscribed, connected⟩ := here attached
      rw [fanOut_attached attached subscribed, subscribed]
      by_cases none_granted : granted = emptyQos
      · obtain ⟨w', ran, queued⟩ := ih w later
        refine ⟨w', by rw [if_pos none_granted]; exact ran, ?_⟩
        cases client.sock <;> simpa only [none_granted, if_true] using queued
      · obtain ⟨target, at_sock⟩ := Option.ne_none_iff_exists'.mp (connected none_granted)
        rw [if_neg none_granted, at_sock]
        simp only [none_granted, if_false]
        let w₂ : World := { w with
          env := { w.env with sends := w.env.sends.tail.tail }
          trace := .queued ⟨target, .write⟩ (w.env.sends.tail.headD true) ::
            .queued ⟨target, .delread⟩ (w.env.sends.headD true) :: w.trace }
        cases answer : w.env.sends.tail.headD true with
        | true =>
          let d : Delivery := ⟨clientid, target, min granted p.qos⟩
          obtain ⟨w₃, added, placed, env, same, store⟩ :=
            addPacketId_run w₂ target (d.item p (conns w) stamp)
          obtain ⟨w', ran, queued⟩ := ih (w₃.countUp j) later
          refine ⟨w', bind_ok.mpr ⟨_, _, rfl, bind_ok.mpr ⟨_, w₂, rfl, ?_⟩⟩, ?_⟩
          · change (if w.env.sends.tail.headD true = true then _ else _ : Worker Unit) w₂ = _
            rw [answer, if_pos rfl, sockAt_bind_ok, lesser]
            exact bind_ok.mpr ⟨⟨⟩, w₃, added, bind_ok.mpr ⟨⟨⟩, w₃.countUp j, countUp_ok.mpr rfl, ran⟩⟩
          · have sends : (w₃.countUp j).env.sends = w.env.sends.tail.tail := congrArg Env.sends env
            have conns_eq : conns (w₃.countUp j) = conns w := same
            rw [sends, conns_eq] at queued
            refine .cons (w₃.countUp j) placed (congrArg Env.heap env) same ?_ queued
            exact congrArg (raised · j 1) store
        | false =>
          let w₃ : World := { w₂ with
            env := { w₂.env with sends := w₂.env.sends.tail }
            trace := .queued ⟨target, .read⟩ (w₂.env.sends.headD true) :: w₂.trace }
          obtain ⟨w', ran, queued⟩ := ih w₃ later
          refine ⟨w', bind_ok.mpr ⟨_, _, rfl, bind_ok.mpr ⟨_, w₂, rfl, ?_⟩⟩, ?_⟩
          · change (if w.env.sends.tail.headD true = true then _ else _ : Worker Unit) w₂ = _
            rw [answer, if_neg Bool.false_ne_true]
            exact bind_ok.mpr ⟨w₂.env.sends.headD true, w₃, rfl, ran⟩
          · exact queued.of_same rfl rfl rfl rfl
    · rw [fanOut_detached attached]
      obtain ⟨w', ran, queued⟩ := ih w later
      refine ⟨w', ran, ?_⟩
      have offline : client.sock = none := by
        by_contra connected
        exact attached (.inl connected)
      simpa only [offline] using queued

/-- A loop that completes has served every client. -/
theorem fanOut_served {nodes : List (Node Client)} {u : Unit}
    (ran : fanOut p.topic p.frame p.qos p.packetId p.publisher stamp j nodes w = .ok (u, w')) :
    ∀ node ∈ nodes, Served p.topic node.data := by
  induction nodes generalizing w with
  | nil => exact List.forall_mem_nil _
  | cons node rest ih =>
    obtain ⟨clientid, client⟩ := node
    by_cases attached : Attached client
    · unfold fanOut at ran
      rw [if_pos (show client.sock ≠ none ∨ ¬ client.cleanSession from attached)] at ran
      obtain ⟨granted, subscribed, ran⟩ := check_bind_ok ran
      split at ran
      · rename_i none_granted
        exact List.forall_mem_cons.mpr
          ⟨fun _ => ⟨granted, subscribed, fun some_granted => absurd none_granted some_granted⟩, ih ran⟩
      · cases at_sock : client.sock with
        | none =>
          simp only [at_sock] at ran
          exact absurd ran fault_ok
        | some target =>
          simp only [at_sock] at ran
          obtain ⟨_, w₁, -, ran⟩ := bind_ok.mp ran
          obtain ⟨_, w₂, -, ran⟩ := bind_ok.mp ran
          have here : Served p.topic client := fun _ => ⟨granted, subscribed, by simp [at_sock]⟩
          refine List.forall_mem_cons.mpr ⟨here, ?_⟩
          split at ran
          · rw [sockAt_bind_ok] at ran
            obtain ⟨_, w₃, -, ran⟩ := bind_ok.mp ran
            obtain ⟨_, w₄, -, ran⟩ := bind_ok.mp ran
            exact ih ran
          · obtain ⟨_, w₃, -, ran⟩ := bind_ok.mp ran
            exact ih ran
    · rw [fanOut_detached attached] at ran
      exact List.forall_mem_cons.mpr ⟨fun holds => absurd holds attached, ih ran⟩

end Loop

/-! ### The whole call -/

/-- The table with the message, and the allocator's answers left over. -/
def added (w : World) (p : Publication) : Bool × PublishHashmap × Heap :=
  w.publishMsgStore.add p.packetId p.frame p.qos 1 w.env.heap

/-- The items due for a message. -/
def due (w : World) (p : Publication) : List Delivery :=
  deliveries p.topic p.qos w.clientStore.nodes w.env.sends

def dueItems (w : World) (p : Publication) : List (Fin 64 × PackidStateItem) :=
  (due w p).map fun d => (d.target, d.item p (conns w) (w.trace.length + 1))

/-- The slot that `add` writes the message to. -/
def slot (w : World) (p : Publication) : Nat :=
  freeSlot w.publishMsgStore.grown.powerOfCap w.publishMsgStore.grown.slots p.packetId

/-- The node of a message with some count; one that is counted for nothing is
erased. -/
def Publication.node (p : Publication) (count : UInt8) : NodePubmap :=
  if count = 0 then {} else ⟨count, p.qos, p.packetId, p.frame⟩

/-- The table is as the add has left it but for the node of the message, which
counts the items due. It is the node that a lookup of the id finds. A message
that the table has not taken is due to nobody. -/
def Counted (w : World) (p : Publication) (m : PublishHashmap) : Prop :=
  if (added w p).1 then
    ∃ count : UInt8, count.toNat = (due w p).length ∧
      m.slots = (added w p).2.1.slots.set (slot w p) (p.node count) ∧
      (count ≠ 0 → m.get p.packetId = some (slot w p))
  else due w p = [] ∧ m = (added w p).2.1

/-- Every recipient is connected, and the call completes, makes the items due
and no others, and leaves the message counted for these. -/
def Exact (w : World) (p : Publication) : Prop :=
  (∀ node ∈ w.clientStore.nodes, Recipient p.topic node.data → node.data.sock ≠ none) ∧
    ∃ w', publishByTopic p.topic p.frame p.qos p.packetId p.publisher w = .ok ((), w') ∧
      (∀ sock, (inUse (vectors w' sock)).Perm
        (itemsFor sock (dueItems w p) ++ inUse (vectors w sock))) ∧
      Counted w p w'.publishMsgStore

/-- No recipient is offline. If the table takes the message, no older one of its
id is in the way, its items fit on their sockets and can be counted. If not,
none are due, and there is no older one to take for it. -/
def Serves (w : World) (p : Publication) : Prop :=
  (∀ node ∈ w.clientStore.nodes, Recipient p.topic node.data → node.data.sock ≠ none) ∧
    if (added w p).1 then
      ¬ Elder w.publishMsgStore p.packetId ∧
        (∀ node ∈ w.clientStore.nodes, Attached node.data → (node.data.isSubscribed p.topic).isOk) ∧
        AllFit (vectors w) (added w p).2.2 (dueItems w p) ∧ (due w p).length ≤ 255
    else due w p = [] ∧ (added w p).2.1.get p.packetId = none

/-- The slots once the count of a node has gone down. -/
theorem countDown_slots {packetId : UInt16} (found : w.publishMsgStore.get packetId = some j) :
    (w.countDown j packetId).publishMsgStore.powerOfCap = w.publishMsgStore.powerOfCap ∧
      (w.countDown j packetId).publishMsgStore.slots = w.publishMsgStore.slots.set j
        (if (w.nodeAt j).count - 1 = 0 then {} else { w.nodeAt j with count := (w.nodeAt j).count - 1 }) := by
  have lowered_get : (w.lowered j).get packetId = some j :=
    (PublishHashmap.get_set w.publishMsgStore j { w.nodeAt j with count := (w.nodeAt j).count - 1 } rfl
      packetId).trans found
  simp only [World.countDown]
  split
  · rw [PublishHashmap.erase_some lowered_get]
    exact ⟨rfl, List.set_set ..⟩
  · exact ⟨rfl, rfl⟩

theorem count_back (count : UInt8) : 1 + count - 1 = count := by
  rw [UInt8.add_comm, UInt8.add_sub_cancel]

theorem node_ext {p : Publication} {count count' : UInt8} (same : p.node count = p.node count') :
    count = count' := by
  have own (count : UInt8) : (p.node count).count = count := by
    unfold Publication.node
    split
    · exact Eq.symm ‹_›
    · rfl
  rw [← own count, same, own]

/-- The world once the message is given to the table. -/
def entered (w : World) (p : Publication) : World :=
  { (w.log (.distributing p.publisher p.topic p.frame p.qos p.packetId)).log
      (.adding w.socks w.publishMsgStore p.packetId p.frame p.qos (added w p).1) with
    publishMsgStore := (added w p).2.1
    env := { w.env with heap := (added w p).2.2 } }

/-- The world in which the loop over the clients begins. -/
def begun (w : World) (p : Publication) : World :=
  (entered w p).log (.offering p.packetId p.topic w.clientStore.nodes)

/-- The call goes on with what the table has for the packet id. -/
theorem publishByTopic_entered (w : World) (p : Publication) :
    publishByTopic p.topic p.frame p.qos p.packetId p.publisher w =
      (match (added w p).2.1.get p.packetId with
      | none => pure ()
      | some j => do
        Worker.log (.offering p.packetId p.topic w.clientStore.nodes)
        fanOut p.topic p.frame p.qos p.packetId p.publisher (w.trace.length + 1) j w.clientStore.nodes
        Worker.countDown j p.packetId) (entered w p) := by
  have stored : publishByTopic p.topic p.frame p.qos p.packetId p.publisher w =
      (match (entered w p).publishMsgStore.get p.packetId with
      | none => pure ()
      | some j => do
        let w₁ ← get
        Worker.log (.offering p.packetId p.topic w₁.clientStore.nodes)
        fanOut p.topic p.frame p.qos p.packetId p.publisher (w.trace.length + 1) j w₁.clientStore.nodes
        Worker.countDown j p.packetId) (entered w p) := rfl
  have found : (entered w p).publishMsgStore.get p.packetId = (added w p).2.1.get p.packetId := rfl
  rw [stored, found]
  cases (added w p).2.1.get p.packetId <;> rfl

section Outcome
variable {p : Publication}

theorem served_iff {nodes : List (Node Client)} {topic : Key}
    (online : ∀ node ∈ nodes, Recipient topic node.data → node.data.sock ≠ none) :
    (∀ node ∈ nodes, Served topic node.data) ↔
      ∀ node ∈ nodes, Attached node.data → (node.data.isSubscribed topic).isOk := by
  constructor
  · intro served node member attached
    obtain ⟨granted, subscribed, -⟩ := served node member attached
    rw [subscribed]
    rfl
  · intro walked node member attached
    have walks := walked node member attached
    cases subscribed : node.data.isSubscribed topic with
    | error kind =>
      rw [subscribed] at walks
      cases walks
    | ok granted =>
      exact ⟨granted, rfl, fun some_granted => online node member ⟨attached, granted, subscribed, some_granted⟩⟩

/-- A loop that completes has made and counted the items due. -/
theorem fanOut_queued {w₂ : World}
    (ran : fanOut p.topic p.frame p.qos p.packetId p.publisher (w.trace.length + 1) j
      w.clientStore.nodes (begun w p) = .ok ((), w₂)) :
    vectors w₂ = (queueItems (vectors w) (added w p).2.2 (dueItems w p)).1 ∧
      w₂.publishMsgStore = raised (added w p).2.1 j (UInt8.ofNat (due w p).length) := by
  obtain ⟨w₃, ran', queued⟩ := fanOut_run p (w.trace.length + 1) (begun w p) (fanOut_served ran)
  obtain rfl : w₂ = w₃ := congrArg Prod.snd (Except.ok.inj (ran.symm.trans ran'))
  have same : (deliveries p.topic p.qos w.clientStore.nodes (begun w p).env.sends).map
      (fun d => (d.target, d.item p (conns (begun w p)) (w.trace.length + 1))) = dueItems w p := rfl
  rw [same] at queued
  refine ⟨queued.vectors, queued.store.trans ?_⟩
  rw [dueItems, List.length_map]
  rfl

/-- What the call leaves of the table, with the node that it counts on. -/
theorem fanOut_counted {w₂ : World} {n : Nat} (found : (added w p).2.1.get p.packetId = some j)
    (store : w₂.publishMsgStore = raised (added w p).2.1 j (UInt8.ofNat n)) :
    (w₂.countDown j p.packetId).publishMsgStore.powerOfCap = (added w p).2.1.powerOfCap ∧
      (j < (added w p).2.1.slots.length →
        (w₂.countDown j p.packetId).publishMsgStore.slots = (added w p).2.1.slots.set j
          (if (slotAt (added w p).2.1.slots j).count + UInt8.ofNat n - 1 = 0 then {}
          else { slotAt (added w p).2.1.slots j with
            count := (slotAt (added w p).2.1.slots j).count + UInt8.ofNat n - 1 })) := by
  have found : w₂.publishMsgStore.get p.packetId = some j := by rw [store, raised_get, found]
  obtain ⟨power, slots⟩ := countDown_slots found
  rw [store] at power
  refine ⟨power, fun inside => ?_⟩
  have node : w₂.nodeAt j = { slotAt (added w p).2.1.slots j with
      count := (slotAt (added w p).2.1.slots j).count + UInt8.ofNat n } := by
    rw [World.nodeAt, store, raised, slotAt_set inside, if_pos rfl]
  rw [slots, node, store, raised, List.set_set]

/-- The message is in its slot, and a lookup of its id finds that or another. -/
theorem slot_added (findable : Findable w.publishMsgStore) (stored : (added w p).1 = true) :
    slot w p < (added w p).2.1.slots.length ∧
      slotAt (added w p).2.1.slots (slot w p) = ⟨1, p.qos, p.packetId, p.frame⟩ ∧
      ((added w p).2.1.get p.packetId).isSome := by
  have inside : slot w p < w.publishMsgStore.grown.slots.length :=
    findable.grown.shaped.freeSlot_lt p.packetId
  have slots : (added w p).2.1.slots = w.publishMsgStore.grown.slots.set (slot w p)
      ⟨1, p.qos, p.packetId, p.frame⟩ := congrArg PublishHashmap.slots (add_stored stored)
  have fresh : slotAt (added w p).2.1.slots (slot w p) = ⟨1, p.qos, p.packetId, p.frame⟩ := by
    rw [slots, slotAt_set inside, if_pos rfl]
  have live : (slotAt (added w p).2.1.slots (slot w p)).Live := by
    rw [fresh]
    exact (by decide : (1 : UInt8) ≠ 0)
  refine ⟨by rwa [slots, List.length_set], fresh, ?_⟩
  have after : Findable (added w p).2.1 := findable.add p.packetId p.frame p.qos 1 w.env.heap
  have some := after.shaped.get_of_near rfl (after.near _ (.inl live))
  rwa [fresh] at some

/-- Without an older message of the id the node that is counted on is that of
the message. -/
theorem counted_iff (findable : Findable w.publishMsgStore) (stored : (added w p).1 = true) {w₂ : World}
    (found : (added w p).2.1.get p.packetId = some j)
    (store : w₂.publishMsgStore = raised (added w p).2.1 j (UInt8.ofNat (due w p).length)) :
    Counted w p (w₂.countDown j p.packetId).publishMsgStore ↔
      ¬ Elder w.publishMsgStore p.packetId ∧ (due w p).length ≤ 255 := by
  have shaped : Shaped (added w p).2.1.powerOfCap (added w p).2.1.slots :=
    (findable.add p.packetId p.frame p.qos 1 w.env.heap).shaped
  have lookup : (added w p).2.1.get p.packetId = some (slot w p) ↔ ¬ Elder w.publishMsgStore p.packetId :=
    get_added findable stored
  have inside := shaped.get_lt found
  obtain ⟨there, fresh, -⟩ := slot_added findable stored
  obtain ⟨power, slots⟩ := fanOut_counted found store
  have slots := slots inside
  rw [Counted, if_pos stored, ← lookup, found, Option.some.injEq]
  generalize (w₂.countDown j p.packetId).publishMsgStore = m at power slots ⊢
  by_cases own : j = slot w p
  · subst own
    have slots : m.slots = (added w p).2.1.slots.set (slot w p) (p.node (UInt8.ofNat (due w p).length)) := by
      rw [slots, fresh, Publication.node, count_back]
    rw [slots]
    simp only [true_and]
    constructor
    · rintro ⟨count, counts, same, -⟩
      have same : p.node (UInt8.ofNat (due w p).length) = p.node count := by
        have same := congrArg (·[slot w p]?) same
        rwa [List.getElem?_set_self there, List.getElem?_set_self there, Option.some.injEq] at same
      rw [← counts]
      have small := count.toNat_lt
      omega
    · intro few
      refine ⟨UInt8.ofNat (due w p).length, ?_, rfl, fun some_due => ?_⟩
      · rw [UInt8.toNat_ofNat']
        exact Nat.mod_eq_of_lt (by omega)
      · have named : (p.node (UInt8.ofNat (due w p).length)).pubpackId =
            (slotAt (added w p).2.1.slots (slot w p)).pubpackId := by
          rw [fresh, Publication.node, if_neg some_due]
        have kept := PublishHashmap.get_set (added w p).2.1 (slot w p) _ named p.packetId
        rw [← found, ← kept]
        exact get_congr (by exact power) (by rw [slots]) (fun i => by rw [slots]) p.packetId
  · -- the message keeps its first count, and the older node its own
    refine iff_of_false ?_ fun both => own both.1
    rintro ⟨count, -, same, leads⟩
    rw [slots] at same
    have at_slot := congrArg (·[slot w p]?) same
    have at_j := congrArg (·[j]?) same
    dsimp only at at_slot at_j
    rw [List.getElem?_set_self there, List.getElem?_set_ne own] at at_slot
    rw [List.getElem?_set_self inside, List.getElem?_set_ne (Ne.symm own)] at at_j
    have first : p.node count = p.node 1 := by
      rw [List.getElem?_eq_getElem there, Option.some.injEq, ← slotAt_eq there, fresh] at at_slot
      exact at_slot.symm
    obtain rfl := node_ext first
    have unchanged : m.slots = (added w p).2.1.slots := by
      rw [slots]
      rw [List.getElem?_eq_getElem inside, Option.some.injEq] at at_j
      rw [at_j, List.set_getElem_self]
    have leads := leads (by decide)
    have same_get : m.get p.packetId = (added w p).2.1.get p.packetId :=
      get_congr power (by rw [unchanged]) (fun i => by rw [unchanged]) p.packetId
    rw [same_get, found] at leads
    exact own (Option.some.inj leads)

/-- A node that is taken for that of the message does not keep its count. -/
theorem uncounted (findable : Findable w.publishMsgStore) {w₂ : World}
    (found : (added w p).2.1.get p.packetId = some j)
    (store : w₂.publishMsgStore = raised (added w p).2.1 j 0) :
    (w₂.countDown j p.packetId).publishMsgStore ≠ (added w p).2.1 := by
  intro same
  have shaped : Shaped (added w p).2.1.powerOfCap (added w p).2.1.slots :=
    (findable.add p.packetId p.frame p.qos 1 w.env.heap).shaped
  have inside := shaped.get_lt found
  have slots := (fanOut_counted (n := 0) found store).2 inside
  rw [same] at slots
  have at_j := congrArg (fun slots => (slotAt slots j).count) slots
  dsimp only at at_j
  rw [slotAt_set inside, if_pos rfl] at at_j
  generalize (slotAt (added w p).2.1.slots j).count = count at at_j
  have same : count + UInt8.ofNat 0 = count := UInt8.add_zero count
  rw [same] at at_j
  have lower : count = count - 1 := by
    split at at_j
    · exact at_j.trans (Eq.symm ‹count - 1 = 0›)
    · exact at_j
  have step := count.toNat_lt
  have lower := congrArg UInt8.toNat lower
  rw [UInt8.toNat_sub] at lower
  change count.toNat = (2 ^ 8 - 1 + count.toNat) % 2 ^ 8 at lower
  omega

end Outcome

/-- A message is fanned out exactly if its recipients and the table are ready
for it. -/
theorem fan_out_exact_iff (w : World) (p : Publication) (findable : Findable w.publishMsgStore) :
    Exact w p ↔ Serves w p := by
  refine and_congr_right fun online => ?_
  rw [publishByTopic_entered]
  by_cases stored : (added w p).1 = true
  · obtain ⟨j, found⟩ := Option.isSome_iff_exists.mp (slot_added findable stored).2.2
    rw [if_pos stored, found]
    dsimp only
    rw [← served_iff online]
    constructor
    · rintro ⟨w', ran, placed, counted⟩
      obtain ⟨⟨⟩, w₂, fanned, ran⟩ := bind_ok.mp (log_bind_ok.mp ran)
      obtain rfl := countDown_ok.mp ran
      obtain ⟨queued, store⟩ := fanOut_queued fanned
      obtain ⟨first, few⟩ := (counted_iff findable stored found store).mp counted
      refine ⟨first, fanOut_served fanned, allFit_iff.mpr fun sock => ?_, few⟩
      rw [← queued]
      exact placed sock
    · rintro ⟨first, served, fit, few⟩
      obtain ⟨w₂, fanned, -⟩ := fanOut_run p (w.trace.length + 1) (begun w p) served
      obtain ⟨queued, store⟩ := fanOut_queued fanned
      refine ⟨w₂.countDown j p.packetId, log_bind_ok.mpr ?_, ?_, ?_⟩
      · exact bind_ok.mpr ⟨_, w₂, fanned, countDown_ok.mpr rfl⟩
      · intro sock
        have same : vectors (w₂.countDown j p.packetId) = vectors w₂ := rfl
        rw [same, queued]
        exact allFit_iff.mp fit sock
      · exact (counted_iff findable stored found store).mpr ⟨first, few⟩
  · simp only [Counted, if_neg stored]
    cases found : (added w p).2.1.get p.packetId with
    | none =>
      constructor
      · rintro ⟨w', ran, placed, none_due, -⟩
        exact ⟨none_due, rfl⟩
      · rintro ⟨none_due, -⟩
        refine ⟨entered w p, rfl, fun sock => ?_, none_due, rfl⟩
        rw [dueItems, none_due]
        exact .refl _
    | some j =>
      refine iff_of_false ?_ fun both => (by cases both.2)
      rintro ⟨w', ran, -, none_due, same⟩
      obtain ⟨⟨⟩, w₂, fanned, ran⟩ := bind_ok.mp (log_bind_ok.mp ran)
      obtain rfl := countDown_ok.mp ran
      have store := (fanOut_queued fanned).2
      rw [none_due] at store
      exact uncounted findable found store same

/-- A client with a persistent session subscribes. -/
def subscribed : List (Message × Env) :=
  [accepting 2, reading 2 (connectPacket [98] 0), subscribing 2 [116] 1]

/-- A message for it. -/
def missed : Publication := ⟨[116], publishPacket 0x32 [116] [0, 5, 1], 1, 5, none⟩

/-- While its connection is there, it gets an item for the message. -/
theorem online_served : ∃ w, (initial .clean).run subscribed = .ok w ∧ (due w missed).length = 1 ∧
    Exact w missed := by
  obtain ⟨w, ran, reachable, shown⟩ := reached_run .clean subscribed (fun w =>
    decide ((∀ node ∈ w.clientStore.nodes, node.data.sock ≠ none) ∧ (added w missed).1 = true ∧
      ¬ Elder w.publishMsgStore missed.packetId ∧
      (∀ node ∈ w.clientStore.nodes, (node.data.isSubscribed missed.topic).isOk) ∧
      AllFit (vectors w) (added w missed).2.2 (dueItems w missed) ∧ (due w missed).length = 1))
    (by decide +kernel)
  obtain ⟨online, stored, first, walks, fit, one⟩ := of_decide_eq_true shown
  refine ⟨w, ran, one, (fan_out_exact_iff w missed (reachable_findable reachable)).mpr ?_⟩
  refine ⟨fun node member _ => online node member, ?_⟩
  rw [if_pos stored]
  exact ⟨first, fun node member _ => walks node member, fit, by omega⟩

/-- Its connection ends. -/
def leftSubscribed : List (Message × Env) := subscribed ++ [reading 2 none]

/-- A persistent client that is offline is subscribed to the topic of a message,
and the call ends with an index outside an array. -/
def indexesOut (p : Publication) (w : World) : Bool :=
  (match publishByTopic p.topic p.frame p.qos p.packetId p.publisher w with
  | .error fault => decide (fault = .outOfBounds)
  | .ok _ => false) &&
    w.clientStore.nodes.any fun node => node.data.sock.isNone && !node.data.cleanSession &&
      (node.data.isSubscribed p.topic).toOption.any (· ≠ emptyQos)

/-- The socket table is indexed with the client's socket, which is -1. -/
theorem offline_indexes_out : ∃ w, (initial .clean).run leftSubscribed = .ok w ∧ World.Reachable w ∧
    publishByTopic missed.topic missed.frame missed.qos missed.packetId missed.publisher w =
      .error .outOfBounds ∧ ¬ Exact w missed := by
  obtain ⟨w, ran, reachable, shown⟩ := reached_run .clean leftSubscribed (indexesOut missed) (by decide +kernel)
  rw [indexesOut, Bool.and_eq_true] at shown
  obtain ⟨fails, shown⟩ := shown
  split at fails
  · rename_i outcome
    rw [of_decide_eq_true fails] at outcome
    refine ⟨w, ran, reachable, outcome, fun exactly => ?_⟩
    obtain ⟨node, member, shown⟩ := List.any_eq_true.mp shown
    rw [Bool.and_eq_true, Bool.and_eq_true] at shown
    obtain ⟨⟨offline, persistent⟩, subscribed⟩ := shown
    cases walked : node.data.isSubscribed missed.topic with
    | error kind =>
      rw [walked] at subscribed
      cases subscribed
    | ok granted =>
      rw [walked] at subscribed
      have recipient : Recipient missed.topic node.data :=
        ⟨.inr (by simpa using persistent), granted, walked, of_decide_eq_true subscribed⟩
      exact exactly.1 node member recipient (Option.isNone_iff_eq_none.mp offline)
  · cases fails

end MqttBroker.FanOut
