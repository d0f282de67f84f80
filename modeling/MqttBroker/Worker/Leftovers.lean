import MqttBroker.Worker.Filters
import MqttBroker.Worker.Reading
import MqttBroker.Worker.Rules

/-! What earlier packets have left in the buffer behind the packet that is
handled. A branch whose fields are all inside the packet does not see it. -/
namespace MqttBroker.Leftovers
open Logic Protocol RemainingLength Worker Decoding Rejection Filters

/-- The world with another buffer. -/
def rebuffed (front : List UInt8) (w : World) : World := { w with buf := front }

/-- The program does the same whatever is in the buffer. -/
def Blind {α : Type} (m : Worker α) : Prop := ∀ front w, Commutes (rebuffed front) w m

/-! ### Calls that do not look at the buffer -/

section Blind
variable {α β : Type}

theorem Blind.bind {m : Worker α} {f : α → Worker β} (first : Blind m) (rest : ∀ a, Blind (f a)) :
    Blind (m >>= f) :=
  fun front w => (first front w).bind fun a t _ => rest a front t

theorem blind_look {f : World → Worker β} (rest : ∀ w, Blind (f w))
    (blind : ∀ (w : World) (front : List UInt8), f { w with buf := front } = f w) : Blind (get >>= f) :=
  fun front w => Commutes.get (blind w front) (rest w front w)

theorem blind_log (e : Event) : Blind (log e) := fun _ _ => commutes_modify rfl

theorem blind_setItem (sock : Fin 64) (i : Nat) (f : PackidStateItem → PackidStateItem) :
    Blind (modify (·.setItem sock i f)) := fun _ _ => commutes_modify rfl

theorem blind_onHeap (call : Heap → α × Heap) : Blind (onHeap call) := fun _ _ => rfl

theorem blind_request (msg : Message) : Blind (sendtoque msg) := fun _ _ => rfl

theorem blind_write (sock : Fin 64) (bytes : List UInt8) (item : Option PackidStateItem) :
    Blind (connWrite sock bytes item) := fun _ _ => rfl

theorem blind_stackByte : Blind stackByte := fun _ _ => rfl

theorem blind_addPacketId (sock : Fin 64) (item : PackidStateItem) : Blind (addPacketId sock item) := by
  refine blind_look (fun w => ?_) fun _ _ => rfl
  cases (w.items sock).findIdx? (·.packetId = 0) with
  | some i => exact (blind_log _).bind fun _ => blind_setItem _ _ _
  | none =>
    refine (blind_onHeap _).bind fun grown => (blind_log _).bind fun _ => ?_
    exact fun _ _ => commutes_modify rfl

theorem blindRules : Rules fun {α : Type} (m : Worker α) => Blind m where
  done a := fun _ _ => commutes_pure a
  bind := Blind.bind
  fault kind := fun _ _ => commutes_throw kind
  look := blind_look
  table tabular := fun front w => commutes_modify (tabular.blind w front)
  setSock _ _ _ := fun _ _ => commutes_modify rfl
  onHeap := blind_onHeap
  random := fun _ _ => rfl
  request := blind_request
  write sock _ _ _ := blind_write sock _ none
  log _ := blind_log _
  enqueue sock _ _ := blind_addPacketId sock _

theorem blind_dropConn (sock : Fin 64) (sendwill : Bool) : Blind (dropConn sock sendwill) :=
  ruled_dropConn blindRules (fun _ _ _ _ _ => blind_log _) sock sendwill

theorem blind_publish (frame : List UInt8) (qos : UInt8) (packetId : UInt16) (sock : Fin 64) (i : Nat)
    (item : PackidStateItem) (deleteRetain : Bool) :
    Blind (publish frame qos packetId sock i item deleteRetain) := by
  unfold publish
  cases frame with
  | nil => exact blindRules.fault _
  | cons head rest =>
    refine (blind_write _ _ _).bind fun written => (ruled_storeGet blindRules _).bind fun node => ?_
    refine Blind.bind ?_ fun _ => ?_
    · unfold logFailure
      split
      · exact blindRules.done _
      · refine (ruled_sockAt blindRules _).bind fun _ => (ruled_deref blindRules _).bind fun _ => ?_
        exact blind_log _
    · split
      · exact (blind_setItem _ _ _).bind fun _ => ruled_countDownIf blindRules _ _
      · refine (blind_setItem _ _ _).bind fun _ => ?_
        split
        · exact (ruled_storeAdd blindRules _ _ _ _).bind fun _ => blindRules.done _
        · exact blindRules.done _

theorem blind_replyToPublisher (sock : Fin 64) (qos : UInt8) (packetid : UInt16) (frame topic : List UInt8) :
    Blind (replyToPublisher sock qos packetid frame topic) := by
  have ack (state : PacketState) : Blind (queueAck sock state packetid qos frame topic) := by
    refine (blind_request _).bind fun asked => ?_
    split
    · exact (ruled_sockAt blindRules _).bind fun _ => blind_addPacketId _ _
    · exact blindRules.done _
  unfold replyToPublisher
  split
  · exact ack _
  · split
    · exact ack _
    · exact (blind_request _).bind fun _ => blindRules.done _

end Blind

/-! ### Fields inside a packet -/

/-- What the buffer may be with a packet at its front. -/
def Fronts (packet front : List UInt8) : Prop := packet <+: front ∧ front.length = buffSize

/-- From a buffer that begins with the packet, the program does the same as from
any other that does. -/
def Unseen (packet : List UInt8) (w : World) {α : Type} (m : Worker α) : Prop :=
  Fronts packet w.buf → ∀ front, Fronts packet front → Commutes (rebuffed front) w m

section Unseen
variable {packet rest : List UInt8} {w : World} {pos len : Nat} {α β : Type} {m : Worker α} {f : α → Worker β}

theorem Blind.unseen (blind : Blind m) : Unseen packet w m := fun _ front _ => blind front w

theorem unseen_pure (a : α) : Unseen packet w (pure a : Worker α) := (blindRules.done a).unseen

theorem Unseen.bind (first : Unseen packet w m) (rest : ∀ a t, m w = .ok (a, t) → Unseen packet t (f a)) :
    Unseen packet w (m >>= f) := by
  intro begins front other
  refine (first begins front other).bind fun a t ran => rest a t ran ?_ front other
  -- the program does not see its own buffer either, so it leaves it as it is
  have same : m w = (m w).map (Prod.map id (rebuffed w.buf)) := first begins w.buf begins
  rw [ran] at same
  have kept : t = rebuffed w.buf t := (Prod.mk.inj (Except.ok.inj same)).2
  rw [kept]
  exact begins

theorem unseen_get {f : World → Worker β} (rest : Unseen packet w (f w))
    (blind : ∀ (w : World) (front : List UInt8), f { w with buf := front } = f w) :
    Unseen packet w (get >>= f) :=
  fun begins front other => Commutes.get (blind w front) (rest begins front other)

/-- What is read is the same in both buffers. -/
theorem unseen_read {a : α} (read : ∀ w : World, packet <+: w.buf → m w = .ok (a, w))
    (next : Unseen packet w (f a)) : Unseen packet w (m >>= f) := by
  intro begins front other
  have there : m (rebuffed front w) = .ok (a, rebuffed front w) := read _ other.1
  rw [Commutes, bind_of_ok (read w begins.1), bind_of_ok there]
  exact next begins front other

theorem left_holds {buf : List UInt8} (left : Left packet pos rest) (begins : packet <+: buf) :
    Holds buf pos rest := by
  obtain ⟨front, rfl, rfl⟩ := left
  obtain ⟨back, rfl⟩ := begins
  exact ⟨front, back, List.append_assoc _ _ _, rfl⟩

theorem unseen_head {byte : UInt8} {f : UInt8 → Worker β} (left : Left packet pos (byte :: rest))
    (next : Unseen packet w (f byte)) : Unseen packet w (byteAt pos >>= f) :=
  unseen_read (fun _ begins => byteAt_holds (left_holds left begins)) next

theorem unseen_byteAt {f : UInt8 → Worker β} {next : UInt8 → List UInt8 → Prop} (left : Left packet pos rest)
    (first : First rest next) (agrees : ∀ byte behind, Left packet (pos + 1) behind → next byte behind →
      Unseen packet w (f byte)) : Unseen packet w (byteAt pos >>= f) := by
  cases rest with
  | nil => exact first.elim
  | cons byte behind => exact unseen_head left (agrees byte behind left.tail first)

theorem unseen_ntohsAt {f : UInt16 → Worker β} {next : Nat → List UInt8 → Prop} (left : Left packet pos rest)
    (prefixed : Prefixed rest next) (agrees : ∀ (len : UInt16) (behind : List UInt8), Left packet (pos + 2) behind →
      next len.toNat behind → Unseen packet w (f len)) : Unseen packet w (ntohsAt pos >>= f) := by
  match rest, left, prefixed with
  | high :: low :: behind, left, prefixed =>
    refine unseen_read (fun _ begins => ntohsAt_holds (left_holds left begins)) ?_
    refine agrees _ behind left.tail.tail ?_
    rw [word_toNat]
    exact prefixed

/-- Only the first byte of a length is there, and it is not 0. -/
def Oversize (rest : List UInt8) : Prop := ∃ high, rest = [high] ∧ high ≠ 0

/-- A length from 256 on is refused, whatever its second byte is. -/
theorem unseen_oversize {f : UInt16 → Worker β} {b : β} (left : Left packet pos rest) (oversize : Oversize rest)
    (refused : ∀ len : UInt16, 256 ≤ len.toNat → f len = pure b) : Unseen packet w (ntohsAt pos >>= f) := by
  obtain ⟨high, rfl, some⟩ := oversize
  rw [ntohsAt, bind_assoc]
  refine unseen_head left fun begins front other => ?_
  have outcome (w : World) (sized : w.buf.length = buffSize) :
      ((byteAt (pos + 1) >>= fun low => pure ((high.toUInt16 <<< 8) ||| low.toUInt16)) >>= f) w =
        if pos + 1 < buffSize then .ok (b, w) else .error .outOfBounds := by
    rw [bind_assoc]
    split
    · rename_i within
      have large : 256 ≤ ((high.toUInt16 <<< 8) ||| (w.buf.getD (pos + 1) 0).toUInt16).toNat := by
        rw [word_toNat]
        have some : high.toNat ≠ 0 := fun zero => some (UInt8.toNat_inj.mp zero)
        omega
      rw [bind_of_ok (byteAt_eq (sized ▸ within)), pure_bind, refused _ large]
      rfl
    · rename_i past
      have cut : byteAt (pos + 1) w = .error .outOfBounds := by
        change (if pos + 1 < w.buf.length then pure (w.buf.getD (pos + 1) 0) else fault .outOfBounds : Worker _) w = _
        rw [sized, if_neg past]
        rfl
      rw [bind_of_error cut]
  rw [Commutes, outcome w begins.2, outcome (rebuffed front w) other.2]
  split <;> rfl

theorem unseen_rangeAt {f : List UInt8 → Worker β} (left : Left packet pos rest) (inside : len ≤ rest.length)
    (agrees : Left packet (pos + len) (rest.drop len) → Unseen packet w (f (rest.take len))) :
    Unseen packet w (rangeAt pos len >>= f) := by
  refine unseen_read (fun w begins => ?_) (agrees (left.drop inside))
  have holds := left_holds left begins
  rw [← List.take_append_drop len rest] at holds
  have range := rangeAt_holds holds
  rwa [List.length_take_of_le inside] at range

theorem unseen_matchesAt {m : Worker β} {b : β} {next : List UInt8 → Prop} (bytes : List UInt8)
    (left : Left packet pos rest) (compared : Compared bytes rest next)
    (agrees : ∀ behind, Left packet (pos + bytes.length) behind → next behind → Unseen packet w m) :
    Unseen packet w (matchesAt pos bytes >>= fun same => if !same then pure b else m) := by
  induction bytes generalizing pos rest with
  | nil => exact agrees rest left compared
  | cons byte bytes ih =>
    cases rest with
    | nil => exact compared.elim
    | cons first behind =>
      rw [matchesAt, bind_assoc]
      refine unseen_head left ?_
      by_cases differs : first ≠ byte
      · rw [if_pos differs]
        exact unseen_pure _
      · rw [if_neg differs]
        refine ih left.tail (compared.resolve_left differs) fun behind left => agrees behind ?_
        rw [List.length_cons, Nat.add_comm bytes.length 1, ← Nat.add_assoc]
        exact left

/-- A string is stored and its size is tested. -/
theorem unseen_stored {m : UInt16 → Myvector UInt8 → Worker β} {b : β} {next : Heap → List UInt8 → Prop}
    (left : Left packet pos rest) (stored : Stored w.env.heap rest next)
    (agrees : ∀ (len : UInt16) (v : Myvector UInt8) heap behind, Left packet (pos + 2 + len.toNat) behind →
      next heap behind → Unseen packet (withHeap w heap) (m len v)) :
    Unseen packet w (ntohsAt pos >>= fun len => vectorAt (pos + 2) len.toNat >>= fun v =>
      if v.size ≠ len.toNat then pure b else m len v) := by
  refine unseen_ntohsAt left stored fun len behind left stored => ?_
  by_cases empty : len.toNat = 0
  · rw [if_pos empty] at stored
    have fits : ¬ ({} : Myvector UInt8).size ≠ len.toNat := not_not_intro empty.symm
    rw [vectorAt, if_pos empty, pure_bind, if_neg fits]
    exact agrees len {} w.env.heap behind (by rw [empty]; exact left) stored
  · rw [if_neg empty] at stored
    rw [vectorAt, if_neg empty, bind_assoc]
    have allocated : onHeap Heap.alloc w = .ok (w.env.heap.alloc.1, withHeap w w.env.heap.alloc.2) := rfl
    refine (blind_onHeap _).unseen.bind fun memory t ran => ?_
    obtain ⟨rfl, rfl⟩ := Prod.mk.inj (Except.ok.inj (allocated.symm.trans ran))
    by_cases memory : w.env.heap.alloc.1
    · rw [if_pos memory] at stored ⊢
      rw [bind_assoc]
      refine unseen_rangeAt left stored.1 fun left => ?_
      have fits : ¬ Myvector.size ⟨behind.take len.toNat, len.toNat⟩ ≠ len.toNat :=
        not_not_intro (List.length_take_of_le stored.1)
      rw [pure_bind, if_neg fits]
      exact agrees len _ _ _ left stored.2
    · have none : ({} : Myvector UInt8).size ≠ len.toNat := fun none => empty none.symm
      rw [if_neg memory, pure_bind, if_pos none]
      exact unseen_pure _

theorem unseen_packetIdAt (left : Left packet pos rest) (two : 2 ≤ rest.length) :
    Unseen packet w (packetIdAt pos) := by
  match rest, left, two with
  | low :: high :: behind, left, _ =>
    rw [packetIdAt]
    refine unseen_head left ?_
    refine unseen_head left.tail ?_
    exact unseen_pure _

end Unseen

/-! ### CONNECT -/

/-- A password, where one is there, is inside, unless there is no memory for it. -/
def CredentialsInside (flags : UInt8) (heap : Heap) (rest : List UInt8) : Prop :=
  flags &&& 0x80 ≠ 0 → Prefixed rest fun len rest => len ≤ rest.length ∧
    (flags &&& 0x40 ≠ 0 → Prefixed (rest.drop len) fun len rest => heap.alloc.1 = true → len ≤ rest.length)

/-- What follows the client id is inside. -/
def OptionsInside (flags : UInt8) (heap : Heap) (rest : List UInt8) : Prop :=
  if flags &&& 0x04 ≠ 0 then Stored heap rest fun heap rest => Stored heap rest (CredentialsInside flags)
  else CredentialsInside flags heap rest

/-- The fields of a CONNECT are inside, up to the first that is refused. -/
def ConnectInside (heap : Heap) (head : UInt8) (body : List UInt8) : Prop :=
  head &&& 0x0F ≠ 0 ∨ Oversize body ∨ Prefixed body fun len rest => len ≠ 4 ∨
    Compared [0x4D, 0x51, 0x54, 0x54] rest fun rest => First rest fun level rest => level ≠ 4 ∨
      First rest fun flags rest => flags &&& 0x01 ≠ 0 ∨ (flags &&& 0x04 = 0 ∧ flags &&& 0x38 ≠ 0) ∨
        Prefixed rest fun _ rest => Oversize rest ∨ Prefixed rest fun len rest => ¬ (1 ≤ len ∧ len ≤ 23) ∨
          len ≤ rest.length ∧ OptionsInside flags heap (rest.drop len)

section Connect
variable {packet rest : List UInt8} {w : World} {pos len : Nat}

theorem readWill_bind {α : Type} (will : Will) (k : Option (Will × Nat) → Worker α) : readWill pos will >>= k =
    (ntohsAt pos >>= fun topicLen => vectorAt (pos + 2) topicLen.toNat >>= fun topic =>
      if topic.size ≠ topicLen.toNat then k none
      else ntohsAt (pos + 2 + topicLen.toNat) >>= fun msgLen =>
        vectorAt (pos + 2 + topicLen.toNat + 2) msgLen.toNat >>= fun msg =>
          if msg.size ≠ msgLen.toNat then k none
          else k (some ({ will with topic := topic, msg := msg },
            pos + 2 + topicLen.toNat + 2 + msgLen.toNat))) := by
  unfold readWill
  simp only [bind_assoc, ite_bind, pure_bind]

theorem unseen_checkPasswordAt {username : List UInt8} (left : Left packet pos rest)
    (inside : w.env.heap.alloc.1 = true → len ≤ rest.length) :
    Unseen packet w (checkPasswordAt username pos len) := by
  have checked (pass : List UInt8) : Unseen packet w
      (check (UserCreds.checkPassword w.userCred w.env.digest username pass w.env.heap) >>=
        fun checked => onHeap fun _ => checked) :=
    ((ruled_check blindRules _).bind fun _ => blind_onHeap _).unseen
  refine unseen_get ?_ fun _ _ => rfl
  by_cases memory : w.env.heap.alloc.1
  · rw [if_pos memory]
    exact unseen_rangeAt left (inside memory) fun _ => checked _
  · rw [if_neg memory, pure_bind]
    exact checked _

theorem unseen_readCredentials {flags : UInt8} (left : Left packet pos rest)
    (inside : CredentialsInside flags w.env.heap rest) :
    Unseen packet w
      (if flags &&& 0x80 ≠ 0 then readCredentials pos (flags &&& 0x40 ≠ 0) else pure true) := by
  by_cases named : flags &&& 0x80 ≠ 0
  · rw [if_pos named]
    refine unseen_ntohsAt left (inside named) fun len behind left inside => ?_
    refine unseen_rangeAt left inside.1 fun left => ?_
    dsimp only
    by_cases guarded : flags &&& 0x40 ≠ 0
    · rw [if_pos (decide_eq_true guarded)]
      exact unseen_ntohsAt left (inside.2 guarded) fun _ _ left within => unseen_checkPasswordAt left within
    · rw [if_neg (by simpa using guarded)]
      exact unseen_checkPasswordAt left fun _ => Nat.zero_le _
  · rw [if_neg named]
    exact unseen_pure _

theorem unseen_readOptions {flags : UInt8} {will : Will} (willed : will.presenceFlag = true ↔ flags &&& 0x04 ≠ 0)
    (left : Left packet pos rest) (inside : OptionsInside flags w.env.heap rest) :
    Unseen packet w (readOptions pos flags will) := by
  have credentials {w : World} {pos : Nat} {rest : List UInt8} (will : Will) (left : Left packet pos rest)
      (inside : CredentialsInside flags w.env.heap rest) : Unseen packet w (do
        if ← (if flags &&& 0x80 ≠ 0 then readCredentials pos (flags &&& 0x40 ≠ 0) else pure true) then
          pure (if flags &&& 0x02 ≠ 0 then MqttConnReturn.cleanSession else .uncleanSession, will)
        else pure (.disconnect, {})) := by
    refine (unseen_readCredentials left inside).bind fun accepted t _ => ?_
    split <;> exact unseen_pure _
  unfold OptionsInside at inside
  rw [readOptions]
  by_cases present : flags &&& 0x04 ≠ 0
  · rw [if_pos present] at inside
    rw [if_pos (willed.mpr present), readWill_bind]
    refine unseen_stored left inside fun topicLen topic heap behind left inside => ?_
    refine unseen_stored left inside fun msgLen msg heap behind left inside => ?_
    exact credentials _ left inside
  · rw [if_neg present] at inside
    rw [if_neg (mt willed.mp present), pure_bind]
    exact credentials will left inside

theorem unseen_connectMqtt (sock : Fin 64) {curPos : Nat} {head : UInt8} {tail body : List UInt8}
    (first : Left packet 0 (head :: tail)) (left : Left packet curPos body)
    (inside : ConnectInside w.env.heap head body) :
    Unseen packet w (connectMqtt sock curPos) := by
  have refused {w : World} : Unseen packet w
    (pure (.disconnect, {}) : Worker (MqttConnReturn × Will)) := unseen_pure _
  refine unseen_head first ?_
  dsimp only
  by_cases flagged : head &&& 0x0F ≠ 0
  · rw [if_pos flagged]
    exact refused
  rw [if_neg flagged]
  rcases inside.resolve_left flagged with oversize | inside
  · refine unseen_oversize left oversize fun len large => if_pos ?_
    rintro rfl
    exact absurd large (by decide)
  refine unseen_ntohsAt left inside fun len rest left inside => ?_
  by_cases other : len ≠ 4
  · rw [if_pos other]
    exact refused
  rw [if_neg other]
  have four : ¬ len.toNat ≠ 4 := fun differs => other fun same => differs (by rw [same]; rfl)
  refine unseen_matchesAt _ left (inside.resolve_left four) fun rest left inside => ?_
  refine unseen_byteAt left inside fun level rest left inside => ?_
  by_cases older : level ≠ 4
  · rw [if_pos older]
    exact ((ruled_connAck blindRules _ _ _).bind fun _ => blindRules.done _).unseen
  rw [if_neg older]
  refine unseen_byteAt left (inside.resolve_left older) fun flags rest left inside => ?_
  by_cases reserved : flags &&& 0x01 ≠ 0
  · rw [if_pos reserved]
    exact refused
  rw [if_neg reserved]
  replace inside := inside.resolve_left reserved
  by_cases unwilled : (!(willOfFlags flags).presenceFlag && decide (flags &&& 0x38 ≠ 0)) = true
  · rw [if_pos unwilled]
    exact refused
  rw [if_neg unwilled]
  have willed : ¬ (flags &&& 0x04 = 0 ∧ flags &&& 0x38 ≠ 0) := by
    rw [Bool.and_eq_true, Bool.not_eq_true', decide_eq_true_iff, ← Bool.not_eq_true, willOfFlags_present,
      not_not] at unwilled
    exact unwilled
  refine unseen_ntohsAt left (inside.resolve_left willed) fun _ rest left inside => ?_
  rcases inside with oversize | inside
  · refine unseen_oversize left oversize fun len large => if_pos (.inr ?_)
    rw [gt_iff_lt, UInt16.lt_iff_toNat_lt]
    exact Nat.lt_of_lt_of_le (by decide) large
  refine unseen_ntohsAt left inside fun len rest left inside => ?_
  by_cases invalid : len < 1 ∨ len > 23
  · rw [if_pos invalid]
    exact refused
  rw [if_neg invalid]
  have named : ¬ ¬ (1 ≤ len.toNat ∧ len.toNat ≤ 23) := by
    simp only [UInt16.lt_iff_toNat_lt, gt_iff_lt, UInt16.toNat_ofNat] at invalid
    omega
  replace inside := inside.resolve_left named
  refine unseen_rangeAt left inside.1 fun left => ?_
  have naming : Blind (setSock sock ({ · with clientid := rest.take len.toNat })) := blindRules.setSock _ fun _ => rfl
  refine naming.unseen.bind fun _ t ran => ?_
  obtain rfl := setSock_ok.mp ran
  exact unseen_readOptions (willOfFlags_present flags) left inside.2

end Connect

/-! ### The payloads of SUBSCRIBE and UNSUBSCRIBE -/

section Loops
variable {packet : List UInt8} {F σ : Type} {loop : Nat → Nat → UInt16 → σ → Worker σ}
  {step : F → σ → Worker σ} {encode : F → List UInt8}

/-- The loop reads the entries it walks through. It sees nothing behind them if
they are all there is, or one of them does not come to its end. -/
theorem unseen_loop {ready : F → World → Prop} (laws : PayloadLoop loop step encode ready)
    (blind : ∀ f s, Blind (step f s)) (entries : List F) {more : List UInt8} {fuel pos : Nat} {s : σ} {w : World}
    (left : Left packet pos (entries.flatMap encode ++ more)) (enough : entries.length < fuel)
    (short : (entries.flatMap encode ++ more).length < 65536)
    (ends : more = [] ∨ ¬ Filters.Ready ready step entries s w) :
    Unseen packet w (loop fuel pos (.ofNat (entries.flatMap encode ++ more).length) s) := by
  induction entries generalizing fuel pos s w with
  | nil =>
    obtain ⟨fuel, rfl⟩ := Nat.exists_eq_add_one.mpr enough
    obtain rfl := ends.resolve_right (not_not_intro trivial)
    exact fun _ _ _ => Commutes.of_ok (laws.stop fuel pos s w) (laws.stop fuel pos s _)
  | cons f rest ih =>
    obtain ⟨fuel, rfl⟩ := Nat.exists_eq_add_one.mpr (Nat.zero_lt_of_lt enough)
    intro begins front other
    rw [List.flatMap_cons, List.append_assoc] at left short ⊢
    have here := laws.turn f (rest.flatMap encode ++ more) fuel pos s w (left_holds left begins.1) short
    have there :=
      laws.turn f (rest.flatMap encode ++ more) fuel pos s (rebuffed front w) (left_holds left other.1) short
    have next := left.drop (show (encode f).length ≤ _ by simp)
    rw [List.drop_left] at next
    rw [List.length_append] at short
    rw [Commutes, here, there]
    refine Unseen.bind (blind f s).unseen (fun s' t ran => ?_) begins front other
    refine ih next (Nat.lt_of_succ_lt_succ enough) (by omega) (ends.imp_right fun stuck ready => stuck ?_)
    refine ⟨(laws.returns f s w).mp ⟨s', t, ran⟩, fun s₂ w₂ same => ?_⟩
    obtain ⟨rfl, rfl⟩ := Prod.mk.inj (Except.ok.inj (ran.symm.trans same))
    exact ready

end Loops

theorem blind_subscribeTopic (sock : Fin 64) (topic : Key) (reqQos : UInt8) (suback : Myvector UInt8) :
    Blind (subscribeTopic sock topic reqQos suback) := ruled_subscribeTopic blindRules _ _ _ _

theorem blind_unsubscribeTopic (sock : Fin 64) (topic : Key) : Blind (unsubscribeTopic sock topic) :=
  ruled_unsubscribeTopic blindRules _ _

/-! ### The packet that was read -/

/-- The packet comes to the trace before it is looked at. -/
def noted (sock : Fin 64) (header : Header) (w : World) : World :=
  w.log (.received sock (w.socks sock) (w.buf.take header.packetLength.toNat))

/-- What the worker does with a packet that it has read. -/
def handlePacket (sock : Fin 64) (header : Header) : Worker Unit := do
  let w ← get
  log (.received sock (w.socks sock) (w.buf.take header.packetLength.toNat))
  if (w.socks sock).clientid = [] then connectEvent sock header.curPos
  else dispatch sock header

/-- The packet at the front of the buffer that a header was read for. -/
structure Received (buf : List UInt8) (header : Header) (head : UInt8) (length body : List UInt8) : Prop where
  begins : head :: (length ++ body) <+: buf
  some : 0 < length.length
  curPos : header.curPos = 1 + length.length
  inside : header.packetLength.toNat ≤ 1 + length.length + body.length
  rest : header.packetLength - header.additionalPacketLen.toUInt16 = .ofNat body.length
  short : body.length ≤ 1024
  two : ∀ more, length = 2 :: more → more = [] ∧ body.length = 2

theorem readPacket_received {w w' : World} {header : Header} (ran : readPacket w = .ok (some header, w')) :
    ∃ head length body, Received w'.buf header head length body := by
  obtain ⟨read, head, length, measured, fits, rfl, buf, within⟩ := Reading.readPacket_front ran
  have size : ((w'.buf.drop read.curPos).take read.packetLength.toNat).length = read.packetLength.toNat := by
    rw [List.length_take, List.length_drop]
    omega
  have curPos := measured.curPos
  have counted := measured.counted
  have one : (1 : UInt8).toNat = 1 := rfl
  refine ⟨head, length, (w'.buf.drop read.curPos).take read.packetLength.toNat, ?_⟩
  constructor
  · refine ⟨(w'.buf.drop read.curPos).drop read.packetLength.toNat, ?_⟩
    rw [List.cons_append, List.append_assoc, List.take_append_drop, ← buf]
  · cases length with
    | nil => exact absurd measured.whole id
    | cons => exact Nat.succ_pos _
  · exact curPos
  · rw [size]
    dsimp only
    rw [UInt16.toNat_add, UInt8.toNat_toUInt16]
    have small := Nat.mod_le (read.packetLength.toNat + read.additionalPacketLen.toNat) (2 ^ 16)
    omega
  · rw [size, UInt16.ofNat_toNat]
    dsimp only
    grind
  · omega
  · rintro more rfl
    have whole := measured.whole
    have last : ¬ Continues 2 := by decide
    rw [Whole, if_neg last] at whole
    subst whole
    refine ⟨rfl, ?_⟩
    rw [size, (measured.single 2 rfl).1]
    rfl

/-! ### Which packets keep their fields inside -/

/-- A PUBLISH has its topic, and its packet id if it is to have one. -/
def PublishInside (head : UInt8) (body : List UInt8) : Prop :=
  ∀ qos, publishQos head = some qos →
    Prefixed body fun len rest => len + (if qos > 0 then 2 else 0) ≤ rest.length

/-- An acknowledgement has its packet id, or no item waits for any id that it
may be the beginning of. -/
def AckInside (w : World) (sock : Fin 64) (awaited : PacketState) (packet : List UInt8) : Prop :=
  4 ≤ packet.length ∨ ∀ front, Fronts packet front → ∀ item ∈ w.items sock, item.state = awaited →
    item.packetId ≠ ((front.getD 3 0).toUInt16 <<< 8) ||| (front.getD 2 0).toUInt16

/-- A SUBSCRIBE has an id and a list of filters, if there is memory to answer it.
What is behind a filter that is never done with does not matter. -/
def SubscribeInside (w : World) (sock : Fin 64) (head : UInt8) (body : List UInt8) : Prop :=
  head &&& 0x0F = subscribeReserved → w.env.heap.alloc.1 = true →
    ∃ (msb lsb : UInt8) (entries : List (List UInt8 × UInt8)) (more : List UInt8),
      body = msb :: lsb :: (entries.flatMap encodeSubscription ++ more) ∧ (more = [] ∨
        ¬ Filters.Ready (Subscribes sock) (fun entry => subscribeTopic sock entry.1 entry.2) entries
          { (({} : Myvector UInt8).reserve 5 w.env.heap).2.1 with elems := [0x90, 0, msb, lsb] }
          (withHeap w w.env.heap.alloc.2))

/-- An UNSUBSCRIBE has an id and a list of topics. What is behind a topic that is
never done with does not matter; after wrong reserved bits that is any. -/
def UnsubscribeInside (w : World) (sock : Fin 64) (head : UInt8) (body : List UInt8) : Prop :=
  (head &&& 0x0F ≠ subscribeReserved ∧ ∀ w', dropConn sock true w ≠ .ok ((), w')) ∨
    ∃ (msb lsb : UInt8) (topics : List (List UInt8)) (more : List UInt8),
      body = msb :: lsb :: (topics.flatMap field ++ more) ∧ (more = [] ∨
        if head &&& 0x0F = subscribeReserved then
          ¬ Filters.Ready (Unsubscribes sock) (fun topic _ => unsubscribeTopic sock topic) topics () w
        else topics ≠ [])

/-- A packet has all that the branch for its first byte reads, as far as it
matters. Before a CONNECT every packet is taken for one. -/
def Inside (w : World) (sock : Fin 64) (head : UInt8) (length body : List UInt8) : Prop :=
  if (w.socks sock).clientid = [] then ConnectInside w.env.heap head body
  else if head &&& 0xF0 = 0x30 then PublishInside head body
  else if head = 0x40 then AckInside w sock .getpuback (head :: (length ++ body))
  else if head = 0x50 then AckInside w sock .getpubrec (head :: (length ++ body))
  else if head &&& 0xF0 = 0x80 then SubscribeInside w sock head body
  else if head &&& 0xF0 = 0xA0 then UnsubscribeInside w sock head body
  else True

section Rebuffed
variable {w : World} {sock : Fin 64} {F σ : Type} {step : F → σ → Worker σ} {ready : F → World → Prop}

/-- Whether the turns come to their end does not depend on the buffer. -/
theorem ready_rebuffed (blind : ∀ f s, Blind (step f s)) (front : List UInt8)
    (same : ∀ f w, ready f (rebuffed front w) ↔ ready f w) (entries : List F) {s : σ} :
    Filters.Ready ready step entries s (rebuffed front w) ↔ Filters.Ready ready step entries s w := by
  induction entries generalizing s w with
  | nil => exact Iff.rfl
  | cons f rest ih =>
    have there : step f s (rebuffed front w) = (step f s w).map (Prod.map id (rebuffed front)) := blind f s front w
    refine and_congr (same f w) ⟨fun later s' w' ran => ?_, fun later s' w' ran => ?_⟩
    · rw [ran] at there
      exact ih.mp (later s' (rebuffed front w') there)
    · cases here : step f s w with
      | error kind =>
        rw [here, ran] at there
        cases there
      | ok reply =>
        obtain ⟨s₁, w₁⟩ := reply
        rw [here, ran] at there
        cases there
        exact ih.mpr (later s₁ w₁ here)

theorem subscribe_rebuffed (front : List UInt8) (head : UInt8) (body : List UInt8) :
    SubscribeInside (rebuffed front w) sock head body ↔ SubscribeInside w sock head body := by
  refine imp_congr Iff.rfl (imp_congr Iff.rfl ?_)
  refine exists_congr fun msb => exists_congr fun lsb => exists_congr fun entries => exists_congr fun more => ?_
  refine and_congr Iff.rfl (or_congr Iff.rfl (not_congr ?_))
  have same (entry : List UInt8 × UInt8) (w : World) :
      Subscribes sock entry (rebuffed front w) ↔ Subscribes sock entry w := Iff.rfl
  exact ready_rebuffed (w := withHeap w w.env.heap.alloc.2) (fun _ _ => blind_subscribeTopic _ _ _ _) front same
    entries

theorem unsubscribe_rebuffed (front : List UInt8) (head : UInt8) (body : List UInt8) :
    UnsubscribeInside (rebuffed front w) sock head body ↔ UnsubscribeInside w sock head body := by
  have dropped : dropConn sock true (rebuffed front w) =
      (dropConn sock true w).map (Prod.map id (rebuffed front)) := blind_dropConn sock true front w
  refine or_congr (and_congr Iff.rfl ⟨fun never w' ran => ?_, fun never w' ran => ?_⟩) ?_
  · rw [ran] at dropped
    exact never _ dropped
  · cases here : dropConn sock true w with
    | error kind =>
      rw [here, ran] at dropped
      cases dropped
    | ok reply => exact never reply.2 here
  refine exists_congr fun msb => exists_congr fun lsb => exists_congr fun topics => exists_congr fun more => ?_
  refine and_congr Iff.rfl (or_congr Iff.rfl ?_)
  split
  · exact not_congr (ready_rebuffed (fun _ _ => blind_unsubscribeTopic _ _) front (fun _ _ => Iff.rfl) topics)
  · exact Iff.rfl

/-- What is inside a packet does not depend on what is behind it. -/
theorem inside_rebuffed (front : List UInt8) (head : UInt8) (length body : List UInt8) :
    Inside (rebuffed front w) sock head length body = Inside w sock head length body := by
  refine if_congr Iff.rfl rfl (if_congr Iff.rfl rfl (if_congr Iff.rfl rfl (if_congr Iff.rfl rfl ?_)))
  refine if_congr Iff.rfl (propext (subscribe_rebuffed front head body)) ?_
  exact if_congr Iff.rfl (propext (unsubscribe_rebuffed front head body)) rfl

end Rebuffed

section Packets
variable {buf length body : List UInt8} {w : World} {header : Header} {head : UInt8}

theorem left_whole (packet : List UInt8) : Left packet 0 packet := ⟨[], rfl, rfl⟩

theorem Received.left (received : Received buf header head length body) :
    Left (head :: (length ++ body)) header.curPos body :=
  ⟨head :: length, rfl, by rw [received.curPos, List.length_cons, Nat.add_comm]⟩

theorem Received.taken {front : List UInt8} (received : Received buf header head length body)
    (begins : head :: (length ++ body) <+: front) :
    front.take header.packetLength.toNat = (head :: (length ++ body)).take header.packetLength.toNat := by
  obtain ⟨back, rfl⟩ := begins
  have inside := received.inside
  refine List.take_append_of_le_length ?_
  rw [List.length_cons, List.length_append]
  omega

theorem unseen_publishEvent (sock : Fin 64) (received : Received buf header head length body)
    (inside : PublishInside head body) : Unseen (head :: (length ++ body)) w (publishEvent sock header) := by
  refine unseen_head (left_whole _) ?_
  cases asked : publishQos head with
  | none => exact (blind_dropConn _ _).unseen
  | some qos =>
    refine unseen_ntohsAt received.left (inside qos asked) fun len rest left inside => ?_
    refine unseen_rangeAt left (Nat.le_of_add_right_le inside) fun left => ?_
    refine Unseen.bind ?_ fun packetid t _ => ?_
    · by_cases identified : qos > 0
      · rw [if_pos identified] at inside ⊢
        refine unseen_packetIdAt left ?_
        rw [List.length_drop]
        omega
      · rw [if_neg identified]
        exact Blind.unseen blindRules.random
    · have whole : header.packetLength.toNat ≤ (head :: (length ++ body)).length := by
        have inside := received.inside
        rw [List.length_cons, List.length_append]
        omega
      refine unseen_rangeAt (left_whole _) whole fun _ => Blind.unseen ?_
      refine (ruled_sockAt blindRules _).bind fun _ => (blind_log _).bind fun _ => ?_
      refine Blind.bind ?_ fun _ => (blind_replyToPublisher _ _ _ _ _).bind fun _ => ?_
      · split
        · exact ruled_retainMessage blindRules _ _ _ _
        · exact blindRules.done _
      · exact ruled_publishByTopic blindRules _ _ _ _ _

/-- The byte behind the first is the first of the length. -/
theorem unseen_wrongLength (received : Received buf header head length body) :
    Unseen (head :: (length ++ body)) w (wrongLength header) := by
  have some := received.some
  cases length with
  | nil => exact absurd some (Nat.lt_irrefl 0)
  | cons byte more =>
    refine unseen_head (left_whole _).tail ?_
    exact unseen_pure _

theorem unseen_findItem {packet : List UInt8} (sock : Fin 64) (awaited : PacketState) (long : 4 ≤ packet.length) :
    Unseen packet w (findItem sock awaited) := by
  have left := (left_whole packet).drop (show 2 ≤ _ by omega)
  have two : 2 ≤ (packet.drop 2).length := by
    rw [List.length_drop]
    omega
  refine (unseen_packetIdAt left two).bind fun packetId t _ => Blind.unseen ?_
  refine blind_look (fun w => ?_) fun _ _ => rfl
  cases (w.items sock).zipIdx.find? fun entry => entry.1.packetId = packetId ∧ entry.1.state = awaited with
  | none => exact blindRules.done _
  | some entry => exact (blind_log _).bind fun _ => blindRules.done _

/-- No item is found for an id that none waits for. -/
theorem findItem_none {awaited : PacketState} (sized : w.buf.length = buffSize)
    (unawaited : ∀ item ∈ w.items sock, item.state = awaited →
      item.packetId ≠ ((w.buf.getD 3 0).toUInt16 <<< 8) ||| (w.buf.getD 2 0).toUInt16) :
    findItem sock awaited w = .ok ((((w.buf.getD 3 0).toUInt16 <<< 8) ||| (w.buf.getD 2 0).toUInt16, none), w) := by
  have read : packetIdAt 2 w = .ok (((w.buf.getD 3 0).toUInt16 <<< 8) ||| (w.buf.getD 2 0).toUInt16, w) := by
    have two : 2 < w.buf.length := by rw [sized]; decide
    have three : 2 + 1 < w.buf.length := by rw [sized]; decide
    rw [packetIdAt, bind_of_ok (byteAt_eq two), bind_of_ok (byteAt_eq three)]
    rfl
  have missing : ((w.items sock).zipIdx.find? fun entry =>
      entry.1.packetId = ((w.buf.getD 3 0).toUInt16 <<< 8) ||| (w.buf.getD 2 0).toUInt16 ∧
        entry.1.state = awaited) = none := by
    refine List.find?_eq_none.mpr fun entry member fits => ?_
    obtain ⟨id, state⟩ := of_decide_eq_true fits
    exact unawaited entry.1 (List.fst_mem_of_mem_zipIdx member) state id
  rw [findItem, bind_of_ok read]
  refine get_bind_ok.mpr ?_
  rw [missing]
  rfl

theorem unseen_settle (sock : Fin 64) (awaited : PacketState) (settled : PackidStateItem → PackidStateItem)
    (op : Operation) (received : Received buf header head length body)
    (inside : AckInside w sock awaited (head :: (length ++ body))) :
    Unseen (head :: (length ++ body)) w (settle sock header awaited settled op) := by
  rcases inside with long | unawaited
  swap
  · intro begins front other
    have here := findItem_none begins.2 (unawaited w.buf begins)
    have there : findItem sock awaited (rebuffed front w) = .ok ((_, none), rebuffed front w) :=
      findItem_none other.2 (unawaited front other)
    rw [Commutes, settle, bind_of_ok here, bind_of_ok there]
    exact blind_dropConn sock true front w
  refine (unseen_findItem sock awaited long).bind fun found t _ => ?_
  cases found.2 with
  | none => exact (blind_dropConn _ _).unseen
  | some entry =>
    refine Unseen.bind (Blind.unseen (ruled_storeGet blindRules _)) fun msgInfo t _ => ?_
    refine (unseen_wrongLength received).bind fun wrong t _ => Blind.unseen ?_
    split
    · cases msgInfo with
      | none => exact blind_dropConn _ _
      | some node =>
        refine blind_look (fun w => ?_) fun _ _ => rfl
        exact (blind_log _).bind fun _ => blind_publish _ _ _ _ _ _ _
    · refine (ruled_countDownIf blindRules _ _).bind fun _ => (blind_setItem _ _ _).bind fun _ => ?_
      exact (blind_request _).bind fun _ => blindRules.done _

/-- An acknowledgement that is not of the wrong length has its packet id. -/
theorem unseen_advance (sock : Fin 64) (awaited : PacketState) (advanced : PackidStateItem → PackidStateItem)
    (op : Operation) (received : Received buf header head length body) :
    Unseen (head :: (length ++ body)) w (advance sock header awaited advanced op) := by
  have some := received.some
  have two := received.two
  cases length with
  | nil => exact absurd some (Nat.lt_irrefl 0)
  | cons byte more =>
    rw [advance, wrongLength, bind_assoc]
    refine unseen_head (left_whole _).tail ?_
    rw [pure_bind]
    by_cases wrong : header.packetLength > 4 ∨ byte ≠ 2
    · rw [if_pos (decide_eq_true wrong)]
      exact (blind_dropConn _ _).unseen
    · rw [if_neg (by simpa using wrong)]
      obtain rfl : byte = 2 := by simpa using (not_or.mp wrong).2
      obtain ⟨rfl, size⟩ := two more rfl
      have long : 4 ≤ (head :: ([2] ++ body)).length := by
        rw [List.length_cons, List.length_append, size]
        decide
      refine (unseen_findItem sock awaited long).bind fun found t _ => Blind.unseen ?_
      cases found.2 with
      | none => exact blind_dropConn _ _
      | some entry =>
        exact (blind_setItem _ _ _).bind fun _ => (blind_request _).bind fun _ => blindRules.done _

theorem Received.left_over {msb lsb : UInt8} {payload : List UInt8}
    (received : Received buf header head length (msb :: lsb :: payload)) :
    header.packetLength - header.additionalPacketLen.toUInt16 - 2 = .ofNat payload.length := by
  have two : UInt16.ofNat 2 = 2 := rfl
  rw [received.rest, List.length_cons, List.length_cons, Nat.add_assoc, UInt16.ofNat_add, two]
  grind

theorem unseen_subscribeEvent (sock : Fin 64) (received : Received buf header head length body)
    (inside : SubscribeInside w sock head body) :
    Unseen (head :: (length ++ body)) w (subscribeEvent sock header) := by
  refine unseen_head (left_whole _) ?_
  by_cases reserved : head &&& 0x0F = subscribeReserved
  · rw [if_neg (not_not_intro reserved)]
    refine (blind_onHeap _).unseen.bind fun suback t ran => ?_
    obtain ⟨rfl, rfl⟩ := Prod.mk.inj (Except.ok.inj ran)
    by_cases memory : w.env.heap.alloc.1 = true
    · have left_over : (({} : Myvector UInt8).reserve 5 w.env.heap).2.2 = w.env.heap.alloc.2 := by
        simp [Myvector.reserve, memory]
      dsimp only
      rw [left_over]
      obtain ⟨msb, lsb, entries, more, rfl, ends⟩ := inside reserved memory
      have some : ¬ (!(({} : Myvector UInt8).reserve 5 w.env.heap).1) = true := by simp [Myvector.reserve, memory]
      have few : entries.length ≤ (entries.flatMap encodeSubscription).length :=
        length_le_flatMap (by simp [encodeSubscription]) entries
      have short := received.short
      have left := received.left
      have buffer : buffSize = 1024 := rfl
      rw [List.length_cons, List.length_cons, List.length_append] at short
      rw [if_neg some]
      refine unseen_head left (unseen_head left.tail ?_)
      rw [received.left_over]
      refine Unseen.bind ?_ fun suback t _ => Blind.unseen ?_
      · refine unseen_loop (subscribe_payload sock) (fun _ _ => blind_subscribeTopic _ _ _ _) entries left.tail.tail
          (by omega) ?_ ends
        rw [List.length_append]
        omega
      · refine (ruled_subackLength blindRules _ _ _ _ _).bind fun answer => ?_
        cases answer with
        | none => exact blind_dropConn _ _
        | some suback => exact (blind_write _ _ _).bind fun _ => (blind_request _).bind fun _ => blindRules.done _
    · have none : (!(({} : Myvector UInt8).reserve 5 w.env.heap).1) = true := by simp [Myvector.reserve, memory]
      rw [if_pos none]
      exact (blind_dropConn _ _).unseen
  · rw [if_pos reserved]
    exact (blind_dropConn _ _).unseen

/-- A connection that has been dropped has no client. -/
theorem dropConn_client {sendwill : Bool} {u : Unit} {w' : World} (ran : dropConn sock sendwill w = .ok (u, w')) :
    (w'.socks sock).client = none := by
  rw [dropConn, sockAt_bind_ok, log_bind_ok] at ran
  obtain ⟨_, w₁, -, ran⟩ := bind_ok.mp ran
  rw [log_bind_ok, sockAt_bind_ok] at ran
  obtain ⟨_, w₂, -, ran⟩ := bind_ok.mp ran
  rw [endSession, sockAt_bind_ok] at ran
  obtain ⟨_, w₃, -, ran⟩ := bind_ok.mp ran
  obtain rfl := setSock_ok.mp ran
  rw [World.setSock_socks]

theorem unseen_unsubscribeEvent (sock : Fin 64) (received : Received buf header head length body)
    (inside : UnsubscribeInside w sock head body) :
    Unseen (head :: (length ++ body)) w (unsubscribeEvent sock header) := by
  have opened : Blind (if head &&& 0x0F ≠ subscribeReserved then dropConn sock true else pure ()) := by
    split
    · exact blind_dropConn _ _
    · exact blindRules.done _
  refine unseen_head (left_whole _) (opened.unseen.bind fun _ t ran => ?_)
  rcases inside with ⟨wrong, never⟩ | ⟨msb, lsb, topics, more, rfl, ends⟩
  · rw [if_pos wrong] at ran
    exact absurd ran (never t)
  have few : topics.length ≤ (topics.flatMap field).length := length_le_flatMap (by simp [field]) topics
  have short := received.short
  have left := received.left
  have buffer : buffSize = 1024 := rfl
  rw [List.length_cons, List.length_cons, List.length_append] at short
  refine unseen_head left (unseen_head left.tail ?_)
  rw [received.left_over]
  refine Unseen.bind ?_ fun _ t _ => Blind.unseen ?_
  · refine unseen_loop (s := ()) (unsubscribe_payload sock) (fun _ _ => blind_unsubscribeTopic _ _) topics
      left.tail.tail (by omega) ?_ (ends.imp_right fun stuck => ?_)
    · rw [List.length_append]
      omega
    by_cases reserved : head &&& 0x0F = subscribeReserved
    · rw [if_neg (not_not_intro reserved)] at ran
      obtain ⟨-, rfl⟩ := pure_ok.mp ran
      rwa [if_pos reserved] at stuck
    · -- the connection has been dropped, so there is no client to unsubscribe
      rw [if_pos reserved] at ran
      rw [if_neg reserved] at stuck
      obtain ⟨topic, rest, rfl⟩ := List.exists_cons_of_ne_nil stuck
      rintro ⟨⟨addr, client, attached, -⟩, -⟩
      rw [dropConn_client ran] at attached
      cases attached
  · refine blind_stackByte.bind fun _ => (blind_write _ _ _).bind fun _ => ?_
    exact (blind_request _).bind fun _ => blindRules.done _

theorem unseen_dispatch (sock : Fin 64) (received : Received buf header head length body)
    (named : (w.socks sock).clientid ≠ []) (inside : Inside w sock head length body) :
    Unseen (head :: (length ++ body)) w (dispatch sock header) := by
  rw [Inside, if_neg named] at inside
  refine unseen_head (left_whole _) ?_
  by_cases publish : head &&& 0xF0 = 0x30
  · rw [if_pos publish] at inside ⊢
    exact unseen_publishEvent sock received inside
  rw [if_neg publish] at inside ⊢
  by_cases puback : head = 0x40
  · rw [if_pos puback] at inside ⊢
    exact unseen_settle sock _ _ _ received inside
  rw [if_neg puback] at inside ⊢
  by_cases pubrec : head = 0x50
  · rw [if_pos pubrec] at inside ⊢
    exact unseen_settle sock _ _ _ received inside
  rw [if_neg pubrec] at inside ⊢
  by_cases pubcomp : head = 0x70
  · rw [if_pos pubcomp]
    exact unseen_advance sock _ _ _ received
  rw [if_neg pubcomp]
  by_cases pubrel : head = 0x62
  · rw [if_pos pubrel]
    exact unseen_advance sock _ _ _ received
  rw [if_neg pubrel]
  by_cases subscribe : head &&& 0xF0 = 0x80
  · rw [if_pos subscribe] at inside ⊢
    exact unseen_subscribeEvent sock received inside
  rw [if_neg subscribe] at inside ⊢
  by_cases unsubscribe : head &&& 0xF0 = 0xA0
  · rw [if_pos unsubscribe] at inside ⊢
    exact unseen_unsubscribeEvent sock received inside
  rw [if_neg unsubscribe]
  refine Blind.unseen ?_
  split
  · exact ruled_pingEvent blindRules sock
  · split
    · exact ruled_disconnectEvent blindRules blind_dropConn sock
    · exact blindRules.done _

/-- A packet that has all that is read is handled as what it is, whatever is
behind it. -/
theorem unseen_handlePacket (sock : Fin 64) (received : Received w.buf header head length body)
    (inside : Inside (noted sock header w) sock head length body) :
    Unseen (head :: (length ++ body)) w (handlePacket sock header) := by
  intro begins front other
  refine Commutes.get ?_ ?_
  · change (log (.received sock (w.socks sock) (front.take _)) >>= _ : Worker Unit) = (log _ >>= _)
    rw [received.taken other.1, received.taken begins.1]
    rfl
  · refine Unseen.bind (blind_log _).unseen (fun _ t ran => ?_) begins front other
    obtain rfl := log_ok.mp ran
    by_cases unnamed : (w.socks sock).clientid = []
    · have inside : ConnectInside w.env.heap head body := by
        rw [Inside] at inside
        exact (if_pos unnamed).mp inside
      rw [if_pos unnamed]
      obtain ⟨rest, blind, same⟩ := ruled_afterConnect blindRules blind_dropConn sock header.curPos
      rw [same]
      refine Unseen.bind ?_ fun ret t _ => (blind ret).unseen
      exact unseen_connectMqtt sock (left_whole _) received.left inside
    · rw [if_neg unnamed]
      exact unseen_dispatch sock received unnamed inside

end Packets

end MqttBroker.Leftovers
