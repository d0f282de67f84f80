import MqttBroker.Worker.Decoding

/-! The packets that `connect_mqtt` refuses. It gets no packet length, so a
field that is cut off by the packet's end is read from what the buffer holds
behind it. -/
namespace MqttBroker.Rejection
open Logic Protocol Worker Decoding

variable {w w₁ w' : World} {α β : Type} {pos len : Nat} {buf rest : List UInt8}

/-! ### Buffers that end early -/

/-- A run that completes on a buffer that ends early is the same on the whole
buffer. -/
def Local (m : Worker α) : Prop :=
  ∀ (w : World) (front : List UInt8) (a : α) (w' : World), front <+: w.buf →
    m { w with buf := front } = .ok (a, w') → w'.buf = front ∧ m w = .ok (a, { w' with buf := w.buf })

theorem local_pure (a : α) : Local (pure a : Worker α) := by
  intro w front b w' inside ran
  obtain ⟨rfl, rfl⟩ := pure_ok.mp ran
  exact ⟨rfl, rfl⟩

theorem local_fault (kind : Fault) : Local (fault kind : Worker α) :=
  fun _ _ _ _ _ ran => absurd ran fault_ok

theorem local_bind {m : Worker α} {f : α → Worker β} (first : Local m) (rest : ∀ a, Local (f a)) :
    Local (m >>= f) := by
  intro w front b w' inside ran
  obtain ⟨a, w₁, ran₁, ran₂⟩ := bind_ok.mp ran
  obtain ⟨kept, full⟩ := first w front a w₁ inside ran₁
  have same : w₁ = { { w₁ with buf := w.buf } with buf := front } := by rw [← kept]
  rw [same] at ran₂
  obtain ⟨kept', full'⟩ := rest a { w₁ with buf := w.buf } front b w' inside ran₂
  exact ⟨kept', bind_ok.mpr ⟨a, _, full, full'⟩⟩

/-- Reading the state is local where the buffer is not looked at. -/
theorem local_get {f : World → Worker β} (rest : ∀ w, Local (f w))
    (blind : ∀ (w : World) (front : List UInt8), f { w with buf := front } = f w) :
    Local (get >>= f) := by
  intro w front b w' inside ran
  rw [get_bind_ok, blind] at ran
  exact rest w w front b w' inside ran

theorem local_check (outcome : Outcome α) : Local (check outcome) := by
  cases outcome with
  | ok answer => exact local_pure answer
  | error kind => exact local_fault kind

theorem local_onHeap (call : Heap → α × Heap) : Local (onHeap call) := by
  intro w front a w' inside ran
  obtain ⟨rfl, rfl⟩ := Prod.mk.inj (Except.ok.inj ran)
  exact ⟨rfl, rfl⟩

theorem local_setSock (sock : Fin 64) (f : SockCid → SockCid) : Local (setSock sock f) := by
  intro w front a w' inside ran
  obtain ⟨rfl, rfl⟩ := Prod.mk.inj (Except.ok.inj ran)
  exact ⟨rfl, rfl⟩

theorem local_connWrite (sock : Fin 64) (bytes : List UInt8) (item : Option PackidStateItem) :
    Local (connWrite sock bytes item) := by
  intro w front a w' inside ran
  obtain ⟨rfl, rfl⟩ := Prod.mk.inj (Except.ok.inj ran)
  exact ⟨rfl, rfl⟩

theorem local_connAck (sock : Fin 64) (returnCode : UInt8) (sessionPresentFlag : Bool) :
    Local (connAck sock returnCode sessionPresentFlag) :=
  local_bind (local_connWrite _ _ _) fun _ => local_pure _

theorem local_byteAt (pos : Nat) : Local (byteAt pos) := by
  intro w front byte w' inside ran
  rw [byteAt, get_bind_ok] at ran
  split at ran
  · rename_i within
    obtain ⟨rfl, rfl⟩ := pure_ok.mp ran
    obtain ⟨back, same⟩ := inside
    have longer : pos < w.buf.length := by
      rw [← same, List.length_append]
      exact Nat.lt_add_right _ within
    refine ⟨rfl, ?_⟩
    rw [byteAt_eq longer]
    congr 2
    rw [← same, List.getD_eq_getElem?_getD, List.getD_eq_getElem?_getD, List.getElem?_append_left within]
  · exact absurd ran fault_ok

theorem local_rangeAt (pos len : Nat) : Local (rangeAt pos len) := by
  intro w front bytes w' inside ran
  rw [rangeAt, get_bind_ok] at ran
  split at ran
  · rename_i within
    obtain ⟨rfl, rfl⟩ := pure_ok.mp ran
    obtain ⟨back, same⟩ := inside
    dsimp only at within
    have longer : pos + len ≤ w.buf.length := by
      rw [← same, List.length_append]
      exact Nat.le_add_right_of_le within
    refine ⟨rfl, ?_⟩
    change (if pos + len ≤ w.buf.length then pure ((w.buf.drop pos).take len)
      else fault .outOfBounds : Worker _) w = _
    rw [if_pos longer, ← same, List.drop_append_of_le_length (by omega),
      List.take_append_of_le_length (by rw [List.length_drop]; omega), same]
    rfl
  · exact absurd ran fault_ok

theorem local_ntohsAt (pos : Nat) : Local (ntohsAt pos) :=
  local_bind (local_byteAt _) fun _ => local_bind (local_byteAt _) fun _ => local_pure _

theorem local_matchesAt (pos : Nat) (bytes : List UInt8) : Local (matchesAt pos bytes) := by
  induction bytes generalizing pos with
  | nil => exact local_pure _
  | cons byte rest ih =>
    refine local_bind (local_byteAt _) fun _ => ?_
    split
    · exact local_pure _
    · exact ih _

theorem local_vectorAt (pos len : Nat) : Local (vectorAt pos len) := by
  unfold vectorAt
  split
  · exact local_pure _
  · refine local_bind (local_onHeap _) fun allocated => ?_
    split
    · exact local_bind (local_rangeAt _ _) fun _ => local_pure _
    · exact local_pure _

theorem local_readWill (pos : Nat) (will : Will) : Local (readWill pos will) := by
  refine local_bind (local_ntohsAt _) fun _ => local_bind (local_vectorAt _ _) fun _ => ?_
  split
  · exact local_pure _
  · refine local_bind (local_ntohsAt _) fun _ => local_bind (local_vectorAt _ _) fun _ => ?_
    split <;> exact local_pure _

theorem local_checkPasswordAt (username : List UInt8) (pos len : Nat) :
    Local (checkPasswordAt username pos len) := by
  refine local_get (fun w => local_bind ?_ fun _ => local_bind (local_check _) fun _ =>
    local_onHeap _) fun _ _ => rfl
  split
  · exact local_rangeAt _ _
  · exact local_pure _

theorem local_readCredentials (pos : Nat) (password : Bool) : Local (readCredentials pos password) := by
  refine local_bind (local_ntohsAt _) fun _ => local_bind (local_rangeAt _ _) fun _ => ?_
  dsimp only
  split
  · exact local_bind (local_ntohsAt _) fun _ => local_checkPasswordAt _ _ _
  · exact local_checkPasswordAt _ _ _

theorem local_readOptions (pos : Nat) (connFlags : UInt8) (will : Will) :
    Local (readOptions pos connFlags will) := by
  refine local_bind ?_ fun read => ?_
  · split
    · exact local_readWill _ _
    · exact local_pure _
  · cases read with
    | none => exact local_pure _
    | some read =>
      refine local_bind ?_ fun checked => ?_
      · split
        · exact local_readCredentials _ _
        · exact local_pure _
      · split <;> exact local_pure _

theorem local_connectMqtt (sock : Fin 64) (curPos : Nat) : Local (connectMqtt sock curPos) := by
  have refused : Local (pure (.disconnect, {}) : Worker (MqttConnReturn × Will)) := local_pure _
  refine local_bind (local_byteAt _) fun _ => ?_
  dsimp only
  split
  · exact refused
  refine local_bind (local_ntohsAt _) fun _ => ?_
  split
  · exact refused
  refine local_bind (local_matchesAt _ _) fun _ => ?_
  split
  · exact refused
  refine local_bind (local_byteAt _) fun _ => ?_
  split
  · exact local_bind (local_connAck _ _ _) fun _ => refused
  refine local_bind (local_byteAt _) fun _ => ?_
  split
  · exact refused
  split
  · exact refused
  refine local_bind (local_ntohsAt _) fun _ => local_bind (local_ntohsAt _) fun _ => ?_
  split
  · exact refused
  exact local_bind (local_rangeAt _ _) fun _ => local_bind (local_setSock _ _) fun _ =>
    local_readOptions _ _ _

/-! ### What is left of a packet -/

/-- The bytes of the buffer from a position to its end. -/
def Left (buf : List UInt8) (pos : Nat) (rest : List UInt8) : Prop :=
  ∃ front, buf = front ++ rest ∧ front.length = pos

theorem Left.holds (left : Left buf pos rest) : Holds buf pos rest := by
  obtain ⟨front, rfl, rfl⟩ := left
  exact ⟨front, [], by rw [List.append_nil], rfl⟩

theorem Left.tail {byte : UInt8} (left : Left buf pos (byte :: rest)) : Left buf (pos + 1) rest := by
  obtain ⟨front, rfl, rfl⟩ := left
  exact ⟨front ++ [byte], by simp, List.length_append⟩

theorem Left.drop (left : Left buf pos rest) (inside : len ≤ rest.length) :
    Left buf (pos + len) (rest.drop len) := by
  obtain ⟨front, rfl, rfl⟩ := left
  refine ⟨front ++ rest.take len, by simp, ?_⟩
  rw [List.length_append, List.length_take, Nat.min_eq_left inside]

theorem Left.length (left : Left buf pos rest) : buf.length = pos + rest.length := by
  obtain ⟨front, rfl, rfl⟩ := left
  exact List.length_append

theorem byteAt_cut (left : Left w.buf pos []) : byteAt pos w = .error .outOfBounds := by
  have ends := left.length
  rw [List.length_nil] at ends
  change (if pos < w.buf.length then pure (w.buf.getD pos 0) else fault .outOfBounds : Worker _) w = _
  rw [if_neg (by omega)]
  rfl

theorem rangeAt_left (left : Left w.buf pos rest) (inside : len ≤ rest.length) :
    rangeAt pos len w = .ok (rest.take len, w) := by
  have holds : Holds w.buf pos (rest.take len ++ rest.drop len) := by
    rw [List.take_append_drop]
    exact left.holds
  have read := rangeAt_holds holds
  rwa [List.length_take, Nat.min_eq_left inside] at read

theorem rangeAt_cut (left : Left w.buf pos rest) (cut : rest.length < len) :
    rangeAt pos len w = .error .outOfBounds := by
  have ends := left.length
  change (if pos + len ≤ w.buf.length then pure ((w.buf.drop pos).take len)
    else fault .outOfBounds : Worker _) w = _
  rw [if_neg (by omega)]
  rfl

/-- There is a byte, and the rest is such. -/
def First (rest : List UInt8) (next : UInt8 → List UInt8 → Prop) : Prop :=
  match rest with
  | byte :: behind => next byte behind
  | [] => False

/-- There is a length of two bytes, and the rest is such. -/
def Prefixed (rest : List UInt8) (next : Nat → List UInt8 → Prop) : Prop :=
  match rest with
  | high :: low :: behind => next (256 * high.toNat + low.toNat) behind
  | _ => False

/-- The rest is compared with some bytes and is found to differ, or it starts
with them and what is behind them is such. -/
def Compared : List UInt8 → List UInt8 → (List UInt8 → Prop) → Prop
  | [], rest, next => next rest
  | _ :: _, [], _ => False
  | byte :: bytes, first :: rest, next => first ≠ byte ∨ Compared bytes rest next

/-! ### Reading what is left -/

section Reads
variable {post : β → World → Prop}

theorem completes_byteAt {f : UInt8 → Worker β} {next : UInt8 → List UInt8 → Prop} (left : Left w.buf pos rest)
    (agrees : ∀ byte behind, Left w.buf (pos + 1) behind → (Completes w (f byte) post ↔ next byte behind)) :
    Completes w (byteAt pos >>= f) post ↔ First rest next := by
  rw [completes_bind]
  cases rest with
  | nil => exact iff_of_false (not_completes (byteAt_cut left)) id
  | cons byte behind =>
    exact (completes_of_ok (byteAt_holds left.holds)).trans (agrees byte behind left.tail)

theorem completes_ntohsAt {f : UInt16 → Worker β} {next : Nat → List UInt8 → Prop} (left : Left w.buf pos rest)
    (agrees : ∀ (len : UInt16) (behind : List UInt8), Left w.buf (pos + 2) behind →
      (Completes w (f len) post ↔ next len.toNat behind)) :
    Completes w (ntohsAt pos >>= f) post ↔ Prefixed rest next := by
  rw [completes_bind]
  match rest, left with
  | [], left =>
    have cut : ntohsAt pos w = .error .outOfBounds := by
      rw [ntohsAt, bind_of_error (byteAt_cut left)]
    exact iff_of_false (not_completes cut) id
  | [high], left =>
    have cut : ntohsAt pos w = .error .outOfBounds := by
      rw [ntohsAt, bind_of_ok (byteAt_holds left.holds), bind_of_error (byteAt_cut left.tail)]
    exact iff_of_false (not_completes cut) id
  | high :: low :: behind, left =>
    refine (completes_of_ok (ntohsAt_holds left.holds)).trans ?_
    rw [agrees _ behind left.tail.tail, word_toNat]
    rfl

theorem completes_rangeAt {f : List UInt8 → Worker β} {next : Prop} (left : Left w.buf pos rest)
    (agrees : len ≤ rest.length → Left w.buf (pos + len) (rest.drop len) →
      (Completes w (f (rest.take len)) post ↔ next)) :
    Completes w (rangeAt pos len >>= f) post ↔ len ≤ rest.length ∧ next := by
  rw [completes_bind]
  by_cases inside : len ≤ rest.length
  · rw [and_iff_right inside, completes_of_ok (rangeAt_left left inside)]
    exact agrees inside (left.drop inside)
  · exact iff_of_false (not_completes (rangeAt_cut left (Nat.lt_of_not_le inside))) fun both => inside both.1

theorem completes_matchesAt {m : Worker β} {b : β} {next : List UInt8 → Prop} (bytes : List UInt8)
    (left : Left w.buf pos rest) (done : post b w)
    (agrees : ∀ behind, Left w.buf (pos + bytes.length) behind → (Completes w m post ↔ next behind)) :
    Completes w (matchesAt pos bytes >>= fun same => if !same then pure b else m) post ↔
      Compared bytes rest next := by
  induction bytes generalizing pos rest with
  | nil => exact agrees rest left
  | cons byte bytes ih =>
    cases rest with
    | nil =>
      have cut : matchesAt pos (byte :: bytes) w = .error .outOfBounds := by
        rw [matchesAt, bind_of_error (byteAt_cut left)]
      exact iff_of_false (mt completes_bind.mp (not_completes cut)) id
    | cons first behind =>
      rw [matchesAt, bind_assoc, completes_bind, completes_of_ok (byteAt_holds left.holds)]
      by_cases differs : first ≠ byte
      · rw [if_pos differs]
        exact iff_of_true (completes_pure.mpr done) (.inl differs)
      · rw [if_neg differs]
        refine (ih left.tail fun behind left => agrees behind ?_).trans (or_iff_right differs).symm
        rw [List.length_cons, Nat.add_comm bytes.length 1, ← Nat.add_assoc]
        exact left

/-- There is no memory for a string, or it is there and what follows is such. -/
def Stored (heap : Heap) (rest : List UInt8) (next : Heap → List UInt8 → Prop) : Prop :=
  Prefixed rest fun len rest =>
    if len = 0 then next heap rest
    else if heap.alloc.1 then len ≤ rest.length ∧ next heap.alloc.2 (rest.drop len)
    else True

theorem prefixed_congr {p q : Nat → List UInt8 → Prop} (agrees : ∀ len rest, p len rest ↔ q len rest) :
    Prefixed rest p ↔ Prefixed rest q := by
  match rest with
  | [] => exact Iff.rfl
  | [_] => exact Iff.rfl
  | high :: low :: behind => exact agrees _ behind

theorem stored_congr {heap : Heap} {p q : Heap → List UInt8 → Prop} (agrees : ∀ heap rest, p heap rest ↔ q heap rest) :
    Stored heap rest p ↔ Stored heap rest q := by
  refine prefixed_congr fun len rest => ?_
  split
  · exact agrees _ _
  · split
    · exact and_congr_right fun _ => agrees _ _
    · exact Iff.rfl

/-- The world after an allocation. -/
def withHeap (w : World) (heap : Heap) : World := { w with env := { w.env with heap := heap } }

/-- A string is stored and its size is tested. -/
theorem completes_stored {m : UInt16 → Myvector UInt8 → Worker β} {b : β} {next : Heap → List UInt8 → Prop}
    (left : Left w.buf pos rest) (done : ∀ heap, post b (withHeap w heap))
    (agrees : ∀ (len : UInt16) (v : Myvector UInt8) heap behind, Left w.buf (pos + 2 + len.toNat) behind →
      (Completes (withHeap w heap) (m len v) post ↔ next heap behind)) :
    Completes w (ntohsAt pos >>= fun len => vectorAt (pos + 2) len.toNat >>= fun v =>
      if v.size ≠ len.toNat then pure b else m len v) post ↔ Stored w.env.heap rest next := by
  refine completes_ntohsAt left fun len behind left => ?_
  by_cases empty : len.toNat = 0
  · have read : vectorAt (pos + 2) len.toNat w = .ok ({}, w) := by
      rw [vectorAt, if_pos empty]
      rfl
    have fits : ¬ ({} : Myvector UInt8).size ≠ len.toNat := not_not_intro empty.symm
    rw [if_pos empty, completes_bind, completes_of_ok read, if_neg fits]
    exact agrees len {} w.env.heap behind (by rw [empty]; exact left)
  · rw [if_neg empty, completes_bind, vectorAt, if_neg empty, completes_bind]
    have allocated : onHeap Heap.alloc w = .ok (w.env.heap.alloc.1, withHeap w w.env.heap.alloc.2) := rfl
    rw [completes_of_ok allocated]
    by_cases memory : w.env.heap.alloc.1
    · rw [if_pos memory, if_pos memory]
      refine completes_rangeAt left fun inside left => ?_
      have fits : ¬ Myvector.size ⟨behind.take len.toNat, len.toNat⟩ ≠ len.toNat :=
        not_not_intro (List.length_take_of_le inside)
      rw [completes_pure, if_neg fits]
      exact agrees len _ _ _ left
    · have none : ({} : Myvector UInt8).size ≠ len.toNat := fun none => empty none.symm
      rw [if_neg memory, if_neg memory, completes_pure, if_pos none]
      exact iff_true_intro (completes_pure.mpr (done _))

end Reads

/-! ### What follows the client id -/

/-- `check_password` answers, and what follows where it accepts is such. -/
def Checked (w : World) (heap : Heap) (username pass : List UInt8) (next : Heap → Prop) : Prop :=
  ∃ accepted heap', UserCreds.checkPassword w.userCred w.env.digest username pass heap = .ok (accepted, heap') ∧
    (accepted = true → next heap')

/-- A password of a length is checked; without memory it is not looked at. -/
def PasswordChecked (w : World) (heap : Heap) (username : List UInt8) (len : Nat) (rest : List UInt8)
    (next : Heap → Prop) : Prop :=
  if heap.alloc.1 then len ≤ rest.length ∧ Checked w heap username (rest.take len) next
  else Checked w heap username (List.replicate len 0) next

/-- The user name and the password are there and checked, if there are to be
any. -/
def Credentials (w : World) (flags : UInt8) (heap : Heap) (rest : List UInt8) (next : Heap → Prop) : Prop :=
  if flags &&& 0x80 ≠ 0 then Prefixed rest fun len rest => len ≤ rest.length ∧
    if flags &&& 0x40 ≠ 0 then
      Prefixed (rest.drop len) fun passLen behind => PasswordChecked w heap (rest.take len) passLen behind next
    else PasswordChecked w heap (rest.take len) 0 (rest.drop len) next
  else next heap

/-- What follows the client id is there. -/
def Options (w : World) (flags : UInt8) (rest : List UInt8) (next : Heap → Prop) : Prop :=
  if flags &&& 0x04 ≠ 0 then Stored w.env.heap rest fun heap rest =>
    Stored heap rest fun heap rest => Credentials w flags heap rest next
  else Credentials w flags w.env.heap rest next

section Options
variable {pos : Nat} {rest : List UInt8} {flags : UInt8} {next : World → Prop}

theorem checkPasswordAt_iff {username : List UInt8} {len : Nat} (left : Left w.buf pos rest) :
    Completes w (checkPasswordAt username pos len) (fun accepted w' => accepted = true → next w') ↔
      PasswordChecked w w.env.heap username len rest fun heap => next (withHeap w heap) := by
  have checks (pass : List UInt8) : Completes w
      (check (UserCreds.checkPassword w.userCred w.env.digest username pass w.env.heap) >>=
        fun checked => onHeap fun _ => checked) (fun accepted w' => accepted = true → next w') ↔
      Checked w w.env.heap username pass fun heap => next (withHeap w heap) := by
    have put (answer : Bool × Heap) : onHeap (fun _ => answer) w = .ok (answer.1, withHeap w answer.2) := rfl
    refine completes_check.trans ⟨?_, ?_⟩
    · rintro ⟨answer, checked, ends⟩
      exact ⟨answer.1, answer.2, checked, (completes_of_ok (put answer)).mp ends⟩
    · rintro ⟨accepted, heap, checked, goes⟩
      exact ⟨(accepted, heap), checked, (completes_of_ok (put (accepted, heap))).mpr goes⟩
  have read : (get : Worker World) w = .ok (w, w) := rfl
  refine (completes_next read).trans ?_
  rw [PasswordChecked]
  by_cases memory : w.env.heap.alloc.1
  · rw [if_pos memory, if_pos memory]
    exact completes_rangeAt left fun _ _ => checks _
  · have blank : (pure (List.replicate len 0) : Worker (List UInt8)) w = .ok (List.replicate len 0, w) := rfl
    rw [if_neg memory, if_neg memory]
    exact (completes_next blank).trans (checks _)

theorem readCredentials_iff (left : Left w.buf pos rest) :
    Completes w (if flags &&& 0x80 ≠ 0 then readCredentials pos (flags &&& 0x40 ≠ 0) else pure true)
      (fun accepted w' => accepted = true → next w') ↔
      Credentials w flags w.env.heap rest fun heap => next (withHeap w heap) := by
  rw [Credentials]
  by_cases owned : flags &&& 0x80 ≠ 0
  · rw [if_pos owned, if_pos owned]
    refine completes_ntohsAt left fun len behind left => completes_rangeAt left fun inside left => ?_
    dsimp only
    by_cases guarded : flags &&& 0x40 ≠ 0
    · rw [if_pos guarded, if_pos (decide_eq_true guarded)]
      exact completes_ntohsAt left fun len behind left => checkPasswordAt_iff left
    · rw [if_neg guarded, if_neg (by simpa using guarded)]
      exact checkPasswordAt_iff left
  · rw [if_neg owned, if_neg owned]
    exact completes_pure.trans (imp_iff_right rfl)

/-- The packet is refused, or the world it leads to is such. -/
def Going (next : World → Prop) (answer : MqttConnReturn × Will) (w : World) : Prop :=
  answer.1 = .disconnect ∨ next w

theorem readOptions_iff {will : Will} (willed : will.presenceFlag = true ↔ flags &&& 0x04 ≠ 0)
    (left : Left w.buf pos rest) :
    Completes w (readOptions pos flags will) (Going next) ↔
      Options w flags rest fun heap => next (withHeap w heap) := by
  have credentials {w : World} {pos : Nat} {rest : List UInt8} (will : Will) (left : Left w.buf pos rest) :
      Completes w (do
        if ← (if flags &&& 0x80 ≠ 0 then readCredentials pos (flags &&& 0x40 ≠ 0) else pure true) then
          pure (if flags &&& 0x02 ≠ 0 then .cleanSession else .uncleanSession, will)
        else pure (.disconnect, {})) (Going next) ↔
        Credentials w flags w.env.heap rest fun heap => next (withHeap w heap) := by
    rw [completes_bind, ← readCredentials_iff left]
    have answers (accepted : Bool) (w' : World) : Completes w'
        (if accepted = true then pure (if flags &&& 0x02 ≠ 0 then .cleanSession else .uncleanSession, will)
          else pure (.disconnect, {}) : Worker (MqttConnReturn × Will)) (Going next) ↔ (accepted = true → next w') := by
      cases accepted with
      | false => exact iff_of_true (completes_pure.mpr (.inl rfl)) nofun
      | true =>
        rw [if_pos rfl, completes_pure, imp_iff_right rfl]
        refine or_iff_right fun wrong => ?_
        dsimp only at wrong
        split at wrong <;> cases wrong
    exact ⟨fun ends => ends.mono fun a t => (answers a t).mp, fun ends => ends.mono fun a t => (answers a t).mpr⟩
  rw [readOptions, completes_bind, Options]
  by_cases present : flags &&& 0x04 ≠ 0
  · rw [if_pos present, if_pos (willed.mpr present)]
    refine completes_stored left (fun heap => completes_pure.mpr (.inl rfl)) fun topicLen topic heap behind left => ?_
    refine completes_stored left (fun heap => completes_pure.mpr (.inl rfl)) fun msgLen msg heap behind left => ?_
    exact completes_pure.trans (credentials _ left)
  · rw [if_neg present, if_neg (mt willed.mp present), completes_pure]
    exact credentials will left

end Options

/-! ### Where `connect_mqtt` refuses -/

/-- `check_password` answers false. -/
def Unaccepted (w : World) (heap : Heap) (username pass : List UInt8) : Prop :=
  ∃ heap', UserCreds.checkPassword w.userCred w.env.digest username pass heap = .ok (false, heap')

/-- A password of a length is refused; without memory it is not looked at. -/
def PasswordRefused (w : World) (heap : Heap) (username : List UInt8) (len : Nat) (rest : List UInt8) :
    Prop :=
  if heap.alloc.1 then len ≤ rest.length ∧ Unaccepted w heap username (rest.take len)
  else Unaccepted w heap username (List.replicate len 0)

/-- The user name and the password are refused. -/
def CredentialsRefused (w : World) (flags : UInt8) (heap : Heap) (rest : List UInt8) : Prop :=
  flags &&& 0x80 ≠ 0 ∧ Prefixed rest fun len rest => len ≤ rest.length ∧
    if flags &&& 0x40 ≠ 0 then Prefixed (rest.drop len) (PasswordRefused w heap (rest.take len))
    else PasswordRefused w heap (rest.take len) 0 (rest.drop len)

/-- What follows the client id is refused. -/
def OptionsRefused (w : World) (flags : UInt8) (rest : List UInt8) : Prop :=
  if flags &&& 0x04 ≠ 0 then Stored w.env.heap rest fun heap rest =>
    Stored heap rest (CredentialsRefused w flags)
  else CredentialsRefused w flags w.env.heap rest

/-- The answer is `disconnect`. -/
def Refuses (answer : MqttConnReturn × Will) (_ : World) : Prop := answer.1 = .disconnect

theorem checked_never {heap : Heap} {username pass : List UInt8} :
    Checked w heap username pass (fun _ => False) ↔ Unaccepted w heap username pass := by
  constructor
  · rintro ⟨accepted, heap', ran, never⟩
    obtain rfl := Bool.eq_false_iff.mpr never
    exact ⟨heap', ran⟩
  · rintro ⟨heap', ran⟩
    exact ⟨false, heap', ran, Bool.noConfusion⟩

theorem passwordChecked_never {heap : Heap} {username : List UInt8} :
    PasswordChecked w heap username len rest (fun _ => False) ↔ PasswordRefused w heap username len rest := by
  unfold PasswordChecked PasswordRefused
  split
  · exact and_congr_right fun _ => checked_never
  · exact checked_never

theorem credentials_never {flags : UInt8} {heap : Heap} :
    Credentials w flags heap rest (fun _ => False) ↔ CredentialsRefused w flags heap rest := by
  unfold Credentials CredentialsRefused
  by_cases owned : flags &&& 0x80 ≠ 0
  · rw [if_pos owned, and_iff_right owned]
    refine prefixed_congr fun len rest => and_congr_right fun _ => ?_
    split
    · exact prefixed_congr fun _ _ => passwordChecked_never
    · exact passwordChecked_never
  · rw [if_neg owned]
    exact iff_of_false id fun both => owned both.1

/-- What is accepted by nothing is refused. -/
theorem options_never {flags : UInt8} : Options w flags rest (fun _ => False) ↔ OptionsRefused w flags rest := by
  unfold Options OptionsRefused
  split
  · exact stored_congr fun heap rest => stored_congr fun heap rest => credentials_never
  · exact credentials_never

theorem readOptions_refused {flags : UInt8} {will : Will}
    (willed : will.presenceFlag = true ↔ flags &&& 0x04 ≠ 0) (left : Left w.buf pos rest) :
    Completes w (readOptions pos flags will) Refuses ↔ OptionsRefused w flags rest := by
  have read : Completes w (readOptions pos flags will) (Going fun _ => False) ↔ Options w flags rest fun _ => False :=
    readOptions_iff willed left
  rw [← options_never, ← read]
  exact completes_congr fun _ _ _ => (or_iff_left not_false).symm

/-- A packet that shows itself to be none of a client's before it ends: its
first byte, or the first of these fields that is wrong, is inside with all that
is read before it. -/
def Stops (w : World) (head : UInt8) (body : List UInt8) : Prop :=
  head &&& 0x0F ≠ 0 ∨ Prefixed body fun len rest => len ≠ 4 ∨
    Compared [0x4D, 0x51, 0x54, 0x54] rest fun rest => First rest fun level rest => level ≠ 4 ∨
      First rest fun flags rest => flags &&& 0x01 ≠ 0 ∨ (flags &&& 0x04 = 0 ∧ flags &&& 0x38 ≠ 0) ∨
        Prefixed rest fun _ rest => Prefixed rest fun len rest => ¬ (1 ≤ len ∧ len ≤ 23) ∨
          len ≤ rest.length ∧ OptionsRefused w flags (rest.drop len)

theorem willOfFlags_present (flags : UInt8) :
    (willOfFlags flags).presenceFlag = true ↔ flags &&& 0x04 ≠ 0 := by
  unfold willOfFlags
  by_cases present : flags &&& 0x04 ≠ 0
  · rw [if_pos present]
    exact iff_of_true rfl present
  · rw [if_neg present]
    exact iff_of_false Bool.noConfusion present

/-- A packet that is none of a client's, or that has a client id and is such
behind it. -/
def Fronted (head : UInt8) (body : List UInt8) (next : UInt8 → Key → List UInt8 → Prop) : Prop :=
  head &&& 0x0F ≠ 0 ∨ Prefixed body fun len rest => len ≠ 4 ∨
    Compared [0x4D, 0x51, 0x54, 0x54] rest fun rest => First rest fun level rest => level ≠ 4 ∨
      First rest fun flags rest => flags &&& 0x01 ≠ 0 ∨ (flags &&& 0x04 = 0 ∧ flags &&& 0x38 ≠ 0) ∨
        Prefixed rest fun _ rest => Prefixed rest fun len rest => ¬ (1 ≤ len ∧ len ≤ 23) ∨
          len ≤ rest.length ∧ next flags (rest.take len) (rest.drop len)

/-- A socket with the client id of a CONNECT. -/
def named (w : World) (sock : Fin 64) (clientid : Key) : World := w.setSock sock ({ · with clientid := clientid })

theorem connectMqtt_fronted (sock : Fin 64) {curPos : Nat} {head : UInt8} {body : List UInt8}
    {post : MqttConnReturn × Will → World → Prop} {next : UInt8 → Key → List UInt8 → Prop}
    (first : Holds w.buf 0 [head]) (left : Left w.buf curPos body) (done : ∀ w, post (.disconnect, {}) w)
    (agrees : ∀ flags clientid rest pos, Left w.buf pos rest →
      (Completes (named w sock clientid) (readOptions pos flags (willOfFlags flags)) post ↔
        next flags clientid rest)) :
    Completes w (connectMqtt sock curPos) post ↔ Fronted head body next := by
  rw [connectMqtt, completes_bind, completes_of_ok (byteAt_holds first)]
  refine completes_unless (done w) (completes_ntohsAt left fun len rest left => ?_)
  have four : len ≠ 4 ↔ len.toNat ≠ 4 := not_congr UInt16.toNat_inj.symm
  refine (completes_unless (done w) ?_).trans (or_congr_left four)
  refine completes_matchesAt _ left (done w) fun rest left => completes_byteAt left fun level rest left => ?_
  by_cases other : level ≠ 4
  · have answered : connAck sock 0x01 true w = .ok (_, _) := rfl
    rw [if_pos other, completes_bind, completes_of_ok answered]
    exact iff_of_true (completes_pure.mpr (done _)) (.inl other)
  rw [if_neg other, or_iff_right other]
  refine completes_byteAt left fun flags rest left => completes_unless (done w) ?_
  have willed : (!(willOfFlags flags).presenceFlag && decide (flags &&& 0x38 ≠ 0)) = true ↔
      flags &&& 0x04 = 0 ∧ flags &&& 0x38 ≠ 0 := by
    rw [Bool.and_eq_true, Bool.not_eq_true', decide_eq_true_iff, ← Bool.not_eq_true, willOfFlags_present,
      not_not]
  refine (completes_unless (done w) ?_).trans (or_congr_left willed)
  refine completes_ntohsAt left fun _ rest left => completes_ntohsAt left fun len rest left => ?_
  have invalid : len < 1 ∨ len > 23 ↔ ¬ (1 ≤ len.toNat ∧ len.toNat ≤ 23) := by
    simp only [UInt16.lt_iff_toNat_lt, gt_iff_lt, UInt16.toNat_ofNat]
    omega
  refine (completes_unless (done w) ?_).trans (or_congr_left invalid)
  refine completes_rangeAt left fun inside left => ?_
  have entered : setSock sock ({ · with clientid := rest.take len.toNat }) w =
    .ok ((), named w sock (rest.take len.toNat)) := rfl
  rw [completes_bind, completes_of_ok entered]
  exact agrees _ _ _ _ left

theorem connectMqtt_refused (sock : Fin 64) {curPos : Nat} {head : UInt8} {body : List UInt8}
    (first : Holds w.buf 0 [head]) (left : Left w.buf curPos body) :
    Completes w (connectMqtt sock curPos) Refuses ↔ Stops w head body :=
  connectMqtt_fronted sock first left (fun _ => rfl) fun flags clientid _ _ left =>
    readOptions_refused (w := named w sock clientid) (willOfFlags_present flags) left

/-- A CONNECT of a client with an id of 1 to 23 bytes. What follows its last
field is not looked at. -/
def WellFormed (head : UInt8) (body : List UInt8) : Prop :=
  head = 0x10 ∧ ∃ packet : ConnectPacket, packet.body <+: body

/-- The connection of a packet of `n` bytes is dropped without a client, and the
answer is there if the buffer ends with the packet. -/
def Rejects (sock : Fin 64) (curPos n : Nat) (w : World) : Prop :=
  (∃ will w', connectMqtt sock curPos w = .ok ((.disconnect, will), w') ∧
      connectEvent sock curPos w = dropConn sock true w') ∧
    ∃ answer w', connectMqtt sock curPos { w with buf := w.buf.take n } = .ok (answer, w')

/-- It is enough to look at the buffer that ends with the packet. -/
theorem rejects_iff (sock : Fin 64) (curPos n : Nat) (w : World) : Rejects sock curPos n w ↔
    Completes { w with buf := w.buf.take n } (connectMqtt sock curPos) Refuses := by
  constructor
  · rintro ⟨⟨will, w', ran, -⟩, answer, w'', cut⟩
    obtain ⟨-, full⟩ := local_connectMqtt sock curPos w _ _ _ (List.take_prefix n w.buf) cut
    obtain ⟨rfl, -⟩ := Prod.mk.inj (Except.ok.inj (ran.symm.trans full))
    exact ⟨_, w'', cut, rfl⟩
  · rintro ⟨⟨ret, will⟩, w', cut, refused⟩
    obtain rfl : ret = .disconnect := refused
    obtain ⟨-, full⟩ := local_connectMqtt sock curPos w _ _ _ (List.take_prefix n w.buf) cut
    refine ⟨⟨will, _, full, ?_⟩, _, _, cut⟩
    rw [connectEvent, bind_of_ok full]
    rfl

/-- A packet that is none of a client's is rejected inside exactly if it stops
before its end. -/
theorem malformed_rejected_iff (sock : Fin 64) (head : UInt8) (length body : List UInt8) (w : World)
    (read : head :: (length ++ body) <+: w.buf) :
    (¬ WellFormed head body →
        Rejects sock (1 + length.length) (head :: (length ++ body)).length w) ↔
      WellFormed head body ∨ Stops w head body := by
  have cut : w.buf.take (head :: (length ++ body)).length = head :: (length ++ body) :=
    (List.prefix_iff_eq_take.mp read).symm
  have stops := connectMqtt_refused (w := { w with buf := head :: (length ++ body) }) sock
    ⟨[], length ++ body, rfl, rfl⟩ (⟨head :: length, rfl, Nat.add_comm _ _⟩ : Left _ (1 + length.length) body)
  rw [rejects_iff, cut, stops]
  exact or_iff_not_imp_left.symm

/-- A CONNECT under the first byte of a PUBLISH. -/
def disguised : World :=
  { World.initial .clean with
    buf := [0x30, 13, 0, 4, 0x4D, 0x51, 0x54, 0x54, 4, 2, 0, 60, 0, 1, 97] ++ List.replicate 1009 0 }

theorem disguised_rejected_iff :
    (¬ WellFormed 0x30 [0, 4, 0x4D, 0x51, 0x54, 0x54, 4, 2, 0, 60, 0, 1, 97] → Rejects 0 2 15 disguised) ↔
      WellFormed 0x30 [0, 4, 0x4D, 0x51, 0x54, 0x54, 4, 2, 0, 60, 0, 1, 97] ∨
        Stops disguised 0x30 [0, 4, 0x4D, 0x51, 0x54, 0x54, 4, 2, 0, 60, 0, 1, 97] :=
  malformed_rejected_iff 0 0x30 [13] _ disguised ⟨List.replicate 1009 0, rfl⟩

theorem disguised_accepted :
    ¬ WellFormed 0x30 [0, 4, 0x4D, 0x51, 0x54, 0x54, 4, 2, 0, 60, 0, 1, 97] ∧
      ¬ Rejects 0 2 15 disguised := by
  refine ⟨fun formed => absurd formed.1 (by decide), fun rejected => ?_⟩
  obtain ⟨⟨ret, will⟩, w', ran, refused⟩ := (rejects_iff 0 2 15 disguised).mp rejected
  have accepted : connectMqtt 0 2 { disguised with buf := disguised.buf.take 15 } =
      .ok ((.cleanSession, {}), _) := rfl
  obtain ⟨same, -⟩ := Prod.mk.inj (Except.ok.inj (accepted.symm.trans ran))
  cases same
  cases refused

end MqttBroker.Rejection
