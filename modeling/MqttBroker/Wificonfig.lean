import Mathlib.Data.List.Count
import Mathlib.Data.List.Induction
import Mathlib.Data.List.TakeWhile
import MqttBroker.Logic.Bytes

/-! The connection to the access point: the handler of its events, and the wait
of `wifi_init_sta` for the first address or for the retries to be used up. -/
namespace MqttBroker.Wificonfig
open Logic

def maximumRetry : Nat := 10

/-- The events by `event_base` and `event_id`; nothing is done for the rest. -/
inductive WifiEvent
  | staStart
  | staDisconnected
  | gotIp
  | other
  deriving DecidableEq

/-- `s_retry_num`, the bits of `s_wifi_event_group`, and how often
`esp_wifi_connect` was called. -/
structure Station where
  sRetryNum : Nat := 0
  connectedBit : Bool := false
  failBit : Bool := false
  connects : Nat := 0
  deriving DecidableEq

def eventHandler (s : Station) : WifiEvent → Station
  | .staStart => { s with connects := s.connects + 1 }
  | .staDisconnected =>
    if s.sRetryNum < maximumRetry then { s with connects := s.connects + 1, sRetryNum := s.sRetryNum + 1 }
    else { s with failBit := true }
  | .gotIp => { s with sRetryNum := 0, connectedBit := true }
  | .other => s

/-- The station after these events. -/
def handled (events : List WifiEvent) : Station := events.foldl eventHandler {}

/-- `xEventGroupWaitBits` for one of the two bits: the station as it is when the
wait is over. -/
def waitBits (s : Station) : List WifiEvent → Option Station
  | [] => if s.connectedBit || s.failBit then some s else none
  | e :: later => if s.connectedBit || s.failBit then some s else waitBits (eventHandler s e) later

inductive EspErr
  | ok
  | fail
  deriving DecidableEq

/-- `wifi_init_sta`, with the events before its wait and those that come while it
waits; `none` while it still does. -/
def wifiInitSta (before later : List WifiEvent) : Option EspErr :=
  (waitBits (handled before) later).map fun s => if s.connectedBit then .ok else .fail

/-- The disconnects since the last address. -/
def lostSince (events : List WifiEvent) : Nat := (events.reverse.takeWhile (· ≠ .gotIp)).count .staDisconnected

/-- A disconnect has come for which no retry was left. -/
def UsedUp (events : List WifiEvent) : Prop :=
  ∃ before later, events = before ++ .staDisconnected :: later ∧ maximumRetry ≤ lostSince before

variable {events before later : List WifiEvent} {e : WifiEvent} {s : Station}

/-! ### The handler -/

theorem handled_concat (events : List WifiEvent) (e : WifiEvent) :
    handled (events ++ [e]) = eventHandler (handled events) e := by
  rw [handled, List.foldl_append]
  rfl

theorem lostSince_gotIp (events : List WifiEvent) : lostSince (events ++ [.gotIp]) = 0 := by
  simp [lostSince]

theorem lostSince_concat (other : e ≠ .gotIp) :
    lostSince (events ++ [e]) = lostSince events + if e = .staDisconnected then 1 else 0 := by
  simp only [lostSince, List.reverse_append, List.reverse_singleton, List.singleton_append, ne_eq, other,
    not_false_eq_true, decide_true, List.takeWhile_cons_of_pos, List.count_cons, beq_iff_eq]

theorem usedUp_concat : UsedUp (events ++ [e]) ↔
    UsedUp events ∨ e = .staDisconnected ∧ maximumRetry ≤ lostSince events := by
  constructor
  · rintro ⟨before, later, split, used⟩
    rcases List.eq_nil_or_concat later with rfl | ⟨shorter, last, rfl⟩
    · obtain ⟨rfl, same⟩ := List.append_inj' split rfl
      cases same
      exact .inr ⟨rfl, used⟩
    · rw [List.concat_eq_append, ← List.cons_append, ← List.append_assoc] at split
      obtain ⟨same, -⟩ := List.append_inj' split rfl
      exact .inl ⟨before, shorter, same, used⟩
  · rintro (⟨before, later, rfl, used⟩ | ⟨rfl, used⟩)
    · exact ⟨before, later ++ [e], by simp, used⟩
    · exact ⟨events, [], rfl, used⟩

/-- What the station keeps of its events. -/
structure Tells (events : List WifiEvent) (s : Station) : Prop where
  retries : s.sRetryNum = min maximumRetry (lostSince events)
  connected : s.connectedBit = true ↔ .gotIp ∈ events
  failed : s.failBit = true ↔ UsedUp events

theorem tells_handled (events : List WifiEvent) : Tells events (handled events) := by
  induction events using List.reverseRecOn with
  | nil =>
    refine ⟨rfl, iff_of_false nofun List.not_mem_nil, iff_of_false nofun ?_⟩
    rintro ⟨before, later, split, -⟩
    simp at split
  | append_singleton events e ih =>
    obtain ⟨retries, connected, failed⟩ := ih
    rw [handled_concat]
    cases e with
    | gotIp =>
      refine ⟨?_, ?_, ?_⟩
      · rw [lostSince_gotIp]
        rfl
      · simp [eventHandler]
      · rw [usedUp_concat]
        simpa [eventHandler] using failed
    | staDisconnected =>
      have lost : lostSince (events ++ [.staDisconnected]) = lostSince events + 1 := lostSince_concat nofun
      dsimp only [eventHandler]
      split
      · rename_i left
        rw [retries] at left
        refine ⟨?_, ?_, ?_⟩
        · dsimp only
          omega
        · simpa using connected
        · rw [usedUp_concat, failed]
          have enough : ¬ maximumRetry ≤ lostSince events := by omega
          simp [enough]
      · rename_i none
        rw [retries] at none
        refine ⟨?_, ?_, ?_⟩
        · dsimp only
          omega
        · simpa using connected
        · rw [usedUp_concat]
          simp only [true_and]
          exact iff_of_true trivial (.inr (by omega))
    | staStart | other =>
      refine ⟨?_, ?_, ?_⟩
      · simpa [eventHandler, lostSince_concat] using retries
      · simpa [eventHandler] using connected
      · rw [usedUp_concat]
        simpa [eventHandler] using failed

/-! ### The wait -/

theorem lostSince_none (none : .gotIp ∉ events) : lostSince events = events.count .staDisconnected := by
  have all : events.reverse.takeWhile (· ≠ .gotIp) = events.reverse := by
    refine List.takeWhile_eq_self_iff.mpr fun e member => ?_
    simp only [decide_eq_true_eq]
    rintro rfl
    exact none (List.mem_reverse.mp member)
  rw [lostSince, all, List.count_reverse]

/-- Without an address the eleventh disconnect is one too many. -/
theorem usedUp_iff (none : .gotIp ∉ events) : UsedUp events ↔ maximumRetry < events.count .staDisconnected := by
  induction events using List.reverseRecOn with
  | nil =>
    refine iff_of_false ?_ (Nat.not_lt_zero _)
    rintro ⟨before, later, split, -⟩
    simp at split
  | append_singleton events e ih =>
    have before : .gotIp ∉ events := fun member => none (List.mem_append_left _ member)
    rw [usedUp_concat, ih before, lostSince_none before, List.count_append, List.count_singleton]
    by_cases lost : e = .staDisconnected
    · subst lost
      simp only [true_and, beq_self_eq_true, if_true]
      omega
    · simp [lost]

theorem bits_none (none : .gotIp ∉ events) : (handled events).connectedBit = false ∧
    ((handled events).failBit = true ↔ maximumRetry < events.count .staDisconnected) := by
  obtain ⟨-, connected, failed⟩ := tells_handled events
  exact ⟨Bool.eq_false_iff.mpr fun set => none (connected.mp set), failed.trans (usedUp_iff none)⟩

theorem wifiInitSta_got (got : .gotIp ∈ before) : wifiInitSta before later = some .ok := by
  have connected := (tells_handled before).connected.mpr got
  cases later <;> simp [wifiInitSta, waitBits, connected]

theorem wifiInitSta_failed (none : .gotIp ∉ before) (many : maximumRetry < before.count .staDisconnected) :
    wifiInitSta before later = some .fail := by
  obtain ⟨connected, failed⟩ := bits_none none
  cases later <;> simp [wifiInitSta, waitBits, connected, failed.mpr many]

theorem failBit_none (none : .gotIp ∉ before) (few : before.count .staDisconnected ≤ maximumRetry) :
    (handled before).failBit = false :=
  Bool.eq_false_iff.mpr fun set => absurd ((bits_none none).2.mp set) (Nat.not_lt.mpr few)

theorem wifiInitSta_waits (none : .gotIp ∉ before) (few : before.count .staDisconnected ≤ maximumRetry) :
    wifiInitSta before [] = .none := by
  simp [wifiInitSta, waitBits, (bits_none none).1, failBit_none none few]

/-- While no bit is set the next event is waited for. -/
theorem wifiInitSta_goes_on (none : .gotIp ∉ before) (few : before.count .staDisconnected ≤ maximumRetry) :
    wifiInitSta before (e :: later) = wifiInitSta (before ++ [e]) later := by
  simp [wifiInitSta, waitBits, (bits_none none).1, failBit_none none few, handled_concat]

/-- The ways in which the wait can go. -/
inductive Waits (before later : List WifiEvent) : Option EspErr → Prop
  | early : .gotIp ∈ before → Waits before later (some .ok)
  | ok (first rest : List WifiEvent) : later = first ++ .gotIp :: rest → .gotIp ∉ before ++ first →
      (before ++ first).count .staDisconnected ≤ maximumRetry → Waits before later (some .ok)
  | fail (first rest : List WifiEvent) : later = first ++ rest → .gotIp ∉ before ++ first →
      maximumRetry < (before ++ first).count .staDisconnected → Waits before later (some .fail)
  | waits : .gotIp ∉ before ++ later → (before ++ later).count .staDisconnected ≤ maximumRetry →
      Waits before later none

theorem waits_wifiInitSta (before later : List WifiEvent) : Waits before later (wifiInitSta before later) := by
  induction later generalizing before with
  | nil =>
    by_cases got : .gotIp ∈ before
    · rw [wifiInitSta_got got]
      exact .early got
    rcases Nat.lt_or_ge maximumRetry (before.count .staDisconnected) with many | few
    · rw [wifiInitSta_failed got many]
      exact .fail [] [] rfl (by simpa using got) (by simpa using many)
    · rw [wifiInitSta_waits got few]
      exact .waits (by simpa using got) (by simpa using few)
  | cons e later ih =>
    by_cases got : .gotIp ∈ before
    · rw [wifiInitSta_got got]
      exact .early got
    rcases Nat.lt_or_ge maximumRetry (before.count .staDisconnected) with many | few
    · rw [wifiInitSta_failed got many]
      exact .fail [] (e :: later) rfl (by simpa using got) (by simpa using many)
    rw [wifiInitSta_goes_on got few]
    have step := ih (before ++ [e])
    generalize wifiInitSta (before ++ [e]) later = answer at step
    cases step with
    | early now =>
      obtain rfl : .gotIp = e := by simpa [got] using now
      exact .ok [] later rfl (by simpa using got) (by simpa using few)
    | ok first rest split none small =>
      rw [List.append_assoc] at none small
      exact .ok (e :: first) rest (congrArg (e :: ·) split) none small
    | fail first rest split none large =>
      rw [List.append_assoc] at none large
      exact .fail (e :: first) rest (congrArg (e :: ·) split) none large
    | waits none small =>
      rw [List.append_assoc] at none small
      exact .waits none small

theorem Waits.answered {answer : Option EspErr} (waits : Waits before later answer) :
    wifiInitSta before later = answer := by
  induction later generalizing before with
  | nil =>
    cases waits with
    | early got => exact wifiInitSta_got got
    | ok first rest split => simp at split
    | fail first rest split none large =>
      obtain ⟨rfl, -⟩ := List.append_eq_nil_iff.mp split.symm
      exact wifiInitSta_failed (by simpa using none) (by simpa using large)
    | waits none small => exact wifiInitSta_waits (by simpa using none) (by simpa using small)
  | cons e later ih =>
    cases waits with
    | early got => exact wifiInitSta_got got
    | ok first rest split none small =>
      have before_none : .gotIp ∉ before := fun member => none (List.mem_append_left first member)
      have few : before.count .staDisconnected ≤ maximumRetry := by
        rw [List.count_append] at small
        omega
      rw [wifiInitSta_goes_on before_none few]
      cases first with
      | nil =>
        obtain ⟨rfl, rfl⟩ := List.cons.inj split
        exact wifiInitSta_got (List.mem_append_right before (List.mem_singleton_self _))
      | cons e' first =>
        obtain ⟨rfl, rfl⟩ := List.cons.inj split
        rw [List.append_cons] at none small
        exact ih (.ok first rest rfl none small)
    | fail first rest split none large =>
      have before_none : .gotIp ∉ before := fun member => none (List.mem_append_left first member)
      rcases Nat.lt_or_ge maximumRetry (before.count .staDisconnected) with many | few
      · exact wifiInitSta_failed before_none many
      rw [wifiInitSta_goes_on before_none few]
      cases first with
      | nil =>
        rw [List.append_nil] at large
        omega
      | cons e' first =>
        obtain ⟨rfl, rfl⟩ := List.cons.inj split
        rw [List.append_cons] at none large
        exact ih (.fail first rest rfl none large)
    | waits none small =>
      have before_none : .gotIp ∉ before := fun member => none (List.mem_append_left _ member)
      have few : before.count .staDisconnected ≤ maximumRetry := by
        rw [List.count_append] at small
        omega
      rw [wifiInitSta_goes_on before_none few]
      rw [List.append_cons] at none small
      exact ih (.waits none small)

/-- `wifi_init_sta` answers `ESP_OK` if an address has come before the wait, or
comes before the eleventh disconnect; it fails at that one, and waits for either. -/
theorem wifiInitSta_iff (before later : List WifiEvent) (answer : Option EspErr) :
    wifiInitSta before later = answer ↔ Waits before later answer :=
  ⟨fun same => same ▸ waits_wifiInitSta before later, Waits.answered⟩

/-! ### The retries -/

/-- Every address buys ten more retries. -/
theorem connects_total (events : List WifiEvent) :
    (handled events).connects + (maximumRetry - (handled events).sRetryNum) ≤
      events.count .staStart + maximumRetry * (events.count .gotIp + 1) := by
  induction events using List.reverseRecOn with
  | nil => exact le_refl _
  | append_singleton events e ih =>
    rw [handled_concat, List.count_append, List.count_append, List.count_singleton, List.count_singleton]
    have most : (handled events).sRetryNum ≤ maximumRetry := by
      rw [(tells_handled events).retries]
      exact Nat.min_le_left _ _
    cases e with
    | staStart =>
      simp [eventHandler]
      omega
    | staDisconnected =>
      dsimp only [eventHandler]
      split
      · simp
        omega
      · simpa using ih
    | gotIp =>
      simp [eventHandler]
      unfold maximumRetry at *
      omega
    | other => simpa [eventHandler] using ih

theorem lostSince_append (none : .gotIp ∉ later) :
    lostSince (events ++ later) = lostSince events + later.count .staDisconnected := by
  induction later using List.reverseRecOn with
  | nil => simp
  | append_singleton later e ih =>
    have before : .gotIp ∉ later := fun member => none (List.mem_append_left _ member)
    have other : e ≠ .gotIp := fun same => none (same ▸ List.mem_append_right later (List.mem_singleton_self e))
    rw [← List.append_assoc, lostSince_concat other, ih before, List.count_append, List.count_singleton]
    simp only [beq_iff_eq, Nat.add_assoc]

/-- While no address comes the access point is tried again as often as it is
lost, until the retries are used up. -/
theorem connects_since (events : List WifiEvent) (none : .gotIp ∉ later) :
    (handled (events ++ later)).connects = (handled events).connects + later.count .staStart +
      min (later.count .staDisconnected) (maximumRetry - (handled events).sRetryNum) := by
  induction later using List.reverseRecOn with
  | nil => simp
  | append_singleton later e ih =>
    have before : .gotIp ∉ later := fun member => none (List.mem_append_left _ member)
    have made : (handled (events ++ later)).sRetryNum =
        min maximumRetry (lostSince events + later.count .staDisconnected) := by
      rw [(tells_handled _).retries, lostSince_append before]
    have left : (handled events).sRetryNum = min maximumRetry (lostSince events) :=
      (tells_handled events).retries
    have same := ih before
    rw [← List.append_assoc, handled_concat, List.count_append, List.count_append, List.count_singleton,
      List.count_singleton]
    cases e with
    | staStart =>
      simp [eventHandler]
      omega
    | staDisconnected =>
      dsimp only [eventHandler]
      split
      · simp
        omega
      · simp
        omega
    | gotIp => exact absurd (List.mem_append_right later (List.mem_singleton_self _)) none
    | other => simpa [eventHandler] using same

/-- Ten retries for each address and ten before the first. Between two addresses
there are as many as the access point is lost, and ten at most. -/
theorem connects_bounded (events later : List WifiEvent) (none : .gotIp ∉ later) :
    (handled events).connects + (maximumRetry - (handled events).sRetryNum) ≤
      events.count .staStart + maximumRetry * (events.count .gotIp + 1) ∧
    (handled (events ++ .gotIp :: later)).connects = (handled events).connects + later.count .staStart +
      min (later.count .staDisconnected) maximumRetry := by
  refine ⟨connects_total events, ?_⟩
  rw [List.append_cons, connects_since (events ++ [WifiEvent.gotIp]) none, handled_concat]
  rfl

/-- The access point is lost eleven times after an address, with a new start in
between. -/
theorem lost_eleven_times :
    (handled ([.staStart] ++ .gotIp :: (List.replicate 6 .staDisconnected ++ .staStart ::
      List.replicate 5 .staDisconnected))).connects = 1 + 1 + 10 :=
  (connects_bounded [.staStart] (List.replicate 6 .staDisconnected ++ .staStart ::
    List.replicate 5 .staDisconnected) (by decide)).2

/-! ### The addresses -/

/-- `ip_conversion`: the number converted so far, the number that is read and the
bits it is shifted by. A fifth number would be shifted by 32, which the compiler
refuses; here such a shift is taken modulo 32. -/
def ipConversionLoop : List UInt8 → UInt32 → UInt32 → UInt8 → UInt32
  | [], converted, curval, shift => converted ||| (curval <<< shift.toUInt32)
  | c :: ip, converted, curval, shift =>
    if c = 46 then ipConversionLoop ip (converted ||| (curval <<< shift.toUInt32)) 0 (shift + 8)
    else ipConversionLoop ip converted (curval * 10 + (c.toUInt32 - 48)) shift

def ipConversion (ip : List UInt8) : UInt32 := ipConversionLoop ip 0 0 0

/-- A number in decimal, with this many zeros in front. -/
def decimal (zeros : Nat) (n : UInt8) : List UInt8 :=
  List.replicate zeros 48 ++ (Nat.toDigits 10 n.toNat).map fun c => c.toNat.toUInt8

/-- `curval` after a digit. -/
def readDigit (curval : UInt32) (c : UInt8) : UInt32 := curval * 10 + (c.toUInt32 - 48)

theorem ipConversionLoop_digits {digits : List UInt8} (none : ∀ c ∈ digits, c ≠ 46) (rest : List UInt8)
    (converted curval : UInt32) (shift : UInt8) : ipConversionLoop (digits ++ rest) converted curval shift =
      ipConversionLoop rest converted (digits.foldl readDigit curval) shift := by
  induction digits generalizing curval with
  | nil => rfl
  | cons c digits ih =>
    obtain ⟨here, none⟩ := List.forall_mem_cons.mp none
    rw [List.cons_append, ipConversionLoop, if_neg here, ih none]
    rfl

/-- The digits of a byte are read as the byte. -/
theorem digits_read (n : UInt8) : (∀ c ∈ decimal 0 n, c ≠ 46) ∧ (decimal 0 n).foldl readDigit 0 = n.toUInt32 := by
  have all : ∀ n : UInt8, (decimal 0 n).all (· != 46) = true ∧ (decimal 0 n).foldl readDigit 0 = n.toUInt32 :=
    forall_byte (by decide +kernel)
  simpa using all n

/-- Reading a number leaves it in `curval`. -/
theorem ipConversionLoop_decimal (zeros : Nat) (n : UInt8) (rest : List UInt8) (converted : UInt32) (shift : UInt8) :
    ipConversionLoop (decimal zeros n ++ rest) converted 0 shift =
      ipConversionLoop rest converted n.toUInt32 shift := by
  induction zeros with
  | zero =>
    obtain ⟨none, read⟩ := digits_read n
    rw [ipConversionLoop_digits none, read]
  | succ zeros ih => exact ih

/-- The four numbers of a dotted address, whatever zeros lead them, become the
four bytes of the result, the first one lowest. -/
theorem ipConversion_dotted (zeros : Fin 4 → Nat) (a b c d : UInt8) :
    ipConversion (decimal (zeros 0) a ++ 46 :: (decimal (zeros 1) b ++ 46 :: (decimal (zeros 2) c ++ 46 ::
      decimal (zeros 3) d))) =
      a.toUInt32 ||| b.toUInt32 <<< 8 ||| c.toUInt32 <<< 16 ||| d.toUInt32 <<< 24 := by
  unfold ipConversion
  rw [ipConversionLoop_decimal, ipConversionLoop, if_pos rfl, ipConversionLoop_decimal, ipConversionLoop, if_pos rfl,
    ipConversionLoop_decimal, ipConversionLoop, if_pos rfl, ← List.append_nil (decimal (zeros 3) d),
    ipConversionLoop_decimal, ipConversionLoop]
  simp

/-- `IP_ADDR` is 192.168.1.10. -/
example : ipConversion [49, 57, 50, 46, 49, 54, 56, 46, 49, 46, 49, 48] = 0x0A01A8C0 := by decide

end MqttBroker.Wificonfig
