import MqttBroker.Logic.Retries
import MqttBroker.Server

/-! How `tcp_server_task` comes to its loop: five calls, each of them made again
after an error. The errors of one call are not counted against the next one. -/
namespace MqttBroker.Server
open Logic

def maxErrorsBeforeRestart : Nat := 10

/-- What the network answers to each call, by its number. -/
structure Network where
  socket : Nat → Int
  getFlags : Int → Nat → Int
  setFlags : Int → Int → Nat → Int
  bind : Int → Nat → Int
  listen : Int → Nat → Int

/-- `error_check`: the new `error_count`, or what the device is restarted for. -/
def errorCheck (errorCount : Nat) (what : String) : Except String Nat :=
  if errorCount ≥ maxErrorsBeforeRestart then .error what else .ok 0

/-- A call in its loop, and the `error_check` behind it. -/
def attempt (what : String) (fails : Int → Bool) (call : Nat → Int) (errorCount : Nat) :
    Except String (Int × Nat) := do
  let tried := retry fails call (maxErrorsBeforeRestart - errorCount) 0
  let errorCount ← errorCheck (errorCount + tried.2) what
  pure (tried.1, errorCount)

/-- The part of `tcp_server_task` before its loop: the listening socket. -/
def setup (net : Network) : Except String Int := do
  let (listenSock, errorCount) ← attempt "creating socket" (· < 0) net.socket 0
  let (flags, errorCount) ← attempt "getting socket flags" (· = -1) (net.getFlags listenSock) errorCount
  let (_, errorCount) ← attempt "setting socket flags" (· = -1) (net.setFlags listenSock flags) errorCount
  let (_, errorCount) ← attempt "binding socket" (· ≠ 0) (net.bind listenSock) errorCount
  let _ ← attempt "listening to socket" (· ≠ 0) (net.listen listenSock) errorCount
  pure listenSock

/-- One of the first ten of these calls succeeds, the first to do so with this
answer. -/
def InTime (fails : Int → Bool) (call : Nat → Int) (answer : Int) : Prop :=
  SucceedsWithin fails call maxErrorsBeforeRestart answer

/-- The first ten of these calls fail. -/
def Exhausts (fails : Int → Bool) (call : Nat → Int) : Prop := ∀ k < maxErrorsBeforeRestart, fails (call k) = true

/-- The network lets the server listen on the socket. -/
structure Listens (net : Network) (listenSock : Int) : Prop where
  created : InTime (· < 0) net.socket listenSock
  prepared : ∃ flags, InTime (· = -1) (net.getFlags listenSock) flags ∧
    ∃ answer, InTime (· = -1) (net.setFlags listenSock flags) answer
  bound : InTime (· ≠ 0) (net.bind listenSock) 0
  listening : InTime (· ≠ 0) (net.listen listenSock) 0

/-- The first call that does not succeed in time, with all of those before it. -/
inductive GivesUp (net : Network) : String → Prop
  | creating : Exhausts (· < 0) net.socket → GivesUp net "creating socket"
  | getting {listenSock : Int} : InTime (· < 0) net.socket listenSock →
      Exhausts (· = -1) (net.getFlags listenSock) → GivesUp net "getting socket flags"
  | setting {listenSock flags : Int} : InTime (· < 0) net.socket listenSock →
      InTime (· = -1) (net.getFlags listenSock) flags → Exhausts (· = -1) (net.setFlags listenSock flags) →
      GivesUp net "setting socket flags"
  | binding {listenSock flags answer : Int} : InTime (· < 0) net.socket listenSock →
      InTime (· = -1) (net.getFlags listenSock) flags → InTime (· = -1) (net.setFlags listenSock flags) answer →
      Exhausts (· ≠ 0) (net.bind listenSock) → GivesUp net "binding socket"
  | listening {listenSock flags answer : Int} : InTime (· < 0) net.socket listenSock →
      InTime (· = -1) (net.getFlags listenSock) flags → InTime (· = -1) (net.setFlags listenSock flags) answer →
      InTime (· ≠ 0) (net.bind listenSock) 0 → Exhausts (· ≠ 0) (net.listen listenSock) →
      GivesUp net "listening to socket"

variable {net : Network} {fails : Int → Bool} {call : Nat → Int} {a b : Int} {what text : String}

theorem attempt_ok (inTime : InTime fails call a) : attempt what fails call 0 = .ok (a, 0) := by
  obtain ⟨few, answer⟩ := retry_succeeds_iff.mpr inTime
  simp only [attempt, errorCheck, Nat.sub_zero, Nat.zero_add, answer, if_neg (Nat.not_le.mpr few)]
  rfl

theorem attempt_error (failed : Exhausts fails call) : attempt what fails call 0 = .error what := by
  have used := retry_exhausted_iff.mpr failed
  simp only [attempt, errorCheck, Nat.sub_zero, Nat.zero_add, if_pos used]
  rfl

theorem inTime_or_exhausts (fails : Int → Bool) (call : Nat → Int) :
    (∃ answer, InTime fails call answer) ∨ Exhausts fails call := by
  rcases Nat.lt_or_ge (retry fails call maxErrorsBeforeRestart 0).2 maxErrorsBeforeRestart with few | used
  · exact .inl ⟨_, retry_succeeds_iff.mp ⟨few, rfl⟩⟩
  · exact .inr (retry_exhausted_iff.mp used)

/-- The answer of a call that fails unless it is 0. -/
theorem InTime.zero (inTime : InTime (· ≠ 0) call a) : a = 0 := by
  obtain ⟨k, -, -, succeeds, rfl⟩ := inTime
  simpa using succeeds

/-- The network lets the server listen, or some call is given up. -/
theorem listens_or_givesUp (net : Network) : (∃ listenSock, Listens net listenSock) ∨ ∃ what, GivesUp net what := by
  rcases inTime_or_exhausts (· < 0) net.socket with ⟨listenSock, created⟩ | failed
  swap
  · exact .inr ⟨_, .creating failed⟩
  rcases inTime_or_exhausts (· = -1) (net.getFlags listenSock) with ⟨flags, got⟩ | failed
  swap
  · exact .inr ⟨_, .getting created failed⟩
  rcases inTime_or_exhausts (· = -1) (net.setFlags listenSock flags) with ⟨answer, put⟩ | failed
  swap
  · exact .inr ⟨_, .setting created got failed⟩
  rcases inTime_or_exhausts (· ≠ 0) (net.bind listenSock) with ⟨zero, bound⟩ | failed
  swap
  · exact .inr ⟨_, .binding created got put failed⟩
  obtain rfl := bound.zero
  rcases inTime_or_exhausts (· ≠ 0) (net.listen listenSock) with ⟨zero, listening⟩ | failed
  swap
  · exact .inr ⟨_, .listening created got put bound failed⟩
  obtain rfl := listening.zero
  exact .inl ⟨listenSock, created, ⟨flags, got, answer, put⟩, bound, listening⟩

theorem Listens.ran {listenSock : Int} (listens : Listens net listenSock) : setup net = .ok listenSock := by
  obtain ⟨created, ⟨flags, got, answer, put⟩, bound, listening⟩ := listens
  simp only [setup, attempt_ok created, attempt_ok got, attempt_ok put, attempt_ok bound, attempt_ok listening, bind,
    Except.bind, pure, Except.pure]

theorem GivesUp.ran (givesUp : GivesUp net what) : setup net = .error what := by
  cases givesUp with
  | creating failed => simp only [setup, attempt_error failed, bind, Except.bind]
  | getting created failed => simp only [setup, attempt_ok created, attempt_error failed, bind, Except.bind]
  | setting created got failed =>
    simp only [setup, attempt_ok created, attempt_ok got, attempt_error failed, bind, Except.bind]
  | binding created got put failed =>
    simp only [setup, attempt_ok created, attempt_ok got, attempt_ok put, attempt_error failed, bind, Except.bind]
  | listening created got put bound failed =>
    simp only [setup, attempt_ok created, attempt_ok got, attempt_ok put, attempt_ok bound, attempt_error failed, bind,
      Except.bind]

/-- The server listens exactly if each of the five calls succeeds at one of its
first ten tries; otherwise the device is restarted for the first that does not,
whatever the eleventh try answers. -/
theorem setup_outcome (net : Network) : (∀ listenSock, setup net = .ok listenSock ↔ Listens net listenSock) ∧
    ∀ what, setup net = .error what ↔ GivesUp net what := by
  rcases listens_or_givesUp net with ⟨own, listens⟩ | ⟨reason, givesUp⟩
  · refine ⟨fun listenSock => ⟨fun ran => ?_, Listens.ran⟩, fun what => ⟨fun ran => ?_, GivesUp.ran⟩⟩
    · rw [listens.ran] at ran
      cases ran
      exact listens
    · rw [listens.ran] at ran
      cases ran
  · refine ⟨fun listenSock => ⟨fun ran => ?_, Listens.ran⟩, fun what => ⟨fun ran => ?_, GivesUp.ran⟩⟩
    · rw [givesUp.ran] at ran
      cases ran
    · rw [givesUp.ran] at ran
      cases ran
      exact givesUp

/-- A socket that is created at the eleventh try is not used. -/
example : setup ⟨fun k => if k < 10 then -1 else 54, fun _ _ => 0, fun _ _ _ => 0, fun _ _ => 0, fun _ _ => 0⟩ =
    .error "creating socket" := rfl

end MqttBroker.Server
