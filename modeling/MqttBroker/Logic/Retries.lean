import Mathlib.Order.Defs.LinearOrder

/-! Calls that are made again until one succeeds or the tries are used up. -/
namespace MqttBroker.Logic

variable {α : Type} {fails : α → Bool} {call : Nat → α} {n i : Nat} {a : α} {result : α × Nat}

/-- Call number `i`, and up to `n` more as long as they fail: the last answer
and its number. -/
def retry (fails : α → Bool) (call : Nat → α) : (n i : Nat) → α × Nat
  | 0, i => (call i, i)
  | n + 1, i => if fails (call i) then retry fails call n (i + 1) else (call i, i)

/-- The first call to succeed is one of the first `n`, and this is its answer. -/
def SucceedsWithin (fails : α → Bool) (call : Nat → α) (n : Nat) (a : α) : Prop :=
  ∃ k < n, (∀ j < k, fails (call j) = true) ∧ fails (call k) = false ∧ call k = a

/-- How the tries end: with a call that succeeds, or with the last one. -/
structure Tried (fails : α → Bool) (call : Nat → α) (n i : Nat) (result : α × Nat) : Prop where
  started : i ≤ result.2
  within : result.2 ≤ i + n
  answer : result.1 = call result.2
  failed : ∀ j, i ≤ j → j < result.2 → fails (call j) = true
  ends : result.2 < i + n → fails (call result.2) = false

theorem retry_tried (n i : Nat) : Tried fails call n i (retry fails call n i) := by
  induction n generalizing i with
  | zero =>
    refine ⟨Nat.le_refl i, Nat.le_refl i, rfl, fun j started before => ?_, fun more => ?_⟩
    · exact absurd before (Nat.not_lt.mpr started)
    · exact absurd more (Nat.lt_irrefl i)
  | succ n ih =>
    cases now : fails (call i) with
    | true =>
      obtain ⟨started, within, answer, failed, ends⟩ := ih (i + 1)
      simp only [retry, now, if_true]
      refine ⟨by omega, by omega, answer, fun j from_i before => ?_, fun more => ends (by omega)⟩
      rcases Nat.eq_or_lt_of_le from_i with rfl | after
      · exact now
      · exact failed j after before
    | false =>
      simp only [retry, now, Bool.false_eq_true, if_false]
      refine ⟨Nat.le_refl i, by omega, rfl, fun j started before => ?_, fun _ => now⟩
      exact absurd before (Nat.not_lt.mpr started)

/-- Fewer calls failed than there were tries exactly if one of so many succeeds. -/
theorem retry_succeeds_iff :
    (retry fails call n 0).2 < n ∧ (retry fails call n 0).1 = a ↔ SucceedsWithin fails call n a := by
  have tried : Tried fails call n 0 (retry fails call n 0) := retry_tried n 0
  obtain ⟨-, within, answer, all, ends⟩ := tried
  rw [Nat.zero_add] at within ends
  constructor
  · rintro ⟨few, rfl⟩
    exact ⟨_, few, fun j before => all j (Nat.zero_le j) before, ends few, answer.symm⟩
  · rintro ⟨k, inside, failed, succeeds, rfl⟩
    have stops : (retry fails call n 0).2 = k := by
      rcases Nat.lt_trichotomy (retry fails call n 0).2 k with before | here | after
      · have now := ends (Nat.lt_trans before inside)
        rw [failed _ before] at now
        cases now
      · exact here
      · have now := all k (Nat.zero_le k) after
        rw [succeeds] at now
        cases now
    exact ⟨stops ▸ inside, answer.trans (congrArg call stops)⟩

/-- The tries are used up exactly if so many calls fail. -/
theorem retry_exhausted_iff : n ≤ (retry fails call n 0).2 ↔ ∀ k < n, fails (call k) = true := by
  have tried : Tried fails call n 0 (retry fails call n 0) := retry_tried n 0
  obtain ⟨-, within, -, all, ends⟩ := tried
  rw [Nat.zero_add] at within ends
  constructor
  · exact fun used k inside => all k (Nat.zero_le k) (Nat.lt_of_lt_of_le inside used)
  · intro failed
    rcases Nat.lt_or_ge (retry fails call n 0).2 n with few | used
    · have now := ends few
      rw [failed _ few] at now
      cases now
    · exact used

end MqttBroker.Logic
