import Mathlib.Algebra.BigOperators.Group.Finset.Basic
import Mathlib.Data.Multiset.Filter
import Mathlib.Algebra.Order.Group.Multiset
import Mathlib.Tactic.Abel

/-! Overwriting one position of an array changes its contents, taken as a
multiset, by one element. Counts, sums and selections over the array follow
without another induction. -/
namespace MqttBroker.Logic

/-- The other elements stay the same whatever is written at position `i`. -/
theorem set_split (l : List α) (i : Nat) (inside : i < l.length) :
    ∃ rest : Multiset α, (l : Multiset α) = l[i] ::ₘ rest ∧
      ∀ a, (l.set i a : Multiset α) = a ::ₘ rest := by
  induction l generalizing i with
  | nil => exact absurd inside (Nat.not_lt_zero i)
  | cons head tail ih =>
    cases i with
    | zero => exact ⟨tail, rfl, fun _ => rfl⟩
    | succ i =>
      obtain ⟨rest, whole, written⟩ := ih i (Nat.lt_of_succ_lt_succ inside)
      refine ⟨head ::ₘ rest, ?_, fun a => ?_⟩
      · rw [← Multiset.cons_coe, whole, Multiset.cons_swap]
        rfl
      · rw [List.set_cons_succ, ← Multiset.cons_coe, written, Multiset.cons_swap]

/-- Changing one element changes by one how many there are of a kind. -/
theorem countP_modify {p : α → Bool} {f : α → α} {l : List α} {i : Nat} {a : α} (at_i : l[i]? = some a) :
    (l.modify i f).countP p + (p a).toNat = l.countP p + (p (f a)).toNat := by
  obtain ⟨inside, rfl⟩ := List.getElem?_eq_some_iff.mp at_i
  have counted (b : α) (rest : Multiset α) :
      (b ::ₘ rest).countP (p ·) = rest.countP (p ·) + (p b).toNat := by
    rw [Multiset.countP_cons]
    cases p b <;> rfl
  obtain ⟨rest, whole, written⟩ := set_split l i inside
  have before : l.countP p = rest.countP (p ·) + (p l[i]).toNat := by
    rw [← counted, ← whole, Multiset.coe_countP]
    simp
  have after : (l.modify i f).countP p = rest.countP (p ·) + (p (f l[i])).toNat := by
    rw [List.modify_eq_set_getElem?, List.getElem?_eq_getElem inside, ← counted]
    simp [← written, Multiset.coe_countP]
  omega

/-- A sum changes by as much as its one term that changes. -/
theorem sum_changed {ι : Type*} [Fintype ι] [DecidableEq ι] {f g : ι → Nat} (s : ι)
    (others : ∀ i, i ≠ s → g i = f i) : ∑ i, g i + f s = ∑ i, f i + g s := by
  have same : ∑ i ∈ Finset.univ.erase s, g i = ∑ i ∈ Finset.univ.erase s, f i :=
    Finset.sum_congr rfl fun i member => others i (Finset.ne_of_mem_erase member)
  rw [← Finset.sum_erase_add _ g (Finset.mem_univ s), ← Finset.sum_erase_add _ f (Finset.mem_univ s), same]
  omega

/-- Exchanging one part of a concatenation exchanges its elements. -/
theorem flatten_set (l : List (List α)) (i : Nat) (inside : i < l.length) (part : List α) :
    ((l.set i part).flatten : Multiset α) + (l[i] : Multiset α) = l.flatten + (part : Multiset α) := by
  induction l generalizing i with
  | nil => exact absurd inside (Nat.not_lt_zero i)
  | cons head tail ih =>
    cases i with
    | zero =>
      simp only [List.set_cons_zero, List.flatten_cons, ← Multiset.coe_add, List.getElem_cons_zero]
      abel
    | succ i =>
      have step := ih i (Nat.lt_of_succ_lt_succ inside)
      simp only [List.set_cons_succ, List.flatten_cons, ← Multiset.coe_add,
        List.getElem_cons_succ, Multiset.add_assoc, step]

end MqttBroker.Logic
