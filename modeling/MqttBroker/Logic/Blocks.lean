import Mathlib.Data.List.Basic

/-! Blocks of memory and the loops that copy within and between them. A cell is
`none` until it is first written; an access without a result is one outside of
the block, or a read of such a cell. -/
namespace MqttBroker.Logic

abbrev Block (α : Type) := List (Option α)

namespace Block
variable {α : Type}

def read (block : Block α) (i : Nat) : Option α := block[i]?.join

def write (block : Block α) (i : Nat) (a : α) : Option (Block α) :=
  if i < block.length then some (block.set i (some a)) else none

/-- `n` cells of another block, from the first on. -/
def copy (source : Block α) : Nat → Nat → Nat → Block α → Option (Block α)
  | 0, _, _, block => some block
  | n + 1, first, target, block => do
    let a ← source.read first
    let block ← block.write target a
    copy source n (first + 1) (target + 1) block

/-- `n` cells of the block itself, from the last on; `last` and `target` are
behind the last cell of each range. -/
def copyBackward : Nat → Nat → Nat → Block α → Option (Block α)
  | 0, _, _, block => some block
  | n + 1, last, target, block => do
    let a ← block.read (last - 1)
    let block ← block.write (target - 1) a
    copyBackward n (last - 1) (target - 1) block

variable {source block : Block α} {i first last target n : Nat} {a : α}

theorem read_of_getElem? (held : block[i]? = some (some a)) : block.read i = some a := by
  rw [read, held]
  rfl

theorem write_inside (inside : i < block.length) (a : α) : block.write i a = some (block.set i (some a)) :=
  if_pos inside

/-- The cells of a range have been written. -/
def Filled (block : Block α) (first n : Nat) : Prop :=
  ∀ k < n, ∃ a, block[first + k]? = some (some a)

/-- A copy between blocks that have room completes, and writes its range alone. -/
theorem copy_spec (filled : Filled source first n) (room : target + n ≤ block.length) :
    ∃ copied, copy source n first target block = some copied ∧ copied.length = block.length ∧
      ∀ i, copied[i]? = if target ≤ i ∧ i < target + n then source[first + (i - target)]? else block[i]? := by
  induction n generalizing first target block with
  | zero => exact ⟨block, rfl, rfl, fun i => (if_neg (by omega)).symm⟩
  | succ n ih =>
    obtain ⟨a, held⟩ := filled 0 (Nat.succ_pos n)
    rw [Nat.add_zero] at held
    have rest : Filled source (first + 1) n := by
      intro k below
      obtain ⟨b, held⟩ := filled (k + 1) (Nat.succ_lt_succ below)
      exact ⟨b, by rwa [Nat.add_assoc, Nat.add_comm 1 k]⟩
    have inside : target < block.length := by omega
    have left : target + 1 + n ≤ (block.set target (some a)).length := by
      rw [List.length_set]
      omega
    obtain ⟨copied, ran, long, cells⟩ := ih rest left
    refine ⟨copied, ?_, long.trans (List.length_set ..), fun i => ?_⟩
    · rw [copy, read_of_getElem? held, Option.bind_eq_bind, Option.bind_some, write_inside inside]
      exact ran
    · rw [cells, List.getElem?_set]
      by_cases here : target = i
      · subst here
        rw [if_neg (by omega), if_pos rfl, if_pos inside, if_pos (by omega), Nat.sub_self]
        exact held.symm
      · rw [if_neg here]
        by_cases within : target + 1 ≤ i ∧ i < target + 1 + n
        · rw [if_pos within, if_pos (by omega)]
          congr 1
          omega
        · rw [if_neg within, if_neg (by omega)]

/-- A copy within a block to a range that is not before its source completes, and
reads each cell before it is written over. -/
theorem copyBackward_spec (filled : Filled block (last - n) n) (long : n ≤ last) (later : last ≤ target)
    (room : target ≤ block.length) :
    ∃ copied, copyBackward n last target block = some copied ∧ copied.length = block.length ∧
      ∀ i, copied[i]? =
        if target - n ≤ i ∧ i < target then block[i - (target - last)]? else block[i]? := by
  induction n generalizing last target block with
  | zero => exact ⟨block, rfl, rfl, fun i => (if_neg (by omega)).symm⟩
  | succ n ih =>
    obtain ⟨a, held⟩ := filled n (Nat.lt_succ_self n)
    rw [show last - (n + 1) + n = last - 1 by omega] at held
    have inside : target - 1 < block.length := by omega
    have rest : Filled (block.set (target - 1) (some a)) (last - 1 - n) n := by
      intro k below
      obtain ⟨b, held⟩ := filled k (Nat.lt_succ_of_lt below)
      refine ⟨b, ?_⟩
      rw [List.getElem?_set_ne (by omega), show last - 1 - n + k = last - (n + 1) + k by omega]
      exact held
    have left : target - 1 ≤ (block.set (target - 1) (some a)).length := by
      rw [List.length_set]
      omega
    obtain ⟨copied, ran, same, cells⟩ := ih rest (by omega) (Nat.sub_le_sub_right later 1) left
    refine ⟨copied, ?_, same.trans (List.length_set ..), fun i => ?_⟩
    · rw [copyBackward, read_of_getElem? held, Option.bind_eq_bind, Option.bind_some, write_inside inside]
      exact ran
    · rw [cells]
      by_cases here : i = target - 1
      · subst here
        rw [if_neg (by omega), List.getElem?_set_self inside, if_pos (by omega),
          show target - 1 - (target - last) = last - 1 by omega]
        exact held.symm
      · rw [List.getElem?_set_ne (Ne.symm here)]
        by_cases within : target - 1 - n ≤ i ∧ i < target - 1
        · rw [if_pos within, if_pos (by omega), List.getElem?_set_ne (by omega)]
          congr 1
          omega
        · rw [if_neg within, if_neg (by omega)]

end Block
end MqttBroker.Logic
