import Mathlib.Data.List.Induction

/-! Histories of calls that may fail. A property of the state that each call
establishes exactly under a condition holds along a whole history exactly when
every call meets its condition. -/
namespace MqttBroker.Logic

variable {ε σ ι : Type} {call : σ → ι → Except ε σ} {start : σ}

/-- The state after the calls of a history. -/
def after (call : σ → ι → Except ε σ) (start : σ) (calls : List ι) : Except ε σ :=
  calls.foldlM call start

theorem after_append (before : List ι) (op : ι) :
    after call start (before ++ [op]) = (after call start before).bind (call · op) := by
  simp only [after, List.foldlM_append, List.foldlM_cons, List.foldlM_nil, bind_pure]
  rfl

/-- Every state of a history is good exactly if each of its calls meets the
condition in the state it is made in. -/
theorem always_good_iff {Good : List ι → σ → Prop} {Meets : List ι → σ → ι → Prop}
    (initially : Good [] start)
    (step : ∀ before s op, after call start before = .ok s → Good before s →
      ((∃ t, call s op = .ok t ∧ Good (before ++ [op]) t) ↔ Meets before s op)) (calls : List ι) :
    (∀ before, before <+: calls → ∃ s, after call start before = .ok s ∧ Good before s) ↔
      ∀ before op s, before ++ [op] <+: calls → after call start before = .ok s →
        Meets before s op := by
  constructor
  · intro good before op s pre ran
    obtain ⟨s', ran', held⟩ := good before ((List.prefix_append before [op]).trans pre)
    obtain rfl : s = s' := Except.ok.inj (ran.symm.trans ran')
    obtain ⟨t, ran', held'⟩ := good _ pre
    rw [after_append, ran] at ran'
    exact (step before s op ran held).mp ⟨t, ran', held'⟩
  · intro meets before pre
    induction before using List.reverseRecOn with
    | nil => exact ⟨start, rfl, initially⟩
    | append_singleton before op ih =>
      obtain ⟨s, ran, held⟩ := ih ((List.prefix_append before [op]).trans pre)
      obtain ⟨t, called, held'⟩ := (step before s op ran held).mpr (meets before op s pre ran)
      exact ⟨t, by rw [after_append, ran]; exact called, held'⟩

end MqttBroker.Logic
