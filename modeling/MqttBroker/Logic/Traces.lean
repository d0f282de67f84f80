import Mathlib.Data.List.Basic

/-! Traces, kept newest first: laws that every event keeps with what came
before it, and what has happened since the last event of a kind. -/
namespace MqttBroker.Logic

variable {ε : Type} {law : List ε → ε → Prop} {Stops Starts Starts' : ε → Prop} {e : ε}
  {late trace : List ε}

/-- Every event keeps the law with the trace before it. -/
def Lawful (law : List ε → ε → Prop) (trace : List ε) : Prop :=
  ∀ late e earlier, trace = late ++ e :: earlier → law earlier e

theorem lawful_nil : Lawful law [] := by
  intro late e earlier split
  simp at split

theorem lawful_cons : Lawful law (e :: trace) ↔ law trace e ∧ Lawful law trace := by
  constructor
  · intro lawful
    exact ⟨lawful [] e trace rfl, fun late e' earlier split => lawful (e :: late) e' earlier (by simp [split])⟩
  · rintro ⟨holds, lawful⟩ late e' earlier split
    cases late with
    | nil =>
      obtain ⟨rfl, rfl⟩ := List.cons.inj split
      exact holds
    | cons _ late =>
      obtain ⟨-, split⟩ := List.cons.inj split
      exact lawful late e' earlier split

instance decidableLawful [∀ earlier e, Decidable (law earlier e)] : DecidablePred (Lawful law)
  | [] => isTrue lawful_nil
  | e :: trace =>
    have : Decidable (Lawful law trace) := decidableLawful trace
    decidable_of_iff (law trace e ∧ Lawful law trace) lawful_cons.symm

/-- A trace is lawful only if it has been so all along. -/
theorem Lawful.before (lawful : Lawful law (late ++ trace)) : Lawful law trace :=
  fun later e earlier split => lawful (late ++ later) e earlier (by rw [split, List.append_assoc])

/-- A law that holds of some more events whatever came before them. -/
theorem Lawful.append (lawful : Lawful law trace) (always : ∀ e ∈ late, ∀ earlier, law earlier e) :
    Lawful law (late ++ trace) := by
  induction late with
  | nil => exact lawful
  | cons e late ih =>
    obtain ⟨holds, rest⟩ := List.forall_mem_cons.mp always
    exact lawful_cons.mpr ⟨holds _, ih rest⟩

/-- More events that change nothing of what a law looks at. -/
theorem Lawful.unchanged {ν : Type} (view : List ε → ν) (rule : ν → ε → Prop)
    (lawful : Lawful (fun earlier => rule (view earlier)) trace)
    (kept : ∀ e ∈ late, ∀ earlier, view (e :: earlier) = view earlier) (holds : ∀ e ∈ late, rule (view trace) e) :
    view (late ++ trace) = view trace ∧ Lawful (fun earlier => rule (view earlier)) (late ++ trace) := by
  induction late with
  | nil => exact ⟨rfl, lawful⟩
  | cons e late ih =>
    obtain ⟨here, rest⟩ := List.forall_mem_cons.mp kept
    obtain ⟨holds_here, holds⟩ := List.forall_mem_cons.mp holds
    obtain ⟨same, lawful⟩ := ih rest holds
    have allowed : rule (view (late ++ trace)) e := same ▸ holds_here
    exact ⟨(here _).trans same, lawful_cons.mpr ⟨allowed, lawful⟩⟩

/-- An event of one kind has come, and none of another kind since. -/
def Since (Stops Starts : ε → Prop) (trace : List ε) : Prop :=
  ∃ late e earlier, trace = late ++ e :: earlier ∧ Starts e ∧ ∀ x ∈ late, ¬ Stops x

theorem not_since_nil : ¬ Since Stops Starts [] := by
  rintro ⟨late, e, earlier, split, -⟩
  simp at split

theorem Since.now (starts : Starts e) : Since Stops Starts (e :: trace) :=
  ⟨[], e, trace, rfl, starts, List.forall_mem_nil _⟩

theorem Since.append (since : Since Stops Starts trace) (goes_on : ∀ x ∈ late, ¬ Stops x) :
    Since Stops Starts (late ++ trace) := by
  obtain ⟨later, e, earlier, rfl, starts, none⟩ := since
  exact ⟨late ++ later, e, earlier, by rw [List.append_assoc], starts,
    List.forall_mem_append.mpr ⟨goes_on, none⟩⟩

theorem Since.cons (since : Since Stops Starts trace) (goes_on : ¬ Stops e) :
    Since Stops Starts (e :: trace) :=
  have alone : ∀ x ∈ [e], ¬ Stops x := List.forall_mem_singleton.mpr goes_on
  since.append alone

/-- If it did not start with the newest events, it had started before. -/
theorem Since.before (since : Since Stops Starts (late ++ trace)) (none : ∀ x ∈ late, ¬ Starts x) :
    Since Stops Starts trace := by
  obtain ⟨later, e, earlier, split, starts, goes_on⟩ := since
  rcases List.append_eq_append_iff.mp split with ⟨middle, rfl, rfl⟩ | ⟨middle, rfl, rest⟩
  · exact ⟨middle, e, earlier, rfl, starts, fun x member => goes_on x (List.mem_append_right _ member)⟩
  · cases middle with
    | nil => exact ⟨[], e, earlier, by simpa using rest.symm, starts, List.forall_mem_nil _⟩
    | cons e' middle =>
      obtain ⟨rfl, -⟩ := List.cons.inj rest
      exact absurd starts (none _ (List.mem_append_right _ List.mem_cons_self))

theorem Since.of_cons (since : Since Stops Starts (e :: trace)) (other : ¬ Starts e) :
    Since Stops Starts trace :=
  have alone : ∀ x ∈ [e], ¬ Starts x := List.forall_mem_singleton.mpr other
  Since.before since alone

theorem since_cons : Since Stops Starts (e :: trace) ↔ Starts e ∨ ¬ Stops e ∧ Since Stops Starts trace := by
  constructor
  · rintro ⟨late, e', earlier, split, starts, goes_on⟩
    cases late with
    | nil =>
      obtain ⟨rfl, -⟩ := List.cons.inj split
      exact .inl starts
    | cons _ late =>
      obtain ⟨rfl, rfl⟩ := List.cons.inj split
      obtain ⟨here, rest⟩ := List.forall_mem_cons.mp goes_on
      exact .inr ⟨here, late, e', earlier, rfl, starts, rest⟩
  · rintro (starts | ⟨goes_on, since⟩)
    · exact .now starts
    · exact since.cons goes_on

instance decidableSince [DecidablePred Stops] [DecidablePred Starts] : DecidablePred (Since Stops Starts)
  | [] => isFalse not_since_nil
  | e :: trace =>
    have : Decidable (Since Stops Starts trace) := decidableSince trace
    decidable_of_iff (Starts e ∨ ¬ Stops e ∧ Since Stops Starts trace) since_cons.symm

/-- What every start of one kind follows a start of another kind in. -/
theorem Since.mono (lawful : Lawful (fun earlier e => Starts e → Since Stops Starts' earlier) trace)
    (since : Since Stops Starts trace) (separate : ∀ e, Starts e → ¬ Stops e) :
    Since Stops Starts' trace := by
  obtain ⟨late, e, earlier, rfl, starts, goes_on⟩ := since
  have before := lawful late e earlier rfl starts
  exact (before.cons (separate e starts)).append goes_on

/-! ### Counting -/

section Counting
variable {κ : Type} {starts answers : ε → Option κ} {k : κ}

/-- What has been started last and not answered yet. -/
def pending (starts answers : ε → Option κ) : List ε → Option κ
  | [] => none
  | e :: earlier =>
    if (starts e).isSome then starts e
    else if (answers e).isSome then none
    else pending starts answers earlier

theorem pending_start (start : starts e = some k) : pending starts answers (e :: trace) = some k := by
  rw [pending, start]
  rfl

theorem pending_answer (other : starts e = none) (answer : answers e = some k) :
    pending starts answers (e :: trace) = none := by
  rw [pending, other, answer]
  rfl

theorem pending_append (others : ∀ e ∈ late, starts e = none ∧ answers e = none) :
    pending starts answers (late ++ trace) = pending starts answers trace := by
  induction late with
  | nil => rfl
  | cons e late ih =>
    obtain ⟨⟨start, answer⟩, rest⟩ := List.forall_mem_cons.mp others
    rw [List.cons_append, pending, start, answer]
    exact ih rest

/-- Where nothing is pending, nothing is until a start. -/
theorem pending_none (none_pending : pending starts answers trace = none) (others : ∀ e ∈ late, starts e = none) :
    pending starts answers (late ++ trace) = none := by
  induction late with
  | nil => exact none_pending
  | cons e late ih =>
    obtain ⟨start, rest⟩ := List.forall_mem_cons.mp others
    rw [List.cons_append, pending, start]
    split
    · rfl
    · split
      · rfl
      · exact ih rest

/-- A start comes when nothing is pending, and an answer is to what is. -/
def InTurn (starts answers : ε → Option κ) (earlier : List ε) (e : ε) : Prop :=
  ((starts e).isSome → answers e = none ∧ pending starts answers earlier = none) ∧
    ∀ k, answers e = some k → pending starts answers earlier = some k

/-- As many are answered as are started, but for the one that is pending. -/
theorem count_pending [DecidableEq κ] (inTurn : Lawful (InTurn starts answers) trace) (k : κ) :
    trace.countP (starts · = some k) =
      trace.countP (answers · = some k) + if pending starts answers trace = some k then 1 else 0 := by
  induction trace with
  | nil => rfl
  | cons e trace ih =>
    obtain ⟨⟨started, answered⟩, before⟩ := lawful_cons.mp inTurn
    have ih := ih before
    rw [List.countP_cons, List.countP_cons]
    cases start : starts e with
    | some k' =>
      obtain ⟨no_answer, idle⟩ := started (by rw [start]; rfl)
      rw [pending_start start, no_answer]
      rw [idle] at ih
      simpa using ih
    | none =>
      cases answer : answers e with
      | some k' =>
        rw [pending_answer start answer]
        rw [answered k' answer] at ih
        simpa using ih
      | none =>
        have alone : ∀ x ∈ [e], starts x = none ∧ answers x = none := List.forall_mem_singleton.mpr ⟨start, answer⟩
        have same : pending starts answers ([e] ++ trace) = pending starts answers trace := pending_append alone
        rw [List.singleton_append] at same
        rw [same]
        simpa using ih

/-- Starts that never come twice before a stop are at most one more than these. -/
theorem count_since [DecidablePred Starts] [DecidablePred Stops]
    (lawful : Lawful (fun earlier e => Starts e → ¬ Stops e ∧ ¬ Since Stops Starts earlier) trace) :
    trace.countP (Starts ·) ≤ trace.countP (Stops ·) + 1 ∧
      (trace.countP (Starts ·) = trace.countP (Stops ·) + 1 → Since Stops Starts trace) := by
  induction trace with
  | nil => exact ⟨Nat.zero_le _, fun wrong => absurd wrong (by simp)⟩
  | cons e trace ih =>
    obtain ⟨here, before⟩ := lawful_cons.mp lawful
    obtain ⟨few, reached⟩ := ih before
    rw [List.countP_cons, List.countP_cons]
    by_cases start : Starts e
    · obtain ⟨no_stop, not_since⟩ := here start
      have fewer := mt reached not_since
      simp only [start, no_stop, decide_true, decide_false, if_true, Bool.false_eq_true, if_false]
      exact ⟨by omega, fun _ => .now start⟩
    · by_cases stop : Stops e
      · simp only [start, stop, decide_true, decide_false, if_true, Bool.false_eq_true, if_false]
        exact ⟨by omega, by omega⟩
      · simp only [start, stop, decide_false, Bool.false_eq_true, if_false, Nat.add_zero]
        exact ⟨few, fun more => (reached more).cons stop⟩

end Counting

end MqttBroker.Logic
