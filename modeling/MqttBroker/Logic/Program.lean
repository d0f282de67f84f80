import Mathlib.Logic.Relation

/-! Partial correctness for programs over a state that may stop in a fault.
A fault is a run with no next state, so a guarantee speaks of every run that
completes. Nothing here depends on what the state or the faults are. -/
namespace MqttBroker.Logic

/-- A program reads and rewrites a state of type `σ` and either answers or
stops in a fault of type `ε`. -/
abbrev Program (ε σ α : Type) := StateT σ (Except ε) α

/-- Every run of `m` from `s` that completes ends in an answer and a state
related by `post`. -/
def Ensures (s : σ) (m : Program ε σ α) (post : α → σ → Prop) : Prop :=
  ∀ answer t, m s = .ok (answer, t) → post answer t

variable {ε σ α β : Type} {s : σ}

theorem Ensures.mono {m : Program ε σ α} {post post' : α → σ → Prop} (held : Ensures s m post)
    (weaker : ∀ a t, post a t → post' a t) : Ensures s m post' :=
  fun a t ran => weaker a t (held a t ran)

theorem Ensures.both {m : Program ε σ α} {post post' : α → σ → Prop} (left : Ensures s m post)
    (right : Ensures s m post') : Ensures s m (fun a t => post a t ∧ post' a t) :=
  fun a t ran => ⟨left a t ran, right a t ran⟩

/-- A completed sequence is a completed first part and a completed rest. -/
theorem bind_ok {m : Program ε σ α} {f : α → Program ε σ β} {b : β} {u : σ} :
    (m >>= f) s = .ok (b, u) ↔ ∃ a t, m s = .ok (a, t) ∧ f a t = .ok (b, u) := by
  simp only [bind, StateT.bind, Except.bind]
  cases first : m s with
  | error fault => simp
  | ok reply =>
    obtain ⟨a, t⟩ := reply
    constructor
    · exact fun rest => ⟨a, t, rfl, rest⟩
    · rintro ⟨a', t', same, rest⟩
      cases same
      exact rest

/-- A sequence goes on from where its first part ends. -/
theorem bind_of_ok {m : Program ε σ α} {f : α → Program ε σ β} {a : α} {t : σ}
    (first : m s = .ok (a, t)) : (m >>= f) s = f a t := by
  simp only [bind, StateT.bind, Except.bind, first]

theorem bind_of_error {m : Program ε σ α} {f : α → Program ε σ β} {fault : ε}
    (first : m s = .error fault) : (m >>= f) s = .error fault := by
  simp only [bind, StateT.bind, Except.bind, first]

theorem ite_bind {p : Prop} [Decidable p] {m n : Program ε σ α} {f : α → Program ε σ β} :
    ((if p then m else n) >>= f) = if p then m >>= f else n >>= f := by
  split <;> rfl

theorem pure_ok {a b : α} {t : σ} : (pure a : Program ε σ α) s = .ok (b, t) ↔ b = a ∧ t = s := by
  change Except.ok (a, s) = Except.ok (b, t) ↔ _
  simp only [Except.ok.injEq, Prod.mk.injEq, eq_comm]

theorem modify_ok {f : σ → σ} {u : PUnit} {t : σ} :
    (modify f : Program ε σ PUnit) s = .ok (u, t) ↔ t = f s := by
  change Except.ok (PUnit.unit, f s) = Except.ok (u, t) ↔ _
  simp only [Except.ok.injEq, Prod.mk.injEq, true_and, eq_comm]

theorem set_ok {a : σ} {u : PUnit} {t : σ} :
    (set a : Program ε σ PUnit) s = .ok (u, t) ↔ t = a := by
  change Except.ok (PUnit.unit, a) = Except.ok (u, t) ↔ _
  simp only [Except.ok.injEq, Prod.mk.injEq, true_and, eq_comm]

theorem throw_ok {fault : ε} {a : α} {t : σ} :
    ¬ (throw fault : Program ε σ α) s = .ok (a, t) := by
  simp [throw, throwThe, MonadExceptOf.throw, StateT.lift, bind, Except.bind]

section Sequences
variable {b : β} {u : σ}

theorem get_bind_ok {f : σ → Program ε σ β} :
    (get >>= f) s = .ok (b, u) ↔ f s s = .ok (b, u) := Iff.rfl

theorem set_bind_ok {a : σ} {f : PUnit → Program ε σ β} :
    (set a >>= f) s = .ok (b, u) ↔ f ⟨⟩ a = .ok (b, u) := Iff.rfl

theorem modify_bind_ok {g : σ → σ} {f : PUnit → Program ε σ β} :
    (modify g >>= f) s = .ok (b, u) ↔ f ⟨⟩ (g s) = .ok (b, u) := Iff.rfl

end Sequences

@[simp] theorem ensures_bind {m : Program ε σ α} {f : α → Program ε σ β} {post : β → σ → Prop} :
    Ensures s (m >>= f) post ↔ Ensures s m (fun a t => Ensures t (f a) post) := by
  constructor
  · intro held a t ran b u rest
    exact held b u (bind_ok.mpr ⟨a, t, ran, rest⟩)
  · intro held b u ran
    obtain ⟨a, t, first, rest⟩ := bind_ok.mp ran
    exact held a t first b u rest

@[simp] theorem ensures_pure {a : α} {post : α → σ → Prop} :
    Ensures s (pure a : Program ε σ α) post ↔ post a s := by
  simp [Ensures, pure_ok]

@[simp] theorem ensures_get {post : σ → σ → Prop} :
    Ensures s (get : Program ε σ σ) post ↔ post s s := by
  simp [Ensures, get, getThe, MonadStateOf.get, StateT.get, pure, Except.pure]

@[simp] theorem ensures_modify {f : σ → σ} {post : PUnit → σ → Prop} :
    Ensures s (modify f : Program ε σ PUnit) post ↔ post ⟨⟩ (f s) := by
  simp only [Ensures, modify_ok]
  constructor
  · intro held
    exact held _ _ rfl
  · rintro held _ _ rfl
    exact held

@[simp] theorem ensures_throw {fault : ε} {post : α → σ → Prop} :
    Ensures s (throw fault : Program ε σ α) post := by
  intro a t ran
  simp [throw, throwThe, MonadExceptOf.throw, StateT.lift, bind, Except.bind] at ran

/-- The run of `m` from `s` completes, and ends in an answer and a state related
by `post`. -/
def Completes (s : σ) (m : Program ε σ α) (post : α → σ → Prop) : Prop :=
  ∃ answer t, m s = .ok (answer, t) ∧ post answer t

section Completes
variable {m : Program ε σ α} {f : α → Program ε σ β} {post : α → σ → Prop}

theorem completes_bind {post : β → σ → Prop} :
    Completes s (m >>= f) post ↔ Completes s m fun a t => Completes t (f a) post := by
  constructor
  · rintro ⟨b, u, ran, held⟩
    obtain ⟨a, t, first, rest⟩ := bind_ok.mp ran
    exact ⟨a, t, first, b, u, rest, held⟩
  · rintro ⟨a, t, first, b, u, rest, held⟩
    exact ⟨b, u, bind_ok.mpr ⟨a, t, first, rest⟩, held⟩

theorem completes_pure {a : α} : Completes s (pure a : Program ε σ α) post ↔ post a s := by
  constructor
  · rintro ⟨b, t, ran, held⟩
    obtain ⟨rfl, rfl⟩ := pure_ok.mp ran
    exact held
  · exact fun held => ⟨a, s, rfl, held⟩

theorem completes_of_ok {a : α} {t : σ} (ran : m s = .ok (a, t)) : Completes s m post ↔ post a t := by
  constructor
  · rintro ⟨b, u, ran', held⟩
    obtain ⟨rfl, rfl⟩ := Prod.mk.inj (Except.ok.inj (ran.symm.trans ran'))
    exact held
  · exact fun held => ⟨a, t, ran, held⟩

theorem not_completes {fault : ε} (ran : m s = .error fault) : ¬ Completes s m post := by
  rintro ⟨a, t, completed, -⟩
  rw [ran] at completed
  cases completed

theorem Completes.mono {post' : α → σ → Prop} (held : Completes s m post)
    (weaker : ∀ a t, post a t → post' a t) : Completes s m post' := by
  obtain ⟨a, t, ran, holds⟩ := held
  exact ⟨a, t, ran, weaker a t holds⟩

/-- A run goes on from where its first part ends. -/
theorem completes_next {f : α → Program ε σ β} {post : β → σ → Prop} {a : α} {t : σ} (ran : m s = .ok (a, t)) :
    Completes s (m >>= f) post ↔ Completes t (f a) post :=
  completes_bind.trans (completes_of_ok ran)

theorem completes_congr {post' : α → σ → Prop} (agrees : Ensures s m fun a t => (post a t ↔ post' a t)) :
    Completes s m post ↔ Completes s m post' := by
  refine exists_congr fun a => exists_congr fun t => and_congr_right fun ran => ?_
  exact agrees a t ran

/-- What is asked of the end of a run is decided where it begins. -/
theorem completes_settled {p : Prop} (settled : Ensures s m fun a t => (post a t ↔ p)) :
    Completes s m post ↔ (Completes s m fun _ _ => True) ∧ p := by
  constructor
  · rintro ⟨a, t, ran, held⟩
    exact ⟨⟨a, t, ran, trivial⟩, (settled a t ran).mp held⟩
  · rintro ⟨⟨a, t, ran, -⟩, held⟩
    exact ⟨a, t, ran, (settled a t ran).mpr held⟩

/-- A test that answers at once, as it may. -/
theorem completes_unless {p : Prop} [Decidable p] {a : α} {next : Prop} (done : post a s)
    (agrees : Completes s m post ↔ next) :
    Completes s (if p then pure a else m) post ↔ p ∨ next := by
  by_cases stops : p
  · rw [if_pos stops]
    exact iff_of_true (completes_pure.mpr done) (.inl stops)
  · rw [if_neg stops, agrees, or_iff_right stops]

end Completes

/-- `m` moves every state along `R`. -/
def Along (R : σ → σ → Prop) (m : Program ε σ α) : Prop :=
  ∀ s, Ensures s m fun _ t => R s t

section Along
variable {R : σ → σ → Prop}

theorem Along.mono {m : Program ε σ α} {R' : σ → σ → Prop} (held : Along R m)
    (wider : ∀ s t, R s t → R' s t) : Along R' m :=
  fun s => (held s).mono fun _ t => wider s t

theorem Along.pure (refl : ∀ s, R s s) (a : α) : Along R (Pure.pure a : Program ε σ α) :=
  fun s => ensures_pure.mpr (refl s)

theorem Along.bind (trans : ∀ {s t u}, R s t → R t u → R s u) {m : Program ε σ α}
    {f : α → Program ε σ β} (first : Along R m) (rest : ∀ a, Along R (f a)) :
    Along R (m >>= f) := by
  intro s
  refine ensures_bind.mpr fun a t ran b u ran' => ?_
  exact trans (first s a t ran) (rest a t b u ran')

/-- Reading the state moves nothing; the rest may use what was read. -/
theorem Along.get {f : σ → Program ε σ β} (rest : ∀ s, Ensures s (f s) fun _ t => R s t) :
    Along R (MonadState.get >>= f) :=
  fun s => ensures_bind.mpr (ensures_get.mpr (rest s))

end Along

/-- `m` does not see a change of its state: it answers the same, and ends in the
changed state. -/
def Commutes (g : σ → σ) (s : σ) (m : Program ε σ α) : Prop := m (g s) = (m s).map (Prod.map id g)

section Commutes
variable {g : σ → σ}

theorem commutes_pure (a : α) : Commutes g s (pure a : Program ε σ α) := rfl

theorem commutes_throw (fault : ε) : Commutes g s (throw fault : Program ε σ α) := rfl

theorem commutes_modify {f : σ → σ} (unseen : f (g s) = g (f s)) :
    Commutes g s (modify f : Program ε σ PUnit) := by
  change Except.ok (PUnit.unit, f (g s)) = Except.ok (PUnit.unit, g (f s))
  rw [unseen]

theorem Commutes.of_ok {m : Program ε σ α} {a : α} {t : σ} (ran : m s = .ok (a, t))
    (changed : m (g s) = .ok (a, g t)) : Commutes g s m := by
  rw [Commutes, ran, changed]
  rfl

theorem Commutes.bind {m : Program ε σ α} {f : α → Program ε σ β} (first : Commutes g s m)
    (rest : ∀ a t, m s = .ok (a, t) → Commutes g t (f a)) : Commutes g s (m >>= f) := by
  unfold Commutes at first ⊢
  cases ran : m s with
  | error fault =>
    rw [ran] at first
    rw [bind_of_error ran, bind_of_error first]
    rfl
  | ok reply =>
    obtain ⟨a, t⟩ := reply
    rw [ran] at first
    rw [bind_of_ok ran, bind_of_ok first]
    exact rest a t ran

/-- Reading the state commutes where the rest does not look at the change. -/
theorem Commutes.get {f : σ → Program ε σ β} (blind : f (g s) = f s) (rest : Commutes g s (f s)) :
    Commutes g s (MonadState.get >>= f) := by
  change f (g s) (g s) = (f s s).map _
  rw [blind]
  exact rest

end Commutes

/-- What holds at the start and survives every step holds wherever a run gets. -/
theorem reached_invariant {step : σ → σ → Prop} {inv : σ → Prop}
    (kept : ∀ s t, inv s → step s t → inv t) (start : inv s)
    (run : Relation.ReflTransGen step s t) : inv t := by
  induction run with
  | refl => exact start
  | tail _ last ih => exact kept _ _ ih last

/-- Steps that are taken one after the other reach their last state. -/
theorem foldlM_reaches {ι : Type} {step : σ → ι → Option σ} {R : σ → σ → Prop}
    (each : ∀ s i t, step s i = some t → R s t) {steps : List ι} {t : σ} (ran : steps.foldlM step s = some t) :
    Relation.ReflTransGen R s t := by
  induction steps generalizing s with
  | nil =>
    cases ran
    exact .refl
  | cons i rest ih =>
    obtain ⟨mid, first, later⟩ := Option.bind_eq_some_iff.mp ran
    exact .head (each s i mid first) (ih later)

/-- If every step of one system is a run of another between related states, so
is every run. -/
theorem simulated_run {τ : Type} {step : σ → σ → Prop} {step' : τ → τ → Prop} {sim : σ → τ → Prop} {t : σ} {u : τ}
    (simulated : ∀ s t u, sim s u → step s t → ∃ v, Relation.ReflTransGen step' u v ∧ sim t v) (start : sim s u)
    (run : Relation.ReflTransGen step s t) : ∃ v, Relation.ReflTransGen step' u v ∧ sim t v := by
  induction run with
  | refl => exact ⟨u, .refl, start⟩
  | tail _ last ih =>
    obtain ⟨v, reached, related⟩ := ih
    obtain ⟨v', further, related'⟩ := simulated _ _ v related last
    exact ⟨v', reached.trans further, related'⟩

end MqttBroker.Logic
