import Mathlib.Init
/-!
# Runs of a step function

A system is a partial step function `step : σ → α → Option σ`: an action that is
not enabled gives `none`. A run is a list of actions, so a run on given inputs
can be evaluated, and what every run satisfies is proved from one step by
`Reach.invariant`.
-/
namespace Lts
variable {σ α : Type} (step : σ → α → Option σ)

def run : List α → σ → Option σ
  | [], s => some s
  | a :: as, s => (step s a).bind (run as)

/-- `s'` is reached from `s` in some number of steps. -/
def Reach (s s' : σ) : Prop := ∃ as, run step as s = some s'

/-- Only the actions that `ok` admits in the current state. -/
def guarded (ok : σ → α → Prop) [∀ s a, Decidable (ok s a)] (s : σ) (a : α) : Option σ :=
  if ok s a then step s a else none

variable {step} {s s' s'' : σ} {a : α}

theorem run_append (as bs : List α) (s : σ) : run step (as ++ bs) s = (run step as s).bind (run step bs) := by
  induction as generalizing s with
  | nil => rfl
  | cons a as ih =>
    rw [List.cons_append, run, run, Option.bind_assoc]
    congr 1
    funext s'
    exact ih s'

theorem Reach.refl (s : σ) : Reach step s s := ⟨[], rfl⟩

theorem Reach.tail (h : Reach step s s') (hs : step s' a = some s'') : Reach step s s'' := by
  obtain ⟨as, h⟩ := h
  exact ⟨as ++ [a], by simp [run_append, h, run, hs]⟩

theorem Reach.trans (h : Reach step s s') (h' : Reach step s' s'') : Reach step s s'' := by
  obtain ⟨as, h⟩ := h
  obtain ⟨bs, h'⟩ := h'
  exact ⟨as ++ bs, by rw [run_append, h]; exact h'⟩

theorem Reach.head (hs : step s a = some s') (h : Reach step s' s'') : Reach step s s'' :=
  (Reach.tail (.refl s) hs).trans h

/-- What runs of admitted actions reach, runs reach. -/
theorem Reach.of_guarded {ok : σ → α → Prop} [∀ s a, Decidable (ok s a)] (h : Reach (guarded step ok) s s') :
    Reach step s s' := by
  obtain ⟨as, h⟩ := h
  induction as generalizing s with
  | nil =>
    cases h
    exact .refl _
  | cons a as ih =>
    obtain ⟨s1, hs1, h⟩ := Option.bind_eq_some_iff.mp h
    obtain ⟨-, hs1⟩ := Option.ite_none_right_eq_some.mp hs1
    exact .head hs1 (ih h)

/-- A run that can be evaluated shows that a state of some kind is reached. -/
theorem Reach.of_run (step : σ → α → Option σ) (s : σ) (p : σ → Bool) (as : List α)
    (h : (run step as s).any p = true) : ∃ s', Reach step s s' ∧ p s' = true := by
  cases hr : run step as s with
  | none =>
    rw [hr] at h
    cases h
  | some s' =>
    rw [hr] at h
    exact ⟨s', ⟨as, hr⟩, h⟩

/-- What imitates each step imitates a run. -/
theorem Reach.simulate {τ β : Type} {step' : τ → β → Option τ} {f : τ → σ} {c c' : τ} (h : Reach step' c c')
    (hstep : ∀ c b c', step' c b = some c' → ∃ a, step (f c) a = some (f c')) : Reach step (f c) (f c') := by
  obtain ⟨bs, h⟩ := h
  induction bs generalizing c with
  | nil =>
    cases h
    exact .refl _
  | cons b bs ih =>
    obtain ⟨c1, hc1, h⟩ := Option.bind_eq_some_iff.mp h
    obtain ⟨a, ha⟩ := hstep c b c1 hc1
    exact .head ha (ih h)

/-- Where each step is matched by one on the same action, so is a run. -/
theorem run_related {τ : Type} {step' : τ → α → Option τ} {R : σ → τ → Prop} {t : τ}
    (hstep : ∀ s t a s', R s t → step s a = some s' → ∃ t', step' t a = some t' ∧ R s' t') {as : List α}
    (hrun : run step as s = some s') (h : R s t) : ∃ t', run step' as t = some t' ∧ R s' t' := by
  induction as generalizing s t with
  | nil =>
    cases hrun
    exact ⟨t, rfl, h⟩
  | cons a as ih =>
    obtain ⟨s1, hs1, hrun⟩ := Option.bind_eq_some_iff.mp hrun
    obtain ⟨t1, ht1, h1⟩ := hstep s t a s1 h hs1
    obtain ⟨t', hrun', h'⟩ := ih hrun h1
    exact ⟨t', by rw [run, ht1]; exact hrun', h'⟩

/-- What one step preserves, a run preserves. -/
theorem Reach.invariant {P : σ → Prop} (hstep : ∀ s a s', P s → step s a = some s' → P s')
    (h : Reach step s s') (h0 : P s) : P s' := by
  obtain ⟨as, h⟩ := h
  induction as generalizing s with
  | nil =>
    cases h
    exact h0
  | cons a as ih =>
    obtain ⟨s1, hs1, h⟩ := Option.bind_eq_some_iff.mp h
    exact ih (hstep s a s1 h0 hs1) h

/-- Steps that get closer to a goal lead there. -/
theorem Reach.of_measure {P goal : σ → Prop} (μ : σ → Nat)
    (hstep : ∀ s, P s → ¬ goal s → ∃ a s', step s a = some s' ∧ P s' ∧ μ s' < μ s) (h : P s) :
    ∃ s', Reach step s s' ∧ P s' ∧ goal s' := by
  generalize hn : μ s = n
  induction n using Nat.strongRecOn generalizing s with
  | ind n ih =>
    by_cases hgoal : goal s
    · exact ⟨s, .refl s, h, hgoal⟩
    · obtain ⟨a, s1, hs1, h1, hlt⟩ := hstep s h hgoal
      obtain ⟨s', hr, hs'⟩ := ih (μ s1) (hn ▸ hlt) h1 rfl
      exact ⟨s', .head hs1 hr, hs'⟩

/-- A run of steps that each get closer to the end is no longer than the way. -/
theorem run_length_add_le {I : σ → Prop} (μ : σ → Nat) (hI : ∀ s a s', I s → step s a = some s' → I s' ∧ μ s' < μ s)
    {as : List α} (hrun : run step as s = some s') (h0 : I s) : I s' ∧ as.length + μ s' ≤ μ s := by
  induction as generalizing s with
  | nil =>
    cases hrun
    exact ⟨h0, by simp⟩
  | cons a as ih =>
    obtain ⟨s1, hs1, hrun⟩ := Option.bind_eq_some_iff.mp hrun
    obtain ⟨h1, hlt⟩ := hI s a s1 h0 hs1
    obtain ⟨h', hle⟩ := ih hrun h1
    rw [List.length_cons]
    exact ⟨h', by omega⟩

/-! ## Properties of a whole run -/

variable (step) in
/-- `P` holds in every state of the run. -/
def Always (P : σ → Prop) : List α → σ → Prop
  | [], s => P s
  | a :: as, s => P s ∧ ∀ s' ∈ step s a, Always P as s'

variable (step) in
/-- Every step of the run is taken in a state that admits it. -/
def Along (ok : σ → α → Prop) : List α → σ → Prop
  | [], _ => True
  | a :: as, s => ok s a ∧ ∀ s' ∈ step s a, Along ok as s'

instance decidableAlong (ok : σ → α → Prop) [∀ s a, Decidable (ok s a)] :
    ∀ as s, Decidable (Along step ok as s)
  | [], _ => isTrue trivial
  | a :: as, s =>
    have := decidableAlong ok as
    inferInstanceAs (Decidable (ok s a ∧ ∀ s' ∈ step s a, Along step ok as s'))

theorem Always.head {P : σ → Prop} {as : List α} (h : Always step P as s) : P s := by
  cases as with
  | nil => exact h
  | cons a as => exact h.1

/-- What admitted steps preserve, a run of them preserves. -/
theorem Along.invariant {I : σ → Prop} {ok : σ → α → Prop} {as : List α} (h : Along step ok as s)
    (hok : ∀ s a s', I s → ok s a → step s a = some s' → I s') (hrun : run step as s = some s') (h0 : I s) : I s' := by
  induction as generalizing s with
  | nil =>
    cases hrun
    exact h0
  | cons a as ih =>
    obtain ⟨s1, hs1, hrun⟩ := Option.bind_eq_some_iff.mp hrun
    exact ih (h.2 s1 hs1) hrun (hok s a s1 h0 h.1 hs1)

/-- What one step preserves holds in every state of a run. -/
theorem always_of_invariant {P I : σ → Prop} (hP : ∀ s, I s → P s) (hI : ∀ s a s', I s → step s a = some s' → I s')
    (as : List α) (h0 : I s) : Always step P as s := by
  induction as generalizing s with
  | nil => exact hP s h0
  | cons a as ih => exact ⟨hP s h0, fun s' hs' => ih (hI s a s' h0 hs')⟩

/-- What the later states keep of the earlier ones is judged at the end of the run. -/
theorem always_iff_last {P I : σ → Prop} (hI : ∀ s a s', I s → step s a = some s' → I s')
    (hback : ∀ s a s', I s → step s a = some s' → P s' → P s) {as : List α} (hrun : run step as s = some s') (h0 : I s) :
    Always step P as s ↔ P s' := by
  induction as generalizing s with
  | nil =>
    cases hrun
    exact Iff.rfl
  | cons a as ih =>
    obtain ⟨s1, hs1, hrun⟩ := Option.bind_eq_some_iff.mp hrun
    have hrest := ih hrun (hI s a s1 h0 hs1)
    constructor
    · rintro ⟨-, hall⟩
      exact hrest.mp (hall s1 hs1)
    · intro h
      have hall := hrest.mpr h
      refine ⟨hback s a s1 h0 hs1 hall.head, fun s2 hs2 => ?_⟩
      obtain rfl : s1 = s2 := Option.some.inj (hs1.symm.trans hs2)
      exact hall

/-- A condition on steps is exact for `P`: it carries an invariant that implies
`P`, and a step that fails it makes `P` false. -/
theorem always_iff_along {P I : σ → Prop} {ok : σ → α → Prop} (hP : ∀ s, I s → P s)
    (hok : ∀ s a s', I s → ok s a → step s a = some s' → I s')
    (hbad : ∀ s a s', I s → ¬ ok s a → step s a = some s' → ¬ P s') {as : List α} (hrun : run step as s = some s')
    (h0 : I s) : Always step P as s ↔ Along step ok as s := by
  induction as generalizing s with
  | nil => exact ⟨fun _ => trivial, fun _ => hP s h0⟩
  | cons a as ih =>
    obtain ⟨s1, hs1, hrun⟩ := Option.bind_eq_some_iff.mp hrun
    constructor
    · rintro ⟨-, hall⟩
      have hone : ok s a := Classical.byContradiction fun hno => hbad s a s1 h0 hno hs1 (hall s1 hs1).head
      refine ⟨hone, fun s2 hs2 => ?_⟩
      obtain rfl : s1 = s2 := Option.some.inj (hs1.symm.trans hs2)
      exact (ih hrun (hok s a s1 h0 hone hs1)).mp (hall s1 hs1)
    · rintro ⟨hone, hall⟩
      refine ⟨hP s h0, fun s2 hs2 => ?_⟩
      obtain rfl : s1 = s2 := Option.some.inj (hs1.symm.trans hs2)
      exact (ih hrun (hok s a s1 h0 hone hs1)).mpr (hall s1 hs1)

end Lts
