import Mathlib.Init
/-!
# Programs over a scheduled environment

A `Prog σ α` is straight-line code over an environment `σ` that carries its own
schedule: the outcomes of the calls still to come. It either returns, or is
still inside a call when the schedule ends. A statement about every schedule is
then a statement about every start environment, and what holds of a stalled
program holds at every point of a longer run.
-/

/-- How far a program got. -/
inductive Outcome (σ α : Type) where
  | ret (a : α) (s : σ)
  | stalled (s : σ)
  deriving DecidableEq

namespace Outcome
variable {σ α : Type}

/-- The environment the program left behind. -/
def env : Outcome σ α → σ
  | ret _ s => s
  | stalled s => s

@[simp] theorem env_ret (a : α) (s : σ) : (ret a s).env = s := rfl
@[simp] theorem env_stalled (s : σ) : (stalled s : Outcome σ α).env = s := rfl

/-- What the program returned. -/
def val : Outcome σ α → Option α
  | ret a _ => some a
  | stalled _ => none

@[simp] theorem val_ret (a : α) (s : σ) : (ret a s).val = some a := rfl
@[simp] theorem val_stalled (s : σ) : (stalled s : Outcome σ α).val = none := rfl

theorem val_eq_some {o : Outcome σ α} {a : α} : o.val = some a ↔ ∃ s, o = ret a s := by
  cases o with
  | ret a' s =>
    constructor
    · rintro ⟨⟩
      exact ⟨s, rfl⟩
    · rintro ⟨s', ⟨⟩⟩
      rfl
  | stalled s => simp

end Outcome

def Prog (σ α : Type) := σ → Outcome σ α

namespace Prog
variable {σ α β : Type}

instance : Monad (Prog σ) where
  pure a := fun s => .ret a s
  bind m f := fun s => match m s with
    | .ret a s' => f a s'
    | .stalled s' => .stalled s'

/-- Reads the environment. -/
def read (f : σ → α) : Prog σ α := fun s => .ret (f s) s

/-- Changes the environment. -/
def update (f : σ → σ) : Prog σ Unit := fun s => .ret () (f s)

/-- A program on a part of the environment. -/
def zoom {τ : Type} (get : τ → σ) (set : σ → τ → τ) (m : Prog σ α) : Prog τ α := fun t => match m (get t) with
  | .ret a s => .ret a (set s t)
  | .stalled s => .stalled (set s t)

@[simp] theorem pure_run (a : α) (s : σ) : (pure a : Prog σ α) s = .ret a s := rfl

@[simp] theorem read_run (f : σ → α) (s : σ) : read f s = .ret (f s) s := rfl

@[simp] theorem update_run (f : σ → σ) (s : σ) : update f s = .ret () (f s) := rfl

theorem bind_run (m : Prog σ α) (f : α → Prog σ β) (s : σ) :
    (m >>= f) s = match m s with
      | .ret a s' => f a s'
      | .stalled s' => .stalled s' := rfl

/-- What follows a call that returned. -/
theorem bind_ret {m : Prog σ α} {f : α → Prog σ β} {s s' : σ} {a : α} (h : m s = .ret a s') :
    (m >>= f) s = f a s' := by
  rw [bind_run, h]

theorem bind_ret_iff {m : Prog σ α} {f : α → Prog σ β} {s s' : σ} {b : β} :
    (m >>= f) s = .ret b s' ↔ ∃ a s1, m s = .ret a s1 ∧ f a s1 = .ret b s' := by
  rw [bind_run]
  cases hm : m s with
  | ret a s1 =>
    constructor
    · exact fun h => ⟨a, s1, rfl, h⟩
    · rintro ⟨a', s2, he, h⟩
      cases he
      exact h
  | stalled s1 =>
    constructor
    · intro h
      cases h
    · rintro ⟨a', s2, he, -⟩
      cases he

/-! ## Two environments -/

/-- The program does not tell related environments apart: what it returns from one it
returns from the other, and leaves them related. -/
def Respects (R : σ → σ → Prop) (m : Prog σ α) : Prop :=
  ∀ ⦃s t⦄, R s t → ∀ ⦃a s'⦄, m s = .ret a s' → ∃ t', m t = .ret a t' ∧ R s' t'

theorem Respects.pure (R : σ → σ → Prop) (a : α) : Respects R (pure a) := by
  intro s t h b s' hret
  cases hret
  exact ⟨t, rfl, h⟩

theorem Respects.bind {R : σ → σ → Prop} {m : Prog σ α} {f : α → Prog σ β} (hm : Respects R m)
    (hf : ∀ a, Respects R (f a)) : Respects R (m >>= f) := by
  intro s t h b s' hret
  obtain ⟨a, s1, hs1, hs'⟩ := bind_ret_iff.mp hret
  obtain ⟨t1, ht1, h1⟩ := hm h hs1
  obtain ⟨t', ht', h'⟩ := hf a h1 hs'
  exact ⟨t', bind_ret_iff.mpr ⟨a, t1, ht1, ht'⟩, h'⟩

/-! ## What a program leaves alone -/

/-- However the program ends, this part of the environment is as it was. -/
def Keeps {τ : Type} (f : σ → τ) (m : Prog σ α) : Prop := ∀ s, f (m s).env = f s

theorem Keeps.pure {τ : Type} (f : σ → τ) (a : α) : Keeps f (pure a) := fun _ => rfl

theorem Keeps.bind {τ : Type} {f : σ → τ} {m : Prog σ α} {g : α → Prog σ β} (hm : Keeps f m)
    (hg : ∀ a, Keeps f (g a)) : Keeps f (m >>= g) := by
  intro s
  have hs := hm s
  rw [bind_run]
  cases hrun : m s with
  | ret a s1 =>
    rw [hrun] at hs
    exact (hg a s1).trans hs
  | stalled s1 =>
    rw [hrun] at hs
    exact hs

theorem Keeps.ite {τ : Type} {f : σ → τ} {p : Prop} [Decidable p] {m m' : Prog σ α} (h : Keeps f m) (h' : Keeps f m') :
    Keeps f (if p then m else m') := by
  split
  · exact h
  · exact h'

theorem Keeps.fst {τ υ : Type} {f : σ → τ} {g : σ → υ} {m : Prog σ α} (h : Keeps (fun s => (f s, g s)) m) :
    Keeps f m := fun s => congrArg Prod.fst (h s)

theorem Keeps.snd {τ υ : Type} {f : σ → τ} {g : σ → υ} {m : Prog σ α} (h : Keeps (fun s => (f s, g s)) m) :
    Keeps g m := fun s => congrArg Prod.snd (h s)

theorem Keeps.read {τ : Type} (f : σ → τ) (g : σ → α) : Keeps f (read g) := fun _ => rfl

end Prog
