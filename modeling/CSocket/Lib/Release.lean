import CSocket.Lib.Pthread
/-!
# Critical sections end

`Sections`: the positions of a program at which the holder of a mutex goes on to release
it, and a rank that its next instruction lowers. Where a program has such a rank, whoever
is at one of these positions releases the mutex after so many steps of its own, and a
thread before the mutex can have it (`Sections.released`): no thread waits for good.
-/
set_option linter.unusedSectionVars false

namespace Pthread

section
variable {Mx Cv Pc ι σ : Type} [DecidableEq Mx] [DecidableEq Cv]
variable {code : Pc → Instr Mx Cv Pc ι σ} {start : Pc → Bool} {s s' : State Mx Cv Pc σ} {a : Act ι Pc}

/-! ## The rule for a program -/

/-- The instruction at `pc` releases `m`, or leads to a position of the section that
ranks lower. -/
def Instr.Ends (inside : Pc → Mx → Bool) (rank : Pc → σ → Nat) (m : Mx) (pc : Pc) : Instr Mx Cv Pc ι σ → Prop
  | .lock _ _ => False
  | .unlock m' _ => m' = m
  | .wait _ m' _ => m' = m
  | .signal _ k => inside k m = true ∧ ∀ d, rank k d < rank pc d
  | .broadcast _ k => inside k m = true ∧ ∀ d, rank k d < rank pc d
  | .data f => ∀ t x d, inside (f t x d).2 m = true ∧ rank (f t x d).2 (f t x d).1 < rank pc d
  | .create f _ k => inside k m = true ∧ ∀ t d, rank k (f t d) < rank pc d
  | .halt => False

variable (code) in
/-- The sections end: their own steps lower the rank, and no change of the data by another
thread raises it. -/
structure Sections (holds inside : Pc → Mx → Bool) (rank : Pc → σ → Nat) : Prop where
  held : ∀ pc m, inside pc m = true → holds pc m = true
  ends : ∀ pc m, inside pc m = true → (code pc).Ends inside rank m pc
  data : ∀ pc0 f t x pc d, code pc0 = .data f → rank pc (f t x d).1 ≤ rank pc d
  create : ∀ pc0 f child k t pc d, code pc0 = .create f child k → rank pc (f t d) ≤ rank pc d

/-- The thread stands before `m`: at a lock, or woken from a wait. -/
def Before (code : Pc → Instr Mx Cv Pc ι σ) (s : State Mx Cv Pc σ) (u : Nat) (m : Mx) : Prop :=
  (∃ pc k, s.threads[u]? = some (.running pc) ∧ code pc = .lock m k) ∨ ∃ k, s.threads[u]? = some (.woken m k)

variable (code start) in
/-- Thread `t` gives `m` up after at most `n` steps of its own. -/
structure Released (s : State Mx Cv Pc σ) (m : Mx) (t n : Nat) : Prop where
  /-- Whatever the other threads do in between. -/
  soon : ∀ as s', Lts.run (step code start) as s = some s' → n ≤ as.countP (fun a => a.actor = some t) →
    ∃ bs s1, bs <+: as ∧ Lts.run (step code start) bs s = some s1 ∧ s1.owner m ≠ some t
  /-- Its next step is possible. -/
  able : ∀ x, ∃ w s1, step code start s (.run t x w) = some s1
  /-- Nobody waits for `m` for good. -/
  handed : Nonempty ι → ∀ u, Before code s u m →
    ∃ as s1, Lts.run (step code start) as s = some s1 ∧ as.length ≤ n + 1 ∧ s1.owner m = some u

theorem Released.mono {m : Mx} {t n n' : Nat} (h : Released code start s m t n) (hn : n ≤ n') :
    Released code start s m t n' where
  soon as s' hrun hcount := h.soon as s' hrun (Nat.le_trans hn hcount)
  able := h.able
  handed hne u hu := by
    obtain ⟨as, s1, hrun, hlen, ho⟩ := h.handed hne u hu
    exact ⟨as, s1, hrun, by omega, ho⟩

theorem ends_branch {inside : Pc → Mx → Bool} {rank : Pc → σ → Nat} {m : Mx} {pc k k' : Pc} {p : σ → Bool}
    (h : inside k m = true ∧ ∀ d, rank k d < rank pc d) (h' : inside k' m = true ∧ ∀ d, rank k' d < rank pc d) :
    (.branch p k k' : Instr Mx Cv Pc ι σ).Ends inside rank m pc := by
  intro t x d
  dsimp only
  split
  · exact ⟨h.1, h.2 d⟩
  · exact ⟨h'.1, h'.2 d⟩

/-! ## One step -/

theorem Discipline.reach {holds : Pc → Mx → Bool} (hd : Discipline code start holds) (h0 : Exclusive code holds s)
    (h : Lts.Reach (step code start) s s') : Exclusive code holds s' :=
  h.invariant (fun _ _ _ hs hstep => hd.exclusive hs (step_cases hstep)) h0

theorem Status.running_ne (pc : Pc) (c : Cv) (m : Mx) (k : Pc) : (.running pc : Status Mx Cv Pc) ≠ .waiting c m k := by
  rintro ⟨⟩

theorem Status.woken_ne (m : Mx) (k : Pc) (c : Cv) (m' : Mx) (k' : Pc) :
    (.woken m k : Status Mx Cv Pc) ≠ .waiting c m' k' := by
  rintro ⟨⟩

theorem Status.running_ne_woken (pc : Pc) (m : Mx) (k : Pc) : (.running pc : Status Mx Cv Pc) ≠ .woken m k := by
  rintro ⟨⟩

/-- Nobody else changes the status of a thread that is not blocked. -/
theorem Step.other_awake (h : Step code start s a s') {u : Nat} {st : Status Mx Cv Pc} (hu : a.actor ≠ some u)
    (hst : s.threads[u]? = some st) (hawake : ∀ c m k, st ≠ .waiting c m k) : s'.threads[u]? = some st := by
  have hlt : u < s.threads.length := (List.getElem?_eq_some_iff.mp hst).1
  have hset (t : Nat) (x : Status Mx Cv Pc) (hne : some t ≠ some u) : (s.threads.set t x)[u]? = some st :=
    (List.getElem?_set_ne fun he => hne (congrArg some he)).trans hst
  have hne {t : Nat} {c : Cv} {m : Mx} {k : Pc} (ht : s.threads[t]? = some (.waiting c m k)) : t ≠ u := by
    rintro rfl
    exact hawake c m k (Option.some.inj (hst.symm.trans ht))
  cases h with
  | lock | unlock | wait | resume | signalNone | data => exact hset _ _ hu
  | signal ht hc hw =>
    exact (List.getElem?_set_ne fun he => hu (congrArg some he)).trans ((List.getElem?_set_ne (hne hw)).trans hst)
  | @broadcast t x w pc c k ht hc =>
    refine (List.getElem?_set_ne fun he => hu (congrArg some he)).trans ?_
    have hwake : st.wake c = st := by
      cases st with
      | waiting c' m k => exact absurd rfl (hawake c' m k)
      | running | woken => rfl
    simp [State.wakeAll, hst, hwake]
  | create => exact (List.getElem?_append_left (by simpa using hlt)).trans (hset _ _ hu)
  | spurious ht => exact (List.getElem?_set_ne (hne ht)).trans hst
  | arrive => exact (List.getElem?_append_left hlt).trans hst

namespace Sections
variable {holds inside : Pc → Mx → Bool} {rank : Pc → σ → Nat} {t : Nat} {pc : Pc} {m : Mx}

/-- No step of another thread raises the rank. -/
theorem rank_le (h : Sections code holds inside rank) (hs : Step code start s a s') (pc : Pc) :
    rank pc s'.shared ≤ rank pc s.shared := by
  cases hs with
  | data ht hc => exact h.data _ _ _ _ _ _ hc
  | create ht hc => exact h.create _ _ _ _ _ _ _ hc
  | _ => exact Nat.le_refl _

/-- A step of the owner releases the mutex or lowers the rank. -/
theorem own_step (h : Sections code holds inside rank) (ht : s.threads[t]? = some (.running pc))
    (hpc : inside pc m = true) {x : ι} {w : Nat} (hs : Step code start s (.run t x w) s') :
    s'.owner m = none ∨ ∃ k, s'.threads[t]? = some (.running k) ∧ inside k m = true ∧
      rank k s'.shared < rank pc s.shared := by
  have hlt : t < s.threads.length := (List.getElem?_eq_some_iff.mp ht).1
  have hends := h.ends pc m hpc
  have hat {pc' : Pc} (ht' : s.threads[t]? = some (.running pc')) : pc' = pc := by
    cases ht'.symm.trans ht
    rfl
  cases hs with
  | lock ht' hc =>
    rw [hat ht'] at hc
    rw [hc] at hends
    exact hends.elim
  | unlock ht' hc | wait ht' hc =>
    rw [hat ht'] at hc
    rw [hc] at hends
    obtain rfl := hends
    left
    simp [State.setThread]
  | resume ht' =>
    rw [ht] at ht'
    cases ht'
  | signal ht' hc hw =>
    rw [hat ht'] at hc
    rw [hc] at hends
    exact .inr ⟨_, List.getElem?_set_self (by simpa [State.setThread] using hlt), hends.1, hends.2 _⟩
  | signalNone ht' hc =>
    rw [hat ht'] at hc
    rw [hc] at hends
    exact .inr ⟨_, List.getElem?_set_self hlt, hends.1, hends.2 _⟩
  | broadcast ht' hc =>
    rw [hat ht'] at hc
    rw [hc] at hends
    exact .inr ⟨_, List.getElem?_set_self (by simpa [State.wakeAll] using hlt), hends.1, hends.2 _⟩
  | data ht' hc =>
    rw [hat ht'] at hc
    rw [hc] at hends
    exact .inr ⟨_, List.getElem?_set_self hlt, (hends _ _ _).1, (hends _ _ _).2⟩
  | create ht' hc =>
    rw [hat ht'] at hc
    rw [hc] at hends
    refine .inr ⟨_, ?_, hends.1, hends.2 _ _⟩
    exact (List.getElem?_append_left (by simpa using hlt)).trans (List.getElem?_set_self hlt)

/-- The owner is never stuck. -/
theorem able (h : Sections code holds inside rank) (hexcl : Exclusive code holds s)
    (ht : s.threads[t]? = some (.running pc)) (hpc : inside pc m = true) (x : ι) :
    ∃ w s1, step code start s (.run t x w) = some s1 := by
  have hends := h.ends pc m hpc
  have ho : s.owner m = some t := (hexcl.owner_running ht m).mpr (h.held pc m hpc)
  cases hc : code pc with
  | lock m' k =>
    rw [hc] at hends
    exact hends.elim
  | unlock m' k =>
    rw [hc] at hends
    obtain rfl := hends
    exact ⟨0, _, step_unlock ht hc ho⟩
  | wait c m' k =>
    rw [hc] at hends
    obtain rfl := hends
    exact ⟨0, _, step_wait ht hc ho⟩
  | signal c k =>
    obtain ⟨w, s1, hs1, -⟩ : ∃ w s1, step code start s (.run t x w) = some s1 ∧ s1.shared = s.shared ∧
        s1.owner = s.owner ∧ s1.threads[t]? = some (.running k) := exists_step_signal ht hc x
    exact ⟨w, s1, hs1⟩
  | broadcast c k => exact ⟨0, _, step_broadcast ht hc⟩
  | data f => exact ⟨0, _, step_data ht hc⟩
  | create f child k => exact ⟨0, _, step_create ht hc⟩
  | halt =>
    rw [hc] at hends
    exact hends.elim

/-! ## Runs -/

/-- Whatever the other threads do, the owner releases the mutex within its rank. -/
theorem soon (h : Sections code holds inside rank) (hd : Discipline code start holds) {as : List (Act ι Pc)}
    (hexcl : Exclusive code holds s) (ht : s.threads[t]? = some (.running pc)) (hpc : inside pc m = true)
    (hrun : Lts.run (step code start) as s = some s')
    (hcount : rank pc s.shared + 1 ≤ as.countP (fun a => a.actor = some t)) :
    ∃ bs s1, bs <+: as ∧ Lts.run (step code start) bs s = some s1 ∧ s1.owner m ≠ some t := by
  induction as generalizing s pc with
  | nil => simp at hcount
  | cons a as ih =>
    obtain ⟨s1, hs1, hrest⟩ := Option.bind_eq_some_iff.mp hrun
    have hstep := step_cases hs1
    have hexcl1 := hd.exclusive hexcl hstep
    -- what was found for the rest of the run
    have hcons : (∃ bs s2, bs <+: as ∧ Lts.run (step code start) bs s1 = some s2 ∧ s2.owner m ≠ some t) →
        ∃ bs s2, bs <+: a :: as ∧ Lts.run (step code start) bs s = some s2 ∧ s2.owner m ≠ some t := by
      rintro ⟨bs, s2, hbs, hrun2, ho⟩
      exact ⟨a :: bs, s2, List.cons_prefix_cons.mpr ⟨rfl, hbs⟩, by rw [Lts.run, hs1]; exact hrun2, ho⟩
    by_cases hactor : a.actor = some t
    · rw [List.countP_cons_of_pos (by simpa using hactor)] at hcount
      cases a with
      | run u x w =>
        obtain rfl : u = t := Option.some.inj hactor
        rcases h.own_step ht hpc hstep with ho | ⟨k, hk, hkin, hrank⟩
        · refine ⟨[.run u x w], s1, List.cons_prefix_cons.mpr ⟨rfl, List.nil_prefix⟩, ?_, by simp [ho]⟩
          rw [Lts.run, hs1]
          rfl
        · exact hcons (ih hexcl1 hk hkin hrest (by omega))
      | spurious => cases hactor
      | arrive => cases hactor
    · rw [List.countP_cons_of_neg (by simpa using hactor)] at hcount
      have ht1 := hstep.other_awake hactor ht (Status.running_ne pc)
      exact hcons (ih hexcl1 ht1 hpc hrest (Nat.le_trans (Nat.succ_le_succ (h.rank_le hstep pc)) hcount))

/-- The owner alone can release the mutex, and a thread before it stays there. -/
theorem freed (h : Sections code holds inside rank) (hd : Discipline code start holds) (x : ι) {u : Nat}
    {st : Status Mx Cv Pc} {n : Nat} (hn : rank pc s.shared ≤ n) (hexcl : Exclusive code holds s)
    (ht : s.threads[t]? = some (.running pc)) (hpc : inside pc m = true) (hu : u ≠ t) (hst : s.threads[u]? = some st)
    (hawake : ∀ c m k, st ≠ .waiting c m k) :
    ∃ as s1, Lts.run (step code start) as s = some s1 ∧ as.length ≤ n + 1 ∧ s1.owner m = none ∧
      s1.threads[u]? = some st := by
  induction n using Nat.strongRecOn generalizing s pc with
  | ind n ih =>
    obtain ⟨w, s1, hs1⟩ : ∃ w s1, step code start s (.run t x w) = some s1 := h.able hexcl ht hpc x
    have hstep := step_cases hs1
    have hexcl1 := hd.exclusive hexcl hstep
    have hst1 := hstep.other_awake (fun he => hu (Option.some.inj he).symm) hst hawake
    rcases h.own_step ht hpc hstep with hfree | ⟨k, hk, hkin, hrank⟩
    · exact ⟨[.run t x w], s1, by rw [Lts.run, hs1]; rfl, by simp, hfree, hst1⟩
    · obtain ⟨as, s2, hrun, hlen, hfree, hst2⟩ := ih (n - 1) (by omega) (by omega) hexcl1 hk hkin hst1
      exact ⟨.run t x w :: as, s2, by rw [Lts.run, hs1]; exact hrun, by simp; omega, hfree, hst2⟩

/-- A thread before the mutex can have it. -/
theorem handed (h : Sections code holds inside rank) (hd : Discipline code start holds) (x : ι) {u : Nat}
    (hexcl : Exclusive code holds s) (ht : s.threads[t]? = some (.running pc)) (hpc : inside pc m = true)
    (hu : Before code s u m) :
    ∃ as s1, Lts.run (step code start) as s = some s1 ∧ as.length ≤ rank pc s.shared + 2 ∧ s1.owner m = some u := by
  have hne {st : Status Mx Cv Pc} (hst : s.threads[u]? = some st) (hno : st ≠ .running pc) : u ≠ t := by
    rintro rfl
    exact hno (Option.some.inj (hst.symm.trans ht))
  -- the owner's steps, and then the step of `u`
  have hlast {st : Status Mx Cv Pc} (hst : s.threads[u]? = some st) (hno : st ≠ .running pc)
      (hawake : ∀ c m k, st ≠ .waiting c m k)
      (hstep : ∀ s1 : State Mx Cv Pc σ, s1.threads[u]? = some st → s1.owner m = none →
        ∃ k, step code start s1 (.run u x 0) = some ((s1.setOwner m (some u)).setThread u (.running k))) :
      ∃ as s1, Lts.run (step code start) as s = some s1 ∧ as.length ≤ rank pc s.shared + 2 ∧
        s1.owner m = some u := by
    obtain ⟨as, s1, hrun, hlen, hfree, hst1⟩ := h.freed hd x (Nat.le_refl _) hexcl ht hpc (hne hst hno) hst hawake
    obtain ⟨k, hk⟩ := hstep s1 hst1 hfree
    refine ⟨as ++ [.run u x 0], (s1.setOwner m (some u)).setThread u (.running k), ?_, by simpa using hlen, ?_⟩
    · rw [Lts.run_append, hrun]
      exact (congrArg (Option.bind · some) hk).trans rfl
    · simp [State.setThread]
  rcases hu with ⟨pcu, k, hst, hc⟩ | ⟨k, hst⟩
  · refine hlast hst (fun he => ?_) (Status.running_ne pcu) fun s1 hst1 hfree => ⟨k, step_lock hst1 hc hfree⟩
    cases he
    have hends := h.ends pc m hpc
    rw [hc] at hends
    exact hends
  · exact hlast hst (Status.running_ne_woken pc m k).symm (Status.woken_ne m k) fun s1 hst1 hfree => ⟨k, step_resume hst1 hfree⟩

/-- Whoever is in a section releases the mutex. -/
theorem released (h : Sections code holds inside rank) (hd : Discipline code start holds) (hexcl : Exclusive code holds s)
    (ht : s.threads[t]? = some (.running pc)) (hpc : inside pc m = true) :
    Released code start s m t (rank pc s.shared + 1) where
  soon _ _ hrun hcount := h.soon hd hexcl ht hpc hrun hcount
  able := h.able hexcl ht hpc
  handed := fun ⟨x⟩ _ hu => h.handed hd x hexcl ht hpc hu

end Sections
end
end Pthread
