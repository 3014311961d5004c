import CSocket.Lib.Pthread
/-!
# Work and who is awake for it

`Waking`: a program whose workers (`serve`) wait for a condition, and whose other threads
make work and then signal it (`tell`). Where a worker waits only without work, there is
work only while a worker is awake or somebody is about to signal (`Step.covered`).
-/
set_option linter.unusedSectionVars false

namespace Pthread

section
variable {Mx Cv Pc ι σ : Type} [DecidableEq Mx] [DecidableEq Cv]
variable {code : Pc → Instr Mx Cv Pc ι σ} {start : Pc → Bool} {s s' : State Mx Cv Pc σ} {a : Act ι Pc}
variable {serve tell : Pc → Bool} {c : Cv}

variable (code serve tell c) in
/-- Workers stay workers and wait for `c` only; who is to signal `c` does. -/
structure Waking : Prop where
  serves : ∀ {pc k}, (code pc).Goes k → serve pc = true → serve k = true
  tells : ∀ {pc k}, (code pc).Goes k → tell pc = true → tell k = true ∨ code pc = .signal c k
  busy : ∀ {pc f}, code pc = .data f → tell pc = false
  waits : ∀ {pc c' m k}, code pc = .wait c' m k → tell k = false ∧ (serve k = true ↔ c' = c)
  create : ∀ {pc f child k}, code pc ≠ .create f child k

variable (serve) in
/-- A worker is not blocked. -/
def Awake (s : State Mx Cv Pc σ) : Prop :=
  ∃ (t : Nat) (st : Status Mx Cv Pc), s.threads[t]? = some st ∧ serve st.pc = true ∧ st.blocked = false

variable (tell) in
def Telling (s : State Mx Cv Pc σ) : Prop := ∃ (t : Nat) (pc : Pc), s.pcs[t]? = some pc ∧ tell pc = true

variable (serve tell) in
/-- Somebody sees to the work. -/
def Covered (s : State Mx Cv Pc σ) : Prop := Awake serve s ∨ Telling tell s

theorem Awake.of_running {t : Nat} {pc : Pc} (ht : s.threads[t]? = some (.running pc)) (h : serve pc = true) :
    Awake serve s := ⟨t, .running pc, ht, h, rfl⟩

/-- What is covered stays so while its keeper does not act. -/
theorem Covered.other (h : Covered serve tell s) (hs : Step code start s a s')
    (hawake : ∀ t st, a.actor = some t → s.threads[t]? = some st → serve st.pc = true → st.blocked = false →
      Covered serve tell s')
    (htell : ∀ t pc, a.actor = some t → s.pcs[t]? = some pc → tell pc = true → Covered serve tell s') :
    Covered serve tell s' := by
  rcases h with ⟨t, st, ht, hserve, hb⟩ | ⟨t, pc, ht, hpc⟩
  · by_cases hact : a.actor = some t
    · exact hawake t st hact ht hserve hb
    · obtain ⟨st', ht', hpc, hb'⟩ := hs.other hact ht
      exact .inl ⟨t, st', ht', by rw [hpc, hserve], hb' hb⟩
  · by_cases hact : a.actor = some t
    · exact htell t pc hact ht hpc
    · exact .inr ⟨t, pc, hs.other_pc hact ht, hpc⟩

/-- A thread that goes on from `pc` to `k` serves and tells there as before. -/
theorem Covered.move {t w : Nat} {x : ι} {pc k : Pc} (h : Covered serve tell s) (hs : Step code start s (.run t x w) s')
    (ht : s.threads[t]? = some (.running pc)) (ht' : s'.threads[t]? = some (.running k))
    (hserve : serve pc = true → serve k = true) (htell : tell pc = true → tell k = true ∨ Awake serve s') :
    Covered serve tell s' := by
  apply h.other hs
  · intro u st hu hst hst' _
    cases hu
    rw [ht] at hst
    cases hst
    exact .inl (.of_running ht' (hserve hst'))
  · intro u pc' hu hpc htells
    cases hu
    rw [State.pcs_getElem? ht] at hpc
    cases hpc
    rcases htell htells with hk | hawake
    · exact .inr ⟨t, k, State.pcs_getElem? ht', hk⟩
    · exact .inl hawake

variable {holds : Pc → Mx → Bool}

/-- Nobody waits for `c`: the workers are awake. -/
theorem Waking.awake (hw : Waking code serve tell c) (hexcl : Exclusive code holds s)
    (hstaff : ∃ pc ∈ s.pcs, serve pc = true) (hnone : ∀ st ∈ s.threads, st.waitsOn c = false) : Awake serve s := by
  obtain ⟨pc, hpc, hserve⟩ := hstaff
  obtain ⟨st, hst, rfl⟩ := List.mem_map.mp hpc
  obtain ⟨t, ht⟩ := List.mem_iff_getElem?.mp hst
  refine ⟨t, st, ht, hserve, ?_⟩
  cases st with
  | running | woken => rfl
  | waiting c' m k =>
    obtain ⟨pc0, h0⟩ := hexcl.waits _ hst
    obtain rfl := (hw.waits h0).2.mp hserve
    have := hnone _ hst
    simp [Status.waitsOn] at this

/-- Where a worker waits without work only, and a data instruction that makes work is to
tell of it, work stays covered. -/
theorem Step.covered (hs : Step code start s a s') (work : σ → Prop) (hw : Waking code serve tell c)
    (hexcl : Exclusive code holds s) (hstaff : ∃ pc ∈ s.pcs, serve pc = true)
    (hwait : ∀ (t : Nat) pc c' m k, s.threads[t]? = some (.running pc) → code pc = .wait c' m k → serve pc = true →
      ¬ work s.shared)
    (hdata : ∀ (t : Nat) x pc f, s.threads[t]? = some (.running pc) → code pc = .data f →
      (serve pc = true → serve (f t x s.shared).2 = true) ∧
      (work (f t x s.shared).1 → work s.shared ∨ tell (f t x s.shared).2 = true))
    (h : work s.shared → Covered serve tell s) : work s'.shared → Covered serve tell s' := by
  have hs0 := hs
  -- a thread that does not signal `c`
  have hgoes {t w : Nat} {x : ι} {pc k : Pc} (ht : s.threads[t]? = some (.running pc)) (hg : (code pc).Goes k)
      (hne : code pc ≠ .signal c k) (hs : Step code start s (.run t x w) s')
      (ht' : s'.threads[t]? = some (.running k)) (hcov : Covered serve tell s) : Covered serve tell s' :=
    hcov.move hs ht ht' (hw.serves hg) fun htell => .inl ((hw.tells hg htell).resolve_right hne)
  cases hs with
  | @lock t x w pc m k ht hc | @unlock t x w pc m k ht hc =>
    intro hwork
    have hlt : t < s.threads.length := (List.getElem?_eq_some_iff.mp ht).1
    exact hgoes ht (by rw [hc]; rfl) (by rw [hc]; rintro ⟨⟩) hs0 (List.getElem?_set_self hlt) (h hwork)
  | @wait t x w pc c' m k ht hc =>
    intro hwork
    apply (h hwork).other hs0
    · intro u st hu hst hserve _
      cases hu
      rw [ht] at hst
      cases hst
      exact absurd hwork (hwait t pc c' m k ht hc hserve)
    · intro u pc' hu hpc htell
      cases hu
      rw [State.pcs_getElem? ht] at hpc
      cases hpc
      rcases hw.tells (k := k) (by rw [Status.pc_running, hc]; rfl) htell with hk | hk
      · rw [(hw.waits hc).1] at hk
        cases hk
      · rw [Status.pc_running, hc] at hk
        cases hk
  | @resume t x w m k ht =>
    intro hwork
    have hlt : t < s.threads.length := (List.getElem?_eq_some_iff.mp ht).1
    apply (h hwork).other hs0
    · intro u st hu hst hserve _
      cases hu
      rw [ht] at hst
      cases hst
      exact .inl (.of_running (List.getElem?_set_self hlt) hserve)
    · intro u pc hu hpc htell
      cases hu
      rw [State.pcs_getElem? ht] at hpc
      cases hpc
      obtain ⟨pc0, c', h0⟩ := hexcl.waits _ (List.mem_of_getElem? ht)
      rw [Status.pc_woken, (hw.waits h0).1] at htell
      cases htell
  | @signal t x w pc c' k m k' ht hc hwt =>
    intro hwork
    have hlt : t < s.threads.length := (List.getElem?_eq_some_iff.mp ht).1
    have hne : t ≠ w := by
      rintro rfl
      rw [ht] at hwt
      cases hwt
    have hg : (code pc).Goes k := by rw [hc]; rfl
    refine (h hwork).move hs0 ht (List.getElem?_set_self (by simpa [State.setThread] using hlt)) (hw.serves hg) fun htell => ?_
    refine (hw.tells hg htell).imp_right fun he => ?_
    -- the signal has woken a worker
    rw [hc] at he
    cases he
    obtain ⟨pc0, h0⟩ := hexcl.waits _ (List.mem_of_getElem? hwt)
    refine ⟨w, .woken m k', ?_, (hw.waits h0).2.mpr rfl, rfl⟩
    exact (List.getElem?_set_ne hne).trans (List.getElem?_set_self (List.getElem?_eq_some_iff.mp hwt).1)
  | @signalNone t x w pc c' k ht hc hnone =>
    intro hwork
    have hlt : t < s.threads.length := (List.getElem?_eq_some_iff.mp ht).1
    have hg : (code pc).Goes k := by rw [hc]; rfl
    refine (h hwork).move hs0 ht (List.getElem?_set_self hlt) (hw.serves hg) fun htell => ?_
    refine (hw.tells hg htell).imp_right fun he => ?_
    rw [hc] at he
    cases he
    obtain ⟨u, st, hu, hserve, hb⟩ := hw.awake hexcl hstaff hnone
    by_cases hut : t = u
    · subst hut
      rw [ht] at hu
      cases hu
      exact .of_running (List.getElem?_set_self hlt) (hw.serves hg hserve)
    · exact ⟨u, st, (List.getElem?_set_ne hut).trans hu, hserve, hb⟩
  | @broadcast t x w pc c' k ht hc =>
    intro hwork
    have hlt : t < s.threads.length := (List.getElem?_eq_some_iff.mp ht).1
    exact hgoes ht (by rw [hc]; rfl) (by rw [hc]; rintro ⟨⟩) hs0
      (List.getElem?_set_self (by simpa [State.wakeAll] using hlt)) (h hwork)
  | @data t x w pc f ht hc =>
    intro hwork
    have hlt : t < s.threads.length := (List.getElem?_eq_some_iff.mp ht).1
    obtain ⟨hserve, hmade⟩ := hdata t x pc f ht hc
    rcases hmade hwork with hbefore | hk
    · refine (h hbefore).move hs0 ht (List.getElem?_set_self hlt) hserve fun htell => ?_
      rw [hw.busy hc] at htell
      cases htell
    · exact .inr ⟨t, _, State.pcs_getElem? (List.getElem?_set_self hlt), hk⟩
  | create ht hc => exact absurd hc hw.create
  | spurious | arrive =>
    intro hwork
    apply (h hwork).other hs0
    · rintro t st ⟨⟩
    · rintro t pc ⟨⟩

end
end Pthread
