import CSocket.Locks
import CSocket.TaskPool.Sleepers
import CSocket.TaskPool.Wakeup
/-!
# Every task is run

A pool that is up, with a worker and a slot, and nobody else who calls `addtask`: however
its threads are scheduled they come to rest, and then every call has returned and every
task was run, once (`all_served`). A `potential` of the state pays for the steps: a task in
the queue for its worker, and each signal for the thread it wakes.
-/
namespace CSocket.TaskPool
open Pthread SimplePool

/-! ## The threads at work -/

/-- No thread begins, wakes spuriously or calls `destroy_threadpool`. -/
def works (s : PoolState) : PoolAct → Bool
  | .run t _ _ => s.threads[t]? ≠ some (.running (.destroy .call))
  | _ => false

abbrev workStep : PoolState → PoolAct → Option PoolState := Lts.guarded poolStep fun s a => works s a = true

/-- The steps of a thread up to where it waits, returns or has the next task. -/
def Pc.cost : Pc → Nat
  | .worker (.lock _) => 3
  | .worker (.test _) => 2
  | .worker (.wait _) | .worker (.check _) => 1
  | .worker .take => 0
  | .worker (.signal _) => 11
  | .worker (.shutdown _) => 7
  | .worker (.unlock _) => 6
  | .worker .quit => 2
  | .worker .exit => 1
  | .worker .ended => 0
  | .task (.start _) => 5
  | .task (.sleep _) => 4
  | .add (.lock _ _) => 21
  | .add (.test _ _) => 20
  | .add (.wait _ _) => 19
  | .add (.store _ _) => 18
  | .add (.unlock _) => 5
  | .add (.signal _) => 4
  | .returned => 0
  | .destroy _ => 0

/-- Who is woken costs three steps more. -/
def cost : Status Mutex Cond Pc → Nat
  | .running pc => pc.cost
  | .waiting _ _ k => k.cost - 2
  | .woken _ k => k.cost + 1

def Data.potential (d : Data) : Nat := 12 * d.pool.jobNum.toNat

def potential (s : PoolState) : Nat := s.shared.potential + total cost s.threads

section
variable {s s' : PoolState} {t : Nat} {pc pc' k : Pc} {d d' : Data}

theorem lock_cost {m : Mutex} (hc : code pc = .lock m k) : k.cost < pc.cost := by
  have hmoves : Moves pc k := moves (by rw [hc]; rfl)
  cases hmoves with
  | lock | addLock => simp [Pc.cost]
  | _ => cases hc

theorem unlock_cost {m : Mutex} (hc : code pc = .unlock m k) : k.cost < pc.cost := by
  have hmoves : Moves pc k := moves (by rw [hc]; rfl)
  cases hmoves with
  | quit | unlock | addUnlock => simp [Pc.cost]
  | _ => cases hc

theorem wait_cost {c : Cond} {m : Mutex} (hc : code pc = .wait c m k) : k.cost - 2 < pc.cost := by
  rcases wait_cases hc with ⟨task, rfl, -, rfl⟩ | ⟨arg, k', rfl, -, rfl⟩ <;> simp [Pc.cost]

/-- A signal pays for the thread it wakes. -/
theorem signal_cost {c : Cond} (hc : code pc = .signal c k) : k.cost + 3 < pc.cost := by
  have hmoves : Moves pc k := moves (by rw [hc]; rfl)
  cases hmoves with
  | signal | addSignal => simp [Pc.cost]
  | _ => cases hc

theorem data_cost (h : DataStep t d pc pc' d') (htested : pc.Tested d) (hnum : 0 ≤ d.pool.jobNum)
    (hup : d.pool.shutdown = false) (hin : ∀ dpc, pc ≠ .destroy dpc) :
    d'.potential + pc'.cost < d.potential + pc.cost := by
  cases h with
  | worker hs =>
    cases hs with
    | none hc =>
      rcases htested with hpos | hshut
      · omega
      · rw [hup] at hshut
        cases hshut
    | take =>
      have hne : d.pool.jobNum ≠ 0 := htested
      simp only [Data.potential, Pc.cost, ThreadPool.pop_jobNum]
      omega
    | quit hc =>
      rw [hup] at hc
      cases hc
    | sleep | awake | some | stay | exit => simp [Pc.cost, Data.potential]
  | add hs =>
    cases hs with
    | full | room => simp [Pc.cost]
    | store =>
      simp only [Data.potential, Pc.cost, ThreadPool.push_jobNum]
      omega
  | run | done => simp [Pc.cost, Data.potential]
  | call | joined | joining | alone | free => exact absurd rfl (hin _)

theorem halt_cases (hc : code pc = .halt) : (∃ task, pc = .worker task) ∨ pc = .returned ∨ ∃ dpc, pc = .destroy dpc := by
  cases pc with
  | worker pc => exact .inl ⟨pc, rfl⟩
  | returned => exact .inr (.inl rfl)
  | destroy pc => exact .inr (.inr ⟨pc, rfl⟩)
  | task pc => cases pc <;> cases hc
  | add pc => cases pc <;> cases hc

/-- Every step of a thread at work lowers the potential. -/
theorem work_potential {w : Nat} (hs : Step code start s (.run t () w) s')
    (htested : ∀ (t : Nat) (pc : Pc), s.pcs[t]? = some pc → pc.Tested s.shared) (hnum : 0 ≤ s.shared.pool.jobNum)
    (hup : s.shared.pool.shutdown = false) (hin : ∀ dpc, s.threads[t]? ≠ some (.running (.destroy dpc))) :
    potential s' < potential s := by
  have hset {st st' : Status Mutex Cond Pc} (ht : s.threads[t]? = some st) (hlt : cost st' < cost st) :
      total cost (s.threads.set t st') < total cost s.threads := by
    have htotal := total_set_add (w := cost) ht st'
    omega
  have hmove {pc k : Pc} (ht : s.threads[t]? = some (.running pc)) (hlt : k.cost < pc.cost) :
      total cost (s.threads.set t (.running k)) < total cost s.threads := hset ht hlt
  cases hs with
  | lock ht hc => exact Nat.add_lt_add_left (hmove ht (lock_cost hc)) _
  | unlock ht hc => exact Nat.add_lt_add_left (hmove ht (unlock_cost hc)) _
  | @wait _ _ _ pc c m k ht hc =>
    have hlt : cost (.waiting c m k) < cost (.running pc) := wait_cost hc
    exact Nat.add_lt_add_left (hset ht hlt) _
  | @resume _ _ _ m k ht =>
    have hlt : cost (.running k) < cost (.woken m k) := Nat.lt_succ_self _
    exact Nat.add_lt_add_left (hset ht hlt) _
  | signalNone ht hc => exact Nat.add_lt_add_left (hmove ht (Nat.lt_of_le_of_lt (Nat.le_add_right _ 3) (signal_cost hc))) _
  | @signal _ _ _ pc c k m k' ht hc hw =>
    have hcost := signal_cost hc
    have hne : w ≠ t := by
      rintro rfl
      rw [hw] at ht
      cases ht
    have hwoken := total_set_add (w := cost) hw (.woken m k')
    have ht' : (s.threads.set w (.woken m k'))[t]? = some (.running pc) := (List.getElem?_set_ne hne).trans ht
    have hmoved := total_set_add (w := cost) ht' (.running k)
    refine Nat.add_lt_add_left ?_ _
    simp only [cost, State.setThread] at hwoken hmoved ⊢
    omega
  | broadcast ht hc =>
    have hmoves := moves (by rw [hc]; rfl)
    cases hmoves with
    | broadcast => exact absurd ht (hin _)
    | _ => cases hc
  | @data _ _ _ pc f ht hc =>
    have hdata := data_cost (data_step hc t () s.shared) (htested t pc (State.pcs_getElem? ht)) hnum hup
      fun dpc he => hin dpc (he ▸ ht)
    have htotal := total_set_add (w := cost) ht (.running (f t () s.shared).2)
    simp only [potential, cost, State.setThread] at hdata htotal ⊢
    omega
  | create _ hc => exact absurd hc not_create

/-! ## What the steps keep -/

/-- The task of this call is stored. -/
def Pc.hasStored : Pc → Bool
  | .add (.unlock _) | .add (.signal _) | .returned => true
  | _ => false

/-- Each call stores one task. -/
structure Stored (s : PoolState) : Prop where
  nonneg : 0 ≤ s.shared.pool.jobNum
  calls : s.shared.pool.stored.length = s.pcs.countP Pc.hasStored

theorem goes_stored (hg : (code pc).Goes k) : k.hasStored = pc.hasStored := by
  cases moves hg <;> rfl

theorem data_adds (h : DataStep t d pc pc' d') (htested : pc.Tested d) (hnum : 0 ≤ d.pool.jobNum) :
    0 ≤ d'.pool.jobNum ∧
    d'.pool.stored.length + pc.hasStored.toNat = d.pool.stored.length + pc'.hasStored.toNat := by
  cases h with
  | worker hs =>
    cases hs with
    | take =>
      have hne : d.pool.jobNum ≠ 0 := htested
      refine ⟨?_, rfl⟩
      simp only [ThreadPool.pop_jobNum]
      omega
    | sleep | awake | some | none | quit | stay | exit => exact ⟨hnum, rfl⟩
  | add hs =>
    cases hs with
    | full | room => exact ⟨hnum, rfl⟩
    | store =>
      refine ⟨?_, by simp [Pc.hasStored]⟩
      simp only [ThreadPool.push_jobNum]
      omega
  | run | done | call | joined | joining | alone | free => exact ⟨hnum, rfl⟩

theorem Stored.step {a : PoolAct} (h : Stored s) (hs : Step code start s a s')
    (htested : ∀ (t : Nat) (pc : Pc), s.pcs[t]? = some pc → pc.Tested s.shared) : Stored s' := by
  obtain ⟨hnum, hcalls⟩ := h
  cases hs.effect with
  | quiet hpcs hd => exact ⟨by rw [hd]; exact hnum, by rw [hd, hpcs]; exact hcalls⟩
  | @move t x w pc k _ ht hg hpcs hd =>
    have hcount := countP_set_add (State.pcs_getElem? ht) k Pc.hasStored
    rw [Status.pc, goes_stored hg] at hcount
    exact ⟨by rw [hd]; exact hnum, by rw [hd, hpcs]; omega⟩
  | @data t x w pc f _ ht hc hpcs hd =>
    have hpc := State.pcs_getElem? ht
    obtain ⟨hnum', hstored⟩ := data_adds (data_step hc t x s.shared) (htested t _ hpc) hnum
    have hcount := countP_set_add hpc (f t x s.shared).2 Pc.hasStored
    simp only [Status.pc] at hcount hstored
    exact ⟨by rw [hd]; exact hnum', by rw [hd, hpcs]; omega⟩
  | create _ ht hc => exact absurd hc not_create
  | @arrive pc hp hpcs hd =>
    have hno : pc.hasStored = false := by
      cases pc with
      | add pc => cases pc <;> first | rfl | cases hp
      | _ => cases hp
    exact ⟨by rw [hd]; exact hnum, by rw [hd, hpcs, List.countP_append]; simp [hno, hcalls]⟩

variable {thrnum maxtasknum : Nat}

theorem Reachable.staged (h : Reachable thrnum maxtasknum s) : Staged thrnum s := by
  obtain ⟨raw, copy, hr⟩ := h
  exact (placed_outline thrnum).reach create_hushed.staged hr

theorem create_stored {raw copy : Nat → PoolTask} : Stored (create thrnum maxtasknum raw copy) := by
  refine ⟨Int.le_refl 0, (List.countP_eq_zero.mpr fun pc hpc hp => ?_).symm⟩
  rcases create_pcs hpc with ⟨task, rfl⟩ | rfl <;> cases hp

theorem Reachable.stored (h : Reachable thrnum maxtasknum s) : Stored s := by
  obtain ⟨raw, copy, hr⟩ := h
  have hinv : Reachable thrnum maxtasknum s ∧ Stored s := by
    apply hr.invariant
    · rintro s a s' ⟨⟨raw', copy', hr'⟩, hstored⟩ hs
      obtain ⟨-, -, hlocal⟩ := Reachable.asserted ⟨raw', copy', hr'⟩
      exact ⟨⟨raw', copy', hr'.tail hs⟩, hstored.step (step_cases hs) fun t pc ht => (hlocal t pc ht).tested⟩
    · exact ⟨⟨raw, copy, .refl _⟩, create_stored⟩
  exact hinv.2

/-- While the pool is up, its thread that may destroy it has not begun. -/
theorem Reachable.destroyer (h : Reachable thrnum maxtasknum s) (hup : s.shared.pool.shutdown = false) {dpc : DestroyPc}
    (ht : s.pcs[t]? = some (.destroy dpc)) : dpc = .call := by
  have hplaced := h.staged.atPc t _ ht
  cases dpc with
  | call => rfl
  | broadcast | join | free | ended =>
    obtain ⟨-, hdown⟩ := hplaced
    rw [hup] at hdown
    cases hdown

theorem works_cases {a : PoolAct} (h : works s a = true) :
    ∃ t w, a = .run t () w ∧ s.threads[t]? ≠ some (.running (.destroy .call)) := by
  cases a with
  | run t x w => exact ⟨t, w, rfl, of_decide_eq_true h⟩
  | spurious | arrive => cases h

theorem data_up (h : DataStep t d pc pc' d') (hin : pc ≠ .destroy .call) : d'.pool.shutdown = d.pool.shutdown := by
  cases h with
  | worker hs => cases hs <;> rfl
  | add hs => cases hs <;> rfl
  | call => exact absurd rfl hin
  | run | done | joined | joining | alone | free => rfl

/-- A pool that is up stays up, and comes closer to its rest. -/
theorem work_step {a : PoolAct} (h : Reachable thrnum maxtasknum s) (hup : s.shared.pool.shutdown = false)
    (hs : workStep s a = some s') :
    (Reachable thrnum maxtasknum s' ∧ s'.shared.pool.shutdown = false) ∧ potential s' < potential s := by
  obtain ⟨hworks, hs⟩ := Option.ite_none_right_eq_some.mp hs
  obtain ⟨t, w, rfl, hno⟩ := works_cases hworks
  have hstep := step_cases hs
  obtain ⟨-, -, hlocal⟩ := h.asserted
  have hin : ∀ dpc, s.threads[t]? ≠ some (.running (.destroy dpc)) := by
    intro dpc ht
    obtain rfl := h.destroyer hup (State.pcs_getElem? ht)
    exact hno ht
  refine ⟨⟨?_, ?_⟩, ?_⟩
  · obtain ⟨raw, copy, hr⟩ := h
    exact ⟨raw, copy, hr.tail hs⟩
  · cases hstep.effect with
    | quiet _ hd | move _ _ _ _ hd => rw [hd, hup]
    | @data u x v pc f ha ht hc _ hd =>
      cases ha
      have hdata := data_step hc t () s.shared
      rw [hd, data_up hdata fun he => hin _ (he ▸ ht), hup]
    | create _ _ hc => exact absurd hc not_create
    | arrive _ _ hd => rw [hd, hup]
  · exact work_potential hstep (fun t pc ht => (hlocal t pc ht).tested) h.stored.nonneg hup hin

/-! ## At rest -/

/-- The thread waits or has ended, or it is the one that may destroy the pool. -/
def Still (st : Status Mutex Cond Pc) : Prop :=
  (∃ c m k, st = .waiting c m k) ∨ st = .running (.destroy .call) ∨ ∃ pc, st = .running pc ∧ code pc = .halt

/-- No thread at work can take a step. -/
def Rests (s : PoolState) : Prop := ∀ a, workStep s a = none

theorem Rests.step (h : Rests s) {w : Nat} (ht : s.threads[t]? ≠ some (.running (.destroy .call))) :
    poolStep s (.run t () w) = none := by
  have hnone := h (.run t () w)
  unfold workStep Lts.guarded at hnone
  rwa [if_pos (by simpa [works] using ht)] at hnone

theorem Rests.free (h : Rests s) (hr : Reachable thrnum maxtasknum s) (m : Mutex) : s.owner m = none := by
  cases ho : s.owner m with
  | none => rfl
  | some t =>
    obtain ⟨hexcl, -, -⟩ := hr.asserted
    obtain ⟨pc, ht, hpc⟩ := (hexcl.owner m t).mp ho
    obtain ⟨w, s1, hs1⟩ : ∃ w s1, poolStep s (.run t () w) = some s1 := sections.able hexcl ht hpc ()
    rw [h.step (by rw [ht]; rintro ⟨⟩; cases hpc)] at hs1
    cases hs1

theorem Rests.status (h : Rests s) (hr : Reachable thrnum maxtasknum s) {st : Status Mutex Cond Pc}
    (ht : s.threads[t]? = some st) : Still st := by
  have hstuck {w : Nat} (hno : st ≠ .running (.destroy .call)) : poolStep s (.run t () w) = none :=
    h.step (by simpa [ht] using hno)
  obtain ⟨hexcl, -, -⟩ := hr.asserted
  cases st with
  | waiting c m k => exact .inl ⟨c, m, k, rfl⟩
  | woken m k =>
    have hs : poolStep s (.run t () 0) = some ((s.setOwner m (some t)).setThread t (.running k)) :=
      step_resume ht (h.free hr m)
    rw [hstuck (w := 0) nofun] at hs
    cases hs
  | running pc =>
    by_cases hcall : pc = .destroy .call
    · exact .inr (.inl (by rw [hcall]))
    have hno {w : Nat} {s1 : PoolState} (hs : poolStep s (.run t () w) = some s1) : False := by
      rw [hstuck (by simpa using hcall)] at hs
      cases hs
    cases hc : code pc with
    | lock m k => exact (hno (step_lock (w := 0) ht hc (h.free hr m))).elim
    | unlock m k =>
      have hheld := (hexcl.owner_running ht .poolLock).mpr (by cases m; exact unlock_held hc)
      rw [h.free hr] at hheld
      cases hheld
    | wait c m k =>
      have hkeeps := discipline.keeps pc
      rw [hc] at hkeeps
      have hheld := (hexcl.owner_running ht m).mpr ((hkeeps.1 m).mpr rfl)
      rw [h.free hr] at hheld
      cases hheld
    | signal c k =>
      obtain ⟨w, s1, hs1, -⟩ := exists_signal ht hc
      exact (hno hs1).elim
    | broadcast c k => exact (hno (step_broadcast (w := 0) ht hc)).elim
    | data f => exact (hno (step_data (w := 0) ht hc)).elim
    | create f child k => exact absurd hc not_create
    | halt => exact .inr (.inr ⟨pc, rfl, hc⟩)

theorem rests_of_still (h : ∀ st ∈ s.threads, Still st) : Rests s := by
  intro a
  refine Option.eq_none_iff_forall_ne_some.mpr fun s' hs => ?_
  obtain ⟨hworks, hs⟩ := Option.ite_none_right_eq_some.mp hs
  obtain ⟨t, w, rfl, hno⟩ := works_cases hworks
  simp only [poolStep, Pthread.step] at hs
  cases ht : s.threads[t]? with
  | none => simp [ht] at hs
  | some st =>
    rcases h st (List.mem_of_getElem? ht) with ⟨c, m, k, rfl⟩ | rfl | ⟨pc, rfl, hc⟩
    · simp [ht] at hs
    · exact hno ht
    · simp [ht, exec, hc] at hs

theorem halt_not_serving (hc : code pc = .halt) : pc.serving = false := by
  cases pc with
  | worker pc => cases pc <;> first | rfl | cases hc
  | returned => rfl
  | destroy pc => rfl
  | task pc => cases pc <;> cases hc
  | add pc => rfl

theorem Rests.empty (h : Rests s) (hr : Reachable thrnum maxtasknum s) (hthr : 1 ≤ thrnum)
    (hup : s.shared.pool.shutdown = false) : s.shared.pool.jobNum = 0 := by
  obtain ⟨-, hcov, -⟩ := no_lost_wakeup_invariant hthr hr
  have hle : ¬ 0 < s.shared.pool.jobNum := by
    intro hpos
    rcases hcov hup hpos with ⟨t, st, ht, hserving, hawake⟩ | hsig
    · rcases h.status hr ht with ⟨c, m, k, rfl⟩ | rfl | ⟨pc, rfl, hc⟩
      · cases hawake
      · cases hserving
      · have hno : pc.serving = true := hserving
        rw [halt_not_serving hc] at hno
        cases hno
    · obtain ⟨hexcl, -, -⟩ := hr.asserted
      obtain ⟨t, u, ht⟩ := signal_of_signalling hexcl (h.free hr .poolLock) hsig
      rcases h.status hr ht with ⟨c, m, k, he⟩ | he | ⟨pc, he, hc⟩
      · cases he
      · cases he
      · cases he
        cases hc
  have hnonneg := hr.stored.nonneg
  omega

/-- A slot is free, so no producer is left. -/
theorem Rests.returned (h : Rests s) (hr : Reachable thrnum maxtasknum s) (hthr : 1 ≤ thrnum) (hmax : 1 ≤ maxtasknum)
    (hup : s.shared.pool.shutdown = false) (add : AddPc Unit Unit) : .add add ∉ s.pcs := by
  intro hmem
  obtain ⟨hexcl, hq, -⟩ := hr.asserted
  obtain ⟨-, -, hroom⟩ := no_lost_wakeup_invariant hthr hr
  obtain ⟨st, hst, hpc⟩ := List.mem_map.mp hmem
  obtain ⟨t, ht⟩ := List.mem_iff_getElem?.mp hst
  rcases h.status hr ht with ⟨c, m, k, rfl⟩ | rfl | ⟨pc, rfl, hc⟩
  · -- it waits for a slot
    obtain ⟨pc0, h0⟩ := hexcl.waits _ hst
    obtain rfl : k = .add add := hpc
    rcases wait_cases h0 with ⟨task, -, -, he⟩ | ⟨arg, k', -, rfl, -⟩
    · cases he
    · have hle := hroom ⟨_, hst, by simp [Status.waitsOn]⟩
      have hempty := h.empty hr hthr hup
      have hbound : s.shared.pool.maxJobNum = maxtasknum := hq.max
      have hpos : 0 < s.threads.countP credit := by
        rw [Data.free] at hle
        omega
      obtain ⟨st', hst', hcredit⟩ := List.countP_pos_iff.mp hpos
      obtain ⟨arg', k', rfl⟩ := woken_of_credit hexcl (h.free hr .poolLock) hst' hcredit
      obtain ⟨u, hu⟩ := List.mem_iff_getElem?.mp hst'
      rcases h.status hr hu with ⟨c, m, k, he⟩ | he | ⟨pc, he, -⟩ <;> cases he
  · cases hpc
  · obtain rfl : pc = .add add := hpc
    cases add <;> cases hc

theorem Rests.carried (h : Rests s) (hr : Reachable thrnum maxtasknum s) (ht : s.pcs[t]? = some pc) : pc.carried = [] := by
  obtain ⟨hexcl, -, -⟩ := hr.asserted
  obtain ⟨st, hst, rfl⟩ := State.of_pcs_getElem? ht
  rcases h.status hr hst with ⟨c, m, k, rfl⟩ | rfl | ⟨pc, rfl, hc⟩
  · obtain ⟨pc0, h0⟩ := hexcl.waits _ (List.mem_of_getElem? hst)
    rcases wait_cases h0 with ⟨task, -, -, rfl⟩ | ⟨arg, k', -, -, rfl⟩ <;> rfl
  · rfl
  · show pc.carried = []
    cases pc with
    | worker pc => cases pc <;> first | rfl | cases hc
    | task pc => cases pc <;> cases hc
    | _ => rfl

/-- Lists of pairs that have the same values under each key. -/
theorem perm_of_filter {α β : Type} [DecidableEq α] [DecidableEq β] {l l' : List (α × β)}
    (h : ∀ a, (l.filter (·.1 = a)).map Prod.snd = (l'.filter (·.1 = a)).map Prod.snd) : l.Perm l' := by
  have hcount (l : List (α × β)) (x : α × β) : l.count x = ((l.filter (·.1 = x.1)).map Prod.snd).count x.2 := by
    induction l with
    | nil => rfl
    | cons y l ih =>
      obtain ⟨y1, y2⟩ := y
      obtain ⟨x1, x2⟩ := x
      by_cases hk : y1 = x1
      · simp [List.count_cons, hk, ih]
      · simp [hk, ih]
  refine List.perm_iff_count.mpr fun x => ?_
  rw [hcount l, hcount l', h]

/-- Every worker has run what it took. -/
theorem Rests.ran (h : Rests s) (hr : Reachable thrnum maxtasknum s) (hup : s.shared.pool.shutdown = false) :
    s.shared.env.ran.Perm (s.shared.pool.taken.map fun x => (x.1, x.2.tasknum)) := by
  obtain ⟨-, hq, hlocal⟩ := hr.asserted
  refine perm_of_filter fun t => ?_
  have htaken : ((s.shared.pool.taken.map fun x => (x.1, x.2.tasknum)).filter (·.1 = t)).map Prod.snd =
      s.shared.takenBy t := by
    rw [List.filter_map, List.map_map]
    rfl
  rw [htaken]
  cases hpc : s.pcs[t]? with
  | some pc =>
    have hcarried := (hlocal t pc hpc).carried hup
    rw [h.carried hr hpc, List.append_nil] at hcarried
    exact hcarried.symm
  | none =>
    -- no such thread, and nothing that it took or ran
    have hlen : s.threads.length ≤ t := by simpa using hpc
    have hno {β : Type} {l : List (Nat × β)} (hl : ∀ x ∈ l, x.1 < s.threads.length) : l.filter (·.1 = t) = [] := by
      refine List.filter_eq_nil_iff.mpr fun x hx => ?_
      have hlt := hl x hx
      simp only [decide_eq_true_eq]
      omega
    rw [hno hq.ran, Data.takenBy, hno hq.taken]
    rfl

/-! ## The result -/

/-- A pool that is up, left to its threads: it takes no more steps than its potential, and
where it rests every call has returned, the queue is empty, and the tasks of all calls were
run, each once. -/
theorem all_served (hthr : 1 ≤ thrnum) (hmax : 1 ≤ maxtasknum) (h : Reachable thrnum maxtasknum s)
    (hup : s.shared.pool.shutdown = false) {as : List PoolAct} (hrun : Lts.run workStep as s = some s') :
    as.length ≤ potential s ∧
    (Rests s' →
      (∀ add, .add add ∉ s'.pcs) ∧ s'.shared.pool.jobNum = 0 ∧
      s'.shared.pool.stored.length = s'.pcs.countP (· = .returned) ∧
      (s'.shared.pool.stored.length < 2 ^ 31 - 1000 →
        (s'.shared.env.ran.map Prod.snd).Perm
          ((List.range (s'.pcs.countP (· = .returned))).map fun k : Nat => 1000 + (k : Int)))) := by
  have hstep (s : PoolState) (a : PoolAct) (s' : PoolState)
      (hs : Reachable thrnum maxtasknum s ∧ s.shared.pool.shutdown = false) (ha : workStep s a = some s') :
      (Reachable thrnum maxtasknum s' ∧ s'.shared.pool.shutdown = false) ∧ potential s' < potential s :=
    work_step hs.1 hs.2 ha
  obtain ⟨⟨hr, hup'⟩, hlen⟩ := Lts.run_length_add_le potential hstep hrun ⟨h, hup⟩
  refine ⟨Nat.le_trans (Nat.le_add_right _ _) hlen, fun hrests => ?_⟩
  have hreturned := hrests.returned hr hthr hmax hup'
  have hempty := hrests.empty hr hthr hup'
  have hcalls : s'.shared.pool.stored.length = s'.pcs.countP (· = .returned) := by
    rw [hr.stored.calls]
    refine List.countP_congr fun pc hpc => ?_
    cases pc with
    | add add => exact absurd hpc (hreturned add)
    | _ => simp [Pc.hasStored]
  refine ⟨hreturned, hempty, hcalls, fun hfew => ?_⟩
  obtain ⟨-, hq, -⟩ := hr.asserted
  have hsound := hq.fifo (by omega)
  have hall : s'.shared.pool.taken.map Prod.snd = s'.shared.pool.stored := by
    have hfifo := hsound.fifo
    rwa [ThreadPool.pending, hempty, Int.toNat_zero, Ring.contents_zero, List.append_nil] at hfifo
  have hnums : s'.shared.pool.stored.map PoolTask.tasknum =
      (List.range (s'.pcs.countP (· = .returned))).map fun k : Nat => 1000 + (k : Int) := by
    rw [← hcalls]
    refine List.ext_getElem? fun k => ?_
    rw [List.getElem?_map, List.getElem?_map]
    cases hk : s'.shared.pool.stored[k]? with
    | none => simp [List.getElem?_eq_none_iff.mp hk]
    | some x =>
      have hlt := (List.getElem?_eq_some_iff.mp hk).1
      rw [List.getElem?_range hlt]
      exact congrArg some ((hq.numbered hfew).num k x hk)
  have hran := (hrests.ran hr hup').map Prod.snd
  rwa [List.map_map, show Prod.snd ∘ (fun x : Nat × PoolTask => (x.1, x.2.tasknum)) = PoolTask.tasknum ∘ Prod.snd from rfl,
    ← List.map_map, hall, hnums] at hran

/-- Two calls for one slot: the second waits for the worker. -/
def twoCalls : List PoolAct := steps 2 5 ++ steps 3 3 ++ steps 0 4 ++ [.run 0 () 3] ++ steps 0 4 ++ steps 3 5 ++ steps 0 12

theorem all_served_two : ∃ s s', Reachable 1 1 s ∧ Lts.run workStep twoCalls s = some s' ∧ Rests s' ∧
    twoCalls.length ≤ potential s ∧ (s'.shared.env.ran.map Prod.snd).Perm [1000, 1001] := by
  obtain ⟨s, hr, hs⟩ := Lts.Reach.of_run poolStep (create 1 1 (fun _ => {}) fun _ => {})
    (fun s => s.shared.pool.shutdown = false ∧ (Lts.run workStep twoCalls s).any fun s' =>
      s'.threads = [.waiting .notEmptyTask .poolLock (.worker (.test { tasknum := 1001 })), .running (.destroy .call),
        .running .returned, .running .returned] ∧ s'.shared.pool.stored.length = 2)
    [arrives, arrives] (by decide +kernel)
  obtain ⟨hup, hany⟩ := of_decide_eq_true hs
  obtain ⟨s', hrun⟩ : ∃ s', Lts.run workStep twoCalls s = some s' := by
    cases hrun : Lts.run workStep twoCalls s with
    | none =>
      rw [hrun] at hany
      cases hany
    | some s' => exact ⟨s', rfl⟩
  rw [hrun] at hany
  obtain ⟨hthreads, hlen⟩ := of_decide_eq_true hany
  have hrests : Rests s' := by
    refine rests_of_still fun st hst => ?_
    simp only [hthreads, List.mem_cons, List.not_mem_nil, or_false] at hst
    rcases hst with rfl | rfl | rfl | rfl
    · exact .inl ⟨_, _, _, rfl⟩
    · exact .inr (.inl rfl)
    · exact .inr (.inr ⟨_, rfl, rfl⟩)
    · exact .inr (.inr ⟨_, rfl, rfl⟩)
  obtain ⟨hle, hall⟩ := all_served (Nat.le_refl 1) (Nat.le_refl 1) ⟨_, _, hr⟩ hup hrun
  obtain ⟨-, -, hcalls, hran⟩ := hall hrests
  have hperm := hran (by rw [hlen]; decide)
  rw [← hcalls, hlen] at hperm
  exact ⟨s, s', ⟨_, _, hr⟩, hrun, hrests, hle, hperm⟩

end
end CSocket.TaskPool
