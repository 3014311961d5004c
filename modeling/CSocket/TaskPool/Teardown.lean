import CSocket.TaskPool.Fifo
/-!
# Tasks taken while the pool is torn down

A worker takes a task off the queue and tests `shutdown` after it, in the same critical
section: with the flag set it leaves, and the task is gone. Up to such a step every worker
has run what it took, but for a task it has at hand (`RunsAt`); the step ends that for good.
-/
namespace CSocket.TaskPool
open Pthread SimplePool

/-! ## The property and the condition -/

/-- Every worker ran the tasks that it took, in order and each once, and may have one more at
hand that it has not begun to run. -/
def RunsTaken (s : PoolState) : Prop :=
  ∀ (t : Nat) (pc : Pc), s.pcs[t]? = some pc →
    s.shared.takenBy t = s.shared.ranBy t ∨ s.shared.takenBy t = s.shared.ranBy t ++ pc.carried

/-- The action is a worker's test of `shutdown`, which is set, and the worker has not run all
that it took. -/
def drops (s : PoolState) : PoolAct → Bool
  | .run t _ _ => match s.threads[t]? with
    | some (.running (.worker (.shutdown _))) => s.shared.pool.shutdown && s.shared.takenBy t ≠ s.shared.ranBy t
    | _ => false
  | _ => false

/-! ## The invariant -/

/-- Worker `t` has this task at hand, in its own copy. -/
def Data.Owes (d : Data) (t : Nat) (job : PoolTask) : Prop :=
  job.arg = none ∧ d.takenBy t = d.ranBy t ++ [job.tasknum]

/-- Without a task on the queue a worker comes to the test of `shutdown` with the task that it
ran last. -/
def RunsAt (t : Nat) (d : Data) : Pc → Prop
  | .worker (.shutdown job) => d.Owes t job ∨ d.pool.shutdown = true ∧ d.takenBy t = d.ranBy t
  | .worker (.signal job) | .worker (.unlock job) | .task (.start job) => d.Owes t job
  | _ => d.takenBy t = d.ranBy t

structure Running (maxtasknum : Nat) (s : PoolState) : Prop where
  asserted : Asserted code (holdsIn Pc.held) (Queue maxtasknum) Local s
  runs : ∀ t pc, s.pcs[t]? = some pc → RunsAt t s.shared pc

section
variable {d d' : Data} {t u maxtasknum : Nat} {pc pc' k : Pc} {s s' : PoolState} {a : PoolAct}

theorem RunsAt.taken (h : RunsAt t d pc) : d.takenBy t = d.ranBy t ∨ d.takenBy t = d.ranBy t ++ pc.carried := by
  unfold RunsAt at h
  split at h
  · exact h.elim (fun h => .inr h.2) fun h => .inl h.2
  · exact .inr h.2
  · exact .inr h.2
  · exact .inr h.2
  · exact .inl h

theorem Running.runsTaken (h : Running maxtasknum s) : RunsTaken s := fun t pc ht => (h.runs t pc ht).taken

theorem RunsAt.goes (hg : (code pc).Goes k) (h : RunsAt t d pc) : RunsAt t d k := by
  cases moves hg with
  | signal job => exact .inl h
  | _ => exact h

/-- A data instruction, unless it drops a task. -/
theorem RunsAt.data (hs : DataStep t d pc pc' d') (htested : pc.Tested d) (h : RunsAt t d pc)
    (hkeep : ∀ job, pc = .worker (.shutdown job) → d.pool.shutdown = true → d.takenBy t = d.ranBy t) :
    RunsAt t d' pc' := by
  cases hs with
  | worker hs =>
    cases hs with
    | sleep | awake | some | exit => exact h
    | take =>
      refine ⟨rfl, (takenBy_append d t t d.pool.front).trans ?_⟩
      rw [if_pos rfl]
      exact congrArg (· ++ _) h
    | none hc =>
      -- nothing on the queue, so that the wait ended because of the flag
      have hdown : d.pool.shutdown = true := by
        rcases htested with hpos | hdown
        · omega
        · exact hdown
      exact .inr ⟨hdown, h⟩
    | @quit job hc => exact hkeep job rfl hc
    | stay hc =>
      rcases h with h | ⟨hdown, -⟩
      · exact h
      · rw [hc] at hdown
        cases hdown
  | add hs => cases hs <;> exact h
  | @run job =>
    obtain ⟨harg, htaken⟩ := h
    have hnum : d.deref job = job := by
      rw [Data.deref, harg]
    have hran := ranBy_append d t t job.tasknum
    rw [if_pos rfl] at hran
    rw [hnum]
    exact htaken.trans hran.symm
  | done | call | joined | joining | alone | free => exact h

/-- What another thread does. -/
theorem RunsAt.other (hl : Leaves t d d') (hne : t ≠ u) (h : RunsAt u d pc) : RunsAt u d' pc := by
  unfold RunsAt Data.Owes at h ⊢
  rw [hl.taken u hne, hl.ran u hne]
  split at h
  · exact h.imp_right fun h => ⟨hl.shutdown h.1, h.2⟩
  · exact h
  · exact h
  · exact h
  · exact h

theorem Running.step (h : Running maxtasknum s) (hkeep : drops s a = false) (hs : Step code start s a s') :
    Running maxtasknum s' := by
  refine ⟨(outline maxtasknum).asserted h.asserted hs, ?_⟩
  cases hs.effect with
  | quiet hpcs hd =>
    rw [hpcs, hd]
    exact h.runs
  | @move t x w pc k _ ht hg hpcs hd =>
    rw [hpcs, hd]
    exact forall_set ((h.runs t pc (State.pcs_getElem? ht)).goes hg) fun u pc' _ hu => h.runs u pc' hu
  | @data t x w pc f ha ht hc hpcs hd =>
    have hstep := data_step hc t x s.shared
    have hpc := State.pcs_getElem? ht
    rw [hpcs, hd]
    refine forall_set ((h.runs t pc hpc).data hstep (h.asserted.atPc t pc hpc).tested fun job he hdown => ?_)
      fun u pc' hne hu => (h.runs u pc' hu).other (data_leaves hstep) (Ne.symm hne)
    subst ha he
    simpa [drops, ht, hdown] using hkeep
  | create _ ht hc => exact absurd hc not_create
  | @arrive pc hp hpcs hd =>
    obtain ⟨htaken, hran⟩ := h.asserted.global.fresh
    rw [hpcs, hd]
    refine forall_append ?_ h.runs
    rw [s.length_pcs]
    cases pc with
    | add pc => exact htaken.trans hran.symm
    | _ => cases hp

theorem drops_cases (h : drops s a = true) : ∃ t x w job, a = .run t x w ∧
    s.threads[t]? = some (.running (.worker (.shutdown job))) ∧ s.shared.pool.shutdown = true ∧
    s.shared.takenBy t ≠ s.shared.ranBy t := by
  cases a with
  | run t x w =>
    unfold drops at h
    dsimp only at h
    split at h
    · rename_i job ht
      simp only [Bool.and_eq_true, decide_eq_true_eq] at h
      exact ⟨t, x, w, job, rfl, ht, h.1, h.2⟩
    · cases h
  | _ => cases h

/-- The worker leaves, and has nothing at hand any more. -/
theorem not_runsTaken (hdrop : drops s a = true) (hs : poolStep s a = some s') : ¬ RunsTaken s' := by
  obtain ⟨t, x, w, job, rfl, ht, hdown, hne⟩ := drops_cases hdrop
  have hstep : poolStep s (.run t x w) = some (s.setThread t (.running (.worker .quit))) := by
    refine (step_data ht rfl).trans ?_
    simp [State.setThread, hdown]
  obtain rfl := Option.some.inj (hs.symm.trans hstep)
  have hleft : (s.setThread t (.running (.worker .quit))).threads[t]? = some (.running (.worker .quit)) :=
    List.getElem?_set_self (List.getElem?_eq_some_iff.mp ht).1
  intro h
  rcases h t (.worker .quit) (State.pcs_getElem? hleft) with he | he
  · exact hne he
  · exact hne (he.trans (List.append_nil _))

/-! ## A task at hand is run -/

/-- Steps of thread `t` only. -/
abbrev aloneStep (t : Nat) : PoolState → PoolAct → Option PoolState :=
  Lts.guarded poolStep fun _ a => a.actor = some t

/-- The steps to the callback. -/
def Pc.distance : Pc → Nat
  | .worker (.signal _) => 4
  | .worker (.shutdown _) => 3
  | .worker (.unlock _) => 2
  | .task (.start _) => 1
  | _ => 0

def distance (t : Nat) (s : PoolState) : Nat := (s.pcs[t]?.map Pc.distance).getD 0

theorem distance_eq (ht : s.threads[t]? = some (.running pc)) : distance t s = pc.distance := by
  rw [distance, State.pcs_getElem? ht]
  rfl

/-- Worker `t` is to run the last of `tasks`, and the pool is up. -/
structure Owing (t : Nat) (tasks : List Int) (s : PoolState) : Prop where
  exclusive : Exclusive code (holdsIn Pc.held) s
  up : s.shared.pool.shutdown = false
  taken : s.shared.takenBy t = tasks
  at_hand : s.shared.ranBy t = tasks ∨
    ∃ pc, s.threads[t]? = some (.running pc) ∧ pc.carried ≠ [] ∧ RunsAt t s.shared pc

/-- Nothing on the way to the callback waits for another thread. -/
theorem owing_step {tasks : List Int} (h : Owing t tasks s) (hgoal : s.shared.ranBy t ≠ tasks) :
    ∃ a s', aloneStep t s a = some s' ∧ Owing t tasks s' ∧ distance t s' < distance t s := by
  obtain ⟨pc, ht, hcarried, hruns⟩ := h.at_hand.resolve_left hgoal
  rw [distance_eq ht]
  have hnext {w : Nat} {k : Pc} {s' : PoolState} (h1 : poolStep s (.run t () w) = some s') (hd : s'.shared = s.shared)
      (ht' : s'.threads[t]? = some (.running k)) (hk : k.carried ≠ []) (hr : RunsAt t s.shared k)
      (hlt : k.distance < pc.distance) :
      ∃ a s', aloneStep t s a = some s' ∧ Owing t tasks s' ∧ distance t s' < pc.distance := by
    refine ⟨.run t () w, s', (if_pos rfl).trans h1, ⟨discipline.exclusive h.exclusive (step_cases h1), ?_, ?_, ?_⟩, ?_⟩
    · rw [hd]
      exact h.up
    · rw [hd]
      exact h.taken
    · exact .inr ⟨k, ht', hk, hd ▸ hr⟩
    · rwa [distance_eq ht']
  cases pc with
  | worker pc =>
    cases pc with
    | signal job =>
      obtain ⟨w, s1, h1, hd, -, ht1⟩ := exists_signal ht rfl
      exact hnext h1 hd ht1 (List.cons_ne_nil _ _) (.inl hruns) (Nat.lt_succ_self 3)
    | shutdown job =>
      obtain ⟨s1, h1, hd, ht1, -⟩ := exists_data ht rfl
      dsimp only at ht1
      rw [if_neg (by simp [h.up])] at ht1
      have howes : s.shared.Owes t job := by
        rcases hruns with howes | ⟨hdown, -⟩
        · exact howes
        · rw [h.up] at hdown
          cases hdown
      exact hnext h1 hd ht1 (List.cons_ne_nil _ _) howes (Nat.lt_succ_self 2)
    | unlock job =>
      have hown := (h.exclusive.owner_running ht .poolLock).mpr rfl
      have hlt : t < s.threads.length := (List.getElem?_eq_some_iff.mp ht).1
      have h1 : poolStep s (.run t () 0) = some ((s.setOwner .poolLock none).setThread t (.running (.task (.start job)))) :=
        step_unlock ht rfl hown
      exact hnext h1 rfl (List.getElem?_set_self hlt) (List.cons_ne_nil _ _) hruns (Nat.lt_succ_self 1)
    | _ => exact absurd rfl hcarried
  | task pc =>
    cases pc with
    | start job =>
      obtain ⟨s1, h1, hd, ht1, -⟩ := exists_data ht rfl
      obtain ⟨harg, htaken⟩ := hruns
      have hnum : s.shared.deref job = job := by
        rw [Data.deref, harg]
      have hran := ranBy_append s.shared t t job.tasknum
      rw [if_pos rfl, ← htaken, h.taken] at hran
      rw [hnum] at hd
      refine ⟨.run t () 0, s1, (if_pos rfl).trans h1, ⟨discipline.exclusive h.exclusive (step_cases h1), ?_, ?_, ?_⟩, ?_⟩
      · rw [hd]
        exact h.up
      · rw [hd]
        exact h.taken
      · exact .inl (hd ▸ hran)
      · rw [distance_eq ht1]
        exact Nat.zero_lt_one
    | sleep job => exact absurd rfl hcarried
  | _ => exact absurd rfl hcarried

/-- While the pool is up, the worker's own steps run what it has at hand. -/
theorem Running.runs_at_hand (h : Running maxtasknum s) (hup : s.shared.pool.shutdown = false)
    (ht : s.threads[t]? = some (.running pc)) (hcarried : pc.carried ≠ []) :
    ∃ s', Lts.Reach (aloneStep t) s s' ∧ s'.shared.takenBy t = s.shared.takenBy t ∧
      s'.shared.ranBy t = s.shared.takenBy t := by
  have howing : Owing t (s.shared.takenBy t) s :=
    ⟨h.asserted.exclusive, hup, rfl, .inr ⟨pc, ht, hcarried, h.runs t pc (State.pcs_getElem? ht)⟩⟩
  have hrun : ∃ s', Lts.Reach (aloneStep t) s s' ∧ Owing t (s.shared.takenBy t) s' ∧
      s'.shared.ranBy t = s.shared.takenBy t :=
    Lts.Reach.of_measure (distance t) (fun s1 h1 hgoal => owing_step h1 hgoal) howing
  obtain ⟨s', hr, hs', hran⟩ := hrun
  exact ⟨s', hr, hs'.taken, hran⟩

end

/-! ## The theorem -/

section
variable {thrnum maxtasknum : Nat} {raw copy : Nat → PoolTask} {s : PoolState}

theorem create_running_tasks : Running maxtasknum (create thrnum maxtasknum raw copy) := by
  refine ⟨create_queue, fun t pc ht => ?_⟩
  rcases create_pcs (List.mem_of_getElem? ht) with ⟨task, rfl⟩ | rfl <;> rfl

/-- In a run of the pool every worker runs what it takes, in every state of the run, if and
only if no worker tests `shutdown`, with the flag set, while it has a task at hand; and a task
at hand is run by steps of its worker alone while the flag is not set. -/
theorem runs_taken_iff {as : List PoolAct} (hrun : Lts.run poolStep as (create thrnum maxtasknum raw copy) = some s) :
    (Lts.Always poolStep RunsTaken as (create thrnum maxtasknum raw copy) ↔
      Lts.Along poolStep (fun s a => drops s a = false) as (create thrnum maxtasknum raw copy)) ∧
    (Lts.Along poolStep (fun s a => drops s a = false) as (create thrnum maxtasknum raw copy) →
      s.shared.pool.shutdown = false → ∀ (t : Nat) (pc : Pc), s.threads[t]? = some (.running pc) → pc.carried ≠ [] →
      ∃ s', Lts.Reach (aloneStep t) s s' ∧ s'.shared.takenBy t = s.shared.takenBy t ∧
        s'.shared.ranBy t = s.shared.takenBy t) := by
  have hok (s1 : PoolState) (a : PoolAct) (s2 : PoolState) (h : Running maxtasknum s1) (hkeep : drops s1 a = false)
      (hs : poolStep s1 a = some s2) : Running maxtasknum s2 := h.step hkeep (step_cases hs)
  have hbad (s1 : PoolState) (a : PoolAct) (s2 : PoolState) (_ : Running maxtasknum s1) (hdrop : ¬ drops s1 a = false)
      (hs : poolStep s1 a = some s2) : ¬ RunsTaken s2 := not_runsTaken (by simpa using hdrop) hs
  refine ⟨Lts.always_iff_along (fun _ h => h.runsTaken) hok hbad hrun create_running_tasks, fun halong hup t pc ht hcarried => ?_⟩
  exact (halong.invariant hok hrun create_running_tasks).runs_at_hand hup ht hcarried

/-- One task, taken and run by the worker; then the pool is torn down. -/
def quietRun : List PoolAct := arrives :: steps 2 5 ++ steps 0 9 ++ steps 1 2

/-- The flag is set between the dequeue and the test. -/
def droppingRun : List PoolAct := arrives :: steps 2 5 ++ steps 0 4 ++ steps 1 1 ++ steps 0 2

theorem runs_taken_iff_one :
    Lts.Always poolStep RunsTaken quietRun (create 1 1 (fun _ => {}) fun _ => {}) := by
  have hsome : (Lts.run poolStep quietRun (create 1 1 (fun _ => {}) fun _ => {})).isSome = true := by decide +kernel
  obtain ⟨s, hrun⟩ := Option.isSome_iff_exists.mp hsome
  exact (runs_taken_iff hrun).1.mpr (by decide +kernel)

/-- The worker leaves with the task that it took. -/
theorem taken_dropped : ∃ s : PoolState, Reachable 1 1 s ∧ s.shared.takenBy 0 = [1000] ∧ s.shared.ranBy 0 = [] ∧
    ¬ RunsTaken s := by
  obtain ⟨s, hr, hs⟩ := Lts.Reach.of_run poolStep (create 1 1 (fun _ => {}) fun _ => {})
    (fun s => s.shared.takenBy 0 = [1000] && s.shared.ranBy 0 = [] && s.pcs[0]? = some (.worker .quit)) droppingRun
    (by decide +kernel)
  simp only [Bool.and_eq_true, decide_eq_true_eq] at hs
  obtain ⟨⟨htaken, hran⟩, hpc⟩ := hs
  refine ⟨s, ⟨_, _, hr⟩, htaken, hran, fun h => ?_⟩
  rcases h 0 _ hpc with he | he <;> rw [htaken, hran] at he <;> cases he

end
end CSocket.TaskPool
