import CSocket.ThreadPool.Steps
/-!
# Tearing the pool down

`threadpool_destroy` joins nobody: it sets `shutdown`, broadcasts and frees. Its
own steps alone take it to `threadpool_free` (`reach_free`), and the manager has
not ended by then, as nothing but `shutdown` ends it (`Place`).
-/
namespace CSocket.ThreadPool
open Pthread

/-! ## What a safe tear-down needs -/

/-- The instruction at this position uses the pool. -/
def Pc.touches : Pc → Bool
  | .worker (.run _) | .worker .gone | .worker .ended => false
  | .add (.returned _ _) => false
  | .adjust .sleep | .adjust (.signals 0) | .adjust .ended => false
  | .destroy .ended => false
  | _ => true

/-- Thread `t` has a later step that uses the pool. -/
def Later (s : PoolState) (t : Nat) : Prop :=
  ∃ s' pc, Lts.Reach poolStep s s' ∧ s'.threads[t]? = some (.running pc) ∧ pc.touches = true

def Pc.ofPool : Pc → Bool
  | .worker _ | .adjust _ => true
  | _ => false

/-- Nobody is blocked, holds or waits for a mutex, or will use the pool again. -/
structure Quiesced (s : PoolState) : Prop where
  notFull : ∀ st ∈ s.threads, st.waitsOn Cond.queueNotFull = false
  notEmpty : ∀ st ∈ s.threads, st.waitsOn Cond.queueNotEmpty = false
  free : ∀ m, s.owner m = none
  waiting : ∀ st ∈ s.threads, ∀ m k pc, st ≠ .woken m k ∧ (st = .running pc → code pc ≠ .lock m k)
  later : ∀ (t : Nat) (pc : Pc), s.pcs[t]? = some pc → pc.ofPool = true → ¬ Later s t

/-! ## Who is where -/

def Pc.isManager : Pc → Bool
  | .adjust _ => true
  | _ => false

/-- Thread `min` is the manager, which ends at shutdown only; thread `min + 1` may
call `threadpool_destroy`, and only that shuts the pool down. -/
structure Place (min t : Nat) (pc : Pc) (d : Threadpool) : Prop where
  manager : t = min → pc.isManager = true
  call : pc = .destroy .call → t = min + 1 ∧ d.shutdown = false
  ended : pc = .adjust .ended → d.shutdown = true

theorem goes_place {pc k : Pc} (h : (code pc).Goes k) :
    k.isManager = pc.isManager ∧ k ≠ .destroy .call ∧ k ≠ .adjust .ended := by
  cases moves h <;> exact ⟨rfl, nofun, nofun⟩

/-- What a data instruction does to `shutdown`, and where it goes. -/
structure Placed (pc : Pc) (d : Threadpool) (r : Threadpool × Pc) : Prop where
  manager : r.2.isManager = pc.isManager
  call : r.2 ≠ .destroy .call
  ended : r.2 = .adjust .ended → r.1.shutdown = true
  shutdown : r.1.shutdown = d.shutdown ∨ pc = .destroy .call ∧ r.1.shutdown = true

/-- It went on at `k`, which is not special, and `shutdown` is as before. -/
theorem Placed.of_eq {pc k : Pc} {d d' : Threadpool} (hm : k.isManager = pc.isManager) (hc : k ≠ .destroy .call)
    (he : k ≠ .adjust .ended) (hd : d'.shutdown = d.shutdown) : Placed pc d (d', k) :=
  ⟨hm, hc, fun h => absurd h he, .inl hd⟩

theorem data_placed {pc : Pc} {f : Nat → Bool → Threadpool → Threadpool × Pc} (h : code pc = .data f) (t : Nat)
    (x : Bool) (d : Threadpool) : Placed pc d (f t x d) := by
  have hr := runs h t x d
  generalize f t x d = r at hr ⊢
  cases hr with
  | ends hd => exact ⟨rfl, nofun, fun _ => hd, .inl rfl⟩
  | call => exact ⟨rfl, nofun, nofun, .inr ⟨rfl, rfl⟩⟩
  | store task =>
    obtain ⟨taskQueue, hstore⟩ := store_frame d task.function task.arg
    rw [hstore]
    exact .of_eq rfl nofun nofun rfl
  | _ => exact .of_eq rfl nofun nofun rfl

/-- The thread that is created, and where its creator is. -/
theorem create_place {pc child k : Pc} {f : Nat → Threadpool → Threadpool} (h : code pc = .create f child k) :
    child = .worker .lock ∧ k.isManager = pc.isManager ∧ k ≠ .destroy .call ∧ k ≠ .adjust .ended ∧
      ∀ t d, (f t d).shutdown = d.shutdown := by
  obtain ⟨i, add, l, b, rfl, rfl, rfl, rfl⟩ := creates h
  exact ⟨rfl, rfl, nofun, nofun, fun _ _ => rfl⟩

theorem Place.congr {min t : Nat} {pc : Pc} {d d' : Threadpool} (h : Place min t pc d)
    (hd : d'.shutdown = d.shutdown) : Place min t pc d' :=
  ⟨h.manager, fun hc => ⟨(h.call hc).1, hd.trans (h.call hc).2⟩, fun he => hd.trans (h.ended he)⟩

/-- A new thread is neither. -/
theorem Place.new {min n : Nat} {pc : Pc} {d : Threadpool} (hn : min + 1 < n) (hc : pc ≠ .destroy .call)
    (he : pc ≠ .adjust .ended) : Place min n pc d := by
  constructor
  · intro h
    omega
  · exact fun h => absurd h hc
  · exact fun h => absurd h he

theorem place_outline (min : Nat) : Outline code start Pc.holds (fun n _ => min + 1 < n) (Place min) where
  discipline := discipline
  move h hA := by
    obtain ⟨hm, hc, he⟩ := goes_place h
    exact ⟨fun ht => hm.trans (hA.manager ht), fun h => absurd h hc, fun h => absurd h he⟩
  data {t x pc f n d} h _ hG hA := by
    have hp := data_placed h t x d
    exact ⟨hG, fun ht => hp.manager.trans (hA.manager ht), fun h => absurd h hp.call, hp.ended⟩
  create h _ hG hA := by
    obtain ⟨rfl, hm, hc, he, hd⟩ := create_place h
    refine ⟨Nat.lt_succ_of_lt hG, ?_, .new hG nofun nofun⟩
    exact ⟨fun ht => hm.trans (hA.manager ht), fun h => absurd h hc, fun h => absurd h he⟩
  arrive {pc n d} h hG := by
    cases pc with
    | add pc => exact ⟨Nat.lt_succ_of_lt hG, .new hG nofun nofun⟩
    | _ => cases h
  stable {t u x pc pc' f n d} h hne _ _ hA hB := by
    rcases (data_placed h t x d).shutdown with hd | ⟨rfl, hd⟩
    · exact hB.congr hd
    · -- the one call of `threadpool_destroy`
      refine ⟨hB.manager, fun hc => ?_, fun _ => hd⟩
      exact absurd ((hA.call rfl).1.trans (hB.call hc).1.symm) hne
  stableCreate h _ _ _ _ hB := by
    obtain ⟨-, -, -, -, hd⟩ := create_place h
    exact hB.congr (hd _ _)

theorem place_start {min max qmax : Nat} (raw : Nat → ThreadpoolTask) :
    Asserted code Pc.holds (fun n _ => min + 1 < n) (Place min) (create min max qmax raw) := by
  have hlen : (create min max qmax raw).threads.length = min + 2 := by simp [create]
  refine ⟨create_exclusive, by rw [hlen]; exact Nat.lt_succ_self _, ?_⟩
  intro t pc hpc
  have hpcs : (create min max qmax raw).pcs = List.replicate min (.worker .lock) ++ [.adjust .test, .destroy .call] := by
    simp [State.pcs, create]
  rw [hpcs] at hpc
  rcases Nat.lt_trichotomy t min with h | rfl | h
  · rw [List.getElem?_append_left (by simpa using h), List.getElem?_replicate, if_pos h] at hpc
    cases hpc
    refine ⟨fun he => absurd he (Nat.ne_of_lt h), ?_, ?_⟩ <;> (intro he; cases he)
  · rw [List.getElem?_append_right (by simp), List.length_replicate, Nat.sub_self] at hpc
    cases hpc
    refine ⟨fun _ => rfl, ?_, ?_⟩ <;> (intro he; cases he)
  · obtain ⟨hlt, -⟩ := List.getElem?_eq_some_iff.mp hpc
    have ht : t = min + 1 := by
      simp at hlt
      omega
    subst ht
    rw [List.getElem?_append_right (by simp), List.length_replicate, Nat.add_sub_cancel_left] at hpc
    cases hpc
    refine ⟨fun he => absurd he (Nat.succ_ne_self min), fun _ => ⟨rfl, rfl⟩, ?_⟩
    intro he
    cases he

/-! ## The destroying thread on its own -/

section
variable {min max qmax : Nat} {s s' : PoolState} {t : Nat}

/-- Meanwhile the others stay where they are. -/
theorem steps_other {n u : Nat} {pc : Pc} (hne : u ≠ t) (h : Lts.run poolStep (steps t n) s = some s')
    (hu : s.pcs[u]? = some pc) : s'.pcs[u]? = some pc := by
  induction n generalizing s with
  | zero =>
    cases h
    exact hu
  | succ n ih =>
    obtain ⟨s1, h1, h2⟩ := Option.bind_eq_some_iff.mp h
    apply ih h2
    exact (step_cases h1).other_pc (fun he => hne (Option.some.inj he).symm) hu

theorem step_assign {pc k : Pc} {f : Nat → Threadpool → Threadpool} (ht : s.threads[t]? = some (.running pc))
    (hc : code pc = .assign f k) :
    poolStep s (.run t true 0) = some ({ s with shared := f t s.shared }.setThread t (.running k)) :=
  step_data (f := fun me _ d => (f me d, k)) ht hc

theorem loop_step {i : Nat} (ht : s.threads[t]? = some (.running (.destroy (.loop i)))) :
    poolStep s (.run t true 0) = some (s.setThread t (.running
      (if (i : Int) < s.shared.liveThrNum then .destroy (.broadcast i) else .destroy .free))) := by
  refine (step_data ht rfl).trans ?_
  simp [State.setThread]

/-- The broadcast loop ends, whatever the others do not do. -/
theorem loop_free {n i : Nat} (hn : (s.shared.liveThrNum - i).toNat = n)
    (ht : s.threads[t]? = some (.running (.destroy (.loop i)))) :
    ∃ m s', Lts.run poolStep (steps t m) s = some s' ∧ s'.threads[t]? = some (.running (.destroy .free)) := by
  have hlt : t < s.threads.length := (List.getElem?_eq_some_iff.mp ht).1
  have h1 := loop_step ht
  induction n generalizing i s with
  | zero =>
    rw [if_neg (by omega)] at h1
    refine ⟨1, s.setThread t (.running (.destroy .free)), ?_, List.getElem?_set_self hlt⟩
    rw [steps, List.replicate_one, Lts.run, h1]
    rfl
  | succ n ih =>
    rw [if_pos (by omega)] at h1
    let s1 := s.setThread t (.running (.destroy (.broadcast i)))
    have ht1 : s1.threads[t]? = some (.running (.destroy (.broadcast i))) := List.getElem?_set_self hlt
    have h2 : poolStep s1 (.run t true 0) = some ((s1.wakeAll .queueNotEmpty).setThread t (.running (.destroy (.loop (i + 1))))) :=
      step_broadcast ht1 rfl
    let s2 := (s1.wakeAll .queueNotEmpty).setThread t (.running (.destroy (.loop (i + 1))))
    have hlt2 : t < (s1.wakeAll .queueNotEmpty).threads.length := by
      simpa [s1, State.wakeAll, State.setThread] using hlt
    have ht2 : s2.threads[t]? = some (.running (.destroy (.loop (i + 1)))) := List.getElem?_set_self hlt2
    have hn2 : (s2.shared.liveThrNum - (i + 1 : Nat)).toNat = n := by
      show (s.shared.liveThrNum - (i + 1 : Nat)).toNat = n
      omega
    obtain ⟨m, s', hrun, hs'⟩ := ih hn2 ht2 (by simpa [s2, State.setThread] using hlt2) (loop_step ht2)
    refine ⟨m + 2, s', ?_, hs'⟩
    rw [steps, List.replicate_succ, List.replicate_succ, Lts.run, h1, Option.bind_some, Lts.run, h2, Option.bind_some]
    exact hrun

theorem reach_free (ht : s.threads[t]? = some (.running (.destroy .call))) :
    ∃ m s', Lts.run poolStep (steps t m) s = some s' ∧ s'.threads[t]? = some (.running (.destroy .free)) := by
  have hlt : t < s.threads.length := (List.getElem?_eq_some_iff.mp ht).1
  have h1 : poolStep s (.run t true 0) = some ({ s with shared := { s.shared with shutdown := true } }.setThread t
      (.running (.destroy (.loop 0)))) := step_assign ht rfl
  obtain ⟨m, s', hrun, hs'⟩ := loop_free (s := { s with shared := { s.shared with shutdown := true } }.setThread t
    (.running (.destroy (.loop 0)))) rfl (List.getElem?_set_self hlt)
  refine ⟨m + 1, s', ?_, hs'⟩
  rw [steps, List.replicate_succ, Lts.run, h1, Option.bind_some]
  exact hrun

/-! ## The manager -/

/-- A manager that has not ended goes on to use the pool. -/
theorem manager_later {pc : AdjustPc} (ht : s.threads[t]? = some (.running (.adjust pc))) (hpc : pc ≠ .ended) :
    Later s t := by
  have hlt : t < s.threads.length := (List.getElem?_eq_some_iff.mp ht).1
  by_cases htouch : (Pc.adjust pc).touches = true
  · exact ⟨s, .adjust pc, .refl s, ht, htouch⟩
  · -- in its sleep, or before the next pass
    have hnext : ∃ k, adjustCode pc = .assign (fun _ d => d) k ∧ k.touches = true := by
      cases pc with
      | sleep => exact ⟨_, rfl, rfl⟩
      | signals n =>
        cases n with
        | zero => exact ⟨_, rfl, rfl⟩
        | succ n => exact absurd rfl htouch
      | ended => exact absurd rfl hpc
      | _ => exact absurd rfl htouch
    obtain ⟨k, hk, hktouch⟩ := hnext
    have h1 : poolStep s (.run t true 0) = some (s.setThread t (.running k)) := step_assign ht hk
    exact ⟨s.setThread t (.running k), k, (Lts.Reach.refl s).tail h1, List.getElem?_set_self hlt, hktouch⟩

/-- A thread at a position of the manager's is not blocked. -/
theorem manager_running (h : Exclusive code Pc.holds s) {pc : AdjustPc} (ht : s.pcs[t]? = some (.adjust pc)) :
    s.threads[t]? = some (.running (.adjust pc)) := by
  rcases h.running_or_waits ht with ht | ⟨pc0, c, m, h0⟩
  · exact ht
  · rcases waits h0 with ⟨-, -, he⟩ | ⟨task, -, -, he⟩ <;> cases he

/-- Wherever the other threads are when `threadpool_destroy` is called, it can
enter `threadpool_free` while the pool is in use. -/
theorem destroy_unsafe (h : Reachable min max qmax s) (hd : s.threads[min + 1]? = some (.running (.destroy .call))) :
    ∃ n s', Lts.run poolStep (steps (min + 1) n) s = some s' ∧
      s'.threads[min + 1]? = some (.running (.destroy .free)) ∧ ¬ Quiesced s' := by
  obtain ⟨raw, hr⟩ := h
  obtain ⟨-, hlen, hplace⟩ := (place_outline min).reach (place_start raw) hr
  obtain ⟨pc, hpc⟩ : ∃ pc, s.pcs[min]? = some pc :=
    ⟨_, List.getElem?_eq_getElem (by rw [s.length_pcs]; omega)⟩
  have hdown : s.shared.shutdown = false := ((hplace _ _ (State.pcs_getElem? hd)).call rfl).2
  obtain ⟨n, s', hrun, hs'⟩ := reach_free hd
  refine ⟨n, s', hrun, hs', fun hq => ?_⟩
  have hmin := hplace min pc hpc
  cases pc with
  | adjust pc =>
    have hne : pc ≠ .ended := by
      rintro rfl
      have := hmin.ended rfl
      rw [hdown] at this
      cases this
    have hpc' := steps_other (Nat.ne_of_lt (Nat.lt_succ_self min)) hrun hpc
    have hexcl := ((place_outline min).reach (place_start raw) (hr.trans ⟨_, hrun⟩)).exclusive
    exact hq.later min _ hpc' rfl (manager_later (manager_running hexcl hpc') hne)
  | _ => exact absurd (hmin.manager rfl) nofun

/-- Destroyed right after its creation. -/
theorem destroy_unsafe_at_once : ∃ n s', Lts.run poolStep (steps 2 n) (create 1 1 1 fun _ => {}) = some s' ∧
    s'.threads[2]? = some (.running (.destroy .free)) ∧ ¬ Quiesced s' :=
  destroy_unsafe ⟨_, .refl (create 1 1 1 fun _ => {})⟩ rfl

end

/-- The worker waits for a task and the manager sleeps. The pool is destroyed and
freed, and then the manager goes for the mutex in it. -/
theorem manager_uses_freed : ∃ s s' : PoolState, Reachable 1 1 1 s ∧
    s.threads[2]? = some (.running (.destroy .free)) ∧ ¬ Quiesced s ∧
    Lts.Reach poolStep s s' ∧ s'.shared.freed = true ∧ Later s' 1 := by
  obtain ⟨s, hr, hs⟩ := Lts.Reach.of_run poolStep (create 1 1 1 fun _ => {})
    (fun s => s.threads = [.woken .lock (.worker .woken), .running (.adjust .sleep), .running (.destroy .free)] &&
      (Lts.run poolStep (steps 2 7) s).any fun s' =>
        s'.shared.freed && s'.threads[1]? = some (.running (.adjust .sleep)))
    (steps 0 3 ++ steps 1 1 ++ steps 2 4) (by decide +kernel)
  obtain ⟨hthreads, hrun⟩ := Bool.and_eq_true_iff.mp hs
  have hthreads := of_decide_eq_true hthreads
  obtain ⟨s', hr', hs'⟩ := Lts.Reach.of_run poolStep s _ (steps 2 7) hrun
  obtain ⟨hfreed, hmanager⟩ := Bool.and_eq_true_iff.mp hs'
  have h1 : s.threads[1]? = some (.running (.adjust .sleep)) := by
    rw [hthreads]
    rfl
  refine ⟨s, s', ⟨_, hr⟩, by rw [hthreads]; rfl, fun hq => ?_, hr', hfreed, ?_⟩
  · exact hq.later 1 _ (State.pcs_getElem? h1) rfl (manager_later h1 nofun)
  · exact manager_later (of_decide_eq_true hmanager) nofun

end CSocket.ThreadPool
