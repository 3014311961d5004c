import CSocket.EpollPool.Races
import CSocket.Lib.Release
import CSocket.PoolSocket.Waiting
import CSocket.TaskPool.Fifo
import CSocket.ThreadPool.Steps
/-!
# Locks are released

In each of the four programs with threads, whoever holds a mutex releases it within a
number of steps of its own that is known beforehand, and everybody who stands before the
mutex can have it. The one exception is `threadpool_free`, which keeps what it locks.
-/
namespace CSocket
open Pthread Epoll

/-! ## The simple pool -/

namespace SimplePool

/-- The steps to the end of the critical section, at most. -/
def WorkerPc.rank {τ : Type} : WorkerPc τ → Nat
  | .test _ => 5
  | .check _ => 4
  | .take => 3
  | .signal _ => 2
  | .shutdown _ => 1
  | _ => 0

def AddPc.rank {α κ : Type} : AddPc α κ → Nat
  | .test _ _ => 2
  | .store _ _ => 1
  | _ => 0

section
variable {τ ε α κ ι Pc : Type} (held : Pc → List Mutex) (rank : Pc → Nat)

theorem thrRun_ends [Inhabited τ] (copy : τ → τ) (worker : WorkerPc τ → Pc) (call : τ → Pc)
    (hworker : ∀ pc, held (worker pc) = pc.held) (hrank : ∀ pc, rank (worker pc) = pc.rank) {pc : WorkerPc τ}
    (hpc : pc.held = [.poolLock]) :
    (thrRun copy worker call pc : Instr Mutex Cond Pc ι (Shared τ ε)).Ends (holdsIn held) (fun pc _ => rank pc)
      .poolLock (worker pc) := by
  have hnext {k : WorkerPc τ} (hk : k.held = [.poolLock]) (hlt : k.rank < pc.rank) :
      holdsIn held (worker k) .poolLock = true ∧ ∀ _ : Shared τ ε, rank (worker k) < rank (worker pc) := by
    rw [holdsIn, hworker, hk, hrank, hrank]
    exact ⟨rfl, fun _ => hlt⟩
  cases pc with
  | lock | exit | ended => cases hpc
  | wait | quit | unlock => rfl
  | test | check | shutdown =>
    exact ends_branch (hnext rfl (by simp [WorkerPc.rank])) (hnext rfl (by simp [WorkerPc.rank]))
  | take =>
    intro t x d
    obtain ⟨hin, hlt⟩ := hnext (k := .signal (copy d.pool.front)) rfl (by simp [WorkerPc.rank])
    exact ⟨hin, hlt d⟩
  | signal task => exact hnext rfl (by simp [WorkerPc.rank])

theorem addtask_ends (add : AddPc α κ → Pc) (ret : κ → Pc) {fill : α → Shared τ ε → τ × ε}
    (hadd : ∀ pc, held (add pc) = pc.held) (hrank : ∀ pc, rank (add pc) = pc.rank) {pc : AddPc α κ}
    (hpc : pc.held = [.poolLock]) :
    (addtask add ret fill pc : Instr Mutex Cond Pc ι (Shared τ ε)).Ends (holdsIn held) (fun pc _ => rank pc)
      .poolLock (add pc) := by
  have hnext {k : AddPc α κ} (hk : k.held = [.poolLock]) (hlt : k.rank < pc.rank) :
      holdsIn held (add k) .poolLock = true ∧ ∀ _ : Shared τ ε, rank (add k) < rank (add pc) := by
    rw [holdsIn, hadd, hk, hrank, hrank]
    exact ⟨rfl, fun _ => hlt⟩
  cases pc with
  | lock | signal => cases hpc
  | wait | unlock => rfl
  | test arg k => exact ends_branch (hnext rfl (by simp [AddPc.rank])) (hnext rfl (by simp [AddPc.rank]))
  | store arg k =>
    intro t x d
    obtain ⟨hin, hlt⟩ := hnext (k := .unlock k) rfl (by simp [AddPc.rank])
    exact ⟨hin, hlt d⟩

theorem WorkerPc.held_eq {pc : WorkerPc τ} (h : pc.held ≠ []) : pc.held = [.poolLock] := by
  cases pc <;> first | rfl | exact absurd rfl h

theorem AddPc.held_eq {pc : AddPc α κ} (h : pc.held ≠ []) : pc.held = [.poolLock] := by
  cases pc <;> first | rfl | exact absurd rfl h

theorem WorkerPc.rank_le (pc : WorkerPc τ) : pc.rank ≤ 5 := by
  cases pc <;> simp [WorkerPc.rank]

theorem AddPc.rank_le (pc : AddPc α κ) : pc.rank ≤ 2 := by
  cases pc <;> simp [AddPc.rank]

end
end SimplePool

namespace TaskPool
open SimplePool

def Pc.rank : Pc → Nat
  | .worker pc => pc.rank
  | .add pc => pc.rank
  | _ => 0

theorem held_ne {pc : Pc} {m : Mutex} (h : holdsIn Pc.held pc m = true) : pc.held ≠ [] := by
  intro hno
  rw [holdsIn, hno] at h
  cases h

theorem sections : Sections code (holdsIn Pc.held) (holdsIn Pc.held) fun pc _ => pc.rank where
  held _ _ h := h
  ends pc m h := by
    cases m
    have hheld := held_ne h
    cases pc with
    | worker pc =>
      exact thrRun_ends Pc.held Pc.rank copyTask .worker (fun task => .task (.start task)) (fun _ => rfl) (fun _ => rfl)
        (WorkerPc.held_eq hheld)
    | add pc =>
      exact addtask_ends Pc.held Pc.rank .add (fun _ => .returned) (fun _ => rfl) (fun _ => rfl) (AddPc.held_eq hheld)
    | _ => exact absurd rfl hheld
  data _ _ _ _ _ _ _ := Nat.le_refl _
  create _ _ _ _ _ _ _ _ := Nat.le_refl _

end TaskPool

namespace EpollPool
open SimplePool

def Pc.rank : Pc → Nat
  | .worker pc => pc.rank
  | .main (.addtask pc) => pc.rank
  | _ => 0

theorem held_ne {pc : Pc} {m : Mutex} (h : holdsIn Pc.held pc m = true) : pc.held ≠ [] := by
  intro hno
  rw [holdsIn, hno] at h
  cases h

theorem sections : Sections code (holdsIn Pc.held) (holdsIn Pc.held) fun pc _ => pc.rank where
  held _ _ h := h
  ends pc m h := by
    cases m
    have hheld := held_ne h
    cases pc with
    | worker pc =>
      exact thrRun_ends Pc.held Pc.rank id .worker (fun task => .task (.read task)) (fun _ => rfl) (fun _ => rfl)
        (WorkerPc.held_eq hheld)
    | main pc =>
      cases pc with
      | addtask pc =>
        exact addtask_ends Pc.held Pc.rank (fun add => .main (.addtask add)) nextEvent (fun _ => rfl) (fun _ => rfl)
          (AddPc.held_eq hheld)
      | _ => exact absurd rfl hheld
    | _ => exact absurd rfl hheld
  data _ _ _ _ _ _ _ := Nat.le_refl _
  create _ _ _ _ _ _ _ _ := Nat.le_refl _

/-- Whoever holds `pool_lock` releases it within six steps of its own. -/
theorem server_lock_released {thrnum maxtasknum lfd : Nat} {raw copy : Nat → PoolTask} {s : ServerState}
    (h : Lts.Reach serverStep (create thrnum maxtasknum lfd raw copy) s) {m : Mutex} {t : Nat}
    (ho : s.owner m = some t) : Released code (fun _ => false) s m t 6 := by
  have hexcl := discipline.reach create_exclusive h
  obtain ⟨pc, ht, hpc⟩ := (hexcl.owner m t).mp ho
  refine (sections.released discipline hexcl ht hpc).mono ?_
  cases pc with
  | worker pc => exact Nat.succ_le_succ pc.rank_le
  | main pc =>
    cases pc with
    | addtask pc => exact Nat.succ_le_succ (Nat.le_trans pc.rank_le (by decide))
    | _ => simp [Pc.rank]
  | _ => simp [Pc.rank]

/-- `main` at the test of its first call of `addtask`, with the worker behind it. -/
theorem server_lock_released_main : ∃ s : ServerState, s.owner .poolLock = some 1 ∧ Before code s 0 .poolLock ∧
    Released code (fun _ => false) s .poolLock 1 6 := by
  obtain ⟨s, hr, hs⟩ := Lts.Reach.of_run serverStep (create 1 1 3 (fun _ => {}) fun _ => {})
    (fun s => s.owner .poolLock = some 1 ∧ s.threads[0]? = some (.running (.worker (.lock {}))))
    [.run 1 (.events [⟨3, EPOLLIN, 0⟩]) 0, .run 1 .none 0, .run 1 (.accept 4) 0, .run 1 .none 0,
      .run 2 (.arrive 0 [104]) 0, .run 1 (.events [⟨4, EPOLLIN, 0⟩]) 0, .run 1 .none 0, .run 1 .none 0]
    (by decide +kernel)
  obtain ⟨ho, hu⟩ := of_decide_eq_true hs
  exact ⟨s, ho, .inl ⟨_, _, hu, rfl⟩, server_lock_released hr ho⟩

end EpollPool

/-! ## The connection pool -/

namespace PoolSocket

def GetPc.rank : GetPc → Nat
  | .test => 6
  | .sleep => 5
  | .retest => 4
  | .status => 3
  | .reconnect => 2
  | .finish _ => 1
  | _ => 0

def PutPc.rank : PutPc → Nat
  | .test _ _ => 2
  | .push _ | .repair _ => 1
  | _ => 0

def Pc.rank : Pc → Nat
  | .get pc => pc.rank
  | .put pc => pc.rank

theorem getCode_ends {pc : GetPc} (h : holdsIn Pc.held (.get pc) .fooMutex = true) :
    (getCode pc).Ends (holdsIn Pc.held) (fun pc _ => pc.rank) .fooMutex (.get pc) := by
  cases pc with
  | lock | returned => cases h
  | unlock => rfl
  | sleep => exact fun t x d => ⟨rfl, by simp [Pc.rank, GetPc.rank]⟩
  | status => exact ends_branch ⟨rfl, by simp [Pc.rank, GetPc.rank]⟩ ⟨rfl, by simp [Pc.rank, GetPc.rank]⟩
  | reconnect => exact fun t x d => ⟨rfl, by simp [Pc.rank, GetPc.rank]⟩
  | test =>
    intro t x d
    dsimp only
    split <;> exact ⟨rfl, by simp [Pc.rank, GetPc.rank]⟩
  | retest =>
    intro t x d
    dsimp only
    split <;> exact ⟨rfl, by simp [Pc.rank, GetPc.rank]⟩
  | finish ret =>
    intro t x d
    dsimp only
    split <;> exact ⟨rfl, by simp [Pc.rank, GetPc.rank]⟩

theorem putCode_ends {pc : PutPc} (h : holdsIn Pc.held (.put pc) .fooMutex = true) :
    (putCode pc).Ends (holdsIn Pc.held) (fun pc _ => pc.rank) .fooMutex (.put pc) := by
  cases pc with
  | call | param | lock | unlockNull | returned => cases h
  | unlock => rfl
  | push => exact fun t x d => ⟨rfl, by simp [Pc.rank, PutPc.rank]⟩
  | repair => exact fun t x d => ⟨rfl, by simp [Pc.rank, PutPc.rank]⟩
  | test connfd validFlag =>
    have hlt : ∀ k : PutPc, k.held = [.fooMutex] → k.rank < 2 →
        holdsIn Pc.held (.put k) .fooMutex = true ∧ Pc.rank (.put k) < Pc.rank (.put (.test connfd validFlag)) := by
      intro k hk hrank
      rw [holdsIn, Pc.held, hk]
      exact ⟨rfl, hrank⟩
    intro t x d
    dsimp only
    split
    · exact hlt _ rfl (by decide)
    split
    · exact hlt _ rfl (by decide)
    split
    · exact hlt _ rfl (by decide)
    split <;> exact hlt _ rfl (by simp [PutPc.rank])

theorem sections : Sections code (holdsIn Pc.held) (holdsIn Pc.held) fun pc _ => pc.rank where
  held _ _ h := h
  ends pc m h := by
    cases m with
    | fooMutex =>
      cases pc with
      | get pc => exact getCode_ends h
      | put pc => exact putCode_ends h
    | null =>
      cases pc with
      | get pc => cases pc <;> cases h
      | put pc => cases pc <;> cases h
  data _ _ _ _ _ _ _ := Nat.le_refl _
  create _ _ _ _ _ _ _ _ := Nat.le_refl _

theorem Pc.rank_le (pc : Pc) : pc.rank ≤ 6 := by
  cases pc with
  | get pc => cases pc <;> simp [Pc.rank, GetPc.rank]
  | put pc => cases pc <;> simp [Pc.rank, PutPc.rank]

/-- Whoever holds `foo_mutex` releases it within seven steps of its own. -/
theorem foo_mutex_released {s : PoolState} (h : Reachable s) {m : Mutex} {t : Nat} (ho : s.owner m = some t) :
    Released code start s m t 7 := by
  obtain ⟨hexcl, -, -⟩ := h.asserted
  obtain ⟨pc, ht, hpc⟩ := (hexcl.owner m t).mp ho
  exact (sections.released discipline hexcl ht hpc).mono (Nat.succ_le_succ pc.rank_le)

/-- A get sleeps on the empty pool, and a put waits for it. -/
theorem foo_mutex_released_get : ∃ s : PoolState, s.owner .fooMutex = some 1 ∧ Before code s 2 .fooMutex ∧
    Released code start s .fooMutex 1 7 := by
  obtain ⟨s, hr, hs⟩ := Lts.Reach.of_run poolStep (begin PoolSys.single.pool)
    (fun s => s.owner .fooMutex = some 1 ∧ s.threads[2]? = some (.running (.put (.lock 3 1))))
    (.arrive (.get .lock) :: steps 0 5 ++ .arrive (.get .lock) :: steps 1 2 ++ .arrive (.put (.call 3 1)) :: steps 2 2)
    (by decide +kernel)
  obtain ⟨ho, hu⟩ := of_decide_eq_true hs
  exact ⟨s, ho, .inl ⟨_, _, hu, rfl⟩, foo_mutex_released ⟨_, Initialised.single, hr⟩ ho⟩

end PoolSocket

/-! ## The dynamic pool -/

namespace ThreadPool

def WorkerPc.rank : WorkerPc → Nat
  | .woken => 5
  | .test => 4
  | .check => 3
  | .take => 2
  | .broadcast _ => 1
  | .inc _ | .dec => 1
  | _ => 0

def AddPc.rank : AddPc → Nat
  | .test _ => 4
  | .check _ => 3
  | .store _ => 2
  | .signal | .broadcast => 1
  | _ => 0

/-- The growth loop has the slots up to `max` before it. -/
def AdjustPc.rank (max : Int) : AdjustPc → Nat
  | .sample | .busy _ _ | .shrink => 1
  | .grow i _ _ _ => 3 * (max - i).toNat + 1
  | .create i _ _ _ => 3 * (max - (i + 1)).toNat + 3
  | .created i _ _ _ => 3 * (max - (i + 1)).toNat + 2
  | _ => 0

def Pc.rank (pc : Pc) (d : Threadpool) : Nat :=
  match pc with
  | .worker pc => pc.rank
  | .add pc => pc.rank
  | .adjust pc => pc.rank d.maxThrNum
  | .destroy _ => 0

/-- `threadpool_free` releases nothing. -/
def Pc.inside : Pc → Mutex → Bool
  | .destroy _, _ => false
  | pc, m => pc.holds m

theorem workerCode_ends {pc : WorkerPc} {m : Mutex} (h : Pc.inside (.worker pc) m = true) :
    (workerCode pc).Ends Pc.inside Pc.rank m (.worker pc) := by
  cases pc with
  | lock | gone | ended | count | run | done => cases h
  | leave | quit | unlock | counted | uncounted | wait => cases m <;> first | rfl | cases h
  | test | check =>
    cases m with
    | lock => exact ends_branch ⟨rfl, fun d => by simp [Pc.rank, WorkerPc.rank]⟩ ⟨rfl, fun d => by simp [Pc.rank, WorkerPc.rank]⟩
    | threadCounter => cases h
  | woken =>
    cases m with
    | lock =>
      intro t x d
      dsimp only
      split
      · split <;> exact ⟨rfl, by simp [Pc.rank, WorkerPc.rank]⟩
      · exact ⟨rfl, by simp [Pc.rank, WorkerPc.rank]⟩
    | threadCounter => cases h
  | take =>
    cases m with
    | lock => exact fun t x d => ⟨rfl, by simp [Pc.rank, WorkerPc.rank]⟩
    | threadCounter => cases h
  | broadcast task =>
    cases m with
    | lock => exact ⟨rfl, fun d => by simp [Pc.rank, WorkerPc.rank]⟩
    | threadCounter => cases h
  | inc | dec =>
    cases m with
    | lock => cases h
    | threadCounter => exact fun t x d => ⟨rfl, by simp [Pc.rank, WorkerPc.rank]⟩

theorem addCode_ends {pc : AddPc} {m : Mutex} (h : Pc.inside (.add pc) m = true) :
    (addCode pc).Ends Pc.inside Pc.rank m (.add pc) := by
  cases m with
  | threadCounter => cases pc <;> cases h
  | lock =>
    cases pc with
    | lock | returned => cases h
    | wait | refused | stored => rfl
    | test | check =>
      exact ends_branch ⟨rfl, fun d => by simp [Pc.rank, AddPc.rank]⟩ ⟨rfl, fun d => by simp [Pc.rank, AddPc.rank]⟩
    | broadcast | signal => exact ⟨rfl, fun d => by simp [Pc.rank, AddPc.rank]⟩
    | store task => exact fun t x d => ⟨rfl, by simp [Pc.rank, AddPc.rank]⟩

theorem adjustCode_ends {pc : AdjustPc} {m : Mutex} (h : Pc.inside (.adjust pc) m = true) :
    (adjustCode pc).Ends Pc.inside Pc.rank m (.adjust pc) := by
  cases pc with
  | test | sleep | lock | lockCounter | growTest | growLock | shrinkTest | shrinkLock | signals | ended => cases h
  | unlock | unlockCounter | grown | shrunk => cases m <;> first | rfl | cases h
  | sample | shrink =>
    cases m with
    | lock => exact fun t x d => ⟨rfl, by simp [Pc.rank, AdjustPc.rank]⟩
    | threadCounter => cases h
  | busy =>
    cases m with
    | lock => cases h
    | threadCounter => exact fun t x d => ⟨rfl, by simp [Pc.rank, AdjustPc.rank]⟩
  | grow i add l b =>
    cases m with
    | threadCounter => cases h
    | lock =>
      intro t x d
      dsimp only
      split
      case isTrue hloop =>
        -- slot `i` is one of those before the loop
        split
        · refine ⟨rfl, ?_⟩
          simp only [Pc.rank, AdjustPc.rank]
          omega
        · refine ⟨rfl, ?_⟩
          simp only [Pc.rank, AdjustPc.rank]
          omega
      case isFalse => exact ⟨rfl, by simp [Pc.rank, AdjustPc.rank]⟩
  | create i add l b =>
    cases m with
    | threadCounter => cases h
    | lock => exact ⟨rfl, fun t d => by simp [Pc.rank, AdjustPc.rank]⟩
  | created i add l b =>
    cases m with
    | threadCounter => cases h
    | lock => exact fun t x d => ⟨rfl, by simp [Pc.rank, AdjustPc.rank]⟩

theorem runs_maxThrNum {t : Nat} {x : Bool} {d : Threadpool} {pc : Pc} {r : Threadpool × Pc} (h : Runs t x d pc r) :
    r.1.maxThrNum = d.maxThrNum := by
  cases h with
  | store task =>
    obtain ⟨q, hq⟩ := store_frame d task.function task.arg
    rw [hq]
  | _ => rfl

theorem rank_congr (pc : Pc) {d d' : Threadpool} (h : d'.maxThrNum = d.maxThrNum) : pc.rank d' = pc.rank d := by
  unfold Pc.rank
  rw [h]

theorem sections : Sections code Pc.holds Pc.inside Pc.rank where
  held pc m h := by
    cases pc with
    | destroy => cases h
    | _ => exact h
  ends pc m h := by
    cases pc with
    | worker pc => exact workerCode_ends h
    | add pc => exact addCode_ends h
    | adjust pc => exact adjustCode_ends h
    | destroy => cases h
  data pc0 f t x pc d hc := Nat.le_of_eq (rank_congr pc (runs_maxThrNum (runs hc t x d)))
  create pc0 f child k t pc d hc := by
    obtain ⟨i, add, l, b, -, -, -, rfl⟩ := creates hc
    exact Nat.le_of_eq (rank_congr pc rfl)

theorem Pc.rank_le (pc : Pc) (d : Threadpool) : pc.rank d ≤ 3 * d.maxThrNum.toNat + 5 := by
  cases pc with
  | worker pc => cases pc <;> simp [Pc.rank, WorkerPc.rank]
  | add pc => cases pc <;> simp [Pc.rank, AddPc.rank]
  | adjust pc => cases pc <;> simp [Pc.rank, AdjustPc.rank] <;> omega
  | destroy pc => exact Nat.zero_le _

/-! ### What `threadpool_free` keeps -/

/-- A thread in `threadpool_free` that holds `m`. -/
def Keeps (s : PoolState) (m : Mutex) (t : Nat) : Prop :=
  ∃ pc : DestroyPc, s.pcs[t]? = some (.destroy pc) ∧ Pc.holds (.destroy pc) m = true

section
variable {min max qmax : Nat} {s s' : PoolState} {m : Mutex} {t : Nat}

theorem moves_keeps {pc : DestroyPc} {k : Pc} (h : Moves (.destroy pc) k) (hm : Pc.holds (.destroy pc) m = true) :
    ∃ pc', k = .destroy pc' ∧ Pc.holds (.destroy pc') m = true := by
  cases h with
  | wakeAll => cases hm
  | freeLock => cases hm
  | freeLockCounter =>
    cases m with
    | lock => exact ⟨_, rfl, rfl⟩
    | threadCounter => cases hm

theorem runs_keeps {x : Bool} {d : Threadpool} {pc : DestroyPc} {r : Threadpool × Pc} (h : Runs t x d (.destroy pc) r)
    (hm : Pc.holds (.destroy pc) m = true) : ∃ pc', r.2 = .destroy pc' ∧ Pc.holds (.destroy pc') m = true := by
  cases h with
  | call | wakes | woken | freeQueue | freeThreads => cases hm
  | destroyLock | destroyRest | freePool => exact ⟨_, rfl, hm⟩

theorem Keeps.step {a : PoolAct} (h : Keeps s m t) (hs : Step code start s a s') : Keeps s' m t := by
  obtain ⟨pc, hpc, hm⟩ := h
  by_cases hactor : a.actor = some t
  · have hat {u w : Nat} {x : Bool} {pc' : Pc} (ha : a = .run u x w) (hu : s.threads[u]? = some (.running pc')) :
        u = t ∧ pc' = .destroy pc := by
      subst ha
      obtain rfl : u = t := Option.some.inj hactor
      rw [State.pcs_getElem? hu] at hpc
      exact ⟨rfl, Option.some.inj hpc⟩
    have hlt : t < s.pcs.length := (List.getElem?_eq_some_iff.mp hpc).1
    cases hs.effect with
    | quiet hpcs => exact ⟨pc, hpcs ▸ hpc, hm⟩
    | move ha hu hg hpcs =>
      obtain ⟨rfl, rfl⟩ := hat ha hu
      obtain ⟨pc', rfl, hm'⟩ := moves_keeps (moves hg) hm
      exact ⟨pc', by rw [hpcs, List.getElem?_set_self hlt], hm'⟩
    | data ha hu hc hpcs =>
      obtain ⟨rfl, rfl⟩ := hat ha hu
      obtain ⟨pc', hk, hm'⟩ := runs_keeps (runs hc _ _ s.shared) hm
      exact ⟨pc', by rw [hpcs, List.getElem?_set_self hlt, hk], hm'⟩
    | create ha hu hc =>
      obtain ⟨rfl, rfl⟩ := hat ha hu
      obtain ⟨i, add, l, b, he, -⟩ := creates hc
      cases he
    | arrive _ hpcs => exact ⟨pc, by rw [hpcs, List.getElem?_append_left hlt, hpc], hm⟩
  · exact ⟨pc, hs.other_pc hactor hpc, hm⟩

/-- Nobody waits at a position of `threadpool_destroy`. -/
theorem Keeps.owner (h : Keeps s m t) (hexcl : Exclusive code Pc.holds s) : s.owner m = some t := by
  obtain ⟨pc, hpc, hm⟩ := h
  rcases hexcl.running_or_waits hpc with ht | ⟨pc0, c, m', h0⟩
  · exact (hexcl.owner_running ht m).mpr hm
  · rcases waits h0 with ⟨-, -, he⟩ | ⟨task, -, -, he⟩ <;> cases he

/-- Whoever holds a mutex releases it, in a number of steps of its own that the length of
the growth loop bounds; but `threadpool_free` keeps what it has locked, whatever follows. -/
theorem mutex_released (h : Reachable min max qmax s) (ho : s.owner m = some t) :
    ((∀ pc, s.pcs[t]? ≠ some (.destroy pc)) → Released code start s m t (3 * s.shared.maxThrNum.toNat + 6)) ∧
    ((∃ pc, s.pcs[t]? = some (.destroy pc)) → ∀ s', Lts.Reach poolStep s s' → s'.owner m = some t) := by
  obtain ⟨raw, hr⟩ := h
  have hexcl := discipline.reach create_exclusive hr
  obtain ⟨pc, ht, hpc⟩ := (hexcl.owner m t).mp ho
  constructor
  · intro hno
    have hin : pc.inside m = true := by
      cases pc with
      | destroy pc => exact absurd (State.pcs_getElem? ht) (hno pc)
      | _ => exact hpc
    exact (sections.released discipline hexcl ht hin).mono (Nat.succ_le_succ (pc.rank_le s.shared))
  · rintro ⟨pc', hpc'⟩ s' hreach
    obtain rfl : pc = .destroy pc' := Option.some.inj ((State.pcs_getElem? ht).symm.trans hpc')
    have hkeeps : Keeps s' m t :=
      hreach.invariant (P := fun s => Keeps s m t) (fun _ _ _ hk hs => hk.step (step_cases hs)) ⟨pc', hpc', hpc⟩
    exact hkeeps.owner (discipline.reach hexcl hreach)

end

/-- The worker at its test, with the manager behind it; and later the pool is freed with
the mutex locked. -/
theorem mutex_released_freed :
    (∃ s : PoolState, s.owner .lock = some 0 ∧ Before code s 1 .lock ∧ Released code start s .lock 0 9) ∧
    ∃ s : PoolState, s.owner .lock = some 2 ∧ Before code s 0 .lock ∧
      ∀ s', Lts.Reach poolStep s s' → s'.owner .lock = some 2 := by
  constructor
  · obtain ⟨s, hr, hs⟩ := Lts.Reach.of_run poolStep (create 1 1 1 fun _ => {})
      (fun s => s.owner .lock = some 0 ∧ s.threads = [.running (.worker .test), .running (.adjust .lock),
        .running (.destroy .call)] ∧ s.shared.maxThrNum = 1)
      (steps 1 2 ++ steps 0 1) (by decide +kernel)
    obtain ⟨ho, hthreads, hmax⟩ := of_decide_eq_true hs
    have hrel := (mutex_released ⟨_, hr⟩ ho).1 (by simp [State.pcs, hthreads, Status.pc])
    rw [hmax] at hrel
    exact ⟨s, ho, .inl ⟨.adjust .lock, _, by rw [hthreads]; rfl, rfl⟩, hrel⟩
  · obtain ⟨s, hr, hs⟩ := Lts.Reach.of_run poolStep (create 1 1 1 fun _ => {})
      (fun s => s.owner .lock = some 2 ∧ s.threads = [.running (.worker .lock), .running (.adjust .test),
        .running (.destroy .destroyLock)])
      (steps 2 7) (by decide +kernel)
    obtain ⟨ho, hthreads⟩ := of_decide_eq_true hs
    exact ⟨s, ho, .inl ⟨.worker .lock, _, by rw [hthreads]; rfl, rfl⟩,
      (mutex_released ⟨_, hr⟩ ho).2 ⟨.destroyLock, by simp [State.pcs, hthreads, Status.pc]⟩⟩

end ThreadPool

end CSocket
