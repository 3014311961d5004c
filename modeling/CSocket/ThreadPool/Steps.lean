import CSocket.ThreadPool.Code
/-!
# What the instructions do

The inversions of `code`: where a thread goes on after a pthread call (`Moves`), what a
data instruction does on each of its branches (`Runs`), and who calls `pthread_cond_wait`
and `pthread_create` (`waits`, `creates`). The invariants are case analyses over these.
-/
namespace CSocket.ThreadPool
open Pthread

/-- The store changes the queue only. -/
theorem store_frame (d : Threadpool) (function arg : Nat) : ∃ taskQueue, d.store function arg = { d with
    taskQueue
    queueRear := (d.queueRear + 1).tmod d.queueMaxSize
    queueSize := d.queueSize + 1
    stored := d.stored ++ [⟨function, arg⟩] } := by
  unfold Threadpool.store
  split <;> exact ⟨_, rfl⟩

/-! ## Moves -/

inductive Moves : Pc → Pc → Prop
  -- `threadpool_thread`
  | enter : Moves (.worker .lock) (.worker .test)
  | wait : Moves (.worker .wait) (.worker .woken)
  | leave : Moves (.worker .leave) (.worker .gone)
  | quit : Moves (.worker .quit) (.worker .ended)
  | broadcast (task) : Moves (.worker (.broadcast task)) (.worker (.unlock task))
  | unlock (task) : Moves (.worker (.unlock task)) (.worker (.count task))
  | count (task) : Moves (.worker (.count task)) (.worker (.inc task))
  | counted (task) : Moves (.worker (.counted task)) (.worker (.run task))
  | done : Moves (.worker .done) (.worker .dec)
  | uncounted : Moves (.worker .uncounted) (.worker .lock)
  -- `threadpool_add`
  | add (task) : Moves (.add (.lock task)) (.add (.test task))
  | addWait (task) : Moves (.add (.wait task)) (.add (.test task))
  | refuse : Moves (.add .broadcast) (.add .refused)
  | refused : Moves (.add .refused) (.add (.returned 0 false))
  | signal : Moves (.add .signal) (.add .stored)
  | stored : Moves (.add .stored) (.add (.returned 0 true))
  -- `adjust_thread`
  | lock : Moves (.adjust .lock) (.adjust .sample)
  | sampled (q l) : Moves (.adjust (.unlock q l)) (.adjust (.lockCounter q l))
  | lockCounter (q l) : Moves (.adjust (.lockCounter q l)) (.adjust (.busy q l))
  | unlockCounter (q l b) : Moves (.adjust (.unlockCounter q l b)) (.adjust (.growTest q l b))
  | growLock (l b) : Moves (.adjust (.growLock l b)) (.adjust (.grow 0 0 l b))
  | grown (l b) : Moves (.adjust (.grown l b)) (.adjust (.shrinkTest l b))
  | shrinkLock : Moves (.adjust .shrinkLock) (.adjust .shrink)
  | shrunk : Moves (.adjust .shrunk) (.adjust (.signals DEFAULT_THREAD_VARY))
  | signals (n) : Moves (.adjust (.signals (n + 1))) (.adjust (.signals n))
  -- `threadpool_destroy` and `threadpool_free`
  | wakeAll (i) : Moves (.destroy (.broadcast i)) (.destroy (.loop (i + 1)))
  | freeLock : Moves (.destroy .lock) (.destroy .destroyLock)
  | freeLockCounter : Moves (.destroy .lockCounter) (.destroy .destroyRest)

theorem moves {pc k : Pc} (h : (code pc).Goes k) : Moves pc k := by
  cases pc with
  | worker pc => cases pc <;> first | (obtain rfl := h; constructor) | exact h.elim
  | add pc => cases pc <;> first | (obtain rfl := h; constructor) | exact h.elim
  | adjust pc =>
    cases pc with
    | signals n => cases n <;> first | (obtain rfl := h; constructor) | exact h.elim
    | _ => first | (obtain rfl := h; constructor) | exact h.elim
  | destroy pc => cases pc <;> first | (obtain rfl := h; constructor) | exact h.elim

/-- Workers wait for `queue_not_empty`, producers for `queue_not_full`. -/
theorem waits {pc k : Pc} {c : Cond} {m : Mutex} (h : code pc = .wait c m k) :
    (pc = .worker .wait ∧ c = .queueNotEmpty ∧ k = .worker .woken) ∨
    ∃ task, pc = .add (.wait task) ∧ c = .queueNotFull ∧ k = .add (.test task) := by
  have hmoves : Moves pc k := moves (by rw [h]; rfl)
  cases hmoves with
  | wait =>
    cases h
    exact .inl ⟨rfl, rfl, rfl⟩
  | addWait task =>
    cases h
    exact .inr ⟨task, rfl, rfl, rfl⟩
  | _ => cases h

/-! ## Data -/

/-- What thread `t` does to the data, and where it goes on; `x` is what
`is_thread_alive` says. -/
inductive Runs (t : Nat) (x : Bool) (d : Threadpool) : Pc → Threadpool × Pc → Prop
  -- `threadpool_thread`
  | idle : d.queueSize = 0 → d.shutdown = false → Runs t x d (.worker .test) (d, .worker .wait)
  | checks : d.queueSize ≠ 0 ∨ d.shutdown = true → Runs t x d (.worker .test) (d, .worker .check)
  | leaves : 0 < d.waitExitThrNum → d.minThrNum < d.liveThrNum → Runs t x d (.worker .woken)
      ({ d with waitExitThrNum := d.waitExitThrNum - 1, liveThrNum := d.liveThrNum - 1 }, .worker .leave)
  | stays : 0 < d.waitExitThrNum → d.liveThrNum ≤ d.minThrNum →
      Runs t x d (.worker .woken) ({ d with waitExitThrNum := d.waitExitThrNum - 1 }, .worker .test)
  | retests : d.waitExitThrNum ≤ 0 → Runs t x d (.worker .woken) (d, .worker .test)
  | quits : d.shutdown = true → Runs t x d (.worker .check) (d, .worker .quit)
  | goesOn : d.shutdown = false → Runs t x d (.worker .check) (d, .worker .take)
  | take : Runs t x d (.worker .take) (d.take t, .worker (.broadcast (d.taskAt d.queueFront)))
  | inc (task) : Runs t x d (.worker (.inc task)) ({ d with busyThrNum := d.busyThrNum + 1 }, .worker (.counted task))
  | run (task) : Runs t x d (.worker (.run task)) ({ d with ran := d.ran ++ [(t, task)] }, .worker .done)
  | dec : Runs t x d (.worker .dec) ({ d with busyThrNum := d.busyThrNum - 1 }, .worker .uncounted)
  -- `threadpool_add`
  | full (task) : d.queueSize = d.queueMaxSize → d.shutdown = false →
      Runs t x d (.add (.test task)) (d, .add (.wait task))
  | room (task) : d.queueSize ≠ d.queueMaxSize ∨ d.shutdown = true →
      Runs t x d (.add (.test task)) (d, .add (.check task))
  | refuses (task) : d.shutdown = true → Runs t x d (.add (.check task)) (d, .add .broadcast)
  | accepts (task) : d.shutdown = false → Runs t x d (.add (.check task)) (d, .add (.store task))
  | store (task) : Runs t x d (.add (.store task)) (d.store task.function task.arg, .add .signal)
  -- `adjust_thread`
  | ends : d.shutdown = true → Runs t x d (.adjust .test) (d, .adjust .ended)
  | sleeps : d.shutdown = false → Runs t x d (.adjust .test) (d, .adjust .sleep)
  | sleep : Runs t x d (.adjust .sleep) (d, .adjust .lock)
  | sample : Runs t x d (.adjust .sample) (d, .adjust (.unlock d.queueSize d.liveThrNum))
  | busy (q l) : Runs t x d (.adjust (.busy q l)) (d, .adjust (.unlockCounter q l d.busyThrNum))
  | grows (q l b) : MIN_WAIT_TASK_NUM ≤ q → l < d.maxThrNum →
      Runs t x d (.adjust (.growTest q l b)) (d, .adjust (.growLock l b))
  | suffices (q l b) : q < MIN_WAIT_TASK_NUM ∨ d.maxThrNum ≤ l →
      Runs t x d (.adjust (.growTest q l b)) (d, .adjust (.shrinkTest l b))
  | free (i add : Nat) (l b) : (i : Int) < d.maxThrNum → add < DEFAULT_THREAD_VARY → d.liveThrNum < d.maxThrNum →
      d.threads.getD i 0 = 0 ∨ x = false → Runs t x d (.adjust (.grow i add l b)) (d, .adjust (.create i add l b))
  | taken (i add : Nat) (l b) : (i : Int) < d.maxThrNum → add < DEFAULT_THREAD_VARY → d.liveThrNum < d.maxThrNum →
      d.threads.getD i 0 ≠ 0 → x = true → Runs t x d (.adjust (.grow i add l b)) (d, .adjust (.grow (i + 1) add l b))
  | grown (i add : Nat) (l b) : ¬ ((i : Int) < d.maxThrNum ∧ add < DEFAULT_THREAD_VARY ∧ d.liveThrNum < d.maxThrNum) →
      Runs t x d (.adjust (.grow i add l b)) (d, .adjust (.grown l b))
  | created (i add l b) : Runs t x d (.adjust (.created i add l b))
      ({ d with liveThrNum := d.liveThrNum + 1 }, .adjust (.grow (i + 1) (add + 1) l b))
  | shrinks (l b) : b * 2 < l → d.minThrNum < l →
      Runs t x d (.adjust (.shrinkTest l b)) ({ d with shrinks := d.shrinks + 1 }, .adjust .shrinkLock)
  | keeps (l b) : ¬ (b * 2 < l ∧ d.minThrNum < l) → Runs t x d (.adjust (.shrinkTest l b)) (d, .adjust .test)
  | shrink : Runs t x d (.adjust .shrink) ({ d with waitExitThrNum := DEFAULT_THREAD_VARY }, .adjust .shrunk)
  | signalled : Runs t x d (.adjust (.signals 0)) (d, .adjust .test)
  -- `threadpool_destroy` and `threadpool_free`
  | call : Runs t x d (.destroy .call) ({ d with shutdown := true }, .destroy (.loop 0))
  | wakes (i : Nat) : (i : Int) < d.liveThrNum → Runs t x d (.destroy (.loop i)) (d, .destroy (.broadcast i))
  | woken (i : Nat) : d.liveThrNum ≤ (i : Int) → Runs t x d (.destroy (.loop i)) (d, .destroy .free)
  | freeQueue : Runs t x d (.destroy .free) ({ d with queueFreed := true }, .destroy .freeThreads)
  | freeThreads : Runs t x d (.destroy .freeThreads) ({ d with threadsFreed := true }, .destroy .lock)
  | destroyLock : Runs t x d (.destroy .destroyLock) (d, .destroy .lockCounter)
  | destroyRest : Runs t x d (.destroy .destroyRest) (d, .destroy .freePool)
  | freePool : Runs t x d (.destroy .freePool) ({ d with freed := true }, .destroy .ended)

section
variable {f : Nat → Bool → Threadpool → Threadpool × Pc}

theorem worker_runs {pc : WorkerPc} (h : workerCode pc = .data f) (t : Nat) (x : Bool) (d : Threadpool) :
    Runs t x d (.worker pc) (f t x d) := by
  cases pc with
  | test =>
    cases h
    dsimp only
    split
    case isTrue hidle =>
      obtain ⟨hsize, hdown⟩ : d.queueSize = 0 ∧ d.shutdown = false := by simpa using hidle
      exact .idle hsize hdown
    case isFalse hbusy =>
      refine .checks ?_
      by_cases hsize : d.queueSize = 0
      · exact .inr (by simpa [hsize] using hbusy)
      · exact .inl hsize
  | woken =>
    cases h
    dsimp only
    split
    case isTrue hw =>
      split
      case isTrue hl => exact .leaves hw hl
      case isFalse hl => exact .stays hw (Int.not_lt.mp hl)
    case isFalse hw => exact .retests (Int.not_lt.mp hw)
  | check =>
    cases h
    dsimp only
    split
    case isTrue hd => exact .quits hd
    case isFalse hd => exact .goesOn (Bool.not_eq_true _ ▸ hd)
  | take | inc | run | dec =>
    cases h
    constructor
  | _ => cases h

theorem add_runs {pc : AddPc} (h : addCode pc = .data f) (t : Nat) (x : Bool) (d : Threadpool) :
    Runs t x d (.add pc) (f t x d) := by
  cases pc with
  | test task =>
    cases h
    dsimp only
    split
    case isTrue hfull =>
      obtain ⟨hsize, hdown⟩ : d.queueSize = d.queueMaxSize ∧ d.shutdown = false := by simpa using hfull
      exact .full task hsize hdown
    case isFalse hroom =>
      refine .room task ?_
      by_cases hsize : d.queueSize = d.queueMaxSize
      · exact .inr (by simpa [hsize] using hroom)
      · exact .inl hsize
  | check task =>
    cases h
    dsimp only
    split
    case isTrue hd => exact .refuses task hd
    case isFalse hd => exact .accepts task (Bool.not_eq_true _ ▸ hd)
  | store task =>
    cases h
    exact .store task
  | _ => cases h

theorem adjust_runs {pc : AdjustPc} (h : adjustCode pc = .data f) (t : Nat) (x : Bool) (d : Threadpool) :
    Runs t x d (.adjust pc) (f t x d) := by
  cases pc with
  | test =>
    cases h
    dsimp only
    split
    case isTrue hd => exact .ends hd
    case isFalse hd => exact .sleeps (Bool.not_eq_true _ ▸ hd)
  | growTest q l b =>
    cases h
    dsimp only
    split
    case isTrue hg =>
      obtain ⟨hq, hl⟩ : MIN_WAIT_TASK_NUM ≤ q ∧ l < d.maxThrNum := by simpa using hg
      exact .grows q l b hq hl
    case isFalse hg =>
      refine .suffices q l b ?_
      by_cases hq : q < MIN_WAIT_TASK_NUM
      · exact .inl hq
      · exact .inr (by simpa [Int.not_lt.mp hq] using hg)
  | grow i add l b =>
    cases h
    dsimp only
    split
    case isTrue ht =>
      obtain ⟨hi, hadd, hlive⟩ := ht
      split
      case isTrue hfree => exact .free i add l b hi hadd hlive hfree
      case isFalse hbusy =>
        obtain ⟨hslot, hx⟩ := not_or.mp hbusy
        exact .taken i add l b hi hadd hlive hslot (Bool.not_eq_false _ ▸ hx)
    case isFalse ht => exact .grown i add l b ht
  | shrinkTest l b =>
    cases h
    dsimp only
    split
    case isTrue hs => exact .shrinks l b hs.1 hs.2
    case isFalse hs => exact .keeps l b hs
  | signals n =>
    cases n with
    | zero =>
      cases h
      exact .signalled
    | succ n => cases h
  | sleep | sample | busy | created | shrink =>
    cases h
    constructor
  | _ => cases h

theorem destroy_runs {pc : DestroyPc} (h : destroyCode pc = .data f) (t : Nat) (x : Bool) (d : Threadpool) :
    Runs t x d (.destroy pc) (f t x d) := by
  cases pc with
  | loop i =>
    cases h
    dsimp only
    split
    case isTrue hi => exact .wakes i (of_decide_eq_true hi)
    case isFalse hi => exact .woken i (Int.not_lt.mp fun hlt => hi (decide_eq_true hlt))
  | call | free | freeThreads | destroyLock | destroyRest | freePool =>
    cases h
    constructor
  | _ => cases h

theorem runs {pc : Pc} (h : code pc = .data f) (t : Nat) (x : Bool) (d : Threadpool) : Runs t x d pc (f t x d) := by
  cases pc with
  | worker pc => exact worker_runs h t x d
  | add pc => exact add_runs h t x d
  | adjust pc => exact adjust_runs h t x d
  | destroy pc => exact destroy_runs h t x d

end

/-! ## Creation -/

/-- `pthread_create` is called in the growth loop, and starts a worker. -/
theorem creates {pc child k : Pc} {f : Nat → Threadpool → Threadpool} (h : code pc = .create f child k) :
    ∃ i add l b, pc = .adjust (.create i add l b) ∧ k = .adjust (.created i add l b) ∧ child = .worker .lock ∧
      f = fun t d => { d with threads := d.threads.set i (t + 1) } := by
  cases pc with
  | adjust pc =>
    cases pc with
    | create i add l b =>
      cases h
      exact ⟨i, add, l, b, rfl, rfl, rfl, rfl⟩
    | signals n => cases n <;> cases h
    | _ => cases h
  | worker pc => cases pc <;> cases h
  | add pc => cases pc <;> cases h
  | destroy pc => cases pc <;> cases h

end CSocket.ThreadPool
