import CSocket.Lib.Pthread
/-!
# The dynamic thread pool

`threadpool.c` of the epoll reactor: the pool's data, and the code of its
threads as positions and instructions (`Pthread.Instr`). Workers run
`threadpool_thread`, producers `threadpool_add`, the manager `adjust_thread`,
and one thread runs `threadpool_destroy`. A `data` instruction is what the code
does between two pthread calls.

`stored`, `taken`, `ran` and `shrinks` are a history the code does not have. The
counters are `Int`s: none of them leaves the range of an `int` here, as each is
bounded by a parameter of the pool.
-/
namespace CSocket.ThreadPool
open Pthread

/-! ## The pool -/

structure ThreadpoolTask where
  function : Nat := 0
  arg : Nat := 0
  deriving DecidableEq

structure Threadpool where
  /-- Thread ids: 0 in a slot not used yet, and `t + 1` for thread `t`. -/
  threads : List Nat
  taskQueue : List ThreadpoolTask
  minThrNum : Int
  maxThrNum : Int
  liveThrNum : Int
  busyThrNum : Int := 0
  waitExitThrNum : Int := 0
  queueFront : Int := 0
  queueRear : Int := 0
  queueSize : Int := 0
  queueMaxSize : Int
  shutdown : Bool := false
  /-- The three blocks that `threadpool_free` releases. -/
  queueFreed : Bool := false
  threadsFreed : Bool := false
  freed : Bool := false
  /-- The tasks stored, the tasks taken and the tasks run, in order, with the
  worker that took or ran them. -/
  stored : List ThreadpoolTask := []
  taken : List (Nat × ThreadpoolTask) := []
  ran : List (Nat × ThreadpoolTask) := []
  /-- How often the manager decided to shrink. -/
  shrinks : Nat := 0
  deriving DecidableEq

def MIN_WAIT_TASK_NUM : Int := 10
def DEFAULT_THREAD_VARY : Nat := 10

inductive Mutex where
  | lock
  | threadCounter
  deriving DecidableEq

inductive Cond where
  | queueNotFull
  | queueNotEmpty
  deriving DecidableEq

namespace Threadpool

def taskAt (d : Threadpool) (i : Int) : ThreadpoolTask := d.taskQueue.getD i.toNat {}

def setTask (d : Threadpool) (i : Int) (task : ThreadpoolTask) : Threadpool :=
  { d with taskQueue := d.taskQueue.set i.toNat task }

/-- The store of `threadpool_add`. -/
def store (d : Threadpool) (function arg : Nat) : Threadpool :=
  let d := if (d.taskAt d.queueRear).arg ≠ 0 then
      d.setTask d.queueRear { d.taskAt d.queueRear with arg := 0 } else d
  let d := d.setTask d.queueRear { d.taskAt d.queueRear with function }
  let d := d.setTask d.queueRear { d.taskAt d.queueRear with arg }
  { d with
    queueRear := (d.queueRear + 1).tmod d.queueMaxSize
    queueSize := d.queueSize + 1
    stored := d.stored ++ [⟨function, arg⟩] }

/-- The dequeue of `threadpool_thread`, by worker `me`. -/
def take (d : Threadpool) (me : Nat) : Threadpool :=
  { d with
    queueFront := (d.queueFront + 1).tmod d.queueMaxSize
    queueSize := d.queueSize - 1
    taken := d.taken ++ [(me, d.taskAt d.queueFront)] }

end Threadpool

/-! ## Positions -/

inductive WorkerPc where
  | lock
  | test
  | wait
  /-- Back from `pthread_cond_wait`: the exit test. -/
  | woken
  /-- The voluntary exit. -/
  | leave
  | gone
  | check
  /-- The exit at shutdown. -/
  | quit
  | ended
  | take
  | broadcast (task : ThreadpoolTask)
  | unlock (task : ThreadpoolTask)
  | count (task : ThreadpoolTask)
  | inc (task : ThreadpoolTask)
  | counted (task : ThreadpoolTask)
  | run (task : ThreadpoolTask)
  | done
  | dec
  | uncounted
  deriving DecidableEq

inductive AddPc where
  | lock (task : ThreadpoolTask)
  | test (task : ThreadpoolTask)
  | wait (task : ThreadpoolTask)
  | check (task : ThreadpoolTask)
  | broadcast
  | refused
  | store (task : ThreadpoolTask)
  | signal
  | stored
  /-- Returned `ret`, having stored its task or not. -/
  | returned (ret : Int) (stored : Bool)
  deriving DecidableEq

/-- `q`, `l` and `b` are the manager's samples of `queue_size`, `live_thr_num`
and `busy_thr_num`; `i` and `add` are its loop variables. -/
inductive AdjustPc where
  | test
  | sleep
  | lock
  | sample
  | unlock (q l : Int)
  | lockCounter (q l : Int)
  | busy (q l : Int)
  | unlockCounter (q l b : Int)
  | growTest (q l b : Int)
  | growLock (l b : Int)
  | grow (i add : Nat) (l b : Int)
  | create (i add : Nat) (l b : Int)
  | created (i add : Nat) (l b : Int)
  | grown (l b : Int)
  | shrinkTest (l b : Int)
  | shrinkLock
  | shrink
  | shrunk
  /-- `n` signals to go. -/
  | signals (n : Nat)
  | ended
  deriving DecidableEq

inductive DestroyPc where
  | call
  | loop (i : Nat)
  | broadcast (i : Nat)
  /-- The entry of `threadpool_free`. -/
  | free
  | freeThreads
  | lock
  | destroyLock
  | lockCounter
  | destroyRest
  | freePool
  | ended
  deriving DecidableEq

inductive Pc where
  | worker (pc : WorkerPc)
  | add (pc : AddPc)
  | adjust (pc : AdjustPc)
  | destroy (pc : DestroyPc)
  deriving DecidableEq

/-! ## The code -/

abbrev PoolInstr := Instr Mutex Cond Pc Bool Threadpool

/-- `threadpool_thread` -/
def workerCode : WorkerPc → PoolInstr
  | .lock => .lock .lock (.worker .test)
  | .test => .branch (fun d => d.queueSize = 0 && !d.shutdown) (.worker .wait) (.worker .check)
  | .wait => .wait .queueNotEmpty .lock (.worker .woken)
  | .woken => .data fun _ _ d =>
    if d.waitExitThrNum > 0 then
      let d := { d with waitExitThrNum := d.waitExitThrNum - 1 }
      if d.liveThrNum > d.minThrNum then ({ d with liveThrNum := d.liveThrNum - 1 }, .worker .leave)
      else (d, .worker .test)
    else (d, .worker .test)
  | .leave => .unlock .lock (.worker .gone)
  | .gone => .halt
  | .check => .branch (fun d => d.shutdown) (.worker .quit) (.worker .take)
  | .quit => .unlock .lock (.worker .ended)
  | .ended => .halt
  | .take => .data fun me _ d => (d.take me, .worker (.broadcast (d.taskAt d.queueFront)))
  | .broadcast task => .broadcast .queueNotFull (.worker (.unlock task))
  | .unlock task => .unlock .lock (.worker (.count task))
  | .count task => .lock .threadCounter (.worker (.inc task))
  | .inc task => .assign (fun _ d => { d with busyThrNum := d.busyThrNum + 1 }) (.worker (.counted task))
  | .counted task => .unlock .threadCounter (.worker (.run task))
  -- the callback returns
  | .run task => .assign (fun me d => { d with ran := d.ran ++ [(me, task)] }) (.worker .done)
  | .done => .lock .threadCounter (.worker .dec)
  | .dec => .assign (fun _ d => { d with busyThrNum := d.busyThrNum - 1 }) (.worker .uncounted)
  | .uncounted => .unlock .threadCounter (.worker .lock)

/-- `threadpool_add` -/
def addCode : AddPc → PoolInstr
  | .lock task => .lock .lock (.add (.test task))
  | .test task => .branch (fun d => d.queueSize = d.queueMaxSize && !d.shutdown) (.add (.wait task)) (.add (.check task))
  | .wait task => .wait .queueNotFull .lock (.add (.test task))
  | .check task => .branch (fun d => d.shutdown) (.add .broadcast) (.add (.store task))
  | .broadcast => .broadcast .queueNotEmpty (.add .refused)
  | .refused => .unlock .lock (.add (.returned 0 false))
  | .store task => .assign (fun _ d => d.store task.function task.arg) (.add .signal)
  | .signal => .signal .queueNotEmpty (.add .stored)
  | .stored => .unlock .lock (.add (.returned 0 true))
  | .returned _ _ => .halt

/-- `adjust_thread`; the input of `grow` is what `is_thread_alive` says of the
slot's thread. -/
def adjustCode : AdjustPc → PoolInstr
  | .test => .branch (fun d => d.shutdown) (.adjust .ended) (.adjust .sleep)
  | .sleep => .assign (fun _ d => d) (.adjust .lock)
  | .lock => .lock .lock (.adjust .sample)
  | .sample => .data fun _ _ d => (d, .adjust (.unlock d.queueSize d.liveThrNum))
  | .unlock q l => .unlock .lock (.adjust (.lockCounter q l))
  | .lockCounter q l => .lock .threadCounter (.adjust (.busy q l))
  | .busy q l => .data fun _ _ d => (d, .adjust (.unlockCounter q l d.busyThrNum))
  | .unlockCounter q l b => .unlock .threadCounter (.adjust (.growTest q l b))
  | .growTest q l b =>
    .branch (fun d => q ≥ MIN_WAIT_TASK_NUM && l < d.maxThrNum) (.adjust (.growLock l b)) (.adjust (.shrinkTest l b))
  | .growLock l b => .lock .lock (.adjust (.grow 0 0 l b))
  | .grow i add l b => .data fun _ alive d =>
    if (i : Int) < d.maxThrNum ∧ add < DEFAULT_THREAD_VARY ∧ d.liveThrNum < d.maxThrNum then
      if d.threads.getD i 0 = 0 ∨ alive = false then (d, .adjust (.create i add l b))
      else (d, .adjust (.grow (i + 1) add l b))
    else (d, .adjust (.grown l b))
  | .create i add l b =>
    .create (fun t d => { d with threads := d.threads.set i (t + 1) }) (.worker .lock) (.adjust (.created i add l b))
  | .created i add l b =>
    .assign (fun _ d => { d with liveThrNum := d.liveThrNum + 1 }) (.adjust (.grow (i + 1) (add + 1) l b))
  | .grown l b => .unlock .lock (.adjust (.shrinkTest l b))
  | .shrinkTest l b => .data fun _ _ d =>
    if b * 2 < l ∧ l > d.minThrNum then ({ d with shrinks := d.shrinks + 1 }, .adjust .shrinkLock)
    else (d, .adjust .test)
  | .shrinkLock => .lock .lock (.adjust .shrink)
  | .shrink => .assign (fun _ d => { d with waitExitThrNum := DEFAULT_THREAD_VARY }) (.adjust .shrunk)
  | .shrunk => .unlock .lock (.adjust (.signals DEFAULT_THREAD_VARY))
  | .signals 0 => .assign (fun _ d => d) (.adjust .test)
  | .signals (n + 1) => .signal .queueNotEmpty (.adjust (.signals n))
  | .ended => .halt

/-- `threadpool_destroy` and, from `free` on, `threadpool_free` -/
def destroyCode : DestroyPc → PoolInstr
  | .call => .assign (fun _ d => { d with shutdown := true }) (.destroy (.loop 0))
  | .loop i => .branch (fun d => (i : Int) < d.liveThrNum) (.destroy (.broadcast i)) (.destroy .free)
  | .broadcast i => .broadcast .queueNotEmpty (.destroy (.loop (i + 1)))
  | .free => .assign (fun _ d => { d with queueFreed := true }) (.destroy .freeThreads)
  | .freeThreads => .assign (fun _ d => { d with threadsFreed := true }) (.destroy .lock)
  | .lock => .lock .lock (.destroy .destroyLock)
  | .destroyLock => .assign (fun _ d => d) (.destroy .lockCounter)
  | .lockCounter => .lock .threadCounter (.destroy .destroyRest)
  | .destroyRest => .assign (fun _ d => d) (.destroy .freePool)
  | .freePool => .assign (fun _ d => { d with freed := true }) (.destroy .ended)
  | .ended => .halt

def code : Pc → PoolInstr
  | .worker pc => workerCode pc
  | .add pc => addCode pc
  | .adjust pc => adjustCode pc
  | .destroy pc => destroyCode pc

/-- Producers come from outside. -/
def start : Pc → Bool
  | .add (.lock _) => true
  | _ => false

/-! ## Runs -/

abbrev PoolState := State Mutex Cond Pc Threadpool

abbrev PoolAct := Act Bool Pc

abbrev poolStep : PoolState → PoolAct → Option PoolState := Pthread.step code start

/-- What `threadpool_create` leaves: `min` workers and the manager about to run,
and a thread that may call `threadpool_destroy`. The queue's memory is not
initialised. -/
def create (min max qmax : Nat) (raw : Nat → ThreadpoolTask) : PoolState where
  threads := List.replicate min (.running (.worker .lock)) ++
    [.running (.adjust .test), .running (.destroy .call)]
  owner _ := none
  shared := {
    threads := (List.range max).map fun i => if i < min then i + 1 else 0
    taskQueue := (List.range qmax).map raw
    minThrNum := min
    maxThrNum := max
    liveThrNum := min
    queueMaxSize := qmax }

def Reachable (min max qmax : Nat) (s : PoolState) : Prop := ∃ raw, Lts.Reach poolStep (create min max qmax raw) s

/-- Thread `t` takes `n` steps. -/
def steps (t n : Nat) : List PoolAct := List.replicate n (.run t true 0)

/-! ## Where the mutexes are held -/

def WorkerPc.held : WorkerPc → List Mutex
  | .test | .wait | .woken | .leave | .check | .quit | .take | .broadcast _ | .unlock _ => [.lock]
  | .inc _ | .counted _ | .dec | .uncounted => [.threadCounter]
  | _ => []

def AddPc.held : AddPc → List Mutex
  | .test _ | .wait _ | .check _ | .broadcast | .refused | .store _ | .signal | .stored => [.lock]
  | _ => []

def AdjustPc.held : AdjustPc → List Mutex
  | .sample | .unlock _ _ | .grow _ _ _ _ | .create _ _ _ _ | .created _ _ _ _ | .grown _ _ | .shrink | .shrunk =>
    [.lock]
  | .busy _ _ | .unlockCounter _ _ _ => [.threadCounter]
  | _ => []

/-- `threadpool_free` never unlocks what it destroys. -/
def DestroyPc.held : DestroyPc → List Mutex
  | .destroyLock | .lockCounter => [.lock]
  | .destroyRest | .freePool | .ended => [.threadCounter, .lock]
  | _ => []

def Pc.held : Pc → List Mutex
  | .worker pc => pc.held
  | .add pc => pc.held
  | .adjust pc => pc.held
  | .destroy pc => pc.held

abbrev Pc.holds : Pc → Mutex → Bool := holdsIn Pc.held

theorem workerCode_keeps (pc : WorkerPc) : (workerCode pc).Keeps Pc.holds (.worker pc) := by
  cases pc with
  | test | check => exact keeps_branch rfl rfl
  | woken =>
    intro t x d
    dsimp only
    split
    · split <;> rfl
    · rfl
  | take => exact fun t x d => rfl
  | inc | run | dec => exact keeps_assign rfl
  | lock | count | done => exact keeps_lock rfl
  | leave | quit | unlock | counted | uncounted => exact keeps_unlock rfl rfl
  | wait => exact keeps_wait rfl rfl
  | broadcast => rfl
  | gone | ended => trivial

theorem addCode_keeps (pc : AddPc) : (addCode pc).Keeps Pc.holds (.add pc) := by
  cases pc with
  | test | check => exact keeps_branch rfl rfl
  | store => exact keeps_assign rfl
  | lock => exact keeps_lock rfl
  | refused | stored => exact keeps_unlock rfl rfl
  | wait => exact keeps_wait rfl rfl
  | broadcast | signal => rfl
  | returned => trivial

theorem adjustCode_keeps (pc : AdjustPc) : (adjustCode pc).Keeps Pc.holds (.adjust pc) := by
  cases pc with
  | test | growTest => exact keeps_branch rfl rfl
  | sleep | created | shrink => exact keeps_assign rfl
  | sample | busy => exact fun t x d => rfl
  | grow i add l b =>
    intro t x d
    dsimp only
    split
    · split <;> rfl
    · rfl
  | shrinkTest l b =>
    intro t x d
    dsimp only
    split <;> rfl
  | create => exact ⟨fun m => by cases m <;> rfl, rfl⟩
  | lock | lockCounter | growLock | shrinkLock => exact keeps_lock rfl
  | unlock | unlockCounter | grown | shrunk => exact keeps_unlock rfl rfl
  | signals n =>
    cases n with
    | zero => exact keeps_assign rfl
    | succ n => rfl
  | ended => trivial

theorem destroyCode_keeps (pc : DestroyPc) : (destroyCode pc).Keeps Pc.holds (.destroy pc) := by
  cases pc with
  | loop => exact keeps_branch rfl rfl
  | call | free | freeThreads | destroyLock | destroyRest | freePool => exact keeps_assign rfl
  | lock | lockCounter => exact keeps_lock rfl
  | broadcast => rfl
  | ended => trivial

theorem discipline : Discipline code start Pc.holds where
  keeps pc := by
    cases pc with
    | worker pc => exact workerCode_keeps pc
    | add pc => exact addCode_keeps pc
    | adjust pc => exact adjustCode_keeps pc
    | destroy pc => exact destroyCode_keeps pc
  fresh pc h m := by
    cases pc with
    | add pc => cases pc <;> first | rfl | cases h
    | _ => cases h

/-! ## The start -/

section
variable {min max qmax : Nat} {raw : Nat → ThreadpoolTask}

theorem create_running {st : Status Mutex Cond Pc} (h : st ∈ (create min max qmax raw).threads) :
    st = .running (.worker .lock) ∨ st = .running (.adjust .test) ∨ st = .running (.destroy .call) := by
  rcases List.mem_append.mp h with h | h
  · exact .inl (List.mem_replicate.mp h).2
  · exact .inr (List.mem_pair.mp h)

theorem create_pcs {pc : Pc} (h : pc ∈ (create min max qmax raw).pcs) :
    pc = .worker .lock ∨ pc = .adjust .test ∨ pc = .destroy .call := by
  obtain ⟨st, hst, rfl⟩ := List.mem_map.mp h
  rcases create_running hst with rfl | rfl | rfl
  · exact .inl rfl
  · exact .inr (.inl rfl)
  · exact .inr (.inr rfl)

theorem create_exclusive : Exclusive code Pc.holds (create min max qmax raw) := by
  constructor
  · intro m t
    constructor
    · intro h
      cases h
    · rintro ⟨pc, hpc, hh⟩
      rcases create_running (List.mem_of_getElem? hpc) with h | h | h <;> cases h <;> cases hh
  · intro st hst
    rcases create_running hst with rfl | rfl | rfl <;> trivial

end

end CSocket.ThreadPool
