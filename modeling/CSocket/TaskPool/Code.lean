import CSocket.SimplePool.Code
/-!
# The simple pool with numbered tasks

`threadpoolsimple.c` of the epoll reactor: the workers run `thrRun`, any number of
producers call `addtask`, one thread calls `destroy_threadpool`. A task has a
number; its `arg` is a pointer to its slot, until the worker that copies it points
`arg` to the copy. `ran` is a history.
-/
namespace CSocket.TaskPool
open Pthread SimplePool

/-! ## Data -/

/-- `arg` is a slot of the queue or, `none`, the worker's copy. -/
structure PoolTask where
  tasknum : Int := 0
  arg : Option Nat := none
  deriving DecidableEq, Inhabited

structure Globals where
  beginnum : Int := 1000
  freed : Bool := false
  /-- The calls of `taskRun`: the worker, and the number it saw. -/
  ran : List (Nat × Int) := []
  deriving DecidableEq

abbrev Data := Shared PoolTask Globals

/-- The task that `taskRun`'s parameter points to. -/
def Data.deref (d : Data) (copy : PoolTask) : PoolTask :=
  match copy.arg with
  | none => copy
  | some i => d.pool.tasks.getD i default

/-- The `memcpy` of `thrRun` and `task->arg = task`. -/
def copyTask (slot : PoolTask) : PoolTask := { slot with arg := none }

/-- What `addtask` writes into the slot. -/
def fill (d : Data) : PoolTask × Globals :=
  ({ tasknum := d.env.beginnum, arg := some (d.pool.jobPush.tmod d.pool.maxJobNum).toNat },
    { d.env with beginnum := wrap32 (d.env.beginnum + 1) })

/-! ## Positions -/

inductive TaskPc where
  | start (task : PoolTask)
  | sleep (task : PoolTask)
  deriving DecidableEq

/-- `join i` waits for worker `i`. -/
inductive DestroyPc where
  | call
  | broadcast
  | join (i : Nat)
  | free
  | ended
  deriving DecidableEq

inductive Pc where
  | worker (pc : WorkerPc PoolTask)
  | task (pc : TaskPc)
  | add (pc : AddPc Unit Unit)
  /-- `addtask` returned. -/
  | returned
  | destroy (pc : DestroyPc)
  deriving DecidableEq

/-! ## The code -/

abbrev TaskInstr := Instr Mutex Cond Pc Unit Data

def taskRun : TaskPc → TaskInstr
  | .start task => .data fun me _ d =>
    ({ d with env := { d.env with ran := d.env.ran ++ [(me, (d.deref task).tasknum)] } }, .task (.sleep task))
  | .sleep task => .assign (fun _ d => d) (.worker (.lock task))

def thrRun : WorkerPc PoolTask → TaskInstr :=
  SimplePool.thrRun copyTask .worker fun task => .task (.start task)

def addtask : AddPc Unit Unit → TaskInstr := SimplePool.addtask .add (fun _ => .returned) fun _ d => fill d

/-- `destroy_threadpool` -/
def destroyCode : DestroyPc → TaskInstr
  | .call => .assign (fun _ d => { d with pool := { d.pool with shutdown := true } }) (.destroy .broadcast)
  | .broadcast => .broadcast .notEmptyTask (.destroy (.join 0))
  | .join i => .data fun _ _ d => (d, .destroy (
    if (i : Int) < d.pool.thrNum then if i ∈ d.pool.exited then .join (i + 1) else .join i else .free))
  | .free => .assign (fun _ d => { d with env := { d.env with freed := true } }) (.destroy .ended)
  | .ended => .halt

def code : Pc → TaskInstr
  | .worker pc => thrRun pc
  | .task pc => taskRun pc
  | .add pc => addtask pc
  | .returned => .halt
  | .destroy pc => destroyCode pc

/-- A thread from outside calls `addtask`. -/
def start : Pc → Bool
  | .add (.lock _ _) => true
  | _ => false

/-! ## Runs -/

abbrev PoolState := State Mutex Cond Pc Data

abbrev PoolAct := Act Unit Pc

abbrev poolStep : PoolState → PoolAct → Option PoolState := Pthread.step code start

/-- What `create_threadpool` leaves, and a thread that may call
`destroy_threadpool`. Thread `t < thrnum` is worker `t`. The memory of the queue
and of a worker's copy is not initialised. -/
def create (thrnum maxtasknum : Nat) (raw copy : Nat → PoolTask) : PoolState where
  threads := (List.range thrnum).map (fun t => .running (.worker (.lock (copy t)))) ++ [.running (.destroy .call)]
  owner _ := none
  shared := {
    pool := { maxJobNum := maxtasknum, thrNum := thrnum, tasks := (List.range maxtasknum).map raw }
    env := {} }

def Reachable (thrnum maxtasknum : Nat) (s : PoolState) : Prop :=
  ∃ raw copy, Lts.Reach poolStep (create thrnum maxtasknum raw copy) s

/-- Thread `t` takes `n` steps. -/
def steps (t n : Nat) : List PoolAct := List.replicate n (.run t () 0)

/-- Another thread calls `addtask`. -/
def arrives : PoolAct := .arrive (.add (.lock () ()))

/-! ## Where the mutex is held -/

def Pc.held : Pc → List Mutex
  | .worker pc => pc.held
  | .add pc => pc.held
  | _ => []

theorem discipline : Discipline code start (holdsIn Pc.held) where
  keeps pc := by
    cases pc with
    | worker pc => exact thrRun_keeps Pc.held copyTask .worker (fun task => .task (.start task)) (fun _ => rfl) (fun _ => rfl) pc
    | task pc =>
      cases pc with
      | start => exact fun t x d => rfl
      | sleep => exact keeps_assign rfl
    | add pc => exact addtask_keeps Pc.held .add (fun _ => .returned) (fun _ => rfl) (fun _ => rfl) pc
    | returned => trivial
    | destroy pc =>
      cases pc with
      | call | free => exact keeps_assign rfl
      | broadcast => rfl
      | join => exact fun t x d => rfl
      | ended => trivial
  fresh pc h m := by
    cases pc with
    | add pc => cases pc <;> first | rfl | cases h
    | _ => cases h

/-- What the data instructions do. -/
inductive DataStep (t : Nat) (d : Data) : Pc → Pc → Data → Prop
  | worker {pc pc' pool} : WorkerStep copyTask t d.pool pc pc' pool →
      DataStep t d (.worker pc) (.worker pc') { d with pool }
  | add {pc pc' d'} : AddStep (fun _ d => fill d) d pc pc' d' → DataStep t d (.add pc) (.add pc') d'
  | run {task} : DataStep t d (.task (.start task)) (.task (.sleep task))
      { d with env := { d.env with ran := d.env.ran ++ [(t, (d.deref task).tasknum)] } }
  | done {task} : DataStep t d (.task (.sleep task)) (.worker (.lock task)) d
  | call : DataStep t d (.destroy .call) (.destroy .broadcast) { d with pool := { d.pool with shutdown := true } }
  | joined {i : Nat} : (i : Int) < d.pool.thrNum → i ∈ d.pool.exited →
      DataStep t d (.destroy (.join i)) (.destroy (.join (i + 1))) d
  | joining {i : Nat} : (i : Int) < d.pool.thrNum → i ∉ d.pool.exited →
      DataStep t d (.destroy (.join i)) (.destroy (.join i)) d
  | alone {i : Nat} : d.pool.thrNum ≤ i → DataStep t d (.destroy (.join i)) (.destroy .free) d
  | free : DataStep t d (.destroy .free) (.destroy .ended) { d with env := { d.env with freed := true } }

theorem data_step {pc : Pc} {f : Nat → Unit → Data → Data × Pc} (h : code pc = .data f) (t : Nat) (x : Unit) (d : Data) :
    DataStep t d pc (f t x d).2 (f t x d).1 := by
  cases pc with
  | worker pc =>
    obtain ⟨pc', hpc, hstep, henv⟩ := thrRun_data h t x d
    generalize f t x d = r at hpc hstep henv
    obtain ⟨⟨pool, env⟩, k⟩ := r
    obtain rfl : k = .worker pc' := hpc
    obtain rfl : env = d.env := henv
    exact .worker hstep
  | task pc =>
    cases pc with
    | start task =>
      cases h
      exact .run
    | sleep task =>
      cases h
      exact .done
  | add pc =>
    obtain ⟨pc', hpc, hstep⟩ := addtask_data h t x d
    rw [hpc]
    exact .add hstep
  | returned => cases h
  | destroy pc =>
    cases pc with
    | call =>
      cases h
      exact .call
    | join i =>
      cases h
      dsimp only
      split
      case isTrue hlt =>
        split
        case isTrue hi => exact .joined hlt hi
        case isFalse hi => exact .joining hlt hi
      case isFalse hlt => exact .alone (Int.not_lt.mp hlt)
    | free =>
      cases h
      exact .free
    | _ => cases h

section
variable {s : PoolState} {t : Nat} {pc k : Pc}

theorem exists_data {f : Nat → Unit → Data → Data × Pc} (ht : s.threads[t]? = some (.running pc))
    (hc : code pc = .data f) :
    ∃ s', poolStep s (.run t () 0) = some s' ∧ s'.shared = (f t () s.shared).1 ∧
      s'.threads[t]? = some (.running (f t () s.shared).2) ∧ ∀ u ≠ t, s'.threads[u]? = s.threads[u]? :=
  exists_step_data ht hc ()

theorem exists_signal {c : Cond} (ht : s.threads[t]? = some (.running pc)) (hc : code pc = .signal c k) :
    ∃ w s', poolStep s (.run t () w) = some s' ∧ s'.shared = s.shared ∧ s'.owner = s.owner ∧
      s'.threads[t]? = some (.running k) :=
  exists_step_signal ht hc ()

end

/-! ## Where a pthread call leads -/

inductive Moves : Pc → Pc → Prop
  | lock (task) : Moves (.worker (.lock task)) (.worker (.test task))
  | wait (task) : Moves (.worker (.wait task)) (.worker (.test task))
  | signal (task) : Moves (.worker (.signal task)) (.worker (.shutdown task))
  | quit : Moves (.worker .quit) (.worker .exit)
  | unlock (task) : Moves (.worker (.unlock task)) (.task (.start task))
  | addLock (arg k) : Moves (.add (.lock arg k)) (.add (.test arg k))
  | addWait (arg k) : Moves (.add (.wait arg k)) (.add (.test arg k))
  | addUnlock (k) : Moves (.add (.unlock k)) (.add (.signal k))
  | addSignal (k) : Moves (.add (.signal k)) .returned
  | broadcast : Moves (.destroy .broadcast) (.destroy (.join 0))

theorem moves {pc k : Pc} (h : (code pc).Goes k) : Moves pc k := by
  cases pc with
  | worker pc => cases pc <;> first | (obtain rfl := h; constructor) | exact h.elim
  | task pc => cases pc <;> exact h.elim
  | add pc => cases pc <;> first | (obtain rfl := h; constructor) | exact h.elim
  | returned => exact h.elim
  | destroy pc => cases pc <;> first | (obtain rfl := h; constructor) | exact h.elim

/-- Only workers and producers wait, each in a place of its own. -/
theorem wait_cases {pc k : Pc} {c : Cond} {m : Mutex} (h : code pc = .wait c m k) :
    (∃ task, pc = .worker (.wait task) ∧ c = .notEmptyTask ∧ k = .worker (.test task)) ∨
    ∃ arg k', pc = .add (.wait arg k') ∧ c = .emptyTask ∧ k = .add (.test arg k') := by
  have hmoves : Moves pc k := moves (by rw [h]; rfl)
  cases hmoves with
  | wait task =>
    cases h
    exact .inl ⟨task, rfl, rfl, rfl⟩
  | addWait arg k' =>
    cases h
    exact .inr ⟨arg, k', rfl, rfl, rfl⟩
  | _ => cases h

theorem not_create {pc child k : Pc} {f : Nat → Data → Data} : code pc ≠ .create f child k := by
  intro h
  cases pc with
  | worker pc => cases pc <;> cases h
  | task pc => cases pc <;> cases h
  | add pc => cases pc <;> cases h
  | returned => cases h
  | destroy pc => cases pc <;> cases h

/-! ## The start -/

section
variable {thrnum maxtasknum : Nat} {raw copy : Nat → PoolTask}

theorem create_running {st : Status Mutex Cond Pc} (h : st ∈ (create thrnum maxtasknum raw copy).threads) :
    (∃ task, st = .running (.worker (.lock task))) ∨ st = .running (.destroy .call) := by
  rcases List.mem_append.mp h with h | h
  · obtain ⟨t, -, rfl⟩ := List.mem_map.mp h
    exact .inl ⟨_, rfl⟩
  · exact .inr (List.mem_singleton.mp h)

theorem create_pcs {pc : Pc} (h : pc ∈ (create thrnum maxtasknum raw copy).pcs) :
    (∃ task, pc = .worker (.lock task)) ∨ pc = .destroy .call := by
  obtain ⟨st, hst, rfl⟩ := List.mem_map.mp h
  rcases create_running hst with ⟨task, rfl⟩ | rfl
  · exact .inl ⟨task, rfl⟩
  · exact .inr rfl

theorem create_exclusive : Exclusive code (holdsIn Pc.held) (create thrnum maxtasknum raw copy) := by
  constructor
  · intro m t
    constructor
    · intro h
      cases h
    · rintro ⟨pc, hpc, hh⟩
      rcases create_running (List.mem_of_getElem? hpc) with ⟨task, h⟩ | h <;> cases h <;> cases hh
  · intro st hst
    rcases create_running hst with ⟨task, rfl⟩ | rfl <;> trivial

end

end CSocket.TaskPool
