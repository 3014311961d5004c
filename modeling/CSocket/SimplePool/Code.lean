import CSocket.Lib.Pthread
import CSocket.SimplePool.Queue
/-!
# The simple pool's threads

`thrRun` and `addtask` of `threadpoolsimple.c`, for any type of tasks and any
callback. The copies of the file in the repository have the same `thrRun`; their
`addtask`s differ in what they put into the slot. A worker's position carries its
private copy of a task, which is uninitialised memory up to the first task;
`copy` is what `memcpy` and the assignment to `task->arg` make of a slot.
-/
namespace CSocket.SimplePool
open Pthread

/-- The pool, and what its tasks work on. -/
structure Shared (τ ε : Type) where
  pool : ThreadPool τ
  env : ε

inductive Mutex where
  | poolLock
  deriving DecidableEq

inductive Cond where
  | emptyTask
  | notEmptyTask
  deriving DecidableEq

inductive WorkerPc (τ : Type) where
  | lock (task : τ)
  | test (task : τ)
  | wait (task : τ)
  | check (task : τ)
  | take
  | signal (task : τ)
  | shutdown (task : τ)
  | quit
  /-- Before `pthread_exit`. -/
  | exit
  | ended
  | unlock (task : τ)
  deriving DecidableEq

/-- `α` is what the caller passes to `addtask`, `κ` what it goes on with. -/
inductive AddPc (α κ : Type) where
  | lock (arg : α) (k : κ)
  | test (arg : α) (k : κ)
  | wait (arg : α) (k : κ)
  | store (arg : α) (k : κ)
  | unlock (k : κ)
  | signal (k : κ)
  deriving DecidableEq

section
variable {τ ε α κ ι Pc : Type}

/-- A worker's positions are put into the program by `worker`; its callback begins
at `call task`. -/
def thrRun [Inhabited τ] (copy : τ → τ) (worker : WorkerPc τ → Pc) (call : τ → Pc) :
    WorkerPc τ → Instr Mutex Cond Pc ι (Shared τ ε)
  | .lock task => .lock .poolLock (worker (.test task))
  | .test task =>
    .branch (fun d => d.pool.jobNum ≤ 0 && !d.pool.shutdown) (worker (.wait task)) (worker (.check task))
  | .wait task => .wait .notEmptyTask .poolLock (worker (.test task))
  | .check task => .branch (fun d => d.pool.jobNum ≠ 0) (worker .take) (worker (.shutdown task))
  | .take => .data fun me _ d => ({ d with pool := d.pool.pop me }, worker (.signal (copy d.pool.front)))
  | .signal task => .signal .emptyTask (worker (.shutdown task))
  | .shutdown task => .branch (fun d => d.pool.shutdown) (worker .quit) (worker (.unlock task))
  | .quit => .unlock .poolLock (worker .exit)
  | .exit => .assign (fun me d => { d with pool := { d.pool with exited := d.pool.exited ++ [me] } }) (worker .ended)
  | .ended => .halt
  | .unlock task => .unlock .poolLock (call task)

/-- `fill` gives what is stored; the caller goes on at `ret k`. -/
def addtask (add : AddPc α κ → Pc) (ret : κ → Pc) (fill : α → Shared τ ε → τ × ε) :
    AddPc α κ → Instr Mutex Cond Pc ι (Shared τ ε)
  | .lock arg k => .lock .poolLock (add (.test arg k))
  | .test arg k => .branch (fun d => d.pool.maxJobNum ≤ d.pool.jobNum) (add (.wait arg k)) (add (.store arg k))
  | .wait arg k => .wait .emptyTask .poolLock (add (.test arg k))
  | .store arg k => .assign (fun _ d => ⟨d.pool.push (fill arg d).1, (fill arg d).2⟩) (add (.unlock k))
  | .unlock k => .unlock .poolLock (add (.signal k))
  | .signal k => .signal .notEmptyTask (ret k)

/-! ## What the data instructions do -/

/-- A step of worker `me`. -/
inductive WorkerStep [Inhabited τ] (copy : τ → τ) (me : Nat) (p : ThreadPool τ) :
    WorkerPc τ → WorkerPc τ → ThreadPool τ → Prop
  | sleep {task} : p.jobNum ≤ 0 → p.shutdown = false → WorkerStep copy me p (.test task) (.wait task) p
  | awake {task} : 0 < p.jobNum ∨ p.shutdown = true → WorkerStep copy me p (.test task) (.check task) p
  | some {task} : p.jobNum ≠ 0 → WorkerStep copy me p (.check task) .take p
  | none {task} : p.jobNum = 0 → WorkerStep copy me p (.check task) (.shutdown task) p
  | take : WorkerStep copy me p .take (.signal (copy p.front)) (p.pop me)
  | quit {task} : p.shutdown = true → WorkerStep copy me p (.shutdown task) .quit p
  | stay {task} : p.shutdown = false → WorkerStep copy me p (.shutdown task) (.unlock task) p
  | exit : WorkerStep copy me p .exit .ended { p with exited := p.exited ++ [me] }

theorem thrRun_data [Inhabited τ] {copy : τ → τ} {worker : WorkerPc τ → Pc} {call : τ → Pc} {pc : WorkerPc τ}
    {f : Nat → ι → Shared τ ε → Shared τ ε × Pc}
    (h : thrRun copy worker call pc = (.data f : Instr Mutex Cond Pc ι _)) (t : Nat) (x : ι) (d : Shared τ ε) :
    ∃ pc', (f t x d).2 = worker pc' ∧ WorkerStep copy t d.pool pc pc' (f t x d).1.pool ∧ (f t x d).1.env = d.env := by
  cases pc with
  | test task =>
    cases h
    dsimp only
    split
    case isTrue hc =>
      simp only [Bool.and_eq_true, decide_eq_true_eq, Bool.not_eq_true'] at hc
      exact ⟨_, rfl, .sleep hc.1 hc.2, rfl⟩
    case isFalse hc =>
      refine ⟨_, rfl, .awake ?_, rfl⟩
      simp only [Bool.and_eq_true, decide_eq_true_eq, Bool.not_eq_true', not_and_or, Bool.not_eq_false] at hc
      exact hc.imp_left Int.not_le.mp
  | check task =>
    cases h
    dsimp only
    split
    case isTrue hc => exact ⟨_, rfl, .some (of_decide_eq_true hc), rfl⟩
    case isFalse hc => exact ⟨_, rfl, .none (by simpa using hc), rfl⟩
  | take =>
    cases h
    exact ⟨_, rfl, .take, rfl⟩
  | shutdown task =>
    cases h
    dsimp only
    split
    case isTrue hc => exact ⟨_, rfl, .quit hc, rfl⟩
    case isFalse hc => exact ⟨_, rfl, .stay (Bool.eq_false_iff.mpr hc), rfl⟩
  | exit =>
    cases h
    exact ⟨_, rfl, .exit, rfl⟩
  | _ => cases h

inductive AddStep (fill : α → Shared τ ε → τ × ε) (d : Shared τ ε) : AddPc α κ → AddPc α κ → Shared τ ε → Prop
  | full {arg k} : d.pool.maxJobNum ≤ d.pool.jobNum → AddStep fill d (.test arg k) (.wait arg k) d
  | room {arg k} : d.pool.jobNum < d.pool.maxJobNum → AddStep fill d (.test arg k) (.store arg k) d
  | store {arg k} : AddStep fill d (.store arg k) (.unlock k) ⟨d.pool.push (fill arg d).1, (fill arg d).2⟩

theorem addtask_data {add : AddPc α κ → Pc} {ret : κ → Pc} {fill : α → Shared τ ε → τ × ε} {pc : AddPc α κ}
    {f : Nat → ι → Shared τ ε → Shared τ ε × Pc} (h : addtask add ret fill pc = (.data f : Instr Mutex Cond Pc ι _))
    (t : Nat) (x : ι) (d : Shared τ ε) :
    ∃ pc', (f t x d).2 = add pc' ∧ AddStep fill d pc pc' (f t x d).1 := by
  cases pc with
  | test arg k =>
    cases h
    dsimp only
    split
    case isTrue hc => exact ⟨_, rfl, .full (of_decide_eq_true hc)⟩
    case isFalse hc => exact ⟨_, rfl, .room (by simpa using hc)⟩
  | store arg k =>
    cases h
    exact ⟨_, rfl, .store⟩
  | _ => cases h

/-! ## What the tests establish -/

/-- A task at hand was taken from the queue; without one, the pool shuts down. -/
def WorkerPc.Tested (copy : τ → τ) (p : ThreadPool τ) : WorkerPc τ → Prop
  | .wait _ => p.jobNum ≤ 0
  | .check _ => 0 < p.jobNum ∨ p.shutdown = true
  | .take => p.jobNum ≠ 0
  | .signal task | .unlock task => ∃ x ∈ p.taken, task = copy x.2
  | .shutdown task => (∃ x ∈ p.taken, task = copy x.2) ∨ p.shutdown = true
  | _ => True

def AddPc.Tested (p : ThreadPool τ) : AddPc α κ → Prop
  | .wait _ _ => p.maxJobNum ≤ p.jobNum
  | .store _ _ => p.jobNum < p.maxJobNum
  | _ => True

/-- The queue is one as long as its counters are in the range of an `int`. -/
def ThreadPool.Fifo [Inhabited τ] (p : ThreadPool τ) : Prop := p.stored.length < 2 ^ 31 → p.Sound

section
variable [Inhabited τ] {copy : τ → τ} {me : Nat} {p p' : ThreadPool τ} {pc pc' : WorkerPc τ}

theorem WorkerStep.tested (h : WorkerStep copy me p pc pc' p') (hpc : pc.Tested copy p) : pc'.Tested copy p' := by
  cases h with
  | quit | exit => trivial
  | sleep hc => exact hc
  | awake hc => exact hc
  | some hc => exact hc
  | none hc =>
    right
    rcases hpc with hpos | hshut
    · omega
    · exact hshut
  | take => exact ⟨_, List.mem_append_right _ (List.mem_singleton.mpr rfl), rfl⟩
  | stay hc =>
    rcases hpc with htaken | hshut
    · exact htaken
    · rw [hc] at hshut
      cases hshut

theorem WorkerStep.fifo (h : WorkerStep copy me p pc pc' p') (hpc : pc.Tested copy p) (hp : p.Fifo) :
    p'.Fifo ∧ p'.stored = p.stored := by
  cases h with
  | take =>
    refine ⟨fun hlt => ?_, rfl⟩
    have hsound := hp hlt
    have hpos : p.jobNum ≠ 0 := hpc
    have hnonneg := hsound.nonneg
    exact hsound.pop_sound (by omega) hlt me
  | exit => exact ⟨fun hlt => (hp hlt).congr ⟨rfl, rfl, rfl, rfl, rfl, rfl, rfl, id⟩, rfl⟩
  | _ => exact ⟨hp, rfl⟩

/-- Outside the lock the queue is not touched. -/
theorem WorkerStep.same (h : WorkerStep copy me p pc pc' p') (hne : pc ≠ .take) : p.Same p' := by
  cases h with
  | take => exact absurd rfl hne
  | exit => exact ⟨rfl, rfl, rfl, rfl, rfl, rfl, rfl, id⟩
  | _ => exact .refl p

omit [Inhabited τ] in
theorem WorkerPc.Tested.congr (h : pc.Tested copy p) (hs : p.Same p') : pc.Tested copy p' := by
  unfold WorkerPc.Tested at h ⊢
  rw [hs.jobNum, hs.taken]
  split at h
  · exact h
  · exact h.imp_right hs.shutdown
  · exact h
  · exact h
  · exact h
  · exact h.imp_right hs.shutdown
  · trivial

omit [Inhabited τ] in
theorem AddPc.Tested.congr {add : AddPc α κ} (h : add.Tested p) (hs : p.Same p') : add.Tested p' := by
  unfold AddPc.Tested at h ⊢
  rw [hs.jobNum, hs.maxJobNum]
  exact h

theorem ThreadPool.Fifo.congr (hp : p.Fifo) (hs : p.Same p') : p'.Fifo := by
  intro hlt
  rw [hs.stored] at hlt
  exact (hp hlt).congr hs

theorem ThreadPool.Fifo.push (hp : p.Fifo) (hlt : p.jobNum < p.maxJobNum) (task : τ) : (p.push task).Fifo := by
  intro hrange
  have hlen : p.stored.length + 1 < 2 ^ 31 := by simpa [ThreadPool.push] using hrange
  exact (hp (by omega)).push_sound hlt task hlen

theorem ThreadPool.Sound.mem_stored (h : p.Sound) {x : Nat × τ} (hx : x ∈ p.taken) : x.2 ∈ p.stored := by
  rw [← h.fifo]
  exact List.mem_append_left _ (List.mem_map_of_mem hx)

end

/-! ## Where the mutex is held -/

def WorkerPc.held : WorkerPc τ → List Mutex
  | .lock _ | .exit | .ended => []
  | _ => [.poolLock]

def AddPc.held : AddPc α κ → List Mutex
  | .lock _ _ | .signal _ => []
  | _ => [.poolLock]

/-- Without the lock nothing is established, nor where a wait goes on. -/
theorem WorkerPc.tested_of_unheld {copy : τ → τ} {pc : WorkerPc τ} (h : pc.held = [] ∨ ∃ task, pc = .test task)
    (p : ThreadPool τ) : pc.Tested copy p := by
  cases pc with
  | lock | test | exit | ended | quit => trivial
  | _ => rcases h with h | ⟨task, h⟩ <;> cases h

theorem AddPc.tested_of_unheld {pc : AddPc α κ} (h : pc.held = [] ∨ ∃ arg k, pc = .test arg k) (p : ThreadPool τ) :
    pc.Tested p := by
  cases pc with
  | wait | store => rcases h with h | ⟨arg, k, h⟩ <;> cases h
  | _ => trivial

/-- There is one mutex. -/
theorem unheld_of_apart {held : Pc → List Mutex} {code : Pc → Instr Mutex Cond Pc ι (Shared τ ε)} {pc pc' : Pc}
    (h : Apart code (holdsIn held) pc pc') (hl : holdsIn held pc .poolLock = true) :
    held pc' = [] ∨ ∃ pc0 c m, code pc0 = .wait c m pc' := by
  refine h.imp_left fun hne => ?_
  have hno : ¬ holdsIn held pc' .poolLock = true := fun hl' => hne .poolLock ⟨hl, hl'⟩
  refine List.eq_nil_iff_forall_not_mem.mpr fun m hm => hno ?_
  cases m
  exact List.contains_iff_mem.mpr hm

variable (held : Pc → List Mutex)

theorem thrRun_keeps [Inhabited τ] (copy : τ → τ) (worker : WorkerPc τ → Pc) (call : τ → Pc)
    (hworker : ∀ pc, held (worker pc) = pc.held) (hcall : ∀ task, held (call task) = []) (pc : WorkerPc τ) :
    (thrRun copy worker call pc : Instr Mutex Cond Pc ι (Shared τ ε)).Keeps (holdsIn held) (worker pc) := by
  cases pc with
  | test | check | shutdown =>
    apply keeps_branch <;> rw [hworker, hworker] <;> rfl
  | lock =>
    apply keeps_lock
    rw [hworker, hworker]
    rfl
  | wait =>
    apply keeps_wait <;> rw [hworker] <;> rfl
  | take =>
    intro t x d
    funext m
    simp only [holdsIn, hworker]
    rfl
  | signal =>
    funext m
    simp only [holdsIn, hworker]
    rfl
  | quit =>
    apply keeps_unlock <;> rw [hworker] <;> rfl
  | exit =>
    apply keeps_assign
    rw [hworker, hworker]
    rfl
  | unlock =>
    apply keeps_unlock
    · rw [hworker]
      rfl
    · apply hcall
  | ended => trivial

theorem addtask_keeps (add : AddPc α κ → Pc) (ret : κ → Pc) {fill : α → Shared τ ε → τ × ε}
    (hadd : ∀ pc, held (add pc) = pc.held) (hret : ∀ k, held (ret k) = []) (pc : AddPc α κ) :
    (addtask add ret fill pc : Instr Mutex Cond Pc ι (Shared τ ε)).Keeps (holdsIn held) (add pc) := by
  cases pc with
  | test =>
    apply keeps_branch <;> rw [hadd, hadd] <;> rfl
  | lock =>
    apply keeps_lock
    rw [hadd, hadd]
    rfl
  | wait =>
    apply keeps_wait <;> rw [hadd] <;> rfl
  | store =>
    apply keeps_assign
    rw [hadd, hadd]
    rfl
  | unlock =>
    apply keeps_unlock <;> rw [hadd] <;> rfl
  | signal =>
    funext m
    simp only [holdsIn, hadd, hret]
    rfl

end
end CSocket.SimplePool
