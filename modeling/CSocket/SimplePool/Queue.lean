import CSocket.Lib.Ring
/-!
# The simple pool's queue

The data of `threadpoolsimple.c`'s pool and its two operations. `job_push` and
`job_pop` are counters that only grow, reduced modulo `max_job_num` where they
index; as `int`s they wrap. `stored`, `taken` and `exited` are a history.
-/
namespace CSocket.SimplePool

/-- An `int` after an increment. -/
def wrap32 (x : Int) : Int := Int.bmod x (2 ^ 32)

/-- `τ` is the type of the tasks. -/
structure ThreadPool (τ : Type) where
  maxJobNum : Int
  jobNum : Int := 0
  tasks : List τ
  jobPush : Int := 0
  jobPop : Int := 0
  thrNum : Int := 0
  shutdown : Bool := false
  stored : List τ := []
  /-- The tasks taken, with the worker that took them. -/
  taken : List (Nat × τ) := []
  /-- The workers that called `pthread_exit`. -/
  exited : List Nat := []

namespace ThreadPool
variable {τ : Type}

/-- The store of `addtask`. A negative position, which only a wrapped counter
gives, is outside the array. -/
def push (p : ThreadPool τ) (task : τ) : ThreadPool τ :=
  { p with
    tasks := p.tasks.set (p.jobPush.tmod p.maxJobNum).toNat task
    jobPush := wrap32 (p.jobPush + 1)
    jobNum := p.jobNum + 1
    stored := p.stored ++ [task] }

section
variable (p : ThreadPool τ) (task : τ)

@[simp] theorem push_maxJobNum : (p.push task).maxJobNum = p.maxJobNum := rfl
@[simp] theorem push_jobNum : (p.push task).jobNum = p.jobNum + 1 := rfl
@[simp] theorem push_jobPush : (p.push task).jobPush = wrap32 (p.jobPush + 1) := rfl
@[simp] theorem push_jobPop : (p.push task).jobPop = p.jobPop := rfl
@[simp] theorem push_stored : (p.push task).stored = p.stored ++ [task] := rfl
@[simp] theorem push_taken : (p.push task).taken = p.taken := rfl

end

variable [Inhabited τ]

/-- The task that `thrRun` copies. -/
def front (p : ThreadPool τ) : τ := p.tasks.getD (p.jobPop.tmod p.maxJobNum).toNat default

/-- The dequeue of worker `me`. -/
def pop (p : ThreadPool τ) (me : Nat) : ThreadPool τ :=
  { p with jobPop := wrap32 (p.jobPop + 1), jobNum := p.jobNum - 1, taken := p.taken ++ [(me, p.front)] }

section
variable (p : ThreadPool τ) (me : Nat)

@[simp] theorem pop_maxJobNum : (p.pop me).maxJobNum = p.maxJobNum := rfl
@[simp] theorem pop_jobNum : (p.pop me).jobNum = p.jobNum - 1 := rfl
@[simp] theorem pop_jobPush : (p.pop me).jobPush = p.jobPush := rfl
@[simp] theorem pop_jobPop : (p.pop me).jobPop = wrap32 (p.jobPop + 1) := rfl
@[simp] theorem pop_stored : (p.pop me).stored = p.stored := rfl
@[simp] theorem pop_taken : (p.pop me).taken = p.taken ++ [(me, p.front)] := rfl

end

/-- The `job_num` tasks from `job_pop` on. -/
def pending (p : ThreadPool τ) : List τ :=
  Ring.contents (fun i => p.tasks.getD i default) p.maxJobNum.toNat p.jobPop.toNat p.jobNum.toNat

/-! ## A queue -/

structure Sound (p : ThreadPool τ) : Prop where
  cells : p.tasks.length = p.maxJobNum.toNat
  push : p.jobPush = p.stored.length
  pop : p.jobPop = p.taken.length
  num : p.jobPop + p.jobNum = p.jobPush
  nonneg : 0 ≤ p.jobNum
  le : p.jobNum ≤ p.maxJobNum
  fifo : p.taken.map Prod.snd ++ p.pending = p.stored

/-- The queue and its history are the same; `shutdown` may have been set. -/
structure Same (p p' : ThreadPool τ) : Prop where
  maxJobNum : p'.maxJobNum = p.maxJobNum
  jobNum : p'.jobNum = p.jobNum
  tasks : p'.tasks = p.tasks
  jobPush : p'.jobPush = p.jobPush
  jobPop : p'.jobPop = p.jobPop
  stored : p'.stored = p.stored
  taken : p'.taken = p.taken
  shutdown : p.shutdown = true → p'.shutdown = true

omit [Inhabited τ] in
theorem Same.refl (p : ThreadPool τ) : p.Same p := ⟨rfl, rfl, rfl, rfl, rfl, rfl, rfl, id⟩

theorem Sound.congr {p p' : ThreadPool τ} (h : p.Sound) (hs : p.Same p') : p'.Sound where
  cells := by rw [hs.maxJobNum, hs.tasks, h.cells]
  push := by rw [hs.jobPush, hs.stored, h.push]
  pop := by rw [hs.jobPop, hs.taken, h.pop]
  num := by rw [hs.jobPush, hs.jobPop, hs.jobNum, h.num]
  nonneg := hs.jobNum ▸ h.nonneg
  le := by
    rw [hs.maxJobNum, hs.jobNum]
    exact h.le
  fifo := by
    rw [pending, hs.maxJobNum, hs.tasks, hs.jobPop, hs.jobNum, hs.stored, hs.taken]
    exact h.fifo

theorem wrap32_eq {x : Int} (h0 : 0 ≤ x) (h : x < 2 ^ 31) : wrap32 x = x := by
  apply Int.bmod_eq_of_le <;> omega

/-- The cell of a counter that has not wrapped. -/
theorem toNat_tmod {x m : Int} (hx : 0 ≤ x) (hm : 0 ≤ m) : (x.tmod m).toNat = x.toNat % m.toNat := by
  rw [Int.tmod_eq_emod_of_nonneg hx, Int.toNat_emod hx hm]

variable {p : ThreadPool τ}

theorem pending_push (h : p.Sound) (hlt : p.jobNum < p.maxJobNum) (task : τ) :
    (p.push task).pending = p.pending ++ [task] := by
  have hnum := h.num
  have hnonneg := h.nonneg
  have hpop := h.pop
  have hpush : p.jobPush.toNat = p.jobPop.toNat + p.jobNum.toNat := by omega
  have hrear : (p.jobPush.tmod p.maxJobNum).toNat = (p.jobPop.toNat + p.jobNum.toNat) % p.maxJobNum.toNat := by
    rw [toNat_tmod (by omega) (by omega), hpush]
  have hcell : (p.jobPush.tmod p.maxJobNum).toNat < p.tasks.length := by
    rw [h.cells, hrear]
    exact Nat.mod_lt _ (by omega)
  have hsize : (p.push task).jobNum.toNat = p.jobNum.toNat + 1 := by
    rw [push_jobNum]
    omega
  have hring := Ring.contents_push (fun i => p.tasks.getD i default) (fun i => (p.push task).tasks.getD i default)
    p.jobPop.toNat (show p.jobNum.toNat < p.maxJobNum.toNat by omega) (fun i hi => by
      rw [← hrear] at hi
      simp [push, List.getD_eq_getElem?_getD, List.getElem?_set_ne (Ne.symm hi)])
  rw [pending, hsize]
  refine hring.trans ?_
  rw [← hrear]
  simp [pending, push, List.getD_eq_getElem?_getD, hcell]

theorem pending_pop (h : p.Sound) (hpos : 0 < p.jobNum) (hrange : p.stored.length < 2 ^ 31)
    (me : Nat) : p.pending = p.front :: (p.pop me).pending := by
  have hnum := h.num
  have hpush := h.push
  have hpop := h.pop
  have hle := h.le
  obtain ⟨n, hsize⟩ : ∃ n, p.jobNum.toNat = n + 1 := ⟨p.jobNum.toNat - 1, by omega⟩
  have hsize' : (p.pop me).jobNum.toNat = n := by
    rw [pop_jobNum]
    omega
  have hwrap : (p.pop me).jobPop.toNat = p.jobPop.toNat + 1 := by
    rw [pop_jobPop, wrap32_eq (by omega) (by omega)]
    omega
  rw [pending, hsize, Ring.contents_pop, Ring.contents_mod, pending, hsize', hwrap, front,
    toNat_tmod (by omega) (by omega)]
  rfl

/-- Every task that is added is pending, in order. -/
theorem Sound.push_sound (h : p.Sound) (hlt : p.jobNum < p.maxJobNum) (task : τ)
    (hrange : p.stored.length + 1 < 2 ^ 31) : (p.push task).Sound := by
  have hnum := h.num
  have hpush := h.push
  have hnonneg := h.nonneg
  have hwrap : (p.push task).jobPush = p.jobPush + 1 := wrap32_eq (by omega) (by omega)
  constructor
  · simpa [ThreadPool.push] using h.cells
  · rw [hwrap]
    simp [ThreadPool.push, hpush]
  · exact h.pop
  · rw [hwrap, push_jobPop, push_jobNum]
    omega
  · rw [push_jobNum]
    omega
  · rw [push_jobNum, push_maxJobNum]
    omega
  · rw [pending_push h hlt, ← List.append_assoc, push_taken, push_stored, h.fifo]

theorem Sound.pop_sound (h : p.Sound) (hpos : 0 < p.jobNum) (hrange : p.stored.length < 2 ^ 31) (me : Nat) :
    (p.pop me).Sound := by
  have hnum := h.num
  have hpush := h.push
  have hpop := h.pop
  have hle := h.le
  have hwrap : (p.pop me).jobPop = p.jobPop + 1 := wrap32_eq (by omega) (by omega)
  constructor
  · exact h.cells
  · exact h.push
  · rw [hwrap]
    simp [ThreadPool.pop, hpop]
  · rw [hwrap, pop_jobNum, pop_jobPush]
    omega
  · rw [pop_jobNum]
    omega
  · rw [pop_jobNum, pop_maxJobNum]
    omega
  · have hfifo := h.fifo
    rw [pending_pop h hpos hrange me] at hfifo
    rw [pop_taken, pop_stored, List.map_append, List.append_assoc]
    exact hfifo

end ThreadPool
end CSocket.SimplePool
