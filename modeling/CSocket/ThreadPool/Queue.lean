import CSocket.Lib.Ring
import CSocket.ThreadPool.Steps
/-!
# The task queue is an exactly-once FIFO

The circular array and its three redundant variables implement a queue: what the
workers took, followed by what is pending, is what the producers stored
(`Queue.fifo`). Each worker carries the task it took until it has run it
(`Local.carried`). Both are kept by every step of every thread; the tests that
guard the queue are assertions at positions under the mutex.
-/
namespace CSocket.ThreadPool
open Pthread

/-! ## The abstract queue -/

namespace Threadpool

/-- The `queue_size` entries from `queue_front` on. -/
def pending (d : Threadpool) : List ThreadpoolTask :=
  Ring.contents (fun i => d.taskQueue.getD i {}) d.queueMaxSize.toNat d.queueFront.toNat d.queueSize.toNat

def takenBy (d : Threadpool) (t : Nat) : List ThreadpoolTask := (d.taken.filter (·.1 = t)).map Prod.snd

def ranBy (d : Threadpool) (t : Nat) : List ThreadpoolTask := (d.ran.filter (·.1 = t)).map Prod.snd

end Threadpool

structure Queue (d : Threadpool) : Prop where
  cells : d.taskQueue.length = d.queueMaxSize.toNat
  nonneg : 0 ≤ d.queueSize
  le : d.queueSize ≤ d.queueMaxSize
  front : 0 ≤ d.queueFront ∧ d.queueFront < d.queueMaxSize
  rear : d.queueRear = (d.queueFront + d.queueSize) % d.queueMaxSize
  fifo : d.taken.map Prod.snd ++ d.pending = d.stored

/-- The task a worker has taken and not run yet. -/
def Pc.carries : Pc → List ThreadpoolTask
  | .worker (.broadcast task) | .worker (.unlock task) | .worker (.count task) | .worker (.inc task)
  | .worker (.counted task) | .worker (.run task) => [task]
  | _ => []

/-- What the tests under `lock` have established. -/
def Pc.Tested (d : Threadpool) : Pc → Prop
  | .worker .wait => d.queueSize = 0
  | .worker .check => d.queueSize ≠ 0 ∨ d.shutdown = true
  | .worker .take => d.queueSize ≠ 0
  | .add (.check _) => d.queueSize ≠ d.queueMaxSize ∨ d.shutdown = true
  | .add (.store _) => d.queueSize ≠ d.queueMaxSize
  | _ => True

structure Local (t : Nat) (pc : Pc) (d : Threadpool) : Prop where
  carried : d.takenBy t = d.ranBy t ++ pc.carries
  tested : pc.Tested d

/-- A queue of capacity `qmax`; only threads that exist took or ran a task. -/
structure QueueOf (qmax n : Nat) (d : Threadpool) : Prop where
  queue : Queue d
  max : d.queueMaxSize = qmax
  taken : ∀ x ∈ d.taken, x.1 < n
  ran : ∀ x ∈ d.ran, x.1 < n

/-! ## One operation -/

theorem Queue.rear_eq {d : Threadpool} (h : Queue d) :
    d.queueRear.toNat = (d.queueFront.toNat + d.queueSize.toNat) % d.queueMaxSize.toNat := by
  obtain ⟨h1, h2⟩ := h.front
  have h3 := h.nonneg
  have h4 := h.le
  rw [h.rear, Int.toNat_emod (by omega) (by omega), Int.toNat_add h1 h3]

/-- The three writes of the task are one. -/
theorem store_eq (d : Threadpool) (function arg : Nat) (hlt : d.queueRear.toNat < d.taskQueue.length) :
    d.store function arg = { d with
      taskQueue := d.taskQueue.set d.queueRear.toNat ⟨function, arg⟩
      queueRear := (d.queueRear + 1).tmod d.queueMaxSize
      queueSize := d.queueSize + 1
      stored := d.stored ++ [⟨function, arg⟩] } := by
  unfold Threadpool.store
  split <;> simp [Threadpool.setTask, Threadpool.taskAt, hlt]

theorem Queue.store {d : Threadpool} (h : Queue d) (hfull : d.queueSize ≠ d.queueMaxSize) (function arg : Nat) :
    Queue (d.store function arg) := by
  obtain ⟨hf0, hf⟩ := h.front
  have hn := h.nonneg
  have hle := h.le
  have hcells := h.cells
  have hrear := h.rear_eq
  have hrear0 : 0 ≤ d.queueRear := h.rear ▸ Int.emod_nonneg _ (by omega)
  have hlt : d.queueRear.toNat < d.taskQueue.length := by
    rw [hcells, hrear]
    exact Nat.mod_lt _ (by omega)
  rw [store_eq d function arg hlt]
  constructor
  · simpa using hcells
  · show 0 ≤ d.queueSize + 1
    omega
  · show d.queueSize + 1 ≤ d.queueMaxSize
    omega
  · exact h.front
  · show (d.queueRear + 1).tmod d.queueMaxSize = (d.queueFront + (d.queueSize + 1)) % d.queueMaxSize
    rw [Int.tmod_eq_emod_of_nonneg (by omega), h.rear, Int.emod_add_emod, Int.add_assoc]
  · have hpush := Ring.contents_push (fun i => d.taskQueue.getD i {})
      (fun i => (d.taskQueue.set d.queueRear.toNat ⟨function, arg⟩).getD i {}) d.queueFront.toNat (show d.queueSize.toNat < d.queueMaxSize.toNat by omega)
      (fun i hi => by simp [List.getD_eq_getElem?_getD, List.getElem?_set_ne (show d.queueRear.toNat ≠ i by omega)])
    have hsize : (d.queueSize + 1).toNat = d.queueSize.toNat + 1 := by omega
    show d.taken.map Prod.snd ++ Ring.contents _ _ _ (d.queueSize + 1).toNat = d.stored ++ [_]
    rw [hsize, hpush, ← List.append_assoc, ← hrear]
    congr 1
    · exact h.fifo
    · simp [List.getD_eq_getElem?_getD, hlt]

theorem Queue.take {d : Threadpool} (h : Queue d) (hpos : d.queueSize ≠ 0) (me : Nat) : Queue (d.take me) := by
  obtain ⟨hf0, hf⟩ := h.front
  have hn := h.nonneg
  have hle := h.le
  have hfront : (d.queueFront + 1).tmod d.queueMaxSize = (d.queueFront + 1) % d.queueMaxSize :=
    Int.tmod_eq_emod_of_nonneg (by omega)
  unfold Threadpool.take
  rw [hfront]
  constructor
  · exact h.cells
  · show 0 ≤ d.queueSize - 1
    omega
  · show d.queueSize - 1 ≤ d.queueMaxSize
    omega
  · exact ⟨Int.emod_nonneg _ (by omega), Int.emod_lt_of_pos _ (by omega)⟩
  · show d.queueRear = ((d.queueFront + 1) % d.queueMaxSize + (d.queueSize - 1)) % d.queueMaxSize
    rw [h.rear, Int.emod_add_emod]
    congr 1
    omega
  · obtain ⟨n, hsize⟩ : ∃ n, d.queueSize.toNat = n + 1 := ⟨d.queueSize.toNat - 1, by omega⟩
    have hfifo := h.fifo
    rw [Threadpool.pending, hsize, Ring.contents_pop, Nat.mod_eq_of_lt (by omega)] at hfifo
    have hfront' : ((d.queueFront + 1) % d.queueMaxSize).toNat = (d.queueFront.toNat + 1) % d.queueMaxSize.toNat := by
      rw [Int.toNat_emod (by omega) (by omega), Int.toNat_add hf0 (by omega)]
      rfl
    have hsize' : (d.queueSize - 1).toNat = n := by omega
    show (d.taken ++ [(me, d.taskAt d.queueFront)]).map Prod.snd
      ++ Ring.contents _ _ ((d.queueFront + 1) % d.queueMaxSize).toNat (d.queueSize - 1).toNat = d.stored
    rw [hfront', hsize', ← hfifo, List.map_append, List.append_assoc]
    rfl

/-! ## Every other operation -/

/-- The queue and the history are the same; `shutdown` may have been set. -/
structure QueueSame (d d' : Threadpool) : Prop where
  taskQueue : d'.taskQueue = d.taskQueue
  queueFront : d'.queueFront = d.queueFront
  queueRear : d'.queueRear = d.queueRear
  queueSize : d'.queueSize = d.queueSize
  queueMaxSize : d'.queueMaxSize = d.queueMaxSize
  stored : d'.stored = d.stored
  taken : d'.taken = d.taken
  shutdown : d.shutdown = true → d'.shutdown = true

theorem QueueSame.refl (d : Threadpool) : QueueSame d d := ⟨rfl, rfl, rfl, rfl, rfl, rfl, rfl, id⟩

section
variable {d d' : Threadpool}

theorem Queue.congr (h : Queue d) (hs : QueueSame d d') : Queue d' := by
  obtain ⟨h1, h2, h3, h4, h5, h6, h7, -⟩ := hs
  constructor
  · rw [h1, h5]
    exact h.cells
  · rw [h4]
    exact h.nonneg
  · rw [h4, h5]
    exact h.le
  · rw [h2, h5]
    exact h.front
  · rw [h2, h3, h4, h5]
    exact h.rear
  · rw [Threadpool.pending, h1, h2, h4, h5, h6, h7]
    exact h.fifo

theorem Pc.Tested.congr {pc : Pc} (h : pc.Tested d) (hs : QueueSame d d') : pc.Tested d' := by
  unfold Pc.Tested at h ⊢
  rw [hs.queueSize, hs.queueMaxSize]
  split at h
  · exact h
  · exact h.imp_right hs.shutdown
  · exact h
  · exact h.imp_right hs.shutdown
  · exact h
  · trivial

end

/-- An instruction of a thread at `pc` that does not concern the queue, and that
goes on where its tests allow. -/
structure Neutral (pc : Pc) (f : Nat → Bool → Threadpool → Threadpool × Pc) : Prop where
  same : ∀ t x d, QueueSame d (f t x d).1
  ran : ∀ t x d, (f t x d).1.ran = d.ran
  carries : ∀ t x d, (f t x d).2.carries = pc.carries
  tested : ∀ t x d, pc.Tested d → (f t x d).2.Tested (f t x d).1

theorem Neutral.branch {pc k k' : Pc} {p : Threadpool → Bool} (hc : k.carries = pc.carries)
    (hc' : k'.carries = pc.carries) (ht : ∀ d, pc.Tested d → p d = true → k.Tested d)
    (ht' : ∀ d, pc.Tested d → p d = false → k'.Tested d) :
    Neutral pc fun _ _ d => (d, if p d then k else k') := by
  constructor
  · exact fun t x d => .refl d
  · exact fun t x d => rfl
  · intro t x d
    dsimp only
    split
    · exact hc
    · exact hc'
  · intro t x d hd
    dsimp only
    split
    case isTrue h => exact ht d hd h
    case isFalse h => exact ht' d hd (by simpa using h)

theorem Neutral.assign {pc k : Pc} {g : Nat → Threadpool → Threadpool} (hs : ∀ t d, QueueSame d (g t d))
    (hr : ∀ t d, (g t d).ran = d.ran) (hc : k.carries = pc.carries) (ht : ∀ d, k.Tested d) :
    Neutral pc fun t _ d => (g t d, k) :=
  ⟨fun t _ d => hs t d, fun t _ d => hr t d, fun _ _ _ => hc, fun _ _ _ _ => ht _⟩

/-- The manager and the destroying thread carry nothing and test nothing. -/
def Pc.outside : Pc → Bool
  | .adjust _ | .destroy _ => true
  | _ => false

theorem outside_carries {pc : Pc} (h : pc.outside = true) : pc.carries = [] := by
  cases pc <;> first | rfl | cases h

theorem outside_tested {pc : Pc} (h : pc.outside = true) (d : Threadpool) : pc.Tested d := by
  cases pc with
  | adjust | destroy => trivial
  | worker | add => cases h

theorem Neutral.outside {pc : Pc} {f : Nat → Bool → Threadpool → Threadpool × Pc} (hpc : pc.outside = true)
    (h : ∀ t x d, QueueSame d (f t x d).1 ∧ (f t x d).1.ran = d.ran ∧ (f t x d).2.outside = true) :
    Neutral pc f := by
  constructor
  · exact fun t x d => (h t x d).1
  · exact fun t x d => (h t x d).2.1
  · exact fun t x d => (outside_carries (h t x d).2.2).trans (outside_carries hpc).symm
  · exact fun t x d _ => outside_tested (h t x d).2.2 _

/-- What a data instruction can be: a dequeue, a store, a run of a task, or
neutral. -/
inductive DataOf : Pc → (Nat → Bool → Threadpool → Threadpool × Pc) → Prop
  | take : DataOf (.worker .take) fun me _ d => (d.take me, .worker (.broadcast (d.taskAt d.queueFront)))
  | store (task) : DataOf (.add (.store task)) fun _ _ d => (d.store task.function task.arg, .add .signal)
  | run (task) : DataOf (.worker (.run task)) fun me _ d => ({ d with ran := d.ran ++ [(me, task)] }, .worker .done)
  | neutral {pc f} : Neutral pc f → DataOf pc f

theorem worker_data {pc : WorkerPc} {f : Nat → Bool → Threadpool → Threadpool × Pc}
    (h : workerCode pc = .data f) : DataOf (.worker pc) f := by
  cases pc with
  | test =>
    cases h
    refine .neutral (.branch rfl rfl (fun d _ h => ?_) fun d _ h => ?_)
    · have hsize : d.queueSize = 0 := of_decide_eq_true (Bool.and_eq_true_iff.mp h).1
      exact hsize
    · rcases Bool.and_eq_false_iff.mp h with h | h
      · exact .inl (by simpa using h)
      · exact .inr (by simpa using h)
  | check =>
    cases h
    exact .neutral (.branch rfl rfl (fun _ _ _ => trivial) fun d h h' => h.resolve_right (by simp [h']))
  | woken =>
    cases h
    refine .neutral ⟨fun t x d => ?_, fun t x d => ?_, fun t x d => ?_, fun t x d _ => ?_⟩ <;> dsimp only <;> split
    · split <;> exact ⟨rfl, rfl, rfl, rfl, rfl, rfl, rfl, id⟩
    · exact .refl d
    · split <;> rfl
    · rfl
    · split <;> rfl
    · rfl
    · split <;> trivial
    · trivial
  | take =>
    cases h
    exact .take
  | run task =>
    cases h
    exact .run task
  | inc | dec =>
    cases h
    exact .neutral (.assign (fun _ _ => ⟨rfl, rfl, rfl, rfl, rfl, rfl, rfl, id⟩) (fun _ _ => rfl) rfl fun _ => trivial)
  | _ => cases h

theorem add_data {pc : AddPc} {f : Nat → Bool → Threadpool → Threadpool × Pc} (h : addCode pc = .data f) :
    DataOf (.add pc) f := by
  cases pc with
  | test task =>
    cases h
    refine .neutral (.branch rfl rfl (fun _ _ _ => trivial) fun d _ h => ?_)
    rcases Bool.and_eq_false_iff.mp h with h | h
    · exact .inl (by simpa using h)
    · exact .inr (by simpa using h)
  | check task =>
    cases h
    exact .neutral (.branch rfl rfl (fun _ _ _ => trivial) fun d h h' => h.resolve_right (by simp [h']))
  | store task =>
    cases h
    exact .store task
  | _ => cases h

theorem outside_data {pc : Pc} {f : Nat → Bool → Threadpool → Threadpool × Pc} (h : code pc = .data f)
    (hpc : pc.outside = true) : Neutral pc f := by
  refine .outside hpc fun t x d => ?_
  have hr := runs h t x d
  generalize f t x d = r at hr ⊢
  cases hr with
  | created | shrinks | shrink | freeQueue | freeThreads | freePool =>
    exact ⟨⟨rfl, rfl, rfl, rfl, rfl, rfl, rfl, id⟩, rfl, rfl⟩
  | call => exact ⟨⟨rfl, rfl, rfl, rfl, rfl, rfl, rfl, fun _ => rfl⟩, rfl, rfl⟩
  | _ => first | exact ⟨.refl d, rfl, rfl⟩ | cases hpc

theorem dataOf {pc : Pc} {f : Nat → Bool → Threadpool → Threadpool × Pc} (h : code pc = .data f) : DataOf pc f := by
  cases pc with
  | worker pc => exact worker_data h
  | add pc => exact add_data h
  | adjust | destroy => exact .neutral (outside_data h rfl)

/-! ## The proof outline -/

/-- Only data instructions change what a thread carries or enter a test. -/
theorem goes_carries {pc k : Pc} (h : (code pc).Goes k) : k.carries = pc.carries ∧ ∀ d, k.Tested d := by
  cases moves h <;> exact ⟨rfl, fun _ => trivial⟩

theorem create_adjust {pc child k : Pc} {f : Nat → Threadpool → Threadpool} (h : code pc = .create f child k) :
    child = .worker .lock ∧ k.outside = true ∧ pc.outside = true ∧
      ∀ t d, QueueSame d (f t d) ∧ (f t d).ran = d.ran := by
  obtain ⟨i, add, l, b, rfl, rfl, rfl, rfl⟩ := creates h
  exact ⟨rfl, rfl, rfl, fun t d => ⟨⟨rfl, rfl, rfl, rfl, rfl, rfl, rfl, id⟩, rfl⟩⟩

/-- A test that can be spoiled is made under `lock`, by a thread that is not
blocked. -/
theorem tested_of_apart {pc pc' : Pc} (h : Apart code Pc.holds pc pc') (hl : pc.holds .lock = true) (d : Threadpool) :
    pc'.Tested d := by
  rcases h.unheld hl with hn | ⟨pc0, h⟩
  · unfold Pc.Tested
    split <;> first | (cases hn) | trivial
  · exact (goes_carries h).2 d

theorem takenBy_append (l : List (Nat × ThreadpoolTask)) (t u : Nat) (task : ThreadpoolTask) :
    ((l ++ [(t, task)]).filter (·.1 = u)).map Prod.snd =
      (l.filter (·.1 = u)).map Prod.snd ++ if t = u then [task] else [] := by
  rw [List.filter_append, List.map_append]
  by_cases h : t = u <;> simp [h]

/-- A thread that does not exist yet took and ran nothing. -/
theorem QueueOf.fresh {qmax n : Nat} {d : Threadpool} (h : QueueOf qmax n d) {pc : Pc} (hc : pc.carries = [])
    (ht : ∀ d, pc.Tested d) : Local n pc d := by
  constructor
  · have h1 : d.takenBy n = [] := by
      rw [Threadpool.takenBy, List.filter_eq_nil_iff.mpr, List.map_nil]
      intro x hx
      have := h.taken x hx
      simp only [decide_eq_true_eq]
      omega
    have h2 : d.ranBy n = [] := by
      rw [Threadpool.ranBy, List.filter_eq_nil_iff.mpr, List.map_nil]
      intro x hx
      have := h.ran x hx
      simp only [decide_eq_true_eq]
      omega
    rw [h1, h2, hc]
    rfl
  · exact ht d

theorem QueueOf.mono {qmax n : Nat} {d : Threadpool} (h : QueueOf qmax n d) : QueueOf qmax (n + 1) d :=
  ⟨h.queue, h.max, fun x hx => Nat.lt_succ_of_lt (h.taken x hx), fun x hx => Nat.lt_succ_of_lt (h.ran x hx)⟩

theorem QueueOf.congr {qmax n : Nat} {d d' : Threadpool} (h : QueueOf qmax n d) (hs : QueueSame d d')
    (hr : d'.ran = d.ran) : QueueOf qmax n d' :=
  ⟨h.queue.congr hs, hs.queueMaxSize.trans h.max, hs.taken ▸ h.taken, hr ▸ h.ran⟩

theorem Local.congr {t : Nat} {pc : Pc} {d d' : Threadpool} (h : Local t pc d) (hs : QueueSame d d')
    (hr : d'.ran = d.ran) : Local t pc d' := by
  constructor
  · have := h.carried
    simp only [Threadpool.takenBy, Threadpool.ranBy] at this ⊢
    rw [hs.taken, hr]
    exact this
  · exact h.tested.congr hs

theorem mem_append_lt {l : List (Nat × ThreadpoolTask)} {n t : Nat} {task : ThreadpoolTask} (h : ∀ x ∈ l, x.1 < n)
    (ht : t < n) : ∀ x ∈ l ++ [(t, task)], x.1 < n := by
  intro x hx
  rcases List.mem_append.mp hx with hx | hx
  · exact h x hx
  · obtain rfl := List.mem_singleton.mp hx
    exact ht

theorem queue_data {t : Nat} {x : Bool} {pc : Pc} {f : Nat → Bool → Threadpool → Threadpool × Pc} {qmax n : Nat}
    {d : Threadpool} (hc : DataOf pc f) (ht : t < n) (hG : QueueOf qmax n d) (hA : Local t pc d) :
    QueueOf qmax n (f t x d).1 ∧ Local t (f t x d).2 (f t x d).1 := by
  cases hc with
  | take =>
    refine ⟨⟨hG.queue.take hA.tested t, hG.max, mem_append_lt hG.taken ht, hG.ran⟩, ?_, trivial⟩
    have hcar : d.takenBy t = d.ranBy t ++ [] := hA.carried
    rw [List.append_nil] at hcar
    show ((d.taken ++ [(t, d.taskAt d.queueFront)]).filter (·.1 = t)).map Prod.snd = d.ranBy t ++ [_]
    rw [takenBy_append, if_pos rfl, ← hcar]
    rfl
  | store task =>
    have hqueue := hG.queue.store hA.tested task.function task.arg
    obtain ⟨taskQueue, hstore⟩ := store_frame d task.function task.arg
    dsimp only
    rw [hstore] at hqueue ⊢
    exact ⟨⟨hqueue, hG.max, hG.taken, hG.ran⟩, hA.carried, trivial⟩
  | run task =>
    refine ⟨⟨⟨hG.queue.cells, hG.queue.nonneg, hG.queue.le, hG.queue.front, hG.queue.rear, hG.queue.fifo⟩,
      hG.max, hG.taken, mem_append_lt hG.ran ht⟩, ?_, trivial⟩
    show d.takenBy t = ((d.ran ++ [(t, task)]).filter (·.1 = t)).map Prod.snd ++ []
    rw [takenBy_append, if_pos rfl, List.append_nil]
    exact hA.carried
  | neutral hf =>
    have hloc := hA.congr (hf.same t x d) (hf.ran t x d)
    refine ⟨hG.congr (hf.same t x d) (hf.ran t x d), ?_, hf.tested t x d hA.tested⟩
    rw [hf.carries]
    exact hloc.carried

theorem queue_stable {t u : Nat} {x : Bool} {pc pc' : Pc} {f : Nat → Bool → Threadpool → Threadpool × Pc}
    {d : Threadpool} (hc : DataOf pc f) (hne : t ≠ u) (hap : Apart code Pc.holds pc pc') (hB : Local u pc' d) : Local u pc' (f t x d).1 := by
  cases hc with
  | take =>
    refine ⟨?_, tested_of_apart hap rfl _⟩
    show ((d.taken ++ [(t, d.taskAt d.queueFront)]).filter (·.1 = u)).map Prod.snd = d.ranBy u ++ pc'.carries
    rw [takenBy_append, if_neg hne, List.append_nil]
    exact hB.carried
  | store task =>
    obtain ⟨taskQueue, hstore⟩ := store_frame d task.function task.arg
    dsimp only
    rw [hstore]
    exact ⟨hB.carried, tested_of_apart hap rfl _⟩
  | run task =>
    refine ⟨?_, hB.tested⟩
    show d.takenBy u = ((d.ran ++ [(t, task)]).filter (·.1 = u)).map Prod.snd ++ pc'.carries
    rw [takenBy_append, if_neg hne, List.append_nil]
    exact hB.carried
  | neutral hf => exact hB.congr (hf.same t x d) (hf.ran t x d)

theorem queue_outline (qmax : Nat) : Outline code start Pc.holds (QueueOf qmax) Local where
  discipline := discipline
  move h hA := by
    obtain ⟨hc, ht⟩ := goes_carries h
    exact ⟨hc ▸ hA.carried, ht _⟩
  data h ht hG hA := queue_data (dataOf h) ht hG hA
  create {t pc f child k n d} h ht hG hA := by
    obtain ⟨rfl, hk, hpc, hf⟩ := create_adjust h
    obtain ⟨hs, hr⟩ := hf n d
    have hcar := hA.carried
    have hchild : Local n (.worker .lock) d := hG.fresh rfl fun _ => trivial
    refine ⟨hG.mono.congr hs hr, ?_, hchild.congr hs hr⟩
    refine Local.congr ⟨?_, outside_tested hk d⟩ hs hr
    rw [outside_carries hk, ← outside_carries hpc]
    exact hcar
  arrive {pc n d} h hG := by
    cases pc with
    | add pc =>
      cases pc with
      | lock task => exact ⟨hG.mono, hG.fresh rfl fun _ => trivial⟩
      | _ => cases h
    | _ => cases h
  stable h hne hap _ _ hB := queue_stable (dataOf h) hne hap hB
  stableCreate h _ _ _ _ hB := by
    obtain ⟨rfl, hk, hpc, hf⟩ := create_adjust h
    exact hB.congr (hf _ _).1 (hf _ _).2

/-! ## The theorem -/

theorem queue_start {min max qmax : Nat} (hq : 1 ≤ qmax) (raw : Nat → ThreadpoolTask) :
    Asserted code Pc.holds (QueueOf qmax) Local (create min max qmax raw) := by
  constructor
  · exact create_exclusive
  · refine ⟨⟨?_, ?_, ?_, ?_, ?_, ?_⟩, rfl, ?_, ?_⟩
    · simp [create]
    · exact Int.le_refl 0
    · exact Int.natCast_nonneg qmax
    · exact ⟨Int.le_refl 0, by show (0 : Int) < qmax; omega⟩
    · simp [create]
    · rfl
    · intro x hx
      cases hx
    · intro x hx
      cases hx
  · intro t pc hpc
    rcases create_pcs (List.mem_of_getElem? hpc) with rfl | rfl | rfl <;> exact ⟨rfl, trivial⟩

/-- In every reachable state the workers' tasks, followed by the pending ones,
are the producers' tasks in order; the indices stay in range; and each worker
has run what it took, but for a task it is about to run. -/
theorem queue_fifo {min max qmax : Nat} (hq : 1 ≤ qmax) {s : PoolState} (h : Reachable min max qmax s) :
    s.shared.queueMaxSize = qmax ∧
    s.shared.taken.map Prod.snd ++ s.shared.pending = s.shared.stored ∧
    (0 ≤ s.shared.queueSize ∧ s.shared.queueSize ≤ s.shared.queueMaxSize) ∧
    (0 ≤ s.shared.queueFront ∧ s.shared.queueFront < s.shared.queueMaxSize) ∧
    (0 ≤ s.shared.queueRear ∧ s.shared.queueRear < s.shared.queueMaxSize) ∧
    s.shared.queueRear = (s.shared.queueFront + s.shared.queueSize) % s.shared.queueMaxSize ∧
    ∀ (t : Nat) (pc : Pc), s.pcs[t]? = some pc → s.shared.takenBy t = s.shared.ranBy t ++ pc.carries := by
  obtain ⟨raw, hr⟩ := h
  obtain ⟨-, ⟨hq, hmax, -, -⟩, hloc⟩ := (queue_outline qmax).reach (queue_start hq raw) hr
  have hf := hq.front
  refine ⟨hmax, hq.fifo, ⟨hq.nonneg, hq.le⟩, hf, ?_, hq.rear, fun t pc hpc => (hloc t pc hpc).carried⟩
  rw [hq.rear]
  exact ⟨Int.emod_nonneg _ (by omega), Int.emod_lt_of_pos _ (by omega)⟩

/-- One task, stored and taken, in a queue of capacity 1. -/
theorem queue_fifo_one : ∃ s : PoolState, s.shared.taken = [(0, ⟨7, 9⟩)] ∧
    s.shared.taken.map Prod.snd ++ s.shared.pending = s.shared.stored := by
  obtain ⟨s, hr, hs⟩ := Lts.Reach.of_run poolStep (create 1 1 1 fun _ => ⟨5, 5⟩)
    (fun s => s.shared.taken = [(0, ⟨7, 9⟩)])
    (.arrive (.add (.lock ⟨7, 9⟩)) :: steps 3 6 ++ steps 0 4) (by decide +kernel)
  exact ⟨s, by simpa using hs, (queue_fifo (Nat.le_refl 1) ⟨_, hr⟩).2.1⟩

end CSocket.ThreadPool
