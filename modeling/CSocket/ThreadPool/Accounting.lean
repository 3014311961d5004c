import CSocket.ThreadPool.Queue
/-!
# Thread accounting

The counters against the threads themselves: `live_thr_num` and `busy_thr_num`
count positions of workers (`Counts`), and the bounds follow from what each
critical section tests again (`Bounded`), whatever the manager's samples were.
-/
namespace CSocket.ThreadPool
open Pthread

/-! ## Kinds of positions -/

namespace Pc

/-- A worker that has not taken the voluntary exit. -/
def live : Pc → Bool
  | .worker .leave | .worker .gone => false
  | .worker _ => true
  | _ => false

/-- A worker that has. -/
def left : Pc → Bool
  | .worker .leave | .worker .gone => true
  | _ => false

/-- A worker between the increment and the decrement around its callback. -/
def busy : Pc → Bool
  | .worker (.counted _) | .worker (.run _) | .worker .done | .worker .dec => true
  | _ => false

/-- The manager, having created a worker it has not counted yet. -/
def created : Pc → Bool
  | .adjust (.created _ _ _ _) => true
  | _ => false

/-- The manager, having decided to shrink. -/
def shrinking : Pc → Bool
  | .adjust .shrinkLock | .adjust .shrink => true
  | _ => false

end Pc

/-- The two positions count alike. -/
structure Pc.SameKind (pc k : Pc) : Prop where
  live : k.live = pc.live
  left : k.left = pc.left
  busy : k.busy = pc.busy
  created : k.created = pc.created
  shrinking : k.shrinking = pc.shrinking

/-- The growth loop's test. -/
def Pc.Room (d : Threadpool) : Pc → Prop
  | .adjust (.create _ _ _ _) | .adjust (.created _ _ _ _) => d.liveThrNum < d.maxThrNum
  | _ => True

/-- Only data instructions and `pthread_create` change a kind or enter the loop's
body. -/
theorem goes_kind {pc k : Pc} (h : (code pc).Goes k) : pc.SameKind k ∧ ∀ d, k.Room d := by
  cases moves h <;> exact ⟨⟨rfl, rfl, rfl, rfl, rfl⟩, fun _ => trivial⟩

/-! ## The bounds -/

structure Bounded (min max : Nat) (n : Nat) (d : Threadpool) : Prop where
  minEq : d.minThrNum = min
  maxEq : d.maxThrNum = max
  min_le : (min : Int) ≤ d.liveThrNum
  le_max : d.liveThrNum ≤ max
  waitExit : 0 ≤ d.waitExitThrNum

/-- What a data instruction does to the counters, against the kinds of the two
positions. -/
structure Tally (d d' : Threadpool) (pc k : Pc) : Prop where
  live : d'.liveThrNum + k.created.toNat + pc.live.toNat = d.liveThrNum + pc.created.toNat + k.live.toNat
  busy : d'.busyThrNum + pc.busy.toNat = d.busyThrNum + k.busy.toNat
  exits : k.left.toNat + d'.waitExitThrNum + 10 * k.shrinking.toNat + 10 * d.shrinks ≤
    pc.left.toNat + d.waitExitThrNum + 10 * pc.shrinking.toNat + 10 * d'.shrinks

/-- A data instruction keeps the bounds, passes its test on and is tallied. -/
structure Accounted (min max n : Nat) (d d' : Threadpool) (pc k : Pc) : Prop where
  bounded : Bounded min max n d'
  room : k.Room d'
  tally : Tally d d' pc k

section
variable {min max n : Nat} {d d' : Threadpool} {pc k : Pc}

/-- The counters stay, and so do the kinds. -/
theorem Accounted.of_same (hB : Bounded min max n d) (h1 : d'.minThrNum = d.minThrNum) (h2 : d'.maxThrNum = d.maxThrNum)
    (h3 : d'.liveThrNum = d.liveThrNum) (h4 : d'.busyThrNum = d.busyThrNum)
    (h5 : d'.waitExitThrNum = d.waitExitThrNum) (h6 : d'.shrinks = d.shrinks) (hk : pc.SameKind k)
    (hroom : k.Room d') : Accounted min max n d d' pc k := by
  refine ⟨⟨h1.trans hB.minEq, h2.trans hB.maxEq, h3 ▸ hB.min_le, h3 ▸ hB.le_max, h5 ▸ hB.waitExit⟩, hroom, ?_⟩
  constructor
  · rw [h3, hk.live, hk.created]
  · rw [h4, hk.busy]
  · rw [h5, h6, hk.left, hk.shrinking]

theorem accounted {f : Nat → Bool → Threadpool → Threadpool × Pc} (h : code pc = .data f) (hB : Bounded min max n d)
    (hroom : pc.Room d) (t : Nat) (x : Bool) : Accounted min max n d (f t x d).1 pc (f t x d).2 := by
  have hmin := hB.minEq
  have hmax := hB.maxEq
  have hle := hB.min_le
  have hle' := hB.le_max
  have hw := hB.waitExit
  have hr := runs h t x d
  generalize f t x d = r at hr ⊢
  cases hr with
  | leaves hexit hlive =>
    -- the voluntary exit
    refine ⟨⟨hmin, hmax, ?_, ?_, ?_⟩, trivial, ?_, rfl, ?_⟩
    · show (min : Int) ≤ d.liveThrNum - 1
      omega
    · show d.liveThrNum - 1 ≤ max
      omega
    · show 0 ≤ d.waitExitThrNum - 1
      omega
    · show d.liveThrNum - 1 + 0 + 1 = d.liveThrNum + 0 + 0
      omega
    · show 1 + (d.waitExitThrNum - 1) + 10 * 0 + 10 * (d.shrinks : Int) ≤
        0 + d.waitExitThrNum + 10 * 0 + 10 * (d.shrinks : Int)
      omega
  | stays hexit hlive =>
    refine ⟨⟨hmin, hmax, hle, hle', ?_⟩, trivial, rfl, rfl, ?_⟩
    · show 0 ≤ d.waitExitThrNum - 1
      omega
    · show 0 + (d.waitExitThrNum - 1) + 10 * 0 + 10 * (d.shrinks : Int) ≤
        0 + d.waitExitThrNum + 10 * 0 + 10 * (d.shrinks : Int)
      omega
  | inc task =>
    refine ⟨⟨hmin, hmax, hle, hle', hw⟩, trivial, rfl, ?_, Int.le_refl _⟩
    show d.busyThrNum + 1 + 0 = d.busyThrNum + 1
    omega
  | dec =>
    refine ⟨⟨hmin, hmax, hle, hle', hw⟩, trivial, rfl, ?_, Int.le_refl _⟩
    show d.busyThrNum - 1 + 1 = d.busyThrNum + 0
    omega
  | store task =>
    obtain ⟨taskQueue, hstore⟩ := store_frame d task.function task.arg
    rw [hstore]
    exact .of_same hB rfl rfl rfl rfl rfl rfl ⟨rfl, rfl, rfl, rfl, rfl⟩ trivial
  | free i add l b hi hadd hlive _ => exact .of_same hB rfl rfl rfl rfl rfl rfl ⟨rfl, rfl, rfl, rfl, rfl⟩ hlive
  | created i add l b =>
    have hlt : d.liveThrNum < d.maxThrNum := hroom
    refine ⟨⟨hmin, hmax, ?_, ?_, hw⟩, trivial, ?_, rfl, Int.le_refl _⟩
    · show (min : Int) ≤ d.liveThrNum + 1
      omega
    · show d.liveThrNum + 1 ≤ max
      omega
    · show d.liveThrNum + 1 + 0 + 0 = d.liveThrNum + 1 + 0
      omega
  | shrinks l b _ _ =>
    refine ⟨⟨hmin, hmax, hle, hle', hw⟩, trivial, rfl, rfl, ?_⟩
    show 0 + d.waitExitThrNum + 10 * 1 + 10 * (d.shrinks : Int) ≤
      0 + d.waitExitThrNum + 10 * 0 + 10 * ((d.shrinks + 1 : Nat) : Int)
    omega
  | shrink =>
    have h10 : (0 : Int) ≤ 10 := by decide
    refine ⟨⟨hmin, hmax, hle, hle', h10⟩, trivial, rfl, rfl, ?_⟩
    show 0 + 10 + 10 * 0 + 10 * (d.shrinks : Int) ≤ 0 + d.waitExitThrNum + 10 * 1 + 10 * (d.shrinks : Int)
    omega
  | _ => exact .of_same hB rfl rfl rfl rfl rfl rfl ⟨rfl, rfl, rfl, rfl, rfl⟩ trivial

end

/-! ## The proof outline -/

/-- What `pthread_create` does: a worker starts. -/
structure Creation (pc child k : Pc) (f : Nat → Threadpool → Threadpool) : Prop where
  pcs : ∃ i add l b, pc = .adjust (.create i add l b) ∧ k = .adjust (.created i add l b)
  child : child = .worker .lock
  same : ∀ t d, ∃ threads, f t d = { d with threads }

theorem creation {pc child k : Pc} {f : Nat → Threadpool → Threadpool} (h : code pc = .create f child k) :
    Creation pc child k f := by
  obtain ⟨i, add, l, b, rfl, rfl, rfl, rfl⟩ := creates h
  exact ⟨⟨i, add, l, b, rfl, rfl⟩, rfl, fun t d => ⟨_, rfl⟩⟩

/-- `live_thr_num` changes under `lock` only. -/
theorem live_of_unlocked {pc : Pc} {f : Nat → Bool → Threadpool → Threadpool × Pc} (h : code pc = .data f)
    (hl : pc.holds .lock = false) (t : Nat) (x : Bool) (d : Threadpool) :
    (f t x d).1.liveThrNum = d.liveThrNum ∧ (f t x d).1.maxThrNum = d.maxThrNum := by
  have hr := runs h t x d
  generalize f t x d = r at hr ⊢
  cases hr with
  | leaves | created | store => cases hl
  | _ => exact ⟨rfl, rfl⟩

/-- The growth loop keeps `lock` between its test and the increment. -/
theorem room_of_apart {pc pc' : Pc} (h : Apart code Pc.holds pc pc') (hl : pc.holds .lock = true) (d : Threadpool) :
    pc'.Room d := by
  rcases h.unheld hl with hn | ⟨pc0, h⟩
  · unfold Pc.Room
    split <;> first | cases hn | trivial
  · exact (goes_kind h).2 d

theorem Pc.Room.congr {pc : Pc} {d d' : Threadpool} (h : pc.Room d) (h1 : d'.liveThrNum = d.liveThrNum)
    (h2 : d'.maxThrNum = d.maxThrNum) : pc.Room d' := by
  unfold Pc.Room at h ⊢
  rw [h1, h2]
  exact h

theorem bounded_outline (min max : Nat) :
    Outline code start Pc.holds (Bounded min max) (fun _ pc d => pc.Room d) where
  discipline := discipline
  move h _ := (goes_kind h).2 _
  data h _ hG hA := ⟨(accounted h hG hA _ _).bounded, (accounted h hG hA _ _).room⟩
  create {t pc f child k n d} h _ hG hA := by
    obtain ⟨⟨i, add, l, b, rfl, rfl⟩, rfl, hf⟩ := creation h
    obtain ⟨threads, hf⟩ := hf n d
    rw [hf]
    exact ⟨⟨hG.minEq, hG.maxEq, hG.min_le, hG.le_max, hG.waitExit⟩, hA, trivial⟩
  arrive {pc n d} h hG := by
    refine ⟨⟨hG.minEq, hG.maxEq, hG.min_le, hG.le_max, hG.waitExit⟩, ?_⟩
    cases pc with
    | add => trivial
    | _ => cases h
  stable {t u x pc pc' f n d} h _ hap _ _ hB := by
    cases hl : pc.holds .lock with
    | true => exact room_of_apart hap hl _
    | false =>
      obtain ⟨h1, h2⟩ := live_of_unlocked h hl t x d
      exact hB.congr h1 h2
  stableCreate {t u pc pc' f child k n d} h _ _ _ _ hB := by
    obtain ⟨threads, hf⟩ := (creation h).same n d
    rw [hf]
    exact hB.congr rfl rfl

/-! ## The counts -/

/-- The counters count threads. `created` is the worker that `pthread_create` has
started and `live_thr_num` does not know of yet. -/
structure Counts (s : PoolState) : Prop where
  live : s.shared.liveThrNum + s.pcs.countP Pc.created = s.pcs.countP Pc.live
  busy : s.shared.busyThrNum = s.pcs.countP Pc.busy
  exits : s.pcs.countP Pc.left + s.shared.waitExitThrNum + 10 * s.pcs.countP Pc.shrinking ≤ 10 * s.shared.shrinks

/-- One thread moves, and the counters follow. -/
theorem Counts.move {s s' : PoolState} {t : Nat} {pc k : Pc} (h : Counts s) (ht : s.pcs[t]? = some pc)
    (hpcs : s'.pcs = s.pcs.set t k) (hd : Tally s.shared s'.shared pc k) : Counts s' := by
  obtain ⟨h1, h2, h3⟩ := h
  obtain ⟨d1, d2, d3⟩ := hd
  have hlive := countP_set_add ht k Pc.live
  have hleft := countP_set_add ht k Pc.left
  have hbusy := countP_set_add ht k Pc.busy
  have hcreated := countP_set_add ht k Pc.created
  have hshrinking := countP_set_add ht k Pc.shrinking
  constructor
  · rw [hpcs]
    omega
  · rw [hpcs]
    omega
  · rw [hpcs]
    omega

theorem Pc.SameKind.tally {pc k : Pc} (h : pc.SameKind k) (d : Threadpool) : Tally d d pc k := by
  constructor
  · rw [h.live, h.created]
  · rw [h.busy]
  · rw [h.left, h.shrinking]

theorem Counts.step {min max : Nat} {s s' : PoolState} {a : PoolAct} (h : Counts s)
    (ha : Asserted code Pc.holds (Bounded min max) (fun _ pc d => pc.Room d) s) (hs : Step code start s a s') :
    Counts s' := by
  cases hs.effect with
  | quiet hpcs hd =>
    obtain ⟨h1, h2, h3⟩ := h
    constructor
    · rwa [hpcs, hd]
    · rwa [hpcs, hd]
    · rwa [hpcs, hd]
  | @move t x w pc k _ ht hg hpcs hd =>
    apply h.move (State.pcs_getElem? ht) hpcs
    rw [hd]
    exact (goes_kind hg).1.tally _
  | @data t x w pc f _ ht hc hpcs hd =>
    have htpc := State.pcs_getElem? ht
    apply h.move htpc hpcs
    rw [hd]
    exact (accounted hc ha.global (ha.atPc t pc htpc) t x).tally
  | @create t x w pc f child k _ ht hc hpcs hd =>
    obtain ⟨⟨i, add, l, b, rfl, rfl⟩, rfl, hf⟩ := creation hc
    obtain ⟨threads, hf⟩ := hf s.threads.length s.shared
    rw [hf] at hd
    obtain ⟨h1, h2, h3⟩ := h
    have htpc := State.pcs_getElem? ht
    have hlive := countP_set_add htpc (.adjust (.created i add l b)) Pc.live
    have hleft := countP_set_add htpc (.adjust (.created i add l b)) Pc.left
    have hbusy := countP_set_add htpc (.adjust (.created i add l b)) Pc.busy
    have hcreated := countP_set_add htpc (.adjust (.created i add l b)) Pc.created
    have hshrinking := countP_set_add htpc (.adjust (.created i add l b)) Pc.shrinking
    simp only [Status.pc_running, Pc.live, Pc.left, Pc.busy, Pc.created, Pc.shrinking, Bool.toNat_false,
      Bool.toNat_true, Nat.add_zero] at hlive hleft hbusy hcreated hshrinking
    constructor
    · rw [hpcs, hd, List.countP_append, List.countP_append, hlive, hcreated]
      show s.shared.liveThrNum + ((_ + 1 + 0 : Nat) : Int) = ((_ + 1 : Nat) : Int)
      omega
    · rw [hpcs, hd, List.countP_append, hbusy]
      exact h2
    · rw [hpcs, hd, List.countP_append, List.countP_append, hleft, hshrinking]
      exact h3
  | @arrive pc hp hpcs hd =>
    cases pc with
    | add pc =>
      -- a producer is of no kind
      have hsame (P : Pc → Bool) (hP : P (.add pc) = false) : s'.pcs.countP P = s.pcs.countP P := by
        rw [hpcs, List.countP_append, List.countP_singleton, if_neg (by simp [hP]), Nat.add_zero]
      obtain ⟨h1, h2, h3⟩ := h
      constructor
      · rwa [hsame _ rfl, hsame _ rfl, hd]
      · rwa [hsame _ rfl, hd]
      · rwa [hsame _ rfl, hsame _ rfl, hd]
    | _ => cases hp

/-! ## The theorem -/

section
variable {min max qmax : Nat}

theorem bounded_start (hle : min ≤ max) (raw : Nat → ThreadpoolTask) :
    Asserted code Pc.holds (Bounded min max) (fun _ pc d => pc.Room d) (create min max qmax raw) := by
  constructor
  · exact create_exclusive
  · exact ⟨rfl, rfl, Int.le_refl _, Int.ofNat_le.mpr hle, Int.le_refl 0⟩
  · intro t pc hpc
    rcases create_pcs (List.mem_of_getElem? hpc) with rfl | rfl | rfl <;> trivial

theorem create_count (raw : Nat → ThreadpoolTask) {P : Pc → Bool} (h : P (.adjust .test) = false)
    (h' : P (.destroy .call) = false) :
    (create min max qmax raw).pcs.countP P = if P (.worker .lock) then min else 0 := by
  have hpcs : (create min max qmax raw).pcs = List.replicate min (.worker .lock) ++ [.adjust .test, .destroy .call] := by
    simp [State.pcs, create]
  rw [hpcs, List.countP_append, List.countP_replicate]
  simp [h, h']

theorem counts_start (raw : Nat → ThreadpoolTask) : Counts (create min max qmax raw) := by
  constructor
  · rw [create_count raw rfl rfl, create_count raw rfl rfl]
    exact Int.add_zero _
  · rw [create_count raw rfl rfl]
    rfl
  · rw [create_count raw rfl rfl, create_count raw rfl rfl]
    exact Int.le_refl 0

/-- Bounds and counts, in every state of every run. -/
theorem accounting {s : PoolState} (hle : min ≤ max) (h : Reachable min max qmax s) :
    Asserted code Pc.holds (Bounded min max) (fun _ pc d => pc.Room d) s ∧ Counts s := by
  obtain ⟨raw, hr⟩ := h
  apply hr.invariant _ ⟨bounded_start hle raw, counts_start raw⟩
  rintro s a s' ⟨ha, hc⟩ hs
  exact ⟨(bounded_outline min max).asserted ha (step_cases hs), hc.step ha (step_cases hs)⟩

/-- While no thread is inside a critical section, `live_thr_num` is the number
of workers that have not taken the voluntary exit and `busy_thr_num` that of the
workers around their callback; both are within their bounds, and there have been
at most 10 voluntary exits for each decision to shrink. -/
theorem thread_accounting {s : PoolState} (hle : min ≤ max) (h : Reachable min max qmax s)
    (hfree : ∀ m, s.owner m = none) :
    s.shared.liveThrNum = s.pcs.countP Pc.live ∧
    s.shared.busyThrNum = s.pcs.countP Pc.busy ∧
    (0 ≤ s.shared.busyThrNum ∧ s.shared.busyThrNum ≤ s.shared.liveThrNum) ∧
    ((min : Int) ≤ s.shared.liveThrNum ∧ s.shared.liveThrNum ≤ max) ∧
    0 ≤ s.shared.waitExitThrNum ∧
    s.pcs.countP Pc.left ≤ 10 * s.shared.shrinks := by
  obtain ⟨ha, hc⟩ := accounting hle h
  obtain ⟨hexcl, hB, -⟩ := ha
  have hcreated : s.pcs.countP Pc.created = 0 := by
    apply hexcl.count_free (hfree .lock)
    · intro pc hpc
      cases pc with
      | adjust pc => cases pc <;> first | rfl | cases hpc
      | _ => cases hpc
    · intro pc c m k hk
      have hgoes : (code pc).Goes k := by
        rw [hk]
        rfl
      have hkind := (goes_kind hgoes).1
      rw [hkind.created]
      cases pc with
      | adjust pc =>
        cases pc with
        | signals n => cases n <;> rfl
        | _ => first | rfl | cases hk
      | _ => rfl
  have hlive := hc.live
  rw [hcreated, Int.natCast_zero, Int.add_zero] at hlive
  have hle : s.pcs.countP Pc.busy ≤ s.pcs.countP Pc.live := by
    apply List.countP_mono_left
    intro pc _ hpc
    cases pc with
    | worker pc => cases pc <;> first | rfl | cases hpc
    | _ => cases hpc
  have hbusy := hc.busy
  have hexits := hc.exits
  have hwait := hB.waitExit
  refine ⟨hlive, hbusy, ?_, ⟨hB.min_le, hB.le_max⟩, hwait, ?_⟩
  · rw [hlive, hbusy]
    exact ⟨Int.natCast_nonneg _, Int.ofNat_le.mpr hle⟩
  · omega

/-- Ten waiting tasks, and the manager has created a second worker. -/
theorem thread_accounting_grown : ∃ s : PoolState, s.pcs.countP Pc.live = 2 ∧
    s.shared.liveThrNum = s.pcs.countP Pc.live := by
  obtain ⟨s, hr, hs⟩ := Lts.Reach.of_run poolStep (create 1 2 10 fun _ => {})
    (fun s => s.pcs.countP Pc.live = 2 && s.owner .lock = none && s.owner .threadCounter = none)
    ((List.range 10).flatMap (fun i => .arrive (.add (.lock ⟨7, i⟩)) :: steps (3 + i) 6) ++ steps 1 16)
    (by decide +kernel)
  obtain ⟨⟨h2, hl⟩, hc⟩ : (s.pcs.countP Pc.live = 2 ∧ s.owner .lock = none) ∧ s.owner .threadCounter = none := by
    simpa using hs
  have hfree (m : Mutex) : s.owner m = none := by
    cases m with
    | lock => exact hl
    | threadCounter => exact hc
  exact ⟨s, h2, (thread_accounting (by decide) ⟨_, hr⟩ hfree).1⟩

end

end CSocket.ThreadPool
