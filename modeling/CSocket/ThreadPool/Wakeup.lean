import CSocket.ThreadPool.Accounting
/-!
# Stranded tasks

`queue_not_empty` says two things to a worker: a task has come, and please exit.
A worker that takes the voluntary exit on the first message strands the task
(`Stranded`), unless another worker is awake. That one step (`strands`) is the
only way: `stranded_iff`.
-/
namespace CSocket.ThreadPool
open Pthread

/-! ## Workers that serve -/

/-- A worker that has not left its loop. -/
def Pc.serving : Pc → Bool
  | .worker .leave | .worker .gone | .worker .quit | .worker .ended => false
  | .worker _ => true
  | _ => false

/-- Between critical sections: a task is pending and every worker is blocked. -/
def Stranded (s : PoolState) : Prop :=
  s.owner .lock = none ∧ 0 < s.shared.queueSize ∧ ∀ st ∈ s.threads, st.pc.serving = true → st.blocked = true

/-- The action is a voluntary exit in spite of a pending task, by the last worker
that is not blocked. -/
def strands (s : PoolState) : PoolAct → Bool
  | .run t _ _ =>
    s.threads[t]? = some (.running (.worker .woken)) && s.shared.waitExitThrNum > 0 &&
      s.shared.liveThrNum > s.shared.minThrNum && s.shared.queueSize > 0 &&
      (s.threads.eraseIdx t).all fun st => !st.pc.serving || st.blocked
  | _ => false

/-- Some worker is not blocked. -/
def Awake (s : PoolState) : Prop :=
  ∃ (t : Nat) (st : Status Mutex Cond Pc), s.threads[t]? = some st ∧ st.pc.serving = true ∧ st.blocked = false

/-- A producer has stored its task and is about to signal. -/
def Signalling (s : PoolState) : Prop := ∃ t : Nat, s.pcs[t]? = some (.add .signal)

def Covered (s : PoolState) : Prop :=
  s.shared.shutdown = false → 0 < s.shared.queueSize → Awake s ∨ Signalling s

theorem goes_serving {pc k : Pc} (h : (code pc).Goes k) : k.serving = pc.serving := by
  cases moves h <;> rfl

/-! ## Assertions -/

def Pc.Settled (d : Threadpool) : Pc → Prop
  | .worker .quit | .worker .ended => d.shutdown = true
  | _ => True

theorem goes_settled {pc k : Pc} (h : (code pc).Goes k) {d : Threadpool} (hpc : pc.Settled d) : k.Settled d := by
  cases moves h with
  | quit => exact hpc
  | _ => trivial

/-- What a data instruction does to the queue's size and to `shutdown`. -/
structure SizeOf (pc : Pc) (d d' : Threadpool) : Prop where
  size : d'.queueSize ≤ d.queueSize ∨ ∃ task, pc = .add (.store task)
  shutdown : d.shutdown = true → d'.shutdown = true

theorem sizeOf_data {pc : Pc} {f : Nat → Bool → Threadpool → Threadpool × Pc} (h : DataOf pc f) (t : Nat) (x : Bool)
    (d : Threadpool) : SizeOf pc d (f t x d).1 := by
  cases h with
  | take =>
    refine ⟨.inl ?_, id⟩
    show d.queueSize - 1 ≤ d.queueSize
    omega
  | store task =>
    refine ⟨.inr ⟨task, rfl⟩, fun hd => ?_⟩
    obtain ⟨taskQueue, hstore⟩ := store_frame d task.function task.arg
    dsimp only
    rw [hstore]
    exact hd
  | run task => exact ⟨.inl (Int.le_refl _), id⟩
  | neutral h =>
    have hs := h.same t x d
    exact ⟨.inl (Int.le_of_eq hs.queueSize), hs.shutdown⟩

theorem data_settled {pc : Pc} {f : Nat → Bool → Threadpool → Threadpool × Pc} (h : code pc = .data f) (t : Nat)
    (x : Bool) (d : Threadpool) : (f t x d).2.Settled (f t x d).1 := by
  have hr := runs h t x d
  generalize f t x d = r at hr ⊢
  cases hr with
  | quits hd => exact hd
  | _ => trivial

theorem settled_outline : Outline code start Pc.holds (fun _ _ => True) (fun _ pc d => pc.Settled d) where
  discipline := discipline
  move h hA := goes_settled h hA
  data h _ _ _ := ⟨trivial, data_settled h _ _ _⟩
  create {t pc f child k n d} h _ _ hA := by
    obtain ⟨⟨i, add, l, b, rfl, rfl⟩, rfl, -⟩ := creation h
    exact ⟨trivial, trivial, trivial⟩
  arrive {pc n d} h _ := by
    cases pc with
    | add pc => exact ⟨trivial, trivial⟩
    | _ => cases h
  stable {t u x pc pc' f n d} h _ _ _ _ hB := by
    have hs := sizeOf_data (dataOf h) t x d
    unfold Pc.Settled at hB ⊢
    split at hB
    · exact hs.shutdown hB
    · exact hs.shutdown hB
    · trivial
  stableCreate {t u pc pc' f child k n d} h _ _ _ _ hB := by
    obtain ⟨threads, hf⟩ := (creation h).same n d
    rw [hf]
    exact hB

/-! ## One step -/

section
variable {s s' : PoolState} {a : PoolAct} {t : Nat} {pc k : Pc}

theorem Awake.of_running (h : s.threads[t]? = some (.running k)) (hk : k.serving = true) : Awake s :=
  ⟨t, .running k, h, hk, rfl⟩

/-- A covered task stays covered while its keeper does not act. -/
theorem covered_other (hs : Step code start s a s') (h : Awake s ∨ Signalling s)
    (hawake : ∀ t st, a.actor = some t → s.threads[t]? = some st → st.pc.serving = true → st.blocked = false →
      Awake s' ∨ Signalling s')
    (hsignal : ∀ t, a.actor = some t → s.pcs[t]? = some (.add .signal) → Awake s' ∨ Signalling s') :
    Awake s' ∨ Signalling s' := by
  rcases h with ⟨t, st, ht, hserving, hst⟩ | ⟨t, ht⟩
  · by_cases hact : a.actor = some t
    · exact hawake t st hact ht hserving hst
    · obtain ⟨st', ht', hpc, hb⟩ := hs.other hact ht
      exact .inl ⟨t, st', ht', hpc ▸ hserving, hb hst⟩
  · by_cases hact : a.actor = some t
    · exact hsignal t hact ht
    · exact .inr ⟨t, hs.other_pc hact ht⟩

/-- A thread that only moves on is as awake as before. -/
theorem covered_move {x : Bool} {w : Nat} (hs : Step code start s (.run t x w) s') (h : Awake s ∨ Signalling s)
    (ht : s.threads[t]? = some (.running pc)) (hg : (code pc).Goes k) (ht' : s'.threads[t]? = some (.running k))
    (hsignal : pc = .add .signal → Awake s' ∨ Signalling s') : Awake s' ∨ Signalling s' := by
  apply covered_other hs h
  · intro u st hu hst hserving _
    cases hu
    rw [ht] at hst
    cases hst
    exact .inl (.of_running ht' ((goes_serving hg).trans hserving))
  · intro u hu hpc
    cases hu
    rw [State.pcs_getElem? ht] at hpc
    exact hsignal (Option.some.inj hpc)

/-- Nor does a thread matter that neither serves nor signals. -/
theorem covered_bystander {x : Bool} {w : Nat} (hs : Step code start s (.run t x w) s') (h : Awake s ∨ Signalling s)
    (ht : s.threads[t]? = some (.running pc)) (hpc : pc.serving = false) (hne : pc ≠ .add .signal) :
    Awake s' ∨ Signalling s' := by
  apply covered_other hs h
  · intro u st hu hst hserving _
    cases hu
    rw [ht] at hst
    cases hst
    rw [Status.pc_running, hpc] at hserving
    cases hserving
  · intro u hu hu'
    cases hu
    rw [State.pcs_getElem? ht] at hu'
    exact absurd (Option.some.inj hu') hne

/-- With all workers awake, one serves. -/
theorem awake_of_live (hexcl : Exclusive code Pc.holds s) (hset : ∀ (t : Nat) (pc : Pc), s.pcs[t]? = some pc → pc.Settled s.shared)
    (hdown : s.shared.shutdown = false) (hlive : 0 < s.pcs.countP Pc.live)
    (hnone : ∀ st ∈ s.threads, st.waitsOn Cond.queueNotEmpty = false) : Awake s := by
  obtain ⟨pc, hpc, hl⟩ := List.countP_pos_iff.mp hlive
  obtain ⟨st, hst, rfl⟩ := List.mem_map.mp hpc
  obtain ⟨t, ht⟩ := List.mem_iff_getElem?.mp hst
  refine ⟨t, st, ht, ?_, ?_⟩
  · have hsettled := hset t st.pc (State.pcs_getElem? ht)
    revert hl hsettled
    generalize st.pc = pc
    intro hl hsettled
    cases pc with
    | worker pc =>
      cases pc with
      | quit | ended =>
        -- past the loop by a shutdown, which there is not
        have h : s.shared.shutdown = true := hsettled
        rw [hdown] at h
        cases h
      | leave | gone => cases hl
      | _ => rfl
    | _ => cases hl
  · cases st with
    | running => rfl
    | woken => rfl
    | waiting c m k =>
      obtain ⟨pc0, h0⟩ := hexcl.waits _ hst
      rcases waits h0 with ⟨-, rfl, -⟩ | ⟨task, -, -, rfl⟩
      · simpa [Status.waitsOn] using hnone _ hst
      · cases hl

/-- A worker stays in its loop, takes the voluntary exit or saw the shutdown. -/
theorem data_serving {pc : WorkerPc} {f : Nat → Bool → Threadpool → Threadpool × Pc} (h : workerCode pc = .data f)
    (hpc : (Pc.worker pc).serving = true) (t : Nat) (x : Bool) (d : Threadpool) :
    (f t x d).2.serving = true ∨ (f t x d).1.shutdown = true ∨
      pc = .woken ∧ 0 < d.waitExitThrNum ∧ d.minThrNum < d.liveThrNum := by
  have hr := worker_runs h t x d
  generalize f t x d = r at hr ⊢
  cases hr with
  | quits hd => exact .inr (.inl hd)
  | leaves hexit hlive => exact .inr (.inr ⟨rfl, hexit, hlive⟩)
  | _ => exact .inl rfl

/-- What the guard leaves: another worker is awake. -/
theorem other_awake {x : Bool} {w : Nat} (h : strands s (.run t x w) = false)
    (ht : s.threads[t]? = some (.running (.worker .woken))) (h1 : 0 < s.shared.waitExitThrNum)
    (h2 : s.shared.minThrNum < s.shared.liveThrNum) (h3 : 0 < s.shared.queueSize) :
    ∃ u st, u ≠ t ∧ s.threads[u]? = some st ∧ st.pc.serving = true ∧ st.blocked = false := by
  have hall : (s.threads.eraseIdx t).all (fun st => !st.pc.serving || st.blocked) = false := by
    simpa [strands, ht, h1, h2, h3] using h
  obtain ⟨st, hst, hb⟩ := List.all_eq_false.mp hall
  obtain ⟨u, hne, hu⟩ := List.mem_eraseIdx_iff_getElem?.mp hst
  simp only [Bool.or_eq_true, Bool.not_eq_true', not_or, Bool.not_eq_false, Bool.not_eq_true] at hb
  exact ⟨u, st, hne, hu, hb.1, hb.2⟩

theorem covered_data {x : Bool} {w : Nat} {f : Nat → Bool → Threadpool → Threadpool × Pc}
    (hs : Step code start s (.run t x w) s') (hguard : strands s (.run t x w) = false) (hcov : Covered s)
    (ht : s.threads[t]? = some (.running pc)) (hc : code pc = .data f)
    (ht' : s'.threads[t]? = some (.running (f t x s.shared).2)) (hd : s'.shared = (f t x s.shared).1) :
    Covered s' := by
  intro hdown' hq'
  have hsize := sizeOf_data (dataOf hc) t x s.shared
  rw [← hd] at hsize
  rcases hsize.size with hle | ⟨task, rfl⟩
  · have hdown : s.shared.shutdown = false := by
      cases hdown : s.shared.shutdown with
      | false => rfl
      | true => rw [hsize.shutdown hdown] at hdown'; cases hdown'
    have hq : 0 < s.shared.queueSize := Int.lt_of_lt_of_le hq' hle
    apply covered_other hs (hcov hdown hq)
    · intro u st hu hst hserving _
      cases hu
      rw [ht] at hst
      cases hst
      cases pc with
      | worker pc =>
        rcases data_serving hc hserving t x s.shared with hk | hk | ⟨rfl, hw, hl⟩
        · exact .inl (.of_running ht' hk)
        · rw [← hd, hdown'] at hk
          cases hk
        · -- the voluntary exit
          obtain ⟨u, st, hne, hu, hserving, hb⟩ := other_awake hguard ht hw hl hq
          obtain ⟨st', hu', hpc, hb'⟩ := hs.other (fun he => hne (Option.some.inj he).symm) hu
          exact .inl ⟨u, st', hu', hpc ▸ hserving, hb' hb⟩
      | _ => cases hserving
    · intro u hu hpc
      cases hu
      rw [State.pcs_getElem? ht] at hpc
      obtain rfl : pc = .add .signal := Option.some.inj hpc
      cases hc
  · cases hc
    exact .inr ⟨t, State.pcs_getElem? ht'⟩

theorem covered_signal {x : Bool} {w : Nat} {c : Cond} {m : Mutex} {k' : Pc} (hexcl : Exclusive code Pc.holds s)
    (ht : s.threads[t]? = some (.running pc)) (hc : code pc = .signal c k) (hw : s.threads[w]? = some (.waiting c m k'))
    (hcov : Covered s) : Covered ((s.setThread w (.woken m k')).setThread t (.running k)) := by
  have hs : Step code start s (.run t x w) _ := .signal ht hc hw
  have hlt : t < s.threads.length := (List.getElem?_eq_some_iff.mp ht).1
  have hne : t ≠ w := by
    rintro rfl
    rw [ht] at hw
    cases hw
  intro hdown hq
  refine covered_move hs (hcov hdown hq) ht (by rw [hc]; rfl) (List.getElem?_set_self (by simpa [State.setThread] using hlt)) ?_
  rintro rfl
  cases hc
  obtain ⟨pc0, h0⟩ := hexcl.waits _ (List.mem_of_getElem? hw)
  rcases waits h0 with ⟨-, -, rfl⟩ | ⟨task, -, hc, -⟩
  · left
    refine ⟨w, .woken m (.worker .woken), ?_, rfl, rfl⟩
    exact (List.getElem?_set_ne hne).trans (List.getElem?_set_self (List.getElem?_eq_some_iff.mp hw).1)
  · cases hc

theorem covered_step (hexcl : Exclusive code Pc.holds s)
    (hset : ∀ (t : Nat) (pc : Pc), s.pcs[t]? = some pc → pc.Settled s.shared)
    (hlocal : ∀ (t : Nat) (pc : Pc), s.pcs[t]? = some pc → Local t pc s.shared)
    (hlive : 0 < s.pcs.countP Pc.live) (hcov : Covered s) (hguard : strands s a = false)
    (hs : Step code start s a s') : Covered s' := by
  have hs0 := hs
  cases hs with
  | @lock t x w pc m k ht hc ho | @unlock t x w pc m k ht hc ho =>
    intro hdown hq
    have hlt : t < s.threads.length := (List.getElem?_eq_some_iff.mp ht).1
    refine covered_move hs0 (hcov hdown hq) ht (by rw [hc]; rfl) (List.getElem?_set_self hlt) ?_
    rintro rfl
    cases hc
  | @wait t x w pc c m k ht hc ho =>
    intro hdown hq
    rcases waits hc with ⟨rfl, -, -⟩ | ⟨task, rfl, -, -⟩
    · -- a worker blocks on an empty queue only
      have hempty : s.shared.queueSize = 0 := (hlocal t _ (State.pcs_getElem? ht)).tested
      have hpos : 0 < s.shared.queueSize := hq
      omega
    · apply covered_bystander hs0 (hcov hdown hq) ht rfl
      intro h
      cases h
  | @resume t x w m k ht ho =>
    intro hdown hq
    have hlt : t < s.threads.length := (List.getElem?_eq_some_iff.mp ht).1
    apply covered_other hs0 (hcov hdown hq)
    · intro u st hu hst hserving _
      cases hu
      rw [ht] at hst
      cases hst
      exact .inl (.of_running (List.getElem?_set_self hlt) hserving)
    · intro u hu hpc
      cases hu
      rw [State.pcs_getElem? ht] at hpc
      cases hpc
      obtain ⟨pc0, c, h0⟩ := hexcl.waits _ (List.mem_of_getElem? ht)
      rcases waits h0 with ⟨-, -, h⟩ | ⟨task, -, -, h⟩ <;> cases h
  | @signal t x w pc c k m k' ht hc hw => exact covered_signal (x := x) hexcl ht hc hw hcov
  | @signalNone t x w pc c k ht hc hnone =>
    intro hdown hq
    have hlt : t < s.threads.length := (List.getElem?_eq_some_iff.mp ht).1
    refine covered_move hs0 (hcov hdown hq) ht (by rw [hc]; rfl) (List.getElem?_set_self hlt) ?_
    rintro rfl
    cases hc
    obtain ⟨u, st, hu, hserving, hb⟩ := awake_of_live hexcl hset hdown hlive hnone
    have hne : t ≠ u := by
      rintro rfl
      rw [ht] at hu
      cases hu
      cases hserving
    exact .inl ⟨u, st, (List.getElem?_set_ne hne).trans hu, hserving, hb⟩
  | @broadcast t x w pc c k ht hc =>
    intro hdown hq
    have hlt : t < s.threads.length := (List.getElem?_eq_some_iff.mp ht).1
    refine covered_move hs0 (hcov hdown hq) ht (by rw [hc]; rfl)
      (List.getElem?_set_self (by simpa [State.wakeAll] using hlt)) ?_
    rintro rfl
    cases hc
  | @data t x w pc f ht hc =>
    exact covered_data hs0 hguard hcov ht hc (List.getElem?_set_self (List.getElem?_eq_some_iff.mp ht).1) rfl
  | @create t x w pc f child k ht hc =>
    obtain ⟨⟨i, add, l, b, rfl, rfl⟩, rfl, hf⟩ := creation hc
    obtain ⟨threads, hf⟩ := hf s.threads.length s.shared
    intro hdown hq
    dsimp only at hdown hq
    rw [hf] at hdown hq
    apply covered_bystander hs0 (hcov hdown hq) ht rfl
    intro h
    cases h
  | spurious | arrive =>
    intro hdown hq
    apply covered_other hs0 (hcov hdown hq)
    · intro u st hu
      cases hu
    · intro u hu
      cases hu

end

/-! ## Runs -/

section
variable {min max qmax : Nat} {raw : Nat → ThreadpoolTask}

/-- Runs in which no step strands a task. -/
abbrev carefulStep : PoolState → PoolAct → Option PoolState := Lts.guarded poolStep fun s a => strands s a = false

theorem settled_start :
    Asserted code Pc.holds (fun _ _ => True) (fun _ pc d => pc.Settled d) (create min max qmax raw) := by
  refine ⟨create_exclusive, trivial, ?_⟩
  intro t pc hpc
  rcases create_pcs (List.mem_of_getElem? hpc) with rfl | rfl | rfl <;> trivial

theorem careful_reachable {s s' : PoolState} {a : PoolAct} (h : carefulStep s a = some s') :
    strands s a = false ∧ poolStep s a = some s' := by
  simpa [carefulStep, Lts.guarded] using h

/-- Every pending task has an awake worker or a producer about to signal. -/
theorem covered (hmin : 1 ≤ min) (hle : min ≤ max) (hq : 1 ≤ qmax) {s : PoolState}
    (h : Lts.Reach carefulStep (create min max qmax raw) s) : Covered s ∧ Exclusive code Pc.holds s := by
  have hinv : Reachable min max qmax s ∧ Covered s ∧
      Asserted code Pc.holds (fun _ _ => True) (fun _ pc d => pc.Settled d) s := by
    apply h.invariant _ ⟨⟨raw, .refl _⟩, fun _ hq => absurd hq (Int.lt_irrefl 0), settled_start⟩
    rintro s a s' ⟨hr, hc, hset⟩ hs
    obtain ⟨hguard, hs⟩ := careful_reachable hs
    obtain ⟨raw', hr'⟩ := hr
    obtain ⟨hbounded, hcounts⟩ := accounting hle ⟨raw', hr'⟩
    have hlocal := (queue_outline qmax).reach (queue_start hq raw') hr'
    have hlive : 0 < s.pcs.countP Pc.live := by
      have h1 := hcounts.live
      have h2 := hbounded.global.min_le
      omega
    have hstep := step_cases hs
    refine ⟨⟨raw', hr'.tail hs⟩, ?_, settled_outline.asserted hset hstep⟩
    exact covered_step hset.exclusive hset.atPc hlocal.atPc hlive hc hguard hstep
  exact ⟨hinv.2.1, hinv.2.2.exclusive⟩

theorem not_stranded (hmin : 1 ≤ min) (hle : min ≤ max) (hq : 1 ≤ qmax) {s : PoolState}
    (h : Lts.Reach carefulStep (create min max qmax raw) s) (hdown : s.shared.shutdown = false) : ¬ Stranded s := by
  rintro ⟨hfree, hpos, hall⟩
  obtain ⟨hcov, hexcl⟩ := covered hmin hle hq h
  rcases hcov hdown hpos with ⟨t, st, ht, hserving, hb⟩ | ⟨t, ht⟩
  · rw [hall st (List.mem_of_getElem? ht) hserving] at hb
    cases hb
  · -- the producer would hold the mutex
    have hzero : s.pcs.countP (fun pc => pc = .add .signal) = 0 := by
      apply hexcl.count_free hfree
      · intro pc hpc
        obtain rfl : pc = .add .signal := of_decide_eq_true hpc
        rfl
      · intro pc c m k hk
        rcases waits hk with ⟨-, -, rfl⟩ | ⟨task, -, -, rfl⟩ <;> rfl
    have := List.countP_eq_zero.mp hzero _ (List.mem_of_getElem? ht)
    simp at this

/-- The voluntary exit. -/
theorem exit_step {s : PoolState} {t w : Nat} {x : Bool} (ht : s.threads[t]? = some (.running (.worker .woken)))
    (hw : 0 < s.shared.waitExitThrNum) (hl : s.shared.minThrNum < s.shared.liveThrNum) :
    ∃ s', poolStep s (.run t x w) = some s' ∧ s'.threads = s.threads.set t (.running (.worker .leave)) ∧
      s'.owner = s.owner ∧ s'.shared.queueSize = s.shared.queueSize := by
  refine ⟨_, step_data ht rfl, ?_, rfl, ?_⟩
  · simp [State.setThread, hw, hl]
  · simp [State.setThread, hw, hl]

/-- The worker exits and releases the mutex. -/
theorem stranded_of_strands {s : PoolState} (hexcl : Exclusive code Pc.holds s) {t w : Nat} {x : Bool}
    (h : strands s (.run t x w) = true) :
    ∃ s', Lts.run poolStep [.run t x w, .run t x w] s = some s' ∧ Stranded s' := by
  simp only [strands, Bool.and_eq_true, decide_eq_true_eq] at h
  obtain ⟨⟨⟨⟨ht, hw⟩, hl⟩, hq⟩, hall⟩ := h
  have hlt : t < s.threads.length := (List.getElem?_eq_some_iff.mp ht).1
  have hown : s.owner .lock = some t := (hexcl.owner .lock t).mpr ⟨_, ht, rfl⟩
  obtain ⟨s1, h1, hthreads, howner, hsize⟩ := exit_step (x := x) (w := w) ht hw hl
  have ht1 : s1.threads[t]? = some (.running (.worker .leave)) := by
    rw [hthreads]
    exact List.getElem?_set_self hlt
  have h2 : poolStep s1 (.run t x w) = some ((s1.setOwner .lock none).setThread t (.running (.worker .gone))) :=
    step_unlock ht1 rfl (howner ▸ hown)
  refine ⟨(s1.setOwner .lock none).setThread t (.running (.worker .gone)), ?_, rfl, ?_, ?_⟩
  · simp [Lts.run, h1, h2]
  · show 0 < s1.shared.queueSize
    rw [hsize]
    exact hq
  · intro st hst hserving
    obtain ⟨u, hu⟩ := List.mem_iff_getElem?.mp hst
    simp only [State.setThread, State.setOwner, hthreads, List.set_set] at hu
    by_cases hut : u = t
    · subst hut
      rw [List.getElem?_set_self hlt] at hu
      cases hu
      cases hserving
    · rw [List.getElem?_set_ne (Ne.symm hut)] at hu
      -- a thread that serves besides it was blocked before
      have hmem : st ∈ s.threads.eraseIdx t := List.mem_eraseIdx_iff_getElem?.mpr ⟨u, hut, hu⟩
      have hor := List.all_eq_true.mp hall st hmem
      rw [hserving] at hor
      exact hor

/-- No run strands a task unless a worker takes the voluntary exit in spite of a
pending task and all others are blocked; and that exit strands it. -/
theorem stranded_iff (hmin : 1 ≤ min) (hle : min ≤ max) (hq : 1 ≤ qmax) :
    (∀ s, Lts.Reach carefulStep (create min max qmax raw) s → s.shared.shutdown = false → ¬ Stranded s) ∧
    ∀ s (a : PoolAct), Lts.Reach poolStep (create min max qmax raw) s → strands s a = true →
      ∃ s', Lts.run poolStep [a, a] s = some s' ∧ Stranded s' := by
  constructor
  · intro s h hdown
    exact not_stranded hmin hle hq h hdown
  · intro s a hr h
    cases a with
    | run t x w => exact stranded_of_strands ((queue_outline qmax).reach (queue_start hq raw) hr).exclusive h
    | _ => cases h

/-- One task is stored while the only worker is about to start. -/
theorem stranded_iff_one : ∃ s : PoolState, 0 < s.shared.queueSize ∧ s.owner .lock = none ∧ ¬ Stranded s := by
  obtain ⟨s, hr, hs⟩ := Lts.Reach.of_run carefulStep (create 1 1 1 fun _ => {})
    (fun s => s.shared.queueSize > 0 && s.owner .lock = none && s.shared.shutdown = false)
    (.arrive (.add (.lock ⟨7, 9⟩)) :: steps 3 6) (by decide +kernel)
  simp only [Bool.and_eq_true, decide_eq_true_eq] at hs
  obtain ⟨⟨hpos, hfree⟩, hdown⟩ := hs
  exact ⟨s, hpos, hfree, (stranded_iff (by decide) (by decide) (by decide)).1 s hr hdown⟩

end

/-- No spurious wake-up, and nobody destroys the pool. -/
def orderly : PoolAct → Bool
  | .spurious _ => false
  | .run t _ _ => t ≠ 2
  | .arrive _ => true

/-- Ten waiting tasks make the manager create a second worker; in its next pass
it finds both idle and asks for ten exits, but nobody is blocked to hear it. The
first worker runs the ten tasks, both block, and the one whom the next task wakes
exits. -/
theorem stranded_task : ∃ s : PoolState,
    Lts.Reach (Lts.guarded poolStep fun _ a => orderly a = true) (create 1 2 10 fun _ => {}) s ∧
    s.shared.shutdown = false ∧ Stranded s := by
  obtain ⟨s, hr, hs⟩ := Lts.Reach.of_run (Lts.guarded poolStep fun _ a => orderly a = true)
    (create 1 2 10 fun _ => {})
    (fun s => s.shared.shutdown = false && s.owner .lock = none && s.shared.queueSize > 0 &&
      s.threads.all fun st => !st.pc.serving || st.blocked)
    ((List.range 10).flatMap (fun i => .arrive (.add (.lock ⟨7, i⟩)) :: steps (3 + i) 6) ++ steps 1 41 ++
      steps 0 133 ++ steps 13 3 ++ .arrive (.add (.lock ⟨7, 10⟩)) :: steps 14 6 ++ steps 0 3)
    (by decide +kernel)
  simp only [Bool.and_eq_true, decide_eq_true_eq, List.all_eq_true, Bool.or_eq_true, Bool.not_eq_true'] at hs
  obtain ⟨⟨⟨hdown, hfree⟩, hpos⟩, hall⟩ := hs
  refine ⟨s, hr, hdown, hfree, hpos, ?_⟩
  intro st hst hserving
  rcases hall st hst with h | h
  · rw [hserving] at h
    cases h
  · exact h

end CSocket.ThreadPool
