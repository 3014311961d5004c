import CSocket.ThreadPool.Wakeup
/-!
# The queue at shutdown

Before `shutdown` is set a producer sleeps on a full queue only (`sleeps_on_full`): the
worker that makes room wakes them all under the same mutex. `shutdown` is set without the
mutex, so one thread may have passed its test already; it stores or takes one more task,
and then the queue stays as it is (`queue_frozen`). The producers that still sleep are
those that nobody will wake (`sleeps_for_ever`).
-/
namespace CSocket.ThreadPool
open Pthread

/-- Past the tests of `shutdown`. -/
def Pc.committed : Pc → Bool
  | .worker .take | .add (.store _) => true
  | _ => false

/-- About to wake the producers. -/
def Pc.announcing : Pc → Bool
  | .worker (.broadcast _) => true
  | _ => false

theorem committed_held {pc : Pc} (h : pc.committed = true) : pc.holds .lock = true := by
  unfold Pc.committed at h
  split at h
  · rfl
  · rfl
  · cases h

theorem announcing_held {pc : Pc} (h : pc.announcing = true) : pc.holds .lock = true := by
  unfold Pc.announcing at h
  split at h
  · rfl
  · cases h

theorem goes_committed {pc k : Pc} (h : (code pc).Goes k) : k.committed = false ∧ pc.committed = false := by
  cases moves h <;> exact ⟨rfl, rfl⟩

theorem goes_announcing {pc k : Pc} (h : (code pc).Goes k) : k.announcing = false := by
  cases moves h <;> rfl

theorem wait_committed {pc k : Pc} {c : Cond} {m : Mutex} (h : code pc = .wait c m k) : k.committed = false :=
  (goes_committed (by rw [h]; rfl)).1

theorem wait_announcing {pc k : Pc} {c : Cond} {m : Mutex} (h : code pc = .wait c m k) : k.announcing = false :=
  goes_announcing (by rw [h]; rfl)

theorem reachable_exclusive {min max qmax : Nat} {s : PoolState} (h : Reachable min max qmax s) :
    Exclusive code Pc.holds s := by
  obtain ⟨raw, hr⟩ := h
  exact (settled_outline.reach settled_start hr).exclusive

section
variable {s s' : PoolState} {a : PoolAct}

/-! ## The last task -/

/-- What the queue may still get or lose. -/
structure Frozen (s s' : PoolState) : Prop where
  shutdown : s'.shared.shutdown = true
  moved : ∃ stored taken, s'.shared.stored = s.shared.stored ++ stored ∧ s'.shared.taken = s.shared.taken ++ taken ∧
    stored.length + taken.length + s'.pcs.countP Pc.committed ≤ s.pcs.countP Pc.committed

theorem Frozen.refl (h : s.shared.shutdown = true) : Frozen s s := ⟨h, [], [], by simp, by simp, by simp⟩

/-- A data instruction at shutdown: it stores or takes what it was about to, or does neither
and is no closer to it. -/
theorem data_frozen {t : Nat} {x : Bool} {d : Threadpool} {pc : Pc} {f : Nat → Bool → Threadpool → Threadpool × Pc}
    (hc : code pc = .data f) (hdown : d.shutdown = true) :
    (f t x d).1.shutdown = true ∧ ∃ stored taken, (f t x d).1.stored = d.stored ++ stored ∧
      (f t x d).1.taken = d.taken ++ taken ∧
      stored.length + taken.length + (f t x d).2.committed.toNat ≤ pc.committed.toNat := by
  have hr := runs hc t x d
  generalize f t x d = r at hr ⊢
  have hsame {d' : Threadpool} {k : Pc} (hs : d'.shutdown = true) (hstored : d'.stored = d.stored)
      (htaken : d'.taken = d.taken) (hk : k.committed = false) :
      d'.shutdown = true ∧ ∃ stored taken, d'.stored = d.stored ++ stored ∧ d'.taken = d.taken ++ taken ∧
        stored.length + taken.length + k.committed.toNat ≤ pc.committed.toNat :=
    ⟨hs, [], [], by simp [hstored], by simp [htaken], by simp [hk]⟩
  cases hr with
  | take => exact ⟨hdown, [], [(t, d.taskAt d.queueFront)], by simp [Threadpool.take], rfl, Nat.le_refl _⟩
  | store task =>
    obtain ⟨taskQueue, hstore⟩ := store_frame d task.function task.arg
    rw [hstore]
    exact ⟨hdown, [task], [], rfl, by simp, Nat.le_refl _⟩
  | goesOn h | accepts _ h =>
    -- the tests are passed before the shutdown only
    rw [hdown] at h
    cases h
  | call => exact hsame rfl rfl rfl rfl
  | _ => exact hsame hdown rfl rfl rfl

theorem Frozen.step {s0 : PoolState} (h : Frozen s0 s) (hs : Step code start s a s') : Frozen s0 s' := by
  obtain ⟨hdown, stored, taken, hstored, htaken, hle⟩ := h
  cases hs.effect with
  | quiet hpcs hd =>
    rw [← hpcs] at hle
    rw [← hd] at hstored htaken hdown
    exact ⟨hdown, stored, taken, hstored, htaken, hle⟩
  | @move t x w pc k _ ht hg hpcs hd =>
    have hset := countP_set_add (State.pcs_getElem? ht) k Pc.committed
    obtain ⟨hk, hpc⟩ := goes_committed hg
    rw [Status.pc_running, hk, hpc, ← hpcs] at hset
    rw [← hd] at hstored htaken hdown
    exact ⟨hdown, stored, taken, hstored, htaken, by omega⟩
  | @data t x w pc f _ ht hc hpcs hd =>
    have hset := countP_set_add (State.pcs_getElem? ht) (f t x s.shared).2 Pc.committed
    obtain ⟨hdown', stored', taken', hstored', htaken', hle'⟩ := data_frozen (t := t) (x := x) hc hdown
    rw [Status.pc_running, ← hpcs] at hset
    rw [← hd] at hdown' hstored' htaken'
    refine ⟨hdown', stored ++ stored', taken ++ taken', ?_, ?_, ?_⟩
    · rw [hstored', hstored, List.append_assoc]
    · rw [htaken', htaken, List.append_assoc]
    · rw [List.length_append, List.length_append]
      omega
  | @create t x w pc f child k _ ht hc hpcs hd =>
    obtain ⟨i, add, l, b, rfl, rfl, rfl, rfl⟩ := creates hc
    have hset := countP_set_add (State.pcs_getElem? ht) (.adjust (.created i add l b)) Pc.committed
    have happend : s'.pcs.countP Pc.committed =
        (s.pcs.set t (.adjust (.created i add l b))).countP Pc.committed := by
      rw [hpcs, List.countP_append]
      rfl
    have hset' : (s.pcs.set t (.adjust (.created i add l b))).countP Pc.committed = s.pcs.countP Pc.committed := hset
    refine ⟨by rw [hd]; exact hdown, stored, taken, by rw [hd]; exact hstored, by rw [hd]; exact htaken, ?_⟩
    rw [happend, hset']
    exact hle
  | @arrive pc hp hpcs hd =>
    have happend : s'.pcs.countP Pc.committed = s.pcs.countP Pc.committed := by
      rw [hpcs, List.countP_append]
      cases pc with
      | add pc => cases pc <;> first | rfl | cases hp
      | _ => cases hp
    rw [← hd] at hstored htaken hdown
    exact ⟨hdown, stored, taken, hstored, htaken, by rw [happend]; exact hle⟩

theorem Frozen.reach (h : s.shared.shutdown = true) (hr : Lts.Reach poolStep s s') : Frozen s s' :=
  hr.invariant (fun _ _ _ h hs => Frozen.step h (step_cases hs)) (Frozen.refl h)

theorem committed_free (h : Exclusive code Pc.holds s) (hfree : s.owner .lock = none) : s.pcs.countP Pc.committed = 0 :=
  h.count_free hfree (fun _ hpc => committed_held hpc) fun _ _ _ _ hk => wait_committed hk

theorem announcing_free (h : Exclusive code Pc.holds s) (hfree : s.owner .lock = none) :
    s.pcs.countP Pc.announcing = 0 :=
  h.count_free hfree (fun _ hpc => announcing_held hpc) fun _ _ _ _ hk => wait_announcing hk

/-- Whatever is pending when `shutdown` is set, at most one more task enters or leaves the
queue, and none if nobody is in the mutex. -/
theorem queue_frozen {min max qmax : Nat} (h : Reachable min max qmax s) (hdown : s.shared.shutdown = true)
    (hr : Lts.Reach poolStep s s') :
    ∃ stored taken, s'.shared.stored = s.shared.stored ++ stored ∧ s'.shared.taken = s.shared.taken ++ taken ∧
      stored.length + taken.length ≤ 1 ∧ (s.owner .lock = none → stored = [] ∧ taken = []) := by
  have hexcl := reachable_exclusive h
  obtain ⟨-, stored, taken, hstored, htaken, hle⟩ := Frozen.reach hdown hr
  have hone : s.pcs.countP Pc.committed ≤ 1 :=
    hexcl.count_le_one (fun _ hpc => committed_held hpc) fun _ _ _ _ hk => wait_committed hk
  refine ⟨stored, taken, hstored, htaken, by omega, fun hfree => ?_⟩
  have hzero := committed_free hexcl hfree
  exact ⟨List.length_eq_zero_iff.mp (by omega), List.length_eq_zero_iff.mp (by omega)⟩

/-- The worker that had passed its test takes the last task. -/
theorem queue_frozen_last : ∃ s s' : PoolState, s.shared.shutdown = true ∧ s'.shared.taken = [(0, ⟨7, 9⟩)] ∧
    ∃ stored taken, s'.shared.stored = s.shared.stored ++ stored ∧ s'.shared.taken = s.shared.taken ++ taken ∧
      stored.length + taken.length ≤ 1 ∧ (s.owner .lock = none → stored = [] ∧ taken = []) := by
  obtain ⟨s, hr, hs⟩ := Lts.Reach.of_run poolStep (create 1 1 1 fun _ => {})
    (fun s => s.shared.shutdown && (Lts.run poolStep (steps 0 1) s).any fun s' => s'.shared.taken = [(0, ⟨7, 9⟩)])
    (.arrive (.add (.lock ⟨7, 9⟩)) :: steps 3 6 ++ steps 0 3 ++ steps 2 1) (by decide +kernel)
  obtain ⟨hdown, hs⟩ := Bool.and_eq_true_iff.mp hs
  obtain ⟨s', hrun, htaken⟩ := (Option.any_eq_true _ _).mp hs
  exact ⟨s, s', hdown, of_decide_eq_true htaken, queue_frozen ⟨_, hr⟩ hdown ⟨_, hrun⟩⟩

/-! ## Producers that sleep -/

/-- About to sleep on a full queue, or sleeping. -/
def forRoom : Status Mutex Cond Pc → Bool
  | .running (.add (.wait _)) => true
  | .waiting .queueNotFull _ _ => true
  | _ => false

/-- Whoever sleeps for room has none, or is about to be woken. -/
def Roomless (s : PoolState) : Prop :=
  ∀ st ∈ s.threads, forRoom st = true → s.shared.queueSize = s.shared.queueMaxSize ∨ ∃ pc ∈ s.pcs, pc.announcing = true

theorem goes_forRoom {pc k : Pc} (h : (code pc).Goes k) : forRoom (.running k) = false := by
  cases moves h <;> rfl

/-- A producer goes to sleep after it has seen a full queue. -/
theorem data_forRoom {t : Nat} {x : Bool} {d : Threadpool} {pc : Pc} {f : Nat → Bool → Threadpool → Threadpool × Pc}
    (hc : code pc = .data f) (hk : forRoom (.running (f t x d).2) = true) :
    (f t x d).1.queueSize = (f t x d).1.queueMaxSize := by
  have hr := runs hc t x d
  generalize f t x d = r at hr hk ⊢
  cases hr with
  | full task hfull hdown => exact hfull
  | _ => cases hk

/-- Nobody new sleeps, the queue has its size, and who announced still does. -/
theorem Roomless.keep (h : Roomless s) (hst : ∀ st ∈ s'.threads, forRoom st = true → ∃ st0 ∈ s.threads, forRoom st0 = true)
    (hsize : s'.shared.queueSize = s.shared.queueSize) (hmax : s'.shared.queueMaxSize = s.shared.queueMaxSize)
    (hann : ∀ pc ∈ s.pcs, pc.announcing = true → pc ∈ s'.pcs) : Roomless s' := by
  intro st hst' hroom
  obtain ⟨st0, h0, hroom0⟩ := hst st hst' hroom
  rw [hsize, hmax]
  exact (h st0 h0 hroom0).imp_right fun ⟨pc, hpc, hann'⟩ => ⟨pc, hann pc hpc hann', hann'⟩

theorem not_announcing {pc : Pc} (h : ∀ k, code pc ≠ .broadcast .queueNotFull k) : pc.announcing = false := by
  unfold Pc.announcing
  split
  case h_1 task => exact absurd rfl (h (.worker (.unlock task)))
  case h_2 => rfl

/-- One thread goes on, no longer or not yet at the wait. -/
theorem forRoom_set {t : Nat} {st : Status Mutex Cond Pc} (hk : forRoom st = false) :
    ∀ st' ∈ s.threads.set t st, forRoom st' = true → ∃ st0 ∈ s.threads, forRoom st0 = true := by
  intro st' hst' hroom
  rcases List.mem_or_eq_of_mem_set hst' with hst' | rfl
  · exact ⟨st', hst', hroom⟩
  · rw [hk] at hroom
    cases hroom

theorem forRoom_wake {c : Cond} {st : Status Mutex Cond Pc} (h : forRoom (st.wake c) = true) : forRoom st = true := by
  cases st with
  | running | woken => exact h
  | waiting c' m k =>
    rw [Status.wake_waiting] at h
    split at h
    · cases h
    · exact h

/-- Who is not woken from the sleep has not gone to sleep. -/
theorem forRoom_woken {st : Status Mutex Cond Pc} (h : forRoom (st.wake .queueNotFull) = true) :
    ∃ task, st = .running (.add (.wait task)) := by
  cases st with
  | running pc =>
    have hpc : forRoom (.running pc) = true := h
    unfold forRoom at hpc
    split at hpc
    case h_1 he => exact ⟨_, he⟩
    case h_2 he => cases he
    case h_3 => cases hpc
  | woken => cases h
  | waiting c' m k =>
    rw [Status.wake_waiting] at h
    cases c' with
    | queueNotFull => cases h
    | queueNotEmpty => cases h

/-- Two threads are not in the mutex at once. -/
theorem no_other (hexcl : Exclusive code Pc.holds s) {t : Nat} {pc pc' : Pc} (ht : s.threads[t]? = some (.running pc))
    (hpc : pc.holds .lock = true) (hpc' : .running pc' ∈ s.threads) (hheld : pc'.holds .lock = true) : pc' = pc := by
  obtain ⟨u, hu⟩ := List.mem_iff_getElem?.mp hpc'
  obtain rfl := hexcl.unique ht hpc hu hheld
  rw [ht] at hu
  exact (Status.running.inj (Option.some.inj hu)).symm

theorem roomless_data {t w : Nat} {x : Bool} {pc : Pc} {f : Nat → Bool → Threadpool → Threadpool × Pc} (h : Roomless s)
    (hexcl : Exclusive code Pc.holds s) (hlocal : Local t pc s.shared) (hs : Step code start s (.run t x w) s')
    (ht : s.threads[t]? = some (.running pc)) (hc : code pc = .data f)
    (hthreads : s'.threads = s.threads.set t (.running (f t x s.shared).2)) (hd : s'.shared = (f t x s.shared).1) :
    Roomless s' := by
  have hlt : t < s.threads.length := (List.getElem?_eq_some_iff.mp ht).1
  have hkept := hs.run_kept ht (not_announcing (by rw [Status.pc_running, hc]; nofun))
  intro st hst hroom
  rcases List.mem_or_eq_of_mem_set (hthreads ▸ hst) with hold | rfl
  · cases dataOf hc with
    | take =>
      refine .inr ⟨.worker (.broadcast (s.shared.taskAt s.shared.queueFront)), ?_, rfl⟩
      exact List.mem_map.mpr ⟨_, hthreads ▸ List.mem_set hlt _, rfl⟩
    | store task =>
      -- the store's own test and the mutex leave nobody to sleep
      rcases h st hold hroom with hfull | ⟨pc', hpc', hann⟩
      · exact absurd hfull hlocal.tested
      · obtain ⟨u, hu⟩ := List.mem_iff_getElem?.mp hpc'
        rcases hexcl.running_or_waits hu with hu | ⟨pc0, c, m, h0⟩
        · rw [no_other hexcl ht rfl (List.mem_of_getElem? hu) (announcing_held hann)] at hann
          cases hann
        · rw [wait_announcing h0] at hann
          cases hann
    | run task => exact (h st hold hroom).imp (by rw [hd]; exact id) fun ⟨pc', hpc', hann⟩ => ⟨pc', hkept pc' hpc' hann, hann⟩
    | neutral hf =>
      have hsame := hf.same t x s.shared
      rw [hd, hsame.queueSize, hsame.queueMaxSize]
      exact (h st hold hroom).imp_right fun ⟨pc', hpc', hann⟩ => ⟨pc', hkept pc' hpc' hann, hann⟩
  · rw [hd]
    exact .inl (data_forRoom hc hroom)

theorem Roomless.step (h : Roomless s) (hexcl : Exclusive code Pc.holds s)
    (hlocal : ∀ (t : Nat) (pc : Pc), s.pcs[t]? = some pc → Local t pc s.shared) (hs : Step code start s a s') :
    Roomless s' := by
  have hs0 := hs
  cases hs with
  | @lock t x w pc m k ht hc ho | @unlock t x w pc m k ht hc ho =>
    exact h.keep (forRoom_set (goes_forRoom (by rw [hc]; rfl))) rfl rfl
      (hs0.run_kept ht (not_announcing (by rw [Status.pc_running, hc]; nofun)))
  | @wait t x w pc c m k ht hc ho =>
    refine h.keep (fun st hst hroom => ?_) rfl rfl (hs0.run_kept ht (not_announcing (by rw [Status.pc_running, hc]; nofun)))
    rcases List.mem_or_eq_of_mem_set hst with hst | rfl
    · exact ⟨st, hst, hroom⟩
    · rcases waits hc with ⟨rfl, rfl, rfl⟩ | ⟨task, rfl, -, -⟩
      · cases hroom
      · exact ⟨_, List.mem_of_getElem? ht, rfl⟩
  | @resume t x w m k ht ho =>
    obtain ⟨pc0, c, h0⟩ := hexcl.waits _ (List.mem_of_getElem? ht)
    exact h.keep (forRoom_set (goes_forRoom (by rw [h0]; rfl))) rfl rfl (hs0.run_kept ht (wait_announcing h0))
  | @signal t x w pc c k m k' ht hc hw =>
    refine h.keep (fun st hst hroom => ?_) rfl rfl (hs0.run_kept ht (not_announcing (by rw [Status.pc_running, hc]; nofun)))
    obtain ⟨st1, h1, hroom1⟩ := forRoom_set (s := s.setThread w (.woken m k')) (goes_forRoom (by rw [hc]; rfl)) st hst hroom
    exact forRoom_set rfl st1 h1 hroom1
  | @signalNone t x w pc c k ht hc hnone =>
    exact h.keep (forRoom_set (goes_forRoom (by rw [hc]; rfl))) rfl rfl
      (hs0.run_kept ht (not_announcing (by rw [Status.pc_running, hc]; nofun)))
  | @broadcast t x w pc c k ht hc =>
    by_cases hann : pc.announcing = true
    · -- the worker still has the mutex, and nobody is left asleep
      intro st hst hroom
      unfold Pc.announcing at hann
      split at hann
      case h_2 => cases hann
      cases hc
      rcases List.mem_or_eq_of_mem_set hst with hst | rfl
      · obtain ⟨st0, h0, rfl⟩ := List.mem_map.mp hst
        obtain ⟨task, rfl⟩ := forRoom_woken hroom
        cases no_other hexcl ht rfl h0 rfl
      · cases hroom
    · refine h.keep (fun st hst hroom => ?_) rfl rfl (hs0.run_kept ht (Bool.not_eq_true _ ▸ hann))
      obtain ⟨st1, h1, hroom1⟩ := forRoom_set (s := s.wakeAll c) (goes_forRoom (by rw [hc]; rfl)) st hst hroom
      obtain ⟨st0, h0, rfl⟩ := List.mem_map.mp h1
      exact ⟨st0, h0, forRoom_wake hroom1⟩
  | @data t x w pc f ht hc => exact roomless_data h hexcl (hlocal t pc (State.pcs_getElem? ht)) hs0 ht hc rfl rfl
  | @create t x w pc f child k ht hc =>
    obtain ⟨i, add, l, b, rfl, rfl, rfl, rfl⟩ := creates hc
    refine h.keep (fun st hst hroom => ?_) rfl rfl (hs0.run_kept ht rfl)
    rcases List.mem_append.mp hst with hst | hst
    · exact forRoom_set rfl st hst hroom
    · obtain rfl := List.mem_singleton.mp hst
      cases hroom
  | spurious ht => exact h.keep (forRoom_set rfl) rfl rfl (hs0.kept fun _ _ hact => nomatch hact)
  | @arrive pc hp =>
    refine h.keep (fun st hst hroom => ?_) rfl rfl (hs0.kept fun _ _ hact => nomatch hact)
    rcases List.mem_append.mp hst with hst | hst
    · exact ⟨st, hst, hroom⟩
    · obtain rfl := List.mem_singleton.mp hst
      cases pc with
      | add pc =>
        cases pc with
        | lock => cases hroom
        | _ => cases hp
      | _ => cases hroom

theorem roomless {min max qmax : Nat} (hq : 1 ≤ qmax) (h : Reachable min max qmax s) :
    Roomless s ∧ s.shared.queueMaxSize = qmax := by
  obtain ⟨raw, hr⟩ := h
  have hstart : Roomless (create min max qmax raw) := by
    intro st hst hroom
    rcases create_running hst with rfl | rfl | rfl <;> cases hroom
  have hinv : Roomless s ∧ Asserted code Pc.holds (QueueOf qmax) Local s := by
    apply hr.invariant _ ⟨hstart, queue_start hq raw⟩
    rintro s a s' ⟨h, hA⟩ hs
    have hs := step_cases hs
    exact ⟨h.step hA.exclusive hA.atPc hs, (queue_outline qmax).asserted hA hs⟩
  exact ⟨hinv.1, hinv.2.global.max⟩

/-- Outside the critical sections a producer sleeps only while the queue is full, whatever
has happened to the pool. -/
theorem sleeps_on_full {min max qmax : Nat} (hq : 1 ≤ qmax) (h : Reachable min max qmax s) (hfree : s.owner .lock = none)
    {t : Nat} {m : Mutex} {k : Pc} (ht : s.threads[t]? = some (.waiting .queueNotFull m k)) :
    s.shared.queueSize = qmax := by
  obtain ⟨hroomless, hmax⟩ := roomless hq h
  rcases hroomless _ (List.mem_of_getElem? ht) rfl with hfull | ⟨pc, hpc, hann⟩
  · exact hfull.trans hmax
  · exact absurd hann (List.countP_eq_zero.mp (announcing_free (reachable_exclusive h) hfree) pc hpc)

/-- The second producer of a queue of capacity 1. -/
theorem sleeps_on_full_second : ∃ s : PoolState,
    s.threads[4]? = some (.waiting .queueNotFull .lock (.add (.test ⟨8, 9⟩))) ∧ s.shared.queueSize = 1 := by
  obtain ⟨s, hr, hs⟩ := Lts.Reach.of_run poolStep (create 1 1 1 fun _ => {})
    (fun s => s.owner .lock = none && s.threads[4]? = some (.waiting .queueNotFull .lock (.add (.test ⟨8, 9⟩))))
    (.arrive (.add (.lock ⟨7, 9⟩)) :: .arrive (.add (.lock ⟨8, 9⟩)) :: steps 3 6 ++ steps 4 3) (by decide +kernel)
  obtain ⟨hfree, hs⟩ := Bool.and_eq_true_iff.mp hs
  exact ⟨s, of_decide_eq_true hs,
    sleeps_on_full (Nat.le_refl 1) ⟨_, hr⟩ (of_decide_eq_true hfree) (of_decide_eq_true hs)⟩

/-! ## Sleep without end -/

/-- Nobody takes a task or tells of it. -/
def Pc.idle (pc : Pc) : Bool := !pc.committed && !pc.announcing

/-- Thread `t` sleeps, and nobody will wake it. -/
structure Asleep (t : Nat) (m : Mutex) (k : Pc) (s : PoolState) : Prop where
  shutdown : s.shared.shutdown = true
  sleeping : s.threads[t]? = some (.waiting .queueNotFull m k)
  idle : ∀ pc ∈ s.pcs, pc.idle = true

theorem goes_idle {pc k : Pc} (h : (code pc).Goes k) : k.idle = true := by
  cases moves h <;> rfl

theorem data_idle {t : Nat} {x : Bool} {d : Threadpool} {pc : Pc} {f : Nat → Bool → Threadpool → Threadpool × Pc}
    (hc : code pc = .data f) (hdown : d.shutdown = true) (hpc : pc.idle = true) : (f t x d).2.idle = true := by
  have hr := runs hc t x d
  generalize f t x d = r at hr ⊢
  cases hr with
  | take => cases hpc
  | goesOn h | accepts _ h =>
    rw [hdown] at h
    cases h
  | _ => rfl

/-- Only a worker that has taken a task calls the producers. -/
theorem calls_room {pc k : Pc} (hpc : pc.idle = true) :
    code pc ≠ .signal .queueNotFull k ∧ code pc ≠ .broadcast .queueNotFull k := by
  cases pc with
  | worker pc =>
    cases pc with
    | broadcast task => cases hpc
    | _ => exact ⟨nofun, nofun⟩
  | add pc => cases pc <;> exact ⟨nofun, nofun⟩
  | adjust pc =>
    cases pc with
    | signals n => cases n <;> exact ⟨nofun, nofun⟩
    | _ => exact ⟨nofun, nofun⟩
  | destroy pc => cases pc <;> exact ⟨nofun, nofun⟩

theorem Asleep.step {t : Nat} {m : Mutex} {k : Pc} (h : Asleep t m k s) (ha : a ≠ .spurious t)
    (hs : Step code start s a s') : Asleep t m k s' := by
  obtain ⟨hdown, ht, hidle⟩ := h
  have hrunning {u : Nat} {pc : Pc} (hu : s.threads[u]? = some (.running pc)) : pc.idle = true :=
    hidle pc (List.mem_of_getElem? (State.pcs_getElem? hu))
  have hsleeps := hs.sleeps ht ha (fun u pc k' hu => (calls_room (hrunning hu)).1)
    fun u pc k' hu => (calls_room (hrunning hu)).2
  have hset {u : Nat} {k' : Pc} (hk : k'.idle = true) : ∀ pc ∈ s.pcs.set u k', pc.idle = true := by
    intro pc hpc
    rcases List.mem_or_eq_of_mem_set hpc with hpc | rfl
    · exact hidle pc hpc
    · exact hk
  cases hs.effect with
  | quiet hpcs hd => exact ⟨hd ▸ hdown, hsleeps, hpcs ▸ hidle⟩
  | move _ hu hg hpcs hd => exact ⟨hd ▸ hdown, hsleeps, hpcs ▸ hset (goes_idle hg)⟩
  | data _ hu hc hpcs hd =>
    refine ⟨hd ▸ (sizeOf_data (dataOf hc) _ _ _).shutdown hdown, hsleeps, hpcs ▸ hset (data_idle hc hdown (hrunning hu))⟩
  | create _ hu hc hpcs hd =>
    obtain ⟨i, add, l, b, rfl, rfl, rfl, rfl⟩ := creates hc
    refine ⟨hd ▸ hdown, hsleeps, fun pc hpc => ?_⟩
    rcases List.mem_append.mp (hpcs ▸ hpc) with hpc | hpc
    · exact hset rfl pc hpc
    · rw [List.mem_singleton.mp hpc]
      rfl
  | @arrive pc hp hpcs hd =>
    refine ⟨hd ▸ hdown, hsleeps, fun pc' hpc => ?_⟩
    rcases List.mem_append.mp (hpcs ▸ hpc) with hpc | hpc
    · exact hidle pc' hpc
    · obtain rfl := List.mem_singleton.mp hpc
      cases pc' with
      | add pc =>
        cases pc with
        | lock => rfl
        | _ => cases hp
      | _ => cases hp

/-- A producer that sleeps at shutdown, while nobody is in the mutex, is never woken: its
`threadpool_add` does not return, and its task is in no queue. -/
theorem sleeps_for_ever {min max qmax : Nat} (h : Reachable min max qmax s) (hdown : s.shared.shutdown = true)
    (hfree : s.owner .lock = none) {t : Nat} {m : Mutex} {k : Pc} (ht : s.threads[t]? = some (.waiting .queueNotFull m k))
    (hr : Lts.Reach (Lts.guarded poolStep fun _ a => a ≠ .spurious t) s s') :
    s'.threads[t]? = some (.waiting .queueNotFull m k) ∧ s'.shared.stored = s.shared.stored := by
  have hexcl := reachable_exclusive h
  have hidle : ∀ pc ∈ s.pcs, pc.idle = true := by
    intro pc hpc
    have hcommitted := List.countP_eq_zero.mp (committed_free hexcl hfree) pc hpc
    have hannouncing := List.countP_eq_zero.mp (announcing_free hexcl hfree) pc hpc
    simp [Pc.idle, hcommitted, hannouncing]
  have hasleep : Asleep t m k s' := by
    apply hr.invariant _ ⟨hdown, ht, hidle⟩
    intro s a s' h hs
    obtain ⟨ha, hs⟩ := Option.ite_none_right_eq_some.mp hs
    exact h.step ha (step_cases hs)
  obtain ⟨-, stored, taken, hstored, -, hle⟩ := Frozen.reach hdown hr.of_guarded
  have hzero := committed_free hexcl hfree
  have hnone : stored = [] := List.length_eq_zero_iff.mp (by omega)
  refine ⟨hasleep.sleeping, ?_⟩
  rw [hstored, hnone, List.append_nil]

/-- It sleeps on when the pool's only worker has left. -/
theorem sleeps_for_ever_second : ∃ s : PoolState, s.threads[0]? = some (.running (.worker .ended)) ∧
    s.threads[4]? = some (.waiting .queueNotFull .lock (.add (.test ⟨8, 9⟩))) ∧ s.shared.stored = [⟨7, 9⟩] := by
  obtain ⟨s, hr, hs⟩ := Lts.Reach.of_run poolStep (create 1 1 1 fun _ => {})
    (fun s => s.shared.shutdown && s.owner .lock = none &&
      s.threads[4]? = some (.waiting .queueNotFull .lock (.add (.test ⟨8, 9⟩))) && s.shared.stored = [⟨7, 9⟩] &&
      (Lts.run (Lts.guarded poolStep fun _ a => a ≠ .spurious 4) (steps 0 4) s).any fun s' =>
        s'.threads[0]? = some (.running (.worker .ended)))
    (.arrive (.add (.lock ⟨7, 9⟩)) :: .arrive (.add (.lock ⟨8, 9⟩)) :: steps 3 6 ++ steps 4 3 ++ steps 2 1)
    (by decide +kernel)
  simp only [Bool.and_eq_true, decide_eq_true_eq] at hs
  obtain ⟨⟨⟨⟨hdown, hfree⟩, ht⟩, hstored⟩, hs⟩ := hs
  obtain ⟨s', hrun, hended⟩ := (Option.any_eq_true _ _).mp hs
  obtain ⟨ht', hsame⟩ := sleeps_for_ever ⟨_, hr⟩ hdown hfree ht ⟨_, hrun⟩
  exact ⟨s', of_decide_eq_true hended, ht', hsame.trans hstored⟩

end
end CSocket.ThreadPool
