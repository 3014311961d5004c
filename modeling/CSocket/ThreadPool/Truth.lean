import CSocket.ThreadPool.Steps
/-!
# What `threadpool_add` tells its caller

A call is a thread that arrives at `threadpool_add`. `Event` logs what calls do to the
queue, and `Told` is what the log has of a call at each of its positions. A call that
finds `shutdown` set stores nothing and returns 0 as well.
-/
namespace CSocket.ThreadPool
open Pthread

/-! ## The log -/

inductive Event where
  | called (t : Nat) (task : ThreadpoolTask)
  /-- The check after the wait found `shutdown` set. -/
  | refused (t : Nat)
  | stored (t : Nat) (task : ThreadpoolTask)
  deriving DecidableEq

def Event.thread : Event → Nat
  | called t _ => t
  | refused t => t
  | stored t _ => t

/-- What the instruction at a position logs. -/
def Pc.events (d : Threadpool) (t : Nat) : Pc → List Event
  | .add (.check _) => if d.shutdown then [.refused t] else []
  | .add (.store task) => [.stored t task]
  | _ => []

def actEvents (s : PoolState) : PoolAct → List Event
  | .run t _ _ => match s.threads[t]? with
    | some (.running pc) => pc.events s.shared t
    | _ => []
  | .spurious _ => []
  | .arrive (.add (.lock task)) => [.called s.threads.length task]
  | .arrive _ => []

structure Log where
  pool : PoolState
  events : List Event := []

/-- The pool's step, logged. -/
def logStep (l : Log) (a : PoolAct) : Option Log :=
  (poolStep l.pool a).map fun s => { pool := s, events := l.events ++ actEvents l.pool a }

/-- What the log has of thread `t`. -/
def Log.of (l : Log) (t : Nat) : List Event := l.events.filter (·.thread = t)

/-- The stores of the log, in order. -/
def storedTasks (es : List Event) : List ThreadpoolTask := es.filterMap fun e => match e with
  | .stored _ task => some task
  | _ => none

/-! ## What a step logs -/

/-- What a step does to the positions, and what is logged of it. -/
inductive Logged (s s' : PoolState) : List Event → Prop
  | quiet : s'.pcs = s.pcs → s'.shared.stored = s.shared.stored → Logged s s' []
  | move {t pc k} : s.pcs[t]? = some pc → Moves pc k → s'.pcs = s.pcs.set t k →
      s'.shared.stored = s.shared.stored → Logged s s' []
  | data {t x pc r} : s.pcs[t]? = some pc → Runs t x s.shared pc r → s'.pcs = s.pcs.set t r.2 →
      s'.shared.stored = r.1.stored → Logged s s' (pc.events s.shared t)
  | create {t pc} (k) : s.pcs[t]? = some (.adjust pc) → s'.pcs = s.pcs.set t (.adjust k) ++ [.worker .lock] →
      s'.shared.stored = s.shared.stored → Logged s s' []
  | arrive (task) : s'.pcs = s.pcs ++ [.add (.lock task)] → s'.shared.stored = s.shared.stored →
      Logged s s' [.called s.threads.length task]

section
variable {s s' : PoolState}

theorem goes_events {pc k : Pc} (h : (code pc).Goes k) (d : Threadpool) (t : Nat) : pc.events d t = [] := by
  have hmoves := moves h
  cases hmoves <;> rfl

theorem Logged.of_goes {t w : Nat} {x : Bool} {pc k : Pc} (ht : s.threads[t]? = some (.running pc))
    (hg : (code pc).Goes k) (hpcs : s'.pcs = s.pcs.set t k) (hstored : s'.shared.stored = s.shared.stored) :
    Logged s s' (actEvents s (.run t x w)) := by
  have hevents : actEvents s (.run t x w) = [] := by
    simp only [actEvents, ht]
    exact goes_events hg s.shared t
  rw [hevents]
  exact .move (State.pcs_getElem? ht) (moves hg) hpcs hstored

theorem logged {a : PoolAct} (h : Step code start s a s') : Logged s s' (actEvents s a) := by
  cases h with
  | lock ht hc _ => exact .of_goes ht (by rw [hc]; rfl) (map_pc_set _ _ _) rfl
  | unlock ht hc _ => exact .of_goes ht (by rw [hc]; rfl) (map_pc_set _ _ _) rfl
  | wait ht hc _ => exact .of_goes ht (by rw [hc]; rfl) (map_pc_set _ _ _) rfl
  | signalNone ht hc _ => exact .of_goes ht (by rw [hc]; rfl) (map_pc_set _ _ _) rfl
  | signal ht hc hw =>
    refine .of_goes ht (by rw [hc]; rfl) ((map_pc_set _ _ _).trans ?_) rfl
    congr 1
    exact pcs_set_same hw rfl
  | @broadcast t x w pc c k ht hc =>
    refine .of_goes ht (by rw [hc]; rfl) ((map_pc_set _ _ _).trans ?_) rfl
    congr 1
    rw [State.wakeAll, List.map_map]
    exact List.map_congr_left fun st _ => Status.pc_wake c st
  | @resume t x w m k ht _ =>
    have hevents : actEvents s (.run t x w) = [] := by simp only [actEvents, ht]
    rw [hevents]
    exact .quiet (pcs_set_same ht rfl) rfl
  | spurious ht => exact .quiet (pcs_set_same ht rfl) rfl
  | @data t x w pc f ht hc =>
    have hevents : actEvents s (.run t x w) = pc.events s.shared t := by simp only [actEvents, ht]
    rw [hevents]
    exact .data (State.pcs_getElem? ht) (runs hc t x s.shared) (map_pc_set _ _ _) rfl
  | @create t x w pc f child k ht hc =>
    obtain ⟨i, add, l, b, rfl, rfl, rfl, rfl⟩ := creates hc
    have hevents : actEvents s (.run t x w) = [] := by simp only [actEvents, ht, Pc.events]
    rw [hevents]
    refine .create (.created i add l b) (State.pcs_getElem? ht) ?_ rfl
    show (s.threads.set t _ ++ [_]).map Status.pc = _
    rw [List.map_append, map_pc_set]
    rfl
  | @arrive pc hp =>
    cases pc with
    | add pc =>
      cases pc with
      | lock task => exact .arrive task List.map_append rfl
      | _ => cases hp
    | _ => cases hp

end

/-! ## What the log has of a call -/

/-- At each position of a call, by its thread `t`, with the log `h` of that thread. -/
def Told (t : Nat) (h : List Event) : Pc → Prop
  | .add (.lock task) | .add (.test task) | .add (.wait task) | .add (.check task) | .add (.store task) =>
    h = [.called t task]
  | .add .broadcast | .add .refused => ∃ task, h = [.called t task, .refused t]
  | .add .signal | .add .stored => ∃ task, h = [.called t task, .stored t task]
  | .add (.returned ret stored) =>
    ret = 0 ∧ ∃ task, h = [.called t task, if stored then .stored t task else .refused t]
  | .worker _ | .adjust _ | .destroy _ => h = []

theorem Told.move {t : Nat} {h : List Event} {pc k : Pc} (hm : Moves pc k) (ht : Told t h pc) : Told t h k := by
  cases hm with
  | refused | stored => exact ⟨rfl, ht⟩
  | _ => exact ht

theorem Told.data {t : Nat} {x : Bool} {d : Threadpool} {h : List Event} {pc : Pc} {r : Threadpool × Pc}
    (hr : Runs t x d pc r) (ht : Told t h pc) : Told t (h ++ pc.events d t) r.2 := by
  cases hr with
  | refuses task hdown =>
    obtain rfl : h = [.called t task] := ht
    exact ⟨task, by simp [Pc.events, hdown]⟩
  | accepts task hdown =>
    obtain rfl : h = [.called t task] := ht
    simp [Pc.events, hdown, Told]
  | store task =>
    obtain rfl : h = [.called t task] := ht
    exact ⟨task, rfl⟩
  | _ => simpa [Pc.events, Told] using ht

/-- An instruction logs the store that it makes. -/
theorem runs_stored {t : Nat} {x : Bool} {d : Threadpool} {pc : Pc} {r : Threadpool × Pc} (h : Runs t x d pc r) :
    r.1.stored = d.stored ++ storedTasks (pc.events d t) := by
  cases h with
  | store task =>
    obtain ⟨taskQueue, hstore⟩ := store_frame d task.function task.arg
    rw [hstore]
    rfl
  | refuses task hdown => simp [Pc.events, hdown, storedTasks]
  | accepts task hdown => simp [Pc.events, hdown, storedTasks]
  | _ => exact (List.append_nil _).symm

/-- Every thread is where its log says, the log knows no other, and its stores are the
queue's. -/
structure Log.Ok (l : Log) : Prop where
  queue : l.pool.shared.stored = storedTasks l.events
  known : ∀ t, l.pool.pcs.length ≤ t → l.of t = []
  told : ∀ t pc, l.pool.pcs[t]? = some pc → Told t (l.of t) pc

theorem events_thread (d : Threadpool) (t : Nat) (pc : Pc) : ∀ e ∈ pc.events d t, e.thread = t := by
  intro e he
  unfold Pc.events at he
  split at he
  · split at he
    · rw [List.mem_singleton.mp he]
      rfl
    · cases he
  · rw [List.mem_singleton.mp he]
    rfl
  · cases he

theorem filter_events_self (d : Threadpool) (t : Nat) (pc : Pc) :
    (pc.events d t).filter (·.thread = t) = pc.events d t := by
  rw [List.filter_eq_self]
  intro e he
  simpa using events_thread d t pc e he

theorem filter_events_ne (d : Threadpool) {t u : Nat} (pc : Pc) (h : t ≠ u) :
    (pc.events d u).filter (·.thread = t) = [] := by
  rw [List.filter_eq_nil_iff]
  intro e he
  simpa [events_thread d u pc e he] using h.symm

theorem Log.Ok.step {l l' : Log} {a : PoolAct} (h : l.Ok) (hs : logStep l a = some l') : l'.Ok := by
  obtain ⟨s', hpool, rfl⟩ := Option.map_eq_some_iff.mp hs
  have hlog := logged (step_cases hpool)
  generalize actEvents l.pool a = es at hlog
  suffices hnext : s'.shared.stored = l.pool.shared.stored ++ storedTasks es ∧
      (∀ t, s'.pcs.length ≤ t → l.of t ++ es.filter (·.thread = t) = []) ∧
      ∀ t pc, s'.pcs[t]? = some pc → Told t (l.of t ++ es.filter (·.thread = t)) pc by
    have hof : ∀ t, (Log.mk s' (l.events ++ es)).of t = l.of t ++ es.filter (·.thread = t) :=
      fun t => List.filter_append _ _
    obtain ⟨hqueue, hknown, htold⟩ := hnext
    refine ⟨?_, fun t ht => (hof t).trans (hknown t ht), fun t pc ht => (hof t).symm ▸ htold t pc ht⟩
    rw [hqueue, h.queue]
    exact List.filterMap_append.symm
  cases hlog with
  | quiet hpcs hstored =>
    simp only [List.filter_nil, List.append_nil, hpcs]
    exact ⟨hstored.trans (List.append_nil _).symm, h.known, h.told⟩
  | @move u pc k hu hmoves hpcs hstored =>
    simp only [List.filter_nil, List.append_nil, hpcs, List.length_set]
    refine ⟨hstored.trans (List.append_nil _).symm, h.known, ?_⟩
    exact forall_set ((h.told u pc hu).move hmoves) fun t pc' _ ht => h.told t pc' ht
  | @data u x pc r hu hruns hpcs hstored =>
    have hlt : u < l.pool.pcs.length := (List.getElem?_eq_some_iff.mp hu).1
    rw [hpcs, List.length_set]
    refine ⟨hstored.trans (runs_stored hruns), fun t ht => ?_, forall_set ?_ fun t pc' hne ht => ?_⟩
    · rw [filter_events_ne _ pc (by omega), List.append_nil]
      exact h.known t ht
    · rw [filter_events_self]
      exact (h.told u pc hu).data hruns
    · rw [filter_events_ne _ pc hne, List.append_nil]
      exact h.told t pc' ht
  | @create u pc k hu hpcs hstored =>
    simp only [List.filter_nil, List.append_nil, hpcs, List.length_append, List.length_set]
    have hself : l.of u = [] := h.told u (.adjust pc) hu
    refine ⟨hstored.trans (List.append_nil _).symm, fun t ht => h.known t (by omega),
      forall_append ?_ (forall_set hself fun t pc' _ ht => h.told t pc' ht)⟩
    exact h.known _ (by simp)
  | arrive task hpcs hstored =>
    have hfresh : ∀ t, t ≠ l.pool.threads.length →
        [Event.called l.pool.threads.length task].filter (·.thread = t) = [] := by
      intro t hne
      rw [List.filter_cons_of_neg fun hd => hne (of_decide_eq_true hd).symm, List.filter_nil]
    rw [hpcs, List.length_append, List.length_singleton, State.length_pcs]
    refine ⟨hstored.trans (List.append_nil _).symm, fun t ht => ?_, forall_append ?_ fun t pc' ht => ?_⟩
    · rw [hfresh t (by omega), List.append_nil]
      exact h.known t (by rw [State.length_pcs]; omega)
    · rw [State.length_pcs, h.known _ (by simp)]
      simp [Event.thread, Told]
    · have hlt : t < l.pool.pcs.length := (List.getElem?_eq_some_iff.mp ht).1
      rw [State.length_pcs] at hlt
      rw [hfresh t (by omega), List.append_nil]
      exact h.told t pc' ht

/-! ## Runs -/

/-- Nothing has been called yet. -/
def begin (min max qmax : Nat) (raw : Nat → ThreadpoolTask) : Log where
  pool := create min max qmax raw

theorem begin_ok (min max qmax : Nat) (raw : Nat → ThreadpoolTask) : (begin min max qmax raw).Ok := by
  refine ⟨rfl, fun t _ => rfl, fun t pc ht => ?_⟩
  rcases create_pcs (List.mem_of_getElem? ht) with rfl | rfl | rfl <;> rfl

/-- The thread's check, if this step runs it, finds `shutdown` unset. -/
def Admits (t : Nat) (l : Log) (a : PoolAct) : Prop :=
  ∀ task, a.actor = some t → l.pool.threads[t]? = some (.running (.add (.check task))) → l.pool.shared.shutdown = false

theorem refused_events {d : Threadpool} {t u : Nat} {pc : Pc} :
    .refused t ∈ pc.events d u ↔ u = t ∧ d.shutdown = true ∧ ∃ task, pc = .add (.check task) := by
  unfold Pc.events
  split
  · split
    case isTrue hdown => simp [hdown, eq_comm]
    case isFalse hdown => simp [hdown]
  · simp
  case h_3 hcheck _ => simpa using fun _ _ task => hcheck task

theorem admits_iff {t : Nat} {l : Log} {a : PoolAct} : Admits t l a ↔ .refused t ∉ actEvents l.pool a := by
  cases a with
  | run u x w =>
    have hactor : (Act.run u x w : PoolAct).actor = some t ↔ u = t := by simp [Act.actor]
    simp only [Admits, hactor, actEvents]
    constructor
    · intro h hmem
      split at hmem
      case h_1 pc hpc =>
        obtain ⟨rfl, hdown, task, rfl⟩ := refused_events.mp hmem
        rw [h task rfl hpc] at hdown
        cases hdown
      case h_2 => cases hmem
    · rintro h task rfl hpc
      rw [hpc] at h
      exact Bool.eq_false_iff.mpr fun hdown => h (refused_events.mpr ⟨rfl, hdown, task, rfl⟩)
  | spurious u => exact iff_of_true (fun task h => nomatch h) (by simp [actEvents])
  | arrive pc =>
    refine iff_of_true (fun task h => nomatch h) ?_
    unfold actEvents
    split <;> simp_all

theorem logStep_events {l l' : Log} {a : PoolAct} (h : logStep l a = some l') :
    l'.events = l.events ++ actEvents l.pool a := by
  obtain ⟨s, -, rfl⟩ := Option.map_eq_some_iff.mp h
  rfl

theorem events_grow {as : List PoolAct} {l l' : Log} (h : Lts.run logStep as l = some l') : l.events <+: l'.events := by
  refine Lts.Reach.invariant (P := fun l1 => l.events <+: l1.events) (fun l1 a l2 hpre hs => ?_) ⟨as, h⟩ (List.prefix_refl _)
  rw [logStep_events hs]
  exact hpre.trans (List.prefix_append _ _)

theorem refused_iff {t : Nat} {as : List PoolAct} {l l' : Log} (hrun : Lts.run logStep as l = some l')
    (h0 : .refused t ∉ l.events) : .refused t ∉ l'.events ↔ Lts.Along logStep (Admits t) as l := by
  induction as generalizing l with
  | nil =>
    cases hrun
    exact iff_of_true h0 trivial
  | cons a as ih =>
    obtain ⟨l1, hs, hrest⟩ := Option.bind_eq_some_iff.mp hrun
    have hevents := logStep_events hs
    by_cases hadm : Admits t l a
    · have h1 : .refused t ∉ l1.events := by
        rw [hevents, List.mem_append, not_or]
        exact ⟨h0, admits_iff.mp hadm⟩
      rw [ih hrest h1]
      constructor
      · refine fun h => ⟨hadm, fun l2 hl2 => ?_⟩
        obtain rfl : l1 = l2 := Option.some.inj (hs.symm.trans hl2)
        exact h
      · exact fun h => h.2 l1 hs
    · have h1 : .refused t ∈ l1.events := by
        rw [hevents, List.mem_append]
        exact .inr (not_not.mp fun h => hadm (admits_iff.mpr h))
      exact iff_of_false (fun h => h ((events_grow hrest).subset h1)) fun h => hadm h.1

/-! ## The result -/

/-- The caller may take 0 for its task stored, once, and only then. -/
structure Truthful (events : List Event) (t : Nat) (task : ThreadpoolTask) (ret : Int) : Prop where
  zero : ret = 0 → events.count (.stored t task) = 1
  unstored : .stored t task ∉ events → ret ≠ 0

/-- What a call returns is true just if its check does not find `shutdown` set. The
stores are those of the queue. -/
theorem truthful_iff {min max qmax : Nat} {raw : Nat → ThreadpoolTask} {as : List PoolAct} {l : Log}
    (hrun : Lts.run logStep as (begin min max qmax raw) = some l) :
    l.pool.shared.stored = storedTasks l.events ∧
    ∀ t task ret stored, .called t task ∈ l.events →
      l.pool.threads[t]? = some (.running (.add (.returned ret stored))) →
      (Truthful l.events t task ret ↔ Lts.Along logStep (Admits t) as (begin min max qmax raw)) := by
  have hok : l.Ok := Lts.Reach.invariant (fun _ _ _ h hs => h.step hs) ⟨as, hrun⟩ (begin_ok min max qmax raw)
  refine ⟨hok.queue, fun t task ret stored hcall hret => ?_⟩
  obtain ⟨rfl, task', hof⟩ := hok.told t _ (State.pcs_getElem? hret)
  have hmem : ∀ e : Event, e.thread = t → (e ∈ l.events ↔ e ∈ l.of t) := fun e he => by simp [Log.of, he]
  rw [hmem _ rfl, hof] at hcall
  obtain rfl : task = task' := by cases stored <;> simpa using hcall
  have hcount : l.events.count (.stored t task) = (l.of t).count (.stored t task) :=
    (List.count_filter (by simp [Event.thread])).symm
  rw [← refused_iff hrun (by simp [begin]), hmem _ rfl]
  cases stored with
  | true =>
    refine iff_of_true ⟨fun _ => ?_, fun hno => ?_⟩ (by simp [hof])
    · simp [hcount, hof]
    · rw [hmem _ rfl, hof] at hno
      simp at hno
  | false =>
    refine iff_of_false (fun h => ?_) (by simp [hof])
    have hone := h.zero rfl
    rw [hcount, hof] at hone
    simp at hone

/-- A producer, thread 3, adds a task. -/
theorem truthful_iff_stored :
    ∃ l, Lts.run logStep (.arrive (.add (.lock ⟨1, 2⟩)) :: steps 3 6) (begin 1 1 1 fun _ => {}) = some l ∧
      Truthful l.events 3 ⟨1, 2⟩ 0 := by
  obtain ⟨l, hrun, hl⟩ := (Option.any_eq_true _ _).mp
    (show (Lts.run logStep (.arrive (.add (.lock ⟨1, 2⟩)) :: steps 3 6) (begin 1 1 1 fun _ => {})).any
      (fun l => l.events = [.called 3 ⟨1, 2⟩, .stored 3 ⟨1, 2⟩] ∧
        l.pool.threads[3]? = some (.running (.add (.returned 0 true)))) = true from by decide)
  obtain ⟨hevents, hret⟩ := of_decide_eq_true hl
  refine ⟨l, hrun, ((truthful_iff hrun).2 3 _ 0 true (by simp [hevents]) hret).mpr ?_⟩
  exact (refused_iff hrun (by simp [begin])).mp (by simp [hevents])

/-- After `threadpool_destroy` has set `shutdown` the call returns 0, with nothing
stored. -/
theorem refused_returns_zero :
    ∃ l, Lts.run logStep (steps 2 1 ++ .arrive (.add (.lock ⟨1, 2⟩)) :: steps 3 5) (begin 1 1 1 fun _ => {}) = some l ∧
      .called 3 ⟨1, 2⟩ ∈ l.events ∧ l.pool.threads[3]? = some (.running (.add (.returned 0 false))) ∧
      ¬ Truthful l.events 3 ⟨1, 2⟩ 0 := by
  obtain ⟨l, hrun, hl⟩ := (Option.any_eq_true _ _).mp
    (show (Lts.run logStep (steps 2 1 ++ .arrive (.add (.lock ⟨1, 2⟩)) :: steps 3 5) (begin 1 1 1 fun _ => {})).any
      (fun l => l.events = [.called 3 ⟨1, 2⟩, .refused 3] ∧
        l.pool.threads[3]? = some (.running (.add (.returned 0 false)))) = true from by decide)
  obtain ⟨hevents, hret⟩ := of_decide_eq_true hl
  refine ⟨l, hrun, by simp [hevents], hret, fun h => ?_⟩
  have hone := h.zero rfl
  rw [hevents] at hone
  simp at hone

end CSocket.ThreadPool
