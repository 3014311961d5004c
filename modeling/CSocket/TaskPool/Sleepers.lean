import CSocket.TaskPool.Fifo
/-!
# Who sleeps through the end of the pool

`destroy_threadpool` sets `shutdown` and broadcasts without the mutex, once and to the workers
only. A worker between its test and its wait does not hear it, a blocked producer is not meant,
and a producer that comes later finds no worker. Without these three (`careful`) nobody is
blocked from then on. A producer that is does not keep the pool from its end, only a worker does
(`Joining`).
-/
namespace CSocket.TaskPool
open Pthread SimplePool

/-! ## The property and the condition -/

/-- Past the broadcast of `destroy_threadpool`. -/
def Pc.joins : Pc → Bool
  | .destroy .call | .destroy .broadcast => false
  | .destroy _ => true
  | _ => false

def broadcast (s : PoolState) : Bool := s.pcs.any Pc.joins

/-- After the broadcast nobody is blocked without having been woken, and the next step blocks
nobody. -/
def NoSleeper (s : PoolState) : Prop :=
  broadcast s = true → (∀ st ∈ s.threads, st.blocked = false) ∧
    ∀ (a : PoolAct) (s' : PoolState), poolStep s a = some s' → ∀ st ∈ s'.threads, st.blocked = false

/-- Between the test and the wait. -/
def Pc.dozes : Pc → Bool
  | .worker (.wait _) | .add (.wait _ _) => true
  | _ => false

/-- The broadcast leaves the thread awake. -/
def hears : Status Mutex Cond Pc → Bool
  | .running pc => !pc.dozes
  | .waiting c _ _ => c = .notEmptyTask
  | .woken _ _ => true

/-- The broadcast finds no thread that does not hear it, and no producer finds a full queue
after it. -/
def careful (s : PoolState) : PoolAct → Bool
  | .run t _ _ => match s.threads[t]? with
    | some (.running (.destroy .broadcast)) => s.threads.all hears
    | some (.running (.add (.test _ _))) => !broadcast s || s.shared.pool.jobNum < s.shared.pool.maxJobNum
    | _ => true
  | _ => true

/-- Blocked, or about to be. -/
def drowsy : Status Mutex Cond Pc → Bool
  | .running pc => pc.dozes
  | .waiting _ _ _ => true
  | .woken _ _ => false

/-- A worker; with `all`, any thread. -/
def Pc.counts (all : Bool) : Pc → Bool
  | .worker _ | .task _ => true
  | _ => all

def Rested (all : Bool) (threads : List (Status Mutex Cond Pc)) : Prop :=
  ∀ st ∈ threads, st.pc.counts all = true → drowsy st = false

/-! ## Who is where -/

/-- The workers come first, then the thread that destroys the pool, then the producers. -/
def Pc.Placed (thrnum t : Nat) (d : Data) : Pc → Prop
  | .worker .ended => t < thrnum ∧ t ∈ d.pool.exited
  | .worker _ | .task _ => t < thrnum
  | .add _ | .returned => thrnum < t
  | .destroy .call => t = thrnum
  | .destroy _ => t = thrnum ∧ d.pool.shutdown = true

section
variable {d d' : Data} {t u thrnum : Nat} {pc pc' k : Pc} {s s' : PoolState} {a : PoolAct}

theorem goes_placed (hg : (code pc).Goes k) (h : pc.Placed thrnum t d) : k.Placed thrnum t d := by
  cases moves hg with
  | _ => exact h

theorem data_placed (hs : DataStep t d pc pc' d') (h : pc.Placed thrnum t d) : pc'.Placed thrnum t d' := by
  cases hs with
  | worker hs =>
    cases hs with
    | exit => exact ⟨h, List.mem_append_right _ (List.mem_singleton.mpr rfl)⟩
    | _ => exact h
  | add hs => cases hs <;> exact h
  | call => exact ⟨h, rfl⟩
  | run | done | joined | joining | alone | free => exact h

theorem data_exited (hs : DataStep t d pc pc' d') :
    (∀ i ∈ d.pool.exited, i ∈ d'.pool.exited) ∧ d'.pool.thrNum = d.pool.thrNum := by
  cases hs with
  | worker hs =>
    cases hs with
    | exit => exact ⟨fun i hi => List.mem_append_left _ hi, rfl⟩
    | _ => exact ⟨fun _ hi => hi, rfl⟩
  | add hs => cases hs <;> exact ⟨fun _ hi => hi, rfl⟩
  | _ => exact ⟨fun _ hi => hi, rfl⟩

theorem Pc.Placed.other (h : pc.Placed thrnum u d) (hexited : ∀ i ∈ d.pool.exited, i ∈ d'.pool.exited)
    (hdown : d.pool.shutdown = true → d'.pool.shutdown = true) : pc.Placed thrnum u d' := by
  unfold Pc.Placed at h ⊢
  split at h
  · exact ⟨h.1, hexited u h.2⟩
  · exact h
  · exact h
  · exact h
  · exact h
  · exact h
  · exact h.imp_right hdown

theorem placed_outline (thrnum : Nat) :
    Outline code start (holdsIn Pc.held) (fun n d => thrnum < n ∧ d.pool.thrNum = thrnum)
      fun t pc d => pc.Placed thrnum t d where
  discipline := discipline
  move := goes_placed
  data {t x pc f n d} hc _ hG h := by
    have hs := data_step hc t x d
    exact ⟨⟨hG.1, (data_exited hs).2.trans hG.2⟩, data_placed hs h⟩
  create hc := absurd hc not_create
  arrive {pc n d} hpc hG := by
    refine ⟨⟨Nat.lt_succ_of_lt hG.1, hG.2⟩, ?_⟩
    cases pc with
    | add pc => exact hG.1
    | _ => cases hpc
  stable {t u x pc pc' f n d} hc _ _ _ _ h := by
    have hs := data_step hc t x d
    exact h.other (data_exited hs).1 (data_leaves hs).shutdown
  stableCreate hc := absurd hc not_create

/-! ## Nobody falls asleep -/

theorem goes_dozes (hg : (code pc).Goes k) : k.dozes = false := by
  cases moves hg <;> rfl

/-- With the flag set, only a producer that finds the queue full goes on to wait. -/
theorem data_dozes (hs : DataStep t d pc pc' d') (hdown : d.pool.shutdown = true) :
    pc'.dozes = false ∨ ∃ arg k, pc = .add (.test arg k) ∧ d.pool.maxJobNum ≤ d.pool.jobNum := by
  cases hs with
  | worker hs =>
    cases hs with
    | sleep _ hup =>
      rw [hdown] at hup
      cases hup
    | _ => exact .inl rfl
  | add hs =>
    cases hs with
    | full hc => exact .inr ⟨_, _, rfl, hc⟩
    | room | store => exact .inl rfl
  | _ => exact .inl rfl

variable {all : Bool} {threads : List (Status Mutex Cond Pc)} {st : Status Mutex Cond Pc}

theorem Rested.set (h : Rested all threads) (hst : st.pc.counts all = true → drowsy st = false) :
    Rested all (threads.set t st) := by
  intro x hx hcounts
  rcases List.mem_or_eq_of_mem_set hx with hx | rfl
  · exact h x hx hcounts
  · exact hst hcounts

theorem drowsy_wake {c : Cond} (h : drowsy st = false) : drowsy (st.wake c) = false := by
  cases st with
  | waiting => cases h
  | running | woken => exact h

theorem rested_step (hexcl : Exclusive code (holdsIn Pc.held) s) (hdown : s.shared.pool.shutdown = true)
    (hroom : ∀ t x w arg k, all = true → a = .run t x w → s.threads[t]? = some (.running (.add (.test arg k))) →
      s.shared.pool.jobNum < s.shared.pool.maxJobNum)
    (h : Rested all s.threads) (hs : Step code start s a s') : Rested all s'.threads := by
  cases hs with
  | @lock t x w pc m k ht hc | @unlock t x w pc m k ht hc | @signalNone t x w pc m k ht hc =>
    exact h.set fun _ => goes_dozes (hc ▸ rfl : (code pc).Goes k)
  | @wait t x w pc c m k ht hc =>
    have hmem := List.mem_of_getElem? ht
    rcases wait_cases hc with ⟨task, rfl, -, rfl⟩ | ⟨arg, k', rfl, -, rfl⟩
    · exact h.set fun hcounts => nomatch h _ hmem hcounts
    · exact h.set fun hcounts => nomatch h _ hmem hcounts
  | @resume t x w m k ht =>
    obtain ⟨pc, c, hc⟩ := hexcl.waits _ (List.mem_of_getElem? ht)
    exact h.set fun _ => goes_dozes (hc ▸ rfl : (code pc).Goes k)
  | @signal t x w pc c k m k' ht hc hw =>
    have hwoken : Rested all (s.threads.set w (.woken m k')) := h.set fun _ => rfl
    exact hwoken.set fun _ => goes_dozes (hc ▸ rfl : (code pc).Goes k)
  | @broadcast t x w pc c k ht hc =>
    have hwoken : Rested all (s.threads.map (Status.wake c)) := by
      intro x hx hcounts
      obtain ⟨st, hst, rfl⟩ := List.mem_map.mp hx
      rw [Status.pc_wake] at hcounts
      exact drowsy_wake (h st hst hcounts)
    exact hwoken.set fun _ => goes_dozes (hc ▸ rfl : (code pc).Goes k)
  | @data t x w pc f ht hc =>
    have hstep := data_step hc t x s.shared
    rcases data_dozes hstep hdown with hk | ⟨arg, k, rfl, hfull⟩
    · exact h.set fun _ => hk
    · refine h.set fun hcounts => ?_
      have hall : all = true := by
        generalize (f t x s.shared).2 = pc', (f t x s.shared).1 = d' at hstep hcounts
        cases hstep with
        | add hs => cases hs <;> exact hcounts
      have hlt := hroom t x w arg k hall rfl ht
      omega
  | create ht hc => exact absurd hc not_create
  | spurious ht => exact h.set fun _ => rfl
  | @arrive pc hp =>
    intro st hst hcounts
    rcases List.mem_append.mp hst with hst | hst
    · exact h st hst hcounts
    · obtain rfl := List.mem_singleton.mp hst
      cases pc with
      | add pc => cases pc <;> first | rfl | cases hp
      | _ => cases hp

/-! ## The broadcast -/

theorem goes_joins (hg : (code pc).Goes k) : pc.joins = false ∧ (k.joins = true → pc = .destroy .broadcast) := by
  cases moves hg with
  | broadcast => exact ⟨rfl, fun _ => rfl⟩
  | _ => exact ⟨rfl, nofun⟩

theorem data_joins (hs : DataStep t d pc pc' d') : pc'.joins = pc.joins := by
  cases hs <;> rfl

theorem broadcast_of (ht : s.pcs[t]? = some pc) (h : pc.joins = true) : broadcast s = true :=
  List.any_eq_true.mpr ⟨pc, List.mem_of_getElem? ht, h⟩

/-- The broadcast is a step of its own. -/
theorem broadcast_step (hs : Step code start s a s') (h : broadcast s' = true) :
    broadcast s = true ∨ ∃ t x w, a = .run t x w ∧ s.threads[t]? = some (.running (.destroy .broadcast)) := by
  obtain ⟨k, hk, hjoins⟩ := List.any_eq_true.mp h
  have hbefore (hk : k ∈ s.pcs) : broadcast s = true := List.any_eq_true.mpr ⟨k, hk, hjoins⟩
  cases hs.effect with
  | quiet hpcs =>
    rw [hpcs] at hk
    exact .inl (hbefore hk)
  | @move t x w pc k' ha ht hg hpcs =>
    rw [hpcs] at hk
    rcases List.mem_or_eq_of_mem_set hk with hk | rfl
    · exact .inl (hbefore hk)
    · obtain rfl := (goes_joins hg).2 hjoins
      exact .inr ⟨t, x, w, ha, ht⟩
  | @data t x w pc f _ ht hc hpcs =>
    rw [hpcs] at hk
    rcases List.mem_or_eq_of_mem_set hk with hk | rfl
    · exact .inl (hbefore hk)
    · rw [data_joins (data_step hc t x s.shared)] at hjoins
      exact .inl (broadcast_of (State.pcs_getElem? ht) hjoins)
  | create _ ht hc => exact absurd hc not_create
  | @arrive pc hp hpcs =>
    rw [hpcs] at hk
    rcases List.mem_append.mp hk with hk | hk
    · exact .inl (hbefore hk)
    · obtain rfl := List.mem_singleton.mp hk
      cases k with
      | add => cases hjoins
      | _ => cases hp

theorem broadcast_stays (hs : Step code start s a s') (h : broadcast s = true) : broadcast s' = true := by
  obtain ⟨pc, hpc, hjoins⟩ := List.any_eq_true.mp h
  obtain ⟨u, hu⟩ := List.mem_iff_getElem?.mp hpc
  by_cases hact : a.actor = some u
  · cases hs.effect with
    | quiet hpcs => exact broadcast_of (hpcs ▸ hu) hjoins
    | @move t x w pc' k ha ht hg hpcs =>
      subst ha
      obtain rfl : t = u := Option.some.inj hact
      obtain rfl : pc' = pc := Option.some.inj ((State.pcs_getElem? ht).symm.trans hu)
      rw [(goes_joins hg).1] at hjoins
      cases hjoins
    | @data t x w pc' f ha ht hc hpcs =>
      subst ha
      obtain rfl : t = u := Option.some.inj hact
      obtain rfl : pc' = pc := Option.some.inj ((State.pcs_getElem? ht).symm.trans hu)
      refine broadcast_of (t := t) (hpcs ▸ List.getElem?_set_self (List.getElem?_eq_some_iff.mp hu).1) ?_
      rw [data_joins (data_step hc t x s.shared), hjoins]
    | create _ ht hc => exact absurd hc not_create
    | arrive _ hpcs =>
      refine broadcast_of (t := u) ?_ hjoins
      rw [hpcs, List.getElem?_append_left (List.getElem?_eq_some_iff.mp hu).1, hu]
  · exact broadcast_of (hs.other_pc hact hu) hjoins

/-- The threads are where they belong (`Pc.Placed`). -/
abbrev Staged (thrnum : Nat) : PoolState → Prop :=
  Asserted code (holdsIn Pc.held) (fun n d => thrnum < n ∧ d.pool.thrNum = thrnum) fun t pc d => pc.Placed thrnum t d

/-- There is one thread past the broadcast, and the flag is set. -/
theorem Staged.joins (h : Staged thrnum s) (hb : broadcast s = true) : ∃ pc : DestroyPc,
    s.threads[thrnum]? = some (.running (.destroy pc)) ∧ (Pc.destroy pc).joins = true ∧
    s.shared.pool.shutdown = true := by
  obtain ⟨pc, hpc, hjoins⟩ := List.any_eq_true.mp hb
  obtain ⟨t, ht⟩ := List.mem_iff_getElem?.mp hpc
  have hplaced := h.atPc t pc ht
  cases pc with
  | destroy pc =>
    have hrunning : s.threads[t]? = some (.running (.destroy pc)) := by
      rcases h.exclusive.running_or_waits ht with ht | ⟨pc0, c, m, h0⟩
      · exact ht
      · rcases wait_cases h0 with ⟨task, -, -, he⟩ | ⟨arg, k', -, -, he⟩ <;> cases he
    cases pc with
    | call | broadcast => cases hjoins
    | join | free | ended =>
      obtain ⟨rfl, hdown⟩ := hplaced
      exact ⟨_, hrunning, hjoins, hdown⟩
  | _ => cases hjoins

structure Hushed (thrnum : Nat) (s : PoolState) : Prop where
  staged : Staged thrnum s
  rested : broadcast s = true → Rested true s.threads

theorem Rested.drowsy_eq (h : Rested true threads) (hst : st ∈ threads) : drowsy st = false := by
  apply h st hst
  cases st.pc <;> rfl

theorem Rested.awake (h : Rested true threads) (hst : st ∈ threads) : st.blocked = false := by
  have hawake := h.drowsy_eq hst
  cases st with
  | waiting => cases hawake
  | running | woken => rfl

theorem wait_dozes {c : Cond} {m : Mutex} (h : code pc = .wait c m k) : pc.dozes = true := by
  rcases wait_cases h with ⟨task, rfl, -, -⟩ | ⟨arg, k', rfl, -, -⟩ <;> rfl

theorem Hushed.noSleeper (h : Hushed thrnum s) : NoSleeper s := by
  intro hb
  have hrested := h.rested hb
  refine ⟨fun st hst => hrested.awake hst, fun a s' hs st hst => ?_⟩
  apply Bool.eq_false_iff.mpr
  intro hblocked
  rcases (step_cases hs).blocked hst hblocked with hst | ⟨t, x, w, pc, c, m, k, -, ht, hc⟩
  · rw [hrested.awake hst] at hblocked
    cases hblocked
  · have hawake : pc.dozes = false := hrested.drowsy_eq (List.mem_of_getElem? ht)
    rw [wait_dozes hc] at hawake
    cases hawake

/-- Who hears the broadcast is awake after it. -/
theorem rested_of_hears (hall : s.threads.all hears = true) :
    Rested true ((s.wakeAll .notEmptyTask).setThread t (.running (.destroy (.join 0)))).threads := by
  have hwoken : Rested true (s.threads.map (Status.wake Cond.notEmptyTask)) := by
    intro x hx _
    obtain ⟨st, hst, rfl⟩ := List.mem_map.mp hx
    have hhears := List.all_eq_true.mp hall st hst
    cases st with
    | running pc => exact (Bool.not_eq_true' _).mp hhears
    | waiting c m k =>
      obtain rfl : c = .notEmptyTask := of_decide_eq_true hhears
      rfl
    | woken => rfl
  exact hwoken.set fun _ => rfl

theorem Hushed.step (h : Hushed thrnum s) (hcare : careful s a = true) (hs : poolStep s a = some s') :
    Hushed thrnum s' := by
  have hstep := step_cases hs
  refine ⟨(placed_outline thrnum).asserted h.staged hstep, fun hb' => ?_⟩
  rcases broadcast_step hstep hb' with hb | ⟨t, x, w, rfl, ht⟩
  · obtain ⟨-, -, -, hdown⟩ := h.staged.joins hb
    refine rested_step h.staged.exclusive hdown (fun t x w arg k _ ha ht => ?_) (h.rested hb) hstep
    subst ha
    simpa [careful, ht, hb] using hcare
  · obtain rfl := Option.some.inj (hs.symm.trans (step_broadcast ht rfl))
    refine rested_of_hears ?_
    simpa [careful, ht] using hcare

/-! ## Somebody falls asleep -/

theorem careful_cases (h : careful s a = false) : ∃ t x w, a = .run t x w ∧
    ((s.threads[t]? = some (.running (.destroy .broadcast)) ∧ ∃ st ∈ s.threads, hears st = false) ∨
      ∃ arg k, s.threads[t]? = some (.running (.add (.test arg k))) ∧ broadcast s = true ∧
        s.shared.pool.maxJobNum ≤ s.shared.pool.jobNum) := by
  cases a with
  | run t x w =>
    refine ⟨t, x, w, rfl, ?_⟩
    unfold careful at h
    dsimp only at h
    split at h
    · rename_i ht
      refine .inl ⟨ht, ?_⟩
      simpa using h
    · rename_i arg k ht
      refine .inr ⟨arg, k, ht, ?_⟩
      simpa using h
    · cases h
  | _ => cases h

theorem dozes_wait (h : pc.dozes = true) : ∃ c k, code pc = .wait c .poolLock k := by
  cases pc with
  | worker pc =>
    cases pc with
    | wait => exact ⟨_, _, rfl⟩
    | _ => cases h
  | add pc =>
    cases pc with
    | wait => exact ⟨_, _, rfl⟩
    | _ => cases h
  | _ => cases h

/-- Who is about to wait, waits. -/
theorem not_noSleeper (hexcl : Exclusive code (holdsIn Pc.held) s) (hb : broadcast s = true)
    (hu : s.threads[u]? = some (.running pc)) (hdozes : pc.dozes = true) : ¬ NoSleeper s := by
  intro h
  obtain ⟨c, k, hc⟩ := dozes_wait hdozes
  have hkeeps := discipline.keeps pc
  rw [hc] at hkeeps
  have hown := (hexcl.owner_running hu .poolLock).mpr ((hkeeps.1 .poolLock).mpr rfl)
  have hstep : poolStep s (.run u () 0) = some ((s.setOwner .poolLock none).setThread u (.waiting c .poolLock k)) :=
    step_wait hu hc hown
  have hmem : Status.waiting c .poolLock k ∈ s.threads.set u (.waiting c .poolLock k) :=
    List.mem_set (List.getElem?_eq_some_iff.mp hu).1 _
  have hawake := (h hb).2 _ _ hstep _ hmem
  cases hawake

/-- A broadcast that somebody does not hear. -/
theorem sleeper_of_deaf (hexcl : Exclusive code (holdsIn Pc.held) s')
    (ht : s.threads[t]? = some (.running (.destroy .broadcast)))
    (hs' : s' = (s.wakeAll .notEmptyTask).setThread t (.running (.destroy (.join 0)))) (hst : st ∈ s.threads)
    (hdeaf : hears st = false) : ¬ NoSleeper s' := by
  subst hs'
  obtain ⟨u, hu⟩ := List.mem_iff_getElem?.mp hst
  have hne : t ≠ u := by
    rintro rfl
    obtain rfl := Option.some.inj (ht.symm.trans hu)
    cases hdeaf
  have hlt : t < s.threads.length := (List.getElem?_eq_some_iff.mp ht).1
  have ht' : ((s.wakeAll .notEmptyTask).setThread t (.running (.destroy (.join 0)))).threads[t]? =
      some (.running (.destroy (.join 0))) := List.getElem?_set_self (by simpa [State.wakeAll] using hlt)
  have hu' : ((s.wakeAll .notEmptyTask).setThread t (.running (.destroy (.join 0)))).threads[u]? =
      some (st.wake .notEmptyTask) := by
    refine (List.getElem?_set_ne hne).trans ?_
    rw [State.wakeAll, List.getElem?_map, hu]
    rfl
  have hb := broadcast_of (State.pcs_getElem? ht') rfl
  cases st with
  | running pc => exact not_noSleeper hexcl hb hu' ((Bool.not_eq_false' _).mp hdeaf)
  | waiting c m k =>
    rw [Status.wake_waiting, if_neg (of_decide_eq_false hdeaf)] at hu'
    intro h
    have hawake := (h hb).1 _ (List.mem_of_getElem? hu')
    cases hawake
  | woken => cases hdeaf

theorem sleeper_of_careless (hstaged : Staged thrnum s) (hcareless : careful s a = false)
    (hs : poolStep s a = some s') : ¬ NoSleeper s' := by
  have hexcl := discipline.exclusive hstaged.exclusive (step_cases hs)
  obtain ⟨t, x, w, rfl, ⟨ht, st, hst, hdeaf⟩ | ⟨arg, k, ht, hb, hfull⟩⟩ := careful_cases hcareless
  · exact sleeper_of_deaf hexcl ht (Option.some.inj (hs.symm.trans (step_broadcast ht rfl))) hst hdeaf
  · have hlt : t < s.threads.length := (List.getElem?_eq_some_iff.mp ht).1
    have hstep : poolStep s (.run t x w) = some (s.setThread t (.running (.add (.wait arg k)))) := by
      refine (step_data ht rfl).trans ?_
      simp [State.setThread, hfull]
    have hb' := broadcast_stays (step_cases hs) hb
    obtain rfl := Option.some.inj (hs.symm.trans hstep)
    exact not_noSleeper hexcl hb' (List.getElem?_set_self hlt) rfl

/-! ## The joins -/

/-- The steps that a thread takes at most, with the flag set, until it has ended or, a producer,
may have to wait. -/
def Pc.weight (thrnum : Nat) : Pc → Nat
  | .worker (.unlock _) => 11
  | .task (.start _) => 10
  | .task (.sleep _) => 9
  | .worker (.lock _) => 8
  | .worker (.test _) => 7
  | .worker (.check _) => 6
  | .worker .take => 5
  | .worker (.signal _) => 4
  | .worker (.shutdown _) => 3
  | .worker .quit => 2
  | .worker .exit => 1
  | .add (.test _ _) => 3
  | .add (.wait _ _) | .add (.store _ _) => 2
  | .add (.unlock _) => 1
  | .destroy (.join i) => thrnum - i + 2
  | .destroy .free => 1
  | _ => 0

def weight (thrnum : Nat) : Status Mutex Cond Pc → Nat
  | .running pc => pc.weight thrnum
  | .waiting _ _ (.worker _) | .woken _ (.worker _) => 8
  | _ => 0

def load (thrnum : Nat) (s : PoolState) : Nat := total (weight thrnum) s.threads

/-- The steps of the threads there are, without spurious wake-ups. -/
abbrev threadStep : PoolState → PoolAct → Option PoolState :=
  Lts.guarded poolStep fun _ a => a.actor.isSome = true

structure Joining (thrnum : Nat) (s : PoolState) : Prop where
  staged : Staged thrnum s
  broadcast : broadcast s = true
  rested : Rested false s.threads

theorem Joining.step (h : Joining thrnum s) (hs : Step code start s a s') : Joining thrnum s' := by
  obtain ⟨-, -, -, hdown⟩ := h.staged.joins h.broadcast
  refine ⟨(placed_outline thrnum).asserted h.staged hs, broadcast_stays hs h.broadcast, ?_⟩
  exact rested_step h.staged.exclusive hdown (fun _ _ _ _ _ hall => nomatch hall) h.rested hs

theorem goes_weight (hg : (code pc).Goes k) (hawake : pc.dozes = false) (hpos : pc.weight thrnum ≠ 0) :
    k.weight thrnum < pc.weight thrnum := by
  cases moves hg with
  | wait | addWait => cases hawake
  | addLock | addSignal | broadcast => exact absurd rfl hpos
  | _ => simp [Pc.weight]

theorem data_weight (hs : DataStep t d pc pc' d') (hdown : d.pool.shutdown = true) (hthr : d.pool.thrNum = thrnum)
    (hjoin : ∀ i : Nat, pc = .destroy (.join i) → i < thrnum → i ∈ d.pool.exited) (hpos : pc.weight thrnum ≠ 0) :
    pc'.weight thrnum < pc.weight thrnum := by
  cases hs with
  | worker hs =>
    cases hs with
    | sleep _ hup | stay hup =>
      rw [hdown] at hup
      cases hup
    | _ => simp [Pc.weight]
  | add hs => cases hs <;> simp [Pc.weight]
  | run | done => simp [Pc.weight]
  | call => exact absurd rfl hpos
  | @joined i hlt =>
    simp only [Pc.weight]
    omega
  | @joining i hlt hi => exact absurd (hjoin i rfl (by omega)) hi
  | @alone i =>
    simp only [Pc.weight]
    omega
  | free => exact Nat.zero_lt_one

theorem load_lt {v : Nat} {st' : Status Mutex Cond Pc} (hs : poolStep s (.run t () v) = some s')
    (ht : s.threads[t]? = some st) (ht' : s'.threads[t]? = some st') (hlt : weight thrnum st' < weight thrnum st) :
    ∃ a s', threadStep s a = some s' ∧ load thrnum s' < load thrnum s := by
  have hwoken (c : Cond) (m : Mutex) (k : Pc) : weight thrnum (.woken m k) = weight thrnum (.waiting c m k) := by
    cases k <;> rfl
  have htotal := (step_cases hs).total_add hwoken (fun _ _ _ _ => not_create) ht ht'
  refine ⟨.run t () v, s', (if_pos rfl).trans hs, ?_⟩
  unfold load
  omega

theorem unlock_held {m : Mutex} (hc : code pc = .unlock m k) : holdsIn Pc.held pc m = true := by
  have hmoves : Moves pc k := moves (by rw [hc]; rfl)
  cases hmoves with
  | quit | unlock | addUnlock =>
    cases hc
    rfl
  | _ => cases hc

theorem lock_held {m : Mutex} (hc : code pc = .lock m k) : holdsIn Pc.held pc .poolLock = false := by
  have hmoves : Moves pc k := moves (by rw [hc]; rfl)
  cases hmoves with
  | lock | addLock => rfl
  | _ => cases hc

theorem halt_weight (hc : code pc = .halt) : pc.weight thrnum = 0 := by
  cases pc with
  | worker pc => cases pc <;> cases hc; rfl
  | task pc => cases pc <;> cases hc
  | add pc => cases pc <;> cases hc
  | returned => rfl
  | destroy pc => cases pc <;> cases hc; rfl

/-- A thread that has steps to take, takes one. -/
theorem Joining.drain (h : Joining thrnum s) (ht : s.threads[t]? = some (.running pc)) (hpos : pc.weight thrnum ≠ 0)
    (hlock : ∀ m k, code pc = .lock m k → s.owner m = none)
    (hjoin : ∀ i : Nat, pc = .destroy (.join i) → i < thrnum → i ∈ s.shared.pool.exited) :
    ∃ a s', threadStep s a = some s' ∧ load thrnum s' < load thrnum s := by
  obtain ⟨-, -, -, hdown⟩ := h.staged.joins h.broadcast
  have hlt : t < s.threads.length := (List.getElem?_eq_some_iff.mp ht).1
  have hgoes {k : Pc} (hg : (code pc).Goes k) (hwait : ∀ c k', code pc ≠ .wait c .poolLock k') :
      weight thrnum (.running k) < weight thrnum (.running pc) := by
    refine goes_weight hg (Bool.eq_false_iff.mpr fun hdozes => ?_) hpos
    obtain ⟨c, k', hc⟩ := dozes_wait hdozes
    exact hwait c k' hc
  cases hc : code pc with
  | lock m k =>
    have hw := hgoes (k := k) (by rw [hc]; rfl) (by simp [hc])
    exact load_lt (step_lock (w := 0) ht hc (hlock m k hc)) ht (List.getElem?_set_self hlt) hw
  | unlock m k =>
    have hown := (h.staged.exclusive.owner_running ht m).mpr (unlock_held hc)
    have hw := hgoes (k := k) (by rw [hc]; rfl) (by simp [hc])
    exact load_lt (step_unlock (w := 0) ht hc hown) ht (List.getElem?_set_self hlt) hw
  | wait c m k =>
    rcases wait_cases hc with ⟨task, rfl, -, -⟩ | ⟨arg, k', rfl, -, rfl⟩
    · exact absurd rfl hpos
    · cases m
      have hown := (h.staged.exclusive.owner_running ht .poolLock).mpr rfl
      exact load_lt (step_wait (w := 0) ht hc hown) ht (List.getElem?_set_self hlt) (by simp [weight, Pc.weight])
  | signal c k =>
    obtain ⟨v, s', hs, -, -, ht'⟩ := exists_signal ht hc
    exact load_lt hs ht ht' (hgoes (by rw [hc]; rfl) (by simp [hc]))
  | broadcast c k =>
    have hw := hgoes (k := k) (by rw [hc]; rfl) (by simp [hc])
    refine load_lt (step_broadcast (w := 0) ht hc) ht (List.getElem?_set_self ?_) hw
    simpa [State.wakeAll] using hlt
  | data f =>
    obtain ⟨s', hs, -, ht', -⟩ := exists_data ht hc
    exact load_lt hs ht ht' (data_weight (data_step hc t () s.shared) hdown h.staged.global.2 hjoin hpos)
  | create => exact absurd hc not_create
  | halt => exact absurd (halt_weight hc) hpos

theorem held_weight (hheld : holdsIn Pc.held pc .poolLock = true) (hno : ∀ task, pc ≠ .worker (.wait task)) :
    pc.weight thrnum ≠ 0 := by
  cases pc with
  | worker pc =>
    cases pc with
    | lock | exit | ended => cases hheld
    | wait task => exact absurd rfl (hno task)
    | _ => simp [Pc.weight]
  | add pc =>
    cases pc with
    | lock | signal => cases hheld
    | _ => simp [Pc.weight]
  | _ => cases hheld

/-- The thread in the critical section goes on. -/
theorem Joining.unlock (h : Joining thrnum s) (hheld : s.owner .poolLock ≠ none) :
    ∃ a s', threadStep s a = some s' ∧ load thrnum s' < load thrnum s := by
  obtain ⟨u, hu⟩ := Option.ne_none_iff_exists'.mp hheld
  obtain ⟨pc, hpc, hin⟩ := (h.staged.exclusive.owner .poolLock u).mp hu
  refine h.drain hpc (held_weight hin fun task he => ?_) (fun m k hc => ?_) fun i he => ?_
  · subst he
    exact nomatch h.rested _ (List.mem_of_getElem? hpc) rfl
  · rw [lock_held hc] at hin
    cases hin
  · subst he
    cases hin

theorem placed_weight (h : pc.Placed thrnum t d) (hlt : t < thrnum) (hno : t ∉ d.pool.exited)
    (hawake : ∀ task, pc ≠ .worker (.wait task)) : pc.weight thrnum ≠ 0 ∧ ∀ i, pc ≠ .destroy (.join i) := by
  cases pc with
  | worker pc =>
    cases pc with
    | ended => exact absurd h.2 hno
    | wait task => exact absurd rfl (hawake task)
    | _ => simp [Pc.weight]
  | task pc => cases pc <;> simp [Pc.weight]
  | add => exact absurd hlt (Nat.lt_asymm h)
  | returned => exact absurd hlt (Nat.lt_asymm h)
  | destroy pc =>
    cases pc with
    | call => exact absurd h (Nat.ne_of_lt hlt)
    | _ => exact absurd h.1 (Nat.ne_of_lt hlt)

/-- A worker that is waited for. -/
theorem Joining.worker (h : Joining thrnum s) {i : Nat} (hlt : i < thrnum) (hno : i ∉ s.shared.pool.exited) :
    ∃ a s', threadStep s a = some s' ∧ load thrnum s' < load thrnum s := by
  by_cases hfree : s.owner .poolLock = none
  · have hlen : i < s.threads.length := Nat.lt_trans hlt h.staged.global.1
    have ht : s.threads[i]? = some s.threads[i] := List.getElem?_eq_getElem hlen
    have hplaced := h.staged.atPc i _ (State.pcs_getElem? ht)
    generalize s.threads[i] = st at ht hplaced
    have hawake := h.rested st (List.mem_of_getElem? ht)
    have hfrom := h.staged.exclusive.waits st (List.mem_of_getElem? ht)
    cases st with
    | running pc =>
      obtain ⟨hpos, hjoin⟩ := placed_weight hplaced hlt hno fun task he => by
        subst he
        exact nomatch hawake rfl
      refine h.drain ht hpos (fun m k _ => ?_) fun j he => absurd he (hjoin j)
      cases m
      exact hfree
    | waiting c m k =>
      obtain ⟨pc0, h0⟩ := hfrom
      rcases wait_cases h0 with ⟨task, -, -, rfl⟩ | ⟨arg, k', -, -, rfl⟩
      · exact nomatch hawake rfl
      · exact absurd hlt (Nat.lt_asymm hplaced)
    | woken m k =>
      obtain ⟨pc0, c, h0⟩ := hfrom
      rcases wait_cases h0 with ⟨task, -, -, rfl⟩ | ⟨arg, k', -, -, rfl⟩
      · cases m
        exact load_lt (step_resume (w := 0) ht hfree) ht (List.getElem?_set_self hlen) (by simp [weight, Pc.weight])
      · exact absurd hlt (Nat.lt_asymm hplaced)
  · exact h.unlock hfree

theorem Joining.progress (h : Joining thrnum s) (hgoal : s.threads[thrnum]? ≠ some (.running (.destroy .ended))) :
    ∃ a s', threadStep s a = some s' ∧ load thrnum s' < load thrnum s := by
  obtain ⟨pc, ht, hjoins, -⟩ := h.staged.joins h.broadcast
  by_cases hwait : ∃ i : Nat, pc = .join i ∧ i < thrnum ∧ i ∉ s.shared.pool.exited
  · obtain ⟨i, -, hlt, hno⟩ := hwait
    exact h.worker hlt hno
  · refine h.drain ht ?_ (fun m k hc => ?_) fun i he hlt => ?_
    · cases pc with
      | call | broadcast => cases hjoins
      | join | free => simp [Pc.weight]
      | ended => exact absurd ht hgoal
    · cases pc <;> cases hc
    · exact Classical.byContradiction fun hno => hwait ⟨i, Pc.destroy.inj he, hlt, hno⟩

/-- No worker sleeps: the pool comes to its end. -/
theorem Joining.ends (h : Joining thrnum s) :
    ∃ s', Lts.Reach threadStep s s' ∧ s'.threads[thrnum]? = some (.running (.destroy .ended)) := by
  have hrun : ∃ s', Lts.Reach threadStep s s' ∧ Joining thrnum s' ∧
      s'.threads[thrnum]? = some (.running (.destroy .ended)) := by
    refine Lts.Reach.of_measure (load thrnum) (fun s1 h1 hgoal => ?_) h
    obtain ⟨a, s2, hs, hlt⟩ := h1.progress hgoal
    obtain ⟨-, hs'⟩ := Option.ite_none_right_eq_some.mp hs
    exact ⟨a, s2, hs, h1.step (step_cases hs'), hlt⟩
  obtain ⟨s', hr, -, hended⟩ := hrun
  exact ⟨s', hr, hended⟩

end

/-! ## The theorem -/

section
variable {thrnum maxtasknum : Nat} {raw copy : Nat → PoolTask} {s : PoolState}

theorem create_placed {t : Nat} {pc : Pc} (ht : (create thrnum maxtasknum raw copy).pcs[t]? = some pc) (d : Data) :
    pc.Placed thrnum t d := by
  have hpcs : (create thrnum maxtasknum raw copy).pcs =
      (List.range thrnum).map (fun t => .worker (.lock (copy t))) ++ [.destroy .call] := by
    simp [State.pcs, create]
  rw [hpcs] at ht
  refine forall_append (A := fun t pc => pc.Placed thrnum t d) ?_ (fun u pc hu => ?_) t pc ht
  · simp [Pc.Placed]
  · have hlt := (List.getElem?_eq_some_iff.mp hu).1
    rw [List.length_map, List.length_range] at hlt
    obtain ⟨t, -, rfl⟩ := List.mem_map.mp (List.mem_of_getElem? hu)
    exact hlt

theorem create_hushed : Hushed thrnum (create thrnum maxtasknum raw copy) := by
  refine ⟨⟨create_exclusive, ⟨?_, rfl⟩, fun t pc ht => create_placed ht _⟩, fun hb => ?_⟩
  · simp [create]
  · obtain ⟨pc, hpc, hjoins⟩ := List.any_eq_true.mp hb
    rcases create_pcs hpc with ⟨task, rfl⟩ | rfl <;> cases hjoins

/-- In every state of a run after the broadcast nobody is blocked, nor is about to be, if and only
if the run is careful; and the joins can then complete. -/
theorem destroy_wakes_iff {as : List PoolAct}
    (hrun : Lts.run poolStep as (create thrnum maxtasknum raw copy) = some s) :
    (Lts.Always poolStep NoSleeper as (create thrnum maxtasknum raw copy) ↔
      Lts.Along poolStep (fun s a => careful s a = true) as (create thrnum maxtasknum raw copy)) ∧
    (Lts.Along poolStep (fun s a => careful s a = true) as (create thrnum maxtasknum raw copy) → broadcast s = true →
      ∃ s', Lts.Reach threadStep s s' ∧ s'.threads[thrnum]? = some (.running (.destroy .ended))) := by
  have hok (s1 : PoolState) (a : PoolAct) (s2 : PoolState) (h : Hushed thrnum s1) (hcare : careful s1 a = true)
      (hs : poolStep s1 a = some s2) : Hushed thrnum s2 := h.step hcare hs
  have hbad (s1 : PoolState) (a : PoolAct) (s2 : PoolState) (h : Hushed thrnum s1)
      (hcareless : ¬ careful s1 a = true) (hs : poolStep s1 a = some s2) : ¬ NoSleeper s2 :=
    sleeper_of_careless h.staged (Bool.eq_false_iff.mpr hcareless) hs
  refine ⟨Lts.always_iff_along (fun _ h => h.noSleeper) hok hbad hrun create_hushed, fun halong hb => ?_⟩
  have hlast := halong.invariant hok hrun create_hushed
  exact Joining.ends ⟨hlast.staged, hb, fun st hst _ => (hlast.rested hb).drowsy_eq hst⟩

/-- The worker waits before the broadcast; it is woken, and leaves. -/
def heardRun : List PoolAct := steps 0 3 ++ steps 1 2 ++ steps 0 6 ++ steps 1 3

theorem destroy_wakes_iff_one :
    Lts.Always poolStep NoSleeper heardRun (create 1 1 (fun _ => {}) fun _ => {}) := by
  have hsome : (Lts.run poolStep heardRun (create 1 1 (fun _ => {}) fun _ => {})).isSome = true := by decide +kernel
  obtain ⟨s, hrun⟩ := Option.isSome_iff_exists.mp hsome
  exact (destroy_wakes_iff hrun).1.mpr (by decide +kernel)

/-- The worker tests, the pool is torn down, and the worker waits. -/
def unheardRun : List PoolAct := steps 0 2 ++ steps 1 2 ++ steps 0 1

/-- The second producer waits for a slot when the pool is torn down. -/
def unmeantRun : List PoolAct := arrives :: steps 2 5 ++ arrives :: steps 3 3 ++ steps 1 2

theorem destroy_leaves_asleep :
    (∃ s, Lts.run poolStep unheardRun (create 1 1 (fun _ => {}) fun _ => {}) = some s ∧ broadcast s = true ∧
      .waiting .notEmptyTask .poolLock (.worker (.test {})) ∈ s.threads ∧ ¬ NoSleeper s) ∧
    ∃ s, Lts.run poolStep unmeantRun (create 1 1 (fun _ => {}) fun _ => {}) = some s ∧ broadcast s = true ∧
      .waiting .emptyTask .poolLock (.add (.test () ())) ∈ s.threads ∧ ¬ NoSleeper s := by
  have hasleep {as : List PoolAct} {st : Status Mutex Cond Pc} (hst : st.blocked = true)
      (h : (Lts.run poolStep as (create 1 1 (fun _ => {}) fun _ => {})).map
        (fun s => (broadcast s, decide (st ∈ s.threads))) = some (true, true)) :
      ∃ s, Lts.run poolStep as (create 1 1 (fun _ => {}) fun _ => {}) = some s ∧ broadcast s = true ∧ st ∈ s.threads ∧
        ¬ NoSleeper s := by
    obtain ⟨s, hrun, hs⟩ := Option.map_eq_some_iff.mp h
    obtain ⟨hb, hmem⟩ := Prod.mk.inj hs
    have hmem : st ∈ s.threads := of_decide_eq_true hmem
    refine ⟨s, hrun, hb, hmem, fun hno => ?_⟩
    rw [(hno hb).1 st hmem] at hst
    cases hst
  exact ⟨hasleep rfl (by decide +kernel), hasleep rfl (by decide +kernel)⟩

end
end CSocket.TaskPool
