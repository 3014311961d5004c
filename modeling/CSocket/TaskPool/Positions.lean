import CSocket.TaskPool.Fifo
/-!
# Positions of the queue

`addtask` and `thrRun` reduce a counter to a position with C's `%`, which truncates. The counters
are those of the tasks stored and taken (`Counters`), as `int`s: past `2 ^ 31 - 1` they are
negative, and so are the positions. The first such position is that of `addtask`.
-/
namespace CSocket.TaskPool
open Pthread SimplePool SimplePool.ThreadPool

/-! ## The property and the condition -/

/-- The `taskpos` that is computed here. -/
def Pc.taskpos (p : ThreadPool PoolTask) : Pc → Option Int
  | .worker .take => some (p.jobPop.tmod p.maxJobNum)
  | .add (.store _ _) => some (p.jobPush.tmod p.maxJobNum)
  | _ => none

/-- The `taskpos` that the action computes. -/
def taskpos (s : PoolState) : PoolAct → Option Int
  | .run t _ _ => match s.threads[t]? with
    | some (.running pc) => pc.taskpos s.shared.pool
    | _ => none
  | _ => none

def PosInRange (s : PoolState) (a : PoolAct) : Prop := ∀ i ∈ taskpos s a, 0 ≤ i ∧ i < s.shared.pool.maxJobNum

instance (s : PoolState) (a : PoolAct) : Decidable (PosInRange s a) :=
  inferInstanceAs (Decidable (∀ i ∈ taskpos s a, _))

/-- `INT_MIN` is a multiple of some `max_job_num`s: one more task. -/
def limit (maxtasknum : Nat) : Nat := if maxtasknum ∣ 2 ^ 31 then 2 ^ 31 + 1 else 2 ^ 31

/-! ## A wrapped counter -/

section
variable {n m : Nat}

theorem neg_tmod_neg {x k : Int} (hx : 0 ≤ x) (h : ¬ k ∣ x) : (-x).tmod k < 0 := by
  have hnonneg := Int.tmod_nonneg k hx
  have hne : x.tmod k ≠ 0 := fun h0 => h (Int.dvd_of_tmod_eq_zero h0)
  rw [Int.neg_tmod]
  omega

theorem wrap32_succ (n : Nat) : wrap32 (wrap32 n + 1) = wrap32 ((n + 1 : Nat) : Int) := by
  unfold wrap32
  rw [Int.bmod_add_bmod, Int.natCast_succ]

theorem tmod_in_range (hm : 0 < m) (h : n < limit m) :
    0 ≤ (wrap32 n).tmod m ∧ (wrap32 n).tmod m < m := by
  refine ⟨?_, Int.tmod_lt_of_pos _ (by omega)⟩
  by_cases hlt : n < 2 ^ 31
  · rw [ThreadPool.wrap32_eq (by omega) (by omega)]
    exact Int.tmod_nonneg _ (by omega)
  · unfold limit at h
    split at h
    case isTrue hdvd =>
      obtain rfl : n = 2 ^ 31 := by omega
      have hmin : wrap32 ((2 ^ 31 : Nat) : Int) = -((2 ^ 31 : Nat) : Int) := by decide
      have hzero : ((2 ^ 31 : Nat) : Int).tmod m = 0 := Int.tmod_eq_zero_of_dvd (Int.natCast_dvd_natCast.mpr hdvd)
      rw [hmin, Int.neg_tmod, hzero]
      exact Int.le_refl _
    case isFalse => exact absurd h hlt

theorem tmod_limit (hm : 2 ≤ m) : (wrap32 (limit m)).tmod m < 0 := by
  unfold limit
  split
  case isTrue hdvd =>
    have hmin : wrap32 ((2 ^ 31 + 1 : Nat) : Int) = -((2 ^ 31 - 1 : Nat) : Int) := by decide
    rw [hmin]
    apply neg_tmod_neg (Int.natCast_nonneg _)
    intro h
    -- two consecutive numbers have no common divisor
    have hone : m ∣ 2 ^ 31 - (2 ^ 31 - 1) := Nat.dvd_sub hdvd (Int.natCast_dvd_natCast.mp h)
    have hle : m ≤ 1 := Nat.le_of_dvd Nat.one_pos hone
    omega
  case isFalse hdvd =>
    have hmin : wrap32 ((2 ^ 31 : Nat) : Int) = -((2 ^ 31 : Nat) : Int) := by decide
    rw [hmin]
    exact neg_tmod_neg (Int.natCast_nonneg _) fun h => hdvd (Int.natCast_dvd_natCast.mp h)

end

/-! ## The counters -/

structure Counters (maxtasknum : Nat) (p : ThreadPool PoolTask) : Prop where
  max : p.maxJobNum = maxtasknum
  push : p.jobPush = wrap32 p.stored.length
  pop : p.jobPop = wrap32 p.taken.length
  num : p.taken.length + p.jobNum = p.stored.length
  nonneg : 0 ≤ p.jobNum

structure Counted (maxtasknum : Nat) (s : PoolState) : Prop where
  asserted : Asserted code (holdsIn Pc.held) (Queue maxtasknum) Local s
  counters : Counters maxtasknum s.shared.pool

/-- So far the counters give positions in range. -/
structure Ranged (maxtasknum : Nat) (s : PoolState) : Prop where
  counted : Counted maxtasknum s
  le : s.shared.pool.stored.length ≤ limit maxtasknum

section
variable {d d' : Data} {t maxtasknum : Nat} {pc pc' : Pc} {s s' : PoolState} {a : PoolAct}

theorem Counters.congr {p p' : ThreadPool PoolTask} (h : Counters maxtasknum p) (hs : p.Same p') :
    Counters maxtasknum p' where
  max := by rw [hs.maxJobNum, h.max]
  push := by rw [hs.jobPush, hs.stored, h.push]
  pop := by rw [hs.jobPop, hs.taken, h.pop]
  num := by rw [hs.taken, hs.jobNum, hs.stored, h.num]
  nonneg := hs.jobNum ▸ h.nonneg

theorem Counters.store {p : ThreadPool PoolTask} (h : Counters maxtasknum p) (task : PoolTask) :
    Counters maxtasknum (p.push task) := by
  have hnum := h.num
  have hnonneg := h.nonneg
  have hlen : (p.push task).stored.length = p.stored.length + 1 := List.length_append
  constructor
  · exact h.max
  · rw [hlen, ← wrap32_succ, ← h.push, push_jobPush]
  · exact h.pop
  · rw [hlen, push_taken, push_jobNum]
    omega
  · rw [push_jobNum]
    omega

theorem Counters.take {p : ThreadPool PoolTask} (h : Counters maxtasknum p) (hne : p.jobNum ≠ 0) (me : Nat) :
    Counters maxtasknum (p.pop me) := by
  have hnum := h.num
  have hnonneg := h.nonneg
  have hlen : (p.pop me).taken.length = p.taken.length + 1 := List.length_append
  constructor
  · exact h.max
  · exact h.push
  · rw [hlen, ← wrap32_succ, ← h.pop, pop_jobPop]
  · rw [hlen, pop_jobNum, pop_stored]
    omega
  · rw [pop_jobNum]
    omega

theorem Counters.data (hs : DataStep t d pc pc' d') (htested : pc.Tested d) (h : Counters maxtasknum d.pool) :
    Counters maxtasknum d'.pool := by
  cases hs with
  | @worker pc pc' pool hs =>
    by_cases htake : pc = .take
    · subst htake
      cases hs
      exact h.take htested t
    · exact h.congr (hs.same htake)
  | add hs =>
    cases hs with
    | full | room => exact h
    | store => exact h.store _
  | call => exact h.congr ⟨rfl, rfl, rfl, rfl, rfl, rfl, rfl, fun _ => rfl⟩
  | run | done | joined | joining | alone | free => exact h

theorem Counted.step (h : Counted maxtasknum s) (hs : Step code start s a s') : Counted maxtasknum s' := by
  refine ⟨(outline maxtasknum).asserted h.asserted hs, ?_⟩
  cases hs.effect with
  | quiet _ hd | move _ _ _ _ hd | arrive _ _ hd =>
    rw [hd]
    exact h.counters
  | @data t x w pc f _ ht hc _ hd =>
    rw [hd]
    exact h.counters.data (data_step hc t x s.shared) (h.asserted.atPc t pc (State.pcs_getElem? ht)).tested
  | create _ ht hc => exact absurd hc not_create

/-! ## The step that leaves the range -/

/-- The action is `addtask`'s store. -/
def Stores (s : PoolState) (a : PoolAct) : Prop :=
  ∃ t x w arg k, a = .run t x w ∧ s.threads[t]? = some (.running (.add (.store arg k)))

theorem data_stored (hs : DataStep t d pc pc' d') :
    d'.pool.stored = d.pool.stored ∨ ∃ arg k, pc = .add (.store arg k) := by
  cases hs with
  | worker hs => cases hs <;> exact .inl rfl
  | add hs =>
    cases hs with
    | full | room => exact .inl rfl
    | store => exact .inr ⟨_, _, rfl⟩
  | _ => exact .inl rfl

theorem stored_step (hs : Step code start s a s') : s'.shared.pool.stored = s.shared.pool.stored ∨ Stores s a := by
  cases hs.effect with
  | quiet _ hd | move _ _ _ _ hd | arrive _ _ hd =>
    rw [hd]
    exact .inl rfl
  | @data t x w pc f ha ht hc _ hd =>
    rw [hd]
    refine (data_stored (data_step hc t x s.shared)).imp_right ?_
    rintro ⟨arg, k, rfl⟩
    exact ⟨t, x, w, arg, k, ha, ht⟩
  | create _ ht hc => exact absurd hc not_create

theorem Stores.length (h : Stores s a) (hs : poolStep s a = some s') :
    s'.shared.pool.stored.length = s.shared.pool.stored.length + 1 := by
  obtain ⟨t, x, w, arg, k, rfl, ht⟩ := h
  obtain rfl := Option.some.inj (hs.symm.trans (step_data ht rfl))
  exact List.length_append

/-- The next position, of a store, comes from the number of the tasks stored. -/
theorem Ranged.stores_iff (h : Ranged maxtasknum s) (hmax : 2 ≤ maxtasknum) (hstore : Stores s a) :
    PosInRange s a ↔ s.shared.pool.stored.length < limit maxtasknum := by
  obtain ⟨t, x, w, arg, k, rfl, ht⟩ := hstore
  have hpos : taskpos s (.run t x w) = some ((wrap32 s.shared.pool.stored.length).tmod maxtasknum) := by
    simp only [taskpos, ht, Pc.taskpos, h.counted.counters.push, h.counted.counters.max]
  constructor
  · intro hrange
    refine Nat.lt_of_le_of_ne h.le fun he => ?_
    have hneg := tmod_limit hmax
    rw [← he] at hneg
    have hnonneg := (hrange _ hpos).1
    omega
  · intro hlt i hi
    obtain rfl : _ = i := Option.some.inj (hpos.symm.trans hi)
    rw [h.counted.counters.max]
    exact tmod_in_range (by omega) hlt

/-- A worker takes a task that was stored, so its position is not the first one. -/
theorem Ranged.taken_in_range (h : Ranged maxtasknum s) (hmax : 2 ≤ maxtasknum) (hno : ¬ Stores s a) :
    PosInRange s a := by
  intro i hi
  cases a with
  | run t x w =>
    unfold taskpos at hi
    dsimp only at hi
    split at hi
    · rename_i pc ht
      unfold Pc.taskpos at hi
      split at hi
      · have hne : s.shared.pool.jobNum ≠ 0 := (h.counted.asserted.atPc t _ (State.pcs_getElem? ht)).tested
        have hnum := h.counted.counters.num
        have hnonneg := h.counted.counters.nonneg
        have hle := h.le
        obtain rfl := Option.some.inj hi
        rw [h.counted.counters.pop, h.counted.counters.max]
        exact tmod_in_range (by omega) (by omega)
      · exact absurd ⟨t, x, w, _, _, rfl, ht⟩ hno
      · cases hi
    · cases hi
  | _ => cases hi

end

/-! ## The theorem -/

section
variable {thrnum maxtasknum : Nat} {raw copy : Nat → PoolTask} {s : PoolState}

theorem create_counted : Counted maxtasknum (create thrnum maxtasknum raw copy) := by
  have hzero : (0 : Int) = wrap32 ((0 : Nat) : Int) := by decide
  exact ⟨create_queue, ⟨rfl, hzero, hzero, rfl, Int.le_refl _⟩⟩

theorem Reachable.counted (h : Reachable thrnum maxtasknum s) : Counted maxtasknum s := by
  obtain ⟨raw, copy, hr⟩ := h
  exact hr.invariant (fun _ _ _ h hs => h.step (step_cases hs)) create_counted

/-- Every position computed in a run is in range if and only if no more tasks are stored in it
than there are positions before the first negative one. -/
theorem positions_iff (hmax : 2 ≤ maxtasknum) {as : List PoolAct}
    (hrun : Lts.run poolStep as (create thrnum maxtasknum raw copy) = some s) :
    Lts.Along poolStep PosInRange as (create thrnum maxtasknum raw copy) ↔
      s.shared.pool.stored.length ≤ limit maxtasknum := by
  have hok (s1 : PoolState) (a : PoolAct) (s2 : PoolState) (h : Ranged maxtasknum s1) (hrange : PosInRange s1 a)
      (hs : poolStep s1 a = some s2) : Ranged maxtasknum s2 := by
    refine ⟨h.counted.step (step_cases hs), ?_⟩
    rcases stored_step (step_cases hs) with hd | hstore
    · rw [hd]
      exact h.le
    · rw [hstore.length hs]
      exact (h.stores_iff hmax hstore).mp hrange
  have hbad (s1 : PoolState) (a : PoolAct) (s2 : PoolState) (h : Ranged maxtasknum s1) (hbad : ¬ PosInRange s1 a)
      (hs : poolStep s1 a = some s2) : ¬ s2.shared.pool.stored.length ≤ limit maxtasknum := by
    have hstore : Stores s1 a := Classical.byContradiction fun hno => hbad (h.taken_in_range hmax hno)
    rw [hstore.length hs]
    exact fun hlt => hbad ((h.stores_iff hmax hstore).mpr hlt)
  have hback (s1 : PoolState) (a : PoolAct) (s2 : PoolState) (_ : True) (hs : poolStep s1 a = some s2)
      (hle : s2.shared.pool.stored.length ≤ limit maxtasknum) : s1.shared.pool.stored.length ≤ limit maxtasknum := by
    rcases stored_step (step_cases hs) with hd | hstore
    · rwa [← hd]
    · have hlen := hstore.length hs
      omega
  have hstart : Ranged maxtasknum (create thrnum maxtasknum raw copy) := ⟨create_counted, Nat.zero_le _⟩
  exact (Lts.always_iff_along (fun _ h => h.le) hok hbad hrun hstart).symm.trans
    (Lts.always_iff_last (fun _ _ _ _ _ => trivial) hback hrun trivial)

theorem positions_iff_three :
    Lts.Along poolStep PosInRange (arrives :: steps 2 5 ++ steps 0 9) (create 1 3 (fun _ => {}) fun _ => {}) := by
  have hsome : (Lts.run poolStep (arrives :: steps 2 5 ++ steps 0 9) (create 1 3 (fun _ => {}) fun _ => {})).map
      (fun s => s.shared.pool.stored.length) = some 1 := by
    decide +kernel
  obtain ⟨s, hrun, hs⟩ := Option.map_eq_some_iff.mp hsome
  refine (positions_iff (by decide) hrun).mpr ?_
  rw [hs]
  decide

end

/-! ## A run that long -/

/-- The thread's position, whether it owns the mutex, and the data. -/
abbrev Solo := Pc × Bool × Data

/-- Nobody but thread `t` may own the mutex. -/
def solo (l : List (Status Mutex Cond Pc)) (t : Nat) (c : Solo) : PoolState :=
  ⟨l.set t (.running c.1), fun _ => if c.2.1 then some t else none, c.2.2⟩

/-- A step while nobody is blocked. -/
def soloStep (t : Nat) (c : Solo) (_ : Unit) : Option Solo :=
  match code c.1 with
  | .lock _ k => if c.2.1 then none else some (k, true, c.2.2)
  | .unlock _ k => if c.2.1 then some (k, false, c.2.2) else none
  | .signal _ k => some (k, c.2.1, c.2.2)
  | .data f => some ((f t () c.2.2).2, c.2.1, (f t () c.2.2).1)
  | _ => none

section
variable {l : List (Status Mutex Cond Pc)} {t n : Nat} {c c' : Solo} {d : Data}

theorem solo_step (ht : t < l.length) (hl : ∀ st ∈ l, st.blocked = false) (h : soloStep t c () = some c') :
    poolStep (solo l t c) (.run t () 0) = some (solo l t c') := by
  obtain ⟨pc, held, d⟩ := c
  have hat : (solo l t (pc, held, d)).threads[t]? = some (.running pc) := List.getElem?_set_self ht
  have hnext (m : Mutex) (o : Option Nat) (k : Pc) (d' : Data) :
      ((⟨(solo l t (pc, held, d)).threads, fun m' => if m' = m then o else (solo l t (pc, held, d)).owner m', d'⟩ :
        PoolState).setThread t (.running k)) = ⟨l.set t (.running k), fun _ => o, d'⟩ := by
    simp [State.setThread, solo]
  cases hc : code pc with
  | lock m k =>
    cases held with
    | true => simp [soloStep, hc] at h
    | false =>
      obtain rfl : (k, true, d) = c' := by simpa [soloStep, hc] using h
      exact (step_lock hat hc rfl).trans (congrArg some (hnext m (some t) k d))
  | unlock m k =>
    cases held with
    | true =>
      obtain rfl : (k, false, d) = c' := by simpa [soloStep, hc] using h
      exact (step_unlock hat hc rfl).trans (congrArg some (hnext m none k d))
    | false => simp [soloStep, hc] at h
  | signal cond k =>
    obtain rfl : (k, held, d) = c' := by simpa [soloStep, hc] using h
    refine (step_signalNone hat hc (List.any_eq_false.mpr fun st hst => ?_)).trans ?_
    · rcases List.mem_or_eq_of_mem_set hst with hst | rfl
      · have hst := hl st hst
        cases st with
        | waiting => cases hst
        | running | woken => exact Bool.false_ne_true
      · exact Bool.false_ne_true
    · simp [State.setThread, solo]
  | data f =>
    obtain rfl : ((f t () d).2, held, (f t () d).1) = c' := by simpa [soloStep, hc] using h
    refine (step_data hat hc).trans ?_
    simp [State.setThread, solo]
  | wait | broadcast | create | halt => simp [soloStep, hc] at h

theorem solo_reach (ht : t < l.length) (hl : ∀ st ∈ l, st.blocked = false) (h : Lts.Reach (soloStep t) c c') :
    Lts.Reach poolStep (solo l t c) (solo l t c') :=
  h.simulate fun _ _ _ hs => ⟨_, solo_step ht hl hs⟩

theorem add_ready (hroom : d.pool.jobNum < d.pool.maxJobNum) :
    Lts.Reach (soloStep t) (.add (.lock () ()), false, d) (.add (.store () ()), true, d) := by
  refine ⟨List.replicate 2 (), ?_⟩
  have hnot : ¬ d.pool.maxJobNum ≤ d.pool.jobNum := Int.not_le.mpr hroom
  simp [List.replicate, Lts.run, soloStep, code, addtask, SimplePool.addtask, Instr.branch, hnot]

theorem add_lap (hroom : d.pool.jobNum < d.pool.maxJobNum) :
    Lts.Reach (soloStep t) (.add (.lock () ()), false, d) (.returned, false, ⟨d.pool.push (fill d).1, (fill d).2⟩) :=
  (add_ready hroom).trans ⟨List.replicate 3 (), rfl⟩

/-- The worker takes the one task, runs it and is back at its lock. -/
theorem worker_lap (task : PoolTask) (hup : d.pool.shutdown = false) (hnum : d.pool.jobNum = 1) :
    Lts.Reach (soloStep t) (.worker (.lock task), false, d) (.worker (.lock (copyTask d.pool.front)), false,
      ⟨d.pool.pop t, { d.env with ran := d.env.ran ++ [(t, d.pool.front.tasknum)] }⟩) := by
  have hready : Lts.Reach (soloStep t) (.worker (.lock task), false, d) (.worker .take, true, d) := by
    refine ⟨List.replicate 3 (), ?_⟩
    simp [List.replicate, Lts.run, soloStep, code, thrRun, SimplePool.thrRun, Instr.branch, hnum]
  have htaken : Lts.Reach (soloStep t) (.worker .take, true, d)
      (.worker (.shutdown (copyTask d.pool.front)), true, ⟨d.pool.pop t, d.env⟩) := ⟨List.replicate 2 (), rfl⟩
  have hstays : soloStep t (.worker (.shutdown (copyTask d.pool.front)), true, ⟨d.pool.pop t, d.env⟩) () =
      some (.worker (.unlock (copyTask d.pool.front)), true, ⟨d.pool.pop t, d.env⟩) := by
    have hup' : (d.pool.pop t).shutdown = false := hup
    simp [soloStep, code, thrRun, SimplePool.thrRun, Instr.branch, hup']
  have hran : Lts.Reach (soloStep t) (.worker (.unlock (copyTask d.pool.front)), true, ⟨d.pool.pop t, d.env⟩)
      (.worker (.lock (copyTask d.pool.front)), false,
        ⟨d.pool.pop t, { d.env with ran := d.env.ran ++ [(t, d.pool.front.tasknum)] }⟩) := ⟨List.replicate 3 (), rfl⟩
  exact hready.trans (htaken.trans (.head hstays hran))

/-- Worker 0 is at its lock, nothing is pending, and `n` producers have come and gone. -/
structure Lap (n : Nat) (l : List (Status Mutex Cond Pc)) (d : Data) : Prop where
  length : l.length = n + 2
  awake : ∀ st ∈ l, st.blocked = false
  up : d.pool.shutdown = false
  num : d.pool.jobNum = 0
  max : d.pool.maxJobNum = 3
  stored : d.pool.stored.length = n

/-- Another producer comes. -/
theorem Lap.arrives (h : Lap n l d) (task : PoolTask) : ∃ l', l'.length = n + 3 ∧ (∀ st ∈ l', st.blocked = false) ∧
    l'[0]? = some (.running (.worker (.lock task))) ∧ l'[n + 2]? = some (.running .returned) ∧
    poolStep (solo l 0 (.worker (.lock task), false, d)) arrives =
      some (solo l' (n + 2) (.add (.lock () ()), false, d)) := by
  have hlen := h.length
  refine ⟨l.set 0 (.running (.worker (.lock task))) ++ [.running .returned], by simp [hlen], fun st hst => ?_,
    by simp [hlen], by simp [hlen], by simp [poolStep, step, start, TaskPool.arrives, solo, hlen]⟩
  rcases List.mem_append.mp hst with hst | hst
  · rcases List.mem_or_eq_of_mem_set hst with hst | rfl
    · exact h.awake st hst
    · rfl
  · obtain rfl := List.mem_singleton.mp hst
    rfl

theorem Lap.room (h : Lap n l d) : d.pool.jobNum < d.pool.maxJobNum := by
  rw [h.num, h.max]
  decide

theorem Lap.next (h : Lap n l d) (task : PoolTask) : ∃ l' d' task', Lap (n + 1) l' d' ∧
    Lts.Reach poolStep (solo l 0 (.worker (.lock task), false, d)) (solo l' 0 (.worker (.lock task'), false, d')) := by
  obtain ⟨l', hlen, hawake, hworker, hreturned, harrive⟩ := h.arrives task
  have hstored := solo_reach (t := n + 2) (by omega) hawake (add_lap h.room)
  generalize hd' : (⟨d.pool.push (fill d).1, (fill d).2⟩ : Data) = d' at hstored
  -- from the producer that returned to the worker, the state is the same
  have hturn : solo l' (n + 2) (.returned, false, d') = solo l' 0 (.worker (.lock task), false, d') := by
    obtain ⟨_, hworker⟩ := List.getElem?_eq_some_iff.mp hworker
    obtain ⟨_, hreturned⟩ := List.getElem?_eq_some_iff.mp hreturned
    simp only [solo, ← hworker, ← hreturned, List.set_getElem_self]
    rfl
  have hup : d'.pool.shutdown = false := by
    rw [← hd']
    exact h.up
  have hnum : d'.pool.jobNum = 1 := by
    rw [← hd', push_jobNum, h.num]
    rfl
  have hmax : d'.pool.maxJobNum = 3 := by
    rw [← hd']
    exact h.max
  have hlength : d'.pool.stored.length = n + 1 := by
    rw [← hd', ← h.stored]
    exact List.length_append
  rw [hturn] at hstored
  have htaken := solo_reach (t := 0) (by omega) hawake (worker_lap task hup hnum)
  refine ⟨l', ⟨d'.pool.pop 0, _⟩, _, ⟨hlen, hawake, hup, ?_, hmax, hlength⟩, .head harrive (hstored.trans htaken)⟩
  rw [pop_jobNum, hnum]
  rfl

theorem lap (n : Nat) : ∃ l d task, Lap n l d ∧
    Lts.Reach poolStep (create 1 3 (fun _ => {}) fun _ => {}) (solo l 0 (.worker (.lock task), false, d)) := by
  induction n with
  | zero =>
    refine ⟨(create 1 3 (fun _ => {}) fun _ => {}).threads, (create 1 3 (fun _ => {}) fun _ => {}).shared, {},
      ?_, ?_⟩
    · exact ⟨rfl, by decide, rfl, rfl, rfl, rfl⟩
    · exact .refl _
  | succ n ih =>
    obtain ⟨l, d, task, hlap, hr⟩ := ih
    obtain ⟨l', d', task', hlap', hr'⟩ := hlap.next task
    exact ⟨l', d', task', hlap', hr.trans hr'⟩

/-- A queue of three tasks and one worker: the store of the task after the first `2 ^ 31`. -/
theorem position_negative : ∃ (s s' : PoolState) (a : PoolAct), Reachable 1 3 s ∧ poolStep s a = some s' ∧
    taskpos s a = some (-2) := by
  obtain ⟨l, d, task, hlap, hr⟩ := lap (2 ^ 31)
  obtain ⟨l', hlen, hawake, -, -, harrive⟩ := hlap.arrives task
  have hready := solo_reach (t := 2 ^ 31 + 2) (by omega) hawake (add_ready hlap.room)
  have hreach := hr.trans (.head harrive hready)
  generalize hs : solo l' (2 ^ 31 + 2) (.add (.store () ()), true, d) = s at hreach
  have ht : s.threads[2 ^ 31 + 2]? = some (.running (.add (.store () ()))) := by
    rw [← hs]
    exact List.getElem?_set_self (by omega)
  have hstored : s.shared.pool.stored.length = 2 ^ 31 := by
    rw [← hs]
    exact hlap.stored
  have hcounters := (Reachable.counted ⟨_, _, hreach⟩).counters
  refine ⟨s, _, .run (2 ^ 31 + 2) () 0, ⟨_, _, hreach⟩, step_data ht rfl, ?_⟩
  simp only [taskpos, ht, Pc.taskpos, hcounters.push, hcounters.max, hstored]
  decide

end
end CSocket.TaskPool
