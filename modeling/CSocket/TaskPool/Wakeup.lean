import CSocket.TaskPool.Fifo
/-!
# No lost wake-up

A pending task has a worker that is awake or a producer that is about to signal
(`Covered`). A blocked producer has at most as many free slots before it as there
are credits (`Room`): workers about to signal, and producers that were woken or
hold the lock and will test or store. Both are kept by every step; the mutex being
free, what is left of a credit is a woken producer.
-/
namespace CSocket.TaskPool
open Pthread SimplePool

/-! ## Workers -/

/-- A worker that has not left its loop. -/
def Pc.serving : Pc → Bool
  | .worker .quit | .worker .exit | .worker .ended => false
  | .worker _ | .task _ => true
  | _ => false

/-- Some worker is not blocked. -/
def Awake (s : PoolState) : Prop :=
  ∃ (t : Nat) (st : Status Mutex Cond Pc), s.threads[t]? = some st ∧ st.pc.serving = true ∧ st.blocked = false

/-- A producer has stored its task and has not signalled yet. -/
def Pc.signalling : Pc → Bool
  | .add (.unlock _) | .add (.signal _) => true
  | _ => false

def Signalling (s : PoolState) : Prop := ∃ (t : Nat) (pc : Pc), s.pcs[t]? = some pc ∧ pc.signalling = true

def Covered (s : PoolState) : Prop :=
  s.shared.pool.shutdown = false → 0 < s.shared.pool.jobNum → Awake s ∨ Signalling s

/-- Worker 0 serves as long as the pool is up. -/
def Staffed (s : PoolState) : Prop :=
  s.shared.pool.shutdown = false → ∃ pc, s.pcs[0]? = some pc ∧ pc.serving = true

section
variable {s s' : PoolState} {a : PoolAct} {t : Nat} {pc pc' k : Pc} {d d' : Data}

theorem goes_serving (h : (code pc).Goes k) (hpc : pc.serving = true) : k.serving = true := by
  cases moves h with
  | lock | wait | signal | unlock => rfl
  | _ => cases hpc

theorem data_serving (h : DataStep t d pc pc' d') (hpc : pc.serving = true) (hdown : d'.pool.shutdown = false) :
    pc'.serving = true := by
  cases h with
  | worker hs =>
    cases hs with
    | quit hc =>
      rw [hc] at hdown
      cases hdown
    | exit => cases hpc
    | _ => rfl
  | run | done => rfl
  | _ => cases hpc

theorem data_shutdown (h : DataStep t d pc pc' d') (hdown : d'.pool.shutdown = false) : d.pool.shutdown = false := by
  apply Bool.eq_false_iff.mpr
  intro hd
  rw [(data_leaves h).shutdown hd] at hdown
  cases hdown

/-- Thread `t` moves within the loop. -/
theorem serving_set (h : s.pcs[0]? = some pc') (hserving : pc'.serving = true) (ht : s.pcs[t]? = some pc)
    (hk : pc.serving = true → k.serving = true) : ∃ pc, (s.pcs.set t k)[0]? = some pc ∧ pc.serving = true := by
  by_cases htz : t = 0
  · subst htz
    obtain rfl : pc = pc' := Option.some.inj (ht.symm.trans h)
    exact ⟨k, List.getElem?_set_self (List.getElem?_eq_some_iff.mp ht).1, hk hserving⟩
  · exact ⟨pc', (List.getElem?_set_ne htz).trans h, hserving⟩

theorem staffed_step (h : Staffed s) (hs : Step code start s a s') : Staffed s' := by
  intro hdown
  cases hs.effect with
  | quiet hpcs hd =>
    rw [hd] at hdown
    rw [hpcs]
    exact h hdown
  | move _ ht hg hpcs hd =>
    rw [hd] at hdown
    obtain ⟨pc', h0, hserving⟩ := h hdown
    rw [hpcs]
    exact serving_set h0 hserving (State.pcs_getElem? ht) (goes_serving hg)
  | @data t x w pc f _ ht hc hpcs hd =>
    have hstep := data_step hc t x s.shared
    rw [hd] at hdown
    obtain ⟨pc', h0, hserving⟩ := h (data_shutdown hstep hdown)
    rw [hpcs]
    exact serving_set h0 hserving (State.pcs_getElem? ht) fun hpc => data_serving hstep hpc hdown
  | create _ ht hc => exact absurd hc not_create
  | arrive _ hpcs hd =>
    rw [hd] at hdown
    obtain ⟨pc', h0, hserving⟩ := h hdown
    rw [hpcs]
    exact ⟨pc', (List.getElem?_append_left (List.getElem?_eq_some_iff.mp h0).1).trans h0, hserving⟩

/-! ## A pending task is covered -/

theorem Awake.of_running (ht : s.threads[t]? = some (.running pc)) (h : pc.serving = true) : Awake s :=
  ⟨t, .running pc, ht, h, rfl⟩

/-- A covered task stays covered while its keeper does not act. -/
theorem covered_other (hs : Step code start s a s') (h : Awake s ∨ Signalling s)
    (hawake : ∀ u st, a.actor = some u → s.threads[u]? = some st → st.pc.serving = true → st.blocked = false →
      Awake s' ∨ Signalling s')
    (hsignal : ∀ u pc, a.actor = some u → s.pcs[u]? = some pc → pc.signalling = true → Awake s' ∨ Signalling s') :
    Awake s' ∨ Signalling s' := by
  rcases h with ⟨u, st, hu, hserving, hblocked⟩ | ⟨u, pc, hu, hsig⟩
  · by_cases hact : a.actor = some u
    · exact hawake u st hact hu hserving hblocked
    · obtain ⟨st', hu', hpc, hb⟩ := hs.other hact hu
      exact .inl ⟨u, st', hu', by rw [hpc, hserving], hb hblocked⟩
  · by_cases hact : a.actor = some u
    · exact hsignal u pc hact hu hsig
    · exact .inr ⟨u, pc, hs.other_pc hact hu, hsig⟩

/-- A thread that goes on at `k` serves and signals there as before. -/
theorem covered_move {x : Unit} {w : Nat} (hs : Step code start s (.run t x w) s') (h : Awake s ∨ Signalling s)
    (ht : s.threads[t]? = some (.running pc)) (ht' : s'.threads[t]? = some (.running k))
    (hserving : pc.serving = true → k.serving = true)
    (hsignal : pc.signalling = true → k.signalling = true ∨ Awake s') : Awake s' ∨ Signalling s' := by
  apply covered_other hs h
  · intro u st hu hst hserves _
    cases hu
    rw [ht] at hst
    cases hst
    exact .inl (.of_running ht' (hserving hserves))
  · intro u pc' hu hpc hsig
    cases hu
    rw [State.pcs_getElem? ht] at hpc
    cases hpc
    rcases hsignal hsig with hk | hawake
    · exact .inr ⟨t, k, State.pcs_getElem? ht', hk⟩
    · exact .inl hawake

theorem not_signalling_wait {pc : Pc} {c : Cond} {m : Mutex} (h : code pc = .wait c m k) :
    pc.signalling = false ∧ k.signalling = false := by
  rcases wait_cases h with ⟨task, rfl, -, rfl⟩ | ⟨arg, k', rfl, -, rfl⟩ <;> exact ⟨rfl, rfl⟩

/-- Who waits is no worker, or waits for a task. -/
theorem waitsOn_of_serving (hexcl : Exclusive code (holdsIn Pc.held) s) {st : Status Mutex Cond Pc}
    (hst : st ∈ s.threads) (hserving : st.pc.serving = true) (hblocked : st.blocked = true) :
    st.waitsOn .notEmptyTask = true := by
  cases st with
  | running | woken => cases hblocked
  | waiting c m k =>
    obtain ⟨pc, h⟩ := hexcl.waits _ hst
    rcases wait_cases h with ⟨task, -, rfl, -⟩ | ⟨arg, k', -, -, rfl⟩
    · rfl
    · cases hserving

theorem awake_of_staffed (hexcl : Exclusive code (holdsIn Pc.held) s) (hstaff : Staffed s)
    (hdown : s.shared.pool.shutdown = false) (hnone : ∀ st ∈ s.threads, st.waitsOn Cond.notEmptyTask = false) :
    Awake s := by
  obtain ⟨pc, h0, hserving⟩ := hstaff hdown
  obtain ⟨st, hst, rfl⟩ := State.of_pcs_getElem? h0
  refine ⟨0, st, hst, hserving, Bool.eq_false_iff.mpr fun hb => ?_⟩
  have hmem := List.mem_of_getElem? hst
  have hwaits := waitsOn_of_serving hexcl hmem hserving hb
  rw [hnone st hmem] at hwaits
  cases hwaits

theorem goes_signalling (h : (code pc).Goes k) (hpc : pc.signalling = true) :
    k.signalling = true ∨ ∃ u, pc = .add (.signal u) := by
  cases moves h with
  | addUnlock u => exact .inl rfl
  | addSignal u => exact .inr ⟨u, rfl⟩
  | _ => cases hpc

/-- A thread that is not in `addtask`'s signal and does not block. -/
theorem covered_goes {x : Unit} {w : Nat} (hs : Step code start s (.run t x w) s') (hcov : Awake s ∨ Signalling s)
    (ht : s.threads[t]? = some (.running pc)) (hg : (code pc).Goes k) (ht' : s'.threads[t]? = some (.running k))
    (hsignal : ∀ u, pc = .add (.signal u) → Awake s') : Awake s' ∨ Signalling s' := by
  refine covered_move hs hcov ht ht' (goes_serving hg) fun hsig => ?_
  rcases goes_signalling hg hsig with hk | ⟨u, he⟩
  · exact .inl hk
  · exact .inr (hsignal u he)

theorem covered_signal {x : Unit} {w : Nat} {c : Cond} {m : Mutex} {k' : Pc}
    (hexcl : Exclusive code (holdsIn Pc.held) s) (ht : s.threads[t]? = some (.running pc))
    (hc : code pc = .signal c k) (hw : s.threads[w]? = some (.waiting c m k')) (hcov : Awake s ∨ Signalling s) :
    Awake ((s.setThread w (.woken m k')).setThread t (.running k)) ∨
      Signalling ((s.setThread w (.woken m k')).setThread t (.running k)) := by
  have hs : Step code start s (.run t x w) _ := .signal ht hc hw
  have hlt : t < s.threads.length := (List.getElem?_eq_some_iff.mp ht).1
  have hne : t ≠ w := by
    rintro rfl
    rw [ht] at hw
    cases hw
  refine covered_goes hs hcov ht (by rw [hc]; rfl)
    (List.getElem?_set_self (by simpa [State.setThread] using hlt)) ?_
  rintro u rfl
  cases hc
  obtain ⟨pc0, h0⟩ := hexcl.waits _ (List.mem_of_getElem? hw)
  rcases wait_cases h0 with ⟨task, -, -, rfl⟩ | ⟨arg, k', -, hc, -⟩
  · refine ⟨w, .woken m (.worker (.test task)), ?_, rfl, rfl⟩
    exact (List.getElem?_set_ne hne).trans (List.getElem?_set_self (List.getElem?_eq_some_iff.mp hw).1)
  · cases hc

/-- Nobody hears the signal: worker 0 is awake. -/
theorem covered_signalNone {x : Unit} {w : Nat} {c : Cond} (hexcl : Exclusive code (holdsIn Pc.held) s)
    (hstaff : Staffed s) (hdown : s.shared.pool.shutdown = false) (ht : s.threads[t]? = some (.running pc))
    (hc : code pc = .signal c k) (hnone : ∀ st ∈ s.threads, st.waitsOn c = false) (hcov : Awake s ∨ Signalling s) :
    Awake (s.setThread t (.running k)) ∨ Signalling (s.setThread t (.running k)) := by
  have hs : Step code start s (.run t x w) _ := .signalNone ht hc hnone
  have hlt : t < s.threads.length := (List.getElem?_eq_some_iff.mp ht).1
  refine covered_goes hs hcov ht (by rw [hc]; rfl) (List.getElem?_set_self hlt) ?_
  rintro u rfl
  cases hc
  obtain ⟨v, st, hv, hserving, hb⟩ := awake_of_staffed hexcl hstaff hdown hnone
  have hne : t ≠ v := by
    rintro rfl
    rw [ht] at hv
    cases hv
    cases hserving
  exact ⟨v, st, (List.getElem?_set_ne hne).trans hv, hserving, hb⟩

theorem data_jobNum (h : DataStep t d pc pc' d') : d'.pool.jobNum ≤ d.pool.jobNum ∨ pc'.signalling = true := by
  cases h with
  | worker hs =>
    cases hs with
    | take =>
      left
      rw [ThreadPool.pop_jobNum]
      omega
    | _ => exact .inl (Int.le_refl _)
  | add hs =>
    cases hs with
    | store => exact .inr rfl
    | full | room => exact .inl (Int.le_refl _)
  | _ => exact .inl (Int.le_refl _)

theorem data_not_signalling (h : DataStep t d pc pc' d') : pc.signalling = false := by
  cases h with
  | add hs => cases hs <;> rfl
  | _ => rfl

/-- A task more has a producer that will signal. -/
theorem covered_data {x : Unit} {w : Nat} (hs : Step code start s (.run t x w) s') (hcov : Covered s)
    (ht : s.threads[t]? = some (.running pc)) (ht' : s'.threads[t]? = some (.running k))
    (hd : DataStep t s.shared pc k s'.shared) : Covered s' := by
  intro hdown hpos
  rcases data_jobNum hd with hle | hk
  · have hbefore := hcov (data_shutdown hd hdown) (Int.lt_of_lt_of_le hpos hle)
    refine covered_move hs hbefore ht ht' (fun hpc => data_serving hd hpc hdown) fun hsig => ?_
    rw [data_not_signalling hd] at hsig
    cases hsig
  · exact .inr ⟨t, k, State.pcs_getElem? ht', hk⟩

/-- A worker blocks on an empty queue only. -/
theorem covered_wait {x : Unit} {w : Nat} {c : Cond} {m : Mutex} (hs : Step code start s (.run t x w) s')
    (htested : pc.Tested s.shared) (hpos : 0 < s.shared.pool.jobNum) (hcov : Awake s ∨ Signalling s)
    (ht : s.threads[t]? = some (.running pc)) (hc : code pc = .wait c m k) : Awake s' ∨ Signalling s' := by
  rcases wait_cases hc with ⟨task, rfl, -, -⟩ | ⟨arg, k', rfl, -, -⟩
  · have hempty : s.shared.pool.jobNum ≤ 0 := htested
    omega
  · apply covered_other hs hcov
    · intro u st hu hst hserving _
      cases hu
      rw [ht] at hst
      cases hst
      cases hserving
    · intro u pc hu hpc hsig
      cases hu
      rw [State.pcs_getElem? ht] at hpc
      cases hpc
      cases hsig

theorem covered_resume {x : Unit} {w : Nat} {m : Mutex} (hs : Step code start s (.run t x w) s')
    (hexcl : Exclusive code (holdsIn Pc.held) s) (hcov : Awake s ∨ Signalling s)
    (ht : s.threads[t]? = some (.woken m k)) (ht' : s'.threads[t]? = some (.running k)) : Awake s' ∨ Signalling s' := by
  apply covered_other hs hcov
  · intro u st hu hst hserving _
    cases hu
    rw [ht] at hst
    cases hst
    exact .inl (.of_running ht' hserving)
  · intro u pc hu hpc hsig
    cases hu
    rw [State.pcs_getElem? ht] at hpc
    cases hpc
    obtain ⟨pc0, c, h0⟩ := hexcl.waits _ (List.mem_of_getElem? ht)
    rcases wait_cases h0 with ⟨task, -, -, rfl⟩ | ⟨arg, k', -, -, rfl⟩ <;> cases hsig

theorem covered_step (hexcl : Exclusive code (holdsIn Pc.held) s) (hstaff : Staffed s)
    (htested : ∀ (t : Nat) (pc : Pc), s.pcs[t]? = some pc → pc.Tested s.shared) (hcov : Covered s)
    (hs : Step code start s a s') : Covered s' := by
  have hs0 := hs
  cases hs with
  | @lock t x w pc m k ht hc ho | @unlock t x w pc m k ht hc ho =>
    intro hdown hpos
    have hlt : t < s.threads.length := (List.getElem?_eq_some_iff.mp ht).1
    refine covered_goes hs0 (hcov hdown hpos) ht (by rw [hc]; rfl) (List.getElem?_set_self hlt) ?_
    rintro u rfl
    cases hc
  | @wait t x w pc c m k ht hc ho =>
    intro hdown hpos
    -- who blocks has tested: no task is pending, or it is a producer
    exact covered_wait hs0 (htested t pc (State.pcs_getElem? ht)) hpos (hcov hdown hpos) ht hc
  | @resume t x w m k ht ho =>
    intro hdown hpos
    have hlt : t < s.threads.length := (List.getElem?_eq_some_iff.mp ht).1
    exact covered_resume hs0 hexcl (hcov hdown hpos) ht (List.getElem?_set_self hlt)
  | @signal t x w pc c k m k' ht hc hw =>
    intro hdown hpos
    exact covered_signal (x := x) hexcl ht hc hw (hcov hdown hpos)
  | @signalNone t x w pc c k ht hc hnone =>
    intro hdown hpos
    exact covered_signalNone (x := x) (w := w) hexcl hstaff hdown ht hc hnone (hcov hdown hpos)
  | @broadcast t x w pc c k ht hc =>
    intro hdown hpos
    have hlt : t < s.threads.length := (List.getElem?_eq_some_iff.mp ht).1
    refine covered_goes hs0 (hcov hdown hpos) ht (by rw [hc]; rfl)
      (List.getElem?_set_self (by simpa [State.wakeAll] using hlt)) ?_
    rintro u rfl
    cases hc
  | @data t x w pc f ht hc =>
    have hlt : t < s.threads.length := (List.getElem?_eq_some_iff.mp ht).1
    exact covered_data hs0 hcov ht (List.getElem?_set_self hlt) (data_step hc t x s.shared)
  | create ht hc => exact absurd hc not_create
  | spurious | arrive =>
    intro hdown hpos
    apply covered_other hs0 (hcov hdown hpos)
    · intro u st hu
      cases hu
    · intro u pc hu
      cases hu

/-! ## A free slot has a producer that comes -/

/-- A producer that was woken or is at its test, or will store, and a worker that is
about to signal: each of them accounts for one free slot. -/
def credit : Status Mutex Cond Pc → Bool
  | .woken _ (.add _) => true
  | .running (.add (.test _ _)) | .running (.add (.store _ _)) | .running (.worker (.signal _)) => true
  | _ => false

/-- If a producer is blocked, the `free` slots have been promised. -/
def Room (threads : List (Status Mutex Cond Pc)) (free : Int) : Prop :=
  (∃ st ∈ threads, st.waitsOn .emptyTask = true) → free ≤ threads.countP credit

def Data.free (d : Data) : Int := d.pool.maxJobNum - d.pool.jobNum

variable {threads : List (Status Mutex Cond Pc)} {st st' : Status Mutex Cond Pc} {free free' : Int}

/-- One thread changes its status. -/
theorem Room.set (h : Room threads free) (ht : threads[t]? = some st)
    (hwait : st'.waitsOn .emptyTask = true → free' ≤ 0)
    (hfree : free' + (credit st).toNat ≤ free + (credit st').toNat ∨ free' ≤ 0) : Room (threads.set t st') free' := by
  rintro ⟨x, hx, hw⟩
  have hcount := countP_set_add ht st' credit
  by_cases hle : free' ≤ 0
  · omega
  rcases List.mem_or_eq_of_mem_set hx with hx | rfl
  · have hroom := h ⟨x, hx, hw⟩
    omega
  · exact absurd (hwait hw) hle

theorem credit_cases (h : credit (.running pc) = true) :
    (∃ f, code pc = .data f) ∨ ∃ task, pc = .worker (.signal task) := by
  cases pc with
  | worker pc =>
    cases pc with
    | signal task => exact .inr ⟨task, rfl⟩
    | _ => cases h
  | add pc =>
    cases pc with
    | test | store => exact .inl ⟨_, rfl⟩
    | _ => cases h
  | _ => cases h

/-- Giving up the mutex costs no credit. -/
theorem credit_running (hdata : ∀ f, code pc ≠ .data f) (hsignal : ∀ c k, code pc ≠ .signal c k) :
    credit (.running pc) = false := by
  apply Bool.eq_false_iff.mpr
  intro h
  rcases credit_cases h with ⟨f, hf⟩ | ⟨task, rfl⟩
  · exact hdata f hf
  · exact hsignal .emptyTask _ rfl

theorem Room.running (h : Room threads free) (ht : threads[t]? = some st)
    (hfree : free' + (credit st).toNat ≤ free + (credit (.running k)).toNat ∨ free' ≤ 0) :
    Room (threads.set t (.running k)) free' := by
  refine h.set ht (fun hw => ?_) hfree
  cases hw

/-- A thread without credit, and no change of the data. -/
theorem Room.move (h : Room threads free) (ht : threads[t]? = some st) (hst : credit st = false)
    (hwait : st'.waitsOn .emptyTask = true → free ≤ 0) : Room (threads.set t st') free := by
  apply h.set ht hwait
  left
  rw [hst, Bool.toNat_false]
  omega

theorem Room.goes (h : Room threads free) (ht : threads[t]? = some (.running pc)) (hdata : ∀ f, code pc ≠ .data f)
    (hsignal : ∀ c k, code pc ≠ .signal c k) : Room (threads.set t (.running k)) free := by
  refine h.move ht (credit_running hdata hsignal) fun hw => ?_
  cases hw

/-- A blocked thread is woken. -/
theorem Room.wake {c : Cond} {m : Mutex} (h : Room threads free) (ht : threads[t]? = some (.waiting c m k)) :
    Room (threads.set t (.woken m k)) free := by
  refine h.move ht rfl (fun hw => ?_)
  cases hw

theorem Room.wakeAll (h : Room threads free) (c : Cond) : Room (threads.map (Status.wake c)) free := by
  rintro ⟨x, hx, hw⟩
  obtain ⟨st, hst, rfl⟩ := List.mem_map.mp hx
  have hmono : threads.countP credit ≤ (threads.map (Status.wake c)).countP credit := by
    rw [List.countP_map]
    refine List.countP_mono_left fun y _ hy => ?_
    cases y with
    | running | woken => exact hy
    | waiting => cases hy
  have hroom := h ⟨st, hst, ?_⟩
  · omega
  · cases st with
    | running | woken => cases hw
    | waiting c' m k =>
      rw [Status.wake_waiting] at hw
      split at hw
      · cases hw
      · exact hw

theorem Room.arrive (h : Room threads free) (pc : Pc) : Room (threads ++ [.running pc]) free := by
  rintro ⟨x, hx, hw⟩
  rcases List.mem_append.mp hx with hx | hx
  · have hroom := h ⟨x, hx, hw⟩
    rw [List.countP_append]
    omega
  · obtain rfl := List.mem_singleton.mp hx
    cases hw

theorem data_room (h : DataStep t d pc pc' d') :
    d'.free + (credit (.running pc)).toNat ≤ d.free + (credit (.running pc')).toNat ∨ d'.free ≤ 0 := by
  cases h with
  | worker hs =>
    cases hs with
    | take =>
      left
      simp only [Data.free, ThreadPool.pop_maxJobNum, ThreadPool.pop_jobNum, credit, Bool.toNat_false, Bool.toNat_true]
      omega
    | _ => exact .inl (Int.le_refl _)
  | add hs =>
    cases hs with
    | full hc =>
      right
      unfold Data.free
      omega
    | room => exact .inl (Int.le_refl _)
    | store =>
      left
      simp only [Data.free, ThreadPool.push_maxJobNum, ThreadPool.push_jobNum, credit, Bool.toNat_false, Bool.toNat_true]
      omega
  | _ => exact .inl (Int.le_refl _)

theorem signal_cases {c : Cond} (h : code pc = .signal c k) :
    (∃ task, pc = .worker (.signal task) ∧ c = .emptyTask ∧ k = .worker (.shutdown task)) ∨
    ∃ u, pc = .add (.signal u) ∧ c = .notEmptyTask ∧ k = .returned := by
  have hmoves : Moves pc k := moves (by rw [h]; rfl)
  cases hmoves with
  | signal task =>
    cases h
    exact .inl ⟨task, rfl, rfl, rfl⟩
  | addSignal u =>
    cases h
    exact .inr ⟨u, rfl, rfl, rfl⟩
  | _ => cases h

/-- A credit passes from the worker that signals to the producer it wakes. -/
theorem room_signal {w : Nat} {c : Cond} {m : Mutex} {k' : Pc} (hexcl : Exclusive code (holdsIn Pc.held) s)
    (ht : s.threads[t]? = some (.running pc)) (hc : code pc = .signal c k)
    (hw : s.threads[w]? = some (.waiting c m k')) (h : Room s.threads free) :
    Room ((s.threads.set w (.woken m k')).set t (.running k)) free := by
  have hne : w ≠ t := by
    rintro rfl
    rw [ht] at hw
    cases hw
  have ht' : (s.threads.set w (.woken m k'))[t]? = some (.running pc) := (List.getElem?_set_ne hne).trans ht
  rcases signal_cases hc with ⟨task, rfl, rfl, rfl⟩ | ⟨u, rfl, -, rfl⟩
  · obtain ⟨pc0, h0⟩ := hexcl.waits _ (List.mem_of_getElem? hw)
    rcases wait_cases h0 with ⟨task', -, hc, -⟩ | ⟨arg, k0, -, -, rfl⟩
    · cases hc
    · have hwoken : Room (s.threads.set w (.woken m (.add (.test arg k0)))) (free + 1) := by
        apply h.set hw
        · intro hwait
          cases hwait
        · left
          show free + 1 + 0 ≤ free + 1
          omega
      apply hwoken.running ht'
      left
      simp only [credit, Bool.toNat_false, Bool.toNat_true]
      omega
  · exact (h.wake hw).running ht' (.inl (Int.le_refl _))

theorem room_signalNone {c : Cond} (ht : s.threads[t]? = some (.running pc)) (hc : code pc = .signal c k)
    (hnone : ∀ st ∈ s.threads, st.waitsOn c = false) (h : Room s.threads free) :
    Room (s.threads.set t (.running k)) free := by
  rcases signal_cases hc with ⟨task, rfl, rfl, rfl⟩ | ⟨u, rfl, -, rfl⟩
  · -- the credit goes to nobody, and nobody needs it
    rintro ⟨x, hx, hw⟩
    rcases List.mem_or_eq_of_mem_set hx with hx | rfl
    · rw [hnone x hx] at hw
      cases hw
    · cases hw
  · exact h.running ht (.inl (Int.le_refl _))

/-- A woken thread keeps its credit when it has the mutex. -/
theorem room_resume {m : Mutex} (hexcl : Exclusive code (holdsIn Pc.held) s) (ht : s.threads[t]? = some (.woken m k))
    (h : Room s.threads free) : Room (s.threads.set t (.running k)) free := by
  obtain ⟨pc0, c, h0⟩ := hexcl.waits _ (List.mem_of_getElem? ht)
  rcases wait_cases h0 with ⟨task, -, -, rfl⟩ | ⟨arg, k', -, -, rfl⟩ <;> exact h.running ht (.inl (Int.le_refl _))

theorem room_broadcast {c : Cond} (ht : s.threads[t]? = some (.running pc)) (hc : code pc = .broadcast c k)
    (h : Room s.threads free) : Room ((s.threads.map (Status.wake c)).set t (.running k)) free := by
  have ht' : (s.threads.map (Status.wake c))[t]? = some (.running pc) := by
    rw [List.getElem?_map, ht]
    rfl
  refine (h.wakeAll c).goes ht' (fun f hf => ?_) fun c k hk => ?_
  · cases hc.symm.trans hf
  · cases hc.symm.trans hk

theorem room_step (hexcl : Exclusive code (holdsIn Pc.held) s)
    (htested : ∀ (t : Nat) (pc : Pc), s.pcs[t]? = some pc → pc.Tested s.shared) (h : Room s.threads s.shared.free)
    (hs : Step code start s a s') : Room s'.threads s'.shared.free := by
  cases hs with
  | lock ht hc | unlock ht hc =>
    refine h.goes ht (fun f hf => ?_) fun c k hk => ?_
    · cases hc.symm.trans hf
    · cases hc.symm.trans hk
  | @wait t x w pc c m k ht hc ho =>
    rcases wait_cases hc with ⟨task, rfl, rfl, rfl⟩ | ⟨arg, k', rfl, rfl, rfl⟩
    · refine h.move ht rfl (fun hw => ?_)
      cases hw
    · -- a producer blocks only where no slot is free, and then no credit is needed
      have hfull : s.shared.pool.maxJobNum ≤ s.shared.pool.jobNum := htested t _ (State.pcs_getElem? ht)
      refine h.move ht rfl fun _ => ?_
      unfold Data.free
      omega
  | @resume t x w m k ht ho => exact room_resume (s := s) hexcl ht h
  | signal ht hc hw => exact room_signal hexcl ht hc hw h
  | signalNone ht hc hnone => exact room_signalNone ht hc hnone h
  | broadcast ht hc => exact room_broadcast ht hc h
  | @data t x w pc f ht hc => exact h.running ht (data_room (data_step hc t x s.shared))
  | create ht hc => exact absurd hc not_create
  | spurious ht => exact h.wake ht
  | arrive => exact h.arrive _

/-! ## Runs -/

variable {thrnum maxtasknum : Nat} {raw copy : Nat → PoolTask}

theorem create_staffed (h : 0 < thrnum) : Staffed (create thrnum maxtasknum raw copy) := by
  intro _
  refine ⟨.worker (.lock (copy 0)), ?_, rfl⟩
  have hrange : (List.range thrnum)[0]? = some 0 := List.getElem?_range h
  rw [State.pcs, create, List.map_append, List.getElem?_append_left (by simpa using h), List.getElem?_map,
    List.getElem?_map, hrange]
  rfl

theorem no_lost_wakeup_invariant (hthr : 1 ≤ thrnum) (h : Reachable thrnum maxtasknum s) :
    Staffed s ∧ Covered s ∧ Room s.threads s.shared.free := by
  obtain ⟨raw, copy, hr⟩ := h
  have hinv : Reachable thrnum maxtasknum s ∧ Staffed s ∧ Covered s ∧ Room s.threads s.shared.free := by
    apply hr.invariant
    · rintro s a s' ⟨⟨raw', copy', hr'⟩, hstaff, hcov, hroom⟩ hs
      obtain ⟨hexcl, -, hlocal⟩ := Reachable.asserted ⟨raw', copy', hr'⟩
      have hstep := step_cases hs
      have htested : ∀ (t : Nat) (pc : Pc), s.pcs[t]? = some pc → pc.Tested s.shared :=
        fun t pc ht => (hlocal t pc ht).tested
      refine ⟨⟨raw', copy', hr'.tail hs⟩, staffed_step hstaff hstep, ?_, room_step hexcl htested hroom hstep⟩
      exact covered_step hexcl hstaff htested hcov hstep
    · refine ⟨⟨raw, copy, .refl _⟩, create_staffed hthr, fun _ hpos => absurd hpos (Int.lt_irrefl 0), ?_⟩
      rintro ⟨st, hst, hw⟩
      rcases create_running hst with ⟨task, rfl⟩ | rfl <;> cases hw
  exact hinv.2

/-- Of a credit only a woken producer is left when the mutex is free. -/
theorem woken_of_credit (hexcl : Exclusive code (holdsIn Pc.held) s) (hfree : s.owner .poolLock = none)
    (hst : st ∈ s.threads) (h : credit st = true) :
    ∃ arg k, st = .woken .poolLock (.add (.test arg k)) := by
  obtain ⟨t, ht⟩ := List.mem_iff_getElem?.mp hst
  cases st with
  | waiting => cases h
  | woken m pc =>
    obtain ⟨pc0, c, h0⟩ := hexcl.waits _ hst
    rcases wait_cases h0 with ⟨task, -, -, rfl⟩ | ⟨arg, k, -, -, rfl⟩
    · cases h
    · cases m
      exact ⟨arg, k, rfl⟩
  | running pc =>
    have hheld : holdsIn Pc.held pc .poolLock = true := by
      cases pc with
      | worker pc => cases pc <;> first | rfl | cases h
      | add pc => cases pc <;> first | rfl | cases h
      | _ => cases h
    rw [hexcl.not_held ht hfree] at hheld
    cases hheld

theorem signal_of_signalling (hexcl : Exclusive code (holdsIn Pc.held) s) (hfree : s.owner .poolLock = none)
    (h : Signalling s) : ∃ (t : Nat) (u : Unit), s.threads[t]? = some (.running (.add (.signal u))) := by
  obtain ⟨t, pc, ht, hsig⟩ := h
  rcases hexcl.running_or_waits ht with ht | ⟨pc0, c, m, h0⟩
  · have hheld := hexcl.not_held ht hfree
    cases pc with
    | add pc =>
      cases pc with
      | unlock u => cases hheld
      | signal u => exact ⟨t, u, ht⟩
      | _ => cases hsig
    | _ => cases hsig
  · rw [(not_signalling_wait h0).2] at hsig
    cases hsig

/-- Between critical sections: a pending task has a worker that is not blocked or a
producer about to signal, and a free slot with a blocked producer has a producer
that was woken and has not tested again. -/
theorem no_lost_wakeup (hthr : 1 ≤ thrnum) (h : Reachable thrnum maxtasknum s)
    (hdown : s.shared.pool.shutdown = false) (hfree : s.owner .poolLock = none) :
    (0 < s.shared.pool.jobNum →
      (∃ st ∈ s.threads, st.pc.serving = true ∧ st.blocked = false) ∨
      ∃ u, .running (.add (.signal u)) ∈ s.threads) ∧
    (s.shared.pool.jobNum < maxtasknum → (∃ st ∈ s.threads, st.waitsOn .emptyTask = true) →
      ∃ arg k, .woken .poolLock (.add (.test arg k)) ∈ s.threads) := by
  obtain ⟨hexcl, hqueue, -⟩ := h.asserted
  obtain ⟨-, hcov, hroom⟩ := no_lost_wakeup_invariant hthr h
  constructor
  · intro hpos
    rcases hcov hdown hpos with ⟨t, st, ht, hserving, hb⟩ | hsig
    · exact .inl ⟨st, List.mem_of_getElem? ht, hserving, hb⟩
    · obtain ⟨t, u, ht⟩ := signal_of_signalling hexcl hfree hsig
      exact .inr ⟨u, List.mem_of_getElem? ht⟩
  · intro hlt hwait
    have hle := hroom hwait
    have hmax : s.shared.pool.maxJobNum = maxtasknum := hqueue.max
    have hpos : 0 < s.threads.countP credit := by
      rw [Data.free] at hle
      omega
    obtain ⟨st, hst, hcredit⟩ := List.countP_pos_iff.mp hpos
    obtain ⟨arg, k, rfl⟩ := woken_of_credit hexcl hfree hst hcredit
    exact ⟨arg, k, hst⟩

/-- Two producers wait for the one slot; the worker takes the task and its signal wakes
one of them. -/
theorem no_lost_wakeup_slot : ∃ s : PoolState, s.shared.pool.jobNum = 0 ∧
    (∃ st ∈ s.threads, st.waitsOn .emptyTask = true) ∧
    ∃ arg k, .woken .poolLock (.add (.test arg k)) ∈ s.threads := by
  obtain ⟨s, hr, hs⟩ := Lts.Reach.of_run poolStep (create 1 1 (fun _ => {}) fun _ => {})
    (fun s => s.shared.pool.shutdown = false ∧ s.owner .poolLock = none ∧ s.shared.pool.jobNum = 0 ∧
      s.threads.any (fun st => st.waitsOn .emptyTask) = true)
    (arrives :: steps 2 5 ++ arrives :: steps 3 3 ++ arrives :: steps 4 3 ++ steps 0 4 ++ [.run 0 () 3] ++ steps 0 2)
    (by decide +kernel)
  obtain ⟨hdown, hfree, hnum, hwait⟩ := of_decide_eq_true hs
  have hwait := List.any_eq_true.mp hwait
  exact ⟨s, hnum, hwait, (no_lost_wakeup (Nat.le_refl 1) ⟨_, _, hr⟩ hdown hfree).2 (by rw [hnum]; decide) hwait⟩

end
end CSocket.TaskPool
