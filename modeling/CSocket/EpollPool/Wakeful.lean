import CSocket.EpollPool.Readiness
import CSocket.Lib.Wake
/-!
# The server does not sleep on data

A task in the queue has a worker that is awake, or `main` is about to signal. `main` waits
for a slot only while the queue is full or a worker has just made room. So whoever has the
number of a connection with something to read, somebody is at work (`never_sleeps`).
-/
namespace CSocket.EpollPool
open Pthread SimplePool Epoll

/-! ## Threads -/

/-- A worker that has not left its loop. -/
def Pc.serving : Pc → Bool
  | .worker .quit | .worker .exit | .worker .ended => false
  | .worker _ | .task _ => true
  | _ => false

/-- `main` has stored its task and has not signalled yet. -/
def Pc.telling : Pc → Bool
  | .main (.addtask (.unlock _)) | .main (.addtask (.signal _)) => true
  | _ => false

def Pc.isMain : Pc → Bool
  | .main _ => true
  | _ => false

/-- A worker that has made room and has not signalled yet. -/
def Pc.roomy : Pc → Bool
  | .worker (.signal _) => true
  | _ => false

section
variable {pc k : Pc}

theorem nextEvent_main (rest : List Event) : ∃ pc, nextEvent rest = .main pc ∧ (nextEvent rest).telling = false := by
  cases rest <;> exact ⟨_, rfl, rfl⟩

theorem wait_kinds {c : Cond} {m : Mutex} (h : code pc = .wait c m k) :
    (∃ task, pc = .worker (.wait task) ∧ c = .notEmptyTask ∧ k = .worker (.test task)) ∨
    ∃ arg rest, pc = .main (.addtask (.wait arg rest)) ∧ c = .emptyTask ∧ k = .main (.addtask (.test arg rest)) := by
  have hmoves : Moves pc k := moves (by rw [h]; rfl)
  cases hmoves with
  | wait task =>
    cases h
    exact .inl ⟨task, rfl, rfl, rfl⟩
  | addWait arg rest =>
    cases h
    exact .inr ⟨arg, rest, rfl, rfl, rfl⟩
  | _ => cases h

theorem waking : Waking code Pc.serving Pc.telling .notEmptyTask where
  serves hg hpc := by
    cases moves hg with
    | lock | wait | signal | unlock => rfl
    | _ => cases hpc
  tells hg hpc := by
    cases moves hg with
    | addUnlock => exact .inl rfl
    | addSignal => exact .inr rfl
    | _ => cases hpc
  busy {pc f} hc := by
    cases pc with
    | main pc =>
      cases pc with
      | addtask pc => cases pc <;> first | rfl | cases hc
      | _ => rfl
    | _ => rfl
  waits h := by
    rcases wait_kinds h with ⟨task, -, rfl, rfl⟩ | ⟨arg, rest, -, rfl, rfl⟩
    · exact ⟨rfl, fun _ => rfl, fun _ => rfl⟩
    · exact ⟨rfl, nofun, nofun⟩
  create := not_create

theorem goes_isMain (hg : (code pc).Goes k) : k.isMain = pc.isMain := by
  cases moves hg with
  | addSignal rest =>
    obtain ⟨pc, hpc, -⟩ := nextEvent_main rest
    rw [hpc]
    rfl
  | _ => rfl

/-! ## What an instruction does to the queue -/

/-- The queue's size follows the position. -/
structure Sizes (pc : Pc) (p : ThreadPool PoolTask) (k : Pc) (p' : ThreadPool PoolTask) : Prop where
  max : p'.maxJobNum = p.maxJobNum
  main : k.isMain = pc.isMain
  roomy : pc.roomy = false
  serving : p.shutdown = false → pc.serving = true → k.serving = true
  num : p.jobNum = p'.jobNum ∨ p'.jobNum < p.jobNum ∧ k.roomy = true ∨ p.jobNum < p'.jobNum ∧ k.telling = true

theorem Sizes.same {p p' : ThreadPool PoolTask} (hp : p' = p) (hmain : k.isMain = pc.isMain) (hroomy : pc.roomy = false)
    (hserving : pc.serving = true → k.serving = true) : Sizes pc p k p' :=
  ⟨by rw [hp], hmain, hroomy, fun _ => hserving, .inl (by rw [hp])⟩

theorem sizes {f : Nat → Input → Shared PoolTask Net → Shared PoolTask Net × Pc} (hc : code pc = .data f) (t : Nat)
    (x : Input) (d : Shared PoolTask Net) : Sizes pc d.pool (f t x d).2 (f t x d).1.pool := by
  cases pc with
  | worker pc =>
    obtain ⟨pc', hpc, hstep, -⟩ := thrRun_data hc t x d
    rw [hpc]
    generalize (f t x d).1.pool = pool at hstep
    cases hstep with
    | take => exact ⟨rfl, rfl, rfl, fun _ _ => rfl, .inr (.inl ⟨by rw [ThreadPool.pop_jobNum]; omega, rfl⟩)⟩
    | exit => exact ⟨rfl, rfl, rfl, nofun, .inl rfl⟩
    | quit hshut =>
      refine ⟨rfl, rfl, rfl, fun hup => ?_, .inl rfl⟩
      rw [hup] at hshut
      cases hshut
    | _ => exact .same rfl rfl rfl fun _ => rfl
  | task pc =>
    cases pc with
    | read task =>
      cases hc
      dsimp only
      split <;> exact .same rfl rfl rfl fun _ => rfl
    | write | close =>
      cases hc
      exact .same rfl rfl rfl fun _ => rfl
    | ctl task =>
      cases hc
      dsimp only
      split <;> exact .same rfl rfl rfl fun _ => rfl
  | main pc =>
    have hnext (rest : List Event) : Sizes (.main pc) d.pool (nextEvent rest) d.pool := by
      obtain ⟨k, hk, -⟩ := nextEvent_main rest
      rw [hk]
      exact .same rfl rfl rfl nofun
    cases pc with
    | wait =>
      cases hc
      dsimp only
      split
      · split
        · exact hnext _
        · exact .same rfl rfl rfl nofun
      · exact .same rfl rfl rfl nofun
    | event e rest =>
      cases hc
      dsimp only
      split
      · exact .same rfl rfl rfl nofun
      · split
        · exact .same rfl rfl rfl nofun
        · exact hnext _
    | accept rest =>
      cases hc
      dsimp only
      split
      · split <;> exact .same rfl rfl rfl nofun
      · exact .same rfl rfl rfl nofun
    | ctl fd rest =>
      cases hc
      exact hnext _
    | addtask pc =>
      have hc : addtask pc = .data f := hc
      obtain ⟨pc', hpc, hstep⟩ := addtask_data hc t x d
      rw [hpc]
      generalize (f t x d).1 = d' at hstep
      cases hstep with
      | full | room => exact .same rfl rfl rfl nofun
      | store => exact ⟨rfl, rfl, rfl, nofun, .inr (.inr ⟨by rw [ThreadPool.push_jobNum]; omega, rfl⟩)⟩
  | net =>
    cases hc
    dsimp only
    split <;> exact .same rfl rfl rfl nofun

end

/-! ## Runs -/

section
variable {s s' : ServerState} {a : ServerAct}

structure Wakeful (s : ServerState) : Prop where
  slots : 1 ≤ s.shared.pool.maxJobNum
  covered : 0 < s.shared.pool.jobNum → Pthread.Covered Pc.serving Pc.telling s
  staffed : ∃ pc ∈ s.pcs, pc.serving = true
  oneMain : ∀ (t u : Nat) (pc pc' : Pc), s.pcs[t]? = some pc → s.pcs[u]? = some pc' → pc.isMain = true →
    pc'.isMain = true → t = u
  full : ∀ st ∈ s.threads, st.waitsOn Cond.emptyTask = true →
    s.shared.pool.maxJobNum ≤ s.shared.pool.jobNum ∨ ∃ pc ∈ s.pcs, pc.roomy = true

/-- `main` alone waits for a slot. -/
theorem waits_main (hexcl : Exclusive code (holdsIn Pc.held) s) {st : Status Mutex Cond Pc} (hst : st ∈ s.threads)
    (hwaits : st.waitsOn Cond.emptyTask = true) : ∃ arg rest, st.pc = .main (.addtask (.test arg rest)) := by
  cases st with
  | running | woken => cases hwaits
  | waiting c m k =>
    obtain rfl : c = .emptyTask := of_decide_eq_true hwaits
    obtain ⟨pc0, h0⟩ := hexcl.waits _ hst
    rcases wait_kinds h0 with ⟨task, -, hc, -⟩ | ⟨arg, rest, -, -, rfl⟩
    · cases hc
    · exact ⟨arg, rest, rfl⟩

theorem roomy_code {pc k : Pc} (hpc : pc.roomy = true) (hg : (code pc).Goes k) : code pc = .signal .emptyTask k := by
  cases moves hg with
  | signal task => rfl
  | _ => cases hpc

theorem full_step (h : Wakeful s) (hexcl : Exclusive code (holdsIn Pc.held) s)
    (hA : ∀ (t : Nat) (pc : Pc), s.pcs[t]? = some pc → pc.Asserted s.shared) (hs : Step code (fun _ => false) s a s')
    {st : Status Mutex Cond Pc} (hst : st ∈ s'.threads) (hwaits : st.waitsOn Cond.emptyTask = true) :
    s'.shared.pool.maxJobNum ≤ s'.shared.pool.jobNum ∨ ∃ pc ∈ s'.pcs, pc.roomy = true := by
  have hs0 := hs
  have hkeep {st0 : Status Mutex Cond Pc} (h0 : st0 ∈ s.threads) (hw0 : st0.waitsOn Cond.emptyTask = true)
      (hpool : s'.shared.pool = s.shared.pool) (hkept : ∀ pc ∈ s.pcs, pc.roomy = true → pc ∈ s'.pcs) :
      s'.shared.pool.maxJobNum ≤ s'.shared.pool.jobNum ∨ ∃ pc ∈ s'.pcs, pc.roomy = true := by
    rw [hpool]
    exact (h.full st0 h0 hw0).imp_right fun ⟨pc, hpc, hroomy⟩ => ⟨pc, hkept pc hpc hroomy, hroomy⟩
  have hnot {pc k : Pc} (hg : (code pc).Goes k) (hne : code pc ≠ .signal .emptyTask k) : pc.roomy = false :=
    Bool.eq_false_iff.mpr fun hroomy => hne (roomy_code hroomy hg)
  have hold {t : Nat} {k : Pc} (hst : st ∈ s.threads.set t (.running k)) : st ∈ s.threads := by
    rcases List.mem_or_eq_of_mem_set hst with hst | rfl
    · exact hst
    · cases hwaits
  cases hs with
  | @lock t x w pc m k ht hc | @unlock t x w pc m k ht hc =>
    exact hkeep (hold hst) hwaits rfl (hs0.run_kept ht (hnot (k := k) (by rw [Status.pc_running, hc]; rfl) (by rw [Status.pc_running, hc]; nofun)))
  | @wait t x w pc c m k ht hc =>
    rcases List.mem_or_eq_of_mem_set hst with hst | rfl
    · exact hkeep hst hwaits rfl (hs0.run_kept ht (hnot (k := k) (by rw [Status.pc_running, hc]; rfl) (by rw [Status.pc_running, hc]; nofun)))
    · rcases wait_kinds hc with ⟨task, -, rfl, -⟩ | ⟨arg, rest, rfl, -, -⟩
      · cases hwaits
      · exact .inl ((hA t _ (State.pcs_getElem? ht)).2 _ rfl)
  | @resume t x w m k ht =>
    obtain ⟨pc0, c, h0⟩ := hexcl.waits _ (List.mem_of_getElem? ht)
    have hk : k.roomy = false := by rcases wait_kinds h0 with ⟨task, -, -, rfl⟩ | ⟨arg, rest, -, -, rfl⟩ <;> rfl
    exact hkeep (hold hst) hwaits rfl (hs0.run_kept ht hk)
  | @signal t x w pc c k m k' ht hc hw =>
    have hst : st ∈ s.threads.set w (.woken m k') := by
      rcases List.mem_or_eq_of_mem_set hst with hst | rfl
      · exact hst
      · cases hwaits
    obtain ⟨v, hv⟩ := List.mem_iff_getElem?.mp hst
    have hvw : w ≠ v := by
      rintro rfl
      rw [List.getElem?_set_self (List.getElem?_eq_some_iff.mp hw).1] at hv
      cases hv
      cases hwaits
    rw [List.getElem?_set_ne hvw] at hv
    have hv' := List.mem_of_getElem? hv
    refine hkeep hv' hwaits rfl (hs0.run_kept ht (hnot (k := k) (by rw [Status.pc_running, hc]; rfl) ?_))
    rw [Status.pc_running, hc]
    intro he
    obtain ⟨rfl, -⟩ := Instr.signal.inj he
    -- the one that is woken was the only one to wait
    obtain ⟨arg, rest, hmain⟩ := waits_main hexcl hv' hwaits
    obtain ⟨arg', rest', hmain'⟩ := waits_main hexcl (List.mem_of_getElem? hw) rfl
    refine hvw (h.oneMain w v _ _ (State.pcs_getElem? hw) (State.pcs_getElem? hv) ?_ ?_)
    · rw [hmain']
      rfl
    · rw [hmain]
      rfl
  | @signalNone t x w pc c k ht hc hnone =>
    have hne : c ≠ .emptyTask := by
      rintro rfl
      rw [hnone st (hold hst)] at hwaits
      cases hwaits
    exact hkeep (hold hst) hwaits rfl (hs0.run_kept ht (hnot (k := k) (by rw [Status.pc_running, hc]; rfl) (by
      rw [Status.pc_running, hc]
      exact fun he => hne (Instr.signal.inj he).1)))
  | @broadcast t x w pc c k ht hc =>
    have hmoves : Moves pc k := moves (by rw [hc]; rfl)
    cases hmoves <;> cases hc
  | @data t x w pc f ht hc =>
    have hsize := sizes hc t x s.shared
    have hkept := hs0.run_kept ht (P := Pc.roomy) hsize.roomy
    show (f t x s.shared).1.pool.maxJobNum ≤ (f t x s.shared).1.pool.jobNum ∨ _
    rw [hsize.max]
    rcases hsize.num with heq | ⟨hlt, hk⟩ | ⟨hlt, -⟩
    · rw [← heq]
      exact (h.full st (hold hst) hwaits).imp_right fun ⟨pc, hpc, hroomy⟩ => ⟨pc, hkept pc hpc hroomy, hroomy⟩
    · have hlt' : t < s.threads.length := (List.getElem?_eq_some_iff.mp ht).1
      exact .inr ⟨_, List.mem_of_getElem? (State.pcs_getElem? (List.getElem?_set_self hlt')), hk⟩
    · rcases h.full st (hold hst) hwaits with hfull | ⟨pc, hpc, hroomy⟩
      · exact .inl (by omega)
      · exact .inr ⟨pc, hkept pc hpc hroomy, hroomy⟩
  | create ht hc => exact absurd hc not_create
  | @spurious t c m k ht =>
    rcases List.mem_or_eq_of_mem_set hst with hst | rfl
    · exact hkeep hst hwaits rfl (hs0.kept fun _ _ hact => nomatch hact)
    · cases hwaits
  | arrive hp => cases hp

/-- One thread moves: there is still a worker, and one `main`. -/
theorem Wakeful.set (h : Wakeful s) {t : Nat} {pc k : Pc} (ht : s.pcs[t]? = some pc) (hpcs : s'.pcs = s.pcs.set t k)
    (hserving : pc.serving = true → k.serving = true) (hmain : k.isMain = pc.isMain) :
    (∃ pc ∈ s'.pcs, pc.serving = true) ∧
    ∀ (t u : Nat) (pc pc' : Pc), s'.pcs[t]? = some pc → s'.pcs[u]? = some pc' → pc.isMain = true →
      pc'.isMain = true → t = u := by
  have hlt : t < s.pcs.length := (List.getElem?_eq_some_iff.mp ht).1
  constructor
  · obtain ⟨pc', hpc', hserves⟩ := h.staffed
    obtain ⟨u, hu⟩ := List.mem_iff_getElem?.mp hpc'
    rw [hpcs]
    by_cases htu : t = u
    · subst htu
      rw [ht] at hu
      cases hu
      exact ⟨k, List.mem_of_getElem? (List.getElem?_set_self hlt), hserving hserves⟩
    · exact ⟨pc', List.mem_of_getElem? ((List.getElem?_set_ne htu).trans hu), hserves⟩
  · have hold {u : Nat} {pc' : Pc} (hu : s'.pcs[u]? = some pc') : ∃ pc0, s.pcs[u]? = some pc0 ∧ pc0.isMain = pc'.isMain := by
      rw [hpcs] at hu
      by_cases htu : t = u
      · subst htu
        rw [List.getElem?_set_self hlt] at hu
        cases hu
        exact ⟨pc, ht, hmain.symm⟩
      · exact ⟨pc', (List.getElem?_set_ne htu).symm.trans hu, rfl⟩
    intro u v pc1 pc2 hu hv h1 h2
    obtain ⟨pc1', hu', hm1⟩ := hold hu
    obtain ⟨pc2', hv', hm2⟩ := hold hv
    exact h.oneMain u v pc1' pc2' hu' hv' (hm1.trans h1) (hm2.trans h2)

theorem Wakeful.step (h : Wakeful s) (hup : s.shared.pool.shutdown = false)
    (hA : Pthread.Asserted code (holdsIn Pc.held) (fun _ => Queued) (fun _ pc d => pc.Asserted d) s)
    (hs : serverStep s a = some s') : Wakeful s' := by
  have hstep := step_cases hs
  have hcovered := hstep.covered (fun d => 0 < d.pool.jobNum) waking hA.exclusive h.staffed
    (fun t pc c m k ht hc hserve hpos => by
      rcases wait_kinds hc with ⟨task, rfl, -, -⟩ | ⟨arg, rest, rfl, -, -⟩
      · -- a worker waits after it has seen an empty queue
        have hempty : s.shared.pool.jobNum ≤ 0 := hA.atPc t _ (State.pcs_getElem? ht)
        omega
      · cases hserve)
    (fun t x pc f _ hc => by
      have hsize := sizes hc t x s.shared
      refine ⟨hsize.serving hup, fun hpos => ?_⟩
      rcases hsize.num with heq | ⟨hlt, -⟩ | ⟨-, hk⟩
      · exact .inl (heq ▸ hpos)
      · exact .inl (Int.lt_trans hpos hlt)
      · exact .inr hk) h.covered
  suffices hset : s'.shared.pool.maxJobNum = s.shared.pool.maxJobNum ∧ (∃ pc ∈ s'.pcs, pc.serving = true) ∧
      ∀ (t u : Nat) (pc pc' : Pc), s'.pcs[t]? = some pc → s'.pcs[u]? = some pc' → pc.isMain = true →
        pc'.isMain = true → t = u from ⟨hset.1 ▸ h.slots, hcovered, hset.2.1, hset.2.2,
        fun _ hst hwaits => full_step h hA.exclusive hA.atPc hstep hst hwaits⟩
  cases hstep.effect with
  | quiet hpcs hd =>
    rw [hpcs, hd]
    exact ⟨rfl, h.staffed, h.oneMain⟩
  | move _ ht hg hpcs hd =>
    rw [hd]
    exact ⟨rfl, h.set (State.pcs_getElem? ht) hpcs (waking.serves hg) (goes_isMain hg)⟩
  | @data t x w pc f _ ht hc hpcs hd =>
    have hsize := sizes hc t x s.shared
    rw [hd]
    exact ⟨hsize.max, h.set (State.pcs_getElem? ht) hpcs (hsize.serving hup) hsize.main⟩
  | create _ _ hc => exact absurd hc not_create
  | arrive hp => cases hp

/-! ## The result -/

/-- At work: not blocked, and not in `epoll_wait`. -/
def Pc.working : Pc → Bool
  | .main .wait => false
  | .main _ => true
  | pc => pc.serving

def AtWork (s : ServerState) : Prop :=
  ∃ (t : Nat) (st : Status Mutex Cond Pc), s.threads[t]? = some st ∧ st.pc.working = true ∧ st.blocked = false

section
variable {thrnum maxtasknum lfd : Nat} {raw copy : Nat → PoolTask}

theorem create_pcs : (create thrnum maxtasknum lfd raw copy).pcs =
    (List.range thrnum).map (fun t => .worker (.lock (copy t))) ++ [.main .wait, .net] := by
  simp [State.pcs, create, Function.comp_def]

theorem create_main {t : Nat} {pc : Pc} (ht : (create thrnum maxtasknum lfd raw copy).pcs[t]? = some pc)
    (hpc : pc.isMain = true) : t = thrnum := by
  rw [create_pcs] at ht
  by_cases hlt : t < thrnum
  · rw [List.getElem?_append_left (by simpa using hlt)] at ht
    obtain ⟨u, -, rfl⟩ := List.mem_map.mp (List.mem_of_getElem? ht)
    cases hpc
  · rw [List.getElem?_append_right (by simpa using hlt), List.length_map, List.length_range] at ht
    obtain ⟨n, rfl⟩ : ∃ n, t = thrnum + n := ⟨t - thrnum, by omega⟩
    rw [Nat.add_sub_cancel_left] at ht
    match n with
    | 0 => rfl
    | 1 =>
      cases ht
      cases hpc
    | n + 2 => cases ht

theorem create_wakeful (hthr : 1 ≤ thrnum) (hmax : 1 ≤ maxtasknum) : Wakeful (create thrnum maxtasknum lfd raw copy) where
  slots := by
    show (1 : Int) ≤ maxtasknum
    omega
  covered h := absurd h (Int.lt_irrefl 0)
  staffed := by
    refine ⟨.worker (.lock (copy 0)), ?_, rfl⟩
    rw [create_pcs]
    exact List.mem_append_left _ (List.mem_map.mpr ⟨0, List.mem_range.mpr hthr, rfl⟩)
  oneMain _ _ _ _ ht hu h h' := (create_main ht h).trans (create_main hu h').symm
  full st hst hwaits := by
    rcases List.mem_append.mp hst with hst | hst
    · obtain ⟨t, -, rfl⟩ := List.mem_map.mp hst
      cases hwaits
    · rcases List.mem_pair.mp hst with rfl | rfl <;> cases hwaits

/-- A thread that is to signal, or to read, runs. -/
theorem atWork_of_running (hexcl : Exclusive code (holdsIn Pc.held) s) {pc : Pc} (hpc : pc ∈ s.pcs)
    (hwork : pc.working = true) (hwait : ∀ pc0 c m, code pc0 ≠ .wait c m pc) : AtWork s := by
  obtain ⟨t, ht⟩ := List.mem_iff_getElem?.mp hpc
  rcases hexcl.running_or_waits ht with ht | ⟨pc0, c, m, h0⟩
  · exact ⟨t, .running pc, ht, hwork, rfl⟩
  · exact absurd h0 (hwait pc0 c m)

theorem working_of_serving {pc : Pc} (h : pc.serving = true) : pc.working = true := by
  cases pc with
  | main => cases h
  | _ => exact h

theorem atWork_of_awake (h : Awake Pc.serving s) : AtWork s := by
  obtain ⟨t, st, ht, hserve, hb⟩ := h
  exact ⟨t, st, ht, working_of_serving hserve, hb⟩

theorem not_wait {pc : Pc} (h : (∀ task, pc ≠ .worker (.test task)) ∧ ∀ arg rest, pc ≠ .main (.addtask (.test arg rest)))
    (pc0 : Pc) (c : Cond) (m : Mutex) : code pc0 ≠ .wait c m pc := by
  intro hc
  rcases wait_kinds hc with ⟨task, -, -, hpc⟩ | ⟨arg, rest, -, -, hpc⟩
  · exact h.1 task hpc
  · exact h.2 arg rest hpc

theorem working_of_telling {pc : Pc} (h : pc.telling = true) :
    pc.working = true ∧ ∀ pc0 c m, code pc0 ≠ .wait c m pc := by
  unfold Pc.telling at h
  split at h
  · exact ⟨rfl, not_wait ⟨nofun, nofun⟩⟩
  · exact ⟨rfl, not_wait ⟨nofun, nofun⟩⟩
  · cases h

theorem atWork_of_jobs (h : Wakeful s) (hexcl : Exclusive code (holdsIn Pc.held) s) (hpos : 0 < s.shared.pool.jobNum) :
    AtWork s := by
  rcases h.covered hpos with hawake | ⟨t, pc, ht, htell⟩
  · exact atWork_of_awake hawake
  · obtain ⟨hwork, hwait⟩ := working_of_telling htell
    exact atWork_of_running hexcl (List.mem_of_getElem? ht) hwork hwait

theorem working_of_numbers {pc : Pc} {fd : Nat} (h : fd ∈ pc.numbers) : pc.working = true := by
  cases pc with
  | worker pc => cases pc <;> first | rfl | cases h
  | task pc => rfl
  | main pc =>
    cases pc with
    | wait => rcases mem_main.mp h with ⟨e, he, -⟩ | ⟨task, htask, -⟩ <;> [cases he; cases htask]
    | _ => rfl
  | net => cases h

/-- Whoever has a number is at work, or another thread is. -/
theorem atWork_of_serves (h : Wakeful s) (hexcl : Exclusive code (holdsIn Pc.held) s) {fd : Nat} (hserves : Serves s fd) :
    AtWork s := by
  rcases hserves with ⟨t, pc, ht, hfd⟩ | hqueue
  · obtain ⟨st, hst, rfl⟩ := State.of_pcs_getElem? ht
    have hwork := working_of_numbers hfd
    cases st with
    | running pc => exact ⟨t, _, hst, hwork, rfl⟩
    | woken m k => exact ⟨t, _, hst, hwork, rfl⟩
    | waiting c m k =>
      have hmem := List.mem_of_getElem? hst
      obtain ⟨pc0, h0⟩ := hexcl.waits _ hmem
      rcases wait_kinds h0 with ⟨task, -, -, rfl⟩ | ⟨arg, rest, -, rfl, -⟩
      · cases hfd
      · -- `main` sleeps with the number
        rcases h.full _ hmem rfl with hfull | ⟨pc, hpc, hroomy⟩
        · have hslots := h.slots
          exact atWork_of_jobs h hexcl (by omega)
        · unfold Pc.roomy at hroomy
          split at hroomy
          · exact atWork_of_running hexcl hpc rfl (not_wait ⟨nofun, nofun⟩)
          · cases hroomy
  · refine atWork_of_jobs h hexcl (Int.not_le.mp fun hle => ?_)
    rw [ThreadPool.pending, Int.toNat_of_nonpos hle] at hqueue
    cases hqueue

end

end

end CSocket.EpollPool
