import CSocket.EpollPool.Tasks
/-!
# Order and ownership, and what breaks them

Careful runs keep every connection in order and every number with its connection.
The condition is exact: after a step that is not careful, a violation is a few
steps away (`careless`). A task that was started too often or too late finds its
number closed and closes it once more.
-/
namespace CSocket.EpollPool
open Pthread SimplePool

section
variable {s s' : ServerState} {t u : Nat} {task : PoolTask}

theorem step_task {pc : TaskPc} {f : Nat → Input → Shared PoolTask Net → Shared PoolTask Net × Pc}
    (ht : s.threads[t]? = some (.running (.task pc))) (hc : taskCode pc = .data f) (x : Input) :
    ∃ s', serverStep s (.run t x 0) = some s' ∧ s'.shared = (f t x s.shared).1 ∧
      s'.threads[t]? = some (.running (f t x s.shared).2) ∧ ∀ u ≠ t, s'.threads[u]? = s.threads[u]? :=
  exists_step_data ht hc x

/-! ## A number that is closed again -/

/-- A number was closed, and not given out again. -/
structure Late (d : Net) (fd i : Nat) : Prop where
  cur : d.cur fd = none
  latest : d.latest fd = some i
  closed : 1 ≤ (d.conns i).closes

variable {i : Nat}

theorem Late.close (h : Late s.shared.env task.fd i) (ht : s.threads[t]? = some (.running (.task (.close task)))) :
    ∃ s', Lts.Reach serverStep s s' ∧ ¬ PerConnection s' := by
  obtain ⟨s1, hs1, hd, -⟩ := step_task ht rfl .none
  refine ⟨s1, .head hs1 (.refl _), fun hp => ?_⟩
  have hcloses := hp.closes i
  have hlatest : (s.shared.env.access task).latest task.fd = some i := h.latest
  have hclosed := h.closed
  rw [hd] at hcloses
  dsimp only at hcloses
  rw [Net.close, hlatest] at hcloses
  simp only [Net.modify_conns, if_true, Net.access_conns] at hcloses
  omega

theorem Late.read (h : Late s.shared.env task.fd i) (ht : s.threads[t]? = some (.running (.task (.read task)))) :
    ∃ s', Lts.Reach serverStep s s' ∧ ¬ PerConnection s' := by
  have hres : (s.shared.env.access task).readResult task.fd .none = .error := by
    rw [Net.readResult, Net.access_cur, h.cur]
  obtain ⟨s1, hs1, hd, ht1, -⟩ := step_task ht rfl .none
  simp only [hres] at hd ht1
  have hlate : Late s1.shared.env task.fd i := by
    rw [hd]
    exact ⟨h.cur, h.latest, h.closed⟩
  obtain ⟨s2, hr, hn⟩ := hlate.close ht1
  exact ⟨s2, .head hs1 hr, hn⟩

theorem Late.write {bytes : List UInt8} (h : Late s.shared.env task.fd i)
    (ht : s.threads[t]? = some (.running (.task (.write task bytes)))) :
    ∃ s', Lts.Reach serverStep s s' ∧ ¬ PerConnection s' := by
  obtain ⟨s1, hs1, hd, ht1, -⟩ := step_task ht rfl .none
  have hlate : Late s1.shared.env task.fd i := by
    rw [hd]
    dsimp only
    rw [Net.send, Net.modifyFd, Net.access_cur, h.cur]
    exact ⟨h.cur, h.latest, h.closed⟩
  obtain ⟨s2, hr, hn⟩ := hlate.read ht1
  exact ⟨s2, .head hs1 hr, hn⟩

theorem Late.job {pc : TaskPc} {j : Job} (h : Late s.shared.env j.task.fd i) (hj : pc.job = some j)
    (ht : s.threads[t]? = some (.running (.task pc))) : ∃ s', Lts.Reach serverStep s s' ∧ ¬ PerConnection s' := by
  cases pc with
  | read task =>
    cases hj
    exact h.read ht
  | write task bytes =>
    cases hj
    exact h.write ht
  | close task =>
    cases hj
    exact h.close ht
  | ctl => cases hj

/-! ## Steps that are not careful -/

/-- Some bytes of a chunk are not written, and nobody holds them any more. -/
theorem careless_write {x : Input} {w : Nat} {bytes : List UInt8} (h : Owned (jobs s) s.shared.env)
    (ht : s.threads[t]? = some (.running (.task (.write task bytes)))) (hx : ¬ bytes.length ≤ x.size)
    (hs : serverStep s (.run t x w) = some s') : ¬ PerConnection s' := by
  obtain ⟨hfrom, -⟩ := perm_filterMap_set (State.pcs_getElem? ht) Pc.job
  have howned : Owned (⟨task, bytes⟩ :: (s.pcs.eraseIdx t).filterMap Pc.job) s.shared.env := h.perm hfrom
  have hlt : t < s.pcs.length := (List.getElem?_eq_some_iff.mp (State.pcs_getElem? ht)).1
  rw [serverStep, step_data ht rfl] at hs
  cases hs
  intro hp
  have hpcs : State.pcs (State.setThread { s with shared := { s.shared with
      env := (s.shared.env.access task).send task.fd (bytes.take x.size) } } t (.running (.task (.read task)))) =
      s.pcs.set t (.task (.read task)) := map_pc_set _ _ _
  have hwhole := hp.whole task.conn fun task' bytes' hmem => by
    rw [hpcs] at hmem
    rcases List.mem_cons.mp ((List.set_perm_cons_eraseIdx hlt _).mem_iff.mp hmem) with he | hmem
    · cases he
    · exact howned.other (List.mem_filterMap.mpr ⟨_, hmem, rfl⟩)
  have hbytes := howned.bytes _ List.mem_cons_self
  have hcur : (s.shared.env.access task).cur task.fd = some task.conn := howned.holds _ List.mem_cons_self
  simp only [State.setThread, Net.send, Net.modifyFd, hcur, Net.modify_conns, if_true, Net.access_conns] at hwhole
  rw [hbytes] at hwhole
  have hlen := congrArg List.length hwhole
  simp only [List.length_append, List.length_take] at hlen
  omega

/-- The task's number has gone to another connection. -/
theorem started_foreign {i : Nat} (ht : s.threads[t]? = some (.running (.task (.read task))))
    (hcur : s.shared.env.cur task.fd = some i) (hne : i ≠ task.conn) :
    ∃ s', Lts.Reach serverStep s s' ∧ ¬ PerConnection s' := by
  obtain ⟨s1, hs1, hd, -⟩ := step_task ht rfl .error
  refine ⟨s1, .head hs1 (.refl _), fun hp => ?_⟩
  have hres : (s.shared.env.access task).readResult task.fd .error = .error := by
    rw [Net.readResult, Net.access_cur, hcur]
    exact if_pos rfl
  simp only [hres] at hd
  have hown := hp.own ⟨task.conn, some i⟩ (by
    rw [hd]
    simp [hcur])
  rcases hown with h | h
  · cases h
  · exact hne (Option.some.inj h)

/-- Another task runs for the number: this one reads an error and closes first. -/
theorem started_twice {pc : TaskPc} {j : Job} (ht : s.threads[t]? = some (.running (.task (.read task))))
    (hu : s.threads[u]? = some (.running (.task pc))) (hne : u ≠ t) (hj : pc.job = some j)
    (hfd : j.task.fd = task.fd) (hcur : s.shared.env.cur task.fd = some i) :
    ∃ s', Lts.Reach serverStep s s' ∧ ¬ PerConnection s' := by
  have hres : (s.shared.env.access task).readResult task.fd .error = .error := by
    rw [Net.readResult, Net.access_cur, hcur]
    exact if_pos rfl
  obtain ⟨s1, hs1, hd1, ht1, hother1⟩ := step_task ht rfl .error
  simp only [hres] at hd1 ht1
  obtain ⟨s2, hs2, hd2, -, hother2⟩ := step_task ht1 rfl .none
  have hu2 : s2.threads[u]? = some (.running (.task pc)) := by
    rw [hother2 u hne, hother1 u hne, hu]
  have hlatest : s.shared.env.latest task.fd = some i := (Net.cur_eq.mp hcur).1
  have hlate : Late s2.shared.env j.task.fd i := by
    rw [hfd, hd2, hd1]
    dsimp only
    rw [Net.close, Net.access_latest, Net.access_latest, hlatest]
    refine ⟨?_, hlatest, ?_⟩
    · rw [Net.cur, Net.modify_latest, Net.access_latest, Net.access_latest, hlatest]
      simp [Option.filter]
    · simp
  obtain ⟨s3, hr, hn⟩ := hlate.job hj hu2
  exact ⟨s3, .head hs1 (.head hs2 hr), hn⟩

/-- Only a task that runs is at a position with a job: the others wait for the
queue. -/
theorem running_of_job {holds : Pc → Mutex → Bool} (h : Exclusive code holds s) {j : Job} (hj : j ∈ jobs s) :
    ∃ (u : Nat) (pc : TaskPc), s.threads[u]? = some (.running (.task pc)) ∧ pc.job = some j := by
  obtain ⟨pc, hpc, hjob⟩ := List.mem_filterMap.mp hj
  obtain ⟨u, hu⟩ := List.mem_iff_getElem?.mp hpc
  rcases h.running_or_waits hu with hu | ⟨pc0, c, m, hw⟩
  · cases pc with
    | task pc => exact ⟨u, pc, hu, hjob⟩
    | _ => cases hjob
  · -- nobody waits with a job
    have hgoes : (code pc0).Goes pc := by
      rw [hw]
      rfl
    obtain ⟨-, hk | ⟨task, rfl, -⟩⟩ := goes_job hgoes
    · rw [hk] at hjob
      cases hjob
    · cases hw

theorem careless {a : ServerAct}
    (ha : Pthread.Asserted code (holdsIn Pc.held) (fun _ => Queued) (fun _ pc d => pc.Asserted d) s)
    (h : Owned (jobs s) s.shared.env) (hrange : s.shared.pool.stored.length < 2 ^ 31)
    (hs : serverStep s a = some s') (hno : ¬ Careful s a) :
    ∃ s'', Lts.Reach serverStep s' s'' ∧ ¬ PerConnection s'' := by
  cases a with
  | run t x w =>
    cases ht : s.threads[t]? with
    | none => simp [Careful, ht] at hno
    | some st =>
      cases st with
      | running pc =>
        simp only [Careful, ht] at hno
        unfold Pc.Admits at hno
        split at hno
        case h_1 task =>
          have hheld : s.owner .poolLock = some t := (ha.exclusive.owner_running ht _).mpr rfl
          have hc : code (.worker (.unlock task)) = .unlock .poolLock (.task (.read task)) := rfl
          rw [serverStep, step_unlock ht hc hheld] at hs
          have ht' : s'.threads[t]? = some (.running (.task (.read task))) := by
            cases hs
            exact List.getElem?_set_self (List.getElem?_eq_some_iff.mp ht).1
          have hshared : s'.shared = s.shared := by
            cases hs
            rfl
          have hother {u : Nat} (hu : u ≠ t) : s'.threads[u]? = s.threads[u]? := by
            cases hs
            exact List.getElem?_set_ne (Ne.symm hu)
          cases hcur : s.shared.env.cur task.fd with
          | none =>
            -- the number is closed: its connection was closed once
            obtain ⟨x, hx, hcopy⟩ : ∃ x ∈ s.shared.pool.taken, task = id x.2 := ha.atPc t _ (State.pcs_getElem? ht)
            have hstored : task ∈ s.shared.pool.stored := hcopy ▸ (ha.global.fifo hrange).mem_stored hx
            obtain ⟨i, hi⟩ := Option.isSome_iff_exists.mp (ha.global.given task hstored)
            have hclosed : (s.shared.env.conns i).opened = false := by
              refine Bool.eq_false_iff.mpr fun hopen => ?_
              rw [Net.cur_eq.mpr ⟨hi, hopen⟩] at hcur
              cases hcur
            have hcloses := h.closes i (h.known hi).1
            rw [hclosed] at hcloses
            have hlate : Late s'.shared.env task.fd i := by
              rw [hshared]
              exact ⟨hcur, hi, Nat.le_of_eq hcloses.symm⟩
            exact hlate.read ht'
          | some i =>
            by_cases hi : i = task.conn
            · have htwice : ∃ j ∈ jobs s, j.task.fd = task.fd := by
                refine Classical.byContradiction fun hnone => hno ⟨fun j hj he => hnone ⟨j, hj, he⟩, ?_⟩
                rw [hcur, hi]
              obtain ⟨j, hj, hfd⟩ := htwice
              obtain ⟨u, pc, hu, hjob⟩ := running_of_job ha.exclusive hj
              have hne : u ≠ t := by
                rintro rfl
                rw [ht] at hu
                cases hu
              rw [← hother hne] at hu
              rw [← hshared] at hcur
              exact started_twice ht' hu hne hjob hfd hcur
            · rw [← hshared] at hcur
              exact started_foreign ht' hcur hi
        case h_2 task bytes => exact ⟨s', .refl _, careless_write h ht hno hs⟩
        case h_3 => exact absurd trivial hno
      | waiting => simp [Careful, ht] at hno
      | woken => simp [Careful, ht] at hno
  | spurious => exact absurd trivial hno
  | arrive => exact absurd trivial hno

end

/-! ## The result -/

section
variable {thrnum maxtasknum lfd : Nat} {raw copy : Nat → PoolTask} {s s' : ServerState}

theorem create_exclusive : Exclusive code (holdsIn Pc.held) (create thrnum maxtasknum lfd raw copy) := by
  have hstart {st : Status Mutex Cond Pc} (h : st ∈ (create thrnum maxtasknum lfd raw copy).threads) :
      ∃ pc, st = .running pc ∧ ∀ m, holdsIn Pc.held pc m = false := by
    rcases List.mem_append.mp h with h | h
    · obtain ⟨t, -, rfl⟩ := List.mem_map.mp h
      exact ⟨_, rfl, fun _ => rfl⟩
    · rcases List.mem_pair.mp h with rfl | rfl <;> exact ⟨_, rfl, fun _ => rfl⟩
  constructor
  · intro m t
    constructor
    · intro h
      cases h
    · rintro ⟨pc, hpc, hh⟩
      obtain ⟨pc', he, hno⟩ := hstart (List.mem_of_getElem? hpc)
      cases he
      rw [hno m] at hh
      cases hh
  · intro st hst
    obtain ⟨pc, rfl, -⟩ := hstart hst
    trivial

theorem create_asserted :
    Pthread.Asserted code (holdsIn Pc.held) (fun _ => Queued) (fun _ pc d => pc.Asserted d)
      (create thrnum maxtasknum lfd raw copy) where
  exclusive := create_exclusive
  global := by
    refine ⟨fun _ => ⟨?_, rfl, rfl, rfl, Int.le_refl _, ?_, rfl⟩, fun _ ht => absurd ht List.not_mem_nil⟩
    · simp [create]
    · exact Int.natCast_nonneg _
  atPc t pc ht := by
    have hpc := List.mem_of_getElem? ht
    simp only [State.pcs, create, List.map_append, List.map_map, List.mem_append, List.mem_map] at hpc
    rcases hpc with ⟨u, -, rfl⟩ | ⟨st, hst, rfl⟩
    · trivial
    · rcases List.mem_pair.mp hst with rfl | rfl
      · exact nextEvent_asserted fun _ he => absurd he List.not_mem_nil
      · trivial

theorem careful_owned (h : Lts.Reach carefulStep (create thrnum maxtasknum lfd raw copy) s) :
    Owned (jobs s) s.shared.env := by
  refine h.invariant (P := fun s => Owned (jobs s) s.shared.env) (fun s a s' hs hstep => ?_) (create_owned ..)
  obtain ⟨ha, hstep⟩ := Option.ite_none_right_eq_some.mp hstep
  exact step_owned hs ha hstep

/-- Every careful run keeps order and ownership. From any step that is not careful
a violation can follow. -/
theorem per_connection (h : Lts.Reach carefulStep (create thrnum maxtasknum lfd raw copy) s) :
    PerConnection s ∧
    (s.shared.pool.stored.length < 2 ^ 31 → ∀ a s', serverStep s a = some s' → ¬ Careful s a →
      ∃ s'', Lts.Reach serverStep s' s'' ∧ ¬ PerConnection s'') := by
  have howned := careful_owned h
  refine ⟨howned.perConnection, fun hrange a s' hs hno => ?_⟩
  exact careless (outline.reach create_asserted h.of_guarded) howned hrange hs hno

end

/-- Thread `t` takes `n` steps. -/
def steps (t n : Nat) : List ServerAct := List.replicate n (.run t .none 0)

/-- `main` accepts descriptor 5; 3 is the listening one. -/
def connects : List ServerAct :=
  [.run 3 (.events [⟨3, 1, 0⟩]) 0, .run 3 .none 0, .run 3 (.accept 5) 0, .run 3 .none 0]

/-- A byte arrives, is reported, and a task is queued for it. -/
def arrives (b : UInt8) : List ServerAct :=
  [.run 4 (.arrive 0 [b]) 0, .run 3 (.events [⟨5, 1, 0⟩]) 0] ++ steps 3 6

theorem per_connection_echo : ∃ s : ServerState,
    Lts.Reach carefulStep (create 3 20 3 (fun _ => {}) fun _ => {}) s ∧
    (s.shared.env.conns 0).written = [97] ∧ PerConnection s := by
  obtain ⟨s, hr, hs⟩ := Lts.Reach.of_run carefulStep (create 3 20 3 (fun _ => {}) fun _ => {})
    (fun s => (s.shared.env.conns 0).written = [97])
    (connects ++ arrives 97 ++ steps 0 8 ++ [.run 0 (.count 1) 0]) (by decide +kernel)
  exact ⟨s, hr, of_decide_eq_true hs, (per_connection hr).1⟩

/-- The second byte is written while the first worker still holds the first. -/
theorem second_byte_first : ∃ s : ServerState,
    Lts.Reach serverStep (create 3 20 3 (fun _ => {}) fun _ => {}) s ∧
    (s.shared.env.conns 0).read = [97, 98] ∧ (s.shared.env.conns 0).written = [98] ∧ ¬ PerConnection s := by
  obtain ⟨s, hr, hs⟩ := Lts.Reach.of_run serverStep (create 3 20 3 (fun _ => {}) fun _ => {})
    (fun s => (s.shared.env.conns 0).read = [97, 98] ∧ (s.shared.env.conns 0).written = [98])
    (connects ++ arrives 97 ++ steps 0 8 ++ arrives 98 ++ steps 1 8 ++ [.run 1 (.count 1) 0]) (by decide +kernel)
  obtain ⟨hread, hwritten⟩ := of_decide_eq_true hs
  refine ⟨s, hr, hread, hwritten, fun hp => ?_⟩
  have horder := hp.order 0
  rw [hread, hwritten] at horder
  revert horder
  decide

end CSocket.EpollPool
