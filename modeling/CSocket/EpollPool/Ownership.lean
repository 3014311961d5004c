import CSocket.EpollPool.Code
/-!
# Who owns a connection

`Owned`: the tasks that run have different numbers, each number belongs to the
connection that the task is for, and what was read from a connection is what was
written to it and what its task still holds. Every step keeps this if no task is
started for a number that another task runs for or that its connection has lost,
and if `Write` takes all it is given (`Careful`). The code sees to neither.
-/
namespace CSocket.EpollPool
open Pthread SimplePool

/-! ## Jobs -/

/-- A task that runs, and the bytes it has read and not written. -/
structure Job where
  task : PoolTask
  left : List UInt8

def TaskPc.job : TaskPc → Option Job
  | .read task | .close task => some ⟨task, []⟩
  | .write task bytes => some ⟨task, bytes⟩
  | .ctl _ => none

def Pc.job : Pc → Option Job
  | .task pc => pc.job
  | _ => none

def jobs (s : ServerState) : List Job := s.pcs.filterMap Pc.job

structure Owned (jobs : List Job) (d : Net) : Prop where
  known : ∀ {fd i}, d.latest fd = some i → i < d.accepted ∧ (d.conns i).fd = fd
  latest : ∀ i, (d.conns i).opened = true → d.latest (d.conns i).fd = some i
  fresh : ∀ i, d.accepted ≤ i → (d.conns i).toLedger = {}
  apart : (jobs.map fun j => j.task.fd).Nodup
  holds : ∀ j ∈ jobs, d.cur j.task.fd = some j.task.conn
  bytes : ∀ j ∈ jobs, (d.conns j.task.conn).read = (d.conns j.task.conn).written ++ j.left
  idle : ∀ i, (∀ j ∈ jobs, j.task.conn ≠ i) → (d.conns i).read = (d.conns i).written
  closes : ∀ i < d.accepted, (d.conns i).closes = if (d.conns i).opened then 0 else 1
  accesses : ∀ x ∈ d.accesses, x.target = none ∨ x.target = some x.conn

namespace Net

theorem cur_eq {d : Net} {fd i : Nat} : d.cur fd = some i ↔ d.latest fd = some i ∧ (d.conns i).opened = true := by
  simp [cur, Option.filter_eq_some_iff]

/-- Nothing that an account shows has changed. -/
structure Same (d d' : Net) : Prop where
  ledger : ∀ i, (d'.conns i).toLedger = (d.conns i).toLedger
  latest : d'.latest = d.latest
  accepted : d'.accepted = d.accepted
  accesses : d'.accesses = d.accesses

theorem Same.refl (d : Net) : Same d d := ⟨fun _ => rfl, rfl, rfl, rfl⟩

theorem modify_same {d : Net} {i : Nat} {f : Conn → Conn} (h : ∀ c, (f c).toLedger = c.toLedger) :
    d.Same (d.modify i f) := by
  refine ⟨fun j => ?_, rfl, rfl, rfl⟩
  rw [modify_conns]
  split
  · exact h _
  · rfl

theorem modifyFd_same {d : Net} {fd : Nat} {f : Conn → Conn} (h : ∀ c, (f c).toLedger = c.toLedger) :
    d.Same (d.modifyFd fd f) := by
  unfold modifyFd
  split
  · exact modify_same h
  · exact .refl d

theorem arrive_same (d : Net) (i : Nat) (bytes : List UInt8) : d.Same (d.arrive i bytes) := by
  apply modify_same
  intro c
  split <;> rfl

theorem hangup_same (d : Net) (i : Nat) : d.Same (d.hangup i) := by
  apply modify_same
  intro c
  split <;> rfl

theorem report_same (d : Net) (b : List Event) : d.Same (d.report b) := by
  refine ⟨fun i => ?_, rfl, rfl, rfl⟩
  unfold report
  dsimp only
  split <;> rfl

theorem Same.cur {d d' : Net} (h : d.Same d') (fd : Nat) : d'.cur fd = d.cur fd := by
  unfold Net.cur
  rw [h.latest]
  congr 1
  funext i
  rw [h.ledger i]

end Net

namespace Owned
variable {js js' rest : List Job} {d d' : Net} {task : PoolTask} {left : List UInt8}

theorem same (h : Owned js d) (hs : d.Same d') : Owned js d' where
  known {fd i} hi := by
    rw [hs.latest] at hi
    rw [hs.accepted, hs.ledger]
    exact h.known hi
  latest i hi := by
    rw [hs.ledger] at hi ⊢
    rw [hs.latest]
    exact h.latest i hi
  fresh i hi := by
    rw [hs.accepted] at hi
    rw [hs.ledger]
    exact h.fresh i hi
  apart := h.apart
  holds j hj := by
    rw [hs.cur]
    exact h.holds j hj
  bytes j hj := by
    rw [hs.ledger]
    exact h.bytes j hj
  idle i hi := by
    rw [hs.ledger]
    exact h.idle i hi
  closes i hi := by
    rw [hs.accepted] at hi
    rw [hs.ledger]
    exact h.closes i hi
  accesses x hx := by
    rw [hs.accesses] at hx
    exact h.accesses x hx

theorem perm (h : Owned js d) (hp : js.Perm js') : Owned js' d where
  known := h.known
  latest := h.latest
  fresh := h.fresh
  apart := (hp.map _).nodup_iff.mp h.apart
  holds j hj := h.holds j (hp.mem_iff.mpr hj)
  bytes j hj := h.bytes j (hp.mem_iff.mpr hj)
  idle i hi := h.idle i fun j hj => hi j (hp.mem_iff.mp hj)
  closes := h.closes
  accesses := h.accesses

/-- Another task is for another connection. -/
theorem other (h : Owned (⟨task, left⟩ :: rest) d) {j : Job} (hj : j ∈ rest) : j.task.conn ≠ task.conn := by
  intro he
  have h1 := (Net.cur_eq.mp (h.holds j (List.mem_cons_of_mem _ hj))).1
  have h2 := (Net.cur_eq.mp (h.holds _ List.mem_cons_self)).1
  have hfd : j.task.fd = task.fd := by rw [← (h.known h1).2, he, (h.known h2).2]
  exact (List.nodup_cons.mp h.apart).1 (List.mem_map.mpr ⟨j, hj, hfd⟩)

theorem start (h : Owned rest d) (hfd : ∀ j ∈ rest, j.task.fd ≠ task.fd) (hcur : d.cur task.fd = some task.conn) :
    Owned (⟨task, []⟩ :: rest) d where
  known := h.known
  latest := h.latest
  fresh := h.fresh
  apart := by
    refine List.nodup_cons.mpr ⟨fun hmem => ?_, h.apart⟩
    obtain ⟨j, hj, he⟩ := List.mem_map.mp hmem
    exact hfd j hj he
  holds := List.forall_mem_cons.mpr ⟨hcur, h.holds⟩
  bytes := by
    refine List.forall_mem_cons.mpr ⟨?_, h.bytes⟩
    have hidle : ∀ j ∈ rest, j.task.conn ≠ task.conn := by
      intro j hj he
      have h1 := (Net.cur_eq.mp (h.holds j hj)).1
      have h2 := (Net.cur_eq.mp hcur).1
      apply hfd j hj
      rw [← (h.known h1).2, he, (h.known h2).2]
    rw [List.append_nil]
    exact h.idle _ hidle
  idle i hi := h.idle i fun j hj => hi j (List.mem_cons_of_mem _ hj)
  closes := h.closes
  accesses := h.accesses

theorem finish (h : Owned (⟨task, []⟩ :: rest) d) : Owned rest d where
  known := h.known
  latest := h.latest
  fresh := h.fresh
  apart := (List.nodup_cons.mp h.apart).2
  holds j hj := h.holds j (List.mem_cons_of_mem _ hj)
  bytes j hj := h.bytes j (List.mem_cons_of_mem _ hj)
  idle i hi := by
    by_cases he : task.conn = i
    · subst he
      have := h.bytes _ List.mem_cons_self
      rwa [List.append_nil] at this
    · exact h.idle i (List.forall_mem_cons.mpr ⟨he, hi⟩)
  closes := h.closes
  accesses := h.accesses

theorem access (h : Owned (⟨task, left⟩ :: rest) d) : Owned (⟨task, left⟩ :: rest) (d.access task) where
  known := h.known
  latest := h.latest
  fresh := h.fresh
  apart := h.apart
  holds := h.holds
  bytes := h.bytes
  idle := h.idle
  closes := h.closes
  accesses := List.forall_mem_cons.mpr ⟨.inr (h.holds _ List.mem_cons_self), h.accesses⟩

/-- The job goes on with the bytes `keep`, or it ends and its connection with it. -/
theorem modify (h : Owned (⟨task, left⟩ :: rest) d) (keep : Option (List UInt8)) {f : Conn → Conn}
    (hfd : ∀ c, (f c).fd = c.fd) (hopened : ∀ c, c.opened = true → (f c).opened = keep.isSome)
    (hcloses : ∀ c, (f c).closes = c.closes + if keep.isSome then 0 else 1)
    (hbytes : ∀ c, c.read = c.written ++ left → (f c).read = (f c).written ++ keep.getD []) :
    Owned ((keep.map fun left' => ⟨task, left'⟩).toList ++ rest) (d.modify task.conn f) := by
  have hcur := h.holds _ List.mem_cons_self
  obtain ⟨hlatest, hopen⟩ := Net.cur_eq.mp hcur
  have hlt : task.conn < d.accepted := (h.known hlatest).1
  have hbal := hbytes _ (h.bytes _ List.mem_cons_self)
  have hopen' := hopened _ hopen
  have hne {i : Nat} (hi : i ≠ task.conn) : (d.modify task.conn f).conns i = d.conns i := if_neg hi
  have heq : (d.modify task.conn f).conns task.conn = f (d.conns task.conn) := if_pos rfl
  have hfd' (i : Nat) : ((d.modify task.conn f).conns i).fd = (d.conns i).fd := by
    rw [Net.modify_conns]
    split
    · exact hfd _
    · rfl
  -- what holds of the head, where it goes on, and of the rest holds of every job
  have hjob {P : Job → Prop} (hhead : ∀ left' ∈ keep, P ⟨task, left'⟩) (hrest : ∀ j ∈ rest, P j) :
      ∀ j ∈ (keep.map fun left' => ⟨task, left'⟩).toList ++ rest, P j := by
    cases keep with
    | none => exact hrest
    | some left' => exact List.forall_mem_cons.mpr ⟨hhead left' rfl, hrest⟩
  constructor
  · intro fd i hi
    rw [hfd']
    exact h.known hi
  · intro i hi
    rw [hfd']
    apply h.latest i
    by_cases he : i = task.conn
    · rw [he]
      exact hopen
    · rwa [hne he] at hi
  · intro i hi
    have hi : d.accepted ≤ i := hi
    rw [hne (by omega)]
    exact h.fresh i hi
  · cases keep with
    | none => exact (List.nodup_cons.mp h.apart).2
    | some left' => exact h.apart
  · apply hjob
    · intro left' hl
      refine Net.cur_eq.mpr ⟨hlatest, ?_⟩
      rw [heq, hopen', hl]
      rfl
    · intro j hj
      have hj' := h.holds j (List.mem_cons_of_mem _ hj)
      rw [Net.cur_eq] at hj' ⊢
      rw [hne (h.other hj)]
      exact hj'
  · apply hjob
    · intro left' hl
      rw [heq, hbal, hl]
      rfl
    · intro j hj
      rw [hne (h.other hj)]
      exact h.bytes j (List.mem_cons_of_mem _ hj)
  · intro i hi
    by_cases he : i = task.conn
    · cases keep with
      -- the job has ended with nothing left to write
      | none => rwa [he, heq, ← List.append_nil (f _).written]
      | some left' => exact absurd he.symm (hi _ List.mem_cons_self)
    · rw [hne he]
      exact h.idle i (List.forall_mem_cons.mpr ⟨Ne.symm he, fun j hj => hi j (List.mem_append_right _ hj)⟩)
  · intro i hi
    by_cases he : i = task.conn
    · -- open until now: not closed yet, and now once if the job ends
      have hc := h.closes _ hlt
      rw [hopen, if_pos rfl] at hc
      rw [he, heq, hopen', hcloses, hc]
      cases keep <;> rfl
    · rw [hne he]
      exact h.closes i hi
  · exact h.accesses

/-- `Read` and `Write`: the connection stays open, and its account balances. -/
theorem transfer (h : Owned (⟨task, left⟩ :: rest) d) {left' : List UInt8} {f : Conn → Conn}
    (hfd : ∀ c, (f c).fd = c.fd) (hopened : ∀ c, (f c).opened = c.opened) (hcloses : ∀ c, (f c).closes = c.closes)
    (hbytes : ∀ c, c.read = c.written ++ left → (f c).read = (f c).written ++ left') :
    Owned (⟨task, left'⟩ :: rest) (d.modifyFd task.fd f) := by
  rw [Net.modifyFd, h.holds _ List.mem_cons_self]
  exact h.modify (some left') hfd (fun c hc => (hopened c).trans hc) hcloses hbytes

/-- The number of the connection goes back to the kernel. -/
theorem close (h : Owned (⟨task, []⟩ :: rest) d) : Owned rest (d.close task.fd) := by
  rw [Net.close, (Net.cur_eq.mp (h.holds _ List.mem_cons_self)).1]
  exact h.modify none (fun _ => rfl) (fun _ _ => rfl) (fun _ => rfl) (fun _ hc => hc)

theorem accept (h : Owned js d) {fd : Nat} (hfd : d.cur fd = none) : Owned js (d.accept fd) := by
  have hne {i : Nat} (hi : i ≠ d.accepted) : (d.accept fd).conns i = d.conns i := if_neg hi
  have heq : (d.accept fd).conns d.accepted = { fd, opened := true } := if_pos rfl
  -- a connection that is current is another one, under another number
  have hold {fd' i : Nat} (hi : d.cur fd' = some i) : fd' ≠ fd ∧ i ≠ d.accepted := by
    refine ⟨?_, ?_⟩
    · rintro rfl
      rw [hfd] at hi
      cases hi
    · have := (h.known (Net.cur_eq.mp hi).1).1
      omega
  have hlatest {fd' : Nat} (hne' : fd' ≠ fd) : (d.accept fd).latest fd' = d.latest fd' := if_neg hne'
  constructor
  · intro fd' i hi
    by_cases he : fd' = fd
    · subst he
      have hi : some d.accepted = some i := (if_pos rfl).symm.trans hi
      cases hi
      rw [heq]
      exact ⟨Nat.lt_succ_self _, rfl⟩
    · rw [hlatest he] at hi
      have := (h.known hi).1
      rw [hne (by omega)]
      exact ⟨Nat.lt_succ_of_lt this, (h.known hi).2⟩
  · intro i hi
    by_cases he : i = d.accepted
    · subst he
      rw [heq]
      exact if_pos rfl
    · rw [hne he] at hi ⊢
      have hcur := h.latest i hi
      rw [hlatest (hold (Net.cur_eq.mpr ⟨hcur, hi⟩)).1]
      exact hcur
  · intro i hi
    have hi : d.accepted + 1 ≤ i := hi
    rw [hne (by omega)]
    exact h.fresh i (by omega)
  · exact h.apart
  · intro j hj
    have hj' := h.holds j hj
    obtain ⟨h1, h2⟩ := hold hj'
    rw [Net.cur_eq] at hj' ⊢
    rw [hlatest h1, hne h2]
    exact hj'
  · intro j hj
    rw [hne (hold (h.holds j hj)).2]
    exact h.bytes j hj
  · intro i hi
    by_cases he : i = d.accepted
    · rw [he, heq]
    · rw [hne he]
      exact h.idle i hi
  · intro i hi
    by_cases he : i = d.accepted
    · rw [he, heq]
      rfl
    · have hi : i < d.accepted + 1 := hi
      rw [hne he]
      exact h.closes i (by omega)
  · exact h.accesses

end Owned

/-! ## What the code does to jobs -/

theorem nextEvent_job (rest : List Event) : (nextEvent rest).job = none := by
  cases rest <;> rfl

/-- A job begins where `thrRun` calls the task's function. -/
theorem goes_job {pc k : Pc} (h : (code pc).Goes k) :
    pc.job = none ∧ (k.job = none ∨ ∃ task, pc = .worker (.unlock task) ∧ k = .task (.read task)) := by
  cases moves h with
  | unlock task => exact ⟨rfl, .inr ⟨task, rfl, rfl⟩⟩
  | addSignal rest => exact ⟨rfl, .inl (nextEvent_job rest)⟩
  | _ => exact ⟨rfl, .inl rfl⟩

section
variable {f : Nat → Input → Shared PoolTask Net → Shared PoolTask Net × Pc} {d : Shared PoolTask Net}
  {rest : List Job}

theorem task_owned {pc : TaskPc} (hc : taskCode pc = .data f) (h : Owned (pc.job.toList ++ rest) d.env) (t : Nat)
    {x : Input} (hx : ∀ task bytes, pc = .write task bytes → bytes.length ≤ x.size) :
    Owned ((f t x d).2.job.toList ++ rest) (f t x d).1.env := by
  cases pc with
  | read task =>
    cases hc
    dsimp only
    split
    · refine h.access.transfer (fun _ => rfl) (fun _ => rfl) (fun _ => rfl) fun c hbytes => ?_
      rw [List.append_nil] at hbytes
      exact congrArg (· ++ _) hbytes
    · exact h.access.finish
    · exact h.access
    · exact h.access
  | write task bytes =>
    cases hc
    have hall : bytes.take x.size = bytes := List.take_of_length_le (hx task bytes rfl)
    dsimp only
    rw [hall]
    refine h.access.transfer (fun _ => rfl) (fun _ => rfl) (fun _ => rfl) fun c hbytes => ?_
    rw [List.append_nil]
    exact hbytes
  | close task =>
    cases hc
    exact h.access.close
  | ctl task =>
    cases hc
    dsimp only
    split
    · exact h.same (Net.modifyFd_same fun _ => rfl)
    · exact h

theorem main_owned {pc : MainPc} (hc : mainCode pc = .data f) (h : Owned rest d.env) (t : Nat) (x : Input) :
    (f t x d).2.job = none ∧ Owned rest (f t x d).1.env := by
  cases pc with
  | wait =>
    cases hc
    dsimp only
    split
    · split
      · exact ⟨nextEvent_job _, h.same (Net.report_same _ _)⟩
      · exact ⟨rfl, h⟩
    · exact ⟨rfl, h⟩
  | event e es =>
    cases hc
    dsimp only
    split
    · exact ⟨rfl, h⟩
    · split
      · exact ⟨rfl, h⟩
      · exact ⟨nextEvent_job es, h⟩
  | accept es =>
    cases hc
    dsimp only
    split
    · split
      case isTrue hfd => exact ⟨rfl, h.accept hfd.2⟩
      case isFalse => exact ⟨rfl, h⟩
    · exact ⟨rfl, h⟩
  | ctl fd es =>
    cases hc
    exact ⟨nextEvent_job es, h.same (Net.modifyFd_same fun _ => rfl)⟩
  | addtask pc =>
    have hc : addtask pc = .data f := hc
    obtain ⟨pc', hpc, hstep⟩ := addtask_data hc t x d
    rw [hpc]
    refine ⟨rfl, ?_⟩
    generalize (f t x d).1 = d' at hstep
    cases hstep <;> exact h

theorem data_owned {pc : Pc} (hc : code pc = .data f) (h : Owned (pc.job.toList ++ rest) d.env) (t : Nat) {x : Input}
    (hx : ∀ task bytes, pc = .task (.write task bytes) → bytes.length ≤ x.size) :
    Owned ((f t x d).2.job.toList ++ rest) (f t x d).1.env := by
  cases pc with
  | worker pc =>
    obtain ⟨pc', hpc, -, henv⟩ := thrRun_data hc t x d
    rw [hpc, henv]
    exact h
  | task pc => exact task_owned hc h t fun task bytes hpc => hx task bytes (congrArg Pc.task hpc)
  | main pc =>
    obtain ⟨hjob, howned⟩ := main_owned hc h t x
    rw [hjob]
    exact howned
  | net =>
    cases hc
    dsimp only
    split
    · exact h.same (Net.arrive_same _ _ _)
    · exact h.same (Net.hangup_same _ _)
    · exact h

end

/-! ## Careful runs -/

/-- What the code would have to see to before it goes on from `pc`. -/
def Pc.Admits (s : ServerState) (x : Input) : Pc → Prop
  | .worker (.unlock job) => (∀ j ∈ jobs s, j.task.fd ≠ job.fd) ∧ s.shared.env.cur job.fd = some job.conn
  | .task (.write _ bytes) => bytes.length ≤ x.size
  | _ => True

instance (s : ServerState) (x : Input) (pc : Pc) : Decidable (pc.Admits s x) := by
  unfold Pc.Admits
  split <;> infer_instance

/-- No task is started for a number that another task runs for or that is not its
connection's any more, and `Write` takes all it is given. -/
def Careful (s : ServerState) : ServerAct → Prop
  | .run t x _ => match s.threads[t]? with
    | some (.running pc) => pc.Admits s x
    | _ => True
  | _ => True

instance (s : ServerState) (a : ServerAct) : Decidable (Careful s a) := by
  unfold Careful
  split
  · split <;> infer_instance
  · infer_instance

abbrev carefulStep : ServerState → ServerAct → Option ServerState := Lts.guarded serverStep Careful

theorem not_create {pc : Pc} {f : Nat → Shared PoolTask Net → Shared PoolTask Net} {child k : Pc} :
    code pc ≠ .create f child k := by
  intro hc
  cases pc with
  | worker pc => cases pc <;> cases hc
  | task pc => cases pc <;> cases hc
  | main pc =>
    cases pc with
    | addtask pc => cases pc <;> cases hc
    | _ => cases hc
  | net => cases hc

theorem step_owned {s s' : ServerState} {a : ServerAct} (h : Owned (jobs s) s.shared.env) (ha : Careful s a)
    (hs : serverStep s a = some s') : Owned (jobs s') s'.shared.env := by
  have hadmits {t w : Nat} {x : Input} {pc : Pc} (he : a = .run t x w) (ht : s.threads[t]? = some (.running pc)) :
      pc.Admits s x := by
    subst he
    simpa only [Careful, ht] using ha
  cases (step_cases hs).effect with
  | quiet hpcs hd =>
    rw [jobs, hpcs, hd]
    exact h
  | @move t x w pc k he ht hg hpcs hd =>
    obtain ⟨hfrom, hto⟩ := perm_filterMap_set (State.pcs_getElem? ht) Pc.job
    rw [jobs, hpcs, hd]
    refine Owned.perm ?_ (hto k).symm
    -- only a worker that leaves `signal` takes up a job
    obtain ⟨hpc, hk | ⟨task, rfl, rfl⟩⟩ := goes_job hg
    · rw [Status.pc_running, hpc] at hfrom
      rw [hk]
      exact h.perm hfrom
    · obtain ⟨hfd, hcur⟩ := hadmits he ht
      exact (h.perm hfrom).start (fun j hj => hfd j (hfrom.mem_iff.mpr hj)) hcur
  | @data t x w pc f he ht hc hpcs hd =>
    obtain ⟨hfrom, hto⟩ := perm_filterMap_set (State.pcs_getElem? ht) Pc.job
    rw [jobs, hpcs, hd]
    refine Owned.perm ?_ (hto _).symm
    apply data_owned hc (h.perm hfrom) t
    rintro task bytes rfl
    exact hadmits he ht
  | create he ht hc => exact absurd hc not_create
  | arrive hstart => cases hstart

theorem create_owned (thrnum maxtasknum lfd : Nat) (raw copy : Nat → PoolTask) :
    Owned (jobs (create thrnum maxtasknum lfd raw copy)) (create thrnum maxtasknum lfd raw copy).shared.env := by
  have hjobs : jobs (create thrnum maxtasknum lfd raw copy) = [] := by
    refine List.filterMap_eq_nil_iff.mpr fun pc hpc => ?_
    simp only [State.pcs, create, List.map_append, List.map_map, List.mem_append, List.mem_map] at hpc
    rcases hpc with ⟨t, -, rfl⟩ | ⟨st, hst, rfl⟩
    · rfl
    · rcases List.mem_pair.mp hst with rfl | rfl <;> rfl
  rw [hjobs]
  constructor
  · rintro fd i hi
    cases hi
  · rintro i hi
    cases hi
  · exact fun _ _ => rfl
  · exact List.nodup_nil
  · exact fun _ hj => absurd hj List.not_mem_nil
  · exact fun _ hj => absurd hj List.not_mem_nil
  · exact fun _ _ => rfl
  · exact fun i hi => absurd hi (Nat.not_lt_zero i)
  · exact fun _ hx => absurd hx List.not_mem_nil

/-! ## Order and ownership -/

/-- A connection's bytes are written back in order, and all of them unless a
worker still has some to write; its number is closed at most once while it is
this connection's; and no task touches a number that has gone to another. -/
structure PerConnection (s : ServerState) : Prop where
  order : ∀ i, (s.shared.env.conns i).written <+: (s.shared.env.conns i).read
  whole : ∀ i, (∀ task bytes, .task (.write task bytes) ∈ s.pcs → task.conn ≠ i) →
    (s.shared.env.conns i).read = (s.shared.env.conns i).written
  closes : ∀ i, (s.shared.env.conns i).closes ≤ 1
  own : ∀ x ∈ s.shared.env.accesses, x.target = none ∨ x.target = some x.conn

theorem Owned.perConnection {s : ServerState} (h : Owned (jobs s) s.shared.env) : PerConnection s := by
  -- a job with bytes left is at its `Write`
  have hjob {j : Job} (hj : j ∈ jobs s) : j.left = [] ∨ .task (.write j.task j.left) ∈ s.pcs := by
    obtain ⟨pc, hpc, he⟩ := List.mem_filterMap.mp hj
    cases pc with
    | task pc =>
      cases pc with
      | write task bytes =>
        cases he
        exact .inr hpc
      | read | close =>
        cases he
        exact .inl rfl
      | ctl => cases he
    | _ => cases he
  constructor
  · intro i
    by_cases hi : ∃ j ∈ jobs s, j.task.conn = i
    · obtain ⟨j, hj, rfl⟩ := hi
      rw [h.bytes j hj]
      exact List.prefix_append _ _
    · refine ⟨[], ?_⟩
      rw [List.append_nil]
      exact (h.idle i fun j hj he => hi ⟨j, hj, he⟩).symm
  · intro i hi
    by_cases hi' : ∃ j ∈ jobs s, j.task.conn = i
    · obtain ⟨j, hj, rfl⟩ := hi'
      rcases hjob hj with hleft | hpc
      · rw [h.bytes j hj, hleft, List.append_nil]
      · exact absurd rfl (hi _ _ hpc)
    · exact h.idle i fun j hj he => hi' ⟨j, hj, he⟩
  · intro i
    by_cases hi : i < s.shared.env.accepted
    · rw [h.closes i hi]
      split <;> omega
    · rw [h.fresh i (by omega)]
      exact Nat.zero_le 1
  · exact h.accesses

end CSocket.EpollPool
