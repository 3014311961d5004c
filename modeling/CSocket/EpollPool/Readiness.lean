import CSocket.EpollPool.Races
/-!
# Nothing is forgotten

With `EPOLLET` the kernel reports an arrival once. In every run, careful or not, a
connection with something to read either has a report to come, or somebody has its number
and has not read it to the end: the batch, `main`'s call of `addtask`, the queue or a
worker (`nothing_forgotten`). A task that reads until `EAGAIN` lets go of the number with
nothing left, whichever connection has it by then.
-/
namespace CSocket.EpollPool
open Pthread SimplePool Epoll

/-! ## Who has a number -/

/-- There is data, or the peer has hung up. -/
def Net.Unread (d : Net) (i : Nat) : Prop :=
  (d.conns i).opened = true ∧ ((d.conns i).input ≠ [] ∨ (d.conns i).eof = true)

instance (d : Net) (i : Nat) : Decidable (d.Unread i) := instDecidableAnd

/-- The numbers that the thread will read to the end, close or pass on. -/
def Pc.numbers : Pc → List Nat
  | .worker (.signal job) | .worker (.shutdown job) | .worker (.unlock job) => [job.fd]
  | .task (.read job) | .task (.write job _) | .task (.close job) => [job.fd]
  | .main pc => (pc.events.filter fun e => e.events &&& EPOLLIN ≠ 0).map Event.fd ++ pc.arg.toList.map PoolTask.fd
  | _ => []

def Serves (s : ServerState) (fd : Nat) : Prop :=
  (∃ (t : Nat) (pc : Pc), s.pcs[t]? = some pc ∧ fd ∈ pc.numbers) ∨ fd ∈ s.shared.pool.pending.map PoolTask.fd

/-- What is reported while there is something to read has `EPOLLIN`. -/
def Honest (s : ServerState) : ServerAct → Prop
  | .run _ (.events b) _ => ∀ e ∈ b, e.fd ≠ s.shared.env.lfd → s.shared.env.Unread e.conn → e.events &&& EPOLLIN ≠ 0
  | _ => True

instance (s : ServerState) (a : ServerAct) : Decidable (Honest s a) := by
  unfold Honest
  split <;> infer_instance

abbrev honestStep : ServerState → ServerAct → Option ServerState := Lts.guarded serverStep Honest

/-! ## The connections -/

namespace Net

/-- A number belongs to the connection that it was last given to. -/
structure Numbered (d : Net) : Prop where
  latest : ∀ i, (d.conns i).opened = true → d.latest (d.conns i).fd = some i
  fd : ∀ {fd i}, d.latest fd = some i → (d.conns i).fd = fd ∧ i < d.accepted
  other : ∀ i, (d.conns i).opened = true → (d.conns i).fd ≠ d.lfd

/-- A connection that is left with something to read, and served by whoever has its number. -/
def Watched (d : Net) (serves : Nat → Prop) : Prop :=
  ∀ i, d.Unread i → (d.conns i).edge = true ∨ serves (d.conns i).fd

/-- No connection is opened or closed, and none has less of a report to come. -/
structure Calm (d d' : Net) : Prop where
  fd : ∀ i, (d'.conns i).fd = (d.conns i).fd
  opened : ∀ i, (d'.conns i).opened = (d.conns i).opened
  latest : d'.latest = d.latest
  accepted : d'.accepted = d.accepted
  lfd : d'.lfd = d.lfd
  unread : ∀ i, d'.Unread i → (d'.conns i).edge = true ∨ d.Unread i ∧ (d'.conns i).edge = (d.conns i).edge

section
variable {d d' : Net} {serves serves' : Nat → Prop}

theorem Calm.refl (d : Net) : d.Calm d := ⟨fun _ => rfl, fun _ => rfl, rfl, rfl, rfl, fun _ h => .inr ⟨h, rfl⟩⟩

theorem Calm.trans {d1 : Net} (h : d.Calm d1) (h' : d1.Calm d') : d.Calm d' where
  fd i := (h'.fd i).trans (h.fd i)
  opened i := (h'.opened i).trans (h.opened i)
  latest := h'.latest.trans h.latest
  accepted := h'.accepted.trans h.accepted
  lfd := h'.lfd.trans h.lfd
  unread i hi := by
    rcases h'.unread i hi with hedge | ⟨hi1, hedge⟩
    · exact .inl hedge
    · rw [hedge]
      exact h.unread i hi1

theorem access_calm (task : PoolTask) : d.Calm (d.access task) :=
  ⟨fun _ => rfl, fun _ => rfl, rfl, rfl, rfl, fun _ h => .inr ⟨h, rfl⟩⟩

theorem Calm.modify {i : Nat} {f : Conn → Conn} (hfd : ∀ c, (f c).fd = c.fd) (hopen : ∀ c, (f c).opened = c.opened)
    (hunread : ∀ c, (f c).input ≠ [] ∨ (f c).eof = true →
      (f c).edge = true ∨ (c.input ≠ [] ∨ c.eof = true) ∧ (f c).edge = c.edge) : d.Calm (d.modify i f) := by
  refine ⟨fun j => ?_, fun j => ?_, rfl, rfl, rfl, fun j hj => ?_⟩
  · rw [modify_conns]
    split
    · exact hfd _
    · rfl
  · rw [modify_conns]
    split
    · exact hopen _
    · rfl
  · unfold Unread at hj ⊢
    rw [modify_conns] at hj ⊢
    split at hj
    case isTrue he =>
      rw [if_pos he]
      exact (hunread _ hj.2).imp_right fun h => ⟨⟨hopen _ ▸ hj.1, h.1⟩, h.2⟩
    case isFalse he =>
      rw [if_neg he]
      exact .inr ⟨hj, rfl⟩

theorem Calm.modifyFd {fd : Nat} {f : Conn → Conn} (hfd : ∀ c, (f c).fd = c.fd) (hopen : ∀ c, (f c).opened = c.opened)
    (hunread : ∀ c, (f c).input ≠ [] ∨ (f c).eof = true →
      (f c).edge = true ∨ (c.input ≠ [] ∨ c.eof = true) ∧ (f c).edge = c.edge) : d.Calm (d.modifyFd fd f) := by
  unfold Net.modifyFd
  split
  · exact .modify hfd hopen hunread
  · exact .refl d

/-- What the outside does to an open connection leaves a report to come. -/
theorem Calm.outside {i : Nat} {f : Conn → Conn} (hfd : ∀ c, (f c).fd = c.fd) (hopen : ∀ c, (f c).opened = c.opened)
    (hedge : ∀ c, (f c).edge = true) : d.Calm (d.modify i fun c => if c.opened then f c else c) := by
  refine .modify (fun c => ?_) (fun c => ?_) fun c h => ?_
  · split
    · exact hfd c
    · rfl
  · split
    · exact hopen c
    · rfl
  · split at h
    case isTrue ho => exact .inl (by rw [if_pos ho]; exact hedge c)
    case isFalse ho => exact .inr ⟨h, by rw [if_neg ho]⟩

theorem arrive_calm (i : Nat) (bytes : List UInt8) : d.Calm (d.arrive i bytes) :=
  .outside (fun _ => rfl) (fun _ => rfl) fun _ => rfl

theorem hangup_calm (i : Nat) : d.Calm (d.hangup i) := .outside (fun _ => rfl) (fun _ => rfl) fun _ => rfl

theorem consume_calm (fd : Nat) (bytes : List UInt8) : d.Calm (d.consume fd bytes) := by
  refine .modifyFd (fun _ => rfl) (fun _ => rfl) fun c h => .inr ⟨h.imp_left fun hne he => ?_, rfl⟩
  exact hne (by rw [he, List.drop_nil])

theorem Numbered.calm (h : d.Numbered) (hc : d.Calm d') : d'.Numbered where
  latest i hi := by
    rw [hc.latest, hc.fd]
    exact h.latest i (hc.opened i ▸ hi)
  fd {fd i} hi := by
    rw [hc.fd, hc.accepted]
    exact h.fd (hc.latest ▸ hi)
  other i hi := by
    rw [hc.fd, hc.lfd]
    exact h.other i (hc.opened i ▸ hi)

/-- Who lets go of a number has left nothing. -/
theorem Watched.calm (h : d.Watched serves) (hc : d.Calm d')
    (hs : ∀ i, d.Unread i → serves (d.conns i).fd → serves' (d.conns i).fd) : d'.Watched serves' := by
  intro i hi
  rcases hc.unread i hi with hedge | ⟨hold, hedge⟩
  · exact .inl hedge
  · rw [hedge, hc.fd]
    exact (h i hold).imp_right (hs i hold)

/-! ## Steps that are not calm -/

theorem Numbered.cur_unique (h : d.Numbered) {i : Nat} (hi : (d.conns i).opened = true) : d.cur (d.conns i).fd = some i :=
  cur_eq.mpr ⟨h.latest i hi, hi⟩

theorem Numbered.report (h : d.Numbered) (b : List Event) : (d.report b).Numbered := by
  have hsame := report_same d b
  have hfd (i : Nat) : ((d.report b).conns i).fd = (d.conns i).fd := congrArg Ledger.fd (hsame.ledger i)
  have hopen (i : Nat) : ((d.report b).conns i).opened = (d.conns i).opened := congrArg Ledger.opened (hsame.ledger i)
  refine ⟨fun i hi => ?_, fun {fd i} hi => ?_, fun i hi => ?_⟩
  · rw [hfd]
    exact h.latest i (hopen i ▸ hi)
  · rw [hfd]
    exact h.fd hi
  · rw [hfd]
    exact h.other i (hopen i ▸ hi)

/-- Whose report has come, is in the batch. -/
theorem Watched.report (h : d.Watched serves) {b : List Event} (hb : d.Reports b)
    (hnum : d.Numbered)
    (hin : ∀ e ∈ b, e.fd ≠ d.lfd → d.Unread e.conn → serves' e.fd) (hs : ∀ fd, serves fd → serves' fd) :
    (d.report b).Watched serves' := by
  intro i hi
  unfold Unread Net.report at hi
  unfold Net.report
  dsimp only at hi ⊢
  by_cases hany : (b.any fun e => e.fd ≠ d.lfd ∧ e.conn = i) = true
  · rw [if_pos hany] at hi ⊢
    obtain ⟨e, he, hcond⟩ := List.any_eq_true.mp hany
    obtain ⟨hne, rfl⟩ := of_decide_eq_true hcond
    obtain ⟨hcur, -, -⟩ := (hb.1 e he).resolve_left hne
    rw [(hnum.fd (cur_eq.mp hcur).1).1]
    exact .inr (hin e he hne hi)
  · rw [if_neg hany] at hi ⊢
    exact (h i hi).imp_right (hs _)

theorem Numbered.accept (h : d.Numbered) {fd : Nat} (hlfd : fd ≠ d.lfd) (hcur : d.cur fd = none) : (d.accept fd).Numbered := by
  have hold {i : Nat} (hi : i ≠ d.accepted) : (d.accept fd).conns i = d.conns i := if_neg hi
  have hnew : (d.accept fd).conns d.accepted = { fd, opened := true } := if_pos rfl
  refine ⟨fun i hi => ?_, fun {fd' i} hi => ?_, fun i hi => ?_⟩
  · by_cases he : i = d.accepted
    · rw [he, hnew]
      exact if_pos rfl
    · rw [hold he] at hi ⊢
      have hne : (d.conns i).fd ≠ fd := fun hfd => by
        rw [← hfd, h.cur_unique hi] at hcur
        cases hcur
      exact (if_neg hne).trans (h.latest i hi)
  · have hi : (if fd' = fd then some d.accepted else d.latest fd') = some i := hi
    split at hi
    case isTrue he =>
      cases hi
      exact ⟨by rw [hnew, he], Nat.lt_succ_self _⟩
    case isFalse =>
      obtain ⟨hfd, hlt⟩ := h.fd hi
      exact ⟨by rw [hold (Nat.ne_of_lt hlt), hfd], Nat.lt_succ_of_lt hlt⟩
  · by_cases he : i = d.accepted
    · rw [he, hnew]
      exact hlfd
    · rw [hold he] at hi ⊢
      exact h.other i hi

theorem Watched.accept (h : d.Watched serves) (fd : Nat) (hs : ∀ fd, serves fd → serves' fd) :
    (d.accept fd).Watched serves' := by
  intro i hi
  by_cases he : i = d.accepted
  · -- nothing has arrived on it yet
    have hnew : (d.accept fd).conns i = { fd, opened := true } := if_pos he
    unfold Unread at hi
    rw [hnew] at hi
    rcases hi.2 with hin | heof
    · exact absurd rfl hin
    · cases heof
  · have hold : (d.accept fd).conns i = d.conns i := if_neg he
    unfold Unread at hi
    rw [hold] at hi ⊢
    exact (h i hi).imp_right (hs _)

theorem Numbered.close (h : d.Numbered) (fd : Nat) : (d.close fd).Numbered := by
  unfold Net.close
  split
  case h_1 j hj =>
    have hfd (i : Nat) : ((d.modify j fun c => { c with opened := false, registered := false, closes := c.closes + 1 }).conns i).fd =
        (d.conns i).fd := by
      rw [modify_conns]
      split <;> rfl
    have hopen {i : Nat} (hi : ((d.modify j fun c =>
        { c with opened := false, registered := false, closes := c.closes + 1 }).conns i).opened = true) :
        (d.conns i).opened = true := by
      rw [modify_conns] at hi
      split at hi
      · cases hi
      · exact hi
    refine ⟨fun i hi => ?_, fun {fd' i} hi => ?_, fun i hi => ?_⟩
    · rw [hfd]
      exact h.latest i (hopen hi)
    · rw [hfd]
      exact h.fd hi
    · rw [hfd]
      exact h.other i (hopen hi)
  case h_2 => exact h

/-- Whoever has the number now is not open. -/
theorem Watched.close (h : d.Watched serves) (hnum : d.Numbered) {fd : Nat} (hs : ∀ fd', fd' ≠ fd → serves fd' → serves' fd') :
    (d.close fd).Watched serves' := by
  have hother {i : Nat} (hi : d.Unread i) (hne : (d.conns i).fd ≠ fd) :
      (d.conns i).edge = true ∨ serves' (d.conns i).fd := (h i hi).imp_right (hs _ hne)
  intro i hi
  unfold Net.close at hi ⊢
  split at hi
  case h_1 j hj =>
    unfold Unread at hi
    rw [modify_conns] at hi ⊢
    split at hi
    case isTrue => cases hi.1
    case isFalse hij =>
      rw [if_neg hij]
      refine hother hi fun hfd => hij ?_
      have := hnum.latest i hi.1
      rw [hfd, hj] at this
      exact (Option.some.inj this).symm
  case h_2 hnone =>
    refine hother hi fun hfd => ?_
    have := hnum.latest i hi.1
    rw [hfd, hnone] at this
    cases this

end
end Net

/-! ## One instruction -/

structure Kept (d : Shared PoolTask Net) : Prop where
  numbered : d.env.Numbered
  up : d.pool.shutdown = false

/-- `others` are the numbers of the threads that are not at `pc`. -/
def Covers (pc : Pc) (d : Shared PoolTask Net) (others : Nat → Prop) (fd : Nat) : Prop :=
  others fd ∨ fd ∈ pc.numbers ∨ fd ∈ d.pool.pending.map PoolTask.fd

section
variable {f : Nat → Input → Shared PoolTask Net → Shared PoolTask Net × Pc} {d d' : Shared PoolTask Net} {pc k : Pc}

theorem Covers.imp {others : Nat → Prop} {fd : Nat} (h : Covers pc d others fd) (hpc : fd ∈ pc.numbers → Covers k d' others fd)
    (hqueue : fd ∈ d.pool.pending.map PoolTask.fd → Covers k d' others fd) : Covers k d' others fd := by
  rcases h with h | h | h
  · exact .inl h
  · exact hpc h
  · exact hqueue h

/-- The queue is the same, and the thread has the same numbers. -/
theorem Covers.same {others : Nat → Prop} {fd : Nat} (h : Covers pc d others fd) (hpc : fd ∈ pc.numbers → fd ∈ k.numbers)
    (hqueue : d'.pool = d.pool) : Covers k d' others fd :=
  h.imp (fun h => .inr (.inl (hpc h))) fun h => .inr (.inr (hqueue ▸ h))

theorem mem_nextEvent {rest : List Event} {fd : Nat} :
    fd ∈ (nextEvent rest).numbers ↔ ∃ e ∈ rest, e.events &&& EPOLLIN ≠ 0 ∧ e.fd = fd := by
  cases rest with
  | nil => simp [nextEvent, Pc.numbers, MainPc.events, MainPc.arg]
  | cons e rest => simp [nextEvent, Pc.numbers, MainPc.events, MainPc.arg, and_assoc]

theorem mem_main {pc : MainPc} {fd : Nat} :
    fd ∈ (Pc.main pc).numbers ↔ (∃ e ∈ pc.events, e.events &&& EPOLLIN ≠ 0 ∧ e.fd = fd) ∨ ∃ task ∈ pc.arg, task.fd = fd := by
  simp [Pc.numbers, and_assoc]

/-- What the instruction does to the connections and the queue. -/
structure Watches (pc : Pc) (d : Shared PoolTask Net) (r : Shared PoolTask Net × Pc) : Prop where
  kept : Kept r.1
  stored : d.pool.stored.length ≤ r.1.pool.stored.length
  watched : r.1.pool.stored.length < 2 ^ 31 → ∀ others, d.env.Watched (Covers pc d others) →
    r.1.env.Watched (Covers r.2 r.1 others)

theorem worker_watched {pc : WorkerPc PoolTask} (hc : thrRun pc = .data f) (hk : Kept d) (hq : Queued d)
    (hA : (Pc.worker pc).Asserted d) (t : Nat) (x : Input) : Watches (.worker pc) d (f t x d) := by
  obtain ⟨pc', hpc, hstep, henv⟩ := thrRun_data hc t x d
  generalize f t x d = r at hpc hstep henv
  obtain ⟨⟨pool, env⟩, k⟩ := r
  dsimp only at hpc hstep henv
  subst hpc henv
  have hcovers (hup : pool.shutdown = false) (hstored : d.pool.stored.length ≤ pool.stored.length)
      (h : pool.stored.length < 2 ^ 31 → ∀ others fd, Covers (.worker pc) d others fd →
        Covers (.worker pc') ⟨pool, d.env⟩ others fd) :
      Watches (.worker pc) d (⟨pool, d.env⟩, .worker pc') :=
    ⟨⟨hk.numbered, hup⟩, hstored, fun hlt others hw => hw.calm (.refl _) fun i _ => h hlt others _⟩
  cases hstep with
  | sleep | awake | some | none =>
    exact hcovers hk.up (Nat.le_refl _) fun _ others fd h => h.same (fun h => absurd h List.not_mem_nil) rfl
  | stay => exact hcovers hk.up (Nat.le_refl _) fun _ others fd h => h.same id rfl
  | exit =>
    exact hcovers hk.up (Nat.le_refl _) fun _ others fd h => h.imp (fun h => absurd h List.not_mem_nil) fun h => .inr (.inr h)
  | quit hshut =>
    rw [hk.up] at hshut
    cases hshut
  | take =>
    refine hcovers hk.up (Nat.le_refl _) fun hlt others fd h => h.imp (fun h => absurd h List.not_mem_nil) fun h => ?_
    have hsound := hq.fifo hlt
    have hne : d.pool.jobNum ≠ 0 := hA
    have hnonneg := hsound.nonneg
    rw [ThreadPool.pending_pop hsound (by omega) hlt t, List.map_cons] at h
    exact .inr ((List.mem_cons.mp h).imp List.mem_singleton.mpr id)

theorem task_watched {pc : TaskPc} (hc : taskCode pc = .data f) (hk : Kept d) (t : Nat) (x : Input) :
    Watches (.task pc) d (f t x d) := by
  have hcalm {env : Net} {k : Pc} (hcalm : d.env.Calm env)
      (h : ∀ others i, d.env.Unread i → Covers (.task pc) d others (d.env.conns i).fd →
        Covers k { d with env } others (d.env.conns i).fd) :
      Watches (.task pc) d ({ d with env }, k) :=
    ⟨⟨hk.numbered.calm hcalm, hk.up⟩, Nat.le_refl _, fun _ others hw => hw.calm hcalm (h others)⟩
  cases pc with
  | read task =>
    cases hc
    dsimp only
    split
    case h_1 bytes hread =>
      exact hcalm ((Net.access_calm task).trans (Net.consume_calm _ _)) fun others i _ h => h.same id rfl
    case h_2 hread =>
      -- `EAGAIN`: whichever connection has the number, nothing is left of it
      refine hcalm (Net.access_calm task) fun others i hi h => h.imp (fun hfd => ?_) fun h => .inr (.inr h)
      obtain ⟨hopen, hunread⟩ := hi
      have hcur := hk.numbered.cur_unique hopen
      rw [List.mem_singleton.mp hfd] at hcur
      unfold Net.readResult at hread
      rw [Net.access_cur, hcur, Net.access_conns] at hread
      dsimp only at hread
      split at hread
      · cases hread
      split at hread
      case isTrue => cases hread
      case isFalse hin =>
        split at hread
        case isTrue => cases hread
        case isFalse heof => exact absurd hunread (not_or.mpr ⟨hin, heof⟩)
    · exact hcalm (Net.access_calm task) fun others i _ h => h.same id rfl
    · exact hcalm (Net.access_calm task) fun others i _ h => h.same id rfl
  | write task bytes =>
    cases hc
    refine hcalm ((Net.access_calm task).trans ?_) fun others i _ h => h.same id rfl
    exact .modifyFd (fun _ => rfl) (fun _ => rfl) fun c h => .inr ⟨h, rfl⟩
  | close task =>
    cases hc
    have hnum := hk.numbered.calm (Net.access_calm task)
    refine ⟨⟨hnum.close _, hk.up⟩, Nat.le_refl _, fun _ others hw => ?_⟩
    have hw := hw.calm (Net.access_calm task) fun _ _ h => h
    refine hw.close hnum fun fd hne h => h.imp (fun hfd => ?_) fun h => .inr (.inr h)
    exact absurd (List.mem_singleton.mp hfd) hne
  | ctl task =>
    cases hc
    dsimp only
    split
    · refine hcalm ?_ fun others i _ h => h.same id rfl
      exact .modifyFd (fun _ => rfl) (fun _ => rfl) fun c h => .inr ⟨h, rfl⟩
    · exact hcalm (.refl _) fun others i _ h => h.same id rfl

theorem main_watched {pc : MainPc} (hc : mainCode pc = .data f) (hk : Kept d) (hq : Queued d)
    (hA : (Pc.main pc).Asserted d) (t : Nat) {x : Input}
    (hx : ∀ b, x = .events b → ∀ e ∈ b, e.fd ≠ d.env.lfd → d.env.Unread e.conn → e.events &&& EPOLLIN ≠ 0) :
    Watches (.main pc) d (f t x d) := by
  have hsame {k : Pc} (h : ∀ others i, d.env.Unread i → Covers (.main pc) d others (d.env.conns i).fd →
      Covers k d others (d.env.conns i).fd) : Watches (.main pc) d (d, k) :=
    ⟨hk, Nat.le_refl _, fun _ others hw => hw.calm (.refl _) (h others)⟩
  cases pc with
  | wait =>
    cases hc
    dsimp only
    split
    case h_1 b =>
      split
      case isTrue hb =>
        refine ⟨⟨hk.numbered.report b, hk.up⟩, Nat.le_refl _, fun _ others hw => ?_⟩
        refine hw.report hb hk.numbered (fun e he hne hunread => ?_) fun fd h => h.same (fun h => ?_) rfl
        · exact .inr (.inl (mem_nextEvent.mpr ⟨e, he, hx b rfl e he hne hunread, rfl⟩))
        · simp [Pc.numbers, MainPc.events, MainPc.arg] at h
      case isFalse => exact hsame fun others i _ h => h
    case h_2 => exact hsame fun others i _ h => h
  | event e rest =>
    cases hc
    have hrest {k : Pc} (hnumbers : ∀ i, d.env.Unread i → (d.env.conns i).fd ∈ (Pc.main (.event e rest)).numbers →
        (d.env.conns i).fd ∈ k.numbers) : Watches (.main (.event e rest)) d (d, k) :=
      hsame fun others i hi h => h.same (hnumbers i hi) rfl
    dsimp only
    split
    case isTrue hlfd =>
      refine hrest fun i hi h => mem_main.mpr ((mem_main.mp h).imp ?_ nofun)
      rintro ⟨e', he', hin, hfd⟩
      rcases List.mem_cons.mp he' with rfl | he'
      · -- no connection has the listening descriptor
        exact absurd (hfd.symm.trans hlfd.1) (hk.numbered.other i hi.1)
      · exact ⟨e', he', hin, hfd⟩
    case isFalse =>
      split
      case isTrue =>
        refine hrest fun i hi h => mem_main.mpr ?_
        rcases mem_main.mp h with ⟨e', he', hin, hfd⟩ | ⟨task, htask, -⟩
        · rcases List.mem_cons.mp he' with rfl | he'
          · exact .inr ⟨_, rfl, hfd⟩
          · exact .inl ⟨e', he', hin, hfd⟩
        · cases htask
      case isFalse hno =>
        refine hrest fun i hi h => mem_nextEvent.mpr ?_
        rcases mem_main.mp h with ⟨e', he', hin, hfd⟩ | ⟨task, htask, -⟩
        · rcases List.mem_cons.mp he' with rfl | he'
          · exact absurd hin hno
          · exact ⟨e', he', hin, hfd⟩
        · cases htask
  | accept rest =>
    cases hc
    dsimp only
    split
    case h_1 fd =>
      split
      case isTrue hfd =>
        refine ⟨⟨hk.numbered.accept hfd.1 hfd.2, hk.up⟩, Nat.le_refl _, fun _ others hw => ?_⟩
        exact hw.accept fd fun fd h => h.same id rfl
      case isFalse => exact hsame fun others i _ h => h
    case h_2 => exact hsame fun others i _ h => h
  | ctl fd rest =>
    cases hc
    have hcalm : d.env.Calm (d.env.register fd) := .modifyFd (fun _ => rfl) (fun _ => rfl) fun c h => .inr ⟨h, rfl⟩
    refine ⟨⟨hk.numbered.calm hcalm, hk.up⟩, Nat.le_refl _, fun _ others hw => hw.calm hcalm fun i _ h => h.same (fun h => ?_) rfl⟩
    rcases mem_main.mp h with hevents | ⟨task, htask, -⟩
    · exact mem_nextEvent.mpr hevents
    · cases htask
  | addtask pc =>
    have hc : addtask pc = .data f := hc
    obtain ⟨pc', hpc, hstep⟩ := addtask_data hc t x d
    generalize f t x d = r at hpc hstep
    obtain ⟨d', k⟩ := r
    dsimp only at hpc hstep
    subst hpc
    cases hstep with
    | full | room => exact hsame fun others i _ h => h.same id rfl
    | @store task rest =>
      refine ⟨⟨hk.numbered, hk.up⟩, by simp, fun hlt others hw => hw.calm (.refl _) fun i _ h => ?_⟩
      have hlen : d.pool.stored.length < 2 ^ 31 := by
        have : d.pool.stored.length + 1 < 2 ^ 31 := by simpa using hlt
        omega
      have hpending := ThreadPool.pending_push (hq.fifo hlen) (hA.2 _ rfl) task
      refine h.imp (fun h => ?_) fun h => .inr (.inr ?_)
      · rcases mem_main.mp h with hevents | ⟨task', htask, hfd⟩
        · exact .inr (.inl (mem_main.mpr (.inl hevents)))
        · cases htask
          refine .inr (.inr ?_)
          rw [hpending, List.map_append]
          exact List.mem_append_right _ (List.mem_singleton.mpr hfd.symm)
      · rw [hpending, List.map_append]
        exact List.mem_append_left _ h

theorem net_watched (hc : netCode = .data f) (hk : Kept d) (t : Nat) (x : Input) : Watches .net d (f t x d) := by
  have hcalm {env : Net} (hcalm : d.env.Calm env) : Watches .net d ({ d with env }, .net) :=
    ⟨⟨hk.numbered.calm hcalm, hk.up⟩, Nat.le_refl _, fun _ others hw => hw.calm hcalm fun i _ h => h.same id rfl⟩
  cases hc
  dsimp only
  split
  · exact hcalm (Net.arrive_calm _ _)
  · exact hcalm (Net.hangup_calm _)
  · exact hcalm (.refl _)

theorem data_watched (hc : code pc = .data f) (hk : Kept d) (hq : Queued d) (hA : pc.Asserted d) (t : Nat) {x : Input}
    (hx : ∀ b, x = .events b → ∀ e ∈ b, e.fd ≠ d.env.lfd → d.env.Unread e.conn → e.events &&& EPOLLIN ≠ 0) :
    Watches pc d (f t x d) := by
  cases pc with
  | worker pc => exact worker_watched hc hk hq hA t x
  | task pc => exact task_watched hc hk t x
  | main pc => exact main_watched hc hk hq hA t hx
  | net => exact net_watched hc hk t x

/-- The mutex and the conditions are nothing to the numbers. -/
theorem goes_numbers (hg : (code pc).Goes k) {fd : Nat} (h : fd ∈ pc.numbers) : fd ∈ k.numbers := by
  cases moves hg with
  | lock | wait | quit => cases h
  | signal | unlock | addLock | addWait | addUnlock => exact h
  | addSignal rest =>
    rcases mem_main.mp h with hevents | ⟨task, htask, -⟩
    · exact mem_nextEvent.mpr hevents
    · cases htask

end

/-! ## Runs -/

section
variable {s s' : ServerState} {a : ServerAct}

structure Sees (s : ServerState) : Prop where
  kept : Kept s.shared
  watched : s.shared.pool.stored.length < 2 ^ 31 → s.shared.env.Watched (Serves s)

/-- The threads other than `t` have their numbers. -/
def OthersServe (s : ServerState) (t fd : Nat) : Prop :=
  ∃ (u : Nat) (pc : Pc), u ≠ t ∧ s.pcs[u]? = some pc ∧ fd ∈ pc.numbers

theorem serves_covers {t : Nat} {pc : Pc} (ht : s.pcs[t]? = some pc) {fd : Nat} :
    Serves s fd ↔ Covers pc s.shared (OthersServe s t) fd := by
  constructor
  · rintro (⟨u, pc', hu, hfd⟩ | h)
    · by_cases he : u = t
      · subst he
        rw [ht] at hu
        exact .inr (.inl (Option.some.inj hu ▸ hfd))
      · exact .inl ⟨u, pc', he, hu, hfd⟩
    · exact .inr (.inr h)
  · rintro (⟨u, pc', -, hu, hfd⟩ | h | h)
    · exact .inl ⟨u, pc', hu, hfd⟩
    · exact .inl ⟨t, pc, ht, h⟩
    · exact .inr h

theorem othersServe_set {t : Nat} {k : Pc} (hpcs : s'.pcs = s.pcs.set t k) {fd : Nat} :
    OthersServe s' t fd ↔ OthersServe s t fd := by
  unfold OthersServe
  rw [hpcs]
  constructor
  · rintro ⟨u, pc, hne, hu, hfd⟩
    exact ⟨u, pc, hne, (List.getElem?_set_ne hne.symm).symm.trans hu, hfd⟩
  · rintro ⟨u, pc, hne, hu, hfd⟩
    exact ⟨u, pc, hne, (List.getElem?_set_ne hne.symm).trans hu, hfd⟩

/-- One thread goes from `pc` to `k`. -/
theorem Sees.set (h : Sees s) {t : Nat} {pc k : Pc} (ht : s.pcs[t]? = some pc) (hpcs : s'.pcs = s.pcs.set t k)
    (hw : Watches pc s.shared (s'.shared, k)) : Sees s' := by
  have ht' : s'.pcs[t]? = some k := by
    rw [hpcs]
    exact List.getElem?_set_self (List.getElem?_eq_some_iff.mp ht).1
  refine ⟨hw.kept, fun hlt => ?_⟩
  have hlen := hw.stored
  have hbefore : s.shared.env.Watched (Covers pc s.shared (OthersServe s t)) :=
    (h.watched (Nat.lt_of_le_of_lt hlen hlt)).calm (.refl _) fun _ _ => (serves_covers ht).mp
  refine (hw.watched hlt _ hbefore).calm (.refl _) fun i _ hcov => (serves_covers ht').mpr ?_
  exact hcov.imp_left (othersServe_set hpcs).mpr

theorem Sees.step (h : Sees s)
    (hA : Pthread.Asserted code (holdsIn Pc.held) (fun _ => Queued) (fun _ pc d => pc.Asserted d) s)
    (hx : Honest s a) (hs : serverStep s a = some s') : Sees s' := by
  cases (step_cases hs).effect with
  | quiet hpcs hd =>
    refine ⟨hd ▸ h.kept, fun hlt => ?_⟩
    rw [hd] at hlt ⊢
    refine (h.watched hlt).calm (.refl _) fun i _ hserves => ?_
    unfold Serves
    rwa [hpcs, hd]
  | @move t x w pc k _ ht hg hpcs hd =>
    refine h.set (State.pcs_getElem? ht) hpcs ⟨hd ▸ h.kept, Nat.le_of_eq (by rw [hd]), fun _ others hw => ?_⟩
    rw [hd]
    exact hw.calm (.refl _) fun i _ hcov => hcov.same (goes_numbers hg) rfl
  | @data t x w pc f he ht hc hpcs hd =>
    have hpc := State.pcs_getElem? ht
    have hwatch := data_watched hc h.kept hA.global (hA.atPc t pc hpc) t (x := x) (by
      rintro b rfl
      subst he
      exact hx)
    refine h.set hpc hpcs ?_
    rw [hd]
    exact hwatch
  | create he ht hc => exact absurd hc not_create
  | arrive hstart => cases hstart

section
variable {thrnum maxtasknum lfd : Nat} {raw copy : Nat → PoolTask}

theorem create_sees : Sees (create thrnum maxtasknum lfd raw copy) :=
  ⟨⟨⟨nofun, nofun, nofun⟩, rfl⟩, fun _ => nofun⟩

theorem honest_sees (h : Lts.Reach honestStep (create thrnum maxtasknum lfd raw copy) s) : Sees s := by
  have hinv : Sees s ∧ Pthread.Asserted code (holdsIn Pc.held) (fun _ => Queued) (fun _ pc d => pc.Asserted d) s := by
    apply h.invariant _ ⟨create_sees, create_asserted⟩
    rintro s a s' ⟨h, hA⟩ hs
    obtain ⟨hx, hs⟩ := Option.ite_none_right_eq_some.mp hs
    exact ⟨h.step hA hx hs, outline.asserted hA (step_cases hs)⟩
  exact hinv.1

end

end
end CSocket.EpollPool
