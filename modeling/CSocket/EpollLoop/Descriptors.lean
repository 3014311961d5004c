import CSocket.EpollLoop.Table
/-!
# Accepted descriptors

Each of them has a slot until it is closed, but for those that `acceptconn` cannot
place: with the table full, or `fcntl` failing, it leaves the new descriptor open
and forgets it. `conserved_iff`: that is the only way.
-/
namespace CSocket.EpollLoop
open Epoll

/-! ## The property and the condition -/

/-- What `accept` returned is closed, or is the descriptor of one slot in use. -/
def Conserved (MAX_EVENTS : Nat) (s : Loop) : Prop :=
  ∀ fd, 0 < s.conn fd → fd ∉ s.efd.opened ∨
    ∃ ev < MAX_EVENTS, ((s.gEvents ev).status = 1 ∧ (s.gEvents ev).fd = fd) ∧
      ∀ ev' < MAX_EVENTS, (s.gEvents ev').status = 1 → (s.gEvents ev').fd = fd → ev' = ev

/-- The action makes `acceptconn` take a connection that it has no place for. -/
def leaks (MAX_EVENTS : Nat) (s : Loop) : LoopAct → Bool
  | .test io => match s.pc with
    | .readable e _ =>
      e.events &&& EPOLLIN ≠ 0 && (s.gEvents e.data).events &&& EPOLLIN ≠ 0 &&
        (s.gEvents e.data).callBack = some .acceptconn && io.accept.isSome && refuses MAX_EVENTS io s
    | _ => false
  | _ => false

/-! ## The invariant -/

/-- An open descriptor that was accepted has a slot. -/
def Served (MAX_EVENTS : Nat) (s : Loop) : Prop :=
  ∀ fd, 0 < s.conn fd → fd ∈ s.efd.opened → ∃ ev < MAX_EVENTS, (s.gEvents ev).status = 1 ∧ (s.gEvents ev).fd = fd

section
variable {MAX_EVENTS lfd : Nat} {s s' : Loop} {ev : Nat}

theorem Served.conserved (h : Served MAX_EVENTS s) (ht : Table MAX_EVENTS lfd s) : Conserved MAX_EVENTS s := by
  intro fd hconn
  by_cases hopen : fd ∈ s.efd.opened
  · obtain ⟨ev, hlt, hst, hfd⟩ := h fd hconn hopen
    refine .inr ⟨ev, hlt, ⟨hst, hfd⟩, fun ev' hlt' hst' hfd' => ?_⟩
    exact ht.inj (Nat.le_of_lt hlt') (Nat.le_of_lt hlt) hst' hst (hfd'.trans hfd.symm)
  · exact .inl hopen

/-- A slot in use stays so, or its descriptor is closed. -/
theorem Served.step (h : Served MAX_EVENTS s) (hconn : s'.conn = s.conn)
    (hopen : ∀ fd ∈ s'.efd.opened, fd ∈ s.efd.opened)
    (hslot : ∀ ev < MAX_EVENTS, (s.gEvents ev).status = 1 → (s.gEvents ev).fd ∈ s'.efd.opened →
      (s'.gEvents ev).status = 1 ∧ (s'.gEvents ev).fd = (s.gEvents ev).fd) : Served MAX_EVENTS s' := by
  intro fd hc ho
  rw [hconn] at hc
  obtain ⟨ev, hlt, hst, rfl⟩ := h fd hc (hopen fd ho)
  exact ⟨ev, hlt, hslot ev hlt hst ho⟩

theorem Served.congr (h : Served MAX_EVENTS s) (hg : s'.gEvents = s.gEvents) (he : s'.efd = s.efd)
    (hc : s'.conn = s.conn) : Served MAX_EVENTS s' := by
  refine h.step hc (fun fd hfd => he ▸ hfd) fun ev _ hst _ => ?_
  rw [hg]
  exact ⟨hst, rfl⟩

/-- A slot goes out of use as its descriptor is closed. -/
theorem Served.vacate (h : Served MAX_EVENTS s) (ev : Nat) (hconn : s'.conn = s.conn)
    (hother : ∀ ev', ev' ≠ ev → s'.gEvents ev' = s.gEvents ev')
    (hopen : ∀ fd, fd ∈ s'.efd.opened ↔ fd ∈ s.efd.opened ∧ fd ≠ (s.gEvents ev).fd) : Served MAX_EVENTS s' := by
  refine h.step hconn (fun fd hfd => ((hopen fd).mp hfd).1) fun ev' hlt hst ho => ?_
  have hne : ev' ≠ ev := by
    rintro rfl
    exact ((hopen _).mp ho).2 rfl
  rw [hother ev' hne]
  exact ⟨hst, rfl⟩

/-- A slot is armed anew for the same descriptor. -/
theorem Served.rearm (h : Served MAX_EVENTS s) (ev : Nat) (hconn : s'.conn = s.conn)
    (hother : ∀ ev', ev' ≠ ev → s'.gEvents ev' = s.gEvents ev') (hopen : s'.efd.opened = s.efd.opened)
    (hslot : (s'.gEvents ev).status = 1 ∧ (s'.gEvents ev).fd = (s.gEvents ev).fd) : Served MAX_EVENTS s' := by
  refine h.step hconn (fun fd hfd => hopen ▸ hfd) fun ev' hlt hst ho => ?_
  by_cases hev : ev' = ev
  · subst hev
    exact hslot
  · rw [hother ev' hev]
    exact ⟨hst, rfl⟩

/-! ## The callbacks -/

theorem recvdata_served (h : Served MAX_EVENTS s) (hst : (s.gEvents ev).status = 1) (io : Io) :
    Served MAX_EVENTS (recvdata io (s.gEvents ev).fd ev s) := by
  by_cases hio : ∀ bytes ∈ io.recv, bytes = []
  · rw [recvdata_closed _ hst hio]
    exact h.vacate ev rfl (fun ev' hne => by simp [hne]) fun fd => by simp
  · obtain ⟨bytes, hrecv, hne⟩ : ∃ bytes, io.recv = some bytes ∧ bytes ≠ [] := by
      simpa using hio
    rw [recvdata_pos _ hst hrecv (List.length_pos_iff.mpr hne)]
    exact h.rearm ev rfl (fun ev' hne => by simp [hne]) (by simp) (by simp)

theorem senddata_served (h : Served MAX_EVENTS s) (hst : (s.gEvents ev).status = 1) (io : Io) :
    Served MAX_EVENTS (senddata io (s.gEvents ev).fd ev s) := by
  by_cases hio : 0 < io.send
  · rw [senddata_pos _ hst hio]
    exact h.rearm ev rfl (fun ev' hne => by simp [hne]) (by simp) (by simp)
  · rw [senddata_closed _ hst hio]
    exact h.vacate ev rfl (fun ev' hne => by simp [hne]) fun fd => by simp

/-- The new connection has its slot. -/
theorem acceptconn_served (h : Served MAX_EVENTS s) {io : Io} (hok : io.accept.isSome → refuses MAX_EVENTS io s = false) :
    Served MAX_EVENTS (acceptconn MAX_EVENTS io s) := by
  rcases acceptconn_cases MAX_EVENTS io s with ⟨he, -⟩ | ⟨cfd, hcfd, hcases⟩
  · rw [he]
    exact h
  · rcases hcases with ⟨-, href⟩ | ⟨i, hlt, hst, -, he⟩
    · rw [hok (by rw [hcfd]; rfl)] at href
      cases href
    · rw [he]
      intro fd hc ho
      by_cases hfd : fd = cfd
      · exact ⟨i, hlt, by simp [hfd]⟩
      · have hc : 0 < s.conn fd := by simpa [Loop.accepted, Loop.ctl, Loop.setEv, hfd] using hc
        have ho : fd ∈ s.efd.opened := by simpa [hfd] using ho
        obtain ⟨ev, hlt', hst', hfd'⟩ := h fd hc ho
        have hne : ev ≠ i := by
          rintro rfl
          rw [hst] at hst'
          cases hst'
        exact ⟨ev, hlt', by simp [hne, hst', hfd']⟩

/-- A connection that is refused stays open, and no slot has it. -/
theorem acceptconn_leaks (ht : Table MAX_EVENTS lfd s) {io : Io} {cfd : Nat} (hcfd : io.accept = some cfd)
    (hnew : cfd ∉ s.efd.opened) (href : refuses MAX_EVENTS io s = true) :
    ¬ Conserved MAX_EVENTS (acceptconn MAX_EVENTS io s) := by
  rcases acceptconn_cases MAX_EVENTS io s with ⟨-, he⟩ | ⟨cfd', hcfd', hcases⟩
  · rw [hcfd] at he
    cases he
  · obtain rfl : cfd = cfd' := Option.some.inj (hcfd.symm.trans hcfd')
    rcases hcases with ⟨he, -⟩ | ⟨i, -, -, hno, -⟩
    · rw [he]
      intro hcons
      rcases hcons cfd (by simp [Loop.accepted]) with hclosed | ⟨ev, hlt, ⟨hst, hfd⟩, -⟩
      · simp at hclosed
      · have hopen := ht.isOpen (Nat.le_of_lt hlt) hst
        rw [show (s.gEvents ev).fd = cfd from hfd] at hopen
        exact hnew hopen
    · rw [href] at hno
      cases hno

/-! ## The loop -/

theorem check_served (h : Served MAX_EVENTS s) (now : Int) : Served MAX_EVENTS (check MAX_EVENTS now s) := by
  simp only [check]
  split
  · exact h.congr rfl rfl rfl
  case isFalse hst =>
    split
    · rw [eventdel_eq (by simpa using hst)]
      exact h.vacate (s.pos MAX_EVENTS) rfl (fun ev' hne => by simp [hne]) fun fd => by simp
    · exact h.congr rfl rfl rfl

theorem sweep_served (n : Nat) (h : Served MAX_EVENTS s) (now : Int) : Served MAX_EVENTS (sweep MAX_EVENTS now n s) := by
  induction n generalizing s with
  | zero => exact h
  | succ n ih => exact ih (check_served h now)

theorem callBack_served (ht : Table MAX_EVENTS lfd s) (h : Served MAX_EVENTS s) {e : Reg Nat}
    (hv : Valid MAX_EVENTS s e) {io : Io}
    (hok : e.data = MAX_EVENTS → io.accept.isSome → refuses MAX_EVENTS io s = false)
    (hs : callBack MAX_EVENTS io e s = some s') : Served MAX_EVENTS s' := by
  have h1 : Served MAX_EVENTS (s.called e) := h.congr rfl rfl rfl
  rcases callBack_cases ht hv io with ⟨heq, -, hcb⟩ | ⟨-, -, hcb⟩ | ⟨-, -, hcb⟩
  · obtain rfl := Option.some.inj (hs.symm.trans hcb)
    exact acceptconn_served h1 (hok heq)
  · obtain rfl := Option.some.inj (hs.symm.trans hcb)
    exact recvdata_served h1 hv.status io
  · obtain rfl := Option.some.inj (hs.symm.trans hcb)
    exact senddata_served h1 hv.status io

/-- What a run carries that has leaked nothing so far. -/
structure Tight (MAX_EVENTS lfd : Nat) (s : Loop) : Prop where
  inv : Inv MAX_EVENTS lfd s
  served : Served MAX_EVENTS s

theorem tight_start (time : Int) : Tight MAX_EVENTS lfd (initlistensocket MAX_EVENTS lfd time) := by
  refine ⟨inv_start time, fun fd hc => ?_⟩
  unfold initlistensocket at hc
  rw [eventadd_eventset] at hc
  exact absurd hc (Nat.lt_irrefl 0)

/-- A step that places what it accepts. -/
theorem tight_step (hpos : 1 ≤ MAX_EVENTS) (h : Tight MAX_EVENTS lfd s) {a : LoopAct}
    (hok : leaks MAX_EVENTS s a = false) (hs : loopStep MAX_EVENTS s a = some s') : Tight MAX_EVENTS lfd s' := by
  refine ⟨loopStep_inv hpos h.inv hs, ?_⟩
  have hpending := h.inv.pending
  cases loopStep_cases hs with
  | sweep now s1 hs1 he =>
    subst he
    have hserved := sweep_served 100 h.served now
    rw [hs1] at hserved
    exact hserved.congr rfl rfl rfl
  | exit he | batch b _ he =>
    subst he
    exact h.served.congr rfl rfl rfl
  | readable io e rest hpc htest =>
    rw [hpc] at hpending
    have hv : Valid MAX_EVENTS s e := hpending.valid e (List.mem_cons_self ..)
    rcases test_cases htest with ⟨-, rfl⟩ | ⟨hbit, hin, hio, s1, hs1, rfl⟩
    · exact h.served.congr rfl rfl rfl
    · refine (callBack_served h.inv.table h.served hv (fun heq hsome => ?_) hs1).congr rfl rfl rfl
      obtain ⟨-, -, -, hcb⟩ := heq ▸ h.inv.table.listening
      simpa [leaks, hpc, hbit, hin, hcb, hsome] using hok
  | writable io e rest hpc htest =>
    rw [hpc] at hpending
    obtain ⟨-, -, hslot⟩ := hpending
    rcases test_cases htest with ⟨-, rfl⟩ | ⟨-, hout, hio, s1, hs1, rfl⟩
    · exact h.served.congr rfl rfl rfl
    · have hv := hslot.resolve_right hout
      refine (callBack_served h.inv.table h.served hv (fun heq _ => ?_) hs1).congr rfl rfl rfl
      -- the listening slot does not wait for writing
      obtain ⟨-, -, hev, -⟩ := heq ▸ h.inv.table.listening
      rw [hev] at hout
      exact absurd rfl hout

theorem leak_step (h : Tight MAX_EVENTS lfd s) {a : LoopAct} (hleak : leaks MAX_EVENTS s a = true)
    (hs : loopStep MAX_EVENTS s a = some s') : ¬ Conserved MAX_EVENTS s' := by
  have hpending := h.inv.pending
  cases loopStep_cases hs with
  | readable io e rest hpc htest =>
    rw [hpc] at hpending
    have hv : Valid MAX_EVENTS s e := hpending.valid e (List.mem_cons_self ..)
    simp only [leaks, hpc, Bool.and_eq_true, decide_eq_true_eq] at hleak
    obtain ⟨⟨⟨⟨hbit, hin⟩, hcb⟩, hsome⟩, href⟩ := hleak
    obtain ⟨cfd, hcfd⟩ := Option.isSome_iff_exists.mp hsome
    -- a client slot has no `acceptconn`
    have hclient (hlt : e.data < MAX_EVENTS) : False := by
      rcases (h.inv.table.armed e.data hlt hv.status).kind with ⟨-, hcb'⟩ | ⟨-, hcb'⟩ <;> rw [hcb] at hcb' <;> cases hcb'
    rcases test_cases htest with ⟨hno, -⟩ | ⟨-, -, hio, s1, hs1, rfl⟩
    · exact absurd ⟨hbit, hin⟩ hno
    · rcases callBack_cases h.inv.table hv io with ⟨-, -, hcall⟩ | ⟨hlt, -, -⟩ | ⟨hlt, -, -⟩
      · obtain rfl := Option.some.inj (hs1.symm.trans hcall)
        have ht : Table MAX_EVENTS lfd (s.called e) := h.inv.table.congr rfl rfl rfl
        exact acceptconn_leaks ht hcfd (hio.accept cfd hcfd) href
      · exact (hclient hlt).elim
      · exact (hclient hlt).elim
  | writable io e rest hpc htest => simp [leaks, hpc] at hleak
  | _ => cases hleak

/-- A run of the main loop conserves the accepted descriptors, in every state of it, if
and only if `acceptconn` never takes a connection with all slots in use or with
`fcntl` failing. -/
theorem conserved_iff (hpos : 1 ≤ MAX_EVENTS) {time : Int} {as : List LoopAct}
    (hrun : Lts.run (loopStep MAX_EVENTS) as (initlistensocket MAX_EVENTS lfd time) = some s) :
    Lts.Always (loopStep MAX_EVENTS) (Conserved MAX_EVENTS) as (initlistensocket MAX_EVENTS lfd time) ↔
      Lts.Along (loopStep MAX_EVENTS) (fun s a => leaks MAX_EVENTS s a = false) as
        (initlistensocket MAX_EVENTS lfd time) := by
  apply Lts.always_iff_along _ _ _ hrun (tight_start time)
  · exact fun s h => h.served.conserved h.inv.table
  · exact fun s a s' h hok hs => tight_step hpos h hok hs
  · exact fun s a s' h hleak hs => leak_step h (by simpa using hleak) hs

end

/-- A client connects; `fcntl` succeeds or not. -/
def acceptRun (fcntl : Bool) : List LoopAct :=
  [.sweep 0, .wait (some [⟨3, 1024, EPOLLIN⟩]), .test { accept := some 4, fcntl }, .test {}, .sweep 60]

/-- The idle connection is closed by the next sweep. -/
theorem conserved_iff_idle :
    Lts.Always (loopStep 1024) (Conserved 1024) (acceptRun true) (initlistensocket 1024 3 0) := by
  have hsome : (Lts.run (loopStep 1024) (acceptRun true) (initlistensocket 1024 3 0)).isSome = true := by
    decide +kernel
  obtain ⟨s, hrun⟩ := Option.isSome_iff_exists.mp hsome
  exact (conserved_iff (by decide) hrun).mpr (by decide +kernel)

/-- `fcntl` fails: the descriptor is open, and no slot has it. -/
theorem accepted_forgotten : ∃ s : Loop, Lts.Reach (loopStep 1024) (initlistensocket 1024 3 0) s ∧
    4 ∈ s.efd.opened ∧ (∀ ev < 1024, (s.gEvents ev).status = 0) ∧ ¬ Conserved 1024 s := by
  obtain ⟨s, hr, hs⟩ := Lts.Reach.of_run (loopStep 1024) (initlistensocket 1024 3 0)
    (fun s => 4 ∈ s.efd.opened && 0 < s.conn 4 && (List.range 1024).all fun ev => (s.gEvents ev).status = 0)
    (acceptRun false) (by decide +kernel)
  simp only [Bool.and_eq_true, decide_eq_true_eq, List.all_eq_true, List.mem_range] at hs
  obtain ⟨⟨hopen, hconn⟩, hfree⟩ := hs
  refine ⟨s, hr, hopen, hfree, fun hcons => ?_⟩
  rcases hcons 4 hconn with hclosed | ⟨ev, hlt, ⟨hst, -⟩, -⟩
  · exact hclosed hopen
  · rw [hfree ev hlt] at hst
    cases hst

end CSocket.EpollLoop
