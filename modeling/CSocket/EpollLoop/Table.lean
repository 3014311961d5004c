import CSocket.EpollLoop.Code
/-!
# The slot table and the epoll set

`Table`: the registrations are the slots with status 1. Every callback and every
check of the sweep changes one slot and its registration together (`Table.put`),
so an event that has not been handled yet keeps its slot (`Valid`).
-/
namespace CSocket.EpollLoop
open Epoll

/-! ## The invariant -/

/-- The registration of a slot. -/
def Loop.reg (s : Loop) (ev : Nat) : Reg Nat := ⟨(s.gEvents ev).fd, ev, (s.gEvents ev).events⟩

/-- Armed for reading, or for writing. -/
structure Armed (ev : Nat) (e : MyeventS) : Prop where
  arg : e.arg = some ev
  kind : e.events = EPOLLIN ∧ e.callBack = some .recvdata ∨ e.events = EPOLLOUT ∧ e.callBack = some .senddata

structure Table (MAX_EVENTS lfd : Nat) (s : Loop) : Prop where
  regs : ∀ r, r ∈ s.efd.set ↔ ∃ ev ≤ MAX_EVENTS, (s.gEvents ev).status = 1 ∧ r = s.reg ev
  binary : ∀ ev, (s.gEvents ev).status = 0 ∨ (s.gEvents ev).status = 1
  armed : ∀ ev < MAX_EVENTS, (s.gEvents ev).status = 1 → Armed ev (s.gEvents ev)
  listening : (s.gEvents MAX_EVENTS).status = 1 ∧ (s.gEvents MAX_EVENTS).fd = lfd ∧
    (s.gEvents MAX_EVENTS).events = EPOLLIN ∧ (s.gEvents MAX_EVENTS).callBack = some .acceptconn
  checkpos : s.checkpos ≤ MAX_EVENTS

/-- The slot of an event still belongs to the descriptor that was reported, and
the descriptor to the same connection. -/
structure Valid (MAX_EVENTS : Nat) (s : Loop) (e : Reg Nat) : Prop where
  le : e.data ≤ MAX_EVENTS
  status : (s.gEvents e.data).status = 1
  fd : (s.gEvents e.data).fd = e.fd
  conn : s.conn e.fd = s.connThen e.fd

/-- The rest of a batch: valid events of different descriptors. -/
structure Rest (MAX_EVENTS : Nat) (s : Loop) (b : List (Reg Nat)) : Prop where
  valid : ∀ e ∈ b, Valid MAX_EVENTS s e
  nodup : (b.map Reg.fd).Nodup

/-- After the first test, the slot is valid or will fail the second one. -/
def LoopPc.Pending (MAX_EVENTS : Nat) (s : Loop) : LoopPc → Prop
  | .readable e rest => Rest MAX_EVENTS s (e :: rest)
  | .writable e rest =>
    Rest MAX_EVENTS s rest ∧ e.fd ∉ rest.map Reg.fd ∧
      (Valid MAX_EVENTS s e ∨ (s.gEvents e.data).events &&& EPOLLOUT = 0)
  | _ => True

/-- No callback ran on a stale slot, and `eventadd` never modified. -/
structure History (s : Loop) : Prop where
  calls : ∀ c ∈ s.calls, c.status = 1 ∧ c.fd = c.reported ∧ c.conn = c.connThen
  ctls : ∀ op ∈ s.ctls, op ≠ .mod

section
variable {MAX_EVENTS lfd : Nat} {s s' : Loop} {ev : Nat}

/-! ## One slot -/

theorem Table.reg_mem (h : Table MAX_EVENTS lfd s) (hle : ev ≤ MAX_EVENTS) (hst : (s.gEvents ev).status = 1) :
    s.reg ev ∈ s.efd.set :=
  (h.regs _).mpr ⟨ev, hle, hst, rfl⟩

theorem Table.isOpen (h : Table MAX_EVENTS lfd s) (hle : ev ≤ MAX_EVENTS) (hst : (s.gEvents ev).status = 1) :
    (s.gEvents ev).fd ∈ s.efd.opened :=
  s.efd.isOpen _ (h.reg_mem hle hst)

/-- Slots in use have different descriptors. -/
theorem Table.inj (h : Table MAX_EVENTS lfd s) {ev' : Nat} (hle : ev ≤ MAX_EVENTS) (hle' : ev' ≤ MAX_EVENTS)
    (hst : (s.gEvents ev).status = 1) (hst' : (s.gEvents ev').status = 1)
    (hfd : (s.gEvents ev).fd = (s.gEvents ev').fd) : ev = ev' :=
  congrArg Reg.data (Kernel.eq_of_fd (h.reg_mem hle hst) (h.reg_mem hle' hst') hfd)

/-- A slot in use is named by its descriptor. -/
theorem Table.data_iff (h : Table MAX_EVENTS lfd s) (hle : ev ≤ MAX_EVENTS) (hst : (s.gEvents ev).status = 1)
    {r : Reg Nat} (hr : r ∈ s.efd.set) : r.fd ≠ (s.gEvents ev).fd ↔ r.data ≠ ev := by
  obtain ⟨ev', hle', hst', rfl⟩ := (h.regs r).mp hr
  constructor
  · rintro hne rfl
    exact hne rfl
  · intro hne hfd
    exact hne (h.inj hle' hle hst' hst hfd)

/-- A slot not in use is not registered. -/
theorem Table.data_ne (h : Table MAX_EVENTS lfd s) (hst : (s.gEvents ev).status = 0) {r : Reg Nat}
    (hr : r ∈ s.efd.set) : r.data ≠ ev := by
  obtain ⟨ev', -, hst', rfl⟩ := (h.regs r).mp hr
  rintro rfl
  rw [show (s.gEvents (s.reg ev').data).status = 1 from hst'] at hst
  cases hst

/-- A client slot changes together with its registration. -/
theorem Table.put (h : Table MAX_EVENTS lfd s) (hlt : ev < MAX_EVENTS)
    (hother : ∀ ev', ev' ≠ ev → s'.gEvents ev' = s.gEvents ev')
    (hslot : (s'.gEvents ev).status = 0 ∨ (s'.gEvents ev).status = 1 ∧ Armed ev (s'.gEvents ev))
    (hset : ∀ r, r ∈ s'.efd.set ↔ (s'.gEvents ev).status = 1 ∧ r = s'.reg ev ∨ r ∈ s.efd.set ∧ r.data ≠ ev)
    (hpos : s'.checkpos = s.checkpos) : Table MAX_EVENTS lfd s' := by
  have hne : MAX_EVENTS ≠ ev := Nat.ne_of_gt hlt
  have hreg (ev' : Nat) (hev : ev' ≠ ev) : s'.reg ev' = s.reg ev' := by rw [Loop.reg, Loop.reg, hother ev' hev]
  constructor
  · -- a registration is the slot's own, or another slot's that stays
    intro r
    rw [hset]
    constructor
    · rintro (⟨hst, rfl⟩ | ⟨hr, hdata⟩)
      · exact ⟨ev, Nat.le_of_lt hlt, hst, rfl⟩
      · obtain ⟨ev', hle', hst', rfl⟩ := (h.regs r).mp hr
        exact ⟨ev', hle', hother ev' hdata ▸ hst', (hreg ev' hdata).symm⟩
    · rintro ⟨ev', hle', hst', rfl⟩
      by_cases hev : ev' = ev
      · subst hev
        exact .inl ⟨hst', rfl⟩
      · rw [hreg ev' hev]
        exact .inr ⟨h.reg_mem hle' (hother ev' hev ▸ hst'), hev⟩
  · intro ev'
    by_cases hev : ev' = ev
    · subst hev
      exact hslot.imp_right And.left
    · rw [hother ev' hev]
      exact h.binary ev'
  · intro ev' hlt' hst'
    by_cases hev : ev' = ev
    · subst hev
      rcases hslot with h0 | ⟨-, harmed⟩
      · rw [h0] at hst'
        cases hst'
      · exact harmed
    · rw [hother ev' hev] at hst' ⊢
      exact h.armed ev' hlt' hst'
  · rw [hother MAX_EVENTS hne]
    exact h.listening
  · exact hpos ▸ h.checkpos

/-- A client slot goes out of use and its descriptor out of the set. -/
theorem Table.vacate (h : Table MAX_EVENTS lfd s) (hlt : ev < MAX_EVENTS) (hst : (s.gEvents ev).status = 1)
    (hother : ∀ ev', ev' ≠ ev → s'.gEvents ev' = s.gEvents ev') (hslot : (s'.gEvents ev).status = 0)
    (hset : ∀ r, r ∈ s'.efd.set ↔ r ∈ s.efd.set ∧ r.fd ≠ (s.gEvents ev).fd) (hpos : s'.checkpos = s.checkpos) :
    Table MAX_EVENTS lfd s' := by
  apply h.put hlt hother (.inl hslot) _ hpos
  intro r
  rw [hset, and_congr_right fun hr => h.data_iff (Nat.le_of_lt hlt) hst hr, hslot]
  simp

/-- A deletion and an addition replace the slot's registration. -/
theorem Table.mem_rearm (h : Table MAX_EVENTS lfd s) (hlt : ev < MAX_EVENTS) (hst : (s.gEvents ev).status = 1)
    (events : Nat) (r : Reg Nat) :
    r ∈ ((s.efd.ctl .del ⟨(s.gEvents ev).fd, ev, 0⟩).1.ctl .add ⟨(s.gEvents ev).fd, ev, events⟩).1.set ↔
      r = ⟨(s.gEvents ev).fd, ev, events⟩ ∨ r ∈ s.efd.set ∧ r.data ≠ ev := by
  have hle : ev ≤ MAX_EVENTS := Nat.le_of_lt hlt
  obtain ⟨hopen, hdel⟩ := Kernel.ctl_del (k := s.efd) (r := ⟨(s.gEvents ev).fd, ev, 0⟩)
  have hnew : ∀ r' ∈ (s.efd.ctl .del ⟨(s.gEvents ev).fd, ev, 0⟩).1.set, r'.fd ≠ (s.gEvents ev).fd :=
    fun r' hr' => ((hdel r').mp hr').2
  obtain ⟨-, -, hadd⟩ := Kernel.ctl_add (r := ⟨(s.gEvents ev).fd, ev, events⟩)
    (hopen.symm ▸ h.isOpen hle hst) hnew
  rw [hadd, hdel]
  exact or_congr_right (and_congr_right fun hr => h.data_iff hle hst hr)

/-! ## The callbacks -/

/-- What a callback on slot `ev` leaves alone. -/
structure After (s s' : Loop) (ev : Nat) : Prop where
  others : ∀ ev', ev' ≠ ev → (s.gEvents ev').status = 1 → s'.gEvents ev' = s.gEvents ev'
  self : (s'.gEvents ev).status = 1 ∧ (s'.gEvents ev).fd = (s.gEvents ev).fd ∨
    (s'.gEvents ev).events = (s.gEvents ev).events
  conn : ∀ fd ∈ s.efd.opened, s'.conn fd = s.conn fd
  connThen : s'.connThen = s.connThen
  calls : s'.calls = s.calls
  ctls : ∃ ops, s'.ctls = ops ++ s.ctls ∧ Op.mod ∉ ops

theorem recvdata_table (h : Table MAX_EVENTS lfd s) (hlt : ev < MAX_EVENTS) (hst : (s.gEvents ev).status = 1)
    (io : Io) :
    Table MAX_EVENTS lfd (recvdata io (s.gEvents ev).fd ev s) ∧ After s (recvdata io (s.gEvents ev).fd ev s) ev := by
  by_cases hio : ∀ bytes ∈ io.recv, bytes = []
  · rw [recvdata_closed _ hst hio]
    constructor
    · refine h.vacate hlt hst (fun ev' hne => by simp [hne]) (by simp) (fun r => ?_) rfl
      simp only [Loop.close_efd, Loop.ctl_efd, Loop.setEv_efd, Kernel.mem_close, Kernel.ctl_del.2, and_assoc, and_self]
    · refine ⟨fun ev' hne _ => by simp [hne], .inr (by simp), fun _ _ => rfl, rfl, rfl, [.del], rfl, by decide⟩
  · obtain ⟨bytes, hrecv, hne⟩ : ∃ bytes, io.recv = some bytes ∧ bytes ≠ [] := by
      simpa using hio
    rw [recvdata_pos _ hst hrecv (List.length_pos_iff.mpr hne)]
    constructor
    · refine h.put hlt (fun ev' hne => by simp [hne]) (.inr ?_) (fun r => ?_) rfl
      · simp only [Loop.ctl_gEvents, Loop.setEv_gEvents, if_true]
        exact ⟨trivial, rfl, .inr ⟨rfl, rfl⟩⟩
      · simpa [Loop.reg] using h.mem_rearm hlt hst EPOLLOUT r
    · refine ⟨fun ev' hne _ => by simp [hne], .inl (by simp), fun _ _ => rfl, rfl, rfl, [.add, .del], rfl, by decide⟩

theorem senddata_table (h : Table MAX_EVENTS lfd s) (hlt : ev < MAX_EVENTS) (hst : (s.gEvents ev).status = 1)
    (io : Io) :
    Table MAX_EVENTS lfd (senddata io (s.gEvents ev).fd ev s) ∧ After s (senddata io (s.gEvents ev).fd ev s) ev := by
  by_cases hio : 0 < io.send
  · rw [senddata_pos _ hst hio]
    constructor
    · refine h.put hlt (fun ev' hne => by simp [hne]) (.inr ?_) (fun r => ?_) rfl
      · simp only [Loop.ctl_gEvents, Loop.setEv_gEvents, if_true]
        exact ⟨trivial, rfl, .inl ⟨rfl, rfl⟩⟩
      · simpa [Loop.reg] using h.mem_rearm hlt hst EPOLLIN r
    · refine ⟨fun ev' hne _ => by simp [hne], .inl (by simp), fun _ _ => rfl, rfl, rfl, [.add, .del], rfl, by decide⟩
  · rw [senddata_closed _ hst hio]
    constructor
    · refine h.vacate hlt hst (fun ev' hne => by simp [hne]) (by simp) (fun r => ?_) rfl
      simp only [Loop.close_efd, Loop.ctl_efd, Loop.setEv_efd, Kernel.mem_close, Kernel.ctl_del.2, and_assoc, and_self]
    · refine ⟨fun ev' hne _ => by simp [hne], .inr (by simp), fun _ _ => rfl, rfl, rfl, [.del], rfl, by decide⟩

/-- The new connection takes a slot that is not in use. -/
theorem acceptconn_table (h : Table MAX_EVENTS lfd s) {io : Io} (hio : ∀ cfd ∈ io.accept, cfd ∉ s.efd.opened) :
    Table MAX_EVENTS lfd (acceptconn MAX_EVENTS io s) ∧ After s (acceptconn MAX_EVENTS io s) MAX_EVENTS := by
  rcases acceptconn_cases MAX_EVENTS io s with ⟨he, -⟩ | ⟨cfd, hcfd, hcases⟩
  · rw [he]
    exact ⟨h, fun _ _ _ => rfl, .inr rfl, fun _ _ => rfl, rfl, rfl, [], rfl, by decide⟩
  · have hnew : cfd ∉ s.efd.opened := hio cfd (by simp [hcfd])
    have hconn (fd : Nat) (hfd : fd ∈ s.efd.opened) : (if fd = cfd then s.conn fd + 1 else s.conn fd) = s.conn fd := by
      rw [if_neg]
      rintro rfl
      exact hnew hfd
    rcases hcases with ⟨he, -⟩ | ⟨i, hlt, hst, -, he⟩
    · rw [he]
      exact ⟨⟨h.regs, h.binary, h.armed, h.listening, h.checkpos⟩,
        fun _ _ _ => rfl, .inr rfl, hconn, rfl, rfl, [], rfl, by decide⟩
    · rw [he]
      -- a fresh number has no registration left, so that the add succeeds
      have hfresh : ∀ r ∈ (s.efd.openFd cfd).set, r.fd ≠ cfd := by
        rintro r hr rfl
        exact hnew (s.efd.isOpen r hr)
      obtain ⟨-, -, hadd⟩ := Kernel.ctl_add (k := s.efd.openFd cfd) (r := ⟨cfd, i, EPOLLIN⟩)
        (Kernel.mem_openFd_opened.mpr (.inl rfl)) hfresh
      constructor
      · refine h.put hlt (fun ev' hne => by simp [hne]) (.inr ?_) (fun r => ?_) rfl
        · simp only [Loop.ctl_gEvents, Loop.setEv_gEvents, if_true]
          exact ⟨trivial, rfl, .inl ⟨rfl, rfl⟩⟩
        · simp only [Loop.ctl_efd, Loop.setEv_efd, hadd, Loop.accepted_efd, Kernel.openFd_set, Loop.reg,
            Loop.ctl_gEvents, Loop.setEv_gEvents, if_true, true_and]
          exact or_congr_right ⟨fun hr => ⟨hr, h.data_ne hst hr⟩, And.left⟩
      · refine ⟨fun ev' _ hst' => ?_, .inr ?_, hconn, rfl, rfl, [.add], rfl, by decide⟩
        · have hne : ev' ≠ i := by
            rintro rfl
            rw [hst] at hst'
            cases hst'
          simp [hne]
        · simp [Nat.ne_of_gt hlt]

/-! ## Events that wait -/

theorem Valid.after (h : Table MAX_EVENTS lfd s) {e : Reg Nat} (hv : Valid MAX_EVENTS s e) (ha : After s s' ev)
    (hne : e.data ≠ ev) : Valid MAX_EVENTS s' e := by
  have hsame := ha.others e.data hne hv.status
  have hopen : e.fd ∈ s.efd.opened := hv.fd ▸ h.isOpen hv.le hv.status
  exact ⟨hv.le, hsame ▸ hv.status, hsame ▸ hv.fd, by rw [ha.conn e.fd hopen, ha.connThen, hv.conn]⟩

/-- Events of different descriptors are of different slots. -/
theorem Valid.data_ne {e e' : Reg Nat} (hv : Valid MAX_EVENTS s e) (hv' : Valid MAX_EVENTS s e') (hne : e.fd ≠ e'.fd) :
    e.data ≠ e'.data := by
  intro he
  rw [← hv.fd, ← hv'.fd, he] at hne
  exact hne rfl

theorem Rest.after (h : Table MAX_EVENTS lfd s) {e : Reg Nat} {rest : List (Reg Nat)} (hr : Rest MAX_EVENTS s rest)
    (hv : Valid MAX_EVENTS s e) (hnew : e.fd ∉ rest.map Reg.fd) (ha : After s s' e.data) : Rest MAX_EVENTS s' rest := by
  refine ⟨fun e' he' => ?_, hr.nodup⟩
  have hne : e'.fd ≠ e.fd := by
    rintro hfd
    exact hnew (List.mem_map.mpr ⟨e', he', hfd⟩)
  exact (hr.valid e' he').after h ha ((hr.valid e' he').data_ne hv hne)

theorem Rest.congr {b : List (Reg Nat)} (h : Rest MAX_EVENTS s b) (hg : s'.gEvents = s.gEvents)
    (hc : s'.conn = s.conn) (ht : s'.connThen = s.connThen) : Rest MAX_EVENTS s' b :=
  ⟨fun e he => ⟨(h.valid e he).le, hg ▸ (h.valid e he).status, hg ▸ (h.valid e he).fd,
    by rw [hc, ht, (h.valid e he).conn]⟩, h.nodup⟩

/-- The state in which the callback runs. -/
def Loop.called (s : Loop) (e : Reg Nat) : Loop :=
  { s with calls := ⟨1, e.fd, s.conn e.fd, e.fd, s.connThen e.fd⟩ :: s.calls }

/-- The callback that runs for a valid event. -/
theorem callBack_cases (h : Table MAX_EVENTS lfd s) {e : Reg Nat} (hv : Valid MAX_EVENTS s e) (io : Io) :
    e.data = MAX_EVENTS ∧ (s.gEvents e.data).events = EPOLLIN ∧
      callBack MAX_EVENTS io e s = some (acceptconn MAX_EVENTS io (s.called e)) ∨
    e.data < MAX_EVENTS ∧ (s.gEvents e.data).events = EPOLLIN ∧
      callBack MAX_EVENTS io e s = some (recvdata io ((s.called e).gEvents e.data).fd e.data (s.called e)) ∨
    e.data < MAX_EVENTS ∧ (s.gEvents e.data).events = EPOLLOUT ∧
      callBack MAX_EVENTS io e s = some (senddata io ((s.called e).gEvents e.data).fd e.data (s.called e)) := by
  have hcall : (⟨(s.gEvents e.data).status, (s.gEvents e.data).fd, s.conn (s.gEvents e.data).fd, e.fd,
      s.connThen e.fd⟩ : Call) = ⟨1, e.fd, s.conn e.fd, e.fd, s.connThen e.fd⟩ := by
    rw [hv.status, hv.fd]
  simp only [callBack, hcall]
  rcases Nat.lt_or_eq_of_le hv.le with hlt | heq
  · right
    obtain ⟨harg, ⟨hev, hcb⟩ | ⟨hev, hcb⟩⟩ := h.armed e.data hlt hv.status
    · exact .inl ⟨hlt, hev, by simp only [hcb, harg]; rfl⟩
    · exact .inr ⟨hlt, hev, by simp only [hcb, harg]; rfl⟩
  · obtain ⟨-, -, hev, hcb⟩ := heq ▸ h.listening
    exact .inl ⟨heq, hev, by simp only [hcb]; rfl⟩

/-- A dispatch on a valid event calls a callback, on a slot in use. -/
theorem callBack_table (h : Table MAX_EVENTS lfd s) {e : Reg Nat} (hv : Valid MAX_EVENTS s e) {io : Io}
    (hio : io.Possible s e.data) :
    ∃ s', callBack MAX_EVENTS io e s = some s' ∧ Table MAX_EVENTS lfd s' ∧ After (s.called e) s' e.data := by
  have h1 : Table MAX_EVENTS lfd (s.called e) := ⟨h.regs, h.binary, h.armed, h.listening, h.checkpos⟩
  rcases callBack_cases h hv io with ⟨heq, -, hcb⟩ | ⟨hlt, -, hcb⟩ | ⟨hlt, -, hcb⟩
  · rw [heq]
    exact ⟨_, hcb, acceptconn_table h1 hio.accept⟩
  · exact ⟨_, hcb, recvdata_table h1 hlt hv.status io⟩
  · exact ⟨_, hcb, senddata_table h1 hlt hv.status io⟩

/-! ## The sweep -/

theorem Table.pos_lt (hpos : 1 ≤ MAX_EVENTS) (h : Table MAX_EVENTS lfd s) : s.pos MAX_EVENTS < MAX_EVENTS := by
  have hle := h.checkpos
  unfold Loop.pos
  split <;> omega

theorem check_table (hpos : 1 ≤ MAX_EVENTS) (h : Table MAX_EVENTS lfd s) (now : Int) :
    Table MAX_EVENTS lfd (check MAX_EVENTS now s) := by
  have hlt := h.pos_lt hpos
  have h1 : Table MAX_EVENTS lfd { s with checkpos := s.pos MAX_EVENTS + 1 } :=
    ⟨h.regs, h.binary, h.armed, h.listening, hlt⟩
  simp only [check]
  split
  · exact h1
  case isFalse hst =>
    have hst : (s.gEvents (s.pos MAX_EVENTS)).status = 1 := by simpa using hst
    split
    · rw [eventdel_eq (by simpa using hst)]
      refine h1.vacate hlt hst (fun ev' hne => by simp [hne]) (by simp) (fun r => ?_) rfl
      simp only [Loop.close_efd, Loop.ctl_efd, Loop.setEv_efd, Kernel.mem_close, Kernel.ctl_del.2, Loop.close_gEvents,
        and_assoc, and_self]
    · exact h1

theorem sweep_table (hpos : 1 ≤ MAX_EVENTS) (n : Nat) (h : Table MAX_EVENTS lfd s) (now : Int) :
    Table MAX_EVENTS lfd (sweep MAX_EVENTS now n s) := by
  induction n generalizing s with
  | zero => exact h
  | succ n ih => exact ih (check_table hpos h now)

theorem check_history (h : History s) (now : Int) : History (check MAX_EVENTS now s) := by
  simp only [check]
  split
  · exact ⟨h.calls, h.ctls⟩
  case isFalse hst =>
    split
    · rw [eventdel_eq (by simpa using hst)]
      refine ⟨h.calls, fun op hop => ?_⟩
      rcases List.mem_cons.mp hop with rfl | hop
      · nofun
      · exact h.ctls op hop
    · exact ⟨h.calls, h.ctls⟩

theorem sweep_history (n : Nat) (h : History s) (now : Int) : History (sweep MAX_EVENTS now n s) := by
  induction n generalizing s with
  | zero => exact h
  | succ n ih => exact ih (check_history h now)

/-! ## The loop -/

structure Inv (MAX_EVENTS lfd : Nat) (s : Loop) : Prop where
  table : Table MAX_EVENTS lfd s
  pending : s.pc.Pending MAX_EVENTS s
  history : History s

theorem Table.congr (h : Table MAX_EVENTS lfd s) (hg : s'.gEvents = s.gEvents) (he : s'.efd = s.efd)
    (hc : s'.checkpos = s.checkpos) : Table MAX_EVENTS lfd s' := by
  have hreg : s'.reg = s.reg := by
    funext ev
    rw [Loop.reg, Loop.reg, hg]
  refine ⟨?_, hg ▸ h.binary, hg ▸ h.armed, hg ▸ h.listening, hc ▸ h.checkpos⟩
  rw [he, hg, hreg]
  exact h.regs

theorem Rest.pending {b : List (Reg Nat)} (h : Rest MAX_EVENTS s b) : (LoopPc.next b).Pending MAX_EVENTS s := by
  cases b with
  | nil => trivial
  | cons e rest => exact h

/-- What `epoll_wait` reports is valid at that moment. -/
theorem Table.reports (h : Table MAX_EVENTS lfd s) {b : List (Reg Nat)} (hb : s.efd.Reports b) :
    Rest MAX_EVENTS { s with connThen := s.conn } b := by
  refine ⟨fun e he => ?_, hb.2⟩
  obtain ⟨r, hr, hfd, hdata⟩ := hb.1 e he
  obtain ⟨ev, hle, hst, rfl⟩ := (h.regs r).mp hr
  have hdata : ev = e.data := hdata
  subst hdata
  exact ⟨hle, hst, hfd, rfl⟩

/-- One test of the dispatch loop: nothing, or the callback. -/
theorem test_cases {bit : Nat} {io : Io} {e : Reg Nat} {pc : LoopPc} (hs : test MAX_EVENTS bit io e pc s = some s') :
    ¬ (e.events &&& bit ≠ 0 ∧ (s.gEvents e.data).events &&& bit ≠ 0) ∧ s' = { s with pc } ∨
    e.events &&& bit ≠ 0 ∧ (s.gEvents e.data).events &&& bit ≠ 0 ∧ io.Possible s e.data ∧
      ∃ s1, callBack MAX_EVENTS io e s = some s1 ∧ s' = { s1 with pc } := by
  unfold test at hs
  split at hs
  case isTrue hbits =>
    simp only [Option.ite_none_right_eq_some, Option.map_eq_some_iff] at hs
    obtain ⟨hio, s1, hs1, rfl⟩ := hs
    exact .inr ⟨hbits.1, hbits.2, hio, s1, hs1, rfl⟩
  case isFalse hbits =>
    cases hs
    exact .inl ⟨hbits, rfl⟩

/-- What a step of the main loop is: the sweep, a return of `epoll_wait`, or one of the
two tests for an event. -/
inductive Pass (MAX_EVENTS : Nat) (s s' : Loop) : LoopAct → Prop
  | sweep (now s1) : sweep MAX_EVENTS now 100 s = s1 → s' = { s1 with pc := .wait } → Pass MAX_EVENTS s s' (.sweep now)
  | exit : s' = { s with pc := .exit } → Pass MAX_EVENTS s s' (.wait none)
  | batch (b) : s.efd.Reports b → s' = { s with pc := .next b, connThen := s.conn } →
      Pass MAX_EVENTS s s' (.wait (some b))
  | readable (io e rest) : s.pc = .readable e rest → test MAX_EVENTS EPOLLIN io e (.writable e rest) s = some s' →
      Pass MAX_EVENTS s s' (.test io)
  | writable (io e rest) : s.pc = .writable e rest → test MAX_EVENTS EPOLLOUT io e (.next rest) s = some s' →
      Pass MAX_EVENTS s s' (.test io)

theorem loopStep_cases {a : LoopAct} (hs : loopStep MAX_EVENTS s a = some s') : Pass MAX_EVENTS s s' a := by
  cases a with
  | sweep now =>
    simp only [loopStep, Option.ite_none_right_eq_some] at hs
    generalize hs1 : sweep MAX_EVENTS now 100 s = s1 at hs
    obtain ⟨-, hs⟩ := hs
    cases hs
    exact .sweep now s1 hs1 rfl
  | wait events =>
    simp only [loopStep] at hs
    split at hs
    · cases hs
      exact .exit rfl
    · rename_i b _
      simp only [Option.ite_none_right_eq_some] at hs
      obtain ⟨⟨hreports, -⟩, hs⟩ := hs
      cases hs
      exact .batch b hreports rfl
    · cases hs
  | test io =>
    simp only [loopStep] at hs
    split at hs
    · rename_i e rest hpc
      exact .readable io e rest hpc hs
    · rename_i e rest hpc
      exact .writable io e rest hpc hs
    · cases hs

/-- One test of the dispatch loop, for event `e` of a batch with rest `rest`. -/
structure Tested (MAX_EVENTS lfd bit : Nat) (e : Reg Nat) (rest : List (Reg Nat)) (s s' : Loop) : Prop where
  table : Table MAX_EVENTS lfd s'
  history : History s'
  rest : Rest MAX_EVENTS s' rest
  slot : (Valid MAX_EVENTS s e → Valid MAX_EVENTS s' e) ∨
    (s'.gEvents e.data).events = (s.gEvents e.data).events ∧ (s.gEvents e.data).events &&& bit ≠ 0

theorem Valid.congr {e : Reg Nat} (h : Valid MAX_EVENTS s e) (hg : s'.gEvents = s.gEvents)
    (hc : s'.conn = s.conn) (ht : s'.connThen = s.connThen) : Valid MAX_EVENTS s' e :=
  ⟨h.le, hg ▸ h.status, hg ▸ h.fd, by rw [hc, ht, h.conn]⟩

/-- A callback is not stale, and it does not modify. -/
theorem History.after {e : Reg Nat} (h : History s) (hv : Valid MAX_EVENTS s e) (ha : After (s.called e) s' e.data) :
    History s' := by
  obtain ⟨ops, hops, hmod⟩ := ha.ctls
  constructor
  · intro c hc
    rw [ha.calls] at hc
    rcases List.mem_cons.mp hc with rfl | hc
    · exact ⟨rfl, rfl, hv.conn⟩
    · exact h.calls c hc
  · intro op hop
    rw [hops] at hop
    rcases List.mem_append.mp hop with hop | hop
    · rintro rfl
      exact hmod hop
    · exact h.ctls op hop

theorem test_inv (h : Inv MAX_EVENTS lfd s) {bit : Nat} {io : Io} {e : Reg Nat} {rest : List (Reg Nat)} {pc : LoopPc}
    (hrest : Rest MAX_EVENTS s rest) (hnew : e.fd ∉ rest.map Reg.fd)
    (hv : (s.gEvents e.data).events &&& bit ≠ 0 → Valid MAX_EVENTS s e)
    (hs : test MAX_EVENTS bit io e pc s = some s') : s'.pc = pc ∧ Tested MAX_EVENTS lfd bit e rest s s' := by
  rcases test_cases hs with ⟨-, rfl⟩ | ⟨-, hbit, hio, s1, hs1, rfl⟩
  · exact ⟨rfl, h.table.congr rfl rfl rfl, ⟨h.history.calls, h.history.ctls⟩, hrest.congr rfl rfl rfl,
      .inl fun hv => hv.congr rfl rfl rfl⟩
  · have hv := hv hbit
    obtain ⟨s2, hs2, htable, hafter⟩ := callBack_table h.table hv hio
    obtain rfl : s1 = s2 := Option.some.inj (hs1.symm.trans hs2)
    have hcalled : Table MAX_EVENTS lfd (s.called e) := h.table.congr rfl rfl rfl
    have hvcalled : Valid MAX_EVENTS (s.called e) e := hv.congr rfl rfl rfl
    have hrcalled : Rest MAX_EVENTS (s.called e) rest := hrest.congr rfl rfl rfl
    have hhistory := h.history.after hv hafter
    refine ⟨rfl, htable.congr rfl rfl rfl, ⟨hhistory.calls, hhistory.ctls⟩, ?_, ?_⟩
    · -- the events behind it are for other slots
      exact (hrcalled.after hcalled hvcalled hnew hafter).congr rfl rfl rfl
    · rcases hafter.self with ⟨hst, hfd⟩ | hev
      · left
        intro hv
        have hopen : e.fd ∈ s.efd.opened := hv.fd ▸ h.table.isOpen hv.le hv.status
        refine ⟨hv.le, hst, hfd.trans hv.fd, ?_⟩
        show s1.conn e.fd = s1.connThen e.fd
        rw [hafter.conn e.fd hopen, hafter.connThen]
        exact hv.conn
      · exact .inr ⟨hev, hbit⟩

/-- A slot that waits for reading does not wait for writing. -/
theorem Table.not_out (h : Table MAX_EVENTS lfd s) {e : Reg Nat} (hv : Valid MAX_EVENTS s e)
    (hin : (s.gEvents e.data).events &&& EPOLLIN ≠ 0) : (s.gEvents e.data).events &&& EPOLLOUT = 0 := by
  rcases callBack_cases h hv {} with ⟨-, hev, -⟩ | ⟨-, hev, -⟩ | ⟨-, hev, -⟩
  · rw [hev]
    rfl
  · rw [hev]
    rfl
  · rw [hev] at hin
    exact absurd rfl hin

theorem loopStep_inv (hpos : 1 ≤ MAX_EVENTS) (h : Inv MAX_EVENTS lfd s) {a : LoopAct}
    (hs : loopStep MAX_EVENTS s a = some s') : Inv MAX_EVENTS lfd s' := by
  have hpending := h.pending
  cases loopStep_cases hs with
  | sweep now s1 hs1 he =>
    subst he
    have htable := sweep_table hpos 100 h.table now
    have hhistory : History (sweep MAX_EVENTS now 100 s) := sweep_history 100 h.history now
    rw [hs1] at htable hhistory
    exact ⟨htable.congr rfl rfl rfl, trivial, hhistory.calls, hhistory.ctls⟩
  | exit he =>
    subst he
    exact ⟨h.table.congr rfl rfl rfl, trivial, h.history.calls, h.history.ctls⟩
  | batch b hreports he =>
    subst he
    refine ⟨h.table.congr rfl rfl rfl, ?_, h.history.calls, h.history.ctls⟩
    apply Rest.pending
    exact (h.table.reports hreports).congr rfl rfl rfl
  | readable io e rest hpc htest =>
    rw [hpc] at hpending
    have hv : Valid MAX_EVENTS s e := hpending.valid e (List.mem_cons_self ..)
    have hnodup := List.nodup_cons.mp hpending.nodup
    have hrest : Rest MAX_EVENTS s rest := ⟨fun e' he' => hpending.valid e' (List.mem_cons_of_mem _ he'), hnodup.2⟩
    obtain ⟨hpc', ht⟩ := test_inv h hrest hnodup.1 (fun _ => hv) htest
    refine ⟨ht.table, ?_, ht.history⟩
    rw [hpc']
    refine ⟨ht.rest, hnodup.1, ?_⟩
    rcases ht.slot with hv' | ⟨hev, hin⟩
    · exact .inl (hv' hv)
    · -- the callback left the slot alone, and it was not waiting for writing
      exact .inr (hev ▸ h.table.not_out hv hin)
  | writable io e rest hpc htest =>
    rw [hpc] at hpending
    obtain ⟨hrest, hnew, hslot⟩ := hpending
    obtain ⟨hpc', ht⟩ := test_inv h hrest hnew (fun hout => hslot.resolve_right hout) htest
    refine ⟨ht.table, ?_, ht.history⟩
    rw [hpc']
    exact ht.rest.pending

theorem inv_start (time : Int) : Inv MAX_EVENTS lfd (initlistensocket MAX_EVENTS lfd time) := by
  unfold initlistensocket
  rw [eventadd_eventset]
  obtain ⟨-, -, hadd⟩ := Kernel.ctl_add (k := (Kernel.empty : Kernel Nat).openFd lfd) (r := ⟨lfd, MAX_EVENTS, EPOLLIN⟩)
    (Kernel.mem_openFd_opened.mpr (.inl rfl)) (fun r hr => absurd hr List.not_mem_nil)
  refine ⟨⟨fun r => ?_, fun ev => ?_, fun ev hlt hst => ?_, ?_, Nat.zero_le _⟩, trivial, nofun, fun op hop => ?_⟩
  · simp only [Loop.ctl_efd, Loop.setEv_efd, hadd]
    constructor
    · rintro (rfl | hr)
      · exact ⟨MAX_EVENTS, Nat.le_refl _, by simp, by simp [Loop.reg]⟩
      · exact absurd hr List.not_mem_nil
    · rintro ⟨ev, -, hst, rfl⟩
      by_cases hev : ev = MAX_EVENTS
      · subst hev
        exact .inl (by simp [Loop.reg])
      · simp [hev] at hst
  · by_cases hev : ev = MAX_EVENTS <;> simp [hev]
  · simp [Nat.ne_of_lt hlt] at hst
  · simp
  · obtain rfl : op = .add := List.mem_singleton.mp hop
    nofun

theorem Reachable.inv (hpos : 1 ≤ MAX_EVENTS) (h : Reachable MAX_EVENTS lfd s) : Inv MAX_EVENTS lfd s := by
  obtain ⟨time, hr⟩ := h
  exact hr.invariant (fun _ _ _ hi hs => loopStep_inv hpos hi hs) (inv_start time)

end

/-! ## The theorem -/

/-- Between any two steps of the main loop: the epoll set has one registration for
each slot in use, the slot's own; slots in use have different descriptors and the
callback that fits what they wait for; no callback ever ran on a stale slot, and
`eventadd` never modified. -/
theorem table_in_step {MAX_EVENTS lfd : Nat} {s : Loop} (hpos : 1 ≤ MAX_EVENTS) (h : Reachable MAX_EVENTS lfd s) :
    (∀ r, r ∈ s.efd.set ↔
      ∃ ev ≤ MAX_EVENTS, (s.gEvents ev).status = 1 ∧ r = ⟨(s.gEvents ev).fd, ev, (s.gEvents ev).events⟩) ∧
    (s.efd.set.map Reg.fd).Nodup ∧
    (∀ ev ≤ MAX_EVENTS, ∀ ev' ≤ MAX_EVENTS, (s.gEvents ev).status = 1 → (s.gEvents ev').status = 1 →
      (s.gEvents ev).fd = (s.gEvents ev').fd → ev = ev') ∧
    ((s.gEvents MAX_EVENTS).status = 1 ∧ (s.gEvents MAX_EVENTS).fd = lfd ∧
      (s.gEvents MAX_EVENTS).callBack = some .acceptconn) ∧
    (∀ ev < MAX_EVENTS, (s.gEvents ev).status = 1 →
      (s.gEvents ev).events = EPOLLIN ∧ (s.gEvents ev).callBack = some .recvdata ∨
      (s.gEvents ev).events = EPOLLOUT ∧ (s.gEvents ev).callBack = some .senddata) ∧
    (∀ c ∈ s.calls, c.status = 1 ∧ c.fd = c.reported ∧ c.conn = c.connThen) ∧
    ∀ op ∈ s.ctls, op ≠ .mod := by
  obtain ⟨ht, -, hhistory⟩ := h.inv hpos
  obtain ⟨h1, h2, -, h3⟩ := ht.listening
  exact ⟨ht.regs, s.efd.nodup, fun _ hle _ hle' => ht.inj hle hle', ⟨h1, h2, h3⟩,
    fun ev hlt hst => (ht.armed ev hlt hst).kind, hhistory.calls, hhistory.ctls⟩

/-- A client connects, and its two bytes are read while another one connects. -/
theorem table_in_step_busy : ∃ s : Loop, s.calls.length = 3 ∧ s.efd.set.length = 3 ∧
    ∀ c ∈ s.calls, c.status = 1 ∧ c.fd = c.reported ∧ c.conn = c.connThen := by
  obtain ⟨s, hr, hs⟩ := Lts.Reach.of_run (loopStep 1024) (initlistensocket 1024 3 0)
    (fun s => s.calls.length = 3 && s.efd.set.length = 3)
    [.sweep 0, .wait (some [⟨3, 1024, EPOLLIN⟩]), .test { accept := some 4 }, .test {}, .sweep 1,
      .wait (some [⟨3, 1024, EPOLLIN⟩, ⟨4, 0, EPOLLIN⟩]), .test { accept := some 5 }, .test {},
      .test { recv := some [104, 105] }, .test {}] (by decide +kernel)
  obtain ⟨h1, h2⟩ := Bool.and_eq_true_iff.mp hs
  exact ⟨s, of_decide_eq_true h1, of_decide_eq_true h2, (table_in_step (by decide) ⟨0, hr⟩).2.2.2.2.2.1⟩

end CSocket.EpollLoop
