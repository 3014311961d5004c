import CSocket.Reactor.Code
/-!
# The listening entry

It sits behind the client entries, and it is where `initAccept`'s search ends when
none of them is free: the connection that comes one too many takes its place.
`listening_iff`: nothing else disturbs it.
-/
namespace CSocket.Reactor
open Epoll

/-! ## The property and the condition -/

/-- The listening entry is in place, each registered client has one entry, and an event
of the listening descriptor reached `initAccept` with it. -/
structure Listening (EVENT_SIZE lfd : Nat) (s : Loop) : Prop where
  entry : (s.myevents EVENT_SIZE).fd = lfd ∧ (s.myevents EVENT_SIZE).callBack = some .initAccept ∧
    (s.myevents EVENT_SIZE).events = EPOLLIN
  clients : ∀ r ∈ s.gepfd.set, r.fd ≠ lfd → ∃ ev < EVENT_SIZE, (s.myevents ev).fd = r.fd ∧
    ∀ ev' < EVENT_SIZE, (s.myevents ev').fd = r.fd → ev' = ev
  dispatch : ∀ h ∈ s.handled, h.fd = lfd → h.events &&& EPOLLIN ≠ 0 → h.call = some (.initAccept, lfd)

/-- The action makes `initAccept` take a connection with all entries in use. -/
def overfull (EVENT_SIZE : Nat) (s : Loop) : ReactorAct → Bool
  | .handle io => match s.pc with
    | .event e _ =>
      (s.myevents e.data).events &&& e.events ≠ 0 && (s.myevents e.data).callBack = some .initAccept &&
        io.accept.isSome && (List.range EVENT_SIZE).all fun ev => (s.myevents ev).fd ≠ 0
    | _ => false
  | _ => false

/-! ## The invariant -/

/-- The registration of an entry. -/
def Loop.reg (s : Loop) (ev : Nat) : Reg Nat := ⟨(s.myevents ev).fd, ev, (s.myevents ev).events⟩

structure Table (EVENT_SIZE lfd : Nat) (s : Loop) : Prop where
  regs : ∀ r, r ∈ s.gepfd.set ↔ r = ⟨lfd, EVENT_SIZE, EPOLLIN⟩ ∨
    ∃ ev < EVENT_SIZE, (s.myevents ev).fd ≠ 0 ∧ r = s.reg ev
  listening : (s.myevents EVENT_SIZE).fd = lfd ∧ (s.myevents EVENT_SIZE).callBack = some .initAccept ∧
    (s.myevents EVENT_SIZE).events = EPOLLIN
  armed : ∀ ev < EVENT_SIZE, (s.myevents ev).fd ≠ 0 →
    (s.myevents ev).callBack = some .readData ∨ (s.myevents ev).callBack = some .senddata

/-- The entry of an event still belongs to the descriptor that was reported. -/
structure Valid (EVENT_SIZE lfd : Nat) (s : Loop) (e : Reg Nat) : Prop where
  entry : e.data = EVENT_SIZE ∧ e.fd = lfd ∨ e.data < EVENT_SIZE ∧ e.fd ≠ lfd ∧ e.fd ≠ 0
  fd : (s.myevents e.data).fd = e.fd

def LoopPc.events : LoopPc → List (Reg Nat)
  | .event e rest => e :: rest
  | _ => []

structure Rest (EVENT_SIZE lfd : Nat) (s : Loop) (b : List (Reg Nat)) : Prop where
  valid : ∀ e ∈ b, Valid EVENT_SIZE lfd s e
  nodup : (b.map Reg.fd).Nodup

def Dispatched (lfd : Nat) (s : Loop) : Prop :=
  ∀ h ∈ s.handled, h.fd = lfd → h.events &&& EPOLLIN ≠ 0 → h.call = some (.initAccept, lfd)

structure Inv (EVENT_SIZE lfd : Nat) (s : Loop) : Prop where
  table : Table EVENT_SIZE lfd s
  rest : Rest EVENT_SIZE lfd s s.pc.events
  dispatched : Dispatched lfd s

section
variable {N lfd : Nat} {s s' : Loop} {ev : Nat}

/-! ## One entry -/

theorem Table.lfd_mem (h : Table N lfd s) : ⟨lfd, N, EPOLLIN⟩ ∈ s.gepfd.set := (h.regs _).mpr (.inl rfl)

theorem Table.reg_mem (h : Table N lfd s) (hlt : ev < N) (hfd : (s.myevents ev).fd ≠ 0) : s.reg ev ∈ s.gepfd.set :=
  (h.regs _).mpr (.inr ⟨ev, hlt, hfd, rfl⟩)

/-- A client's descriptor is not the listening one. -/
theorem Table.ne_lfd (h : Table N lfd s) (hlt : ev < N) (hfd : (s.myevents ev).fd ≠ 0) : (s.myevents ev).fd ≠ lfd := by
  intro he
  have hdata := congrArg Reg.data (Kernel.eq_of_fd (h.reg_mem hlt hfd) h.lfd_mem he)
  exact Nat.ne_of_lt hlt hdata

theorem Table.inj (h : Table N lfd s) {ev' : Nat} (hlt : ev < N) (hlt' : ev' < N) (hfd : (s.myevents ev).fd ≠ 0)
    (he : (s.myevents ev').fd = (s.myevents ev).fd) : ev' = ev := by
  have hfd' : (s.myevents ev').fd ≠ 0 := he ▸ hfd
  exact congrArg Reg.data (Kernel.eq_of_fd (h.reg_mem hlt' hfd') (h.reg_mem hlt hfd) he)

/-- An entry in use is named by its descriptor. -/
theorem Table.data_iff (h : Table N lfd s) (hlt : ev < N) (hfd : (s.myevents ev).fd ≠ 0) {r : Reg Nat}
    (hr : r ∈ s.gepfd.set) : r.fd ≠ (s.myevents ev).fd ↔ r.data ≠ ev := by
  rcases (h.regs r).mp hr with rfl | ⟨ev', hlt', hfd', rfl⟩
  · exact iff_of_true (Ne.symm (h.ne_lfd hlt hfd)) (Nat.ne_of_gt hlt)
  · constructor
    · rintro hne rfl
      exact hne rfl
    · intro hne he
      exact hne (h.inj hlt hlt' hfd he)

theorem Table.data_ne (h : Table N lfd s) (hlt : ev < N) (hfd : (s.myevents ev).fd = 0) {r : Reg Nat}
    (hr : r ∈ s.gepfd.set) : r.data ≠ ev := by
  rcases (h.regs r).mp hr with rfl | ⟨ev', hlt', hfd', rfl⟩
  · exact Nat.ne_of_gt hlt
  · rintro rfl
    exact hfd' hfd

/-- A client entry changes together with its registration. -/
theorem Table.put (h : Table N lfd s) (hlt : ev < N) (hother : ∀ ev', ev' ≠ ev → s'.myevents ev' = s.myevents ev')
    (hslot : (s'.myevents ev).fd ≠ 0 →
      (s'.myevents ev).callBack = some .readData ∨ (s'.myevents ev).callBack = some .senddata)
    (hset : ∀ r, r ∈ s'.gepfd.set ↔ (s'.myevents ev).fd ≠ 0 ∧ r = s'.reg ev ∨ r ∈ s.gepfd.set ∧ r.data ≠ ev) :
    Table N lfd s' := by
  have hne : N ≠ ev := Nat.ne_of_gt hlt
  have hreg (ev' : Nat) (hev : ev' ≠ ev) : s'.reg ev' = s.reg ev' := by rw [Loop.reg, Loop.reg, hother ev' hev]
  constructor
  · intro r
    rw [hset, h.regs]
    constructor
    · rintro (⟨hfd, rfl⟩ | ⟨rfl | ⟨ev', hlt', hfd', rfl⟩, hdata⟩)
      · exact .inr ⟨ev, hlt, hfd, rfl⟩
      · exact .inl rfl
      · exact .inr ⟨ev', hlt', hother ev' hdata ▸ hfd', (hreg ev' hdata).symm⟩
    · rintro (rfl | ⟨ev', hlt', hfd', rfl⟩)
      · exact .inr ⟨.inl rfl, hne⟩
      · by_cases hev : ev' = ev
        · subst hev
          exact .inl ⟨hfd', rfl⟩
        · rw [hreg ev' hev]
          exact .inr ⟨.inr ⟨ev', hlt', hother ev' hev ▸ hfd', rfl⟩, hev⟩
  · rw [hother N hne]
    exact h.listening
  · intro ev' hlt' hfd'
    by_cases hev : ev' = ev
    · subst hev
      exact hslot hfd'
    · rw [hother ev' hev] at hfd' ⊢
      exact h.armed ev' hlt' hfd'

/-- The buffers do not matter. -/
theorem Table.congr (h : Table N lfd s) (hg : s'.gepfd = s.gepfd)
    (hm : ∀ ev, (s'.myevents ev).fd = (s.myevents ev).fd ∧ (s'.myevents ev).events = (s.myevents ev).events ∧
      (s'.myevents ev).callBack = (s.myevents ev).callBack) : Table N lfd s' := by
  have hfd (ev : Nat) := (hm ev).1
  have hevents (ev : Nat) := (hm ev).2.1
  have hcall (ev : Nat) := (hm ev).2.2
  refine ⟨fun r => ?_, ?_, fun ev hlt hne => ?_⟩
  · rw [hg, h.regs]
    simp only [Loop.reg, hfd, hevents]
  · rw [hfd, hcall, hevents]
    exact h.listening
  · rw [hfd] at hne
    rw [hcall]
    exact h.armed ev hlt hne

/-! ## The callbacks -/

theorem eventset_table (h : Table N lfd s) (hlt : ev < N) (hfd : (s.myevents ev).fd ≠ 0) (e : XxEvent) (events : Nat)
    {f : CallBack} (hf : f = .readData ∨ f = .senddata) :
    Table N lfd ((s.setEv ev { e with fd := (s.myevents ev).fd, events, callBack := some f }).ctl .mod
      ⟨(s.myevents ev).fd, ev, events⟩) := by
  refine h.put hlt (fun ev' hne => by simp [hne]) (fun _ => ?_) fun r => ?_
  · simpa using hf
  · have hmod := Kernel.ctl_mod (k := s.gepfd) (r := ⟨(s.myevents ev).fd, ev, events⟩) ⟨_, h.reg_mem hlt hfd, rfl⟩ r
    simp only [Loop.ctl_gepfd, Loop.setEv_gepfd, hmod, Loop.ctl_myevents, Loop.setEv_myevents, if_true, Loop.reg]
    rw [and_congr_right fun hr => h.data_iff hlt hfd hr]
    simp [hfd]

theorem eventdel_table (h : Table N lfd s) (hlt : ev < N) (hfd : (s.myevents ev).fd ≠ 0) (events : Nat) :
    Table N lfd (((s.close (s.myevents ev).fd).setEv ev {}).ctl .del ⟨(s.myevents ev).fd, ev, events⟩) := by
  refine h.put hlt (fun ev' hne => by simp [hne]) (fun hne => absurd (by simp) hne) fun r => ?_
  simp only [Loop.ctl_gepfd, Loop.setEv_gepfd, Loop.close_gepfd, Kernel.ctl_del.2, Kernel.mem_close, and_assoc, and_self]
  rw [and_congr_right fun hr => h.data_iff hlt hfd hr]
  simp

theorem readData_table (h : Table N lfd s) (hlt : ev < N) (hfd : (s.myevents ev).fd ≠ 0) (io : Io) :
    Table N lfd (readData io (s.myevents ev).fd ev s) := by
  rcases readData_cases io (s.myevents ev).fd ev s with (⟨e, he⟩ | he) | he
  · rw [he]
    exact eventset_table h hlt hfd e EPOLLOUT (.inr rfl)
  · rw [he]
    exact eventdel_table h hlt hfd EPOLLIN
  · rw [he]
    refine h.congr rfl fun ev' => ?_
    by_cases hev : ev' = ev
    · subst hev
      simp
    · simp [hev]

theorem senddata_table (h : Table N lfd s) (hlt : ev < N) (hfd : (s.myevents ev).fd ≠ 0) :
    Table N lfd (senddata (s.myevents ev).fd ev s) :=
  eventset_table h hlt hfd (s.myevents ev) EPOLLIN (.inl rfl)

/-- The new connection takes a free entry. -/
theorem initAccept_table (h : Table N lfd s) {io : Io} (hio : io.Possible s)
    (hroom : io.accept.isSome → ∃ ev < N, (s.myevents ev).fd = 0) : Table N lfd (initAccept N io s) := by
  unfold initAccept
  cases hcfd : io.accept with
  | none => exact h.congr rfl fun _ => ⟨rfl, rfl, rfl⟩
  | some cfd =>
    obtain ⟨hnew, hne⟩ := hio.accept cfd (by simp [hcfd])
    obtain ⟨ev0, hlt0, hfree0⟩ := hroom (by rw [hcfd]; rfl)
    rcases freeEvent_cases N (s.accepted cfd) with ⟨hlt, hfree⟩ | ⟨-, hall⟩
    · have hfresh : ∀ r ∈ (s.gepfd.openFd cfd).set, r.fd ≠ cfd := by
        rintro r hr rfl
        exact hnew (s.gepfd.isOpen r hr)
      dsimp only
      generalize freeEvent N (s.accepted cfd) = i at hlt hfree ⊢
      obtain ⟨-, -, hadd⟩ := Kernel.ctl_add (k := s.gepfd.openFd cfd) (r := ⟨cfd, i, EPOLLIN⟩)
        (Kernel.mem_openFd_opened.mpr (.inl rfl)) hfresh
      refine h.put hlt (fun ev' hne => by simp [eventadd, hne]) (fun _ => by simp [eventadd]) fun r => ?_
      simp only [eventadd, Loop.ctl_gepfd, Loop.setEv_gepfd, Loop.accepted_gepfd, hadd, Kernel.openFd_set, Loop.reg,
        Loop.ctl_myevents, Loop.setEv_myevents, if_true]
      exact or_congr (by simp [hne]) ⟨fun hr => ⟨hr, h.data_ne hlt hfree hr⟩, And.left⟩
    · exact absurd hfree0 (hall ev0 hlt0)

/-- With no entry free the listening one is overwritten. -/
theorem initAccept_overwrites {io : Io} {cfd : Nat} (hcfd : io.accept = some cfd)
    (hall : ∀ ev < N, (s.myevents ev).fd ≠ 0) : ((initAccept N io s).myevents N).fd = cfd := by
  rcases freeEvent_cases N (s.accepted cfd) with ⟨hlt, hfree⟩ | ⟨he, -⟩
  · exact absurd hfree (hall _ hlt)
  · simp [initAccept, hcfd, eventadd, he]

/-! ## The dispatch loop -/

/-- What a callback on entry `ev` leaves alone: the other entries in use, and the
events that wait. -/
structure After (N : Nat) (s s' : Loop) (ev : Nat) : Prop where
  others : ∀ ev', ev' ≠ ev → (s.myevents ev').fd ≠ 0 ∨ ev' = N → (s'.myevents ev').fd = (s.myevents ev').fd
  pc : s'.pc = s.pc ∨ s'.pc = .exit
  handled : s'.handled = s.handled

theorem readData_after (io : Io) (fd ev : Nat) (s : Loop) : After N s (readData io fd ev s) ev := by
  rcases readData_cases io fd ev s with (⟨e, he⟩ | he) | he <;> rw [he] <;>
    exact ⟨fun ev' hne _ => by simp [hne], .inl rfl, rfl⟩

theorem initAccept_after {io : Io} (hroom : io.accept.isSome → ∃ ev < N, (s.myevents ev).fd = 0) :
    After N s (initAccept N io s) N := by
  unfold initAccept
  cases hcfd : io.accept with
  | none => exact ⟨fun _ _ _ => rfl, .inr rfl, rfl⟩
  | some cfd =>
    obtain ⟨ev0, hlt0, hfree0⟩ := hroom (by rw [hcfd]; rfl)
    rcases freeEvent_cases N (s.accepted cfd) with ⟨hlt, hfree⟩ | ⟨-, hall⟩
    · refine ⟨fun ev' hne huse => ?_, .inl rfl, rfl⟩
      have hev : ev' ≠ freeEvent N (s.accepted cfd) := by
        rintro rfl
        rcases huse with hne0 | he
        · exact hne0 hfree
        · exact hne he
      simp [eventadd, hev]
    · exact absurd hfree0 (hall ev0 hlt0)

theorem callBack_after (h : Table N lfd s) {e : Reg Nat} (hv : Valid N lfd s e) {io : Io} (hio : io.Possible s)
    (hroom : e.data = N → io.accept.isSome → ∃ ev < N, (s.myevents ev).fd = 0)
    (hs : callBack N io (s.myevents e.data).fd e.data s (s.myevents e.data).callBack = some s') :
    Table N lfd s' ∧ After N s s' e.data := by
  rcases hv.entry with ⟨hdata, -⟩ | ⟨hlt, -, hne⟩
  · obtain ⟨-, hcall, -⟩ := h.listening
    rw [hdata, hcall] at hs
    cases hs
    rw [hdata]
    exact ⟨initAccept_table h hio (hroom hdata), initAccept_after (hroom hdata)⟩
  · have hfd : (s.myevents e.data).fd ≠ 0 := hv.fd ▸ hne
    rcases h.armed e.data hlt hfd with hcall | hcall
    · rw [hcall] at hs
      cases hs
      exact ⟨readData_table h hlt hfd io, readData_after io _ _ s⟩
    · rw [hcall] at hs
      cases hs
      exact ⟨senddata_table h hlt hfd, fun ev' hne _ => by simp [senddata, eventset, hne], .inl rfl, rfl⟩

theorem Valid.data_ne {e e' : Reg Nat} (hv : Valid N lfd s e) (hv' : Valid N lfd s e') (hne : e.fd ≠ e'.fd) :
    e.data ≠ e'.data := by
  intro he
  rw [← hv.fd, ← hv'.fd, he] at hne
  exact hne rfl

theorem Valid.after {e : Reg Nat} (hv : Valid N lfd s e) (ha : After N s s' ev) (hne : e.data ≠ ev) :
    Valid N lfd s' e := by
  refine ⟨hv.entry, (ha.others e.data hne ?_).trans hv.fd⟩
  rcases hv.entry with ⟨hdata, -⟩ | ⟨-, -, hfd⟩
  · exact .inr hdata
  · exact .inl (hv.fd ▸ hfd)

theorem Rest.after {e : Reg Nat} {rest : List (Reg Nat)} (hr : Rest N lfd s rest) (hv : Valid N lfd s e)
    (hnew : e.fd ∉ rest.map Reg.fd) (ha : After N s s' e.data) : Rest N lfd s' rest := by
  refine ⟨fun e' he' => ?_, hr.nodup⟩
  have hne : e'.fd ≠ e.fd := fun hfd => hnew (List.mem_map.mpr ⟨e', he', hfd⟩)
  exact (hr.valid e' he').after ha ((hr.valid e' he').data_ne hv hne)

theorem Rest.congr {b : List (Reg Nat)} (h : Rest N lfd s b) (hm : s'.myevents = s.myevents) : Rest N lfd s' b :=
  ⟨fun e he => ⟨(h.valid e he).entry, hm ▸ (h.valid e he).fd⟩, h.nodup⟩

theorem events_next (b : List (Reg Nat)) : (LoopPc.next b).events = b := by
  cases b <;> rfl

/-- The record of an event of the listening descriptor. -/
theorem dispatched_cons (h : Table N lfd s) (hd : Dispatched lfd s) {e : Reg Nat} (hv : Valid N lfd s e)
    {call : Option (CallBack × Nat)}
    (hcall : (s.myevents e.data).events &&& e.events ≠ 0 →
      call = (s.myevents e.data).callBack.map fun f => (f, (s.myevents e.data).fd)) :
    ∀ x ∈ (⟨e.fd, e.events, call⟩ : Handled) :: s.handled, x.fd = lfd → x.events &&& EPOLLIN ≠ 0 →
      x.call = some (.initAccept, lfd) := by
  intro x hx hfd hbit
  rcases List.mem_cons.mp hx with rfl | hx
  · rcases hv.entry with ⟨hdata, -⟩ | ⟨-, hne, -⟩
    · obtain ⟨h1, h2, h3⟩ := h.listening
      rw [hdata, h1, h2, h3, Nat.and_comm] at hcall
      exact hcall hbit
    · exact absurd hfd hne
  · exact hd x hx hfd hbit

theorem handle_inv (h : Inv N lfd s) {e : Reg Nat} {rest : List (Reg Nat)} (hpc : s.pc = .event e rest) {io : Io}
    (hok : overfull N s (.handle io) = false) (hs : handle N io e { s with pc := .next rest } = some s') :
    Inv N lfd s' := by
  have hrest := h.rest
  rw [hpc] at hrest
  have hv : Valid N lfd s e := hrest.valid e (List.mem_cons_self ..)
  obtain ⟨hnew, hnodup⟩ := List.nodup_cons.mp hrest.nodup
  have hrest : Rest N lfd s rest := ⟨fun e' he' => hrest.valid e' (List.mem_cons_of_mem _ he'), hnodup⟩
  unfold handle at hs
  dsimp only at hs
  split at hs
  case isTrue hbit =>
    obtain ⟨hio, hs⟩ := Option.ite_none_right_eq_some.mp hs
    let s0 : Loop := { s with
      pc := .next rest
      handled := ⟨e.fd, e.events, (s.myevents e.data).callBack.map fun f => (f, (s.myevents e.data).fd)⟩ :: s.handled }
    have ht0 : Table N lfd s0 := h.table.congr rfl fun _ => ⟨rfl, rfl, rfl⟩
    have hv0 : Valid N lfd s0 e := ⟨hv.entry, hv.fd⟩
    have hroom : e.data = N → io.accept.isSome → ∃ ev < N, (s0.myevents ev).fd = 0 := by
      intro hdata hsome
      obtain ⟨-, hcall, -⟩ := hdata ▸ h.table.listening
      simpa [overfull, hpc, hbit, hcall, hsome] using hok
    obtain ⟨htable, hafter⟩ := callBack_after ht0 hv0 ⟨hio.accept, hio.read⟩ hroom hs
    have hrest0 : Rest N lfd s0 rest := hrest.congr rfl
    have hrest' : Rest N lfd s' rest := hrest0.after hv0 hnew hafter
    refine ⟨htable, ?_, ?_⟩
    · rcases hafter.pc with he | he
      · rw [he, events_next]
        exact hrest'
      · rw [he]
        exact ⟨fun _ hm => absurd hm List.not_mem_nil, List.nodup_nil⟩
    · intro x hx
      rw [hafter.handled] at hx
      exact dispatched_cons h.table h.dispatched hv (fun _ => rfl) x hx
  case isFalse hbit =>
    -- no bit of the event is one the entry waits for: no callback
    cases hs
    refine ⟨h.table.congr rfl fun _ => ⟨rfl, rfl, rfl⟩, ?_, ?_⟩
    · rw [events_next]
      exact hrest.congr rfl
    · exact dispatched_cons h.table h.dispatched hv fun hne => absurd hne hbit

theorem Table.reports (h : Table N lfd s) {b : List (Reg Nat)} (hb : s.gepfd.Reports b) : Rest N lfd s b := by
  refine ⟨fun e he => ?_, hb.2⟩
  obtain ⟨r, hr, hfd, hdata⟩ := hb.1 e he
  rcases (h.regs r).mp hr with rfl | ⟨ev, hlt, hne, rfl⟩
  · refine ⟨.inl ⟨hdata.symm, hfd.symm⟩, ?_⟩
    rw [← hdata, ← hfd]
    exact h.listening.1
  · obtain rfl : ev = e.data := hdata
    have hfd : (s.myevents e.data).fd = e.fd := hfd
    refine ⟨.inr ⟨hlt, ?_, hfd ▸ hne⟩, hfd⟩
    rw [← hfd]
    exact h.ne_lfd hlt hne

/-! ## The main loop -/

theorem inv_start : Inv N lfd (listening N lfd) := by
  have hopen : lfd ∈ (Kernel.empty.openFd lfd : Kernel Nat).opened := Kernel.mem_openFd_opened.mpr (.inl rfl)
  have hfresh : ∀ r ∈ (Kernel.empty.openFd lfd : Kernel Nat).set, r.fd ≠ lfd := fun r hr => absurd hr List.not_mem_nil
  obtain ⟨-, -, hadd⟩ := Kernel.ctl_add (r := ⟨lfd, N, EPOLLIN⟩) hopen hfresh
  have hfree (ev : Nat) (hlt : ev < N) : ((listening N lfd).myevents ev).fd = 0 := by
    simp [listening, eventadd, Nat.ne_of_lt hlt]
  refine ⟨⟨fun r => ?_, by simp [listening, eventadd], fun ev hlt hne => absurd (hfree ev hlt) hne⟩, ?_, ?_⟩
  · constructor
    · intro hr
      rcases (hadd r).mp hr with rfl | hr
      · exact .inl rfl
      · exact absurd hr List.not_mem_nil
    · rintro (rfl | ⟨ev, hlt, hne, -⟩)
      · exact (hadd _).mpr (.inl rfl)
      · exact absurd (hfree ev hlt) hne
  · exact ⟨fun e he => absurd he List.not_mem_nil, List.nodup_nil⟩
  · exact fun x hx => absurd hx List.not_mem_nil

theorem Inv.moved (h : Inv N lfd s) {pc : LoopPc} (hb : Rest N lfd s pc.events) : Inv N lfd { s with pc } :=
  ⟨h.table.congr rfl fun _ => ⟨rfl, rfl, rfl⟩, hb.congr rfl, h.dispatched⟩

theorem step_inv (h : Inv N lfd s) {a : ReactorAct} (hok : overfull N s a = false)
    (hs : reactorStep N s a = some s') : Inv N lfd s' := by
  cases a with
  | wait events =>
    simp only [reactorStep] at hs
    split at hs
    · cases hs
      exact h.moved ⟨fun e he => absurd he List.not_mem_nil, List.nodup_nil⟩
    · obtain ⟨⟨hb, -⟩, hs⟩ := Option.ite_none_right_eq_some.mp hs
      cases hs
      apply h.moved
      rw [events_next]
      exact h.table.reports hb
    · cases hs
  | handle io =>
    simp only [reactorStep] at hs
    split at hs
    · rename_i e rest hpc
      exact handle_inv h hpc hok hs
    · cases hs

theorem Inv.listening (h : Inv N lfd s) : Listening N lfd s := by
  refine ⟨h.table.listening, fun r hr hfd => ?_, h.dispatched⟩
  rcases (h.table.regs r).mp hr with rfl | ⟨ev, hlt, hne, rfl⟩
  · exact absurd rfl hfd
  · exact ⟨ev, hlt, rfl, fun ev' hlt' he => h.table.inj hlt hlt' hne he⟩

/-- The connection that comes one too many. -/
theorem overfull_step (h : Inv N lfd s) {a : ReactorAct} (hfull : overfull N s a = true)
    (hs : reactorStep N s a = some s') : ¬ Listening N lfd s' := by
  cases a with
  | wait events => cases hfull
  | handle io =>
    simp only [reactorStep] at hs
    split at hs
    · rename_i e rest hpc
      simp only [overfull, hpc, Bool.and_eq_true, decide_eq_true_eq, List.all_eq_true, List.mem_range] at hfull
      obtain ⟨⟨⟨hbit, hcall⟩, hsome⟩, hall⟩ := hfull
      obtain ⟨cfd, hcfd⟩ := Option.isSome_iff_exists.mp hsome
      simp only [handle, hcall, callBack] at hs
      rw [if_pos hbit] at hs
      obtain ⟨hio, hs⟩ := Option.ite_none_right_eq_some.mp hs
      cases hs
      intro hl
      have hfd : cfd = lfd := (initAccept_overwrites hcfd (by exact hall)).symm.trans hl.entry.1
      have hnew := (hio.accept cfd hcfd).1
      rw [hfd] at hnew
      exact hnew (s.gepfd.isOpen _ h.table.lfd_mem)
    · cases hs

/-- A run keeps the listening entry, in every state of it, if and only if `initAccept`
never takes a connection with all entries in use. -/
theorem listening_iff {as : List ReactorAct} (hrun : Lts.run (reactorStep N) as (listening N lfd) = some s) :
    Lts.Always (reactorStep N) (Listening N lfd) as (listening N lfd) ↔
      Lts.Along (reactorStep N) (fun s a => overfull N s a = false) as (listening N lfd) := by
  apply Lts.always_iff_along _ _ _ hrun inv_start
  · exact fun s h => h.listening
  · exact fun s a s' h hok hs => step_inv h hok hs
  · exact fun s a s' h hfull hs => overfull_step h (by simpa using hfull) hs

/-! ## The full table -/

/-- With the entries before `k` in use, a connection takes entry `k`. -/
theorem freeEvent_first {k : Nat} (hk : k < N) (hfree : (s.myevents k).fd = 0)
    (hall : ∀ ev < k, (s.myevents ev).fd ≠ 0) : freeEvent N s = k := by
  have hfind : (List.range N).find? (fun i => (s.myevents i).fd = 0) = some k := by
    rw [List.find?_range_eq_some]
    refine ⟨by simp [hfree], List.mem_range.mpr hk, fun j hj => ?_⟩
    simp [hall j hj]
  rw [freeEvent, hfind]
  rfl

/-- A client that connects while the loop waits takes an entry, or the listening one. -/
theorem connect_reach (h : Inv N lfd s) (hpc : s.pc = .wait) : ∃ s', Lts.Reach (reactorStep N) s s' ∧
    (Inv N lfd s' ∧ s'.pc = .wait ∧ freeEvent N s < N ∧ (s'.myevents (freeEvent N s)).fd ≠ 0 ∧
        (∀ ev, (s.myevents ev).fd ≠ 0 → (s'.myevents ev).fd ≠ 0) ∨
      ¬ Listening N lfd s') := by
  obtain ⟨cfd, hne, hnew⟩ := s.gepfd.exists_new
  obtain ⟨hfd, hcall, hevents⟩ := h.table.listening
  let io : Io := { accept := some cfd }
  let s0 : Loop := { s with pc := .event ⟨lfd, N, EPOLLIN⟩ [] }
  let s1 : Loop := { s with pc := .wait, handled := ⟨lfd, EPOLLIN, some (.initAccept, lfd)⟩ :: s.handled }
  have hwait : reactorStep N s (.wait (some [⟨lfd, N, EPOLLIN⟩])) = some s0 := by
    simp only [reactorStep, hpc]
    refine if_pos ⟨⟨fun e he => ⟨⟨lfd, N, EPOLLIN⟩, h.table.lfd_mem, ?_⟩, by simp⟩, by simp⟩
    rw [List.mem_singleton.mp he]
    exact ⟨rfl, rfl⟩
  have hio : io.Possible { s with pc := .wait } := by
    refine ⟨fun cfd' he => ?_, fun bytes he => by cases he⟩
    cases he
    exact ⟨hnew, hne⟩
  have hbit : (s.myevents N).events &&& EPOLLIN ≠ 0 := by
    rw [hevents]
    decide
  have hhandle : reactorStep N s0 (.handle io) = some (initAccept N io s1) := by
    simp only [reactorStep, handle, s0]
    rw [if_pos hbit, hcall, hfd]
    exact if_pos hio
  have hall : overfull N s0 (.handle io) = (List.range N).all fun ev => (s.myevents ev).fd ≠ 0 := by
    simp [overfull, s0, io, hbit, hcall]
  have h0 : Inv N lfd s0 := step_inv h rfl hwait
  have hfds (ev : Nat) : ((initAccept N io s1).myevents ev).fd = if ev = freeEvent N s then cfd else (s.myevents ev).fd := by
    change ((eventadd (s1.accepted cfd) cfd EPOLLIN .readData (freeEvent N s)).myevents ev).fd = _
    simp only [eventadd, Loop.ctl_myevents, Loop.setEv_myevents]
    split <;> rfl
  refine ⟨initAccept N io s1, ((Lts.Reach.refl s).tail hwait).tail hhandle, ?_⟩
  rcases freeEvent_cases N s with ⟨hlt, hfree⟩ | ⟨-, hused⟩
  · left
    have hok : overfull N s0 (.handle io) = false := by
      rw [hall, List.all_eq_false]
      exact ⟨_, List.mem_range.mpr hlt, by simp [hfree]⟩
    refine ⟨step_inv h0 hok hhandle, rfl, hlt, ?_, fun ev hev => ?_⟩
    · rw [hfds, if_pos rfl]
      exact hne
    · rw [hfds]
      split
      · exact hne
      · exact hev
  · -- no entry is free, and the client is written over the listening one
    right
    refine overfull_step h0 ?_ hhandle
    rw [hall, List.all_eq_true]
    exact fun ev hev => decide_eq_true (hused ev (List.mem_range.mp hev))

/-- However many entries there are, clients that connect and stay displace the
listening one. -/
theorem listening_lost (N lfd : Nat) : ∃ s, Lts.Reach (reactorStep N) (listening N lfd) s ∧ ¬ Listening N lfd s := by
  have hfill (k : Nat) (hk : k ≤ N) : (∃ s, Lts.Reach (reactorStep N) (listening N lfd) s ∧ ¬ Listening N lfd s) ∨
      ∃ s, Lts.Reach (reactorStep N) (listening N lfd) s ∧ Inv N lfd s ∧ s.pc = .wait ∧
        ∀ ev < k, (s.myevents ev).fd ≠ 0 := by
    induction k with
    | zero => exact .inr ⟨_, .refl _, inv_start, rfl, fun ev hlt => absurd hlt (Nat.not_lt_zero ev)⟩
    | succ k ih =>
      rcases ih (Nat.le_of_succ_le hk) with hlost | ⟨s, hr, hinv, hpc, hall⟩
      · exact .inl hlost
      · obtain ⟨s', hr', ⟨hinv', hpc', -, hnew, hold⟩ | hlost⟩ := connect_reach hinv hpc
        · refine .inr ⟨s', hr.trans hr', hinv', hpc', fun ev hlt => ?_⟩
          by_cases hfree : (s.myevents k).fd = 0 ∧ ev = k
          · rw [freeEvent_first hk hfree.1 hall] at hnew
            exact hfree.2 ▸ hnew
          · -- entries before `k` stay taken
            apply hold
            rcases Nat.lt_succ_iff_lt_or_eq.mp hlt with hlt | rfl
            · exact hall ev hlt
            · exact fun h0 => hfree ⟨h0, rfl⟩
        · exact .inl ⟨s', hr.trans hr', hlost⟩
  rcases hfill N (Nat.le_refl N) with hlost | ⟨s, hr, hinv, hpc, hall⟩
  · exact hlost
  · obtain ⟨s', hr', ⟨-, -, hlt, -, -⟩ | hlost⟩ := connect_reach hinv hpc
    · rcases freeEvent_cases N s with ⟨_, hfree⟩ | ⟨he, -⟩
      · exact absurd hfree (hall _ hlt)
      · exact absurd he (Nat.ne_of_lt hlt)
    · exact ⟨s', hr.trans hr', hlost⟩

end

/-- Two clients of a table with one entry; the first one leaves before the second one
comes. -/
def clientRun : List ReactorAct :=
  [.wait (some [⟨3, 1, EPOLLIN⟩]), .handle { accept := some 4 }, .wait (some [⟨4, 0, EPOLLIN⟩]),
    .handle { read := some [] }, .wait (some [⟨3, 1, EPOLLIN⟩]), .handle { accept := some 5 }]

theorem listening_iff_single : Lts.Always (reactorStep 1) (Listening 1 3) clientRun (listening 1 3) := by
  have hsome : (Lts.run (reactorStep 1) clientRun (listening 1 3)).isSome = true := by decide +kernel
  obtain ⟨s, hrun⟩ := Option.isSome_iff_exists.mp hsome
  exact (listening_iff hrun).mpr (by decide +kernel)

/-- As many clients at once as the source has entries, and one more. -/
theorem listening_overwritten : ∃ s : Loop, Lts.Reach (reactorStep 1024) (listening 1024 3) s ∧ ¬ Listening 1024 3 s :=
  listening_lost 1024 3

end CSocket.Reactor
