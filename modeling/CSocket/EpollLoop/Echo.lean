import CSocket.EpollLoop.Table
/-!
# The echo

What `send` accepts on a connection is what `recv` returned from it, unless a
`send` takes less than it was asked to: `senddata` then goes back to reading and
forgets the rest. `echo_iff`: a run is a faithful echo just when no `send` in it
does that.
-/
namespace CSocket.EpollLoop
open Epoll

/-! ## The property and the condition -/

/-- The bytes sent are a prefix of those received, and all of them whenever the
connection waits for reading. -/
structure Echo (MAX_EVENTS : Nat) (s : Loop) : Prop where
  sent_prefix : ∀ fd, s.sent fd <+: s.received fd
  drained : ∀ ev < MAX_EVENTS, (s.gEvents ev).status = 1 → (s.gEvents ev).events = EPOLLIN →
    (s.gEvents ev).callBack = some .recvdata → s.sent (s.gEvents ev).fd = s.received (s.gEvents ev).fd

/-- The action makes `senddata` send some, but not all, of the slot's bytes. -/
def shortSend (s : Loop) : LoopAct → Bool
  | .test io => match s.pc with
    | .writable e _ =>
      e.events &&& EPOLLOUT ≠ 0 && (s.gEvents e.data).events &&& EPOLLOUT ≠ 0 &&
        (s.gEvents e.data).callBack = some .senddata && 0 < io.send && io.send < (s.gEvents e.data).len
    | _ => false
  | _ => false

/-! ## The invariant -/

/-- What the slot has received and not sent. -/
def MyeventS.pending (e : MyeventS) : List UInt8 := if e.events = EPOLLOUT then e.buf.take e.len.toNat else []

/-- `len` is the number of bytes that wait to be sent. -/
def MyeventS.Full (e : MyeventS) : Prop := e.events = EPOLLOUT → (e.buf.take e.len.toNat).length = e.len

structure Echoes (MAX_EVENTS : Nat) (s : Loop) : Prop where
  sent_prefix : ∀ fd, s.sent fd <+: s.received fd
  pending : ∀ ev < MAX_EVENTS, (s.gEvents ev).status = 1 →
    s.received (s.gEvents ev).fd = s.sent (s.gEvents ev).fd ++ (s.gEvents ev).pending
  full : ∀ ev < MAX_EVENTS, (s.gEvents ev).status = 1 → (s.gEvents ev).Full

section
variable {MAX_EVENTS lfd : Nat} {s s' : Loop} {ev : Nat}

theorem Echoes.drained (h : Echoes MAX_EVENTS s) (hlt : ev < MAX_EVENTS) (hst : (s.gEvents ev).status = 1)
    (hev : (s.gEvents ev).events = EPOLLIN) : s.received (s.gEvents ev).fd = s.sent (s.gEvents ev).fd := by
  rw [h.pending ev hlt hst, MyeventS.pending, if_neg (by rw [hev]; decide), List.append_nil]

theorem Echoes.echo (h : Echoes MAX_EVENTS s) : Echo MAX_EVENTS s :=
  ⟨h.sent_prefix, fun _ hlt hst hev _ => (h.drained hlt hst hev).symm⟩

/-- A connection's slot and its streams change. -/
theorem Echoes.put (h : Echoes MAX_EVENTS s) (ev fd : Nat)
    (hother : ∀ ev', ev' ≠ ev → (s'.gEvents ev').status = 1 →
      s'.gEvents ev' = s.gEvents ev' ∧ (ev' < MAX_EVENTS → (s.gEvents ev').fd ≠ fd))
    (hstream : ∀ fd', fd' ≠ fd → s'.sent fd' = s.sent fd' ∧ s'.received fd' = s.received fd')
    (hpre : s'.sent fd <+: s'.received fd)
    (hslot : (s'.gEvents ev).status = 1 → (s'.gEvents ev).fd = fd ∧
      s'.received fd = s'.sent fd ++ (s'.gEvents ev).pending ∧ (s'.gEvents ev).Full) : Echoes MAX_EVENTS s' := by
  constructor
  · intro fd'
    by_cases hfd : fd' = fd
    · exact hfd ▸ hpre
    · rw [(hstream fd' hfd).1, (hstream fd' hfd).2]
      exact h.sent_prefix fd'
  · intro ev' hlt hst
    by_cases hev : ev' = ev
    · subst hev
      obtain ⟨hfd, hpending, -⟩ := hslot hst
      rw [hfd]
      exact hpending
    · -- another slot in use is another descriptor's, whose streams stay
      obtain ⟨hsame, hfd⟩ := hother ev' hev hst
      rw [hsame] at hst ⊢
      rw [(hstream _ (hfd hlt)).1, (hstream _ (hfd hlt)).2]
      exact h.pending ev' hlt hst
  · intro ev' hlt hst
    by_cases hev : ev' = ev
    · subst hev
      exact (hslot hst).2.2
    · obtain ⟨hsame, -⟩ := hother ev' hev hst
      rw [hsame] at hst ⊢
      exact h.full ev' hlt hst

/-- A slot goes out of use, and the streams stay. -/
theorem Echoes.vacate (h : Echoes MAX_EVENTS s) (ev : Nat)
    (hother : ∀ ev', ev' ≠ ev → s'.gEvents ev' = s.gEvents ev')
    (hslot : (s'.gEvents ev).status = 0) (hsent : s'.sent = s.sent) (hreceived : s'.received = s.received) :
    Echoes MAX_EVENTS s' := by
  have hne {ev' : Nat} (hst : (s'.gEvents ev').status = 1) : ev' ≠ ev := by
    rintro rfl
    rw [hslot] at hst
    cases hst
  constructor
  · rw [hsent, hreceived]
    exact h.sent_prefix
  · intro ev' hlt hst
    have hsame := hother ev' (hne hst)
    rw [hsame] at hst ⊢
    rw [hsent, hreceived]
    exact h.pending ev' hlt hst
  · intro ev' hlt hst
    have hsame := hother ev' (hne hst)
    rw [hsame] at hst ⊢
    exact h.full ev' hlt hst

/-! ## The callbacks -/

theorem take_set_le {l : List UInt8} {n : Nat} (b : UInt8) : (l.set n b).take n = l.take n := by
  rw [List.take_set_of_le (Nat.le_refl n)]

/-- What `recv` stored is what waits, the terminator notwithstanding. -/
theorem filled_bytes (e : MyeventS) {bytes : List UInt8} (hle : bytes.length ≤ BUFLEN) :
    (e.filled bytes).len = bytes.length ∧ (e.filled bytes).buf.take bytes.length = bytes := by
  unfold MyeventS.filled terminate
  split
  · refine ⟨rfl, ?_⟩
    rw [take_set_le]
    simp
  case isFalse hlt =>
    have hlen : bytes.length = 4096 := Nat.le_antisymm hle (Nat.not_lt.mp hlt)
    refine ⟨?_, by simp⟩
    show (bytes.length : Int) - bytes.length % 256 = bytes.length
    rw [hlen]
    rfl

theorem recvdata_echoes (ht : Table MAX_EVENTS lfd s) (h : Echoes MAX_EVENTS s) (hlt : ev < MAX_EVENTS)
    (hst : (s.gEvents ev).status = 1) (hev : (s.gEvents ev).events = EPOLLIN) {io : Io}
    (hio : ∀ bytes ∈ io.recv, bytes.length ≤ BUFLEN) : Echoes MAX_EVENTS (recvdata io (s.gEvents ev).fd ev s) := by
  by_cases hclosed : ∀ bytes ∈ io.recv, bytes = []
  · rw [recvdata_closed _ hst hclosed]
    exact h.vacate ev (fun ev' hne => by simp [hne]) (by simp) rfl rfl
  · obtain ⟨bytes, hrecv, hne⟩ : ∃ bytes, io.recv = some bytes ∧ bytes ≠ [] := by
      simpa using hclosed
    obtain ⟨hlen, hbuf⟩ := filled_bytes (s.gEvents ev) (hio bytes (by simp [hrecv]))
    rw [recvdata_pos _ hst hrecv (List.length_pos_iff.mpr hne)]
    refine h.put ev (s.gEvents ev).fd (fun ev' hne hst' => ?_) (fun fd' hne => ?_) ?_ (fun _ => ⟨by simp, ?_, ?_⟩)
    · simp only [Loop.ctl_gEvents, Loop.setEv_gEvents, hne, if_false] at hst' ⊢
      refine ⟨trivial, fun hlt' hfd => hne (ht.inj (Nat.le_of_lt hlt') (Nat.le_of_lt hlt) hst' hst hfd)⟩
    · simp [Loop.ctl, Loop.setEv, hne]
    · simp only [Loop.ctl, Loop.setEv, if_true]
      rw [h.drained hlt hst hev]
      exact List.prefix_append _ _
    · simp only [Loop.ctl, Loop.setEv, if_true, MyeventS.pending, hlen, Int.toNat_natCast, hbuf]
      rw [h.drained hlt hst hev]
    · intro _
      simp only [Loop.ctl, Loop.setEv, if_true, hlen, Int.toNat_natCast, hbuf]

/-- The bytes that wait are sent as far as `send` takes them. -/
theorem senddata_echoes (ht : Table MAX_EVENTS lfd s) (h : Echoes MAX_EVENTS s) (hlt : ev < MAX_EVENTS)
    (hst : (s.gEvents ev).status = 1) (hev : (s.gEvents ev).events = EPOLLOUT) {io : Io}
    (hio : 0 < io.send → io.send = (s.gEvents ev).len) :
    Echoes MAX_EVENTS (senddata io (s.gEvents ev).fd ev s) := by
  by_cases hpos : 0 < io.send
  · have hfull := h.full ev hlt hst hev
    -- `send` takes all that waits, so the slot has nothing left
    have hall : ((s.gEvents ev).buf.take (s.gEvents ev).len.toNat).take io.send.toNat =
        (s.gEvents ev).buf.take (s.gEvents ev).len.toNat := by
      rw [hio hpos]
      exact List.take_of_length_le (by omega)
    have hpending := h.pending ev hlt hst
    rw [MyeventS.pending, if_pos hev] at hpending
    rw [senddata_pos _ hst hpos, hall]
    refine h.put ev (s.gEvents ev).fd (fun ev' hne hst' => ?_) (fun fd' hne => ?_) ?_ (fun _ => ⟨by simp, ?_, ?_⟩)
    · simp only [Loop.ctl_gEvents, Loop.setEv_gEvents, hne, if_false] at hst' ⊢
      refine ⟨trivial, fun hlt' hfd => hne (ht.inj (Nat.le_of_lt hlt') (Nat.le_of_lt hlt) hst' hst hfd)⟩
    · simp [Loop.ctl, Loop.setEv, hne]
    · simp only [Loop.ctl, Loop.setEv, if_true]
      refine ⟨[], ?_⟩
      rw [List.append_nil, hpending]
    · simp only [Loop.ctl, Loop.setEv, if_true, MyeventS.pending]
      rw [hpending, if_neg (by decide), List.append_nil]
    · intro hout
      simp [EPOLLIN, EPOLLOUT] at hout
  · rw [senddata_closed _ hst hpos]
    exact h.vacate ev (fun ev' hne => by simp [hne]) (by simp) rfl rfl

/-- A short send leaves bytes behind in a slot that waits for reading. -/
theorem senddata_short (h : Echoes MAX_EVENTS s) (hlt : ev < MAX_EVENTS) (hst : (s.gEvents ev).status = 1)
    (hev : (s.gEvents ev).events = EPOLLOUT) {io : Io} (hpos : 0 < io.send) (hshort : io.send < (s.gEvents ev).len) :
    ¬ Echo MAX_EVENTS (senddata io (s.gEvents ev).fd ev s) := by
  intro hecho
  have hfull := h.full ev hlt hst hev
  have hpending := h.pending ev hlt hst
  rw [MyeventS.pending, if_pos hev] at hpending
  rw [senddata_pos _ hst hpos] at hecho
  have hdrained := hecho.drained ev hlt
  simp only [Loop.ctl, Loop.setEv, if_true] at hdrained
  have heq := hdrained trivial trivial trivial
  rw [hpending, List.append_cancel_left_eq] at heq
  have hlen := congrArg List.length heq
  rw [List.length_take] at hlen
  omega

/-- The streams of a new connection are empty. -/
theorem Echoes.accepted (h : Echoes MAX_EVENTS s) {cfd : Nat}
    (hnew : ∀ ev < MAX_EVENTS, (s.gEvents ev).status = 1 → (s.gEvents ev).fd ≠ cfd) :
    Echoes MAX_EVENTS (s.accepted cfd) := by
  constructor
  · intro fd
    by_cases hfd : fd = cfd
    · simp [Loop.accepted, hfd]
    · simpa [Loop.accepted, hfd] using h.sent_prefix fd
  · intro ev hlt hst
    have hne := hnew ev hlt hst
    simpa [Loop.accepted, hne] using h.pending ev hlt hst
  · exact h.full

theorem acceptconn_echoes (ht : Table MAX_EVENTS lfd s) (h : Echoes MAX_EVENTS s) {io : Io}
    (hio : ∀ cfd ∈ io.accept, cfd ∉ s.efd.opened) : Echoes MAX_EVENTS (acceptconn MAX_EVENTS io s) := by
  rcases acceptconn_cases MAX_EVENTS io s with ⟨he, -⟩ | ⟨cfd, hcfd, hcases⟩
  · rw [he]
    exact h
  · have hnew (ev' : Nat) (hlt : ev' < MAX_EVENTS) (hst : (s.gEvents ev').status = 1) : (s.gEvents ev').fd ≠ cfd := by
      rintro rfl
      exact hio _ (by simp [hcfd]) (ht.isOpen (Nat.le_of_lt hlt) hst)
    have haccepted := h.accepted hnew
    rcases hcases with ⟨he, -⟩ | ⟨i, hlt, hst, -, he⟩
    · rw [he]
      exact haccepted
    · rw [he]
      refine haccepted.put i cfd (fun ev' hne hst' => ?_) (fun fd' hne => ⟨rfl, rfl⟩) ?_ (fun _ => ⟨by simp, ?_, ?_⟩)
      · simp only [Loop.ctl_gEvents, Loop.setEv_gEvents, hne, if_false] at hst' ⊢
        exact ⟨trivial, fun hlt' => hnew ev' hlt' hst'⟩
      · simp [Loop.ctl, Loop.setEv, Loop.accepted]
      · simp [Loop.ctl, Loop.setEv, Loop.accepted, MyeventS.pending, EPOLLIN, EPOLLOUT]
      · intro hout
        simp [EPOLLIN, EPOLLOUT] at hout

/-! ## The loop -/

theorem Echoes.congr (h : Echoes MAX_EVENTS s) (hg : s'.gEvents = s.gEvents) (hsent : s'.sent = s.sent)
    (hreceived : s'.received = s.received) : Echoes MAX_EVENTS s' := by
  constructor
  · rw [hsent, hreceived]
    exact h.sent_prefix
  · rw [hg, hsent, hreceived]
    exact h.pending
  · rw [hg]
    exact h.full

theorem check_echoes (h : Echoes MAX_EVENTS s) (now : Int) : Echoes MAX_EVENTS (check MAX_EVENTS now s) := by
  simp only [check]
  split
  · exact h.congr rfl rfl rfl
  case isFalse hst =>
    split
    · rw [eventdel_eq (by simpa using hst)]
      exact h.vacate (s.pos MAX_EVENTS) (fun ev' hne => by simp [hne]) (by simp) rfl rfl
    · exact h.congr rfl rfl rfl

theorem sweep_echoes (n : Nat) (h : Echoes MAX_EVENTS s) (now : Int) : Echoes MAX_EVENTS (sweep MAX_EVENTS now n s) := by
  induction n generalizing s with
  | zero => exact h
  | succ n ih => exact ih (check_echoes h now)

theorem callBack_echoes (ht : Table MAX_EVENTS lfd s) (h : Echoes MAX_EVENTS s) {e : Reg Nat}
    (hv : Valid MAX_EVENTS s e) {io : Io} (hio : io.Possible s e.data)
    (hwhole : (s.gEvents e.data).events = EPOLLOUT → 0 < io.send → io.send = (s.gEvents e.data).len)
    (hs : callBack MAX_EVENTS io e s = some s') : Echoes MAX_EVENTS s' := by
  have ht1 : Table MAX_EVENTS lfd (s.called e) := ht.congr rfl rfl rfl
  have h1 : Echoes MAX_EVENTS (s.called e) := h.congr rfl rfl rfl
  rcases callBack_cases ht hv io with ⟨-, -, hcb⟩ | ⟨hlt, hev, hcb⟩ | ⟨hlt, hev, hcb⟩
  · obtain rfl := Option.some.inj (hs.symm.trans hcb)
    exact acceptconn_echoes ht1 h1 hio.accept
  · obtain rfl := Option.some.inj (hs.symm.trans hcb)
    exact recvdata_echoes ht1 h1 hlt hv.status hev hio.recv
  · obtain rfl := Option.some.inj (hs.symm.trans hcb)
    exact senddata_echoes ht1 h1 hlt hv.status hev (hwhole hev)

/-- What a run carries that is a faithful echo so far. -/
structure Faithful (MAX_EVENTS lfd : Nat) (s : Loop) : Prop where
  inv : Inv MAX_EVENTS lfd s
  echoes : Echoes MAX_EVENTS s

theorem faithful_start (time : Int) : Faithful MAX_EVENTS lfd (initlistensocket MAX_EVENTS lfd time) := by
  have hfree (ev : Nat) (hlt : ev < MAX_EVENTS) :
      ((initlistensocket MAX_EVENTS lfd time).gEvents ev).status = 0 := by
    unfold initlistensocket
    rw [eventadd_eventset]
    simp [Nat.ne_of_lt hlt]
  refine ⟨inv_start time, ?_, fun ev hlt hst => ?_, fun ev hlt hst => ?_⟩
  · unfold initlistensocket
    rw [eventadd_eventset]
    exact fun fd => List.prefix_refl []
  · rw [hfree ev hlt] at hst
    cases hst
  · rw [hfree ev hlt] at hst
    cases hst

/-- A step that is not a short send keeps the echo faithful. -/
theorem faithful_step (hpos : 1 ≤ MAX_EVENTS) (h : Faithful MAX_EVENTS lfd s) {a : LoopAct}
    (hwhole : shortSend s a = false) (hs : loopStep MAX_EVENTS s a = some s') : Faithful MAX_EVENTS lfd s' := by
  refine ⟨loopStep_inv hpos h.inv hs, ?_⟩
  have hpending := h.inv.pending
  cases loopStep_cases hs with
  | sweep now s1 hs1 he =>
    subst he
    have hechoes := sweep_echoes 100 h.echoes now
    rw [hs1] at hechoes
    exact hechoes.congr rfl rfl rfl
  | exit he | batch b _ he =>
    subst he
    exact h.echoes.congr rfl rfl rfl
  | readable io e rest hpc htest =>
    rw [hpc] at hpending
    have hv : Valid MAX_EVENTS s e := hpending.valid e (List.mem_cons_self ..)
    rcases test_cases htest with ⟨-, rfl⟩ | ⟨-, hin, hio, s1, hs1, rfl⟩
    · exact h.echoes.congr rfl rfl rfl
    · refine (callBack_echoes h.inv.table h.echoes hv hio (fun hout => ?_) hs1).congr rfl rfl rfl
      rw [hout] at hin
      exact absurd rfl hin
  | writable io e rest hpc htest =>
    rw [hpc] at hpending
    obtain ⟨-, -, hslot⟩ := hpending
    rcases test_cases htest with ⟨-, rfl⟩ | ⟨hbit, hout, hio, s1, hs1, rfl⟩
    · exact h.echoes.congr rfl rfl rfl
    · have hv := hslot.resolve_right hout
      refine (callBack_echoes h.inv.table h.echoes hv hio (fun hev hsend => ?_) hs1).congr rfl rfl rfl
      rcases callBack_cases h.inv.table hv io with ⟨-, hev', -⟩ | ⟨-, hev', -⟩ | ⟨hlt, -, -⟩
      · rw [hev'] at hev
        cases hev
      · rw [hev'] at hev
        cases hev
      · -- the send was not short, so it was whole
        have hcb := (h.inv.table.armed e.data hlt hv.status).kind.resolve_left fun h => by
          rw [hev] at h
          cases h.1
        have hno : ¬ io.send < (s.gEvents e.data).len := by
          simpa [shortSend, hpc, hbit, hout, hcb.2, hsend] using hwhole
        exact Int.le_antisymm hio.send (Int.not_lt.mp hno)

/-- A short send ends the echo. -/
theorem short_step (h : Faithful MAX_EVENTS lfd s) {a : LoopAct} (hshort : shortSend s a = true)
    (hs : loopStep MAX_EVENTS s a = some s') : ¬ Echo MAX_EVENTS s' := by
  have hpending := h.inv.pending
  cases loopStep_cases hs with
  | readable io e rest hpc htest => simp [shortSend, hpc] at hshort
  | writable io e rest hpc htest =>
    rw [hpc] at hpending
    obtain ⟨-, -, hslot⟩ := hpending
    simp only [shortSend, hpc, Bool.and_eq_true, decide_eq_true_eq] at hshort
    obtain ⟨⟨⟨⟨hbit, hout⟩, hcb⟩, hsend⟩, hlen⟩ := hshort
    have hv := hslot.resolve_right hout
    rcases test_cases htest with ⟨hno, -⟩ | ⟨-, -, hio, s1, hs1, rfl⟩
    · exact absurd ⟨hbit, hout⟩ hno
    · rcases callBack_cases h.inv.table hv io with ⟨-, hev, -⟩ | ⟨-, hev, -⟩ | ⟨hlt, hev, hcall⟩
      · rw [hev] at hout
        exact absurd rfl hout
      · rw [hev] at hout
        exact absurd rfl hout
      · obtain rfl := Option.some.inj (hs1.symm.trans hcall)
        have h1 : Echoes MAX_EVENTS (s.called e) := h.echoes.congr rfl rfl rfl
        intro hecho
        exact senddata_short h1 hlt hv.status hev hsend hlen ⟨hecho.sent_prefix, hecho.drained⟩
  | _ => cases hshort

/-- A run of the main loop echoes faithfully, in every state of it, if and only if
no `send` in it takes some but not all of the bytes it is given. -/
theorem echo_iff (hpos : 1 ≤ MAX_EVENTS) {time : Int} {as : List LoopAct}
    (hrun : Lts.run (loopStep MAX_EVENTS) as (initlistensocket MAX_EVENTS lfd time) = some s) :
    Lts.Always (loopStep MAX_EVENTS) (Echo MAX_EVENTS) as (initlistensocket MAX_EVENTS lfd time) ↔
      Lts.Along (loopStep MAX_EVENTS) (fun s a => shortSend s a = false) as (initlistensocket MAX_EVENTS lfd time) := by
  apply Lts.always_iff_along (I := Faithful MAX_EVENTS lfd) _ _ _ hrun (faithful_start time)
  · exact fun s h => h.echoes.echo
  · exact fun s a s' h hwhole hs => faithful_step hpos h hwhole hs
  · exact fun s a s' h hshort hs => short_step h (by simpa using hshort) hs

end

/-- A client connects, sends `hi`, and `send` takes `n` bytes of it. -/
def echoRun (n : Int) : List LoopAct :=
  [.sweep 0, .wait (some [⟨3, 1024, EPOLLIN⟩]), .test { accept := some 4 }, .test {}, .sweep 1,
    .wait (some [⟨4, 0, EPOLLIN⟩]), .test { recv := some [104, 105] }, .test {}, .sweep 2,
    .wait (some [⟨4, 0, EPOLLOUT⟩]), .test {}, .test { send := n }]

theorem echo_iff_whole :
    Lts.Always (loopStep 1024) (Echo 1024) (echoRun 2) (initlistensocket 1024 3 0) := by
  have hsome : (Lts.run (loopStep 1024) (echoRun 2) (initlistensocket 1024 3 0)).isSome = true := by decide +kernel
  obtain ⟨s, hrun⟩ := Option.isSome_iff_exists.mp hsome
  exact (echo_iff (by decide) hrun).mpr (by decide +kernel)

/-- `send` takes one of the two bytes, and the other one is lost. -/
theorem echo_loses : ∃ s : Loop, Lts.Reach (loopStep 1024) (initlistensocket 1024 3 0) s ∧
    s.received 4 = [104, 105] ∧ s.sent 4 = [104] ∧ ¬ Echo 1024 s := by
  obtain ⟨s, hr, hs⟩ := Lts.Reach.of_run (loopStep 1024) (initlistensocket 1024 3 0) (fun s =>
      s.received 4 = [104, 105] && s.sent 4 = [104] && (s.gEvents 0).fd = 4 && (s.gEvents 0).status = 1 &&
        (s.gEvents 0).events = EPOLLIN && (s.gEvents 0).callBack = some .recvdata) (echoRun 1) (by decide +kernel)
  simp only [Bool.and_eq_true, decide_eq_true_eq] at hs
  obtain ⟨⟨⟨⟨⟨hreceived, hsent⟩, hfd⟩, hst⟩, hev⟩, hcb⟩ := hs
  refine ⟨s, hr, hreceived, hsent, fun hecho => ?_⟩
  have hdrained := hecho.drained 0 (by decide) hst hev hcb
  rw [hfd, hreceived, hsent] at hdrained
  cases hdrained

end CSocket.EpollLoop
