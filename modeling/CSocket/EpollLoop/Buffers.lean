import CSocket.EpollLoop.Echo
import CSocket.EpollLoop.Sweep
/-!
# The slots' buffers

`Log` has what `recv` returned last for each slot, and the indices of `ev->buf` that
`recvdata` wrote. A slot that waits for writing holds just what was received (`Out`),
whatever became of it before; but a `recv` that fills the buffer has its terminator
written behind the end.
-/
namespace CSocket.EpollLoop
open Epoll

/-! ## The log -/

/-- The slot and the bytes of a `recv` that did not fail, where the callback is `recvdata`. -/
def recvOf (io : Io) (e : MyeventS) : Option (Nat × List UInt8) :=
  match e.callBack, e.arg, io.recv with
  | some .recvdata, some ev, some bytes => some (ev, bytes)
  | _, _, _ => none

/-- The same for one test of the dispatch loop. -/
def recvTest (bit : Nat) (io : Io) (e : Reg Nat) (s : Loop) : Option (Nat × List UInt8) :=
  if e.events &&& bit ≠ 0 ∧ (s.gEvents e.data).events &&& bit ≠ 0 then recvOf io (s.gEvents e.data) else none

def recvCall (s : Loop) : LoopAct → Option (Nat × List UInt8)
  | .test io => match s.pc with
    | .readable e _ => recvTest EPOLLIN io e s
    | .writable e _ => recvTest EPOLLOUT io e s
    | _ => none
  | _ => none

/-- The indices of `ev->buf` that `recvdata` writes: the bytes, and the terminator if there
are any. -/
def indices (bytes : List UInt8) : List Nat :=
  List.range bytes.length ++ if bytes.length > 0 then [bytes.length] else []

structure Log where
  loop : Loop
  lastRecv : Nat → List UInt8 := fun _ => []
  written : List Nat := []

def Log.note (l : Log) : Option (Nat × List UInt8) → Log
  | none => l
  | some (ev, bytes) =>
    { l with
      lastRecv := fun ev' => if ev' = ev then bytes else l.lastRecv ev'
      written := l.written ++ indices bytes }

section
variable (MAX_EVENTS : Nat)

/-- The main loop's step, logged. -/
def logStep (l : Log) (a : LoopAct) : Option Log :=
  (loopStep MAX_EVENTS l.loop a).map fun s => { l.note (recvCall l.loop a) with loop := s }

/-! ## The property and the condition -/

/-- The slot holds these bytes and nothing else, and they fit. -/
structure Holds (e : MyeventS) (bytes : List UInt8) : Prop where
  pos : 0 < e.len
  le : e.len ≤ BUFLEN
  len : e.len = bytes.length
  buf : e.buf.take e.len.toNat = bytes

/-- What waits to be sent is what was received last. -/
def Out (l : Log) : Prop := ∀ ev ≤ MAX_EVENTS, (l.loop.gEvents ev).status = 1 → (l.loop.gEvents ev).events = EPOLLOUT →
  Holds (l.loop.gEvents ev) (l.lastRecv ev)

structure InBounds (l : Log) : Prop where
  out : Out MAX_EVENTS l
  written : ∀ i ∈ l.written, i < BUFLEN

/-- The action makes `recvdata` fill the buffer. -/
def fillsBuf (s : Loop) (a : LoopAct) : Bool := (recvCall s a).any fun r => r.2.length = BUFLEN

end

section
variable {MAX_EVENTS lfd : Nat} {s s' : Loop} {ev : Nat}

/-! ## What is written -/

theorem indices_lt {bytes : List UInt8} (hle : bytes.length ≤ BUFLEN) :
    (∀ i ∈ indices bytes, i < BUFLEN) ↔ bytes.length ≠ BUFLEN := by
  have hpos : 0 < BUFLEN := by decide
  unfold indices
  constructor
  · intro h he
    refine absurd (h bytes.length ?_) (by omega)
    rw [if_pos (by omega)]
    simp
  · intro hne i hi
    rcases List.mem_append.mp hi with hi | hi
    · exact Nat.lt_of_lt_of_le (List.mem_range.mp hi) hle
    · split at hi
      · obtain rfl := List.mem_singleton.mp hi
        omega
      · cases hi

/-- `recvdata` changes no other byte of the buffer. -/
theorem recvdata_writes {io : Io} {bytes : List UInt8} (hst : (s.gEvents ev).status = 1) (hio : io.recv = some bytes)
    (fd : Nat) {i : Nat} (hi : i ∉ indices bytes) :
    ((recvdata io fd ev s).gEvents ev).buf[i]? = (s.gEvents ev).buf[i]? := by
  rcases List.eq_nil_or_concat bytes with rfl | hne
  · rw [recvdata_closed fd hst (by simp [hio])]
    simp
  · have hpos : 0 < bytes.length := by
      obtain ⟨rest, last, rfl⟩ := hne
      simp
    obtain ⟨hnot, hend⟩ : i ∉ List.range bytes.length ∧ i ≠ bytes.length := by
      unfold indices at hi
      rw [if_pos hpos] at hi
      simpa [not_or] using hi
    have hge : bytes.length ≤ i := Nat.not_lt.mp fun hlt => hnot (List.mem_range.mpr hlt)
    have hstored : (bytes ++ (s.gEvents ev).buf.drop bytes.length)[i]? = (s.gEvents ev).buf[i]? := by
      rw [List.getElem?_append_right hge, List.getElem?_drop, Nat.add_sub_cancel' hge]
    rw [recvdata_pos fd hst hio hpos]
    simp only [Loop.ctl_gEvents, Loop.setEv_gEvents, if_true]
    unfold MyeventS.filled terminate
    split
    · rw [List.getElem?_set_ne hend.symm]
      exact hstored
    · exact hstored

/-! ## One slot -/

theorem Log.note_lastRecv_ne (l : Log) {ev ev' : Nat} (hne : ev' ≠ ev) {r : Option (Nat × List UInt8)}
    (hr : ∀ x ∈ r, x.1 = ev) : (l.note r).lastRecv ev' = l.lastRecv ev' := by
  cases r with
  | none => rfl
  | some x =>
    obtain rfl := hr x rfl
    exact if_neg hne

theorem Log.note_lastRecv (l : Log) (ev : Nat) (bytes : List UInt8) : (l.note (some (ev, bytes))).lastRecv ev = bytes :=
  if_pos rfl

/-- Where no slot is newly armed for writing, what waits is what waited. -/
theorem Out.keep {l : Log} (h : Out MAX_EVENTS l)
    (hslot : ∀ ev, (s'.gEvents ev).status = 1 → (s'.gEvents ev).events = EPOLLOUT → s'.gEvents ev = l.loop.gEvents ev) :
    Out MAX_EVENTS { l with loop := s' } := by
  intro ev hle hst hev
  have hsame : s'.gEvents ev = l.loop.gEvents ev := hslot ev hst hev
  have hold := h ev hle (hsame ▸ hst) (hsame ▸ hev)
  rwa [← hsame] at hold

/-- One slot changes, and its last `recv` with it. -/
theorem Out.put {l : Log} (h : Out MAX_EVENTS l) (ev : Nat) {r : Option (Nat × List UInt8)} (hr : ∀ x ∈ r, x.1 = ev)
    (hother : ∀ ev', ev' ≠ ev → s'.gEvents ev' = l.loop.gEvents ev')
    (hslot : (s'.gEvents ev).status = 1 → (s'.gEvents ev).events = EPOLLOUT →
      Holds (s'.gEvents ev) ((l.note r).lastRecv ev)) : Out MAX_EVENTS { l.note r with loop := s' } := by
  intro ev' hle hst hev
  by_cases he : ev' = ev
  · subst he
    exact hslot hst hev
  · have hsame : s'.gEvents ev' = l.loop.gEvents ev' := hother ev' he
    have hold := h ev' hle (hsame ▸ hst) (hsame ▸ hev)
    rw [← hsame] at hold
    show Holds (s'.gEvents ev') ((l.note r).lastRecv ev')
    rwa [l.note_lastRecv_ne he hr]

/-! ## The callbacks -/

theorem recvdata_out {l : Log} (h : Out MAX_EVENTS l) (hst : (s.gEvents ev).status = 1) {io : Io}
    (hio : ∀ bytes ∈ io.recv, bytes.length ≤ BUFLEN) (hs : s.gEvents = l.loop.gEvents) (fd : Nat) :
    Out MAX_EVENTS { l.note (io.recv.map fun bytes => (ev, bytes)) with loop := recvdata io fd ev s } := by
  have hr : ∀ x ∈ io.recv.map (fun bytes => (ev, bytes)), x.1 = ev := by
    intro x hx
    obtain ⟨bytes, -, rfl⟩ := Option.map_eq_some_iff.mp hx
    rfl
  by_cases hclosed : ∀ bytes ∈ io.recv, bytes = []
  · rw [recvdata_closed fd hst hclosed]
    refine h.put ev hr (fun ev' hne => by simp [hne, hs]) (fun hst' => ?_)
    simp at hst'
  · obtain ⟨bytes, hrecv, hne⟩ : ∃ bytes, io.recv = some bytes ∧ bytes ≠ [] := by
      simpa using hclosed
    have hpos := List.length_pos_of_ne_nil hne
    have hle := hio bytes (by simp [hrecv])
    obtain ⟨hlen, hbuf⟩ := filled_bytes (s.gEvents ev) hle
    rw [recvdata_pos fd hst hrecv hpos]
    refine h.put ev hr (fun ev' hne => by simp [hne, hs]) (fun _ _ => ?_)
    rw [hrecv, Option.map_some, l.note_lastRecv]
    simp only [Loop.ctl_gEvents, Loop.setEv_gEvents, if_true]
    refine ⟨?_, ?_, hlen, ?_⟩
    · show 0 < ((s.gEvents ev).filled bytes).len
      omega
    · show ((s.gEvents ev).filled bytes).len ≤ BUFLEN
      omega
    · show ((s.gEvents ev).filled bytes).buf.take ((s.gEvents ev).filled bytes).len.toNat = bytes
      rw [hlen, Int.toNat_natCast, hbuf]

theorem senddata_keep (hst : (s.gEvents ev).status = 1) (io : Io) (fd : Nat) {ev' : Nat}
    (hst' : ((senddata io fd ev s).gEvents ev').status = 1)
    (hev' : ((senddata io fd ev s).gEvents ev').events = EPOLLOUT) :
    (senddata io fd ev s).gEvents ev' = s.gEvents ev' := by
  by_cases hio : 0 < io.send
  · rw [senddata_pos fd hst hio] at hev' ⊢
    by_cases he : ev' = ev
    · subst he
      simp [EPOLLIN, EPOLLOUT] at hev'
    · simp [he]
  · rw [senddata_closed fd hst hio] at hst' ⊢
    by_cases he : ev' = ev
    · subst he
      simp at hst'
    · simp [he]

theorem acceptconn_keep (io : Io) {ev' : Nat}
    (hev' : ((acceptconn MAX_EVENTS io s).gEvents ev').events = EPOLLOUT) :
    (acceptconn MAX_EVENTS io s).gEvents ev' = s.gEvents ev' := by
  rcases acceptconn_cases MAX_EVENTS io s with ⟨he, -⟩ | ⟨cfd, -, ⟨he, -⟩ | ⟨i, -, -, -, he⟩⟩
  · rw [he]
  · rw [he]
    rfl
  · rw [he] at hev' ⊢
    by_cases hi : ev' = i
    · subst hi
      simp [EPOLLIN, EPOLLOUT] at hev'
    · simp [hi]

theorem check_keep {now : Int} {ev' : Nat} (hst' : ((check MAX_EVENTS now s).gEvents ev').status = 1) :
    (check MAX_EVENTS now s).gEvents ev' = s.gEvents ev' := by
  have h : Exact now (s.pos MAX_EVENTS) s (check MAX_EVENTS now s) := check_exact now s
  by_cases he : ev' = s.pos MAX_EVENTS
  · subst he
    by_cases hidle : Idle now (s.gEvents (s.pos MAX_EVENTS))
    · rw [(h.frees hidle).1] at hst'
      cases hst'
    · exact (h.spares hidle).1
  · exact h.others ev' he

theorem sweep_keep {now : Int} (n : Nat) {ev' : Nat} (hst' : ((sweep MAX_EVENTS now n s).gEvents ev').status = 1) :
    (sweep MAX_EVENTS now n s).gEvents ev' = s.gEvents ev' := by
  induction n generalizing s with
  | zero => rfl
  | succ n ih =>
    have hrest := ih hst'
    refine hrest.trans (check_keep ?_)
    rw [← hrest]
    exact hst'

/-! ## The loop -/

theorem test_out {l : Log} (ht : Table MAX_EVENTS lfd l.loop) (h : Out MAX_EVENTS l) {bit : Nat} {io : Io} {e : Reg Nat}
    {pc : LoopPc} (hv : (l.loop.gEvents e.data).events &&& bit ≠ 0 → Valid MAX_EVENTS l.loop e)
    (hs : test MAX_EVENTS bit io e pc l.loop = some s') :
    Out MAX_EVENTS { l.note (recvTest bit io e l.loop) with loop := s' } ∧
      ∀ r ∈ recvTest bit io e l.loop, r.2.length ≤ BUFLEN := by
  unfold recvTest
  rcases test_cases hs with ⟨hno, rfl⟩ | ⟨hbit, hin, hio, s1, hs1, rfl⟩
  · rw [if_neg hno]
    exact ⟨h.keep fun _ _ _ => rfl, nofun⟩
  · rw [if_pos ⟨hbit, hin⟩]
    have hv := hv hin
    rcases callBack_cases ht hv io with ⟨heq, -, hcb⟩ | ⟨hlt, hev, hcb⟩ | ⟨hlt, hev, hcb⟩
    · obtain rfl := Option.some.inj (hs1.symm.trans hcb)
      have hnone : recvOf io (l.loop.gEvents e.data) = none := by
        obtain ⟨-, -, -, hcall⟩ := ht.listening
        rw [recvOf, heq, hcall]
      rw [hnone]
      exact ⟨h.keep fun ev' _ hev' => acceptconn_keep io hev', nofun⟩
    · obtain rfl := Option.some.inj (hs1.symm.trans hcb)
      have hsome : recvOf io (l.loop.gEvents e.data) = io.recv.map fun bytes => (e.data, bytes) := by
        obtain ⟨harg, ⟨-, hcall⟩ | ⟨hout, -⟩⟩ := ht.armed e.data hlt hv.status
        · rw [recvOf, harg, hcall]
          cases io.recv <;> rfl
        · rw [hev] at hout
          cases hout
      rw [hsome]
      refine ⟨recvdata_out h (s := l.loop.called e) hv.status hio.recv rfl _, fun r hr => ?_⟩
      obtain ⟨bytes, hbytes, rfl⟩ := Option.map_eq_some_iff.mp hr
      exact hio.recv bytes hbytes
    · obtain rfl := Option.some.inj (hs1.symm.trans hcb)
      have hnone : recvOf io (l.loop.gEvents e.data) = none := by
        obtain ⟨harg, ⟨hin, -⟩ | ⟨-, hcall⟩⟩ := ht.armed e.data hlt hv.status
        · rw [hev] at hin
          cases hin
        · rw [recvOf, hcall]
      rw [hnone]
      exact ⟨h.keep fun ev' hst' hev' => senddata_keep (s := l.loop.called e) hv.status io _ hst' hev', nofun⟩

/-- What a logged run carries. -/
structure Kept (MAX_EVENTS lfd : Nat) (l : Log) : Prop where
  inv : Inv MAX_EVENTS lfd l.loop
  out : Out MAX_EVENTS l

theorem logStep_cases {l l' : Log} {a : LoopAct} (hs : logStep MAX_EVENTS l a = some l') :
    ∃ s, loopStep MAX_EVENTS l.loop a = some s ∧ l' = { l.note (recvCall l.loop a) with loop := s } := by
  obtain ⟨s, hstep, rfl⟩ := Option.map_eq_some_iff.mp hs
  exact ⟨s, hstep, rfl⟩

theorem loopStep_out {l : Log} (h : Kept MAX_EVENTS lfd l) {a : LoopAct} (hs : loopStep MAX_EVENTS l.loop a = some s') :
    Out MAX_EVENTS { l.note (recvCall l.loop a) with loop := s' } ∧
      ∀ r ∈ recvCall l.loop a, r.2.length ≤ BUFLEN := by
  have hpending := h.inv.pending
  cases loopStep_cases hs with
  | sweep now s1 hs1 he =>
    subst he
    have hkeep (ev : Nat) (hst : (s1.gEvents ev).status = 1) : s1.gEvents ev = l.loop.gEvents ev := by
      rw [← hs1] at hst ⊢
      exact sweep_keep 100 hst
    exact ⟨h.out.keep fun ev hst _ => hkeep ev hst, nofun⟩
  | exit he | batch b _ he =>
    subst he
    exact ⟨h.out.keep fun _ _ _ => rfl, nofun⟩
  | readable io e rest hpc htest =>
    rw [hpc] at hpending
    rw [recvCall, hpc]
    exact test_out h.inv.table h.out (fun _ => hpending.valid e (List.mem_cons_self ..)) htest
  | writable io e rest hpc htest =>
    rw [hpc] at hpending
    obtain ⟨-, -, hslot⟩ := hpending
    rw [recvCall, hpc]
    exact test_out h.inv.table h.out (fun hout => hslot.resolve_right hout) htest

theorem kept_step (hpos : 1 ≤ MAX_EVENTS) {l l' : Log} (h : Kept MAX_EVENTS lfd l) {a : LoopAct}
    (hs : logStep MAX_EVENTS l a = some l') : Kept MAX_EVENTS lfd l' := by
  obtain ⟨s, hstep, rfl⟩ := logStep_cases hs
  exact ⟨loopStep_inv hpos h.inv hstep, (loopStep_out h hstep).1⟩

/-- What a step adds to the written indices, and when they are in bounds. -/
theorem written_step {l l' : Log} (h : Kept MAX_EVENTS lfd l) {a : LoopAct} (hs : logStep MAX_EVENTS l a = some l') :
    (∀ i ∈ l'.written, i < BUFLEN) ↔ (∀ i ∈ l.written, i < BUFLEN) ∧ fillsBuf l.loop a = false := by
  obtain ⟨s, hstep, rfl⟩ := logStep_cases hs
  have hle := (loopStep_out h hstep).2
  unfold fillsBuf
  generalize recvCall l.loop a = r at hle
  cases r with
  | none => simp [Log.note]
  | some x =>
    have hlt := indices_lt (hle x rfl)
    simp only [Log.note, List.forall_mem_append, hlt, Option.any_some, decide_eq_false_iff_not, ne_eq]

theorem kept_start (time : Int) : Kept MAX_EVENTS lfd { loop := initlistensocket MAX_EVENTS lfd time } := by
  refine ⟨inv_start time, fun ev _ hst hev => ?_⟩
  simp only [initlistensocket, eventadd_eventset, Loop.ctl_gEvents, Loop.setEv_gEvents] at hst hev
  split at hev
  case isTrue => cases hev
  case isFalse hne =>
    rw [if_neg hne] at hst
    cases hst

/-- In every state of a run, what waits to be sent is what was received last, and it fits;
and `recvdata` has written inside the buffers only, if and only if no `recv` of the run filled
its buffer. -/
theorem in_bounds_iff (hpos : 1 ≤ MAX_EVENTS) {time : Int} {as : List LoopAct} {l : Log}
    (hrun : Lts.run (logStep MAX_EVENTS) as { loop := initlistensocket MAX_EVENTS lfd time } = some l) :
    Lts.Always (logStep MAX_EVENTS) (Out MAX_EVENTS) as { loop := initlistensocket MAX_EVENTS lfd time } ∧
    (Lts.Always (logStep MAX_EVENTS) (InBounds MAX_EVENTS) as { loop := initlistensocket MAX_EVENTS lfd time } ↔
      Lts.Along (logStep MAX_EVENTS) (fun l a => fillsBuf l.loop a = false) as
        { loop := initlistensocket MAX_EVENTS lfd time }) := by
  have h0 : Kept MAX_EVENTS lfd { loop := initlistensocket MAX_EVENTS lfd time } := kept_start time
  refine ⟨Lts.always_of_invariant (fun l h => h.out) (fun l a l' h hs => kept_step hpos h hs) as h0, ?_⟩
  apply Lts.always_iff_along (I := fun l => Kept MAX_EVENTS lfd l ∧ ∀ i ∈ l.written, i < BUFLEN) _ _ _ hrun ⟨h0, nofun⟩
  · exact fun l h => ⟨h.1.out, h.2⟩
  · exact fun l a l' h hok hs => ⟨kept_step hpos h.1 hs, (written_step h.1 hs).mpr ⟨h.2, hok⟩⟩
  · exact fun l a l' h hbad hs hin => hbad ((written_step h.1 hs).mp hin.written).2

end

/-- A client connects and sends `bytes`. -/
def recvRun (bytes : List UInt8) : List LoopAct :=
  [.sweep 0, .wait (some [⟨3, 1024, EPOLLIN⟩]), .test { accept := some 4 }, .test {}, .sweep 1,
    .wait (some [⟨4, 0, EPOLLIN⟩]), .test { recv := some bytes }, .test {}]

theorem in_bounds_iff_hi :
    Lts.Always (logStep 1024) (InBounds 1024) (recvRun [104, 105]) { loop := initlistensocket 1024 3 0 } := by
  have hsome : (Lts.run (logStep 1024) (recvRun [104, 105]) { loop := initlistensocket 1024 3 0 }).isSome = true := by
    decide +kernel
  obtain ⟨l, hrun⟩ := Option.isSome_iff_exists.mp hsome
  exact (in_bounds_iff (by decide) hrun).2.mpr (by decide +kernel)

/-- The client sends as many bytes as the buffer has. -/
theorem terminator_outside : ∃ l : Log,
    Lts.Reach (logStep 1024) { loop := initlistensocket 1024 3 0 } l ∧ BUFLEN ∈ l.written ∧ ¬ InBounds 1024 l := by
  obtain ⟨l, hr, hl⟩ := Lts.Reach.of_run (logStep 1024) { loop := initlistensocket 1024 3 0 }
    (fun l => BUFLEN ∈ l.written) (recvRun (List.replicate BUFLEN 97)) (by decide +kernel)
  have hmem : BUFLEN ∈ l.written := of_decide_eq_true hl
  exact ⟨l, hr, hmem, fun h => Nat.lt_irrefl BUFLEN (h.written BUFLEN hmem)⟩

end CSocket.EpollLoop
