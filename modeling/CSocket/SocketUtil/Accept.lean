import CSocket.SocketUtil.Message
/-!
# Accepting a connection

`accept_timeout` and `sckServer_accept` of `socketutil.c`, and
`TcpServer::acceptTimeout` and `TcpServer::acceptConn`. In both copies the inner
function returns `errno` where `accept` fails, and its caller takes any number from 0
on for a descriptor.
-/
namespace CSocket

/-! ## The code -/

/-- What an `accept()` does. -/
inductive AcceptOutcome where
  | fd (n : Nat)
  | error (e : Nat)
  deriving DecidableEq

def accept : AcceptOutcome → Prog Conn Int
  | .fd n => return n
  | .error e => do
    Prog.update fun c => { c with errno := e }
    return -1

/-- `ret = accept(..); if (ret == -1) { ret = errno; .. } return ret;` -/
def acceptReady (o : AcceptOutcome) : Prog Conn Int := do
  let ret ← accept o
  if ret = -1 then Prog.read Conn.errno
  else return ret

/-- The body the two timeouts share; they differ in the type of `wait_seconds`. -/
def acceptWait (waits : Bool) (o : AcceptOutcome) : Prog Conn Int :=
  if waits then do
    let ret ← selectReady
    if ret = -1 then return -1
    else if ret = 0 then do
      Prog.update fun c => { c with errno := ETIMEDOUT }
      return -1
    else acceptReady o
  else acceptReady o

def acceptTimeout (waitSeconds : Nat) (o : AcceptOutcome) : Prog Conn Int := acceptWait (waitSeconds > 0) o

/-- The result, and `*connfd` where it is set. -/
def sckServerAccept (timeout : Int) (o : AcceptOutcome) : Prog Conn (Int × Option Int) := do
  let ret ← acceptTimeout (toUnsigned timeout) o
  let errno ← Prog.read Conn.errno
  if ret < 0 then
    if ret = -1 ∧ errno = ETIMEDOUT then return (sckErrTimeOut, none)
    else return (errno, none)
  else return (0, some ret)

namespace TcpServer

def acceptTimeout (waitSeconds : Int) (o : AcceptOutcome) : Prog Conn Int := acceptWait (waitSeconds > 0) o

/-- The descriptor of the new `TcpSocket`, or `NULL`. -/
def acceptConn (timeout : Int) (o : AcceptOutcome) : Prog Conn (Option Int) := do
  let connfd ← acceptTimeout timeout o
  if connfd < 0 then return none
  else return some connfd

end TcpServer

/-! ## What a call reports -/

/-- What `accept` returned, if the call gets there and it is a descriptor. -/
def accepted (waits : Bool) (os : List SelectOutcome) (o : AcceptOutcome) : Option Nat :=
  if waits = false ∨ firstSelect os = some .ready then
    match o with
    | .fd n => some n
    | .error _ => none
  else none

/-- `sckServer_accept` from `c` succeeds with a descriptor of `accept`'s and with nothing
else, and tells a timeout from other failures. -/
structure AcceptReports (waits : Bool) (o : AcceptOutcome) (c : Conn) (ret : Int) (connfd : Option Int) : Prop where
  success : ret = 0 ↔ (accepted waits c.selects o).isSome = true
  descriptor : ∀ n ∈ accepted waits c.selects o, connfd = some (n : Int)
  timedOut : ret = sckErrTimeOut ↔ waits = true ∧ firstSelect c.selects = some .timeout
  unchanged : ret ≠ 0 → connfd = none

/-- `accept` is not called, or returns a descriptor. -/
def AcceptWorks (waits : Bool) (os : List SelectOutcome) (o : AcceptOutcome) : Prop :=
  waits = false ∨ firstSelect os = some .ready → ∃ n, o = .fd n

/-- The wait does not fail with one of the codes that the caller gives a meaning. -/
def WaitWorks (waits : Bool) (os : List SelectOutcome) : Prop :=
  waits = true → ∀ e, firstSelect os = some (.error e) → e ≠ ETIMEDOUT ∧ e ≠ 0 ∧ e ≠ sckErrTimeOut

/-- What the inner function returns. -/
inductive AcceptEnd (waits : Bool) (o : AcceptOutcome) (c : Conn) : Outcome Conn Int → Prop
  | fd (n c') : waits = false ∨ firstSelect c.selects = some .ready → o = .fd n → AcceptEnd waits o c (.ret n c')
  | error (e c') : waits = false ∨ firstSelect c.selects = some .ready → o = .error e →
      AcceptEnd waits o c (.ret e c')
  | timeout (c') : waits = true → firstSelect c.selects = some .timeout → c'.errno = ETIMEDOUT →
      AcceptEnd waits o c (.ret (-1) c')
  | failed (c') : waits = true → firstSelect c.selects = some (.error c'.errno) →
      AcceptEnd waits o c (.ret (-1) c')
  | stalled (c') : waits = true → firstSelect c.selects = none → AcceptEnd waits o c (.stalled c')

theorem acceptReady_end {waits : Bool} {o : AcceptOutcome} {c : Conn}
    (h : waits = false ∨ firstSelect c.selects = some .ready) (c1 : Conn) :
    AcceptEnd waits o c (acceptReady o c1) := by
  cases o with
  | fd n =>
    have hret : acceptReady (.fd n) c1 = .ret (n : Int) c1 := by
      have hneg : ¬ (n : Int) = -1 := by omega
      simp [acceptReady, accept, Prog.bind_run, hneg]
    rw [hret]
    exact .fd n c1 h rfl
  | error e => exact .error e _ h rfl

theorem acceptWait_end (waits : Bool) (o : AcceptOutcome) (c : Conn) : AcceptEnd waits o c (acceptWait waits o c) := by
  unfold acceptWait
  cases waits with
  | false => exact acceptReady_end (.inl rfl) c
  | true =>
    rw [if_pos rfl, Prog.bind_run]
    have hs : Selected c.selects c (selectReady c) := selectLoop_selected c.selects c
    generalize selectReady c = r at hs ⊢
    cases hs with
    | ready os e h => exact acceptReady_end (.inr h) _
    | timeout os e h => exact .timeout _ rfl h rfl
    | failed os e h => exact .failed _ rfl h
    | stalled e h => exact .stalled _ rfl h

/-! ## When the reports are true -/

theorem accepted_fd {waits : Bool} {os : List SelectOutcome} (h : waits = false ∨ firstSelect os = some .ready) (n : Nat) :
    accepted waits os (.fd n) = some n := if_pos h

theorem accepted_error {waits : Bool} {os : List SelectOutcome} (e : Nat) : accepted waits os (.error e) = none := by
  unfold accepted
  split <;> rfl

theorem accepted_waiting {waits : Bool} {os : List SelectOutcome} (hw : waits = true) (h : firstSelect os ≠ some .ready)
    (o : AcceptOutcome) : accepted waits os o = none := if_neg (by simp [hw, h])

theorem acceptWorks_waiting {waits : Bool} {os : List SelectOutcome} (hw : waits = true)
    (h : firstSelect os ≠ some .ready) (o : AcceptOutcome) : AcceptWorks waits os o := by
  rintro (hnot | hready)
  · rw [hw] at hnot
    cases hnot
  · exact absurd hready h

/-- Of a wait that failed, any code may be reported but the two with a meaning. -/
theorem acceptReports_failed {waits : Bool} {o : AcceptOutcome} {c : Conn} {e : Int} (hw : waits = true)
    (hfirst : firstSelect c.selects = some (.error e)) (ret : Int) :
    AcceptReports waits o c ret none ↔ ret ≠ 0 ∧ ret ≠ sckErrTimeOut := by
  have hnone : accepted waits c.selects o = none := accepted_waiting hw (by simp [hfirst]) o
  have htime : ¬ (waits = true ∧ firstSelect c.selects = some .timeout) := by simp [hfirst]
  constructor
  · intro h
    refine ⟨fun h0 => ?_, fun ht => htime (h.timedOut.mp ht)⟩
    have := h.success.mp h0
    rw [hnone] at this
    cases this
  · rintro ⟨h0, ht⟩
    refine ⟨?_, ?_, iff_of_false ht htime, fun _ => rfl⟩
    · rw [hnone]
      exact iff_of_false h0 (by decide)
    · rw [hnone]
      rintro m ⟨⟩

theorem acceptReports_fd {waits : Bool} {c : Conn} (hready : waits = false ∨ firstSelect c.selects = some .ready)
    (n : Nat) : AcceptReports waits (.fd n) c 0 (some n) := by
  have hsome : accepted waits c.selects (.fd n) = some n := accepted_fd hready n
  refine ⟨?_, ?_, ?_, fun h => absurd rfl h⟩
  · rw [hsome]
    exact iff_of_true rfl rfl
  · rw [hsome]
    rintro m ⟨⟩
    rfl
  · refine iff_of_false (by decide) ?_
    rintro ⟨rfl, h⟩
    rcases hready with hready | hready
    · cases hready
    · cases hready.symm.trans h

theorem acceptReports_timeout {waits : Bool} {c : Conn} (hw : waits = true)
    (hfirst : firstSelect c.selects = some .timeout) (o : AcceptOutcome) : AcceptReports waits o c sckErrTimeOut none := by
  have hnone : accepted waits c.selects o = none := accepted_waiting hw (by simp [hfirst]) o
  refine ⟨?_, ?_, iff_of_true rfl ⟨hw, hfirst⟩, fun _ => rfl⟩
  · rw [hnone]
    exact iff_of_false (by decide) (by decide)
  · rw [hnone]
    rintro m ⟨⟩

theorem waitWorks_failed {waits : Bool} {os : List SelectOutcome} {e : Int} (hw : waits = true)
    (hfirst : firstSelect os = some (.error e)) : WaitWorks waits os ↔ e ≠ ETIMEDOUT ∧ e ≠ 0 ∧ e ≠ sckErrTimeOut := by
  constructor
  · exact fun h => h hw e hfirst
  · intro h _ e' he
    cases hfirst.symm.trans he
    exact h

theorem sckServerAccept_iff (timeout : Int) (o : AcceptOutcome) (c : Conn) :
    (∀ ret connfd c', sckServerAccept timeout o c = .ret (ret, connfd) c' →
      AcceptReports (toUnsigned timeout > 0) o c ret connfd) ↔
    AcceptWorks (toUnsigned timeout > 0) c.selects o ∧ WaitWorks (toUnsigned timeout > 0) c.selects := by
  have hend := acceptWait_end (toUnsigned timeout > 0) o c
  unfold sckServerAccept acceptTimeout
  rw [Prog.bind_run]
  generalize decide (toUnsigned timeout > 0) = waits at hend ⊢
  generalize acceptWait waits o c = r at hend ⊢
  cases hend with
  | fd n c1 hready ho =>
    subst ho
    refine iff_of_true (fun ret connfd c' hret => ?_) ⟨fun _ => ⟨n, rfl⟩, fun hw e he => ?_⟩
    · have hpos : ¬ (n : Int) < 0 := by omega
      simp only [Prog.bind_run, Prog.read_run, hpos, if_false, Prog.pure_run] at hret
      cases hret
      exact acceptReports_fd hready n
    · rcases hready with hready | hready
      · rw [hready] at hw
        cases hw
      · cases hready.symm.trans he
  | error e c1 hready ho =>
    subst ho
    -- `errno` is no less than 0, like a descriptor
    refine iff_of_false (fun h => ?_) fun h => ?_
    · have hpos : ¬ (e : Int) < 0 := by omega
      have hone := (h 0 (some e) c1 (by simp [Prog.bind_run, hpos])).success.mp rfl
      rw [accepted_error] at hone
      cases hone
    · obtain ⟨n, hn⟩ := h.1 hready
      cases hn
  | timeout c1 hw hfirst herr =>
    refine iff_of_true (fun ret connfd c' hret => ?_) ⟨acceptWorks_waiting hw (by simp [hfirst]) o, fun _ e he => ?_⟩
    · simp [Prog.bind_run, herr] at hret
      obtain ⟨⟨rfl, rfl⟩, rfl⟩ := hret
      exact acceptReports_timeout hw hfirst o
    · cases hfirst.symm.trans he
  | failed c1 hw hfirst =>
    rw [and_iff_right (acceptWorks_waiting hw (by simp [hfirst]) o), waitWorks_failed hw hfirst]
    by_cases herr : c1.errno = ETIMEDOUT
    · -- the caller takes this failure for its own timeout
      refine iff_of_false (fun h => ?_) fun h => h.1 herr
      have hreports := h sckErrTimeOut none c1 (by simp [Prog.bind_run, herr])
      exact ((acceptReports_failed hw hfirst _).mp hreports).2 rfl
    · constructor
      · intro h
        have hreports := h c1.errno none c1 (by simp [Prog.bind_run, herr])
        exact ⟨herr, (acceptReports_failed hw hfirst _).mp hreports⟩
      · rintro ⟨-, hcode⟩ ret connfd c' hret
        simp [Prog.bind_run, herr] at hret
        obtain ⟨⟨rfl, rfl⟩, rfl⟩ := hret
        exact (acceptReports_failed hw hfirst _).mpr hcode
  | stalled c1 hw hfirst =>
    refine iff_of_true (fun ret connfd c' hret => nomatch hret) ⟨acceptWorks_waiting hw (by simp [hfirst]) o, fun _ e he => ?_⟩
    cases hfirst.symm.trans he

theorem acceptConn_iff (timeout : Int) (o : AcceptOutcome) (c : Conn) :
    (∀ connfd c', TcpServer.acceptConn timeout o c = .ret (some connfd) c' →
      ∃ n ∈ accepted (timeout > 0) c.selects o, connfd = (n : Int)) ↔
    AcceptWorks (timeout > 0) c.selects o := by
  have hend := acceptWait_end (timeout > 0) o c
  unfold TcpServer.acceptConn TcpServer.acceptTimeout
  rw [Prog.bind_run]
  generalize decide (timeout > 0) = waits at hend ⊢
  generalize acceptWait waits o c = r at hend ⊢
  cases hend with
  | fd n c1 hready ho =>
    subst ho
    refine iff_of_true ?_ fun _ => ⟨n, rfl⟩
    intro connfd c' hret
    have hpos : ¬ (n : Int) < 0 := by omega
    simp only [hpos, if_false, Prog.pure_run] at hret
    cases hret
    exact ⟨n, accepted_fd hready n, rfl⟩
  | error e c1 hready ho =>
    subst ho
    refine iff_of_false (fun h => ?_) fun h => ?_
    · have hpos : ¬ (e : Int) < 0 := by omega
      obtain ⟨n, hn, -⟩ := h e c1 (by simp [hpos])
      rw [accepted_error] at hn
      cases hn
    · obtain ⟨n, hn⟩ := h hready
      cases hn
  | timeout c1 hw hfirst =>
    exact iff_of_true (fun connfd c' hret => nomatch hret) (acceptWorks_waiting hw (by simp [hfirst]) o)
  | failed c1 hw hfirst =>
    exact iff_of_true (fun connfd c' hret => nomatch hret) (acceptWorks_waiting hw (by simp [hfirst]) o)
  | stalled c1 hw hfirst =>
    exact iff_of_true (fun connfd c' hret => nomatch hret) (acceptWorks_waiting hw (by simp [hfirst]) o)

/-- What the two callers report is true just if `accept`, where it is called, returns a
descriptor; the first of them also needs a wait that does not fail with its own codes. -/
theorem accept_iff (timeout : Int) (o : AcceptOutcome) (c : Conn) :
    ((∀ ret connfd c', sckServerAccept timeout o c = .ret (ret, connfd) c' →
      AcceptReports (toUnsigned timeout > 0) o c ret connfd) ↔
      AcceptWorks (toUnsigned timeout > 0) c.selects o ∧ WaitWorks (toUnsigned timeout > 0) c.selects) ∧
    ((∀ connfd c', TcpServer.acceptConn timeout o c = .ret (some connfd) c' →
      ∃ n ∈ accepted (timeout > 0) c.selects o, connfd = (n : Int)) ↔
      AcceptWorks (timeout > 0) c.selects o) :=
  ⟨sckServerAccept_iff timeout o c, acceptConn_iff timeout o c⟩

/-- `accept` fails with `ECONNABORTED` (103): both report a connection with descriptor
103. -/
theorem accept_errno : sckServerAccept 5 (.error 103) { selects := [.ready] } = .ret (0, some 103) { errno := 103 } ∧
    ¬ AcceptReports true (.error 103) { selects := [.ready] } 0 (some 103) ∧
    TcpServer.acceptConn 5 (.error 103) { selects := [.ready] } = .ret (some 103) { errno := 103 } ∧
    accepted true [.ready] (.error 103) = none :=
  ⟨rfl, fun h => absurd (h.success.mp rfl) (by decide), rfl, rfl⟩

end CSocket
