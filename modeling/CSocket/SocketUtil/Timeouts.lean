import CSocket.SocketUtil.Calls
/-!
# Timeouts of the message operations

`write_timeout` and `read_timeout` return -1 for a timeout and for a failed `select`,
and tell them apart by `errno`. The sends test both; the receives take either for a
timeout.
-/
namespace CSocket

/-! ## The codes of the reads and writes -/

theorem revPayload_code {n : Int} {tmpBuf : Nat} {c c' : Conn} {ret : Int} {d : Option Delivered}
    (h : revPayload n tmpBuf c = .ret (ret, d) c') : ret = -1 ∨ ret = sckErrPeerClosed ∨ ret = 0 := by
  obtain ⟨-, c1, -, h⟩ := Prog.bind_ret_iff.mp h
  obtain ⟨⟨ret1, bytes⟩, c2, -, h⟩ := Prog.bind_ret_iff.mp h
  dsimp only at h
  split at h
  · rename_i h1
    cases h
    exact .inl h1
  · split at h
    · cases h
      exact .inr (.inl rfl)
    · cases h
      exact .inr (.inr rfl)

/-- No read or write of a call is taken for a timeout. -/
theorem MsgOp.ready_code {op : MsgOp} (hop : op.InRange) {c c' : Conn} {ret : Int} {d : Option Delivered}
    (h : op.ready c = .ret (ret, d) c') : ret ≠ sckErrTimeOut := by
  cases op with
  | send side data datalen =>
    obtain ⟨ret1, c1, h1, h2⟩ := Prog.bind_ret_iff.mp h
    have hrun := sendReady_run (side = .client) data hop.1 hop.2 c
    rw [h1] at hrun
    cases h2
    cases hrun <;> decide
  | rev side out outlen =>
    have hend := revReady_end c
    have hret : revReady c = .ret (ret, d) c' := h
    generalize revReady c = r at hend hret
    cases hend with
    | failed k rs e => cases hret; decide
    | closed rs e => cases hret; decide
    | stalled k e => cases hret
    | noBlock rs e => cases hret; decide
    | block rs e =>
      rcases revPayload_code hret with rfl | rfl | rfl <;> decide

/-! ## The classification -/

/-- The call waits, and this is what `select` says. -/
def MsgOp.Hears (op : MsgOp) (c : Conn) (o : SelectOutcome) : Prop := ¬ op.Rejects ∧ firstSelect c.selects = some o

/-- No byte was read or written. -/
def Conn.Untouched (c c' : Conn) : Prop := c'.input = c.input ∧ c'.output = c.output

/-- A call from `c` returns `Sck_ErrTimeOut` for its own timeout only, and another error
for a `select` that failed. -/
structure Classifies (op : MsgOp) (timeout : Int) (c : Conn) : Prop where
  timedOut : op.Hears c .timeout → ∃ c', op.call timeout c = .ret (sckErrTimeOut, none) c' ∧ c.Untouched c'
  failed : ∀ e, op.Hears c (.error e) →
    ∃ ret c', op.call timeout c = .ret (ret, none) c' ∧ ret ≠ 0 ∧ ret ≠ sckErrTimeOut ∧ c.Untouched c'
  only : ∀ d c', op.call timeout c = .ret (sckErrTimeOut, d) c' → op.Hears c .timeout

theorem waitCode_iff (op : MsgOp) (e : Int) : op.waitCode e ≠ sckErrTimeOut ↔ op.Sends ∧ e ≠ ETIMEDOUT := by
  cases op with
  | send side data datalen =>
    by_cases he : e = ETIMEDOUT
    · simp [MsgOp.waitCode, he]
    · simpa [MsgOp.waitCode, MsgOp.Sends, he] using by decide
  | rev side out outlen => simp [MsgOp.waitCode, MsgOp.Sends]

section
variable {op : MsgOp} {timeout : Int} {c : Conn}

/-- A call that hears no timeout and no failure must only not return a timeout's code. -/
theorem Classifies.of_deaf (htime : ¬ op.Hears c .timeout) (herr : ∀ e, ¬ op.Hears c (.error e))
    (hret : ∀ d c', op.call timeout c ≠ .ret (sckErrTimeOut, d) c') : Classifies op timeout c :=
  ⟨fun h => absurd h htime, fun e h => absurd h (herr e), fun d c' h => absurd h (hret d c')⟩

/-- A call whose `select` fails has the code of its wait to tell so. -/
theorem classifies_failed {c' : Conn} {e : Int} (hears : op.Hears c (.error e))
    (hcall : op.call timeout c = .ret (op.waitCode e, none) c') (huntouched : c.Untouched c') :
    Classifies op timeout c ↔ op.Sends ∧ e ≠ ETIMEDOUT := by
  have hfirst : firstSelect c.selects = some (.error e) := hears.2
  rw [← waitCode_iff]
  constructor
  · intro h
    obtain ⟨ret, c'', hret, -, hne, -⟩ := h.failed e hears
    cases hcall.symm.trans hret
    exact hne
  · intro hne
    refine ⟨fun h => ?_, fun e' h => ?_, fun d c'' h => ?_⟩
    · cases hfirst.symm.trans h.2
    · cases hfirst.symm.trans h.2
      exact ⟨_, c', hcall, op.waitCode_ne_zero e, hne, huntouched⟩
    · injection hcall.symm.trans h with hret
      injection hret with hcode
      exact absurd hcode hne

end

/-- A call classifies its wait just if a failed `select` is a send's, and does not fail
with `ETIMEDOUT`. -/
theorem classifies_iff {op : MsgOp} (hop : op.InRange) {timeout : Int} (h0 : 0 < timeout) (h1 : timeout < 2 ^ 31)
    (c : Conn) :
    Classifies op timeout c ↔ ∀ e, op.Hears c (.error e) → op.Sends ∧ e ≠ ETIMEDOUT := by
  by_cases hrej : op.Rejects
  · have hdeaf : ∀ o, ¬ op.Hears c o := fun o h => h.1 hrej
    refine iff_of_true (.of_deaf (hdeaf _) (fun e => hdeaf _) fun d c' h => ?_) fun e h => absurd h (hdeaf _)
    rw [MsgOp.call_rejected hrej] at h
    cases h
  have htime : toUnsigned timeout ≠ 0 := by
    rw [toUnsigned, Int.emod_eq_of_lt (by omega) (by omega)]
    omega
  have hhears : ∀ o, op.Hears c o ↔ firstSelect c.selects = some o := fun o => and_iff_right hrej
  have hend := MsgOp.call_end hrej timeout c
  generalize hcall : op.call timeout c = r at hend
  cases hend with
  | ready os e h =>
    have hfirst : firstSelect c.selects = some .ready := h.resolve_left htime
    have hdeaf : ∀ e, ¬ op.Hears c (.error e) := by simp [hhears, hfirst]
    refine iff_of_true (.of_deaf (by simp [hhears, hfirst]) hdeaf fun d c' h => ?_) fun e h => absurd h (hdeaf e)
    exact MsgOp.ready_code hop (hcall.symm.trans h) rfl
  | timeout os _ hfirst =>
    have hdeaf : ∀ e, ¬ op.Hears c (.error e) := by simp [hhears, hfirst]
    exact iff_of_true ⟨fun _ => ⟨_, hcall, rfl, rfl⟩, fun e h => absurd h (hdeaf e), fun _ _ _ => (hhears _).mpr hfirst⟩
      fun e h => absurd h (hdeaf e)
  | failed os e _ hfirst =>
    have hears : op.Hears c (.error e) := (hhears _).mpr hfirst
    rw [classifies_failed hears hcall ⟨rfl, rfl⟩]
    refine ⟨fun h e' h' => ?_, fun h => h e hears⟩
    cases hfirst.symm.trans h'.2
    exact h
  | stalled e _ hfirst =>
    have hdeaf : ∀ o, ¬ op.Hears c o := by simp [hhears, hfirst]
    refine iff_of_true (.of_deaf (hdeaf _) (fun e => hdeaf _) fun d c' h => ?_) fun e h => absurd h (hdeaf _)
    cases hcall.symm.trans h

/-- A send whose `select` fails with `EBADF` (9), after an interrupted one. -/
theorem classifies_iff_send :
    MsgOp.InRange (.send .server (some [7]) 1) ∧
    Classifies (.send .server (some [7]) 1) 5 { errno := ETIMEDOUT, selects := [.error EINTR, .error 9] } :=
  ⟨by simp [MsgOp.InRange], (classifies_iff (by simp [MsgOp.InRange]) (by decide) (by decide) _).mpr fun e h => ⟨trivial, by
      have hfirst : firstSelect [.error EINTR, .error 9] = some (.error e) := h.2
      cases hfirst
      decide⟩⟩

/-- The same failure is a timeout to a receive. -/
theorem select_error_timeout :
    MsgOp.call 5 (.rev .client true true) { selects := [.error 9] } = .ret (sckErrTimeOut, none) { errno := 9 } ∧
    ¬ Classifies (.rev .client true true) 5 { selects := [.error 9] } := by
  refine ⟨rfl, fun h => ?_⟩
  obtain ⟨hwait, hfirst⟩ := h.only none { errno := 9 } rfl
  cases hfirst

end CSocket
