import CSocket.SocketUtil.Message
/-!
# The message operations as one

The four operations check their arguments, wait, and then send or receive. `call_end`
says what the wait makes of a call; `sendReady_run` what a send does after it, for all
32-bit lengths.
-/
namespace CSocket

/-! ## After the wait -/

/-- `select` lets the call go on with `go`, or it ends with the code for a timeout or
for a failure. -/
inductive AfterWait {α : Type} (timeout : Int) (c : Conn) (go : Prog Conn α) (timedOut : α) (failed : Int → α) :
    Outcome Conn α → Prop
  | ready (os e) : toUnsigned timeout = 0 ∨ firstSelect c.selects = some .ready →
      AfterWait timeout c go timedOut failed (go { c with selects := os, errno := e })
  | timeout (os) : toUnsigned timeout ≠ 0 → firstSelect c.selects = some .timeout →
      AfterWait timeout c go timedOut failed (.ret timedOut { c with selects := os, errno := ETIMEDOUT })
  | failed (os e) : toUnsigned timeout ≠ 0 → firstSelect c.selects = some (.error e) →
      AfterWait timeout c go timedOut failed (.ret (failed e) { c with selects := os, errno := e })
  | stalled (e) : toUnsigned timeout ≠ 0 → firstSelect c.selects = none →
      AfterWait timeout c go timedOut failed (.stalled { c with selects := [], errno := e })

theorem AfterWait.map {α β : Type} {timeout : Int} {c : Conn} {go m : Prog Conn α} {timedOut : α} {failed : Int → α}
    (h : AfterWait timeout c go timedOut failed (m c)) (f : α → β) :
    AfterWait timeout c (do return f (← go)) (f timedOut) (fun e => f (failed e)) ((do return f (← m)) c) := by
  rw [Prog.bind_run]
  generalize m c = r at h ⊢
  cases h with
  | ready os e h1 => exact .ready os e h1
  | timeout os h1 h2 => exact .timeout os h1 h2
  | failed os e h1 h2 => exact .failed os e h1 h2
  | stalled e h1 h2 => exact .stalled e h1 h2

theorem sendRet_failed_eq (c : Conn) :
    sendRet (-1) c = .ret (if c.errno = ETIMEDOUT then sckErrTimeOut else -1) c := by
  by_cases he : c.errno = ETIMEDOUT
  · simp [sendRet, Prog.bind_run, he]
  · simp [sendRet, Prog.bind_run, he]

theorem sckSend_afterWait (freeSent : Bool) (sendtime : Int) (data : Option (List UInt8)) (datalen : Int) (c : Conn) :
    AfterWait sendtime c (sendReady freeSent data datalen) sckErrTimeOut
      (fun e => if e = ETIMEDOUT then sckErrTimeOut else -1) (sckSend freeSent sendtime data datalen c) := by
  have hw := ioTimeout_waited (toUnsigned sendtime) c
  rw [sckSend, writeTimeout, Prog.bind_run]
  generalize ioTimeout (toUnsigned sendtime) c = r at hw ⊢
  cases hw with
  | ready os e h1 => exact .ready os e h1
  | timeout os h1 h2 => exact .timeout os h1 h2
  | failed os e h1 h2 =>
    dsimp only
    rw [if_neg (by decide), sendRet_failed_eq]
    exact .failed os e h1 h2
  | stalled e h1 h2 => exact .stalled e h1 h2

/-! ## The four calls -/

/-- One of the four operations, with its arguments but the timeout. -/
inductive MsgOp where
  | send (side : Side) (data : Option (List UInt8)) (datalen : Int)
  | rev (side : Side) (out outlen : Bool)

namespace MsgOp

/-- The call returns at once with `Sck_ErrParam`. -/
def Rejects : MsgOp → Prop
  | send .client data datalen => data = none ∨ datalen ≤ 0
  | send .server _ _ => False
  | rev _ out outlen => out = false ∨ outlen = false

def Sends : MsgOp → Prop
  | send _ _ _ => True
  | rev _ _ _ => False

/-- The length is an `int`. -/
def InRange : MsgOp → Prop
  | send _ _ datalen => -2 ^ 31 ≤ datalen ∧ datalen < 2 ^ 31
  | rev _ _ _ => True

/-- The result of a call, and what a receive delivers. -/
def call (timeout : Int) : MsgOp → Prog Conn (Int × Option Delivered)
  | send side data datalen => do return (← side.send timeout data datalen, none)
  | rev side out outlen => side.rev timeout out outlen

/-- The same once the wait returned 0. -/
def ready : MsgOp → Prog Conn (Int × Option Delivered)
  | send side data datalen => do return (← sendReady (side = .client) data datalen, none)
  | rev _ _ _ => revReady

/-- What the call makes of a wait that returned -1 and left `errno`. -/
def waitCode (errno : Int) : MsgOp → Int
  | send _ _ _ => if errno = ETIMEDOUT then sckErrTimeOut else -1
  | rev _ _ _ => sckErrTimeOut

theorem waitCode_ne_zero (op : MsgOp) (e : Int) : op.waitCode e ≠ 0 := by
  cases op with
  | send side data datalen => rw [waitCode]; split <;> decide
  | rev side out outlen => exact (by decide : sckErrTimeOut ≠ 0)

theorem call_rejected {op : MsgOp} (h : op.Rejects) (timeout : Int) (c : Conn) :
    op.call timeout c = .ret (sckErrParam, none) c := by
  cases op with
  | send side data datalen =>
    cases side with
    | client =>
      have hrun : sckClientSend timeout data datalen c = .ret sckErrParam c := congrFun (if_pos h) c
      exact Prog.bind_ret hrun
    | server => cases h
  | rev side out outlen =>
    rw [call, Side.rev_eq]
    exact congrFun (if_pos h) c

/-- Both sends run the same body. -/
theorem send_eq {side : Side} {data : Option (List UInt8)} {datalen : Int} (h : ¬ (send side data datalen).Rejects)
    (timeout : Int) : side.send timeout data datalen = sckSend (side = .client) timeout data datalen := by
  cases side with
  | client => exact if_neg h
  | server => rfl

theorem call_end {op : MsgOp} (h : ¬ op.Rejects) (timeout : Int) (c : Conn) :
    AfterWait timeout c op.ready (sckErrTimeOut, none) (fun e => (op.waitCode e, none)) (op.call timeout c) := by
  cases op with
  | send side data datalen =>
    rw [call, send_eq h]
    exact (sckSend_afterWait _ timeout data datalen c).map fun ret => (ret, none)
  | rev side out outlen =>
    have hset : ¬ (out = false ∨ outlen = false) := h
    have hw := ioTimeout_waited (toUnsigned timeout) c
    rw [call, Side.rev_eq, sckRev, if_neg hset, readTimeout, Prog.bind_run]
    generalize ioTimeout (toUnsigned timeout) c = r at hw ⊢
    cases hw with
    | ready os e h1 => exact .ready os e h1
    | timeout os h1 h2 => exact .timeout os h1 h2
    | failed os e h1 h2 => exact .failed os e h1 h2
    | stalled e h1 h2 => exact .stalled e h1 h2

end MsgOp

/-! ## A send of any length -/

/-- What `malloc` is asked for, and `writen` after it. -/
def frameSize (datalen : Int) : Nat := toSize (toInt (datalen + 4))

/-- The bytes copied into the block. -/
def frameBytes (data : Option (List UInt8)) (datalen : Int) : List UInt8 :=
  htonl datalen ++ (data.getD []).take (toSize datalen)

/-- What a send does with its block before the checks of `writen`'s result. -/
def sendOps (blk : Nat) (datalen : Int) : List MemOp :=
  [.malloc blk (frameSize datalen), .memcpy blk 0 4, .memcpy blk 4 (toSize datalen), .writen blk (frameSize datalen)]

/-- A block is granted only for a length from -4 to 2^31 - 5. -/
theorem frame_granted {c : Conn} {datalen : Int} (h1 : -2 ^ 31 ≤ datalen) (h2 : datalen < 2 ^ 31)
    (h : c.Grants (frameSize datalen)) : -4 ≤ datalen ∧ datalen ≤ 2 ^ 31 - 5 := by
  have hsize := h.2
  rw [frameSize, toSize, PTRDIFF_MAX] at hsize
  unfold toInt at hsize
  rw [Int.bmod_def] at hsize
  split at hsize <;> omega

theorem frameSize_eq {datalen : Int} (h1 : -4 ≤ datalen) (h2 : datalen ≤ 2 ^ 31 - 5) :
    toInt (datalen + 4) = datalen + 4 ∧ frameSize datalen = (datalen + 4).toNat := by
  have h4 : toInt (datalen + 4) = datalen + 4 := toInt_eq (by omega) (by omega)
  rw [frameSize, h4]
  exact ⟨rfl, toSize_eq (by omega) (by omega)⟩

/-- The environment in which a send calls `writen`. -/
def Conn.framed (c : Conn) (datalen : Int) : Conn :=
  { c with mallocs := c.mallocs.tail, blocks := c.blocks + 1, trace := c.trace ++ sendOps c.blocks datalen }

theorem sendNetdata_framed (data : Option (List UInt8)) {datalen : Int} {c : Conn}
    (h : c.Grants (frameSize datalen)) :
    sendNetdata data datalen c =
      (do return some (c.blocks, toInt (← writen (frameBytes data datalen) (frameSize datalen)))) (c.framed datalen) := by
  have hops : c.trace ++ [MemOp.malloc c.blocks (frameSize datalen)] ++ [MemOp.memcpy c.blocks 0 4] ++
      [MemOp.memcpy c.blocks 4 (toSize datalen)] ++ [MemOp.writen c.blocks (frameSize datalen)] =
      c.trace ++ sendOps c.blocks datalen := by simp [sendOps]
  unfold sendNetdata
  rw [show toSize (toInt (datalen + 4)) = frameSize datalen from rfl, Prog.bind_ret (malloc_some h)]
  simp only [note, Prog.bind_run, Prog.update_run, Conn.alloc, Conn.framed, ← hops]
  rfl

/-- What a send does once its wait returned 0: it gets no block, or the schedule takes
the whole frame, or it fails, or it is still writing. -/
inductive SendRun (freeSent : Bool) (data : Option (List UInt8)) (datalen : Int) (c : Conn) : Outcome Conn Int → Prop
  | noBlock (c') : ¬ c.Grants (frameSize datalen) → c'.trace = c.trace → c'.blocks = c.blocks →
      SendRun freeSent data datalen c (.ret sckErrMalloc c')
  | sent (c') : c.Grants (frameSize datalen) → takes (frameSize datalen) c.writes = true →
      c'.output = c.output ++ (frameBytes data datalen).take (frameSize datalen) →
      c'.trace = c.trace ++ (sendOps c.blocks datalen ++ if freeSent then [.free c.blocks] else []) →
      c'.blocks = c.blocks + 1 → SendRun freeSent data datalen c (.ret 0 c')
  | failed (c') : c.Grants (frameSize datalen) → takes (frameSize datalen) c.writes = false →
      c'.trace = c.trace ++ (sendOps c.blocks datalen ++ [.free c.blocks]) → c'.blocks = c.blocks + 1 →
      SendRun freeSent data datalen c (.ret (-1) c')
  | stalled (c') : c.Grants (frameSize datalen) → c'.trace = c.trace ++ sendOps c.blocks datalen →
      SendRun freeSent data datalen c (.stalled c')

theorem sendReady_run (freeSent : Bool) (data : Option (List UInt8)) {datalen : Int} (h1 : -2 ^ 31 ≤ datalen)
    (h2 : datalen < 2 ^ 31) (c : Conn) : SendRun freeSent data datalen c (sendReady freeSent data datalen c) := by
  unfold sendReady
  by_cases hmal : c.Grants (frameSize datalen)
  · obtain ⟨hlow, hhigh⟩ := frame_granted h1 h2 hmal
    obtain ⟨h4, hsize⟩ := frameSize_eq hlow hhigh
    have hcount : frameSize datalen ≤ PTRDIFF_MAX := hmal.2
    have hwhole : toSsize (frameSize datalen) = datalen + 4 := by
      rw [hsize, toSsize_eq (by omega) (by omega)]
      omega
    have htakes := writenLoop_takes hcount c.writes (frameSize datalen) (frameBytes data datalen) (c.framed datalen)
    have hw := writen_end (frameBytes data datalen) (frameSize datalen) (c.framed datalen)
    rw [Prog.bind_run, sendNetdata_framed data hmal, h4, Prog.bind_run]
    rw [show writenLoop _ c.writes _ _ _ = writen (frameBytes data datalen) (frameSize datalen) (c.framed datalen)
      from rfl] at htakes
    generalize writen (frameBytes data datalen) (frameSize datalen) (c.framed datalen) = r at hw htakes ⊢
    cases hw with
    | sent ws e =>
      have hfull : ¬ datalen + 4 < datalen + 4 := by omega
      dsimp only
      rw [hwhole, h4, Prog.pure_run]
      dsimp only
      rw [if_neg hfull]
      cases freeSent
      · exact .sent _ hmal (htakes.mpr ⟨_, rfl⟩) rfl (by simp [Conn.gave, Conn.framed]) rfl
      · exact .sent _ hmal (htakes.mpr ⟨_, rfl⟩) rfl (by simp [Conn.gave, Conn.framed]) rfl
    | failed k ws e hk =>
      have hno : takes (frameSize datalen) c.writes = false := by
        refine Bool.eq_false_iff.mpr fun ht => ?_
        obtain ⟨c', hc'⟩ := htakes.mp ht
        injection hc' with hret
        omega
      have hshort : (-1 : Int) < datalen + 4 := by omega
      dsimp only
      rw [show toInt (-1) = -1 from rfl, Prog.pure_run]
      dsimp only
      rw [if_pos hshort]
      exact .failed _ hmal hno (by simp [Conn.gave, Conn.framed]) rfl
    | stalled k e hk => exact .stalled _ hmal rfl
  · rw [Prog.bind_run, sendNetdata, show toSize (toInt (datalen + 4)) = frameSize datalen from rfl,
      Prog.bind_ret (malloc_none hmal)]
    exact .noBlock _ hmal rfl rfl

end CSocket
