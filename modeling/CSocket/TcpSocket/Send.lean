import CSocket.TcpSocket.Receive
/-!
# The send of `TcpSocket`

`TcpSocket::writen`, `TcpSocket::writeTimeout` and `TcpSocket::sendMsg`, beside `writen`
and `sckClient_send` of `socketutil.c`. The write loops are the same up to the integer
types, and so are the sends, for any arguments. What is logged is left out.
-/
namespace CSocket.TcpSocket

/-! ## The code -/

/-- `writen`'s loop; `count` is an `int`, and `nleft` a `size_t`. -/
def writenLoop (count : Int) : List WriteOutcome → Nat → List UInt8 → Conn → Outcome Conn Int
  | ws, nleft, bufp, c =>
    if nleft = 0 then .ret count { c with writes := ws }
    else match ws with
      | [] => .stalled { c with writes := [] }
      | .error e :: ws =>
        if e = EINTR then writenLoop count ws nleft bufp { c with errno := e }
        else .ret (-1) { c with errno := e, writes := ws }
      | .accepts k :: ws =>
        let n := min k nleft
        if n = 0 then writenLoop count ws nleft bufp c
        else writenLoop count ws (nleft - n) (bufp.drop n) { c with output := c.output ++ bufp.take n }

/-- `writen` of the first `count` bytes of `buf`. -/
def writen (buf : List UInt8) (count : Int) : Prog Conn Int := fun c => writenLoop count c.writes (toSize count) buf c

def writeTimeout (waitSeconds : Nat) : Prog Conn Int := ioTimeout waitSeconds

/-- A send once its wait returned 0: the frame is built in a block, written, and the
block released. `none` is `MallocError`. -/
def sendReady (sendData : Option (List UInt8)) (dataLen : Int) : Prog Conn Int := do
  match ← malloc (toSize (toInt (dataLen + 4))) with
  | none => return MallocError
  | some netdata => do
    note (.memcpy netdata 0 4)
    note (.memcpy netdata 4 (toSize dataLen))
    note (.writen netdata (toSize (toInt (dataLen + 4))))
    let writed ← writen (htonl dataLen ++ (sendData.getD []).take (toSize dataLen)) (toInt (dataLen + 4))
    if writed < toInt (dataLen + 4) then do
      note (.free netdata)
      return writed
    else do
      note (.free netdata)
      return 0

def sendMsg (sendData : Option (List UInt8)) (dataLen timeout : Int) : Prog Conn Int :=
  if sendData = none ∨ dataLen ≤ 0 then return ParamError
  else do
    let ret ← writeTimeout (toUnsigned timeout)
    if ret = 0 then sendReady sendData dataLen
    else do
      let errno ← Prog.read Conn.errno
      if ret < 0 then
        if ret = -1 ∧ errno = ETIMEDOUT then return TimeoutError
        else return ret
      else return ret

/-! ## The same loop -/

/-- The result of the C loop, as an `int`. -/
def narrowInt : Outcome Conn Int → Outcome Conn Int
  | .ret ret c => .ret (toInt ret) c
  | .stalled c => .stalled c

theorem writenLoop_eq {count : Int} (hcount : toInt count = count) (ws : List WriteOutcome) :
    ∀ (nleft : Nat) (bufp : List UInt8) (c : Conn),
      writenLoop count ws nleft bufp c = narrowInt (CSocket.writenLoop (toSize count) ws nleft bufp c) := by
  have hdone : toInt (toSsize (toSize count : Nat)) = count := by rw [toInt_toSsize, toInt_toSize, hcount]
  induction ws with
  | nil =>
    intro nleft bufp c
    unfold writenLoop CSocket.writenLoop
    split
    · rw [narrowInt, hdone]
    · rfl
  | cons o ws ih =>
    intro nleft bufp c
    unfold writenLoop CSocket.writenLoop
    split
    · rw [narrowInt, hdone]
    · cases o with
      | error e =>
        dsimp only
        split
        · exact ih nleft bufp _
        · rfl
      | accepts k =>
        dsimp only
        split
        · exact ih nleft bufp c
        · exact ih _ _ _

/-- `writen` of the class writes as the C function does. -/
theorem writen_eq (buf : List UInt8) {count : Int} (hcount : toInt count = count) {α : Type} (f : Int → Prog Conn α) :
    writen buf count >>= f = CSocket.writen buf (toSize count) >>= fun x => f (toInt x) := by
  funext c
  rw [Prog.bind_run, Prog.bind_run, writen, CSocket.writen, writenLoop_eq hcount]
  cases CSocket.writenLoop (toSize count) c.writes (toSize count) buf c <;> rfl

/-! ## The same send -/

theorem sendReady_eq (sendData : Option (List UInt8)) (dataLen : Int) :
    sendReady sendData dataLen = CSocket.sendReady true sendData dataLen := by
  funext c
  unfold sendReady CSocket.sendReady sendNetdata
  rw [Prog.bind_run, Prog.bind_run, Prog.bind_run]
  cases malloc (toSize (toInt (dataLen + 4))) c with
  | stalled c1 => rfl
  | ret blk c1 =>
    cases blk with
    | none => rfl
    | some netdata =>
      simp only [writen_eq _ (toInt_toInt (dataLen + 4))]
      simp only [note, Prog.bind_run, Prog.update_run, Prog.pure_run]
      cases CSocket.writen _ _ _ with
      | stalled c2 => rfl
      | ret writed c2 =>
        dsimp only [Prog.pure_run]
        split <;> rfl

/-- The two sends are the same function. -/
theorem sendMsg_eq (sendData : Option (List UInt8)) (dataLen timeout : Int) :
    sendMsg sendData dataLen timeout = sckClientSend timeout sendData dataLen := by
  unfold sendMsg sckClientSend sckSend
  rw [sendReady_eq]
  rfl

end CSocket.TcpSocket
