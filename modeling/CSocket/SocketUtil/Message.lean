import CSocket.SocketUtil.Io
import CSocket.Lib.Framing
/-!
# The message operations

`sckClient_send`, `sckServer_send`, `sckClient_rev` and `sckServer_rev` of
`socketutil.c`, with the error codes of `poolsocket.h`. The texts the code logs
are left out. `revPayload_end`, `revReady_end` and `sckRev_end` say all that a
receive can do.
-/
namespace CSocket

/-! ## Error codes -/

def sckBaseErr : Int := 3000
def sckErrParam : Int := sckBaseErr + 1
def sckErrTimeOut : Int := sckBaseErr + 2
def sckErrPeerClosed : Int := sckBaseErr + 3
def sckErrMalloc : Int := sckBaseErr + 4

/-! ## Sending -/

/-- The part of a send between the wait and the checks of its result: the frame
is built in a block (`none`: no block) and written. -/
def sendNetdata (data : Option (List UInt8)) (datalen : Int) : Prog Conn (Option (Nat × Int)) := do
  match ← malloc (toSize (toInt (datalen + 4))) with
  | none => return none
  | some netdata =>
    note (.memcpy netdata 0 4)
    note (.memcpy netdata 4 (toSize datalen))
    note (.writen netdata (toSize (toInt (datalen + 4))))
    let writed ← writen (htonl datalen ++ (data.getD []).take (toSize datalen)) (toSize (toInt (datalen + 4)))
    return some (netdata, toInt writed)

/-- `if (ret < 0) { .. }` at the end of both sends. -/
def sendRet (ret : Int) : Prog Conn Int := do
  let errno ← Prog.read Conn.errno
  if ret < 0 then
    if ret = -1 ∧ errno = ETIMEDOUT then return sckErrTimeOut
    else return ret
  else return ret

/-- A send once its wait returned 0. The client releases the block of a frame
that was sent (`freeSent`), the server does not. -/
def sendReady (freeSent : Bool) (data : Option (List UInt8)) (datalen : Int) : Prog Conn Int := do
  match ← sendNetdata data datalen with
  | none => return sckErrMalloc
  | some (netdata, writed) =>
    if writed < toInt (datalen + 4) then do
      note (.free netdata)
      return writed
    else if freeSent then do
      note (.free netdata)
      sendRet 0
    else sendRet 0

/-- The body of the two sends after the client's check. -/
def sckSend (freeSent : Bool) (sendtime : Int) (data : Option (List UInt8)) (datalen : Int) : Prog Conn Int := do
  let ret ← writeTimeout (toUnsigned sendtime)
  if ret = 0 then sendReady freeSent data datalen
  else sendRet ret

def sckClientSend (sendtime : Int) (data : Option (List UInt8)) (datalen : Int) : Prog Conn Int :=
  if data = none ∨ datalen ≤ 0 then return sckErrParam
  else sckSend true sendtime data datalen

def sckServerSend (timeout : Int) (data : Option (List UInt8)) (datalen : Int) : Prog Conn Int :=
  sckSend false timeout data datalen

/-! ## Receiving -/

/-- `*out` and `*outlen` after a receive that returned 0. -/
structure Delivered where
  out : List UInt8
  outlen : Int
  deriving DecidableEq

/-- A receive once `malloc(n + 1)` returned the block `tmpBuf`. -/
def revPayload (n : Int) (tmpBuf : Nat) : Prog Conn (Int × Option Delivered) := do
  note (.readn tmpBuf (toSize n))
  let (ret, bytes) ← readn (toSize n)
  let ret := toInt ret
  if ret = -1 then return (ret, none)
  else if ret < n then return (sckErrPeerClosed, none)
  else do
    -- `tmpBuf[n] = '\0'`
    note (.store tmpBuf n)
    return (0, some ⟨bytes, n⟩)

/-- A receive once its wait returned 0. -/
def revReady : Prog Conn (Int × Option Delivered) := do
  let (ret, netdatalen) ← readn 4
  let ret := toInt ret
  if ret = -1 then return (ret, none)
  else if ret < 4 then return (sckErrPeerClosed, none)
  else do
    let n := toInt (ntohl netdatalen)
    match ← malloc (toSize (toInt (n + 1))) with
    | none => return (sckErrMalloc, none)
    | some tmpBuf => revPayload n tmpBuf

/-- The body the two receives share; they differ in what they log. `out` and
`outlen` say whether the caller's pointers are non-null. -/
def sckRev (revtime : Int) (out outlen : Bool) : Prog Conn (Int × Option Delivered) :=
  if out = false ∨ outlen = false then return (sckErrParam, none)
  else do
    let ret ← readTimeout (toUnsigned revtime)
    let errno ← Prog.read Conn.errno
    if ret ≠ 0 then
      if ret = -1 ∨ errno = ETIMEDOUT then return (sckErrTimeOut, none)
      else return (ret, none)
    else revReady

def sckClientRev (revtime : Int) (out outlen : Bool) : Prog Conn (Int × Option Delivered) :=
  sckRev revtime out outlen

def sckServerRev (timeout : Int) (out outlen : Bool) : Prog Conn (Int × Option Delivered) :=
  sckRev timeout out outlen

/-- The two ends of a connection. -/
inductive Side where
  | client
  | server
  deriving DecidableEq

def Side.peer : Side → Side
  | client => server
  | server => client

def Side.send : Side → Int → Option (List UInt8) → Int → Prog Conn Int
  | client => sckClientSend
  | server => sckServerSend

def Side.rev : Side → Int → Bool → Bool → Prog Conn (Int × Option Delivered)
  | client => sckClientRev
  | server => sckServerRev

theorem Side.rev_eq (side : Side) : side.rev = sckRev := by
  cases side <;> rfl

/-! ## What a receive can do -/

/-- The length field of a stream, as the receive computes it. -/
def headerLen (s : List UInt8) : Int := toInt (ntohl (s.take 4))

/-- The two conversions do nothing to a length a sender admits. -/
theorem headerLen_eq {s : List UInt8} (h : ntohl (s.take 4) ≤ 2 ^ 31 - 2) : headerLen s = ntohl (s.take 4) :=
  toInt_eq (by omega) (by omega)

theorem blockSize_eq {n : Nat} (h : n ≤ 2 ^ 31 - 2) : toSize (toInt ((n : Int) + 1)) = n + 1 := by
  rw [toInt_eq (by omega) (by omega), toSize_eq (by omega) (by omega)]
  omega

/-- The four ways out of `revPayload n tmpBuf`, from the environment `c` in which
it calls `readn`. -/
inductive PayloadEnd (n : Nat) (tmpBuf : Nat) (c : Conn) : Outcome Conn (Int × Option Delivered) → Prop
  | delivered (rs e) : n ≤ c.input.length → rs <:+ c.reads → readies c.reads ≤ readies rs + n →
      PayloadEnd n tmpBuf c
        (.ret (0, some ⟨c.input.take n, n⟩) { c.took n rs e with trace := c.trace ++ [.store tmpBuf n] })
  | closed (rs e) : c.input.length < n → PayloadEnd n tmpBuf c
      (.ret (sckErrPeerClosed, none) (c.took c.input.length rs e))
  | failed (k rs e) : HardRead c.reads → PayloadEnd n tmpBuf c (.ret (-1, none) (c.took k rs e))
  | stalled (k e) : k ≤ c.input.length → readies c.reads ≤ k → PayloadEnd n tmpBuf c (.stalled (c.took k [] e))

theorem toInt_toSsize {k : Nat} (hk : k ≤ 2 ^ 31 - 1) : toInt (toSsize (k : Int)) = k := by
  rw [toSsize_eq (by omega) (by omega), toInt_eq (by omega) (by omega)]

theorem revPayload_end {n : Nat} (hn : n ≤ 2 ^ 31 - 2) (tmpBuf : Nat) (c : Conn) :
    PayloadEnd n tmpBuf { c with trace := c.trace ++ [.readn tmpBuf n] } (revPayload n tmpBuf c) := by
  have hsize : toSize (n : Int) = n := by
    rw [toSize_eq (by omega) (by omega)]
    rfl
  unfold revPayload
  rw [show (note (.readn tmpBuf (toSize n)) >>= fun _ => _) c = _ from Prog.bind_ret (Prog.update_run _ c), hsize,
    Prog.bind_run]
  generalize ({ c with trace := _ } : Conn) = c1
  have hread := readn_end n c1
  generalize readn n c1 = r at hread ⊢
  cases hread with
  | full rs e h1 _ h2 h3 =>
    have hneg : ¬ (n : Int) = -1 := by omega
    simp only [toInt_toSsize (show n ≤ 2 ^ 31 - 1 by omega), hneg, Int.lt_irrefl, if_false, List.nil_append]
    exact .delivered rs e h1 h2 h3
  | eof rs e h1 h2 h3 =>
    have hneg : ¬ ((c1.input.length : Nat) : Int) = -1 := by omega
    have hlt : ((c1.input.length : Nat) : Int) < n := by omega
    rw [show (n : Int) - n + (c1.input.length : Int) = (c1.input.length : Nat) by omega]
    simp only [toInt_toSsize (show c1.input.length ≤ 2 ^ 31 - 1 by omega), hneg, hlt, if_true, if_false]
    exact .closed rs e h1
  | failed k rs e _ _ _ _ h => exact .failed k rs e h
  | stalled k e _ h1 _ h2 => exact .stalled k e h1 h2

/-- What a receive can do once its wait returned 0, up to the call of `readn`
for the payload. -/
inductive ReadyEnd (c : Conn) : Outcome Conn (Int × Option Delivered) → Prop
  | failed (k rs e) : (4 ≤ c.input.length → arrives 4 c.reads = false) → HardRead c.reads → ReadyEnd c (.ret (-1, none) (c.took k rs e))
  | closed (rs e) : c.input.length < 4 → ReadyEnd c (.ret (sckErrPeerClosed, none) (c.took c.input.length rs e))
  | stalled (k e) : (4 ≤ c.input.length → arrives 4 c.reads = false) → k ≤ c.input.length →
      readies c.reads ≤ k → ReadyEnd c (.stalled (c.took k [] e))
  | noBlock (rs e) : 4 ≤ c.input.length → ¬ c.Grants (toSize (toInt (headerLen c.input + 1))) →
      ReadyEnd c (.ret (sckErrMalloc, none) { c.took 4 rs e with mallocs := c.mallocs.tail })
  | block (rs e) : 4 ≤ c.input.length → arrives 4 c.reads = true →
      c.Grants (toSize (toInt (headerLen c.input + 1))) → rs <:+ c.reads → readies c.reads ≤ readies rs + 4 →
      ReadyEnd c (revPayload (headerLen c.input) c.blocks
        ((c.took 4 rs e).alloc (toSize (toInt (headerLen c.input + 1)))))

theorem revReady_end (c : Conn) : ReadyEnd c (revReady c) := by
  have hread := readn_end 4 c
  unfold revReady
  rw [Prog.bind_run]
  generalize readn 4 c = r at hread ⊢
  cases hread with
  | failed k rs e _ _ h1 _ h2 => exact .failed k rs e h1 h2
  | stalled k e _ h1 h2 h3 => exact .stalled k e h2 h1 h3
  | eof rs e h1 h2 h3 =>
    have hneg : ¬ ((c.input.length : Nat) : Int) = -1 := by omega
    have hlt : ((c.input.length : Nat) : Int) < 4 := by omega
    rw [show ((4 : Nat) : Int) - (4 : Nat) + (c.input.length : Int) = (c.input.length : Nat) by omega]
    simp only [toInt_toSsize (show c.input.length ≤ 2 ^ 31 - 1 by omega), hneg, hlt, if_true, if_false]
    exact .closed rs e h1
  | full rs e h1 h2 h3 h4 =>
    have hcode : toInt (toSsize ((4 : Nat) : Int)) = 4 := by decide
    have hneg : ¬ (4 : Int) = -1 := by decide
    simp only [hcode, hneg, Int.lt_irrefl, if_false, List.nil_append]
    rw [show toInt (ntohl (c.input.take 4)) = headerLen c.input from rfl, Prog.bind_run]
    by_cases hg : c.Grants (toSize (toInt (headerLen c.input + 1)))
    · rw [malloc_some (c := c.took 4 rs e) hg]
      exact .block rs e h1 h2 hg h3 h4
    · rw [malloc_none (c := c.took 4 rs e) hg]
      exact .noBlock rs e h1 hg

/-- What a receive can do with its wait. -/
inductive RevEnd (revtime : Int) (c : Conn) : Outcome Conn (Int × Option Delivered) → Prop
  | timeout (os e) : toUnsigned revtime ≠ 0 → firstReady c.selects = false →
      selReadies c.selects = selReadies os → os.length < c.selects.length →
      RevEnd revtime c (.ret (sckErrTimeOut, none) { c with selects := os, errno := e })
  | stalled (e) : toUnsigned revtime ≠ 0 → firstReady c.selects = false → selReadies c.selects = 0 →
      RevEnd revtime c (.stalled { c with selects := [], errno := e })
  | ready (os e) : (toUnsigned revtime = 0 ∨ firstReady c.selects = true) →
      (toUnsigned revtime = 0 ∨ selReadies c.selects = selReadies os + 1) →
      RevEnd revtime c (revReady { c with selects := os, errno := e })

theorem sckRev_end (revtime : Int) (c : Conn) : RevEnd revtime c (sckRev revtime true true c) := by
  have hw := ioTimeout_end (toUnsigned revtime) c
  unfold sckRev readTimeout
  rw [if_neg (by simp), Prog.bind_run]
  generalize ioTimeout (toUnsigned revtime) c = r at hw ⊢
  cases hw with
  | skip h => exact .ready c.selects c.errno (.inl h) (.inl h)
  | ready os e h1 h2 => exact .ready os e (.inr h1) (.inr h2)
  | failed os e h1 h2 h3 h4 => exact .timeout os e h1 h2 h3 h4
  | stalled e h1 h2 h3 => exact .stalled e h1 h2 h3

end CSocket
