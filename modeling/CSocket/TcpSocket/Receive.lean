import CSocket.SocketUtil.Message
/-!
# The receive of `TcpSocket`

`TcpSocket::readn` and `TcpSocket::recvMsg` of the C++ class, beside `readn` and
`sckClient_rev` of `socketutil.c`. The read loops are the same up to the integer
types (`readn_eq`). `recvMsg` took over the null test of `outlen`, and its `recvLen` is
a reference: what it tests is the caller's number. What is logged is left out.
-/
namespace CSocket.TcpSocket

/-! ## The code -/

/-- `enum ErrorType` -/
def ParamError : Int := 3001
def TimeoutError : Int := ParamError + 1
def PeerCloseError : Int := TimeoutError + 1
def MallocError : Int := PeerCloseError + 1

/-- `readn`'s loop; `count` is an `int`, and `nleft` a `size_t`. -/
def readnLoop (count : Int) : List ReadOutcome → Nat → List UInt8 → Conn → Outcome Conn (Int × List UInt8)
  | rs, nleft, buf, c =>
    if nleft = 0 then .ret (count, buf) { c with reads := rs }
    else match rs with
      | [] => .stalled { c with reads := [] }
      | .error e :: rs =>
        if e = EINTR then readnLoop count rs nleft buf { c with errno := e }
        else .ret (-1, buf) { c with errno := e, reads := rs }
      | .ready k :: rs =>
        let got := c.input.take (min (k + 1) nleft)
        if got.length = 0 then .ret (toInt (toSize ((toSize count : Int) - nleft)), buf) { c with reads := rs }
        else readnLoop count rs (nleft - got.length) (buf ++ got) { c with input := c.input.drop got.length }

def readn (count : Int) : Prog Conn (Int × List UInt8) := fun c => readnLoop count c.reads (toSize count) [] c

def readTimeout (waitSeconds : Nat) : Prog Conn Int := ioTimeout waitSeconds

/-- A receive once `malloc(n + 1)` returned the block `tmpBuf`. -/
def recvPayload (n : Int) (tmpBuf : Nat) : Prog Conn (Int × Option Delivered) := do
  note (.readn tmpBuf (toSize n))
  let (ret, bytes) ← readn n
  if ret = -1 then return (ret, none)
  else if ret < n then return (PeerCloseError, none)
  else do
    note (.store tmpBuf n)
    return (0, some ⟨bytes, n⟩)

/-- A receive once its wait returned 0. -/
def recvReady : Prog Conn (Int × Option Delivered) := do
  let (ret, netdatalen) ← readn 4
  if ret = -1 then return (ret, none)
  else if ret < 4 then return (PeerCloseError, none)
  else do
    let n := toInt (ntohl netdatalen)
    match ← malloc (toSize (toInt (n + 1))) with
    | none => return (MallocError, none)
    | some tmpBuf => recvPayload n tmpBuf

/-- `recvData` says whether the pointer is non-null, `recvLen` is the caller's number. -/
def recvMsg (recvData : Bool) (recvLen timeout : Int) : Prog Conn (Int × Option Delivered) :=
  -- `recvLen == NULL`
  if recvData = false ∨ recvLen = 0 then return (ParamError, none)
  else do
    let ret ← readTimeout (toUnsigned timeout)
    let errno ← Prog.read Conn.errno
    if ret ≠ 0 then
      if ret = -1 ∨ errno = ETIMEDOUT then return (TimeoutError, none)
      else return (ret, none)
    else recvReady

/-! ## The same loop -/

theorem toInt_toSsize (x : Int) : toInt (toSsize x) = toInt x := Int.bmod_bmod_of_dvd (by decide)

theorem toInt_toSize (x : Int) : toInt (toSize x) = toInt x := by
  have hnat : (toSize x : Int) = x % 2 ^ 64 := Int.toNat_of_nonneg (Int.emod_nonneg _ (by decide))
  rw [hnat, toInt, toInt, ← Int.emod_bmod, Int.emod_emod_of_dvd x (by decide), Int.emod_bmod]

theorem toInt_toInt (x : Int) : toInt (toInt x) = toInt x := Int.bmod_bmod_of_dvd (Nat.dvd_refl _)

/-- The result of the C loop, as an `int`. -/
def narrow : Outcome Conn (Int × List UInt8) → Outcome Conn (Int × List UInt8)
  | .ret (ret, buf) c => .ret (toInt ret, buf) c
  | .stalled c => .stalled c

theorem readnLoop_eq {count : Int} (hcount : toInt count = count) (rs : List ReadOutcome) :
    ∀ (nleft : Nat) (buf : List UInt8) (c : Conn),
      readnLoop count rs nleft buf c = narrow (CSocket.readnLoop (toSize count) rs nleft buf c) := by
  have hdone : toInt (toSsize (toSize count : Nat)) = count := by rw [toInt_toSsize, toInt_toSize, hcount]
  induction rs with
  | nil =>
    intro nleft buf c
    unfold readnLoop CSocket.readnLoop
    split
    · rw [narrow, hdone]
    · rfl
  | cons o rs ih =>
    intro nleft buf c
    unfold readnLoop CSocket.readnLoop
    split
    · rw [narrow, hdone]
    · cases o with
      | error e =>
        dsimp only
        split
        · exact ih nleft buf _
        · rfl
      | ready k =>
        dsimp only
        split
        · rw [narrow, toInt_toSsize, toInt_toSize]
        · exact ih _ _ _

/-- `readn` of the class reads as the C function does. -/
theorem readn_eq {count : Int} (hcount : toInt count = count) {α : Type} (f : Int × List UInt8 → Prog Conn α) :
    readn count >>= f = CSocket.readn (toSize count) >>= fun x => f (toInt x.1, x.2) := by
  funext c
  rw [Prog.bind_run, Prog.bind_run, readn, CSocket.readn, readnLoop_eq hcount]
  cases CSocket.readnLoop (toSize count) c.reads (toSize count) [] c <;> rfl

/-! ## The same receive -/

theorem recvPayload_eq {n : Int} (hn : toInt n = n) (tmpBuf : Nat) : recvPayload n tmpBuf = revPayload n tmpBuf := by
  unfold recvPayload revPayload
  rw [readn_eq hn]
  rfl

theorem recvReady_eq : recvReady = revReady := by
  unfold recvReady revReady
  rw [readn_eq (by decide)]
  have hpayload (n : Nat) (tmpBuf : Nat) : recvPayload (toInt n) tmpBuf = revPayload (toInt n) tmpBuf :=
    recvPayload_eq (toInt_toInt n) tmpBuf
  simp only [hpayload]
  rfl

/-- With a number other than 0 in `recvLen` the two receives are the same. -/
theorem recvMsg_eq {recvLen : Int} (h : recvLen ≠ 0) (timeout : Int) :
    recvMsg true recvLen timeout = sckClientRev timeout true true := by
  unfold recvMsg sckClientRev sckRev
  rw [if_neg (by simp [h]), if_neg (by simp), recvReady_eq]
  rfl

/-! ## The theorem -/

/-- The same code, message and length, and the same bytes consumed. -/
def Agree : Outcome Conn (Int × Option Delivered) → Outcome Conn (Int × Option Delivered) → Prop
  | .ret r c, .ret r' c' => r = r' ∧ c.input = c'.input
  | .stalled c, .stalled c' => c.input = c'.input
  | _, _ => False

theorem Agree.refl (r : Outcome Conn (Int × Option Delivered)) : Agree r r := by
  cases r with
  | ret a c => exact ⟨rfl, rfl⟩
  | stalled c => exact rfl

/-- The outcome is not the code `ParamError`. -/
def NotParam : Outcome Conn (Int × Option Delivered) → Prop
  | .ret r _ => r.1 ≠ ParamError
  | .stalled _ => True

theorem revPayload_notParam (n : Int) (tmpBuf : Nat) (c : Conn) : NotParam (revPayload n tmpBuf c) := by
  unfold revPayload
  rw [show (note (.readn tmpBuf (toSize n)) >>= fun _ => _) c = _ from Prog.bind_ret (Prog.update_run _ c), Prog.bind_run]
  generalize CSocket.readn (toSize n) _ = r
  cases r with
  | stalled c => trivial
  | ret x c =>
    dsimp only
    split
    case isTrue h =>
      rw [h]
      show (-1 : Int) ≠ ParamError
      decide
    case isFalse =>
      split
      · show sckErrPeerClosed ≠ ParamError
        decide
      · show (0 : Int) ≠ ParamError
        decide

/-- A receive into two non-null pointers does not return the code of a null one. -/
theorem rev_notParam (revtime : Int) (c : Conn) : NotParam (sckClientRev revtime true true c) := by
  have hend : RevEnd revtime c (sckClientRev revtime true true c) := sckRev_end revtime c
  generalize sckClientRev revtime true true c = r at hend
  cases hend with
  | timeout =>
    show sckErrTimeOut ≠ ParamError
    decide
  | stalled => trivial
  | ready os e =>
    have hready := revReady_end { c with selects := os, errno := e }
    generalize revReady { c with selects := os, errno := e } = r at hready
    cases hready with
    | failed =>
      show (-1 : Int) ≠ ParamError
      decide
    | closed =>
      show sckErrPeerClosed ≠ ParamError
      decide
    | stalled => trivial
    | noBlock =>
      show sckErrMalloc ≠ ParamError
      decide
    | block => exact revPayload_notParam _ _ _

/-- On every stream and schedule `recvMsg` does what `sckClient_rev` does, if and only
if the caller's `recvLen` is not 0 before the call. -/
theorem recvMsg_iff (recvLen timeout : Int) (c : Conn) :
    Agree (recvMsg true recvLen timeout c) (sckClientRev timeout true true c) ↔ recvLen ≠ 0 := by
  constructor
  · rintro hagree rfl
    have hnot := rev_notParam timeout c
    rw [show recvMsg true 0 timeout c = .ret (ParamError, none) c from rfl] at hagree
    cases hr : sckClientRev timeout true true c with
    | stalled c' =>
      rw [hr] at hagree
      exact hagree
    | ret r c' =>
      rw [hr] at hagree hnot
      exact hnot (congrArg Prod.fst hagree.1).symm
  · intro h
    rw [recvMsg_eq h]
    exact .refl _

/-- One message waits, and the variable for its length holds 0. -/
theorem recvMsg_rejects : ∃ c : Conn, ¬ Agree (recvMsg true 0 0 c) (sckClientRev 0 true true c) ∧
    (∃ c', recvMsg true 0 0 c = .ret (ParamError, none) c') ∧
    ∃ c', sckClientRev 0 true true c = .ret (0, some ⟨[65], 1⟩) c' := by
  let c : Conn := { reads := [.ready 3, .ready 0], input := [0, 0, 0, 1, 65] }
  let c' : Conn := { blocks := 1, trace := [.malloc 0 2, .readn 0 1, .store 0 1] }
  have hrev : sckClientRev 0 true true c = .ret (0, some ⟨[65], 1⟩) c' := by decide +kernel
  refine ⟨c, ?_, ⟨c, rfl⟩, c', hrev⟩
  rw [hrev]
  rintro ⟨hcode, -⟩
  cases hcode

end CSocket.TcpSocket
