import CSocket.Os
import CSocket.SocketUtil.Message
/-!
# The connection pool's functions

`poolsocket.c`: `sckCltPool_init`, `sckCltPool_getConnet`, `sckCltPool_putConnet`
and `sckCltPool_destroy` on the pool's handle. A `Pool` is the handle together with
the record of what was done through it (`PoolOp`): mutex calls, descriptors
opened and closed, array stores, log lines. The log lines tell apart the three
failures that share the code 3022.

The handle's copies of the address and of the send and receive times are left
out: no function here reads them but to pass them on.
-/
namespace CSocket

/-! ## Error codes -/

def sckErrPoolCreateConn : Int := sckBaseErr + 20
def sckErrPoolTerminated : Int := sckBaseErr + 21
def sckErrPoolGetConnValidIsZero : Int := sckBaseErr + 22
def sckErrPoolHaveExist : Int := sckBaseErr + 22
def sckErrPoolValidBounds : Int := sckBaseErr + 22

/-! ## The handle -/

/-- An array obtained from `malloc`: its address and its cells. -/
structure IntArray where
  addr : Nat := 0
  cells : List Int := []
  deriving DecidableEq

structure SockePoolHandle where
  fdArray : IntArray := {}
  statusArray : IntArray := {}
  valid : Int := 0
  nvalid : Int := 0
  bounds : Int := 0
  serverport : Int := 0
  connecttime : Int := 0
  sTimeout : Int := 0
  terminated : Int := 0
  deriving DecidableEq

inductive PoolOp where
  /-- `pthread_mutex_lock` and `unlock` of `foo_mutex`, through the handle or
  through `NULL`. -/
  | lock (handle : Bool)
  | unlock (handle : Bool)
  | usleep (t : Int)
  | socket (fd : Nat)
  | close (fd : Int)
  | storeFd (i : Int)
  | storeStatus (i : Int)
  | free (addr : Nat)
  | freeHandle
  | log (ret : Int) (text : String)
  deriving DecidableEq

structure Pool where
  hdl : SockePoolHandle
  ops : List PoolOp := []
  deriving DecidableEq

namespace Pool

def act (p : Pool) (op : PoolOp) : Pool := { p with ops := p.ops ++ [op] }

def fdAt (p : Pool) (i : Int) : Int := p.hdl.fdArray.cells.getD i.toNat 0

def statusAt (p : Pool) (i : Int) : Int := p.hdl.statusArray.cells.getD i.toNat 0

def storeFd (p : Pool) (i x : Int) : Pool :=
  { hdl := { p.hdl with fdArray.cells := p.hdl.fdArray.cells.set i.toNat x }, ops := p.ops ++ [.storeFd i] }

def storeStatus (p : Pool) (i x : Int) : Pool :=
  { hdl := { p.hdl with statusArray.cells := p.hdl.statusArray.cells.set i.toNat x }, ops := p.ops ++ [.storeStatus i] }

def setValid (p : Pool) (n : Int) : Pool := { p with hdl := { p.hdl with valid := n } }

end Pool

/-! ## Connecting and closing -/

/-- What `sckClient_connect` meets once its parameters pass. -/
inductive ConnectOutcome where
  | noSocket (errno : Int)
  /-- `socket()` returned `sockfd`; then `connect_timeout` gave `ret` and left
  `errno`. -/
  | socket (sockfd : Nat) (ret errno : Int)
  deriving DecidableEq

/-- `sckClient_connect`: the result and `*connfd` where it is set. -/
def sckClientConnect (port connecttime : Int) (o : ConnectOutcome) (p : Pool) : Int × Option Int × Pool :=
  if port ≤ 0 ∨ port > 65537 ∨ connecttime < 0 then
    (sckErrParam, none, p.act (.log sckErrParam
      "func sckClient_connect() err, check  (ip==NULL || connfd==NULL || port<=0 || port>65537 || connecttime < 0)"))
  else match o with
    | .noSocket errno => (errno, none, p)
    | .socket sockfd ret errno =>
      let p := p.act (.socket sockfd)
      if ret < 0 then
        -- a timeout leaves the socket open and `*connfd` unset
        if ret = -1 ∧ errno = ETIMEDOUT then (sckErrTimeOut, none, p)
        else (ret, some sockfd, p.act (.log ret "func connect_timeout() err"))
      else (ret, some sockfd, p)

def sckClientCloseconn (connfd : Int) (p : Pool) : Int × Pool :=
  if connfd ≥ 0 then (0, p.act (.close connfd)) else (0, p)

/-! ## Getting and putting -/

/-- The tests of `sckCltPool_getConnet` up to the sleep: an error, or whether it
sleeps. -/
def getTest (p : Pool) : Except Int Bool :=
  if p.hdl.terminated = 1 then .error sckErrPoolTerminated
  else .ok (p.hdl.valid = 0)

/-- The tests after the sleep. -/
def getRetest (p : Pool) : Option (Int × String) :=
  if p.hdl.valid = 0 then
    some (sckErrPoolGetConnValidIsZero, "func sckCltPool_getConnet() Sck_Err_Pool_GetConn_ValidIsZero err")
  else if p.hdl.terminated = 1 then
    some (sckErrPoolTerminated, "func sckCltPool_getConnet() (terminated == 1)")
  else none

/-- The repair of the top connection where its status says it is broken. -/
def getRepair (o : ConnectOutcome) (p : Pool) : Int × Pool :=
  let top := p.hdl.valid - 1
  if p.statusAt top = 0 then
    let p := if p.fdAt top = 0 then
        let (ret, p) := sckClientCloseconn (p.fdAt top) p
        if ret ≠ 0 then (p.act (.log ret " func sckClient_closeconn() err 断开坏掉的连接失败")).storeFd top 0 else p
      else p
    let (ret, connfd, p) := sckClientConnect p.hdl.serverport p.hdl.connecttime o p
    let p := match connfd with
      | some fd => p.storeFd top fd
      | none => p
    if ret ≠ 0 then (ret, (p.act (.log ret " func sckClient_connect() err 断链修复 重新连接失败")).storeFd top 0)
    else (ret, p)
  else (0, p)

/-- `END` of `sckCltPool_getConnet`. -/
def getEnd (ret : Int) (p : Pool) : Int × Option Int × Pool :=
  if ret = 0 then
    let p := p.setValid (p.hdl.valid - 1)
    (ret, some (p.fdAt p.hdl.valid), p.act (.unlock true))
  else (ret, none, p.act (.unlock true))

/-- `handle` and `connfd` say whether the pointers are non-null. -/
def sckCltPoolGetConnet (handle connfd : Bool) (o : ConnectOutcome) (p : Pool) : Int × Option Int × Pool :=
  if handle = false ∨ connfd = false then
    (sckErrParam, none, p.act (.log sckErrParam
      "func sckCltPool_getConnet() (handle == NULL || connfd==NULL) err"))
  else
    let p := p.act (.lock true)
    match getTest p with
    | .error ret => getEnd ret (p.act (.log ret "func sckCltPool_getConnet() (terminated == 1)"))
    | .ok false =>
      let (ret, p) := getRepair o p
      getEnd ret p
    | .ok true =>
      -- the mutex is held over the sleep
      let p := p.act (.usleep p.hdl.sTimeout)
      match getRetest p with
      | some (ret, text) => getEnd ret (p.act (.log ret text))
      | none =>
        let (ret, p) := getRepair o p
        getEnd ret p

def haveExistText : String := " func sckCltPool_putConnet() err, check Sck_Err_Pool_HaveExist "

def validBoundsText : String := " func sckCltPool_putConnet() err, check (hdl->valid >= hdl->bounds) "

def reconnectFailedText : String := " func sckClient_connect() err, 断链修复 重新连接失败"

/-- `hdl->fdArray[hdl->valid] = fd; hdl->statusArray[hdl->valid] = 1; hdl->valid++;` -/
def putPush (fd : Int) (p : Pool) : Pool :=
  let p := p.storeFd p.hdl.valid fd
  let p := p.storeStatus p.hdl.valid 1
  p.setValid (p.hdl.valid + 1)

/-- The branch of `sckCltPool_putConnet` for a connection its user found broken. -/
def putRepair (connfd : Int) (o : ConnectOutcome) (p : Pool) : Int × Pool :=
  let (ret, p) := sckClientCloseconn connfd p
  let p := if ret ≠ 0 then
      p.act (.log ret " func sckClient_closeconn() err, check (hdl->valid >= hdl->bounds) ") else p
  let (ret, tmpconnectfd, p) := sckClientConnect p.hdl.serverport p.hdl.connecttime o p
  if ret ≠ 0 then (ret, p.act (.log ret reconnectFailedText))
  else (ret, putPush (tmpconnectfd.getD 0) p)

/-- `handle` says whether the pointer is non-null. The parameter check reaches
`END` with `hdl` still `NULL`. -/
def sckCltPoolPutConnet (handle : Bool) (connfd validFlag : Int) (o : ConnectOutcome) (p : Pool) : Int × Pool :=
  if handle = false ∨ connfd < 0 then
    (sckErrParam, (p.act (.log sckErrParam
      " func sckCltPool_putConnet() err, check (handle == NULL || connfd==NULL)")).act (.unlock false))
  else
    let p := p.act (.lock true)
    if p.hdl.terminated = 1 then
      let p := p.act (.log sckErrPoolTerminated
        " func sckCltPool_putConnet() err, check (func sckCltPool_putConnet() (terminated == 1))")
      let p := p.storeFd p.hdl.valid connfd
      (sckErrPoolTerminated, (p.setValid (p.hdl.valid + 1)).act (.unlock true))
    else if (List.range p.hdl.valid.toNat).any fun i => p.fdAt i = connfd then
      (sckErrPoolHaveExist, (p.act (.log sckErrPoolHaveExist haveExistText)).act (.unlock true))
    else if p.hdl.valid ≥ p.hdl.bounds then
      (sckErrPoolValidBounds, (p.act (.log sckErrPoolValidBounds validBoundsText)).act (.unlock true))
    else if validFlag = 1 then (0, (putPush connfd p).act (.unlock true))
    else
      let (ret, p) := putRepair connfd o p
      (ret, p.act (.unlock true))

/-! ## Initialisation -/

/-- What the three `malloc`s of `sckCltPool_init` return: an address or `NULL`,
and the contents found there. -/
structure InitMem where
  hdl : Option SockePoolHandle
  fdArray : Option Nat
  fdCells : Nat → Int
  statusArray : Option Nat
  statusCells : Nat → Int

structure SCKClitPoolParam where
  serverport : Int
  bounds : Int
  connecttime : Int

/-- `(int *)malloc(bounds * sizeof(int))`: a negative count is a request above
`PTRDIFF_MAX`. -/
def mallocInts (bounds : Int) (addr : Option Nat) (cells : Nat → Int) : Option IntArray :=
  if bounds < 0 then none
  else addr.map fun a => { addr := a, cells := (List.range bounds.toNat).map cells }

/-- The connect loop from index `i`, with `n` rounds to go. -/
def initConnect (outs : Nat → ConnectOutcome) : Nat → Nat → Int → Pool → Int × Pool
  | 0, _, ret, p => (ret, p)
  | n + 1, i, _, p =>
    let (ret, connfd, p) := sckClientConnect p.hdl.serverport p.hdl.connecttime (outs i) p
    let p := match connfd with
      | some fd => p.storeFd i fd
      | none => p
    if ret ≠ 0 then (ret, p.act (.log ret "func sckClient_connect() err"))
    else
      let p := p.storeStatus i 1
      initConnect outs n (i + 1) ret
        { p with hdl := { p.hdl with valid := p.hdl.valid + 1, nvalid := p.hdl.nvalid - 1 } }

/-- The loop that closes what was connected, from index `i` on. -/
def initClose : Nat → Nat → Pool → Pool
  | 0, _, p => p
  | n + 1, i, p => initClose n (i + 1) (if p.statusAt i = 1 then (sckClientCloseconn (p.fdAt i) p).2 else p)

/-- The texts of `sckCltPool_init` where it finds fewer connections than it wants. -/
def initTooFew (p : Pool) : Pool :=
  let p := p.act (.log sckErrPoolCreateConn "有效连接数 小于 总数")
  p.act (.log sckErrPoolCreateConn (s!"func sckClient_init() create connect num err:{sckErrPoolCreateConn}" ++
    s!",  hdl->valid: {p.hdl.valid} , hdl->bounds:{p.hdl.bounds}"))

/-- `END` of `sckCltPool_init`: the handle is returned, or freed with the arrays
its pointers name. -/
def initEnd (ret : Int) (p : Pool) : Int × Option SockePoolHandle × List PoolOp :=
  let p := p.act (.unlock true)
  if ret ≠ 0 then
    let p := if p.hdl.fdArray.addr ≠ 0 then p.act (.free p.hdl.fdArray.addr) else p
    let p := if p.hdl.statusArray.addr ≠ 0 then p.act (.free p.hdl.statusArray.addr) else p
    (ret, none, p.ops ++ [.freeHandle, .log ret "func pthread_mutex_unlock() err"])
  else (ret, some p.hdl, p.ops)

/-- `sckCltPool_init`. The handle's memory is not cleared: `memset` reaches its
first eight bytes, the pointer `fdArray`. -/
def sckCltPoolInit (mem : InitMem) (param : SCKClitPoolParam) (outs : Nat → ConnectOutcome) :
    Int × Option SockePoolHandle × List PoolOp :=
  match mem.hdl with
  | none => (sckErrMalloc, none, [.log sckErrMalloc "func sckCltPool_init(), check malloc err"])
  | some raw =>
    let hdl : SockePoolHandle := { raw with
      fdArray.addr := 0
      serverport := param.serverport
      connecttime := param.connecttime
      bounds := param.bounds
      valid := 0
      nvalid := param.bounds
      sTimeout := 1 }
    let p : Pool := { hdl, ops := [.lock true] }
    match mallocInts p.hdl.bounds mem.fdArray mem.fdCells with
    | none => initEnd sckErrMalloc (p.act (.log sckErrMalloc "func sckCltPool_init(), check malloc err"))
    | some fdArray =>
      let p := { p with hdl := { p.hdl with fdArray } }
      match mallocInts p.hdl.bounds mem.statusArray mem.statusCells with
      | none =>
        -- the assignment of the result clears the pointer
        initEnd sckErrMalloc ({ p with hdl := { p.hdl with statusArray.addr := 0 } }.act
          (.log sckErrMalloc "func sckCltPool_init(), check malloc err"))
      | some statusArray =>
        let p := { p with hdl := { p.hdl with statusArray } }
        let (ret, p) := initConnect outs p.hdl.bounds.toNat 0 0 p
        if p.hdl.valid < p.hdl.bounds then
          initEnd sckErrPoolCreateConn (initClose p.hdl.bounds.toNat 0 (initTooFew p))
        else initEnd ret p

/-! ## Destruction -/

/-- The closing loop of `sckCltPool_destroy` from index `i`, with `n` rounds to go. -/
def destroyClose : Nat → Nat → Pool → Pool
  | 0, _, p => p
  | n + 1, i, p => destroyClose n (i + 1) (if p.fdAt i ≠ 0 then (sckClientCloseconn (p.fdAt i) p).2 else p)

/-- The arrays and the handle are freed; what was done with the pool is left. -/
def destroyEnd (p : Pool) : Int × List PoolOp :=
  let p := if p.hdl.fdArray.addr ≠ 0 then p.act (.free p.hdl.fdArray.addr) else p
  let p := if p.hdl.statusArray.addr ≠ 0 then p.act (.free p.hdl.statusArray.addr) else p
  (0, p.ops ++ [.unlock true, .freeHandle])

/-- `handle` says whether the pointer is non-null. -/
def sckCltPoolDestroy (handle : Bool) (p : Pool) : Int × List PoolOp :=
  if handle = false then
    (sckErrParam, p.ops ++ [.log sckErrParam " func sckCltPool_destroy() err, check (handle == NULL)"])
  else
    let p := p.act (.lock true)
    let p := { p with hdl := { p.hdl with terminated := 1 } }
    destroyEnd (destroyClose p.hdl.bounds.toNat 0 p)

end CSocket
