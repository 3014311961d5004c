import CSocket.Lib.Pthread
import CSocket.PoolSocket.Clients
/-!
# The connection pool under threads

`sckCltPool_getConnet` and `sckCltPool_putConnet` step by step, on one pool and with
its `foo_mutex`. Each thread makes one call, and a put is of a descriptor that a get
has handed out and nobody has put since: `held` is a history. Locking and unlocking
are steps here, and not in the record of the pool.
-/
namespace CSocket.PoolSocket
open Pthread

/-! ## Data -/

/-- `null` is the mutex that a put unlocks through a handle that is not set. -/
inductive Mutex where
  | fooMutex
  | null
  deriving DecidableEq

structure Data where
  pool : Pool
  /-- The descriptors that clients hold. -/
  held : List Int := []
  deriving DecidableEq

def Data.act (d : Data) (op : PoolOp) : Data := { d with pool := d.pool.act op }

/-! ## Positions -/

inductive GetPc where
  | lock
  | test
  | sleep
  | retest
  | status
  | reconnect
  /-- `END` -/
  | finish (ret : Int)
  | unlock (ret : Int) (connfd : Option Int)
  | returned (ret : Int) (connfd : Option Int)
  deriving DecidableEq

inductive PutPc where
  | call (connfd validFlag : Int)
  | param (connfd validFlag : Int)
  | lock (connfd validFlag : Int)
  | test (connfd validFlag : Int)
  | push (connfd : Int)
  | repair (connfd : Int)
  | unlock (ret : Int)
  | unlockNull
  | returned (ret : Int)
  deriving DecidableEq

inductive Pc where
  | get (pc : GetPc)
  | put (pc : PutPc)
  deriving DecidableEq

/-! ## The code -/

abbrev PoolInstr := Instr Mutex Empty Pc ConnectOutcome Data

/-- `sckCltPool_getConnet` behind its parameter check. -/
def getCode : GetPc → PoolInstr
  | .lock => .lock .fooMutex (.get .test)
  | .test => .data fun _ _ d => match getTest d.pool with
    | .error ret => (d.act (.log ret "func sckCltPool_getConnet() (terminated == 1)"), .get (.finish ret))
    | .ok true => (d, .get .sleep)
    | .ok false => (d, .get .status)
  | .sleep => .assign (fun _ d => d.act (.usleep d.pool.hdl.sTimeout)) (.get .retest)
  | .retest => .data fun _ _ d => match getRetest d.pool with
    | some (ret, text) => (d.act (.log ret text), .get (.finish ret))
    | none => (d, .get .status)
  | .status => .branch (fun d => d.pool.statusAt (d.pool.hdl.valid - 1) = 0) (.get .reconnect) (.get (.finish 0))
  | .reconnect => .data fun _ o d =>
    let (ret, pool) := getRepair o d.pool
    ({ d with pool }, .get (.finish ret))
  | .finish ret => .data fun _ _ d =>
    if ret = 0 then
      let top := d.pool.hdl.valid - 1
      ({ pool := d.pool.setValid top, held := d.pool.fdAt top :: d.held }, .get (.unlock ret (some (d.pool.fdAt top))))
    else (d, .get (.unlock ret none))
  | .unlock ret connfd => .unlock .fooMutex (.get (.returned ret connfd))
  | .returned _ _ => .halt

/-- `sckCltPool_putConnet` of a descriptor that the client gives up with the call. -/
def putCode : PutPc → PoolInstr
  | .call connfd validFlag => .data fun _ _ d =>
    if connfd ∈ d.held then ({ d with held := d.held.erase connfd }, .put (.param connfd validFlag))
    else (d, .put (.call connfd validFlag))
  | .param connfd validFlag => .data fun _ _ d =>
    if connfd < 0 then
      (d.act (.log sckErrParam " func sckCltPool_putConnet() err, check (handle == NULL || connfd==NULL)"),
        .put .unlockNull)
    else (d, .put (.lock connfd validFlag))
  | .lock connfd validFlag => .lock .fooMutex (.put (.test connfd validFlag))
  | .test connfd validFlag => .data fun _ _ d =>
    if d.pool.hdl.terminated = 1 then
      let pool := (d.pool.act (.log sckErrPoolTerminated
        " func sckCltPool_putConnet() err, check (func sckCltPool_putConnet() (terminated == 1))")).storeFd
          d.pool.hdl.valid connfd
      ({ d with pool := pool.setValid (pool.hdl.valid + 1) }, .put (.unlock sckErrPoolTerminated))
    else if (List.range d.pool.hdl.valid.toNat).any fun i => d.pool.fdAt i = connfd then
      (d.act (.log sckErrPoolHaveExist haveExistText), .put (.unlock sckErrPoolHaveExist))
    else if d.pool.hdl.valid ≥ d.pool.hdl.bounds then
      (d.act (.log sckErrPoolValidBounds validBoundsText), .put (.unlock sckErrPoolValidBounds))
    else if validFlag = 1 then (d, .put (.push connfd))
    else (d, .put (.repair connfd))
  | .push connfd => .assign (fun _ d => { d with pool := putPush connfd d.pool }) (.put (.unlock 0))
  | .repair connfd => .data fun _ o d =>
    let (ret, pool) := putRepair connfd o d.pool
    ({ d with pool }, .put (.unlock ret))
  | .unlock ret => .unlock .fooMutex (.put (.returned ret))
  | .unlockNull => .unlock .null (.put (.returned sckErrParam))
  | .returned _ => .halt

def code : Pc → PoolInstr
  | .get pc => getCode pc
  | .put pc => putCode pc

def start : Pc → Bool
  | .get .lock => true
  | .put (.call _ _) => true
  | _ => false

/-! ## Runs -/

abbrev PoolState := State Mutex Empty Pc Data

abbrev PoolAct := Act ConnectOutcome Pc

abbrev poolStep : PoolState → PoolAct → Option PoolState := Pthread.step code start

/-- The pool before the first call. -/
def begin (p : Pool) : PoolState where
  threads := []
  owner _ := none
  shared := { pool := p }

/-- A pool that a successful `sckCltPool_init` has left, not terminated. -/
def Initialised (p : Pool) : Prop :=
  ∃ mem param outs, sckCltPoolInit mem param outs = (0, some p.hdl, p.ops) ∧ p.hdl.terminated = 0 ∧
    (∀ i, (outs i).ok = true) ∧ fresh p.ops = true

def Reachable (s : PoolState) : Prop := ∃ p, Initialised p ∧ Lts.Reach poolStep (begin p) s

/-! ## Where the mutex is held -/

def GetPc.held : GetPc → List Mutex
  | .lock | .returned _ _ => []
  | _ => [.fooMutex]

def PutPc.held : PutPc → List Mutex
  | .test _ _ | .push _ | .repair _ | .unlock _ => [.fooMutex]
  | _ => []

def Pc.held : Pc → List Mutex
  | .get pc => pc.held
  | .put pc => pc.held

theorem discipline : Discipline code start (holdsIn Pc.held) where
  keeps pc := by
    cases pc with
    | get pc =>
      cases pc with
      | lock => exact keeps_lock rfl
      | test =>
        intro t x d
        dsimp only
        split <;> rfl
      | sleep => exact keeps_assign rfl
      | retest =>
        intro t x d
        dsimp only
        split <;> rfl
      | status => exact keeps_branch rfl rfl
      | reconnect => exact fun t x d => rfl
      | finish ret =>
        intro t x d
        dsimp only
        split <;> rfl
      | unlock => exact keeps_unlock rfl rfl
      | returned => trivial
    | put pc =>
      cases pc with
      | call | param =>
        intro t x d
        dsimp only
        split <;> rfl
      | lock => exact keeps_lock rfl
      | test =>
        intro t x d
        dsimp only
        split
        · rfl
        split
        · rfl
        split
        · rfl
        split <;> rfl
      | push => exact keeps_assign rfl
      | repair => exact fun t x d => rfl
      | unlock => exact keeps_unlock rfl rfl
      | unlockNull =>
        intro m
        simp [holdsIn, Pc.held, PutPc.held]
      | returned => trivial
  fresh pc h m := by
    cases pc with
    | get pc => cases pc <;> first | rfl | cases h
    | put pc => cases pc <;> first | rfl | cases h

end CSocket.PoolSocket
