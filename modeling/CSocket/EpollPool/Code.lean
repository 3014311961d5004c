import CSocket.Lib.Epoll
import CSocket.SimplePool.Code
/-!
# The edge-triggered thread-pool server

`threadpoolsimple.c` of the server with epoll: `main` accepts connections and
queues a task for every event, the workers run `taskRun`. The connections live in
the kernel, so a descriptor is a number that `close` frees and `accept` gives out
again; a task has the number only. One thread more, `net`, is the outside: data
arrives, and peers hang up.

What a system call returns is an input. Where one is not possible, or would end
the process, the thread stays where it is. `conn` of a task and of an event, the
`Ledger` of a connection and `accesses` are a history the code does not have.
Whether `epoll_wait` reports a connection is up to `edge` only: a superset of
what the kernel reports.
-/
namespace CSocket.EpollPool
open Pthread SimplePool Epoll

/-! ## Connections -/

/-- The account of a connection: its number, the bytes that `Read` returned from
it, the bytes that `Write` accepted on it, and how often its number was closed
before `accept` returned it again. -/
structure Ledger where
  fd : Nat := 0
  opened : Bool := false
  read : List UInt8 := []
  written : List UInt8 := []
  closes : Nat := 0
  deriving DecidableEq

/-- `input` has arrived and was not read yet; `eof` says that the peer has hung
up; `edge`, that there is something new since the last report. -/
structure Conn extends Ledger where
  input : List UInt8 := []
  eof : Bool := false
  registered : Bool := false
  edge : Bool := false
  deriving DecidableEq

/-- `conn` is the connection whose event led to the task. -/
structure PoolTask where
  fd : Nat := 0
  conn : Nat := 0
  deriving DecidableEq, Inhabited

structure Event where
  fd : Nat
  events : Nat
  conn : Nat
  deriving DecidableEq

/-- A `Read`, `Write` or `close` in a task for connection `conn`, and the connection
that had the number then. -/
structure Access where
  conn : Nat
  target : Option Nat
  deriving DecidableEq

/-- Connections are numbered in the order of their `accept`s. -/
structure Net where
  lfd : Nat
  conns : Nat → Conn := fun _ => {}
  accepted : Nat := 0
  /-- The connection that a number was last given to. -/
  latest : Nat → Option Nat := fun _ => none
  accesses : List Access := []

inductive Input where
  | none
  | events (b : List Event)
  | accept (fd : Nat)
  /-- At most so many bytes are read or written. -/
  | count (n : Nat)
  /-- `Read` fails, not with `EAGAIN`. -/
  | error
  /-- The memory of `task->epfd` happens to be the number of the epoll instance. -/
  | epfd
  | arrive (conn : Nat) (bytes : List UInt8)
  | hangup (conn : Nat)
  deriving DecidableEq

/-- What `Read` returns: bytes, 0, or -1 with `EAGAIN` or another error. -/
inductive ReadResult where
  | data (bytes : List UInt8)
  | eof
  | again
  | error
  deriving DecidableEq

def Input.size : Input → Nat
  | .count n => n
  | _ => 0

namespace Net

/-- The open connection that has the number. -/
def cur (d : Net) (fd : Nat) : Option Nat := (d.latest fd).filter fun i => (d.conns i).opened

def modify (d : Net) (i : Nat) (f : Conn → Conn) : Net :=
  { d with conns := fun j => if j = i then f (d.conns j) else d.conns j }

@[simp] theorem modify_conns (d : Net) (i j : Nat) (f : Conn → Conn) :
    (d.modify i f).conns j = if j = i then f (d.conns j) else d.conns j := rfl
@[simp] theorem modify_latest (d : Net) (i : Nat) (f : Conn → Conn) : (d.modify i f).latest = d.latest := rfl
@[simp] theorem modify_accepted (d : Net) (i : Nat) (f : Conn → Conn) : (d.modify i f).accepted = d.accepted := rfl
@[simp] theorem modify_accesses (d : Net) (i : Nat) (f : Conn → Conn) : (d.modify i f).accesses = d.accesses := rfl

/-- Change the connection that has the number, if it is open. -/
def modifyFd (d : Net) (fd : Nat) (f : Conn → Conn) : Net :=
  match d.cur fd with
  | some i => d.modify i f
  | none => d

def access (d : Net) (task : PoolTask) : Net := { d with accesses := ⟨task.conn, d.cur task.fd⟩ :: d.accesses }

@[simp] theorem access_conns (d : Net) (task : PoolTask) : (d.access task).conns = d.conns := rfl
@[simp] theorem access_latest (d : Net) (task : PoolTask) : (d.access task).latest = d.latest := rfl
@[simp] theorem access_accepted (d : Net) (task : PoolTask) : (d.access task).accepted = d.accepted := rfl
@[simp] theorem access_cur (d : Net) (task : PoolTask) (fd : Nat) : (d.access task).cur fd = d.cur fd := rfl
@[simp] theorem access_accesses (d : Net) (task : PoolTask) :
    (d.access task).accesses = ⟨task.conn, d.cur task.fd⟩ :: d.accesses := rfl

/-- `epoll_wait` may report `b`: registered connections with something new, and
the listening descriptor. -/
def Reports (d : Net) (b : List Event) : Prop :=
  (∀ e ∈ b, e.fd = d.lfd ∨
    d.cur e.fd = some e.conn ∧ (d.conns e.conn).registered = true ∧ (d.conns e.conn).edge = true) ∧
  (b.map Event.fd).Nodup ∧ b.length ≤ 1024

instance (d : Net) (b : List Event) : Decidable (d.Reports b) := instDecidableAnd

/-- The edges of `b` are reported. -/
def report (d : Net) (b : List Event) : Net :=
  { d with conns := fun i =>
      if b.any fun e => e.fd ≠ d.lfd ∧ e.conn = i then { d.conns i with edge := false } else d.conns i }

/-- `Accept` returned `fd`, and it was made non-blocking. -/
def accept (d : Net) (fd : Nat) : Net :=
  { d with
    conns := fun i => if i = d.accepted then { fd, opened := true } else d.conns i
    accepted := d.accepted + 1
    latest := fun fd' => if fd' = fd then some d.accepted else d.latest fd' }

/-- `EPOLL_CTL_ADD` with `EPOLLIN | EPOLLET`. -/
def register (d : Net) (fd : Nat) : Net := d.modifyFd fd fun c => { c with registered := true }

def unregister (d : Net) (fd : Nat) : Net := d.modifyFd fd fun c => { c with registered := false }

/-- Through an error no data arrives, and there is something new. -/
def arrive (d : Net) (i : Nat) (bytes : List UInt8) : Net :=
  d.modify i fun c =>
    if c.opened then { c with input := if c.eof then c.input else c.input ++ bytes, edge := true } else c

def hangup (d : Net) (i : Nat) : Net :=
  d.modify i fun c => if c.opened then { c with eof := true, edge := true } else c

/-- What `Read(fd, buf, 1024)` returns. -/
def readResult (d : Net) (fd : Nat) (x : Input) : ReadResult :=
  match d.cur fd with
  | none => .error
  | some i =>
    if x = .error then .error
    else if (d.conns i).input ≠ [] then .data ((d.conns i).input.take (min 1024 (max 1 x.size)))
    else if (d.conns i).eof then .eof
    else .again

/-- `Read` returned `bytes`. -/
def consume (d : Net) (fd : Nat) (bytes : List UInt8) : Net :=
  d.modifyFd fd fun c => { c with read := c.read ++ bytes, input := c.input.drop bytes.length }

/-- `Write` accepted `bytes`. -/
def send (d : Net) (fd : Nat) (bytes : List UInt8) : Net :=
  d.modifyFd fd fun c => { c with written := c.written ++ bytes }

/-- `close` of a number that is not open counts for the connection that had it. -/
def close (d : Net) (fd : Nat) : Net :=
  match d.latest fd with
  | some i => d.modify i fun c => { c with opened := false, registered := false, closes := c.closes + 1 }
  | none => d

end Net

/-! ## Positions -/

/-- `rest` are the events of the batch that are still to come. -/
inductive MainPc where
  | wait
  | event (e : Event) (rest : List Event)
  | accept (rest : List Event)
  | ctl (fd : Nat) (rest : List Event)
  | addtask (pc : AddPc PoolTask (List Event))
  deriving DecidableEq

inductive TaskPc where
  | read (task : PoolTask)
  | write (task : PoolTask) (bytes : List UInt8)
  | close (task : PoolTask)
  | ctl (task : PoolTask)
  deriving DecidableEq

inductive Pc where
  | worker (pc : WorkerPc PoolTask)
  | task (pc : TaskPc)
  | main (pc : MainPc)
  | net
  deriving DecidableEq

/-! ## The code -/

abbrev ServerInstr := Instr Mutex Cond Pc Input (Shared PoolTask Net)

/-- `taskRun`, on the worker's copy of the task. -/
def taskCode : TaskPc → ServerInstr
  | .read task => .data fun _ x d =>
    let env := d.env.access task
    match env.readResult task.fd x with
    | .data bytes => ({ d with env := env.consume task.fd bytes }, .task (.write task bytes))
    | .again => ({ d with env }, .worker (.lock task))
    | .error => ({ d with env }, .task (.close task))
    | .eof => ({ d with env }, .task (.close task))
  -- the result of `Write` is not looked at
  | .write task bytes => .data fun _ x d =>
    ({ d with env := (d.env.access task).send task.fd (bytes.take x.size) }, .task (.read task))
  | .close task => .assign (fun _ d => { d with env := (d.env.access task).close task.fd }) (.task (.ctl task))
  -- `task->epfd` was never assigned
  | .ctl task => .data fun _ x d =>
    (if x = .epfd then { d with env := d.env.unregister task.fd } else d, .worker (.lock task))

/-- The next event of the batch, or the next `epoll_wait`. -/
def nextEvent : List Event → Pc
  | [] => .main .wait
  | e :: rest => .main (.event e rest)

/-- Called for one event; `main` goes on with the rest. -/
def addtask : AddPc PoolTask (List Event) → ServerInstr :=
  SimplePool.addtask (fun pc => .main (.addtask pc)) nextEvent fun task d => (task, d.env)

def mainCode : MainPc → ServerInstr
  | .wait => .data fun _ x d => match x with
    | .events b => if d.env.Reports b then ({ d with env := d.env.report b }, nextEvent b) else (d, .main .wait)
    | _ => (d, .main .wait)
  | .event e rest => .data fun _ _ d => (d,
    if e.fd = d.env.lfd ∧ e.events &&& EPOLLIN ≠ 0 then .main (.accept rest)
    else if e.events &&& EPOLLIN ≠ 0 then .main (.addtask (.lock ⟨e.fd, e.conn⟩ rest))
    else nextEvent rest)
  | .accept rest => .data fun _ x d => match x with
    | .accept fd =>
      if fd ≠ d.env.lfd ∧ d.env.cur fd = none then ({ d with env := d.env.accept fd }, .main (.ctl fd rest))
      else (d, .main (.accept rest))
    | _ => (d, .main (.accept rest))
  | .ctl fd rest => .assign (fun _ d => { d with env := d.env.register fd }) (nextEvent rest)
  | .addtask pc => addtask pc

def netCode : ServerInstr := .data fun _ x d => match x with
  | .arrive i bytes => ({ d with env := d.env.arrive i bytes }, .net)
  | .hangup i => ({ d with env := d.env.hangup i }, .net)
  | _ => (d, .net)

/-- The server's tasks have their number in the copy; `arg` is not in the model. -/
def thrRun : WorkerPc PoolTask → ServerInstr := SimplePool.thrRun id .worker fun task => .task (.read task)

def code : Pc → ServerInstr
  | .worker pc => thrRun pc
  | .task pc => taskCode pc
  | .main pc => mainCode pc
  | .net => netCode

/-! ## Where a pthread call leads -/

inductive Moves : Pc → Pc → Prop
  | lock (task) : Moves (.worker (.lock task)) (.worker (.test task))
  | wait (task) : Moves (.worker (.wait task)) (.worker (.test task))
  | signal (task) : Moves (.worker (.signal task)) (.worker (.shutdown task))
  | quit : Moves (.worker .quit) (.worker .exit)
  | unlock (task) : Moves (.worker (.unlock task)) (.task (.read task))
  | addLock (arg rest) : Moves (.main (.addtask (.lock arg rest))) (.main (.addtask (.test arg rest)))
  | addWait (arg rest) : Moves (.main (.addtask (.wait arg rest))) (.main (.addtask (.test arg rest)))
  | addUnlock (rest) : Moves (.main (.addtask (.unlock rest))) (.main (.addtask (.signal rest)))
  | addSignal (rest) : Moves (.main (.addtask (.signal rest))) (nextEvent rest)

theorem moves {pc k : Pc} (h : (code pc).Goes k) : Moves pc k := by
  cases pc with
  | worker pc => cases pc <;> first | (obtain rfl := h; constructor) | exact h.elim
  | task pc => cases pc <;> exact h.elim
  | main pc =>
    cases pc with
    | addtask pc => cases pc <;> first | (obtain rfl := h; constructor) | exact h.elim
    | _ => exact h.elim
  | net => exact h.elim

/-! ## Runs -/

abbrev ServerState := State Mutex Cond Pc (Shared PoolTask Net)

abbrev ServerAct := Act Input Pc

abbrev serverStep : ServerState → ServerAct → Option ServerState := Pthread.step code fun _ => false

/-- `create_threadpool(thrnum, maxtasknum)` and the set-up of the listening
descriptor. The memory of the queue and of a worker's copy is not initialised. -/
def create (thrnum maxtasknum lfd : Nat) (raw copy : Nat → PoolTask) : ServerState where
  threads := (List.range thrnum).map (fun t => .running (.worker (.lock (copy t)))) ++
    [.running (.main .wait), .running .net]
  owner _ := none
  shared := {
    pool := { maxJobNum := maxtasknum, thrNum := thrnum, tasks := (List.range maxtasknum).map raw }
    env := { lfd } }

end CSocket.EpollPool
