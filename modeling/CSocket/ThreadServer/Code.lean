import CSocket.Lib.Echo
import CSocket.Lib.Lts
/-!
# A thread for each connection

`pthread_tcp_server.c`: `main` accepts connections and creates a detached thread for
each, which runs `client_fun` on an `INFO` block of its own. Threads are numbered in the
order of their creation, blocks in the order of their `malloc`s; no block is freed.

One action is a step of `main` or of one thread from one system call to the next, or one
of the outside: a peer connects, sends or hangs up. What a system call returns is in the
action. A descriptor is a number that `close` frees and `accept` gives out again. The
account and the peer of a connection, the closed connections and those without a thread
are a history.
-/
namespace CSocket.ThreadServer

/-! ## Data -/

/-- `struct _info`; an address is a number. -/
structure Info where
  cfd : Nat := 0
  client : Nat := 0
  deriving DecidableEq

structure Conn extends Account UInt8 where
  eof : Bool := false
  peer : Nat := 0
  deriving DecidableEq

/-- A `read` has something to return. -/
def Conn.Readable (c : Conn) : Prop := c.input ≠ [] ∨ c.eof = true

instance (c : Conn) : Decidable c.Readable := inferInstanceAs (Decidable (_ ∨ _))

inductive ClientPc where
  /-- Before the address is printed. -/
  | start
  | read
  | write (bytes : List UInt8)
  | close
  | done
  deriving DecidableEq

structure Client where
  info : Nat := 0
  pc : ClientPc := .done
  deriving DecidableEq

inductive MainPc where
  | accept
  | alloc (cfd : Nat)
  | create (info : Nat)
  | exit
  deriving DecidableEq

structure Server where
  lfd : Nat
  opened : List Nat
  conns : Nat → Conn := fun _ => {}
  /-- How many peers wait to be accepted. -/
  backlog : Nat := 0
  heap : Nat → Info := fun _ => {}
  /-- The number of blocks so far names the next one. -/
  blocks : Nat := 0
  cliaddr : Nat := 0
  pc : MainPc := .accept
  threads : Nat → Client := fun _ => {}
  created : Nat := 0
  closed : List Conn := []
  /-- The connections for which no thread could be created. -/
  orphans : List Nat := []

inductive Io where
  | none
  /-- A new descriptor, its peer, what that has sent already, and whether it has hung up. -/
  | accept (fd peer : Nat) (input : List UInt8) (eof : Bool)
  /-- At most so many bytes are read or written. -/
  | count (n : Nat)
  | error
  deriving DecidableEq

def Io.size : Io → Nat
  | .count n => n
  | _ => 0

inductive Act where
  | main (io : Io)
  | client (i : Nat) (io : Io)
  | connect
  | arrive (fd : Nat) (bytes : List UInt8)
  | hangup (fd : Nat)
  deriving DecidableEq

inductive ReadResult where
  | data (bytes : List UInt8)
  /-- 0, or an error. -/
  | ended
  | blocks
  deriving DecidableEq

namespace Server

def modify (s : Server) (fd : Nat) (f : Conn → Conn) : Server :=
  { s with conns := fun fd' => if fd' = fd then f (s.conns fd') else s.conns fd' }

@[simp] theorem modify_conns (s : Server) (fd fd' : Nat) (f : Conn → Conn) :
    (s.modify fd f).conns fd' = if fd' = fd then f (s.conns fd') else s.conns fd' := rfl

/-- Thread `i` goes on to `pc`. -/
def goto (s : Server) (i : Nat) (pc : ClientPc) : Server :=
  { s with threads := fun j => if j = i then { s.threads j with pc } else s.threads j }

/-- `Accept` returned `fd` and stored the peer's address. -/
def accept (s : Server) (fd peer : Nat) (input : List UInt8) (eof : Bool) : Server :=
  { s with
    opened := fd :: s.opened
    conns := fun fd' => if fd' = fd then { arrived := input, input, eof, peer } else s.conns fd'
    backlog := s.backlog - 1
    cliaddr := peer
    pc := .alloc fd }

/-- `info = malloc(sizeof(INFO)); info->cfd = cfd; info->client = cliaddr;` -/
def alloc (s : Server) (cfd : Nat) : Server :=
  { s with
    heap := fun info => if info = s.blocks then { cfd, client := s.cliaddr } else s.heap info
    blocks := s.blocks + 1
    pc := .create s.blocks }

/-- `pthread_create` made a thread. -/
def create (s : Server) (info : Nat) : Server :=
  { s with
    threads := fun j => if j = s.created then { info, pc := .start } else s.threads j
    created := s.created + 1
    pc := .accept }

/-- `pthread_create` failed, which `main` does not notice. -/
def orphan (s : Server) (info : Nat) : Server :=
  { s with orphans := (s.heap info).cfd :: s.orphans, pc := .accept }

def close (s : Server) (fd : Nat) : Server :=
  { s with opened := s.opened.filter fun fd' => fd' ≠ fd, closed := s.conns fd :: s.closed }

/-- The descriptor that thread `i` uses. -/
def cfd (s : Server) (i : Nat) : Nat := (s.heap (s.threads i).info).cfd

/-- `Read(info->cfd, recvbuf, sizeof(recvbuf))` -/
def readResult (s : Server) (fd : Nat) (io : Io) : ReadResult :=
  if fd ∉ s.opened ∨ io = .error then .ended
  else if (s.conns fd).input ≠ [] then .data ((s.conns fd).input.take (min 1024 (max 1 io.size)))
  else if (s.conns fd).eof then .ended
  else .blocks

def consume (s : Server) (fd n : Nat) : Server := s.modify fd fun c => { c with toAccount := c.take n }

/-- `Write` took the first `k` of the bytes. -/
def send (s : Server) (fd : Nat) (bytes : List UInt8) (k : Nat) : Server :=
  s.modify fd fun c => { c with toAccount := c.put id bytes k }

def arrive (s : Server) (fd : Nat) (bytes : List UInt8) : Server :=
  s.modify fd fun c => { c with toAccount := c.arrive bytes }

def hangup (s : Server) (fd : Nat) : Server := s.modify fd fun c => { c with eof := true }

end Server

/-! ## The code -/

def mainStep (s : Server) (io : Io) : Option Server :=
  match s.pc with
  | .accept => match io with
    | .accept fd peer input eof =>
      if 0 < s.backlog ∧ fd ∉ s.opened then some (s.accept fd peer input eof) else none
    | .error => some { s with pc := .exit }
    | _ => none
  | .alloc cfd => some (s.alloc cfd)
  | .create info => match io with
    | .error => some (s.orphan info)
    | _ => some (s.create info)
  | .exit => none

/-- `client_fun`, run by thread `i`. -/
def clientStep (s : Server) (i : Nat) (io : Io) : Option Server :=
  match (s.threads i).pc with
  | .start => some (s.goto i .read)
  | .read => match s.readResult (s.cfd i) io with
    | .data bytes => some ((s.consume (s.cfd i) bytes.length).goto i (.write bytes))
    | .ended => some (s.goto i .close)
    | .blocks => none
  | .write bytes => some ((s.send (s.cfd i) bytes io.size).goto i .read)
  | .close => some ((s.close (s.cfd i)).goto i .done)
  | .done => none

/-- `exit` ends every thread. -/
def step (s : Server) : Act → Option Server
  | .main io => mainStep s io
  | .client i io => if s.pc = .exit then none else clientStep s i io
  | .connect => some { s with backlog := s.backlog + 1 }
  | .arrive fd bytes =>
    if fd ∈ s.opened ∧ fd ≠ s.lfd ∧ (s.conns fd).eof = false then some (s.arrive fd bytes) else none
  | .hangup fd => if fd ∈ s.opened ∧ fd ≠ s.lfd then some (s.hangup fd) else none

/-- `main` up to its loop. -/
def start (lfd : Nat) : Server where
  lfd
  opened := [lfd]

def Reachable (s : Server) : Prop := ∃ lfd, Lts.Reach step (start lfd) s

end CSocket.ThreadServer
