import CSocket.Lib.Echo
import CSocket.Lib.Epoll
import CSocket.Lib.Lts
/-!
# The two epoll echo servers

`epoll.c` and `epoll_et.c`. They have their main loop in common. The first leaves its
connections level-triggered and blocking and reads once for an event; the second makes
them edge-triggered and non-blocking and reads until `EAGAIN`.

One action is a step of `main` from one system call to the next, or one of the outside:
a peer connects, sends or hangs up. What a system call returns is in the action. The
account of a connection, and those of the closed ones, are a history.
-/
namespace CSocket.EpollEcho
open Epoll

def EPOLLET : Nat := 1 <<< 31

inductive Program where
  | epoll
  | epollEt
  deriving DecidableEq

namespace Program

/-- `ev.events` for a connection. -/
def events : Program → Nat
  | epoll => EPOLLIN
  | epollEt => EPOLLIN ||| EPOLLET

/-- The size that `Read` is given. -/
def bufLen : Program → Nat
  | epoll => 1024
  | epollEt => 5

end Program

/-! ## Data -/

/-- A connection. `eof` says that the peer has hung up; `edge`, that there is something
new since `epoll_wait` last reported it. -/
structure Conn extends Account UInt8 where
  eof : Bool := false
  edge : Bool := false
  deriving DecidableEq

/-- A `read` has something to return. -/
def Conn.Readable (c : Conn) : Prop := c.input ≠ [] ∨ c.eof = true

instance (c : Conn) : Decidable c.Readable := inferInstanceAs (Decidable (_ ∨ _))

/-- Where `main` is: before `epoll_wait`, before an event, before the `epoll_ctl` for a
new connection, before `Read`, `Write` or `close`, or out of the process. `rest` are the
events of the batch that are still to come. -/
inductive Pc where
  | wait
  | event (e : Reg Nat) (rest : List (Reg Nat))
  | ctl (fd : Nat) (rest : List (Reg Nat))
  | read (fd : Nat) (rest : List (Reg Nat))
  | write (fd : Nat) (bytes : List UInt8) (rest : List (Reg Nat))
  | close (fd : Nat) (rest : List (Reg Nat))
  | exit
  deriving DecidableEq

structure Server where
  lfd : Nat
  /-- The open descriptors and `epfd`. -/
  epfd : Kernel Nat
  conns : Nat → Conn := fun _ => {}
  /-- How many peers wait to be accepted. -/
  backlog : Nat := 0
  pc : Pc := .wait
  closed : List Conn := []

inductive Io where
  | none
  /-- A new descriptor, what the peer has sent already, and whether it has hung up. -/
  | accept (fd : Nat) (input : List UInt8) (eof : Bool)
  /-- At most so many bytes are read or written. -/
  | count (n : Nat)
  /-- The call fails, not with `EAGAIN`. -/
  | error
  deriving DecidableEq

def Io.size : Io → Nat
  | .count n => n
  | _ => 0

inductive Act where
  | wait (events : Option (List (Reg Nat)))
  | main (io : Io)
  | connect
  | arrive (fd : Nat) (bytes : List UInt8)
  | hangup (fd : Nat)
  deriving DecidableEq

/-- What `Read` returns: bytes, -1 with `EAGAIN`, or 0 or another error; or it does not
return. -/
inductive ReadResult where
  | data (bytes : List UInt8)
  | again
  | ended
  | blocks
  deriving DecidableEq

namespace Server

def modify (s : Server) (fd : Nat) (f : Conn → Conn) : Server :=
  { s with conns := fun fd' => if fd' = fd then f (s.conns fd') else s.conns fd' }

@[simp] theorem modify_conns (s : Server) (fd fd' : Nat) (f : Conn → Conn) :
    (s.modify fd f).conns fd' = if fd' = fd then f (s.conns fd') else s.conns fd' := rfl
@[simp] theorem modify_lfd (s : Server) (fd : Nat) (f : Conn → Conn) : (s.modify fd f).lfd = s.lfd := rfl
@[simp] theorem modify_epfd (s : Server) (fd : Nat) (f : Conn → Conn) : (s.modify fd f).epfd = s.epfd := rfl
@[simp] theorem modify_backlog (s : Server) (fd : Nat) (f : Conn → Conn) : (s.modify fd f).backlog = s.backlog := rfl
@[simp] theorem modify_pc (s : Server) (fd : Nat) (f : Conn → Conn) : (s.modify fd f).pc = s.pc := rfl
@[simp] theorem modify_closed (s : Server) (fd : Nat) (f : Conn → Conn) : (s.modify fd f).closed = s.closed := rfl

/-- There is a peer to accept, or something to read. -/
def Readable (s : Server) (fd : Nat) : Prop := if fd = s.lfd then 0 < s.backlog else (s.conns fd).Readable

instance (s : Server) (fd : Nat) : Decidable (s.Readable fd) := inferInstanceAs (Decidable (ite ..))

/-- `epoll_wait` reports the registration: its descriptor is readable, and new if the
registration is edge-triggered. -/
def Due (s : Server) (r : Reg Nat) : Prop :=
  s.Readable r.fd ∧ (r.events &&& EPOLLET ≠ 0 → (s.conns r.fd).edge = true)

instance (s : Server) (r : Reg Nat) : Decidable (s.Due r) := inferInstanceAs (Decidable (_ ∧ _))

/-- What `epoll_wait` may return. -/
def Reports (s : Server) (b : List (Reg Nat)) : Prop :=
  s.epfd.Reports b ∧ (∀ e ∈ b, e.events &&& EPOLLIN ≠ 0 ∧ ∃ r ∈ s.epfd.set, r.fd = e.fd ∧ s.Due r) ∧ b.length ≤ 1024

instance (s : Server) (b : List (Reg Nat)) : Decidable (s.Reports b) := inferInstanceAs (Decidable (_ ∧ _))

/-- The edges of `b` are reported. -/
def report (s : Server) (b : List (Reg Nat)) : Server :=
  { s with conns := fun fd => if fd ∈ b.map Reg.fd then { s.conns fd with edge := false } else s.conns fd }

/-- `Accept` returned `fd`. -/
def accept (s : Server) (fd : Nat) (input : List UInt8) (eof : Bool) : Server :=
  { s with
    epfd := s.epfd.openFd fd
    conns := fun fd' => if fd' = fd then { arrived := input, input, eof } else s.conns fd'
    backlog := s.backlog - 1 }

/-- `EPOLL_CTL_ADD`. What is readable by then is new. -/
def register (s : Server) (fd events : Nat) : Server :=
  { s.modify fd fun c => { c with edge := decide c.Readable } with epfd := (s.epfd.ctl .add ⟨fd, fd, events⟩).1 }

/-- `Read` returned the first `n` bytes. -/
def consume (s : Server) (fd n : Nat) : Server := s.modify fd fun c => { c with toAccount := c.take n }

/-- `Write` took the first `k` of the bytes. -/
def send (s : Server) (fd : Nat) (bytes : List UInt8) (k : Nat) : Server :=
  s.modify fd fun c => { c with toAccount := c.put id bytes k }

def arrive (s : Server) (fd : Nat) (bytes : List UInt8) : Server :=
  s.modify fd fun c => { c with toAccount := c.arrive bytes, edge := true }

def hangup (s : Server) (fd : Nat) : Server := s.modify fd fun c => { c with eof := true, edge := true }

/-- `close(fd)`, and the `epoll_ctl` behind it, which comes too late. -/
def close (s : Server) (fd : Nat) : Server :=
  { s with epfd := ((s.epfd.close fd).ctl .del ⟨fd, fd, 0⟩).1, closed := s.conns fd :: s.closed }

/-- `Read(fd, buf, ..)`. A connection of `epoll.c` blocks. -/
def readResult (p : Program) (s : Server) (fd : Nat) (io : Io) : ReadResult :=
  if fd ∉ s.epfd.opened ∨ io = .error then .ended
  else if (s.conns fd).input ≠ [] then .data ((s.conns fd).input.take (min p.bufLen (max 1 io.size)))
  else if (s.conns fd).eof then .ended
  else match p with
    | .epoll => .blocks
    | .epollEt => .again

end Server

/-! ## The code -/

def Pc.next : List (Reg Nat) → Pc
  | [] => .wait
  | e :: rest => .event e rest

/-- After `Write`, `epoll_et.c` reads again. -/
def Program.afterWrite (p : Program) (fd : Nat) (rest : List (Reg Nat)) : Pc :=
  match p with
  | epoll => .next rest
  | epollEt => .read fd rest

/-- A step of `main` in the loop over the events. -/
def mainStep (p : Program) (s : Server) (io : Io) : Option Server :=
  match s.pc with
  | .event e rest =>
    if e.data = s.lfd ∧ e.events &&& EPOLLIN ≠ 0 then
      match io with
      | .accept fd input eof =>
        if 0 < s.backlog ∧ fd ∉ s.epfd.opened then some { s.accept fd input eof with pc := .ctl fd rest } else none
      | .error => some { s with pc := .exit }
      | _ => none
    else if e.events &&& EPOLLIN ≠ 0 then some { s with pc := .read e.data rest }
    else some { s with pc := .next rest }
  | .ctl fd rest => some { s.register fd p.events with pc := .next rest }
  | .read fd rest => match s.readResult p fd io with
    | .data bytes => some { s.consume fd bytes.length with pc := .write fd bytes rest }
    | .again => some { s with pc := .next rest }
    | .ended => some { s with pc := .close fd rest }
    | .blocks => none
  | .write fd bytes rest => some { s.send fd bytes io.size with pc := p.afterWrite fd rest }
  | .close fd rest => some { s.close fd with pc := .next rest }
  | .wait | .exit => none

def step (p : Program) (s : Server) : Act → Option Server
  | .wait events => match s.pc, events with
    | .wait, none => some { s with pc := .exit }
    | .wait, some b => if s.Reports b then some { s.report b with pc := .next b } else none
    | _, _ => none
  | .main io => mainStep p s io
  | .connect => some { s with backlog := s.backlog + 1 }
  | .arrive fd bytes =>
    if fd ∈ s.epfd.opened ∧ fd ≠ s.lfd ∧ (s.conns fd).eof = false then some (s.arrive fd bytes) else none
  | .hangup fd => if fd ∈ s.epfd.opened ∧ fd ≠ s.lfd then some (s.hangup fd) else none

/-- `main` up to its loop. -/
def start (lfd : Nat) : Server where
  lfd
  epfd := ((Kernel.empty.openFd lfd).ctl .add ⟨lfd, lfd, EPOLLIN⟩).1

def Reachable (p : Program) (s : Server) : Prop := ∃ lfd, Lts.Reach (step p) (start lfd) s

end CSocket.EpollEcho
