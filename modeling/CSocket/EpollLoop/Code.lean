import CSocket.Lib.Epoll
import CSocket.Lib.Lts
/-!
# The epoll event loop

`epoll_loop.c`: the slot table `g_events`, its helpers, the three callbacks and
the main loop. A slot is known by its index, also where the code has a pointer to
it. `MAX_EVENTS` is a parameter; the source has 1024.

One action is one timeout sweep, one `epoll_wait` or one `if` of the dispatch
loop, so at most one callback runs in it. What the system answers is in the
action. `received`, `sent`, `conn`, `connThen`, `calls` and `ctls` are a history.
-/
namespace CSocket.EpollLoop
open Epoll

def BUFLEN : Nat := 4096

/-! ## Data -/

inductive CallBack where
  | acceptconn
  | recvdata
  | senddata
  deriving DecidableEq

/-- A slot, zeroed at the start. -/
structure MyeventS where
  fd : Nat := 0
  events : Nat := 0
  arg : Option Nat := none
  callBack : Option CallBack := none
  status : Int := 0
  buf : List UInt8 := List.replicate BUFLEN 0
  len : Int := 0
  lastActive : Int := 0
  deriving DecidableEq

/-- A callback that ran on a slot while an event of descriptor `reported` was
handled: the slot's status and descriptor then, which of the connections with
this number it is, and which one the event was about. -/
structure Call where
  status : Int
  fd : Nat
  conn : Nat
  reported : Nat
  connThen : Nat
  deriving DecidableEq

/-- Where `main` is: before the sweep, before `epoll_wait`, before the first or
the second test of an event, or out of the loop. -/
inductive LoopPc where
  | sweep
  | wait
  | readable (e : Reg Nat) (rest : List (Reg Nat))
  | writable (e : Reg Nat) (rest : List (Reg Nat))
  | exit
  deriving DecidableEq

structure Loop where
  gEvents : Nat → MyeventS
  /-- The open descriptors and `g_efd`. -/
  efd : Kernel Nat
  checkpos : Nat := 0
  pc : LoopPc := .sweep
  /-- The bytes that `recv` returned from a descriptor, and the bytes that `send`
  accepted on it, since `accept` returned it. -/
  received : Nat → List UInt8 := fun _ => []
  sent : Nat → List UInt8 := fun _ => []
  /-- How often `accept` returned a number, and how often before the last
  `epoll_wait`. -/
  conn : Nat → Nat := fun _ => 0
  connThen : Nat → Nat := fun _ => 0
  calls : List Call := []
  ctls : List Op := []

/-- What the system calls of a callback return; `none` is -1. -/
structure Io where
  time : Int := 0
  accept : Option Nat := none
  fcntl : Bool := true
  recv : Option (List UInt8) := none
  send : Int := -1
  deriving DecidableEq

inductive LoopAct where
  /-- `now` is what `time` returns. -/
  | sweep (now : Int)
  | wait (events : Option (List (Reg Nat)))
  | test (io : Io)
  deriving DecidableEq

namespace Loop

def setEv (s : Loop) (ev : Nat) (e : MyeventS) : Loop :=
  { s with gEvents := fun ev' => if ev' = ev then e else s.gEvents ev' }

@[simp] theorem setEv_gEvents (s : Loop) (ev ev' : Nat) (e : MyeventS) :
    (s.setEv ev e).gEvents ev' = if ev' = ev then e else s.gEvents ev' := rfl
@[simp] theorem setEv_efd (s : Loop) (ev : Nat) (e : MyeventS) : (s.setEv ev e).efd = s.efd := rfl
@[simp] theorem setEv_ctls (s : Loop) (ev : Nat) (e : MyeventS) : (s.setEv ev e).ctls = s.ctls := rfl

theorem setEv_setEv (s : Loop) (ev : Nat) (e e' : MyeventS) : (s.setEv ev e).setEv ev e' = s.setEv ev e' := by
  simp only [setEv]
  congr 1
  funext ev'
  split <;> rfl

def ctl (s : Loop) (op : Op) (r : Reg Nat) : Loop :=
  { s with efd := (s.efd.ctl op r).1, ctls := op :: s.ctls }

@[simp] theorem ctl_gEvents (s : Loop) (op : Op) (r : Reg Nat) : (s.ctl op r).gEvents = s.gEvents := rfl
@[simp] theorem ctl_efd (s : Loop) (op : Op) (r : Reg Nat) : (s.ctl op r).efd = (s.efd.ctl op r).1 := rfl
@[simp] theorem ctl_ctls (s : Loop) (op : Op) (r : Reg Nat) : (s.ctl op r).ctls = op :: s.ctls := rfl

def close (s : Loop) (fd : Nat) : Loop := { s with efd := s.efd.close fd }

@[simp] theorem close_gEvents (s : Loop) (fd : Nat) : (s.close fd).gEvents = s.gEvents := rfl
@[simp] theorem close_efd (s : Loop) (fd : Nat) : (s.close fd).efd = s.efd.close fd := rfl

/-- `accept` returned `cfd`: the history of its bytes begins anew. -/
def accepted (s : Loop) (cfd : Nat) : Loop :=
  { s with
    efd := s.efd.openFd cfd
    received := fun fd => if fd = cfd then [] else s.received fd
    sent := fun fd => if fd = cfd then [] else s.sent fd
    conn := fun fd => if fd = cfd then s.conn fd + 1 else s.conn fd }

@[simp] theorem accepted_gEvents (s : Loop) (cfd : Nat) : (s.accepted cfd).gEvents = s.gEvents := rfl
@[simp] theorem accepted_efd (s : Loop) (cfd : Nat) : (s.accepted cfd).efd = s.efd.openFd cfd := rfl

end Loop

/-! ## The helpers -/

def eventset (s : Loop) (ev fd : Nat) (callBack : CallBack) (arg : Nat) (time : Int) : Loop :=
  s.setEv ev { s.gEvents ev with
    fd, callBack := some callBack, events := 0, arg := some arg, status := 0, lastActive := time }

def eventadd (s : Loop) (events ev : Nat) : Loop :=
  let e := s.gEvents ev
  if e.status = 1 then
    (s.setEv ev { e with events }).ctl .mod ⟨e.fd, ev, events⟩
  else
    (s.setEv ev { e with events, status := 1 }).ctl .add ⟨e.fd, ev, events⟩

def eventdel (s : Loop) (ev : Nat) : Loop :=
  let e := s.gEvents ev
  if e.status ≠ 1 then s else (s.setEv ev { e with status := 0 }).ctl .del ⟨e.fd, ev, 0⟩

/-! ## The callbacks -/

section
variable (MAX_EVENTS : Nat)

/-- The first slot that is not in use. -/
def freeSlot (s : Loop) : Option Nat := (List.range MAX_EVENTS).find? fun i => (s.gEvents i).status = 0

def acceptconn (io : Io) (s : Loop) : Loop :=
  match io.accept with
  | none => s
  | some cfd =>
    let s := s.accepted cfd
    match freeSlot MAX_EVENTS s with
    -- `cfd` stays open, also below
    | none => s
    | some i =>
      if io.fcntl = false then s
      else eventadd (eventset s i cfd .recvdata i io.time) EPOLLIN i

/-- The terminator that `recvdata` puts behind the data. `buf[BUFLEN]` is the
first byte of `len`, the least significant one. -/
def terminate (e : MyeventS) (i : Nat) : MyeventS :=
  if i < BUFLEN then { e with buf := e.buf.set i 0 } else { e with len := e.len - e.len % 256 }

def recvdata (io : Io) (fd ev : Nat) (s : Loop) : Loop :=
  match io.recv with
  | none => (eventdel s ev).close ((eventdel s ev).gEvents ev).fd
  | some bytes =>
    let e := s.gEvents ev
    let s := { s.setEv ev { e with buf := bytes ++ e.buf.drop bytes.length } with
      received := fun fd' => if fd' = fd then s.received fd ++ bytes else s.received fd' }
    let s := eventdel s ev
    if bytes.length > 0 then
      let s := s.setEv ev (terminate { s.gEvents ev with len := bytes.length } bytes.length)
      eventadd (eventset s ev fd .senddata ev io.time) EPOLLOUT ev
    else s.close (s.gEvents ev).fd

def senddata (io : Io) (fd ev : Nat) (s : Loop) : Loop :=
  if io.send > 0 then
    let e := s.gEvents ev
    let s := { s with
      sent := fun fd' =>
        if fd' = fd then s.sent fd ++ (e.buf.take e.len.toNat).take io.send.toNat else s.sent fd' }
    eventadd (eventset (eventdel s ev) ev fd .recvdata ev io.time) EPOLLIN ev
  else eventdel (s.close (s.gEvents ev).fd) ev

/-- `ev->call_back(ev->fd, events[i].events, ev->arg)`; through a null pointer
there is no next state. -/
def callBack (io : Io) (e : Reg Nat) (s : Loop) : Option Loop :=
  let ev := s.gEvents e.data
  let s := { s with calls := ⟨ev.status, ev.fd, s.conn ev.fd, e.fd, s.connThen e.fd⟩ :: s.calls }
  match ev.callBack, ev.arg with
  | some .acceptconn, _ => some (acceptconn MAX_EVENTS io s)
  | some .recvdata, some arg => some (recvdata io ev.fd arg s)
  | some .senddata, some arg => some (senddata io ev.fd arg s)
  | _, _ => none

/-! ## The main loop -/

/-- The slot that the next check looks at. -/
def Loop.pos (s : Loop) : Nat := if s.checkpos = MAX_EVENTS then 0 else s.checkpos

/-- One pass of the sweep's loop. -/
def check (now : Int) (s : Loop) : Loop :=
  let pos := s.pos MAX_EVENTS
  let s := { s with checkpos := pos + 1 }
  let ev := s.gEvents pos
  if ev.status ≠ 1 then s
  else if now - ev.lastActive ≥ 60 then eventdel (s.close ev.fd) pos
  else s

def sweep (now : Int) : Nat → Loop → Loop
  | 0, s => s
  | n + 1, s => sweep now n (check MAX_EVENTS now s)

/-- The next event of the batch, or the next turn of the loop. -/
def LoopPc.next : List (Reg Nat) → LoopPc
  | [] => .sweep
  | e :: rest => .readable e rest

/-- `accept` returns a descriptor that is not open, `recv` at most what the
buffer holds and `send` at most what it was asked to send. -/
structure Io.Possible (io : Io) (s : Loop) (ev : Nat) : Prop where
  accept : ∀ cfd ∈ io.accept, cfd ∉ s.efd.opened
  recv : ∀ bytes ∈ io.recv, bytes.length ≤ BUFLEN
  send : io.send ≤ (s.gEvents ev).len

instance (io : Io) (s : Loop) (ev : Nat) : Decidable (io.Possible s ev) :=
  decidable_of_iff ((∀ cfd ∈ io.accept, cfd ∉ s.efd.opened) ∧ (∀ bytes ∈ io.recv, bytes.length ≤ BUFLEN) ∧
    io.send ≤ (s.gEvents ev).len) ⟨fun ⟨h1, h2, h3⟩ => ⟨h1, h2, h3⟩, fun ⟨h1, h2, h3⟩ => ⟨h1, h2, h3⟩⟩

/-- One test of the dispatch loop: both masks have the bit, or nothing happens. -/
def test (bit : Nat) (io : Io) (e : Reg Nat) (pc : LoopPc) (s : Loop) : Option Loop :=
  if e.events &&& bit ≠ 0 ∧ (s.gEvents e.data).events &&& bit ≠ 0 then
    if io.Possible s e.data then (callBack MAX_EVENTS io e s).map fun s => { s with pc } else none
  else some { s with pc }

def loopStep (s : Loop) : LoopAct → Option Loop
  | .sweep now => if s.pc = .sweep then some { sweep MAX_EVENTS now 100 s with pc := .wait } else none
  | .wait events => match s.pc, events with
    | .wait, none => some { s with pc := .exit }
    | .wait, some b =>
      if s.efd.Reports b ∧ b.length ≤ MAX_EVENTS + 1 then some { s with pc := .next b, connThen := s.conn } else none
    | _, _ => none
  | .test io => match s.pc with
    | .readable e rest => test MAX_EVENTS EPOLLIN io e (.writable e rest) s
    | .writable e rest => test MAX_EVENTS EPOLLOUT io e (.next rest) s
    | _ => none

/-- `main` up to its loop, with the listening descriptor `lfd`. -/
def initlistensocket (lfd : Nat) (time : Int) : Loop :=
  let s : Loop := { gEvents := fun _ => {}, efd := Kernel.empty.openFd lfd }
  eventadd (eventset s MAX_EVENTS lfd .acceptconn MAX_EVENTS time) EPOLLIN MAX_EVENTS

def Reachable (lfd : Nat) (s : Loop) : Prop :=
  ∃ time, Lts.Reach (loopStep MAX_EVENTS) (initlistensocket MAX_EVENTS lfd time) s

end

/-! ## What the callbacks come to -/

section
variable (s : Loop) (ev fd : Nat)

/-- `eventset` clears the status, so `eventadd` adds. -/
theorem eventadd_eventset (callBack : CallBack) (arg : Nat) (time : Int) (events : Nat) :
    eventadd (eventset s ev fd callBack arg time) events ev =
      (s.setEv ev { s.gEvents ev with
        fd, callBack := some callBack, events, arg := some arg, status := 1, lastActive := time }).ctl .add
        ⟨fd, ev, events⟩ := by
  simp [eventadd, eventset, Loop.setEv_setEv]

variable {s ev}

theorem eventdel_eq (h : (s.gEvents ev).status = 1) :
    eventdel s ev = (s.setEv ev { s.gEvents ev with status := 0 }).ctl .del ⟨(s.gEvents ev).fd, ev, 0⟩ := by
  simp [eventdel, h]

/-- The slot after `recv` stored `bytes` and they were terminated. -/
def MyeventS.filled (e : MyeventS) (bytes : List UInt8) : MyeventS :=
  terminate { e with buf := bytes ++ e.buf.drop bytes.length, status := 0, len := bytes.length } bytes.length

theorem recvdata_pos {io : Io} {bytes : List UInt8} (h : (s.gEvents ev).status = 1) (hio : io.recv = some bytes)
    (hpos : 0 < bytes.length) :
    recvdata io fd ev s =
      ((({ s with received := fun fd' => if fd' = fd then s.received fd ++ bytes else s.received fd' }).ctl .del
        ⟨(s.gEvents ev).fd, ev, 0⟩).setEv ev { (s.gEvents ev).filled bytes with
          fd, callBack := some .senddata, events := EPOLLOUT, arg := some ev, status := 1, lastActive := io.time }).ctl
        .add ⟨fd, ev, EPOLLOUT⟩ := by
  simp only [recvdata, hio, eventadd_eventset, hpos, if_true]
  rw [eventdel_eq (by simpa using h)]
  simp only [Loop.ctl, Loop.setEv, MyeventS.filled, if_true]
  congr 1
  funext ev'
  split <;> rfl

/-- The end of the stream and an error close the connection. -/
theorem recvdata_closed {io : Io} (h : (s.gEvents ev).status = 1) (hio : ∀ bytes ∈ io.recv, bytes = []) :
    recvdata io fd ev s =
      ((s.setEv ev { s.gEvents ev with status := 0 }).ctl .del ⟨(s.gEvents ev).fd, ev, 0⟩).close
        (s.gEvents ev).fd := by
  cases hr : io.recv with
  | none =>
    simp only [recvdata, hr]
    rw [eventdel_eq h]
    simp [Loop.ctl]
  | some bytes =>
    obtain rfl : bytes = [] := hio bytes (by simp [hr])
    have hsame : { s.setEv ev { s.gEvents ev with buf := [] ++ (s.gEvents ev).buf.drop 0 } with
        received := fun fd' => if fd' = fd then s.received fd ++ [] else s.received fd' } = s := by
      simp only [Loop.setEv, List.nil_append, List.drop_zero, List.append_nil]
      congr 1
      · funext ev'
        split
        case isTrue he => rw [he]
        case isFalse => rfl
      · funext fd'
        split
        case isTrue he => rw [he]
        case isFalse => rfl
    simp only [recvdata, hr, List.length_nil, hsame, Nat.lt_irrefl, if_false, gt_iff_lt]
    rw [eventdel_eq h]
    simp [Loop.ctl]

theorem senddata_pos {io : Io} (h : (s.gEvents ev).status = 1) (hpos : 0 < io.send) :
    senddata io fd ev s =
      ((({ s with sent := fun fd' =>
          if fd' = fd then s.sent fd ++ ((s.gEvents ev).buf.take (s.gEvents ev).len.toNat).take io.send.toNat
          else s.sent fd' }.ctl .del ⟨(s.gEvents ev).fd, ev, 0⟩).setEv ev { s.gEvents ev with
          fd, callBack := some .recvdata, events := EPOLLIN, arg := some ev, status := 1, lastActive := io.time }).ctl
        .add ⟨fd, ev, EPOLLIN⟩) := by
  simp only [senddata, eventadd_eventset, hpos, if_true]
  rw [eventdel_eq (by simpa using h)]
  simp only [Loop.ctl, Loop.setEv, if_true]
  congr 1
  funext ev'
  split <;> rfl

theorem senddata_closed {io : Io} (h : (s.gEvents ev).status = 1) (hio : ¬ 0 < io.send) :
    senddata io fd ev s =
      ((s.close (s.gEvents ev).fd).setEv ev { s.gEvents ev with status := 0 }).ctl .del ⟨(s.gEvents ev).fd, ev, 0⟩ := by
  simp only [senddata, hio, if_false]
  exact eventdel_eq (by simpa using h)

end

/-- No slot is left for a new connection, or `fcntl` fails on it. -/
def refuses (MAX_EVENTS : Nat) (io : Io) (s : Loop) : Bool := (freeSlot MAX_EVENTS s).isNone || !io.fcntl

/-- Nothing to accept, refused, or put into a slot; refused, the descriptor is new
and that is all. -/
theorem acceptconn_cases (MAX_EVENTS : Nat) (io : Io) (s : Loop) :
    acceptconn MAX_EVENTS io s = s ∧ io.accept = none ∨
    ∃ cfd, io.accept = some cfd ∧
      (acceptconn MAX_EVENTS io s = s.accepted cfd ∧ refuses MAX_EVENTS io s = true ∨
      ∃ i < MAX_EVENTS, (s.gEvents i).status = 0 ∧ refuses MAX_EVENTS io s = false ∧
        acceptconn MAX_EVENTS io s = ((s.accepted cfd).setEv i { s.gEvents i with
          fd := cfd, callBack := some .recvdata, events := EPOLLIN, arg := some i, status := 1,
          lastActive := io.time }).ctl .add ⟨cfd, i, EPOLLIN⟩) := by
  unfold acceptconn
  cases hio : io.accept with
  | none => exact .inl ⟨rfl, rfl⟩
  | some cfd =>
    right
    refine ⟨cfd, rfl, ?_⟩
    simp only [eventadd_eventset]
    have hsame : freeSlot MAX_EVENTS (s.accepted cfd) = freeSlot MAX_EVENTS s := rfl
    rw [refuses, ← hsame]
    cases hfree : freeSlot MAX_EVENTS (s.accepted cfd) with
    | none => exact .inl ⟨rfl, rfl⟩
    | some i =>
      obtain ⟨h1, h2⟩ : (s.gEvents i).status = 0 ∧ i < MAX_EVENTS := by
        have hfound := List.find?_some hfree
        have hmem := List.mem_of_find?_eq_some hfree
        exact ⟨of_decide_eq_true hfound, List.mem_range.mp hmem⟩
      dsimp only
      split
      case isTrue hf => exact .inl ⟨rfl, by rw [hf]; rfl⟩
      case isFalse hf => exact .inr ⟨i, h2, h1, by simpa using hf, rfl⟩

end CSocket.EpollLoop
