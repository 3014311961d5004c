import CSocket.Lib.Epoll
import CSocket.Lib.Lts
/-!
# The small reactor

`reactor_1.c`: the array `myevents`, its helpers, the three callbacks and the main
loop, over the wrappers of `wrap.c`. An entry is known by its index, also where the
code has a pointer to it, and `fd = 0` marks it as free. `_EVENT_SIZE_` is a
parameter; the source has 1024.

One action is one `epoll_wait` or one event of the dispatch loop, and what the
system answers is in it. `handled` is a history.
-/
namespace CSocket.Reactor
open Epoll

def BUF_LEN : Nat := 1024

/-! ## Data -/

inductive CallBack where
  | initAccept
  | readData
  | senddata
  deriving DecidableEq

/-- An entry, zeroed at the start. -/
structure XxEvent where
  fd : Nat := 0
  events : Nat := 0
  callBack : Option CallBack := none
  buf : List UInt8 := List.replicate BUF_LEN 0
  buflen : Int := 0
  deriving DecidableEq

/-- An event that the dispatch loop looked at: its descriptor and its events, and
the callback it made with the descriptor it passed. -/
structure Handled where
  fd : Nat
  events : Nat
  call : Option (CallBack × Nat)
  deriving DecidableEq

/-- Where `main` is: before `epoll_wait`, before an event, or out of the process. -/
inductive LoopPc where
  | wait
  | event (e : Reg Nat) (rest : List (Reg Nat))
  | exit
  deriving DecidableEq

structure Loop where
  myevents : Nat → XxEvent
  /-- The open descriptors and `gepfd`. -/
  gepfd : Kernel Nat
  pc : LoopPc := .wait
  handled : List Handled := []

/-- What the wrappers return; `Accept` does not return after an error, and `Read`
returns -1 (`none`). What `Write` returns is not looked at. -/
structure Io where
  accept : Option Nat := none
  read : Option (List UInt8) := none
  deriving DecidableEq

inductive ReactorAct where
  | wait (events : Option (List (Reg Nat)))
  | handle (io : Io)
  deriving DecidableEq

namespace Loop

def setEv (s : Loop) (ev : Nat) (e : XxEvent) : Loop :=
  { s with myevents := fun ev' => if ev' = ev then e else s.myevents ev' }

@[simp] theorem setEv_myevents (s : Loop) (ev ev' : Nat) (e : XxEvent) :
    (s.setEv ev e).myevents ev' = if ev' = ev then e else s.myevents ev' := rfl
@[simp] theorem setEv_gepfd (s : Loop) (ev : Nat) (e : XxEvent) : (s.setEv ev e).gepfd = s.gepfd := rfl

def ctl (s : Loop) (op : Op) (r : Reg Nat) : Loop := { s with gepfd := (s.gepfd.ctl op r).1 }

@[simp] theorem ctl_myevents (s : Loop) (op : Op) (r : Reg Nat) : (s.ctl op r).myevents = s.myevents := rfl
@[simp] theorem ctl_gepfd (s : Loop) (op : Op) (r : Reg Nat) : (s.ctl op r).gepfd = (s.gepfd.ctl op r).1 := rfl

def close (s : Loop) (fd : Nat) : Loop := { s with gepfd := s.gepfd.close fd }

@[simp] theorem close_myevents (s : Loop) (fd : Nat) : (s.close fd).myevents = s.myevents := rfl
@[simp] theorem close_gepfd (s : Loop) (fd : Nat) : (s.close fd).gepfd = s.gepfd.close fd := rfl

/-- `accept` returned `cfd`. -/
def accepted (s : Loop) (cfd : Nat) : Loop := { s with gepfd := s.gepfd.openFd cfd }

@[simp] theorem accepted_myevents (s : Loop) (cfd : Nat) : (s.accepted cfd).myevents = s.myevents := rfl
@[simp] theorem accepted_gepfd (s : Loop) (cfd : Nat) : (s.accepted cfd).gepfd = s.gepfd.openFd cfd := rfl

end Loop

/-! ## The helpers -/

def eventadd (s : Loop) (fd events : Nat) (callBack : CallBack) (ev : Nat) : Loop :=
  (s.setEv ev { s.myevents ev with fd, events, callBack := some callBack }).ctl .add ⟨fd, ev, events⟩

def eventset (s : Loop) (fd events : Nat) (callBack : CallBack) (ev : Nat) : Loop :=
  (s.setEv ev { s.myevents ev with fd, events, callBack := some callBack }).ctl .mod ⟨fd, ev, events⟩

/-- The pointer of a deletion is not used. -/
def eventdel (s : Loop) (ev fd events : Nat) : Loop := (s.setEv ev {}).ctl .del ⟨fd, ev, events⟩

/-! ## The callbacks -/

def senddata (fd ev : Nat) (s : Loop) : Loop := eventset s fd EPOLLIN .readData ev

/-- `ev->buflen = Read(fd, ev->buf, sizeof(ev->buf));` -/
def XxEvent.store (e : XxEvent) : Option (List UInt8) → XxEvent
  | none => { e with buflen := -1 }
  | some bytes => { e with buf := bytes ++ e.buf.drop bytes.length, buflen := bytes.length }

def readData (io : Io) (fd ev : Nat) (s : Loop) : Loop :=
  let s := s.setEv ev ((s.myevents ev).store io.read)
  if (s.myevents ev).buflen > 0 then eventset s fd EPOLLOUT .senddata ev
  else if (s.myevents ev).buflen = 0 then eventdel (s.close fd) ev fd EPOLLIN
  else s

section
variable (EVENT_SIZE : Nat)

/-- Where the search for a free entry ends. -/
def freeEvent (s : Loop) : Nat :=
  ((List.range EVENT_SIZE).find? fun i => (s.myevents i).fd = 0).getD EVENT_SIZE

def initAccept (io : Io) (s : Loop) : Loop :=
  match io.accept with
  | none => { s with pc := .exit }
  | some cfd =>
    let s := s.accepted cfd
    eventadd s cfd EPOLLIN .readData (freeEvent EVENT_SIZE s)

/-- `xe->call_back(xe->fd, xe->events, xe)`; through a null pointer there is no next
state. -/
def callBack (io : Io) (fd ev : Nat) (s : Loop) : Option CallBack → Option Loop
  | some .initAccept => some (initAccept EVENT_SIZE io s)
  | some .readData => some (readData io fd ev s)
  | some .senddata => some (senddata fd ev s)
  | none => none

/-! ## The main loop -/

def LoopPc.next : List (Reg Nat) → LoopPc
  | [] => .wait
  | e :: rest => .event e rest

/-- `accept` returns a descriptor that is not open and not 0, and `read` at most
what the buffer holds. -/
structure Io.Possible (io : Io) (s : Loop) : Prop where
  accept : ∀ cfd ∈ io.accept, cfd ∉ s.gepfd.opened ∧ cfd ≠ 0
  read : ∀ bytes ∈ io.read, bytes.length ≤ BUF_LEN

instance (io : Io) (s : Loop) : Decidable (io.Possible s) :=
  decidable_of_iff ((∀ cfd ∈ io.accept, cfd ∉ s.gepfd.opened ∧ cfd ≠ 0) ∧
    ∀ bytes ∈ io.read, bytes.length ≤ BUF_LEN) ⟨fun ⟨h1, h2⟩ => ⟨h1, h2⟩, fun ⟨h1, h2⟩ => ⟨h1, h2⟩⟩

/-- One event of the dispatch loop. -/
def handle (io : Io) (e : Reg Nat) (s : Loop) : Option Loop :=
  let xe := s.myevents e.data
  if xe.events &&& e.events ≠ 0 then
    if io.Possible s then
      callBack EVENT_SIZE io xe.fd e.data
        { s with handled := ⟨e.fd, e.events, xe.callBack.map fun f => (f, xe.fd)⟩ :: s.handled } xe.callBack
    else none
  else some { s with handled := ⟨e.fd, e.events, none⟩ :: s.handled }

def reactorStep (s : Loop) : ReactorAct → Option Loop
  | .wait events => match s.pc, events with
    | .wait, none => some { s with pc := .exit }
    | .wait, some b => if s.gepfd.Reports b ∧ b.length ≤ 1024 then some { s with pc := .next b } else none
    | _, _ => none
  | .handle io => match s.pc with
    | .event e rest => handle EVENT_SIZE io e { s with pc := .next rest }
    | _ => none

/-- `main` up to its loop, with the listening descriptor `lfd`. -/
def listening (lfd : Nat) : Loop :=
  eventadd { myevents := fun _ => {}, gepfd := Kernel.empty.openFd lfd } lfd EPOLLIN .initAccept EVENT_SIZE

end

/-! ## What the callbacks come to -/

section
variable {s : Loop} {ev fd : Nat} {io : Io}

/-- Data to send back, the end of the stream, or an error that changes nothing but
the length. -/
theorem readData_cases (io : Io) (fd ev : Nat) (s : Loop) :
    ((∃ e : XxEvent, readData io fd ev s =
        (s.setEv ev { e with fd, events := EPOLLOUT, callBack := some .senddata }).ctl .mod ⟨fd, ev, EPOLLOUT⟩) ∨
      readData io fd ev s = ((s.close fd).setEv ev {}).ctl .del ⟨fd, ev, EPOLLIN⟩) ∨
      readData io fd ev s = s.setEv ev { s.myevents ev with buflen := -1 } := by
  have hset (e e' : XxEvent) : (s.setEv ev e).setEv ev e' = s.setEv ev e' := by
    simp only [Loop.setEv]
    congr 1
    funext ev'
    split <;> rfl
  unfold readData
  cases hread : io.read with
  | none =>
    right
    simp [XxEvent.store]
  | some bytes =>
    left
    by_cases hpos : 0 < bytes.length
    · left
      refine ⟨(s.myevents ev).store (some bytes), ?_⟩
      simp [XxEvent.store, hpos, eventset, hset]
    · right
      have hzero : bytes.length = 0 := by omega
      simp only [XxEvent.store, Loop.setEv_myevents, if_true, hzero]
      simp only [Int.natCast_zero, gt_iff_lt, Int.lt_irrefl, if_false, if_true, eventdel]
      congr 1
      simp only [Loop.setEv, Loop.close]
      congr 1
      funext ev'
      split <;> rfl

/-- The entry that a new connection gets: a free one, or the one behind the last. -/
theorem freeEvent_cases (EVENT_SIZE : Nat) (s : Loop) :
    freeEvent EVENT_SIZE s < EVENT_SIZE ∧ (s.myevents (freeEvent EVENT_SIZE s)).fd = 0 ∨
    freeEvent EVENT_SIZE s = EVENT_SIZE ∧ ∀ ev < EVENT_SIZE, (s.myevents ev).fd ≠ 0 := by
  unfold freeEvent
  cases hfind : (List.range EVENT_SIZE).find? fun i => (s.myevents i).fd = 0 with
  | none =>
    right
    refine ⟨rfl, fun ev hlt hfd => ?_⟩
    have := List.find?_eq_none.mp hfind ev (List.mem_range.mpr hlt)
    simp [hfd] at this
  | some i =>
    left
    have hfound := List.find?_some hfind
    have hmem := List.mem_of_find?_eq_some hfind
    exact ⟨List.mem_range.mp hmem, of_decide_eq_true hfound⟩

end
end CSocket.Reactor
