import CSocket.Lib.Lts
import CSocket.Lib.Scan
import CSocket.Os
import Mathlib.Data.Finset.Card
/-!
# The select server

`select_advance.c`: the table `client`, the sets `allset` and `rset`, the bounds
`maxi` and `maxfd`, the count `nready`, and the main loop over the wrappers of
`wrap.c`. An `fd_set` is a finite set, and `FD_SETSIZE` is a parameter.

One action is one pass of the main loop, and what the system answers is in it.
`accepted`, `reads` and `writes` are a history of the last pass.
-/
namespace CSocket.SelectServer

/-! ## Data -/

structure Server where
  client : Nat → Int
  maxi : Int
  maxfd : Int
  allset : Finset Int
  rset : Finset Int := ∅
  nready : Int := 0
  /-- The descriptors the process has open. -/
  opened : Finset Int
  accepted : List Int := []
  reads : List Int := []
  writes : List (Int × List UInt8) := []

/-- The answers of the system in one pass. -/
structure Io where
  /-- What `select` leaves in `rset`. -/
  ready : Finset Int
  /-- What `Accept` returns. -/
  connfd : Int := 0
  /-- What `Read` returns for the client in a slot: the bytes, none of them at the
  end of the stream; `none` is -1. -/
  read : Nat → Option (List UInt8) := fun _ => some []

/-! ## Serving a client -/

/-- The body of the loop over `client` takes the `if`s. -/
def due (s : Server) (i : Nat) : Bool := decide (0 ≤ s.client i) && decide (s.client i ∈ s.rset)

/-- `Close(sockfd); FD_CLR(sockfd, &allset); client[i] = -1;` -/
def closeClient (i : Nat) (s : Server) : Server :=
  { s with
    client := fun j => if j = i then -1 else s.client j
    allset := s.allset.erase (s.client i)
    opened := s.opened.erase (s.client i) }

/-- `Read` and what follows from its result, up to `--nready`. -/
def readClient (io : Io) (i : Nat) (s : Server) : Server :=
  let sockfd := s.client i
  let s := { s with reads := s.reads ++ [sockfd] }
  let s := match io.read i with
    | some [] => closeClient i s
    | some buf => { s with writes := s.writes ++ [(sockfd, buf.map toupper), (1, buf.map toupper)] }
    | none => s
  { s with nready := s.nready - 1 }

/-- `for (i = 0; i <= maxi; i++)` -/
def scan (io : Io) (s : Server) : Server :=
  Scan.loop due (readClient io) (fun s => s.nready = 0) (s.maxi + 1).toNat 0 s

/-! ## Accepting a client -/

section
variable (FD_SETSIZE : Nat) (listenfd : Int)

def freeSlot (s : Server) : Option Nat := (List.range FD_SETSIZE).find? fun i => s.client i < 0

/-- The new client goes to slot `i`. -/
def acceptClient (io : Io) (i : Nat) (s : Server) : Server :=
  { s with
    client := fun j => if j = i then io.connfd else s.client j
    allset := insert io.connfd s.allset
    maxfd := if io.connfd > s.maxfd then io.connfd else s.maxfd
    maxi := if i > s.maxi then i else s.maxi
    opened := insert io.connfd s.opened
    accepted := s.accepted ++ [listenfd]
    nready := s.nready - 1 }

/-! ## The main loop -/

/-- `select` leaves a part of `allset`, and a new descriptor is none of those that
are open. -/
structure Io.Possible (io : Io) (s : Server) : Prop where
  ready : io.ready ⊆ s.allset
  accept : listenfd ∈ io.ready → 0 ≤ io.connfd ∧ io.connfd < FD_SETSIZE ∧ io.connfd ∉ s.opened

instance (io : Io) (s : Server) : Decidable (io.Possible FD_SETSIZE listenfd s) :=
  decidable_of_iff (io.ready ⊆ s.allset ∧
      (listenfd ∈ io.ready → 0 ≤ io.connfd ∧ io.connfd < FD_SETSIZE ∧ io.connfd ∉ s.opened))
    ⟨fun h => ⟨h.1, h.2⟩, fun h => ⟨h.ready, h.accept⟩⟩

/-- `rset = allset; nready = select(..);` -/
def select (io : Io) (s : Server) : Server :=
  { s with rset := io.ready, nready := io.ready.card, accepted := [], reads := [], writes := [] }

/-- One pass. Where the process ends, there is no next state. -/
def pass (s : Server) (io : Io) : Option Server :=
  if io.Possible FD_SETSIZE listenfd s then
    let s := select io s
    if listenfd ∈ s.rset then
      match freeSlot FD_SETSIZE s with
      -- "too many clients"
      | none => none
      | some i =>
        let s := acceptClient listenfd io i s
        if s.nready = 0 then some s else some (scan io s)
    else some (scan io s)
  else none

/-- The state in which the main loop begins. -/
def start (opened : Finset Int) : Server where
  client _ := -1
  maxi := -1
  maxfd := listenfd
  allset := {listenfd}
  opened := opened

def Reachable (s : Server) : Prop :=
  ∃ opened, 0 ≤ listenfd ∧ listenfd ∈ opened ∧ Lts.Reach (pass FD_SETSIZE listenfd) (start listenfd opened) s

end

end CSocket.SelectServer
