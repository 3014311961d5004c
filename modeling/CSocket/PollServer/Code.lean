import CSocket.Lib.Lts
import CSocket.Lib.Scan
import CSocket.Os
/-!
# The poll server

`poll.c`: the array `client` of `struct pollfd`, its bound `maxi`, the count
`nready`, and the main loop over the wrappers of `wrap.c`. `OPEN_MAX` is a
parameter, and so is what the stack holds where `client` is.

One action is one pass of the main loop, and what the system answers is in it.
`reported`, `reads` and `writes` are a history of the last pass.
-/
namespace CSocket.PollServer

/-! ## Data -/

def POLLIN : Nat := 0x001
def ECONNRESET : Int := 104

structure Pollfd where
  fd : Int
  events : Nat
  revents : Nat
  deriving DecidableEq

/-- `revents & POLLIN` -/
def Pollfd.pollin (p : Pollfd) : Bool := decide (p.revents &&& POLLIN ≠ 0)

structure Server where
  client : Nat → Pollfd
  maxi : Nat
  nready : Int := 0
  /-- `perr_exit` was called. -/
  exited : Bool := false
  /-- The descriptors for which the last `poll` reported `POLLIN`. -/
  reported : List Int := []
  reads : List Int := []
  writes : List (Int × List UInt8) := []

/-- The answers of the system in one pass. -/
structure Io where
  /-- What `poll` stores for an entry with a descriptor. -/
  revents : Nat → Nat
  /-- What `Accept` returns. -/
  connfd : Int := 0
  /-- What `Read` returns for the client in a slot: the bytes, none of them at the
  end of the stream, or -1 with an `errno`. -/
  read : Nat → Except Int (List UInt8) := fun _ => .ok []

/-- `Read` fails, and it is no `ECONNRESET`: `perr_exit("read error")`. -/
def Io.fatal (io : Io) (i : Nat) : Bool :=
  match io.read i with
  | .error e => decide (e ≠ ECONNRESET)
  | .ok _ => false

/-! ## Waiting -/

/-- Entries with a negative descriptor are skipped, and no other is written. -/
def pollEntry (io : Io) (s : Server) (i : Nat) : Pollfd :=
  if i ≤ s.maxi then { s.client i with revents := if (s.client i).fd < 0 then 0 else io.revents i } else s.client i

/-- `nready = poll(client, maxi+1, -1);` -/
def poll (io : Io) (s : Server) : Server :=
  let entries := List.range (s.maxi + 1)
  { s with
    client := pollEntry io s
    nready := (entries.filter fun i => (pollEntry io s i).revents ≠ 0).length
    reported := (entries.filter fun i => (pollEntry io s i).pollin).map fun i => (s.client i).fd
    reads := []
    writes := [] }

/-! ## Serving a client -/

/-- The body of the loop over `client` takes the `if`s. -/
def due (s : Server) (i : Nat) : Bool := decide (0 ≤ (s.client i).fd) && (s.client i).pollin

/-- `Close(sockfd); client[i].fd = -1;` -/
def closeClient (i : Nat) (s : Server) : Server :=
  { s with client := fun j => if j = i then { s.client i with fd := -1 } else s.client j }

/-- `Read` and what follows from its result, up to `--nready`, which comes too late
for anybody to see where the process has ended. -/
def readClient (io : Io) (i : Nat) (s : Server) : Server :=
  let sockfd := (s.client i).fd
  let s := { s with reads := s.reads ++ [sockfd] }
  let s := match io.read i with
    | .error e => if e = ECONNRESET then closeClient i s else { s with exited := true }
    | .ok [] => closeClient i s
    | .ok buf => { s with writes := s.writes ++ [(sockfd, buf.map toupper)] }
  { s with nready := s.nready - 1 }

/-- The loop over the clients breaks off, or the process has ended. -/
def scanStops (s : Server) : Bool := s.exited || decide (s.nready ≤ 0)

/-- `for (i = 1; i <= maxi; i++)` -/
def scan (io : Io) (s : Server) : Server := Scan.loop due (readClient io) scanStops s.maxi 1 s

/-! ## Accepting a client -/

/-- The new client goes to slot `i`, whose `revents` stays as it is. -/
def acceptClient (io : Io) (i : Nat) (s : Server) : Server :=
  { s with
    client := fun j => if j = i then { s.client i with fd := io.connfd, events := POLLIN } else s.client j
    maxi := if i > s.maxi then i else s.maxi
    nready := s.nready - 1 }

section
variable (OPEN_MAX : Nat)

def freeSlot (s : Server) : Option Nat := (List.range' 1 (OPEN_MAX - 1)).find? fun i => (s.client i).fd < 0

/-! ## The main loop -/

/-- A new descriptor is none of those in the table, which are open. -/
def Io.Possible (io : Io) (s : Server) : Prop :=
  (pollEntry io s 0).pollin = true → 0 ≤ io.connfd ∧ ∀ i < OPEN_MAX, (s.client i).fd ≠ io.connfd

instance (io : Io) (s : Server) : Decidable (io.Possible OPEN_MAX s) := inferInstanceAs (Decidable (_ → _))

/-- One pass. A process that has ended makes none, and "too many clients" ends it. -/
def pass (s : Server) (io : Io) : Option Server :=
  if s.exited = false ∧ io.Possible OPEN_MAX s then
    let s := poll io s
    if (s.client 0).pollin then
      match freeSlot OPEN_MAX s with
      | none => none
      | some i =>
        let s := acceptClient io i s
        if s.nready ≤ 0 then some s else some (scan io s)
    else some (scan io s)
  else none

end

/-- The state in which the main loop begins, on a stack that held `mem`. -/
def start (listenfd : Int) (mem : Nat → Pollfd) : Server where
  client i := if i = 0 then { mem 0 with fd := listenfd, events := POLLIN } else { mem i with fd := -1 }
  maxi := 0

end CSocket.PollServer
