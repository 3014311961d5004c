import CSocket.PoolSocket.Handle
/-!
# Connecting

`activate_nonblock`, `deactivate_nonblock`, `connect_timeout` and
`sckClient_connect` of `socketutil.c`, call by call. A connection that does not come
about leaves its socket open: no path closes it. `connect_outcome` says that the pool
sees of all this what `ConnectOutcome` has.
-/
namespace CSocket.Connect

/-! ## The sockets of the process -/

structure Sockets where
  /-- `errno`, and what `select` will say of the new socket. -/
  conn : Conn := {}
  opened : List Int := []
  /-- The descriptors in non-blocking mode. -/
  nonblock : List Int := []
  established : List Int := []
  /-- Whether the next calls of `fcntl` succeed (`none`) or fail with an `errno`; after
  the last of them every call succeeds. -/
  fcntls : List (Option Int) := []

/-- What the other system calls of one `sckClient_connect` do. -/
structure Calls where
  /-- The descriptor, or an `errno`. -/
  socket : Except Nat Nat
  /-- 0, or an `errno`. -/
  connect : Option Nat := none
  /-- The value of `SO_ERROR`, or an `errno`. -/
  getsockopt : Except Nat Nat := .ok 0

def EINPROGRESS : Int := 115

def onConn {α : Type} (m : Prog Conn α) : Prog Sockets α := m.zoom Sockets.conn fun conn s => { s with conn }

def setErrno (e : Int) : Prog Sockets Unit := .update fun s => { s with conn.errno := e }

def getErrno : Prog Sockets Int := .read fun s => s.conn.errno

/-- `f` is what the call does where it succeeds. -/
def fcntl (f : Sockets → Sockets) : Prog Sockets Int := fun s =>
  match s.fcntls with
  | some e :: rest => .ret (-1) { s with conn.errno := e, fcntls := rest }
  | _ => .ret 0 (f { s with fcntls := s.fcntls.tail })

/-- A new socket is in blocking mode and not connected. -/
def Sockets.socket (fd : Int) (s : Sockets) : Sockets :=
  { s with
    opened := fd :: s.opened
    nonblock := s.nonblock.filter (· ≠ fd)
    established := s.established.filter (· ≠ fd) }

def connect (fd : Int) : Option Nat → Prog Sockets Int
  | none => do
    Prog.update fun s => { s with established := fd :: s.established }
    return 0
  | some e => do
    setErrno e
    return -1

/-- With `SO_ERROR` 0 the connection is established. -/
def getsockopt (fd : Int) : Except Nat Nat → Prog Sockets (Int × Int)
  | .error e => do
    setErrno e
    return (-1, 0)
  | .ok err => do
    Prog.update fun s => if err = 0 then { s with established := fd :: s.established } else s
    return (0, err)

/-! ## The code -/

def activateNonblock (fd : Int) : Prog Sockets Int := do
  let flags ← fcntl id
  if flags = -1 then return flags
  else fcntl fun s => { s with nonblock := fd :: s.nonblock }

def deactivateNonblock (fd : Int) : Prog Sockets Int := do
  let flags ← fcntl id
  if flags = -1 then return flags
  else fcntl fun s => { s with nonblock := s.nonblock.filter (· ≠ fd) }

/-- The end of `connect_timeout`. -/
def connectEnd (fd : Int) (waitSeconds : Nat) (ret : Int) : Prog Sockets Int := do
  if waitSeconds > 0 then
    let _ ← deactivateNonblock fd
  return ret

/-- `connect` returned -1 with `EINPROGRESS`. -/
def connectProgress (fd : Int) (waitSeconds : Nat) (calls : Calls) : Prog Sockets Int := do
  let ret ← onConn selectReady
  if ret = 0 then
    setErrno ETIMEDOUT
    connectEnd fd waitSeconds (-1)
  else if ret < 0 then return -1
  else if ret = 1 then
    let (sockoptret, err) ← getsockopt fd calls.getsockopt
    if sockoptret = -1 then return -1
    else if err = 0 then connectEnd fd waitSeconds 0
    else
      setErrno err
      connectEnd fd waitSeconds (-1)
  else connectEnd fd waitSeconds ret

def connectTimeout (fd : Int) (waitSeconds : Nat) (calls : Calls) : Prog Sockets Int := do
  if waitSeconds > 0 then
    let _ ← activateNonblock fd
  let ret ← connect fd calls.connect
  let errno ← getErrno
  if ret < 0 ∧ errno = EINPROGRESS then connectProgress fd waitSeconds calls
  else connectEnd fd waitSeconds ret

/-- The result, and `*connfd` where it is set. `ip` and `connfd` say whether the
pointers are non-null. -/
def sckClientConnect (ip connfd : Bool) (port connecttime : Int) (calls : Calls) : Prog Sockets (Int × Option Int) :=
  if ip = false ∨ connfd = false ∨ port ≤ 0 ∨ port > 65537 ∨ connecttime < 0 then return (sckErrParam, none)
  else match calls.socket with
    | .error e => do
      setErrno e
      return ((e : Int), none)
    | .ok sockfd => do
      Prog.update (Sockets.socket sockfd)
      let ret ← connectTimeout sockfd (toUnsigned connecttime) calls
      let errno ← getErrno
      if ret < 0 then
        if ret = -1 ∧ errno = ETIMEDOUT then return (sckErrTimeOut, none)
        else return (ret, some (sockfd : Int))
      else return (ret, some (sockfd : Int))

/-! ## All or nothing -/

/-- A call that returned either connected its new socket and left it in blocking mode,
or left no socket open and `*connfd` unset. -/
def AllOrNothing (s : Sockets) (ret : Int) (connfd : Option Int) (s' : Sockets) : Prop :=
  (ret = 0 ∧ ∃ fd, connfd = some fd ∧ s'.opened = fd :: s.opened ∧ fd ∈ s'.established ∧ fd ∉ s'.nonblock) ∨
  (ret ≠ 0 ∧ connfd = none ∧ s'.opened = s.opened)

def Rejects (ip connfd : Bool) (port connecttime : Int) : Prop :=
  ip = false ∨ connfd = false ∨ port ≤ 0 ∨ port > 65537 ∨ connecttime < 0

/-- `connect` succeeds at once, or the wait and `SO_ERROR` say that it did. -/
def Connects (calls : Calls) (os : List SelectOutcome) : Prop :=
  calls.connect = none ∨
  calls.connect = some 115 ∧ firstSelect os = some .ready ∧ calls.getsockopt = .ok 0

/-- `select` has not returned but with `EINTR`. -/
def Waits (calls : Calls) (os : List SelectOutcome) : Prop :=
  calls.connect = some 115 ∧ firstSelect os = none

def FcntlsSucceed (s : Sockets) : Prop := ∀ r ∈ s.fcntls, r = none

/-- The three ways out of `connect_timeout`. -/
inductive ConnectEnd (fd : Int) (calls : Calls) (s : Sockets) : Outcome Sockets Int → Prop
  | established (s') : Connects calls s.conn.selects → s'.opened = s.opened → fd ∈ s'.established →
      fd ∉ s'.nonblock → ConnectEnd fd calls s (.ret 0 s')
  | failed (s') : ¬ Connects calls s.conn.selects → ¬ Waits calls s.conn.selects → s'.opened = s.opened →
      ConnectEnd fd calls s (.ret (-1) s')
  | stalled (s') : Waits calls s.conn.selects → ConnectEnd fd calls s (.stalled s')

theorem fcntl_succeeds (f : Sockets → Sockets) {s : Sockets} (h : FcntlsSucceed s) :
    fcntl f s = .ret 0 (f { s with fcntls := s.fcntls.tail }) := by
  unfold fcntl
  split
  · rename_i e rest heq
    cases h (some e) (by simp [heq])
  · rfl

theorem FcntlsSucceed.tail {s : Sockets} (h : FcntlsSucceed s) :
    FcntlsSucceed { s with fcntls := s.fcntls.tail } := fun r hr => h r (List.mem_of_mem_tail hr)

/-- `activate_nonblock` changes the mode of the descriptor and no more. -/
theorem activateNonblock_run (fd : Int) {s : Sockets} (h : FcntlsSucceed s) :
    activateNonblock fd s = .ret 0 { s with nonblock := fd :: s.nonblock, fcntls := s.fcntls.tail.tail } := by
  unfold activateNonblock
  rw [Prog.bind_ret (fcntl_succeeds id h), if_neg (by decide)]
  exact fcntl_succeeds _ h.tail

theorem deactivateNonblock_run (fd : Int) {s : Sockets} (h : FcntlsSucceed s) :
    deactivateNonblock fd s =
      .ret 0 { s with nonblock := s.nonblock.filter (· ≠ fd), fcntls := s.fcntls.tail.tail } := by
  unfold deactivateNonblock
  rw [Prog.bind_ret (fcntl_succeeds id h), if_neg (by decide)]
  exact fcntl_succeeds _ h.tail

/-- The end of the function returns what it is given, in blocking mode. -/
theorem connectEnd_run (fd : Int) (waitSeconds : Nat) (ret : Int) {s : Sockets} (h : FcntlsSucceed s)
    (hmode : waitSeconds = 0 → fd ∉ s.nonblock) :
    ∃ s', connectEnd fd waitSeconds ret s = .ret ret s' ∧ s'.opened = s.opened ∧ s'.established = s.established ∧
      fd ∉ s'.nonblock := by
  unfold connectEnd
  by_cases hw : waitSeconds > 0
  · rw [if_pos hw, Prog.bind_ret (deactivateNonblock_run fd h)]
    exact ⟨_, rfl, rfl, rfl, by simp⟩
  · rw [if_neg hw]
    exact ⟨s, rfl, rfl, rfl, hmode (by omega)⟩

/-- A failing path to the end of the function. -/
theorem connectEnd_failed {fd : Int} {calls : Calls} {s s1 : Sockets} (waitSeconds : Nat)
    (hnot : ¬ Connects calls s.conn.selects) (hwait : ¬ Waits calls s.conn.selects) (hs : FcntlsSucceed s1)
    (hmode : waitSeconds = 0 → fd ∉ s1.nonblock) (hopen : s1.opened = s.opened) :
    ConnectEnd fd calls s (connectEnd fd waitSeconds (-1) s1) := by
  obtain ⟨s', hrun, hopen', -, -⟩ := connectEnd_run fd waitSeconds (-1) hs hmode
  rw [hrun]
  exact .failed s' hnot hwait (hopen'.trans hopen)

theorem connectEnd_established {fd : Int} {calls : Calls} {s s1 : Sockets} (waitSeconds : Nat)
    (hcon : Connects calls s.conn.selects) (hs : FcntlsSucceed s1) (hmode : waitSeconds = 0 → fd ∉ s1.nonblock)
    (hopen : s1.opened = s.opened) (hest : fd ∈ s1.established) :
    ConnectEnd fd calls s (connectEnd fd waitSeconds 0 s1) := by
  obtain ⟨s', hrun, hopen', hest', hmode'⟩ := connectEnd_run fd waitSeconds 0 hs hmode
  rw [hrun]
  exact .established s' hcon (hopen'.trans hopen) (hest' ▸ hest) hmode'

theorem getErrno_run (s : Sockets) : getErrno s = .ret s.conn.errno s := rfl

theorem getsockopt_pending (fd : Int) {err : Nat} (h : err ≠ 0) (s : Sockets) :
    getsockopt fd (.ok err) s = .ret (0, err) s := by
  simp [getsockopt, Prog.bind_run, h]

/-- The wait, from the environment `s1` that `connect` left behind. -/
theorem connectProgress_end {fd : Int} {calls : Calls} {s s1 : Sockets} (waitSeconds : Nat)
    (hcall : calls.connect = some 115) (hsel : s1.conn.selects = s.conn.selects) (hs : FcntlsSucceed s1)
    (hmode : waitSeconds = 0 → fd ∉ s1.nonblock) (hopen : s1.opened = s.opened) :
    ConnectEnd fd calls s (connectProgress fd waitSeconds calls s1) := by
  have hcon : Connects calls s.conn.selects ↔
      firstSelect s.conn.selects = some .ready ∧ calls.getsockopt = .ok 0 := by simp [Connects, hcall]
  have hwait : Waits calls s.conn.selects ↔ firstSelect s.conn.selects = none := by simp [Waits, hcall]
  have hend := selectLoop_selected s1.conn.selects s1.conn
  rw [hsel] at hend
  unfold connectProgress onConn
  rw [Prog.bind_run, Prog.zoom, show selectReady s1.conn = selectLoop s.conn.selects s1.conn by rw [← hsel]; rfl]
  generalize selectLoop s.conn.selects s1.conn = r at hend ⊢
  cases hend with
  | ready os e h =>
    dsimp only
    rw [if_neg (by decide), if_neg (by decide), if_pos rfl]
    cases hopt : calls.getsockopt with
    | error e => exact .failed _ (by simp [hcon, hopt]) (by simp [hwait, h]) hopen
    | ok err =>
      by_cases herr : err = 0
      · subst herr
        exact connectEnd_established waitSeconds (hcon.mpr ⟨h, hopt⟩) hs hmode hopen List.mem_cons_self
      · rw [Prog.bind_ret (getsockopt_pending fd herr _)]
        dsimp only
        rw [if_neg (by decide), if_neg (by omega)]
        exact connectEnd_failed waitSeconds (by simp [hcon, hopt, herr]) (by simp [hwait, h]) hs hmode hopen
  | timeout os e h => exact connectEnd_failed waitSeconds (by simp [hcon, h]) (by simp [hwait, h]) hs hmode hopen
  | failed os e h => exact .failed _ (by simp [hcon, h]) (by simp [hwait, h]) hopen
  | stalled e h => exact .stalled _ (hwait.mpr h)

/-- `connect` and what follows it, from the environment `s1`. -/
theorem connect_end {fd : Int} {calls : Calls} {s s1 : Sockets} (waitSeconds : Nat) (hs : FcntlsSucceed s1)
    (hmode : waitSeconds = 0 → fd ∉ s1.nonblock) (hsel : s1.conn.selects = s.conn.selects)
    (hopen : s1.opened = s.opened) :
    ConnectEnd fd calls s ((do
      let ret ← connect fd calls.connect
      let errno ← getErrno
      if ret < 0 ∧ errno = EINPROGRESS then connectProgress fd waitSeconds calls
      else connectEnd fd waitSeconds ret : Prog Sockets Int) s1) := by
  cases hcall : calls.connect with
  | none => exact connectEnd_established waitSeconds (.inl hcall) hs hmode hopen List.mem_cons_self
  | some e =>
    have hrun : connect fd (some e) s1 = .ret (-1) { s1 with conn.errno := e } := rfl
    rw [Prog.bind_ret hrun, Prog.bind_ret (getErrno_run _)]
    by_cases he : e = 115
    · subst he
      exact connectProgress_end waitSeconds hcall hsel hs hmode hopen
    · have hno : ¬ ((-1 : Int) < 0 ∧ (e : Int) = EINPROGRESS) := by unfold EINPROGRESS; omega
      rw [if_neg hno]
      exact connectEnd_failed waitSeconds (by simp [Connects, hcall, he]) (by simp [Waits, hcall, he]) hs hmode hopen

theorem connectTimeout_end {fd : Int} {s : Sockets} (waitSeconds : Nat) (calls : Calls) (hs : FcntlsSucceed s)
    (hmode : fd ∉ s.nonblock) : ConnectEnd fd calls s (connectTimeout fd waitSeconds calls s) := by
  unfold connectTimeout
  by_cases hw : waitSeconds > 0
  · rw [if_pos hw, Prog.bind_ret (activateNonblock_run fd hs)]
    exact connect_end waitSeconds hs.tail.tail (fun h0 => absurd h0 (by omega)) rfl rfl
  · rw [if_neg hw]
    exact connect_end waitSeconds hs (fun _ => hmode) rfl rfl

/-! ### What the caller makes of it -/

section
variable {ip connfd : Bool} {port connecttime : Int} {calls : Calls}

theorem sckClientConnect_rejected (hparam : Rejects ip connfd port connecttime) (s : Sockets) :
    sckClientConnect ip connfd port connecttime calls s = .ret (sckErrParam, none) s :=
  congrFun (if_pos hparam) s

theorem sckClientConnect_noSocket {e : Nat} (hparam : ¬ Rejects ip connfd port connecttime)
    (hsock : calls.socket = .error e) (s : Sockets) :
    sckClientConnect ip connfd port connecttime calls s = .ret ((e : Int), none) { s with conn.errno := e } := by
  unfold sckClientConnect
  unfold Rejects at hparam
  rw [if_neg hparam, hsock]
  rfl

/-- What `connect_timeout` returned is passed on, but for its timeout, after which
`*connfd` is unset. -/
theorem sckClientConnect_socket {fd : Nat} (hparam : ¬ Rejects ip connfd port connecttime)
    (hsock : calls.socket = .ok fd) (s : Sockets) :
    sckClientConnect ip connfd port connecttime calls s =
      match connectTimeout fd (toUnsigned connecttime) calls (s.socket fd) with
      | .ret ret s1 =>
        .ret (if ret = -1 ∧ s1.conn.errno = ETIMEDOUT then (sckErrTimeOut, none) else (ret, some (fd : Int))) s1
      | .stalled s1 => .stalled s1 := by
  unfold sckClientConnect
  unfold Rejects at hparam
  rw [if_neg hparam, hsock]
  dsimp only
  rw [Prog.bind_ret (Prog.update_run _ s), Prog.bind_run]
  cases connectTimeout fd (toUnsigned connecttime) calls (s.socket fd) with
  | stalled s1 => rfl
  | ret ret s1 =>
    dsimp only
    rw [Prog.bind_ret (getErrno_run s1)]
    by_cases hneg : ret < 0
    · rw [if_pos hneg]
      split <;> rfl
    · rw [if_neg hneg, if_neg (by omega)]
      rfl

end

/-- The parameters are rejected, no socket is to be had, the connection comes about, or
it is still awaited. -/
def Settles (ip connfd : Bool) (port connecttime : Int) (calls : Calls) (os : List SelectOutcome) : Prop :=
  Rejects ip connfd port connecttime ∨
  match calls.socket with
  | .error e => e ≠ 0
  | .ok _ => Connects calls os ∨ Waits calls os

theorem AllOrNothing.opened {s s' : Sockets} {ret : Int} {connfd : Option Int} (h : AllOrNothing s ret connfd s')
    (hret : ret ≠ 0) : s'.opened = s.opened := by
  rcases h with ⟨h0, -⟩ | ⟨-, -, hsame⟩
  · exact absurd h0 hret
  · exact hsame

/-- A call is all or nothing just if it does not fail with a socket in hand: whatever
fails after `socket` leaves that socket open. -/
theorem connect_iff (ip connfd : Bool) (port connecttime : Int) (calls : Calls) (s : Sockets)
    (hfcntl : FcntlsSucceed s) :
    (∀ ret fd s', sckClientConnect ip connfd port connecttime calls s = .ret (ret, fd) s' →
      AllOrNothing s ret fd s') ↔
    Settles ip connfd port connecttime calls s.conn.selects := by
  by_cases hparam : Rejects ip connfd port connecttime
  · refine iff_of_true ?_ (.inl hparam)
    intro ret fd s' hret
    rw [sckClientConnect_rejected hparam] at hret
    cases hret
    exact .inr ⟨by decide, rfl, rfl⟩
  rw [Settles, or_iff_right hparam]
  cases hsock : calls.socket with
  | error e =>
    rw [sckClientConnect_noSocket hparam hsock]
    constructor
    · intro h
      rcases h _ _ _ rfl with ⟨-, fd, hfd, -⟩ | ⟨hne, -⟩
      · cases hfd
      · exact fun h0 => hne (by simp [h0])
    · rintro hne ret fd s' ⟨⟩
      exact .inr ⟨by simpa using hne, rfl, rfl⟩
  | ok fd =>
    dsimp only
    have hmode : (fd : Int) ∉ (s.socket fd).nonblock := by simp [Sockets.socket]
    have hend := connectTimeout_end (s := s.socket fd) (toUnsigned connecttime) calls hfcntl hmode
    rw [sckClientConnect_socket hparam hsock]
    generalize connectTimeout fd (toUnsigned connecttime) calls (s.socket fd) = r at hend ⊢
    cases hend with
    | established s1 hcon hopen hest hmode =>
      refine iff_of_true ?_ (.inl hcon)
      rintro ret out s' ⟨⟩
      exact .inl ⟨rfl, fd, rfl, hopen, hest, hmode⟩
    | failed s1 hnot hwait hopen =>
      refine iff_of_false (fun h => ?_) (not_or.mpr ⟨hnot, hwait⟩)
      have hleak : s1.opened ≠ s.opened := by
        rw [hopen]
        exact List.cons_ne_self _ _
      by_cases htime : s1.conn.errno = ETIMEDOUT
      · exact hleak ((h sckErrTimeOut none s1 (by simp [htime])).opened (by decide))
      · exact hleak ((h (-1) (some fd) s1 (by simp [htime])).opened (by decide))
    | stalled s1 hwait => exact iff_of_true (fun ret out s' hret => nomatch hret) (.inr hwait)

/-- With a working `fcntl` and a server that accepts. -/
theorem connect_iff_accepted : FcntlsSucceed { fcntls := [none, none] } ∧
    (∀ ret fd s', sckClientConnect true true 8001 5 { socket := .ok 3 } { fcntls := [none, none] } = .ret (ret, fd) s' →
      AllOrNothing { fcntls := [none, none] } ret fd s') :=
  ⟨by simp [FcntlsSucceed], (connect_iff true true 8001 5 { socket := .ok 3 } { fcntls := [none, none] }
    (by simp [FcntlsSucceed])).mpr (.inr (.inl (.inl rfl)))⟩

/-- A refused connection (111) is reported, with its socket open and `*connfd` set. -/
theorem connect_refused :
    sckClientConnect true true 8001 0 { socket := .ok 3, connect := some 111 } {} =
      .ret (-1, some 3) { conn := { errno := 111 }, opened := [3] } ∧
    ¬ AllOrNothing {} (-1) (some 3) { conn := { errno := 111 }, opened := [3] } :=
  ⟨rfl, by simp [AllOrNothing]⟩

/-! ## The pool's view -/

/-- The result and `*connfd` are those the pool's model has for some outcome. -/
theorem connect_outcome {port connecttime : Int} {calls : Calls} {s s' : Sockets} {ret : Int} {fd : Option Int}
    (h : sckClientConnect true true port connecttime calls s = .ret (ret, fd) s') :
    ∃ o, ∀ p, ∃ p', CSocket.sckClientConnect port connecttime o p = (ret, fd, p') := by
  by_cases hparam : port ≤ 0 ∨ port > 65537 ∨ connecttime < 0
  · have hrej : Rejects true true port connecttime := .inr (.inr hparam)
    rw [sckClientConnect_rejected hrej] at h
    cases h
    exact ⟨.noSocket 0, fun p => ⟨_, if_pos hparam⟩⟩
  have hacc : ¬ Rejects true true port connecttime := by simpa [Rejects] using hparam
  cases hsock : calls.socket with
  | error e =>
    rw [sckClientConnect_noSocket hacc hsock] at h
    cases h
    refine ⟨.noSocket e, fun p => ⟨p, ?_⟩⟩
    rw [CSocket.sckClientConnect, if_neg hparam]
  | ok sockfd =>
    rw [sckClientConnect_socket hacc hsock] at h
    cases hrun : connectTimeout sockfd (toUnsigned connecttime) calls (s.socket sockfd) with
    | stalled s1 =>
      rw [hrun] at h
      cases h
    | ret ret1 s1 =>
      rw [hrun] at h
      refine ⟨.socket sockfd ret1 s1.conn.errno, fun p => ?_⟩
      rw [CSocket.sckClientConnect, if_neg hparam]
      dsimp only at h ⊢
      by_cases htime : ret1 = -1 ∧ s1.conn.errno = ETIMEDOUT
      · rw [if_pos htime] at h ⊢
        cases h
        exact ⟨_, if_pos (by omega)⟩
      · rw [if_neg htime] at h ⊢
        cases h
        by_cases hneg : ret < 0
        · exact ⟨_, if_pos hneg⟩
        · exact ⟨_, if_neg hneg⟩

end CSocket.Connect
