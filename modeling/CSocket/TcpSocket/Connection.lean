import CSocket.Lib.Lts
import CSocket.SocketUtil.Connect
import CSocket.TcpSocket.Receive
/-!
# The connection of a `TcpSocket`

`TcpSocket::blockIO`, `TcpSocket::noBlockIO`, `TcpSocket::connectTimeout`,
`TcpSocket::connectToHost` and `TcpSocket::disConnect`, beside `sckClient_connect` of
`socketutil.c`, with the same calls of the system. The object knows the descriptor of a
connection that did not come about, where the caller of the C function may not; but it
does not know that it has closed it. What is logged is left out.
-/
namespace CSocket.TcpSocket
open Connect

/-! ## The code -/

/-- Sets the non-blocking mode, as `activate_nonblock` does. -/
def blockIO (fd : Int) : Prog Sockets Int := activateNonblock fd

def noBlockIO (fd : Int) : Prog Sockets Int := deactivateNonblock fd

/-- Call by call the body of `connect_timeout`, on `m_socket`. -/
def connectTimeout (mSocket : Int) (waitSeconds : Nat) (calls : Connect.Calls) : Prog Sockets Int :=
  Connect.connectTimeout mSocket waitSeconds calls

/-- The result, and `m_socket` where it is set. `ip` says whether the pointer is non-null. -/
def connectToHost (ip : Bool) (port : UInt16) (timeout : Int) (calls : Connect.Calls) : Prog Sockets (Int × Option Int) :=
  if ip = false ∨ port.toNat ≤ 0 ∨ port.toNat > 65535 ∨ timeout < 0 then return (ParamError, none)
  else match calls.socket with
    | .error e => do
      setErrno e
      return ((e : Int), some (-1))
    | .ok fd => do
      Prog.update (Sockets.socket fd)
      let ret ← connectTimeout fd (toUnsigned timeout) calls
      let errno ← getErrno
      if ret < 0 then
        if ret = -1 ∧ errno = ETIMEDOUT then return (TimeoutError, some (fd : Int))
        else return (ret, some (fd : Int))
      else return (ret, some (fd : Int))

/-- `close(fd)`, which fails on a descriptor that is not open. -/
def closeFd (fd : Int) (s : Sockets) : Sockets := { s with opened := s.opened.filter (· ≠ fd) }

def disConnect (mSocket : Int) : Prog Sockets Unit :=
  if mSocket ≥ 0 then Prog.update (closeFd mSocket) else return ()

/-! ## Beside the C function -/

/-- `connectToHost` rejects its parameters. -/
def Rejects (ip : Bool) (port : UInt16) (timeout : Int) : Prop := ip = false ∨ port = 0 ∨ timeout < 0

instance (ip : Bool) (port : UInt16) (timeout : Int) : Decidable (Rejects ip port timeout) :=
  inferInstanceAs (Decidable (_ ∨ _))

section
variable {ip : Bool} {port : UInt16} {timeout : Int} {calls : Connect.Calls}

/-- The test of the upper bound does nothing. -/
theorem rejects_iff (ip : Bool) (port : UInt16) (timeout : Int) :
    (ip = false ∨ port.toNat ≤ 0 ∨ port.toNat > 65535 ∨ timeout < 0) ↔ Rejects ip port timeout := by
  have hport : port.toNat ≤ 0 ↔ port = 0 := by
    rw [Nat.le_zero]
    exact ⟨fun h => UInt16.toNat_inj.mp h, fun h => by rw [h]; rfl⟩
  have hbound : ¬ port.toNat > 65535 := by
    have := port.toNat_lt
    omega
  rw [Rejects, hport]
  simp [hbound]

theorem connectToHost_rejected (h : Rejects ip port timeout) (s : Sockets) :
    connectToHost ip port timeout calls s = .ret (ParamError, none) s :=
  congrFun (if_pos ((rejects_iff ip port timeout).mpr h)) s

theorem connectToHost_noSocket {e : Nat} (h : ¬ Rejects ip port timeout) (hsock : calls.socket = .error e) (s : Sockets) :
    connectToHost ip port timeout calls s = .ret ((e : Int), some (-1)) { s with conn.errno := e } := by
  unfold connectToHost
  rw [if_neg (mt (rejects_iff ip port timeout).mp h), hsock]
  rfl

theorem connectToHost_socket {fd : Nat} (h : ¬ Rejects ip port timeout) (hsock : calls.socket = .ok fd) (s : Sockets) :
    connectToHost ip port timeout calls s =
      match connectTimeout fd (toUnsigned timeout) calls (s.socket fd) with
      | .ret ret s1 =>
        .ret (if ret = -1 ∧ s1.conn.errno = ETIMEDOUT then TimeoutError else ret, some (fd : Int)) s1
      | .stalled s1 => .stalled s1 := by
  unfold connectToHost
  rw [if_neg (mt (rejects_iff ip port timeout).mp h), hsock]
  dsimp only
  rw [Prog.bind_ret (Prog.update_run _ s), Prog.bind_run]
  cases connectTimeout fd (toUnsigned timeout) calls (s.socket fd) with
  | stalled s1 => rfl
  | ret ret s1 =>
    dsimp only
    rw [Prog.bind_ret (getErrno_run s1)]
    by_cases hneg : ret < 0
    · rw [if_pos hneg]
      split <;> rfl
    · rw [if_neg hneg, if_neg (by omega)]
      rfl

/-- The C function rejects the same ports. -/
theorem rejects_c : Connect.Rejects ip true port.toNat timeout ↔ Rejects ip port timeout := by
  rw [← rejects_iff]
  unfold Connect.Rejects
  have := port.toNat_lt
  constructor
  · rintro (h | h | h | h | h)
    · exact .inl h
    · cases h
    · exact .inr (.inl (by omega))
    · omega
    · exact .inr (.inr (.inr h))
  · rintro (h | h | h | h)
    · exact .inl h
    · exact .inr (.inr (.inl (by omega)))
    · omega
    · exact .inr (.inr (.inr (.inr h)))

/-- What the caller of the C function is left with, next to what the object has. -/
structure SameConnect (ret : Int) (connfd : Option Int) (s : Sockets) (ret' : Int) (mSocket : Option Int) (s' : Sockets) :
    Prop where
  result : ret' = ret
  sockets : s' = s
  known : ∀ fd ∈ connfd, mSocket = some fd
  timeout : connfd = none → ∀ fd ∈ mSocket, 0 ≤ fd → ret = sckErrTimeOut

/-- For every port and in every environment the two connect with the same calls and report
the same. A descriptor that the object has and the C caller has not is that of a connection
that timed out. -/
theorem connectToHost_agrees (ip : Bool) (port : UInt16) (timeout : Int) (calls : Connect.Calls) (s : Sockets) :
    match Connect.sckClientConnect ip true port.toNat timeout calls s, connectToHost ip port timeout calls s with
    | .ret (ret, connfd) s1, .ret (ret', mSocket) s1' => SameConnect ret connfd s1 ret' mSocket s1'
    | .stalled s1, .stalled s1' => s1' = s1
    | _, _ => False := by
  by_cases hrej : Rejects ip port timeout
  · rw [sckClientConnect_rejected (rejects_c.mpr hrej), connectToHost_rejected hrej]
    exact ⟨rfl, rfl, nofun, nofun⟩
  have hrej' := mt rejects_c.mp hrej
  cases hsock : calls.socket with
  | error e =>
    rw [sckClientConnect_noSocket hrej' hsock, connectToHost_noSocket hrej hsock]
    refine ⟨rfl, rfl, nofun, fun _ fd h hpos => ?_⟩
    cases h
    omega
  | ok fd =>
    rw [sckClientConnect_socket hrej' hsock, connectToHost_socket hrej hsock, connectTimeout]
    cases Connect.connectTimeout fd (toUnsigned timeout) calls (s.socket fd) with
    | stalled s1 => rfl
    | ret ret s1 =>
      dsimp only
      by_cases htime : ret = -1 ∧ s1.conn.errno = ETIMEDOUT
      · rw [if_pos htime, if_pos htime]
        exact ⟨rfl, rfl, nofun, fun _ _ _ _ => rfl⟩
      · rw [if_neg htime, if_neg htime]
        exact ⟨rfl, rfl, fun fd h => h, nofun⟩

end

/-! ## Over the life of an object -/

/-- An object, the sockets of its process, and those of them that others opened. -/
structure Client where
  mSocket : Int
  sockets : Sockets
  others : List Int

inductive ClientAct where
  | connectToHost (ip : Bool) (port : UInt16) (timeout : Int) (calls : Connect.Calls)
  | disConnect
  | opens (fd : Nat)
  | closes (fd : Int)

/-- A call that returns, or what the others do. A new descriptor is none of those open. -/
def clientStep (s : Client) : ClientAct → Option Client
  | .connectToHost ip port timeout calls =>
    if ∀ fd ∈ calls.socket.toOption, (fd : Int) ∉ s.sockets.opened then
      match connectToHost ip port timeout calls s.sockets with
      | .ret (_, mSocket) sockets => some { s with mSocket := mSocket.getD s.mSocket, sockets }
      | .stalled _ => none
    else none
  | .disConnect => match disConnect s.mSocket s.sockets with
    | .ret () sockets => some { s with sockets }
    | .stalled _ => none
  | .opens fd =>
    if (fd : Int) ∉ s.sockets.opened then some { s with sockets := s.sockets.socket fd, others := fd :: s.others } else none
  | .closes fd =>
    if fd ∈ s.others then some { s with sockets := closeFd fd s.sockets, others := s.others.filter (· ≠ fd) } else none

/-- Nothing of the others' is closed, and nothing is open but theirs and `m_socket`. -/
structure Tidy (s : Client) : Prop where
  others : ∀ fd ∈ s.others, fd ∈ s.sockets.opened
  own : ∀ fd ∈ s.sockets.opened, fd ∈ s.others ∨ fd = s.mSocket

/-- The object has an open socket. -/
def Client.Connected (s : Client) : Prop := s.mSocket ∈ s.sockets.opened ∧ s.mSocket ∉ s.others

/-- No new connection over an old one, and no `disConnect` when the descriptor has been
closed and given to somebody else. -/
def Proper (s : Client) : ClientAct → Prop
  | .connectToHost ip port timeout _ => Rejects ip port timeout ∨ ¬ s.Connected
  | .disConnect => s.mSocket ∉ s.others
  | _ => True

instance (s : Client) : (a : ClientAct) → Decidable (Proper s a)
  | .connectToHost .. => inferInstanceAs (Decidable (_ ∨ ¬ (_ ∧ _)))
  | .disConnect => inferInstanceAs (Decidable (¬ _))
  | .opens _ | .closes _ => .isTrue trivial

section
variable {s s' : Client} {a : ClientAct}

/-! ### What connecting opens -/

theorem fcntl_keeps {f : Sockets → Sockets} (hf : ∀ s, (f s).opened = s.opened) : Prog.Keeps Sockets.opened (fcntl f) := by
  intro s
  unfold fcntl
  split
  · rfl
  · exact hf _

theorem activateNonblock_keeps (fd : Int) : Prog.Keeps Sockets.opened (activateNonblock fd) :=
  (fcntl_keeps fun _ => rfl).bind fun _ => .ite (.pure _ _) (fcntl_keeps fun _ => rfl)

theorem deactivateNonblock_keeps (fd : Int) : Prog.Keeps Sockets.opened (deactivateNonblock fd) :=
  (fcntl_keeps fun _ => rfl).bind fun _ => .ite (.pure _ _) (fcntl_keeps fun _ => rfl)

theorem setErrno_keeps (e : Int) : Prog.Keeps Sockets.opened (setErrno e) := fun _ => rfl

theorem connect_keeps (fd : Int) (o : Option Nat) : Prog.Keeps Sockets.opened (connect fd o) := by
  cases o <;> exact fun _ => rfl

theorem getsockopt_keeps (fd : Int) (o : Except Nat Nat) : Prog.Keeps Sockets.opened (getsockopt fd o) := by
  cases o with
  | error e => exact fun _ => rfl
  | ok err =>
    intro s
    show (if err = 0 then { s with established := fd :: s.established } else s).opened = s.opened
    split <;> rfl

theorem select_keeps : Prog.Keeps Sockets.opened (onConn selectReady) := by
  intro s
  unfold onConn Prog.zoom
  cases selectReady s.conn <;> rfl

theorem connectEnd_keeps (fd : Int) (waitSeconds : Nat) (ret : Int) :
    Prog.Keeps Sockets.opened (connectEnd fd waitSeconds ret) :=
  .ite ((deactivateNonblock_keeps fd).bind fun _ => .pure _ _) (.pure _ _)

theorem connectProgress_keeps (fd : Int) (waitSeconds : Nat) (calls : Connect.Calls) :
    Prog.Keeps Sockets.opened (connectProgress fd waitSeconds calls) := by
  refine select_keeps.bind fun ret => .ite ((setErrno_keeps _).bind fun _ => connectEnd_keeps _ _ _)
    (.ite (.pure _ _) (.ite ((getsockopt_keeps fd _).bind fun _ => ?_) (connectEnd_keeps _ _ _)))
  exact .ite (.pure _ _) (.ite (connectEnd_keeps _ _ _) ((setErrno_keeps _).bind fun _ => connectEnd_keeps _ _ _))

theorem connectTimeout_keeps (fd : Int) (waitSeconds : Nat) (calls : Connect.Calls) :
    Prog.Keeps Sockets.opened (connectTimeout fd waitSeconds calls) := by
  have hrest : Prog.Keeps Sockets.opened (do
      let ret ← connect fd calls.connect
      let errno ← getErrno
      if ret < 0 ∧ errno = EINPROGRESS then connectProgress fd waitSeconds calls
      else connectEnd fd waitSeconds ret : Prog Sockets Int) :=
    (connect_keeps fd _).bind fun _ => (Prog.Keeps.read _ _).bind fun _ =>
      .ite (connectProgress_keeps fd waitSeconds calls) (connectEnd_keeps fd waitSeconds _)
  exact .ite ((activateNonblock_keeps fd).bind fun _ => hrest) hrest

/-- The ways through a call that returns. -/
theorem connectToHost_cases {ip : Bool} {port : UInt16} {timeout ret : Int} {calls : Connect.Calls} {mSocket : Option Int}
    {t t' : Sockets} (h : connectToHost ip port timeout calls t = .ret (ret, mSocket) t') :
    Rejects ip port timeout ∧ mSocket = none ∧ t'.opened = t.opened ∨
    ¬ Rejects ip port timeout ∧ (mSocket = some (-1) ∧ t'.opened = t.opened ∨
      ∃ fd : Nat, calls.socket = .ok fd ∧ mSocket = some (fd : Int) ∧ t'.opened = (fd : Int) :: t.opened) := by
  by_cases hrej : Rejects ip port timeout
  · rw [connectToHost_rejected hrej] at h
    cases h
    exact .inl ⟨hrej, rfl, rfl⟩
  · refine .inr ⟨hrej, ?_⟩
    cases hsock : calls.socket with
    | error e =>
      rw [connectToHost_noSocket hrej hsock] at h
      cases h
      exact .inl ⟨rfl, rfl⟩
    | ok fd =>
      have hkeep := connectTimeout_keeps fd (toUnsigned timeout) calls (t.socket fd)
      rw [connectToHost_socket hrej hsock] at h
      cases hrun : connectTimeout fd (toUnsigned timeout) calls (t.socket fd) with
      | stalled t1 =>
        rw [hrun] at h
        cases h
      | ret ret1 t1 =>
        rw [hrun] at h hkeep
        cases h
        exact .inr ⟨fd, rfl, rfl, hkeep⟩

/-! ### One step -/

/-- A process in order. -/
structure Client.Ok (s : Client) : Prop where
  tidy : Tidy s
  nonneg : ∀ fd ∈ s.sockets.opened, 0 ≤ fd

theorem mem_closeFd {fd x : Int} {t : Sockets} : x ∈ (closeFd fd t).opened ↔ x ∈ t.opened ∧ x ≠ fd := by
  simp [closeFd]

/-- Every step, by what it does to the descriptors. -/
theorem clientStep_cases (hstep : clientStep s a = some s') :
    (∃ ip port timeout calls, a = .connectToHost ip port timeout calls ∧ s'.others = s.others ∧
      (Rejects ip port timeout ∧ s'.mSocket = s.mSocket ∧ s'.sockets.opened = s.sockets.opened ∨
      ¬ Rejects ip port timeout ∧ (s'.mSocket = -1 ∧ s'.sockets.opened = s.sockets.opened ∨
        ∃ fd : Nat, (fd : Int) ∉ s.sockets.opened ∧ s'.mSocket = fd ∧ s'.sockets.opened = (fd : Int) :: s.sockets.opened))) ∨
    (a = .disConnect ∧ s'.others = s.others ∧ s'.mSocket = s.mSocket ∧
      (0 ≤ s.mSocket ∧ s'.sockets = closeFd s.mSocket s.sockets ∨ s.mSocket < 0 ∧ s'.sockets = s.sockets)) ∨
    (∃ fd : Nat, a = .opens fd ∧ s' = { s with sockets := s.sockets.socket fd, others := fd :: s.others }) ∨
    (∃ fd, a = .closes fd ∧ fd ∈ s.others ∧
      s' = { s with sockets := closeFd fd s.sockets, others := s.others.filter (· ≠ fd) }) := by
  cases a with
  | connectToHost ip port timeout calls =>
    refine .inl ⟨ip, port, timeout, calls, rfl, ?_⟩
    obtain ⟨hnew, hstep⟩ := Option.ite_none_right_eq_some.mp hstep
    cases hrun : connectToHost ip port timeout calls s.sockets with
    | stalled t =>
      rw [hrun] at hstep
      cases hstep
    | ret r t =>
      obtain ⟨ret, mSocket⟩ := r
      rw [hrun] at hstep
      cases hstep
      refine ⟨rfl, ?_⟩
      obtain ⟨hrej, rfl, hopen⟩ | ⟨hrej, ⟨rfl, hopen⟩ | ⟨fd, hsock, rfl, hopen⟩⟩ := connectToHost_cases hrun
      · exact .inl ⟨hrej, rfl, hopen⟩
      · exact .inr ⟨hrej, .inl ⟨rfl, hopen⟩⟩
      · have hfd : fd ∈ calls.socket.toOption := by rw [hsock]; exact rfl
        exact .inr ⟨hrej, .inr ⟨fd, hnew fd hfd, rfl, hopen⟩⟩
  | disConnect =>
    refine .inr (.inl ⟨rfl, ?_⟩)
    rw [clientStep, disConnect] at hstep
    by_cases hpos : s.mSocket ≥ 0
    · rw [if_pos hpos] at hstep
      cases hstep
      exact ⟨rfl, rfl, .inl ⟨hpos, rfl⟩⟩
    · rw [if_neg hpos] at hstep
      cases hstep
      exact ⟨rfl, rfl, .inr ⟨by omega, rfl⟩⟩
  | opens fd =>
    obtain ⟨-, hstep⟩ := Option.ite_none_right_eq_some.mp hstep
    cases hstep
    exact .inr (.inr (.inl ⟨fd, rfl, rfl⟩))
  | closes fd =>
    obtain ⟨hfd, hstep⟩ := Option.ite_none_right_eq_some.mp hstep
    cases hstep
    exact .inr (.inr (.inr ⟨fd, rfl, hfd, rfl⟩))

theorem Client.Ok.step (h : s.Ok) (hok : Proper s a) (hstep : clientStep s a = some s') : s'.Ok := by
  obtain ⟨ip, port, timeout, calls, rfl, hothers, hcase⟩ | ⟨rfl, hothers, hsame, hcase⟩ | ⟨fd, rfl, rfl⟩ |
    ⟨fd, rfl, hfd, rfl⟩ := clientStep_cases hstep
  · obtain ⟨-, hm, hopen⟩ | ⟨hrej, hcase⟩ := hcase
    · refine ⟨⟨?_, ?_⟩, ?_⟩
      · rw [hothers, hopen]
        exact h.tidy.others
      · rw [hothers, hopen, hm]
        exact h.tidy.own
      · rw [hopen]
        exact h.nonneg
    -- what was open is the others', the object having had nothing
    have hown : ∀ x ∈ s.sockets.opened, x ∈ s.others := by
      intro x hx
      rcases h.tidy.own x hx with hx' | rfl
      · exact hx'
      · exact Classical.byContradiction fun hno => (hok.resolve_left hrej) ⟨hx, hno⟩
    obtain ⟨hm, hopen⟩ | ⟨fd, hnew, hm, hopen⟩ := hcase
    · refine ⟨⟨?_, ?_⟩, ?_⟩
      · rw [hothers, hopen]
        exact h.tidy.others
      · rw [hothers, hopen]
        exact fun x hx => .inl (hown x hx)
      · rw [hopen]
        exact h.nonneg
    · refine ⟨⟨?_, ?_⟩, ?_⟩
      · rw [hothers, hopen]
        exact fun x hx => List.mem_cons_of_mem _ (h.tidy.others x hx)
      · rw [hothers, hopen, hm]
        intro x hx
        rcases List.mem_cons.mp hx with rfl | hx
        · exact .inr rfl
        · exact .inl (hown x hx)
      · rw [hopen]
        intro x hx
        rcases List.mem_cons.mp hx with rfl | hx
        · omega
        · exact h.nonneg x hx
  · obtain ⟨hpos, hsockets⟩ | ⟨hneg, hsockets⟩ := hcase
    · refine ⟨⟨?_, ?_⟩, ?_⟩ <;> rw [hsockets]
      · rw [hothers]
        exact fun x hx => mem_closeFd.mpr ⟨h.tidy.others x hx, fun hx' => hok (hx' ▸ hx)⟩
      · rw [hothers, hsame]
        exact fun x hx => h.tidy.own x (mem_closeFd.mp hx).1
      · exact fun x hx => h.nonneg x (mem_closeFd.mp hx).1
    · refine ⟨⟨?_, ?_⟩, ?_⟩ <;> rw [hsockets]
      · rw [hothers]
        exact h.tidy.others
      · rw [hothers, hsame]
        exact h.tidy.own
      · exact h.nonneg
  · refine ⟨⟨fun x hx => ?_, fun x hx => ?_⟩, fun x hx => ?_⟩
    · rcases List.mem_cons.mp hx with rfl | hx
      · exact List.mem_cons_self
      · exact List.mem_cons_of_mem _ (h.tidy.others x hx)
    · rcases List.mem_cons.mp hx with rfl | hx
      · exact .inl List.mem_cons_self
      · exact (h.tidy.own x hx).imp_left (List.mem_cons_of_mem _)
    · rcases List.mem_cons.mp hx with rfl | hx
      · omega
      · exact h.nonneg x hx
  · refine ⟨⟨fun x hx => ?_, fun x hx => ?_⟩, fun x hx => h.nonneg x (mem_closeFd.mp hx).1⟩
    · obtain ⟨hx, hne⟩ := List.mem_filter.mp hx
      exact mem_closeFd.mpr ⟨h.tidy.others x hx, of_decide_eq_true hne⟩
    · obtain ⟨hx, hne⟩ := mem_closeFd.mp hx
      exact (h.tidy.own x hx).imp_left fun hx => List.mem_filter.mpr ⟨hx, decide_eq_true hne⟩

/-- The other steps lose a connection or close one of somebody else's. -/
theorem not_tidy_of_not_proper (h : s.Ok) (hbad : ¬ Proper s a) (hstep : clientStep s a = some s') : ¬ Tidy s' := by
  intro htidy
  obtain ⟨ip, port, timeout, calls, rfl, hothers, hcase⟩ | ⟨rfl, hothers, -, hcase⟩ | ⟨fd, rfl, -⟩ | ⟨fd, rfl, -, -⟩ :=
    clientStep_cases hstep
  · obtain ⟨hrej, hconn⟩ := not_or.mp hbad
    obtain ⟨hopen, hnot⟩ := Classical.not_not.mp hconn
    obtain ⟨hrej', -⟩ | ⟨-, ⟨hm, hopened⟩ | ⟨fd, hnew, hm, hopened⟩⟩ := hcase
    · exact hrej hrej'
    · rcases htidy.own s.mSocket (hopened ▸ hopen) with hin | heq
      · exact hnot (hothers ▸ hin)
      · have := h.nonneg _ hopen
        omega
    · rcases htidy.own s.mSocket (hopened ▸ List.mem_cons_of_mem _ hopen) with hin | heq
      · exact hnot (hothers ▸ hin)
      · exact hnew (hm ▸ heq ▸ hopen)
  · have hin : s.mSocket ∈ s.others := Classical.not_not.mp hbad
    have hpos := h.nonneg _ (h.tidy.others _ hin)
    obtain ⟨-, hsockets⟩ | ⟨hneg, -⟩ := hcase
    · have hopen := htidy.others s.mSocket (hothers ▸ hin)
      rw [hsockets] at hopen
      exact (mem_closeFd.mp hopen).2 rfl
    · omega
  · exact hbad trivial
  · exact hbad trivial

/-! ### A whole run -/

end

end CSocket.TcpSocket
