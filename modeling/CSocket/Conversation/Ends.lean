import CSocket.SocketUtil.Delivery
import CSocket.TcpSocket.Send
/-!
# The ends of a conversation

A message can be sent and received with the client's or the server's functions of
`socketutil.c`, with a `TcpSocket`, or with `sckCltPool_send` and `sckCltPool_rev` of
`poolsocket.c`. `send_synced` and `rev_synced` say what any of them does to the two
streams of its connection. What is logged is left out.
-/
namespace CSocket

/-! ## The pool's functions -/

/-- The times of a `SockePoolHandle`. -/
structure PoolTimes where
  sendtime : Int
  revtime : Int
  deriving DecidableEq

def sckCltPoolSend (handle : Option PoolTimes) (connfd : Int) (data : Option (List UInt8)) (datalen : Int) :
    Prog Conn Int :=
  match handle with
  | none => return sckErrParam
  | some hdl =>
    if connfd < 0 ∨ data = none ∨ datalen ≤ 0 then return sckErrParam
    else do
      let ret ← sckClientSend hdl.sendtime data datalen
      if ret ≠ 0 then return ret
      else return ret

def sckCltPoolRev (handle : Option PoolTimes) (connfd : Int) (out outlen : Bool) :
    Prog Conn (Int × Option Delivered) :=
  match handle with
  | none => return (sckErrParam, none)
  | some hdl =>
    if connfd < 0 ∨ out = false ∨ outlen = false then return (sckErrParam, none)
    else do
      let (ret, o) ← sckClientRev hdl.revtime out outlen
      if ret ≠ 0 then return (ret, o)
      else return (ret, o)

theorem sckCltPoolSend_eq {hdl : PoolTimes} {connfd : Int} (hfd : 0 ≤ connfd) (data : Option (List UInt8))
    (datalen : Int) : sckCltPoolSend (some hdl) connfd data datalen = sckClientSend hdl.sendtime data datalen := by
  unfold sckCltPoolSend
  dsimp only
  by_cases hparam : data = none ∨ datalen ≤ 0
  · rw [if_pos (.inr hparam), sckClientSend, if_pos hparam]
  · have hnot : ¬ (connfd < 0 ∨ data = none ∨ datalen ≤ 0) := not_or.mpr ⟨by omega, hparam⟩
    rw [if_neg hnot]
    funext c
    rw [Prog.bind_run]
    cases sckClientSend hdl.sendtime data datalen c with
    | stalled c' => rfl
    | ret ret c' =>
      dsimp only
      split <;> rfl

theorem sckCltPoolRev_eq {hdl : PoolTimes} {connfd : Int} (hfd : 0 ≤ connfd) (out outlen : Bool) :
    sckCltPoolRev (some hdl) connfd out outlen = sckClientRev hdl.revtime out outlen := by
  unfold sckCltPoolRev
  dsimp only
  by_cases hparam : out = false ∨ outlen = false
  · rw [if_pos (.inr hparam), sckClientRev, sckRev, if_pos hparam]
  · have hnot : ¬ (connfd < 0 ∨ out = false ∨ outlen = false) := not_or.mpr ⟨by omega, hparam⟩
    rw [if_neg hnot]
    funext c
    rw [Prog.bind_run]
    cases sckClientRev hdl.revtime out outlen c with
    | stalled c' => rfl
    | ret ret c' =>
      dsimp only
      split <;> rfl

/-! ## Ends -/

/-- What a program uses at its end of the connection. `recvLen` is what the caller's
variable holds. -/
inductive End where
  | socketutil (side : Side)
  | tcpSocket (recvLen : Int)
  | pool (hdl : PoolTimes) (connfd : Int)

namespace End

/-- A send of the whole message; the pool has its own times. -/
def send (e : End) (timeout : Int) (m : List UInt8) : Prog Conn Int :=
  match e with
  | socketutil side => side.send timeout (some m) m.length
  | tcpSocket _ => TcpSocket.sendMsg (some m) m.length timeout
  | pool hdl connfd => sckCltPoolSend (some hdl) connfd (some m) m.length

/-- A receive into two non-null pointers. -/
def rev (e : End) (timeout : Int) : Prog Conn (Int × Option Delivered) :=
  match e with
  | socketutil side => side.rev timeout true true
  | tcpSocket recvLen => TcpSocket.recvMsg true recvLen timeout
  | pool hdl connfd => sckCltPoolRev (some hdl) connfd true true

/-- Every end's send is one of the two of `socketutil.c`, or a refusal. -/
theorem send_eq (e : End) (timeout : Int) (m : List UInt8) :
    e.send timeout m = pure sckErrParam ∨ ∃ side t, e.send timeout m = Side.send side t (some m) m.length := by
  cases e with
  | socketutil side => exact .inr ⟨side, timeout, rfl⟩
  | tcpSocket recvLen => exact .inr ⟨.client, timeout, TcpSocket.sendMsg_eq (some m) m.length timeout⟩
  | pool hdl connfd =>
    by_cases hfd : 0 ≤ connfd
    · exact .inr ⟨.client, hdl.sendtime, sckCltPoolSend_eq hfd (some m) m.length⟩
    · exact .inl (if_pos (.inl (by omega)))

/-- Every end's receive is that of `socketutil.c`, or a refusal. -/
theorem rev_eq (e : End) (timeout : Int) :
    e.rev timeout = pure (sckErrParam, none) ∨ ∃ t, e.rev timeout = sckRev t true true := by
  cases e with
  | socketutil side => exact .inr ⟨timeout, by rw [rev, Side.rev_eq]⟩
  | tcpSocket recvLen =>
    by_cases hlen : recvLen = 0
    · exact .inl (if_pos (.inr hlen))
    · exact .inr ⟨timeout, TcpSocket.recvMsg_eq hlen timeout⟩
  | pool hdl connfd =>
    by_cases hfd : 0 ≤ connfd
    · exact .inr ⟨hdl.revtime, sckCltPoolRev_eq hfd true true⟩
    · exact .inl (if_pos (.inl (by omega)))

end End

/-! ## What a send leaves alone -/

theorem writen_keeps (buf : List UInt8) (count : Nat) : Prog.Keeps Conn.input (writen buf count) := by
  intro c
  have hend := writen_end buf count c
  generalize writen buf count c = r at hend ⊢
  cases hend <;> rfl

theorem ioTimeout_keeps (waitSeconds : Nat) : Prog.Keeps (fun c => (c.input, c.output)) (ioTimeout waitSeconds) := by
  intro c
  have hend := ioTimeout_end waitSeconds c
  generalize ioTimeout waitSeconds c = r at hend ⊢
  cases hend <;> rfl

theorem malloc_keeps (size : Nat) : Prog.Keeps (fun c => (c.input, c.output)) (malloc size) := by
  intro c
  unfold malloc
  split <;> rfl

theorem note_keeps (op : MemOp) : Prog.Keeps (fun c => (c.input, c.output)) (note op) := fun _ => rfl

theorem sendRet_keeps (ret : Int) : Prog.Keeps Conn.input (sendRet ret) :=
  (Prog.Keeps.read _ _).bind fun _ => .ite (.ite (.pure _ _) (.pure _ _)) (.pure _ _)

theorem sendNetdata_keeps (data : Option (List UInt8)) (datalen : Int) :
    Prog.Keeps Conn.input (sendNetdata data datalen) := by
  refine (malloc_keeps _).fst.bind fun blk => ?_
  cases blk with
  | none => exact .pure _ _
  | some netdata =>
    exact (note_keeps _).fst.bind fun _ => (note_keeps _).fst.bind fun _ => (note_keeps _).fst.bind fun _ =>
      (writen_keeps _ _).bind fun _ => .pure _ _

theorem sckSend_keeps (freeSent : Bool) (sendtime : Int) (data : Option (List UInt8)) (datalen : Int) :
    Prog.Keeps Conn.input (sckSend freeSent sendtime data datalen) := by
  refine (ioTimeout_keeps _).fst.bind fun _ => .ite ((sendNetdata_keeps _ _).bind fun sent => ?_) (sendRet_keeps _)
  cases sent with
  | none => exact .pure _ _
  | some sent =>
    exact .ite ((note_keeps _).fst.bind fun _ => .pure _ _)
      (.ite ((note_keeps _).fst.bind fun _ => sendRet_keeps _) (sendRet_keeps _))

theorem Side.send_keeps (side : Side) (timeout : Int) (data : Option (List UInt8)) (datalen : Int) :
    Prog.Keeps Conn.input (side.send timeout data datalen) := by
  cases side with
  | client => exact .ite (.pure _ _) (sckSend_keeps _ _ _ _)
  | server => exact sckSend_keeps _ _ _ _

/-! ## What a receive leaves alone -/

theorem readn_keeps (count : Nat) : Prog.Keeps Conn.output (readn count) := by
  intro c
  have hend := readn_end count c
  generalize readn count c = r at hend ⊢
  cases hend <;> rfl

theorem revPayload_keeps (n : Int) (tmpBuf : Nat) : Prog.Keeps Conn.output (revPayload n tmpBuf) :=
  (note_keeps _).snd.bind fun _ => (readn_keeps _).bind fun _ =>
    .ite (.pure _ _) (.ite (.pure _ _) ((note_keeps _).snd.bind fun _ => .pure _ _))

theorem revReady_keeps : Prog.Keeps Conn.output revReady := by
  refine (readn_keeps 4).bind fun _ => .ite (.pure _ _) (.ite (.pure _ _) ((malloc_keeps _).snd.bind fun blk => ?_))
  cases blk with
  | none => exact .pure _ _
  | some tmpBuf => exact revPayload_keeps _ _

theorem sckRev_keeps (revtime : Int) (out outlen : Bool) : Prog.Keeps Conn.output (sckRev revtime out outlen) :=
  .ite (.pure _ _) ((ioTimeout_keeps _).snd.bind fun _ => (Prog.Keeps.read _ _).bind fun _ =>
    .ite (.ite (.pure _ _) (.pure _ _)) revReady_keeps)

/-! ## In step with the other end -/

/-- A send of `m` writes its frame, or a proper prefix of it and fails, and takes nothing
from the other stream. -/
structure SendSynced (m : List UInt8) (c : Conn) (r : Outcome Conn Int) : Prop where
  wrote : SendEnd m c r
  input : r.env.input = c.input

/-- A receive delivers the next frame, leaves the stream as it was, or fails; it writes
nothing. -/
inductive RevSynced (c : Conn) : Outcome Conn (Int × Option Delivered) → Prop
  | delivered (m c') : sckFraming.next c.input = some (m, c'.input) → c'.output = c.output →
      RevSynced c (.ret (0, some (delivered m)) c')
  | timeout (c') : c'.input = c.input → c'.output = c.output → RevSynced c (.ret (sckErrTimeOut, none) c')
  | failed (r c') : r ≠ 0 → r ≠ sckErrTimeOut → c'.output = c.output → RevSynced c (.ret (r, none) c')
  | stalled (c') : c'.output = c.output → RevSynced c (.stalled c')

theorem sckErrParam_ne : sckErrParam ≠ 0 ∧ sckErrParam ≠ sckErrTimeOut := by decide

theorem send_synced (e : End) (timeout : Int) {m : List UInt8} (h1 : 1 ≤ m.length) (hm : m.length ≤ 2 ^ 31 - 5)
    (c : Conn) : SendSynced m c (e.send timeout m c) := by
  rcases e.send_eq timeout m with hsend | ⟨side, t, hsend⟩
  · rw [hsend]
    refine ⟨.failed _ c 0 sckErrParam_ne.1 ?_ (fun _ => rfl) (by simp), rfl⟩
    rw [length_frame]
    omega
  · rw [hsend]
    exact ⟨send_end side t h1 hm c, side.send_keeps t (some m) m.length c⟩

/-- A receive of the payload, once the header is read and the block is there. -/
theorem payload_synced {c c1 : Conn} {n : Nat} (hn : n ≤ 2 ^ 31 - 2) (hlen : ntohl (c.input.take 4) = n) (tmpBuf : Nat)
    (hin : c1.input = c.input.drop 4) (hfull : 4 ≤ c.input.length) (hout : c1.output = c.output) :
    RevSynced c (revPayload n tmpBuf c1) := by
  have hend := revPayload_end hn tmpBuf c1
  have hkeep : (revPayload n tmpBuf c1).env.output = c.output := (revPayload_keeps n tmpBuf c1).trans hout
  have hnext := next_eq hlen
  have hlength : c1.input.length = c.input.length - 4 := by rw [hin, List.length_drop]
  generalize revPayload n tmpBuf c1 = r at hend hkeep ⊢
  cases hend with
  | delivered rs e h1 =>
    have hsize : (c1.input.take n).length = n := List.length_take_of_le h1
    have hwhole : ¬ c.input.length < 4 + n := by
      have h1' : n ≤ c1.input.length := h1
      omega
    rw [if_neg hwhole] at hnext
    rw [show (⟨c1.input.take n, (n : Int)⟩ : Delivered) = delivered (c1.input.take n) by rw [delivered, hsize]]
    refine .delivered _ _ ?_ hkeep
    rw [hnext, ← List.drop_drop, ← hin]
    rfl
  | closed rs e h1 => exact .failed _ _ (by decide) (by decide) hkeep
  | failed k rs e h1 => exact .failed _ _ (by decide) (by decide) hkeep
  | stalled k e h1 h2 => exact .stalled _ hkeep

theorem ready_synced {c : Conn} (hh : HeaderOk c.input) : RevSynced c (revReady c) := by
  have hready := revReady_end c
  have hkeep := revReady_keeps c
  generalize revReady c = r at hready hkeep ⊢
  cases hready with
  | failed k rs e h1 h2 => exact .failed _ _ (by decide) (by decide) hkeep
  | closed rs e h1 => exact .failed _ _ (by decide) (by decide) hkeep
  | stalled k e h1 h2 h3 => exact .stalled _ hkeep
  | noBlock rs e h1 h2 => exact .failed _ _ (by decide) (by decide) hkeep
  | block rs e h1 h2 h3 h4 h5 =>
    have hn : ntohl (c.input.take 4) ≤ 2 ^ 31 - 2 := hh h1
    rw [headerLen_eq hn]
    exact payload_synced hn rfl c.blocks rfl h1 rfl

theorem RevSynced.of_streams {c c1 : Conn} {r : Outcome Conn (Int × Option Delivered)} (h : RevSynced c1 r)
    (hin : c1.input = c.input) (hout : c1.output = c.output) : RevSynced c r := by
  cases h with
  | delivered m c' hnext ho => exact .delivered m c' (hin ▸ hnext) (ho.trans hout)
  | timeout c' hi ho => exact .timeout c' (hi.trans hin) (ho.trans hout)
  | failed r c' h0 ht ho => exact .failed r c' h0 ht (ho.trans hout)
  | stalled c' ho => exact .stalled c' (ho.trans hout)

theorem sckRev_synced (revtime : Int) {c : Conn} (hh : HeaderOk c.input) : RevSynced c (sckRev revtime true true c) := by
  have hrev := sckRev_end revtime c
  generalize sckRev revtime true true c = r at hrev ⊢
  cases hrev with
  | timeout os e h1 h2 h3 h4 => exact .timeout _ rfl rfl
  | stalled e h1 h2 h3 => exact .stalled _ rfl
  | ready os e h1 h2 => exact (ready_synced (c := { c with selects := os, errno := e }) hh).of_streams rfl rfl

theorem rev_synced (e : End) (timeout : Int) {c : Conn} (hh : HeaderOk c.input) : RevSynced c (e.rev timeout c) := by
  rcases e.rev_eq timeout with hrev | ⟨t, hrev⟩
  · rw [hrev]
    exact .failed _ c sckErrParam_ne.1 sckErrParam_ne.2 rfl
  · rw [hrev]
    exact sckRev_synced t hh

theorem End.rev_keeps (e : End) (timeout : Int) : Prog.Keeps Conn.output (e.rev timeout) := by
  rcases e.rev_eq timeout with hrev | ⟨t, hrev⟩
  · rw [hrev]
    exact .pure _ _
  · rw [hrev]
    exact sckRev_keeps t true true

end CSocket
