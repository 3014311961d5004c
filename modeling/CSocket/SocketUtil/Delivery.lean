import CSocket.SocketUtil.Message
/-!
# Framed stream delivery

One side sends messages one after another, the other receives until its call
fails for good. `sends_output`: what the sender wrote is the frames of the
accepted messages and at most one frame cut short. `rev_end`: on such a stream a
receive decodes one frame, or finds the peer closed exactly when no complete
frame is left. So the receiver decodes what the sender framed, for all schedules
on both sides.
-/
namespace CSocket

/-- The wire format: the payload's length as a four-byte network-order `int`. -/
def sckFraming : Framing UInt8 where
  size := 4
  max := 2 ^ 31 - 2
  hdr n := htonl n
  len := ntohl
  length_hdr n := length_htonl n
  len_hdr n hn := by
    rw [ntohl_htonl (by omega) (by omega)]
    omega

abbrev frame (m : List UInt8) : List UInt8 := sckFraming.frame m

theorem length_frame (m : List UInt8) : (frame m).length = 4 + m.length := sckFraming.length_frame m

/-! ## One send -/

/-- What a send of `m` can do: nothing is written (a timeout, another failure),
the whole frame is and it returns 0, or a proper prefix is and it fails. -/
inductive SendEnd (m : List UInt8) (c : Conn) : Outcome Conn Int → Prop
  | sent (c') : c'.output = c.output ++ frame m → SendEnd m c (.ret 0 c')
  | failed (r c' k) : r ≠ 0 → k < (frame m).length → (r = sckErrTimeOut → k = 0) →
      c'.output = c.output ++ (frame m).take k → SendEnd m c (.ret r c')
  | stalled (c' k) : k < (frame m).length → c'.output = c.output ++ (frame m).take k → SendEnd m c (.stalled c')

/-- Only what was written before the call matters. -/
theorem SendEnd.of_output {m : List UInt8} {c c' : Conn} {r : Outcome Conn Int} (h : SendEnd m c r)
    (hc : c.output = c'.output) : SendEnd m c' r := by
  cases h with
  | sent c1 h => exact .sent c1 (hc ▸ h)
  | failed r c1 k h1 h2 h3 h => exact .failed r c1 k h1 h2 h3 (hc ▸ h)
  | stalled c1 k h1 h => exact .stalled c1 k h1 (hc ▸ h)

/-- The same for the block between the wait and the checks of the result. -/
inductive NetdataEnd (m : List UInt8) (c : Conn) : Outcome Conn (Option (Nat × Int)) → Prop
  | noBlock (c') : c'.output = c.output → NetdataEnd m c (.ret none c')
  | sent (blk c') : c'.output = c.output ++ frame m → NetdataEnd m c (.ret (some (blk, (m.length : Int) + 4)) c')
  | failed (blk c' k) : k < (frame m).length → c'.output = c.output ++ (frame m).take k →
      NetdataEnd m c (.ret (some (blk, -1)) c')
  | stalled (c' k) : k < (frame m).length → c'.output = c.output ++ (frame m).take k → NetdataEnd m c (.stalled c')

theorem sendNetdata_end {m : List UInt8} (hm : m.length ≤ 2 ^ 31 - 5) (c : Conn) :
    NetdataEnd m c (sendNetdata (some m) m.length c) := by
  have h4 : toInt ((m.length : Int) + 4) = (m.length : Int) + 4 := toInt_eq (by omega) (by omega)
  have hs : toSize ((m.length : Int) + 4) = (frame m).length := by
    rw [toSize_eq (by omega) (by omega), length_frame]
    omega
  have hd : toSize (m.length : Int) = m.length := by
    rw [toSize_eq (by omega) (by omega)]
    omega
  have hbuf : htonl m.length ++ ((some m).getD []).take (toSize (m.length : Int)) = frame m := by
    rw [hd, Option.getD_some, List.take_length]
    rfl
  unfold sendNetdata
  rw [h4, hs, hbuf]
  by_cases hmal : c.Grants (frame m).length
  · rw [Prog.bind_ret (malloc_some hmal)]
    simp only [note, Prog.bind_run, Prog.update_run]
    generalize hc : Conn.mk _ _ _ _ _ _ _ _ _ = c1
    have hout : c1.output = c.output := by rw [← hc]; rfl
    have hw := writen_end (frame m) (frame m).length c1
    generalize writen (frame m) (frame m).length c1 = r at hw ⊢
    cases hw with
    | sent ws e =>
      have hlen : toInt (toSsize ((frame m).length : Int)) = (m.length : Int) + 4 := by
        rw [length_frame, toSsize_eq (by omega) (by omega), toInt_eq (by omega) (by omega)]
        omega
      simp only [Prog.pure_run, hlen]
      exact .sent _ _ (by simp [Conn.gave, hout])
    | failed k ws e hk => exact .failed _ _ k hk (by simp [Conn.gave, hout])
    | stalled k e hk => exact .stalled _ k hk (by simp [Conn.gave, hout])
  · rw [Prog.bind_ret (malloc_none hmal)]
    exact .noBlock _ rfl

/-- A send whose wait failed wrote nothing. -/
theorem sendRet_failed (m : List UInt8) {c c' : Conn} (h : c'.output = c.output) :
    SendEnd m c (sendRet (-1) c') := by
  have hfail : ∀ r : Int, r ≠ 0 → SendEnd m c (.ret r c') := fun r hr =>
    .failed r c' 0 hr (by rw [length_frame]; omega) (fun _ => rfl) (by simpa using h)
  by_cases he : c'.errno = ETIMEDOUT
  · have : sendRet (-1) c' = .ret sckErrTimeOut c' := by simp [sendRet, Prog.bind_run, he]
    rw [this]
    exact hfail _ (by decide)
  · have : sendRet (-1) c' = .ret (-1) c' := by simp [sendRet, Prog.bind_run, he]
    rw [this]
    exact hfail _ (by decide)

theorem sendReady_end (freeSent : Bool) {m : List UInt8} (hm : m.length ≤ 2 ^ 31 - 5) (c : Conn) :
    SendEnd m c (sendReady freeSent (some m) m.length c) := by
  have h4 : toInt ((m.length : Int) + 4) = (m.length : Int) + 4 := toInt_eq (by omega) (by omega)
  have hn := sendNetdata_end hm c
  unfold sendReady
  rw [Prog.bind_run, h4]
  generalize sendNetdata (some m) m.length c = r at hn ⊢
  cases hn with
  | noBlock c' h => exact .failed _ c' 0 (by decide) (by rw [length_frame]; omega) (fun _ => rfl) (by simp [h])
  | sent blk c' h =>
    have hfull : ¬ (m.length : Int) + 4 < (m.length : Int) + 4 := by omega
    simp only [hfull, if_false]
    cases freeSent
    · exact .sent c' h
    · exact .sent _ h
  | failed blk c' k hk h =>
    have hshort : (-1 : Int) < (m.length : Int) + 4 := by omega
    simp only [hshort, if_true]
    exact .failed (-1) _ k (by decide) hk (fun h => absurd h (by decide)) h
  | stalled c' k hk h => exact .stalled c' k hk h

theorem sckSend_end (freeSent : Bool) (sendtime : Int) {m : List UInt8} (hm : m.length ≤ 2 ^ 31 - 5) (c : Conn) :
    SendEnd m c (sckSend freeSent sendtime (some m) m.length c) := by
  have hw := ioTimeout_end (toUnsigned sendtime) c
  unfold sckSend writeTimeout
  rw [Prog.bind_run]
  generalize ioTimeout (toUnsigned sendtime) c = r at hw ⊢
  cases hw with
  | skip _ => exact sendReady_end freeSent hm c
  | ready os e _ _ => exact (sendReady_end freeSent hm { c with selects := os, errno := e }).of_output rfl
  | failed os e _ _ _ _ => exact sendRet_failed m rfl
  | stalled e _ _ _ => exact .stalled _ 0 (by rw [length_frame]; omega) (by simp)

theorem send_end (side : Side) (sendtime : Int) {m : List UInt8} (h1 : 1 ≤ m.length) (hm : m.length ≤ 2 ^ 31 - 5)
    (c : Conn) : SendEnd m c (side.send sendtime (some m) m.length c) := by
  cases side with
  | client =>
    have hcheck : ¬ (some m = none ∨ (m.length : Int) ≤ 0) := by
      rintro (h | h)
      · cases h
      · omega
    show SendEnd m c (sckClientSend sendtime (some m) m.length c)
    unfold sckClientSend
    rw [if_neg hcheck]
    exact sckSend_end true sendtime hm c
  | server => exact sckSend_end false sendtime hm c

/-! ## One receive -/

/-- Where the stream has a complete header, it is a length a sender admits. -/
def HeaderOk (s : List UInt8) : Prop := 4 ≤ s.length → ntohl (s.take 4) ≤ 2 ^ 31 - 2

/-- The receiver of such a stream whose reads fail by interrupts only and whose
requests for memory are granted. -/
structure Receiver (c : Conn) : Prop where
  soft : ¬ HardRead c.reads
  granted : ∀ b ∈ c.mallocs, b = true

theorem Receiver.grants {c : Conn} (h : Receiver c) {size : Nat} (hs : size ≤ PTRDIFF_MAX) : c.Grants size := by
  refine ⟨?_, hs⟩
  cases hm : c.mallocs with
  | nil => rfl
  | cons b bs => exact h.granted b (by simp [hm])

/-- What such a receiver's call can do: deliver the next frame, find that there
is none, time out with nothing read, or still be at it. -/
inductive FrameEnd (revtime : Int) (c : Conn) : Outcome Conn (Int × Option Delivered) → Prop
  | delivered (m c') : sckFraming.next c.input = some (m, c'.input) → Receiver c' →
      readies c.reads + c'.input.length ≤ readies c'.reads + c.input.length →
      (toUnsigned revtime = 0 ∨ selReadies c.selects = selReadies c'.selects + 1) →
      FrameEnd revtime c (.ret (0, some ⟨m, m.length⟩) c')
  | closed (c') : sckFraming.next c.input = none → FrameEnd revtime c (.ret (sckErrPeerClosed, none) c')
  | timeout (os e) : selReadies c.selects = selReadies os → os.length < c.selects.length →
      FrameEnd revtime c (.ret (sckErrTimeOut, none) { c with selects := os, errno := e })
  | stalled (c') : readies c.reads ≤ c.input.length ∨ (toUnsigned revtime ≠ 0 ∧ selReadies c.selects = 0) →
      FrameEnd revtime c (.stalled c')

theorem HeaderOk.of_stream {ms : List (List UInt8)} {s : List UInt8} (h : sckFraming.Stream ms s) : HeaderOk s :=
  h.len_le

theorem next_short {s : List UInt8} (h : s.length < 4) : sckFraming.next s = none := by
  have : s.length < sckFraming.size + sckFraming.len (s.take sckFraming.size) := Nat.lt_add_right _ h
  simp [Framing.next, this]

/-- The stream with a complete header: is the payload behind it complete? -/
theorem next_eq {s : List UInt8} {n : Nat} (hn : ntohl (s.take 4) = n) :
    sckFraming.next s = if s.length < 4 + n then none else some ((s.drop 4).take n, s.drop (4 + n)) := by
  rw [← hn]
  rfl

theorem rev_end (side : Side) (revtime : Int) {c : Conn} (hc : Receiver c) (hh : HeaderOk c.input) :
    FrameEnd revtime c (side.rev revtime true true c) := by
  rw [Side.rev_eq]
  have hrev := sckRev_end revtime c
  generalize sckRev revtime true true c = r at hrev ⊢
  cases hrev with
  | timeout os e _ _ h1 h2 => exact .timeout os e h1 h2
  | stalled e h1 _ h2 => exact .stalled _ (.inr ⟨h1, h2⟩)
  | ready os e _ hsel =>
    have hready := revReady_end { c with selects := os, errno := e }
    generalize revReady { c with selects := os, errno := e } = r at hready ⊢
    cases hready with
    | failed k rs e _ h => exact absurd h hc.soft
    | closed rs e h => exact .closed _ (next_short h)
    | stalled k e _ h1 h2 => exact .stalled _ (.inl (Nat.le_trans h2 h1))
    | noBlock rs e h1 h2 =>
      have hn : ntohl (c.input.take 4) ≤ 2 ^ 31 - 2 := hh h1
      -- a header that is ok asks for no more than `malloc` grants
      refine absurd (hc.grants ?_) h2
      show toSize (toInt (headerLen c.input + 1)) ≤ PTRDIFF_MAX
      rw [headerLen_eq hn, blockSize_eq hn, PTRDIFF_MAX]
      omega
    | block rs e h1 _ h2 h3 h4 =>
      have hn : ntohl (c.input.take 4) ≤ 2 ^ 31 - 2 := hh h1
      generalize hnlen : ntohl (c.input.take 4) = n at hn
      have hlen : headerLen c.input = n := by
        rw [headerLen_eq (by omega), hnlen]
      have hnext := next_eq hnlen
      dsimp only
      rw [hlen, blockSize_eq hn]
      generalize hc1 : Conn.alloc _ _ = c1
      have hend := revPayload_end hn c.blocks c1
      generalize hc2 : ({ c1 with trace := _ } : Conn) = c2 at hend
      have hin : c2.input = c.input.drop 4 := by rw [← hc2, ← hc1]; rfl
      have hrs : c2.reads = rs := by rw [← hc2, ← hc1]; rfl
      have hos : c2.selects = os := by rw [← hc2, ← hc1]; rfl
      have hmal : c2.mallocs = c.mallocs.tail := by rw [← hc2, ← hc1]; rfl
      have hil : c2.input.length = c.input.length - 4 := by rw [hin, List.length_drop]
      generalize revPayload n c.blocks c1 = r at hend ⊢
      dsimp only at h1 h3 h4
      cases hend with
      | delivered rs' e' g1 g2 g3 =>
        rw [hrs] at g2 g3
        rw [if_neg (by omega)] at hnext
        have hm : (c2.input.take n).length = n := by rw [List.length_take]; omega
        generalize hc3 : ({ c2.took n rs' e' with trace := _ } : Conn) = c3
        have hin3 : c3.input = c.input.drop (4 + n) := by rw [← hc3, ← List.drop_drop, ← hin]; rfl
        have hrs3 : c3.reads = rs' := by rw [← hc3]; rfl
        have hrecv : Receiver c3 := by
          refine ⟨fun h => hc.soft (h.suffix (hrs3 ▸ g2.trans h3)), fun b hb => ?_⟩
          rw [← hc3] at hb
          exact hc.granted b (List.mem_of_mem_tail (hmal ▸ hb))
        nth_rewrite 2 [← hm]
        refine .delivered _ c3 ?_ hrecv ?_ ?_
        · rw [hnext, hin3, hin]
        · rw [hin3, hrs3, List.length_drop]
          omega
        · rw [show c3.selects = os by rw [← hc3]; exact hos]
          exact hsel
      | closed rs' e' g1 => exact .closed _ (by rw [hnext, if_pos (by omega)])
      | failed k rs' e' g1 => exact absurd (g1.suffix (hrs ▸ h3)) hc.soft
      | stalled k e' g1 g2 =>
        rw [hrs] at g2
        exact .stalled _ (.inl (by omega))

/-! ## Whole runs -/

/-- `Sends send ms c acc c'`: the messages `ms` are sent one after another, a
call that timed out being repeated, up to a call that fails or never returns.
`acc` are the messages whose call returned 0. -/
inductive Sends (send : List UInt8 → Prog Conn Int) : List (List UInt8) → Conn → List (List UInt8) → Conn → Prop
  | done {c} : Sends send [] c [] c
  | sent {m ms acc c c' c''} : send m c = .ret 0 c' → Sends send ms c' acc c'' →
      Sends send (m :: ms) c (m :: acc) c''
  | timeout {m ms acc c c' c''} : send m c = .ret sckErrTimeOut c' → Sends send (m :: ms) c' acc c'' →
      Sends send (m :: ms) c acc c''
  | failed {m ms r c c'} : send m c = .ret r c' → r ≠ 0 → r ≠ sckErrTimeOut → Sends send (m :: ms) c [] c'
  | stalled {m ms c c'} : send m c = .stalled c' → Sends send (m :: ms) c [] c'

/-- `Receives rev c ds code c'`: calls are made one after another, a call that
timed out being repeated, up to one that returned `code` (`none`: one that never
returned). `ds` is what the calls that returned 0 delivered. -/
inductive Receives (rev : Prog Conn (Int × Option Delivered)) : Conn → List Delivered → Option Int → Conn → Prop
  | delivered {d ds code c c' c''} : rev c = .ret (0, some d) c' → Receives rev c' ds code c'' →
      Receives rev c (d :: ds) code c''
  | timeout {o ds code c c' c''} : rev c = .ret (sckErrTimeOut, o) c' → Receives rev c' ds code c'' →
      Receives rev c ds code c''
  | ended {r o c c'} : rev c = .ret (r, o) c' → r ≠ 0 → r ≠ sckErrTimeOut → Receives rev c [] (some r) c'
  | stalled {c c'} : rev c = .stalled c' → Receives rev c [] none c'

def Side.sends (side : Side) (sendtime : Int) : List (List UInt8) → Conn → List (List UInt8) → Conn → Prop :=
  Sends fun m => side.send sendtime (some m) m.length

def Side.receives (side : Side) (revtime : Int) : Conn → List Delivered → Option Int → Conn → Prop :=
  Receives (side.rev revtime true true)

/-- What a receiver hands over for the message `m`. -/
def delivered (m : List UInt8) : Delivered := ⟨m, m.length⟩

/-- What the sender wrote: the frames of the accepted messages, then at most one
frame cut short. -/
theorem sends_output {side : Side} {sendtime : Int} {ms acc : List (List UInt8)} {c c' : Conn}
    (h : side.sends sendtime ms c acc c') (hms : ∀ m ∈ ms, 1 ≤ m.length ∧ m.length ≤ 2 ^ 31 - 5) :
    ∃ s, c'.output = c.output ++ s ∧ sckFraming.Stream acc s := by
  have hmax : ∀ {n : Nat}, n ≤ 2 ^ 31 - 5 → n ≤ sckFraming.max := fun h => Nat.le_trans h (by decide)
  have hcut : ∀ {m : List UInt8} {k : Nat}, m.length ≤ 2 ^ 31 - 5 → k < (frame m).length →
      sckFraming.Stream [] ((frame m).take k) := fun hm hk =>
    .cut (hmax hm) (List.take_prefix _ _) (Nat.lt_of_le_of_lt (List.length_take_le _ _) hk)
  induction h with
  | @done c => exact ⟨[], by simp, hcut (m := []) (k := 0) (by simp) (by decide)⟩
  | @sent m ms acc c c' c'' hr _ ih =>
    obtain ⟨hm1, hm⟩ := hms m (by simp)
    obtain ⟨s, hs, hstream⟩ := ih fun x hx => hms x (by simp [hx])
    have hend := send_end side sendtime hm1 hm c
    rw [hr] at hend
    cases hend with
    | sent _ h => exact ⟨frame m ++ s, by rw [hs, h, List.append_assoc], .cons (hmax hm) hstream⟩
    | failed _ _ _ h => exact absurd rfl h
  | @timeout m ms acc c c' c'' hr _ ih =>
    obtain ⟨hm1, hm⟩ := hms m (by simp)
    obtain ⟨s, hs, hstream⟩ := ih hms
    have hend := send_end side sendtime hm1 hm c
    rw [hr] at hend
    cases hend with
    | failed _ _ k _ _ h0 h =>
      -- a call that timed out has written nothing
      rw [h0 rfl] at h
      exact ⟨s, by rw [hs, h]; simp, hstream⟩
  | @failed m ms r c c' hr hr0 _ =>
    obtain ⟨hm1, hm⟩ := hms m (by simp)
    have hend := send_end side sendtime hm1 hm c
    rw [hr] at hend
    cases hend with
    | sent => exact absurd rfl hr0
    | failed _ _ k _ hk _ h => exact ⟨_, h, hcut hm hk⟩
  | @stalled m ms c c' hr =>
    obtain ⟨hm1, hm⟩ := hms m (by simp)
    have hend := send_end side sendtime hm1 hm c
    rw [hr] at hend
    cases hend with
    | stalled _ k hk h => exact ⟨_, h, hcut hm hk⟩

theorem Receiver.wait {c : Conn} (h : Receiver c) (os : List SelectOutcome) (e : Int) :
    Receiver { c with selects := os, errno := e } := ⟨h.soft, h.granted⟩

/-- A receiver of a stream of frames delivers their payloads in order; it ends
with `sckErrPeerClosed`, once it has delivered all of them. -/
theorem receives_stream {side : Side} {revtime : Int} {c c' : Conn} {ds : List Delivered} {code : Option Int}
    (h : side.receives revtime c ds code c') {ms : List (List UInt8)} (hc : Receiver c)
    (hs : sckFraming.Stream ms c.input) :
    ds <+: ms.map delivered ∧ ∀ r, code = some r → r = sckErrPeerClosed ∧ ds = ms.map delivered := by
  induction h generalizing ms with
  | @delivered d ds code c c' c'' hr _ ih =>
    have hend := rev_end side revtime hc (.of_stream hs)
    rw [hr] at hend
    cases hend with
    | delivered m c' hnext hc' _ _ =>
      cases ms with
      | nil => rw [hs.next_nil] at hnext; cases hnext
      | cons m' ms =>
        obtain ⟨rest, hnext', hs'⟩ := hs.next_cons
        rw [hnext] at hnext'
        cases hnext'
        -- the first frame is gone from the stream, and the receiver is as good as before
        obtain ⟨hpre, hcode⟩ := ih hc' hs'
        rw [List.map_cons]
        refine ⟨List.cons_prefix_cons.mpr ⟨rfl, hpre⟩, fun r hr => ?_⟩
        exact ⟨(hcode r hr).1, by rw [(hcode r hr).2]; rfl⟩
  | @timeout o ds code c c' c'' hr _ ih =>
    have hend := rev_end side revtime hc (.of_stream hs)
    rw [hr] at hend
    cases hend with
    | timeout os e _ _ => exact ih (hc.wait os e) hs
  | @ended r o c c' hr hr0 hrt =>
    have hend := rev_end side revtime hc (.of_stream hs)
    rw [hr] at hend
    refine ⟨List.nil_prefix, fun r' hr' => ?_⟩
    cases hr'
    cases hend with
    | delivered => exact absurd rfl hr0
    | timeout => exact absurd rfl hrt
    | closed _ hnext =>
      cases ms with
      | nil => exact ⟨rfl, rfl⟩
      | cons m ms =>
        obtain ⟨rest, hnext', -⟩ := hs.next_cons
        rw [hnext] at hnext'
        cases hnext'
  | stalled hr => exact ⟨List.nil_prefix, fun r hr' => nomatch hr'⟩

/-- The receiver is not left waiting: the reads can take every byte and find the
end of the stream, and where it waits for readiness, readiness is reported for
each message and for the end. -/
structure Served (revtime : Int) (n : Nat) (c : Conn) : Prop where
  reads : c.input.length < readies c.reads
  selects : toUnsigned revtime = 0 ∨ n < selReadies c.selects

/-- The calls that time out are repeated, and one comes that does not. -/
theorem Served.wakes (side : Side) {revtime : Int} {n : Nat} {ms : List (List UInt8)} {c : Conn} (hserved : Served revtime n c)
    (hc : Receiver c) (hs : sckFraming.Stream ms c.input) :
    ∃ c1, Served revtime n c1 ∧ Receiver c1 ∧ c1.input = c.input ∧
      (∀ o c', side.rev revtime true true c1 ≠ .ret (sckErrTimeOut, o) c') ∧
      ∀ ds code c', side.receives revtime c1 ds code c' → side.receives revtime c ds code c' := by
  generalize hn : c.selects.length = k
  -- a wait that times out uses up a part of the schedule
  induction k using Nat.strong_induction_on generalizing c with
  | _ k ih =>
    have hend := rev_end side revtime hc (.of_stream hs)
    generalize hr : side.rev revtime true true c = r at hend
    cases hend with
    | timeout os e h1 h2 =>
      obtain ⟨c1, hserved1, hc1, hin, hwakes, hback⟩ := ih os.length (hn ▸ h2)
        (c := { c with selects := os, errno := e }) ⟨hserved.reads, hserved.selects.imp_right fun h => h1 ▸ h⟩
        (hc.wait os e) hs rfl
      exact ⟨c1, hserved1, hc1, hin, hwakes, fun ds code c' h => .timeout hr (hback ds code c' h)⟩
    | delivered | closed | stalled =>
      refine ⟨c, hserved, hc, rfl, ?_, fun _ _ _ h => h⟩
      intro o c' he
      cases hr.symm.trans he

theorem receives_complete (side : Side) {revtime : Int} (ms : List (List UInt8)) :
    ∀ {c : Conn}, Receiver c → Served revtime ms.length c → sckFraming.Stream ms c.input →
      ∃ c', side.receives revtime c (ms.map delivered) (some sckErrPeerClosed) c' := by
  induction ms with
  | nil =>
    intro c hc hserved hs
    obtain ⟨c1, ⟨hreads, hsel⟩, hc1, hin, hwakes, hback⟩ := hserved.wakes side hc hs
    rw [← hin] at hs
    have hend := rev_end side revtime hc1 (.of_stream hs)
    generalize hr : side.rev revtime true true c1 = r at hend
    cases hend with
    | delivered m c' hnext => rw [hs.next_nil] at hnext; cases hnext
    | closed c' _ => exact ⟨c', hback _ _ _ (.ended hr (by decide) (by decide))⟩
    | timeout => exact absurd hr (hwakes _ _)
    | stalled c' h =>
      rw [List.length_nil] at hsel
      omega
  | cons m ms ih =>
    intro c hc hserved hs
    obtain ⟨c1, ⟨hreads, hsel⟩, hc1, hin, hwakes, hback⟩ := hserved.wakes side hc hs
    rw [← hin] at hs
    obtain ⟨rest, hnext, hs'⟩ := hs.next_cons
    have hend := rev_end side revtime hc1 (.of_stream hs)
    generalize hr : side.rev revtime true true c1 = r at hend
    rw [List.length_cons] at hsel
    cases hend with
    | delivered m' c' hnext' hc' hreads' hsel' =>
      rw [hnext] at hnext'
      cases hnext'
      obtain ⟨c'', hc''⟩ := ih hc' ⟨by omega, by omega⟩ hs'
      exact ⟨c'', hback _ _ _ (.delivered hr hc'')⟩
    | closed c' hnext' => rw [hnext] at hnext'; cases hnext'
    | timeout => exact absurd hr (hwakes _ _)
    | stalled c' h => omega

/-- Framed delivery. Whatever became of the sender's calls, the receiver at the
other end delivers the accepted messages and nothing else, and then finds the
peer closed. -/
theorem framed_delivery (side : Side) (sendtime revtime : Int) {ms acc : List (List UInt8)} {c c' d : Conn}
    (hms : ∀ m ∈ ms, 1 ≤ m.length ∧ m.length ≤ 2 ^ 31 - 5) (hc : c.output = [])
    (hsends : side.sends sendtime ms c acc c') (hin : d.input = c'.output) (hd : Receiver d) :
    (∀ ds code d', side.peer.receives revtime d ds code d' →
      ds <+: acc.map delivered ∧ ∀ r, code = some r → r = sckErrPeerClosed ∧ ds = acc.map delivered) ∧
    (Served revtime acc.length d →
      ∃ d', side.peer.receives revtime d (acc.map delivered) (some sckErrPeerClosed) d') := by
  obtain ⟨s, hout, hs⟩ := sends_output hsends hms
  have hstream : sckFraming.Stream acc d.input := by
    rw [hin, hout, hc, List.nil_append]
    exact hs
  exact ⟨fun ds code d' h => receives_stream h hd hstream,
    fun h => receives_complete side.peer acc hd h hstream⟩

/-- Short, empty and interrupted writes, then a second frame cut after three
bytes: the server delivers the first message and finds the peer closed. -/
theorem framed_delivery_cut : ∃ d', Side.server.receives 0
    { input := [0, 0, 0, 2, 104, 105, 0, 0, 0],
      reads := [.ready 0, .error EINTR, .ready 6, .ready 0, .ready 0, .ready 1, .ready 2, .ready 4, .ready 4,
        .ready 4, .ready 4] }
    [⟨[104, 105], 2⟩] (some sckErrPeerClosed) d' := by
  have hsent : Side.client.send 0 (some [104, 105]) ([104, 105] : List UInt8).length
      { writes := [.accepts 1, .error EINTR, .accepts 0, .accepts 5, .accepts 3, .error 32] } = .ret 0
      { errno := EINTR, writes := [.accepts 3, .error 32], output := [0, 0, 0, 2, 104, 105], blocks := 1,
        trace := [.malloc 0 6, .memcpy 0 0 4, .memcpy 0 4 2, .writen 0 6, .free 0] } := by
    decide +kernel
  have hcut : Side.client.send 0 (some [33]) ([33] : List UInt8).length
      { errno := EINTR, writes := [.accepts 3, .error 32], output := [0, 0, 0, 2, 104, 105], blocks := 1,
        trace := [.malloc 0 6, .memcpy 0 0 4, .memcpy 0 4 2, .writen 0 6, .free 0] } = .ret (-1)
      { errno := 32, output := [0, 0, 0, 2, 104, 105, 0, 0, 0], blocks := 2,
        trace := [.malloc 0 6, .memcpy 0 0 4, .memcpy 0 4 2, .writen 0 6, .free 0,
          .malloc 1 5, .memcpy 1 0 4, .memcpy 1 4 1, .writen 1 5, .free 1] } := by
    decide +kernel
  have hsends : Side.client.sends 0 [[104, 105], [33]] _ [[104, 105]] _ :=
    .sent hsent (.failed hcut (by decide) (by decide))
  exact (framed_delivery .client 0 0 (by decide) rfl hsends rfl
    ⟨fun ⟨e, he, hm⟩ => he (by simpa using hm), by decide⟩).2 ⟨by decide, .inl rfl⟩

end CSocket
