import CSocket.SocketUtil.Message
/-!
# The frame decoder on any input

What a peer sends is any bytes at all. `rev_sound_iff`: a receive stays inside
the block it allocated and decodes what the header says, except on the header
`FF FF FF FF` (a length of -1) when `malloc(0)` returns a block. There `readn` is
asked for 2^64 - 1 bytes and the terminator goes to index -1.
-/
namespace CSocket

/-! ## Soundness of one call -/

/-- The operation stays inside the block `blk` of `size` bytes; a `readn` leaves
room for the terminator. -/
def MemOp.fits (blk size : Nat) : MemOp → Bool
  | .readn b count => b ≠ blk || count + 1 ≤ size
  | .store b i => b ≠ blk || (0 ≤ i && i < size)
  | _ => true

/-- All of these operations stay inside the blocks allocated among them. -/
def memSafe (ops : List MemOp) : Bool := ops.all fun op => match op with
  | .malloc blk size => ops.all (MemOp.fits blk size)
  | _ => true

/-- `d` is the frame at the head of `s`, and `rest` is what follows it. -/
structure Decoded (s : List UInt8) (d : Delivered) (rest : List UInt8) : Prop where
  nonneg : 0 ≤ d.outlen
  header : 4 ≤ s.length
  value : (ntohl (s.take 4) : Int) = d.outlen
  payload : s.drop 4 = d.out ++ rest
  length : (d.out.length : Int) = d.outlen

/-- A receive from `c` that ended in `r` did not leave its block, and returned 0
only with a decoded frame. -/
structure Sound (c : Conn) (r : Outcome Conn (Int × Option Delivered)) : Prop where
  mem : memSafe (r.env.trace.drop c.trace.length) = true
  decoded : ∀ o c', r = .ret (0, o) c' → ∃ d, o = some d ∧ Decoded c.input d c'.input

/-- The receive gets as far as reading the header, the header is the length -1,
and `malloc(0)` returns a block. -/
structure MinusOneFrame (revtime : Int) (out outlen : Bool) (c : Conn) : Prop where
  pointers : out = true ∧ outlen = true
  ready : toUnsigned revtime = 0 ∨ firstReady c.selects = true
  arrived : arrives 4 c.reads = true
  header : c.input.take 4 = [255, 255, 255, 255]
  block : c.Grants 0

theorem memSafe_drop {c : Conn} {r : Outcome Conn (Int × Option Delivered)} (ops : List MemOp)
    (h : r.env.trace = c.trace ++ ops) : memSafe (r.env.trace.drop c.trace.length) = memSafe ops := by
  rw [h, List.drop_left]

/-- A call that allocates nothing and does not return 0 is sound. -/
theorem Sound.of_quiet {c : Conn} {r : Outcome Conn (Int × Option Delivered)} (htrace : r.env.trace = c.trace)
    (hret : ∀ o c', r ≠ .ret (0, o) c') : Sound c r := by
  refine ⟨?_, fun o c' h => absurd h (hret o c')⟩
  rw [memSafe_drop [] (by simpa using htrace)]
  rfl

/-! ## The header's three conversions -/

theorem toInt_cases (x : Int) : toInt x = x % 2 ^ 32 ∧ x % 2 ^ 32 < 2 ^ 31 ∨
    toInt x = x % 2 ^ 32 - 2 ^ 32 ∧ 2 ^ 31 ≤ x % 2 ^ 32 := by
  simp only [toInt, Int.bmod_def]
  split <;> omega

theorem headerLen_eq_neg_one {s : List UInt8} (hs : 4 ≤ s.length) :
    headerLen s = -1 ↔ s.take 4 = [255, 255, 255, 255] := by
  match s, hs with
  | a :: b :: c :: d :: s, _ =>
    have ha := a.toNat_lt
    have hb := b.toNat_lt
    have hc := c.toNat_lt
    have hd := d.toNat_lt
    have hval : ntohl ((a :: b :: c :: d :: s).take 4)
        = ((a.toNat * 256 + b.toNat) * 256 + c.toNat) * 256 + d.toNat := by
      simp [ntohl]
    have hbytes : (a :: b :: c :: d :: s).take 4 = [255, 255, 255, 255] ↔
        a.toNat = 255 ∧ b.toNat = 255 ∧ c.toNat = 255 ∧ d.toNat = 255 := by
      simp [← UInt8.toNat_inj]
    rw [hbytes, headerLen, hval]
    rcases toInt_cases (((((a.toNat * 256 + b.toNat) * 256 + c.toNat) * 256 + d.toNat : Nat)) : Int) with h | h <;>
      rw [h.1] <;> omega

/-- A block is granted only for a length from -1 to 2^31 - 2. -/
theorem header_granted {c : Conn} {n : Int} (h1 : -2 ^ 31 ≤ n) (h2 : n < 2 ^ 31)
    (h : c.Grants (toSize (toInt (n + 1)))) : -1 ≤ n ∧ n ≤ 2 ^ 31 - 2 := by
  have hsize := h.2
  rw [toSize, PTRDIFF_MAX] at hsize
  rcases toInt_cases (n + 1) with h | h <;> rw [h.1] at hsize <;> omega

/-! ## The theorem -/

/-- The bytes behind the header are read into the block whatever the length is. -/
theorem revPayload_trace (n : Int) (tmpBuf : Nat) (c : Conn) :
    ∃ ops, (revPayload n tmpBuf c).env.trace = c.trace ++ .readn tmpBuf (toSize n) :: ops := by
  unfold revPayload
  rw [show (note (.readn tmpBuf (toSize n)) >>= fun _ => _) c = _ from Prog.bind_ret (Prog.update_run _ c),
    Prog.bind_run]
  generalize hc1 : ({ c with trace := _ } : Conn) = c1
  have htrace : c1.trace = c.trace ++ [.readn tmpBuf (toSize n)] := by rw [← hc1]
  have hkeep : ∀ (r : Int × Option Delivered) k rs e, ∃ ops, (Outcome.ret r (c1.took k rs e)).env.trace
      = c.trace ++ .readn tmpBuf (toSize n) :: ops := fun _ _ _ _ => ⟨[], htrace⟩
  have hread := readn_end (toSize n) c1
  generalize readn (toSize n) c1 = r at hread ⊢
  have hret : ∀ (ret : Int) (bytes : List UInt8) k rs e, ∃ ops,
      ((if toInt ret = -1 then (return (toInt ret, none))
        else if toInt ret < n then (return (sckErrPeerClosed, none))
        else do
          note (.store tmpBuf n)
          return (0, some ⟨bytes, n⟩) : Prog Conn (Int × Option Delivered)) (c1.took k rs e)).env.trace
        = c.trace ++ .readn tmpBuf (toSize n) :: ops := by
    intro ret bytes k rs e
    split
    · exact hkeep _ k rs e
    split
    · exact hkeep _ k rs e
    · refine ⟨[.store tmpBuf n], ?_⟩
      show c1.trace ++ [.store tmpBuf n] = _
      rw [htrace, List.append_assoc]
      rfl
  cases hread with
  | full rs e => exact hret _ _ _ rs e
  | eof rs e => exact hret _ _ _ rs e
  | failed k rs e => exact hret _ _ k rs e
  | stalled k e => exact ⟨[], htrace⟩

/-- A length from 0 on: the block has room, and the frame is the one in the stream. -/
theorem payload_sound {n : Nat} {c c1 : Conn} {r : Outcome Conn (Int × Option Delivered)}
    (hlen : 4 ≤ c.input.length) (hval : ntohl (c.input.take 4) = n) (hin : c1.input = c.input.drop 4)
    (htrace : c1.trace = c.trace ++ [.malloc c.blocks (n + 1), .readn c.blocks n])
    (h : PayloadEnd n c.blocks c1 r) : Sound c r := by
  have hsafe : memSafe [.malloc c.blocks (n + 1), .readn c.blocks n] = true := by simp [memSafe, MemOp.fits]
  have hother : ∀ r : Outcome Conn (Int × Option Delivered), r.env.trace = c1.trace →
      (∀ o c', r ≠ .ret (0, o) c') → Sound c r := fun r h1 h2 =>
    ⟨(memSafe_drop _ (h1.trans htrace)).trans hsafe, fun o c' h => absurd h (h2 o c')⟩
  cases h with
  | delivered rs e h1 h2 h3 =>
    refine ⟨?_, fun o c' h => ?_⟩
    · rw [memSafe_drop [.malloc c.blocks (n + 1), .readn c.blocks n, .store c.blocks n] (by simp [htrace])]
      simp [memSafe, MemOp.fits]
    · cases h
      refine ⟨_, rfl, Int.natCast_nonneg n, hlen, by rw [hval], ?_, ?_⟩
      · rw [← hin]
        exact (List.take_append_drop n c1.input).symm
      · simp only [List.length_take]
        omega
  | closed rs e h1 => exact hother _ rfl (by simp; decide)
  | failed k rs e h1 => exact hother _ rfl (by simp)
  | stalled k e h1 h2 => exact hother _ rfl (by simp)

theorem ready_sound_iff (revtime : Int) {c : Conn} (os : List SelectOutcome) (e : Int)
    (hready : toUnsigned revtime = 0 ∨ firstReady c.selects = true) :
    Sound c (revReady { c with selects := os, errno := e }) ↔ ¬ MinusOneFrame revtime true true c := by
  have hend := revReady_end { c with selects := os, errno := e }
  generalize revReady { c with selects := os, errno := e } = r at hend ⊢
  have hlen : MinusOneFrame revtime true true c → 4 ≤ c.input.length := fun h => by
    have := congrArg List.length h.header
    simp only [List.length_take, List.length_cons, List.length_nil] at this
    omega
  cases hend with
  | failed k rs e' h =>
    refine iff_of_true (.of_quiet rfl (by simp)) fun hm => ?_
    exact absurd hm.arrived (by simp [h (hlen hm)])
  | closed rs e' h =>
    refine iff_of_true (.of_quiet rfl (by simp; decide)) fun hm => ?_
    exact absurd (hlen hm) (by simpa using h)
  | stalled k e' h =>
    refine iff_of_true (.of_quiet rfl (by simp)) fun hm => ?_
    exact absurd hm.arrived (by simp [h (hlen hm)])
  | noBlock rs e' h1 h2 =>
    refine iff_of_true (.of_quiet rfl (by simp; decide)) fun hm => h2 ?_
    dsimp only at h1 ⊢
    rw [(headerLen_eq_neg_one h1).mpr hm.header]
    exact hm.block
  | block rs e' h1 h2 h3 h4 =>
    dsimp only at h1 h2 h3 ⊢
    have hrange : -2 ^ 31 ≤ headerLen c.input ∧ headerLen c.input < 2 ^ 31 := by
      rcases toInt_cases (ntohl (c.input.take 4)) with h | h <;> rw [headerLen, h.1] <;> omega
    obtain ⟨g1, g2⟩ := header_granted hrange.1 hrange.2 h3
    by_cases hneg : headerLen c.input = -1
    · -- the length -1: an empty block and a read of 2^64 - 1 bytes
      rw [hneg]
      refine iff_of_false (fun hs => ?_) (fun h => h ⟨⟨rfl, rfl⟩, hready, h2, ?_, ?_⟩)
      · obtain ⟨ops, hops⟩ := revPayload_trace (-1) c.blocks
          (Conn.alloc (Conn.took { c with selects := os, errno := e } 4 rs e') (toSize (toInt (-1 + 1))))
        have hmem := hs.mem
        rw [memSafe_drop (.malloc c.blocks 0 :: .readn c.blocks (2 ^ 64 - 1) :: ops)
          (by rw [hops]; simp [Conn.alloc, Conn.took, toSize, toInt])] at hmem
        simp [memSafe, MemOp.fits] at hmem
      · exact (headerLen_eq_neg_one h1).mp hneg
      · rw [hneg] at h3
        exact h3
    · -- a length the block has room for
      obtain ⟨n, hn⟩ : ∃ n : Nat, headerLen c.input = n := ⟨(headerLen c.input).toNat, by omega⟩
      have hval : ntohl (c.input.take 4) = n := by
        have hlt := ntohl_lt (c.input.take 4)
        have h4 : (c.input.take 4).length = 4 := by rw [List.length_take]; omega
        rw [h4] at hlt
        rcases toInt_cases (ntohl (c.input.take 4)) with h | h <;> rw [headerLen, h.1] at hn <;> omega
      rw [hn, blockSize_eq (by omega)]
      refine iff_of_true (payload_sound h1 hval ?_ ?_ (revPayload_end (by omega) _ _)) fun hm => ?_
      · rfl
      · simp [Conn.alloc, Conn.took]
      · exact hneg ((headerLen_eq_neg_one h1).mpr hm.header)

theorem rev_sound_iff (side : Side) (revtime : Int) (out outlen : Bool) (c : Conn) :
    Sound c (side.rev revtime out outlen c) ↔ ¬ MinusOneFrame revtime out outlen c := by
  rw [Side.rev_eq]
  by_cases hp : out = false ∨ outlen = false
  · unfold sckRev
    rw [if_pos hp]
    refine iff_of_true (.of_quiet rfl (by simp; decide)) fun hm => ?_
    rw [hm.pointers.1, hm.pointers.2] at hp
    simp at hp
  obtain ⟨rfl, rfl⟩ : out = true ∧ outlen = true := by simpa using hp
  have hend := sckRev_end revtime c
  generalize sckRev revtime true true c = r at hend ⊢
  cases hend with
  | timeout os e h1 h2 =>
    refine iff_of_true (.of_quiet rfl (by simp; decide)) fun hm => ?_
    exact hm.ready.elim h1 (by simp [h2])
  | stalled e h1 h2 =>
    refine iff_of_true (.of_quiet rfl (by simp)) fun hm => ?_
    exact hm.ready.elim h1 (by simp [h2])
  | ready os e h _ => exact ready_sound_iff revtime os e h

/-- The header -1 and then the end of the stream: the call even returns 0. -/
theorem rev_minus_one_unsound :
    ¬ Sound { input := [255, 255, 255, 255], reads := [.ready 3, .ready 0] }
      (Side.server.rev 0 true true { input := [255, 255, 255, 255], reads := [.ready 3, .ready 0] }) := fun h =>
  absurd h.mem (by decide +kernel)

end CSocket
