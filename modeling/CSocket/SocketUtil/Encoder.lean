import CSocket.SocketUtil.Calls
/-!
# The frame encoder on any length

Both sends compute `datalen + 4` in an `int`. `encodes_iff`: that is sound up to
2^31 - 5, but for the lengths from -4 to -1, which the server does not reject. There
`malloc` is asked for less than the header.
-/
namespace CSocket

/-! ## Soundness of one send -/

/-- A frame of `datalen` bytes: the length in network order and the head of `data`. -/
structure Framed (data : List UInt8) (datalen : Int) (bytes : List UInt8) : Prop where
  header : (ntohl (bytes.take 4) : Int) = datalen
  payload : bytes.drop 4 <+: data
  length : (bytes.length : Int) = 4 + datalen

/-- The block of a frame has room for it and for what is copied, and `writen` is asked
for the whole frame. -/
structure FitsFrame (datalen : Int) (ops : List MemOp) : Prop where
  block : ∀ blk size : Nat, MemOp.malloc blk size ∈ ops → 4 + datalen ≤ size
  copies : ∀ blk off count, MemOp.memcpy blk off count ∈ ops → ∃ size, MemOp.malloc blk size ∈ ops ∧ off + count ≤ size
  asked : ∀ blk count : Nat, MemOp.writen blk count ∈ ops → (count : Int) = 4 + datalen

/-- A send from `c` that ended in `r` computed its length in range, stayed in its block,
and returned 0 only with the frame written. -/
structure EncodesSafely (data : Option (List UInt8)) (datalen : Int) (c : Conn) (r : Outcome Conn Int) : Prop where
  range : -2 ^ 31 ≤ datalen + 4 ∧ datalen + 4 < 2 ^ 31
  mem : FitsFrame datalen (r.env.trace.drop c.trace.length)
  sent : ∀ c', r = .ret 0 c' → ∃ bytes, c'.output = c.output ++ bytes ∧ Framed (data.getD []) datalen bytes

/-- The length is negative, and a block of `datalen + 4` bytes is granted. -/
structure NegativeFrame (timeout datalen : Int) (c : Conn) : Prop where
  ready : toUnsigned timeout = 0 ∨ firstSelect c.selects = some .ready
  low : -4 ≤ datalen
  negative : datalen < 0
  block : c.Grants (datalen + 4).toNat

/-- A send that gets no block does not return 0 and is sound where the sum is. -/
theorem encodesSafely_quiet {data : Option (List UInt8)} {timeout datalen : Int} {c : Conn} {r : Outcome Conn Int}
    (h1 : -2 ^ 31 ≤ datalen) (hno : ¬ NegativeFrame timeout datalen c) (htrace : r.env.trace = c.trace)
    (hret : ∀ c', r ≠ .ret 0 c') :
    EncodesSafely data datalen c r ↔ datalen ≤ 2 ^ 31 - 5 ∧ ¬ NegativeFrame timeout datalen c := by
  rw [and_iff_left hno]
  constructor
  · intro h
    have := h.range
    omega
  · intro h
    refine ⟨by omega, ?_, fun c' h => absurd h (hret c')⟩
    rw [htrace, List.drop_length]
    exact ⟨by simp, by simp, by simp⟩

/-- With its block, a send is sound in memory from length 0 on. -/
theorem fitsFrame_iff {datalen : Int} (h1 : -4 ≤ datalen) (h2 : datalen ≤ 2 ^ 31 - 5) (blk : Nat) {ops : List MemOp}
    (hops : ∀ op ∈ ops, op = .free blk) : FitsFrame datalen (sendOps blk datalen ++ ops) ↔ 0 ≤ datalen := by
  obtain ⟨-, hsize⟩ := frameSize_eq h1 h2
  have hmem : ∀ op, op ∈ sendOps blk datalen ++ ops → op ∈ sendOps blk datalen ∨ op = .free blk := by
    intro op h
    rcases List.mem_append.mp h with h | h
    · exact .inl h
    · exact .inr (hops op h)
  constructor
  · intro h
    obtain ⟨size, hmal, hroom⟩ := h.copies blk 0 4 (by simp [sendOps])
    rcases hmem _ hmal with hmal | hmal
    · simp [sendOps] at hmal
      omega
    · cases hmal
  · intro h0
    have hcopy : toSize datalen = datalen.toNat := toSize_eq h0 (by omega)
    refine ⟨?_, ?_, ?_⟩
    · intro b size h
      rcases hmem _ h with h | h
      · simp [sendOps] at h
        omega
      · cases h
    · intro b off count h
      refine ⟨frameSize datalen, ?_⟩
      rcases hmem _ h with h | h
      · simp [sendOps] at h ⊢
        omega
      · cases h
    · intro b count h
      rcases hmem _ h with h | h
      · simp [sendOps] at h
        omega
      · cases h

theorem framed_take {data : Option (List UInt8)} {datalen : Int} (h0 : 0 ≤ datalen) (h2 : datalen ≤ 2 ^ 31 - 5)
    (hdata : datalen ≤ (data.getD []).length) :
    Framed (data.getD []) datalen ((frameBytes data datalen).take (frameSize datalen)) := by
  obtain ⟨-, hsize⟩ := frameSize_eq (by omega) h2
  have hcopy : toSize datalen = datalen.toNat := toSize_eq h0 (by omega)
  have hlen : (frameBytes data datalen).length = frameSize datalen := by
    rw [frameBytes, hcopy, List.length_append, length_htonl, List.length_take, hsize]
    omega
  rw [List.take_of_length_le (by omega)]
  refine ⟨?_, ?_, by omega⟩
  · rw [frameBytes, List.take_left' (length_htonl _), ntohl_htonl h0 (by omega)]
    omega
  · rw [frameBytes, List.drop_left' (length_htonl _)]
    exact List.take_prefix _ _

/-- What the block decides: with it a send is sound just if the length is not negative. -/
theorem encodesSafely_block {data : Option (List UInt8)} {datalen : Int} {c c1 : Conn} {r : Outcome Conn Int}
    (hc1 : c1.Grants (frameSize datalen)) (h1 : -2 ^ 31 ≤ datalen) (h2 : datalen < 2 ^ 31) (blk : Nat) {ops : List MemOp}
    (hops : ∀ op ∈ ops, op = .free blk) (htrace : r.env.trace = c.trace ++ (sendOps blk datalen ++ ops))
    (hsent : ∀ c', r = .ret 0 c' → c'.output = c.output ++ (frameBytes data datalen).take (frameSize datalen))
    (hdata : datalen ≤ (data.getD []).length) :
    EncodesSafely data datalen c r ↔ 0 ≤ datalen := by
  obtain ⟨hlow, hhigh⟩ := frame_granted h1 h2 hc1
  have hnew : r.env.trace.drop c.trace.length = sendOps blk datalen ++ ops := by rw [htrace, List.drop_left]
  have hfits := fitsFrame_iff hlow hhigh blk hops
  constructor
  · intro h
    have hmem := h.mem
    rw [hnew] at hmem
    exact hfits.mp hmem
  · intro h0
    refine ⟨by omega, ?_, fun c' h => ⟨_, hsent c' h, framed_take h0 hhigh hdata⟩⟩
    rw [hnew]
    exact hfits.mpr h0

/-- Once the block is granted, the sign of the length decides. -/
theorem negativeFrame_iff {timeout datalen : Int} {c : Conn} (h1 : -2 ^ 31 ≤ datalen) (h2 : datalen < 2 ^ 31)
    (hpass : toUnsigned timeout = 0 ∨ firstSelect c.selects = some .ready) (hg : c.Grants (frameSize datalen)) :
    datalen ≤ 2 ^ 31 - 5 ∧ ¬ NegativeFrame timeout datalen c ↔ 0 ≤ datalen := by
  obtain ⟨hlow, hhigh⟩ := frame_granted h1 h2 hg
  constructor
  · rintro ⟨-, hno⟩
    by_contra hneg
    refine hno ⟨hpass, hlow, by omega, ?_⟩
    rwa [← (frameSize_eq hlow hhigh).2]
  · exact fun h0 => ⟨hhigh, fun h => absurd h.negative (by omega)⟩

/-- A send whose wait passed. -/
theorem encodes_ready {freeSent : Bool} {timeout datalen : Int} {data : Option (List UInt8)} {c : Conn}
    (h1 : -2 ^ 31 ≤ datalen) (h2 : datalen < 2 ^ 31) (hdata : datalen ≤ (data.getD []).length)
    (hpass : toUnsigned timeout = 0 ∨ firstSelect c.selects = some .ready) (os : List SelectOutcome) (e : Int) :
    EncodesSafely data datalen c (sendReady freeSent data datalen { c with selects := os, errno := e }) ↔
      datalen ≤ 2 ^ 31 - 5 ∧ ¬ NegativeFrame timeout datalen c := by
  have hrun := sendReady_run freeSent data h1 h2 { c with selects := os, errno := e }
  generalize sendReady _ data datalen { c with selects := os, errno := e } = r at hrun ⊢
  cases hrun with
  | noBlock c' hg htrace =>
    refine encodesSafely_quiet h1 (fun h => hg ?_) htrace fun c1 h => by cases h
    have hneg := h.negative
    rw [(frameSize_eq h.low (by omega)).2]
    exact h.block
  | sent c' hg _ hout htrace =>
    rw [negativeFrame_iff h1 h2 hpass hg]
    refine encodesSafely_block hg h1 h2 c.blocks ?_ htrace ?_ hdata
    · intro op h
      cases freeSent with
      | true => simpa using h
      | false => simp at h
    · rintro c1 ⟨⟩
      exact hout
  | failed c' hg _ htrace =>
    rw [negativeFrame_iff h1 h2 hpass hg]
    exact encodesSafely_block hg h1 h2 c.blocks (by simp) htrace (fun c1 h => by cases h) hdata
  | stalled c' hg htrace =>
    have hops : c'.trace = c.trace ++ (sendOps c.blocks datalen ++ []) := by simpa using htrace
    rw [negativeFrame_iff h1 h2 hpass hg]
    exact encodesSafely_block hg h1 h2 c.blocks (by simp) hops (fun c1 h => by cases h) hdata

/-- A send that is not rejected is sound just if the sum fits an `int` and no block is
granted for a negative length. -/
theorem encodes_iff {side : Side} {timeout datalen : Int} {data : Option (List UInt8)} {c : Conn}
    (h1 : -2 ^ 31 ≤ datalen) (h2 : datalen < 2 ^ 31) (hop : ¬ (MsgOp.send side data datalen).Rejects)
    (hdata : datalen ≤ (data.getD []).length) :
    EncodesSafely data datalen c (side.send timeout data datalen c) ↔
      datalen ≤ 2 ^ 31 - 5 ∧ ¬ NegativeFrame timeout datalen c := by
  have hend := sckSend_afterWait (side = .client) timeout data datalen c
  rw [MsgOp.send_eq hop]
  generalize sckSend _ timeout data datalen c = r at hend ⊢
  -- a send that ends in its wait
  have hended : toUnsigned timeout ≠ 0 → firstSelect c.selects ≠ some .ready → ¬ NegativeFrame timeout datalen c :=
    fun h0 hfirst h => hfirst (h.ready.resolve_left h0)
  cases hend with
  | ready os e hpass => exact encodes_ready h1 h2 hdata hpass os e
  | timeout os h0 hfirst =>
    exact encodesSafely_quiet h1 (hended h0 (by simp [hfirst])) rfl fun c' h => by cases h
  | failed os e h0 hfirst =>
    refine encodesSafely_quiet h1 (hended h0 (by simp [hfirst])) rfl fun c' h => ?_
    injection h with hcode
    split at hcode <;> cases hcode
  | stalled e h0 hfirst =>
    exact encodesSafely_quiet h1 (hended h0 (by simp [hfirst])) rfl fun c' h => by cases h

/-- Three bytes from a client. -/
theorem encodes_iff_client :
    EncodesSafely (some [7, 8, 9]) 3 { writes := [.accepts 7] }
      (Side.client.send 0 (some [7, 8, 9]) 3 { writes := [.accepts 7] }) :=
  (encodes_iff (by decide) (by decide) (by simp [MsgOp.Rejects]) (by decide)).mpr
    ⟨by decide, fun h => absurd h.negative (by decide)⟩

/-- A server's send of length -4: `malloc(0)` returns a block, the copies leave it, and
the call returns 0 with nothing written. -/
theorem negative_frame : Side.server.send 0 none (-4) {} =
      .ret 0 { blocks := 1, trace := [.malloc 0 0, .memcpy 0 0 4, .memcpy 0 4 (2 ^ 64 - 4), .writen 0 0] } ∧
    ¬ EncodesSafely none (-4) {} (Side.server.send 0 none (-4) {}) := by
  have hrun : Side.server.send 0 none (-4) {} =
      .ret 0 { blocks := 1, trace := [.malloc 0 0, .memcpy 0 0 4, .memcpy 0 4 (2 ^ 64 - 4), .writen 0 0] } := by decide
  refine ⟨hrun, fun h => ?_⟩
  have hmem := h.mem
  rw [hrun] at hmem
  obtain ⟨size, hmal, hroom⟩ := hmem.copies 0 0 4 (by simp)
  simp at hmal
  omega

end CSocket
