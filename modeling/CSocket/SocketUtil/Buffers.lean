import CSocket.SocketUtil.Calls
import CSocket.SocketUtil.Delivery
/-!
# The blocks of the message operations

A send frees its block where `writen` fails, and the client also where it succeeds. A
receive frees none: a payload that breaks off leaves its block behind. `buffers_iff`
sums this up over any sequence of calls.
-/
namespace CSocket

/-! ## Ledgers -/

def obtained (ops : List MemOp) : List Nat := ops.filterMap fun op => match op with
  | .malloc blk _ => some blk
  | _ => none

def released (ops : List MemOp) : List Nat := ops.filterMap fun op => match op with
  | .free blk => some blk
  | _ => none

/-- The blocks obtained and never freed. -/
def unreleased (ops : List MemOp) : List Nat := (obtained ops).filter fun blk => blk ∉ released ops

@[simp] theorem obtained_append (ops ops' : List MemOp) : obtained (ops ++ ops') = obtained ops ++ obtained ops' :=
  List.filterMap_append

@[simp] theorem released_append (ops ops' : List MemOp) : released (ops ++ ops') = released ops ++ released ops' :=
  List.filterMap_append

/-- What was done with memory between `c` and `c'`. -/
def Conn.since (c c' : Conn) : List MemOp := c'.trace.drop c.trace.length

/-- Between `c` and `c'` every block obtained is freed once, but those of `kept`. -/
structure Ledger (c c' : Conn) (kept : List Nat) : Prop where
  grows : c.trace <+: c'.trace
  blocks : c.blocks ≤ c'.blocks
  fresh : obtained (c.since c') = List.range' c.blocks (c'.blocks - c.blocks)
  balance : (obtained (c.since c')).Perm (released (c.since c') ++ kept)

theorem since_eq {c c' : Conn} {ops : List MemOp} (h : c'.trace = c.trace ++ ops) : c.since c' = ops := by
  rw [Conn.since, h, List.drop_left]

theorem Ledger.of_ops {c c' : Conn} {kept : List Nat} {k : Nat} (ops : List MemOp) (htrace : c'.trace = c.trace ++ ops)
    (hblocks : c'.blocks = c.blocks + k) (hobt : obtained ops = List.range' c.blocks k)
    (hbal : (obtained ops).Perm (released ops ++ kept)) : Ledger c c' kept := by
  have hsince := since_eq htrace
  refine ⟨⟨ops, htrace.symm⟩, by omega, ?_, by rwa [hsince]⟩
  rw [hsince, hobt, hblocks, Nat.add_sub_cancel_left]

theorem Ledger.quiet {c c' : Conn} (htrace : c'.trace = c.trace) (hblocks : c'.blocks = c.blocks) : Ledger c c' [] :=
  .of_ops [] (by rw [htrace, List.append_nil]) (k := 0) hblocks rfl (.refl _)

/-- Only the memory counts. -/
theorem Ledger.of_same {c c1 c' : Conn} {kept : List Nat} (h : Ledger c1 c' kept) (htrace : c1.trace = c.trace)
    (hblocks : c1.blocks = c.blocks) : Ledger c c' kept := by
  have hsince : c.since c' = c1.since c' := by rw [Conn.since, Conn.since, htrace]
  refine ⟨htrace ▸ h.grows, hblocks ▸ h.blocks, ?_, ?_⟩
  · rw [hsince, ← hblocks]
    exact h.fresh
  · rw [hsince]
    exact h.balance

theorem Ledger.trans {c c1 c2 : Conn} {kept kept' : List Nat} (h : Ledger c c1 kept) (h' : Ledger c1 c2 kept') :
    Ledger c c2 (kept ++ kept') := by
  obtain ⟨ops, hops⟩ := h.grows
  obtain ⟨ops', hops'⟩ := h'.grows
  have hb := h.blocks
  have hb' := h'.blocks
  have hfresh := h.fresh
  have hfresh' := h'.fresh
  have hbal := h.balance
  have hbal' := h'.balance
  rw [since_eq hops.symm] at hfresh hbal
  rw [since_eq hops'.symm] at hfresh' hbal'
  refine .of_ops (ops ++ ops') (k := c2.blocks - c.blocks) (by rw [← hops', ← hops, List.append_assoc]) (by omega) ?_ ?_
  · have hnext : c.blocks + (c1.blocks - c.blocks) = c1.blocks := by omega
    have happ := List.range'_append_1 (s := c.blocks) (m := c1.blocks - c.blocks) (n := c2.blocks - c1.blocks)
    rw [hnext] at happ
    rw [obtained_append, hfresh, hfresh', happ]
    congr 1
    omega
  · rw [obtained_append, released_append]
    refine (hbal.append hbal').trans ?_
    simp only [List.append_assoc]
    exact (List.perm_append_comm_assoc kept (released ops') kept').append_left (released ops)

/-- The blocks the ledger keeps are those that were not freed. -/
theorem Ledger.unreleased {c c' : Conn} {kept : List Nat} (h : Ledger c c' kept) :
    (CSocket.unreleased (c.since c')).Perm kept := by
  have hnodup : (released (c.since c') ++ kept).Nodup := by
    rw [← h.balance.nodup_iff, h.fresh]
    exact List.nodup_range'
  have hapart := (List.nodup_append.mp hnodup).2.2
  have hfreed : (released (c.since c')).filter (fun blk => blk ∉ released (c.since c')) = [] := by
    rw [List.filter_eq_nil_iff]
    simp
  have hkept : kept.filter (fun blk => blk ∉ released (c.since c')) = kept := by
    rw [List.filter_eq_self]
    intro blk hblk
    simpa using fun hmem => hapart blk hmem blk hblk rfl
  have hfilter := h.balance.filter fun blk => decide (blk ∉ released (c.since c'))
  rw [List.filter_append, hfreed, hkept, List.nil_append] at hfilter
  exact hfilter

/-! ## What leaks a block -/

/-- The wait lets the call go on. -/
def Conn.Passes (c : Conn) (timeout : Int) : Prop := toUnsigned timeout = 0 ∨ firstSelect c.selects = some .ready

/-- A send gets its block and the schedule takes the whole frame. -/
structure SentWhole (datalen : Int) (c : Conn) : Prop where
  block : c.Grants (frameSize datalen)
  sent : takes (frameSize datalen) c.writes = true

/-- A receive gets its block and the payload does not come whole. -/
structure CutShort (c : Conn) : Prop where
  header : 4 ≤ c.input.length ∧ arrives 4 c.reads = true
  block : c.Grants (ntohl (c.input.take 4) + 1)
  payload : ¬ (4 + ntohl (c.input.take 4) ≤ c.input.length ∧
    arrives (ntohl (c.input.take 4)) (readsLeft 4 c.reads) = true)

/-- A server's frame that was sent, and a payload that broke off. -/
def MsgOp.Leaks (timeout : Int) (c : Conn) : MsgOp → Prop
  | send .client _ _ => False
  | send .server _ datalen => c.Passes timeout ∧ SentWhole datalen c
  | rev _ out outlen => (out = true ∧ outlen = true) ∧ c.Passes timeout ∧ CutShort c

theorem MsgOp.Leaks.accepted {op : MsgOp} {timeout : Int} {c : Conn} (h : op.Leaks timeout c) : ¬ op.Rejects := by
  cases op with
  | send side data datalen => cases side with
    | client => cases h
    | server => exact id
  | rev side out outlen => simp [MsgOp.Rejects, h.1]

theorem MsgOp.Leaks.passes {op : MsgOp} {timeout : Int} {c : Conn} (h : op.Leaks timeout c) : c.Passes timeout := by
  cases op with
  | send side data datalen => cases side with
    | client => cases h
    | server => exact h.1
  | rev side out outlen => exact h.2.1

/-! ## One call -/

/-- A send keeps its block just if a server sent the whole frame. -/
theorem sendReady_ledger {freeSent : Bool} {data : Option (List UInt8)} {datalen : Int} {c c' : Conn} {ret : Int}
    (h1 : -2 ^ 31 ≤ datalen) (h2 : datalen < 2 ^ 31) (h : sendReady freeSent data datalen c = .ret ret c') :
    (freeSent = false ∧ SentWhole datalen c) ∧ Ledger c c' [c.blocks] ∨
    ¬ (freeSent = false ∧ SentWhole datalen c) ∧ Ledger c c' [] := by
  have hrun := sendReady_run freeSent data h1 h2 c
  rw [h] at hrun
  cases hrun with
  | noBlock _ hg htrace hblocks =>
    exact .inr ⟨fun hs => hg hs.2.block, .quiet htrace hblocks⟩
  | sent _ hg htakes _ htrace hblocks =>
    cases freeSent with
    | true => exact .inr ⟨fun hs => (nomatch hs.1), .of_ops _ htrace hblocks rfl (.refl _)⟩
    | false => exact .inl ⟨⟨rfl, hg, htakes⟩, .of_ops _ htrace hblocks rfl (.refl _)⟩
  | failed _ hg htakes htrace hblocks =>
    refine .inr ⟨fun hs => ?_, .of_ops _ htrace hblocks rfl (.refl _)⟩
    rw [hs.2.sent] at htakes
    cases htakes

/-- The read of a payload frees nothing, and returns 0 just if the payload comes whole. -/
theorem revPayload_ledger {n : Nat} (hn : n ≤ 2 ^ 31 - 2) {tmpBuf : Nat} {c c' : Conn} {ret : Int} {d : Option Delivered}
    (h : revPayload n tmpBuf c = .ret (ret, d) c') :
    (∃ ops, c'.trace = c.trace ++ ops ∧ obtained ops = [] ∧ released ops = []) ∧ c'.blocks = c.blocks ∧
    (ret = 0 ↔ n ≤ c.input.length ∧ arrives n c.reads = true) := by
  have hsize : toSize (n : Int) = n := by
    rw [toSize_eq (by omega) (by omega)]
    rfl
  have hnote : note (.readn tmpBuf n) c = .ret () { c with trace := c.trace ++ [.readn tmpBuf n] } := rfl
  unfold revPayload at h
  rw [hsize, Prog.bind_ret hnote, Prog.bind_run] at h
  generalize hc1 : ({ c with trace := c.trace ++ [.readn tmpBuf n] } : Conn) = c1 at h
  have hin : c1.input = c.input := by rw [← hc1]
  have hreads : c1.reads = c.reads := by rw [← hc1]
  have htrace : c1.trace = c.trace ++ [.readn tmpBuf n] := by rw [← hc1]
  have hblocks : c1.blocks = c.blocks := by rw [← hc1]
  rw [← hin, ← hreads]
  have hread := readn_end n c1
  generalize readn n c1 = r at hread h
  cases hread with
  | full rs e h1 harr =>
    have hneg : ¬ (n : Int) = -1 := by omega
    simp only [toInt_toSsize (show n ≤ 2 ^ 31 - 1 by omega), hneg, Int.lt_irrefl, if_false] at h
    cases h
    refine ⟨⟨[.readn tmpBuf n, .store tmpBuf n], ?_, rfl, rfl⟩, hblocks, iff_of_true rfl ⟨h1, harr⟩⟩
    show c1.trace ++ [.store tmpBuf n] = _
    rw [htrace, List.append_assoc]
    rfl
  | eof rs e h1 =>
    have hneg : ¬ ((c1.input.length : Nat) : Int) = -1 := by omega
    have hlt : ((c1.input.length : Nat) : Int) < n := by omega
    rw [show (n : Int) - n + (c1.input.length : Int) = (c1.input.length : Nat) by omega] at h
    simp only [toInt_toSsize (show c1.input.length ≤ 2 ^ 31 - 1 by omega), hneg, hlt, if_true, if_false] at h
    cases h
    exact ⟨⟨_, htrace, rfl, rfl⟩, hblocks, iff_of_false (by decide) fun hfull => absurd hfull.1 (by omega)⟩
  | failed k rs e _ _ hno =>
    cases h
    refine ⟨⟨_, htrace, rfl, rfl⟩, hblocks, iff_of_false (by decide) fun hfull => ?_⟩
    rw [hno hfull.1] at hfull
    cases hfull.2
  | stalled k e => cases h

/-- Once the header is there and the block is granted, the block stays, and the payload
decides the result. -/
theorem revReady_block {c c' : Conn} {ret : Int} {d : Option Delivered} (hn : ntohl (c.input.take 4) ≤ 2 ^ 31 - 2)
    (hlen : 4 ≤ c.input.length) (harr : arrives 4 c.reads = true) (hg : c.Grants (ntohl (c.input.take 4) + 1))
    (h : revReady c = .ret (ret, d) c') :
    Ledger c c' [c.blocks] ∧
    (ret = 0 ↔ 4 + ntohl (c.input.take 4) ≤ c.input.length ∧
      arrives (ntohl (c.input.take 4)) (readsLeft 4 c.reads) = true) := by
  obtain ⟨e, he⟩ := readnLoop_full 4 c.reads 4 [] c hlen harr
  have hread : readn 4 c = .ret (4, c.input.take 4) (c.took 4 (readsLeft 4 c.reads) e) := he
  have hcode : toInt 4 = 4 := by decide
  have hneg : ¬ (4 : Int) = -1 := by decide
  unfold revReady at h
  rw [Prog.bind_ret hread] at h
  simp only [hcode, hneg, Int.lt_irrefl, if_false] at h
  rw [show toInt (ntohl (c.input.take 4)) = headerLen c.input from rfl, headerLen_eq hn, blockSize_eq hn,
    Prog.bind_ret (malloc_some (c := c.took 4 (readsLeft 4 c.reads) e) hg)] at h
  obtain ⟨⟨ops, htrace, hobt, hrel⟩, hblocks, hret⟩ := revPayload_ledger hn h
  constructor
  · have hobt' : obtained (.malloc c.blocks (ntohl (c.input.take 4) + 1) :: ops) = c.blocks :: obtained ops := rfl
    have hrel' : released (.malloc c.blocks (ntohl (c.input.take 4) + 1) :: ops) = released ops := rfl
    refine .of_ops (.malloc c.blocks (ntohl (c.input.take 4) + 1) :: ops) (k := 1) ?_ hblocks ?_ ?_
    · rw [htrace]
      simp [Conn.alloc, Conn.took]
    · rw [hobt', hobt]
      rfl
    · rw [hobt', hrel', hobt, hrel]
      exact .refl _
  · rw [hret]
    simp only [Conn.alloc, Conn.took, List.length_drop]
    rw [Nat.le_sub_iff_add_le hlen, Nat.add_comm]

/-- A receive that returns 0 keeps its block for the caller; another keeps it just if
the payload was cut short. -/
theorem revReady_ledger {c c' : Conn} {ret : Int} {d : Option Delivered} (hh : HeaderOk c.input)
    (h : revReady c = .ret (ret, d) c') :
    (ret = 0 ∨ CutShort c) ∧ ¬ (ret = 0 ∧ CutShort c) ∧ Ledger c c' [c.blocks] ∨
    ret ≠ 0 ∧ ¬ CutShort c ∧ Ledger c c' [] := by
  by_cases hblock : (4 ≤ c.input.length ∧ arrives 4 c.reads = true) ∧ c.Grants (ntohl (c.input.take 4) + 1)
  · obtain ⟨⟨hlen, harr⟩, hg⟩ := hblock
    obtain ⟨hledger, hwhole⟩ := revReady_block (hh hlen) hlen harr hg h
    refine .inl ⟨?_, fun hcut => hcut.2.payload (hwhole.mp hcut.1), hledger⟩
    by_cases h0 : ret = 0
    · exact .inl h0
    · exact .inr ⟨⟨hlen, harr⟩, hg, fun hfull => h0 (hwhole.mpr hfull)⟩
  · -- no block is obtained
    have hno : ¬ CutShort c := fun hcut => hblock ⟨hcut.header, hcut.block⟩
    have hend := revReady_end c
    generalize revReady c = r at hend h
    cases hend with
    | failed k rs e =>
      cases h
      exact .inr ⟨by decide, hno, .quiet rfl rfl⟩
    | closed rs e =>
      cases h
      exact .inr ⟨by decide, hno, .quiet rfl rfl⟩
    | stalled k e => cases h
    | noBlock rs e =>
      cases h
      exact .inr ⟨by decide, hno, .quiet rfl rfl⟩
    | block rs e h1 h2 hg =>
      rw [headerLen_eq (hh h1), blockSize_eq (hh h1)] at hg
      exact absurd ⟨⟨h1, h2⟩, hg⟩ hblock

/-- The call is a receive that returned 0, so that its block is the caller's. -/
def MsgOp.delivers (ret : Int) : MsgOp → Bool
  | send _ _ _ => false
  | rev _ _ _ => ret = 0

/-- A block that a call leaves behind is delivered or leaked. -/
theorem call_ledger {op : MsgOp} {timeout ret : Int} {d : Option Delivered} {c c' : Conn} (hrange : op.InRange)
    (hheader : op.Sends ∨ HeaderOk c.input) (hcall : op.call timeout c = .ret (ret, d) c') :
    (op.delivers ret = true ∨ op.Leaks timeout c) ∧ ¬ (op.delivers ret = true ∧ op.Leaks timeout c) ∧
      Ledger c c' [c.blocks] ∨
    op.delivers ret = false ∧ ¬ op.Leaks timeout c ∧ Ledger c c' [] := by
  -- a call that does not get past its wait touches no block
  have hquiet : ret ≠ 0 → ¬ op.Leaks timeout c → c'.trace = c.trace → c'.blocks = c.blocks →
      op.delivers ret = false ∧ ¬ op.Leaks timeout c ∧ Ledger c c' [] := by
    intro hret hno htrace hblocks
    refine ⟨?_, hno, .quiet htrace hblocks⟩
    cases op with
    | send side data datalen => rfl
    | rev side out outlen => simpa [MsgOp.delivers] using hret
  by_cases hrej : op.Rejects
  · rw [MsgOp.call_rejected hrej] at hcall
    cases hcall
    exact .inr (hquiet (by decide) (fun h => h.accepted hrej) rfl rfl)
  have hend := MsgOp.call_end hrej timeout c
  generalize op.call timeout c = r at hend hcall
  cases hend with
  | timeout os h0 hfirst =>
    cases hcall
    refine .inr (hquiet (by decide) (fun h => ?_) rfl rfl)
    simpa [hfirst] using h.passes.resolve_left h0
  | failed os e h0 hfirst =>
    injection hcall with hpair henv
    injection hpair with hcode
    refine .inr (hquiet (hcode ▸ op.waitCode_ne_zero e) (fun h => ?_) (henv ▸ rfl) (henv ▸ rfl))
    simpa [hfirst] using h.passes.resolve_left h0
  | stalled e => cases hcall
  | ready os e hpass =>
    cases op with
    | send side data datalen =>
      obtain ⟨ret1, c2, hsend, hpure⟩ := Prog.bind_ret_iff.mp hcall
      cases hpure
      cases side with
      | client =>
        rcases sendReady_ledger hrange.1 hrange.2 hsend with ⟨⟨hfree, -⟩, -⟩ | ⟨-, hledger⟩
        · cases hfree
        · exact .inr ⟨rfl, id, hledger.of_same rfl rfl⟩
      | server =>
        rcases sendReady_ledger hrange.1 hrange.2 hsend with ⟨⟨-, hsent⟩, hledger⟩ | ⟨hno, hledger⟩
        · have hleak : (MsgOp.send .server data datalen).Leaks timeout c := ⟨hpass, hsent.block, hsent.sent⟩
          exact .inl ⟨.inr hleak, by simp [MsgOp.delivers], hledger.of_same rfl rfl⟩
        · exact .inr ⟨rfl, fun h => hno ⟨rfl, h.2.block, h.2.sent⟩, hledger.of_same rfl rfl⟩
    | rev side out outlen =>
      have hset : out = true ∧ outlen = true := by simpa [MsgOp.Rejects] using hrej
      have hh : HeaderOk c.input := hheader.resolve_left id
      have hleak : (MsgOp.rev side out outlen).Leaks timeout c ↔ CutShort { c with selects := os, errno := e } :=
        ⟨fun h => ⟨h.2.2.header, h.2.2.block, h.2.2.payload⟩,
          fun h => ⟨hset, hpass, h.header, h.block, h.payload⟩⟩
      rw [hleak, MsgOp.delivers, decide_eq_true_iff, decide_eq_false_iff_not]
      rcases revReady_ledger (c := { c with selects := os, errno := e }) hh hcall with ⟨hsome, hboth, hledger⟩ | ⟨hret, hno, hledger⟩
      · exact .inl ⟨hsome, hboth, hledger.of_same rfl rfl⟩
      · exact .inr ⟨hret, hno, hledger.of_same rfl rfl⟩

/-! ## Calls in sequence -/

/-- A call of one of the operations that returned. -/
structure Call where
  op : MsgOp
  timeout : Int
  start : Conn
  ret : Int
  delivered : Option Delivered
  finish : Conn
  inRange : op.InRange
  header : op.Sends ∨ HeaderOk start.input
  returns : op.call timeout start = .ret (ret, delivered) finish

namespace Call

def delivers (x : Call) : Bool := x.op.delivers x.ret

/-- Every block obtained is freed once before the call returns, but the one handed over. -/
def Releases (x : Call) : Prop := ∃ kept, Ledger x.start x.finish kept ∧ kept.length = x.delivers.toNat

def Leaks (x : Call) : Prop := x.op.Leaks x.timeout x.start

/-- A call releases what it should just if it does not leak. -/
theorem releases_iff (x : Call) : x.Releases ↔ ¬ x.Leaks := by
  have honly : ∀ kept, Ledger x.start x.finish kept → (x.Releases ↔ kept.length = x.delivers.toNat) := by
    intro kept h
    constructor
    · rintro ⟨kept', h', hlen⟩
      rw [← hlen, ← h.unreleased.length_eq, h'.unreleased.length_eq]
    · exact fun hlen => ⟨kept, h, hlen⟩
  rcases call_ledger x.inRange x.header x.returns with ⟨hsome, hboth, hledger⟩ | ⟨hno, hclean, hledger⟩
  · rw [honly _ hledger]
    rcases hsome with hdel | hleak
    · have hd : x.delivers = true := hdel
      exact iff_of_true (by simp [hd]) fun h => hboth ⟨hdel, h⟩
    · have hd : x.delivers = false := Bool.eq_false_iff.mpr fun h => hboth ⟨h, hleak⟩
      exact iff_of_false (by simp [hd]) fun h => h hleak
  · have hd : x.delivers = false := hno
    rw [honly _ hledger]
    exact iff_of_true (by simp [hd]) hclean

end Call

/-- The calls one after another, from `c` to `c'`. Between two of them anything may
change but what they did with memory. -/
inductive Calls : Conn → List Call → Conn → Prop
  | nil (c) : Calls c [] c
  | cons {c c' x xs} : x.start.trace = c.trace → x.start.blocks = c.blocks → Calls x.finish xs c' → Calls c (x :: xs) c'

/-- Each block that is left behind is a message delivered or a leak. -/
theorem Calls.ledger {c c' : Conn} {xs : List Call} (h : Calls c xs c') :
    ∃ kept, Ledger c c' kept ∧ xs.countP Call.delivers ≤ kept.length ∧
      (kept.length = xs.countP Call.delivers ↔ ∀ x ∈ xs, ¬ x.Leaks) := by
  induction h with
  | nil c => exact ⟨[], .quiet rfl rfl, Nat.le_refl _, by simp⟩
  | @cons c c' x xs htrace hblocks _ ih =>
    obtain ⟨kept, hledger, hle, hiff⟩ := ih
    rw [List.forall_mem_cons]
    rcases call_ledger x.inRange x.header x.returns with ⟨hsome, hboth, hx⟩ | ⟨hno, hclean, hx⟩
    · refine ⟨_, (hx.of_same htrace hblocks).trans hledger, ?_⟩
      rcases hsome with hdel | hleak
      · have hd : x.delivers = true := hdel
        have hkeep : ¬ x.Leaks := fun h => hboth ⟨hdel, h⟩
        rw [List.countP_cons_of_pos hd, and_iff_right hkeep, ← hiff, List.length_append, List.length_singleton]
        omega
      · have hd : ¬ x.delivers = true := fun h => hboth ⟨h, hleak⟩
        rw [List.countP_cons_of_neg hd, List.length_append, List.length_singleton]
        exact ⟨by omega, iff_of_false (by omega) fun h => h.1 hleak⟩
    · have hd : ¬ x.delivers = true := by
        rw [Call.delivers, hno]
        exact Bool.false_ne_true
      refine ⟨_, (hx.of_same htrace hblocks).trans hledger, ?_⟩
      rw [List.countP_cons_of_neg hd, and_iff_right (show ¬ x.Leaks from hclean), List.nil_append]
      exact ⟨hle, hiff⟩

/-- In any sequence of calls, a call releases what it should just if it does not leak, and
as many blocks stay as messages were delivered just if none does. -/
theorem buffers_iff {c c' : Conn} {xs : List Call} (h : Calls c xs c') :
    (∀ x ∈ xs, x.Releases ↔ ¬ x.Leaks) ∧
    ((unreleased (c.since c')).length = xs.countP Call.delivers ↔ ∀ x ∈ xs, ¬ x.Leaks) := by
  obtain ⟨kept, hledger, -, hiff⟩ := h.ledger
  rw [hledger.unreleased.length_eq]
  exact ⟨fun x _ => x.releases_iff, hiff⟩

/-- A client sends one byte. -/
def clientByte : Call where
  op := .send .client (some [7]) 1
  timeout := 0
  start := { writes := [.accepts 5] }
  ret := 0
  delivered := none
  finish := { output := [0, 0, 0, 1, 7], blocks := 1, trace := sendOps 0 1 ++ [.free 0] }
  inRange := ⟨by decide, by decide⟩
  header := .inl trivial
  returns := rfl

theorem buffers_iff_client : Calls {} [clientByte] clientByte.finish ∧
    (unreleased (Conn.since {} clientByte.finish)).length = [clientByte].countP Call.delivers := by
  have h : Calls {} [clientByte] clientByte.finish := .cons rfl rfl (.nil _)
  exact ⟨h, (buffers_iff h).2.mpr (by simp [Call.Leaks, clientByte, MsgOp.Leaks])⟩

/-- A server sends the same byte. -/
def serverByte : Call where
  op := .send .server (some [7]) 1
  timeout := 0
  start := { writes := [.accepts 5] }
  ret := 0
  delivered := none
  finish := { output := [0, 0, 0, 1, 7], blocks := 1, trace := sendOps 0 1 }
  inRange := ⟨by decide, by decide⟩
  header := .inl trivial
  returns := rfl

/-- The stream ends after the first of two bytes. -/
def brokenPayload : Call where
  op := .rev .client true true
  timeout := 0
  start := { reads := [.ready 3, .ready 1, .ready 1], input := [0, 0, 0, 2, 7] }
  ret := sckErrPeerClosed
  delivered := none
  finish := { blocks := 1, trace := [.malloc 0 3, .readn 0 2] }
  inRange := trivial
  header := .inr fun _ => by decide
  returns := by decide +kernel

/-- The block is never freed where a server's send returns 0, nor where a payload breaks
off. -/
theorem buffers_leak : ¬ serverByte.Releases ∧ ¬ brokenPayload.Releases := by
  constructor
  · rintro ⟨kept, hledger, hlen⟩
    have hone : (unreleased (serverByte.start.since serverByte.finish)).length = 1 := by decide
    rw [hledger.unreleased.length_eq, hlen] at hone
    cases hone
  · rintro ⟨kept, hledger, hlen⟩
    have hone : (unreleased (brokenPayload.start.since brokenPayload.finish)).length = 1 := by decide
    rw [hledger.unreleased.length_eq, hlen] at hone
    cases hone

end CSocket
