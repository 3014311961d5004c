import CSocket.SocketUtil.Io
import CSocket.Lib.Lts
/-!
# Reading lines

`my_read` and `Readline` of `wrap.c`, with the static buffer of `my_read` as part of
the process. `unread` is what of it counts: `myRead_end` and `readline_end` say what the
two do to it, and nothing below them looks at the buffer.

A byte carries the descriptor it was read from, and `lines` is a history; the code has
neither.
-/
namespace CSocket.Wrap

/-! ## Data -/

structure Byte where
  fd : Nat := 0
  val : UInt8 := 0
  deriving DecidableEq

def newline : UInt8 := 10

/-- `sizeof(read_buf)` -/
def bufSize : Nat := 100

/-- A call that returned: its arguments, its result, and the bytes it stored before the
terminating `NUL`. -/
structure Line where
  fd : Nat
  maxlen : Nat
  ret : Int
  stored : List Byte
  deriving DecidableEq

def Line.bytes (l : Line) : List UInt8 := l.stored.map Byte.val

structure Proc where
  conns : Nat → Conn
  readCnt : Int := 0
  /-- The index of `read_ptr` in `read_buf`. -/
  readPtr : Nat := 0
  readBuf : List Byte := List.replicate bufSize {}
  lines : List Line := []

namespace Proc

def setConn (s : Proc) (fd : Nat) (c : Conn) : Proc :=
  { s with conns := fun fd' => if fd' = fd then c else s.conns fd' }

@[simp] theorem setConn_conns (s : Proc) (fd fd' : Nat) (c : Conn) :
    (s.setConn fd c).conns fd' = if fd' = fd then c else s.conns fd' := rfl

@[simp] theorem setConn_readCnt (s : Proc) (fd : Nat) (c : Conn) : (s.setConn fd c).readCnt = s.readCnt := rfl
@[simp] theorem setConn_readPtr (s : Proc) (fd : Nat) (c : Conn) : (s.setConn fd c).readPtr = s.readPtr := rfl
@[simp] theorem setConn_readBuf (s : Proc) (fd : Nat) (c : Conn) : (s.setConn fd c).readBuf = s.readBuf := rfl
@[simp] theorem setConn_lines (s : Proc) (fd : Nat) (c : Conn) : (s.setConn fd c).lines = s.lines := rfl

/-- The bytes of the buffer still to come. -/
def unread (s : Proc) : List Byte := (s.readBuf.drop s.readPtr).take s.readCnt.toNat

end Proc

/-! ## The code -/

/-- The part of `my_read` that refills the buffer: a call of `read` for each round. It
returns 1 to go on. -/
def fill (fd : Nat) : List ReadOutcome → Proc → Outcome Proc Int
  | [], s => .stalled (s.setConn fd { s.conns fd with reads := [] })
  | .error e :: rs, s =>
    let s := { s with readCnt := -1 }.setConn fd { s.conns fd with errno := e, reads := rs }
    if e = EINTR then fill fd rs s else .ret (-1) s
  | .ready k :: rs, s =>
    let got := (s.conns fd).input.take (min (k + 1) bufSize)
    let s := { s with readCnt := got.length, readBuf := got.map (Byte.mk fd) ++ s.readBuf.drop got.length }.setConn fd
      { s.conns fd with input := (s.conns fd).input.drop got.length, reads := rs }
    if got.length = 0 then .ret 0 s else .ret 1 { s with readPtr := 0 }

def refill (fd : Nat) : Prog Proc Int := fun s => fill fd (s.conns fd).reads s

/-- `read_cnt--; *ptr = *read_ptr++;` -/
def takeByte : Prog Proc (Int × Byte) := fun s =>
  .ret (1, s.readBuf.getD s.readPtr {}) { s with readCnt := s.readCnt - 1, readPtr := s.readPtr + 1 }

/-- The result, and `*ptr` where that is 1. -/
def myRead (fd : Nat) : Prog Proc (Int × Byte) := do
  let readCnt ← Prog.read Proc.readCnt
  if readCnt ≤ 0 then
    let rc ← refill fd
    if rc = 1 then takeByte else return (rc, {})
  else takeByte

/-- `Readline`'s loop: `left` rounds up to `maxlen`. -/
def readlineLoop (fd : Nat) : Nat → Nat → List Byte → Prog Proc (Int × List Byte)
  | 0, n, stored => return (n, stored)
  | left + 1, n, stored => do
    let (rc, c) ← myRead fd
    if rc = 1 then
      if c.val = newline then return (n, stored ++ [c])
      else readlineLoop fd left (n + 1) (stored ++ [c])
    else if rc = 0 then return ((n : Int) - 1, stored)
    else return (-1, stored)

/-- The result and the stored bytes; they are followed by a `NUL` unless it is -1. -/
def readline (fd maxlen : Nat) : Prog Proc (Int × List Byte) := readlineLoop fd (maxlen - 1) 1 []

/-- A call that returns. -/
def readlineStep (s : Proc) (call : Nat × Nat) : Option Proc :=
  match readline call.1 call.2 s with
  | .ret (ret, stored) s' => some { s' with lines := s'.lines ++ [⟨call.1, call.2, ret, stored⟩] }
  | .stalled _ => none

/-! ## The buffer -/

/-- The buffer has its size, and the bytes still to come are inside it. -/
structure Proc.Wf (s : Proc) : Prop where
  size : s.readBuf.length = bufSize
  inside : s.readPtr + s.readCnt.toNat ≤ bufSize

section
variable {s s' : Proc} {fd : Nat}

theorem Proc.unread_nil (h : s.readCnt ≤ 0) : s.unread = [] := by
  rw [unread, Int.toNat_of_nonpos h, List.take_zero]

/-- `read` failed. -/
theorem Proc.Wf.failed (hwf : s.Wf) (fd : Nat) (c : Conn) : ({ s with readCnt := -1 }.setConn fd c).Wf := by
  refine ⟨hwf.size, ?_⟩
  have := hwf.inside
  show s.readPtr + (-1 : Int).toNat ≤ bufSize
  omega

/-- What a block leaves to read. -/
theorem Proc.unread_filled {block rest : List Byte} (hptr : s.readPtr = 0) (hcnt : s.readCnt = block.length)
    (hbuf : s.readBuf = block ++ rest) : s.unread = block := by
  rw [unread, hptr, hcnt, hbuf, Int.toNat_natCast, List.drop_zero, List.take_left]

/-- What `takeByte` does where there is a byte. -/
theorem takeByte_eq (hwf : s.Wf) (hpos : 0 < s.readCnt) : ∃ b s', takeByte s = .ret (1, b) s' ∧
    s.unread = b :: s'.unread ∧ s'.Wf ∧ s'.conns = s.conns ∧ s'.lines = s.lines := by
  obtain ⟨hsize, hin⟩ := hwf
  have hlt : s.readPtr < s.readBuf.length := by omega
  have hcnt : s.readCnt.toNat = (s.readCnt - 1).toNat + 1 := by omega
  refine ⟨_, _, rfl, ?_, ⟨hsize, by show s.readPtr + 1 + (s.readCnt - 1).toNat ≤ bufSize; omega⟩, rfl, rfl⟩
  rw [Proc.unread, List.drop_eq_getElem_cons hlt, hcnt, List.take_succ_cons, List.getD_eq_getElem?_getD,
    List.getElem?_eq_getElem hlt]
  rfl

/-- A call on `fd` leaves the other descriptors alone. -/
structure Frame (fd : Nat) (s s' : Proc) : Prop where
  conns : ∀ fd', fd' ≠ fd → s'.conns fd' = s.conns fd'
  lines : s'.lines = s.lines

theorem Frame.refl (fd : Nat) (s : Proc) : Frame fd s s := ⟨fun _ _ => rfl, rfl⟩

theorem Frame.trans {s'' : Proc} (h : Frame fd s s') (h' : Frame fd s' s'') : Frame fd s s'' :=
  ⟨fun fd' hne => (h'.conns fd' hne).trans (h.conns fd' hne), h'.lines.trans h.lines⟩

/-- The bytes of `fd` that no call has stored yet, and the reads to come. -/
def Proc.pending (s : Proc) (fd : Nat) : List UInt8 := s.unread.map Byte.val ++ (s.conns fd).input

/-- The four ways out of a refill of the empty buffer. -/
inductive FillEnd (fd : Nat) (rs : List ReadOutcome) (s : Proc) : Outcome Proc Int → Prop
  | filled (s' : Proc) : s'.Wf → Frame fd s s' → 0 < s'.readCnt → (∀ b ∈ s'.unread, b.fd = fd) →
      (s.conns fd).input = s'.pending fd → (s'.conns fd).reads <:+ rs →
      readies rs ≤ readies (s'.conns fd).reads + 1 → (s'.conns fd).input.length < (s.conns fd).input.length →
      FillEnd fd rs s (.ret 1 s')
  | eof (s' : Proc) : s'.Wf → Frame fd s s' → s'.readCnt = 0 → (s.conns fd).input = [] → (s'.conns fd).input = [] →
      (s'.conns fd).reads <:+ rs → readies rs ≤ readies (s'.conns fd).reads + 1 → FillEnd fd rs s (.ret 0 s')
  | failed (s' : Proc) : s'.Wf → Frame fd s s' → s'.readCnt = -1 → HardRead rs → FillEnd fd rs s (.ret (-1) s')
  | stalled (s' : Proc) : readies rs = 0 → FillEnd fd rs s (.stalled s')

theorem FillEnd.retry {rs : List ReadOutcome} {s1 : Proc} {r : Outcome Proc Int} (hf : Frame fd s s1)
    (hin : (s1.conns fd).input = (s.conns fd).input) (h : FillEnd fd rs s1 r) : FillEnd fd (.error EINTR :: rs) s r := by
  have hsuf {rs' : List ReadOutcome} (h : rs' <:+ rs) : rs' <:+ .error EINTR :: rs := h.trans (List.suffix_cons _ _)
  cases h with
  | filled s' hwf hf' hpos hfd hpend hrs hready hlt =>
    rw [hin] at hpend hlt
    exact .filled s' hwf (hf.trans hf') hpos hfd hpend (hsuf hrs) (by simpa using hready) hlt
  | eof s' hwf hf' hcnt hnil hnil' hrs hready =>
    rw [hin] at hnil
    exact .eof s' hwf (hf.trans hf') hcnt hnil hnil' (hsuf hrs) (by simpa using hready)
  | failed s' hwf hf' hcnt hhard => exact .failed s' hwf (hf.trans hf') hcnt hhard.cons
  | stalled s' hready => exact .stalled s' (by simpa using hready)

theorem Frame.setConn (s : Proc) (fd : Nat) (c : Conn) (cnt : Int) (ptr : Nat) (buf : List Byte) :
    Frame fd s ({ s with readCnt := cnt, readPtr := ptr, readBuf := buf }.setConn fd c) :=
  ⟨fun fd' hne => by simp [hne], rfl⟩

theorem fill_end (fd : Nat) (rs : List ReadOutcome) : ∀ s : Proc, s.Wf → FillEnd fd rs s (fill fd rs s) := by
  induction rs with
  | nil => exact fun s _ => .stalled _ rfl
  | cons o rs ih =>
    intro s hwf
    cases o with
    | error e =>
      unfold fill
      dsimp only
      have hwf1 := hwf.failed fd { s.conns fd with errno := e, reads := rs }
      have hf : Frame fd s ({ s with readCnt := -1 }.setConn fd { s.conns fd with errno := e, reads := rs }) :=
        .setConn s fd _ _ _ _
      split
      case isTrue he =>
        subst he
        exact (ih _ hwf1).retry hf (by simp)
      case isFalse he => exact .failed _ hwf1 hf rfl ⟨e, he, List.mem_cons_self ..⟩
    | ready k =>
      unfold fill
      dsimp only
      generalize hgot : (s.conns fd).input.take (min (k + 1) bufSize) = got
      have hlen : got.length = min (min (k + 1) bufSize) (s.conns fd).input.length := by rw [← hgot, List.length_take]
      have hsplit : (s.conns fd).input = got ++ (s.conns fd).input.drop got.length := by
        rw [hlen, ← hgot, List.take_eq_take_min, List.take_append_drop]
      have hle : got.length ≤ bufSize := by omega
      have hbuf : (got.map (Byte.mk fd) ++ s.readBuf.drop got.length).length = bufSize := by
        rw [List.length_append, List.length_map, List.length_drop, hwf.size]
        omega
      split
      case isTrue hzero =>
        -- `read()` takes nothing only at the end of the stream
        have hnil : (s.conns fd).input = [] := by
          refine List.eq_nil_of_length_eq_zero ?_
          unfold bufSize at hlen
          omega
        refine .eof _ ⟨hbuf, ?_⟩ (.setConn s fd _ _ _ _) (by simp [Proc.setConn, hzero]) hnil (by simp [hnil]) ?_ ?_
        · have := hwf.inside
          show s.readPtr + ((got.length : Nat) : Int).toNat ≤ bufSize
          omega
        · simp
        · simp
      case isFalse hne =>
        have hcnt : (got.length : Int) = (got.map (Byte.mk fd)).length := by rw [List.length_map]
        refine .filled _ ⟨hbuf, by simpa using hle⟩ ⟨fun fd' hfd => by simp [hfd], rfl⟩ ?_ ?_ ?_ (by simp) (by simp) ?_
        · show (0 : Int) < (got.length : Nat)
          omega
        · rw [Proc.unread_filled rfl hcnt rfl]
          intro b hb
          obtain ⟨x, -, rfl⟩ := List.mem_map.mp hb
          rfl
        · have hval : (got.map (Byte.mk fd)).map Byte.val = got := by
            rw [List.map_map]
            exact List.map_id got
          rw [Proc.pending, Proc.unread_filled rfl hcnt rfl, hval]
          simpa using hsplit
        · simp only [Proc.setConn_conns, if_true, List.length_drop]
          omega

/-- The ways out of `my_read`: a byte, the end of the stream, an error, or still reading. -/
inductive MyReadEnd (fd : Nat) (s : Proc) : Outcome Proc (Int × Byte) → Prop
  | byte (b : Byte) (s' : Proc) : s'.Wf → Frame fd s s' → s.pending fd = b.val :: s'.pending fd →
      (s.unread = b :: s'.unread ∨ s.unread = [] ∧ b.fd = fd ∧ ∀ b' ∈ s'.unread, b'.fd = fd) →
      (s'.conns fd).reads <:+ (s.conns fd).reads →
      readies (s.conns fd).reads + (s'.conns fd).input.length ≤
        readies (s'.conns fd).reads + (s.conns fd).input.length →
      MyReadEnd fd s (.ret (1, b) s')
  | eof (s' : Proc) : s'.Wf → Frame fd s s' → s.pending fd = [] → s'.unread = [] → (s'.conns fd).input = [] →
      (s'.conns fd).reads <:+ (s.conns fd).reads → readies (s.conns fd).reads ≤ readies (s'.conns fd).reads + 1 →
      MyReadEnd fd s (.ret (0, {}) s')
  | failed (s' : Proc) : s'.Wf → Frame fd s s' → s.unread = [] → s'.unread = [] → HardRead (s.conns fd).reads →
      MyReadEnd fd s (.ret (-1, {}) s')
  | stalled (s' : Proc) : readies (s.conns fd).reads = 0 → MyReadEnd fd s (.stalled s')

theorem myRead_end (hwf : s.Wf) (fd : Nat) : MyReadEnd fd s (myRead fd s) := by
  unfold myRead
  rw [Prog.bind_run, Prog.read_run]
  dsimp only
  by_cases hcnt : s.readCnt ≤ 0
  · rw [if_pos hcnt, Prog.bind_run]
    have hunread := Proc.unread_nil hcnt
    have hfill : FillEnd fd (s.conns fd).reads s (refill fd s) := fill_end fd (s.conns fd).reads s hwf
    generalize refill fd s = r at hfill
    cases hfill with
    | filled s1 hwf1 hf hpos hfd hpend hrs hready hlt =>
      obtain ⟨b, s', htake, hhead, hwf', hconns, hlines⟩ := takeByte_eq hwf1 hpos
      dsimp only
      rw [if_pos rfl, htake]
      have hpend' : s.pending fd = b.val :: s'.pending fd := by
        rw [Proc.pending, hunread, List.map_nil, List.nil_append, hpend, Proc.pending, hhead, Proc.pending, hconns]
        rfl
      have hb : b ∈ s1.unread := hhead ▸ List.mem_cons_self ..
      have hrest (b' : Byte) (hb' : b' ∈ s'.unread) : b' ∈ s1.unread := hhead ▸ List.mem_cons_of_mem b hb'
      refine .byte b s' hwf' (hf.trans ⟨fun fd' _ => by rw [hconns], hlines⟩) hpend' ?_ (hconns ▸ hrs) ?_
      · exact .inr ⟨hunread, hfd b hb, fun b' hb' => hfd b' (hrest b' hb')⟩
      · rw [hconns]
        omega
    | eof s' hwf' hf hzero hnil hnil' hrs hready =>
      exact .eof s' hwf' hf (by rw [Proc.pending, hunread, hnil]; rfl) (Proc.unread_nil (Int.le_of_eq hzero)) hnil' hrs
        hready
    | failed s' hwf' hf hneg hhard => exact .failed s' hwf' hf hunread (Proc.unread_nil (by omega)) hhard
    | stalled s' hready => exact .stalled s' hready
  · rw [if_neg hcnt]
    obtain ⟨b, s', htake, hhead, hwf', hconns, hlines⟩ := takeByte_eq hwf (Int.not_le.mp hcnt)
    rw [htake]
    refine .byte b s' hwf' ⟨fun fd' _ => by rw [hconns], hlines⟩ ?_ (.inl hhead) ?_ ?_
    · rw [Proc.pending, hhead, Proc.pending, hconns]
      rfl
    · rw [hconns]
    · rw [hconns]

end

end CSocket.Wrap
