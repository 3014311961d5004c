import CSocket.Wrap.Readline
/-!
# The lines of one descriptor

Successive calls of `Readline` on one descriptor take its stream apart: what they
stored, what is left in the buffer and what was not read yet are the stream
(`Inv.whole`).
-/
namespace CSocket.Wrap

section
variable {s s' : Proc} {fd : Nat} {stored : List Byte}

/-! ## One call -/

/-- What a call took off the stream: a line, or as much of it as there was room or data
for. -/
structure Cut (fd left : Nat) (s s' : Proc) (new : List Byte) : Prop where
  wf : s'.Wf
  frame : Frame fd s s'
  pending : s.pending fd = new.map Byte.val ++ s'.pending fd
  room : new.length ≤ left
  newline : newline ∉ (new.map Byte.val).dropLast
  short : new.length < left → (new.map Byte.val).getLast? ≠ some Wrap.newline → s'.pending fd = []
  reads : (s'.conns fd).reads <:+ (s.conns fd).reads
  budget : readies (s.conns fd).reads + (s'.conns fd).input.length ≤
    readies (s'.conns fd).reads + (s.conns fd).input.length + 1

/-- Without hard errors a call returns, or it still waits for the last of the reads. -/
inductive LineEnd (fd left : Nat) (stored : List Byte) (s : Proc) : Outcome Proc (Int × List Byte) → Prop
  | ret (ret : Int) (new : List Byte) (s' : Proc) : Cut fd left s s' new →
      LineEnd fd left stored s (.ret (ret, stored ++ new) s')
  | stalled (s' : Proc) : readies (s.conns fd).reads ≤ (s.conns fd).input.length → LineEnd fd left stored s (.stalled s')

theorem Cut.nothing (hwf : s.Wf) : Cut fd 0 s s [] :=
  ⟨hwf, .refl fd s, rfl, Nat.le_refl _, List.not_mem_nil, fun h => absurd h (Nat.lt_irrefl 0), List.suffix_refl _,
    Nat.le_succ _⟩

theorem newline_cons {b : Byte} {new : List Byte} (hb : b.val ≠ newline)
    (h : newline ∉ (new.map Byte.val).dropLast) : newline ∉ ((b :: new).map Byte.val).dropLast := by
  cases new with
  | nil => exact List.not_mem_nil
  | cons b' new =>
    intro hm
    rcases List.mem_cons.mp hm with he | hm
    · exact hb he.symm
    · exact h hm

theorem readlineLoop_end (left : Nat) : ∀ (n : Nat) (stored : List Byte) (s : Proc), s.Wf →
    ¬ HardRead (s.conns fd).reads → LineEnd fd left stored s (readlineLoop fd left n stored s) := by
  induction left with
  | zero =>
    intro n stored s hwf _
    have h : LineEnd fd 0 stored s (.ret ((n : Int), stored ++ []) s) := .ret n [] s (.nothing hwf)
    rwa [List.append_nil] at h
  | succ left ih =>
    intro n stored s hwf hsoft
    rw [readlineLoop, Prog.bind_run]
    have hread := myRead_end hwf fd
    generalize myRead fd s = r at hread
    cases hread with
    | byte b s1 hwf1 hf hpend _ hrs hready =>
      dsimp only
      rw [if_pos rfl]
      split
      case isTrue hb =>
        -- the newline is stored and ends the line
        refine .ret _ [b] s1 ⟨hwf1, hf, hpend, Nat.le_add_left 1 left, List.not_mem_nil, fun _ hne => ?_, hrs, ?_⟩
        · exact absurd (congrArg some hb) hne
        · omega
      case isFalse hb =>
        have hsoft1 : ¬ HardRead (s1.conns fd).reads := fun h => hsoft (h.suffix hrs)
        have hloop := ih (n + 1) (stored ++ [b]) s1 hwf1 hsoft1
        generalize readlineLoop fd left (n + 1) (stored ++ [b]) s1 = r at hloop
        cases hloop with
        | stalled s' hle => exact .stalled s' (by omega)
        | ret ret new s' hcut =>
          rw [List.append_assoc]
          refine .ret ret (b :: new) s' ⟨hcut.wf, hf.trans hcut.frame, ?_, ?_, ?_, ?_, hcut.reads.trans hrs, ?_⟩
          · rw [hpend, hcut.pending]
            rfl
          · exact Nat.succ_le_succ hcut.room
          · exact newline_cons hb hcut.newline
          · intro hlt hlast
            refine hcut.short (Nat.lt_of_succ_lt_succ hlt) fun he => hlast ?_
            rw [List.map_cons, List.getLast?_cons, he]
            rfl
          · have := hcut.budget
            omega
    | eof s' hwf' hf hpend hnil hnil' hrs hready =>
      have h : LineEnd fd (left + 1) stored s (.ret ((n : Int) - 1, stored ++ []) s') := by
        have hpend' : s'.pending fd = [] := by rw [Proc.pending, hnil, hnil']; rfl
        refine .ret _ [] s' ⟨hwf', hf, hpend.trans hpend'.symm, Nat.zero_le _, List.not_mem_nil, fun _ _ => hpend', hrs, ?_⟩
        rw [hnil']
        simp only [List.length_nil]
        omega
      rwa [List.append_nil] at h
    | failed s' hwf' hf _ _ hhard => exact absurd hhard hsoft
    | stalled s' hready => exact .stalled s' (by omega)

theorem readline_end (hwf : s.Wf) (hsoft : ¬ HardRead (s.conns fd).reads) (maxlen : Nat) :
    LineEnd fd (maxlen - 1) [] s (readline fd maxlen s) := readlineLoop_end (maxlen - 1) 1 [] s hwf hsoft

/-! ## Successive calls -/

/-- Neither cut by `maxlen` nor ended by a newline. -/
def Line.Short (l : Line) : Prop := l.stored.length < l.maxlen - 1 ∧ l.bytes.getLast? ≠ some newline

/-- What the calls on a stream make of it. -/
structure Whole (stream : List UInt8) (lines : List Line) : Prop where
  room : ∀ l ∈ lines, l.stored.length ≤ l.maxlen - 1
  newline : ∀ l ∈ lines, newline ∉ l.bytes.dropLast
  /-- After a short line there is nothing. -/
  short : ∀ before l after, lines = before ++ l :: after → l.Short →
    (before ++ [l]).flatMap Line.bytes = stream ∧ ∀ l' ∈ after, l'.bytes = []
  all : (∃ l ∈ lines, l.bytes = []) → lines.flatMap Line.bytes = stream

structure Inv (fd : Nat) (stream : List UInt8) (s : Proc) : Prop where
  wf : s.Wf
  soft : ¬ HardRead (s.conns fd).reads
  whole : s.lines.flatMap Line.bytes ++ s.pending fd = stream
  line : ∀ l ∈ s.lines, 2 ≤ l.maxlen ∧ l.stored.length ≤ l.maxlen - 1 ∧ newline ∉ l.bytes.dropLast
  short : ∀ before l after, s.lines = before ++ l :: after → l.Short →
    (∀ l' ∈ after, l'.bytes = []) ∧ s.pending fd = []

theorem flatMap_nil {lines : List Line} (h : ∀ l ∈ lines, l.bytes = []) : lines.flatMap Line.bytes = [] :=
  List.flatMap_eq_nil_iff.mpr h

theorem Inv.result {stream : List UInt8} (h : Inv fd stream s) : Whole stream s.lines := by
  have hshort (before : List Line) (l : Line) (after : List Line) (he : s.lines = before ++ l :: after)
      (hl : l.Short) : (before ++ [l]).flatMap Line.bytes = stream ∧ ∀ l' ∈ after, l'.bytes = [] := by
    obtain ⟨hafter, hpend⟩ := h.short before l after he hl
    refine ⟨?_, hafter⟩
    have hwhole := h.whole
    rw [hpend, List.append_nil, he, ← List.singleton_append, ← List.append_assoc, List.flatMap_append,
      flatMap_nil hafter, List.append_nil] at hwhole
    exact hwhole
  refine ⟨fun l hl => (h.line l hl).2.1, fun l hl => (h.line l hl).2.2, hshort, ?_⟩
  rintro ⟨l, hl, hnil⟩
  obtain ⟨before, after, he⟩ := List.append_of_mem hl
  have hl2 := (h.line l hl).1
  have hlen : l.stored = [] := List.map_eq_nil_iff.mp hnil
  have hl : l.Short := ⟨by rw [hlen]; exact Nat.sub_pos_of_lt hl2, by rw [hnil]; exact fun he => by cases he⟩
  have hpend := (h.short before l after he hl).2
  have hwhole := h.whole
  rwa [hpend, List.append_nil] at hwhole

/-- The call adds its line. -/
theorem Inv.call {stream : List UInt8} (h : Inv fd stream s) {maxlen : Nat} (h2 : 2 ≤ maxlen) {ret : Int}
    {new : List Byte} (hcut : Cut fd (maxlen - 1) s s' new) :
    Inv fd stream { s' with lines := s'.lines ++ [⟨fd, maxlen, ret, new⟩] } := by
  have hlines : s'.lines = s.lines := hcut.frame.lines
  refine ⟨⟨hcut.wf.size, hcut.wf.inside⟩, fun hhard => h.soft (hhard.suffix hcut.reads), ?_, ?_, ?_⟩
  · show (s'.lines ++ [_]).flatMap Line.bytes ++ s'.pending fd = stream
    rw [hlines, List.flatMap_append, List.append_assoc, ← h.whole, hcut.pending, List.flatMap_singleton]
    rfl
  · show ∀ l ∈ s'.lines ++ [_], _
    rw [hlines]
    intro l hl
    rcases List.mem_append.mp hl with hl | hl
    · exact h.line l hl
    · obtain rfl := List.mem_singleton.mp hl
      exact ⟨h2, hcut.room, hcut.newline⟩
  · show ∀ before l after, s'.lines ++ [_] = before ++ l :: after → _
    rw [hlines]
    intro before l after he hl
    rcases List.eq_nil_or_concat after with rfl | ⟨after, y, rfl⟩
    · obtain ⟨-, hlast⟩ := List.append_inj' he rfl
      obtain rfl := (List.cons.inj hlast).1
      exact ⟨fun l' hl' => absurd hl' List.not_mem_nil, hcut.short hl.1 hl.2⟩
    · rw [List.concat_eq_append] at he ⊢
      rw [← List.cons_append, ← List.append_assoc] at he
      obtain ⟨hold, hlast⟩ := List.append_inj' he rfl
      obtain ⟨hafter, hpend⟩ := h.short before l after hold hl
      -- the stream had ended before the call
      have hnone := hcut.pending
      rw [hpend] at hnone
      obtain ⟨hnew, hpend'⟩ := List.append_eq_nil_iff.mp hnone.symm
      refine ⟨fun l' hl' => ?_, hpend'⟩
      rcases List.mem_append.mp hl' with hl' | hl'
      · exact hafter l' hl'
      · obtain rfl := List.mem_singleton.mp hl'
        rw [← (List.cons.inj hlast).1]
        exact hnew

/-- One call, if it returns. -/
theorem readlineStep_cut (hwf : s.Wf) (hsoft : ¬ HardRead (s.conns fd).reads) {maxlen : Nat}
    (hs : readlineStep s (fd, maxlen) = some s') :
    ∃ ret new s1, Cut fd (maxlen - 1) s s1 new ∧ s' = { s1 with lines := s1.lines ++ [⟨fd, maxlen, ret, new⟩] } := by
  have hend := readline_end hwf hsoft maxlen
  unfold readlineStep at hs
  dsimp only at hs
  generalize readline fd maxlen s = r at hend hs
  cases hend with
  | stalled => cases hs
  | ret ret new s1 hcut =>
    cases hs
    exact ⟨ret, new, s1, hcut, rfl⟩

/-- While there are reads to come, a call returns. -/
theorem readlineStep_some (hwf : s.Wf) (hsoft : ¬ HardRead (s.conns fd).reads) (maxlen : Nat)
    (hready : (s.conns fd).input.length < readies (s.conns fd).reads) : ∃ s', readlineStep s (fd, maxlen) = some s' := by
  have hend := readline_end hwf hsoft maxlen
  unfold readlineStep
  dsimp only
  generalize readline fd maxlen s = r at hend
  cases hend with
  | stalled s1 hle => omega
  | ret ret new s1 hcut => exact ⟨_, rfl⟩

theorem run_inv {stream : List UInt8} {maxlens : List Nat} (h2 : ∀ m ∈ maxlens, 2 ≤ m) (h : Inv fd stream s)
    (hrun : Lts.run readlineStep (maxlens.map fun m => (fd, m)) s = some s') :
    Inv fd stream s' ∧ s'.lines.map (fun l => (l.fd, l.maxlen)) =
      s.lines.map (fun l => (l.fd, l.maxlen)) ++ maxlens.map fun m => (fd, m) := by
  induction maxlens generalizing s with
  | nil =>
    cases hrun
    exact ⟨h, (List.append_nil _).symm⟩
  | cons m maxlens ih =>
    obtain ⟨s1, hs1, hrun⟩ := Option.bind_eq_some_iff.mp hrun
    obtain ⟨ret, new, s1, hcut, rfl⟩ := readlineStep_cut h.wf h.soft hs1
    obtain ⟨hinv, hlines⟩ := ih (fun m' hm' => h2 m' (List.mem_cons_of_mem m hm'))
      (h.call (h2 m (List.mem_cons_self ..)) hcut) hrun
    refine ⟨hinv, hlines.trans ?_⟩
    have hold : s1.lines = s.lines := hcut.frame.lines
    show (s1.lines ++ [_]).map _ ++ _ = _
    rw [hold, List.map_append, List.append_assoc]
    rfl

theorem run_some {stream : List UInt8} {maxlens : List Nat} (h2 : ∀ m ∈ maxlens, 2 ≤ m) (h : Inv fd stream s)
    (hready : (s.conns fd).input.length + maxlens.length ≤ readies (s.conns fd).reads) :
    ∃ s', Lts.run readlineStep (maxlens.map fun m => (fd, m)) s = some s' := by
  induction maxlens generalizing s with
  | nil => exact ⟨s, rfl⟩
  | cons m maxlens ih =>
    rw [List.length_cons] at hready
    obtain ⟨s1, hs1⟩ := readlineStep_some h.wf h.soft m (by omega)
    obtain ⟨ret, new, s2, hcut, rfl⟩ := readlineStep_cut h.wf h.soft hs1
    have hbudget := hcut.budget
    obtain ⟨s', hrun⟩ := ih (fun m' hm' => h2 m' (List.mem_cons_of_mem m hm'))
      (h.call (h2 m (List.mem_cons_self ..)) hcut) (by dsimp only; omega)
    exact ⟨s', Option.bind_eq_some_iff.mpr ⟨_, hs1, hrun⟩⟩

end

/-- Successive calls on one descriptor whose reads fail with `EINTR` only lose and
duplicate nothing; and with enough reads to come, all of them return. -/
theorem readline_whole {conns : Nat → Conn} {fd : Nat} {maxlens : List Nat} (h2 : ∀ m ∈ maxlens, 2 ≤ m)
    (hsoft : ∀ e, ReadOutcome.error e ∈ (conns fd).reads → e = EINTR) :
    ((conns fd).input.length + maxlens.length ≤ readies (conns fd).reads →
      ∃ s, Lts.run readlineStep (maxlens.map fun m => (fd, m)) { conns } = some s) ∧
    ∀ s, Lts.run readlineStep (maxlens.map fun m => (fd, m)) { conns } = some s →
      s.lines.map (fun l => (l.fd, l.maxlen)) = maxlens.map (fun m => (fd, m)) ∧ Whole (conns fd).input s.lines := by
  have hinv : Inv fd (conns fd).input { conns } := by
    refine ⟨⟨List.length_replicate .., Nat.zero_le _⟩, ?_, rfl, fun l hl => absurd hl List.not_mem_nil, ?_⟩
    · rintro ⟨e, hne, he⟩
      exact hne (hsoft e he)
    · intro before l after he
      exact absurd he (by simp)
  refine ⟨run_some h2 hinv, fun s hrun => ?_⟩
  obtain ⟨h, hlines⟩ := run_inv h2 hinv hrun
  exact ⟨hlines, h.result⟩

/-- `hi\n!` in two blocks, after an interrupted read. -/
def twoBlocks : Conn := { input := [104, 105, 10, 33], reads := [.ready 1, .error EINTR, .ready 7, .ready 7] }

theorem readline_whole_two : ∃ s, Lts.run readlineStep [(5, 80), (5, 2), (5, 2)] { conns := fun _ => twoBlocks } = some s ∧
    s.lines.length = 3 ∧ s.lines.flatMap Line.bytes = [104, 105, 10, 33] := by
  have hsome : (Lts.run readlineStep [(5, 80), (5, 2), (5, 2)] { conns := fun _ => twoBlocks }).any
      (fun s => s.lines.map Line.bytes = [[104, 105, 10], [33], []]) = true := by decide +kernel
  obtain ⟨s, hrun, hlines⟩ := (Option.any_eq_true _ _).mp hsome
  have hlines : s.lines.map Line.bytes = [[104, 105, 10], [33], []] := of_decide_eq_true hlines
  have hsoft : ∀ e, ReadOutcome.error e ∈ twoBlocks.reads → e = EINTR := by
    intro e he
    simpa [twoBlocks] using he
  obtain ⟨-, hall⟩ := @readline_whole (fun _ => twoBlocks) 5 [80, 2, 2] (by decide) hsoft
  obtain ⟨-, hwhole⟩ := hall s hrun
  refine ⟨s, hrun, by simpa using congrArg List.length hlines, hwhole.all ?_⟩
  have hnil : [] ∈ s.lines.map Line.bytes := by simp [hlines]
  exact List.mem_map.mp hnil

end CSocket.Wrap
