import CSocket.Lib.Lines
import CSocket.TcpSocket.Send
import CSocket.Wrap.Count
import CSocket.Wrap.Lines
/-!
# Three loops that write exactly, and lines over a connection

`Writen` of `wrap.c` beside `writen` of `socketutil.c` and `TcpSocket::writen`: it takes a
`write` of no bytes for an error, and the other two try again (`writens_agree`). Lines
that go out with `Writen` come in with `Readline`, whole and in their order
(`lines_delivered`).
-/
namespace CSocket.Wrap

/-! ## The code -/

/-- `Writen`'s loop: `nleft` of the `n` bytes to go, `ptr` the rest of the buffer. -/
def writenLoop (n : Nat) : List WriteOutcome → Nat → List UInt8 → Conn → Outcome Conn Int
  | ws, nleft, ptr, c =>
    if nleft = 0 then .ret (toSsize n) { c with writes := ws }
    else match ws with
      | [] => .stalled { c with writes := [] }
      | .error e :: ws =>
        -- `nwritten = 0`, and the round goes on
        if e = EINTR then writenLoop n ws (nleft - 0) ptr { c with errno := e }
        else .ret (-1) { c with errno := e, writes := ws }
      | .accepts k :: ws =>
        let nwritten := min k nleft
        if nwritten = 0 then .ret (-1) { c with writes := ws }
        else writenLoop n ws (nleft - nwritten) (ptr.drop nwritten) { c with output := c.output ++ ptr.take nwritten }

def writen (buf : List UInt8) (n : Nat) : Prog Conn Int := fun c => writenLoop n c.writes n buf c

/-! ## The three loops -/

/-- A `write` takes no bytes while some of the `n` are left. -/
def meetsZero : Nat → List WriteOutcome → Bool
  | 0, _ => false
  | _ + 1, [] => false
  | n + 1, .error e :: ws => e = EINTR && meetsZero (n + 1) ws
  | n + 1, .accepts k :: ws => k = 0 || meetsZero (n + 1 - k) ws

@[simp] theorem meetsZero_zero (ws : List WriteOutcome) : meetsZero 0 ws = false := by
  cases ws <;> rfl

theorem writenLoop_writes (n : Nat) (ws : List WriteOutcome) : ∀ (nleft : Nat) (bufp : List UInt8) (c : Conn)
    (ret : Int) (c' : Conn), CSocket.writenLoop n ws nleft bufp c = .ret ret c' → c'.writes.length ≤ ws.length := by
  induction ws with
  | nil =>
    intro nleft bufp c ret c' h
    unfold CSocket.writenLoop at h
    split at h
    · injection h with _ hc
      rw [← hc]
    · cases h
  | cons o ws ih =>
    intro nleft bufp c ret c' h
    unfold CSocket.writenLoop at h
    split at h
    · injection h with _ hc
      rw [← hc]
    · cases o with
      | error e =>
        dsimp only at h
        split at h
        · exact Nat.le_succ_of_le (ih _ _ _ _ _ h)
        · injection h with _ hc
          rw [← hc]
          exact Nat.le_succ _
      | accepts k =>
        dsimp only at h
        split at h
        · exact Nat.le_succ_of_le (ih _ _ _ _ _ h)
        · exact Nat.le_succ_of_le (ih _ _ _ _ _ h)

/-- A round that is not the last one makes a `write`. -/
theorem writenLoop_shorter {n nleft : Nat} {ws : List WriteOutcome} {bufp : List UInt8} {c c' : Conn} {ret : Int}
    (h0 : nleft ≠ 0) (h : CSocket.writenLoop n ws nleft bufp c = .ret ret c') : c'.writes.length < ws.length := by
  unfold CSocket.writenLoop at h
  rw [if_neg h0] at h
  cases ws with
  | nil => cases h
  | cons o ws =>
    refine Nat.lt_succ_of_le ?_
    cases o with
    | error e =>
      dsimp only at h
      split at h
      · exact writenLoop_writes n ws _ _ _ ret c' h
      · cases h
        exact Nat.le_refl _
    | accepts k =>
      dsimp only at h
      split at h
      · exact writenLoop_writes n ws _ _ _ ret c' h
      · exact writenLoop_writes n ws _ _ _ ret c' h

theorem writenLoop_eq (n : Nat) (ws : List WriteOutcome) : ∀ (nleft : Nat) (bufp : List UInt8) (c : Conn),
    writenLoop n ws nleft bufp c = CSocket.writenLoop n ws nleft bufp c ↔ meetsZero nleft ws = false := by
  induction ws with
  | nil =>
    intro nleft bufp c
    unfold writenLoop CSocket.writenLoop
    cases nleft <;> simp [meetsZero]
  | cons o ws ih =>
    intro nleft bufp c
    unfold writenLoop CSocket.writenLoop
    cases nleft with
    | zero => simp
    | succ nleft =>
      rw [if_neg (Nat.succ_ne_zero nleft), if_neg (Nat.succ_ne_zero nleft)]
      cases o with
      | error e =>
        dsimp only
        by_cases he : e = EINTR
        · rw [if_pos he, if_pos he, meetsZero, decide_eq_true he, Bool.true_and]
          exact ih (nleft + 1) bufp { c with errno := e }
        · rw [if_neg he, if_neg he, meetsZero, decide_eq_false he, Bool.false_and]
          exact iff_of_true rfl rfl
      | accepts k =>
        dsimp only
        by_cases hz : min k (nleft + 1) = 0
        · have hk : k = 0 := by omega
          rw [if_pos hz, if_pos hz, meetsZero, decide_eq_true hk, Bool.true_or]
          refine iff_of_false (fun he => ?_) Bool.noConfusion
          have hlt := writenLoop_shorter (Nat.succ_ne_zero nleft) he.symm
          exact Nat.lt_irrefl _ hlt
        · have hk : k ≠ 0 := by omega
          rw [if_neg hz, if_neg hz, meetsZero, decide_eq_false hk, Bool.false_or, ih]
          rw [show nleft + 1 - min k (nleft + 1) = nleft + 1 - k by omega]

/-- Where `Writen` meets such a `write`, it gives up. -/
theorem writenLoop_zero (n : Nat) (ws : List WriteOutcome) : ∀ (nleft : Nat) (ptr : List UInt8) (c : Conn),
    meetsZero nleft ws = true → (writenLoop n ws nleft ptr c).val = some (-1) := by
  induction ws with
  | nil =>
    intro nleft ptr c h
    cases nleft <;> cases h
  | cons o ws ih =>
    intro nleft ptr c h
    unfold writenLoop
    cases nleft with
    | zero => simp at h
    | succ nleft =>
      rw [if_neg (Nat.succ_ne_zero nleft)]
      cases o with
      | error e =>
        rw [meetsZero, Bool.and_eq_true, decide_eq_true_eq] at h
        dsimp only
        rw [if_pos h.1]
        exact ih (nleft + 1) ptr _ h.2
      | accepts k =>
        rw [meetsZero, Bool.or_eq_true, decide_eq_true_eq] at h
        dsimp only
        split
        case isTrue => rfl
        case isFalse hne =>
          have hmore := h.resolve_left (by omega)
          rw [show nleft + 1 - k = nleft + 1 - min k (nleft + 1) by omega] at hmore
          exact ih _ _ _ hmore

/-- The result is the count or -1, and so it is as an `int`. -/
theorem narrowInt_writen (buf : List UInt8) {n : Nat} (hn : n < 2 ^ 31) (c : Conn) :
    TcpSocket.narrowInt (CSocket.writen buf n c) = CSocket.writen buf n c := by
  have hend := writen_end buf n c
  generalize CSocket.writen buf n c = r at hend ⊢
  cases hend with
  | sent ws e =>
    rw [TcpSocket.narrowInt, toInt_toSsize (by omega), toSsize_eq (by omega) (by omega)]
  | failed k ws e => rfl
  | stalled k e => rfl

/-- For a count that is an `int`, `TcpSocket::writen` does what `writen` does, and so does
`Writen` if and only if no `write` takes no bytes while there are some left. Then it
returns -1, where the other two go on. -/
theorem writens_agree (buf : List UInt8) {n : Nat} (hn : n < 2 ^ 31) (c : Conn) :
    TcpSocket.writen buf n c = CSocket.writen buf n c ∧
    (writen buf n c = CSocket.writen buf n c ↔ meetsZero n c.writes = false) ∧
    (meetsZero n c.writes = true → (writen buf n c).val = some (-1)) := by
  have hint : toInt n = n := toInt_eq (by omega) (by omega)
  have hsize : toSize n = n := by rw [toSize_eq (by omega) (by omega), Int.toNat_natCast]
  refine ⟨?_, writenLoop_eq n c.writes n buf c, writenLoop_zero n c.writes n buf c⟩
  rw [TcpSocket.writen, TcpSocket.writenLoop_eq hint, hsize]
  exact narrowInt_writen buf hn c

/-- A count of at most 5, and a `write` of no bytes behind it. -/
theorem writens_agree_five : writen [104, 101, 108, 108, 111] 5 { writes := [.accepts 2, .error EINTR, .accepts 9, .accepts 0] } =
    CSocket.writen [104, 101, 108, 108, 111] 5 { writes := [.accepts 2, .error EINTR, .accepts 9, .accepts 0] } :=
  (writens_agree _ (by decide) _).2.1.mpr (by decide)

/-! ## Writing lines -/

/-- The lines, one call after the other until one fails; and those that went out. -/
def writeLines : List (List UInt8) → Conn → List (List UInt8) × Conn
  | [], c => ([], c)
  | t :: ts, c => match writen (t ++ [newline]) (t.length + 1) c with
    | .stalled c => ([], c)
    | .ret n c => if n = -1 then ([], c) else (t :: (writeLines ts c).1, (writeLines ts c).2)

theorem writenLoop_end (n : Nat) (ws : List WriteOutcome) : ∀ (nleft : Nat) (ptr : List UInt8) (c : Conn),
    WritenEnd n nleft ptr c (writenLoop n ws nleft ptr c) := by
  induction ws with
  | nil =>
    intro nleft ptr c
    unfold writenLoop
    rcases Nat.eq_zero_or_pos nleft with rfl | h
    · rw [if_pos rfl]
      exact .done []
    · rw [if_neg (Nat.pos_iff_ne_zero.mp h)]
      exact .waiting h
  | cons o ws ih =>
    intro nleft ptr c
    unfold writenLoop
    rcases Nat.eq_zero_or_pos nleft with rfl | h
    · rw [if_pos rfl]
      exact .done (o :: ws)
    rw [if_neg (Nat.pos_iff_ne_zero.mp h)]
    cases o with
    | error e =>
      dsimp only
      by_cases he : e = EINTR
      · rw [if_pos he]
        exact (ih nleft ptr _).retry e
      · rw [if_neg he]
        exact .error ws e h
    | accepts k =>
      dsimp only
      split
      · exact .error ws c.errno h
      · exact (ih _ _ _).more (Nat.min_le_right _ _)

theorem writeLines_prefix (texts : List (List UInt8)) : ∀ c : Conn, (writeLines texts c).1 <+: texts := by
  induction texts with
  | nil => exact fun c => List.prefix_rfl
  | cons t ts ih =>
    intro c
    unfold writeLines
    split
    · exact List.nil_prefix
    · split
      · exact List.nil_prefix
      · exact List.cons_prefix_cons.mpr ⟨rfl, ih _⟩

/-- What goes out are the lines of the calls that succeeded, and part of one more. -/
theorem writeLines_stream {max : Nat} (hmax : max < PTRDIFF_MAX) {texts : List (List UInt8)}
    (htexts : ∀ t ∈ texts, newline ∉ t ∧ t.length ≤ max) (c : Conn) : ∃ tail s,
    (writeLines texts c).2.output = c.output ++ s ∧ Lines.Stream newline max (writeLines texts c).1 tail s := by
  induction texts generalizing c with
  | nil => exact ⟨[], [], (List.append_nil _).symm, .rest List.not_mem_nil (Nat.zero_le max)⟩
  | cons t ts ih =>
    obtain ⟨hnot, hlen⟩ := htexts t List.mem_cons_self
    have hcut {k : Nat} (hk : k < t.length + 1) :
        Lines.Stream newline max [] ((t ++ [newline]).take k) ((t ++ [newline]).take k) := by
      rw [List.take_append_of_le_length (Nat.le_of_lt_succ hk)]
      exact .rest (fun hmem => hnot (List.mem_of_mem_take hmem)) ((List.length_take_le' k t).trans hlen)
    have hend : WritenEnd (t.length + 1) (t.length + 1) (t ++ [newline]) c (writen (t ++ [newline]) (t.length + 1) c) :=
      writenLoop_end _ _ _ _ _
    unfold writeLines
    generalize writen (t ++ [newline]) (t.length + 1) c = r at hend ⊢
    cases hend with
    | sent ws e =>
      have hret : toSsize ((t.length + 1 : Nat) : Int) ≠ -1 := by
        unfold PTRDIFF_MAX at hmax
        rw [toSsize_eq (by omega) (by omega)]
        omega
      obtain ⟨tail, s, hout, hs⟩ := ih (fun t' ht' => htexts t' (List.mem_cons_of_mem _ ht')) (c.gave (t ++ [newline]) (t.length + 1) ws e)
      dsimp only
      rw [if_neg hret]
      refine ⟨tail, t ++ newline :: s, ?_, .line hnot hlen hs⟩
      rw [hout, Conn.gave, List.take_of_length_le (by simp)]
      simp
    | failed k ws e hk =>
      dsimp only
      rw [if_pos rfl]
      exact ⟨_, _, rfl, hcut hk⟩
    | stalled k e hk => exact ⟨_, _, rfl, hcut hk⟩

/-! ## Reading them -/

section
variable {s s' : Proc} {fd maxlen max : Nat}

/-- Without hard errors no call fails. -/
theorem readlineLoop_nonneg (fd left : Nat) : ∀ (n : Nat) (stored : List Byte) (s : Proc), s.Wf →
    ¬ HardRead (s.conns fd).reads → ∀ ret out s', readlineLoop fd left (n + 1) stored s = .ret (ret, out) s' → 0 ≤ ret := by
  induction left with
  | zero =>
    intro n stored s _ _ ret out s' h
    cases h
    exact Int.natCast_nonneg _
  | succ left ih =>
    intro n stored s hwf hsoft ret out s' h
    rw [readlineLoop, Prog.bind_run] at h
    have hread := myRead_end hwf fd
    generalize myRead fd s = r at hread h
    cases hread with
    | byte b s1 hwf1 _ _ _ hrs _ =>
      dsimp only at h
      rw [if_pos rfl] at h
      split at h
      · cases h
        exact Int.natCast_nonneg _
      · exact ih (n + 1) _ s1 hwf1 (fun hhard => hsoft (hhard.suffix hrs)) ret out s' h
    | eof s1 =>
      cases h
      omega
    | failed s1 _ _ _ _ hhard => exact absurd hhard hsoft
    | stalled s1 => cases h

/-- One call, if it returns, and what it returns where the line fits. -/
theorem readlineStep_counted (hwf : s.Wf) (hsoft : ¬ HardRead (s.conns fd).reads)
    (hs : readlineStep s (fd, maxlen) = some s') : ∃ ret new s1, Cut fd (maxlen - 1) s s1 new ∧
      s' = { s1 with lines := s1.lines ++ [⟨fd, maxlen, ret, new⟩] } ∧
      (¬ Overlong (maxlen - 1) (s.pending fd) → ret = new.length) := by
  have hend := readline_end hwf hsoft maxlen
  have hcount := readline_count hwf fd maxlen
  have hnonneg := readlineLoop_nonneg fd (maxlen - 1) 0 [] s hwf hsoft
  unfold readlineStep at hs
  dsimp only at hs
  rw [show readlineLoop fd (maxlen - 1) (0 + 1) [] s = readline fd maxlen s from rfl] at hnonneg
  generalize readline fd maxlen s = r at hend hcount hnonneg hs
  cases hend with
  | stalled => cases hs
  | ret ret new s1 hcut =>
    cases hs
    refine ⟨ret, new, s1, hcut, rfl, fun hnot => ?_⟩
    rw [List.nil_append] at hcount
    cases hcount with
    | counted => rfl
    | full _ _ _ hlong => exact absurd hlong hnot
    | failed => exact absurd (hnonneg _ _ _ rfl) (by decide)

theorem cut_lines {new : List Byte} {left : Nat} (h : Cut fd left s s' new) :
    Lines.Cut newline left (s.pending fd) (new.map Byte.val) (s'.pending fd) :=
  ⟨h.pending, by rw [List.length_map]; exact h.room, h.newline, fun hlt => h.short (by rwa [List.length_map] at hlt)⟩

theorem not_overlong {ts : List (List UInt8)} {tail bytes : List UInt8} (h : Lines.Stream newline max ts tail bytes)
    {room : Nat} (hroom : max < room) : ¬ Overlong room bytes := by
  rintro ⟨hlen, hnot⟩
  cases h with
  | rest _ hle => omega
  | @line t _ _ _ _ hle _ =>
    obtain ⟨k, hk⟩ : ∃ k, room = t.length + (k + 1) := ⟨room - t.length - 1, by omega⟩
    rw [hk, List.take_length_add_append, List.take_succ_cons] at hnot
    exact hnot (List.mem_append_right _ List.mem_cons_self)

theorem run_cuts {maxlens : List Nat} (hroom : ∀ m ∈ maxlens, max + 2 ≤ m) (hwf : s.Wf)
    (hsoft : ¬ HardRead (s.conns fd).reads) (hstream : ∃ ts tail, Lines.Stream newline max ts tail (s.pending fd))
    (hrun : Lts.run readlineStep (maxlens.map fun m => (fd, m)) s = some s') : ∃ new,
    s'.lines = s.lines ++ new ∧
    Lines.Cuts newline (maxlens.map (· - 1)) (s.pending fd) (new.map Line.bytes) (s'.pending fd) ∧
    ∀ l ∈ new, l.ret = l.stored.length := by
  induction maxlens generalizing s with
  | nil =>
    cases hrun
    exact ⟨[], (List.append_nil _).symm, .done, fun l hl => absurd hl List.not_mem_nil⟩
  | cons m maxlens ih =>
    obtain ⟨s1, hs1, hrun⟩ := Option.bind_eq_some_iff.mp hrun
    obtain ⟨ts, tail, hs⟩ := hstream
    have hfit : max < m - 1 := by
      have := hroom m List.mem_cons_self
      omega
    obtain ⟨ret, new, s1, hcut, rfl, hret⟩ := readlineStep_counted hwf hsoft hs1
    have hcut' := cut_lines hcut
    let s2 : Proc := { s1 with lines := s1.lines ++ [⟨fd, m, ret, new⟩] }
    have hwf2 : s2.Wf := ⟨hcut.wf.size, hcut.wf.inside⟩
    have hsoft2 : ¬ HardRead (s2.conns fd).reads := fun hhard => hsoft (hhard.suffix hcut.reads)
    obtain ⟨new', hlines, hcuts, hcounts⟩ := ih (fun m' hm' => hroom m' (List.mem_cons_of_mem m hm')) hwf2 hsoft2
      (hcut'.stream hfit hs) hrun
    refine ⟨⟨fd, m, ret, new⟩ :: new', ?_, .cut hcut' hcuts, fun l hl => ?_⟩
    · rw [hlines]
      show s1.lines ++ [⟨fd, m, ret, new⟩] ++ new' = _
      rw [hcut.frame.lines, List.append_assoc]
      rfl
    · rcases List.mem_cons.mp hl with rfl | hl
      · exact hret (not_overlong hs hfit)
      · exact hcounts l hl

/-- Lines go out with `Writen`, until a call fails or waits for ever, and as much of that as
has arrived is taken apart with `Readline`, each call with room for the longest line: the
calls get the lines, whole, one by one and in their order, then what is left of one that
was cut short, then nothing. Each returns the length of what it stored. -/
theorem lines_delivered {conns : Nat → Conn} {texts : List (List UInt8)} {maxlens : List Nat} {c : Conn}
    (hmax : max < PTRDIFF_MAX) (htexts : ∀ t ∈ texts, newline ∉ t ∧ t.length ≤ max) (hroom : ∀ m ∈ maxlens, max + 2 ≤ m)
    (hnew : c.output = []) (hwire : (conns fd).input <+: (writeLines texts c).2.output)
    (hsoft : ∀ e, ReadOutcome.error e ∈ (conns fd).reads → e = EINTR)
    (hrun : Lts.run readlineStep (maxlens.map fun m => (fd, m)) { conns } = some s) : ∃ ts tail,
    ts <+: (writeLines texts c).1 ∧ (writeLines texts c).1 <+: texts ∧ newline ∉ tail ∧
    ts.length = (conns fd).input.count newline ∧
    s.lines.map Line.bytes =
      (ts.map (· ++ [newline]) ++ tail :: List.replicate maxlens.length []).take maxlens.length ∧
    ∀ l ∈ s.lines, l.ret = l.stored.length := by
  obtain ⟨tail, out, hout, hstream⟩ := writeLines_stream hmax htexts c
  rw [hout, hnew, List.nil_append] at hwire
  obtain ⟨ts, tail', hts, hinput⟩ := hstream.of_prefix hwire
  have hhard : ¬ HardRead (conns fd).reads := by
    rintro ⟨e, hne, he⟩
    exact hne (hsoft e he)
  obtain ⟨new, hlines, hcuts, hcounts⟩ := run_cuts hroom (wf_start conns) hhard ⟨ts, tail', hinput⟩ hrun
  obtain rfl : s.lines = new := hlines
  have hfit : ∀ room ∈ maxlens.map (· - 1), max < room := by
    intro room hmem
    obtain ⟨m, hm, rfl⟩ := List.mem_map.mp hmem
    have := hroom m hm
    omega
  have hpieces := hcuts.pieces hfit hinput maxlens.length (by rw [List.length_map])
  rw [List.length_map] at hpieces
  exact ⟨ts, tail', hts, writeLines_prefix texts c, hinput.tail_not_mem, hinput.count.symm, hpieces, hcounts⟩

end

/-- `hi` and `ho` go out, and a byte of the next line; the reader makes four calls. -/
def threeLines : List (List UInt8) × Conn :=
  ([[104, 105], [104, 111], [98, 121, 101]], { writes := [.accepts 2, .accepts 9, .error EINTR, .accepts 3, .accepts 1] })

def lineReader : Conn :=
  { input := [104, 105, 10, 104, 111, 10, 98], reads := [.ready 3, .error EINTR, .ready 9, .ready 9, .ready 9] }

theorem lines_delivered_three : ∃ s ts tail,
    Lts.run readlineStep ([80, 80, 80, 80].map fun m => (5, m)) { conns := fun _ => lineReader } = some s ∧
    ts <+: [[104, 105], [104, 111]] ∧ ts.length = 2 ∧
    s.lines.map Line.bytes = (ts.map (· ++ [newline]) ++ tail :: List.replicate 4 []).take 4 ∧
    ∀ l ∈ s.lines, l.ret = l.stored.length := by
  have hsome : (Lts.run readlineStep ([80, 80, 80, 80].map fun m => (5, m)) { conns := fun _ => lineReader }).isSome = true := by
    decide +kernel
  obtain ⟨s, hrun⟩ := Option.isSome_iff_exists.mp hsome
  have hsoft : ∀ e, ReadOutcome.error e ∈ lineReader.reads → e = EINTR := by
    intro e he
    simpa [lineReader] using he
  obtain ⟨ts, tail, hts, -, -, hcount, hbytes, hrets⟩ := @lines_delivered s 5 3 (fun _ => lineReader)
    threeLines.1 [80, 80, 80, 80] threeLines.2 (by decide) (by decide) (by decide) rfl (by decide +kernel) hsoft hrun
  have hsent : (writeLines threeLines.1 threeLines.2).1 = [[104, 105], [104, 111]] := by decide +kernel
  exact ⟨s, ts, tail, hrun, hsent ▸ hts, hcount.trans (by decide), hbytes, hrets⟩

end CSocket.Wrap
