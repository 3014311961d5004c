import CSocket.Wrap.Readline
import CSocket.Lib.Prog
/-!
# Lines of several descriptors

All descriptors share the buffer of `my_read`. The lines of one are its own as long as
no call finds bytes of another there (`Free`); the first call that does stores them.

`Agree` relates the run to a run of the calls on one descriptor alone.
-/
namespace CSocket.Wrap

/-! ## The property and its condition -/

/-- Every line is of its own descriptor, and the lines of a descriptor are those of its
calls alone. -/
structure Separate (conns : Nat → Conn) (calls : List (Nat × Nat)) (s : Proc) : Prop where
  own : ∀ l ∈ s.lines, ∀ b ∈ l.stored, b.fd = l.fd
  alone : ∀ fd, ∃ t, Lts.run readlineStep (calls.filter fun c => c.1 = fd) { conns } = some t ∧
    t.lines = s.lines.filter fun l => l.fd = fd

/-- A call that has room finds no bytes of another descriptor. -/
def Free (s : Proc) (call : Nat × Nat) : Prop := 2 ≤ call.2 → ∀ b ∈ s.unread, b.fd = call.1

instance (s : Proc) (call : Nat × Nat) : Decidable (Free s call) :=
  inferInstanceAs (Decidable (2 ≤ call.2 → ∀ b ∈ s.unread, b.fd = call.1))

section
variable {s s' t : Proc} {fd : Nat}

/-! ## One call -/

/-- What a call that returned leaves behind. -/
structure Returned (fd : Nat) (stored : List Byte) (s s' : Proc) (out : List Byte) : Prop where
  wf : s'.Wf
  frame : Frame fd s s'
  kept : ∀ b ∈ stored, b ∈ out
  own : (∀ b ∈ s.unread, b.fd = fd) → (∀ b ∈ s'.unread, b.fd = fd) ∧ ∀ b ∈ out, b ∈ stored ∨ b.fd = fd

theorem Returned.stop (stored : List Byte) (hwf : s'.Wf) (hf : Frame fd s s') (hnil : s'.unread = []) :
    Returned fd stored s s' stored := by
  refine ⟨hwf, hf, fun b hb => hb, fun _ => ⟨?_, fun b hb => .inl hb⟩⟩
  rw [hnil]
  exact fun b hb => absurd hb List.not_mem_nil

theorem readlineLoop_returned (left : Nat) : ∀ (n : Nat) (stored : List Byte) (s : Proc), s.Wf →
    ∀ ret out s', readlineLoop fd left n stored s = .ret (ret, out) s' → Returned fd stored s s' out := by
  induction left with
  | zero =>
    intro n stored s hwf ret out s' hret
    cases hret
    exact ⟨hwf, .refl fd s, fun b hb => hb, fun hown => ⟨hown, fun b hb => .inl hb⟩⟩
  | succ left ih =>
    intro n stored s hwf ret out s' hret
    obtain ⟨⟨rc, c⟩, s1, hs1, hret⟩ := Prog.bind_ret_iff.mp hret
    have hread := myRead_end hwf fd
    rw [hs1] at hread
    cases hread with
    | byte _ _ hwf1 hf _ hhead =>
      dsimp only at hret
      rw [if_pos rfl] at hret
      -- the byte comes from the buffer, or from `fd`'s stream if the buffer was empty
      have hown1 (hown : ∀ b ∈ s.unread, b.fd = fd) : c.fd = fd ∧ ∀ b ∈ s1.unread, b.fd = fd := by
        rcases hhead with he | ⟨-, hc, hrest⟩
        · rw [he] at hown
          exact ⟨hown c (List.mem_cons_self ..), fun b hb => hown b (List.mem_cons_of_mem c hb)⟩
        · exact ⟨hc, hrest⟩
      have hsnoc {b : Byte} (hown : ∀ b ∈ s.unread, b.fd = fd) (hb : b ∈ stored ++ [c]) : b ∈ stored ∨ b.fd = fd := by
        rcases List.mem_append.mp hb with hb | hb
        · exact .inl hb
        · obtain rfl := List.mem_singleton.mp hb
          exact .inr (hown1 hown).1
      split at hret
      case isTrue hnl =>
        cases hret
        exact ⟨hwf1, hf, fun b hb => List.mem_append_left _ hb, fun hown => ⟨(hown1 hown).2, fun b => hsnoc hown⟩⟩
      case isFalse hnl =>
        have hloop := ih (n + 1) (stored ++ [c]) s1 hwf1 ret out s' hret
        refine ⟨hloop.wf, hf.trans hloop.frame, fun b hb => hloop.kept b (List.mem_append_left _ hb), fun hown => ?_⟩
        obtain ⟨hrest, hnew⟩ := hloop.own (hown1 hown).2
        refine ⟨hrest, fun b hb => ?_⟩
        rcases hnew b hb with hb | hb
        · exact hsnoc hown hb
        · exact .inr hb
    | eof _ hwf1 hf _ hnil =>
      cases hret
      exact .stop stored hwf1 hf hnil
    | failed _ hwf1 hf _ hnil =>
      cases hret
      exact .stop stored hwf1 hf hnil

/-- The byte that waits is the first one stored. -/
theorem readline_head (hwf : s.Wf) {b : Byte} {rest : List Byte} (hhead : s.unread = b :: rest) {maxlen : Nat}
    (h2 : 2 ≤ maxlen) {ret : Int} {out : List Byte} (hret : readline fd maxlen s = .ret (ret, out) s') : b ∈ out := by
  obtain ⟨left, hleft⟩ : ∃ left, maxlen - 1 = left + 1 := ⟨maxlen - 2, by omega⟩
  unfold readline at hret
  rw [hleft] at hret
  obtain ⟨⟨rc, c⟩, s1, hs1, hret⟩ := Prog.bind_ret_iff.mp hret
  have hread := myRead_end hwf fd
  rw [hs1] at hread
  cases hread with
  | byte _ _ hwf1 _ _ hfirst =>
    have hc : b = c := by
      rcases hfirst with he | ⟨hnil, -⟩
      · exact (List.cons.inj (hhead.symm.trans he)).1
      · rw [hhead] at hnil
        cases hnil
    subst hc
    dsimp only at hret
    rw [if_pos rfl] at hret
    split at hret
    case isTrue hnl =>
      cases hret
      exact List.mem_cons_self ..
    case isFalse hnl =>
      exact (readlineLoop_returned left 2 [b] s1 hwf1 ret out s' hret).kept b (List.mem_cons_self ..)
  | eof _ _ _ hpend =>
    rw [Proc.pending, hhead] at hpend
    cases hpend
  | failed _ _ _ hnil =>
    rw [hhead] at hnil
    cases hnil

theorem readlineStep_returned (hwf : s.Wf) {call : Nat × Nat} (hs : readlineStep s call = some s') :
    ∃ ret out s1, readline call.1 call.2 s = .ret (ret, out) s1 ∧ Returned call.1 [] s s1 out ∧
      s' = { s1 with lines := s.lines ++ [⟨call.1, call.2, ret, out⟩] } := by
  unfold readlineStep at hs
  split at hs
  case h_1 ret out s1 hret =>
    cases hs
    have h := readlineLoop_returned (call.2 - 1) 1 [] s hwf ret out s1 hret
    exact ⟨ret, out, s1, hret, h, by rw [h.frame.lines]⟩
  case h_2 => cases hs

/-! ## Two runs -/

/-- As far as a call on `fd` can tell. -/
structure Agree (fd : Nat) (s t : Proc) : Prop where
  left : s.Wf
  right : t.Wf
  conns : t.conns fd = s.conns fd
  unread : t.unread = s.unread

theorem unread_nil_iff (hwf : s.Wf) : s.unread = [] ↔ s.readCnt ≤ 0 := by
  refine ⟨fun h => ?_, Proc.unread_nil⟩
  by_contra hpos
  obtain ⟨b, s', -, hhead, -⟩ := takeByte_eq hwf (Int.not_le.mp hpos)
  rw [h] at hhead
  cases hhead

theorem Agree.readCnt (h : Agree fd s t) : t.readCnt ≤ 0 ↔ s.readCnt ≤ 0 := by
  rw [← unread_nil_iff h.left, ← unread_nil_iff h.right, h.unread]

theorem takeByte_agree (h : Agree fd s t) (hpos : 0 < s.readCnt) {a : Int × Byte} (hret : takeByte s = .ret a s') :
    ∃ t', takeByte t = .ret a t' ∧ Agree fd s' t' := by
  obtain ⟨b, s1, hs, hhead, hwf, hconns, -⟩ := takeByte_eq h.left hpos
  have hpos' : 0 < t.readCnt := by
    have := h.readCnt
    omega
  obtain ⟨b', t1, ht, hhead', hwf', hconns', -⟩ := takeByte_eq h.right hpos'
  rw [h.unread, hhead] at hhead'
  obtain ⟨rfl, hrest⟩ := List.cons.inj hhead'
  rw [hs] at hret
  cases hret
  exact ⟨t1, ht, hwf, hwf', by rw [hconns, hconns', h.conns], hrest.symm⟩

theorem fill_wf (hwf : s.Wf) {rs : List ReadOutcome} {rc : Int} (hret : fill fd rs s = .ret rc s') : s'.Wf := by
  have h := fill_end fd rs s hwf
  rw [hret] at h
  cases h <;> assumption

theorem fill_pos (hwf : s.Wf) {rs : List ReadOutcome} (hret : fill fd rs s = .ret 1 s') : 0 < s'.readCnt := by
  have h := fill_end fd rs s hwf
  rw [hret] at h
  cases h
  assumption

theorem fill_agree (fd : Nat) (rs : List ReadOutcome) : Prog.Respects (Agree fd) (fill fd rs) := by
  induction rs with
  | nil =>
    intro s t _ a s' hret
    cases hret
  | cons o rs ih =>
    intro s t h a s' hret
    cases o with
    | error e =>
      unfold fill at hret ⊢
      dsimp only at hret ⊢
      rw [h.conns]
      have h1 : Agree fd ({ s with readCnt := -1 }.setConn fd { s.conns fd with errno := e, reads := rs })
          ({ t with readCnt := -1 }.setConn fd { s.conns fd with errno := e, reads := rs }) := by
        refine ⟨h.left.failed fd _, h.right.failed fd _, by simp, ?_⟩
        rw [Proc.unread_nil (Int.neg_nonpos_of_nonneg Int.one_nonneg), Proc.unread_nil (Int.neg_nonpos_of_nonneg Int.one_nonneg)]
      split at hret
      case isTrue he =>
        rw [if_pos he]
        exact ih h1 hret
      case isFalse he =>
        rw [if_neg he]
        cases hret
        exact ⟨_, rfl, h1⟩
    | ready k =>
      have hwf := fill_wf h.left hret
      -- `Agree` compares what is unread, not the bytes around it
      suffices hsame : ∃ t', fill fd (.ready k :: rs) t = .ret a t' ∧ t'.conns fd = s'.conns fd ∧ t'.unread = s'.unread by
        obtain ⟨t', ht, hconns, hunread⟩ := hsame
        exact ⟨t', ht, hwf, fill_wf h.right ht, hconns, hunread⟩
      unfold fill at hret ⊢
      dsimp only at hret ⊢
      rw [h.conns]
      generalize (s.conns fd).input.take (min (k + 1) bufSize) = got at hret ⊢
      split at hret
      case isTrue hzero =>
        rw [if_pos hzero]
        cases hret
        have hcnt : (got.length : Int) ≤ 0 := by omega
        refine ⟨_, rfl, by simp, ?_⟩
        rw [Proc.unread_nil hcnt, Proc.unread_nil hcnt]
      case isFalse hne =>
        rw [if_neg hne]
        cases hret
        have hcnt : (got.length : Int) = (got.map (Byte.mk fd)).length := by rw [List.length_map]
        refine ⟨_, rfl, by simp, ?_⟩
        rw [Proc.unread_filled rfl hcnt rfl, Proc.unread_filled rfl hcnt rfl]

theorem refill_agree (fd : Nat) : Prog.Respects (Agree fd) (refill fd) := by
  intro s t h a s' hret
  unfold refill
  rw [h.conns]
  exact fill_agree fd (s.conns fd).reads h hret

theorem myRead_agree (fd : Nat) : Prog.Respects (Agree fd) (myRead fd) := by
  intro s t h a s' hret
  unfold myRead at hret ⊢
  rw [Prog.bind_run, Prog.read_run] at hret ⊢
  dsimp only at hret ⊢
  by_cases hcnt : s.readCnt ≤ 0
  · rw [if_pos hcnt] at hret
    rw [if_pos (h.readCnt.mpr hcnt)]
    obtain ⟨rc, s1, hs1, hret⟩ := Prog.bind_ret_iff.mp hret
    obtain ⟨t1, ht1, h1⟩ := refill_agree fd h hs1
    by_cases hrc : rc = 1
    · subst hrc
      rw [if_pos rfl] at hret
      have hpos : 0 < s1.readCnt := fill_pos h.left hs1
      obtain ⟨t', ht', h'⟩ := takeByte_agree h1 hpos hret
      exact ⟨t', Prog.bind_ret_iff.mpr ⟨1, t1, ht1, ht'⟩, h'⟩
    · rw [if_neg hrc] at hret
      cases hret
      refine ⟨t1, Prog.bind_ret_iff.mpr ⟨rc, t1, ht1, ?_⟩, h1⟩
      rw [if_neg hrc]
      rfl
  · have hcnt' : ¬ t.readCnt ≤ 0 := fun hle => hcnt (h.readCnt.mp hle)
    rw [if_neg hcnt] at hret
    rw [if_neg hcnt']
    exact takeByte_agree h (Int.not_le.mp hcnt) hret

theorem readlineLoop_agree (fd left : Nat) : ∀ n stored, Prog.Respects (Agree fd) (readlineLoop fd left n stored) := by
  induction left with
  | zero => exact fun n stored => .pure _ _
  | succ left ih =>
    intro n stored
    refine (myRead_agree fd).bind fun r => ?_
    obtain ⟨rc, c⟩ := r
    dsimp only
    split
    case isTrue =>
      split
      case isTrue => exact .pure _ _
      case isFalse => exact ih (n + 1) (stored ++ [c])
    case isFalse =>
      split
      case isTrue => exact .pure _ _
      case isFalse => exact .pure _ _

/-! ## A descriptor alone -/

/-- `t` made only the calls on `fd`. -/
structure Alone (fd : Nat) (s t : Proc) : Prop where
  left : s.Wf
  right : t.Wf
  conns : t.conns fd = s.conns fd
  unread : t.unread = s.unread.filter fun b => b.fd = fd
  lines : t.lines = s.lines.filter fun l => l.fd = fd

theorem filter_own {fd : Nat} {bytes : List Byte} (h : ∀ b ∈ bytes, b.fd = fd) :
    (bytes.filter fun b => b.fd = fd) = bytes :=
  List.filter_eq_self.mpr fun b hb => decide_eq_true (h b hb)

theorem filter_other {fd fd' : Nat} (hne : fd' ≠ fd) {bytes : List Byte} (h : ∀ b ∈ bytes, b.fd = fd') :
    (bytes.filter fun b => b.fd = fd) = [] := by
  refine List.filter_eq_nil_iff.mpr fun b hb he => hne ?_
  rw [← h b hb, of_decide_eq_true he]

theorem readlineStep_short {call : Nat × Nat} (h2 : ¬ 2 ≤ call.2) (s : Proc) :
    readlineStep s call = some { s with lines := s.lines ++ [⟨call.1, call.2, 1, []⟩] } := by
  have hleft : call.2 - 1 = 0 := by omega
  unfold readlineStep readline
  rw [hleft]
  rfl

/-- A call on another descriptor. -/
theorem Alone.other (h : Alone fd s t) {call : Nat × Nat} (hfree : Free s call) (hne : call.1 ≠ fd)
    (hs : readlineStep s call = some s') : Alone fd s' t := by
  have hlines (l : Line) (hl : l.fd = call.1) : ((s.lines ++ [l]).filter fun l => l.fd = fd) = t.lines := by
    have hone : ([l].filter fun l => l.fd = fd) = [] :=
      List.filter_eq_nil_iff.mpr fun l' hl' => by
        obtain rfl := List.mem_singleton.mp hl'
        rw [hl, decide_eq_true_eq]
        exact hne
    rw [List.filter_append, hone, List.append_nil, h.lines]
  by_cases h2 : 2 ≤ call.2
  · obtain ⟨ret, out, s1, -, hdone, rfl⟩ := readlineStep_returned h.left hs
    obtain ⟨hrest, -⟩ := hdone.own (hfree h2)
    refine ⟨⟨hdone.wf.size, hdone.wf.inside⟩, h.right, ?_, ?_, (hlines _ rfl).symm⟩
    · rw [h.conns]
      exact (hdone.frame.conns fd (Ne.symm hne)).symm
    · show t.unread = s1.unread.filter _
      rw [h.unread, filter_other hne (hfree h2), filter_other hne hrest]
  · rw [readlineStep_short h2] at hs
    cases hs
    exact ⟨⟨h.left.size, h.left.inside⟩, h.right, h.conns, h.unread, (hlines _ rfl).symm⟩

/-- A call on `fd` itself. -/
theorem Alone.call (h : Alone fd s t) {maxlen : Nat} (hfree : Free s (fd, maxlen))
    (hs : readlineStep s (fd, maxlen) = some s') : ∃ t', readlineStep t (fd, maxlen) = some t' ∧ Alone fd s' t' := by
  have hlines (l : Line) (hl : l.fd = fd) : t.lines ++ [l] = (s.lines ++ [l]).filter fun l => l.fd = fd := by
    rw [List.filter_append, h.lines, List.filter_singleton, decide_eq_true hl, cond_true]
  by_cases h2 : 2 ≤ maxlen
  · have hunread : t.unread = s.unread := by rw [h.unread, filter_own (hfree h2)]
    obtain ⟨ret, out, s1, hs1, hdone, rfl⟩ := readlineStep_returned h.left hs
    obtain ⟨hrest, -⟩ := hdone.own (hfree h2)
    obtain ⟨t1, ht1, h1⟩ := readlineLoop_agree fd (maxlen - 1) 1 [] ⟨h.left, h.right, h.conns, hunread⟩ hs1
    have hframe := readlineLoop_returned (maxlen - 1) 1 [] t h.right ret out t1 ht1
    refine ⟨{ t1 with lines := t.lines ++ [⟨fd, maxlen, ret, out⟩] }, ?_, ?_⟩
    · unfold readlineStep readline
      dsimp only
      rw [ht1, ← hframe.frame.lines]
    · refine ⟨⟨h1.left.size, h1.left.inside⟩, ⟨h1.right.size, h1.right.inside⟩, h1.conns, ?_, hlines _ rfl⟩
      show t1.unread = s1.unread.filter _
      rw [h1.unread, filter_own hrest]
  · rw [readlineStep_short h2] at hs
    cases hs
    exact ⟨_, readlineStep_short h2 t, ⟨h.left.size, h.left.inside⟩, ⟨h.right.size, h.right.inside⟩, h.conns, h.unread,
      hlines _ rfl⟩

theorem run_alone {calls : List (Nat × Nat)} (hfree : Lts.Along readlineStep Free calls s) (h : Alone fd s t)
    (hrun : Lts.run readlineStep calls s = some s') :
    ∃ t', Lts.run readlineStep (calls.filter fun c => c.1 = fd) t = some t' ∧ Alone fd s' t' := by
  induction calls generalizing s t with
  | nil =>
    cases hrun
    exact ⟨t, rfl, h⟩
  | cons call calls ih =>
    obtain ⟨s1, hs1, hrun⟩ := Option.bind_eq_some_iff.mp hrun
    obtain ⟨hone, hrest⟩ := hfree
    by_cases hfd : call.1 = fd
    · subst hfd
      obtain ⟨t1, ht1, h1⟩ := h.call hone hs1
      obtain ⟨t', ht', h'⟩ := ih (hrest s1 hs1) h1 hrun
      refine ⟨t', ?_, h'⟩
      rw [List.filter_cons_of_pos (by simp)]
      exact Option.bind_eq_some_iff.mpr ⟨t1, ht1, ht'⟩
    · rw [List.filter_cons_of_neg (by simpa using hfd)]
      exact ih (hrest s1 hs1) (h.other hone hfd hs1) hrun

/-! ## Foreign bytes -/

/-- No line of the history has bytes of another descriptor. -/
def Own (s : Proc) : Prop := ∀ l ∈ s.lines, ∀ b ∈ l.stored, b.fd = l.fd

theorem Own.back (hwf : s.Wf) {call : Nat × Nat} (hs : readlineStep s call = some s') (h : Own s') : Own s := by
  obtain ⟨ret, out, s1, -, -, rfl⟩ := readlineStep_returned hwf hs
  exact fun l hl => h l (List.mem_append_left _ hl)

/-- What a run keeps while its calls are free. -/
structure Clean (s : Proc) : Prop where
  wf : s.Wf
  own : Own s
  -- a block is read from one descriptor
  block : ∃ fd, ∀ b ∈ s.unread, b.fd = fd

theorem Clean.call (h : Clean s) {call : Nat × Nat} (hfree : Free s call) (hs : readlineStep s call = some s') :
    Clean s' := by
  by_cases h2 : 2 ≤ call.2
  · obtain ⟨ret, out, s1, -, hdone, rfl⟩ := readlineStep_returned h.wf hs
    obtain ⟨hrest, hout⟩ := hdone.own (hfree h2)
    refine ⟨⟨hdone.wf.size, hdone.wf.inside⟩, fun l hl => ?_, call.1, hrest⟩
    rcases List.mem_append.mp hl with hl | hl
    · exact h.own l hl
    · obtain rfl := List.mem_singleton.mp hl
      intro b hb
      rcases hout b hb with hb | hb
      · exact absurd hb List.not_mem_nil
      · exact hb
  · rw [readlineStep_short h2] at hs
    cases hs
    refine ⟨⟨h.wf.size, h.wf.inside⟩, fun l hl => ?_, h.block⟩
    rcases List.mem_append.mp hl with hl | hl
    · exact h.own l hl
    · obtain rfl := List.mem_singleton.mp hl
      exact fun b hb => absurd hb List.not_mem_nil

/-- The byte that a call finds is stored, whatever its descriptor. -/
theorem Clean.foreign (h : Clean s) {call : Nat × Nat} (hfree : ¬ Free s call) (hs : readlineStep s call = some s') :
    ¬ Own s' := by
  intro hown
  refine hfree fun h2 b hb => ?_
  obtain ⟨fd, hblock⟩ := h.block
  obtain ⟨ret, out, s1, hret, -, rfl⟩ := readlineStep_returned h.wf hs
  cases hhead : s.unread with
  | nil =>
    rw [hhead] at hb
    exact absurd hb List.not_mem_nil
  | cons b' rest =>
    have hb' : b' ∈ s.unread := hhead ▸ List.mem_cons_self ..
    have hstored : b'.fd = call.1 :=
      hown _ (List.mem_append_right _ (List.mem_singleton_self _)) b' (readline_head h.wf hhead h2 hret)
    rw [hblock b hb, ← hblock b' hb', hstored]

end

/-- Calls on several descriptors keep apart exactly when each call that has room finds
the buffer empty or filled from its own descriptor. -/
theorem separate_iff {conns : Nat → Conn} {calls : List (Nat × Nat)} {s : Proc}
    (hrun : Lts.run readlineStep calls { conns } = some s) :
    Separate conns calls s ↔ Lts.Along readlineStep Free calls { conns } := by
  have hwf : Proc.Wf { conns } := ⟨List.length_replicate .., Nat.zero_le _⟩
  have hinv : Clean { conns } := ⟨hwf, fun l hl => absurd hl List.not_mem_nil, 0, fun b hb => absurd hb List.not_mem_nil⟩
  have hown : Own s ↔ Lts.Along readlineStep Free calls { conns } := by
    rw [← Lts.always_iff_last (fun s call s' hwf hs => ?_) (fun s call s' hwf hs => Own.back hwf hs) hrun hwf]
    · exact Lts.always_iff_along (fun s h => h.own) (fun s call s' h => h.call) (fun s call s' h => h.foreign) hrun hinv
    · obtain ⟨ret, out, s1, -, hdone, rfl⟩ := readlineStep_returned hwf hs
      exact ⟨hdone.wf.size, hdone.wf.inside⟩
  constructor
  · exact fun h => hown.mp h.own
  · intro hfree
    refine ⟨hown.mpr hfree, fun fd => ?_⟩
    obtain ⟨t, ht, h⟩ := run_alone hfree ⟨hwf, hwf, rfl, rfl, rfl⟩ hrun
    exact ⟨t, ht, h.lines⟩

/-- Two lines on 4, one on 5. -/
def twoClients : Nat → Conn
  | 4 => { input := [97, 10, 98, 10], reads := [.ready 99, .ready 99] }
  | 5 => { input := [99, 10], reads := [.ready 99, .ready 99] }
  | _ => { input := [], reads := [] }

theorem separate_iff_two : ∃ s, Lts.run readlineStep [(4, 80), (4, 80), (5, 80)] { conns := twoClients } = some s ∧
    Separate twoClients [(4, 80), (4, 80), (5, 80)] s := by
  have hsome : (Lts.run readlineStep [(4, 80), (4, 80), (5, 80)] { conns := twoClients }).isSome = true := by
    decide +kernel
  obtain ⟨s, hrun⟩ := Option.isSome_iff_exists.mp hsome
  exact ⟨s, hrun, (separate_iff hrun).mpr (by decide +kernel)⟩

/-- The second line of 4 goes to 5. -/
theorem lines_mixed : ∃ s, Lts.run readlineStep [(4, 80), (5, 80)] { conns := twoClients } = some s ∧
    s.lines.map Line.bytes = [[97, 10], [98, 10]] ∧ ¬ Separate twoClients [(4, 80), (5, 80)] s := by
  have hsome : (Lts.run readlineStep [(4, 80), (5, 80)] { conns := twoClients }).any
      (fun s => s.lines = [⟨4, 80, 2, [⟨4, 97⟩, ⟨4, 10⟩]⟩, ⟨5, 80, 2, [⟨4, 98⟩, ⟨4, 10⟩]⟩]) = true := by decide +kernel
  obtain ⟨s, hrun, hlines⟩ := (Option.any_eq_true _ _).mp hsome
  have hlines : s.lines = [⟨4, 80, 2, [⟨4, 97⟩, ⟨4, 10⟩]⟩, ⟨5, 80, 2, [⟨4, 98⟩, ⟨4, 10⟩]⟩] := of_decide_eq_true hlines
  refine ⟨s, hrun, by rw [hlines]; rfl, fun h => ?_⟩
  have hown : (4 : Nat) = 5 := h.own ⟨5, 80, 2, [⟨4, 98⟩, ⟨4, 10⟩]⟩ (by simp [hlines]) ⟨4, 98⟩ (by simp)
  exact absurd hown (by decide)

end CSocket.Wrap
