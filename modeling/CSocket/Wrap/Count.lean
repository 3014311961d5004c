import CSocket.Wrap.Readline
/-!
# What `Readline` returns

`n` runs one ahead of the bytes stored. A newline is stored in the round that leaves with
`n`, and at the end of the stream the code takes the one off again; where the buffer is full
it does not.
-/
namespace CSocket.Wrap

/-- There is no newline among the first `room` bytes, and there are so many. -/
def Overlong (room : Nat) (bytes : List UInt8) : Prop := room ≤ bytes.length ∧ newline ∉ bytes.take room

instance (room : Nat) (bytes : List UInt8) : Decidable (Overlong room bytes) := inferInstanceAs (Decidable (_ ∧ _))

theorem overlong_zero (bytes : List UInt8) : Overlong 0 bytes := ⟨Nat.zero_le _, by simp⟩

theorem not_overlong_nil (room : Nat) : ¬ Overlong (room + 1) [] := fun h => absurd h.1 (by simp)

theorem not_overlong_newline (room : Nat) (bytes : List UInt8) : ¬ Overlong (room + 1) (newline :: bytes) :=
  fun h => h.2 (by rw [List.take_succ_cons]; exact List.mem_cons_self)

theorem overlong_cons {b : UInt8} (hb : b ≠ newline) (room : Nat) (bytes : List UInt8) :
    Overlong (room + 1) (b :: bytes) ↔ Overlong room bytes := by
  unfold Overlong
  rw [List.length_cons, List.take_succ_cons, List.mem_cons, not_or, Nat.succ_le_succ_iff]
  constructor
  · rintro ⟨hlen, -, hnot⟩
    exact ⟨hlen, hnot⟩
  · rintro ⟨hlen, hnot⟩
    exact ⟨hlen, fun he => hb he.symm, hnot⟩

/-- What a call that does not fail returns, next to what it stored. -/
inductive CountEnd (fd left : Nat) (s : Proc) : Outcome Proc (Int × List Byte) → Prop
  | counted (stored : List Byte) (s' : Proc) : s'.Wf → ¬ Overlong left (s.pending fd) →
      CountEnd fd left s (.ret ((stored.length : Int), stored) s')
  | full (stored : List Byte) (s' : Proc) : s'.Wf → Overlong left (s.pending fd) →
      CountEnd fd left s (.ret ((stored.length : Int) + 1, stored) s')
  | failed (stored : List Byte) (s' : Proc) : s'.Wf → CountEnd fd left s (.ret (-1, stored) s')
  | stalled (s' : Proc) : CountEnd fd left s (.stalled s')

section
variable {s s' : Proc} {fd left : Nat}

/-- After a byte other than the newline the line is as long as the rest of it. -/
theorem CountEnd.more {b : UInt8} {r : Outcome Proc (Int × List Byte)} (hb : b ≠ newline)
    (hpend : s.pending fd = b :: s'.pending fd) (h : CountEnd fd left s' r) : CountEnd fd (left + 1) s r := by
  have hlong : Overlong (left + 1) (s.pending fd) ↔ Overlong left (s'.pending fd) := by
    rw [hpend]
    exact overlong_cons hb left _
  cases h with
  | counted stored s1 hwf hnot => exact .counted stored s1 hwf fun h => hnot (hlong.mp h)
  | full stored s1 hwf h => exact .full stored s1 hwf (hlong.mpr h)
  | failed stored s1 hwf => exact .failed stored s1 hwf
  | stalled s1 => exact .stalled s1

theorem readlineLoop_count (left : Nat) : ∀ (stored : List Byte) (s : Proc), s.Wf →
    CountEnd fd left s (readlineLoop fd left (stored.length + 1) stored s) := by
  induction left with
  | zero => exact fun stored s hwf => .full stored s hwf (overlong_zero _)
  | succ left ih =>
    intro stored s hwf
    rw [readlineLoop, Prog.bind_run]
    have hread := myRead_end hwf fd
    generalize myRead fd s = r at hread
    have hlen (b : Byte) : stored.length + 1 = (stored ++ [b]).length := by rw [List.length_append, List.length_singleton]
    cases hread with
    | byte b s1 hwf1 hf hpend _ _ _ =>
      dsimp only
      rw [if_pos rfl]
      split
      case isTrue hb =>
        rw [hlen b]
        refine .counted (stored ++ [b]) s1 hwf1 ?_
        rw [hpend, hb]
        exact not_overlong_newline left _
      case isFalse hb =>
        rw [hlen b]
        exact (ih (stored ++ [b]) s1 hwf1).more hb hpend
    | eof s1 hwf1 hf hpend _ _ _ _ =>
      have h : CountEnd fd (left + 1) s (.ret ((stored.length : Int), stored) s1) :=
        .counted stored s1 hwf1 (by rw [hpend]; exact not_overlong_nil left)
      have hret : ((stored.length + 1 : Nat) : Int) - 1 = stored.length := by omega
      rwa [← hret] at h
    | failed s1 hwf1 hf _ _ _ => exact .failed stored s1 hwf1
    | stalled s1 _ => exact .stalled s1

theorem readline_count (hwf : s.Wf) (fd maxlen : Nat) : CountEnd fd (maxlen - 1) s (readline fd maxlen s) :=
  readlineLoop_count (maxlen - 1) [] s hwf

/-- What a call leaves in the buffer of `my_read` another can go on with. -/
theorem readlineStep_wf {call : Nat × Nat} (hwf : s.Wf) (h : readlineStep s call = some s') : s'.Wf := by
  have hend := readline_count hwf call.1 call.2
  unfold readlineStep at h
  generalize readline call.1 call.2 s = r at h hend
  cases hend with
  | counted stored s1 hwf1 | full stored s1 hwf1 | failed stored s1 hwf1 =>
    cases h
    exact ⟨hwf1.size, hwf1.inside⟩
  | stalled => cases h

end

/-- From any content of the buffer, on any stream and schedule, a call that does not fail
returns the number of bytes that it stored, if and only if the line does not fill the
caller's buffer without its newline. -/
theorem readline_counts_iff {s s' : Proc} {fd maxlen : Nat} {ret : Int} {stored : List Byte} (hwf : s.Wf)
    (h : readline fd maxlen s = .ret (ret, stored) s') (hret : ret ≠ -1) :
    ret = stored.length ↔ ¬ Overlong (maxlen - 1) (s.pending fd) := by
  have hend := readline_count hwf fd maxlen
  rw [h] at hend
  cases hend with
  | counted _ _ _ hnot => exact ⟨fun _ => hnot, fun _ => rfl⟩
  | full _ _ _ hlong =>
    refine ⟨fun he => ?_, fun hnot => absurd hlong hnot⟩
    omega
  | failed => exact absurd rfl hret

theorem wf_start (conns : Nat → Conn) : Proc.Wf { conns } := ⟨List.length_replicate .., Nat.zero_le _⟩

/-- `hi` and a newline in two blocks. -/
def hi : Proc := { conns := fun _ => { input := [104, 105, 10], reads := [.ready 0, .error EINTR, .ready 7] } }

theorem readline_counts_iff_hi : ∃ stored s', readline 5 80 hi = .ret (3, stored) s' ∧
    ((3 : Int) = stored.length ↔ ¬ Overlong 79 [104, 105, 10]) := by
  have hval : (readline 5 80 hi).val = some (3, [⟨5, 104⟩, ⟨5, 105⟩, ⟨5, 10⟩]) := by decide +kernel
  obtain ⟨s', h⟩ := Outcome.val_eq_some.mp hval
  exact ⟨_, s', h, readline_counts_iff (wf_start _) h (by decide)⟩

/-- Room for one byte and the `NUL`, and two bytes on the line. -/
theorem readline_miscounts : ∃ (s s' : Proc) (ret : Int) (stored : List Byte), s.Wf ∧
    readline 5 2 s = .ret (ret, stored) s' ∧ ret ≠ -1 ∧ ret ≠ stored.length := by
  let s : Proc := { conns := fun _ => { input := [97, 98], reads := [.ready 1] } }
  have hval : (readline 5 2 s).val = some (2, [⟨5, 97⟩]) := by decide +kernel
  obtain ⟨s', h⟩ := Outcome.val_eq_some.mp hval
  exact ⟨s, s', 2, _, wf_start _, h, by decide, by decide⟩

end CSocket.Wrap
