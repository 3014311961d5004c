import Mathlib.Data.List.Infix
/-!
# Length-prefixed frames

A header of fixed size carries the length of the payload behind it. A stream of
frames followed by a proper prefix of one more frame (or by nothing) decodes to
exactly the payloads of the complete frames, wherever the last one is cut.
-/

/-- A fixed-size header code for lengths up to `max`. -/
structure Framing (α : Type) where
  size : Nat
  max : Nat
  hdr : Nat → List α
  len : List α → Nat
  length_hdr : ∀ n, (hdr n).length = size
  len_hdr : ∀ n, n ≤ max → len (hdr n) = n

namespace Framing
variable {α : Type} (F : Framing α)

def frame (m : List α) : List α := F.hdr m.length ++ m

/-- The first payload of a stream and what follows its frame; `none` when the
stream ends before the frame does. -/
def next (s : List α) : Option (List α × List α) :=
  let n := F.len (s.take F.size)
  if s.length < F.size + n then none
  else some ((s.drop F.size).take n, s.drop (F.size + n))

/-- The frames of these payloads, then at most one more frame cut short. -/
inductive Stream : List (List α) → List α → Prop
  | cut {m p} : m.length ≤ F.max → p <+: F.frame m → p.length < (F.frame m).length → Stream [] p
  | cons {m ms s} : m.length ≤ F.max → Stream ms s → Stream (m :: ms) (F.frame m ++ s)

@[simp] theorem length_frame (m : List α) : (F.frame m).length = F.size + m.length := by
  simp [frame, F.length_hdr]

theorem next_frame {m : List α} (hm : m.length ≤ F.max) (rest : List α) :
    F.next (F.frame m ++ rest) = some (m, rest) := by
  have htake : (F.frame m ++ rest).take F.size = F.hdr m.length := by
    rw [frame, List.append_assoc, ← F.length_hdr m.length, List.take_left]
  have hdrop : (F.frame m ++ rest).drop F.size = m ++ rest := by
    rw [frame, List.append_assoc, ← F.length_hdr m.length, List.drop_left]
  have hlen : ¬ (F.frame m ++ rest).length < F.size + m.length := by simp
  simp only [next, htake, F.len_hdr _ hm, if_neg hlen]
  rw [← List.drop_drop, hdrop, List.take_left, List.drop_left]

/-- Where the header is complete, it says how long the payload is. -/
theorem len_take {m s t : List α} (hm : m.length ≤ F.max) (hs : s <+: F.frame m ++ t) (h : F.size ≤ s.length) :
    F.len (s.take F.size) = m.length := by
  have htake : s.take F.size = F.hdr m.length := by
    obtain ⟨u, hu⟩ := hs
    have := congrArg (List.take F.size) hu
    rwa [List.take_append_of_le_length h, frame, List.append_assoc, ← F.length_hdr m.length, List.take_left,
      F.length_hdr] at this
  rw [htake, F.len_hdr _ hm]

/-- A frame cut short, at any point, is no frame yet. -/
theorem next_cut {m p : List α} (hm : m.length ≤ F.max) (hp : p <+: F.frame m)
    (hlt : p.length < (F.frame m).length) : F.next p = none := by
  rw [length_frame] at hlt
  by_cases h : p.length < F.size
  · have : p.length < F.size + F.len (p.take F.size) := by omega
    simp [next, this]
  · have hlen := F.len_take (t := []) hm (by simpa using hp) (by omega)
    simp [next, hlen, hlt]

section
variable {F} {m s : List α} {ms : List (List α)}

theorem Stream.next_nil (h : F.Stream [] s) : F.next s = none := by
  cases h with
  | cut h1 h2 h3 => exact F.next_cut h1 h2 h3

theorem Stream.next_cons (h : F.Stream (m :: ms) s) : ∃ rest, F.next s = some (m, rest) ∧ F.Stream ms rest := by
  cases h with
  | cons h1 h2 => exact ⟨_, F.next_frame h1 _, h2⟩

/-- Every header in such a stream is one that was written. -/
theorem Stream.len_le (h : F.Stream ms s) (hs : F.size ≤ s.length) : F.len (s.take F.size) ≤ F.max := by
  cases h with
  | @cut m _ h1 h2 _ =>
    rw [F.len_take (m := m) (t := []) h1 (by simpa using h2) hs]
    exact h1
  | @cons m _ t h1 _ =>
    rw [F.len_take (m := m) (t := t) h1 (List.prefix_refl _) hs]
    exact h1

/-- Wherever such a stream is cut, the complete frames before the cut are left. -/
theorem Stream.of_prefix (h : F.Stream ms s) {p : List α} (hp : p <+: s) : ∃ ms', ms' <+: ms ∧ F.Stream ms' p := by
  induction h generalizing p with
  | @cut m s hm hs hlt =>
    have hcut : F.Stream [] p := .cut hm (hp.trans hs) (Nat.lt_of_le_of_lt hp.length_le hlt)
    exact ⟨[], List.nil_prefix, hcut⟩
  | @cons m ms s hm _ ih =>
    by_cases hlt : p.length < (F.frame m).length
    · have hframe : p <+: F.frame m := List.prefix_of_prefix_length_le hp (List.prefix_append _ _) (Nat.le_of_lt hlt)
      exact ⟨[], List.nil_prefix, .cut hm hframe hlt⟩
    · obtain ⟨q, rfl⟩ : F.frame m <+: p :=
        List.prefix_of_prefix_length_le (List.prefix_append _ _) hp (Nat.le_of_not_lt hlt)
      obtain ⟨ms', hms', hq⟩ := ih ((List.prefix_append_right_inj _).mp hp)
      exact ⟨m :: ms', List.cons_prefix_cons.mpr ⟨rfl, hms'⟩, .cons hm hq⟩

end

end Framing
