import Mathlib.Data.List.Basic
/-!
# The account of an echoed stream

A server reads what arrives on a stream and writes `f` of it back, chunk by chunk,
and a write may take less than it is given. `Sound` says what then holds between
the four lists, whatever the chunks were: nothing is made up, reordered or doubled,
and what is missing is counted.
-/

structure Account (α : Type) where
  arrived : List α := []
  /-- What has arrived and was not read yet. -/
  input : List α := []
  read : List α := []
  written : List α := []
  /-- How much of what was read no write took. -/
  lost : Nat := 0
  deriving DecidableEq

namespace Account
variable {α : Type}

def arrive (a : Account α) (bytes : List α) : Account α :=
  { a with arrived := a.arrived ++ bytes, input := a.input ++ bytes }

/-- A read takes the first `n`. -/
def take (a : Account α) (n : Nat) : Account α := { a with read := a.read ++ a.input.take n, input := a.input.drop n }

/-- A write is given `f` of the chunk and takes the first `k`. -/
def put (f : α → α) (a : Account α) (chunk : List α) (k : Nat) : Account α :=
  { a with written := a.written ++ (chunk.take k).map f, lost := a.lost + (chunk.length - k) }

/-- The last of what was read, `held`, is not yet written. -/
structure Sound (f : α → α) (a : Account α) (held : List α) : Prop where
  split : a.read ++ a.input = a.arrived
  echoed : ∃ done, a.read = done ++ held ∧ a.written.Sublist (done.map f) ∧ done.length = a.written.length + a.lost

variable {f : α → α} {a : Account α} {held : List α}

theorem sound_new (f : α → α) (bytes : List α) : Sound f { arrived := bytes, input := bytes } [] :=
  ⟨rfl, [], rfl, List.Sublist.refl _, rfl⟩

theorem Sound.arrive (h : Sound f a held) (bytes : List α) : Sound f (a.arrive bytes) held where
  split := by
    show a.read ++ (a.input ++ bytes) = a.arrived ++ bytes
    rw [← h.split, List.append_assoc]
  echoed := h.echoed

theorem Sound.take (h : Sound f a []) (n : Nat) : Sound f (a.take n) (a.input.take n) where
  split := by
    show (a.read ++ a.input.take n) ++ a.input.drop n = a.arrived
    rw [List.append_assoc, List.take_append_drop, h.split]
  echoed := by
    obtain ⟨done, hread, hsub, hlen⟩ := h.echoed
    refine ⟨done, ?_, hsub, hlen⟩
    show a.read ++ a.input.take n = done ++ a.input.take n
    rw [hread, List.append_nil]

theorem Sound.put (h : Sound f a held) (k : Nat) : Sound f (a.put f held k) [] where
  split := h.split
  echoed := by
    obtain ⟨done, hread, hsub, hlen⟩ := h.echoed
    refine ⟨done ++ held, ?_, ?_, ?_⟩
    · rw [List.append_nil]
      exact hread
    · show (a.written ++ (held.take k).map f).Sublist ((done ++ held).map f)
      rw [List.map_append]
      exact hsub.append ((List.take_sublist k held).map f)
    · show (done ++ held).length = (a.written ++ (held.take k).map f).length + (a.lost + (held.length - k))
      simp only [List.length_append, List.length_map, List.length_take]
      omega

/-- Every element that arrived is accounted for. Where nothing is lost, what was written
is exactly `f` of the first of them. -/
structure Faithful (f : α → α) (a : Account α) (held : List α) : Prop where
  order : a.written.Sublist (a.arrived.map f)
  count : a.arrived.length = a.written.length + a.lost + held.length + a.input.length
  exact : a.lost = 0 → ∃ done, a.written = done.map f ∧ a.arrived = done ++ held ++ a.input

/-- What was written comes from what arrived, in its order. -/
theorem Sound.sublist (h : Sound f a held) : a.written.Sublist (a.arrived.map f) := by
  obtain ⟨done, hread, hsub, -⟩ := h.echoed
  refine hsub.trans (List.Sublist.map f ?_)
  rw [← h.split, hread, List.append_assoc]
  exact List.sublist_append_left done (held ++ a.input)

theorem Sound.faithful (h : Sound f a held) : Faithful f a held where
  order := h.sublist
  count := by
    obtain ⟨done, hread, -, hlen⟩ := h.echoed
    rw [← h.split, hread, List.length_append, List.length_append, hlen]
  exact hlost := by
    obtain ⟨done, hread, hsub, hlen⟩ := h.echoed
    refine ⟨done, hsub.eq_of_length ?_, ?_⟩
    · rw [List.length_map, hlen, hlost]
      rfl
    · rw [← h.split, hread]

/-- With nothing left to read and nothing held, all that arrived was echoed. -/
theorem Sound.complete (h : Sound f a []) (hinput : a.input = []) : a.arrived.length = a.written.length + a.lost := by
  obtain ⟨done, hread, -, hlen⟩ := h.echoed
  rw [← h.split, hread, hinput, List.append_nil, List.append_nil, hlen]

end Account
