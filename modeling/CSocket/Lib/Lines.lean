import Mathlib.Data.List.Infix
import Mathlib.Data.List.Count
/-!
# Lines

A stream of lines is texts without the delimiter `d`, each followed by `d`, and at the end
the beginning of one more line. A reader that has room for every line and cuts the stream
behind each delimiter gets the lines one by one, then what is left, then nothing
(`Cuts.pieces`).
-/
namespace Lines
variable {α : Type} (d : α) (max : Nat)

/-- The texts `ts`, none longer than `max`, and what comes behind the last delimiter. -/
inductive Stream : List (List α) → List α → List α → Prop
  | rest {t} : d ∉ t → t.length ≤ max → Stream [] t t
  | line {t ts tail s} : d ∉ t → t.length ≤ max → Stream ts tail s → Stream (t :: ts) tail (t ++ d :: s)

/-- What a reader with so much room takes off `s`: a line, or as much of it as there was
room or data for. -/
structure Cut (room : Nat) (s piece rest : List α) : Prop where
  split : s = piece ++ rest
  fits : piece.length ≤ room
  delimiter : d ∉ piece.dropLast
  short : piece.length < room → piece.getLast? ≠ some d → rest = []

/-- One cut after the other. -/
inductive Cuts : List Nat → List α → List (List α) → List α → Prop
  | done {s} : Cuts [] s [] s
  | cut {room rooms s piece rest pieces left} : Cut d room s piece rest → Cuts rooms rest pieces left →
      Cuts (room :: rooms) s (piece :: pieces) left

variable {d max} {ts : List (List α)} {t tail s p : List α}

/-- Wherever such a stream is cut, the complete lines before the cut are left. -/
theorem Stream.of_prefix (h : Stream d max ts tail s) (hp : p <+: s) :
    ∃ ts' tail', ts' <+: ts ∧ Stream d max ts' tail' p := by
  induction h generalizing p with
  | @rest t hd hlen =>
    have hnot : d ∉ p := fun hmem => hd (hp.subset hmem)
    exact ⟨[], p, List.nil_prefix, .rest hnot (hp.length_le.trans hlen)⟩
  | @line t ts tail s hd hlen _ ih =>
    by_cases hle : p.length ≤ t.length
    · have hpt : p <+: t := List.prefix_of_prefix_length_le hp (List.prefix_append _ _) hle
      have hnot : d ∉ p := fun hmem => hd (hpt.subset hmem)
      exact ⟨[], p, List.nil_prefix, .rest hnot (hle.trans hlen)⟩
    · have hline : t ++ [d] <+: p := by
        refine List.prefix_of_prefix_length_le ⟨s, ?_⟩ hp ?_
        · rw [List.append_assoc]
          rfl
        · rw [List.length_append, List.length_singleton]
          omega
      obtain ⟨q, rfl⟩ := hline
      rw [List.append_assoc, List.singleton_append] at hp ⊢
      have hq : q <+: s := (List.cons_prefix_cons.mp ((List.prefix_append_right_inj t).mp hp)).2
      obtain ⟨ts', tail', hts', hstream⟩ := ih hq
      exact ⟨t :: ts', tail', List.cons_prefix_cons.mpr ⟨rfl, hts'⟩, .line hd hlen hstream⟩

/-- As many delimiters as complete lines. -/
theorem Stream.count [BEq α] [LawfulBEq α] (h : Stream d max ts tail s) : s.count d = ts.length := by
  induction h with
  | rest hd => exact List.count_eq_zero_of_not_mem hd
  | line hd _ _ ih =>
    rw [List.count_append, List.count_eq_zero_of_not_mem hd, List.count_cons_self, ih, List.length_cons, Nat.zero_add]

theorem Stream.tail_not_mem (h : Stream d max ts tail s) : d ∉ tail := by
  induction h with
  | rest hd => exact hd
  | line _ _ _ ih => exact ih

/-- A line that fits is cut behind its delimiter. -/
theorem Cut.line {room : Nat} {piece rest : List α} (hd : d ∉ t) (hfit : t.length < room)
    (h : Cut d room (t ++ d :: s) piece rest) : piece = t ++ [d] ∧ rest = s := by
  obtain ⟨hsplit, -, hdelim, hshort⟩ := h
  have hpiece : piece <+: t ++ d :: s := ⟨rest, hsplit.symm⟩
  by_cases hle : piece.length ≤ t.length
  · -- a piece of the text alone is short, and so the last
    have hnot : d ∉ piece := fun hmem => hd ((List.prefix_of_prefix_length_le hpiece (List.prefix_append _ _) hle).subset hmem)
    have hrest : rest = [] := hshort (by omega) fun hlast => hnot (List.mem_of_getLast? hlast)
    rw [hrest, List.append_nil] at hsplit
    exact absurd (hsplit ▸ List.mem_append_right t List.mem_cons_self) hnot
  · have hline : t ++ [d] <+: piece := by
      refine List.prefix_of_prefix_length_le ⟨s, ?_⟩ hpiece ?_
      · rw [List.append_assoc]
        rfl
      · rw [List.length_append, List.length_singleton]
        omega
    obtain ⟨q, rfl⟩ := hline
    obtain rfl : q = [] := by
      by_contra hne
      rw [List.dropLast_append_of_ne_nil hne] at hdelim
      exact hdelim (List.mem_append_left _ (List.mem_append_right t (List.mem_singleton_self d)))
    rw [List.append_nil, List.append_assoc] at hsplit
    rw [List.append_nil]
    exact ⟨rfl, ((List.cons.inj (List.append_cancel_left hsplit)).2).symm⟩

/-- Behind the last delimiter the reader gets all that there is. -/
theorem Cut.rest {room : Nat} {piece rest : List α} (hd : d ∉ s) (hfit : s.length < room)
    (h : Cut d room s piece rest) : piece = s ∧ rest = [] := by
  obtain ⟨rfl, -, -, hshort⟩ := h
  have hrest : rest = [] := by
    refine hshort ?_ fun hlast => hd ?_
    · rw [List.length_append] at hfit
      omega
    · exact List.mem_append_left rest (List.mem_of_getLast? hlast)
  rw [hrest, List.append_nil]
  exact ⟨rfl, rfl⟩

/-- Behind a cut the stream goes on. -/
theorem Cut.stream {room : Nat} {piece rest : List α} (hfit : max < room) (hcut : Cut d room s piece rest)
    (h : Stream d max ts tail s) : ∃ ts' tail', Stream d max ts' tail' rest := by
  cases h with
  | rest hd hlen =>
    obtain ⟨-, rfl⟩ := hcut.rest hd (Nat.lt_of_le_of_lt hlen hfit)
    exact ⟨[], [], .rest List.not_mem_nil (Nat.zero_le max)⟩
  | line hd hlen hs =>
    obtain ⟨-, rfl⟩ := hcut.line hd (Nat.lt_of_le_of_lt hlen hfit)
    exact ⟨_, _, hs⟩

/-- With room for the longest line, the reader gets the lines, what is left, and nothing. -/
theorem Cuts.pieces {rooms : List Nat} {pieces : List (List α)} {left : List α} (hroom : ∀ room ∈ rooms, max < room)
    (hc : Cuts d rooms s pieces left) (h : Stream d max ts tail s) : ∀ n, rooms.length ≤ n →
      pieces = (ts.map (· ++ [d]) ++ tail :: List.replicate n []).take rooms.length := by
  induction hc generalizing ts tail with
  | done => exact fun n _ => rfl
  | @cut room rooms s piece rest pieces left hcut _ ih =>
    intro n hn
    have hfit : max < room := hroom room List.mem_cons_self
    have hlater : ∀ room ∈ rooms, max < room := fun room hmem => hroom room (List.mem_cons_of_mem _ hmem)
    rw [List.length_cons] at hn ⊢
    cases h with
    | rest hd hlen =>
      obtain ⟨rfl, rfl⟩ := hcut.rest hd (Nat.lt_of_le_of_lt hlen hfit)
      obtain ⟨n, rfl⟩ : ∃ n', n = n' + 1 := ⟨n - 1, by omega⟩
      have hpieces := ih hlater (.rest List.not_mem_nil (Nat.zero_le max)) n (by omega)
      rw [hpieces]
      rfl
    | line hd hlen hs =>
      obtain ⟨rfl, rfl⟩ := hcut.line hd (Nat.lt_of_le_of_lt hlen hfit)
      have hpieces := ih hlater hs n (by omega)
      rw [hpieces]
      rfl

end Lines
