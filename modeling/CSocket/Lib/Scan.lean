import Mathlib.Data.List.Infix
import Mathlib.Data.List.Nodup
import Mathlib.Data.List.Range
/-!
# Loops that serve a table and break off

A loop over consecutive indices of a table serves those that are due, and breaks
off where `stop` holds after one of them. If serving one index leaves the others
as due as they were, the loop serves a prefix of what was due at its start
(`loop_ends`). If it stops by counting down, it serves all of it (`Ends.all`).
-/
namespace Scan
variable {σ : Type} (due : σ → Nat → Bool) (serve : Nat → σ → σ) (stop : σ → Bool)

/-- The loop from index `i` on, with `n` rounds to go. -/
def loop : Nat → Nat → σ → σ
  | 0, _, s => s
  | n + 1, i, s =>
    if due s i then
      if stop (serve i s) then serve i s else loop n (i + 1) (serve i s)
    else loop n (i + 1) s

/-- Serves the indices `is`, one after the other. -/
def serveAll (is : List Nat) (s : σ) : σ := is.foldl (fun s i => serve i s) s

/-- Of the indices `is` that were due in `s`, the loop that ended in `s'` served
`done`; it was not stopped before the last of them. -/
structure Ends (is done : List Nat) (s s' : σ) : Prop where
  isPrefix : done <+: is
  result : s' = serveAll serve done s
  rest : done = is ∨ done ≠ [] ∧ stop s' = true
  running : ∀ k, 0 < k → k < done.length → stop (serveAll serve (done.take k) s) = false

variable {due serve stop} {is done : List Nat} {s s' : σ}

@[simp] theorem serveAll_nil (s : σ) : serveAll serve [] s = s := rfl

@[simp] theorem serveAll_cons (i : Nat) (is : List Nat) (s : σ) :
    serveAll serve (i :: is) s = serveAll serve is (serve i s) := rfl

theorem loop_ends (hstay : ∀ s i j, i ≠ j → due (serve i s) j = due s j) (n : Nat) : ∀ (i : Nat) (s : σ),
    ∃ done, Ends serve stop ((List.range' i n).filter (due s)) done s (loop due serve stop n i s) := by
  induction n with
  | zero =>
    intro i s
    exact ⟨[], List.prefix_rfl, rfl, .inl rfl, fun k _ hk => absurd hk (Nat.not_lt_zero k)⟩
  | succ n ih =>
    intro i s
    unfold loop
    rw [List.range'_succ]
    by_cases hdue : due s i = true
    · rw [if_pos hdue, List.filter_cons_of_pos hdue]
      have hlater : (List.range' (i + 1) n).filter (due (serve i s)) = (List.range' (i + 1) n).filter (due s) := by
        apply List.filter_congr
        intro j hj
        rw [List.mem_range'_1] at hj
        exact hstay s i j (by omega)
      by_cases hstop : stop (serve i s) = true
      · rw [if_pos hstop]
        refine ⟨[i], (List.prefix_cons_inj i).mpr List.nil_prefix, rfl, .inr ⟨List.cons_ne_nil _ _, hstop⟩, ?_⟩
        intro k h0 hk
        rw [List.length_singleton] at hk
        omega
      · rw [if_neg hstop]
        obtain ⟨done, hprefix, hresult, hrest, hrunning⟩ := ih (i + 1) (serve i s)
        rw [hlater] at hprefix hrest
        refine ⟨i :: done, (List.prefix_cons_inj i).mpr hprefix, hresult, ?_, ?_⟩
        · rcases hrest with rfl | ⟨-, hrest⟩
          · exact .inl rfl
          · exact .inr ⟨List.cons_ne_nil _ _, hrest⟩
        · intro k h0 hk
          obtain ⟨k, rfl⟩ : ∃ k', k = k' + 1 := ⟨k - 1, by omega⟩
          rw [List.take_succ_cons, serveAll_cons]
          rcases Nat.eq_zero_or_pos k with rfl | hpos
          · simpa using hstop
          · exact hrunning k hpos (Nat.lt_of_succ_lt_succ hk)
    · rw [if_neg hdue, List.filter_cons_of_neg hdue]
      exact ih (i + 1) s

/-- Where the served ones among `is` would stop the loop, it goes no further. -/
theorem Ends.stops (h : Ends serve stop is done s s') {a : List Nat} (ha : a <+: is) (hne : a ≠ [])
    (hstop : stop (serveAll serve a s) = true) : done <+: a := by
  refine List.prefix_of_prefix_length_le h.isPrefix ha (Nat.le_of_not_lt fun hlt => ?_)
  have htake : done.take a.length = a :=
    List.prefix_iff_eq_take.mp (List.prefix_of_prefix_length_le ha h.isPrefix hlt.le) |>.symm
  have hrun := h.running a.length (List.length_pos_iff.mpr hne) hlt
  rw [htake, hstop] at hrun
  cases hrun

/-! ## Counting down -/

section
variable {count : σ → Int} (hcount : ∀ s i, count (serve i s) = count s - 1)
include hcount

theorem serveAll_count (is : List Nat) (s : σ) : count (serveAll serve is s) = count s - is.length := by
  induction is generalizing s with
  | nil => simp
  | cons i is ih =>
    rw [serveAll_cons, ih, hcount, List.length_cons]
    omega

/-- A loop that stops at 0 only and has at least as much to count down as there is
to serve serves everything. -/
theorem Ends.all (h : Ends serve stop is done s s') (hstop : stop s' = true → count s' ≤ 0)
    (hle : (is.length : Int) ≤ count s) : done = is := by
  rcases h.rest with he | ⟨-, hs'⟩
  · exact he
  · have hzero := hstop hs'
    rw [h.result, serveAll_count hcount] at hzero
    exact h.isPrefix.eq_of_length_le (by omega)

end

/-! ## What serving leaves -/

/-- What serving one index keeps, serving many keeps. -/
theorem serveAll_keeps {P : σ → Prop} (h : ∀ i ∈ is, ∀ s, P s → P (serve i s)) (h0 : P s) : P (serveAll serve is s) := by
  induction is generalizing s with
  | nil => exact h0
  | cons i is ih =>
    exact ih (fun j hj => h j (List.mem_cons_of_mem i hj)) (h i List.mem_cons_self s h0)

/-- Two tables that are served alike stay alike. -/
theorem serveAll_related {τ : Type} {serve' : Nat → τ → τ} {R : σ → τ → Prop} {f : Nat → Nat} {t : τ}
    (h : ∀ i ∈ is, ∀ s t, R s t → R (serve i s) (serve' (f i) t)) (h0 : R s t) :
    R (serveAll serve is s) (serveAll serve' (is.map f) t) := by
  induction is generalizing s t with
  | nil => exact h0
  | cons i is ih =>
    exact ih (fun j hj => h j (List.mem_cons_of_mem i hj)) (h i List.mem_cons_self s t h0)

/-- A flag that serving can only raise. -/
theorem serveAll_flag {flag : σ → Bool} {raises : Nat → Bool} (h : ∀ s i, flag (serve i s) = (flag s || raises i))
    (is : List Nat) (s : σ) : flag (serveAll serve is s) = (flag s || is.any raises) := by
  induction is generalizing s with
  | nil => simp
  | cons i is ih => rw [serveAll_cons, ih, h, List.any_cons, Bool.or_assoc]

/-- A history to which every index adds what is in its own entry. -/
theorem serveAll_log {β : Type} {log : σ → List β} {entry : σ → Nat → β}
    (hlog : ∀ s i, log (serve i s) = log s ++ [entry s i]) (hstay : ∀ s i j, i ≠ j → entry (serve i s) j = entry s j)
    (hnodup : is.Nodup) (s : σ) : log (serveAll serve is s) = log s ++ is.map (entry s) := by
  induction is generalizing s with
  | nil => simp
  | cons i is ih =>
    obtain ⟨hi, hnodup⟩ := List.nodup_cons.mp hnodup
    have hmap : is.map (entry (serve i s)) = is.map (entry s) := by
      apply List.map_congr_left
      rintro j hj
      apply hstay
      rintro rfl
      exact hi hj
    rw [serveAll_cons, ih hnodup, hlog, hmap, List.append_assoc, List.map_cons]
    rfl

end Scan
