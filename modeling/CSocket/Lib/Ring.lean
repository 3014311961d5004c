import Mathlib.Data.Nat.ModEq
import Mathlib.Tactic.Ring
/-!
# A list in a circular buffer

`Ring.contents mem cap front size` reads `size` cells from `front` on, wrapping
at `cap`. Storing behind the last cell appends, moving `front` on removes the
first. Front and rear may be equal; the size tells a full buffer from an empty
one.
-/
namespace Ring
variable {α : Type}

def contents (mem : Nat → α) (cap front size : Nat) : List α :=
  (List.range size).map fun i => mem ((front + i) % cap)

@[simp] theorem length_contents (mem : Nat → α) (cap front size : Nat) :
    (contents mem cap front size).length = size := by
  simp [contents]

theorem getElem?_contents (mem : Nat → α) (cap front : Nat) {size i : Nat} (hi : i < size) :
    (contents mem cap front size)[i]? = some (mem ((front + i) % cap)) := by
  simp [contents, hi]

@[simp] theorem contents_zero (mem : Nat → α) (cap front : Nat) : contents mem cap front 0 = [] := rfl

theorem contents_congr {mem mem' : Nat → α} {cap front size : Nat}
    (h : ∀ i < size, mem ((front + i) % cap) = mem' ((front + i) % cap)) :
    contents mem cap front size = contents mem' cap front size :=
  List.map_congr_left fun i hi => h i (List.mem_range.mp hi)

/-- Cells less than a whole turn apart are different. -/
theorem index_ne {cap front i j : Nat} (hi : i < j) (hj : j < cap) : (front + i) % cap ≠ (front + j) % cap := by
  intro h
  have hmod : i ≡ j [MOD cap] := Nat.ModEq.add_left_cancel' front h
  have := Nat.ModEq.eq_of_lt_of_lt hmod (by omega) hj
  omega

theorem contents_push (mem mem' : Nat → α) (front : Nat) {cap size : Nat} (hlt : size < cap)
    (hother : ∀ i, i ≠ (front + size) % cap → mem' i = mem i) :
    contents mem' cap front (size + 1) = contents mem cap front size ++ [mem' ((front + size) % cap)] := by
  have hkeep : contents mem' cap front size = contents mem cap front size :=
    contents_congr fun i hi => hother _ (index_ne hi hlt)
  rw [← hkeep]
  simp [contents, List.range_succ]

theorem contents_pop (mem : Nat → α) (cap front size : Nat) :
    contents mem cap front (size + 1) = mem (front % cap) :: contents mem cap ((front + 1) % cap) size := by
  simp only [contents, List.range_succ_eq_map, List.map_cons, List.map_map, Nat.add_zero]
  congr 1
  refine List.map_congr_left fun i _ => ?_
  simp only [Function.comp_apply, Nat.mod_add_mod]
  congr 2
  omega

/-- Only the front's cell counts. -/
theorem contents_mod (mem : Nat → α) (cap front size : Nat) :
    contents mem cap (front % cap) size = contents mem cap front size := by
  simp [contents]

end Ring
