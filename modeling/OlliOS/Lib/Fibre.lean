import Mathlib.Data.Set.Card

/-!
# How many names have a value

The names that a function takes to one value, and how their number changes when the function is
changed at one name.
-/

namespace Fibre

variable {ι α : Type*} [DecidableEq ι] {f : ι → α} {i : ι} {x v : α}

def fibre (f : ι → α) (v : α) : Set ι := {i | f i = v}

omit [DecidableEq ι] in
@[simp] theorem mem_fibre : i ∈ fibre f v ↔ f i = v := Iff.rfl

theorem fibre_update_self : fibre (Function.update f i v) v = insert i (fibre f v) := by
  ext j
  rcases eq_or_ne j i with rfl | hne
  · simp
  · simp [hne]

theorem fibre_update_of_ne (hx : x ≠ v) : fibre (Function.update f i x) v = fibre f v \ {i} := by
  ext j
  rcases eq_or_ne j i with rfl | hne
  · simp [hx]
  · simp [hne]

theorem finite_update (h : (fibre f v).Finite) : (fibre (Function.update f i x) v).Finite := by
  rcases eq_or_ne x v with rfl | hne
  · rw [fibre_update_self]
    exact h.insert i
  · rw [fibre_update_of_ne hne]
    exact h.diff

theorem ncard_update_gain (h : (fibre f v).Finite) (hi : f i ≠ v) :
    (fibre (Function.update f i v) v).ncard = (fibre f v).ncard + 1 := by
  have hmem : i ∉ fibre f v := hi
  rw [fibre_update_self, Set.ncard_insert_of_notMem hmem h]

theorem ncard_update_lose (h : (fibre f v).Finite) (hi : f i = v) (hx : x ≠ v) :
    (fibre (Function.update f i x) v).ncard + 1 = (fibre f v).ncard := by
  rw [fibre_update_of_ne hx]
  exact Set.ncard_sdiff_singleton_add_one hi h

theorem fibre_update_other (hi : f i ≠ v) (hx : x ≠ v) : fibre (Function.update f i x) v = fibre f v := by
  rw [fibre_update_of_ne hx]
  exact Set.sdiff_singleton_eq_self hi

end Fibre
