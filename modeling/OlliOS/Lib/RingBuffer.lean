import Mathlib.Data.List.Basic

/-!
# Ring buffers

A ring of `n` slots with a read index `r` and a write index `w` holds the slots from `r` up to and
without `w`, going round the end. One slot always stays free, so that `r = w` means empty.
-/

namespace RingBuffer

open List

variable {α : Type*}

def next (n i : ℕ) : ℕ := if i + 1 < n then i + 1 else 0

def fill (n r w : ℕ) : ℕ := if r ≤ w then w - r else n + w - r

def slot (n r k : ℕ) : ℕ := if r + k < n then r + k else r + k - n

def contents (data : ℕ → α) (n r w : ℕ) : List α := (range (fill n r w)).map fun k => data (slot n r k)

variable {n r w : ℕ} {data : ℕ → α}

theorem next_lt (h : r < n) : next n r < n := by
  unfold next
  split_ifs <;> omega

@[simp] theorem length_contents : (contents data n r w).length = fill n r w := by simp [contents]

theorem fill_lt (hr : r < n) (hw : w < n) : fill n r w < n := by
  unfold fill
  split_ifs <;> omega

@[simp] theorem contents_self : contents data n r r = [] := by simp [contents, fill]

theorem fill_eq_zero_iff (hr : r < n) : fill n r w = 0 ↔ r = w := by
  unfold fill
  split_ifs <;> omega

theorem contents_eq_nil_iff (hr : r < n) : contents data n r w = [] ↔ r = w := by
  rw [← length_eq_zero_iff, length_contents, fill_eq_zero_iff hr]

theorem next_eq_iff (hr : r < n) (hw : w < n) : next n w = r ↔ fill n r w + 1 = n := by
  unfold next fill
  split_ifs <;> omega

theorem contents_push (hr : r < n) (hw : w < n) (hne : next n w ≠ r) (x : α) :
    contents (Function.update data w x) n r (next n w) = contents data n r w ++ [x] := by
  have hfill : fill n r (next n w) = fill n r w + 1 := by
    unfold next at hne ⊢
    unfold fill
    split_ifs at hne ⊢ <;> omega
  have hlast : slot n r (fill n r w) = w := by
    unfold slot fill
    split_ifs <;> omega
  simp only [contents, hfill, range_succ, map_append, map_cons, map_nil, hlast,
    Function.update_self, append_cancel_right_eq]
  refine map_congr_left fun k hk => Function.update_of_ne ?_ _ _
  rw [mem_range] at hk
  unfold fill at hk
  unfold slot
  split_ifs at hk ⊢ <;> omega

theorem contents_pop (hr : r < n) (hw : w < n) (hne : r ≠ w) :
    contents data n r w = data r :: contents data n (next n r) w := by
  have hfill : fill n r w = fill n (next n r) w + 1 := by
    unfold next fill
    split_ifs <;> omega
  have hfirst : slot n r 0 = r := by
    unfold slot
    split_ifs <;> omega
  simp only [contents, hfill, range_succ_eq_map, map_cons, hfirst, map_map, cons.injEq, true_and]
  refine map_congr_left fun k hk => congrArg data ?_
  rw [mem_range] at hk
  unfold fill next at hk
  unfold slot next
  split_ifs at hk ⊢ <;> omega

end RingBuffer
