import Mathlib.Data.List.Induction
import OlliOS.Libk.Stdlib

/-!
# `kstd::vector`

The elements of a vector as a list, with the loops of the source run on it.
-/

namespace OlliOS.Vector

variable {α : Type*}

def moveDown (xs : List α) (i : ℕ) : List α :=
  match xs[i + 1]? with
  | some x => xs.set i x
  | none => xs

def bubble : ℕ → ℕ → List α → List α
  | 0, _, xs => xs
  | n + 1, i, xs => bubble n (i + 1) (moveDown xs i)

/-- `vector::erase`: everything behind the position moves one down, and the last element goes. -/
def erase (xs : List α) (position : ℕ) : List α := (bubble (xs.length - 1 - position) position xs).dropLast

theorem moveDown_append (xs ys : List α) (x y : α) : moveDown (xs ++ x :: y :: ys) xs.length = xs ++ y :: y :: ys := by
  simp [moveDown]

theorem dropLast_bubble : ∀ (ys xs : List α) (x : α), (bubble ys.length xs.length (xs ++ x :: ys)).dropLast = xs ++ ys
  | [], xs, x => by simp [bubble]
  | y :: ys, xs, x => by
    rw [List.length_cons, bubble, moveDown_append]
    have ih := dropLast_bubble ys (xs ++ [y]) y
    simpa using ih

theorem erase_eq (xs ys : List α) (x : α) : erase (xs ++ x :: ys) xs.length = xs ++ ys := by
  have hn : (xs ++ x :: ys).length - 1 - xs.length = ys.length := by
    simp only [List.length_append, List.length_cons]
    omega
  rw [erase, hn, dropLast_bubble]

def moveUp (xs : List α) (i : ℕ) : List α :=
  match xs[i - 1]? with
  | some x => xs.set i x
  | none => xs

def lift : ℕ → ℕ → List α → List α
  | 0, _, xs => xs
  | n + 1, i, xs => lift n (i - 1) (moveUp xs i)

/-- `vector::insert`: the last element is pushed again, everything from the position on moves one up. -/
def insert (xs : List α) (position : ℕ) (val : α) : List α :=
  match xs.getLast? with
  | some last =>
    let ys := xs ++ [last]
    (lift (ys.length - 2 - position) (ys.length - 2) ys).set position val
  | none => if position = 0 then [val] else xs

theorem moveUp_append (xs ys : List α) (x y : α) :
    moveUp (xs ++ x :: y :: ys) (xs.length + 1) = xs ++ x :: x :: ys := by
  have hset : (xs ++ x :: y :: ys).set (xs.length + 1) x = xs ++ x :: x :: ys := by
    rw [List.set_append_right _ _ (Nat.le_succ _)]
    simp
  simp [moveUp, hset]

theorem set_lift (xs : List α) (v : α) : ∀ (ys : List α) (z : α) (rest : List α),
    (lift ys.length (xs.length + ys.length) (xs ++ ys ++ z :: rest)).set xs.length v = xs ++ v :: (ys ++ rest) := by
  intro ys
  induction ys using List.reverseRecOn with
  | nil =>
    intro z rest
    simp [lift]
  | append_singleton ys y ih =>
    intro z rest
    have hmove := moveUp_append (xs ++ ys) rest y z
    rw [List.length_append] at hmove
    have hlist : xs ++ (ys ++ [y]) ++ z :: rest = xs ++ ys ++ y :: z :: rest := by simp
    rw [List.length_append, List.length_singleton, lift, hlist, ← Nat.add_assoc, hmove, Nat.add_sub_cancel, ih]
    simp

theorem insert_eq (xs ys : List α) (v : α) : insert (xs ++ ys) xs.length v = xs ++ v :: ys := by
  rcases List.eq_nil_or_concat ys with rfl | ⟨ys, y, rfl⟩
  · rw [List.append_nil, insert]
    rcases hlast : xs.getLast? with _ | last
    · rw [List.getLast?_eq_none_iff] at hlast
      subst hlast
      rfl
    · have hnone : (xs ++ [last]).length - 2 - xs.length = 0 := by
        rw [List.length_append, List.length_singleton]
        omega
      simp only [hnone, lift]
      simp
  · have hlast : (xs ++ ys.concat y).getLast? = some y := by simp
    have hstart : (xs ++ ys.concat y ++ [y]).length - 2 = xs.length + ys.length := by
      simp only [List.length_append, List.length_concat, List.length_singleton]
      omega
    have hlift := set_lift xs v ys y [y]
    rw [insert, hlast]
    simp only [hstart, Nat.add_sub_cancel_left]
    rw [List.concat_eq_append] at *
    simpa using hlift

/-! ## Growth -/

structure Raw (α : Type*) where
  cells : List (Option α)
  length : UInt32
  maxLength : UInt32

namespace Raw

def empty : Raw α := ⟨[], 0, 0⟩

def testExpand (width : UInt32) (v : Raw α) : Raw α :=
  if v.length = v.maxLength then
    let maxLength := v.maxLength * 2 + 1
    let count := (maxLength * width).toNat / width.toNat
    { v with cells := v.cells.take count ++ List.replicate (count - v.cells.length) none, maxLength }
  else v

def pushBack (width : UInt32) (v : Raw α) (val : α) : Option (Raw α) :=
  let v := v.testExpand width
  if v.length.toNat < v.cells.length then
    some { v with cells := v.cells.set v.length.toNat (some val), length := v.length + 1 }
  else none

def load (v : Raw α) (i : ℕ) : Option α := v.cells[i]?.join

def store (v : Raw α) (i : ℕ) (x : α) : Option (Raw α) :=
  if i < v.cells.length then some { v with cells := v.cells.set i (some x) } else none

def popBack (v : Raw α) : Raw α :=
  if 0 < v.length then
    { v with cells := v.cells.set (v.length - 1).toNat none, length := v.length - 1 }
  else v

def bubblePass : UInt32 × Raw α → (UInt32 × Raw α) ⊕ Option (Raw α) := fun (i, v) =>
  if i + 1 < v.length then
    match (v.load (i + 1).toNat).bind (v.store i.toNat) with
    | some v => .inl (i + 1, v)
    | none => .inr none
  else .inr (some v)

def erase (n : ℕ) (v : Raw α) (position : UInt32) : Option (Raw α) :=
  (Loop.run bubblePass n (position, v)).join.map popBack

/-- The loop in `insert`, from an index down to the position. -/
def lift (position : ℕ) : ℕ → Raw α → Option (Raw α)
  | 0, v => some v
  | i + 1, v =>
    if position < i + 1 then (v.load i).bind fun x => (v.store (i + 1) x).bind (lift position i)
    else some v

/-- The reference that `back()` returns is read after the array has grown, and the old array is free
then: `freed` is what the copy constructor makes of an element in a freed array. -/
def insert (width : UInt32) (v : Raw α) (position : UInt32) (val : α) (freed : α → Option α) :
    Option (Raw α) :=
  if 0 < v.length then do
    let last ← v.load (v.length - 1).toNat
    let last ← (if v.length = v.maxLength then freed last else some last)
    let v ← v.pushBack width last
    let v ← v.lift position.toNat (v.length - 2).toNat
    v.store position.toNat val
  else if position = 0 then v.pushBack width val
  else some v

def copy (width : UInt32) (v : Raw α) : Option (Raw α) :=
  (List.range v.length.toNat).foldlM (fun w i => (v.load i).bind (w.store i))
    { v with cells := List.replicate ((v.maxLength * width).toNat / width.toNat) none }

end Raw

/-- The copy constructor of `std::string`, for the last of the `count` strings in the array that `realloc`
has just freed in the heap `h`: it allocates its characters, and then reads the pointer. Nothing is known
of the copy if that is another one by then. -/
def copyFreed (h : BucketAlloc) (array count : UInt32) (s : List UInt8) : Option (List UInt8) := do
  let last := array + 4 * (count - 1)
  let (h', _) ← (Libk.realloc h array (4 * (count * 2 + 1)) []).toOption.join
  let (h', _) ← Libk.malloc h' (.ofNat (s.length + 1)) []
  if Words.load h'.mem last = Words.load h.mem last then some s else none

inductive VectorCall (α : Type*)
  | pushBack (val : α)
  | popBack
  | insert (position : UInt32) (val : α) (freed : α → Option α)
  | erase (position : UInt32)
  | clear
  | copy

def VectorCall.apply : VectorCall α → List α → List α
  | .pushBack val, xs => xs ++ [val]
  | .popBack, xs => xs.dropLast
  | .insert p val _, xs => xs.take p.toNat ++ [val] ++ xs.drop p.toNat
  | .erase p, xs => xs.take p.toNat ++ xs.drop (p.toNat + 1)
  | .clear, _ => []
  | .copy, xs => xs

namespace Raw

def step (width : UInt32) (v : Raw α) : VectorCall α → Option (Raw α)
  | .pushBack val => v.pushBack width val
  | .popBack => some v.popBack
  | .insert p val freed => v.insert width p val freed
  | .erase p => v.erase (v.length.toNat + 1) p
  | .clear => some empty
  | .copy => v.copy width

/-- `malloc` does not return if it is asked for more than there are addresses for the heap. -/
def Served (width maxLength : UInt32) : Prop := (maxLength * width).toNat < 2 ^ 30

def Allowed (width : UInt32) (v : Raw α) : VectorCall α → Prop
  | .pushBack _ => v.length = v.maxLength → Served width (v.maxLength * 2 + 1)
  | .insert p _ _ => p ≤ v.length ∧ (v.length = v.maxLength → Served width (v.maxLength * 2 + 1))
  | .erase p => p < v.length
  | .copy => Served width v.maxLength
  | .popBack | .clear => True

instance (width : UInt32) (v : Raw α) : (c : VectorCall α) → Decidable (v.Allowed width c)
  | .pushBack _ => inferInstanceAs (Decidable (_ = _ → _ < _))
  | .insert .. => inferInstanceAs (Decidable (_ ≤ _ ∧ (_ = _ → _ < _)))
  | .erase _ | .copy => inferInstanceAs (Decidable (_ < _))
  | .popBack | .clear => inferInstanceAs (Decidable True)

/-- If an `insert` makes the array grow, the copy constructor finds the last element in the freed array as
it was. Behind the last element it is enough that it returns. -/
def Rereads (v : Raw α) : VectorCall α → Prop
  | .insert p _ freed => v.length = v.maxLength → 0 < v.length →
      ∀ last ∈ v.load (v.length - 1).toNat,
        freed last = some last ∨ p = v.length ∧ (freed last).isSome
  | _ => True

instance [DecidableEq α] (v : Raw α) : (c : VectorCall α) → Decidable (v.Rereads c)
  | .insert .. => inferInstanceAs (Decidable (_ = _ → _ < _ → ∀ last ∈ _, _ ∨ _))
  | .pushBack _ | .erase _ | .copy | .popBack | .clear => inferInstanceAs (Decidable True)

/-- The array starts with the elements. -/
structure Holds (v : Raw α) (xs : List α) : Prop where
  cells : ∃ rest, v.cells = xs.map some ++ rest
  length : v.length.toNat = xs.length
  room : v.cells.length = v.maxLength.toNat

/-- The vector has the elements, and no more than twice the room that they need. -/
structure Represents (v : Raw α) (xs : List α) : Prop where
  cells : ∃ rest, v.cells = xs.map some ++ rest
  length : v.length.toNat = xs.length
  room : v.cells.length = v.maxLength.toNat
  bound : v.maxLength.toNat ≤ 2 * xs.length

theorem represents_empty : Represents (empty : Raw α) [] := ⟨⟨[], rfl⟩, rfl, rfl, Nat.le_refl _⟩

open List

variable {width : UInt32} {v : Raw α} {xs : List α}

namespace Holds

theorem testExpand (h : Holds v xs) (hw : 0 < width.toNat)
    (hfit : v.length = v.maxLength → (2 * xs.length + 1) * width.toNat < 2 ^ 32) :
    (∃ x rest, (v.testExpand width).cells = xs.map some ++ x :: rest) ∧ (v.testExpand width).length = v.length ∧
      (v.testExpand width).cells.length = (v.testExpand width).maxLength.toNat ∧
      (v.testExpand width).maxLength.toNat =
        if v.length = v.maxLength then 2 * xs.length + 1 else v.maxLength.toNat := by
  obtain ⟨rest, hcells⟩ := h.cells
  have hlen := congrArg List.length hcells
  rw [h.room, length_append, length_map] at hlen
  unfold Raw.testExpand
  split_ifs with hfull
  · have hmax : v.maxLength.toNat = xs.length := by rw [← hfull, h.length]
    have hle : (2 * xs.length + 1) * 1 ≤ (2 * xs.length + 1) * width.toNat := Nat.mul_le_mul_left _ hw
    specialize hfit hfull
    have hnew : (v.maxLength * 2 + 1).toNat = 2 * xs.length + 1 := by
      rw [UInt32.toNat_add, UInt32.toNat_mul, hmax]
      change (xs.length * 2 % 2 ^ 32 + 1) % 2 ^ 32 = _
      omega
    have hcount : ((v.maxLength * 2 + 1) * width).toNat / width.toNat = 2 * xs.length + 1 := by
      rw [UInt32.toNat_mul, hnew, Nat.mod_eq_of_lt hfit, Nat.mul_div_cancel _ hw]
    obtain rfl : rest = [] := eq_nil_of_length_eq_zero (by omega)
    simp only [hcount, hcells, append_nil]
    refine ⟨⟨none, replicate xs.length none, ?_⟩, trivial, ?_, hnew⟩
    · rw [take_of_length_le (by rw [length_map]; omega), length_map,
        show 2 * xs.length + 1 - xs.length = xs.length + 1 by omega, replicate_succ]
    · simp only [length_append, length_take, length_map, length_replicate]
      omega
  · have hne : rest ≠ [] := by
      rintro rfl
      refine hfull (UInt32.toNat_inj.1 ?_)
      rw [h.length, hlen, length_nil, Nat.add_zero]
    obtain ⟨x, rest, rfl⟩ := exists_cons_of_ne_nil hne
    exact ⟨⟨x, rest, hcells⟩, rfl, h.room, rfl⟩

theorem pushBack (h : Holds v xs) (hw : 0 < width.toNat)
    (hfit : v.length = v.maxLength → (2 * xs.length + 1) * width.toNat < 2 ^ 32) (val : α) :
    ∃ v', v.pushBack width val = some v' ∧ Holds v' (xs ++ [val]) ∧
      v'.maxLength.toNat = if v.length = v.maxLength then 2 * xs.length + 1 else v.maxLength.toNat := by
  obtain ⟨⟨x, rest, hcells⟩, hlength, hroom, hmax⟩ := h.testExpand hw hfit
  have hlen : (v.testExpand width).length.toNat = xs.length := by rw [hlength, h.length]
  have hlt : (v.testExpand width).length.toNat < (v.testExpand width).cells.length := by
    rw [hlen, hcells, length_append, length_map, length_cons]
    omega
  have hword := (v.testExpand width).maxLength.toNat_lt
  refine ⟨_, if_pos hlt, ⟨⟨rest, ?_⟩, ?_, ?_⟩, hmax⟩
  · simp only [hlen, hcells]
    rw [set_append_right _ _ (Nat.le_of_eq (length_map _)), length_map, Nat.sub_self]
    simp
  · simp only [UInt32.toNat_add, hlen, length_append, length_singleton]
    change (xs.length + 1) % 2 ^ 32 = _
    omega
  · simp only [length_set, hroom]

end Holds

namespace Represents

theorem pushBack (h : Represents v xs) (hw : 0 < width.toNat) (hfit : (2 * xs.length + 1) * width.toNat < 2 ^ 32)
    (val : α) : ∃ v', v.pushBack width val = some v' ∧ Represents v' (xs ++ [val]) := by
  obtain ⟨v', hv', hholds, hmax⟩ := Holds.pushBack ⟨h.cells, h.length, h.room⟩ hw (fun _ => hfit) val
  have hbound := h.bound
  refine ⟨v', hv', hholds.cells, hholds.length, hholds.room, ?_⟩
  rw [hmax, length_append, length_singleton]
  split_ifs <;> omega

theorem pushAll (hw : 0 < width.toNat) : ∀ (ys : List α) {v : Raw α} {xs : List α}, Represents v xs →
    (2 * (xs.length + ys.length)) * width.toNat < 2 ^ 32 →
    ∃ v', ys.foldlM (Raw.pushBack width) v = some v' ∧ Represents v' (xs ++ ys)
  | [], v, xs, h, _ => ⟨v, rfl, by simpa using h⟩
  | y :: ys, v, xs, h, hfit => by
    rw [length_cons] at hfit
    have hfirst : (2 * xs.length + 1) * width.toNat < 2 ^ 32 :=
      Nat.lt_of_le_of_lt (Nat.mul_le_mul_right _ (by omega)) hfit
    obtain ⟨v', hv', h'⟩ := h.pushBack hw hfirst y
    obtain ⟨v'', hv'', h''⟩ := pushAll hw ys h' (by
      rw [length_append, length_singleton, Nat.add_assoc, Nat.add_comm 1]
      exact hfit)
    refine ⟨v'', ?_, by simpa using h''⟩
    rw [foldlM_cons, hv']
    exact hv''

end Represents

end Raw

end OlliOS.Vector
