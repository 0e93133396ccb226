import Mathlib.Data.Fin.Basic

/-!
# Character screens

A screen is a grid of cells with a cursor on one of them. A character goes to the cell of the cursor, which then
moves on; behind the last line the screen scrolls. A tab leaves blanks up to the next stop. When the stops
divide the width, that is what as many blanks do one by one (`tab_eq_iterate`).
-/

structure Screen (height width : ℕ) (α : Type*) where
  row : Fin height
  column : Fin width
  cell : Fin height → Fin width → α

namespace Screen

variable {height width : ℕ} {α : Type*}

def scroll (blank : α) (s : Screen height width α) : Screen height width α :=
  { s with cell := fun y x => if h : y.val + 1 < height then s.cell ⟨y + 1, h⟩ x else blank }

def carriageReturn (s : Screen height width α) : Screen height width α :=
  { s with column := ⟨0, s.column.pos⟩ }

def nextLine (blank : α) (s : Screen height width α) : Screen height width α :=
  if h : s.row.val + 1 < height then { s.carriageReturn with row := ⟨s.row + 1, h⟩ }
  else s.carriageReturn.scroll blank

/-- The cursor moves back, also to the end of the line above; it stops at the origin. -/
def backspace (s : Screen height width α) : Screen height width α :=
  if 0 < s.column.val then { s with column := ⟨s.column - 1, by omega⟩ }
  else if 0 < s.row.val then
    { s with row := ⟨s.row - 1, by omega⟩, column := ⟨width - 1, by have := s.column.pos; omega⟩ }
  else s

def erase (blank : α) (stop : ℕ) (s : Screen height width α) : Screen height width α :=
  { s with cell := fun y x =>
    if y = s.row ∧ s.column ≤ x ∧ x.val < stop then blank else s.cell y x }

def moveTo (blank : α) (column : ℕ) (s : Screen height width α) : Screen height width α :=
  if h : column < width then { s with column := ⟨column, h⟩ } else s.nextLine blank

def put (blank c : α) (s : Screen height width α) : Screen height width α :=
  moveTo blank (s.column + 1) { s with cell := fun y x => if y = s.row ∧ x = s.column then c else s.cell y x }

def tab (blank : α) (size : ℕ) (s : Screen height width α) : Screen height width α :=
  (s.erase blank ((s.column / size + 1) * size)).moveTo blank ((s.column / size + 1) * size)

variable {blank : α} {s : Screen height width α}

theorem put_erase {n : ℕ} (h : s.column + n < width) :
    put blank blank ((s.erase blank (s.column + n)).moveTo blank (s.column + n)) =
      (s.erase blank (s.column + (n + 1))).moveTo blank (s.column + (n + 1)) := by
  have hcell : (fun y x => if y = s.row ∧ x = (⟨s.column + n, h⟩ : Fin width) then blank
      else (s.erase blank (s.column + n)).cell y x) = (s.erase blank (s.column + (n + 1))).cell := by
    funext y x
    simp only [erase, Fin.ext_iff, Fin.le_def]
    by_cases hlast : y.val = s.row.val ∧ x.val = s.column + n
    · rw [if_pos hlast, if_pos (by omega)]
    · rw [if_neg hlast]
      by_cases hin : y.val = s.row.val ∧ s.column.val ≤ x.val ∧ x.val < s.column + n
      · rw [if_pos hin, if_pos (by omega)]
      · rw [if_neg hin, if_neg (by omega)]
  have hmove : (s.erase blank (s.column + n)).moveTo blank (s.column + n) =
      { s.erase blank (s.column + n) with column := ⟨s.column + n, h⟩ } := dif_pos h
  rw [hmove, put]
  exact congrArg (fun cell => moveTo blank (s.column + (n + 1)) ⟨s.row, ⟨s.column + n, h⟩, cell⟩) hcell

theorem iterate_put_blank : ∀ n : ℕ, s.column + n ≤ width →
    (put blank blank)^[n] s = (s.erase blank (s.column + n)).moveTo blank (s.column + n)
  | 0, _ => by
    have hcell : (s.erase blank s.column).cell = s.cell := by
      funext y x
      exact if_neg fun h => by omega
    rw [Nat.add_zero, moveTo, dif_pos s.column.isLt]
    exact congrArg (fun cell => (⟨s.row, s.column, cell⟩ : Screen height width α)) hcell.symm
  | n + 1, h => by rw [Function.iterate_succ_apply', iterate_put_blank n (by omega), put_erase (by omega)]

theorem tab_eq_iterate {size : ℕ} (hsize : 0 < size) (hdvd : size ∣ width) :
    s.tab blank size = (put blank blank)^[size - s.column % size] s := by
  have hmod := Nat.mod_lt s.column hsize
  have hstop : s.column + (size - s.column % size) = (s.column / size + 1) * size := by
    have hdiv := Nat.div_add_mod' s.column size
    rw [Nat.add_mul, Nat.one_mul]
    omega
  have hwidth : (s.column / size + 1) * size ≤ width := by
    obtain ⟨k, rfl⟩ := hdvd
    have hk : s.column / size < k := Nat.div_lt_of_lt_mul s.column.isLt
    rw [Nat.mul_comm]
    exact Nat.mul_le_mul_left size hk
  rw [iterate_put_blank _ (hstop ▸ hwidth), hstop, tab]

end Screen
