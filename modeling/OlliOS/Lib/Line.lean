import Mathlib.Data.List.Basic

/-!
# Lines with a cursor

A line is the text to the left of the cursor, nearest first, and the text to the right of it. Each
command of an editor works on the ends that meet at the cursor.
-/

structure Line (α : Type*) where
  left : List α
  right : List α
  deriving DecidableEq

namespace Line

variable {α : Type*}

def empty : Line α := ⟨[], []⟩

def ofText (text : List α) : Line α := ⟨text.reverse, []⟩

def text (l : Line α) : List α := l.left.reverse ++ l.right

def cursor (l : Line α) : ℕ := l.left.length

def insert (l : Line α) (x : α) : Line α := ⟨x :: l.left, l.right⟩

def backspace (l : Line α) : Line α := ⟨l.left.tail, l.right⟩

def delete (l : Line α) : Line α := ⟨l.left, l.right.tail⟩

def home (l : Line α) : Line α := ⟨[], l.text⟩

def toEnd (l : Line α) : Line α := ofText l.text

def moveLeft : Line α → Line α
  | ⟨x :: left, right⟩ => ⟨left, x :: right⟩
  | ⟨[], right⟩ => ⟨[], right⟩

def moveRight : Line α → Line α
  | ⟨left, x :: right⟩ => ⟨x :: left, right⟩
  | ⟨left, []⟩ => ⟨left, []⟩

variable (l : Line α)

theorem length_text : l.text.length = l.left.length + l.right.length := by simp [text]

@[simp] theorem text_empty : (empty : Line α).text = [] := rfl

@[simp] theorem text_ofText (text : List α) : (ofText text).text = text := by simp [ofText, Line.text]

@[simp] theorem text_home : l.home.text = l.text := rfl

@[simp] theorem text_toEnd : l.toEnd.text = l.text := text_ofText _

@[simp] theorem text_moveLeft : l.moveLeft.text = l.text := by
  rcases l with ⟨_ | ⟨x, left⟩, right⟩ <;> simp [moveLeft, text]

@[simp] theorem text_moveRight : l.moveRight.text = l.text := by
  rcases l with ⟨left, _ | ⟨x, right⟩⟩ <;> simp [moveRight, text]

theorem length_insert (x : α) : (l.insert x).text.length = l.text.length + 1 := by
  simp only [length_text, insert, List.length_cons]
  omega

theorem backspace_sublist : l.backspace.text.Sublist l.text := (List.tail_sublist l.left).reverse.append_right _

theorem delete_sublist : l.delete.text.Sublist l.text := (List.tail_sublist l.right).append_left _

theorem mem_insert {x y : α} : x ∈ (l.insert y).text ↔ x = y ∨ x ∈ l.text := by
  simp only [insert, text, List.reverse_cons, List.mem_append, List.mem_singleton]
  tauto

theorem mem_text {x : α} : x ∈ l.text ↔ x ∈ l.left ∨ x ∈ l.right := by simp [text]

end Line
