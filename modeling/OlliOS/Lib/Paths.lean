import Mathlib.Data.List.Basic
import Mathlib.Data.Option.Basic

/-!
# Paths and walks

The pieces of a list between separators, without the empty ones, and the walk along a list of names in
a graph whose nodes have names: each step goes to the first child of that name. A path splits where a
separator stands, and so does the walk along it.
-/

namespace Paths

open List

section Pieces

variable {α : Type*} [DecidableEq α] (sep : α)

/-- What stands between the separators, as far as it is not empty. -/
def pieces (p : List α) : List (List α) := (p.splitOn sep).filter fun n => decide (n ≠ [])

@[simp] theorem pieces_nil : pieces sep [] = [] := by simp [pieces]

theorem pieces_append (p q : List α) : pieces sep (p ++ sep :: q) = pieces sep p ++ pieces sep q := by
  simp [pieces, splitOn_append_cons_self]

@[simp] theorem pieces_cons_self (q : List α) : pieces sep (sep :: q) = pieces sep q := by
  simpa using pieces_append sep [] q

variable {sep}

theorem pieces_of_notMem {n : List α} (hne : n ≠ []) (hsep : sep ∉ n) : pieces sep n = [n] := by
  have hn : n.splitOn sep = [n] := splitOn_eq_singleton hsep
  simp [pieces, hn, hne]

theorem of_mem_splitOn : ∀ {p n : List α}, n ∈ p.splitOn sep → ∀ a ∈ n, a ≠ sep ∧ a ∈ p
  | [], n, hn, a, ha => by
    rw [splitOn_nil, mem_singleton] at hn
    rw [hn] at ha
    cases ha
  | b :: p, n, hn, a, ha => by
    rw [splitOn_cons_eq_if_modifyHead] at hn
    have ih : ∀ {m : List α}, m ∈ p.splitOn sep → a ∈ m → a ≠ sep ∧ a ∈ b :: p := fun hm ham =>
      ⟨(of_mem_splitOn hm a ham).1, mem_cons_of_mem b (of_mem_splitOn hm a ham).2⟩
    split_ifs at hn with hb
    · rcases mem_cons.1 hn with rfl | hn
      · cases ha
      · exact ih hn ha
    rcases hsplit : p.splitOn sep with _ | ⟨m, ms⟩
    · exact absurd hsplit (splitOn_ne_nil sep p)
    rw [hsplit, modifyHead_cons] at hn
    rcases mem_cons.1 hn with rfl | hn
    · rcases mem_cons.1 ha with rfl | ha
      · exact ⟨by simpa using hb, mem_cons_self⟩
      · exact ih (by rw [hsplit]; exact mem_cons_self) ha
    · exact ih (by rw [hsplit]; exact mem_cons_of_mem m hn) ha

theorem pieces_append_of_notMem {n rest : List α} (hne : n ≠ []) (hsep : sep ∉ n)
    (hrest : rest = [] ∨ ∃ q, rest = sep :: q) : pieces sep (n ++ rest) = n :: pieces sep rest := by
  rcases hrest with rfl | ⟨q, rfl⟩
  · simp [pieces_of_notMem hne hsep]
  · rw [pieces_append, pieces_of_notMem hne hsep, pieces_cons_self, singleton_append]

theorem exists_first_piece (sep : α) : ∀ p : List α, ∃ n rest, p = n ++ rest ∧ sep ∉ n ∧
    (rest = [] ∨ ∃ q, rest = sep :: q)
  | [] => ⟨[], [], rfl, not_mem_nil, .inl rfl⟩
  | a :: p => by
    by_cases ha : a = sep
    · exact ⟨[], a :: p, rfl, not_mem_nil, .inr ⟨p, by rw [ha]⟩⟩
    · obtain ⟨n, rest, rfl, hn, hrest⟩ := exists_first_piece sep p
      exact ⟨a :: n, rest, rfl, by simp [hn, Ne.symm ha], hrest⟩

end Pieces

section Walk

variable {ν α : Type*} [DecidableEq α] (children : ν → List ν) (name : ν → α)

def child (f : ν) (n : α) : Option ν := (children f).find? fun c => decide (name c = n)

def walk (f : ν) (ns : List α) : Option ν := ns.foldlM (child children name) f

variable {children name} {n : α} {f c : ν} {name' : ν → α}

@[simp] theorem walk_nil (f : ν) : walk children name f [] = some f := rfl

theorem walk_cons (f : ν) (n : α) (ns : List α) :
    walk children name f (n :: ns) = (child children name f n).bind (walk children name · ns) := rfl

@[simp] theorem walk_singleton (f : ν) (n : α) : walk children name f [n] = child children name f n := by
  exact Option.bind_fun_some _

theorem walk_append (f : ν) (ns ms : List α) :
    walk children name f (ns ++ ms) = (walk children name f ns).bind (walk children name · ms) := by
  simp [walk]

theorem child_mem (h : child children name f n = some c) : c ∈ children f := mem_of_find?_eq_some h

theorem name_of_child (h : child children name f n = some c) : name c = n := by simpa using find?_some h

theorem find?_name_congr : ∀ {cs : List ν}, (∀ c ∈ cs, name' c = name c) →
    (cs.find? fun c => decide (name' c = n)) = cs.find? fun c => decide (name c = n)
  | [], _ => rfl
  | c :: cs, h => by
    rw [find?_cons, find?_cons, h c mem_cons_self,
      find?_name_congr fun c hc => h c (mem_cons_of_mem _ hc)]

/-- Children that come behind the others do not change which one is the first, unless there was
none. -/
theorem child_append {children' : ν → List ν} {more : List ν} (n : α)
    (hchildren : children' f = children f ++ more) (hname : ∀ c ∈ children f, name' c = name c) :
    child children' name' f n = (child children name f n).or (more.find? fun c => decide (name' c = n)) := by
  rw [child, hchildren, find?_append, find?_name_congr hname, child]

end Walk

end Paths
