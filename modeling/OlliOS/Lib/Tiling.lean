import Mathlib.Algebra.GroupWithZero.Nat
import Mathlib.Data.List.Pairwise

/-!
# Tilings of an interval

A list of pieces, each with a start and a positive length, tiles the interval from `lo` to `hi` when
each piece starts where the one before it ends. A run of consecutive pieces can be exchanged for
another tiling of the same part (`Tiles.split`, `Tiles.replace`), and the pieces are disjoint
(`Tiles.apart`).
-/

namespace Tiling

variable {α : Type*} (start len : α → ℕ)

def Tiles : ℕ → ℕ → List α → Prop
  | lo, hi, [] => lo = hi
  | lo, hi, x :: xs => start x = lo ∧ 0 < len x ∧ Tiles (lo + len x) hi xs

variable {start len} {lo hi : ℕ}

theorem tiles_append : ∀ {xs ys : List α} {lo : ℕ}, Tiles start len lo hi (xs ++ ys) ↔
    ∃ mid, Tiles start len lo mid xs ∧ Tiles start len mid hi ys
  | [], ys, lo => by simp [Tiles]
  | x :: xs, ys, lo => by
    simp only [List.cons_append, Tiles, tiles_append]
    constructor
    · rintro ⟨hs, hl, mid, hx, hy⟩
      exact ⟨mid, ⟨hs, hl, hx⟩, hy⟩
    · rintro ⟨mid, ⟨hs, hl, hx⟩, hy⟩
      exact ⟨hs, hl, mid, hx, hy⟩

namespace Tiles

theorem le : ∀ {xs : List α} {lo : ℕ}, Tiles start len lo hi xs → lo ≤ hi
  | [], _, h => Nat.le_of_eq h
  | x :: xs, lo, h => by
    have := le h.2.2
    omega

theorem length_le : ∀ {xs : List α} {lo : ℕ}, Tiles start len lo hi xs → lo + xs.length ≤ hi
  | [], _, h => Nat.le_of_eq h
  | x :: xs, lo, h => by
    have hpos := h.2.1
    have := length_le h.2.2
    rw [List.length_cons]
    omega

theorem sum_len : ∀ {xs : List α} {lo : ℕ}, Tiles start len lo hi xs → lo + (xs.map len).sum = hi
  | [], _, h => h
  | x :: xs, lo, h => by
    rw [List.map_cons, List.sum_cons, ← Nat.add_assoc]
    exact sum_len h.2.2

theorem bounds : ∀ {xs : List α} {lo : ℕ}, Tiles start len lo hi xs → ∀ x ∈ xs,
    lo ≤ start x ∧ 0 < len x ∧ start x + len x ≤ hi
  | x :: xs, lo, ⟨hs, hl, h⟩, y, hy => by
    rcases List.mem_cons.1 hy with rfl | hy
    · have := h.le
      omega
    · have := bounds h y hy
      omega

theorem pairwise : ∀ {xs : List α} {lo : ℕ}, Tiles start len lo hi xs → xs.Pairwise fun x y => start x + len x ≤ start y
  | [], _, _ => .nil
  | x :: xs, lo, ⟨hs, hl, h⟩ => by
    refine .cons (fun y hy => ?_) (pairwise h)
    have := (h.bounds y hy).1
    omega

variable {xs ys : List α} {mid mid' : ℕ}

theorem apart (h : Tiles start len lo hi xs) {x y : α} (hx : x ∈ xs) (hy : y ∈ xs)
    (hne : x ≠ y) : start x + len x ≤ start y ∨ start y + len y ≤ start x := by
  have hp : xs.Pairwise fun x y => start x + len x ≤ start y ∨ start y + len y ≤ start x :=
    h.pairwise.imp Or.inl
  have : Std.Symm fun x y => start x + len x ≤ start y ∨ start y + len y ≤ start x := ⟨fun _ _ => Or.symm⟩
  exact hp.forall hx hy hne

theorem hi_eq : ∀ {xs : List α} {lo hi hi' : ℕ}, Tiles start len lo hi xs → Tiles start len lo hi' xs → hi = hi'
  | [], _, _, _, h, h' => h.symm.trans h'
  | _ :: _, _, _, _, h, h' => hi_eq h.2.2 h'.2.2

theorem lo_eq {x : α} (h : Tiles start len lo hi (x :: xs)) : lo = start x := h.1.symm

theorem split {old : List α} (h : Tiles start len lo hi (xs ++ old ++ ys))
    (hold : Tiles start len mid mid' old) (hne : old ≠ []) :
    Tiles start len lo mid xs ∧ Tiles start len mid' hi ys := by
  obtain ⟨m', hxo, hy⟩ := tiles_append.1 h
  obtain ⟨m, hx, ho⟩ := tiles_append.1 hxo
  obtain ⟨x, old, rfl⟩ := List.exists_cons_of_ne_nil hne
  obtain rfl : m = mid := ho.lo_eq.trans hold.lo_eq.symm
  obtain rfl : m' = mid' := ho.hi_eq hold
  exact ⟨hx, hy⟩

theorem replace {new : List α} (hx : Tiles start len lo mid xs)
    (hnew : Tiles start len mid mid' new) (hy : Tiles start len mid' hi ys) :
    Tiles start len lo hi (xs ++ new ++ ys) :=
  tiles_append.2 ⟨mid', tiles_append.2 ⟨mid, hx, hnew⟩, hy⟩

end Tiles

end Tiling
