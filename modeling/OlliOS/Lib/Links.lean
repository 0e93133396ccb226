import Mathlib.Data.List.Nodup

/-!
# Singly linked lists whose links live in the elements

`next x` is the link stored in the element `x`. `Chain next h xs` says that following the links
from the head `h` meets exactly `xs`, in order, and then the null link. Two heads may share the
same links; lists that have no element in common do not disturb one another (`Chain.congr`).
-/

namespace Links

variable {α : Type*} {h : Option α} {xs : List α}

def Chain (next : α → Option α) : Option α → List α → Prop
  | h, [] => h = none
  | h, x :: xs => h = some x ∧ Chain next (next x) xs

def walk (next : α → Option α) : ℕ → Option α → List α
  | 0, _ => []
  | _ + 1, none => []
  | fuel + 1, some x => x :: walk next fuel (next x)

/-- The last element of the list that starts at `x`: the one with a null link. `none` when the
fuel runs out first. -/
def last (next : α → Option α) : ℕ → α → Option α
  | 0, _ => none
  | fuel + 1, x =>
    match next x with
    | none => some x
    | some y => last next fuel y

variable {next next' : α → Option α}

@[simp] theorem chain_nil : Chain next h [] ↔ h = none := Iff.rfl

@[simp] theorem chain_cons {x : α} : Chain next h (x :: xs) ↔ h = some x ∧ Chain next (next x) xs := Iff.rfl

theorem Chain.head? : ∀ {xs : List α} {h : Option α}, Chain next h xs → h = xs.head?
  | [], _, hc => hc
  | _ :: _, _, hc => hc.1

theorem Chain.congr : ∀ {xs : List α} {h : Option α}, Chain next h xs → (∀ x ∈ xs, next' x = next x) → Chain next' h xs
  | [], _, hc, _ => hc
  | x :: xs, _, hc, heq => by
    refine ⟨hc.1, ?_⟩
    rw [heq x (by simp)]
    exact Chain.congr hc.2 fun y hy => heq y (by simp [hy])

theorem Chain.suffix : ∀ {xs ys : List α} {h : Option α}, Chain next h (xs ++ ys) → Chain next ys.head? ys
  | [], ys, h, hc => by exact hc.head? ▸ hc
  | _ :: _, _, _, hc => Chain.suffix hc.2

theorem Chain.walk : ∀ {xs : List α} {h : Option α} {fuel : ℕ}, Chain next h xs →
    xs.length ≤ fuel → walk next fuel h = xs
  | [], h, 0, hc, _ => rfl
  | [], h, fuel + 1, hc, _ => by
    subst hc
    rfl
  | x :: xs, h, 0, _, hlen => by simp at hlen
  | x :: xs, h, fuel + 1, hc, hlen => by
    rw [hc.1]
    simp only [List.length_cons, Nat.add_le_add_iff_right] at hlen
    simp only [Links.walk, Chain.walk hc.2 hlen]

theorem Chain.last : ∀ {xs : List α} {x : α} {fuel : ℕ}, Chain next (some x) (x :: xs) →
    xs.length < fuel → last next fuel x = (x :: xs).getLast?
  | _, _, 0, _, hlen => by simp at hlen
  | [], x, fuel + 1, hc, _ => by
    have hn : next x = none := hc.2
    simp [Links.last, hn]
  | y :: xs, x, fuel + 1, hc, hlen => by
    have hn : next x = some y := hc.2.1
    simp only [List.length_cons, Nat.add_lt_add_iff_right] at hlen
    have ih : Links.last next fuel y = (y :: xs).getLast? := Chain.last ⟨rfl, hc.2.2⟩ hlen
    simp [Links.last, hn, ih]

section Update

variable [DecidableEq α]

theorem Chain.update_of_notMem {x : α} {v : Option α} (hc : Chain next h xs) (hx : x ∉ xs) :
    Chain (Function.update next x v) h xs := by
  refine hc.congr fun y hy => ?_
  have hne : y ≠ x := fun e => hx (e ▸ hy)
  simp [hne]

theorem Chain.append : ∀ {xs : List α} {h : Option α} {x y : α}, Chain next h xs →
    xs.getLast? = some x → xs.Nodup → y ∉ xs → next y = none →
    Chain (Function.update next x (some y)) h (xs ++ [y])
  | [], _, _, _, _, hl, _, _, _ => by simp at hl
  | [z], h, x, y, hc, hl, _, hy, hny => by
    simp only [List.getLast?_singleton, Option.some.injEq] at hl
    subst hl
    have hyz : y ≠ z := by simpa using hy
    simp [hc.1, hyz, hny]
  | z :: w :: xs, h, x, y, hc, hl, hnd, hy, hny => by
    have hxmem : x ∈ w :: xs := List.mem_of_getLast? hl
    have hzx : z ≠ x := fun e => (List.nodup_cons.1 hnd).1 (e ▸ hxmem)
    have ih := Chain.append hc.2 hl (List.nodup_cons.1 hnd).2 (fun hm => hy (by simp [hm])) hny
    refine ⟨hc.1, ?_⟩
    rw [Function.update_of_ne hzx]
    exact ih

theorem Chain.tail {x : α} (hc : Chain next h (x :: xs)) (hnd : (x :: xs).Nodup) :
    Chain (Function.update next x none) (next x) xs :=
  Chain.update_of_notMem hc.2 (List.nodup_cons.1 hnd).1

end Update

end Links
