import OlliOS.Kstd.Vector

/-!
# Vectors are lists

Every access of a loop is at an element or at the first cell behind them, so the loops are read as changes of
the list that the array holds.
-/

namespace OlliOS.Vector.Raw

open List Stepping UInt32 Option

variable {α : Type*} {width p : UInt32} {v : Raw α} {xs ys : List α} {x : α} {i n : ℕ}

namespace Holds

lemma load (h : v.Holds (xs ++ x :: ys)) : v.load xs.length = some x := by
  obtain ⟨rest, hcells⟩ := h.cells
  simp [Raw.load, hcells]

lemma store (h : v.Holds (xs ++ x :: ys)) (y : α) :
    ∃ cells, v.store xs.length y = some { v with cells } ∧ Holds { v with cells } (xs ++ y :: ys) := by
  obtain ⟨rest, hcells⟩ := h.cells
  have hlt : xs.length < v.cells.length := by simp [hcells]
  exact ⟨_, if_pos hlt, ⟨rest, by simp [hcells]⟩, by simpa using h.length, by simpa using h.room⟩

lemma split (h : v.Holds xs) (hi : i < xs.length) :
    v.Holds (xs.take i ++ xs[i] :: xs.drop (i + 1)) := by
  rwa [← drop_eq_getElem_cons hi, take_append_drop]

lemma sub_toNat (h : v.Holds xs) {k : UInt32} (hk : k.toNat ≤ xs.length) :
    (v.length - k).toNat = xs.length - k.toNat := by
  rw [UInt32.toNat_sub_of_le _ _ (le_iff_toNat_le.2 (by rwa [h.length])), h.length]

lemma sub_one_toNat (h : v.Holds (ys ++ [x])) : (v.length - 1).toNat = ys.length := by
  rw [h.sub_toNat (by simp), length_append]
  rfl

lemma length_pos (h : v.Holds xs) : 0 < v.length ↔ 0 < xs.length := by
  rw [lt_iff_toNat_lt, h.length]
  rfl

lemma popBack (h : v.Holds xs) : v.popBack.Holds xs.dropLast := by
  rw [Raw.popBack]
  rcases eq_nil_or_concat' xs with rfl | ⟨ys, y, rfl⟩
  · rwa [if_neg (mt h.length_pos.1 (by simp))]
  · obtain ⟨rest, hcells⟩ := h.cells
    have hone := h.sub_one_toNat
    rw [if_pos (h.length_pos.2 (by simp))]
    exact ⟨⟨none :: rest, by simp [hcells, hone]⟩, by simpa using hone, by simpa using h.room⟩

lemma toNat_succ {zs : List α} {i : UInt32} (h : v.Holds (ys ++ x :: zs)) (hi : i.toNat = ys.length) :
    (i + 1).toNat = (ys ++ [x]).length := by
  have hlen := h.length
  have hword := v.length.toNat_lt
  rw [length_append, length_cons] at hlen
  rw [UInt32.toNat_add, hi, length_append, length_singleton]
  change (ys.length + 1) % 2 ^ 32 = _
  omega

lemma run_bubblePass : ∀ (zs ys : List α) {x : α} {v : Raw α} {i : UInt32} {n : ℕ},
    v.Holds (ys ++ x :: zs) → i.toNat = ys.length → zs.length < n →
    ∃ cells z, Loop.run bubblePass n (i, v) = some (some { v with cells }) ∧
      Holds { v with cells } (ys ++ zs ++ [z])
  | [], ys, x, v, i, n + 1, h, hi, _ => by
    have hleave : ¬ i + 1 < v.length := by
      rw [lt_iff_toNat_lt, h.toNat_succ hi, h.length]
      simp
    refine ⟨v.cells, x, ?_, by simpa using h⟩
    rw [Loop.run_succ, bubblePass, if_neg hleave]
  | z :: zs, ys, x, v, i, n + 1, h, hi, hn => by
    have hnext := h.toNat_succ hi
    have hgo : i + 1 < v.length := by
      rw [lt_iff_toNat_lt, hnext, h.length]
      simp
    have hsecond : v.Holds (ys ++ [x] ++ z :: zs) := by simpa using h
    have hload := hsecond.load
    rw [← hnext] at hload
    obtain ⟨cells, hstore, h₁⟩ := h.store z
    have hrest : Holds { v with cells } (ys ++ [z] ++ z :: zs) := by simpa using h₁
    obtain ⟨cells', z', hrun, h₂⟩ :=
      run_bubblePass zs (ys ++ [z]) hrest (hnext.trans (by simp)) (Nat.lt_of_succ_lt_succ hn)
    refine ⟨cells', z', ?_, by simpa using h₂⟩
    rw [Loop.run_succ, bubblePass]
    simp only [if_pos hgo, hload, bind_some, hi, hstore, hrun]

lemma erase (h : v.Holds xs) (hp : p < v.length) (hn : xs.length < n) :
    ∃ v', v.erase n p = some v' ∧ v'.Holds (xs.take p.toNat ++ xs.drop (p.toNat + 1)) ∧
      v'.maxLength = v.maxLength := by
  rw [lt_iff_toNat_lt, h.length] at hp
  obtain ⟨cells, z, hrun, h₁⟩ := run_bubblePass (i := p) (n := n) _ _ (h.split hp)
    (by simp; omega) (by simp; omega)
  refine ⟨_, by rw [Raw.erase, hrun]; rfl, by simpa using h₁.popBack, ?_⟩
  rw [Raw.popBack]
  split_ifs <;> rfl

lemma lift_of_le : ∀ {i : ℕ}, i ≤ n → v.lift n i = some v
  | 0, _ => rfl
  | i + 1, h => if_neg (by omega)

lemma lift (ys : List α) : ∀ {v : Raw α} {z : α} {zs : List α}, v.Holds (xs ++ ys ++ z :: zs) →
    ∃ cells w, v.lift xs.length (xs.length + ys.length) = some { v with cells } ∧
      Holds { v with cells } (xs ++ w :: (ys ++ zs)) := by
  induction ys using List.reverseRecOn with
  | nil => exact fun {v z zs} h => ⟨v.cells, z, lift_of_le (by simp), by simpa using h⟩
  | append_singleton ys y ih =>
    intro v z zs h
    have hlast : v.Holds (xs ++ ys ++ y :: z :: zs) := by simpa using h
    have hload := hlast.load
    obtain ⟨cells, hstore, h₁⟩ := h.store y
    have hrest : Holds { v with cells } (xs ++ ys ++ y :: y :: zs) := by simpa using h₁
    obtain ⟨cells', w, hlift, h₂⟩ := ih hrest
    refine ⟨cells', w, ?_, by simpa using h₂⟩
    rw [length_append] at hload
    rw [← append_assoc, length_append, length_singleton, length_append] at hstore
    rw [length_append, length_singleton, ← Nat.add_assoc, Raw.lift, if_pos (by omega), hload,
      bind_some, hstore, bind_some, hlift]

/-- The elements after an `insert` behind the last one of `ys ++ [x]`, or before, if `y` has been pushed. -/
def inserted (ys : List α) (x y : α) (p : ℕ) (val : α) : List α :=
  if p ≤ ys.length then ys.take p ++ val :: (ys.drop p ++ [y]) else ys ++ [x] ++ [val]

lemma inserted_eq_iff {y val : α} (hp : i ≤ ys.length + 1) :
    inserted ys x y i val = (ys ++ [x]).take i ++ [val] ++ (ys ++ [x]).drop i ↔
      y = x ∨ i = ys.length + 1 := by
  unfold inserted
  split_ifs with hle
  · rw [take_append_of_le_length hle, drop_append_of_le_length hle, append_assoc]
    simp [show i ≠ ys.length + 1 by omega]
  · have hlast : i = (ys ++ [x]).length := by
      rw [length_append, length_singleton]
      omega
    rw [hlast, take_length, drop_length]
    simp

/-- What `insert` does after `y` has been pushed. -/
lemma insert_pushed {y : α} (h : v.Holds (ys ++ [x] ++ [y])) (hp : i ≤ ys.length + 1) (val : α) :
    ∃ cells, (v.lift i (v.length - 2).toNat).bind (·.store i val) = some { v with cells } ∧
      Holds { v with cells } (inserted ys x y i val) := by
  have htwo := h.sub_toNat (k := 2) (by simp)
  rw [show (v.length - 2).toNat = ys.length by simpa using htwo, inserted]
  split_ifs with hle
  · -- the elements from the position on, without the last one, are moved up
    have hsplit : v.Holds (ys.take i ++ ys.drop i ++ x :: [y]) := by simpa using h
    obtain ⟨cells, w, hlift, h₂⟩ := lift _ hsplit
    rw [← length_append, take_append_drop, length_take_of_le hle] at hlift
    obtain ⟨cells', hstore, h₃⟩ := h₂.store val
    rw [length_take_of_le hle] at hstore
    exact ⟨cells', by rw [hlift, bind_some, hstore], h₃⟩
  · obtain ⟨cells, hstore, h₂⟩ := (show v.Holds (ys ++ [x] ++ y :: []) from h).store val
    rw [length_append, length_singleton, show ys.length + 1 = i by omega] at hstore
    exact ⟨cells, by rw [lift_of_le (by omega), bind_some, hstore], h₂⟩

lemma insert (h : v.Holds (ys ++ [x])) (hw : 0 < width.toNat)
    (hfit : v.length = v.maxLength → (2 * (ys.length + 1) + 1) * width.toNat < 2 ^ 32)
    (hp : p ≤ v.length) (val : α) (freed : α → Option α) {y : α}
    (hy : (if v.length = v.maxLength then freed x else some x) = some y) :
    ∃ v', v.insert width p val freed = some v' ∧ v'.Holds (inserted ys x y p.toNat val) ∧
      v'.maxLength.toNat =
        if v.length = v.maxLength then 2 * (ys.length + 1) + 1 else v.maxLength.toNat := by
  have hlen : (ys ++ [x]).length = ys.length + 1 := by simp
  rw [le_iff_toNat_le, h.length, hlen] at hp
  obtain ⟨v₁, hpush, h₁, hmax⟩ := h.pushBack hw (by rwa [hlen]) y
  obtain ⟨cells, hrun, h₂⟩ := h₁.insert_pushed hp val
  refine ⟨{ v₁ with cells }, ?_, h₂, by rwa [hlen] at hmax⟩
  have hback : v.load (v.length - 1).toNat = some x := by
    rw [h.sub_one_toNat]
    exact h.load
  rw [Raw.insert, if_pos (h.length_pos.2 (by simp)), hback]
  simp only [bind, bind_some, hy, hpush, hrun]

lemma insert_nil (h : v.Holds ([] : List α)) (hw : 0 < width.toNat)
    (hfit : v.length = v.maxLength → 1 * width.toNat < 2 ^ 32) (hp : p ≤ v.length) (val : α)
    (freed : α → Option α) :
    ∃ v', v.insert width p val freed = some v' ∧ v'.Holds [val] ∧
      v'.maxLength.toNat = if v.length = v.maxLength then 1 else v.maxLength.toNat := by
  rw [le_iff_toNat_le, h.length] at hp
  obtain rfl : p = 0 := UInt32.toNat_inj.1 (by simpa using hp)
  rw [Raw.insert, if_neg (mt h.length_pos.1 (by simp)), if_pos rfl]
  exact h.pushBack hw hfit val

lemma unique (h : v.Holds xs) (h' : v.Holds ys) : xs = ys := by
  obtain ⟨rest, hcells⟩ := h.cells
  obtain ⟨rest', hcells'⟩ := h'.cells
  have hlen : (xs.map some).length = (ys.map some).length := by
    rw [length_map, length_map, ← h.length, h'.length]
  exact map_injective_iff.2 (fun _ _ => some.inj)
    (append_inj (hcells.symm.trans hcells') hlen).1

lemma copy (h : v.Holds xs) (hw : 0 < width.toNat) (hfit : v.maxLength.toNat * width.toNat < 2 ^ 32) :
    ∃ cells, v.copy width = some { v with cells } ∧ Holds { v with cells } xs := by
  obtain ⟨rest, hcells⟩ := h.cells
  have hcount : (v.maxLength * width).toNat / width.toNat = v.maxLength.toNat := by
    rw [UInt32.toNat_mul, Nat.mod_eq_of_lt hfit, Nat.mul_div_cancel _ hw]
  have hroom : xs.length ≤ v.maxLength.toNat := by
    rw [← h.room, hcells]
    simp
  rw [Raw.copy, hcount, h.length]
  obtain ⟨v', hrun, rfl⟩ := Loop.foldlM_range (f := fun w i => (v.load i).bind (w.store i))
    (P := fun i w => w = { v with
      cells := (xs.take i).map some ++ replicate (v.maxLength.toNat - i) none }) rfl xs.length (by
    rintro i hi t rfl
    have hload := (h.split hi).load
    have hlen : ((xs.take i).map some).length = i := by simp [Nat.le_of_lt hi]
    have hsucc : v.maxLength.toNat - i = v.maxLength.toNat - (i + 1) + 1 := by omega
    rw [length_take_of_le (Nat.le_of_lt hi)] at hload
    refine ⟨_, by rw [hload, bind_some, Raw.store, if_pos (by simp; omega)], ?_⟩
    rw [hsucc, replicate_succ, set_append_right _ _ (Nat.le_of_eq hlen), hlen, Nat.sub_self,
      set_cons_zero, take_succ_eq_append_getElem hi, map_append, append_assoc]
    rfl)
  exact ⟨_, hrun, ⟨replicate (v.maxLength.toNat - xs.length) none, by simp⟩, h.length, by simp; omega⟩

end Holds

/-- The elements are in the array, and the array is one that `malloc` can return. -/
structure Inv (width : UInt32) (v : Raw α) (xs : List α) : Prop where
  holds : v.Holds xs
  served : v.maxLength.toNat * width.toNat < 2 ^ 30

namespace Inv

variable (h : v.Inv width xs) (hw : 0 < width.toNat)

include h hw

/-- The number of bytes does not wrap: the array that is too small was returned by `malloc`. -/
theorem grow (hfull : v.length = v.maxLength) (hs : Served width (v.maxLength * 2 + 1)) :
    (2 * xs.length + 1) * width.toNat < 2 ^ 30 := by
  have hmax : v.maxLength.toNat = xs.length := by rw [← hfull, h.holds.length]
  have hold := h.served
  have hword := width.toNat_lt
  rw [Served, UInt32.toNat_mul, UInt32.toNat_add, UInt32.toNat_mul] at hs
  rw [hmax] at hs hold
  change (xs.length * 2 % 2 ^ 32 + 1) % 2 ^ 32 * width.toNat % 2 ^ 32 < 2 ^ 30 at hs
  have hle : xs.length * 1 ≤ xs.length * width.toNat := Nat.mul_le_mul_left _ hw
  have hsum : (2 * xs.length + 1) * width.toNat = 2 * (xs.length * width.toNat) + width.toNat := by
    rw [Nat.add_mul, Nat.one_mul, Nat.mul_assoc]
  have hlt : 2 * (xs.length * width.toNat) + width.toNat < 2 ^ 32 := by
    rcases Nat.eq_zero_or_pos xs.length with h0 | hpos
    · rw [h0, Nat.zero_mul]
      omega
    · have hwidth : width.toNat ≤ xs.length * width.toNat := Nat.le_mul_of_pos_left _ hpos
      omega
  have hodd : (xs.length * 2 % 2 ^ 32 + 1) % 2 ^ 32 = 2 * xs.length + 1 := by omega
  rw [hodd, hsum, Nat.mod_eq_of_lt hlt] at hs
  rwa [hsum]

/-- What growing needs of the sizes, and the size of the array afterwards. -/
lemma fits (hs : v.length = v.maxLength → Served width (v.maxLength * 2 + 1)) :
    (v.length = v.maxLength → (2 * xs.length + 1) * width.toNat < 2 ^ 32) ∧
      (if v.length = v.maxLength then 2 * xs.length + 1 else v.maxLength.toNat) * width.toNat <
        2 ^ 30 := by
  refine ⟨fun hfull => Nat.lt_trans (h.grow hw hfull (hs hfull)) (by omega), ?_⟩
  split_ifs with hfull
  · exact h.grow hw hfull (hs hfull)
  · exact h.served

lemma insert_iff {val : α} {freed : α → Option α} (hc : v.Allowed width (.insert p val freed)) :
    (v.Rereads (.insert p val freed) →
      ∃ v', v.insert width p val freed = some v' ∧
        v'.Inv width (xs.take p.toNat ++ [val] ++ xs.drop p.toNat)) ∧
    ((∃ v', v.insert width p val freed = some v' ∧
        v'.Holds (xs.take p.toNat ++ [val] ++ xs.drop p.toNat)) →
      v.Rereads (.insert p val freed)) := by
  obtain ⟨hfit, hserved⟩ := h.fits hw hc.2
  rcases eq_nil_or_concat' xs with rfl | ⟨ys, x, rfl⟩
  · obtain ⟨v', hv', hh, hm⟩ := h.holds.insert_nil hw hfit hc.1 val freed
    refine ⟨fun _ => ⟨v', hv', by simpa using hh, hm ▸ hserved⟩, fun _ _ hpos => ?_⟩
    exact absurd (h.holds.length_pos.1 hpos) (by simp)
  have hlen : (ys ++ [x]).length = ys.length + 1 := by simp
  rw [hlen] at hfit hserved
  have hback : v.load (v.length - 1).toNat = some x := by
    rw [h.holds.sub_one_toNat]
    exact h.holds.load
  have hpos := h.holds.length_pos.2 (by simp)
  have hp : p.toNat ≤ ys.length + 1 := by
    rw [← hlen, ← h.holds.length]
    exact le_iff_toNat_le.1 hc.1
  have hend : p = v.length ↔ p.toNat = ys.length + 1 := by
    rw [← UInt32.toNat_inj, h.holds.length, hlen]
  -- the call returns if the copy constructor does, with the value that this makes
  have hcall := fun {y} hy => h.holds.insert hw hfit hc.1 val freed (y := y) hy
  constructor
  · intro hreads
    obtain ⟨y, hy, heq⟩ : ∃ y, (if v.length = v.maxLength then freed x else some x) = some y ∧
        (y = x ∨ p.toNat = ys.length + 1) := by
      split_ifs with hfull
      · rcases hreads hfull hpos x hback with hx | ⟨hp, hsome⟩
        · exact ⟨x, hx, .inl rfl⟩
        · obtain ⟨y, hy⟩ := isSome_iff_exists.1 hsome
          exact ⟨y, hy, .inr (hend.1 hp)⟩
      · exact ⟨x, rfl, .inl rfl⟩
    obtain ⟨v', hv', hh, hm⟩ := hcall hy
    rw [(Holds.inserted_eq_iff hp).2 heq] at hh
    exact ⟨v', hv', hh, hm ▸ hserved⟩
  · rintro ⟨v', hv', hh⟩ hfull - last hlast
    cases hback.symm.trans hlast
    rcases hy : freed x with _ | y
    · rw [Raw.insert, if_pos hpos, hback] at hv'
      simp [hfull, hy] at hv'
    · obtain ⟨v'', hv'', hh', -⟩ := hcall (by rw [if_pos hfull, hy])
      cases hv'.symm.trans hv''
      rcases (Holds.inserted_eq_iff hp).1 (hh'.unique hh) with rfl | hp
      · exact .inl rfl
      · exact .inr ⟨hend.2 hp, rfl⟩

lemma step {c : VectorCall α} (hc : v.Allowed width c) (hr : v.Rereads c) :
    ∃ v', v.step width c = some v' ∧ v'.Inv width (c.apply xs) := by
  have hserved := h.served
  cases c with
  | pushBack val =>
    obtain ⟨v', hv', hh, hm⟩ := h.holds.pushBack hw (h.fits hw hc).1 val
    exact ⟨v', hv', hh, hm ▸ (h.fits hw hc).2⟩
  | popBack =>
    refine ⟨_, rfl, h.holds.popBack, ?_⟩
    rw [Raw.popBack]
    split_ifs <;> exact hserved
  | insert p val freed => exact (h.insert_iff hw hc).1 hr
  | erase p =>
    obtain ⟨v', hv', hh, hm⟩ := h.holds.erase hc
      (Nat.lt_succ_of_le (Nat.le_of_eq h.holds.length.symm))
    exact ⟨v', hv', hh, by rwa [hm]⟩
  | clear => exact ⟨empty, rfl, ⟨⟨[], rfl⟩, rfl, rfl⟩, by simp [empty]⟩
  | copy =>
    obtain ⟨cells, hv', hh⟩ := h.holds.copy hw (Nat.lt_trans hserved (by omega))
    exact ⟨_, hv', hh, hserved⟩

end Inv

/-- From every vector that calls which find the last element again lead to, a call does to the elements what
it does to a list exactly if it does so too. Accesses outside of the `_maxLength` elements of the array
would fail. -/
theorem vector_refines_iff (hw : 0 < width.toNat)
    (h : Reaches (step width) (fun v c => v.Allowed width c ∧ v.Rereads c) empty v) :
    v.length ≤ v.maxLength ∧ ∃ xs : List α, v.Holds xs ∧ ∀ c, v.Allowed width c →
      ((∃ v', v.step width c = some v' ∧ v'.Holds (c.apply xs)) ↔ v.Rereads c) := by
  obtain ⟨xs, hinv⟩ : ∃ xs, v.Inv width xs := by
    refine h.invariant (I := fun v => ∃ xs, v.Inv width xs)
      ⟨[], ⟨⟨[], rfl⟩, rfl, rfl⟩, by simp [empty]⟩ ?_
    rintro v c v' ⟨xs, hinv⟩ ⟨hc, hr⟩ hv'
    obtain ⟨v'', hv'', hinv'⟩ := hinv.step hw hc hr
    exact ⟨_, some.inj (hv'.symm.trans hv'') ▸ hinv'⟩
  refine ⟨?_, xs, hinv.holds, fun c hc => ⟨fun hcall => ?_, fun hr => ?_⟩⟩
  · obtain ⟨rest, hcells⟩ := hinv.holds.cells
    rw [le_iff_toNat_le, hinv.holds.length, ← hinv.holds.room, hcells]
    simp
  · cases c with
    | insert p val freed => exact (hinv.insert_iff hw hc).2 hcall
    | _ => trivial
  · obtain ⟨v', hv', hinv'⟩ := hinv.step hw hc hr
    exact ⟨v', hv', hinv'.holds⟩

/-- A vector that has grown twice and was copied; an element is put before the first one. -/
theorem vector_refines_iff_front : ∃ v' xs, (⟨[some 1, some 3, none], 2, 3⟩ : Raw ℕ).Holds xs ∧
    step 4 ⟨[some 1, some 3, none], 2, 3⟩ (.insert 0 7 some) = some v' ∧ v'.Holds (7 :: xs) := by
  have hreach : Reaches (step 4) (fun v c => v.Allowed 4 c ∧ v.Rereads c) empty
      (⟨[some 1, some 3, none], 2, 3⟩ : Raw ℕ) := by
    exact reaches_of_run [.pushBack 1, .pushBack 2, .insert 2 3 some, .erase 1, .copy] rfl
  obtain ⟨-, xs, hxs, hcalls⟩ := vector_refines_iff (by decide) hreach
  obtain ⟨v', hv', hholds⟩ := (hcalls (.insert 0 7 some) (by decide)).2 (by decide)
  exact ⟨v', xs, hxs, hv', hholds⟩

/-- The heap after `push_back("a")` on an empty vector of strings, and the array of the vector. -/
def oneString : Option (BucketAlloc × UInt32) := do
  let (h, array) ← Libk.malloc ((BucketAlloc.zeroed fun _ => 0).init 0xD0000000 0x1000) 4 []
  let (h, chars) ← Libk.malloc h 2 []
  return ((h.store array chars).storeByte chars 0x61, array)

/-- `insert(0, "b")` on a vector whose array has no room: the characters of the copy of `"a"` are put where
the array was, and the canary behind them is half of the pointer that is read then. -/
theorem insert_reads_freed : ∃ h array, oneString = some (h, array) ∧
    copyFreed h array 1 [0x61] = none ∧
    Reaches (step 4) (fun v c => v.Allowed 4 c ∧ v.Rereads c) empty
      (⟨[some [0x61]], 1, 1⟩ : Raw (List UInt8)) ∧
    Allowed 4 ⟨[some [0x61]], 1, 1⟩ (.insert 0 [0x62] (copyFreed h array 1)) ∧
    step 4 ⟨[some [0x61]], 1, 1⟩ (.insert 0 [0x62] (copyFreed h array 1)) = none := by
  have hfreed : oneString.map (fun r => copyFreed r.1 r.2 1 [0x61]) = some none := by
    decide +kernel
  obtain ⟨⟨h, array⟩, heap, hnone⟩ := map_eq_some_iff.1 hfreed
  refine ⟨h, array, heap, hnone, reaches_of_run [.pushBack [0x61]] rfl,
    ⟨by decide, fun _ => (by decide : ((1 * 2 + 1) * 4 : UInt32).toNat < 2 ^ 30)⟩, ?_⟩
  change (copyFreed h array 1 [0x61]).bind _ = none
  rw [hnone]
  rfl

end OlliOS.Vector.Raw
