import Mathlib.Data.List.Basic

/-!
# Association lists

Pairs of keys and values in a list with at most one pair for each key, where keys are compared by an
equivalence `==`. `get` reads such a list as a partial function of the key, and `insert` and `erase`
are what changes of the list mean for that function.
-/

namespace Assoc

open List

variable {K V : Type*} [BEq K]

def get (l : List (K × V)) (k : K) : Option V := (l.find? fun e => k == e.1).map Prod.snd

def Distinct (l : List (K × V)) : Prop := l.Pairwise fun e e' => (e.1 == e'.1) = false

def insert (m : K → Option V) (k : K) (v : V) : K → Option V := fun k' => if k == k' then some v else m k'

def erase (m : K → Option V) (k : K) : K → Option V := fun k' => if k == k' then none else m k'

variable {l l₁ l₂ : List (K × V)} {k k' : K} {e e' : K × V} {v : V} {i : ℕ}

theorem get_eq_none_iff : get l k = none ↔ ∀ e ∈ l, (k == e.1) = false := by simp [get]

theorem get_append : get (l₁ ++ l₂) k = (get l₁ k).or (get l₂ k) := by simp [get, Option.map_or]

theorem get_cons : get (e :: l) k = if k == e.1 then some e.2 else get l k := by
  rw [get, find?_cons]
  rcases h : k == e.1 with _ | _
  · rfl
  · rfl

theorem get_cons_self (h : (k == e.1) = true) : get (e :: l) k = some e.2 := by rw [get_cons, if_pos h]

theorem get_cons_of_ne (h : (k == e.1) = false) : get (e :: l) k = get l k := by
  rw [get_cons, h]
  rfl

theorem exists_of_findIdx? (h : (l.findIdx? fun e => k == e.1) = some i) :
    ∃ l₁ e l₂, l = l₁ ++ e :: l₂ ∧ l₁.length = i ∧ (k == e.1) = true ∧ get l₁ k = none := by
  obtain ⟨hi, he, hlt⟩ := findIdx?_eq_some_iff_getElem.1 h
  refine ⟨l.take i, l[i], l.drop (i + 1), ?_, ?_, he, ?_⟩
  · rw [getElem_cons_drop, take_append_drop]
  · rw [length_take]
    omega
  · rw [get_eq_none_iff]
    intro e hmem
    obtain ⟨j, hj, rfl⟩ := mem_take_iff_getElem.1 hmem
    simpa using hlt j (by omega)

theorem get_eq_none_of_findIdx? (h : (l.findIdx? fun e => k == e.1) = none) : get l k = none := by
  rw [get_eq_none_iff]
  intro e he
  simpa using findIdx?_eq_none_iff.1 h e he

theorem get_eq_some_of_findIdx? (h : (l.findIdx? fun e => k == e.1) = some i) :
    ∃ e, l[i]? = some e ∧ get l k = some e.2 := by
  obtain ⟨l₁, e, l₂, rfl, rfl, hk, hnone⟩ := exists_of_findIdx? h
  refine ⟨e, by simp, ?_⟩
  rw [get_append, hnone, Option.none_or, get_cons_self hk]

theorem get_filter {p : K × V → Bool} (h : ∀ e ∈ l, (k == e.1) = true → p e = true) : get (l.filter p) k = get l k := by
  rw [get, find?_filter, get]
  induction l with
  | nil => rfl
  | cons e l ih =>
    rw [find?_cons, find?_cons]
    rcases hk : k == e.1 with _ | _
    · have hrest := ih fun e' he' => h e' (mem_cons_of_mem e he')
      simpa using hrest
    · simp [h e mem_cons_self hk]

variable [EquivBEq K]

theorem get_append_single (h : get l k = none) : get (l ++ [(k, v)]) = insert (get l) k v := by
  funext k'
  rw [get_append, get_cons, insert]
  rcases hk : k == k' with _ | _
  · have hk' : (k' == k) = false := by rw [BEq.comm, hk]
    rw [hk']
    simp [get]
  have hnone : get l k' = none := by
    rw [get_eq_none_iff] at h ⊢
    intro e he
    rw [← BEq.congr_left hk]
    exact h e he
  rw [hnone, BEq.symm hk]
  rfl

theorem Distinct.of_middle (h : Distinct (l₁ ++ e :: l₂)) (hk : (k == e.1) = true) :
    get l₁ k = none ∧ get l₂ k = none := by
  obtain ⟨-, hcons, hcross⟩ := List.pairwise_append.1 h
  obtain ⟨hright, -⟩ := List.pairwise_cons.1 hcons
  constructor
  · rw [get_eq_none_iff]
    intro e' he'
    rw [BEq.congr_left hk, BEq.comm]
    exact hcross e' he' e List.mem_cons_self
  · rw [get_eq_none_iff]
    intro e' he'
    rw [BEq.congr_left hk]
    exact hright e' he'

theorem get_replace (h : Distinct (l₁ ++ e :: l₂)) (hk : (k == e.1) = true) :
    get (l₁ ++ (e.1, v) :: l₂) = insert (get (l₁ ++ e :: l₂)) k v := by
  funext k'
  rw [insert, get_append, get_append]
  rcases hkk : k == k' with _ | _
  · have hne : (k' == e.1) = false := by rw [← BEq.congr_right hk, BEq.comm, hkk]
    rw [get_cons_of_ne (e := (e.1, v)) hne, get_cons_of_ne hne]
    rfl
  · have hself : (k' == e.1) = true := BEq.trans (BEq.symm hkk) hk
    rw [(h.of_middle hself).1, Option.none_or, get_cons_self (e := (e.1, v)) hself]
    rfl

theorem get_remove (h : Distinct (l₁ ++ e :: l₂)) (hk : (k == e.1) = true) :
    get (l₁ ++ l₂) = erase (get (l₁ ++ e :: l₂)) k := by
  funext k'
  rw [erase, get_append, get_append]
  rcases hkk : k == k' with _ | _
  · have hne : (k' == e.1) = false := by rw [← BEq.congr_right hk, BEq.comm, hkk]
    rw [get_cons_of_ne hne]
    rfl
  · have hself : (k' == e.1) = true := BEq.trans (BEq.symm hkk) hk
    rw [(h.of_middle hself).1, (h.of_middle hself).2]
    rfl

theorem Distinct.append_single (h : Distinct l) (hk : get l k = none) : Distinct (l ++ [(k, v)]) := by
  refine List.pairwise_append.2 ⟨h, List.pairwise_singleton _ _, fun e he e' he' => ?_⟩
  obtain rfl := List.mem_singleton.1 he'
  rw [BEq.comm]
  exact get_eq_none_iff.1 hk e he

omit [EquivBEq K] in
theorem Distinct.replace (h : Distinct (l₁ ++ e :: l₂)) : Distinct (l₁ ++ (e.1, v) :: l₂) := by
  obtain ⟨hleft, hcons, hcross⟩ := pairwise_append.1 h
  obtain ⟨hright, htail⟩ := pairwise_cons.1 hcons
  refine pairwise_append.2 ⟨hleft, pairwise_cons.2 ⟨hright, htail⟩, fun e₁ h₁ e₂ h₂ => ?_⟩
  rcases mem_cons.1 h₂ with rfl | h₂
  · exact hcross e₁ h₁ e mem_cons_self
  · exact hcross e₁ h₁ e₂ (mem_cons_of_mem e h₂)

omit [EquivBEq K] in
theorem Distinct.sublist (h : Distinct l) (hs : l₁.Sublist l) : Distinct l₁ := List.Pairwise.sublist hs h

omit [EquivBEq K] in
theorem Distinct.remove (h : Distinct (l₁ ++ e :: l₂)) : Distinct (l₁ ++ l₂) :=
  h.sublist (List.Sublist.append_left (sublist_cons_self e l₂) l₁)

end Assoc
