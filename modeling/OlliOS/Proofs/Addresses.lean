import OlliOS.Proofs.Mappings

/-!
# Physical and virtual addresses

`getVirtualAddress` ends at the first word with the address of the page, so it returns the lowest virtual
address. It skips a directory word with the address 0.
-/

namespace OlliOS

open PageTableItem List Option BitVec Machine

namespace PageTableItem

lemma getAddress_eq (v : PageTableItem) : v.getAddress = (v >>> 12) <<< 12 := by
  have hmask : ∀ j < 32, (0xFFFFF000#32).getLsbD j = decide (12 ≤ j) := by decide
  refine eq_of_getLsbD_eq fun j hj => ?_
  rw [getAddress, getLsbD_and, hmask j hj, getLsbD_shiftLeft, getLsbD_ushiftRight]
  by_cases h12 : 12 ≤ j
  · simp [hj, h12]
  · simp [h12]

lemma getAddress_toNat (v : PageTableItem) : v.getAddress.toNat = v.frame * 0x1000 := by
  rw [getAddress_eq, frame_eq, toNat_shiftLeft, Nat.shiftLeft_eq, toNat_ushiftRight, Nat.shiftRight_eq_div_pow]
  omega

end PageTableItem

section Address

variable (a : BitVec 32)

lemma toNat_offset : (a &&& 4095).toNat = a.toNat % 0x1000 := by
  exact Nat.and_two_pow_sub_one_eq_mod a.toNat 12

lemma toNat_directory : ((a >>> 12) >>> 10).toNat = a.toNat / 0x1000 / 1024 := by
  rw [toNat_ushiftRight, toNat_ushiftRight, Nat.shiftRight_eq_div_pow, Nat.shiftRight_eq_div_pow]

lemma toNat_table : ((a >>> 12) &&& (1024 - 1)).toNat = a.toNat / 0x1000 % 1024 := by
  rw [toNat_and, toNat_ushiftRight, Nat.shiftRight_eq_div_pow]
  exact Nat.and_two_pow_sub_one_eq_mod _ 10

lemma toNat_start : (a &&& ~~~ 4095).toNat = a.toNat / 0x1000 * 0x1000 := by
  have hmask : (~~~ 4095 : BitVec 32) = 0xFFFFF000#32 := by decide
  rw [hmask, ← getAddress, getAddress_toNat, frame_eq, toNat_ushiftRight, Nat.shiftRight_eq_div_pow]

end Address

variable {s : Machine} {f : ℕ}

lemma getPhysicalAddressAt_eq (h : s.SelfMapped) {virt : BitVec 32}
    (hf : s.translate (virt.toNat / 0x1000) = some f) :
    ∃ a, s.getPhysicalAddressAt virt = some a ∧ a.toNat = f * 0x1000 + virt.toNat % 0x1000 := by
  obtain ⟨t, ht, hk⟩ := pageFrame_eq_some.1 hf
  refine ⟨(s.mem t (virt.toNat / 0x1000 % 1024)).getAddress + (virt &&& 4095), ?_, ?_⟩
  · rw [getPhysicalAddressAt, toNat_directory, toNat_table, read_table h (by omega) ht]
    rfl
  · rw [toNat_add, getAddress_toNat, toNat_offset, (tableFrame_eq_some.1 hk).2]
    have := tableFrame_lt hk
    omega

/-! ## The search -/

lemma findSomeM?_eq {α β : Type*} {f : α → Option (Option β)} {g : α → Option β} {l : List α}
    (h : ∀ a ∈ l, f a = some (g a)) : l.findSomeM? f = some (l.findSome? g) := by
  induction l with
  | nil => rfl
  | cons a l ih =>
    rw [List.findSomeM?, h a mem_cons_self, bind_eq_bind, bind_some, findSome?_cons]
    rcases g a with _ | b
    · exact ih fun x hx => h x (mem_cons_of_mem a hx)
    · rfl

lemma findSome?_range_eq_some {β : Type*} {g : ℕ → Option β} {n : ℕ} {b : β} :
    (List.range n).findSome? g = some b ↔ ∃ j < n, g j = some b ∧ ∀ i < j, g i = none := by
  constructor
  · intro h
    induction n with
    | zero => cases h
    | succ n ih =>
      rw [range_succ, findSome?_append, or_eq_some_iff] at h
      rcases h with h | ⟨hnone, h⟩
      · obtain ⟨j, hj, hrest⟩ := ih h
        exact ⟨j, by omega, hrest⟩
      · rw [findSome?_singleton] at h
        exact ⟨n, by omega, h, fun i hi => findSome?_eq_none_iff.1 hnone i (mem_range.2 hi)⟩
  · rintro ⟨j, hj, hb, hnone⟩
    obtain ⟨m, rfl⟩ : ∃ m, n = j + 1 + m := ⟨n - (j + 1), by omega⟩
    rw [range_add, findSome?_append, range_succ, findSome?_append,
      findSome?_eq_none_iff.2 fun i hi => hnone i (mem_range.1 hi), findSome?_singleton, hb]
    rfl

lemma frame_eq_iff (v : PageTableItem) (a : BitVec 32) :
    v.getAddress = a &&& ~~~ 4095 ↔ v.frame = a.toNat / 0x1000 := by
  rw [← toNat_inj, getAddress_toNat, toNat_start]
  omega

namespace CleanWords

variable {physical : BitVec 32} {i k : ℕ}

lemma tableFrame_of_ne (h : CleanWords s) (hi : i < 1024) (hne : (s.mem s.cr3 i).getAddress ≠ 0) :
    tableFrame s.mem s.cr3 i = some (s.mem s.cr3 i).frame := by
  refine tableFrame_eq_some.2 ⟨?_, rfl⟩
  by_contra hp
  rw [h.entry i hi (Bool.eq_false_of_not_eq_true hp)] at hne
  exact hne (by decide)

def inTable (s : Machine) (physical : BitVec 32) (pdi : ℕ) : Option (BitVec 32) :=
  if (s.mem s.cr3 pdi).getAddress = 0 then none
  else (List.range 1024).findSome? fun pti =>
    if (s.mem (s.mem s.cr3 pdi).frame pti).getAddress = physical &&& ~~~ 4095 then
      some (BitVec.ofNat 32 (pdi * 4096 * 1024) + BitVec.ofNat 32 (pti * 4096) + (physical &&& 4095))
    else none

variable (h : CleanWords s)

include h

lemma getVirtualAddress_eq (physical : BitVec 32) : s.getVirtualAddress physical =
    some (((List.range 1024).findSome? (inTable s physical)).getD 0) := by
  rw [getVirtualAddress, findSomeM?_eq]
  · rfl
  intro pdi hpdi
  rw [mem_range] at hpdi
  rw [read_entry h.self, bind_eq_bind, bind_some, inTable]
  split_ifs with hzero
  · rfl
  · exact findSomeM?_eq fun pti _ => by
      rw [read_table h.self hpdi (h.tableFrame_of_ne hpdi hzero)]
      rfl

lemma item_iff (hi : i < 1024) (hk : k < 1024) (hp : 0x1000 ≤ physical.toNat)
    (hne : (s.mem s.cr3 i).getAddress ≠ 0) :
    (s.mem (s.mem s.cr3 i).frame k).getAddress = physical &&& ~~~ 4095 ↔
      s.translate (i * 1024 + k) = some (physical.toNat / 0x1000) := by
  have ht := h.tableFrame_of_ne hi hne
  rw [frame_eq_iff, translate_mul_add hk, pageFrame, ht, bind_some, tableFrame_eq_some]
  refine ⟨fun hframe => ⟨?_, hframe⟩, And.right⟩
  by_contra hnp
  rw [h.item i hi _ ht k hk (Bool.eq_false_of_not_eq_true hnp)] at hframe
  have hzero : (0 : PageTableItem).frame = 0 := by decide
  omega

lemma inTable_eq_some (hi : i < 1024) (hp : 0x1000 ≤ physical.toNat) {r : BitVec 32}
    (hr : inTable s physical i = some r) : ∃ k < 1024, s.translate (i * 1024 + k) = some (physical.toNat / 0x1000) ∧
      r.toNat = (i * 1024 + k) * 0x1000 + physical.toNat % 0x1000 ∧
      ∀ k' < k, s.translate (i * 1024 + k') ≠ some (physical.toNat / 0x1000) := by
  rw [inTable, ite_none_left_eq_some, findSome?_range_eq_some] at hr
  obtain ⟨hne, k, hk, hr, hfirst⟩ := hr
  rw [ite_none_right_eq_some, h.item_iff hi hk hp hne] at hr
  obtain ⟨htr, hr⟩ := hr
  cases hr
  refine ⟨k, hk, htr, ?_, fun k' hk' => ?_⟩
  · rw [toNat_add, toNat_add, toNat_ofNat, toNat_ofNat, toNat_offset]
    omega
  · have hnone := hfirst k' hk'
    rw [ite_eq_right_iff] at hnone
    exact fun htr' => absurd (hnone ((h.item_iff hi (by omega) hp hne).2 htr')) (some_ne_none _)

lemma inTable_ne_none (hi : i < 1024) (hk : k < 1024) (hp : 0x1000 ≤ physical.toNat)
    (hzero : tableFrame s.mem s.cr3 i ≠ some 0)
    (htr : s.translate (i * 1024 + k) = some (physical.toNat / 0x1000)) : inTable s physical i ≠ none := by
  have hne : (s.mem s.cr3 i).getAddress ≠ 0 := by
    rw [translate_mul_add hk] at htr
    obtain ⟨t, ht, -⟩ := pageFrame_eq_some.1 htr
    intro hno
    have hframe : (s.mem s.cr3 i).frame = 0 := by
      have hto := getAddress_toNat (s.mem s.cr3 i)
      rw [hno] at hto
      change 0 = _ at hto
      omega
    exact hzero (tableFrame_eq_some.2 ⟨(tableFrame_eq_some.1 ht).1, hframe⟩)
  rw [inTable, if_neg hne]
  intro hnone
  have := findSome?_eq_none_iff.1 hnone k (mem_range.2 hk)
  rw [if_pos ((h.item_iff hi hk hp hne).2 htr)] at this
  cases this

end CleanWords

/-- The address returned is that of a present page which leads back, and where some page has the frame,
and no table is frame 0, it is the lowest such address. -/
theorem getVirtualAddress_round_trip (h : CleanWords s) (physical : BitVec 32)
    (hp : 0x1000 ≤ physical.toNat) : ∃ v, s.getVirtualAddress physical = some v ∧
      (v ≠ 0 → s.translate (v.toNat / 0x1000) ≠ none ∧ s.getPhysicalAddressAt v = some physical) ∧
      ((∀ i < 1024, tableFrame s.mem s.cr3 i ≠ some 0) →
        (∃ q < 1024 * 1024, s.translate q = some (physical.toNat / 0x1000)) →
        v ≠ 0 ∧ ∀ w : BitVec 32, s.translate (w.toNat / 0x1000) ≠ none →
          s.getPhysicalAddressAt w = some physical → v ≤ w) := by
  refine ⟨_, h.getVirtualAddress_eq physical, ?_⟩
  rcases hr : (List.range 1024).findSome? (CleanWords.inTable s physical) with _ | r
  · refine ⟨fun hne => absurd rfl hne, ?_⟩
    rintro htables ⟨q, hq, htr⟩
    refine absurd (findSome?_eq_none_iff.1 hr (q / 1024) (mem_range.2 (by omega))) ?_
    refine h.inTable_ne_none (k := q % 1024) (by omega) (by omega) hp (htables _ (by omega)) ?_
    rwa [Nat.div_add_mod']
  · obtain ⟨i, hi, hin, hbefore⟩ := findSome?_range_eq_some.1 hr
    obtain ⟨k, hk, htr, hto, hfirst⟩ := h.inTable_eq_some hi hp hin
    rw [getD_some]
    have hpage : r.toNat / 0x1000 = i * 1024 + k := by omega
    have hne : r ≠ 0 := by
      -- virtual page 0 has frame 0, which is not the frame of the address
      rintro rfl
      change 0 = _ at hto
      obtain ⟨rfl, rfl⟩ : i = 0 ∧ k = 0 := by omega
      have := some.inj (h.zero.symm.trans htr)
      omega
    refine ⟨fun _ => ⟨?_, ?_⟩, fun htables _ => ⟨hne, fun w hw hback => ?_⟩⟩
    · rw [hpage, htr]
      exact some_ne_none _
    · obtain ⟨a, ha, hato⟩ := getPhysicalAddressAt_eq h.self (hpage ▸ htr)
      rw [ha, eq_of_toNat_eq (by omega : a.toNat = physical.toNat)]
    · obtain ⟨g, hg⟩ := ne_none_iff_exists'.1 hw
      obtain ⟨a, ha, hato⟩ := getPhysicalAddressAt_eq h.self hg
      obtain rfl := some.inj (ha.symm.trans hback)
      have hhit : s.translate (w.toNat / 0x1000) = some (a.toNat / 0x1000) := by
        rw [hg, show g = a.toNat / 0x1000 by omega]
      rw [le_def]
      by_contra hlow
      rcases Nat.lt_or_ge (w.toNat / 0x1000 / 1024) i with hslot | hslot
      · refine h.inTable_ne_none (k := w.toNat / 0x1000 % 1024) (by omega) (by omega) hp
          (htables _ (by omega)) ?_ (hbefore _ hslot)
        rwa [Nat.div_add_mod']
      · refine hfirst (w.toNat / 0x1000 % 1024) (by omega) ?_
        rwa [show i * 1024 + w.toNat / 0x1000 % 1024 = w.toNat / 0x1000 by omega]

lemma CleanWords.of_words (hself : s.SelfMapped) (hzero : s.translate 0 = some 0)
    (h : ∀ f w, (s.mem f w).getFlag present = false → s.mem f w = 0) : CleanWords s :=
  ⟨hself, fun i _ => h _ i, fun _ _ t _ k _ => h t k, hzero⟩

def twoPages : Machine := oneTable 0 fun w => if w = 0 then 0x3 else if w = 5 then 0x7003 else 0

lemma twoPages_clean : CleanWords twoPages := by
  refine .of_words (oneTable_self _) (by decide) fun f w => ?_
  simp only [twoPages, oneTable]
  split_ifs <;> decide

theorem getVirtualAddress_round_trip_twoPages : ∃ v, twoPages.getVirtualAddress 0x7123 = some v ∧
    v ≠ 0 ∧ twoPages.getPhysicalAddressAt v = some 0x7123 := by
  obtain ⟨v, hv, hsound, hcomplete⟩ := getVirtualAddress_round_trip twoPages_clean 0x7123 (by decide)
  have htables : ∀ i < 1024, tableFrame twoPages.mem twoPages.cr3 i ≠ some 0 := by
    intro i hi ht
    rcases Nat.lt_or_ge i 1023 with hlt | hge
    · exact absurd (oneTable_table hlt ht).2 (by decide)
    · obtain rfl : i = 1023 := by omega
      cases ht
  have hne := (hcomplete htables ⟨5, by decide, by decide⟩).1
  exact ⟨v, hv, hne, (hsound hne).2⟩

def zeroTable : Machine where
  mem f w :=
    if f = 1 ∧ w = 1023 then 0x1003 else if f ≤ 1 ∧ w = 0 then 0x3
    else if f = 0 ∧ w = 5 then 0x7003 else 0
  bitmap _ := 0xFF
  cr3 := 1

theorem getVirtualAddress_skipped : CleanWords zeroTable ∧ zeroTable.translate 5 = some 7 ∧
    zeroTable.getVirtualAddress 0x7000 = some 0 := by
  have hself : tableFrame zeroTable.mem 1 1023 = some 1 := by decide
  refine ⟨.of_words hself (by decide) fun f w => ?_, by decide, by decide +kernel⟩
  simp only [zeroTable]
  split_ifs <;> decide

end OlliOS
