import OlliOS.Proofs.Addresses

/-!
# Locality of the mapping operations

`mapMemory` and `unbindVirtualPage` change the word of one page, as `bindVirtualPage` does.
-/

namespace OlliOS

open PageTableItem Option Machine

variable {U : ℕ → Prop} {s s' : Machine} {page i k t f : ℕ} {mode : UserMode} {physical : BitVec 32}
  {slot : ℕ} {item : ℕ → PageTableItem}

/-! ## `mapMemory` -/

lemma mapMemory_eq (h : s.SelfMapped) (page : ℕ) (physical : BitVec 32) (mode : UserMode) :
    s.mapMemory page physical mode = (if (s.mem s.cr3 (page / 1024)).getFlag present then some s
        else s.allocateEntry (page / 1024) mode).bind fun s =>
          (s.modify (tablePage (page / 1024)) (page % 1024) (·.setAddress physical)).bind fun s =>
            s.modify (tablePage (page / 1024)) (page % 1024) (·.enableFlag mode.mapFlags) := by
  simp only [mapMemory, read_entry h, bind_eq_bind, bind_some]
  split_ifs <;> rfl

lemma PageTree.modify_item (h : PageTree U s) (hi : i < 1023) (ht : tableFrame s.mem s.cr3 i = some t)
    (physical : BitVec 32) (flags : BitVec 32) :
    ((s.modify (tablePage i) k (·.setAddress physical)).bind fun s =>
      s.modify (tablePage i) k (·.enableFlag flags)) =
      some (s.poke t k (((s.mem t k).setAddress physical).enableFlag flags)) := by
  have heq := modify_table (k := k) h.self (by omega) ht (h.table i hi t ht)
    (·.setAddress physical) (·.enableFlag flags) some
  simpa only [bind_fun_some] using heq

lemma PageTree.poke (h : PageTree U s) (hpage : page < window) (hU : U (page / 1024))
    (ht : tableFrame s.mem s.cr3 (page / 1024) = some t) (v : PageTableItem) :
    ChangesOnly U s (s.poke t (page % 1024) v) page ∧ (s.poke t (page % 1024) v).mapping page =
        if v.getFlag present then some (s.mem s.cr3 (page / 1024), v) else none := by
  have htd := h.table _ (slot_lt hpage) t ht
  have hdir := poke_frame_of_ne (s := s) (w := page % 1024) (v := v) htd.symm
  refine ⟨h.changesOnly hpage hU ht rfl (fun g w _ hgw => poke_of_ne hgw) fun g hg => .inl hg, ?_⟩
  rw [mapping_of_table ((tableFrame_congr (congrFun hdir _)).trans ht), poke_self]
  exact congrArg (fun e => if v.getFlag present = true then some (e, v) else none) (congrFun hdir _)

/-- `page` is mapped to the frame of `physical`, and no other mapping has changed. -/
structure Maps (U : ℕ → Prop) (s s' : Machine) (page : ℕ) (physical : BitVec 32) : Prop where
  only : ChangesOnly U s s' page
  free : ∀ g, s'.bitmap.Free g → s.bitmap.Free g
  mapped : s'.translate page = some (frameOf physical)

lemma PageTree.mapMemory (h : PageTree U s) (hpage : page < window) (hU : U (page / 1024))
    (hs : s.mapMemory page physical mode = some s') : Maps U s s' page physical := by
  rw [mapMemory_eq h.self] at hs
  obtain ⟨s1, hs1, hs⟩ := bind_eq_some_iff.1 hs
  have hprep := h.prepared (slot_lt hpage) hs1
  obtain ⟨t, ht⟩ := hprep.table
  rw [hprep.tree.modify_item (slot_lt hpage) ht] at hs
  cases hs
  obtain ⟨honly, hmap⟩ := hprep.tree.poke hpage hU ht
    (((s1.mem t (page % 1024)).setAddress physical).enableFlag mode.mapFlags)
  refine ⟨hprep.changesOnly honly, hprep.free, ?_⟩
  rw [translate_eq_mapping, hmap, if_pos (present_enableFlag mode.mapFlags_present)]
  exact congrArg some (frame_map mode.mapFlags_low)

lemma Maps.getPhysicalAddressAt (h : Maps U s s' page physical) (hpage : page < window)
    (hal : physical &&& 0xFFF#32 = 0) :
    s'.getPhysicalAddressAt (BitVec.ofNat 32 (page * 0x1000)) = some physical := by
  unfold window at hpage
  have hto : (BitVec.ofNat 32 (page * 0x1000)).toNat = page * 0x1000 := by
    rw [BitVec.toNat_ofNat]
    omega
  have htr : s'.translate ((BitVec.ofNat 32 (page * 0x1000)).toNat / 0x1000) =
      some (frameOf physical) := by
    rw [hto, Nat.mul_div_cancel _ (by omega)]
    exact h.mapped
  obtain ⟨a, ha, hato⟩ := getPhysicalAddressAt_eq h.only.tree.self htr
  have hlow : physical.toNat % 0x1000 = 0 := by
    rw [← toNat_offset]
    exact congrArg BitVec.toNat hal
  have hframe : frameOf physical = physical.toNat / 0x1000 := by
    rw [frameOf, frame_eq, BitVec.toNat_ushiftRight, Nat.shiftRight_eq_div_pow]
  rw [ha, BitVec.eq_of_toNat_eq (by omega : a.toNat = physical.toNat)]

/-! ## `unbindVirtualPage` -/

/-- `page` is absent, the frames `freed` are free, and no other mapping has changed. -/
structure Unbinds (U : ℕ → Prop) (s s' : Machine) (page : ℕ) (freed : List ℕ) : Prop where
  only : ChangesOnly U s s' page
  free : ∀ g, s'.bitmap.Free g ↔ s.bitmap.Free g ∨ g ∈ freed
  absent : s'.mapping page = none

lemma PageTree.unbindVirtualPage (h : PageTree U s) (hpage : page < window) (hU : U (page / 1024))
    (hord : ∀ f, s.translate page = some f → s.Ordinary f) :
    ∃ s' freed, s.unbindVirtualPage page = some (s', freed) ∧ Unbinds U s s' page freed := by
  obtain ⟨s', hs', hrel, hmem⟩ := DirOwns.unbindVirtualPage_eq page h.self
    (by unfold window at hpage; omega)
  have hfree : ∀ g, s'.bitmap.Free g → s.bitmap.Free g ∨ s.Ordinary g := fun g hg =>
    ((hrel.free g).1 hg).imp_right fun hmem => hord g (DirOwns.translate_of_mem_pageFrames hmem)
  refine ⟨s', _, hs', ?_⟩
  rcases hmem with ⟨hmem, hnone, -⟩ | ⟨t, ht, hmem⟩
  · have hmap : ∀ q, s'.mapping q = s.mapping q := fun q => by
      rw [mapping, mapping, hmem, hrel.cr3]
    have hdir : s'.mem s.cr3 = s.mem s.cr3 := by rw [hmem]
    exact ⟨⟨h.congr hrel.cr3 hdir hfree, hrel.cr3, fun q _ _ => hmap q,
      fun g _ hord => ⟨by rw [hmem], hord.congr hrel.cr3 hdir⟩⟩, hrel.free,
      (hmap page).trans (mapping_eq_none_iff.2 hnone)⟩
  · refine ⟨h.changesOnly hpage hU ht hrel.cr3 (fun g w _ hgw => ?_) hfree, hrel.free, ?_⟩
    · rw [hmem]
      exact poke_of_ne hgw
    · have hmap : s'.mapping page = (s.poke t (page % 1024) 0).mapping page := by
        rw [mapping, mapping, hmem, hrel.cr3]
        rfl
      rw [hmap, (h.poke hpage hU ht 0).2]
      rfl

/-! ## Locality -/

lemma TablesApart.ne_directory (h : TablesApart s) (hi : i < 1023) :
    tableFrame s.mem s.cr3 i ≠ some s.cr3 := by
  -- the directory would be its own table, and its last word a page below the window
  intro ht
  refine (h.unmapped (i * 1024 + 1023) (by unfold window; omega) s.cr3 ?_).1 rfl
  rw [translate_mul_add (by omega), pageFrame, ht]
  exact h.self

namespace PagesApart

lemma tree (h : PagesApart s) : PageTree (fun _ => True) s :=
  ⟨⟨h.self, fun i hi t ht heq => h.ne_directory hi (heq ▸ ht), fun i hi _ => h.once i hi⟩,
    h.directory, h.table⟩

lemma localTo (h : PagesApart s) (h' : ChangesOnly U s s' page) : LocalTo s s' page :=
  ⟨h'.others, fun q hq _ f hf => (h'.frames f (h.used q hq f hf) (h.unmapped q hq f hf)).1⟩

end PagesApart

lemma PageTree.exists_mapMemory (h : PageTree U s) (hpage : page < window) (physical : BitVec 32)
    (mode : UserMode) (hfree : 1 ≤ s.bitmap.freeCount) :
    ∃ s', s.mapMemory page physical mode = some s' := by
  obtain ⟨s1, hs1, -⟩ := h.exists_prepared (slot_lt hpage) mode hfree
  have hprep := h.prepared (slot_lt hpage) hs1
  obtain ⟨t, ht⟩ := hprep.table
  rw [mapMemory_eq h.self, hs1, bind_some]
  exact ⟨_, hprep.tree.modify_item (slot_lt hpage) ht _ _⟩

/-- The page is present, owned, zero, and backed by a frame that was free. -/
def FreshPage (s s' : Machine) (page : ℕ) : Prop :=
  ∃ e v, s'.mapping page = some (e, v) ∧ v.getFlag owned = true ∧ s.bitmap.Free v.frame ∧
    s'.mem v.frame = fun _ => 0

theorem mapping_calls_local (h : PagesApart s) (hpage : page < window) (mode : UserMode) :
    (2 ≤ s.bitmap.freeCount → ∃ s', s.bindVirtualPage page mode = some s') ∧
    (∀ s', s.bindVirtualPage page mode = some s' →
      LocalTo s s' page ∧ (s.mapping page = none → FreshPage s s' page)) ∧
    (∀ physical : BitVec 32, physical &&& 0xFFF#32 = 0 →
      (1 ≤ s.bitmap.freeCount → ∃ s', s.mapMemory page physical mode = some s') ∧
      ∀ s', s.mapMemory page physical mode = some s' → LocalTo s s' page ∧
        s'.getPhysicalAddressAt (BitVec.ofNat 32 (page * 0x1000)) = some physical) ∧
    ∃ s' freed, s.unbindVirtualPage page = some (s', freed) ∧ LocalTo s s' page ∧
      s'.mapping page = none := by
  refine ⟨h.tree.exists_bindVirtualPage hpage mode, fun s' hs => ?_, fun physical hal =>
    ⟨h.tree.exists_mapMemory hpage physical mode, fun s' hs => ?_⟩, ?_⟩
  · have hbinds := h.tree.bindVirtualPage hpage trivial hs
    refine ⟨h.localTo hbinds.only, fun hno => ?_⟩
    obtain ⟨e, v, hv, hown, hf, -, hzero⟩ := hbinds.bound hno
    exact ⟨e, v, hv, hown, hf, hzero⟩
  · have hmaps := h.tree.mapMemory hpage trivial hs
    exact ⟨h.localTo hmaps.only, hmaps.getPhysicalAddressAt hpage hal⟩
  · obtain ⟨s', freed, hs, hunbinds⟩ := h.tree.unbindVirtualPage hpage trivial (h.unmapped page hpage)
    exact ⟨s', freed, hs, h.localTo hunbinds.only, hunbinds.absent⟩

lemma oneTable_translate {p : ℕ} (hp : p < window) (hf : (oneTable slot item).translate p = some f) :
    (item (p % 1024)).getFlag present = true ∧ (item (p % 1024)).frame = f := by
  obtain ⟨t, ht, hk⟩ := pageFrame_eq_some.1 hf
  obtain ⟨-, rfl⟩ := oneTable_table (slot_lt hp) ht
  exact tableFrame_eq_some.1 hk

lemma oneTable_apart
    (h : ∀ w, (item w).getFlag present = true → 2 < (item w).frame ∧ (item w).frame < 0x100) :
    PagesApart (oneTable slot item) where
  self := oneTable_self item
  directory := (oneTable_tree (fun _ => True) slot item).directory
  table := (oneTable_tree (fun _ => True) slot item).used
  unmapped p hp f hf := by
    obtain ⟨hpres, rfl⟩ := oneTable_translate hp hf
    have hlow := (h _ hpres).1
    refine ⟨fun heq => ?_, fun i hi ht => ?_⟩
    · have hone : (oneTable slot item).cr3 = 1 := rfl
      omega
    · have htwo := (oneTable_table hi ht).2
      omega
  used p hp f hf := by
    obtain ⟨hpres, rfl⟩ := oneTable_translate hp hf
    have hhigh := (h _ hpres).2
    rw [oneTable_free]
    omega
  once i hi := (oneTable_tree (fun _ => True) slot item).once i hi trivial

lemma holed_apart : PagesApart holed := oneTable_apart fun w hw => by
  split_ifs at hw ⊢
  · decide
  · cases hw

theorem mapping_calls_local_holed : holed.mapping 1 = none ∧
    ∃ s', holed.bindVirtualPage 1 .user = some s' ∧ LocalTo holed s' 1 ∧ FreshPage holed s' 1 := by
  have hnone : holed.mapping 1 = none := by decide
  have hcount : 2 ≤ holed.bitmap.freeCount := Nat.le_trans (by decide) Bitmap.fromMegabyte_freeCount
  obtain ⟨hreturns, hbinds, -⟩ := mapping_calls_local holed_apart (by decide : 1 < window) .user
  obtain ⟨s', hs'⟩ := hreturns hcount
  obtain ⟨hlocal, hfresh⟩ := hbinds s' hs'
  exact ⟨hnone, s', hs', hlocal, hfresh hnone⟩

def firstItem (w : ℕ) : PageTableItem := if w = 0 then 0x100003 else 0

/-- Page 0 shows a frame that is still free, and which is not zero. -/
def freeMapped : Machine := (oneTable 0 firstItem).fill 0x100 fun _ => 7

def sharedTable : Machine := (oneTable 0 fun _ => 0).poke 1 1 0x2003

lemma freeMapped_apart : TablesApart freeMapped := by
  have hdir : freeMapped.mem 1 = (oneTable 0 firstItem).mem 1 := fill_of_ne (by decide)
  have htree : PageTree (fun _ => True) freeMapped :=
    (oneTable_tree _ 0 firstItem).congr rfl hdir fun _ hg => .inl hg
  refine ⟨htree.self, htree.directory, htree.used, fun p hp f hf => ?_⟩
  have hsame : freeMapped.mapping p = (oneTable 0 firstItem).mapping p := by
    refine mapping_congr rfl (congrFun hdir _) fun t ht => ?_
    rw [(oneTable_table (slot_lt hp) ht).2]
    exact congrFun (fill_of_ne (by decide)) _
  rw [translate_eq_mapping, hsame, ← translate_eq_mapping] at hf
  obtain ⟨hpres, hframe⟩ := oneTable_translate hp hf
  obtain rfl : f = 0x100 := by
    unfold firstItem at hpres hframe
    split_ifs at hpres hframe
    · exact hframe.symm
    · cases hpres
  exact ⟨(by decide : 0x100 ≠ 1), fun i hi ht => absurd (htree.used i hi _ ht) (by decide)⟩

lemma sharedTable_table {j : ℕ} (hj : j < 1023) (ht : tableFrame sharedTable.mem 1 j = some t) :
    t = 2 := by
  rcases eq_or_ne j 1 with rfl | hne
  · exact some.inj (ht.symm.trans (by decide))
  · exact (oneTable_table hj ((tableFrame_congr (poke_of_ne (.inr hne))).symm.trans ht)).2

lemma sharedTable_apart : TablesApart sharedTable := by
  have hself : tableFrame sharedTable.mem 1 1023 = some 1 := by decide
  refine ⟨hself, by decide, fun i hi t ht => ?_, fun p hp f hf => ?_⟩
  · rw [sharedTable_table hi ht]
    decide
  obtain ⟨t, ht, hk⟩ := pageFrame_eq_some.1 hf
  obtain rfl := sharedTable_table (slot_lt hp) ht
  -- the table has no page
  have hword : sharedTable.mem 2 (p % 1024) = 0 := poke_of_ne (.inl (by decide))
  rw [tableFrame_eq_some, hword] at hk
  exact absurd hk.1 (by decide)

/-- A page that is bound takes the frame of another page and clears it, and the word of a page is the word
of another one in a table that two slots share. -/
theorem mapping_calls_not_local :
    (TablesApart freeMapped ∧ ∃ s', freeMapped.bindVirtualPage 1 .user = some s' ∧
      freeMapped.translate 0 = some 0x100 ∧ freeMapped.mem 0x100 0 = 7 ∧ s'.mem 0x100 0 = 0) ∧
    TablesApart sharedTable ∧ ∃ s', sharedTable.bindVirtualPage 0 .user = some s' ∧
      sharedTable.mapping 1024 = none ∧ s'.mapping 1024 ≠ none := by
  refine ⟨⟨freeMapped_apart, ?_⟩, sharedTable_apart, ?_⟩
  · have hrun : (freeMapped.bindVirtualPage 1 .user).map (fun s => s.mem 0x100 0) = some 0 := by
      decide +kernel
    obtain ⟨s', hs', hzero⟩ := map_eq_some_iff.1 hrun
    exact ⟨s', hs', by decide, by decide, hzero⟩
  · have hrun : (sharedTable.bindVirtualPage 0 .user).map (fun s => (s.mapping 1024).isSome) =
        some true := by decide +kernel
    obtain ⟨s', hs', hsome⟩ := map_eq_some_iff.1 hrun
    exact ⟨s', hs', by decide, isSome_iff_ne_none.1 hsome⟩

end OlliOS
