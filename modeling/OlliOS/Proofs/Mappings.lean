import OlliOS.Mappings
import OlliOS.Proofs.PageOwnership

/-!
# What the operations do to the mappings

A mapping depends on one word of the directory and one word of a table (`mapping_congr`), and an
empty table changes no mapping (`Prepared`). What the operations need of the tables is asked of the
slots `U` whose pages they bind.
-/

namespace OlliOS

open PageTableItem Option Machine UInt32

variable {s s1 s' : Machine} {page i k t f : ℕ} {v : PageTableItem} {mode : UserMode} {U : ℕ → Prop}

namespace Machine

lemma mapping_of_none (h : tableFrame s.mem s.cr3 (page / 1024) = none) : s.mapping page = none := by
  rw [mapping, h]
  rfl

lemma mapping_of_table (h : tableFrame s.mem s.cr3 (page / 1024) = some t) : s.mapping page =
    if (s.mem t (page % 1024)).getFlag present then
      some (s.mem s.cr3 (page / 1024), s.mem t (page % 1024))
    else none := by
  rw [mapping, h]
  rfl

lemma translate_eq_mapping (s : Machine) (page : ℕ) :
    s.translate page = (s.mapping page).map (·.2.frame) := by
  rw [translate, pageFrame]
  rcases ht : tableFrame s.mem s.cr3 (page / 1024) with _ | t
  · rw [mapping_of_none ht]
    rfl
  · rw [mapping_of_table ht, bind_some, tableFrame]
    split_ifs <;> rfl

lemma translate_congr (h : s'.mapping page = s.mapping page) : s'.translate page = s.translate page := by
  rw [translate_eq_mapping, translate_eq_mapping, h]

lemma mapping_eq_none_iff : s.mapping page = none ↔ s.translate page = none := by
  rw [translate_eq_mapping, map_eq_none_iff]

/-- A mapping depends on the word of the slot and the word of the page. -/
lemma mapping_congr (hcr3 : s'.cr3 = s.cr3)
    (hentry : s'.mem s.cr3 (page / 1024) = s.mem s.cr3 (page / 1024))
    (hitem : ∀ t, tableFrame s.mem s.cr3 (page / 1024) = some t →
      s'.mem t (page % 1024) = s.mem t (page % 1024)) : s'.mapping page = s.mapping page := by
  have htable : tableFrame s'.mem s'.cr3 (page / 1024) = tableFrame s.mem s.cr3 (page / 1024) := by
    rw [hcr3]
    exact tableFrame_congr hentry
  rcases ht : tableFrame s.mem s.cr3 (page / 1024) with _ | t
  · rw [mapping_of_none ht, mapping_of_none (htable.trans ht)]
  · rw [mapping_of_table ht, mapping_of_table (htable.trans ht), hitem t ht, hcr3, hentry]

lemma Ordinary.congr (h : s.Ordinary f) (hcr3 : s'.cr3 = s.cr3)
    (hdir : s'.mem s.cr3 = s.mem s.cr3) : s'.Ordinary f := by
  unfold Ordinary
  rw [hcr3]
  exact ⟨h.1, fun i hi => (tableFrame_congr (congrFun hdir i)).symm ▸ h.2 i hi⟩

end Machine

lemma slot_lt (h : page < window) : page / 1024 < 1023 := by
  unfold window at h
  omega

namespace SlotTables

lemma congr (h : SlotTables U s) (hcr3 : s'.cr3 = s.cr3) (hdir : s'.mem s.cr3 = s.mem s.cr3) :
    SlotTables U s' := by
  have htable : ∀ j, tableFrame s'.mem s'.cr3 j = tableFrame s.mem s.cr3 j := fun j => by
    rw [hcr3]
    exact tableFrame_congr (congrFun hdir j)
  refine ⟨?_, fun j hj g hg => ?_, ?_⟩
  · rw [Machine.SelfMapped, htable, hcr3]
    exact h.self
  · rw [htable] at hg
    rw [hcr3]
    exact h.table j hj g hg
  · simp only [htable]
    exact h.once

/-- The word of a page in a slot of `U` is a word of no other page. -/
lemma mapping_eq (h : SlotTables U s) (hpage : page < window) (hU : U (page / 1024))
    (ht : tableFrame s.mem s.cr3 (page / 1024) = some t) (hcr3 : s'.cr3 = s.cr3)
    (hdir : s'.mem s.cr3 = s.mem s.cr3)
    (hmem : ∀ i < 1023, ∀ g w, tableFrame s.mem s.cr3 i = some g → g ≠ t ∨ w ≠ page % 1024 →
      s'.mem g w = s.mem g w) {q : ℕ} (hq : q < 1024 * 1024) (hne : q ≠ page) :
    s'.mapping q = s.mapping q := by
  refine mapping_congr hcr3 (congrFun hdir _) fun g hg => ?_
  rcases Nat.lt_or_ge (q / 1024) 1023 with hslot | hslot
  · refine hmem _ hslot g _ hg ?_
    -- the same word of the same table is the same page
    by_contra hboth
    push Not at hboth
    obtain ⟨rfl, hk⟩ := hboth
    have heq := h.once _ (slot_lt hpage) hU _ hslot g ht hg
    omega
  · rw [show q / 1024 = 1023 by omega] at hg
    cases hg.symm.trans h.self
    exact congrFun hdir _

end SlotTables

namespace PageTree

lemma ne_directory (h : PageTree U s) (hf : s.bitmap.Free f) : s.cr3 ≠ f :=
  fun heq => h.directory (heq ▸ hf)

lemma ne_table (h : PageTree U s) (hi : i < 1023) (ht : tableFrame s.mem s.cr3 i = some t)
    (hf : s.bitmap.Free f) : t ≠ f :=
  fun heq => h.used i hi t ht (heq ▸ hf)

lemma congr (h : PageTree U s) (hcr3 : s'.cr3 = s.cr3) (hdir : s'.mem s.cr3 = s.mem s.cr3)
    (hfree : ∀ g, s'.bitmap.Free g → s.bitmap.Free g ∨ s.Ordinary g) : PageTree U s' := by
  refine ⟨h.toSlotTables.congr hcr3 hdir, ?_, fun j hj g hg hfr => ?_⟩
  · rw [hcr3]
    exact fun hfr => (hfree _ hfr).elim h.directory fun hord => hord.1 rfl
  · have hold : tableFrame s.mem s.cr3 j = some g := by
      rw [← hg, hcr3]
      exact (tableFrame_congr (congrFun hdir j)).symm
    exact (hfree _ hfr).elim (h.used j hj g hold) fun hord => hord.2 j hj hold

end PageTree

/-! ## A table for the slot -/

/-- The slot `i` has a table, and no mapping has changed on the way from `s` to `s'`. -/
structure Prepared (U : ℕ → Prop) (s s' : Machine) (i : ℕ) : Prop where
  tree : PageTree U s'
  cr3 : s'.cr3 = s.cr3
  table : ∃ t, tableFrame s'.mem s'.cr3 i = some t
  mapping : ∀ page < window, s'.mapping page = s.mapping page
  frames : ∀ g, ¬ s.bitmap.Free g → s.Ordinary g → s'.mem g = s.mem g ∧ s'.Ordinary g
  free : ∀ g, s'.bitmap.Free g → s.bitmap.Free g

lemma PageTree.prepared_attach (h : PageTree U s) (hi : i < 1023)
    (habsent : tableFrame s.mem s.cr3 i = none) (hf : s.bitmap.Free f)
    (hnew : tableFrame (s.attach s.cr3 i v f fun _ => 0).mem s.cr3 i = some f) :
    Prepared U s (s.attach s.cr3 i v f fun _ => 0) i := by
  have hdf := h.ne_directory hf
  have hword : ∀ j ≠ i, (s.attach s.cr3 i v f fun _ => 0).mem s.cr3 j = s.mem s.cr3 j :=
    fun j hj => attach_of_ne hdf (.inr hj)
  have htable : ∀ j ≠ i, tableFrame (s.attach s.cr3 i v f fun _ => 0).mem s.cr3 j =
      tableFrame s.mem s.cr3 j := fun j hj => tableFrame_congr (hword j hj)
  -- a table is the new one or was one before
  have hcases : ∀ {j g}, tableFrame (s.attach s.cr3 i v f fun _ => 0).mem s.cr3 j = some g →
      j = i ∧ g = f ∨ tableFrame s.mem s.cr3 j = some g := by
    intro j g hg
    rcases eq_or_ne j i with rfl | hji
    · exact .inl ⟨rfl, (some.inj (hnew.symm.trans hg)).symm⟩
    · exact .inr ((htable j hji).symm.trans hg)
  refine ⟨⟨⟨?_, fun j hj g hg => ?_, fun a ha hUa b hb g hga hgb => ?_⟩, fun hfr => ?_,
    fun j hj g hg hfr => ?_⟩, rfl, ⟨f, hnew⟩, fun q hq => ?_,
    fun g hg hord => ⟨?_, hord.1, fun j hj hjg => ?_⟩, fun g hg => (attach_free.1 hg).2⟩
  · exact (htable 1023 (by omega)).trans h.self
  · rcases hcases hg with ⟨-, rfl⟩ | hold
    · exact hdf.symm
    · exact h.table j hj g hold
  · rcases hcases hga with ⟨rfl, rfl⟩ | holda <;> rcases hcases hgb with ⟨rfl, hgf⟩ | holdb
    · rfl
    · exact absurd rfl (h.ne_table hb holdb hf)
    · exact absurd hgf (h.ne_table ha holda hf)
    · exact h.once a ha hUa b hb g holda holdb
  · exact h.directory (attach_free.1 hfr).2
  · obtain ⟨hne, hfr⟩ := attach_free.1 hfr
    rcases hcases hg with ⟨-, rfl⟩ | hold
    · exact hne rfl
    · exact h.used j hj g hold hfr
  · rcases eq_or_ne (q / 1024) i with hqi | hqi
    · have hempty : (s.attach s.cr3 i v f fun _ => 0).mapping q = none := by
        rw [mapping_of_table (by rw [hqi]; exact hnew), attach_new]
        rfl
      rw [hempty, mapping_of_none (by rw [hqi]; exact habsent)]
    · refine mapping_congr rfl (hword _ hqi) fun g hg => ?_
      exact attach_of_ne (h.ne_table (slot_lt hq) hg hf) (.inl (h.table _ (slot_lt hq) g hg))
  · exact attach_frame_of_ne (fun heq => hg (heq ▸ hf)) hord.1
  · rcases hcases hjg with ⟨-, rfl⟩ | hold
    · exact hg hf
    · exact hord.2 j hj hold

lemma tableFrame_eq_none (h : (s.mem t k).getFlag present = false) :
    tableFrame s.mem t k = none := by
  rw [tableFrame, h]
  rfl

lemma bindVirtualPage_eq (h : s.SelfMapped) (page : ℕ) (mode : UserMode) :
    s.bindVirtualPage page mode = (if (s.mem s.cr3 (page / 1024)).getFlag present then some s
      else s.allocateEntry (page / 1024) mode).bind (·.bindPage page mode) := by
  simp only [bindVirtualPage, read_entry h, bind_eq_bind, bind_some]
  split_ifs <;> rfl

/-- The slot has a table already, or a free frame is cleared and attached as its table. -/
lemma PageTree.prepare_cases (h : PageTree U s) (hi : i < 1023)
    (hs : (if (s.mem s.cr3 i).getFlag present then some s else s.allocateEntry i mode) = some s1) :
    (∃ t, tableFrame s.mem s.cr3 i = some t) ∧ s1 = s ∨
    tableFrame s.mem s.cr3 i = none ∧ ∃ f, s.bitmap.Free f ∧ f < 2 ^ 20 ∧
      s1 = s.attach s.cr3 i (((s.mem s.cr3 i).setAddress (ofFrame f)).enableFlag mode.flags) f
        fun _ => 0 := by
  split_ifs at hs with hp
  · exact .inl ⟨⟨_, tableFrame_eq_some.2 ⟨hp, rfl⟩⟩, (some.inj hs).symm⟩
  rw [Bool.not_eq_true] at hp
  simp only [allocateEntry, read_entry h.self, bind_eq_bind, bind_some, hp] at hs
  obtain ⟨⟨f, s2⟩, ha, hs⟩ := bind_eq_some_iff.1 hs
  rw [attach_entry _ _ h.self hi mode.flags_present mode.flags_low ha] at hs
  obtain ⟨hf, hlt, -, -⟩ := allocate_eq_some ha
  exact .inr ⟨tableFrame_eq_none hp, f, hf, hlt, (some.inj hs).symm⟩

lemma PageTree.prepared (h : PageTree U s) (hi : i < 1023)
    (hs : (if (s.mem s.cr3 i).getFlag present then some s else s.allocateEntry i mode) = some s1) :
    Prepared U s s1 i := by
  rcases h.prepare_cases hi hs with ⟨htable, rfl⟩ | ⟨hnone, f, hf, hlt, rfl⟩
  · exact ⟨h, rfl, htable, fun _ _ => rfl, fun _ _ hord => ⟨rfl, hord⟩, fun _ hg => hg⟩
  · exact h.prepared_attach hi hnone hf
      (tableFrame_attach (h.ne_directory hf) hlt mode.flags_present mode.flags_low)

lemma PageTree.exists_prepared (h : PageTree U s) (hi : i < 1023) (mode : UserMode)
    (hfree : 1 ≤ s.bitmap.freeCount) : ∃ s1,
      (if (s.mem s.cr3 i).getFlag present then some s else s.allocateEntry i mode) = some s1 ∧
      s.bitmap.freeCount ≤ s1.bitmap.freeCount + 1 := by
  split_ifs with hp
  · exact ⟨s, rfl, by omega⟩
  · obtain ⟨f, s2, ha⟩ := exists_allocate hfree
    simp only [allocateEntry, read_entry h.self, bind_eq_bind, bind_some, hp, ha]
    refine ⟨_, attach_entry _ _ h.self hi mode.flags_present mode.flags_low ha, ?_⟩
    obtain ⟨-, -, rfl, hcount⟩ := allocate_eq_some ha
    exact hcount.le

/-! ## The word of a page -/

/-- No mapping but that of `page` changes, and no frame that is in use and is not a table. -/
structure ChangesOnly (U : ℕ → Prop) (s s' : Machine) (page : ℕ) : Prop where
  tree : PageTree U s'
  cr3 : s'.cr3 = s.cr3
  others : ∀ q < window, q ≠ page → s'.mapping q = s.mapping q
  frames : ∀ g, ¬ s.bitmap.Free g → s.Ordinary g → s'.mem g = s.mem g ∧ s'.Ordinary g

lemma Prepared.changesOnly (h : Prepared U s s1 i) (h' : ChangesOnly U s1 s' page) :
    ChangesOnly U s s' page where
  tree := h'.tree
  cr3 := h'.cr3.trans h.cr3
  others q hq hne := (h'.others q hq hne).trans (h.mapping q hq)
  frames g hg hord := by
    obtain ⟨hmem, hord'⟩ := h.frames g hg hord
    exact (h'.frames g (fun hfr => hg (h.free g hfr)) hord').imp_left (·.trans hmem)

/-- Only the word of `page` and frames that were free have changed. -/
lemma PageTree.changesOnly (h : PageTree U s) (hpage : page < window) (hU : U (page / 1024))
    (ht : tableFrame s.mem s.cr3 (page / 1024) = some t) (hcr3 : s'.cr3 = s.cr3)
    (hmem : ∀ g w, ¬ s.bitmap.Free g → g ≠ t ∨ w ≠ page % 1024 → s'.mem g w = s.mem g w)
    (hfree : ∀ g, s'.bitmap.Free g → s.bitmap.Free g ∨ s.Ordinary g) : ChangesOnly U s s' page := by
  have htd := h.table _ (slot_lt hpage) t ht
  have hdir : s'.mem s.cr3 = s.mem s.cr3 := funext fun w => hmem _ w h.directory (.inl htd.symm)
  refine ⟨h.congr hcr3 hdir hfree, hcr3, fun q hq hne => ?_,
    fun g hg hord => ⟨funext fun w => ?_, hord.congr hcr3 hdir⟩⟩
  · refine h.mapping_eq hpage hU ht hcr3 hdir
      (fun i hi g w hg => hmem g w (h.used i hi g hg)) ?_ hne
    unfold window at hq
    omega
  · exact hmem g w hg (.inl fun heq => hord.2 _ (slot_lt hpage) (heq ▸ ht))

/-- `page` stays as it is if it is present, and gets a cleared frame that was free if it is not. -/
structure Binds (U : ℕ → Prop) (s s' : Machine) (page : ℕ) : Prop where
  only : ChangesOnly U s s' page
  free : ∀ g, s'.bitmap.Free g → s.bitmap.Free g
  kept : s.mapping page ≠ none → s'.mapping page = s.mapping page
  bound : s.mapping page = none → ∃ e v, s'.mapping page = some (e, v) ∧ v.getFlag owned = true ∧
    s.bitmap.Free v.frame ∧ ¬ s'.bitmap.Free v.frame ∧ s'.mem v.frame = fun _ => 0

section

variable (h : PageTree U s)

include h

lemma PageTree.bindPage_cases (hpage : page < window)
    (ht : tableFrame s.mem s.cr3 (page / 1024) = some t) (hs : s.bindPage page mode = some s') :
    s.mapping page ≠ none ∧ s' = s ∨
    s.mapping page = none ∧ ∃ f, s.bitmap.Free f ∧ f < 2 ^ 20 ∧ s' = s.attach t (page % 1024)
      (((s.mem t (page % 1024)).setAddress (ofFrame f)).enableFlag mode.flags) f fun _ => 0 := by
  have hslot := slot_lt hpage
  rw [mapping_of_table ht]
  simp only [bindPage, read_table h.self (by omega : page / 1024 < 1024) ht, bind_eq_bind,
    bind_some] at hs
  split_ifs at hs with hp
  · rw [if_pos hp]
    exact .inl ⟨some_ne_none _, (some.inj hs).symm⟩
  obtain ⟨⟨f, s2⟩, ha, hs⟩ := bind_eq_some_iff.1 hs
  rw [attach_table page _ _ h.self (by omega) ht (h.table _ hslot t ht) mode.flags_present
    mode.flags_low ha] at hs
  obtain ⟨hf, hlt, -, -⟩ := allocate_eq_some ha
  rw [if_neg hp]
  exact .inr ⟨rfl, f, hf, hlt, (some.inj hs).symm⟩

lemma PageTree.mapping_attach (hpage : page < window) (hf : s.bitmap.Free f)
    (ht : tableFrame s.mem s.cr3 (page / 1024) = some t) (hv : v.getFlag present = true)
    (content : Page) :
    (s.attach t (page % 1024) v f content).mapping page = some (s.mem s.cr3 (page / 1024), v) := by
  have hslot := slot_lt hpage
  have hentry : (s.attach t (page % 1024) v f content).mem s.cr3 (page / 1024) =
      s.mem s.cr3 (page / 1024) :=
    attach_of_ne (h.ne_directory hf) (.inl (h.table _ hslot t ht).symm)
  have hitem : (s.attach t (page % 1024) v f content).mem t (page % 1024) = v :=
    attach_item (h.ne_table hslot ht hf)
  rw [mapping_of_table ((tableFrame_congr hentry).trans ht), hitem, if_pos hv]
  exact congrArg (fun e => some (e, v)) hentry

lemma PageTree.changesOnly_attach (hpage : page < window) (hU : U (page / 1024))
    (ht : tableFrame s.mem s.cr3 (page / 1024) = some t) (hf : s.bitmap.Free f) (content : Page) :
    ChangesOnly U s (s.attach t (page % 1024) v f content) page :=
  h.changesOnly hpage hU ht rfl (fun _ _ hg hgw => attach_of_ne (fun heq => hg (heq ▸ hf)) hgw)
    fun _ hg => .inl (attach_free.1 hg).2

lemma PageTree.bindPage (hpage : page < window) (hU : U (page / 1024))
    (ht : tableFrame s.mem s.cr3 (page / 1024) = some t) (hs : s.bindPage page mode = some s') :
    Binds U s s' page := by
  rcases h.bindPage_cases hpage ht hs with ⟨hsome, rfl⟩ | ⟨hnone, f, hf, hlt, rfl⟩
  · exact ⟨⟨h, rfl, fun _ _ _ => rfl, fun _ _ hord => ⟨rfl, hord⟩⟩, fun _ hg => hg, fun _ => rfl,
      fun hno => absurd hno hsome⟩
  refine ⟨h.changesOnly_attach hpage hU ht hf _, fun g hg => (attach_free.1 hg).2,
    fun hno => absurd hnone hno, fun _ => ?_⟩
  refine ⟨_, _, h.mapping_attach hpage hf ht (present_enableFlag mode.flags_present) _,
    owned_enableFlag mode.flags_owned, ?_⟩
  rw [frame_enableFlag mode.flags_low, frame_setAddress hlt]
  exact ⟨hf, fun hfr => (attach_free.1 hfr).1 rfl, attach_new⟩

lemma PageTree.bindVirtualPage (hpage : page < window) (hU : U (page / 1024))
    (hs : s.bindVirtualPage page mode = some s') : Binds U s s' page := by
  rw [bindVirtualPage_eq h.self] at hs
  obtain ⟨s1, hs1, hs⟩ := bind_eq_some_iff.1 hs
  have hprep := h.prepared (slot_lt hpage) hs1
  obtain ⟨t, ht⟩ := hprep.table
  obtain ⟨honly, hfree, hkept, hbound⟩ := hprep.tree.bindPage hpage hU ht hs
  rw [hprep.mapping page hpage] at hkept hbound
  refine ⟨hprep.changesOnly honly, fun g hg => hprep.free g (hfree g hg), hkept, fun hno => ?_⟩
  obtain ⟨e, v, hv, hown, hf, hrest⟩ := hbound hno
  exact ⟨e, v, hv, hown, hprep.free _ hf, hrest⟩

lemma PageTree.exists_bindVirtualPage (hpage : page < window) (mode : UserMode)
    (hfree : 2 ≤ s.bitmap.freeCount) : ∃ s', s.bindVirtualPage page mode = some s' := by
  obtain ⟨s1, hs1, hcount⟩ := h.exists_prepared (slot_lt hpage) mode (by omega)
  have hprep := h.prepared (slot_lt hpage) hs1
  obtain ⟨t, ht⟩ := hprep.table
  have hslot := slot_lt hpage
  rw [bindVirtualPage_eq h.self, hs1, bind_some]
  simp only [Machine.bindPage, read_table hprep.tree.self (by omega : page / 1024 < 1024) ht,
    bind_eq_bind, bind_some]
  split_ifs
  · exact ⟨s1, rfl⟩
  · obtain ⟨f, s2, ha⟩ := exists_allocate (s := s1) (by omega)
    rw [ha, bind_some]
    exact ⟨_, attach_table page _ _ hprep.tree.self (by omega) ht (hprep.tree.table _ hslot t ht)
      mode.flags_present mode.flags_low ha⟩

end

/-! ## A range of pages -/

/-- The pages of a range that was absent are present, with frames of their own that were free. -/
structure BindsRange (U : ℕ → Prop) (s s' : Machine) (page count : ℕ) : Prop where
  tree : PageTree U s'
  free : ∀ g, s'.bitmap.Free g → s.bitmap.Free g
  others : ∀ q < window, (∀ c < count, q ≠ page + c) → s'.mapping q = s.mapping q
  bound : ∀ c < count, ∃ f, s'.translate (page + c) = some f ∧ s.bitmap.Free f ∧
    ¬ s'.bitmap.Free f
  distinct : ∀ c < count, ∀ c' < count, s'.translate (page + c) = s'.translate (page + c') → c = c'

lemma BindsRange.snoc {n : ℕ} (h : BindsRange U s s1 page n) (hpage : page + n < window)
    (habsent : s.mapping (page + n) = none) (h' : Binds U s1 s' (page + n)) :
    BindsRange U s s' page (n + 1) := by
  have hold : ∀ c < n, s'.translate (page + c) = s1.translate (page + c) := fun c hc =>
    translate_congr (h'.only.others (page + c) (by omega) (by omega))
  have hsame := h.others (page + n) hpage fun c hc => by omega
  obtain ⟨e, v, hv, -, hf, hused, -⟩ := h'.bound (hsame.trans habsent)
  have hlast : s'.translate (page + n) = some v.frame := by
    rw [translate_eq_mapping, hv]
    rfl
  have hapart : ∀ c < n, s'.translate (page + c) ≠ s'.translate (page + n) := fun c hc heq => by
    -- the last frame was free when the others were in use already
    obtain ⟨g, hg, -, hgused⟩ := h.bound c hc
    rw [hold c hc, hlast, hg] at heq
    exact hgused (some.inj heq ▸ hf)
  refine ⟨h'.only.tree, fun g hg => h.free g (h'.free g hg), fun q hq hne => ?_, fun c hc => ?_,
    fun c hc c' hc' heq => ?_⟩
  · rw [h'.only.others q hq (hne n (by omega)), h.others q hq fun c hc => hne c (by omega)]
  · rcases Nat.lt_succ_iff_lt_or_eq.1 hc with hc | rfl
    · obtain ⟨g, hg, hgf, hgused⟩ := h.bound c hc
      exact ⟨g, (hold c hc).trans hg, hgf, fun hfr => hgused (h'.free g hfr)⟩
    · exact ⟨v.frame, hlast, h.free _ hf, hused⟩
  · rcases Nat.lt_succ_iff_lt_or_eq.1 hc with hlt | rfl <;>
      rcases Nat.lt_succ_iff_lt_or_eq.1 hc' with hlt' | rfl
    · rw [hold c hlt, hold c' hlt'] at heq
      exact h.distinct c hlt c' hlt' heq
    · exact absurd heq (hapart c hlt)
    · exact absurd heq.symm (hapart c' hlt')
    · rfl

lemma PageTree.bindRange (h : PageTree U s) : ∀ (count : ℕ) {s' : Machine},
    page + count ≤ window → (∀ c < count, U ((page + c) / 1024)) →
    (∀ c < count, s.mapping (page + c) = none) →
    (List.range' page count).foldlM (fun s c => s.bindVirtualPage c mode) s = some s' →
    BindsRange U s s' page count
  | 0, s', _, _, _, hs => by
    cases hs
    exact ⟨h, fun _ hg => hg, fun _ _ _ => rfl, fun c hc => by omega, fun c hc => by omega⟩
  | n + 1, s', hend, hU, habsent, hs => by
    rw [List.range'_1_concat, List.foldlM_append] at hs
    obtain ⟨s1, hs1, hs⟩ := bind_eq_some_iff.1 hs
    simp only [List.foldlM_cons, List.foldlM_nil, bind_pure] at hs
    have hrange := h.bindRange n (by omega) (fun c hc => hU c (by omega))
      (fun c hc => habsent c (by omega)) hs1
    exact hrange.snoc (by omega) (habsent n (by omega))
      (hrange.tree.bindVirtualPage (by omega) (hU n (by omega)) hs)

/-! ## The search -/

lemma pageUnused_eq (h : s.SelfMapped) (hi : i < 1024 * 1024) :
    s.pageUnused i = some (s.mapping i).isNone := by
  simp only [pageUnused, read_entry h, bind_eq_bind, bind_some]
  rcases hp : (s.mem s.cr3 (i / 1024)).getFlag present with _ | _
  · rw [mapping_of_none (tableFrame_eq_none hp)]
    rfl
  · have ht := tableFrame_eq_some.2 ⟨hp, rfl⟩
    simp only [mapping_of_table ht, read_table h (by omega : i / 1024 < 1024) ht, bind_some]
    rcases (s.mem _ (i % 1024)).getFlag present <;> rfl

lemma allM_const (b : Bool) (x : ℕ) (l : List ℕ) : ((x :: l).allM fun _ => some b) = some b := by
  induction l generalizing x with
  | nil => cases b <;> rfl
  | cons y l ih =>
    rw [List.allM, ih]
    cases b <;> rfl

lemma firstUnused_eq_some (h : s.SelfMapped) {count : ℕ} (hcount : 1 ≤ count) : ∀ {n i j : ℕ},
    i + n ≤ 1024 * 1024 → s.firstUnused count n i = some (some j) →
    j < i + n ∧ s.FirstAbsent i j
  | 0, i, j, _, hs => by simp [firstUnused] at hs
  | n + 1, i, j, hn, hs => by
    obtain ⟨m, rfl⟩ : ∃ m, count = m + 1 := ⟨count - 1, by omega⟩
    rw [firstUnused, pageUnused_eq h (by omega), List.range_succ_eq_map, allM_const, bind_eq_bind,
      bind_some] at hs
    rcases hnone : s.mapping i with _ | e <;> rw [hnone] at hs
    · obtain rfl : i = j := some.inj (some.inj hs)
      exact ⟨by omega, le_rfl, hnone, fun q hq hqj => by omega⟩
    obtain ⟨hlt, hij, hj, hbelow⟩ := firstUnused_eq_some h hcount (by omega) hs
    refine ⟨by omega, by omega, hj, fun q hq hqj => ?_⟩
    rcases Nat.eq_or_lt_of_le hq with rfl | hlt
    · rw [hnone]
      exact some_ne_none e
    · exact hbelow q hlt hqj

lemma toNat_roundUp {start : UInt32} (h : start ≤ 0xFFFFF000) :
    ((start + (if start % 0x1000 = 0 then 0 else 0x1000 - start % 0x1000)) / 0x1000).toNat =
      (start.toNat + 0xFFF) / 0x1000 := by
  have hle : start.toNat ≤ 0xFFFFF000 := le_iff_toNat_le.1 h
  have hmod : (start % 0x1000).toNat = start.toNat % 0x1000 := UInt32.toNat_mod start 0x1000
  split_ifs with h0
  · have h0' : start.toNat % 0x1000 = 0 := by rw [← hmod, h0]; rfl
    rw [UInt32.toNat_div, UInt32.add_zero]
    change start.toNat / 4096 = _
    omega
  · have h0' : start.toNat % 0x1000 ≠ 0 := fun h' => h0 (UInt32.toNat_inj.1 (hmod.trans h'))
    have hsub : (0x1000 - start % 0x1000 : UInt32).toNat = 0x1000 - start.toNat % 0x1000 := by
      rw [UInt32.toNat_sub_of_le, hmod]
      · rfl
      · rw [le_iff_toNat_le, hmod]
        change _ ≤ 4096
        omega
    rw [UInt32.toNat_div, UInt32.toNat_add, hsub]
    change _ / 4096 = _
    omega

lemma Machine.FirstAbsent.unique {start p q : ℕ} (hp : s.FirstAbsent start p)
    (hq : s.FirstAbsent start q) : p = q := by
  rcases Nat.lt_trichotomy p q with hlt | heq | hlt
  · exact absurd hp.2.1 (hq.2.2 p hp.1 hlt)
  · exact heq
  · exact absurd hq.2.1 (hp.2.2 q hq.1 hlt)

/-- A call that returns an address has found the first page from the start on that is not present, and
has bound the pages from there. -/
theorem bindFirstFreeVirtualPagesAt_eq_some (h : s.SelfMapped) {start r : UInt32} {count : ℕ}
    (hcount : 1 ≤ count) (hs : s.bindFirstFreeVirtualPagesAt start count mode = some (s', r))
    (hr : r ≠ 0) (hstart : start ≤ 0xFFFFF000) :
    ∃ p, s.FirstAbsent ((start.toNat + 0xFFF) / 0x1000) p ∧ r.toNat = p * 0x1000 ∧
      (List.range' p count).foldlM (fun s c => s.bindVirtualPage c mode) s = some s' := by
  rw [bindFirstFreeVirtualPagesAt, map_eq_some_iff] at hs
  obtain ⟨⟨s1, i⟩, hs, heq⟩ := hs
  cases heq
  rw [toNat_roundUp hstart, bindFirstFreeVirtualPages] at hs
  obtain ⟨found, hfound, hs⟩ := bind_eq_some_iff.1 hs
  have hle : start.toNat ≤ 0xFFFFF000 := le_iff_toNat_le.1 hstart
  rcases found with _ | p
  · cases hs
    exact absurd rfl hr
  obtain ⟨s2, hs2, hs⟩ := bind_eq_some_iff.1 hs
  obtain ⟨rfl, rfl⟩ := Prod.mk.inj (some.inj hs)
  obtain ⟨hlt, hfirst⟩ := firstUnused_eq_some h hcount (by omega) hfound
  refine ⟨p, hfirst, toNat_ofNat_of_lt' ?_, hs2⟩
  rw [size]
  omega

/-- The slots `U` are those of the pages from the first absent one on, or more. -/
theorem bindFirstFreeVirtualPages_fresh_iff (h : PageTree U s) {start r : UInt32} {count : ℕ}
    {mode : UserMode}
    (hU : ∀ p, s.FirstAbsent ((start.toNat + 0xFFF) / 0x1000) p → ∀ c < count, U ((p + c) / 1024))
    (hcount : 1 ≤ count) (hs : s.bindFirstFreeVirtualPagesAt start count mode = some (s', r))
    (hr : r ≠ 0) :
    FreshRange s s' start r count ↔ start ≤ 0xFFFFF000 ∧
      ∃ p, s.FirstAbsent ((start.toNat + 0xFFF) / 0x1000) p ∧ p + count ≤ window ∧
        ∀ c < count, s.mapping (p + c) = none := by
  constructor
  · intro hfresh
    have habove := le_iff_toNat_le.1 hfresh.above
    have hbelow := hfresh.below
    have hstart : start ≤ 0xFFFFF000 := le_iff_toNat_le.2 (by change _ ≤ 0xFFFFF000; omega)
    obtain ⟨p, hfirst, hp, -⟩ := bindFirstFreeVirtualPagesAt_eq_some h.self hcount hs hr hstart
    refine ⟨hstart, p, hfirst, by unfold window; omega, fun c hc => ?_⟩
    have habsent := hfresh.absent c hc
    rwa [hp, Nat.mul_div_cancel _ (by decide)] at habsent
  · rintro ⟨hstart, p, hfirst, hend, habsent⟩
    obtain ⟨p', hfirst', hp, hbind⟩ :=
      bindFirstFreeVirtualPagesAt_eq_some h.self hcount hs hr hstart
    obtain rfl := hfirst.unique hfirst'
    have hrange := h.bindRange count hend (hU p hfirst) habsent hbind
    have hfrom := hfirst.1
    unfold window at hend
    obtain rfl : p = r.toNat / 0x1000 := by omega
    refine ⟨by omega, le_iff_toNat_le.2 (by omega), by omega, habsent, fun c hc => ?_,
      hrange.distinct, fun a hal ha _ hnone => ?_, hrange.others⟩
    · obtain ⟨f, hf, hfree, -⟩ := hrange.bound c hc
      exact ⟨f, hf, hfree⟩
    · -- a lower page that is absent would have been found first
      rw [le_iff_toNat_le] at ha ⊢
      by_contra hlt
      exact hfirst.2.2 (a.toNat / 0x1000) (by omega) (by omega) (hnone 0 hcount)

/-! ## A directory with one table -/

section OneTable

variable {slot : ℕ} (item : ℕ → PageTableItem)

lemma oneTable_self : tableFrame (oneTable slot item).mem 1 1023 = some 1 := by
  have hword : (oneTable slot item).mem 1 1023 = 0x1003 := by simp [oneTable]
  rw [tableFrame_eq_some, hword]
  decide

lemma oneTable_slot (hslot : slot < 1023) : tableFrame (oneTable slot item).mem 1 slot = some 2 := by
  have hword : (oneTable slot item).mem 1 slot = 0x2007 := by simp [oneTable, hslot.ne]
  rw [tableFrame_eq_some, hword]
  decide

variable {item}

lemma oneTable_table {j : ℕ} (hj : j < 1023) (ht : tableFrame (oneTable slot item).mem 1 j = some t) :
    j = slot ∧ t = 2 := by
  rcases eq_or_ne j slot with rfl | hne
  · exact ⟨rfl, some.inj (ht.symm.trans (oneTable_slot item hj))⟩
  · have hword : (oneTable slot item).mem 1 j = 0 := by
      simp only [oneTable, if_true]
      rw [if_neg (by omega), if_neg hne]
    rw [tableFrame_eq_some, hword] at ht
    exact absurd ht.1 (by decide)

lemma oneTable_free : (oneTable slot item).bitmap.Free f ↔ 0x100 ≤ f := Bitmap.fromMegabyte_free

lemma oneTable_tree (U : ℕ → Prop) (slot : ℕ) (item : ℕ → PageTableItem) :
    PageTree U (oneTable slot item) where
  self := oneTable_self item
  directory hfree := absurd (oneTable_free.1 hfree) (by decide : ¬ 0x100 ≤ 1)
  table i hi t ht := by
    obtain ⟨-, rfl⟩ := oneTable_table hi ht
    exact (by decide : 2 ≠ 1)
  used i hi t ht hfree := by
    obtain ⟨-, rfl⟩ := oneTable_table hi ht
    exact absurd (oneTable_free.1 hfree) (by decide)
  once i hi _ j hj t hit hjt := (oneTable_table hi hit).1.trans (oneTable_table hj hjt).1.symm

end OneTable

/-- The pages 0 and 2 of the slot 0 are present. -/
def holed : Machine := oneTable 0 fun w => if w = 0 ∨ w = 2 then 0x3003 else 0

theorem bindFirstFreeVirtualPages_fresh_holed :
    ∃ s', holed.bindFirstFreeVirtualPagesAt 0x1001 2 .user = some (s', 0x3000) ∧
      FreshRange holed s' 0x1001 0x3000 2 := by
  have hrun : (holed.bindFirstFreeVirtualPagesAt 0x1001 2 .user).map (·.2) = some 0x3000 := by
    decide +kernel
  obtain ⟨⟨s', r⟩, hs', rfl⟩ := map_eq_some_iff.1 hrun
  have hfirst : holed.FirstAbsent 2 3 :=
    ⟨by decide, by decide, fun q hq hlt => by interval_cases q; decide⟩
  have htree := oneTable_tree (· = 0) 0 fun w => if w = 0 ∨ w = 2 then 0x3003 else 0
  refine ⟨s', hs', (bindFirstFreeVirtualPages_fresh_iff htree (fun p hp => ?_) (by decide) hs'
    (by decide)).2 ⟨by decide, 3, hfirst, by decide, by decide⟩⟩
  obtain rfl := hfirst.unique hp
  decide

/-- Two pages are asked for, and the second one of the range is in use already. -/
theorem bindFirstFreeVirtualPages_reused : PageTree (fun _ => True) holed ∧ ∃ s',
    holed.bindFirstFreeVirtualPagesAt 0 2 .user = some (s', 0x1000) ∧ holed.translate 2 = some 3 ∧
      s'.translate 2 = some 3 ∧ ¬ FreshRange holed s' 0 0x1000 2 := by
  have hrun : (holed.bindFirstFreeVirtualPagesAt 0 2 .user).map
      (fun r => (r.2, r.1.translate 2)) = some (0x1000, some 3) := by decide +kernel
  obtain ⟨⟨s', r⟩, hs', heq⟩ := map_eq_some_iff.1 hrun
  obtain ⟨rfl, htr⟩ := Prod.mk.inj heq
  refine ⟨oneTable_tree _ _ _, s', hs', by decide, htr, fun hfresh => ?_⟩
  exact absurd (hfresh.absent 1 (by decide)) (by decide)

end OlliOS
