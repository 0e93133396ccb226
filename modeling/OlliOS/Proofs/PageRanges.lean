import OlliOS.PageRanges
import OlliOS.Proofs.Locality

/-!
# Ranges of pages

The loops make one pass for each page that the bytes up to the length and `0xFFF` touch, which is one too
many for most lengths (`passes_eq_iff`).
-/

namespace OlliOS

open PageTableItem List UInt32 Machine Bitmap Loop
open Option hiding or_assoc

/-! ## The number of passes -/

section Passes

variable {a n : UInt32} {q : ℕ} {j fuel : ℕ}

def covered (n : UInt32) : ℕ := (n.toNat + 0xFFF) / 0x1000

def passes (n : UInt32) : ℕ := ((n + 0xFFF).toNat + 0xFFF) / 0x1000

def Ends (n : UInt32) : Prop := (n + 0xFFF).toNat ≤ 0xFFFFF000

lemma toNat_bound (n : UInt32) : (n + 0xFFF).toNat = (n.toNat + 0xFFF) % 2 ^ 32 := by
  rw [UInt32.toNat_add]
  rfl

lemma ends_of_le (h : n.toNat ≤ 0xFFFFE001) : Ends n := by
  rw [Ends, toNat_bound]
  omega

lemma passes_le (h : Ends n) : passes n ≤ 1024 * 1024 := by
  unfold Ends at h
  unfold passes
  omega

lemma passes_eq_covered_iff (n : UInt32) :
    Ends n ∧ passes n = covered n ↔ n.toNat % 0x1000 = 1 ∧ n.toNat ≤ 0xFFFFE001 := by
  rw [Ends, passes, covered, toNat_bound]
  omega

lemma passes_of_ne (h : n.toNat % 0x1000 ≠ 1) (hn : n.toNat ≤ 0xFFFFE001) : passes n = covered n + 1 := by
  rw [passes, covered, toNat_bound]
  omega

lemma overlaps_iff (ha : a.toNat % 0x1000 = 0) :
    Overlaps a n q ↔ a.toNat / 0x1000 ≤ q ∧ q < a.toNat / 0x1000 + covered n := by
  unfold Overlaps covered
  omega

lemma walked_eq (ha : a.toNat % 0x1000 = 0) (h : a.toNat + 0x1000 * j < 2 ^ 32) :
    walked a j = a.toNat / 0x1000 + j := by
  unfold walked
  omega

lemma toNat_page (hj : j < 1024 * 1024) : ((a + ofNat (4096 * j)) / 0x1000).toNat = walked a j :=
  toNat_walked (toNat_ofNat_of_lt' (by rw [size]; omega))

variable {σ : Type*} {f : UInt32 → σ → Option σ} {s s' : σ}

lemma run_passes (hn : Ends n) (f : UInt32 → σ → Option σ) (s : σ)
    (hfuel : passes n < fuel) : run (stride (n + 0xFFF) 0x1000 f) fuel (0, s) =
      some ((List.range (passes n)).foldlM (fun s j => f (ofNat (0x1000 * j)) s) s) := by
  unfold Ends at hn
  refine run_stride (w := 0x1000) rfl (fun j => ?_) ?_ hfuel s
  · unfold passes
    omega
  · unfold passes
    omega

lemma eq_of_run (hn : Ends n) (hs : (run (stride (n + 0xFFF) 0x1000 f) fuel (0, s)).join = some s') :
    (List.range (passes n)).foldlM (fun s j => f (ofNat (0x1000 * j)) s) s = some s' := by
  have hmono := run_mono (join_eq_some_iff.1 hs) (Nat.le_add_right fuel (passes n + 1))
  rw [run_passes hn f s (by omega)] at hmono
  exact some.inj hmono

lemma run_endless (hn : ¬ Ends n) (hf : ∀ i s, f i s ≠ none) (s : σ) (fuel : ℕ) :
    run (stride (n + 0xFFF) 0x1000 f) fuel (0, s) = none := by
  unfold Ends at hn
  refine run_eq_none (I := fun r : UInt32 × σ => r.1.toNat % 0x1000 = 0) ?_ fuel (0, s) rfl
  rintro ⟨i, s⟩ hi
  change i.toNat % 0x1000 = 0 at hi
  have hlt : i < n + 0xFFF := by
    have := i.toNat_lt
    rw [lt_iff_toNat_lt]
    omega
  obtain ⟨t, ht⟩ := ne_none_iff_exists'.1 (hf i s)
  refine ⟨(i + 0x1000, t), by simp only [stride, if_pos hlt, ht], ?_⟩
  rw [UInt32.toNat_add]
  change (i.toNat + 0x1000) % 2 ^ 32 % 0x1000 = 0
  omega

end Passes

/-! ## Frames -/

namespace Bitmap

variable {bitmap b : Bitmap} {a n : UInt32}

lemma free_passes (bitmap : Bitmap) (a : UInt32) {N : ℕ} (hN : N ≤ 1024 * 1024) : ∃ b,
    (List.range N).foldlM (fun bitmap j => some (bitmap.freePhysicalMemory (a + ofNat (0x1000 * j))))
      bitmap = some b ∧ ∀ f, b.Free f ↔ bitmap.Free f ∨ ∃ j < N, f = walked a j := by
  refine foldlM_range (P := fun i (b : Bitmap) => ∀ f, b.Free f ↔ bitmap.Free f ∨ ∃ j < i, f = walked a j)
    (fun f => by simp) N fun i hi b hb => ⟨_, rfl, fun f => ?_⟩
  rw [freePhysicalMemory, toNat_page (by omega), free_clear, hb]
  simp only [Nat.lt_succ_iff_lt_or_eq, or_and_right, exists_or, exists_eq_left]
  exact or_comm.trans or_assoc

end Bitmap

section Frees

variable {a n : UInt32}

lemma FreesExactly.ends (h : FreesExactly a n) : Ends n := by
  obtain ⟨fuel, b, hb, -⟩ := h fullBitmap
  by_contra hends
  rw [freePhysicalMemoryLength, run_endless hends fun _ _ => some_ne_none _] at hb
  cases hb

lemma FreesExactly.overlaps_iff_walked (h : FreesExactly a n) {f : ℕ} (hf : f < 1024 * 1024) :
    Overlaps a n f ↔ ∃ j < passes n, f = walked a j := by
  obtain ⟨fuel, b, hb, hfree⟩ := h fullBitmap
  obtain ⟨b', hb', hfree'⟩ := free_passes fullBitmap a (passes_le h.ends)
  have heq : b = b' := some.inj ((eq_of_run h.ends hb).symm.trans hb')
  have hboth := hfree f hf
  rw [heq, hfree', or_iff_right (not_free_full f), or_iff_right (not_free_full f)] at hboth
  exact hboth.symm

lemma walked_lt (a : UInt32) (j : ℕ) : walked a j < 1024 * 1024 := by
  unfold walked
  omega

lemma freesExactly_iff (ha : a.toNat % 0x1000 = 0) (hend : a.toNat + n.toNat ≤ 2 ^ 32) :
    FreesExactly a n ↔ n.toNat % 0x1000 = 1 ∧ n.toNat ≤ 0xFFFFE001 := by
  constructor
  · intro h
    have hends := h.ends
    rw [← passes_eq_covered_iff]
    refine ⟨hends, ?_⟩
    rcases Nat.lt_or_ge (covered n) (passes n) with hmore | hmore
    · -- the pass after the range frees a frame outside
      have hover := (h.overlaps_iff_walked (walked_lt a _)).2 ⟨covered n, hmore, rfl⟩
      rw [overlaps_iff ha] at hover
      unfold Ends at hends
      unfold walked covered at hover
      unfold covered passes at hmore
      omega
    · rcases Nat.eq_or_lt_of_le hmore with heq | hless
      · exact heq
      -- the last page of the range is not reached
      have hlast : Overlaps a n (a.toNat / 0x1000 + (covered n - 1)) := by
        rw [overlaps_iff ha]
        omega
      obtain ⟨j, hj, heq⟩ := (h.overlaps_iff_walked (by unfold covered at hless ⊢; omega)).1 hlast
      unfold walked covered at heq
      unfold covered at hless
      omega
  · rintro hn bitmap
    obtain ⟨hends, hpasses⟩ := (passes_eq_covered_iff n).2 hn
    obtain ⟨b, hb, hfree⟩ := free_passes bitmap a (passes_le hends)
    refine ⟨passes n + 1, b, ?_, fun f hf => ?_⟩
    · rwa [freePhysicalMemoryLength, run_passes hends _ _ (Nat.lt_succ_self _)]
    rw [hfree, overlaps_iff ha, hpasses]
    refine or_congr_right ⟨?_, fun hf => ⟨f - a.toNat / 0x1000, by omega, ?_⟩⟩
    · rintro ⟨j, hj, rfl⟩
      rw [walked_eq ha (by unfold covered at hj; omega)]
      omega
    · unfold covered at hf
      rw [walked_eq ha (by omega)]
      omega

end Frees

/-! ## Pages -/

section Unbinds

variable {U : ℕ → Prop} {s s' : Machine} {page : ℕ} {a n : UInt32}

lemma SlotTables.unbindVirtualPage (h : SlotTables U s) (hpage : page < window)
    (hU : U (page / 1024)) :
    ∃ s', (s.unbindVirtualPage page).map (·.1) = some s' ∧ SlotTables U s' ∧
      s'.mapping page = none ∧ ∀ q < 1024 * 1024, q ≠ page → s'.mapping q = s.mapping q := by
  obtain ⟨s', hs', hrel, hmem⟩ := DirOwns.unbindVirtualPage_eq page h.self
    (by unfold window at hpage; omega)
  refine ⟨s', by rw [hs']; rfl, ?_⟩
  rcases hmem with ⟨hmem, hnone, -⟩ | ⟨t, ht, hmem⟩
  · have hmap : ∀ q, s'.mapping q = s.mapping q := fun q => by
      rw [mapping, mapping, hmem, hrel.cr3]
    exact ⟨h.congr hrel.cr3 (by rw [hmem]), (hmap page).trans (mapping_eq_none_iff.2 hnone),
      fun q _ _ => hmap q⟩
  · have htd := h.table _ (slot_lt hpage) t ht
    have hdir : s'.mem s.cr3 = s.mem s.cr3 := by
      rw [hmem]
      exact poke_frame_of_ne htd.symm
    refine ⟨h.congr hrel.cr3 hdir, ?_,
      fun q hq hne => h.mapping_eq hpage hU ht hrel.cr3 hdir ?_ hq hne⟩
    · have ht' : tableFrame s'.mem s'.cr3 (page / 1024) = some t := by
        rw [hrel.cr3]
        exact (tableFrame_congr (congrFun hdir _)).trans ht
      have hword : s'.mem t (page % 1024) = 0 := by rw [hmem, poke_self]
      rw [mapping_of_table ht', hword]
      rfl
    · intro i _ g w _ hgw
      rw [hmem]
      exact poke_of_ne hgw

lemma SlotTables.unbind_passes (h : SlotTables U s) (ha : a.toNat % 0x1000 = 0) {N : ℕ}
    (hN : a.toNat / 0x1000 + N ≤ window) (hU : ∀ i < N, U ((a.toNat / 0x1000 + i) / 1024)) : ∃ s',
    (List.range N).foldlM (fun s j =>
      (s.unbindVirtualPage ((a + ofNat (4096 * j)) / 0x1000).toNat).map (·.1)) s = some s' ∧
      SlotTables U s' ∧ ∀ q < 1024 * 1024,
        (a.toNat / 0x1000 ≤ q ∧ q < a.toNat / 0x1000 + N → s'.mapping q = none) ∧
        (¬ (a.toNat / 0x1000 ≤ q ∧ q < a.toNat / 0x1000 + N) → s'.mapping q = s.mapping q) := by
  refine foldlM_range (P := fun i s' => SlotTables U s' ∧ ∀ q < 1024 * 1024,
    (a.toNat / 0x1000 ≤ q ∧ q < a.toNat / 0x1000 + i → s'.mapping q = none) ∧
    (¬ (a.toNat / 0x1000 ≤ q ∧ q < a.toNat / 0x1000 + i) → s'.mapping q = s.mapping q))
    ⟨h, fun q _ => ⟨fun hq => by omega, fun _ => rfl⟩⟩ N ?_
  rintro i hi s1 ⟨h1, hmap⟩
  unfold window at hN
  have hpage : ((a + ofNat (4096 * i)) / 0x1000).toNat = a.toNat / 0x1000 + i := by
    rw [toNat_page (by omega), walked_eq ha (by omega)]
  rw [hpage]
  obtain ⟨s2, hs2, h2, hnone, hothers⟩ := h1.unbindVirtualPage
    (by unfold window; omega : a.toNat / 0x1000 + i < window) (hU i hi)
  refine ⟨s2, hs2, h2, fun q hq => ⟨fun hin => ?_, fun hout => ?_⟩⟩
  · rcases eq_or_ne q (a.toNat / 0x1000 + i) with rfl | hne
    · exact hnone
    · rw [hothers q hq hne]
      exact (hmap q hq).1 (by omega)
  · rw [hothers q hq (by omega)]
    exact (hmap q hq).2 (by omega)

lemma mapping_window (h : s.SelfMapped) : s.mapping window =
    if (s.mem s.cr3 0).getFlag present then some (s.mem s.cr3 1023, s.mem s.cr3 0) else none :=
  mapping_of_table h

lemma SlotTables.unbind_window (h : SlotTables U s)
    (hs : (s.unbindVirtualPage window).map (·.1) = some s') : s'.mapping window = none := by
  obtain ⟨s1, hs1, hrel, hmem⟩ := DirOwns.unbindVirtualPage_eq window h.self (by decide)
  rw [hs1] at hs
  cases hs
  rcases hmem with ⟨hmem, hnone, -⟩ | ⟨t, ht, hmem⟩
  · rw [mapping, hmem, hrel.cr3]
    exact mapping_eq_none_iff.2 hnone
  obtain rfl : t = s.cr3 := some.inj (ht.symm.trans h.self)
  have hself : s1.SelfMapped := by
    rw [Machine.SelfMapped, hmem, hrel.cr3]
    exact h.self.poke_entry (by decide)
  have hword : s1.mem s1.cr3 0 = 0 := by
    rw [hmem, hrel.cr3]
    exact poke_self
  rw [mapping_window hself, hword]
  rfl

/-- A directory in which one page is present. -/
def onePage (page : ℕ) : Machine :=
  oneTable (page / 1024) fun w => if w = page % 1024 then 0x3003 else 0

lemma onePage_slots (U : ℕ → Prop) (page : ℕ) : SlotTables U (onePage page) :=
  (oneTable_tree U _ _).toSlotTables

lemma onePage_mapping (hpage : page < window) : (onePage page).mapping page ≠ none := by
  rw [onePage, mapping_of_table (oneTable_slot _ (slot_lt hpage))]
  have hword : (oneTable (page / 1024) fun w => if w = page % 1024 then 0x3003 else 0).mem 2
      (page % 1024) = 0x3003 := by simp [oneTable]
  rw [hword, if_pos (by decide)]
  exact some_ne_none _

lemma slotsOf (ha : a.toNat % 0x1000 = 0) {i : ℕ} (hi : i < covered n) :
    SlotsOf a n ((a.toNat / 0x1000 + i) / 1024) :=
  ⟨_, (overlaps_iff ha).2 ⟨by omega, by omega⟩, rfl⟩

lemma unbindsExactly_iff (ha : a.toNat % 0x1000 = 0) (hend : a.toNat + n.toNat ≤ 0xFFC00000) :
    UnbindsExactly a n ↔ n.toNat % 0x1000 = 1 := by
  have hn : n.toNat ≤ 0xFFFFE001 := by omega
  have hlast : a.toNat / 0x1000 + covered n ≤ window := by
    unfold covered window
    omega
  constructor
  · intro h
    by_contra hne
    have hpasses := passes_of_ne hne hn
    have hout : ¬ Overlaps a n (a.toNat / 0x1000 + covered n) := by
      rw [overlaps_iff ha]
      omega
    rcases Nat.eq_or_lt_of_le hlast with hwindow | hbelow
    · -- the pass after the range takes away the table of the first slot
      rw [hwindow] at hout
      have hone := onePage_slots (fun _ => True) 0
      obtain ⟨fuel, s', hs', hexact⟩ := h (onePage 0) (onePage_slots _ 0)
      have hrun := eq_of_run (ends_of_le hn) hs'
      rw [hpasses, range_succ, foldlM_append] at hrun
      obtain ⟨s1, hs1, hrun⟩ := bind_eq_some_iff.1 hrun
      obtain ⟨s2, hs2, hslots, -⟩ := hone.unbind_passes ha hlast fun _ _ => trivial
      obtain rfl : s1 = s2 := some.inj (hs1.symm.trans hs2)
      simp only [foldlM_cons, foldlM_nil, bind_pure] at hrun
      have hpage : ((a + ofNat (4096 * covered n)) / 0x1000).toNat = window := by
        rw [toNat_page (by unfold window at hwindow; omega),
          walked_eq ha (by unfold window at hwindow; omega), hwindow]
      rw [hpage] at hrun
      have hnone := hslots.unbind_window hrun
      rw [((hexact window (by decide)).2 hout), mapping_window hone.self] at hnone
      cases hnone
    · obtain ⟨fuel, s', hs', hexact⟩ := h _ (onePage_slots _ (a.toNat / 0x1000 + covered n))
      obtain ⟨s1, hs1, -, hmap⟩ := (onePage_slots (fun _ => True) _).unbind_passes ha
        (by omega : a.toNat / 0x1000 + passes n ≤ window) fun _ _ => trivial
      obtain rfl : s' = s1 := some.inj ((eq_of_run (ends_of_le hn) hs').symm.trans hs1)
      have hlt : a.toNat / 0x1000 + covered n < 1024 * 1024 := by
        unfold window at hbelow
        omega
      refine onePage_mapping hbelow ?_
      rw [← (hexact _ hlt).2 hout]
      exact (hmap _ hlt).1 (by omega)
  · intro hone s hs
    obtain ⟨hends, hpasses⟩ := (passes_eq_covered_iff n).2 ⟨hone, hn⟩
    obtain ⟨s', hs', -, hmap⟩ := hs.unbind_passes ha hlast fun i hi => slotsOf ha hi
    refine ⟨passes n + 1, s', ?_, fun q hq => ?_⟩
    · rw [← hpasses] at hs'
      exact (congrArg Option.join (run_passes hends _ s (Nat.lt_succ_self _))).trans hs'
    · rw [overlaps_iff ha]
      exact hmap q hq

end Unbinds

/-! ## Mapping and unbinding -/

section Restores

variable {U : ℕ → Prop} {s : Machine} {a physical n : UInt32} {mode : UserMode}

lemma count_eq_covered (n : UInt32) :
    (if n &&& 0xFFF = 0 then n >>> 12 else (n >>> 12) + 1).toNat = covered n := by
  have hlow : (n &&& 0xFFF).toNat = n.toNat % 0x1000 := by
    exact Nat.and_two_pow_sub_one_eq_mod n.toNat 12
  have hshift : (n >>> 12).toNat = n.toNat / 0x1000 := by
    exact Nat.shiftRight_eq_div_pow n.toNat 12
  have hlt := n.toNat_lt
  split_ifs with h0
  · rw [h0] at hlow
    change 0 = _ at hlow
    rw [hshift, covered]
    omega
  · have hne : n.toNat % 0x1000 ≠ 0 := fun h => h0 (UInt32.toNat_inj.1 (hlow.trans h))
    rw [UInt32.toNat_add, hshift, covered]
    change (n.toNat / 0x1000 + 1) % 2 ^ 32 = _
    omega

lemma PageTree.map_passes (h : PageTree U s) (ha : a.toNat % 0x1000 = 0) : ∀ (N : ℕ) {s' : Machine},
    a.toNat / 0x1000 + N ≤ window → (∀ i < N, U ((a.toNat / 0x1000 + i) / 1024)) →
    (List.range N).foldlM (fun s i => s.mapMemory ((a + ofNat (4096 * i)) / 0x1000).toNat
      (physical + ofNat (4096 * i)).toBitVec mode) s = some s' →
    PageTree U s' ∧ ∀ q < window, ¬ (a.toNat / 0x1000 ≤ q ∧ q < a.toNat / 0x1000 + N) →
      s'.mapping q = s.mapping q
  | 0, s', _, _, hs => by
    cases hs
    exact ⟨h, fun _ _ _ => rfl⟩
  | N + 1, s', hN, hU, hs => by
    rw [range_succ, foldlM_append] at hs
    obtain ⟨s1, hs1, hs⟩ := bind_eq_some_iff.1 hs
    simp only [foldlM_cons, foldlM_nil, bind_pure] at hs
    obtain ⟨h1, hmap⟩ := h.map_passes ha N (by omega) (fun i hi => hU i (by omega)) hs1
    have hpage : ((a + ofNat (4096 * N)) / 0x1000).toNat = a.toNat / 0x1000 + N := by
      unfold window at hN
      rw [toNat_page (by omega), walked_eq ha (by omega)]
    have hmaps := h1.mapMemory (by omega) (by rw [hpage]; exact hU N (by omega)) hs
    refine ⟨hmaps.only.tree, fun q hq hout => ?_⟩
    rw [hmaps.only.others q hq (by omega)]
    exact hmap q hq (by omega)

lemma restoresMappings (ha : a.toNat % 0x1000 = 0) (hend : a.toNat + n.toNat ≤ 0xFFC00000)
    (hone : n.toNat % 0x1000 = 1) : RestoresMappings a n := by
  intro s physical mode s1 hs habsent hmapped
  have hlast : a.toNat / 0x1000 + covered n ≤ window := by
    unfold covered window
    omega
  obtain ⟨hends, hpasses⟩ := (passes_eq_covered_iff n).2 ⟨hone, by omega⟩
  rw [mapMemoryLength] at hmapped
  simp only [count_eq_covered] at hmapped
  have hslots : ∀ i < covered n, SlotsOf a n ((a.toNat / 0x1000 + i) / 1024) :=
    fun i hi => slotsOf ha hi
  obtain ⟨htree, hout⟩ := hs.map_passes ha _ hlast hslots hmapped
  obtain ⟨s', hs', -, hmap⟩ := htree.unbind_passes ha hlast hslots
  refine ⟨passes n + 1, s', ?_, fun q hq => ?_⟩
  · rw [← hpasses] at hs'
    exact (congrArg Option.join (run_passes hends _ s1 (Nat.lt_succ_self _))).trans hs'
  have hq' : q < 1024 * 1024 := by
    unfold window at hq
    omega
  by_cases hin : a.toNat / 0x1000 ≤ q ∧ q < a.toNat / 0x1000 + covered n
  · rw [(hmap q hq').1 hin, habsent q hq' ((overlaps_iff ha).2 hin)]
  · rw [(hmap q hq').2 hin, hout q hq hin]

end Restores

/-- Frames are released as the length says for one length in `0x1000`. So are pages, and `mapMemory` is
undone, for a range that ends at or below the window. -/
theorem release_exact_iff {a n : UInt32} (ha : a.toNat % 0x1000 = 0)
    (hend : a.toNat + n.toNat ≤ 2 ^ 32) :
    (FreesExactly a n ↔ n.toNat % 0x1000 = 1 ∧ n.toNat ≤ 0xFFFFE001) ∧
    (a.toNat + n.toNat ≤ 0xFFC00000 → (UnbindsExactly a n ↔ n.toNat % 0x1000 = 1) ∧
      (n.toNat % 0x1000 = 1 → RestoresMappings a n)) :=
  ⟨freesExactly_iff ha hend, fun hbelow => ⟨unbindsExactly_iff ha hbelow, restoresMappings ha hbelow⟩⟩

theorem release_exact_two : UnbindsExactly 0x1000 0x1001 ∧ FreesExactly 0x1000 0x1001 := by
  obtain ⟨hfrees, hrest⟩ := release_exact_iff (by decide : (0x1000 : UInt32).toNat % 0x1000 = 0)
    (by decide : (0x1000 : UInt32).toNat + (0x1001 : UInt32).toNat ≤ 2 ^ 32)
  exact ⟨(hrest (by decide)).1.2 (by decide), hfrees.2 (by decide)⟩

/-- A page and a frame are released, and so are the next ones. -/
theorem release_neighbour :
    (PagesApart holed ∧ holed.mapping 1 = none ∧
      ∃ s', holed.mapMemoryLength 0x1000 0x5000 0x1000 .supervisor = some s' ∧
        ∃ s'', s'.unbindVirtualPageLength 3 0x1000 0x1000 = some s'' ∧
          holed.mapping 2 ≠ none ∧ s''.mapping 2 = none) ∧
    ∃ b, fullBitmap.freePhysicalMemoryLength 3 0x100000 0x1000 = some b ∧ b.Free 0x100 ∧ b.Free 0x101 := by
  have hrun : ((holed.mapMemoryLength 0x1000 0x5000 0x1000 .supervisor).bind fun s' =>
      (s'.unbindVirtualPageLength 3 0x1000 0x1000).map fun s'' => (s''.mapping 2).isSome) =
        some false := by
    decide +kernel
  have hfree : (fullBitmap.freePhysicalMemoryLength 3 0x100000 0x1000).map (fun b =>
      (decide (b.Free 0x100), decide (b.Free 0x101))) = some (true, true) := by decide +kernel
  obtain ⟨s', hs', hrun⟩ := bind_eq_some_iff.1 hrun
  obtain ⟨s'', hs'', hnone⟩ := map_eq_some_iff.1 hrun
  obtain ⟨b, hb, heq⟩ := map_eq_some_iff.1 hfree
  refine ⟨⟨holed_apart, by decide, s', hs', s'', hs'', by decide, ?_⟩, b, hb, ?_, ?_⟩
  · exact isNone_iff_eq_none.1 (isSome_eq_false_iff.1 hnone)
  · exact of_decide_eq_true (congrArg Prod.fst heq)
  · exact of_decide_eq_true (congrArg Prod.snd heq)

end OlliOS
