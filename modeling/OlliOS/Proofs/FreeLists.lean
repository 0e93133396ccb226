import OlliOS.Proofs.Canaries

/-!
# The free lists are complete

In every run without areas that end with the address space, the lists of the buckets are the free regions.
-/

namespace OlliOS

open Words Tiling Stepping List HeapState

variable {h h' : BucketAlloc} {L L' : Layout} {a : UInt32 × UInt32} {r : Region}

namespace BucketAlloc

lemma region_of_word (hs : r.size.toNat < 2 ^ 31) (hw : load h.mem r.addr = r.word) :
    (⟨UInt32.ofNat r.start, load h.mem (UInt32.ofNat r.start) &&& ~~~ usedFlag,
      usedFlag ≤ load h.mem (UInt32.ofNat r.start)⟩ : Region) = r := by
  have haddr : UInt32.ofNat r.start = r.addr := UInt32.ofNat_toNat
  rw [haddr, hw, Region.word_and hs]
  congr 1
  rw [Bool.eq_iff_iff, decide_eq_true_iff]
  exact Region.usedFlag_le_word hs

lemma regionsFrom_eq {hi : ℕ} : ∀ {rs : List Region} {lo n : ℕ}, Tiles Region.start Region.len lo hi rs →
    (∀ r ∈ rs, r.size.toNat < 2 ^ 31 ∧ load h.mem r.addr = r.word) → rs.length ≤ n →
    regionsFrom h.mem hi n lo = rs
  | [], lo, n, ht, _, _ => by
    obtain rfl : lo = hi := ht
    cases n with
    | zero => rfl
    | succ n => simp [regionsFrom]
  | r :: rs, lo, n + 1, ht, hw, hn => by
    obtain ⟨rfl, hpos, hrest⟩ := ht
    have hle := hrest.le
    obtain ⟨⟨hs, hword⟩, hw⟩ := forall_mem_cons.1 hw
    rw [regionsFrom, if_pos (by omega)]
    simp only [region_of_word hs hword]
    rw [regionsFrom_eq hrest hw (Nat.le_of_succ_le_succ hn)]

lemma areaRegions_eq (hr : Rep h L) (ha : a ∈ h.areas) (hne : L.regions a ≠ []) : h.areaRegions a = L.regions a := by
  have ht := hr.tiled a ha hne
  have hlen := ht.length_le
  refine regionsFrom_eq ht (fun r hra => ?_) (by omega)
  exact ⟨(hr.bounds ha hra).2.2.2, (hr.words r ⟨a, ha, hra⟩).2⟩

lemma freeLists (hr : Rep h L) (hc : Complete h.areas L fun _ => False) : h.FreeLists L.lists := by
  refine ⟨hr.lists, hr.lists_nodup, fun a ha r hra b => ?_, fun b p hp => ?_⟩
  · rw [areaRegions_eq hr ha (hc.regions a ha)] at hra
    have hcont : L.Contains h.areas r := ⟨a, ha, hra⟩
    split_ifs with hfree
    · obtain ⟨hfree, rfl⟩ := hfree
      exact count_eq_one_of_mem (hr.lists_nodup _) (hc.listed r hcont hfree not_false)
    · refine count_eq_zero_of_not_mem fun hmem => hfree ?_
      obtain ⟨q, hq, haddr, hqf, hlog⟩ := hr.lists_free b _ hmem
      rw [← hr.eq_of_addr hq hcont haddr]
      exact ⟨hqf, hlog⟩
  · obtain ⟨r, ⟨a, ha, hra⟩, hrp, -, -⟩ := hr.lists_free b p hp
    exact ⟨a, ha, r, (areaRegions_eq hr ha (hc.regions a ha)).symm ▸ hra, hrp⟩

lemma coalesces (hr : Rep h L) (hc : Complete h.areas L fun _ => False) (hwritten : h.written = [])
    (hm : h.merge = some h') : Coalesces h h' := by
  obtain ⟨h1, L', hmerge, m⟩ := merge_spec hr
  obtain rfl : h1 = h' := Option.some.inj (hmerge.symm.trans hm)
  have hregs : ∀ a ∈ h.areas, h.areaRegions a = L.regions a := fun a ha =>
    areaRegions_eq hr ha (hc.regions a ha)
  have hregs' : ∀ a ∈ h.areas, h1.areaRegions a = L'.regions a := fun a ha =>
    areaRegions_eq m.rep (m.areas ▸ ha) (m.ne a (hc.regions a ha))
  refine ⟨m.areas, fun a ha => ?_, fun a ha r hra hu x hx => ?_, fun a ha => ?_, fun a ha => ?_⟩
  · rw [hregs a ha, hregs' a ha]
    exact m.used a
  · rw [hregs a ha] at hra
    exact (Logged.merge hm).kept m.keeps ⟨a, ha, hra⟩ hu hwritten hx
  · rw [hregs a ha, hregs' a ha]
    have ht := (hr.tiled a ha (hc.regions a ha)).sum_len
    have ht' := (m.rep.tiled a (m.areas ▸ ha) (m.ne a (hc.regions a ha))).sum_len
    omega
  · rw [hregs' a ha]
    exact (m.swept a ha (hc.heads a ha) not_mem_nil (hc.ends a ha)).1

end BucketAlloc

lemma complete_of_reaches {mem : Memory} {s : HeapState} (hs : Reaches step HeapState.Refilled (init mem) s) :
    ∃ L, HeapInv s L ∧ Complete s.alloc.areas L fun _ => False := by
  refine hs.invariant (I := fun s => ∃ L, HeapInv s L ∧ Complete s.alloc.areas L fun _ => False) ?_ ?_
  · refine ⟨_, .init mem, by simp [init, BucketAlloc.zeroed],
      by simp [init, BucketAlloc.zeroed], by simp [init, BucketAlloc.zeroed], ?_⟩
    rintro r ⟨a, ha, -⟩
    cases ha
  · rintro s call s' ⟨L, hi, hc⟩ hcall hstep
    obtain ⟨L', hi', -, hcomplete⟩ := hi.step hstep
    exact ⟨L', hi', hcomplete hcall hc⟩

/-- Every free region is in its list and nothing else is, and a merge joins what is free. -/
theorem free_lists_complete {mem : Memory} {s : HeapState} (hs : Reaches step HeapState.Refilled (init mem) s) :
    (∃ lists, s.alloc.FreeLists lists) ∧ ∃ s', s.step .merge = some s' ∧ BucketAlloc.Coalesces s.alloc s'.alloc := by
  obtain ⟨L, hi, hc⟩ := complete_of_reaches hs
  obtain ⟨h', L', hmerge, -⟩ := BucketAlloc.merge_spec hi.fresh
  refine ⟨⟨L.lists, BucketAlloc.freeLists hi.rep hc⟩, { s with alloc := h' }, ?_, ?_⟩
  · simp [step, hmerge]
  · obtain ⟨hareas, hused, hcontents, hsum, hco⟩ := BucketAlloc.coalesces hi.fresh hc rfl hmerge
    exact ⟨hareas, hused, hcontents, hsum, hco⟩

/-- Two neighbours are freed beside a free region, after a second area was added. -/
theorem free_lists_complete_freed : ∃ s : HeapState, s.live = [(0xD0010010, 5000), (0xD0000010, 20)] ∧
    (∃ lists, s.alloc.FreeLists lists) ∧
    ∃ s', s.step .merge = some s' ∧ BucketAlloc.Coalesces s.alloc s'.alloc := by
  obtain ⟨s, hs, hlive⟩ : ∃ s, Reaches step HeapState.Refilled (init fun _ => 0) s ∧
      s.live = [(0xD0010010, 5000), (0xD0000010, 20)] :=
    exists_of_run [.malloc 20 [0xD0000000], .malloc 30 [], .malloc 40 [], .malloc 5000 [0xD0010000],
      .free 0xD000002C, .free 0xD0000052] (by decide +kernel)
  exact ⟨s, hlive, free_lists_complete hs⟩

/-- The area of a refill ends with the address space, and a merge loses what is free in it. -/
theorem free_region_lost : ∃ s, run step Any (init fun _ => 0)
      [.malloc 0x100000 [0xFFEFF000], .merge] = some s ∧ s.alloc.areas = [(0xFFEFF000, 0x101000)] ∧
    s.alloc.areaRegions (0xFFEFF000, 0x101000) = [⟨0xFFEFF008, 0x100000, true⟩, ⟨0xFFFFF010, 0xFE8, false⟩] ∧
    ¬ ∃ lists, s.alloc.FreeLists lists := by
  have hrun : ((run step Any (init fun _ => 0) [.malloc 0x100000 [0xFFEFF000], .merge]).map fun s => (s.alloc.areas,
        s.alloc.areaRegions (0xFFEFF000, 0x101000), s.alloc.buckets 11)) =
      some ([(0xFFEFF000, 0x101000)], [⟨0xFFEFF008, 0x100000, true⟩, ⟨0xFFFFF010, 0xFE8, false⟩], 0) := by
    decide +kernel
  obtain ⟨s, hs, hval⟩ := Option.map_eq_some_iff.1 hrun
  simp only [Prod.mk.injEq] at hval
  obtain ⟨hareas, hregs, hbucket⟩ := hval
  refine ⟨s, hs, hareas, hregs, ?_⟩
  rintro ⟨lists, hl⟩
  -- the chain of the bucket of the free region is empty
  have hnil : lists 11 = [] := by
    have hhead := (hl.chain 11).head?
    rw [hbucket] at hhead
    exact head?_eq_none_iff.1 hhead.symm
  have hcount := hl.count (0xFFEFF000, 0x101000) (by simp [hareas]) ⟨0xFFFFF010, 0xFE8, false⟩ (by simp [hregs]) 11
  rw [hnil, if_pos (by decide)] at hcount
  cases hcount

end OlliOS
