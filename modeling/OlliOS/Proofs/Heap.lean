import OlliOS.Proofs.Merge
import OlliOS.Proofs.Refill

/-!
# Heap safety

Every live block is the bytes of a region in use, and no two blocks are of one region.
-/

namespace OlliOS

open Words Tiling Stepping List Option HeapState BucketAlloc UInt32

variable {h h' : BucketAlloc} {L L' : Layout} {r : Region} {p size : UInt32}

lemma Fresh.of_keeps {h1 : BucketAlloc} {L1 : Layout} (hf : Fresh h1 L1 h' L' p size)
    (hk : Keeps (·.used = true) h L h1 L1) : Fresh h L h' L' p size := by
  obtain ⟨r, hc, hu, hp, hsize, hnew⟩ := hf
  exact ⟨r, hc, hu, hp, hsize, fun q hq hqu => hnew q (hk q hq hqu).1 hqu⟩

namespace BucketAlloc

lemma malloc_spec : ∀ (pages : List UInt32) {h : BucketAlloc} {L : Layout}, Rep h L →
    1 ≤ size.toNat → size.toNat ≤ 2 ^ 30 → h.malloc size pages = some (h', p) →
    ∃ L', Rep h' L' ∧ Keeps (·.used = true) h L h' L' ∧ Fresh h L h' L' p size ∧
      ((∀ page ∈ pages, page.toNat + (refillSize size).toNat < 2 ^ 32) →
        Complete h.areas L (fun _ => False) → Complete h'.areas L' fun _ => False)
  | pages, h, L, hr, hsz, h30, hm => by
    rw [malloc] at hm
    split at hm
    · rename_i r htry
      cases hm
      obtain ⟨L', hr', hk', hf, hcomplete⟩ := mallocOneTry_spec hr hsz h30 htry
      exact ⟨L', hr', hk', hf, fun _ => hcomplete⟩
    · obtain ⟨h1, L1, hmerge, m⟩ := merge_spec hr
      rw [hmerge] at hm
      simp only at hm
      split at hm
      · rename_i r _ htry
        cases hm
        obtain ⟨L', hr', hk', hf, hcomplete⟩ := mallocOneTry_spec m.rep hsz h30 htry
        exact ⟨L', hr', m.keeps.trans hk', hf.of_keeps m.keeps, fun _ hc => hcomplete (m.complete hc)⟩
      · cases hm
      · rename_i page pages htry
        split_ifs at hm with hpage
        obtain ⟨L2, hr2, hk2, hinit⟩ := init_spec m.rep hpage.2
        obtain ⟨L', hr', hk', hf, hcomplete⟩ := malloc_spec pages hr2 hsz h30 hm
        refine ⟨L', hr', (m.keeps.trans hk2).trans hk', hf.of_keeps (m.keeps.trans hk2), fun hpages hc => ?_⟩
        rw [forall_mem_cons] at hpages
        -- the bucket of the new area is one of those that had nothing
        obtain ⟨-, hle, -, hlow, h32⟩ := refillSize_spec hsz h30
        refine hcomplete hpages.2 (hinit (fun h16 => ?_) hpage.1 hpages.1
          (mallocOneTry_eq_none_iff.1 htry _ hlow h32) (m.complete hc))
        have h16 : (refillSize size).toNat ≤ 16 := le_iff_toNat_le.1 h16
        omega
termination_by pages => pages.length

variable {lo hi : ℕ}

lemma storeByte_within {x : UInt32} {v : UInt8} (hlo : lo ≤ x.toNat)
    (hhi : x.toNat < hi) : Within lo hi h (h.storeByte x v) := by
  refine ⟨rfl, rfl, rfl, fun y hy => ?_, fun y hy => ?_⟩
  · refine Function.update_of_ne ?_ _ _
    rintro rfl
    omega
  · rcases mem_cons.1 hy with rfl | hy
    · exact .inr ⟨hlo, hhi⟩
    · exact .inl hy

lemma memcpy_within {dst src n : UInt32} (hlo : lo ≤ dst.toNat)
    (hhi : dst.toNat + n.toNat ≤ hi) (h32 : hi ≤ 2 ^ 32) : Within lo hi h (h.memcpy dst src n) := by
  have hcopy : ∀ (l : List ℕ) (h : BucketAlloc), (∀ i ∈ l, i < n.toNat) → Within lo hi h
      (l.foldl (fun h i => h.storeByte (dst + ofNat i) (h.mem (src + ofNat i))) h) := by
    intro l
    induction l with
    | nil => exact fun h _ => .refl h
    | cons i l ih =>
      intro h hl
      have hi := hl i (by simp)
      have hofNat : (ofNat i).toNat = i := by rw [toNat_ofNat', Nat.mod_eq_of_lt (by omega)]
      have hdst : (dst + ofNat i).toNat = dst.toNat + i := by rw [toNat_add (by omega), hofNat]
      exact (storeByte_within (by omega) (by omega)).trans (ih _ fun j hj => hl j (by simp [hj]))
  exact hcopy _ h fun i hi => mem_range.1 hi

lemma realloc_spec (hr : Rep h L) (hc : L.Contains h.areas r) (hu : r.used = true)
    (hsz : 1 ≤ size.toNat) (h30 : size.toNat ≤ 2 ^ 30) {pages : List UInt32}
    (hm : h.realloc (r.addr + 8) size pages = some (h', p)) :
    ∃ L', Rep h' L' ∧ Keeps (fun q => q.used = true ∧ q.addr ≠ r.addr) h L h' L' ∧
      Fresh h L h' L' p size ∧ ((∀ page ∈ pages, page.toNat + (refillSize size).toNat < 2 ^ 32) →
        Complete h.areas L (fun _ => False) → Complete h'.areas L' fun _ => False) := by
  obtain ⟨⟨h1, p1⟩, hmalloc, hrest⟩ := map_eq_some_iff.1 hm
  obtain ⟨L1, hr1, hk1, ⟨q, hq, hqu, hqp, hqs, hnew⟩, hcomplete⟩ := malloc_spec pages hr hsz h30 hmalloc
  obtain ⟨h0, -, h8, hl⟩ := hr1.header hq
  have hfits := hr1.fits hq
  -- the copy stays behind the header of the new block
  have hcopied : ∃ n : UInt32, n.toNat ≤ size.toNat ∧
      (h1.memcpy p1 (r.addr + 8) n).free (r.addr + 8) = h' ∧ p1 = p := by
    simp only [Prod.mk.injEq] at hrest
    split_ifs at hrest with hlt
    · exact ⟨_, Nat.le_of_lt (lt_iff_toNat_lt.1 hlt), hrest⟩
    · exact ⟨size, Nat.le_refl _, hrest⟩
  obtain ⟨n, hn, rfl, rfl⟩ := hcopied
  have hw : Within (q.start + 8) (q.start + q.len) h1 (h1.memcpy p1 (r.addr + 8) n) := by
    rw [← hqp]
    exact memcpy_within (by omega) (by omega) (by omega)
  obtain ⟨hr2, hk2⟩ := hr1.touch hq (hr1.clear_of_used hq hqu) (hw.mono (Nat.le_add_right _ _) (Nat.le_refl _)) (by
      rw [hw.mem.load (by omega) (by omega)]
      exact (hr1.words q hq).2)
  have hrq : r.addr ≠ q.addr := hnew r hc hu
  have hc2 := (hk2 r (hk1 r hc hu).1 hrq).1
  obtain ⟨L', hr', hk', hcomplete'⟩ := free_spec hr2 hc2 hu
  have hk : Keeps (fun x => x.used = true ∧ x.addr ≠ r.addr ∧ x.addr ≠ q.addr) h L
      ((h1.memcpy p1 (r.addr + 8) n).free (r.addr + 8)) L' :=
    (hk1.mono fun _ _ hx => hx.1).trans ((hk2.mono fun _ _ hx => hx.2.2).trans (hk'.mono fun _ _ hx => hx.2.1))
  refine ⟨L', hr', hk.mono fun x hx hxok => ⟨hxok.1, hxok.2, hnew x hx hxok.1⟩,
    ⟨q, (hk' q (hw.areas ▸ hq) (Ne.symm hrq)).1, hqu, hqp, hqs, hnew⟩, fun hpages hall => hcomplete' ?_⟩
  rw [hw.areas]
  exact hcomplete hpages hall

end BucketAlloc

def Owns (h : BucketAlloc) (L : Layout) (b : UInt32 × UInt32) : Prop :=
  ∃ r, L.Contains h.areas r ∧ r.used = true ∧ r.addr + 8 = b.1 ∧ b.2.toNat ≤ r.size.toNat

structure HeapInv (s : HeapState) (L : Layout) : Prop where
  rep : Rep s.alloc L
  owns : ∀ b ∈ s.live, Owns s.alloc L b
  nodup : (s.live.map Prod.fst).Nodup

namespace HeapInv

variable {s s' : HeapState} {b : UInt32 × UInt32} {live : List (UInt32 × UInt32)}

lemma fresh (hi : HeapInv s L) : Rep s.fresh L := { hi.rep with }

lemma init (mem : Memory) : HeapInv (init mem) ⟨fun _ => [], [], fun _ => []⟩ := by
  refine ⟨⟨?_, ?_, ?_, ?_, ?_, rfl, .nil, ?_, fun _ => rfl, fun _ => .nil, ?_⟩, ?_, .nil⟩
  · simp [HeapState.init, BucketAlloc.zeroed]
  · simp
  · simp
  · simp
  · rintro r ⟨a, ha, -⟩
    simp [HeapState.init, BucketAlloc.zeroed] at ha
  · simp
  · simp
  · simp [HeapState.init]

lemma of_keeps (hi : HeapInv s L) {ok : Region → Prop} (hr : Rep h' L')
    (hk : Keeps ok s.fresh L h' L') (hsub : live.Sublist s.live)
    (hok : ∀ r : Region, r.used = true → r.addr + 8 ∈ live.map Prod.fst → ok r) :
    HeapInv ⟨h', live⟩ L' := by
  refine ⟨hr, fun b hb => ?_, hi.nodup.sublist (hsub.map _)⟩
  obtain ⟨r, hc, hu, hp, hsize⟩ := hi.owns b (hsub.subset hb)
  have hmem : r.addr + 8 ∈ live.map Prod.fst := hp ▸ List.mem_map_of_mem hb
  exact ⟨r, (hk r hc (hok r hu hmem)).1, hu, hp, hsize⟩

lemma fresh_notMem (hi : HeapInv s L) (hf : Fresh s.fresh L h' L' p size) : p ∉ s.live.map Prod.fst := by
  intro hp
  obtain ⟨b, hb, rfl⟩ := List.mem_map.1 hp
  obtain ⟨q, hc, hu, hq, -⟩ := hi.owns b hb
  obtain ⟨r, -, -, hr, -, hnew⟩ := hf
  exact hnew q hc hu ((UInt32.add_left_inj _).1 (hq.trans hr.symm))

lemma cons (hi : HeapInv s L) (hf : Fresh s.fresh L h' L' p size)
    (hsub : live.Sublist s.live) (hi' : HeapInv ⟨h', live⟩ L') :
    HeapInv ⟨h', (p, size) :: live⟩ L' := by
  have hnew := hi.fresh_notMem hf
  obtain ⟨r, hc, hu, hp, hsize, -⟩ := hf
  refine ⟨hi'.rep, ?_, nodup_cons.2 ⟨fun hm => hnew ((hsub.map _).subset hm), hi'.nodup⟩⟩
  rintro b hb
  rcases mem_cons.1 hb with rfl | hb
  · exact ⟨r, hc, hu, hp, hsize⟩
  · exact hi'.owns b hb

lemma sizeOk {n : UInt32} (hn : HeapState.SizeOk n) : 1 ≤ n.toNat ∧ n.toNat ≤ 2 ^ 30 :=
  ⟨le_iff_toNat_le.1 hn.1, le_iff_toNat_le.1 hn.2⟩

lemma payload_iff (hr : Rep h L) (hc : L.Contains h.areas r) (hp : r.addr + 8 = p) {x : UInt32} :
    h.blockSize p = r.size.toNat ∧ p.toNat = r.start + 8 ∧
      (h.Payload p x ↔ r.start + 8 ≤ x.toNat ∧ x.toNat < r.start + r.len) := by
  have hsize : h.blockSize p = r.size.toNat := by
    unfold blockSize
    rw [← hp, UInt32.add_sub_cancel, (hr.words r hc).2, Region.word_and (hr.fits hc).2.2.2]
  obtain ⟨-, -, h8, hl⟩ := hr.header hc
  rw [hp] at h8
  unfold BucketAlloc.Payload
  omega

lemma mem_without {q : UInt32} (s : HeapState) (hq : q ∈ (s.without p).map Prod.fst) : q ≠ p := by
  obtain ⟨b, hb, rfl⟩ := List.mem_map.1 hq
  simpa using (mem_filter.1 hb).2

lemma step (hi : HeapInv s L) {call : HeapCall} (hs : s.step call = some s') :
    ∃ L', HeapInv s' L' ∧ Keeps (fun r => r.used = true ∧ r.addr + 8 ∈ s'.live.map Prod.fst)
      s.fresh L s'.alloc L' ∧ (s.Refilled call → Complete s.alloc.areas L (fun _ => False) →
        Complete s'.alloc.areas L' fun _ => False) := by
  have hr := hi.fresh
  cases call with simp only [HeapState.step] at hs
  | init start length =>
    split_ifs at hs with hfresh
    cases hs
    obtain ⟨L', hr', hk, -⟩ := init_spec hr hfresh
    exact ⟨L', hi.of_keeps hr' hk (.refl _) fun _ hu _ => hu, hk.mono fun _ _ hx => hx.1, False.elim⟩
  | malloc size pages =>
    split_ifs at hs with hsize
    obtain ⟨⟨h', p⟩, hm, rfl⟩ := map_eq_some_iff.1 hs
    obtain ⟨hsz, h30⟩ := sizeOk hsize
    obtain ⟨L', hr', hk, hf, hcomplete⟩ := malloc_spec pages hr hsz h30 hm
    exact ⟨L', hi.cons hf (.refl _) (hi.of_keeps hr' hk (.refl _) fun _ hu _ => hu),
      hk.mono fun _ _ hx => hx.1, hcomplete⟩
  | realloc ptr size pages =>
    split_ifs at hs with hcond
    obtain ⟨⟨h', p⟩, hm, rfl⟩ := map_eq_some_iff.1 hs
    obtain ⟨hsz, h30⟩ := sizeOk hcond.2
    obtain ⟨b, hb, rfl⟩ := List.mem_map.1 hcond.1
    obtain ⟨r, hc, hu, hp, -⟩ := hi.owns b hb
    rw [← hp] at hm
    obtain ⟨L', hr', hk, hf, hcomplete⟩ := realloc_spec hr hc hu hsz h30 hm
    have hsub : (s.without b.1).Sublist s.live := filter_sublist
    refine ⟨L', hi.cons hf hsub (hi.of_keeps hr' hk hsub fun q hqu hq => ⟨hqu, fun heq => ?_⟩),
      hk.mono fun q hqc hq => ⟨hq.1, fun heq => ?_⟩, hcomplete⟩
    · exact mem_without s hq (heq ▸ hp)
    have hqp : q.addr + 8 = b.1 := heq ▸ hp
    have hqm := hq.2
    rw [hqp] at hqm
    rcases mem_cons.1 hqm with hbp | hqm
    · have hbp : b.1 = p := hbp
      exact hi.fresh_notMem hf (hbp ▸ hcond.1)
    · exact mem_without s hqm rfl
  | free ptr =>
    split_ifs at hs with hlive
    cases hs
    obtain ⟨b, hb, rfl⟩ := List.mem_map.1 hlive
    obtain ⟨r, hc, hu, hp, -⟩ := hi.owns b hb
    obtain ⟨L', hr', hk, hcomplete⟩ := free_spec hr hc hu
    rw [hp] at hr' hk hcomplete
    have hne : ∀ q : Region, q.addr + 8 ∈ (s.without b.1).map Prod.fst → q.addr ≠ r.addr :=
      fun q hq heq => mem_without s hq (heq ▸ hp)
    exact ⟨L', hi.of_keeps hr' hk filter_sublist fun q _ hq => hne q hq,
      hk.mono fun q _ hq => hne q hq.2, fun _ => hcomplete⟩
  | merge =>
    obtain ⟨h', hm, rfl⟩ := map_eq_some_iff.1 hs
    obtain ⟨h1, L', hmerge, m⟩ := merge_spec hr
    obtain rfl : h1 = h' := some.inj (hmerge.symm.trans hm)
    exact ⟨L', hi.of_keeps m.rep m.keeps (.refl _) fun _ hu _ => hu, m.keeps.mono fun _ _ hx => hx.1,
      fun _ hc => m.complete hc⟩
  | write ptr x v =>
    split_ifs at hs with hcond
    cases hs
    obtain ⟨b, hb, rfl⟩ := List.mem_map.1 hcond.1
    obtain ⟨r, hc, hu, hp, -⟩ := hi.owns b hb
    have hx := ((payload_iff hi.rep hc hp).2.2).1 hcond.2
    obtain ⟨h0, -, h8, hl⟩ := hr.header hc
    have hfits := hr.fits hc
    have hw : Within (r.start + 8) (r.start + r.len) s.fresh
        { s.fresh with mem := Function.update s.alloc.mem x v } := by
      refine ⟨rfl, rfl, rfl, fun y hy => Function.update_of_ne ?_ _ _, fun _ => Or.inl⟩
      rintro rfl
      omega
    obtain ⟨hr', -⟩ := hr.touch hc (hr.clear_of_used hc hu) (hw.mono (Nat.le_add_right _ _) (Nat.le_refl _)) (by
        rw [hw.mem.load (by omega) (by omega)]
        exact (hr.words r hc).2)
    have hk : Keeps (·.used = true) s.fresh L { s.fresh with mem := Function.update s.alloc.mem x v } L :=
      fun q hqc _ => ⟨hqc, fun _ => Or.inl⟩
    exact ⟨L, hi.of_keeps hr' hk (.refl _) fun _ hu _ => hu, hk.mono fun _ _ hq => hq.1, fun _ => id⟩

lemma of_reaches {mem : Memory} (hs : Reaches HeapState.step Any (HeapState.init mem) s) : ∃ L, HeapInv s L := by
  refine hs.invariant (I := fun s => ∃ L, HeapInv s L) ⟨_, .init mem⟩ ?_
  rintro s call s' ⟨L, hi⟩ - hstep
  obtain ⟨L', hi', -⟩ := hi.step hstep
  exact ⟨L', hi'⟩

lemma payloads_apart (hi : HeapInv s L) :
    s.live.Pairwise fun b c => ∀ x, ¬ (s.alloc.Payload b.1 x ∧ s.alloc.Payload c.1 x) := by
  refine (pairwise_map.1 hi.nodup).imp_of_mem fun {b c} hb hc hne x hx => ?_
  obtain ⟨r, hrc, -, hr, -⟩ := hi.owns b hb
  obtain ⟨q, hqc, -, hq, -⟩ := hi.owns c hc
  have hrq : r ≠ q := fun heq => hne (by rw [← hr, ← hq, heq])
  have hap := hi.rep.regions_apart hrc hqc hrq
  have hxr := ((payload_iff hi.rep hrc hr).2.2).1 hx.1
  have hxq := ((payload_iff hi.rep hqc hq).2.2).1 hx.2
  omega

end HeapInv

/-- The live blocks are as long as was asked for or longer, lie in registered areas and have no byte
in common; no call writes a byte of a block that is live before and after it; and `merge` returns. -/
structure HeapSafe (s : HeapState) : Prop where
  inside : ∀ b ∈ s.live, b.2.toNat ≤ s.alloc.blockSize b.1 ∧ ∃ a ∈ s.alloc.areas,
    a.1.toNat ≤ b.1.toNat ∧ b.1.toNat + s.alloc.blockSize b.1 ≤ a.1.toNat + a.2.toNat
  apart : s.live.Pairwise fun b c => ∀ x, ¬ (s.alloc.Payload b.1 x ∧ s.alloc.Payload c.1 x)
  kept : ∀ call s', s.step call = some s' → ∀ b ∈ s.live, b.1 ∈ s'.live.map Prod.fst →
    ∀ x ∈ s'.alloc.written, ¬ s.alloc.Payload b.1 x
  merges : (s.step .merge).isSome

theorem heap_safe {mem : Memory} {s : HeapState}
    (hs : Reaches HeapState.step Any (HeapState.init mem) s) : HeapSafe s := by
  obtain ⟨L, hi⟩ := HeapInv.of_reaches hs
  refine ⟨fun b hb => ?_, hi.payloads_apart, fun call s' hstep b hb hlive x hx hpay => ?_, ?_⟩
  · obtain ⟨r, hrc, -, hr, hsize⟩ := hi.owns b hb
    obtain ⟨hblock, hptr, -⟩ := HeapInv.payload_iff (x := 0) hi.rep hrc hr
    obtain ⟨a, ha, hra⟩ := hrc
    have hbounds := hi.rep.bounds ha hra
    have hl : r.len = 8 + r.size.toNat := rfl
    rw [hblock]
    exact ⟨hsize, a, ha, by omega, by omega⟩
  · obtain ⟨r, hrc, hu, hr, -⟩ := hi.owns b hb
    obtain ⟨L', -, hk, -⟩ := hi.step hstep
    have hxr := ((HeapInv.payload_iff hi.rep hrc hr).2.2).1 hpay
    rcases (hk r hrc ⟨hu, hr ▸ hlive⟩).2 x hx with hx | hx
    · exact absurd hx (not_mem_nil)
    · exact hx ⟨by omega, hxr.2⟩
  · obtain ⟨h', -, hmerge, -⟩ := merge_spec hi.fresh
    simp [step, hmerge]

/-- A block is written and moved, another is freed, the heap is merged, and an area is added for a
third. -/
theorem heap_safe_refilled : ∃ s, s.live = [(0xD0000010, 5000), (4178, 60)] ∧ HeapSafe s := by
  obtain ⟨s, hs, hlive⟩ : ∃ s, Reaches step Any (init fun _ => 0) s ∧ s.live = [(0xD0000010, 5000), (4178, 60)] :=
    exists_of_run [.init 4096 256, .malloc 10 [], .malloc 40 [], .write 4112 4113 7,
      .realloc 4112 60 [], .free 4130, .merge, .malloc 5000 [0xD0000000]] (by decide +kernel)
  exact ⟨s, hlive, heap_safe hs⟩

end OlliOS
