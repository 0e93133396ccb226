import OlliOS.Libk.Stdlib
import OlliOS.Proofs.Heap

/-!
# The canaries of the heap

The words around a block are bytes that neither the owner of any block nor the allocator writes before it is
freed.
-/

namespace OlliOS

open Words Tiling Stepping List BucketAlloc CanaryHeap UInt32 Libk
open Option hiding or_self

variable {h h' h'' : BucketAlloc} {ptr : UInt32} {ok : Region → Prop} {live : List Block}

def Logged (h h' : BucketAlloc) : Prop := ∀ x, x ∉ h'.written → x ∉ h.written ∧ h'.mem x = h.mem x

namespace Logged

lemma refl (h : BucketAlloc) : Logged h h := fun _ hx => ⟨hx, rfl⟩

lemma trans (l : Logged h h') (l' : Logged h' h'') : Logged h h'' := fun x hx => by
  obtain ⟨hx', hmem'⟩ := l' x hx
  obtain ⟨hx'', hmem⟩ := l x hx'
  exact ⟨hx'', hmem'.trans hmem⟩

lemma store (h : BucketAlloc) (a v : UInt32) : Logged h (h.store a v) := fun x hx => by
  simp only [BucketAlloc.store, mem_cons, not_or] at hx
  obtain ⟨h0, h1, h2, h3, hx⟩ := hx
  refine ⟨hx, ?_⟩
  simp [BucketAlloc.store, Words.store, h0, h1, h2, h3]

lemma storeByte (h : BucketAlloc) (a : UInt32) (v : UInt8) : Logged h (h.storeByte a v) :=
  fun x hx => by
    simp only [BucketAlloc.storeByte, mem_cons, not_or] at hx
    exact ⟨hx.2, Function.update_of_ne hx.1 _ _⟩

lemma setBucket (h : BucketAlloc) (i : ℕ) (region : UInt32) : Logged h (h.setBucket i region) :=
  fun _ hx => ⟨hx, rfl⟩

lemma insertIntoBucket (h : BucketAlloc) (region : UInt32) : Logged h (h.insertIntoBucket region) :=
  (store h _ _).trans (setBucket _ _ _)

lemma init (h : BucketAlloc) (start length : UInt32) : Logged h (h.init start length) := by
  unfold BucketAlloc.init
  split_ifs with hlen
  · exact .refl h
  · exact (((store h _ _).trans (store _ _ _)).trans (store _ _ _)).trans (store _ _ _)

lemma takeFirst (h : BucketAlloc) (i : ℕ) (size : UInt32) : Logged h (h.takeFirst i size).1 := by
  unfold BucketAlloc.takeFirst
  simp only
  split_ifs with hlt
  · refine .trans ?_ (store _ (h.buckets i + 4) 0)
    refine .trans ?_ (store _ (h.buckets i) _)
    refine .trans ?_ (insertIntoBucket _ (h.buckets i + size + 8))
    exact .trans (store h (h.buckets i + size + 8) _) (setBucket _ i _)
  · exact ((setBucket h i _).trans (store _ _ _)).trans (store _ _ _)

variable {size p «end» current : UInt32} {n : ℕ}

lemma mallocOneTry (hm : h.mallocOneTry size = some (h', p)) : Logged h h' := by
  obtain ⟨i, -, htake⟩ := map_eq_some_iff.1 hm
  have hlog := takeFirst h i size
  rwa [htake] at hlog

lemma run_mergePass (hm : Loop.run (mergePass «end») n (current, h) = some h') : Logged h h' := by
  refine Loop.run_of_invariant (I := fun p => Logged h p.2) (fun p t hp ht => ?_) (fun p r hp hr => ?_)
    n _ _ (refl h) hm
  · obtain ⟨c, g⟩ := p
    simp only [mergePass] at ht
    split_ifs at ht <;> cases ht
    · exact hp
    · exact hp
    · exact hp.trans (store g _ _)
  · simp only [mergePass] at hr
    split_ifs at hr <;> obtain rfl := Sum.inr.inj hr <;> exact hp

lemma run_rebuildPass (hm : Loop.run (rebuildPass «end») n (current, h) = some h') : Logged h h' := by
  refine Loop.run_of_invariant (I := fun p => Logged h p.2) (fun p t hp ht => ?_) (fun p r hp hr => ?_)
    n _ _ (refl h) hm
  · obtain ⟨c, g⟩ := p
    simp only [rebuildPass] at ht
    split_ifs at ht <;> cases ht
    · exact hp.trans (insertIntoBucket g _)
    · exact hp
  · simp only [rebuildPass] at hr
    split_ifs at hr
    cases hr
    exact hp

lemma mergeOneArea {start : UInt32} (hm : h.mergeOneArea start «end» = some h') : Logged h h' := by
  obtain ⟨h₁, hmerge, hbuild⟩ := bind_eq_some_iff.1 hm
  exact (run_mergePass hmerge).trans (run_rebuildPass hbuild)

lemma merge (hm : h.merge = some h') : Logged h h' := by
  have hrun := join_eq_some_iff.1 hm
  refine Loop.run_of_invariant (I := fun p => Logged h p.2) (Q := fun r => ∀ g, r = some g → Logged h g)
    (fun p t hp ht => ?_) (fun p r hp hr g hg => ?_) _ _ _ (fun x hx => ⟨hx, rfl⟩) hrun h' rfl
  · simp only [areaPass] at ht
    split_ifs at ht with hc
    split at ht
    · cases ht
    · rename_i g' harea
      cases ht
      exact hp.trans (mergeOneArea harea)
  · simp only [areaPass] at hr
    split_ifs at hr with hc
    · split at hr
      · cases hr
        cases hg
      · cases hr
    · cases hr
      cases hg
      exact hp

lemma malloc : ∀ (pages : List UInt32) {h : BucketAlloc}, h.malloc size pages = some (h', p) → Logged h h'
  | pages, h, hm => by
    rw [BucketAlloc.malloc] at hm
    split at hm
    · rename_i r htry
      cases hm
      exact mallocOneTry htry
    split at hm
    · cases hm
    rename_i h₁ hmerge
    split at hm
    · rename_i r _ htry
      cases hm
      exact (merge hmerge).trans (mallocOneTry htry)
    · cases hm
    · rename_i page pages htry
      split_ifs at hm with hpage
      exact ((merge hmerge).trans (init _ _ _)).trans (malloc pages hm)
termination_by pages => pages.length

lemma free (h : BucketAlloc) (ptr : UInt32) : Logged h (h.free ptr) :=
  (store h _ _).trans (insertIntoBucket _ _)

lemma memcpy (h : BucketAlloc) (dst src n : UInt32) : Logged h (h.memcpy dst src n) := by
  unfold BucketAlloc.memcpy
  generalize List.range n.toNat = l
  induction l generalizing h with
  | nil => exact .refl h
  | cons i l ih => exact (storeByte h _ _).trans (ih _)

lemma realloc {pages : List UInt32} (hm : h.realloc ptr size pages = some (h', p)) : Logged h h' := by
  obtain ⟨⟨h₁, p1⟩, hmalloc, hrest⟩ := map_eq_some_iff.1 hm
  obtain ⟨rfl, -⟩ := Prod.mk.inj hrest
  refine (malloc pages hmalloc).trans (.trans ?_ (free _ _))
  split_ifs
  · exact memcpy _ _ _ _
  · exact memcpy _ _ _ _

lemma kept {L L' : Layout} {r : Region} {x : UInt32} (hl : Logged h h') (hk : Keeps ok h L h' L')
    (hc : L.Contains h.areas r) (hok : ok r) (hnil : h.written = []) (hx : r.Has x) :
    h'.mem x = h.mem x := by
  refine (hl x fun hw => ?_).2
  rcases (hk r hc hok).2 x hw with hw | hw
  · rw [hnil] at hw
    exact absurd hw (not_mem_nil)
  · exact hw hx

end Logged

namespace BucketAlloc

variable {L : Layout} {size p : UInt32}

lemma mallocOneTry_eq_none (hr : Rep h L) (hlarge : 2 ^ 30 < size.toNat) : h.mallocOneTry size = none := by
  have hbucket : 31 ≤ nextHighestPowerOfTwo size := by
    by_contra hlt
    have hle := le_two_pow_nextHighestPowerOfTwo (v := size) (by omega)
    have hpow : 2 ^ nextHighestPowerOfTwo size ≤ 2 ^ 30 := Nat.pow_le_pow_right (by decide) (by omega)
    omega
  exact mallocOneTry_eq_none_iff.2 fun i hi _ => hr.bucket_eq_zero (by omega)

lemma size_le_of_malloc : ∀ (pages : List UInt32) {h : BucketAlloc} {L : Layout}, Rep h L →
    h.malloc size pages = some (h', p) → size.toNat ≤ 2 ^ 30
  | pages, h, L, hr, hm => by
    by_contra hlarge
    rw [malloc, mallocOneTry_eq_none hr (by omega)] at hm
    obtain ⟨h₁, L1, hmerge, m⟩ := merge_spec hr
    simp only [hmerge, mallocOneTry_eq_none m.rep (Nat.lt_of_not_le hlarge)] at hm
    split at hm
    · exact absurd ‹none = some _› (by simp)
    · cases hm
    · split_ifs at hm with hpage
      obtain ⟨L2, hr2, -⟩ := init_spec m.rep hpage.2
      exact hlarge (size_le_of_malloc _ hr2 hm)
termination_by pages => pages.length

end BucketAlloc

section Fences

variable {L : Layout} {r : Region} {m m' : Memory} {b : Block} {data size : UInt32}

structure Fenced (m : Memory) (b : Block) : Prop where
  length : load m (b.ptr - 8) = b.size
  before : load m (b.ptr - 8 + 4) = canary
  behind : load m (b.ptr + b.size) = canary

lemma Fenced.not_damaged (hf : Fenced h.mem b) : ¬ Libk.Damaged h b.ptr := by
  unfold Libk.Damaged canaries
  simp [hf.length, hf.before, hf.behind]

structure Fits (h : BucketAlloc) (L : Layout) (b : Block) (r : Region) : Prop where
  contains : L.Contains h.areas r
  used : r.used = true
  ptr : r.addr + 8 + 8 = b.ptr
  size : b.size.toNat + 12 ≤ r.size.toNat

lemma Fits.places (hr : Rep h L) (hf : Fits h L b r) :
    (b.ptr - 8).toNat = r.start + 8 ∧ (b.ptr - 8 + 4).toNat = r.start + 12 ∧
      b.ptr.toNat = r.start + 16 ∧ (b.ptr + b.size).toNat = r.start + 16 + b.size.toNat ∧
      r.start + r.len ≤ 2 ^ 32 ∧ r.start + 20 + b.size.toNat ≤ r.start + r.len := by
  obtain ⟨-, -, h8, hl⟩ := hr.header hf.contains
  have hfits := hr.fits hf.contains
  have hsize := hf.size
  have h12 : (r.addr + 8 + 4).toNat = r.start + 12 := by
    rw [toNat_add (by change _ + 4 < _; omega), h8]
    rfl
  have h16 : (r.addr + 8 + 8).toNat = r.start + 16 := by
    rw [toNat_add (by change _ + 8 < _; omega), h8]
    rfl
  have hend : (r.addr + 8 + 8 + b.size).toNat = r.start + 16 + b.size.toNat := by
    rw [toNat_add (by omega), h16]
  rw [← hf.ptr, UInt32.add_sub_cancel]
  exact ⟨h8, h12, h16, hend, by omega, by omega⟩

lemma Fenced.congr (hr : Rep h L) (hfit : Fits h L b r) (hf : Fenced m b)
    (hm : ∀ x : UInt32, r.start + 8 ≤ x.toNat → x.toNat < r.start + r.len →
      (x.toNat < r.start + 16 ∨ r.start + 16 + b.size.toNat ≤ x.toNat) → m' x = m x) : Fenced m' b := by
  obtain ⟨h8, h12, -, hbehind, h32, hlen⟩ := hfit.places hr
  refine ⟨?_, ?_, ?_⟩
  · rw [← hf.length]
    exact load_congr (by omega) fun x _ _ => hm x (by omega) (by omega) (by omega)
  · rw [← hf.before]
    exact load_congr (by omega) fun x _ _ => hm x (by omega) (by omega) (by omega)
  · rw [← hf.behind]
    exact load_congr (by omega) fun x _ _ => hm x (by omega) (by omega) (by omega)

lemma fence_spec (hr : Rep h L) (hc : L.Contains h.areas r) (hu : r.used = true)
    (hdata : r.addr + 8 = data) (hsize : size.toNat + 12 ≤ r.size.toNat) :
    Rep (fence h data size) L ∧ Keeps (·.addr ≠ r.addr) h L (fence h data size) L ∧
      Logged h (fence h data size) ∧ Fits (fence h data size) L ⟨data + 8, size, false⟩ r ∧
      Fenced (fence h data size).mem ⟨data + 8, size, false⟩ := by
  have hfit : Fits h L ⟨data + 8, size, false⟩ r := ⟨hc, hu, by rw [hdata], hsize⟩
  obtain ⟨h8, h12, h16, hbehind, h32, hlen⟩ := hfit.places hr
  simp only [UInt32.add_sub_cancel] at h8 h12 h16 hbehind hlen
  have hw : Within (r.start + 8) (r.start + r.len) h (Libk.fence h data size) := by
    refine .trans (.trans (.store ?_ ?_ h32) (.store ?_ ?_ h32)) (.store ?_ ?_ h32)
    all_goals omega
  obtain ⟨h0, -, -, -⟩ := hr.header hc
  obtain ⟨hr', hk⟩ := hr.touch hc (hr.clear_of_used hc hu) (hw.mono (Nat.le_add_right _ _) (Nat.le_refl _)) (by
      rw [hw.mem.load (by omega) (by omega)]
      exact (hr.words r hc).2)
  refine ⟨hr', hk, ((Logged.store h _ _).trans (.store _ _ _)).trans (.store _ _ _),
    ⟨hw.areas ▸ hc, hu, by rw [hdata], hsize⟩, ?_, ?_, load_store⟩
  · rw [UInt32.add_sub_cancel]
    exact (load_store_of_apart (by omega) (by omega) (by omega)).trans
      ((load_store_of_apart (by omega) (by omega) (by omega)).trans load_store)
  · rw [UInt32.add_sub_cancel]
    exact (load_store_of_apart (by omega) (by omega) (by omega)).trans load_store

end Fences

structure CanaryInv (s : CanaryHeap) (L : Layout) : Prop where
  rep : Rep s.alloc L
  fits : ∀ b ∈ s.live, ∃ r, Fits s.alloc L b r
  nodup : (s.live.map Block.ptr).Nodup
  fenced : ∀ b ∈ s.live, b.fromCalloc = false → Fenced s.alloc.mem b

namespace CanaryInv

variable {s s' : CanaryHeap} {L L' : Layout} {r : Region} {b : Block} {p size : UInt32}

lemma fresh (hi : CanaryInv s L) : Rep s.fresh L := { hi.rep with }

lemma init (mem : Memory) : CanaryInv (init mem) ⟨fun _ => [], [], fun _ => []⟩ :=
  ⟨(HeapInv.init mem).rep, by simp [CanaryHeap.init], .nil, by simp [CanaryHeap.init]⟩

lemma of_keeps (hi : CanaryInv s L) (hr : Rep h' L') (hk : Keeps ok s.fresh L h' L')
    (hl : Logged s.fresh h') (hsub : live.Sublist s.live)
    (hok : ∀ b ∈ live, ∀ r, Fits s.alloc L b r → ok r) :
    CanaryInv ⟨h', live⟩ L' := by
  refine ⟨hr, fun b hb => ?_, hi.nodup.sublist (hsub.map _), fun b hb hmalloc => ?_⟩
  · obtain ⟨r, hfit⟩ := hi.fits b (hsub.subset hb)
    exact ⟨r, (hk r hfit.contains (hok b hb r hfit)).1, hfit.used, hfit.ptr, hfit.size⟩
  · obtain ⟨r, hfit⟩ := hi.fits b (hsub.subset hb)
    refine (hi.fenced b (hsub.subset hb) hmalloc).congr hi.rep hfit fun x hlo hhi _ => ?_
    exact hl.kept hk hfit.contains (hok b hb r hfit) rfl ⟨by omega, hhi⟩

lemma cons (hi : CanaryInv s L) (hr : Rep h' L') (hk : Keeps ok s.fresh L h' L')
    (hl : Logged s.fresh h') (hsub : live.Sublist s.live)
    (hok : ∀ b ∈ live, ∀ r, Fits s.alloc L b r → ok r) (hfit : Fits h' L' b r)
    (hnew : ∀ q, L.Contains s.alloc.areas q → q.used = true → q.addr ≠ r.addr)
    (hfenced : b.fromCalloc = false → Fenced h'.mem b) : CanaryInv ⟨h', b :: live⟩ L' := by
  have hi' := hi.of_keeps hr hk hl hsub hok
  refine ⟨hr, fun c hc => ?_, nodup_cons.2 ⟨fun hmem => ?_, hi'.nodup⟩, fun c hc hmalloc => ?_⟩
  · rcases mem_cons.1 hc with rfl | hc
    · exact ⟨r, hfit⟩
    · exact hi'.fits c hc
  · obtain ⟨c, hc, hptr⟩ := List.mem_map.1 hmem
    obtain ⟨q, hq⟩ := hi.fits c (hsub.subset hc)
    refine hnew q hq.contains hq.used ?_
    have haddr : q.addr + 8 + 8 = r.addr + 8 + 8 := by rw [hq.ptr, hfit.ptr, hptr]
    exact (UInt32.add_left_inj _).1 ((UInt32.add_left_inj _).1 haddr)
  · rcases mem_cons.1 hc with rfl | hc
    · exact hfenced hmalloc
    · exact hi'.fenced c hc hmalloc

lemma fence (hi : CanaryInv s L) (hr : Rep h' L') (hk : Keeps ok s.fresh L h' L')
    (hl : Logged s.fresh h') (hsub : live.Sublist s.live)
    (hok : ∀ b ∈ live, ∀ r, Fits s.alloc L b r → ok r) {data : UInt32}
    (hf : Fresh s.fresh L h' L' data (size + 12)) (hsize : (size + 12).toNat = size.toNat + 12) :
    CanaryInv ⟨fence h' data size, ⟨data + 8, size, false⟩ :: live⟩ L' := by
  obtain ⟨r, hc, hu, hp, hroom, hnew⟩ := hf
  obtain ⟨hr', hk', hl', hfit, hfenced⟩ := fence_spec hr hc hu hp (hsize ▸ hroom)
  have hkeeps : Keeps (fun q => ok q ∧ q.addr ≠ r.addr) s.fresh L (Libk.fence h' data size) L' :=
    (hk.mono fun _ _ hq => hq.1).trans (hk'.mono fun _ _ hq => hq.2)
  refine hi.cons hr' hkeeps (hl.trans hl') hsub (fun b hb q hq => ?_) hfit hnew fun _ => hfenced
  exact ⟨hok b hb q hq, hnew q hq.contains hq.used⟩

lemma mem_without (hb : b ∈ s.without ptr) : b ∈ s.live ∧ b.ptr ≠ ptr := by
  obtain ⟨hlive, hne⟩ := mem_filter.1 hb
  exact ⟨hlive, by simpa using hne⟩

lemma add_twelve (hsize : size < 0x40000000) : (size + 12).toNat = size.toNat + 12 := by
  have hlt : size.toNat < 0x40000000 := lt_iff_toNat_lt.1 hsize
  exact toNat_add (by change _ + 12 < _; omega)

lemma toNat_calloc {num : UInt32} (hnum : 1 ≤ num) (hlt : num.toNat * (size.toNat + 12) < 2 ^ 32) :
    (num * size).toNat + 12 ≤ (num * (size + 12)).toNat ∧ 1 ≤ (num * (size + 12)).toNat := by
  have hone : 1 ≤ num.toNat := UInt32.le_iff_toNat_le.1 hnum
  have hsum : num.toNat * (size.toNat + 12) = num.toNat * size.toNat + num.toNat * 12 := Nat.mul_add _ _ _
  have hle : 1 * (size.toNat + 12) ≤ num.toNat * (size.toNat + 12) := Nat.mul_le_mul_right _ hone
  have h12 : (size + 12).toNat = size.toNat + 12 := toNat_add (by change _ + 12 < _; omega)
  rw [UInt32.toNat_mul, UInt32.toNat_mul, h12, Nat.mod_eq_of_lt hlt, Nat.mod_eq_of_lt (by omega)]
  omega

lemma not_damaged (hi : CanaryInv s L) (hlive : ptr ∈ s.live.map Block.ptr)
    (hproper : ∀ b ∈ s.live, b.ptr = ptr → b.fromCalloc = false) : ¬ Libk.Damaged s.alloc ptr := by
  obtain ⟨b, hb, rfl⟩ := List.mem_map.1 hlive
  exact (hi.fenced b hb (hproper b hb rfl)).not_damaged

lemma exists_region (hi : CanaryInv s L) (hlive : ptr ∈ s.live.map Block.ptr) :
    ∃ r, L.Contains s.alloc.areas r ∧ r.used = true ∧ r.addr + 8 = ptr - 8 ∧
      ∀ b ∈ s.without ptr, ∀ q, Fits s.alloc L b q → q.used = true ∧ q.addr ≠ r.addr := by
  obtain ⟨c, hc, rfl⟩ := List.mem_map.1 hlive
  obtain ⟨r, hfit⟩ := hi.fits c hc
  refine ⟨r, hfit.contains, hfit.used, ?_, fun b hb q hq => ⟨hq.used, fun heq => ?_⟩⟩
  · rw [← hfit.ptr, UInt32.add_sub_cancel]
  · refine (mem_without hb).2 ?_
    rw [← hq.ptr, ← hfit.ptr, heq]

lemma write (hi : CanaryInv s L) {x : UInt32} {v : UInt8} (hb : b ∈ s.live)
    (hx : b.ptr.toNat ≤ x.toNat ∧ x.toNat < b.ptr.toNat + b.size.toNat) :
    CanaryInv { s with alloc := { s.fresh with mem := Function.update s.alloc.mem x v } } L := by
  obtain ⟨r, hfit⟩ := hi.fits b hb
  obtain ⟨-, -, hptr, -, h32, hlen⟩ := hfit.places hi.rep
  obtain ⟨h0, -, -, -⟩ := hi.rep.header hfit.contains
  have hw : Within (r.start + 8) (r.start + r.len) s.fresh
      { s.fresh with mem := Function.update s.alloc.mem x v } := by
    refine ⟨rfl, rfl, rfl, fun y hy => Function.update_of_ne ?_ _ _, fun _ => Or.inl⟩
    rintro rfl
    omega
  obtain ⟨hr', -⟩ := hi.fresh.touch hfit.contains (hi.fresh.clear_of_used hfit.contains hfit.used)
    (hw.mono (Nat.le_add_right _ _) (Nat.le_refl _)) (by
      rw [hw.mem.load (by omega) (by omega)]
      exact (hi.rep.words r hfit.contains).2)
  refine ⟨hr', fun c hc => ?_, hi.nodup, fun c hc hmalloc => ?_⟩
  · obtain ⟨q, hq⟩ := hi.fits c hc
    exact ⟨q, hq.contains, hq.used, hq.ptr, hq.size⟩
  obtain ⟨q, hq⟩ := hi.fits c hc
  refine (hi.fenced c hc hmalloc).congr hi.rep hq fun y hlo hhi hout => Function.update_of_ne ?_ _ _
  rintro rfl
  -- the byte is the block's own, or it is in another region
  by_cases hqr : q = r
  · subst hqr
    have hcb : c = b := inj_on_of_nodup_map hi.nodup hc hb (hq.ptr.symm.trans hfit.ptr)
    subst hcb
    omega
  · have hap := hi.rep.regions_apart hq.contains hfit.contains hqr
    omega

lemma step (hi : CanaryInv s L) {call : CanaryCall} (hproper : CanaryHeap.Proper s call)
    (hs : s.step call = some s') : ∃ L', CanaryInv s' L' := by
  have hr := hi.fresh
  cases call with simp only [CanaryHeap.step] at hs
  | init start length =>
    split_ifs at hs with hfresh
    cases hs
    obtain ⟨L', hr', hk, -⟩ := init_spec hr hfresh
    exact ⟨L', hi.of_keeps hr' hk (.init _ _ _) (.refl _) fun _ _ _ hfit => hfit.used⟩
  | malloc size pages =>
    split_ifs at hs with hsize
    obtain ⟨⟨h₁, p⟩, hm, rfl⟩ := map_eq_some_iff.1 hs
    obtain ⟨⟨h', data⟩, hm', heq⟩ := map_eq_some_iff.1 hm
    cases heq
    have h12 := add_twelve hsize
    have h30 := size_le_of_malloc pages hr hm'
    obtain ⟨L', hr', hk, hf, -⟩ := malloc_spec pages hr (by omega) h30 hm'
    exact ⟨L', hi.fence hr' hk (.malloc pages hm') (.refl _) (fun _ _ _ hfit => hfit.used) hf h12⟩
  | calloc num size pages =>
    split_ifs at hs with hsize
    obtain ⟨⟨h', p⟩, hm, rfl⟩ := map_eq_some_iff.1 hs
    obtain ⟨⟨h₁, data⟩, hm', heq⟩ := map_eq_some_iff.1 hm
    obtain ⟨rfl, rfl⟩ := Prod.mk.inj heq
    obtain ⟨hsum, hprod⟩ := toNat_calloc hproper.1 hproper.2
    have h30 := size_le_of_malloc pages hr hm'
    obtain ⟨L', hr', hk, ⟨r, hc, hu, hp, hroom, hnew⟩, -⟩ := malloc_spec pages hr (by omega) h30 hm'
    have hfit : Fits h₁ L' ⟨data + 8, num * size, true⟩ r := ⟨hc, hu, by rw [hp], hsum.trans hroom⟩
    refine ⟨L', hi.cons hr' hk (.malloc pages hm') (.refl _) (fun _ _ _ hq => hq.used) hfit hnew ?_⟩
    exact fun h => absurd h Bool.noConfusion
  | realloc ptr size pages =>
    split_ifs at hs with hcond
    obtain ⟨r, hc, hu, hp, hothers⟩ := hi.exists_region hcond.1
    unfold Libk.realloc at hs
    split_ifs at hs with hd
    split at hs
    · rename_i h₁ p hm
      cases hs
      obtain ⟨⟨h', data⟩, hm', heq⟩ := map_eq_some_iff.1 (Except.ok.inj hm)
      cases heq
      have h12 := add_twelve hcond.2
      obtain ⟨⟨h₂, p2⟩, hmalloc, -⟩ := map_eq_some_iff.1 hm'
      have h30 := size_le_of_malloc pages hr hmalloc
      rw [← hp] at hm'
      obtain ⟨L', hr', hk, hf, -⟩ := realloc_spec hr hc hu (by omega) h30 hm'
      exact ⟨L', hi.fence hr' hk (.realloc hm') filter_sublist hothers hf h12⟩
    · cases hs
  | free ptr =>
    split_ifs at hs with hlive
    obtain ⟨r, hc, hu, hp, hothers⟩ := hi.exists_region hlive
    obtain ⟨L', hr', hk, -⟩ := free_spec hr hc hu
    rw [hp] at hr' hk
    unfold Libk.free at hs
    split_ifs at hs with hd
    cases hs
    exact ⟨L', hi.of_keeps hr' hk (.free _ _) filter_sublist fun b hb q hq => (hothers b hb q hq).2⟩
  | write ptr x v =>
    split_ifs at hs with hcond
    cases hs
    obtain ⟨b, hb, rfl, hx⟩ := hcond
    exact ⟨L, hi.write hb hx⟩

end CanaryInv

/-- In a run where no block of `calloc` is freed or resized, `free` and `realloc` find no damage. -/
theorem canaries_intact {mem : Memory} {s : CanaryHeap}
    (hs : Reaches step CanaryHeap.Proper (init mem) s) {call : CanaryCall}
    (hlive : s.Live call) (hproper : s.Proper call) : ¬ s.Reports call := by
  obtain ⟨L, hi⟩ : ∃ L, CanaryInv s L := by
    refine hs.invariant (I := fun s => ∃ L, CanaryInv s L) ⟨_, .init mem⟩ ?_
    rintro s call s' ⟨L, hi⟩ hok hstep
    exact hi.step hok hstep
  cases call with
  | free ptr =>
    rintro ⟨e, he⟩
    unfold Libk.free at he
    rw [if_neg (hi.not_damaged hlive hproper)] at he
    cases he
  | realloc ptr size pages =>
    rintro ⟨e, he⟩
    unfold Libk.realloc at he
    rw [if_neg (hi.not_damaged hlive.1 hproper)] at he
    cases he
  | init start length => exact not_false
  | malloc size pages => exact not_false
  | calloc num size pages => exact not_false
  | write ptr x v => exact not_false

/-- A block is written and resized twice, next to one of `calloc`. -/
theorem canaries_intact_resized : ∃ s, Reaches step CanaryHeap.Proper (init fun _ => 0) s ∧
    s.live = [⟨4208, 30, false⟩, ⟨4143, 8, true⟩] ∧ ¬ s.Reports (.free 4208) := by
  obtain ⟨s, hs, hlive⟩ : ∃ s, Reaches step CanaryHeap.Proper
      (init fun _ => 0) s ∧ s.live = [⟨4208, 30, false⟩, ⟨4143, 8, true⟩] :=
    exists_of_run [.init 4096 256, .malloc 3 [], .calloc 2 4 [], .write 4120 4122 7,
      .realloc 4120 5 [], .realloc 4183 30 []] (by decide +kernel)
  refine ⟨s, hs, hlive, canaries_intact hs ?_ ?_⟩
  · simp [CanaryHeap.Live, hlive]
  · simp [CanaryHeap.Proper, hlive]

/-- A block of `calloc` is freed: the words around it were not written. -/
theorem calloc_block_reported : ∃ s, Reaches step Any (init fun _ => 0) s ∧
    s.live = [⟨4120, 8, true⟩] ∧ s.Live (.free 4120) ∧ s.Reports (.free 4120) := by
  obtain ⟨s, hs, hlive, hd⟩ : ∃ s, Reaches step Any (init fun _ => 0) s ∧
      s.live = [⟨4120, 8, true⟩] ∧ Libk.Damaged s.alloc 4120 :=
    exists_of_run [.init 4096 256, .calloc 1 8 []] (by decide +kernel)
  refine ⟨s, hs, hlive, ?_, _, if_pos hd⟩
  simp [CanaryHeap.Live, hlive]

end OlliOS
