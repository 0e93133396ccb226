import Mathlib.Data.List.Chain
import OlliOS.FreeLists
import OlliOS.Proofs.BucketAlloc

/-!
# Merging the heap

`merge` empties the buckets, then walks over the regions of each area twice: once to join free
neighbours, and once to put the free regions into their buckets.
-/

namespace OlliOS

open Words Tiling List Option Region UInt32

/-- The walk over the regions of the area `a` is at `current`: it has passed `xs`, and `ys` follow. -/
structure WalkAt (h : BucketAlloc) (L : Layout) (a : UInt32 × UInt32) (current : UInt32)
    (xs ys : List Region) : Prop where
  area : a ∈ h.areas
  regions : L.regions a = xs ++ ys
  ne : L.regions a ≠ []
  passed : Tiles start len (a.1.toNat + 8) current.toNat xs
  rest : Tiles start len current.toNat (a.1.toNat + a.2.toNat) ys

/-- The regions of `a` alone are divided anew, and the regions in use stay. -/
structure SameBut (a : UInt32 × UInt32) (h : BucketAlloc) (L : Layout) (h' : BucketAlloc)
    (L' : Layout) : Prop where
  areas : h'.areas = h.areas
  heads : L'.heads = L.heads
  regions : ∀ c, c ≠ a → L'.regions c = L.regions c
  keeps : Keeps (·.used = true) h L h' L'

namespace SameBut

variable {a : UInt32 × UInt32} {h h' h'' : BucketAlloc} {L L' L'' : Layout}

lemma refl (h : BucketAlloc) (L : Layout) : SameBut a h L h L := ⟨rfl, rfl, fun _ _ => rfl, .refl h L⟩

lemma trans (s : SameBut a h L h' L') (s' : SameBut a h' L' h'' L'') : SameBut a h L h'' L'' :=
  ⟨s'.areas.trans s.areas, s'.heads.trans s.heads,
    fun c hc => (s'.regions c hc).trans (s.regions c hc), s.keeps.trans s'.keeps⟩

end SameBut

def SameUsed (L L' : Layout) : Prop := ∀ c, (L'.regions c).filter (·.used) = (L.regions c).filter (·.used)

lemma SameUsed.trans {L L' L'' : Layout} (s : SameUsed L L') (s' : SameUsed L' L'') : SameUsed L L'' :=
  fun c => (s' c).trans (s c)

namespace Layout

def Covers (L : Layout) (rs : List Region) : Prop :=
  ∀ r ∈ rs, r.used = false → r.addr ∈ L.lists r.size.toNat.log2

lemma Covers.mono {L L' : Layout} {rs : List Region} (hc : L.Covers rs)
    (hsub : ∀ b, L.lists b ⊆ L'.lists b) : L'.Covers rs :=
  fun r hr hfree => hsub _ (hc r hr hfree)

def Swept (L : Layout) (a : UInt32 × UInt32) : Prop := Coalesced (L.regions a) ∧ L.Covers (L.regions a)

end Layout

namespace Coalesced

variable {r q : Region} {xs : List Region}

lemma snoc (h : Coalesced (xs ++ [r])) (hrq : r.used = true ∨ q.used = true) : Coalesced (xs ++ [r] ++ [q]) :=
  List.IsChain.append h (.singleton q) (by simpa using hrq)

lemma snoc_free (h : Coalesced (xs ++ [r])) (hr : r.used = false) (hq : q.used = false) : Coalesced (xs ++ [q]) := by
  obtain ⟨hxs, -, hlast⟩ := isChain_append.1 h
  exact List.IsChain.append hxs (.singleton q) (by simpa [hr, hq] using hlast)

end Coalesced

namespace WalkAt

variable {h h' : BucketAlloc} {L L' : Layout} {a : UInt32 × UInt32} {current : UInt32}
  {r q : Region} {xs ys : List Region}

lemma start (hr : Rep h L) (ha : a ∈ h.areas) (hne : L.regions a ≠ []) : WalkAt h L a (a.1 + 8) [] (L.regions a) := by
  have htile := hr.tiled a ha hne
  have h8 : (a.1 + 8).toNat = a.1.toNat + 8 := by
    obtain ⟨r, hrm⟩ := exists_mem_of_ne_nil _ hne
    have hb := hr.bounds ha hrm
    have hpos := len_pos r
    exact toNat_add (by show a.1.toNat + 8 < _; omega)
  exact ⟨ha, rfl, hne, h8.symm, h8 ▸ htile⟩

section

variable (w : WalkAt h L a current xs (r :: ys))

include w

lemma contains : L.Contains h.areas r := ⟨a, w.area, by simp [w.regions]⟩

lemma current_eq : current = r.addr := UInt32.toNat_inj.1 w.rest.lo_eq

lemma load_eq (hr : Rep h L) : load h.mem current = r.word := by
  rw [w.current_eq]
  exact (hr.words r w.contains).2

lemma fits (hr : Rep h L) : r.start + r.len ≤ a.1.toNat + a.2.toNat ∧ 1 ≤ r.size.toNat ∧ r.size.toNat < 2 ^ 31 := by
  have hf := hr.fits w.contains
  exact ⟨(w.rest.bounds r (by simp)).2.2, hf.2.2⟩

lemma next_toNat (hr : Rep h L) (hend : a.1.toNat + a.2.toNat < 2 ^ 32) :
    (current + r.size + 8).toNat = r.start + r.len := by
  have hf := w.fits hr
  have hs : current.toNat = r.start := w.rest.lo_eq
  have hl : r.len = 8 + r.size.toNat := rfl
  have h1 : (current + r.size).toNat = r.start + r.size.toNat := by rw [toNat_add (by omega), hs]
  rw [toNat_add (by rw [h1]; show r.start + r.size.toNat + 8 < _; omega), h1, hl]
  show r.start + r.size.toNat + 8 = _
  omega

lemma next (hr : Rep h L) (hend : a.1.toNat + a.2.toNat < 2 ^ 32) :
    WalkAt h L a (current + r.size + 8) (xs ++ [r]) ys := by
  have hn := w.next_toNat hr hend
  have hs : current.toNat = r.start := w.rest.lo_eq
  refine ⟨w.area, by simp [w.regions], w.ne, ?_, ?_⟩
  · rw [hn]
    refine tiles_append.2 ⟨_, w.passed, w.rest.1, w.rest.2.1, ?_⟩
    rw [hs]
    rfl
  · rw [hn, ← hs]
    exact w.rest.2.2

omit w in
lemma length_lt (w : WalkAt h L a current xs ys) (hr : Rep h L) : ys.length < BucketAlloc.passes := by
  have hle := w.rest.length_le
  have harea := hr.area a w.area
  unfold BucketAlloc.passes
  omega

lemma lt_end (hr : Rep h L) {«end» : UInt32} (hend : «end».toNat = a.1.toNat + a.2.toNat) : current < «end» := by
  have hf := w.fits hr
  have hs : current.toNat = r.start := w.rest.lo_eq
  have hpos := len_pos r
  rw [lt_iff_toNat_lt]
  omega

end

lemma join (w : WalkAt h L a current xs (r :: q :: ys)) (hr : Rep h L) (hfr : r.used = false)
    (hfq : q.used = false) (hclear : L.Clear a.1.toNat (a.1.toNat + a.2.toNat)) :
    ∃ L' n, Rep (h.store current (r.size + q.size + 8)) L' ∧
      WalkAt (h.store current (r.size + q.size + 8)) L' a current xs (n :: ys) ∧
      SameBut a h L (h.store current (r.size + q.size + 8)) L' ∧ L'.lists = L.lists ∧
      n.used = false := by
  obtain ⟨hrs, hrl, hqs, hql, htail⟩ := w.rest
  have htail := htail.le
  have harea := hr.area a w.area
  have hpassed := w.passed.le
  have hl : r.len = 8 + r.size.toNat ∧ q.len = 8 + q.size.toNat := ⟨rfl, rfl⟩
  have hsum : (r.size + q.size + 8).toNat = r.size.toNat + q.size.toNat + 8 := by
    have h1 : (r.size + q.size).toNat = r.size.toNat + q.size.toNat := toNat_add (by omega)
    rw [toNat_add (by rw [h1]; show r.size.toNat + q.size.toNat + 8 < _; omega), h1]
    rfl
  have hpart : Part h L a xs [r, q] ys current.toNat (current.toNat + r.len + q.len) :=
    ⟨w.area, by simp [w.regions], ⟨hrs, hrl, hqs, hql, rfl⟩, by simp⟩
  have hw : Within current.toNat (current.toNat + r.len + q.len) h (h.store current (r.size + q.size + 8)) :=
    .store (by omega) (by omega) (by omega)
  have hnew : Tiles Region.start Region.len current.toNat (current.toNat + r.len + q.len)
      [⟨current, r.size + q.size + 8, false⟩] := by
    refine ⟨rfl, len_pos _, ?_⟩
    show current.toNat + (8 + (r.size + q.size + 8).toNat) = _
    omega
  have hcl : L.Clear current.toNat (current.toNat + r.len + q.len) := by
    intro b p hp
    have := hclear b p hp
    omega
  refine ⟨_, ⟨current, r.size + q.size + 8, false⟩, hr.exchange hpart hnew (by simp) hcl hw (by
      simp only [mem_singleton, forall_eq]
      exact ⟨by omega, load_store⟩), ⟨w.area, ?_, ?_, w.passed, ?_⟩, ⟨rfl, rfl, ?_, ?_⟩, rfl, rfl⟩
  · simp [Layout.setRegions]
  · simp [Layout.setRegions]
  · refine ⟨rfl, len_pos _, ?_⟩
    have hrest := w.rest.2.2.2.2
    have hlen : (⟨current, r.size + q.size + 8, false⟩ : Region).len = r.len + q.len := by
      show 8 + (r.size + q.size + 8).toNat = _
      omega
    rwa [hlen, ← Nat.add_assoc]
  · intro c hc
    simp [Layout.setRegions, hc]
  · exact hr.exchange_keeps hpart hw (by simp [hfr, hfq])

lemma sameUsed {n : Region} (w : WalkAt h L a current xs (r :: q :: ys))
    (w' : WalkAt h' L' a current xs (n :: ys)) (hsame : SameBut a h L h' L') (hfr : r.used = false)
    (hfq : q.used = false) (hfn : n.used = false) : SameUsed L L' := by
  intro c
  by_cases hca : c = a
  · subst hca
    simp [w.regions, w'.regions, hfr, hfq, hfn]
  · rw [hsame.regions c hca]

end WalkAt

namespace BucketAlloc

variable {h h' : BucketAlloc} {L L' : Layout} {a : UInt32 × UInt32} {current «end» : UInt32}
  {xs ys : List Region}

lemma usedFlag_le {r : Region} (hr : Rep h L) (hc : L.Contains h.areas r) : usedFlag ≤ r.word ↔ r.used = true :=
  usedFlag_le_word (hr.fits hc).2.2.2

lemma mergePass_spec (hr : Rep h L) (w : WalkAt h L a current xs ys)
    (hclear : L.Clear a.1.toNat (a.1.toNat + a.2.toNat)) (hco : Coalesced (xs ++ ys.take 1))
    (hend : «end».toNat = a.1.toNat + a.2.toNat) :
    (∃ current' h' L' xs' ys', mergePass «end» (current, h) = .inl (current', h') ∧ Rep h' L' ∧
      WalkAt h' L' a current' xs' ys' ∧ SameBut a h L h' L' ∧ L'.lists = L.lists ∧
      SameUsed L L' ∧ Coalesced (xs' ++ ys'.take 1) ∧ ys'.length < ys.length) ∨
    (mergePass «end» (current, h) = .inr h ∧ Coalesced (L.regions a)) := by
  have hend32 : a.1.toNat + a.2.toNat < 2 ^ 32 := hend ▸ «end».toNat_lt
  unfold mergePass
  match ys, w, hco with
  | [], w, hco =>
    refine .inr ⟨if_neg ?_, w.regions ▸ hco⟩
    have hrest : current.toNat = a.1.toNat + a.2.toNat := w.rest
    rw [lt_iff_toNat_lt]
    omega
  | r :: ys, w, hco =>
    have hnext := w.next_toNat hr hend32
    simp only [if_pos (w.lt_end hr hend), w.load_eq hr]
    by_cases hu : r.used = true
    · -- the region is in use
      have hword : r.word ^^^ usedFlag = r.size := by
        rw [word_of_used hu, or_usedFlag_xor (hr.fits w.contains).2.2.2]
      rw [if_pos ((usedFlag_le hr w.contains).2 hu), hword]
      refine .inl ⟨_, h, L, _, ys, rfl, hr, w.next hr hend32, .refl h L, rfl, fun _ => rfl, ?_, by simp⟩
      cases ys with
      | nil => simpa using hco
      | cons q ys => exact hco.snoc (.inl hu)
    · have hf : r.used = false := by simpa using hu
      rw [if_neg (fun hle => hu ((usedFlag_le hr w.contains).1 hle)), word_of_free hf]
      match ys, w with
      | [], w =>
        refine .inr ⟨if_pos ?_, w.regions ▸ hco⟩
        have hrest : current.toNat + r.len = a.1.toNat + a.2.toNat := w.rest.2.2
        have hs : current.toNat = r.start := w.rest.lo_eq
        rw [le_iff_toNat_le]
        omega
      | q :: ys, w =>
        have w' := w.next hr hend32
        have hlt := w'.lt_end hr hend
        have hq : load h.mem (current + r.size + 8) = q.word := w'.load_eq hr
        rw [if_neg (by rw [le_iff_toNat_le]; rw [lt_iff_toNat_lt] at hlt; omega), hq]
        by_cases huq : q.used = true
        · rw [if_pos ((usedFlag_le hr w'.contains).2 huq)]
          exact .inl ⟨_, h, L, _, q :: ys, rfl, hr, w', .refl h L, rfl, fun _ => rfl, hco.snoc (.inr huq), by simp⟩
        · have hfq : q.used = false := by simpa using huq
          rw [if_neg (fun hle => huq ((usedFlag_le hr w'.contains).1 hle)), word_of_free hfq]
          obtain ⟨L', n, hr', wn, hsame, hlists, hfn⟩ := w.join hr hf hfq hclear
          exact .inl ⟨_, _, L', xs, n :: ys, rfl, hr', wn, hsame, hlists, w.sameUsed wn hsame hf hfq hfn,
            hco.snoc_free hf hfn, by simp⟩

lemma run_mergePass (hr : Rep h L) (ha : a ∈ h.areas) (hne : L.regions a ≠ [])
    (hclear : L.Clear a.1.toNat (a.1.toNat + a.2.toNat))
    (hend : «end».toNat = a.1.toNat + a.2.toNat) :
    ∃ h' L', Loop.run (mergePass «end») passes (a.1 + 8, h) = some h' ∧ Rep h' L' ∧
      SameBut a h L h' L' ∧ L'.lists = L.lists ∧ L'.regions a ≠ [] ∧ SameUsed L L' ∧
      Coalesced (L'.regions a) := by
  have w := WalkAt.start hr ha hne
  obtain ⟨hall, hex⟩ := Loop.run_of_rank (mergePass «end»)
    (I := fun k s => ∃ L1 xs ys, Rep s.2 L1 ∧ WalkAt s.2 L1 a s.1 xs ys ∧ SameBut a h L s.2 L1 ∧
      L1.lists = L.lists ∧ SameUsed L L1 ∧ Coalesced (xs ++ ys.take 1) ∧ ys.length = k)
    (Q := fun h' => ∃ L', Rep h' L' ∧ SameBut a h L h' L' ∧ L'.lists = L.lists ∧ L'.regions a ≠ [] ∧
      SameUsed L L' ∧ Coalesced (L'.regions a))
    (fun k s hs => by
      obtain ⟨L1, xs, ys, hr1, w1, hsame, hlists, hused, hco, rfl⟩ := hs
      have hcl : L1.Clear a.1.toNat (a.1.toNat + a.2.toNat) := by
        unfold Layout.Clear
        rwa [hlists]
      rcases mergePass_spec hr1 w1 hcl hco hend with
        ⟨current', h', L', xs', ys', hpass, hr', w', hsame', hlists', hused', hco', hlt⟩ | ⟨hpass, hco'⟩
      · exact .inl ⟨_, ys'.length, hpass,
          ⟨L', xs', ys', hr', w', hsame.trans hsame', hlists'.trans hlists, hused.trans hused', hco', rfl⟩,
          hlt⟩
      · exact .inr ⟨_, hpass, L1, hr1, hsame, hlists, w1.ne, hused, hco'⟩)
    passes _ (a.1 + 8, h) ⟨L, [], L.regions a, hr, w, .refl h L, rfl, fun _ => rfl, by
      cases L.regions a with
      | nil => exact .nil
      | cons r ys => exact .singleton r, rfl⟩
  obtain ⟨h', hrun⟩ := hex (w.length_lt hr)
  obtain ⟨L', hL'⟩ := hall h' hrun
  exact ⟨h', L', hrun, hL'⟩

lemma rebuildPass_spec {r : Region} (hr : Rep h L) (w : WalkAt h L a current xs (r :: ys))
    (hclear : L.Clear current.toNat (a.1.toNat + a.2.toNat))
    (hend : «end».toNat = a.1.toNat + a.2.toNat) :
    ∃ h' L', rebuildPass «end» (current, h) = .inl (current + r.size + 8, h') ∧ Rep h' L' ∧
      WalkAt h' L' a (current + r.size + 8) (xs ++ [r]) ys ∧ SameBut a h L h' L' ∧
      (∀ b, ∀ p ∈ L'.lists b, p ∈ L.lists b ∨ p = r.addr) ∧ L'.regions = L.regions ∧
      (∀ b, L.lists b ⊆ L'.lists b) ∧ L'.Covers [r] := by
  have hend32 : a.1.toNat + a.2.toNat < 2 ^ 32 := hend ▸ «end».toNat_lt
  have hf := w.fits hr
  have hcur := w.current_eq
  unfold rebuildPass
  simp only [if_pos (w.lt_end hr hend), w.load_eq hr]
  by_cases hu : r.used = true
  · rw [if_neg (fun hlt => UInt32.not_le.2 hlt ((usedFlag_le hr w.contains).2 hu)), w.load_eq hr, word_and hf.2.2]
    exact ⟨h, L, rfl, hr, w.next hr hend32, .refl h L, fun b p hp => .inl hp, rfl, fun _ _ hp => hp,
      by simp [Layout.Covers, hu]⟩
  have hfree : r.used = false := by simpa using hu
  have hcl : L.Clear r.start (r.start + r.len) := by
    intro b p hp
    have hs : current.toNat = r.start := w.rest.lo_eq
    have := hclear b p hp
    omega
  obtain ⟨hr', hkeeps, -⟩ := hr.insertIntoBucket w.contains hfree hcl
  have hareas : (h.insertIntoBucket current).areas = h.areas := rfl
  rw [← hcur] at hr' hkeeps
  have w' : WalkAt (h.insertIntoBucket current)
      (L.setList r.size.toNat.log2 (current :: L.lists r.size.toNat.log2)) a current xs (r :: ys) :=
    ⟨w.area, w.regions, w.ne, w.passed, w.rest⟩
  rw [if_pos (UInt32.not_le.1 fun hle => hu ((usedFlag_le hr w.contains).1 hle)), w'.load_eq hr', word_and hf.2.2]
  refine ⟨_, _, rfl, hr', w'.next hr' hend32, ⟨hareas, rfl, fun _ _ => rfl, ?_⟩, ?_, rfl, ?_, ?_⟩
  · refine hkeeps.mono fun q hq huq heq => ?_
    rw [hr.eq_of_addr hq w.contains (heq.trans hcur)] at huq
    exact hu huq
  · intro b p hp
    by_cases hb : b = r.size.toNat.log2
    · subst hb
      simp only [Layout.setList, Function.update_self, mem_cons] at hp
      rcases hp with rfl | hp
      · exact .inr hcur
      · exact .inl hp
    · simp only [Layout.setList, Function.update_of_ne hb] at hp
      exact .inl hp
  · intro b p hp
    by_cases hb : b = r.size.toNat.log2
    · subst hb
      simp [Layout.setList, hp]
    · simpa [Layout.setList, hb] using hp
  · simp [Layout.Covers, Layout.setList, hcur]

lemma run_rebuildPass (hr : Rep h L) (ha : a ∈ h.areas) (hne : L.regions a ≠ [])
    (hclear : L.Clear a.1.toNat (a.1.toNat + a.2.toNat))
    (hend : «end».toNat = a.1.toNat + a.2.toNat) :
    ∃ h' L', Loop.run (rebuildPass «end») passes (a.1 + 8, h) = some h' ∧ Rep h' L' ∧
      SameBut a h L h' L' ∧ (∀ b, ∀ p ∈ L'.lists b, p ∈ L.lists b ∨
        a.1.toNat ≤ p.toNat ∧ p.toNat < a.1.toNat + a.2.toNat) ∧ L'.regions = L.regions ∧
      (∀ b, L.lists b ⊆ L'.lists b) ∧ L'.Covers (L.regions a) := by
  have hend32 : a.1.toNat + a.2.toNat < 2 ^ 32 := hend ▸ «end».toNat_lt
  have w := WalkAt.start hr ha hne
  have hcl : L.Clear (a.1 + 8).toNat (a.1.toNat + a.2.toNat) := by
    intro b p hp
    have := hclear b p hp
    have hle := w.passed.le
    omega
  obtain ⟨hall, hex⟩ := Loop.run_of_rank (rebuildPass «end»)
    (I := fun k s => ∃ L1 xs ys, Rep s.2 L1 ∧ WalkAt s.2 L1 a s.1 xs ys ∧ SameBut a h L s.2 L1 ∧
      L1.Clear s.1.toNat (a.1.toNat + a.2.toNat) ∧
      (∀ b, ∀ p ∈ L1.lists b, p ∈ L.lists b ∨
        a.1.toNat ≤ p.toNat ∧ p.toNat < a.1.toNat + a.2.toNat) ∧ L1.regions = L.regions ∧
      (∀ b, L.lists b ⊆ L1.lists b) ∧ L1.Covers xs ∧ ys.length = k)
    (Q := fun h' => ∃ L', Rep h' L' ∧ SameBut a h L h' L' ∧ (∀ b, ∀ p ∈ L'.lists b, p ∈ L.lists b ∨
        a.1.toNat ≤ p.toNat ∧ p.toNat < a.1.toNat + a.2.toNat) ∧ L'.regions = L.regions ∧
      (∀ b, L.lists b ⊆ L'.lists b) ∧ L'.Covers (L.regions a))
    (fun k s hs => by
      obtain ⟨L1, xs, ys, hr1, w1, hsame, hcl1, hlisted, hregs, hsub, hcov, rfl⟩ := hs
      match ys, w1 with
      | [], w1 =>
        have hrest : s.1.toNat = a.1.toNat + a.2.toNat := w1.rest
        refine .inr ⟨s.2, if_neg ?_, L1, hr1, hsame, hlisted, hregs, hsub, ?_⟩
        · rw [lt_iff_toNat_lt]
          omega
        · rwa [← hregs, w1.regions, append_nil]
      | r :: ys, w1 =>
        obtain ⟨h', L', hpass, hr', w', hsame', hlists, hregs', hsub', hcov'⟩ :=
          rebuildPass_spec hr1 w1 hcl1 hend
        have hnext := w1.next_toNat hr1 hend32
        have hs : s.1.toNat = r.start := w1.rest.lo_eq
        have haddr : r.addr.toNat = r.start := rfl
        have hpos := len_pos r
        have hpassed := w1.passed.le
        have hfits := w1.fits hr1
        refine .inl ⟨_, ys.length, hpass, ⟨L', xs ++ [r], ys, hr', w', hsame.trans hsame',
          fun b p hp => ?_, fun b p hp => ?_, hregs'.trans hregs,
          fun b => List.Subset.trans (hsub b) (hsub' b), ?_, rfl⟩, by simp⟩
        · show p.toNat < (s.1 + r.size + 8).toNat ∨ _
          rcases hlists b p hp with hp | rfl
          · have := hcl1 b p hp
            omega
          · omega
        · rcases hlists b p hp with hp | rfl
          · exact hlisted b p hp
          · exact .inr (by omega)
        · exact forall_mem_append.2 ⟨hcov.mono hsub', hcov'⟩)
    passes _ (a.1 + 8, h)
    ⟨L, [], L.regions a, hr, w, .refl h L, hcl, fun _ _ => Or.inl, rfl, fun _ => List.Subset.refl _,
      by simp [Layout.Covers], rfl⟩
  obtain ⟨h', hrun⟩ := hex (w.length_lt hr)
  obtain ⟨L', hL'⟩ := hall h' hrun
  exact ⟨h', L', hrun, hL'⟩

/-- What `mergeOneArea` does: it comes to nothing if the area ends with the address space. -/
structure MergedArea (a : UInt32 × UInt32) (h : BucketAlloc) (L : Layout) (h' : BucketAlloc) (L' : Layout) : Prop where
  rep : Rep h' L'
  same : SameBut a h L h' L'
  used : SameUsed L L'
  ne : L'.regions a ≠ []
  sub : ∀ b, L.lists b ⊆ L'.lists b
  inside : ∀ b, ∀ p ∈ L'.lists b, p ∈ L.lists b ∨ a.1.toNat ≤ p.toNat ∧ p.toNat < a.1.toNat + a.2.toNat
  swept : a.1.toNat + a.2.toNat < 2 ^ 32 → L'.Swept a

lemma mergeOneArea_spec (hr : Rep h L) (ha : a ∈ h.areas) (hne : L.regions a ≠ [])
    (hclear : L.Clear a.1.toNat (a.1.toNat + a.2.toNat)) :
    ∃ h' L', h.mergeOneArea (a.1 + 8) (load h.mem (a.1 + 4)) = some h' ∧ MergedArea a h L h' L' := by
  have harea := hr.area a ha
  unfold mergeOneArea
  rw [hr.ends a ha hne]
  by_cases h32 : a.1.toNat + a.2.toNat < 2 ^ 32
  · have hend : (a.1 + a.2).toNat = a.1.toNat + a.2.toNat := toNat_add h32
    obtain ⟨h₁, L1, hrun1, hr1, hsame1, hlists1, hne1, hused1, hco1⟩ := run_mergePass hr ha hne hclear hend
    have hclear1 : L1.Clear a.1.toNat (a.1.toNat + a.2.toNat) := by
      unfold Layout.Clear
      rwa [hlists1]
    obtain ⟨h2, L2, hrun2, hr2, hsame2, hlists2, hregs2, hsub2, hcov2⟩ :=
      run_rebuildPass hr1 (hsame1.areas ▸ ha) hne1 hclear1 hend
    rw [hlists1] at hlists2 hsub2
    rw [← hregs2] at hne1 hco1 hcov2
    refine ⟨h2, L2, ?_, hr2, hsame1.trans hsame2, fun c => ?_, hne1, hsub2, hlists2, fun _ => ⟨hco1, hcov2⟩⟩
    · rw [hrun1, bind_eq_bind, bind_some, hrun2]
    · rw [hregs2]
      exact hused1 c
  · -- the end is stored as 0
    have hend : a.1 + a.2 = 0 := by
      apply UInt32.toNat_inj.1
      rw [UInt32.toNat_add]
      show _ = 0
      omega
    refine ⟨h, L, ?_, hr, .refl h L, fun _ => rfl, hne, fun _ => List.Subset.refl _, fun b p hp => .inl hp,
      fun hlt => absurd hlt h32⟩
    rw [hend]
    simp [passes, Loop.run_succ, mergePass, rebuildPass]

/-- The walk over the list of areas is at `current`: the areas of `rest` follow, and no bucket lists
a region of theirs. -/
structure AreasAt (h : BucketAlloc) (L : Layout) (current : UInt32) (rest : List UInt32) : Prop where
  heads : ∃ passed, L.heads = passed ++ rest
  current : link current = rest.head?
  clear : ∀ c ∈ h.areas, c.1 ∈ rest → L.regions c ≠ [] → L.Clear c.1.toNat (c.1.toNat + c.2.toNat)

lemma areaPass_spec {rest : List UInt32} (hr : Rep h L) (w : AreasAt h L current rest) (h0 : current ≠ 0) :
    ∃ a h' L' rest', areaPass (current, h) = .inl (load h'.mem current, h') ∧ a ∈ h.areas ∧
      L.regions a ≠ [] ∧ MergedArea a h L h' L' ∧ AreasAt h' L' (load h'.mem current) rest' ∧
      rest = a.1 :: rest' := by
  obtain ⟨passed, hheads⟩ := w.heads
  have hcur := w.current
  rw [link_of_ne h0] at hcur
  match rest, hcur, hheads, w with
  | p :: rest, hcur, hheads, w =>
    cases hcur
    obtain ⟨a, ha, rfl, hane⟩ := hr.heads_area current (by simp [hheads])
    obtain ⟨h', L', hmerge, hm⟩ := mergeOneArea_spec hr ha hane (w.clear a ha (by simp) hane)
    have hheads' : L'.heads = passed ++ a.1 :: rest := hm.same.heads.trans hheads
    have hchain := hm.rep.heads
    rw [hheads'] at hchain
    refine ⟨a, h', L', rest, ?_, ha, hane, hm, ⟨⟨passed ++ [a.1], by simp [hheads']⟩, ?_, ?_⟩, rfl⟩
    · simp only [areaPass, if_pos h0, hmerge]
    · exact hchain.suffix.2.head?
    · intro c hc hcr hcne b p hp
      have hca : c ≠ a := by
        rintro rfl
        have hnd := hr.heads_nodup
        rw [hheads] at hnd
        exact (nodup_cons.1 (nodup_append.1 hnd).2.1).1 hcr
      rw [hm.same.areas] at hc
      rw [hm.same.regions c hca] at hcne
      rcases hm.inside b p hp with hp | hp
      · exact w.clear c hc (by simp [hcr]) hcne b p hp
      · have := hr.apart c hc a ha hcne hane hca
        omega

structure Merges (h : BucketAlloc) (L : Layout) (h' : BucketAlloc) (L' : Layout) (rest : List UInt32) : Prop where
  rep : Rep h' L'
  areas : h'.areas = h.areas
  keeps : Keeps (·.used = true) h L h' L'
  used : SameUsed L L'
  heads : L'.heads = L.heads
  ne : ∀ c, L.regions c ≠ [] → L'.regions c ≠ []
  swept : ∀ c ∈ h.areas, c.1 ∈ L.heads → c.1 ∉ rest → c.1.toNat + c.2.toNat < 2 ^ 32 → L'.Swept c

namespace Merges

variable {h₁ : BucketAlloc} {L1 : Layout} {rest : List UInt32}

lemma step (m : Merges h L h₁ L1 (a.1 :: rest)) (ha : a ∈ h₁.areas) (hne : L1.regions a ≠ [])
    (hm : MergedArea a h₁ L1 h' L') : Merges h L h' L' rest := by
  refine ⟨hm.rep, hm.same.areas.trans m.areas, m.keeps.trans hm.same.keeps, m.used.trans hm.used,
    hm.same.heads.trans m.heads, fun c hc => ?_, fun c hc hhead hrest hend => ?_⟩
  · rcases eq_or_ne c a with rfl | hca
    · exact hm.ne
    · rw [hm.same.regions c hca]
      exact m.ne c hc
  · rcases eq_or_ne c a with rfl | hca
    · exact hm.swept hend
    unfold Layout.Swept
    rw [hm.same.regions c hca]
    by_cases hstart : c.1 = a.1
    · -- of two areas at one address, only one has regions
      have hnil : L1.regions c = [] := by
        by_contra hcne
        have hap := m.rep.apart c (m.areas ▸ hc) a ha hcne hne hca
        have hca := (m.rep.tiled c (m.areas ▸ hc) hcne).le
        have haa := (m.rep.tiled a ha hne).le
        rw [hstart] at hap hca
        omega
      rw [hnil]
      exact ⟨.nil, by simp [Layout.Covers]⟩
    · obtain ⟨hco, hcov⟩ := m.swept c hc hhead (by simp [hstart, hrest]) hend
      exact ⟨hco, hcov.mono hm.sub⟩

lemma complete (m : Merges h L h' L' []) {but : UInt32 → Prop} (hc : Complete h.areas L but) :
    Complete h'.areas L' fun _ => False := by
  rw [m.areas]
  refine ⟨hc.ends, fun c hca => m.ne c (hc.regions c hca), fun c hca => m.heads ▸ hc.heads c hca, ?_⟩
  rintro r ⟨c, hca, hrc⟩ hfree -
  exact (m.swept c hca (hc.heads c hca) (by simp) (hc.ends c hca)).2 r hrc hfree

end Merges

lemma heads_length_lt (hr : Rep h L) : L.heads.length < passes := by
  have hnd : (L.heads.map toNat).Nodup := hr.heads_nodup.map fun _ _ => UInt32.toNat_inj.1
  have hsub : (L.heads.map toNat).toFinset ⊆ Finset.range (2 ^ 32) := by
    intro n hn
    simp only [List.mem_toFinset, List.mem_map] at hn
    obtain ⟨p, -, rfl⟩ := hn
    exact Finset.mem_range.2 p.toNat_lt
  have hcard := Finset.card_le_card hsub
  rw [toFinset_card_of_nodup hnd, length_map, Finset.card_range] at hcard
  unfold passes
  omega

lemma merge_spec (hr : Rep h L) : ∃ h' L', h.merge = some h' ∧ Merges h L h' L' [] := by
  let h₀ : BucketAlloc := { h with buckets := fun i => if i < 32 then 0 else h.buckets i }
  have hclear : Rep h₀ { L with lists := fun _ => [] } := by
    refine hr.clear rfl rfl rfl fun b => ?_
    show (if b < 32 then 0 else h.buckets b) = 0
    split_ifs with hb
    · rfl
    · exact hr.bucket_eq_zero (by omega)
  obtain ⟨hall, hex⟩ := Loop.run_of_rank areaPass
    (I := fun k s => ∃ L1 rest, Merges h L s.2 L1 rest ∧ AreasAt s.2 L1 s.1 rest ∧ rest.length = k)
    (Q := fun o => ∃ h' L', o = some h' ∧ Merges h L h' L' [])
    (fun k s hs => by
      obtain ⟨L1, rest, m, w, rfl⟩ := hs
      by_cases h0 : s.1 = 0
      · have hrest : rest = [] := by
          have hcur := w.current
          rw [h0] at hcur
          exact head?_eq_none_iff.1 hcur.symm
        exact .inr ⟨some s.2, if_neg (not_not.2 h0), s.2, L1, rfl, hrest ▸ m⟩
      · obtain ⟨a, h', L', rest', hpass, ha, hne, hm, w', rfl⟩ := areaPass_spec m.rep w h0
        exact .inl ⟨_, rest'.length, hpass, ⟨L', rest', m.step ha hne hm, w', rfl⟩, by simp⟩)
    passes _ (h.memoryLinkedList, h₀)
    ⟨_, L.heads, ⟨hclear, rfl, fun r hrc _ => ⟨hrc, fun x hx => .inl hx⟩, fun _ => rfl, rfl,
        fun _ => id, fun _ _ hin hnot => absurd hin hnot⟩,
      ⟨⟨[], rfl⟩, hclear.heads.head?, fun _ _ _ _ _ _ hp => by simp at hp⟩, rfl⟩
  obtain ⟨o, hrun⟩ := hex (heads_length_lt hr)
  obtain ⟨h', L', rfl, m⟩ := hall o hrun
  refine ⟨h', L', ?_, m⟩
  show (Loop.run areaPass passes (h.memoryLinkedList, h₀)).join = some h'
  rw [hrun]
  rfl

end BucketAlloc

end OlliOS
