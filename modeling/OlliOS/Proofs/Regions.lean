import OlliOS.BucketAlloc
import OlliOS.Lib.Links
import OlliOS.Lib.Tiling

/-!
# The regions of the heap

`Rep h L` says that the memory and the buckets of `h` are laid out as `L`. The allocator writes a run of
regions anew (`Rep.exchange`), takes the first region of a bucket off (`Rep.unlink`), puts a free region in
front of a bucket (`Rep.link`), and adds an area (`Rep.addArea`).
-/

namespace OlliOS

open Function Words Tiling List BucketAlloc

structure Region where
  addr : UInt32
  size : UInt32
  used : Bool
  deriving DecidableEq

namespace Region

def start (r : Region) : ℕ := r.addr.toNat

def len (r : Region) : ℕ := 8 + r.size.toNat

def word (r : Region) : UInt32 := if r.used then r.size ||| usedFlag else r.size

def Has (r : Region) (x : UInt32) : Prop := r.start ≤ x.toNat ∧ x.toNat < r.start + r.len

end Region

def link (p : UInt32) : Option UInt32 := if p = 0 then none else some p

variable {h : BucketAlloc} {L : Layout} {areas : List (UInt32 × UInt32)} {xs old ys : List Region}
  {p : UInt32} {a : UInt32 × UInt32} {lo hi : ℕ}

lemma link_eq_some {q : UInt32} : link p = some q ↔ p = q ∧ p ≠ 0 := by
  unfold link
  split_ifs with h <;> simp [h]

lemma link_of_ne (h : p ≠ 0) : link p = some p := link_eq_some.2 ⟨rfl, h⟩

structure Layout where
  regions : UInt32 × UInt32 → List Region
  heads : List UInt32
  lists : ℕ → List UInt32

namespace Layout

def Contains (L : Layout) (areas : List (UInt32 × UInt32)) (r : Region) : Prop := ∃ a ∈ areas, r ∈ L.regions a

def Clear (L : Layout) (lo hi : ℕ) : Prop := ∀ b, ∀ p ∈ L.lists b, p.toNat < lo ∨ hi ≤ p.toNat

def setRegions (L : Layout) (a : UInt32 × UInt32) (rs : List Region) : Layout :=
  { L with regions := update L.regions a rs }

def setList (L : Layout) (b : ℕ) (ps : List UInt32) : Layout :=
  { L with lists := update L.lists b ps }

end Layout

/-- The areas without regions are those too short to be used. -/
structure Rep (h : BucketAlloc) (L : Layout) : Prop where
  area : ∀ a ∈ h.areas, a.2.toNat < 2 ^ 31 ∧ a.1.toNat + a.2.toNat ≤ 2 ^ 32
  tiled : ∀ a ∈ h.areas, L.regions a ≠ [] →
    Tiles Region.start Region.len (a.1.toNat + 8) (a.1.toNat + a.2.toNat) (L.regions a)
  apart : ∀ a ∈ h.areas, ∀ b ∈ h.areas, L.regions a ≠ [] → L.regions b ≠ [] → a ≠ b →
    a.1.toNat + a.2.toNat ≤ b.1.toNat ∨ b.1.toNat + b.2.toNat ≤ a.1.toNat
  ends : ∀ a ∈ h.areas, L.regions a ≠ [] → load h.mem (a.1 + 4) = a.1 + a.2
  words : ∀ r, L.Contains h.areas r → 1 ≤ r.size.toNat ∧ load h.mem r.addr = r.word
  heads : Links.Chain (fun p => link (load h.mem p)) (link h.memoryLinkedList) L.heads
  heads_nodup : L.heads.Nodup
  heads_area : ∀ p ∈ L.heads, ∃ a ∈ h.areas, a.1 = p ∧ L.regions a ≠ []
  lists : ∀ b, Links.Chain (fun p => link (load h.mem (p + 4))) (link (h.buckets b)) (L.lists b)
  lists_nodup : ∀ b, (L.lists b).Nodup
  lists_free : ∀ b, ∀ p ∈ L.lists b, ∃ r, L.Contains h.areas r ∧ r.addr = p ∧ r.used = false ∧ r.size.toNat.log2 = b

/-- Each area ends before the address space does and is in the list of areas, and every free region is in
the list of its bucket, apart from those at the addresses that `but` allows. -/
structure Complete (areas : List (UInt32 × UInt32)) (L : Layout) (but : UInt32 → Prop) : Prop where
  ends : ∀ a ∈ areas, a.1.toNat + a.2.toNat < 2 ^ 32
  regions : ∀ a ∈ areas, L.regions a ≠ []
  heads : ∀ a ∈ areas, a.1 ∈ L.heads
  listed : ∀ r, L.Contains areas r → r.used = false → ¬ but r.addr → r.addr ∈ L.lists r.size.toNat.log2

lemma Complete.mono {but but' : UInt32 → Prop}
    (hc : Complete areas L but) (hbut : ∀ p, but p → but' p) : Complete areas L but' :=
  ⟨hc.ends, hc.regions, hc.heads, fun r hr hfree hnot => hc.listed r hr hfree (mt (hbut r.addr) hnot)⟩

lemma Complete.unlink {b : ℕ} {ps : List UInt32} (hc : Complete areas L fun _ => False) (hL : L.lists b = p :: ps) :
    Complete areas (L.setList b ps) (· = p) := by
  refine ⟨hc.ends, hc.regions, hc.heads, fun q hq hfree hne => ?_⟩
  have hlisted := hc.listed q hq hfree not_false
  by_cases hb : q.size.toNat.log2 = b
  · rw [hb, hL, mem_cons] at hlisted
    simpa [Layout.setList, hb] using hlisted.resolve_left hne
  · simpa [Layout.setList, hb] using hlisted

lemma Complete.addArea {r : Region}
    (hc : Complete areas L fun _ => False) (hend : a.1.toNat + a.2.toNat < 2 ^ 32) (hnot : a ∉ areas)
    (h0 : a.1 ≠ 0) (hnil : L.lists r.size.toNat.log2 = []) :
    Complete (a :: areas) (Layout.setList { L.setRegions a [r] with
      heads := if a.1 = 0 then [] else a.1 :: L.heads } r.size.toNat.log2 [r.addr]) fun _ => False := by
  have hregs : ∀ c ∈ areas, (L.setRegions a [r]).regions c = L.regions c := fun c hca =>
    update_of_ne (ne_of_mem_of_not_mem hca hnot) _ _
  have hself : (L.setRegions a [r]).regions a = [r] := update_self _ _ _
  refine ⟨?_, ?_, ?_, ?_⟩
  · rw [forall_mem_cons]
    exact ⟨hend, hc.ends⟩
  · rw [forall_mem_cons]
    refine ⟨by simp [Layout.setList, hself], fun c hca => ?_⟩
    change (L.setRegions a [r]).regions c ≠ []
    rw [hregs c hca]
    exact hc.regions c hca
  · change ∀ c ∈ a :: areas, c.1 ∈ (if a.1 = 0 then [] else a.1 :: L.heads)
    rw [if_neg h0, forall_mem_cons]
    exact ⟨by simp, fun c hca => mem_cons_of_mem _ (hc.heads c hca)⟩
  · rintro q ⟨c, hca, hqc⟩ hfree -
    change q ∈ (L.setRegions a [r]).regions c at hqc
    rcases mem_cons.1 hca with rfl | hca
    · obtain rfl : q = r := by simpa [hself] using hqc
      simp [Layout.setList]
    · rw [hregs c hca] at hqc
      have hlisted := hc.listed q ⟨c, hca, hqc⟩ hfree not_false
      have hne : q.size.toNat.log2 ≠ r.size.toNat.log2 := fun heq => by simp [heq, hnil] at hlisted
      simpa [Layout.setList, Layout.setRegions, hne] using hlisted

structure Within (lo hi : ℕ) (h h' : BucketAlloc) : Prop where
  areas : h'.areas = h.areas
  buckets : h'.buckets = h.buckets
  memoryLinkedList : h'.memoryLinkedList = h.memoryLinkedList
  mem : SameOutside lo hi h.mem h'.mem
  written : ∀ x ∈ h'.written, x ∈ h.written ∨ lo ≤ x.toNat ∧ x.toNat < hi

namespace Within

variable {lo hi : ℕ} {h h' h'' : BucketAlloc} {a v : UInt32}

lemma refl (h : BucketAlloc) : Within lo hi h h := ⟨rfl, rfl, rfl, .refl _, fun _ => Or.inl⟩

lemma trans (w : Within lo hi h h') (w' : Within lo hi h' h'') : Within lo hi h h'' := by
  refine ⟨w'.areas.trans w.areas, w'.buckets.trans w.buckets,
    w'.memoryLinkedList.trans w.memoryLinkedList, w.mem.trans w'.mem, fun x hx => ?_⟩
  rcases w'.written x hx with hx | hx
  · exact w.written x hx
  · exact .inr hx

lemma mono {lo' hi' : ℕ} (w : Within lo hi h h') (hlo : lo' ≤ lo) (hhi : hi ≤ hi') : Within lo' hi' h h' := by
  refine ⟨w.areas, w.buckets, w.memoryLinkedList, fun x hx => w.mem x (by omega), fun x hx => ?_⟩
  rcases w.written x hx with hx | hx
  · exact .inl hx
  · exact .inr (by omega)

lemma store (hlo : lo ≤ a.toNat) (hhi : a.toNat + 4 ≤ hi) (h32 : hi ≤ 2 ^ 32) : Within lo hi h (h.store a v) := by
  refine ⟨rfl, rfl, rfl, .store hlo hhi h32, fun x hx => ?_⟩
  have h1 : (a + 1).toNat = a.toNat + 1 := toNat_add (by show a.toNat + 1 < _; omega)
  have h2 : (a + 2).toNat = a.toNat + 2 := toNat_add (by show a.toNat + 2 < _; omega)
  have h3 : (a + 3).toNat = a.toNat + 3 := toNat_add (by show a.toNat + 3 < _; omega)
  simp only [BucketAlloc.store, mem_cons] at hx
  rcases hx with rfl | rfl | rfl | rfl | hx
  · exact .inr (by omega)
  · exact .inr (by omega)
  · exact .inr (by omega)
  · exact .inr (by omega)
  · exact .inl hx

end Within

/-- The regions that `ok` allows stay as they are, and none of their bytes is written. -/
def Keeps (ok : Region → Prop) (h : BucketAlloc) (L : Layout) (h' : BucketAlloc) (L' : Layout) : Prop :=
  ∀ r, L.Contains h.areas r → ok r → L'.Contains h'.areas r ∧ ∀ x ∈ h'.written, x ∈ h.written ∨ ¬ r.Has x

namespace Keeps

variable {ok ok' : Region → Prop} {h h' h'' : BucketAlloc} {L L' L'' : Layout}

lemma refl (h : BucketAlloc) (L : Layout) : Keeps ok h L h L := fun _ hr _ => ⟨hr, fun _ => Or.inl⟩

lemma trans (k : Keeps ok h L h' L') (k' : Keeps ok h' L' h'' L'') : Keeps ok h L h'' L'' := by
  intro r hr hok
  obtain ⟨hr', hw⟩ := k r hr hok
  obtain ⟨hr'', hw'⟩ := k' r hr' hok
  refine ⟨hr'', fun x hx => ?_⟩
  rcases hw' x hx with hx | hx
  · exact hw x hx
  · exact .inr hx

lemma mono (k : Keeps ok h L h' L') (hok : ∀ r, L.Contains h.areas r → ok' r → ok r) : Keeps ok' h L h' L' :=
  fun r hr h => k r hr (hok r hr h)

end Keeps

/-- `old` are neighbouring regions of the area `a`, from `lo` to `hi`. -/
structure Part (h : BucketAlloc) (L : Layout) (a : UInt32 × UInt32) (xs old ys : List Region)
    (lo hi : ℕ) : Prop where
  area : a ∈ h.areas
  regions : L.regions a = xs ++ old ++ ys
  tiles : Tiles Region.start Region.len lo hi old
  ne : old ≠ []

lemma Part.regions_ne (hp : Part h L a xs old ys lo hi) : L.regions a ≠ [] := by simp [hp.regions, hp.ne]

lemma Part.setRegions_self (hp : Part h L a xs old ys lo hi) : L.setRegions a (xs ++ old ++ ys) = L := by
  unfold Layout.setRegions
  rw [← hp.regions, update_eq_self]

namespace Rep

variable {h h' : BucketAlloc} {L : Layout} {a : UInt32 × UInt32} {r q : Region}

section

variable (hr : Rep h L)

include hr

lemma bounds (ha : a ∈ h.areas) (hra : r ∈ L.regions a) :
    a.1.toNat + 8 ≤ r.start ∧ r.start + r.len ≤ a.1.toNat + a.2.toNat ∧ r.start + r.len ≤ 2 ^ 32 ∧
      r.size.toNat < 2 ^ 31 := by
  have hb := (hr.tiled a ha (ne_nil_of_mem hra)).bounds r hra
  have harea := hr.area a ha
  have hlen : r.len = 8 + r.size.toNat := rfl
  omega

lemma fits (hc : L.Contains h.areas r) :
    8 ≤ r.start ∧ r.start + r.len ≤ 2 ^ 32 ∧ 1 ≤ r.size.toNat ∧ r.size.toNat < 2 ^ 31 := by
  obtain ⟨a, ha, hra⟩ := hc
  have hb := hr.bounds ha hra
  exact ⟨by omega, hb.2.2.1, (hr.words r ⟨a, ha, hra⟩).1, hb.2.2.2⟩

lemma regions_apart (hrc : L.Contains h.areas r) (hqc : L.Contains h.areas q)
    (hne : r ≠ q) : r.start + r.len ≤ q.start ∨ q.start + q.len ≤ r.start := by
  obtain ⟨a, ha, hra⟩ := hrc
  obtain ⟨b, hb, hqb⟩ := hqc
  by_cases hab : a = b
  · subst hab
    exact (hr.tiled a ha (ne_nil_of_mem hra)).apart hra hqb hne
  · have hap := hr.apart a ha b hb (ne_nil_of_mem hra) (ne_nil_of_mem hqb) hab
    have hra := hr.bounds ha hra
    have hqb := hr.bounds hb hqb
    omega

lemma eq_of_addr (hrc : L.Contains h.areas r) (hqc : L.Contains h.areas q) (heq : r.addr = q.addr) : r = q := by
  by_contra hne
  have hap := hr.regions_apart hrc hqc hne
  have hs : r.start = q.start := congrArg UInt32.toNat heq
  have hr' : r.len = 8 + r.size.toNat := rfl
  have hq' : q.len = 8 + q.size.toNat := rfl
  omega

lemma clear_of_notMem (hc : L.Contains h.areas r) (hun : ∀ b, r.addr ∉ L.lists b) :
    L.Clear r.start (r.start + r.len) := by
  intro b p hp
  obtain ⟨q, hq, rfl, -, -⟩ := hr.lists_free b p hp
  have hne : q ≠ r := fun heq => hun b (heq ▸ hp)
  have hap := hr.regions_apart hq hc hne
  have hs : q.addr.toNat = q.start := rfl
  have hl : q.len = 8 + q.size.toNat := rfl
  omega

lemma clear_of_used (hc : L.Contains h.areas r) (hu : r.used = true) : L.Clear r.start (r.start + r.len) := by
  refine hr.clear_of_notMem hc fun b hb => ?_
  obtain ⟨q, hq, haddr, hfree, -⟩ := hr.lists_free b _ hb
  rw [hr.eq_of_addr hq hc haddr, hu] at hfree
  cases hfree

lemma bucket_of_listed (hc : L.Contains h.areas r) {b : ℕ} (hb : r.addr ∈ L.lists b) : r.size.toNat.log2 = b := by
  obtain ⟨q, hq, haddr, -, hlog⟩ := hr.lists_free b _ hb
  rwa [hr.eq_of_addr hq hc haddr] at hlog

end

section Exchange

variable {xs old new ys : List Region} {lo hi : ℕ}

variable (hr : Rep h L)

include hr

lemma part_single (hc : L.Contains h.areas r) : ∃ a xs ys, Part h L a xs [r] ys r.start (r.start + r.len) := by
  obtain ⟨a, ha, hra⟩ := hc
  obtain ⟨xs, ys, hL⟩ := append_of_mem hra
  have hlen := ((hr.tiled a ha (ne_nil_of_mem hra)).bounds r hra).2.1
  exact ⟨a, xs, ys, ha, by simpa using hL, ⟨rfl, hlen, rfl⟩, by simp⟩

section

variable (hp : Part h L a xs old ys lo hi)

include hp

lemma part_split : Tiles Region.start Region.len (a.1.toNat + 8) lo xs ∧
      Tiles Region.start Region.len hi (a.1.toNat + a.2.toNat) ys := by
  have htile := hr.tiled a hp.area hp.regions_ne
  rw [hp.regions] at htile
  exact htile.split hp.tiles hp.ne

lemma part_bounds :
    a.1.toNat + 8 ≤ lo ∧ hi ≤ a.1.toNat + a.2.toNat ∧ hi ≤ 2 ^ 32 := by
  obtain ⟨hx, hy⟩ := hr.part_split hp
  have hx := hx.le
  have hy := hy.le
  have harea := hr.area a hp.area
  omega

lemma part_outside (hc : L.Contains h.areas r)
    (hro : r ∉ old) : r.start + r.len ≤ lo ∨ hi ≤ r.start := by
  obtain ⟨hx, hy⟩ := hr.part_split hp
  obtain ⟨c, hc, hrc⟩ := hc
  by_cases hca : c = a
  · subst hca
    simp only [hp.regions, mem_append, hro, or_false] at hrc
    rcases hrc with hrx | hry
    · exact .inl (hx.bounds r hrx).2.2
    · exact .inr (hy.bounds r hry).1
  · have hap := hr.apart c hc a hp.area (ne_nil_of_mem hrc) hp.regions_ne hca
    have hb := hr.bounds hc hrc
    have hpb := hr.part_bounds hp
    omega

lemma header_outside {c : UInt32 × UInt32}
    (hc : c ∈ h.areas) (hcne : L.regions c ≠ []) : c.1.toNat + 8 ≤ lo ∨ hi ≤ c.1.toNat := by
  have hpb := hr.part_bounds hp
  by_cases hca : c = a
  · subst hca
    exact .inl hpb.1
  · have hap := hr.apart c hc a hp.area hcne hp.regions_ne hca
    omega

lemma contains_setRegions :
    (L.setRegions a (xs ++ new ++ ys)).Contains h.areas r ↔
      r ∈ new ∨ L.Contains h.areas r ∧ (r.start + r.len ≤ lo ∨ hi ≤ r.start) := by
  obtain ⟨hx, hy⟩ := hr.part_split hp
  have hregs := hp.regions
  constructor
  · rintro ⟨c, hc, hrc⟩
    by_cases hca : c = a
    · subst hca
      simp only [Layout.setRegions, update_self, mem_append] at hrc
      rcases hrc with (hrx | hrn) | hry
      · exact .inr ⟨⟨c, hc, by simp [hregs, hrx]⟩, .inl (hx.bounds r hrx).2.2⟩
      · exact .inl hrn
      · exact .inr ⟨⟨c, hc, by simp [hregs, hry]⟩, .inr (hy.bounds r hry).1⟩
    · simp only [Layout.setRegions, update_of_ne hca] at hrc
      have hap := hr.apart c hc a hp.area (ne_nil_of_mem hrc) hp.regions_ne hca
      have hb := hr.bounds hc hrc
      have hpb := hr.part_bounds hp
      exact .inr ⟨⟨c, hc, hrc⟩, by omega⟩
  · rintro (hrn | ⟨⟨c, hc, hrc⟩, hout⟩)
    · exact ⟨a, hp.area, by simp [Layout.setRegions, hrn]⟩
    by_cases hca : c = a
    · subst hca
      simp only [hregs, mem_append] at hrc
      rcases hrc with (hrx | hro) | hry
      · exact ⟨c, hc, by simp [Layout.setRegions, hrx]⟩
      · have hb := hp.tiles.bounds r hro
        omega
      · exact ⟨c, hc, by simp [Layout.setRegions, hry]⟩
    · exact ⟨c, hc, by simpa [Layout.setRegions, hca] using hrc⟩

end

omit hr in
lemma setRegions_ne (hp : Part h L a xs old ys lo hi) (hnew : new ≠ []) (c : UInt32 × UInt32) :
    (L.setRegions a (xs ++ new ++ ys)).regions c ≠ [] ↔ L.regions c ≠ [] := by
  by_cases hca : c = a
  · subst hca
    simp [Layout.setRegions, hnew, hp.regions_ne]
  · simp [Layout.setRegions, hca]

lemma exchange (hp : Part h L a xs old ys lo hi) (hnew : Tiles Region.start Region.len lo hi new) (hne : new ≠ [])
    (hclear : L.Clear lo hi) (hw : Within lo hi h h')
    (hwords : ∀ r ∈ new, 1 ≤ r.size.toNat ∧ load h'.mem r.addr = r.word) :
    Rep h' (L.setRegions a (xs ++ new ++ ys)) := by
  obtain ⟨hx, hy⟩ := hr.part_split hp
  have hregs := setRegions_ne hp hne
  -- a region that a bucket lists is not one of those written
  have hlisted : ∀ b, ∀ p ∈ L.lists b, ∃ r, L.Contains h.areas r ∧ r.addr = p ∧ r.used = false ∧
      r.size.toNat.log2 = b ∧ (r.start + r.len ≤ lo ∨ hi ≤ r.start) := by
    intro b p hpb
    obtain ⟨r, hrc, hrp, hfree, hlog⟩ := hr.lists_free b p hpb
    have hro : r ∉ old := by
      intro hro
      have hb := hp.tiles.bounds r hro
      have hs : r.start = p.toNat := congrArg UInt32.toNat hrp
      have hcl := hclear b p hpb
      omega
    exact ⟨r, hrc, hrp, hfree, hlog, hr.part_outside hp hrc hro⟩
  refine ⟨?_, ?_, ?_, ?_, ?_, ?_, hr.heads_nodup, ?_, ?_, hr.lists_nodup, ?_⟩
  · rw [hw.areas]
    exact hr.area
  · rw [hw.areas]
    intro c hc hcne
    by_cases hca : c = a
    · subst hca
      simpa [Layout.setRegions] using hx.replace hnew hy
    · simpa [Layout.setRegions, hca] using hr.tiled c hc ((hregs c).1 hcne)
  · rw [hw.areas]
    intro c hc d hd hcne hdne
    exact hr.apart c hc d hd ((hregs c).1 hcne) ((hregs d).1 hdne)
  · rw [hw.areas]
    intro c hc hcne
    rw [hregs] at hcne
    have hout := hr.header_outside hp hc hcne
    have hb := (hr.tiled c hc hcne).le
    have hca := hr.area c hc
    have h4 : (c.1 + 4).toNat = c.1.toNat + 4 := toNat_add (by show c.1.toNat + 4 < _; omega)
    rw [hw.mem.load (by omega) (by omega)]
    exact hr.ends c hc hcne
  · intro r hrc
    rw [hw.areas, hr.contains_setRegions hp] at hrc
    rcases hrc with hrn | ⟨hrc, hout⟩
    · exact hwords r hrn
    · have hf := hr.fits hrc
      have hs : r.addr.toNat = r.start := rfl
      have hl : r.len = 8 + r.size.toNat := rfl
      rw [hw.mem.load (by omega) (by omega)]
      exact hr.words r hrc
  · rw [hw.memoryLinkedList]
    refine hr.heads.congr fun p hpm => ?_
    obtain ⟨c, hc, rfl, hcne⟩ := hr.heads_area p hpm
    have hout := hr.header_outside hp hc hcne
    have hb := (hr.tiled c hc hcne).le
    have hca := hr.area c hc
    rw [hw.mem.load (by omega) (by omega)]
  · rw [hw.areas]
    intro p hpm
    obtain ⟨c, hc, hcp, hcne⟩ := hr.heads_area p hpm
    exact ⟨c, hc, hcp, (hregs c).2 hcne⟩
  · rw [hw.buckets]
    intro b
    refine (hr.lists b).congr fun p hpm => ?_
    obtain ⟨r, hrc, rfl, -, -, hout⟩ := hlisted b p hpm
    have hf := hr.fits hrc
    have hs : r.addr.toNat = r.start := rfl
    have hl : r.len = 8 + r.size.toNat := rfl
    have h4 : (r.addr + 4).toNat = r.start + 4 := toNat_add (by show r.addr.toNat + 4 < _; omega)
    rw [hw.mem.load (by omega) (by omega)]
  · rw [hw.areas]
    intro b p hpm
    obtain ⟨r, hrc, hrp, hfree, hlog, hout⟩ := hlisted b p hpm
    exact ⟨r, (hr.contains_setRegions hp).2 (.inr ⟨hrc, hout⟩), hrp, hfree, hlog⟩

lemma exchange_keeps (hp : Part h L a xs old ys lo hi) (hw : Within lo hi h h')
    {ok : Region → Prop} (hok : ∀ r ∈ old, ¬ ok r) :
    Keeps ok h L h' (L.setRegions a (xs ++ new ++ ys)) := by
  intro r hrc hrok
  have hout := hr.part_outside hp hrc fun hro => hok r hro hrok
  refine ⟨?_, fun x hx => ?_⟩
  · rw [hw.areas, hr.contains_setRegions hp]
    exact .inr ⟨hrc, hout⟩
  · rcases hw.written x hx with hx | hx
    · exact .inl hx
    · refine .inr fun hrx => ?_
      unfold Region.Has at hrx
      omega

lemma exchange_complete (hp : Part h L a xs old ys lo hi) (hne : new ≠ [])
    {but but' : UInt32 → Prop} (hnew : ∀ q ∈ new, q.used = false → but' q.addr)
    (hbut : ∀ q, L.Contains h.areas q → q.start + q.len ≤ lo ∨ hi ≤ q.start → but q.addr → but' q.addr)
    (hcomplete : Complete h.areas L but) :
    Complete h.areas (L.setRegions a (xs ++ new ++ ys)) but' := by
  refine ⟨hcomplete.ends, fun c hc => (setRegions_ne hp hne c).2 (hcomplete.regions c hc),
    hcomplete.heads, fun q hq hfree hnot => ?_⟩
  rcases (hr.contains_setRegions hp).1 hq with hqn | ⟨hqc, hout⟩
  · exact absurd (hnew q hqn hfree) hnot
  · exact hcomplete.listed q hqc hfree (mt (hbut q hqc hout) hnot)

lemma exchange_one (hc : L.Contains h.areas r) (new : List Region)
    (hnew : Tiles Region.start Region.len r.start (r.start + r.len) new) (hne : new ≠ [])
    (hclear : L.Clear r.start (r.start + r.len)) (hw : Within r.start (r.start + r.len) h h')
    (hwords : ∀ q ∈ new, 1 ≤ q.size.toNat ∧ load h'.mem q.addr = q.word) :
    ∃ L', Rep h' L' ∧ Keeps (·.addr ≠ r.addr) h L h' L' ∧ L'.lists = L.lists ∧ (∀ q ∈ new, L'.Contains h'.areas q) ∧
      (Complete h.areas L (· = r.addr) → Complete h'.areas L' fun p => ∃ q ∈ new, q.used = false ∧ q.addr = p) := by
  obtain ⟨a, xs, ys, hp⟩ := hr.part_single hc
  refine ⟨_, hr.exchange hp hnew hne hclear hw hwords, hr.exchange_keeps hp hw (by simp), rfl,
    fun q hq => ?_, fun hcomplete => ?_⟩
  · rw [hw.areas]
    exact (hr.contains_setRegions hp).2 (.inl hq)
  rw [hw.areas]
  refine hr.exchange_complete hp hne (fun q hq hfree => ⟨q, hq, hfree, rfl⟩) (fun q hq hout heq => ?_) hcomplete
  -- the region written anew is not outside itself
  have hl : r.len = 8 + r.size.toNat := rfl
  rw [hr.eq_of_addr hq hc heq] at hout
  omega

lemma touch (hc : L.Contains h.areas r)
    (hclear : L.Clear r.start (r.start + r.len)) (hw : Within r.start (r.start + r.len) h h')
    (hword : load h'.mem r.addr = r.word) : Rep h' L ∧ Keeps (·.addr ≠ r.addr) h L h' L := by
  obtain ⟨a, xs, ys, hp⟩ := hr.part_single hc
  have hsize := (hr.words r hc).1
  have hrep := hr.exchange hp hp.tiles hp.ne hclear hw (by simpa using ⟨hsize, hword⟩)
  have hkeeps : Keeps (·.addr ≠ r.addr) h L h' (L.setRegions a (xs ++ [r] ++ ys)) :=
    hr.exchange_keeps hp hw (by simp)
  rw [hp.setRegions_self] at hrep hkeeps
  exact ⟨hrep, hkeeps⟩

end Exchange

section Lists

variable {b : ℕ} {p : UInt32} {ps : List UInt32}

variable (hr : Rep h L)

include hr

lemma first (hb : h.buckets b ≠ 0) :
    ∃ r ps, L.lists b = r.addr :: ps ∧ h.buckets b = r.addr ∧ L.Contains h.areas r ∧
      r.used = false ∧ r.size.toNat.log2 = b := by
  have hc := hr.lists b
  rw [link_of_ne hb] at hc
  cases hL : L.lists b with
  | nil =>
    rw [hL] at hc
    cases hc
  | cons p ps =>
    rw [hL] at hc
    obtain ⟨r, hrc, rfl, hfree, hlog⟩ := hr.lists_free b p (by simp [hL])
    exact ⟨r, ps, rfl, Option.some.inj hc.1, hrc, hfree, hlog⟩

lemma list_eq_nil (hb : h.buckets b = 0) : L.lists b = [] := by
  have hhead := (hr.lists b).head?
  rw [hb] at hhead
  exact head?_eq_none_iff.1 hhead.symm

lemma bucket_eq_zero (hb : 31 ≤ b) : h.buckets b = 0 := by
  by_contra hne
  obtain ⟨r, ps, -, -, hc, -, hlog⟩ := hr.first hne
  have hf := hr.fits hc
  have hlt : r.size.toNat.log2 < 31 := (Nat.log2_lt (by omega)).2 hf.2.2.2
  omega

lemma relist (ps : List UInt32) (hbs : ∀ c, c ≠ b → h'.buckets c = h.buckets c)
    (hmem : h'.mem = h.mem) (hareas : h'.areas = h.areas)
    (hlist : h'.memoryLinkedList = h.memoryLinkedList)
    (hc : Links.Chain (fun p => link (load h.mem (p + 4))) (link (h'.buckets b)) ps)
    (hnd : ps.Nodup) (hfree : ∀ p ∈ ps, ∃ r, L.Contains h.areas r ∧ r.addr = p ∧ r.used = false ∧
      r.size.toNat.log2 = b) : Rep h' (L.setList b ps) := by
  have hcases : ∀ {P : ℕ → List UInt32 → Prop}, P b ps → (∀ c, c ≠ b → P c (L.lists c)) →
      ∀ c, P c ((L.setList b ps).lists c) := by
    intro P hPb hPc c
    by_cases hcb : c = b
    · subst hcb
      simpa [Layout.setList] using hPb
    · simpa [Layout.setList, hcb] using hPc c hcb
  refine ⟨?_, ?_, ?_, ?_, ?_, ?_, hr.heads_nodup, ?_, ?_, ?_, ?_⟩
  · exact hareas ▸ hr.area
  · exact hareas ▸ hr.tiled
  · exact hareas ▸ hr.apart
  · exact hmem ▸ hareas ▸ hr.ends
  · exact hmem ▸ hareas ▸ hr.words
  · exact hmem ▸ hlist ▸ hr.heads
  · exact hareas ▸ hr.heads_area
  · rw [hmem]
    refine hcases hc fun c hcb => ?_
    rw [hbs c hcb]
    exact hr.lists c
  · exact hcases hnd fun c _ => hr.lists_nodup c
  · rw [hareas]
    exact hcases (P := fun c qs => ∀ p ∈ qs, ∃ r, L.Contains h.areas r ∧ r.addr = p ∧
      r.used = false ∧ r.size.toNat.log2 = c) hfree fun c _ => hr.lists_free c

lemma unlink (hL : L.lists b = p :: ps) : Rep (h.setBucket b (load h.mem (p + 4))) (L.setList b ps) := by
  have hc := hr.lists b
  have hnd := hr.lists_nodup b
  rw [hL] at hc hnd
  refine hr.relist _ (fun c hcb => by simp [setBucket, hcb]) rfl rfl rfl ?_
    (nodup_cons.1 hnd).2 fun q hq => hr.lists_free b q (by simp [hL, hq])
  simpa [setBucket] using hc.2

lemma clear_of_unlink (hc : L.Contains h.areas r)
    (hL : L.lists b = r.addr :: ps) : (L.setList b ps).Clear r.start (r.start + r.len) := by
  refine (hr.unlink hL).clear_of_notMem hc fun c hrc => ?_
  have hnd := hr.lists_nodup b
  rw [hL] at hnd
  by_cases hcb : c = b
  · subst hcb
    simp only [Layout.setList, update_self] at hrc
    exact (nodup_cons.1 hnd).1 hrc
  · simp only [Layout.setList, update_of_ne hcb] at hrc
    have h1 := hr.bucket_of_listed hc hrc
    have h2 := hr.bucket_of_listed (b := b) hc (by simp [hL])
    exact hcb (h1.symm.trans h2)

lemma link (hc : L.Contains h.areas r) (hfree : r.used = false)
    (hclear : L.Clear r.start (r.start + r.len)) (hnext : load h.mem (r.addr + 4) = h.buckets r.size.toNat.log2) :
    Rep (h.setBucket r.size.toNat.log2 r.addr)
      (L.setList r.size.toNat.log2 (r.addr :: L.lists r.size.toNat.log2)) := by
  have hne : r.addr ≠ 0 := by
    intro h0
    have hf := (hr.fits hc).1
    have hs : r.start = r.addr.toNat := rfl
    rw [h0] at hs
    simp [hs] at hf
  have hun : r.addr ∉ L.lists r.size.toNat.log2 := by
    intro hp
    have hcl := hclear _ _ hp
    have hs : r.addr.toNat = r.start := rfl
    have hl : r.len = 8 + r.size.toNat := rfl
    omega
  refine hr.relist _ (fun c hcb => by simp [setBucket, hcb]) rfl rfl rfl ?_
    (nodup_cons.2 ⟨hun, hr.lists_nodup _⟩) fun q hq => ?_
  · simp only [setBucket, update_self, Links.chain_cons, hnext]
    exact ⟨link_of_ne hne, hr.lists _⟩
  · rcases mem_cons.1 hq with rfl | hq
    · exact ⟨r, hc, rfl, hfree, rfl⟩
    · exact hr.lists_free _ q hq

lemma link_complete (hc : L.Contains h.areas r) (hcomplete : Complete h.areas L (· = r.addr)) :
    Complete h.areas (L.setList r.size.toNat.log2 (r.addr :: L.lists r.size.toNat.log2)) fun _ => False := by
  refine ⟨hcomplete.ends, hcomplete.regions, hcomplete.heads, fun q hq hfree _ => ?_⟩
  by_cases heq : q.addr = r.addr
  · rw [hr.eq_of_addr hq hc heq]
    simp [Layout.setList]
  · have hlisted := hcomplete.listed q hq hfree heq
    by_cases hb : q.size.toNat.log2 = r.size.toNat.log2
    · rw [hb] at hlisted
      simp [Layout.setList, hb, hlisted]
    · simpa [Layout.setList, hb] using hlisted

lemma clear (hmem : h'.mem = h.mem) (hareas : h'.areas = h.areas)
    (hlist : h'.memoryLinkedList = h.memoryLinkedList) (hb : ∀ b, h'.buckets b = 0) :
    Rep h' { L with lists := fun _ => [] } := by
  refine ⟨hareas ▸ hr.area, hareas ▸ hr.tiled, hareas ▸ hr.apart, hmem ▸ hareas ▸ hr.ends,
    hmem ▸ hareas ▸ hr.words, hmem ▸ hlist ▸ hr.heads, hr.heads_nodup, hareas ▸ hr.heads_area,
    fun b => ?_, fun _ => .nil, fun _ _ hp => by simp at hp⟩
  simp [hb b, OlliOS.link]

end Lists

section Areas

lemma register (hr : Rep h L) (rs : List Region) (harea : a.2.toNat < 2 ^ 31 ∧ a.1.toNat + a.2.toNat ≤ 2 ^ 32)
    (hsep : rs ≠ [] → ∀ c ∈ h.areas, L.regions c ≠ [] →
      c.1.toNat + c.2.toNat ≤ a.1.toNat ∨ a.1.toNat + a.2.toNat ≤ c.1.toNat)
    (hold : a ∈ h.areas → L.regions a = rs) (hareas : h'.areas = a :: h.areas)
    (hbuckets : h'.buckets = h.buckets) (hlist : h'.memoryLinkedList = h.memoryLinkedList)
    (hmem : ∀ c ∈ h.areas, L.regions c ≠ [] → ∀ x : UInt32, c.1.toNat ≤ x.toNat →
      x.toNat < c.1.toNat + c.2.toNat → h'.mem x = h.mem x)
    (htiles : rs ≠ [] → Tiles Region.start Region.len (a.1.toNat + 8) (a.1.toNat + a.2.toNat) rs)
    (hend : rs ≠ [] → load h'.mem (a.1 + 4) = a.1 + a.2)
    (hwords : ∀ r ∈ rs, 1 ≤ r.size.toNat ∧ load h'.mem r.addr = r.word) :
    Rep h' (L.setRegions a rs) ∧ ∀ r, L.Contains h.areas r → (L.setRegions a rs).Contains h'.areas r := by
  have hregs : ∀ c ∈ h.areas, (L.setRegions a rs).regions c = L.regions c := by
    intro c hc
    by_cases hca : c = a
    · subst hca
      simpa [Layout.setRegions] using (hold hc).symm
    · simp [Layout.setRegions, hca]
  have hself : (L.setRegions a rs).regions a = rs := by simp [Layout.setRegions]
  have hcont : ∀ r, L.Contains h.areas r → (L.setRegions a rs).Contains h'.areas r := by
    rintro r ⟨c, hc, hrc⟩
    exact ⟨c, by simp [hareas, hc], (hregs c hc).symm ▸ hrc⟩
  -- the headers of the areas and regions there are already stay
  have hheader : ∀ c ∈ h.areas, L.regions c ≠ [] → load h'.mem c.1 = load h.mem c.1 ∧
      load h'.mem (c.1 + 4) = load h.mem (c.1 + 4) := by
    intro c hc hcne
    have hca := hr.area c hc
    have hb := (hr.tiled c hc hcne).le
    have h4 : (c.1 + 4).toNat = c.1.toNat + 4 := toNat_add (by show c.1.toNat + 4 < _; omega)
    have hc := hmem c hc hcne
    exact ⟨load_congr (by omega) fun x hx hx' => hc x (by omega) (by omega),
      load_congr (by omega) fun x hx hx' => hc x (by omega) (by omega)⟩
  have hregion : ∀ r, L.Contains h.areas r → load h'.mem r.addr = load h.mem r.addr ∧
      load h'.mem (r.addr + 4) = load h.mem (r.addr + 4) := by
    rintro r ⟨c, hc, hrc⟩
    have hb := hr.bounds hc hrc
    have hst : r.addr.toNat = r.start := rfl
    have hl : r.len = 8 + r.size.toNat := rfl
    have h4 : (r.addr + 4).toNat = r.start + 4 := toNat_add (by show r.addr.toNat + 4 < _; omega)
    have hc := hmem c hc (ne_nil_of_mem hrc)
    exact ⟨load_congr (by omega) fun x hx hx' => hc x (by omega) (by omega),
      load_congr (by omega) fun x hx hx' => hc x (by omega) (by omega)⟩
  refine ⟨⟨?_, ?_, ?_, ?_, ?_, ?_, hr.heads_nodup, ?_, ?_, hr.lists_nodup, ?_⟩, hcont⟩
  · rw [hareas, forall_mem_cons]
    exact ⟨harea, hr.area⟩
  · rw [hareas, forall_mem_cons, hself]
    refine ⟨htiles, fun c hc hcne => ?_⟩
    rw [hregs c hc] at hcne ⊢
    exact hr.tiled c hc hcne
  · rw [hareas]
    intro c hc d hd hcne hdne hcd
    rw [mem_cons] at hc hd
    rcases hc with rfl | hc <;> rcases hd with rfl | hd
    · exact absurd rfl hcd
    · rw [hself] at hcne
      rw [hregs d hd] at hdne
      exact (hsep hcne d hd hdne).symm
    · rw [hself] at hdne
      rw [hregs c hc] at hcne
      exact hsep hdne c hc hcne
    · rw [hregs c hc] at hcne
      rw [hregs d hd] at hdne
      exact hr.apart c hc d hd hcne hdne hcd
  · rw [hareas, forall_mem_cons, hself]
    refine ⟨hend, fun c hc hcne => ?_⟩
    rw [hregs c hc] at hcne
    rw [(hheader c hc hcne).2]
    exact hr.ends c hc hcne
  · rintro r ⟨c, hc, hrc⟩
    rw [hareas, mem_cons] at hc
    rcases hc with rfl | hc
    · exact hwords r (hself ▸ hrc)
    · rw [hregs c hc] at hrc
      rw [(hregion r ⟨c, hc, hrc⟩).1]
      exact hr.words r ⟨c, hc, hrc⟩
  · rw [hlist]
    refine hr.heads.congr fun p hp => ?_
    obtain ⟨c, hc, rfl, hcne⟩ := hr.heads_area p hp
    rw [(hheader c hc hcne).1]
  · intro p hp
    obtain ⟨c, hc, hcp, hcne⟩ := hr.heads_area p hp
    exact ⟨c, by simp [hareas, hc], hcp, by rwa [hregs c hc]⟩
  · rw [hbuckets]
    intro b
    refine (hr.lists b).congr fun p hp => ?_
    obtain ⟨r, hrc, rfl, -, -⟩ := hr.lists_free b p hp
    rw [(hregion r hrc).2]
  · intro b p hp
    obtain ⟨r, hrc, hrp, hfree, hlog⟩ := hr.lists_free b p hp
    exact ⟨r, hcont r hrc, hrp, hfree, hlog⟩

lemma pushHead (hr : Rep h L) (ha : a ∈ h.areas) (hane : L.regions a ≠ [])
    (hnot : a.1 ∉ L.heads) (hnext : load h.mem a.1 = h.memoryLinkedList) :
    Rep { h with memoryLinkedList := a.1 } { L with heads := if a.1 = 0 then [] else a.1 :: L.heads } := by
  have hmem : ∀ p ∈ (if a.1 = 0 then [] else a.1 :: L.heads), p = a.1 ∨ p ∈ L.heads := by
    intro p hp
    split_ifs at hp
    · simp at hp
    · simpa using hp
  refine ⟨hr.area, hr.tiled, hr.apart, hr.ends, hr.words, ?_, ?_, ?_, hr.lists, hr.lists_nodup, hr.lists_free⟩
  · split_ifs with h0
    · simp [h0, OlliOS.link]
    · refine ⟨link_of_ne h0, ?_⟩
      show Links.Chain _ (OlliOS.link (load h.mem a.1)) _
      rw [hnext]
      exact hr.heads
  · split_ifs
    · exact .nil
    · exact nodup_cons.2 ⟨hnot, hr.heads_nodup⟩
  · intro p hp
    rcases hmem p hp with rfl | hp
    · exact ⟨a, ha, rfl, hane⟩
    · exact hr.heads_area p hp

end Areas

end Rep

end OlliOS
