import OlliOS.Elf
import OlliOS.Proofs.PageBytes

/-!
# Loading a program

The pages of the segments loaded so far hold the bytes of the file and zeros (`Holding`).
-/

namespace OlliOS

open Words List UInt32

/-- The pages `N` are private and have the given bytes; they are pages of the user if the slot was free for
one in `s0`. The other pages are mapped as in `s0`. -/
structure Holding (U : ℕ → Prop) (s0 s : Machine) (N : ℕ → Prop) (content : ℕ → UInt8) : Prop where
  space : AddressSpace U s
  slots : ∀ i, s.SlotUser i ↔ s0.SlotUser i
  held : ∀ q, N q → (∃ f, Private U s q f) ∧ (UserPage s s.cr3 q ↔ s0.SlotUser (q / 1024))
  bytes : ∀ y, N (y / 0x1000) → s.readByte y = some (content y)
  rest : ∀ q < window, ¬ N q → s.mapping q = s0.mapping q

namespace Holding

variable {U N : ℕ → Prop} {s0 s : Machine} {content : ℕ → UInt8}

section

variable (h : Holding U s0 s N content)

include h

lemma congr {N' : ℕ → Prop} (hN : ∀ q, N' q ↔ N q) : Holding U s0 s N' content :=
  ⟨h.space, h.slots, fun q hq => h.held q ((hN q).1 hq), fun y hy => h.bytes y ((hN _).1 hy),
    fun q hq hno => h.rest q hq (mt (hN q).2 hno)⟩

lemma bind_held {x : ℕ} (hx : N (x / 0x1000)) : s.bindVirtualPageAt x .user = some s := by
  obtain ⟨⟨f, hf⟩, -⟩ := h.held _ hx
  exact h.space.bindVirtualPageAt_of_some hf.slot hf.frame .user

lemma bind_new {p : ℕ} (hp : U (p / 1024)) (hno : ¬ N p) (hnone : s0.mapping p = none)
    (hzero : ∀ y, y / 0x1000 = p → content y = 0) (hcount : 2 ≤ s.bitmap.freeCount) :
    ∃ s', s.bindVirtualPageAt (p * 0x1000) .user = some s' ∧
      Holding U s0 s' (fun q => N q ∨ q = p) content ∧
      s.bitmap.freeCount ≤ s'.bitmap.freeCount + 2 := by
  have hin : ∀ i < 0x1000, (p * 0x1000 + i) / 0x1000 = p := fun i hi => by omega
  have hpage : p * 0x1000 / 0x1000 = p := Nat.mul_div_cancel p (by decide)
  have hnone' := (h.rest p (h.space.lt_window hp) hno).trans hnone
  rcases h.space.bindVirtualPageAt_cases (by rwa [hpage])
    (by rwa [hpage]) with ⟨-, hlt⟩ | ⟨s1, hs1, henters⟩
  · omega
  rw [hpage] at henters
  obtain ⟨f, -, hf⟩ := henters.fresh
  obtain ⟨s', hs', hsame, hread, hold⟩ := Machine.writeBytes_spec
    henters.space (fun _ => 0) 0x1000 fun i hi => ⟨f, (hin i hi).symm ▸ hf⟩
  have hslots : ∀ i, s'.SlotUser i ↔ s.SlotUser i := fun i =>
    (slotUser_congr hsame.cr3 (congrFun hsame.dir i)).trans (henters.slots i)
  have huser : ∀ q < window, UserPage s' s'.cr3 q ↔ UserPage s1 s1.cr3 q := fun q hq =>
    userPage_congr (hsame.mapping q hq)
  have hlt : ∀ {q}, U (q / 1024) → q < window := h.space.lt_window
  refine ⟨s', by rw [hs1, Machine.memset, hs'], ⟨hsame.addressSpace henters.space,
    fun i => (hslots i).trans (h.slots i), ?_, ?_, fun q hq hqN => ?_⟩, ?_⟩
  · rintro q (hq | rfl)
    · have hne : q ≠ p := fun heq => hno (heq ▸ hq)
      obtain ⟨⟨g, hg⟩, hu⟩ := h.held q hq
      refine ⟨⟨g, hsame.of_private henters.space (henters.of_private h.space hne hg).1⟩, ?_⟩
      rw [huser q (hlt hg.slot), userPage_congr (henters.only.others q (hlt hg.slot) hne), hu]
    · refine ⟨⟨f, hsame.of_private henters.space hf⟩, ?_⟩
      rw [huser q (hlt hp), henters.user, h.slots]
  · rintro y (hy | hy)
    · obtain ⟨⟨g, hg⟩, -⟩ := h.held _ hy
      have hne : y / 0x1000 ≠ p := fun heq => hno (heq ▸ hy)
      rw [hold y hg.slot (by omega), henters.readByte_eq h.space hne hg rfl, h.bytes y hy]
    · obtain ⟨i, hi, rfl⟩ : ∃ i < 0x1000, p * 0x1000 + i = y :=
        ⟨y - p * 0x1000, by omega, by omega⟩
      rw [hread i hi, hzero _ hy]
  · rw [not_or] at hqN
    rw [hsame.mapping q hq, henters.only.others q hq hqN.2, h.rest q hq hqN.1]
  · rw [hsame.bitmap]
    exact henters.count

lemma copy {x n : ℕ} (source : ℕ → UInt8) (hN : ∀ i < n, N ((x + i) / 0x1000)) :
    ∃ s', s.memcpy x source n = some s' ∧
      Holding U s0 s' N (fun y => if x ≤ y ∧ y < x + n then source (y - x) else content y) ∧
      s'.bitmap = s.bitmap := by
  obtain ⟨s', hs', hsame, hread, hold⟩ := Machine.writeBytes_spec h.space source n
    fun i hi => (h.held _ (hN i hi)).1
  refine ⟨s', hs', ⟨hsame.addressSpace h.space, fun i => ?_, fun q hq => ?_, fun y hy => ?_,
    fun q hq hno => (hsame.mapping q hq).trans (h.rest q hq hno)⟩, hsame.bitmap⟩
  · exact (slotUser_congr hsame.cr3 (congrFun hsame.dir i)).trans (h.slots i)
  · obtain ⟨⟨g, hg⟩, hu⟩ := h.held q hq
    refine ⟨⟨g, hsame.of_private h.space hg⟩, ?_⟩
    rw [userPage_congr (hsame.mapping q (h.space.lt_window hg.slot)), hu]
  · obtain ⟨⟨g, hg⟩, -⟩ := h.held _ hy
    by_cases hin : x ≤ y ∧ y < x + n
    · rw [if_pos hin]
      have hy' := hread (y - x) (by omega)
      rwa [Nat.add_sub_cancel' hin.1] at hy'
    · rw [if_neg hin, hold y hg.slot (by omega), h.bytes y hy]

end

lemma bind_pages (h : Holding U s0 s N content) (address : ℕ → ℕ) : ∀ n : ℕ,
    (∀ i < n, N (address i / 0x1000) ∨ address i % 0x1000 = 0 ∧ U (address i / 0x1000 / 1024) ∧
      s0.mapping (address i / 0x1000) = none ∧
      ∀ y, y / 0x1000 = address i / 0x1000 → content y = 0) →
    2 * n ≤ s.bitmap.freeCount →
    ∃ s', (List.range' 0 n).foldlM (fun s i => s.bindVirtualPageAt (address i) .user) s = some s' ∧
      Holding U s0 s' (fun q => N q ∨ ∃ i < n, q = address i / 0x1000) content ∧
      s.bitmap.freeCount ≤ s'.bitmap.freeCount + 2 * n
  | 0, _, _ => ⟨s, rfl, h.congr fun q => or_iff_left fun ⟨i, hi, _⟩ => by omega, by omega⟩
  | n + 1, hpages, hcount => by
    obtain ⟨s1, hs1, h1, hcount1⟩ := bind_pages h address n
      (fun i hi => hpages i (by omega)) (by omega)
    have hsucc : ∀ q, (N q ∨ ∃ i < n + 1, q = address i / 0x1000) ↔
        (N q ∨ ∃ i < n, q = address i / 0x1000) ∨ q = address n / 0x1000 := by
      intro q
      rw [or_assoc]
      refine or_congr_right ⟨?_, ?_⟩
      · rintro ⟨i, hi, rfl⟩
        rcases Nat.lt_succ_iff_lt_or_eq.1 hi with hi | rfl
        · exact .inl ⟨i, hi, rfl⟩
        · exact .inr rfl
      · rintro (⟨i, hi, rfl⟩ | rfl)
        · exact ⟨i, by omega, rfl⟩
        · exact ⟨n, by omega, rfl⟩
    rw [range'_concat, foldlM_append, hs1, Nat.zero_add, Nat.one_mul]
    by_cases hheld : N (address n / 0x1000) ∨ ∃ i < n, address n / 0x1000 = address i / 0x1000
    · refine ⟨s1, ?_, h1.congr fun q => (hsucc q).trans (or_iff_left_of_imp ?_), by omega⟩
      · simp [h1.bind_held hheld]
      · rintro rfl
        exact hheld
    · obtain ⟨haligned, hslot, hnone, hzero⟩ :=
        (hpages n (by omega)).resolve_left fun hno => hheld (.inl hno)
      obtain ⟨s2, hs2, h2, hcount2⟩ := h1.bind_new hslot hheld hnone hzero (by omega)
      refine ⟨s2, ?_, h2.congr hsucc, by omega⟩
      rw [Nat.div_mul_cancel (Nat.dvd_of_mod_eq_zero haligned)] at hs2
      simpa using hs2

end Holding

namespace Elf

variable {m : Memory} {header : UInt32} {U : ℕ → Prop} {s0 s : Machine} {h : ProgramHeader} {f : ℕ}

/-- The pages that segments have bytes on. -/
def Touched (segments : List ProgramHeader) (q : ℕ) : Prop :=
  ∃ g ∈ segments, ∃ y, InRange g y ∧ y / 0x1000 = q

def imageByte (m : Memory) (header : UInt32) : List ProgramHeader → ℕ → UInt8
  | [], _ => 0
  | h :: segments, y =>
    if h.virtualAddress.toNat ≤ y ∧ y < h.virtualAddress.toNat + h.fileSize.toNat then
      m (header + h.offset + ofNat (y - h.virtualAddress.toNat))
    else imageByte m header segments y

lemma imageByte_eq_zero {y : ℕ} : ∀ {segments : List ProgramHeader},
    (∀ h ∈ segments, ¬ (h.virtualAddress.toNat ≤ y ∧
      y < h.virtualAddress.toNat + h.fileSize.toNat)) → imageByte m header segments y = 0
  | [], _ => rfl
  | h :: segments, hy => by
    rw [imageByte, if_neg (hy h (by simp)), imageByte_eq_zero fun g hg => hy g (by simp [hg])]

lemma pageCount_toNat (h : ProgramHeader) :
    (pageCount h).toNat = (h.memorySize.toNat + 0xfff) / 0x1000 := by
  have hlt := h.memorySize.toNat_lt
  have hdiv : (h.memorySize / 4096).toNat = h.memorySize.toNat / 0x1000 := UInt32.toNat_div _ _
  have hmod : (h.memorySize % 4096).toNat = h.memorySize.toNat % 0x1000 := UInt32.toNat_mod _ _
  have hzero : (0 : UInt32).toNat = 0 := rfl
  unfold pageCount
  split_ifs with hpos
  · rw [gt_iff_lt, lt_iff_toNat_lt, hmod, hzero] at hpos
    rw [UInt32.toNat_add, hdiv]
    change (_ + 1) % 2 ^ 32 = _
    omega
  · rw [gt_iff_lt, lt_iff_toNat_lt, hmod, hzero] at hpos
    omega

lemma address_toNat {i : ℕ} (huser : h.virtualAddress.toNat + h.memorySize.toNat ≤ 0xC0000000)
    (hi : i < (pageCount h).toNat) :
    (h.virtualAddress + ofNat i * 4096).toNat = h.virtualAddress.toNat + i * 0x1000 ∧
      InRange h (h.virtualAddress.toNat + i * 0x1000) := by
  rw [pageCount_toNat] at hi
  have hmul : (ofNat i * 4096).toNat = i * 0x1000 := by
    rw [UInt32.toNat_mul, UInt32.toNat_ofNat']
    change i % 2 ^ 32 * 4096 % 2 ^ 32 = _
    omega
  refine ⟨?_, ?_, ?_⟩
  · rw [toNat_add (by omega), hmul]
  · omega
  · omega

lemma loadSegment_spec {before : List ProgramHeader}
    (hs : Holding U s0 s (Touched before) (imageByte m header before))
    (hload : h.type = ProgramHeader.load)
    (huser : h.virtualAddress.toNat + h.memorySize.toNat ≤ 0xC0000000)
    (hfits : ∀ g ∈ h :: before, g.fileSize.toNat ≤ g.memorySize.toNat)
    (hU : ∀ x, InRange h x → U (x / 0x1000 / 1024))
    (hnone : ∀ x, InRange h x → s0.mapping (x / 0x1000) = none)
    (hpages : h.virtualAddress.toNat % 0x1000 = 0 ∨ ∀ x, InRange h x → Touched before (x / 0x1000))
    (hcount : 2 * (pageCount h).toNat ≤ s.bitmap.freeCount) :
    ∃ s', loadSegment m header s h = some s' ∧
      Holding U s0 s' (Touched (h :: before)) (imageByte m header (h :: before)) ∧
      s.bitmap.freeCount ≤ s'.bitmap.freeCount + 2 * (pageCount h).toNat := by
  have hfile := hfits h (by simp)
  have hcleared : ∀ i < (pageCount h).toNat,
      Touched before ((h.virtualAddress + ofNat i * 4096).toNat / 0x1000) ∨
      (h.virtualAddress + ofNat i * 4096).toNat % 0x1000 = 0 ∧
      U ((h.virtualAddress + ofNat i * 4096).toNat / 0x1000 / 1024) ∧
      s0.mapping ((h.virtualAddress + ofNat i * 4096).toNat / 0x1000) = none ∧
      ∀ y, y / 0x1000 = (h.virtualAddress + ofNat i * 4096).toNat / 0x1000 →
        imageByte m header before y = 0 := by
    intro i hi
    obtain ⟨haddr, hin⟩ := address_toNat huser hi
    rw [haddr]
    by_cases htouched : Touched before ((h.virtualAddress.toNat + i * 0x1000) / 0x1000)
    · exact .inl htouched
    · have haligned := hpages.resolve_right fun hno => htouched (hno _ hin)
      refine .inr ⟨by omega, hU _ hin, hnone _ hin, fun y hy => imageByte_eq_zero fun g hg hgy => ?_⟩
      have hgfits := hfits g (by simp [hg])
      exact htouched ⟨g, hg, y, ⟨hgy.1, by omega⟩, hy⟩
  obtain ⟨s1, hs1, h1, hcount1⟩ := hs.bind_pages
    (fun i => (h.virtualAddress + ofNat i * 4096).toNat) (pageCount h).toNat hcleared hcount
  have htouched : ∀ q, Touched (h :: before) q ↔ (Touched before q ∨ ∃ i < (pageCount h).toNat,
      q = (h.virtualAddress + ofNat i * 4096).toNat / 0x1000) := by
    intro q
    constructor
    · rintro ⟨g, hg, y, hy, rfl⟩
      rcases mem_cons.1 hg with rfl | hg
      · rcases hpages with haligned | hheld
        · obtain ⟨hlo, hhi⟩ := hy
          have hi : (y - g.virtualAddress.toNat) / 0x1000 < (pageCount g).toNat := by
            rw [pageCount_toNat]
            omega
          refine .inr ⟨_, hi, ?_⟩
          rw [(address_toNat huser hi).1]
          omega
        · exact .inl (hheld y hy)
      · exact .inl ⟨g, hg, y, hy, rfl⟩
    · rintro (⟨g, hg, hy⟩ | ⟨i, hi, rfl⟩)
      · exact ⟨g, by simp [hg], hy⟩
      · obtain ⟨haddr, hin⟩ := address_toNat huser hi
        exact ⟨h, by simp, _, hin, by rw [haddr]⟩
  have h2 := h1.congr htouched
  obtain ⟨s', hs', h', hbitmap⟩ := h2.copy (x := h.virtualAddress.toNat) (n := h.fileSize.toNat)
    (fun i => m (header + h.offset + ofNat i))
    fun i hi => ⟨h, by simp, _, ⟨by omega, by omega⟩, rfl⟩
  refine ⟨s', ?_, h', by rw [hbitmap]; exact hcount1⟩
  rwa [loadSegment, if_pos hload, hs1]

lemma foldlM_segments : ∀ (headers : List ProgramHeader) (s : Machine),
    headers.foldlM (loadSegment m header) s =
      (headers.filter fun h => decide (h.type = ProgramHeader.load)).foldlM (loadSegment m header) s
  | [], _ => rfl
  | h :: headers, s => by
    by_cases hload : h.type = ProgramHeader.load
    · rw [filter_cons_of_pos (by simpa using hload), foldlM_cons, foldlM_cons]
      exact congrArg _ (funext fun s => foldlM_segments headers s)
    · rw [filter_cons_of_neg (by simpa using hload), foldlM_cons, loadSegment, if_neg hload]
      exact foldlM_segments headers s

lemma foldlM_loadSegment : ∀ (segments before : List ProgramHeader)
    (s : Machine), Holding U s0 s (Touched before) (imageByte m header before) →
    (∀ h ∈ segments, h.type = ProgramHeader.load) →
    (∀ h ∈ segments, h.virtualAddress.toNat + h.memorySize.toNat ≤ 0xC0000000) →
    (∀ h ∈ segments ++ before, h.fileSize.toNat ≤ h.memorySize.toNat) →
    (∀ h ∈ segments, ∀ x, InRange h x → U (x / 0x1000 / 1024)) →
    (∀ h ∈ segments, ∀ x, InRange h x → s0.mapping (x / 0x1000) = none) →
    StartsPages before segments →
    2 * (segments.map fun h => (pageCount h).toNat).sum ≤ s.bitmap.freeCount →
    ∃ s', segments.foldlM (loadSegment m header) s = some s' ∧
      Holding U s0 s' (Touched (segments.reverse ++ before))
        (imageByte m header (segments.reverse ++ before))
  | [], before, s, hs, _, _, _, _, _, _, _ => ⟨s, rfl, hs⟩
  | h :: segments, before, s, hs, hload, huser, hfits, hU, hnone, hstarts, hcount => by
    rw [map_cons, sum_cons] at hcount
    obtain ⟨s1, hs1, h1, hcount1⟩ := loadSegment_spec hs (hload h (by simp)) (huser h (by simp))
      (fun g hg => hfits g (by
        rcases mem_cons.1 hg with rfl | hg
        · simp
        · simp [hg]))
      (hU h (by simp)) (hnone h (by simp)) hstarts.1 (by omega)
    obtain ⟨s', hs', h'⟩ := foldlM_loadSegment segments (h :: before) s1 h1
      (fun g hg => hload g (by simp [hg])) (fun g hg => huser g (by simp [hg]))
      (fun g hg => hfits g (by simpa [or_left_comm] using hg)) (fun g hg => hU g (by simp [hg]))
      (fun g hg => hnone g (by simp [hg])) hstarts.2 (by omega)
    refine ⟨s', ?_, ?_⟩
    · rwa [foldlM_cons, hs1]
    · simpa using h'

lemma imageByte_of_mem : ∀ {segments : List ProgramHeader} {h : ProgramHeader} {i : ℕ},
    segments.Pairwise (fun g h => ∀ x, ¬ (InRange g x ∧ InRange h x)) →
    (∀ g ∈ segments, g.fileSize.toNat ≤ g.memorySize.toNat) → h ∈ segments →
    i < h.memorySize.toNat → imageByte m header segments (h.virtualAddress.toNat + i) =
      if i < h.fileSize.toNat then m (header + h.offset + ofNat i) else 0
  | g :: segments, h, i, hapart, hfits, hmem, hi => by
    rw [pairwise_cons] at hapart
    have hin : InRange h (h.virtualAddress.toNat + i) := ⟨by omega, by omega⟩
    have hg := hfits g (by simp)
    rcases mem_cons.1 hmem with rfl | hmem
    · by_cases hfile : i < h.fileSize.toNat
      · rw [imageByte, if_pos ⟨by omega, by omega⟩, if_pos hfile, Nat.add_sub_cancel_left]
      rw [if_neg hfile]
      refine imageByte_eq_zero fun k hk hky => ?_
      rcases mem_cons.1 hk with rfl | hk
      · omega
      · have := hfits k (by simp [hk])
        exact hapart.1 k hk _ ⟨hin, hky.1, by omega⟩
    · rw [imageByte, if_neg fun hgy => hapart.1 h hmem _ ⟨⟨hgy.1, by omega⟩, hin⟩]
      exact imageByte_of_mem hapart.2 (fun k hk => hfits k (by simp [hk])) hmem hi

/-- A segment that starts within a page, of which neither that page nor the one behind it is there, is
not loaded: clearing the page faults. -/
theorem loadSegment_eq_none (hs : AddressSpace U s)
    (hload : h.type = ProgramHeader.load) (hpos : 0 < h.memorySize.toNat)
    (hstart : h.virtualAddress.toNat % 0x1000 ≠ 0)
    (hnone : ∀ q, q = h.virtualAddress.toNat / 0x1000 ∨ q = h.virtualAddress.toNat / 0x1000 + 1 →
      U (q / 1024) ∧ s.mapping q = none) : loadSegment m header s h = none := by
  have hcount : ∃ n, (pageCount h).toNat = n + 1 := by
    rw [pageCount_toNat]
    exact ⟨(h.memorySize.toNat + 0xfff) / 0x1000 - 1, by omega⟩
  obtain ⟨n, hn⟩ := hcount
  have hzero : (h.virtualAddress + ofNat 0 * 4096).toNat = h.virtualAddress.toNat := by simp
  obtain ⟨hU, hfirst⟩ := hnone _ (.inl rfl)
  obtain ⟨hU', hnext⟩ := hnone _ (.inr rfl)
  have hbind : s.bindVirtualPageAt h.virtualAddress.toNat .user = none := by
    rcases hs.bindVirtualPageAt_cases hU hfirst with
      ⟨hno, -⟩ | ⟨s1, hs1, henters⟩
    · exact hno
    obtain ⟨f, -, hf⟩ := henters.fresh
    have hbehind : (h.virtualAddress.toNat + (0x1000 - h.virtualAddress.toNat % 0x1000)) / 0x1000 =
        h.virtualAddress.toNat / 0x1000 + 1 := by omega
    rw [hs1]
    refine Machine.writeBytes_eq_none (j := 0x1000 - h.virtualAddress.toNat % 0x1000)
      henters.space _ (by omega) (fun i hi => ⟨f, ?_⟩) (by rwa [hbehind]) ?_
    · rwa [show (h.virtualAddress.toNat + i) / 0x1000 = h.virtualAddress.toNat / 0x1000 by omega]
    · rw [hbehind, henters.only.others _ (hs.lt_window hU') (by omega), hnext]
  rw [loadSegment, if_pos hload, hn, range'_succ, foldlM_cons, hzero, hbind]
  rfl

/-- If each segment starts at the start of a page, or is on pages of those before it, the file is loaded,
and a segment is on pages of the user exactly if none of its slots had a table for the kernel. A segment
for which neither is so faults, if the page behind its first one is not there either. -/
theorem user_image_loaded (m : Memory) (header : UInt32) {U : ℕ → Prop} {s : Machine}
    (hs : AddressSpace U s) :
    (Placeable (segments m header) →
      (∀ h ∈ segments m header, ∀ x, InRange h x → U (x / 0x1000 / 1024)) →
      (∀ h ∈ segments m header, ∀ x, InRange h x → s.mapping (x / 0x1000) = none) →
      2 * ((segments m header).map fun h => (pageCount h).toNat).sum ≤ s.bitmap.freeCount →
      StartsPages [] (segments m header) →
      ∃ s', linkInUserspace m header s = some s' ∧ ∀ h ∈ segments m header,
        (Loaded m header s' s'.cr3 h ↔ ∀ x, InRange h x → s.SlotUser (x / 0x1000 / 1024))) ∧
    ∀ h : ProgramHeader, h.type = ProgramHeader.load → 0 < h.memorySize.toNat →
      h.virtualAddress.toNat % 0x1000 ≠ 0 →
      (∀ q, q = h.virtualAddress.toNat / 0x1000 ∨ q = h.virtualAddress.toNat / 0x1000 + 1 →
        U (q / 1024) ∧ s.mapping q = none) → loadSegment m header s h = none := by
  refine ⟨fun hplace hU hnone hcount hstarts => ?_,
    fun h hload hpos hstart hno => loadSegment_eq_none hs hload hpos hstart hno⟩
  have hempty : Holding U s s (Touched []) (imageByte m header []) :=
    ⟨hs, fun _ => Iff.rfl, fun q ⟨g, hg, _⟩ => absurd hg not_mem_nil,
      fun y ⟨g, hg, _⟩ => absurd hg not_mem_nil, fun _ _ _ => rfl⟩
  obtain ⟨s', hs', hheld⟩ := foldlM_loadSegment (segments m header) [] s hempty
    (fun h hh => by simpa using (mem_filter.1 hh).2) hplace.user
    (fun h hh => hplace.fits h (by simpa using hh)) hU hnone hstarts hcount
  rw [append_nil] at hheld
  refine ⟨s', (foldlM_segments _ s).trans hs', fun h hh => ?_⟩
  have htouched : ∀ {x}, InRange h x → Touched (segments m header).reverse (x / 0x1000) :=
    fun hx => ⟨h, by simpa using hh, _, hx, rfl⟩
  constructor
  · intro hloaded x hx
    rw [← (hheld.held _ (htouched hx)).2]
    obtain ⟨hlo, hhi⟩ := hx
    have hpage := (hloaded (x - h.virtualAddress.toNat) (by omega)).1
    rwa [Nat.add_sub_cancel' hlo] at hpage
  · intro huser i hi
    have hx : InRange h (h.virtualAddress.toNat + i) := ⟨by omega, by omega⟩
    refine ⟨(hheld.held _ (htouched hx)).2.2 (huser _ hx), ?_⟩
    rw [hheld.bytes _ (htouched hx), imageByte_of_mem ?_ ?_ (by simpa using hh) hi]
    · rw [pairwise_reverse]
      exact hplace.apart.imp fun hgh x hx => hgh x hx.symm
    · exact fun g hg => hplace.fits g (by simpa using hg)

/-! ## A file -/

/-- The frame 1 is a directory with no table. The frames from 1 MiB on are free. -/
def bareMachine : Machine where
  mem f w := if f = 1 ∧ w = 1023 then 0x1003 else 0
  bitmap i := if i < 0x20 then 0xFF else 0
  cr3 := 1

lemma bareMachine_table {i : ℕ} (hi : i < 1023) : tableFrame bareMachine.mem 1 i = none := by
  have hword : bareMachine.mem 1 i = 0 := if_neg fun hno => by omega
  rw [tableFrame, hword]
  rfl

lemma bareMachine_mapping {q : ℕ} (hq : q < window) : bareMachine.mapping q = none :=
  Machine.mapping_of_none (bareMachine_table (slot_lt hq))

lemma bareMachine_free : bareMachine.bitmap.Free f ↔ 0x100 ≤ f := Bitmap.fromMegabyte_free

lemma bareMachine_space : AddressSpace (· < 768) bareMachine where
  self := (by decide : tableFrame bareMachine.mem 1 1023 = some 1)
  table i hi t ht := by cases (bareMachine_table hi).symm.trans ht
  once i hi _ j hj t ht := by cases (bareMachine_table hi).symm.trans ht
  directory hfree := absurd (bareMachine_free.1 hfree) (by decide : ¬ 0x100 ≤ 1)
  used i hi t ht := by cases (bareMachine_table hi).symm.trans ht
  low _ hi := hi
  page q hq f hf := by
    have hnone := bareMachine_mapping (q := q) (by unfold window; omega)
    rw [Machine.mapping_eq_none_iff, hf] at hnone
    cases hnone

lemma bareMachine_freeCount : 4 ≤ bareMachine.bitmap.freeCount := Bitmap.fromMegabyte_freeCount

def headerBytes (offset low high fileSize memorySize : UInt8) : List UInt8 :=
  [1, 0, 0, 0, offset, 0, 0, 0, low, high, 0x40, 0, 0, 0, 0, 0, fileSize, 0, 0, 0, memorySize, 0,
    0, 0, 0, 0, 0, 0, 0, 0, 0, 0]

def elfFile (entries : UInt8) (headers : List UInt8) : Memory := fun a =>
  (List.replicate 28 0 ++ [52, 0, 0, 0] ++ List.replicate 12 0 ++ [entries, 0] ++
    List.replicate 6 0 ++ headers).getD a.toNat 0

/-- One segment at the start of a page, and another one on the same page. -/
def sharedPage : Memory := elfFile 2 (headerBytes 1 0 0 16 32 ++ headerBytes 28 0 1 4 8)

lemma segments_sharedPage :
    segments sharedPage 0 = [⟨1, 1, 0x400000, 16, 32⟩, ⟨1, 28, 0x400100, 4, 8⟩] := by decide

theorem user_image_loaded_shared : ∃ s', linkInUserspace sharedPage 0 bareMachine = some s' ∧
    ∀ h ∈ segments sharedPage 0, Loaded sharedPage 0 s' s'.cr3 h := by
  have hrange : ∀ h ∈ segments sharedPage 0, ∀ x, InRange h x → x / 0x1000 / 1024 < 768 := by
    rw [segments_sharedPage]
    simp only [mem_cons, not_mem_nil, or_false]
    rintro h (rfl | rfl) x ⟨-, hx⟩
    · change x < 0x400000 + 32 at hx
      omega
    · change x < 0x400100 + 8 at hx
      omega
  have hplace : Placeable (segments sharedPage 0) := by
    rw [segments_sharedPage]
    refine ⟨by decide, by decide, pairwise_pair.2 ?_⟩
    rintro x ⟨⟨-, hx⟩, hx', -⟩
    change x < 0x400000 + 32 at hx
    change 0x400100 ≤ x at hx'
    omega
  have hstarts : StartsPages [] (segments sharedPage 0) := by
    rw [segments_sharedPage]
    refine ⟨.inl (by decide), .inr fun x hx =>
      ⟨_, mem_singleton_self _, 0x400000, ⟨by decide, by decide⟩, ?_⟩, trivial⟩
    obtain ⟨hlo, hhi⟩ := hx
    change 0x400100 ≤ x at hlo
    change x < 0x400100 + 8 at hhi
    omega
  have hcount : 2 * ((segments sharedPage 0).map fun h => (pageCount h).toNat).sum ≤
      bareMachine.bitmap.freeCount := by
    rw [segments_sharedPage]
    exact bareMachine_freeCount
  obtain ⟨s', hs', hloaded⟩ := (user_image_loaded sharedPage 0 bareMachine_space).1 hplace hrange
    (fun h hh x hx => bareMachine_mapping (bareMachine_space.lt_window (hrange h hh x hx))) hcount
    hstarts
  refine ⟨s', hs', fun h hh => (hloaded h hh).2 fun x hx => .inl (bareMachine_table ?_)⟩
  have := hrange h hh x hx
  omega

/-- One segment of 16 bytes in the middle of a page. -/
def midPage : Memory := elfFile 1 (headerBytes 1 0 8 16 16)

lemma segments_midPage : segments midPage 0 = [⟨1, 1, 0x400800, 16, 16⟩] := by decide

/-- All pages are free, and the load faults. -/
theorem user_image_not_loaded : AddressSpace (· < 768) bareMachine ∧
    Placeable (segments midPage 0) ∧ (∀ q < window, bareMachine.mapping q = none) ∧
    2 * ((segments midPage 0).map fun h => (pageCount h).toNat).sum ≤ bareMachine.bitmap.freeCount ∧
    linkInUserspace midPage 0 bareMachine = none := by
  refine ⟨bareMachine_space, ?_, fun q hq => bareMachine_mapping hq, ?_, ?_⟩
  · rw [segments_midPage]
    exact ⟨by decide, by decide, pairwise_singleton _ _⟩
  · rw [segments_midPage]
    exact Nat.le_trans (by decide) bareMachine_freeCount
  · refine (foldlM_segments _ _).trans ?_
    change (segments midPage 0).foldlM _ _ = none
    rw [segments_midPage, foldlM_cons, loadSegment_eq_none bareMachine_space rfl (by decide)
      (by decide) fun q hq => ⟨?_, bareMachine_mapping ?_⟩]
    · rfl
    · rcases hq with rfl | rfl <;> decide
    · rcases hq with rfl | rfl <;> decide

end Elf

end OlliOS
