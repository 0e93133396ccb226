import OlliOS.Proofs.BucketAlloc
import OlliOS.Proofs.Mappings
import OlliOS.Refill

/-!
# A refill of the heap serves the request

The bucket that `malloc` starts looking in is below 31 for the sizes in question, so that what depends on it
alone is checked for each bucket.
-/

namespace OlliOS

open Words List Option

lemma firstUnused_of_first {s : Machine} (h : s.SelfMapped) {count : ℕ} (hcount : 1 ≤ count) :
    ∀ {n i j : ℕ}, i + n ≤ 1024 * 1024 → i ≤ j → j < i + n → s.mapping j = none →
    (∀ q, i ≤ q → q < j → s.mapping q ≠ none) → s.firstUnused count n i = some (some j)
  | 0, i, j, _, hij, hj, _, _ => by omega
  | n + 1, i, j, hn, hij, hj, hnone, hbelow => by
    obtain ⟨m, rfl⟩ : ∃ m, count = m + 1 := ⟨count - 1, by omega⟩
    rw [Machine.firstUnused, pageUnused_eq h (by omega), range_succ_eq_map, allM_const, bind_eq_bind, bind_some]
    rcases Nat.eq_or_lt_of_le hij with rfl | hlt
    · rw [hnone]
      rfl
    · obtain ⟨e, he⟩ := ne_none_iff_exists'.1 (hbelow i le_rfl hlt)
      rw [he]
      exact firstUnused_of_first h hcount (by omega) hlt (by omega) hnone fun q hq => hbelow q (by omega)

namespace BucketAlloc

variable {h h' : BucketAlloc} {size page : UInt32} {k : ℕ}

lemma nextHighestPowerOfTwo_lt (hsize : size.toNat ≤ 2 ^ 30) : nextHighestPowerOfTwo size < 31 := by
  rcases Nat.eq_or_lt_of_le hsize with heq | hlt
  · obtain rfl : size = 0x40000000 := UInt32.toNat_inj.1 heq
    decide
  unfold nextHighestPowerOfTwo
  rcases Nat.eq_zero_or_pos size.toNat with h0 | hpos
  · rw [h0]
    split_ifs <;> decide
  · have hlog : size.toNat.log2 < 30 := (Nat.log2_lt hpos.ne').2 hlt
    split_ifs <;> omega

lemma refillSize_congr {v : UInt32} (hsame : nextHighestPowerOfTwo v = nextHighestPowerOfTwo size) :
    refillSize v = refillSize size := by
  unfold refillSize
  rw [hsame]

lemma refillSize_two_pow : ∀ k < 31, nextHighestPowerOfTwo (1 <<< UInt32.ofNat k) = k ∧
    (∀ op ∈ sizeOps k, op.Exact) ∧ 2 ^ k + 16 ≤ (refillSize (1 <<< UInt32.ofNat k)).toNat ∧
    (refillSize (1 <<< UInt32.ofNat k)).toNat < 2 ^ 31 ∧
    k ≤ nextLowestPowerOfTwo (refillSize (1 <<< UInt32.ofNat k) - 16) ∧
    nextLowestPowerOfTwo (refillSize (1 <<< UInt32.ofNat k) - 16) < 32 := by
  decide +kernel

lemma refillSize_spec (h1 : 1 ≤ size.toNat) (h30 : size.toNat ≤ 2 ^ 30) :
    (∀ op ∈ sizeOps (nextHighestPowerOfTwo size), op.Exact) ∧
    size.toNat + 16 ≤ (refillSize size).toNat ∧ (refillSize size).toNat < 2 ^ 31 ∧
    nextHighestPowerOfTwo size ≤ nextLowestPowerOfTwo (refillSize size - 16) ∧
    nextLowestPowerOfTwo (refillSize size - 16) < 32 := by
  obtain ⟨hsame, hops, hle, hlt, hlow, h32⟩ := refillSize_two_pow _ (nextHighestPowerOfTwo_lt h30)
  rw [refillSize_congr hsame] at hle hlt hlow h32
  have hpow := le_two_pow_nextHighestPowerOfTwo h1
  exact ⟨hops, by omega, hlt, hlow, h32⟩

lemma mallocOneTry_eq_none_iff : h.mallocOneTry size = none ↔
    ∀ i, nextHighestPowerOfTwo size ≤ i → i < 32 → h.buckets i = 0 := by
  simp only [mallocOneTry, map_eq_none_iff, firstBucket, find?_eq_none, mem_range'_1, bne_iff_ne, not_not, and_imp]
  refine forall_congr' fun i => imp_congr_right fun hi => ?_
  rw [show i < nextHighestPowerOfTwo size + (32 - nextHighestPowerOfTwo size) ↔ i < 32 by omega]

lemma firstBucket_of_only (hk : nextHighestPowerOfTwo size ≤ k) (h32 : k < 32) (hb : h.buckets k ≠ 0)
    (hother : ∀ i, nextHighestPowerOfTwo size ≤ i → i < 32 → i ≠ k → h.buckets i = 0) :
    h.firstBucket size = some k := by
  unfold firstBucket
  rcases hfind : (List.range' _ (32 - nextHighestPowerOfTwo size)).find? fun i => h.buckets i != 0 with _ | i
  · have hnone := find?_eq_none.1 hfind k (mem_range'_1.2 ⟨hk, by omega⟩)
    exact absurd hb (by simpa using hnone)
  · have hmem := mem_range'_1.1 (mem_of_find?_eq_some hfind)
    have hne : h.buckets i ≠ 0 := by simpa using find?_some hfind
    rw [not_imp_comm.1 (hother i hmem.1 (by omega)) hne]

lemma mallocOneTry_init {length : UInt32} (hnone : h.mallocOneTry size = none) (hlen : ¬ length ≤ 16)
    (hin : page.toNat + length.toNat ≤ 2 ^ 32)
    (hk : nextHighestPowerOfTwo size ≤ nextLowestPowerOfTwo (length - 16))
    (h32 : nextLowestPowerOfTwo (length - 16) < 32) :
    ∃ r, (h.init page length).mallocOneTry size = some (r, page + 16) := by
  have hbuckets : (h.init page length).buckets =
      Function.update h.buckets (nextLowestPowerOfTwo (length - 16)) (page + 8) := by
    rw [init_eq hlen, nextLowestPowerOfTwo]
  have h8 : page + 8 ≠ 0 := by
    intro h0
    have hto : (page + 8).toNat = page.toNat + 8 := toNat_add (by
      change ¬ length.toNat ≤ 16 at hlen
      change page.toNat + 8 < _
      omega)
    rw [h0] at hto
    simp at hto
  have hfirst := firstBucket_of_only hk h32
    (by rwa [hbuckets, Function.update_self]) fun i hi hi32 hne => by
      rw [hbuckets, Function.update_of_ne hne]
      exact mallocOneTry_eq_none_iff.1 hnone i hi hi32
  have h16 : page + 8 + 8 = page + 16 := by grind
  refine ⟨((h.init page length).takeFirst (nextLowestPowerOfTwo (length - 16)) size).1, ?_⟩
  rw [mallocOneTry, hfirst, map_some, ← h16]
  congr 1
  refine Prod.ext rfl ?_
  change (h.init page length).buckets _ + 8 = _
  rw [hbuckets, Function.update_self]

lemma malloc_of_mallocOneTry {r : BucketAlloc × UInt32} (htry : h.mallocOneTry size = some r)
    (pages : List UInt32) : h.malloc size pages = some r := by
  rw [malloc, htry]

lemma AsksForPages.malloc_eq (hask : AsksForPages h size h') (hpage : page ≠ 0)
    (hfresh : FreshArea h'.areas page (refillSize size)) (pages : List UInt32) :
    h.malloc size (page :: pages) = (h'.init page (refillSize size)).malloc size pages := by
  obtain ⟨htry, hmerge, hagain⟩ := hask
  rw [malloc, htry, hmerge]
  simp [hagain, if_pos (And.intro hpage hfresh)]

lemma initOps_exact_iff {length : UInt32} (hlen : 16 ≤ length.toNat) (hin : page.toNat + length.toNat ≤ 2 ^ 32) :
    (∀ op ∈ initOps page length, op.Exact) ↔ page.toNat + length.toNat < 2 ^ 32 := by
  have hp8 : (page + 8).toNat = page.toNat + 8 := toNat_add (by change page.toNat + 8 < _; omega)
  have hl8 : (length - 8).toNat = length.toNat - 8 :=
    UInt32.toNat_sub_of_le _ _ (UInt32.le_iff_toNat_le.2 (by change 8 ≤ _; omega))
  simp only [initOps, forall_mem_cons, not_mem_nil, false_imp_iff, implies_true, and_true, WordOp.Exact, show (8 : UInt32).toNat = 8 from rfl, show (4 : UInt32).toNat = 4 from rfl]
  omega

lemma takeOps_exact {region oldsize : UInt32} (h1 : 1 ≤ size.toNat) (h30 : size.toNat ≤ 2 ^ 30)
    (hle : size.toNat ≤ oldsize.toNat) (hin : region.toNat + oldsize.toNat + 8 ≤ 2 ^ 32) :
    ∀ op ∈ takeOps region oldsize size, op.Exact := by
  have h8 : (size + 8).toNat = size.toNat + 8 := toNat_add (by change size.toNat + 8 < _; omega)
  have hnum : (8 : UInt32).toNat = 8 ∧ (4 : UInt32).toNat = 4 := ⟨rfl, rfl⟩
  unfold takeOps
  simp only [forall_mem_append, forall_mem_cons, not_mem_nil, false_imp_iff, implies_true, and_true, WordOp.Exact]
  refine ⟨⟨by omega, ?_⟩, by omega, by omega⟩
  split_ifs with hlt
  · rw [UInt32.lt_iff_toNat_lt, h8] at hlt
    have hrs : (region + size).toNat = region.toNat + size.toNat := toNat_add (by omega)
    have hrs8 : (region + size + 8).toNat = region.toNat + size.toNat + 8 := by
      rw [toNat_add (by omega), hrs, hnum.1]
    have hos : (oldsize - size).toNat = oldsize.toNat - size.toNat :=
      UInt32.toNat_sub_of_le _ _ (UInt32.le_iff_toNat_le.2 hle)
    simp only [forall_mem_cons, not_mem_nil, false_imp_iff, implies_true, and_true]
    omega
  · simp

lemma refillOps_exact_iff (h1 : 1 ≤ size.toNat) (h30 : size.toNat ≤ 2 ^ 30)
    (hin : page.toNat + (refillSize size).toNat ≤ 2 ^ 32) :
    (∀ op ∈ refillOps size page, op.Exact) ↔ page.toNat + (refillSize size).toNat < 2 ^ 32 := by
  obtain ⟨hsize, hle, -, -, -⟩ := refillSize_spec h1 h30
  have hp8 : (page + 8).toNat = page.toNat + 8 := toNat_add (by change page.toNat + 8 < _; omega)
  have h16 : (refillSize size - 16).toNat = (refillSize size).toNat - 16 :=
    UInt32.toNat_sub_of_le _ _ (UInt32.le_iff_toNat_le.2 (by change 16 ≤ _; omega))
  have htake : ∀ op ∈ takeOps (page + 8) (refillSize size - 16) size, op.Exact :=
    takeOps_exact h1 h30 (by omega) (by omega)
  simp only [refillOps, forall_mem_append]
  rw [initOps_exact_iff (by omega) hin]
  exact ⟨fun hops => hops.1.2, fun hlt => ⟨⟨hsize, hlt⟩, htake⟩⟩

end BucketAlloc

open BucketAlloc

/-- A refill serves the request unless its area ends with the address space: the end is stored as 0
then. -/
theorem refills_iff {h h' : BucketAlloc} {size page : UInt32} (hsize : HeapState.SizeOk size)
    (hask : AsksForPages h size h') (hpage : page ≠ 0)
    (hin : page.toNat + (refillSize size).toNat ≤ 2 ^ 32) :
    Refills h h' size page ↔ page.toNat + (refillSize size).toNat < 2 ^ 32 := by
  have h1 : 1 ≤ size.toNat := UInt32.le_iff_toNat_le.1 hsize.1
  have h30 : size.toNat ≤ 2 ^ 30 := UInt32.le_iff_toNat_le.1 hsize.2
  obtain ⟨-, hle, -, hlow, h32⟩ := refillSize_spec h1 h30
  refine ⟨fun hr => (refillOps_exact_iff h1 h30 hin).1 hr.exact, fun hlt => ⟨?_, ?_, ?_⟩⟩
  · exact mallocOneTry_eq_none_iff.1 hask.2.2 _ hlow h32
  · have hlen : ¬ refillSize size ≤ 16 := by
      rw [UInt32.le_iff_toNat_le]
      change ¬ _ ≤ 16
      omega
    obtain ⟨r, htry⟩ := mallocOneTry_init hask.2.2 hlen hin hlow h32
    have hserved := malloc_of_mallocOneTry htry
    exact ⟨r, fun pages => ⟨hserved pages, fun hfresh => (hask.malloc_eq hpage hfresh pages).trans (hserved pages)⟩⟩
  · exact (refillOps_exact_iff h1 h30 hin).2 hlt

lemma zeroed_asks (mem : Memory) (size : UInt32) : AsksForPages (zeroed mem) size (zeroed mem) := by
  refine ⟨mallocOneTry_eq_none_iff.2 fun _ _ _ => rfl, ?_, mallocOneTry_eq_none_iff.2 fun _ _ _ => rfl⟩
  have hbuckets : (fun i => if i < 32 then 0 else (zeroed mem).buckets i) = (zeroed mem).buckets :=
    funext fun i => by simp [zeroed]
  rw [BucketAlloc.merge, hbuckets]
  rfl

theorem refills_page : refillSize 0x1000 = 0x2000 ∧
    Refills (zeroed fun _ => 0) (zeroed fun _ => 0) 0x1000 0xD0000000 := by
  have hsize : refillSize 0x1000 = 0x2000 := by decide
  exact ⟨hsize, (refills_iff (by decide) (zeroed_asks _ _) (by decide) (by simp [hsize])).2 (by simp [hsize])⟩

/-- Every page below the window is present, apart from those of slot 767. The frames from 1 MiB on are
free for eight pages. -/
def crowded : Machine where
  mem f w :=
    if f = 1 then if w = 1023 then 0x1003 else if w = 767 then 0 else BitVec.ofNat 32 ((0x200 + w) * 0x1000 + 3)
    else if 0x200 ≤ f then 0x3003 else 0
  bitmap i := if i = 0x20 then 0 else 0xFF
  cr3 := 1

lemma crowded_self : crowded.SelfMapped := rfl

lemma crowded_slot : ∀ w < 1023, w ≠ 767 → tableFrame crowded.mem 1 w = some (0x200 + w) := by
  decide +kernel

lemma crowded_table {f : ℕ} (hf : 0x200 ≤ f) (w : ℕ) : tableFrame crowded.mem f w = some 3 := by
  have hword : crowded.mem f w = 0x3003 := by
    simp only [crowded]
    rw [if_neg (by omega), if_pos hf]
  rw [tableFrame_eq_some, hword]
  exact ⟨rfl, rfl⟩

lemma crowded_mapping {q : ℕ} (hlo : 0xD0000 ≤ q) (hhi : q < 0xFFEFF) : crowded.mapping q ≠ none := by
  rw [Ne, Machine.mapping_eq_none_iff]
  change ¬ pageFrame crowded.mem 1 (q / 1024) (q % 1024) = none
  rcases Nat.lt_or_ge (q / 1024) 1023 with hslot | hslot
  · rw [pageFrame, crowded_slot _ hslot (by omega), bind_some, crowded_table (by omega)]
    exact some_ne_none _
  · obtain hlast : q / 1024 = 1023 := by omega
    rw [hlast, pageFrame, show tableFrame crowded.mem 1 1023 = some 1 from crowded_self, bind_some,
      crowded_slot _ (by omega) (by omega)]
    exact some_ne_none _

lemma crowded_bind : ∃ s', crowded.bindFirstFreeVirtualPagesAt 0xD0000000 257 .supervisor =
    some (s', 0xFFEFF000) := by
  have hfound : crowded.firstUnused 257 (1024 * 1024 + 1 - 257 - 0xD0000) 0xD0000 = some (some 0xFFEFF) :=
    firstUnused_of_first crowded_self (by decide) (by decide) (by decide) (by decide) (by decide)
      fun _ => crowded_mapping
  have hbind : ((List.range' 0xFFEFF 257).foldlM
      (fun s c => Machine.bindVirtualPage s c .supervisor) crowded).isSome := by
    decide +kernel
  obtain ⟨s', hs'⟩ := isSome_iff_exists.1 hbind
  refine ⟨s', ?_⟩
  have hpage : (((0xD0000000 : UInt32) + if (0xD0000000 : UInt32) % 0x1000 = 0 then 0
      else 0x1000 - 0xD0000000 % 0x1000) / 0x1000).toNat = 0xD0000 := by decide
  simp only [Machine.bindFirstFreeVirtualPagesAt, hpage, Machine.bindFirstFreeVirtualPages, hfound, hs',
    bind_eq_bind, bind_some, map_some, Option.pure_def]
  rfl

/-- The pages handed out for a block of 1 MiB are the last of the address space, and the end of their area
is stored as 0. -/
theorem refill_end_overflows : AsksForPages (zeroed fun _ => 0) 0x100000 (zeroed fun _ => 0) ∧
    (∃ s', crowded.bindFirstFreeVirtualPagesAt 0xD0000000 ((refillSize 0x100000).toNat / 0x1000) .supervisor =
      some (s', 0xFFEFF000)) ∧
    ¬ Refills (zeroed fun _ => 0) (zeroed fun _ => 0) 0x100000 0xFFEFF000 ∧
    load ((zeroed fun _ => 0).init 0xFFEFF000 (refillSize 0x100000)).mem (0xFFEFF000 + 4) = 0 := by
  have hsize : refillSize 0x100000 = 0x101000 := by decide
  refine ⟨zeroed_asks _ _, ?_, fun hr => ?_, ?_⟩
  · exact crowded_bind
  · have hend : (WordOp.add (0xFFEFF000 + 8) (0x101000 - 8)).Exact :=
      hr.exact _ (by simp [refillOps, initOps, hsize])
    exact absurd hend (by decide)
  · exact load_store.trans (by decide)

end OlliOS
