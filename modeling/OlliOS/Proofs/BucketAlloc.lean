import Mathlib.Data.Finset.Card
import OlliOS.Proofs.Regions

/-!
# The heap hands out separate blocks

Each call turns a layout into another one and leaves the regions in use alone, apart from the one it frees.
-/

namespace OlliOS

open Words Tiling List BucketAlloc Region

namespace BucketAlloc

section Flags

variable {s : UInt32}

variable (hs : s.toNat < 2 ^ 31)

include hs

lemma or_usedFlag_toNat : (s ||| usedFlag).toNat = s.toNat + 2 ^ 31 := by
  rw [UInt32.toNat_or, Nat.or_comm]
  have h := Nat.two_pow_add_eq_or_of_lt hs 1
  rw [Nat.mul_one] at h
  show 2 ^ 31 ||| s.toNat = _
  rw [← h, Nat.add_comm]

lemma and_not_usedFlag : s &&& ~~~ usedFlag = s := by
  apply UInt32.toBitVec_inj.1
  apply BitVec.eq_of_getLsbD_eq
  intro i hi
  have hflag : usedFlag.toBitVec = BitVec.twoPow 32 31 := rfl
  simp only [UInt32.toBitVec_and, UInt32.toBitVec_not, hflag, BitVec.getLsbD_and,
    BitVec.getLsbD_not, BitVec.getLsbD_twoPow]
  by_cases h : 31 = i
  · have hb : s.toBitVec.getLsbD i = false := by
      rw [← BitVec.testBit_toNat, ← h]
      exact Nat.testBit_lt_two_pow hs
    rw [hb, Bool.false_and]
  · simp [h, hi]

lemma or_usedFlag_and : (s ||| usedFlag) &&& ~~~ usedFlag = s := by
  have hbits : (s ||| usedFlag) &&& ~~~ usedFlag = s &&& ~~~ usedFlag := by
    apply UInt32.toBitVec_inj.1
    ext i hi
    simp only [UInt32.toBitVec_and, UInt32.toBitVec_or, UInt32.toBitVec_not, BitVec.getElem_and,
      BitVec.getElem_or, BitVec.getElem_not]
    cases usedFlag.toBitVec[i] <;> simp
  rw [hbits, and_not_usedFlag hs]

lemma or_usedFlag_xor : (s ||| usedFlag) ^^^ usedFlag = s := by
  have hbits : (s ||| usedFlag) ^^^ usedFlag = s &&& ~~~ usedFlag := by
    apply UInt32.toBitVec_inj.1
    ext i hi
    simp only [UInt32.toBitVec_and, UInt32.toBitVec_or, UInt32.toBitVec_xor, UInt32.toBitVec_not,
      BitVec.getElem_and, BitVec.getElem_or, BitVec.getElem_xor, BitVec.getElem_not]
    cases usedFlag.toBitVec[i] <;> simp
  rw [hbits, and_not_usedFlag hs]

end Flags

end BucketAlloc

namespace Region

variable {r : Region}

lemma len_pos (r : Region) : 0 < r.len := by
  unfold len
  omega

lemma usedFlag_le_word (hs : r.size.toNat < 2 ^ 31) : usedFlag ≤ r.word ↔ r.used = true := by
  rw [UInt32.le_iff_toNat_le]
  show 2 ^ 31 ≤ _ ↔ _
  unfold word
  split_ifs with hu
  · rw [or_usedFlag_toNat hs]
    simp [hu]
  · exact iff_of_false (Nat.not_le.2 hs) hu

lemma word_of_free (hf : r.used = false) : r.word = r.size := by simp [word, hf]

lemma word_of_used (hu : r.used = true) : r.word = r.size ||| usedFlag := by simp [word, hu]

lemma word_and (hs : r.size.toNat < 2 ^ 31) : r.word &&& ~~~ usedFlag = r.size := by
  unfold word
  split_ifs
  · exact or_usedFlag_and hs
  · exact and_not_usedFlag hs

end Region

namespace BucketAlloc

section Buckets

variable {v : UInt32}

lemma eq_of_popcount (hp : popcount v ≤ 1) {i j : ℕ} (hi : i < 32) (hj : j < 32)
    (hbi : v.toNat.testBit i = true) (hbj : v.toNat.testBit j = true) : i = j := by
  unfold popcount at hp
  rw [countP_eq_length_filter] at hp
  have hmi : i ∈ (List.range 32).filter fun i => v.toNat.testBit i := by simp [hi, hbi]
  have hmj : j ∈ (List.range 32).filter fun i => v.toNat.testBit i := by simp [hj, hbj]
  match hl : (List.range 32).filter fun i => v.toNat.testBit i with
  | [] => simp [hl] at hmi
  | [k] =>
    rw [hl, mem_singleton] at hmi hmj
    exact hmi.trans hmj.symm
  | _ :: _ :: _ =>
    rw [hl] at hp
    simp at hp

lemma le_two_pow_nextHighestPowerOfTwo (hv : 1 ≤ v.toNat) : v.toNat ≤ 2 ^ nextHighestPowerOfTwo v := by
  have hlog : v.toNat < 2 ^ (v.toNat.log2 + 1) := Nat.lt_log2_self
  unfold nextHighestPowerOfTwo
  split_ifs with hp
  · omega
  -- only one bit is set
  have h32 : v.toNat.log2 < 32 := (Nat.log2_lt (by omega)).2 v.toNat_lt
  refine Nat.le_of_eq (Nat.eq_of_testBit_eq fun i => ?_)
  rw [Nat.add_zero, Nat.testBit_two_pow]
  by_cases hi : v.toNat.log2 = i
  · rw [decide_eq_true hi, ← hi]
    exact Nat.testBit_log2 (by omega)
  rw [decide_eq_false hi]
  by_contra hbit
  rw [Bool.not_eq_false] at hbit
  have hi32 : i < 32 := by
    by_contra hge
    rw [Nat.testBit_lt_two_pow (v.toNat_lt.trans_le (Nat.pow_le_pow_right (by decide) (by omega)))] at hbit
    cases hbit
  exact hi (eq_of_popcount (by omega) h32 hi32 (Nat.testBit_log2 (by omega)) hbit)

end Buckets

end BucketAlloc

def Fresh (h : BucketAlloc) (L : Layout) (h' : BucketAlloc) (L' : Layout) (p size : UInt32) : Prop :=
  ∃ r, L'.Contains h'.areas r ∧ r.used = true ∧ r.addr + 8 = p ∧ size.toNat ≤ r.size.toNat ∧
    ∀ q, L.Contains h.areas q → q.used = true → q.addr ≠ r.addr

namespace Rep

variable {h h' : BucketAlloc} {L : Layout} {r : Region} {size : UInt32}

lemma header (hr : Rep h L) (hc : L.Contains h.areas r) :
    r.addr.toNat = r.start ∧ (r.addr + 4).toNat = r.start + 4 ∧ (r.addr + 8).toNat = r.start + 8 ∧
      r.len = 8 + r.size.toNat := by
  have hf := hr.fits hc
  have hl : r.len = 8 + r.size.toNat := rfl
  have hs : r.addr.toNat = r.start := rfl
  exact ⟨rfl, toNat_add (by show r.addr.toNat + 4 < _; omega), toNat_add (by show r.addr.toNat + 8 < _; omega), rfl⟩

lemma insertIntoBucket (hr : Rep h L) (hc : L.Contains h.areas r) (hfree : r.used = false)
    (hclear : L.Clear r.start (r.start + r.len)) :
    Rep (h.insertIntoBucket r.addr) (L.setList r.size.toNat.log2 (r.addr :: L.lists r.size.toNat.log2)) ∧
      Keeps (·.addr ≠ r.addr) h L (h.insertIntoBucket r.addr)
        (L.setList r.size.toNat.log2 (r.addr :: L.lists r.size.toNat.log2)) ∧
      (Complete h.areas L (· = r.addr) → Complete (h.insertIntoBucket r.addr).areas
        (L.setList r.size.toNat.log2 (r.addr :: L.lists r.size.toNat.log2)) fun _ => False) := by
  obtain ⟨h0, h4, -, hl⟩ := hr.header hc
  have hf := hr.fits hc
  have hword := (hr.words r hc).2
  have hb : nextLowestPowerOfTwo (load h.mem r.addr) = r.size.toNat.log2 := by
    rw [hword, word_of_free hfree, nextLowestPowerOfTwo]
  have hins : h.insertIntoBucket r.addr =
      (h.store (r.addr + 4) (h.buckets r.size.toNat.log2)).setBucket r.size.toNat.log2 r.addr := by
    rw [BucketAlloc.insertIntoBucket, hb]
  have hw : Within r.start (r.start + r.len) h (h.store (r.addr + 4) (h.buckets r.size.toNat.log2)) :=
    .store (by omega) (by omega) (by omega)
  obtain ⟨hrep, hkeeps⟩ := hr.touch hc hclear hw ((load_store_of_apart (by omega) (by omega) (by omega)).trans hword)
  rw [hins]
  exact ⟨hrep.link hc hfree hclear load_store, hkeeps, hr.link_complete hc⟩

lemma take_whole (hr : Rep h L) (hc : L.Contains h.areas r) (hclear : L.Clear r.start (r.start + r.len)) :
    ∃ L', Rep ((h.store r.addr (r.size ||| usedFlag)).store (r.addr + 4) 0) L' ∧
      Keeps (·.addr ≠ r.addr) h L ((h.store r.addr (r.size ||| usedFlag)).store (r.addr + 4) 0) L' ∧
      L'.Contains h.areas ⟨r.addr, r.size, true⟩ ∧
      (Complete h.areas L (· = r.addr) → Complete h.areas L' fun _ => False) := by
  obtain ⟨h0, h4, -, hl⟩ := hr.header hc
  have hf := hr.fits hc
  have hw : Within r.start (r.start + r.len) h ((h.store r.addr (r.size ||| usedFlag)).store (r.addr + 4) 0) :=
    (Within.store (by omega) (by omega) (by omega)).trans (.store (by omega) (by omega) (by omega))
  obtain ⟨L', hrep, hkeeps, -, hcont, hcomplete⟩ := hr.exchange_one hc [⟨r.addr, r.size, true⟩]
    ⟨rfl, len_pos _, rfl⟩ (by simp) hclear hw (by
      simp only [mem_singleton, forall_eq]
      refine ⟨hf.2.2.1, ?_⟩
      exact (load_store_of_apart (by omega) (by omega) (by omega)).trans load_store)
  exact ⟨L', hrep, hkeeps, hcont _ (by simp), fun hc => (hcomplete hc).mono (by simp)⟩

lemma take_split (hr : Rep h L) (hc : L.Contains h.areas r)
    (hclear : L.Clear r.start (r.start + r.len)) (hlt : size.toNat + 8 < r.size.toNat)
    {n : Region} (hn : n = ⟨r.addr + size + 8, r.size - size - 8, false⟩)
    (hh' : h' = (((h.store n.addr n.size).store (n.addr + 4) (h.buckets n.size.toNat.log2)).store
      r.addr (size ||| usedFlag)).store (r.addr + 4) 0)
    (hsize : 1 ≤ size.toNat) :
    ∃ L', Rep (h'.setBucket n.size.toNat.log2 n.addr) L' ∧
      Keeps (·.addr ≠ r.addr) h L (h'.setBucket n.size.toNat.log2 n.addr) L' ∧
      L'.Contains h.areas ⟨r.addr, size, true⟩ ∧
      (Complete h.areas L (· = r.addr) → Complete h.areas L' fun _ => False) := by
  obtain ⟨h0, h4, -, hl⟩ := hr.header hc
  have hf := hr.fits hc
  have hna : n.addr.toNat = r.start + size.toNat + 8 := by
    rw [hn]
    show (r.addr + size + 8).toNat = _
    have h1 : (r.addr + size).toNat = r.start + size.toNat := toNat_add (by omega)
    rw [toNat_add (by rw [h1]; show r.start + size.toNat + 8 < _; omega), h1]
    rfl
  have hns : n.size.toNat = r.size.toNat - size.toNat - 8 := by
    rw [hn]
    show (r.size - size - 8).toNat = _
    have h1 : (r.size - size).toNat = r.size.toNat - size.toNat :=
      UInt32.toNat_sub_of_le _ _ (UInt32.le_iff_toNat_le.2 (by omega))
    rw [UInt32.toNat_sub_of_le _ _ (UInt32.le_iff_toNat_le.2 (by rw [h1]; show 8 ≤ _; omega)), h1]
    rfl
  have hn4 : (n.addr + 4).toNat = r.start + size.toNat + 12 := by
    rw [toNat_add (by rw [hna]; show r.start + size.toNat + 8 + 4 < _; omega), hna]
    rfl
  have hw : Within r.start (r.start + r.len) h h' := by
    rw [hh']
    refine (((Within.store ?_ ?_ ?_).trans (.store ?_ ?_ ?_)).trans (.store ?_ ?_ ?_)).trans (.store ?_ ?_ ?_)
    all_goals omega
  -- the words of the two headers once all is written
  have hwordr : load h'.mem r.addr = size ||| usedFlag := by
    rw [hh']
    exact (load_store_of_apart (by omega) (by omega) (by omega)).trans load_store
  have hwordn : load h'.mem n.addr = n.size := by
    rw [hh']
    refine (load_store_of_apart (by omega) (by omega) (by omega)).trans ?_
    refine (load_store_of_apart (by omega) (by omega) (by omega)).trans ?_
    exact (load_store_of_apart (by omega) (by omega) (by omega)).trans load_store
  have hlinkn : load h'.mem (n.addr + 4) = h.buckets n.size.toNat.log2 := by
    rw [hh']
    refine (load_store_of_apart (by omega) (by omega) (by omega)).trans ?_
    exact (load_store_of_apart (by omega) (by omega) (by omega)).trans load_store
  have hnf : n.used = false := by rw [hn]
  have hnl : n.start = n.addr.toNat ∧ n.len = 8 + n.size.toNat := ⟨rfl, rfl⟩
  obtain ⟨L', hrep, hkeeps, hlists, hcont, hcomplete⟩ := hr.exchange_one hc [⟨r.addr, size, true⟩, n]
    ⟨rfl, len_pos _, by
      simp only [Tiles, len]
      omega⟩ (by simp) hclear hw (by
      simp only [mem_cons, not_mem_nil, or_false, forall_eq_or_imp, forall_eq]
      exact ⟨⟨hsize, hwordr⟩, by omega, hwordn.trans (word_of_free hnf).symm⟩)
  have hclearn : L'.Clear n.start (n.start + n.len) := by
    intro b p hp
    rw [hlists] at hp
    have := hclear b p hp
    omega
  refine ⟨_, hrep.link (hcont n (by simp)) hnf hclearn ?_, hkeeps, ?_, fun hc => ?_⟩
  · rw [hlinkn, hw.buckets]
  · exact hw.areas ▸ hcont ⟨r.addr, size, true⟩ (by simp)
  · rw [← hw.areas]
    refine hrep.link_complete (hcont n (by simp)) ((hcomplete hc).mono ?_)
    rintro p ⟨q, hq, hfree, rfl⟩
    rcases mem_cons.1 hq with rfl | hq
    · cases hfree
    · rw [mem_singleton.1 hq]

end Rep

namespace BucketAlloc

variable {h h' : BucketAlloc} {L : Layout} {size p : UInt32} {i : ℕ}

lemma takeFirst_split (hlt : size + 8 < load h.mem (h.buckets i))
    (hap : load (Words.store h.mem (h.buckets i + size + 8) (load h.mem (h.buckets i) - size - 8))
      (h.buckets i + 4) = load h.mem (h.buckets i + 4)) :
    h.takeFirst i size = ((((((h.setBucket i (load h.mem (h.buckets i + 4))).store (h.buckets i + size + 8)
        (load h.mem (h.buckets i) - size - 8)).store (h.buckets i + size + 8 + 4)
        ((h.setBucket i (load h.mem (h.buckets i + 4))).buckets
          (load h.mem (h.buckets i) - size - 8).toNat.log2)).store (h.buckets i)
        (size ||| usedFlag)).store (h.buckets i + 4) 0).setBucket
        (load h.mem (h.buckets i) - size - 8).toNat.log2 (h.buckets i + size + 8),
      h.buckets i + 8) := by
  unfold takeFirst insertIntoBucket
  simp [if_pos hlt, store, setBucket, load_store, hap, nextLowestPowerOfTwo]

lemma takeFirst_whole (hge : ¬ size + 8 < load h.mem (h.buckets i)) : h.takeFirst i size =
      (((h.setBucket i (load h.mem (h.buckets i + 4))).store (h.buckets i)
        (load h.mem (h.buckets i) ||| usedFlag)).store (h.buckets i + 4) 0, h.buckets i + 8) := by
  unfold takeFirst
  simp only [if_neg hge]

lemma takeFirst_spec (hr : Rep h L) (hb : h.buckets i ≠ 0) (hsz : 1 ≤ size.toNat)
    (h30 : size.toNat ≤ 2 ^ 30) (hi : size.toNat ≤ 2 ^ i) :
    ∃ L', Rep (h.takeFirst i size).1 L' ∧ Keeps (·.used = true) h L (h.takeFirst i size).1 L' ∧
      Fresh h L (h.takeFirst i size).1 L' (h.takeFirst i size).2 size ∧
      (Complete h.areas L (fun _ => False) → Complete (h.takeFirst i size).1.areas L' fun _ => False) := by
  obtain ⟨r, ps, hL, hbr, hc, hfree, hlog⟩ := hr.first hb
  have hf := hr.fits hc
  obtain ⟨h0, h4, -, hl⟩ := hr.header hc
  have hword : load h.mem (h.buckets i) = r.size := by rw [hbr, (hr.words r hc).2, word_of_free hfree]
  have hle : size.toNat ≤ r.size.toNat := by
    have := Nat.log2_self_le (n := r.size.toNat) (by omega)
    rw [hlog] at this
    omega
  have h8 : (size + 8).toNat = size.toNat + 8 := toNat_add (by show size.toNat + 8 < _; omega)
  have hfresh : ∀ q, L.Contains h.areas q → q.used = true → q.addr ≠ r.addr := by
    intro q hqc hq heq
    rw [hr.eq_of_addr hqc hc heq, hfree] at hq
    cases hq
  have hun := hr.unlink hL
  have hclear := hr.clear_of_unlink hc hL
  by_cases hlt : size + 8 < load h.mem (h.buckets i)
  · have hltn : size.toNat + 8 < r.size.toNat := by
      rwa [hword, UInt32.lt_iff_toNat_lt, h8] at hlt
    have hna : (r.addr + size + 8).toNat = r.start + size.toNat + 8 := by
      rw [UInt32.add_assoc, toNat_add (by omega)]
      omega
    have hap : load (Words.store h.mem (h.buckets i + size + 8)
        (load h.mem (h.buckets i) - size - 8)) (h.buckets i + 4) = load h.mem (h.buckets i + 4) := by
      rw [hbr]
      exact load_store_of_apart (by omega) (by omega) (by omega)
    rw [takeFirst_split hlt hap, hword, hbr]
    obtain ⟨L', hrep, hkeeps, hcont, hcomplete⟩ := hun.take_split hc hclear hltn rfl rfl hsz
    exact ⟨L', hrep, hkeeps.mono hfresh,
      ⟨⟨r.addr, size, true⟩, hcont, rfl, rfl, Nat.le_refl _, hfresh⟩, fun hall => hcomplete (hall.unlink hL)⟩
  · rw [takeFirst_whole hlt, hword, hbr]
    obtain ⟨L', hrep, hkeeps, hcont, hcomplete⟩ := hun.take_whole hc hclear
    exact ⟨L', hrep, hkeeps.mono hfresh,
      ⟨⟨r.addr, r.size, true⟩, hcont, rfl, rfl, hle, hfresh⟩, fun hall => hcomplete (hall.unlink hL)⟩

lemma mallocOneTry_spec (hr : Rep h L) (hsz : 1 ≤ size.toNat) (h30 : size.toNat ≤ 2 ^ 30)
    (hm : h.mallocOneTry size = some (h', p)) :
    ∃ L', Rep h' L' ∧ Keeps (·.used = true) h L h' L' ∧ Fresh h L h' L' p size ∧
      (Complete h.areas L (fun _ => False) → Complete h'.areas L' fun _ => False) := by
  obtain ⟨i, hi, htake⟩ := Option.map_eq_some_iff.1 hm
  have hb : h.buckets i ≠ 0 := by simpa using find?_some hi
  have hmem := mem_range'_1.1 (mem_of_find?_eq_some hi)
  have hle : size.toNat ≤ 2 ^ i := (le_two_pow_nextHighestPowerOfTwo hsz).trans
    (Nat.pow_le_pow_right (by decide) hmem.1)
  have hspec := takeFirst_spec hr hb hsz h30 hle
  rwa [htake] at hspec

section Init

variable {start length : UInt32}

lemma init_eq (hlen : ¬ length ≤ 16) : h.init start length =
      { (((({ h with areas := (start, length) :: h.areas }.store (start + 8) (length - 16)).store
          (start + 12) 0).store start h.memoryLinkedList).store (start + 4) (start + length)) with
        buckets := Function.update h.buckets (length - 16).toNat.log2 (start + 8)
        memoryLinkedList := start } := by
  have h16 : length - 8 - 8 = length - 16 := by grind
  have h12 : start + 8 + 4 = start + 12 := by grind
  have h4 : start + 8 - 4 = start + 4 := by grind
  have hend : start + 8 + (length - 8) = start + length := by grind
  unfold init
  simp [if_neg hlen, store, setBucket, nextLowestPowerOfTwo, h16, h12, h4, hend]

lemma init_short (hr : Rep h L) (hfresh : FreshArea h.areas start length) (hlen : length ≤ 16) :
    ∃ L', Rep (h.init start length) L' ∧ Keeps (·.used = true) h L (h.init start length) L' := by
  have hinit : h.init start length = { h with areas := (start, length) :: h.areas } := by
    unfold init
    simp only [if_pos hlen]
  have hold : (start, length) ∈ h.areas → L.regions (start, length) = [] := by
    intro ha
    by_contra hne
    obtain ⟨r, hrm⟩ := exists_mem_of_ne_nil _ hne
    have hb := hr.bounds ha hrm
    have hf := hr.fits ⟨_, ha, hrm⟩
    have hl : r.len = 8 + r.size.toNat := rfl
    have hlen : length.toNat ≤ 16 := UInt32.le_iff_toNat_le.1 hlen
    simp only at hb
    omega
  have hareas : (h.init start length).areas = (start, length) :: h.areas := by rw [hinit]
  obtain ⟨hrep, hcont⟩ := hr.register [] ⟨hfresh.1, hfresh.2.1⟩
    (fun hne => absurd rfl hne) hold hareas (by rw [hinit]) (by rw [hinit])
    (fun _ _ _ _ _ _ => by rw [hinit])
    (fun hne => absurd rfl hne) (fun hne => absurd rfl hne) (by simp)
  rw [hinit] at hrep hcont ⊢
  exact ⟨_, hrep, fun r hrc _ => ⟨hcont r hrc, fun x hx => .inl hx⟩⟩

lemma init_spec (hr : Rep h L) (hfresh : FreshArea h.areas start length) :
    ∃ L', Rep (h.init start length) L' ∧ Keeps (·.used = true) h L (h.init start length) L' ∧
      (¬ length ≤ 16 → start ≠ 0 → start.toNat + length.toNat < 2 ^ 32 →
        h.buckets (length - 16).toNat.log2 = 0 → Complete h.areas L (fun _ => False) →
        Complete (h.init start length).areas L' fun _ => False) := by
  by_cases hlen : length ≤ 16
  · obtain ⟨L', hrep, hkeeps⟩ := init_short hr hfresh hlen
    exact ⟨L', hrep, hkeeps, fun hnot => absurd hlen hnot⟩
  obtain ⟨h31, h32, hdisj⟩ := hfresh
  have hlenn : 16 < length.toNat := by
    rw [UInt32.le_iff_toNat_le] at hlen
    exact Nat.lt_of_not_le hlen
  have h4 : (start + 4).toNat = start.toNat + 4 := toNat_add (by show start.toNat + 4 < _; omega)
  have h8 : (start + 8).toNat = start.toNat + 8 := toNat_add (by show start.toNat + 8 < _; omega)
  have h12 : (start + 12).toNat = start.toNat + 12 := toNat_add (by show start.toNat + 12 < _; omega)
  have h16 : (length - 16).toNat = length.toNat - 16 :=
    UInt32.toNat_sub_of_le _ _ (UInt32.le_iff_toNat_le.2 (by show 16 ≤ _; omega))
  -- the bytes are all written before the area and its region are linked
  let h1 := ((({ h with areas := (start, length) :: h.areas }.store (start + 8) (length - 16)).store
    (start + 12) 0).store start h.memoryLinkedList).store (start + 4) (start + length)
  have hw : Within start.toNat (start.toNat + length.toNat) { h with areas := (start, length) :: h.areas } h1 := by
    refine (((Within.store ?_ ?_ ?_).trans (.store ?_ ?_ ?_)).trans (.store ?_ ?_ ?_)).trans (.store ?_ ?_ ?_)
    all_goals omega
  have hend : load h1.mem (start + 4) = start + length := load_store
  have hnext : load h1.mem start = h.memoryLinkedList :=
    (load_store_of_apart (by omega) (by omega) (by omega)).trans load_store
  have hlink : load h1.mem (start + 12) = 0 := by
    refine (load_store_of_apart (by omega) (by omega) (by omega)).trans ?_
    exact (load_store_of_apart (by omega) (by omega) (by omega)).trans load_store
  have hword : load h1.mem (start + 8) = length - 16 := by
    refine (load_store_of_apart (by omega) (by omega) (by omega)).trans ?_
    refine (load_store_of_apart (by omega) (by omega) (by omega)).trans ?_
    exact (load_store_of_apart (by omega) (by omega) (by omega)).trans load_store
  have hsep : ∀ c ∈ h.areas, L.regions c ≠ [] →
      c.1.toNat + c.2.toNat ≤ start.toNat ∨ start.toNat + length.toNat ≤ c.1.toNat := by
    intro c hc hcne
    have hd := hdisj c hc
    have hb := (hr.tiled c hc hcne).le
    omega
  have hnot : (start, length) ∉ h.areas := by
    intro hm
    have hd := hdisj _ hm
    simp only at hd
    omega
  have hheads : start ∉ L.heads := by
    intro hm
    obtain ⟨c, hc, rfl, hcne⟩ := hr.heads_area _ hm
    have hs := hsep c hc hcne
    have hb := (hr.tiled c hc hcne).le
    omega
  obtain ⟨hrep, hcont⟩ := hr.register
    [⟨start + 8, length - 16, false⟩] ⟨h31, h32⟩ (fun _ => hsep)
    (fun hm => absurd hm hnot) hw.areas hw.buckets hw.memoryLinkedList
    (fun c hc hcne x hx hx' => hw.mem x (by have := hsep c hc hcne; omega))
    (fun _ => ⟨h8, len_pos _, by
      show start.toNat + 8 + (8 + (length - 16).toNat) = start.toNat + length.toNat
      omega⟩)
    (fun _ => hend) (by
      simp only [mem_singleton, forall_eq]
      exact ⟨by omega, hword⟩)
  have hself : (L.setRegions (start, length) [⟨start + 8, length - 16, false⟩]).regions
      (start, length) = [⟨start + 8, length - 16, false⟩] := by simp [Layout.setRegions]
  have harea : (start, length) ∈ h1.areas := by simp [hw.areas]
  have hpush := hrep.pushHead harea (by simp [hself]) hheads hnext
  have h80 : start + 8 ≠ 0 := by
    intro h0
    rw [h0] at h8
    simp at h8
  rw [init_eq hlen]
  refine ⟨_, hpush.relist (b := (length - 16).toNat.log2) [start + 8] ?_ rfl rfl rfl ?_
    (by simp) ?_, ?_, fun _ h0 hlt hb hcomplete => ?_⟩
  · intro c hc
    exact Function.update_of_ne hc _ _
  · have h48 : start + 8 + 4 = start + 12 := by grind
    simp only [Function.update_self, Links.chain_cons, Links.chain_nil]
    refine ⟨link_of_ne h80, ?_⟩
    rw [h48]
    show link (load h1.mem (start + 12)) = none
    rw [hlink]
    rfl
  · simp only [mem_singleton, forall_eq]
    exact ⟨⟨start + 8, length - 16, false⟩, ⟨(start, length), harea, by simp [hself]⟩, rfl, rfl, rfl⟩
  · intro r hrc _
    refine ⟨hcont r hrc, fun x hx => ?_⟩
    rcases hw.written x hx with hx | hx
    · exact .inl hx
    refine .inr fun hrx => ?_
    obtain ⟨c, hc, hrm⟩ := hrc
    have hs := hsep c hc (ne_nil_of_mem hrm)
    have hb := hr.bounds hc hrm
    unfold Region.Has at hrx
    omega
  · exact hcomplete.addArea hlt hnot h0
      (hr.list_eq_nil hb)

end Init

lemma free_spec (hr : Rep h L) {r : Region} (hc : L.Contains h.areas r) (hu : r.used = true) :
    ∃ L', Rep (h.free (r.addr + 8)) L' ∧ Keeps (·.addr ≠ r.addr) h L (h.free (r.addr + 8)) L' ∧
      (Complete h.areas L (fun _ => False) → Complete (h.free (r.addr + 8)).areas L' fun _ => False) := by
  obtain ⟨h0, h4, -, hl⟩ := hr.header hc
  have hf := hr.fits hc
  have hword : load h.mem r.addr ^^^ usedFlag = r.size := by
    rw [(hr.words r hc).2, word_of_used hu, or_usedFlag_xor hf.2.2.2]
  have hw : Within r.start (r.start + r.len) h (h.store r.addr r.size) :=
    .store (by omega) (by omega) (by omega)
  obtain ⟨L', hrep, hkeeps, hlists, hcont, hcomplete⟩ := hr.exchange_one hc [⟨r.addr, r.size, false⟩]
    ⟨rfl, len_pos _, rfl⟩ (by simp) (hr.clear_of_used hc hu) hw (by
      simp only [mem_singleton, forall_eq]
      exact ⟨hf.2.2.1, load_store⟩)
  have hclear : L'.Clear r.start (r.start + r.len) := by
    unfold Layout.Clear
    rw [hlists]
    exact hr.clear_of_used hc hu
  obtain ⟨hins, hkeeps', hcomplete'⟩ :=
    hrep.insertIntoBucket (r := ⟨r.addr, r.size, false⟩) (hcont _ (by simp)) rfl hclear
  have hfree : h.free (r.addr + 8) = (h.store r.addr r.size).insertIntoBucket r.addr := by
    unfold free
    simp only [UInt32.add_sub_cancel, hword]
  rw [hfree]
  refine ⟨_, hins, hkeeps.trans hkeeps', fun hall => hcomplete' ((hcomplete (hall.mono fun _ => False.elim)).mono ?_)⟩
  rintro p ⟨q, hq, -, rfl⟩
  rw [mem_singleton.1 hq]

end BucketAlloc

end OlliOS
