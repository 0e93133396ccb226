import OlliOS.PhysicalAccess
import OlliOS.Proofs.Physical

/-!
# Accesses to the bitmap

The searches go on for seven frames more than the bitmap has bits.
-/

namespace OlliOS.Bitmap

open List Option UInt32 Loop

variable {bitmap : Bitmap} {fuel : ℕ}

lemma frames_eq : 8 * bitmapSize = 1048568 := by decide

/-! ## Searches -/

section Scan

variable {test : ℕ → Bool}

lemma after_scan {i n t : ℕ} : after (scanBody test) n i = some t ↔
    t = i + n ∧ ∀ k < n, i + k < 1048575 ∧ test (i + k) = false := by
  induction n generalizing t with
  | zero =>
    constructor
    · intro h
      cases h
      exact ⟨rfl, fun k hk => absurd hk (Nat.not_lt_zero k)⟩
    · rintro ⟨rfl, -⟩
      rfl
  | succ n ih =>
    rw [Loop.after, bind_eq_some_iff]
    constructor
    · rintro ⟨u, hu, hstep⟩
      obtain ⟨rfl, hbefore⟩ := ih.1 hu
      unfold scanBody at hstep
      split_ifs at hstep with hlt htest
      · cases hstep
      · cases hstep
        refine ⟨by omega, fun k hk => ?_⟩
        rcases Nat.lt_succ_iff_lt_or_eq.1 hk with hk | rfl
        · exact hbefore k hk
        · exact ⟨hlt, by simpa using htest⟩
      · cases hstep
    · rintro ⟨rfl, hbefore⟩
      refine ⟨i + n, ih.2 ⟨rfl, fun k hk => hbefore k (by omega)⟩, ?_⟩
      obtain ⟨hlt, htest⟩ := hbefore n (by omega)
      unfold scanBody
      rw [if_pos hlt, htest]
      rfl

lemma run_scan : ∀ {n i : ℕ}, i + n = 1048575 → ∀ {fuel : ℕ}, n < fuel →
    run (scanBody test) fuel i = some ((List.range' i n).find? test)
  | 0, i, hi, fuel + 1, _ => by
    rw [run_succ, scanBody, if_neg (by omega)]
    rfl
  | n + 1, i, hi, fuel + 1, hfuel => by
    rw [run_succ, scanBody, if_pos (by omega), range'_succ]
    rcases htest : test i with _ | _
    · rw [find?_cons_of_neg (by simp [htest])]
      exact run_scan (by omega) (by omega)
    · rw [find?_cons_of_pos htest]
      rfl

end Scan

lemma accesses_allocate_iff : (∀ byte, bitmap.Accesses .allocatePhysicalMemory byte → byte < bitmapSize) ↔
    bitmap.StaysInside .allocatePhysicalMemory := by
  have hsize := frames_eq
  simp only [Accesses, StaysInside, after_scan]
  constructor
  · intro h
    by_contra hnone
    push Not at hnone
    -- without a free frame the search comes to the first frame without a bit
    refine absurd (h _ ⟨8 * bitmapSize - 0x100, 8 * bitmapSize, ⟨by omega, fun k hk => ⟨by omega, ?_⟩⟩,
      by omega, rfl⟩) (by omega)
    exact decide_eq_false (hnone (0x100 + k) (by omega) (by omega))
  · rintro ⟨f, hlow, hf, hfree⟩ byte ⟨n, index, ⟨rfl, hbefore⟩, -, rfl⟩
    have hle : 0x100 + n ≤ f := by
      by_contra hlt
      have hno := (hbefore (f - 0x100) (by omega)).2
      rw [Nat.add_sub_cancel' hlow] at hno
      exact of_decide_eq_false hno hfree
    omega

lemma accesses_allocateMasked_iff (reverseMask : UInt32) :
    (∀ byte, bitmap.Accesses (.allocateMasked reverseMask) byte → byte < bitmapSize) ↔
      bitmap.StaysInside (.allocateMasked reverseMask) := by
  simp only [Accesses, StaysInside, after_scan]
  constructor
  · intro h
    by_contra hnone
    push Not at hnone
    obtain ⟨hnone, hfits⟩ := hnone
    -- the first frame without a bit that fits is looked at
    have hex : ∃ g, 8 * bitmapSize ≤ g ∧ g < 0xFFFFFFFF / 0x1000 ∧ Fits reverseMask g := hfits
    obtain ⟨hlow, hhigh, hfit⟩ := Nat.find_spec hex
    refine absurd (h _ ⟨Nat.find hex, Nat.find hex, ⟨by omega, fun k hk => ⟨by omega, ?_⟩⟩, hhigh, hfit, rfl⟩)
      (by omega)
    rw [Nat.zero_add]
    refine decide_eq_false fun hboth => ?_
    rcases Nat.lt_or_ge k (8 * bitmapSize) with hlt | hge
    · exact hnone k hlt hboth.1 hboth.2
    · exact Nat.find_min hex hk ⟨hge, by omega, hboth.1⟩
  · rintro h byte ⟨n, index, ⟨rfl, hbefore⟩, hlt, hfit, rfl⟩
    rw [Nat.zero_add] at hlt hfit ⊢
    rcases h with ⟨f, hf, hfitf, hfree⟩ | hno
    · have hle : n ≤ f := by
        by_contra hlt
        have hno := (hbefore f (by omega)).2
        rw [Nat.zero_add] at hno
        exact of_decide_eq_false hno ⟨hfitf, hfree⟩
      omega
    · have hin : n < 8 * bitmapSize := by
        by_contra hge
        exact hno n (by omega) hlt hfit
      omega

lemma after_count (bitmap : Bitmap) (n : ℕ) (hn : n ≤ 1048575) : ∃ count, after bitmap.countBody n (0, 0) = some (n, count) := by
  induction n with
  | zero => exact ⟨0, rfl⟩
  | succ n ih =>
    obtain ⟨count, hcount⟩ := ih (by omega)
    refine ⟨if bitmap.Free n then count + 1 else count, ?_⟩
    rw [Loop.after, hcount, bind_some, countBody]
    simp only [if_pos (show n < 0xFFFFFFFF / 0x1000 by omega)]
    rfl

lemma accesses_count : bitmap.Accesses .countFreePhysicalMemory bitmapSize := by
  have hsize := frames_eq
  obtain ⟨count, hcount⟩ := after_count bitmap (8 * bitmapSize) (by omega)
  exact ⟨_, _, count, hcount, by omega, by omega⟩

/-! ## Ranges -/

section Walk

variable {goes : UInt32 → Bool} {set : Bitmap → ℕ → Bitmap} {start : UInt32} {n : ℕ}

lemma toNat_walked_ofNat (start : UInt32) (j : ℕ) :
    ((start + UInt32.ofNat (0x1000 * j)) / 0x1000).toNat = walked start j := by
  change (start.toNat + 0x1000 * j % 2 ^ 32) % 2 ^ 32 / 0x1000 = _
  unfold walked
  omega

lemma after_walk_offset {offset : UInt32} {b : Bitmap}
    (h : after (walkBody goes set start) n (0, bitmap) = some (offset, b)) :
    offset = ofNat (0x1000 * n) := by
  induction n generalizing offset b with
  | zero =>
    obtain ⟨rfl, -⟩ := Prod.mk.inj (some.inj h)
    rfl
  | succ n ih =>
    rw [Loop.after, bind_eq_some_iff] at h
    obtain ⟨⟨o, c⟩, hoc, hstep⟩ := h
    unfold walkBody at hstep
    simp only at hstep
    split_ifs at hstep
    · obtain ⟨rfl, -⟩ := Prod.mk.inj (some.inj hstep)
      rw [ih hoc, Nat.mul_succ, ofNat_add]
      rfl
    · cases hstep

lemma after_walk (bitmap : Bitmap) (set : Bitmap → ℕ → Bitmap) (start : UInt32) (h : ∀ k < n, goes (ofNat (0x1000 * k)) = true) :
    ∃ b, after (walkBody goes set start) n (0, bitmap) = some (ofNat (0x1000 * n), b) := by
  induction n with
  | zero => exact ⟨bitmap, rfl⟩
  | succ n ih =>
    obtain ⟨b, hb⟩ := ih fun k hk => h k (by omega)
    refine ⟨set b ((start + ofNat (0x1000 * n)) / 0x1000).toNat, ?_⟩
    rw [Loop.after, hb, bind_some, walkBody]
    simp only [h n (by omega)]
    rw [Nat.mul_succ, ofNat_add]
    rfl

lemma walkAccesses_iff (bound : ℕ) (hbound : bound ≤ 2 ^ 32)
    (hgoes : ∀ offset : UInt32, offset.toNat % 0x1000 = 0 → (goes offset = true ↔ offset.toNat < bound)) :
    (∀ byte, bitmap.WalkAccesses goes set start byte → byte < bitmapSize) ↔
      ∀ j, 0x1000 * j < bound → walked start j < 8 * bitmapSize := by
  have hto : ∀ j, 0x1000 * j < bound → (ofNat (0x1000 * j)).toNat = 0x1000 * j := fun j hj =>
    toNat_ofNat_of_lt' (by rw [size]; omega)
  have hgo : ∀ j, 0x1000 * j < bound → goes (ofNat (0x1000 * j)) = true := fun j hj => by
    rwa [hgoes _ (by rw [hto j hj]; omega), hto j hj]
  constructor
  · intro h j hj
    obtain ⟨b, hb⟩ := after_walk bitmap set start fun k (hk : k < j) => hgo k (by omega)
    have hin := h _ ⟨j, _, b, hb, hgo j hj, rfl⟩
    rw [toNat_walked_ofNat] at hin
    omega
  · rintro h byte ⟨n, offset, b, hafter, hgoes', rfl⟩
    obtain rfl := after_walk_offset hafter
    -- a counter that has wrapped around is at an earlier page again
    have hmod : (ofNat (0x1000 * n)).toNat = 0x1000 * (n % 1048576) := by
      rw [toNat_ofNat']
      omega
    rw [hgoes _ (by omega), hmod] at hgoes'
    have hin := h _ hgoes'
    rw [toNat_walked_ofNat]
    have hsame : walked start n = walked start (n % 1048576) := by
      unfold walked
      omega
    omega

end Walk

/-! ## The functions -/

lemma allocatePhysicalMemory_eq_run (hfuel : 1048575 < fuel) :
    (run (scanBody fun index => decide (bitmap.Free index)) fuel 0x100).map
      (Option.map fun index => (index, bitmap.mark index)) = some bitmap.allocatePhysicalMemory := by
  rw [run_scan (show 0x100 + 1048319 = 1048575 by omega) (by omega)]
  rfl

lemma allocateMasked_eq_run (hfuel : 1048575 < fuel) (reverseMask : UInt32) :
    (run (scanBody fun index => decide (Fits reverseMask index ∧ bitmap.Free index)) fuel 0).map
      (Option.map fun index => (index, bitmap.mark index)) = some (bitmap.allocateMasked reverseMask) := by
  rw [run_scan (Nat.zero_add _) hfuel]
  rfl

lemma run_count : ∀ (n : ℕ) {i count fuel : ℕ}, i + n = 1048575 → n < fuel → run bitmap.countBody fuel (i, count) =
      some (count + (List.range' i n).countP fun index => decide (bitmap.Free index))
  | 0, i, count, fuel + 1, hi, _ => by
    rw [run_succ, countBody]
    simp only [if_neg (show ¬ i < 0xFFFFFFFF / 0x1000 by omega)]
    rfl
  | n + 1, i, count, fuel + 1, hi, hfuel => by
    rw [run_succ, countBody]
    simp only [if_pos (show i < 0xFFFFFFFF / 0x1000 by omega)]
    rw [run_count n (by omega) (by omega), range'_succ, countP_cons]
    split_ifs <;> simp_all [Nat.add_assoc, Nat.add_comm]

lemma countFreePhysicalMemory_eq_run (hfuel : 1048575 < fuel) :
    run bitmap.countBody fuel (0, 0) = some bitmap.countFreePhysicalMemory := by
  rw [run_count 1048575 (Nat.zero_add _) hfuel, Nat.zero_add, ← range_eq_range']
  rfl

lemma registerAvailableMemory_eq_run (fuel : ℕ) (start length : UInt32) :
    bitmap.registerAvailableMemory fuel start length =
      run (walkBody (fun offset => offset + 0xFFF < length) clear start) fuel (0, bitmap) := by
  unfold registerAvailableMemory walkBody
  simp only [decide_eq_true_eq]

lemma reservePhysicalMemory_eq_run (fuel : ℕ) (start length : UInt32) :
    bitmap.reservePhysicalMemory fuel start length =
      run (walkBody (fun offset => offset < length) mark start) fuel (0, bitmap) := by
  unfold reservePhysicalMemory walkBody
  simp only [decide_eq_true_eq]

lemma freePhysicalMemoryLength_eq_run (fuel : ℕ) (memory length : UInt32) :
    bitmap.freePhysicalMemoryLength fuel memory length =
      run (walkBody (fun offset => offset < length + 0xFFF) clear memory) fuel (0, bitmap) := by
  have hgen : ∀ (fuel : ℕ) (s : UInt32 × Bitmap), (run (stride (length + 0xFFF) 0x1000 fun i bitmap =>
      some (bitmap.freePhysicalMemory (memory + i))) fuel s).join =
      run (walkBody (fun offset => offset < length + 0xFFF) clear memory) fuel s := by
    intro fuel
    induction fuel with
    | zero => exact fun _ => rfl
    | succ fuel ih =>
      rintro ⟨offset, b⟩
      rw [run_succ, run_succ, stride, walkBody]
      simp only [decide_eq_true_eq]
      split_ifs
      · exact ih _
      · rfl
  exact hgen fuel (0, bitmap)

/-- A call uses no byte outside of the bitmap exactly if its search ends in time, or its range has bits. -/
theorem accesses_inside_iff (bitmap : Bitmap) (call : PhysicalCall) :
    (∀ byte, bitmap.Accesses call byte → byte < bitmapSize) ↔ bitmap.StaysInside call := by
  cases call with
  | allocatePhysicalMemory => exact accesses_allocate_iff
  | allocateMasked reverseMask => exact accesses_allocateMasked_iff reverseMask
  | countFreePhysicalMemory => exact iff_of_false (fun h => absurd (h _ accesses_count) (lt_irrefl _)) id
  | registerAvailableMemory start length =>
    refine (walkAccesses_iff (length.toNat - 0xFFF) ?_ fun offset hal => ?_).trans ?_
    · have := length.toNat_lt
      omega
    · have := offset.toNat_lt
      rw [decide_eq_true_iff, UInt32.lt_iff_toNat_lt, UInt32.toNat_add]
      change (offset.toNat + 0xFFF) % 2 ^ 32 < length.toNat ↔ _
      omega
    · refine forall_congr' fun j => ?_
      rw [show 0x1000 * j < length.toNat - 0xFFF ↔ 0x1000 * j + 0xFFF < length.toNat by omega]
  | reservePhysicalMemory start length =>
    refine walkAccesses_iff _ length.toNat_lt.le fun offset _ => ?_
    rw [decide_eq_true_iff, lt_iff_toNat_lt]
  | freePhysicalMemory memory =>
    simp only [Accesses, StaysInside, forall_eq]
    change memory.toNat / 0x1000 / 8 < _ ↔ _
    omega
  | freePhysicalMemoryLength memory length =>
    refine walkAccesses_iff _ (length + 0xFFF).toNat_lt.le fun offset _ => ?_
    rw [decide_eq_true_iff, lt_iff_toNat_lt]

/-- With no frame free, the byte after the bitmap is read before the null pointer is returned. -/
theorem accesses_outside : fullBitmap.allocatePhysicalMemory = none ∧
    fullBitmap.Accesses .allocatePhysicalMemory bitmapSize := by
  have hsize := frames_eq
  refine ⟨?_, 8 * bitmapSize - 0x100, 8 * bitmapSize, after_scan.2 ⟨by omega, fun k hk => ⟨by omega, ?_⟩⟩,
    by omega, by omega⟩
  · rw [allocatePhysicalMemory, find?_eq_none.2 fun f _ => by simpa using not_free_full f]
    rfl
  · exact decide_eq_false (not_free_full _)

end OlliOS.Bitmap
