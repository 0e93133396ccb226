import Mathlib.Tactic.IntervalCases
import OlliOS.Physical

/-!
# The frame bitmap

Marking and clearing a frame change the set of free frames at that frame only (`free_mark`,
`free_clear`). The two loops are then described by the set of frames they touch.
-/

namespace OlliOS

open BitVec UInt32

namespace Bitmap

variable {bitmap : Bitmap} {i f : ℕ}

lemma mask_eq_twoPow (i : ℕ) : mask i = twoPow 8 (7 - i % 8) := by
  have h : ∀ k < 8, 0b10000000#8 >>> k = twoPow 8 (7 - k) := by decide
  exact h (i % 8) (Nat.mod_lt _ (by decide))

lemma bit_lt (f : ℕ) : 7 - f % 8 < 8 := by omega

lemma free_iff : bitmap.Free f ↔ (bitmap (f / 8)).getLsbD (7 - f % 8) = false := by
  unfold Free
  rw [mask_eq_twoPow, and_twoPow]
  have hne : twoPow 8 (7 - f % 8) ≠ 0#8 := by
    intro h
    have := congrArg (fun x => x.getLsbD (7 - f % 8)) h
    simp [bit_lt] at this
  split_ifs with hb
  · simp [hb, hne]
  · simp [hb]

lemma bit_eq_iff (h : f / 8 = i / 8) : 7 - i % 8 = 7 - f % 8 ↔ f = i := by omega

lemma free_clear : (bitmap.clear i).Free f ↔ f = i ∨ bitmap.Free f := by
  rw [free_iff, free_iff, clear, mask_eq_twoPow]
  rcases eq_or_ne (f / 8) (i / 8) with hb | hb
  · rw [hb, Function.update_self]
    simp only [getLsbD_and, getLsbD_not, getLsbD_twoPow, bit_eq_iff hb]
    by_cases hfi : f = i
    · simp [hfi]
    · simp [hfi, bit_lt]
  · rw [Function.update_of_ne hb]
    have hfi : f ≠ i := fun h => hb (by rw [h])
    simp [hfi]

lemma free_mark : (bitmap.mark i).Free f ↔ f ≠ i ∧ bitmap.Free f := by
  rw [free_iff, free_iff, mark, mask_eq_twoPow]
  rcases eq_or_ne (f / 8) (i / 8) with hb | hb
  · rw [hb, Function.update_self]
    simp only [getLsbD_or, getLsbD_twoPow, bit_eq_iff hb]
    by_cases hfi : f = i
    · simp [hfi, bit_lt]
    · simp [hfi]
  · rw [Function.update_of_ne hb]
    have hfi : f ≠ i := fun h => hb (by rw [h])
    simp [hfi]

lemma not_free_init (hf : f < 8 * bitmapSize) : ¬ bitmap.init.Free f := by
  rw [free_iff, init, if_pos (by omega)]
  have h : ∀ k < 8, (0xFF : BitVec 8).getLsbD k = true := by decide
  rw [h _ (bit_lt f)]
  decide

lemma toNat_walked {start offset : UInt32} {j : ℕ} (h : offset.toNat = 0x1000 * j) :
    ((start + offset) / 0x1000).toNat = walked start j := by
  simp [walked, h]

lemma registerAvailableMemory_spec (fuel : ℕ) (bitmap : Bitmap) (start length : UInt32) :
    (∀ b, bitmap.registerAvailableMemory fuel start length = some b →
      ∀ f, b.Free f ↔ bitmap.Free f ∨ ∃ j < length.toNat / 0x1000, f = walked start j) ∧
    (length.toNat / 0x1000 < fuel → ∃ b, bitmap.registerAvailableMemory fuel start length = some b) := by
  -- after `j` passes the offset is `j` pages and the first `j` frames are free
  refine And.imp id (fun hex h => hex (by simpa using h)) (Loop.run_of_variant
    (I := fun s : UInt32 × Bitmap => ∃ j ≤ length.toNat / 0x1000, s.1.toNat = 0x1000 * j ∧
      ∀ f, s.2.Free f ↔ bitmap.Free f ∨ ∃ k < j, f = walked start k)
    (fun s : UInt32 × Bitmap => length.toNat / 0x1000 - s.1.toNat / 0x1000) ?_ fuel (0, bitmap)
    ⟨0, by omega, rfl, by simp⟩)
  rintro ⟨offset, b⟩ ⟨j, hj, hoff, hfree⟩
  have hlen := length.toNat_lt
  have hsum : (offset + 0xFFF).toNat = 0x1000 * j + 0xFFF := by
    rw [UInt32.toNat_add, hoff]
    show (0x1000 * j + 0xFFF) % 2 ^ 32 = _
    omega
  simp only at hoff hfree ⊢
  split_ifs with hlt
  · rw [lt_iff_toNat_lt, hsum] at hlt
    have hnext : (offset + 0x1000).toNat = 0x1000 * (j + 1) := by
      rw [UInt32.toNat_add, hoff]
      show (0x1000 * j + 0x1000) % 2 ^ 32 = _
      omega
    refine .inl ⟨_, rfl, ⟨j + 1, by omega, hnext, fun f => ?_⟩, ?_⟩
    · rw [toNat_walked hoff, free_clear, hfree]
      simp only [Nat.lt_succ_iff_lt_or_eq, or_and_right, exists_or, exists_eq_left]
      exact or_comm.trans or_assoc
    · simp only [hoff]
      omega
  · rw [lt_iff_toNat_lt, hsum] at hlt
    refine .inr ⟨b, rfl, fun f => ?_⟩
    rw [hfree, show j = length.toNat / 0x1000 by omega]

lemma reservePhysicalMemory_spec (fuel : ℕ) (bitmap : Bitmap) (start length : UInt32)
    (hlen : length.toNat ≤ 0xFFFFF000) :
    (∀ b, bitmap.reservePhysicalMemory fuel start length = some b →
      ∀ f, b.Free f ↔ bitmap.Free f ∧ ∀ j, 0x1000 * j < length.toNat → f ≠ walked start j) ∧
    ((length.toNat + 0xFFF) / 0x1000 < fuel → ∃ b, bitmap.reservePhysicalMemory fuel start length = some b) := by
  refine And.imp id (fun hex h => hex (by simpa using h)) (Loop.run_of_variant
    (I := fun s : UInt32 × Bitmap => ∃ j ≤ (length.toNat + 0xFFF) / 0x1000, s.1.toNat = 0x1000 * j ∧
      ∀ f, s.2.Free f ↔ bitmap.Free f ∧ ∀ k < j, f ≠ walked start k)
    (fun s : UInt32 × Bitmap => (length.toNat + 0xFFF) / 0x1000 - s.1.toNat / 0x1000) ?_ fuel (0, bitmap)
    ⟨0, by omega, rfl, by simp⟩)
  rintro ⟨offset, b⟩ ⟨j, hj, hoff, hfree⟩
  simp only at hoff hfree ⊢
  split_ifs with hlt
  · rw [lt_iff_toNat_lt, hoff] at hlt
    have hnext : (offset + 0x1000).toNat = 0x1000 * (j + 1) := by
      rw [UInt32.toNat_add, hoff]
      show (0x1000 * j + 0x1000) % 2 ^ 32 = _
      omega
    refine .inl ⟨_, rfl, ⟨j + 1, by omega, hnext, fun f => ?_⟩, ?_⟩
    · rw [toNat_walked hoff, free_mark, hfree]
      simp only [Nat.lt_succ_iff_lt_or_eq, or_imp, forall_and, forall_eq]
      exact and_comm.trans and_assoc
    · simp only [hoff]
      omega
  · rw [lt_iff_toNat_lt, hoff] at hlt
    refine .inr ⟨b, rfl, fun f => ?_⟩
    rw [hfree]
    refine and_congr_right fun _ => forall_congr' fun k => ?_
    rw [show k < j ↔ 0x1000 * k < length.toNat by omega]

lemma reservePhysicalMemory_eq_none (fuel : ℕ) (bitmap : Bitmap) {start length : UInt32}
    (hlen : 0xFFFFF000 < length.toNat) :
    bitmap.reservePhysicalMemory fuel start length = none := by
  refine Loop.run_eq_none (I := fun s : UInt32 × Bitmap => s.1.toNat % 0x1000 = 0) ?_ fuel (0, bitmap) rfl
  rintro ⟨offset, b⟩ hoff
  have hlt : offset < length := by
    have := offset.toNat_lt
    rw [lt_iff_toNat_lt]
    simp only at hoff
    omega
  refine ⟨_, if_pos hlt, ?_⟩
  simp only at hoff ⊢
  rw [UInt32.toNat_add]
  show (offset.toNat + 0x1000) % 2 ^ 32 % 0x1000 = 0
  omega

end Bitmap

def fullBitmap : Bitmap := fun _ => 0xFF

lemma not_free_full (f : ℕ) : ¬ fullBitmap.Free f := by
  have hall : ∀ k < 8, (0xFF : BitVec 8).getLsbD k = true := by decide
  rw [Bitmap.free_iff, fullBitmap, hall _ (Bitmap.bit_lt f)]
  decide

end OlliOS
