import OlliOS.Physical

/-!
# Accesses to the bitmap

The loops of `PhysicalMemoryManager` pass by pass, and the bytes of `_bitmap` that their passes read or
write. A pass that clears or marks a frame reads and writes the same byte.
-/

namespace OlliOS

inductive PhysicalCall
  | allocatePhysicalMemory
  | allocateMasked (reverseMask : UInt32)
  | countFreePhysicalMemory
  | registerAvailableMemory (start length : UInt32)
  | reservePhysicalMemory (start length : UInt32)
  | freePhysicalMemory (memory : UInt32)
  | freePhysicalMemoryLength (memory length : UInt32)

namespace Bitmap

def scanBody (test : ℕ → Bool) (index : ℕ) : ℕ ⊕ Option ℕ :=
  if index < 0xFFFFFFFF / 0x1000 then
    if test index then .inr (some index) else .inl (index + 1)
  else .inr none

def countBody (bitmap : Bitmap) : ℕ × ℕ → (ℕ × ℕ) ⊕ ℕ := fun (index, count) =>
  if index < 0xFFFFFFFF / 0x1000 then
    .inl (index + 1, if bitmap.Free index then count + 1 else count)
  else .inr count

def walkBody (goes : UInt32 → Bool) (set : Bitmap → ℕ → Bitmap) (start : UInt32) :
    UInt32 × Bitmap → (UInt32 × Bitmap) ⊕ Bitmap := fun (offset, bitmap) =>
  if goes offset then .inl (offset + 0x1000, set bitmap ((start + offset) / 0x1000).toNat) else .inr bitmap

def WalkAccesses (bitmap : Bitmap) (goes : UInt32 → Bool) (set : Bitmap → ℕ → Bitmap) (start : UInt32)
    (byte : ℕ) : Prop :=
  ∃ n offset b, Loop.after (walkBody goes set start) n (0, bitmap) = some (offset, b) ∧
    goes offset = true ∧ byte = ((start + offset) / 0x1000).toNat / 8

def Accesses (bitmap : Bitmap) : PhysicalCall → ℕ → Prop
  | .allocatePhysicalMemory, byte => ∃ n index,
    Loop.after (scanBody fun index => decide (bitmap.Free index)) n 0x100 = some index ∧
      index < 0xFFFFFFFF / 0x1000 ∧ byte = index / 8
  | .allocateMasked reverseMask, byte => ∃ n index,
    Loop.after (scanBody fun index => decide (Fits reverseMask index ∧ bitmap.Free index)) n 0 = some index ∧
      index < 0xFFFFFFFF / 0x1000 ∧ Fits reverseMask index ∧ byte = index / 8
  | .countFreePhysicalMemory, byte => ∃ n index count,
    Loop.after bitmap.countBody n (0, 0) = some (index, count) ∧ index < 0xFFFFFFFF / 0x1000 ∧ byte = index / 8
  | .registerAvailableMemory start length, byte =>
    bitmap.WalkAccesses (fun offset => offset + 0xFFF < length) clear start byte
  | .reservePhysicalMemory start length, byte => bitmap.WalkAccesses (fun offset => offset < length) mark start byte
  | .freePhysicalMemory memory, byte => byte = (memory / 0x1000).toNat / 8
  | .freePhysicalMemoryLength memory length, byte =>
    bitmap.WalkAccesses (fun offset => offset < length + 0xFFF) clear memory byte

/-- What keeps a call inside of the bitmap: the search ends at a frame that has a bit, and the pages of a
range have one. -/
def StaysInside (bitmap : Bitmap) : PhysicalCall → Prop
  | .allocatePhysicalMemory => ∃ f, 0x100 ≤ f ∧ f < 8 * bitmapSize ∧ bitmap.Free f
  | .allocateMasked reverseMask =>
    (∃ f < 8 * bitmapSize, Fits reverseMask f ∧ bitmap.Free f) ∨
      ∀ f, 8 * bitmapSize ≤ f → f < 0xFFFFFFFF / 0x1000 → ¬ Fits reverseMask f
  | .countFreePhysicalMemory => False
  | .registerAvailableMemory start length =>
    ∀ j, 0x1000 * j + 0xFFF < length.toNat → walked start j < 8 * bitmapSize
  | .reservePhysicalMemory start length => ∀ j, 0x1000 * j < length.toNat → walked start j < 8 * bitmapSize
  | .freePhysicalMemory memory => memory.toNat / 0x1000 < 8 * bitmapSize
  | .freePhysicalMemoryLength memory length =>
    ∀ j, 0x1000 * j < (length + 0xFFF).toNat → walked memory j < 8 * bitmapSize

end Bitmap

end OlliOS
