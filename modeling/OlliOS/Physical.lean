import Mathlib.Logic.Function.Basic
import OlliOS.Lib.Loop

/-!
# Physical memory

`PhysicalMemoryManager` keeps one bit for each frame of 4 KiB, the first frame of a byte in its highest bit; a
bit that is set marks the frame as allocated. The bitmap is eight frames short of 4 GiB, and the byte past its
end is kept as such.
-/

namespace OlliOS

abbrev Bitmap := ℕ → BitVec 8

def bitmapSize : ℕ := 0xFFFFFFFF / 0x8000

namespace Bitmap

def mask (index : ℕ) : BitVec 8 := 0b10000000#8 >>> (index % 8)

def clear (bitmap : Bitmap) (index : ℕ) : Bitmap :=
  Function.update bitmap (index / 8) (bitmap (index / 8) &&& ~~~ mask index)

def mark (bitmap : Bitmap) (index : ℕ) : Bitmap :=
  Function.update bitmap (index / 8) (bitmap (index / 8) ||| mask index)

def Free (bitmap : Bitmap) (index : ℕ) : Prop := bitmap (index / 8) &&& mask index = 0

instance (bitmap : Bitmap) (index : ℕ) : Decidable (bitmap.Free index) := inferInstanceAs (Decidable (_ = _))

def init (bitmap : Bitmap) : Bitmap := fun i => if i < bitmapSize then 0xFF else bitmap i

def registerAvailableMemory (fuel : ℕ) (bitmap : Bitmap) (start length : UInt32) : Option Bitmap :=
  Loop.run (fun (offset, bitmap) =>
    if offset + 0xFFF < length then
      .inl (offset + 0x1000, clear bitmap ((start + offset) / 0x1000).toNat)
    else .inr bitmap) fuel ((0 : UInt32), bitmap)

def reservePhysicalMemory (fuel : ℕ) (bitmap : Bitmap) (start length : UInt32) : Option Bitmap :=
  Loop.run (fun (offset, bitmap) =>
    if offset < length then
      .inl (offset + 0x1000, mark bitmap ((start + offset) / 0x1000).toNat)
    else .inr bitmap) fuel ((0 : UInt32), bitmap)

def allocatePhysicalMemory (bitmap : Bitmap) : Option (ℕ × Bitmap) :=
  ((List.range' 0x100 (0xFFFFFFFF / 0x1000 - 0x100)).find? fun index =>
    decide (bitmap.Free index)).map fun index => (index, bitmap.mark index)

def Fits (reverseMask : UInt32) (index : ℕ) : Prop := UInt32.ofNat index * 0x1000 &&& reverseMask = 0

instance (reverseMask : UInt32) (index : ℕ) : Decidable (Fits reverseMask index) :=
  inferInstanceAs (Decidable (_ = _))

/-- The overload with a mask: the first free frame whose address has a 0 where the mask has a 1. -/
def allocateMasked (bitmap : Bitmap) (reverseMask : UInt32) : Option (ℕ × Bitmap) :=
  ((List.range' 0 (0xFFFFFFFF / 0x1000)).find? fun index =>
    decide (Fits reverseMask index ∧ bitmap.Free index)).map fun index => (index, bitmap.mark index)

def freePhysicalMemory (bitmap : Bitmap) (memory : UInt32) : Bitmap := bitmap.clear (memory / 0x1000).toNat

def freePhysicalMemoryLength (fuel : ℕ) (bitmap : Bitmap) (memory length : UInt32) : Option Bitmap :=
  (Loop.run (Loop.stride (length + 0xFFF) 0x1000 fun i bitmap =>
    some (bitmap.freePhysicalMemory (memory + i))) fuel (0, bitmap)).join

def countFreePhysicalMemory (bitmap : Bitmap) : ℕ :=
  (List.range (0xFFFFFFFF / 0x1000)).countP fun index => decide (bitmap.Free index)

def walked (start : UInt32) (j : ℕ) : ℕ := (start.toNat + 0x1000 * j) % 2 ^ 32 / 0x1000

end Bitmap

end OlliOS
