import OlliOS.Lib.Stepping
import OlliOS.Physical

/-!
# The frames that are handed out

Beside the bitmap the state keeps which frames are handed out, were registered at some time, and were reserved
after they were last registered. `returned` is the frame of the last call if that was an allocation, without
one for the null pointer.
-/

namespace OlliOS

def PageRange (start length : UInt32) : Prop :=
  start % 0x1000 = 0 ∧ length % 0x1000 = 0 ∧ start.toNat + length.toNat ≤ 0xFFFF8000

instance (start length : UInt32) : Decidable (PageRange start length) := inferInstanceAs (Decidable (_ ∧ _))

def InRange (start length : UInt32) (f : ℕ) : Prop :=
  start.toNat / 0x1000 ≤ f ∧ f < start.toNat / 0x1000 + length.toNat / 0x1000

instance (start length : UInt32) (f : ℕ) : Decidable (InRange start length f) :=
  inferInstanceAs (Decidable (_ ∧ _))

structure FrameState where
  bitmap : Bitmap
  handed : ℕ → Bool
  registered : ℕ → Bool
  reserved : ℕ → Bool
  returned : Option ℕ

inductive FrameCall
  | registerAvailableMemory (start length : UInt32)
  | reservePhysicalMemory (start length : UInt32)
  | allocatePhysicalMemory
  | allocateMasked (reverseMask : UInt32)
  | freePhysicalMemory (f : ℕ)

namespace FrameState

/-- `memory` is what the bytes of the bitmap and those behind it are before `init`. -/
def init (memory : Bitmap) : FrameState := ⟨memory.init, fun _ => false, fun _ => false, fun _ => false, none⟩

/-- The frame was registered, not reserved since, and is not handed out. -/
def Available (s : FrameState) (f : ℕ) : Prop :=
  s.registered f = true ∧ s.reserved f = false ∧ s.handed f = false

/-- No frame is registered or reserved while it is handed out, and only such a frame is freed. -/
def Legal (s : FrameState) : FrameCall → Prop
  | .registerAvailableMemory start length | .reservePhysicalMemory start length =>
    PageRange start length ∧ ∀ j < length.toNat / 0x1000, s.handed (start.toNat / 0x1000 + j) = false
  | .allocatePhysicalMemory | .allocateMasked _ => True
  | .freePhysicalMemory f => s.handed f = true

instance (s : FrameState) : (a : FrameCall) → Decidable (s.Legal a)
  | .registerAvailableMemory _ _ | .reservePhysicalMemory _ _ => inferInstanceAs (Decidable (_ ∧ _))
  | .allocatePhysicalMemory | .allocateMasked _ => inferInstanceAs (Decidable True)
  | .freePhysicalMemory _ => inferInstanceAs (Decidable (_ = _))

def allocated (s : FrameState) : Option (ℕ × Bitmap) → FrameState
  | none => { s with returned := none }
  | some (f, bitmap) =>
    { s with bitmap := bitmap, handed := Function.update s.handed f true, returned := some f }

def passes : ℕ := 0x100000

def step (s : FrameState) (a : FrameCall) : Option FrameState :=
  if s.Legal a then
    match a with
    | .registerAvailableMemory start length =>
      (s.bitmap.registerAvailableMemory passes start length).map fun bitmap =>
        { s with
          bitmap := bitmap
          registered := fun f => s.registered f || decide (InRange start length f)
          reserved := fun f => s.reserved f && !decide (InRange start length f)
          returned := none }
    | .reservePhysicalMemory start length =>
      (s.bitmap.reservePhysicalMemory passes start length).map fun bitmap =>
        { s with
          bitmap := bitmap
          reserved := fun f => s.reserved f || decide (InRange start length f)
          returned := none }
    | .allocatePhysicalMemory => some (s.allocated s.bitmap.allocatePhysicalMemory)
    | .allocateMasked reverseMask => some (s.allocated (s.bitmap.allocateMasked reverseMask))
    | .freePhysicalMemory f =>
      some { s with
        bitmap := s.bitmap.freePhysicalMemory (UInt32.ofNat f * 0x1000)
        handed := Function.update s.handed f false
        returned := none }
  else none

end FrameState

def FrameCall.Wants : FrameCall → ℕ → Prop
  | .allocatePhysicalMemory, f => 0x100000 ≤ f * 0x1000
  | .allocateMasked reverseMask, f => Bitmap.Fits reverseMask f
  | _, _ => False

/-- The bitmap has a free frame that meets `P`, or no clear bit of the byte behind it stands for one. -/
def Bitmap.EndsInside (bitmap : Bitmap) (P : ℕ → Prop) : Prop :=
  (∃ f < 8 * bitmapSize, P f ∧ bitmap.Free f) ∨
    ∀ f, 8 * bitmapSize ≤ f → f < 0xFFFFF → P f → ¬ bitmap.Free f

/-- The scan of an allocation, if the call is one, ends with a bit of the bitmap. -/
def FrameState.StaysInBitmap (s : FrameState) (a : FrameCall) : Prop := s.bitmap.EndsInside a.Wants

def FrameCall.Touches (returned : Option ℕ) : FrameCall → ℕ → Prop
  | .registerAvailableMemory start length, f | .reservePhysicalMemory start length, f =>
    InRange start length f
  | .allocatePhysicalMemory, f | .allocateMasked _, f => returned = some f
  | .freePhysicalMemory g, f => f = g

/-- A call from `s` to `s'` does what it is for: the frame it returns was available, it is the lowest
of those that the call may return, and the status of the frames the call is not about stays. -/
structure FrameStep (s : FrameState) (a : FrameCall) (s' : FrameState) : Prop where
  returned : ∀ f, s'.returned = some f → s.Available f ∧ a.Wants f
  lowest : ∀ f, a.Wants f → s.Available f → ∃ g ≤ f, s'.returned = some g
  others : ∀ f, ¬ a.Touches s'.returned f → (s'.bitmap.Free f ↔ s.bitmap.Free f)

end OlliOS
