import OlliOS.Mappings

/-!
# Ranges of pages

The operations that take a length in bytes. `mapMemory` makes it a number of pages first; the other two
count the bytes up to the length and `0xFFF`, on 32 bits.
-/

namespace OlliOS

namespace Machine

def unbindVirtualPageLength (fuel : ℕ) (s : Machine) (page length : UInt32) : Option Machine :=
  (Loop.run (Loop.stride (length + 4095) 4096 fun i s =>
    (s.unbindVirtualPage ((page + i) / 0x1000).toNat).map (·.1)) fuel (0, s)).join

def mapMemoryLength (s : Machine) (page physical length : UInt32) (mode : UserMode) : Option Machine :=
  let count := if length &&& 0xFFF = 0 then length >>> 12 else (length >>> 12) + 1
  (List.range count.toNat).foldlM (fun s i =>
    s.mapMemory ((page + UInt32.ofNat (4096 * i)) / 0x1000).toNat
      (physical + UInt32.ofNat (4096 * i)).toBitVec mode) s

end Machine

def Overlaps (address length : UInt32) (page : ℕ) : Prop :=
  address.toNat < (page + 1) * 0x1000 ∧ page * 0x1000 < address.toNat + length.toNat

/-- `freePhysicalMemory` of the range returns, with the frames of the range free beside those that were. -/
def FreesExactly (memory length : UInt32) : Prop :=
  ∀ bitmap : Bitmap, ∃ fuel b, bitmap.freePhysicalMemoryLength fuel memory length = some b ∧
    ∀ f < 1024 * 1024, b.Free f ↔ bitmap.Free f ∨ Overlaps memory length f

/-- The slots of the pages of a range. -/
def SlotsOf (page length : UInt32) (i : ℕ) : Prop := ∃ q, Overlaps page length q ∧ i = q / 1024

/-- `unbindVirtualPage` of the range returns, with no page of the range present and all others as they
were. -/
def UnbindsExactly (page length : UInt32) : Prop :=
  ∀ s, SlotTables (SlotsOf page length) s → ∃ fuel s',
    s.unbindVirtualPageLength fuel page length = some s' ∧
    ∀ q < 1024 * 1024, (Overlaps page length q → s'.mapping q = none) ∧
      (¬ Overlaps page length q → s'.mapping q = s.mapping q)

/-- When the range was not mapped, `mapMemory` is undone by `unbindVirtualPage`. -/
def RestoresMappings (page length : UInt32) : Prop :=
  ∀ s physical mode s₁, PageTree (SlotsOf page length) s →
    (∀ q < 1024 * 1024, Overlaps page length q → s.mapping q = none) →
    s.mapMemoryLength page physical length mode = some s₁ →
    ∃ fuel s', s₁.unbindVirtualPageLength fuel page length = some s' ∧
      ∀ q < window, s'.mapping q = s.mapping q

end OlliOS
