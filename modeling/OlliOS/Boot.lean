import OlliOS.Physical

/-!
# The memory map at boot

`initMemory` up to the point where paging is set up, with the entries of the multiboot memory map and the
modules as lists. The heap area that is set up when there is no memory map is left out.
-/

namespace OlliOS

structure MmapEntry where
  addr : UInt64
  len : UInt64
  type : UInt32

structure BootModule where
  modStart : UInt32
  modEnd : UInt32

namespace MmapEntry

def aboveKernel (kernelEnd : UInt32) (mmap : MmapEntry) : Option (UInt32 × UInt32) :=
  let addr := mmap.addr.toUInt32
  let length := mmap.len.toUInt32
  if mmap.type ≠ 1 then none
  else if addr < kernelEnd then
    let diff := kernelEnd - addr
    if length < diff then none else some (addr + diff, length - diff)
  else some (addr, length)

def pageOffset (addr : UInt32) : UInt32 := 0x1000 - addr % 0x1000

def pages (kernelEnd : UInt32) (mmap : MmapEntry) : Option (UInt32 × UInt32) :=
  (mmap.aboveKernel kernelEnd).map fun (addr, length) => (addr + pageOffset addr, length - pageOffset addr)

def register (fuel : ℕ) (kernelEnd : UInt32) (bitmap : Bitmap) (mmap : MmapEntry) : Option Bitmap :=
  match mmap.pages kernelEnd with
  | none => some bitmap
  | some (start, length) => bitmap.registerAvailableMemory fuel start length

end MmapEntry

namespace BootModule

def reserve (fuel : ℕ) (bitmap : Bitmap) (mod : BootModule) : Option Bitmap :=
  bitmap.reservePhysicalMemory fuel mod.modStart (mod.modEnd - mod.modStart)

end BootModule

/-- `mmap` is `none` when multiboot passed no memory map. -/
def initMemory (fuel : ℕ) (kernelEnd : UInt32) (mmap : Option (List MmapEntry))
    (mods : List BootModule) (bitmap : Bitmap) : Option Bitmap := do
  let bitmap := bitmap.init
  let bitmap ← match mmap with
    | none => bitmap.registerAvailableMemory fuel kernelEnd 0xFFFFFFFF
    | some entries => entries.foldlM (MmapEntry.register fuel kernelEnd) bitmap
  mods.foldlM (BootModule.reserve fuel) bitmap

def InUsable (entries : List MmapEntry) (frame : ℕ) : Prop :=
  ∃ e ∈ entries, e.type = 1 ∧ e.addr.toNat ≤ 0x1000 * frame ∧ 0x1000 * (frame + 1) ≤ e.addr.toNat + e.len.toNat

def BootModule.Overlaps (mod : BootModule) (frame : ℕ) : Prop :=
  ∃ b, 0x1000 * frame ≤ b ∧ b < 0x1000 * (frame + 1) ∧ mod.modStart.toNat ≤ b ∧ b < mod.modEnd.toNat

/-- Every frame that is marked free is usable, above the kernel and outside every module. -/
def BootSound (kernelEnd : UInt32) (entries : List MmapEntry) (mods : List BootModule)
    (bitmap : Bitmap) : Prop :=
  ∀ frame < 8 * bitmapSize, bitmap.Free frame →
    InUsable entries frame ∧ kernelEnd.toNat ≤ 0x1000 * frame ∧ ∀ m ∈ mods, ¬ m.Overlaps frame

def MmapEntry.Registers (kernelEnd : UInt32) (e : MmapEntry) (frame : ℕ) : Prop :=
  ∃ start length, e.pages kernelEnd = some (start, length) ∧ ∃ j < length.toNat / 0x1000, frame = Bitmap.walked start j

def BootModule.Reserves (mod : BootModule) (frame : ℕ) : Prop :=
  ∃ j, 0x1000 * j < (mod.modEnd - mod.modStart).toNat ∧ frame = Bitmap.walked mod.modStart j

/-- The entry starts below 4 GiB, and what is left of it above the kernel reaches the next page and
does not reach past 4 GiB. -/
def MmapEntry.Plain (kernelEnd : UInt32) (e : MmapEntry) : Prop :=
  ∀ addr length, e.aboveKernel kernelEnd = some (addr, length) →
    e.addr.toNat < 2 ^ 32 ∧ (pageOffset addr).toNat ≤ length.toNat ∧ addr.toNat + length.toNat ≤ 2 ^ 32

def BootModule.lastFrame (mod : BootModule) : ℕ := (mod.modEnd.toNat - 1) / 0x1000

/-- The pages that are counted off from an unaligned start end before the last byte. -/
def BootModule.StopsShort (mod : BootModule) : Prop :=
  mod.modStart < mod.modEnd ∧
    mod.modStart.toNat / 0x1000 + (mod.modEnd.toNat - mod.modStart.toNat + 0xFFF) / 0x1000 ≤ mod.lastFrame

/-- What an entry that is not plain registers happens to be usable and above the kernel, or is
reserved again, and the last frame of a module that is not reserved with it is not registered, or is
reserved with another one. -/
structure MapFits (kernelEnd : UInt32) (entries : List MmapEntry) (mods : List BootModule) : Prop where
  stray : ∀ e ∈ entries, ¬ e.Plain kernelEnd → ∀ f < 8 * bitmapSize, e.Registers kernelEnd f →
    (∀ m ∈ mods, ¬ m.Reserves f) → InUsable entries f ∧ kernelEnd.toNat ≤ 0x1000 * f
  tail : ∀ m ∈ mods, m.StopsShort → m.lastFrame < 8 * bitmapSize →
    ∀ e ∈ entries, e.Registers kernelEnd m.lastFrame → ∃ m' ∈ mods, m'.Reserves m.lastFrame

end OlliOS
