import OlliOS.Lib.Words
import OlliOS.PageBytes

/-!
# ELF files

The file is a buffer of the kernel heap from `header` on. `link_in_userspace` binds the pages of each
segment in the directory in use and copies the segment there; the buffer is not written.
-/

namespace OlliOS.Elf

open Words

structure ProgramHeader where
  type : UInt32
  offset : UInt32
  virtualAddress : UInt32
  fileSize : UInt32
  memorySize : UInt32
  deriving DecidableEq

def ProgramHeader.load : UInt32 := 1

variable (m : Memory) (header : UInt32)

def getProgramHeader (index : UInt32) : ProgramHeader :=
  let p := header + load m (header + 28) + index * 32
  { type := load m p
    offset := load m (p + 4)
    virtualAddress := load m (p + 8)
    fileSize := load m (p + 16)
    memorySize := load m (p + 20) }

def programHeaderTableEntries : UInt32 := load16 m (header + 44)

def pageCount (h : ProgramHeader) : UInt32 :=
  if h.memorySize % 4096 > 0 then h.memorySize / 4096 + 1 else h.memorySize / 4096

def loadSegment (s : Machine) (h : ProgramHeader) : Option Machine :=
  if h.type = ProgramHeader.load then do
    let s ← (List.range' 0 (pageCount h).toNat).foldlM (fun s i => s.bindVirtualPageAt
      (h.virtualAddress + UInt32.ofNat i * 4096).toNat .user) s
    s.memcpy h.virtualAddress.toNat (fun i => m (header + h.offset + UInt32.ofNat i)) h.fileSize.toNat
  else some s

def programHeaders : List ProgramHeader :=
  (List.range' 0 (programHeaderTableEntries m header).toNat).map fun i =>
    getProgramHeader m header (UInt32.ofNat i)

def linkInUserspace (s : Machine) : Option Machine :=
  (programHeaders m header).foldlM (loadSegment m header) s

/-! ## What a loaded file is -/

def segments : List ProgramHeader :=
  (programHeaders m header).filter fun h => decide (h.type = ProgramHeader.load)

def InRange (h : ProgramHeader) (x : ℕ) : Prop :=
  h.virtualAddress.toNat ≤ x ∧ x < h.virtualAddress.toNat + h.memorySize.toNat

/-- The segments are in user space and have no byte in common. -/
structure Placeable (segments : List ProgramHeader) : Prop where
  user : ∀ h ∈ segments, h.virtualAddress.toNat + h.memorySize.toNat ≤ 0xC0000000
  fits : ∀ h ∈ segments, h.fileSize.toNat ≤ h.memorySize.toNat
  apart : segments.Pairwise fun g h => ∀ x, ¬ (InRange g x ∧ InRange h x)

/-- The bytes of the segment are on pages of the user: first those of the file, and then zeros. -/
def Loaded (s : Machine) (d : ℕ) (h : ProgramHeader) : Prop :=
  ∀ i < h.memorySize.toNat, UserPage s d ((h.virtualAddress.toNat + i) / 0x1000) ∧
    s.readByte (h.virtualAddress.toNat + i) =
      some (if i < h.fileSize.toNat then m (header + h.offset + UInt32.ofNat i) else 0)

/-- Each segment starts at the start of a page, or has all its bytes on pages of segments before it. -/
def StartsPages (before : List ProgramHeader) : List ProgramHeader → Prop
  | [] => True
  | h :: segments =>
    (h.virtualAddress.toNat % 0x1000 = 0 ∨
      ∀ x, InRange h x → ∃ g ∈ before, ∃ y, InRange g y ∧ y / 0x1000 = x / 0x1000) ∧
    StartsPages (h :: before) segments

end OlliOS.Elf
