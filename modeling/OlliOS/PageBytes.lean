import OlliOS.Mappings

/-!
# Bytes of a virtual address space

The words of a frame are four bytes each, the lowest first. `bindVirtualPageAt` is `bindVirtualPage` for
an address that need not be the start of a page: the page is the one of the address, and the memory
that is cleared starts at the address.
-/

namespace OlliOS

open PageTableItem

namespace PageTableItem

def byte (word : PageTableItem) (k : ℕ) : UInt8 := UInt8.ofBitVec (word.extractLsb' (8 * k) 8)

def setByte (word : PageTableItem) (k : ℕ) (b : UInt8) : PageTableItem :=
  (word &&& ~~~ ((BitVec.allOnes 8).setWidth 32 <<< (8 * k))) ||| (b.toBitVec.setWidth 32 <<< (8 * k))

end PageTableItem

namespace Machine

def readByte (s : Machine) (address : ℕ) : Option UInt8 :=
  (s.read (address / 0x1000) (address % 0x1000 / 4)).map (·.byte (address % 4))

def writeByte (s : Machine) (address : ℕ) (b : UInt8) : Option Machine :=
  s.modify (address / 0x1000) (address % 0x1000 / 4) (·.setByte (address % 4) b)

def writeBytes (s : Machine) (address : ℕ) (bytes : ℕ → UInt8) : ℕ → Option Machine
  | 0 => some s
  | n + 1 => do
    let s ← s.writeBytes address bytes n
    s.writeByte (address + n) (bytes n)

def memset (s : Machine) (address : ℕ) (value : UInt8) (n : ℕ) : Option Machine :=
  s.writeBytes address (fun _ => value) n

/-- The source is memory that is not written meanwhile. -/
def memcpy (s : Machine) (address : ℕ) (source : ℕ → UInt8) (n : ℕ) : Option Machine :=
  s.writeBytes address source n

def bindPageAt (s : Machine) (address : ℕ) (mode : UserMode) : Option Machine := do
  let table := tablePage (address / 0x400000)
  let index := address % 0x400000 / 0x1000
  let entry ← s.read table index
  if entry.getFlag present then return s
  let (phys, s) ← s.allocate
  let s ← s.modify table index (·.setAddress (ofFrame phys))
  let s ← s.modify table index (·.enableFlag mode.flags)
  s.memset address 0 0x1000

def bindVirtualPageAt (s : Machine) (address : ℕ) (mode : UserMode) : Option Machine := do
  let entry ← s.read entryPage (address / 0x400000)
  let s ← if entry.getFlag present then some s
    else s.allocateEntry (address / 0x400000) mode
  s.bindPageAt address mode

end Machine

def UserPage (s : Machine) (d page : ℕ) : Prop :=
  ∃ t f, tableFrame s.mem d (page / 1024) = some t ∧ (s.mem d (page / 1024)).getFlag user = true ∧
    tableFrame s.mem t (page % 1024) = some f ∧
    (s.mem t (page % 1024)).getFlag user = true

/-- Each of the slots `U`, all below the kernel, has a table of its own, and the pages of these slots are
in use. -/
structure AddressSpace (U : ℕ → Prop) (s : Machine) : Prop extends PageTree U s where
  low : ∀ i, U i → i < 768
  page : ∀ q, U (q / 1024) → ∀ f, s.translate q = some f → ¬ s.bitmap.Free f

end OlliOS
