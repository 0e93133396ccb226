import OlliOS.PageOwnership
import OlliOS.Proofs.Paging

/-!
# Mappings of a directory

The pages of the last 4 MiB, from `window` on, are the tables themselves; the other pages are what the
operations of `PageDirectory` are for. `PageTree` says that each table belongs to one slot, and that the frames
of the tables are not handed out again.
-/

namespace OlliOS

def window : ℕ := 1023 * 1024

namespace Machine

def mapping (s : Machine) (page : ℕ) : Option (PageTableItem × PageTableItem) :=
  (tableFrame s.mem s.cr3 (page / 1024)).bind fun t =>
    if (s.mem t (page % 1024)).getFlag PageTableItem.present then
      some (s.mem s.cr3 (page / 1024), s.mem t (page % 1024))
    else none

/-- `bindFirstFreeVirtualPages` with the address rounded up to a page, which may wrap around. The null
pointer is returned if there is no page. -/
def bindFirstFreeVirtualPagesAt (s : Machine) (address : UInt32) (count : ℕ) (mode : UserMode) :
    Option (Machine × UInt32) :=
  let page := address + (if address % 0x1000 = 0 then 0 else 0x1000 - address % 0x1000)
  (s.bindFirstFreeVirtualPages (page / 0x1000).toNat count mode).map fun (s, i) =>
    (s, UInt32.ofNat (i * 0x1000))

def getPhysicalAddressAt (s : Machine) (virt : BitVec 32) : Option (BitVec 32) := do
  let page ← s.read (tablePage ((virt >>> 12) >>> 10).toNat) ((virt >>> 12) &&& (1024 - 1)).toNat
  return page.getAddress + (virt &&& 4095)

/-- Neither loop looks at the present flag. -/
def getVirtualAddress (s : Machine) (physical : BitVec 32) : Option (BitVec 32) := do
  let phys := physical &&& ~~~ 4095
  let found ← (List.range 1024).findSomeM? fun pdi => do
    let entry ← s.read entryPage pdi
    if entry.getAddress = 0 then return none
    (List.range 1024).findSomeM? fun pti => do
      let entry ← s.read (tablePage pdi) pti
      return if entry.getAddress = phys then
        some (BitVec.ofNat 32 (pdi * 4096 * 1024) + BitVec.ofNat 32 (pti * 4096) + (physical &&& 4095))
      else none
  return found.getD 0

end Machine

def Machine.Ordinary (s : Machine) (f : ℕ) : Prop := f ≠ s.cr3 ∧ ∀ i < 1023, tableFrame s.mem s.cr3 i ≠ some f

/-- The directory in use maps itself, and none of its tables is the directory. Each of the slots `U` has a
table of its own. -/
structure SlotTables (U : ℕ → Prop) (s : Machine) : Prop where
  self : s.SelfMapped
  table : ∀ i < 1023, ∀ t, tableFrame s.mem s.cr3 i = some t → t ≠ s.cr3
  once : ∀ i < 1023, U i → ∀ j < 1023, ∀ t, tableFrame s.mem s.cr3 i = some t →
    tableFrame s.mem s.cr3 j = some t → i = j

/-- Beside that, the directory and its tables are in use. -/
structure PageTree (U : ℕ → Prop) (s : Machine) : Prop extends SlotTables U s where
  directory : ¬ s.bitmap.Free s.cr3
  used : ∀ i < 1023, ∀ t, tableFrame s.mem s.cr3 i = some t → ¬ s.bitmap.Free t

/-- The page is the first one from `start` on that is not present. -/
def Machine.FirstAbsent (s : Machine) (start page : ℕ) : Prop :=
  start ≤ page ∧ s.mapping page = none ∧ ∀ q, start ≤ q → q < page → s.mapping q ≠ none

/-- The slot has no table yet, or one for the user. -/
def Machine.SlotUser (s : Machine) (i : ℕ) : Prop :=
  tableFrame s.mem s.cr3 i = none ∨ (s.mem s.cr3 i).getFlag PageTableItem.user = true

/-- The `count` pages from the address `r` on are a fresh range for `start`, bound between `s` and `s'`. -/
structure FreshRange (s s' : Machine) (start r : UInt32) (count : ℕ) : Prop where
  aligned : r.toNat % 0x1000 = 0
  above : start ≤ r
  below : r.toNat + count * 0x1000 ≤ 0xFFC00000
  absent : ∀ c < count, s.mapping (r.toNat / 0x1000 + c) = none
  present : ∀ c < count, ∃ f, s'.translate (r.toNat / 0x1000 + c) = some f ∧ s.bitmap.Free f
  distinct : ∀ c < count, ∀ c' < count,
    s'.translate (r.toNat / 0x1000 + c) = s'.translate (r.toNat / 0x1000 + c') → c = c'
  lowest : ∀ a : UInt32, a.toNat % 0x1000 = 0 → start ≤ a → a.toNat + count * 0x1000 ≤ 0xFFC00000 →
    (∀ c < count, s.mapping (a.toNat / 0x1000 + c) = none) → r ≤ a
  others : ∀ page < window, (∀ c < count, page ≠ r.toNat / 0x1000 + c) → s'.mapping page = s.mapping page

/-- The frames of the tables are in use, and none of them is a page below the window. -/
structure TablesApart (s : Machine) : Prop where
  self : s.SelfMapped
  directory : ¬ s.bitmap.Free s.cr3
  table : ∀ i < 1023, ∀ t, tableFrame s.mem s.cr3 i = some t → ¬ s.bitmap.Free t
  unmapped : ∀ page < window, ∀ f, s.translate page = some f → s.Ordinary f

/-- Beside the tables, the pages below the window are in use, and no two slots share a table. -/
structure PagesApart (s : Machine) : Prop extends TablesApart s where
  used : ∀ page < window, ∀ f, s.translate page = some f → ¬ s.bitmap.Free f
  once : ∀ i < 1023, ∀ j < 1023, ∀ t, tableFrame s.mem s.cr3 i = some t → tableFrame s.mem s.cr3 j = some t → i = j

structure LocalTo (s s' : Machine) (page : ℕ) : Prop where
  mapping : ∀ q < window, q ≠ page → s'.mapping q = s.mapping q
  contents : ∀ q < window, q ≠ page → ∀ f, s.translate q = some f → s'.mem f = s.mem f

/-- The words of the directory and of its tables that are not present are zero, and physical page 0 is
virtual page 0. -/
structure CleanWords (s : Machine) : Prop where
  self : s.SelfMapped
  entry : ∀ i < 1024, (s.mem s.cr3 i).getFlag PageTableItem.present = false → s.mem s.cr3 i = 0
  item : ∀ i < 1024, ∀ t, tableFrame s.mem s.cr3 i = some t → ∀ k < 1024,
    (s.mem t k).getFlag PageTableItem.present = false → s.mem t k = 0
  zero : s.translate 0 = some 0

/-- The frame 1 is a directory and frame 2 the table of one slot, with the given words. The frames from
1 MiB on are free. -/
def oneTable (slot : ℕ) (item : ℕ → PageTableItem) : Machine where
  mem f w :=
    if f = 1 then if w = 1023 then 0x1003 else if w = slot then 0x2007 else 0
    else if f = 2 then item w else 0
  bitmap i := if i < 0x20 then 0xFF else 0
  cr3 := 1

end OlliOS
