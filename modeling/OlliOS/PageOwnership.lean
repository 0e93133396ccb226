import OlliOS.Lib.Stepping
import OlliOS.Paging

/-!
# The frames of a page directory

The operations of `PageDirectory` that enter frames into a directory and take them out again, all on the
directory in use. The functions that give frames back return the frames they pass to `freePhysicalMemory`.
`DirState` has the frames that the physical manager has handed out for the directory, and those that were
entered through `mapMemory` and `bindPhysicalPage`. `mapMemory` of a length is a sequence of calls for one page.
-/

namespace OlliOS

open PageTableItem

def UserMode.mapFlags : UserMode → BitVec 32
  | .supervisor => rw ||| present
  | .user => PageTableItem.rw ||| PageTableItem.present ||| PageTableItem.user

namespace Machine

def release (s : Machine) (item : PageTableItem) : Machine :=
  { s with bitmap := s.bitmap.freePhysicalMemory (.ofBitVec item.getAddress) }

def mapMemory (s : Machine) (page : ℕ) (physical : BitVec 32) (mode : UserMode) : Option Machine := do
  let entry ← s.read entryPage (page / 1024)
  let s ← if entry.getFlag present then some s
    else s.allocateEntry (page / 1024) mode
  let s ← s.modify (tablePage (page / 1024)) (page % 1024) (·.setAddress physical)
  s.modify (tablePage (page / 1024)) (page % 1024) (·.enableFlag mode.mapFlags)

def bindPhysicalFrom (physical : BitVec 32) (mode : UserMode) : ℕ → Machine → ℕ → Option (Machine × Option ℕ)
  | 0, _, _ => none
  | n + 1, s, page => do
    let entry ← s.read entryPage (page / 1024)
    let s ← if entry.getFlag present then some s
      else s.allocateEntry (page / 1024) mode
    let item ← s.read (tablePage (page / 1024)) (page % 1024)
    if !item.getFlag present then
      let s ← s.mapMemory page physical mode
      return (s, some page)
    if page / 1024 < 1023 then bindPhysicalFrom physical mode n s (page + 1) else return (s, none)

/-- The start is rounded up to a page already. Without a page the null pointer is returned. -/
def bindPhysicalPage (s : Machine) (physical : BitVec 32) (mode : UserMode) (page : ℕ) : Option (Machine × Option ℕ) :=
  bindPhysicalFrom physical mode (1024 * 1024) s page

def unbindVirtualPage (s : Machine) (page : ℕ) : Option (Machine × List ℕ) := do
  let entry ← s.read entryPage (page / 1024)
  if !entry.getFlag present then return (s, [])
  let item ← s.read (tablePage (page / 1024)) (page % 1024)
  if !item.getFlag present then return (s, [])
  let freed := if item.getFlag owned then [item.frame] else []
  let s := if item.getFlag owned then s.release item else s
  let s ← s.write (tablePage (page / 1024)) (page % 1024) 0
  return (s, freed)

def freePage (index : ℕ) (s : Machine × List ℕ) (i : ℕ) : Option (Machine × List ℕ) := do
  let item ← s.1.read (tablePage index) i
  return if item.getFlag present then (s.1.release item, s.2 ++ [item.frame]) else s

def freeEntry (s : Machine) (index : ℕ) : Option (Machine × List ℕ) := do
  let entry ← s.read entryPage index
  if !entry.getFlag present then return (s, [])
  if !entry.getFlag owned then return (s, [])
  let (s, freed) ← (List.range 1024).foldlM (freePage index) (s, [])
  let entry ← s.read entryPage index
  let s ← (s.release entry).write entryPage index 0
  return (s, freed ++ [entry.frame])

def freeSlot (s : Machine × List ℕ) (index : ℕ) : Option (Machine × List ℕ) :=
  (s.1.freeEntry index).map fun r => (r.1, s.2 ++ r.2)

/-- `current` is an address in physical memory, and is looked up as a virtual one on the way back. -/
def freePageDirectory (s : Machine) (page : ℕ) : Option (Machine × List ℕ) := do
  let current := s.cr3
  let phys ← s.getPhysicalAddress page
  let (s, freed) ← (List.range' 1 (256 * 3 - 1)).foldlM freeSlot (s.use phys, [])
  let phys ← s.getPhysicalAddress current
  let (s, freed') ← (s.use phys).unbindVirtualPage page
  return (s, freed ++ freed')

end Machine

structure DirState where
  machine : Machine
  handed : ℕ → Bool
  borrowed : ℕ → Bool
  freed : List ℕ

inductive DirCall
  | bindVirtualPage (page : ℕ) (mode : UserMode)
  | bindFirstFreeVirtualPages (page count : ℕ) (mode : UserMode)
  | mapMemory (page : ℕ) (physical : BitVec 32) (mode : UserMode)
  | bindPhysicalPage (physical : BitVec 32) (mode : UserMode) (page : ℕ)
  | unbindVirtualPage (page : ℕ)
  | freeEntry (index : ℕ)

def frameOf (physical : BitVec 32) : ℕ := frame physical

namespace DirState

def init (m : Machine) : DirState := ⟨m, fun _ => false, fun _ => false, []⟩

/-- The frames that were handed out before, and those that the manager has handed out from `s` to
`m`. -/
def handedAfter (handed : ℕ → Bool) (s m : Machine) : ℕ → Bool := fun f =>
  handed f || (decide (s.bitmap.Free f) && !decide (m.bitmap.Free f))

def enter (s : DirState) (m : Machine) : DirState :=
  { s with machine := m, handed := handedAfter s.handed s.machine m, freed := [] }

def giveBack (s : DirState) (r : Machine × List ℕ) : DirState :=
  { s with machine := r.1, handed := fun f => s.handed f && !decide (f ∈ r.2), freed := r.2 }

def borrow (s : DirState) (physical : BitVec 32) : DirState :=
  { s with borrowed := Function.update s.borrowed (frameOf physical) true }

def step (s : DirState) : DirCall → Option DirState
  | .bindVirtualPage page mode =>
    if page < 1024 * 1024 then (s.machine.bindVirtualPage page mode).map s.enter else none
  | .bindFirstFreeVirtualPages page count mode =>
    if page < 1024 * 1024 then
      (s.machine.bindFirstFreeVirtualPages page count mode).map fun r => s.enter r.1
    else none
  | .mapMemory page physical mode =>
    if page < 1024 * 1024 then
      (s.machine.mapMemory page physical mode).map fun m => (s.enter m).borrow physical
    else none
  | .bindPhysicalPage physical mode page =>
    if page < 1024 * 1024 then
      (s.machine.bindPhysicalPage physical mode page).map fun r =>
        match r.2 with
        | none => s.enter r.1
        | some _ => (s.enter r.1).borrow physical
    else none
  | .unbindVirtualPage page =>
    if page < 1024 * 1024 then (s.machine.unbindVirtualPage page).map s.giveBack else none
  | .freeEntry index =>
    if index < 1024 then (s.machine.freeEntry index).map s.giveBack else none

def item (m : Machine) (page : ℕ) : Option PageTableItem :=
  (tableFrame m.mem m.cr3 (page / 1024)).map fun t => m.mem t (page % 1024)

/-- The address is that of a frame which the manager cannot hand out and has not handed out for this
directory. -/
def Foreign (s : DirState) (physical : BitVec 32) : Prop :=
  physical &&& 0xFFF#32 = 0 ∧ frameOf physical ≠ s.machine.cr3 ∧
    ¬ s.machine.bitmap.Free (frameOf physical) ∧ s.handed (frameOf physical) = false

instance (s : DirState) (physical : BitVec 32) : Decidable (s.Foreign physical) :=
  inferInstanceAs (Decidable (_ ∧ _))

/-- The table is not owned, or every page in it that is present is owned. -/
def OwnsPages (m : Machine) (index : ℕ) : Prop :=
  (m.mem m.cr3 index).getFlag owned = true → ∀ t ∈ tableFrame m.mem m.cr3 index, ∀ k < 1024,
      (m.mem t k).getFlag present = true → (m.mem t k).getFlag owned = true

instance (m : Machine) (index : ℕ) : Decidable (OwnsPages m index) := inferInstanceAs (Decidable (_ → _))

/-- Pages of the last 4 MiB, which are the tables, are neither mapped nor unbound. Only foreign frames
are mapped, and not over a page that is owned. A table is freed when all its pages are owned. -/
def Careful (s : DirState) : DirCall → Prop
  | .bindVirtualPage _ _ | .bindFirstFreeVirtualPages _ _ _ => True
  | .mapMemory page physical _ =>
    page < 1023 * 1024 ∧ s.Foreign physical ∧ ∀ v ∈ item s.machine page, v.getFlag owned = false
  | .bindPhysicalPage physical mode page =>
    s.Foreign physical ∧ ∀ r ∈ s.machine.bindPhysicalPage physical mode page, ∀ v ∈ r.2, v < 1023 * 1024
  | .unbindVirtualPage page => page < 1023 * 1024
  | .freeEntry index => OwnsPages s.machine index

-- for a map the instance for options is named, or the words are searched instead
instance (s : DirState) : (a : DirCall) → Decidable (s.Careful a)
  | .bindVirtualPage _ _ | .bindFirstFreeVirtualPages _ _ _ => inferInstanceAs (Decidable True)
  | .mapMemory _ _ _ => @instDecidableAnd _ _ _ (@instDecidableAnd _ _ _ (Option.decidableForallMem _))
  | .bindPhysicalPage _ _ _ => inferInstanceAs (Decidable (_ ∧ _))
  | .unbindVirtualPage _ => inferInstanceAs (Decidable (_ < _))
  | .freeEntry index => inferInstanceAs (Decidable (OwnsPages _ index))

def GivesBackOwn (s : DirState) (freed : List ℕ) : Prop :=
  ∀ f ∈ freed, s.handed f = true ∧ s.borrowed f = false

end DirState

structure EmptyDirectory (m : Machine) : Prop where
  self : tableFrame m.mem m.cr3 1023 = some m.cr3
  lent : (m.mem m.cr3 1023).getFlag owned = false
  empty : ∀ i < 1023, m.mem m.cr3 i = 0
  used : ¬ m.bitmap.Free m.cr3

/-- The directory in use can be freed from the directory `c`: it is mapped there at `page`, and itself
maps the frame of `c` to the same address, outside of the slots that are freed. -/
structure HeldBy (m : Machine) (c page : ℕ) : Prop where
  apart : c ≠ m.cr3
  self : tableFrame m.mem c 1023 = some c
  lt : page < 1024 * 1024
  mapped : ∃ t, t ≠ m.cr3 ∧ tableFrame m.mem c (page / 1024) = some t ∧ tableFrame m.mem t (page % 1024) = some m.cr3
  back : (c / 1024 = 0 ∨ 768 ≤ c / 1024 ∧ c / 1024 < 1023) ∧ pageFrame m.mem m.cr3 (c / 1024) (c % 1024) = some c

end OlliOS
