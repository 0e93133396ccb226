import Mathlib.Algebra.GroupWithZero.Nat
import Mathlib.Order.Interval.Finset.Nat
import OlliOS.Physical

/-!
# Paging

Physical memory is a number of frames of 1024 words. A directory is a frame whose words lead to tables, and a
table one whose words lead to pages; `cr3` holds the frame of the directory in use. Every access of the code to
a page goes through `translate`, to directories and tables as well: the last word of a directory leads back to
it, so that page `i` of the last 4 MiB is the table of word `i` and the last page is the directory.

An access to a page that is not present, and a panic, ends the run (`none`). The translation is looked up anew
at each access.
-/

namespace OlliOS

abbrev PageTableItem := BitVec 32

namespace PageTableItem

def present : BitVec 32 := 0x1

def rw : BitVec 32 := 0x2

def user : BitVec 32 := 0x4

def owned : BitVec 32 := 0x200

def setAddress (value : PageTableItem) (address : BitVec 32) : PageTableItem :=
  (value &&& ~~~ 0xFFFFF000#32) ||| address

def getAddress (value : PageTableItem) : BitVec 32 := value &&& 0xFFFFF000#32

def enableFlag (value : PageTableItem) (flag : BitVec 32) : PageTableItem := value ||| flag

def disableFlag (value : PageTableItem) (flag : BitVec 32) : PageTableItem := value &&& (0xFFFFFFFF#32 - flag)

def getFlag (value : PageTableItem) (flag : BitVec 32) : Bool := value &&& flag == flag

def frame (value : PageTableItem) : ℕ := (value.getAddress >>> 12).toNat

def ofFrame (f : ℕ) : BitVec 32 := BitVec.ofNat 32 (f * 0x1000)

end PageTableItem

inductive UserMode
  | supervisor
  | user
  deriving DecidableEq

def UserMode.flags : UserMode → BitVec 32
  | .supervisor => PageTableItem.rw ||| PageTableItem.present ||| PageTableItem.owned
  | .user => PageTableItem.rw ||| PageTableItem.present ||| PageTableItem.owned ||| PageTableItem.user

abbrev Page := ℕ → PageTableItem

structure Machine where
  mem : ℕ → Page
  bitmap : Bitmap
  cr3 : ℕ

def tableFrame (mem : ℕ → Page) (directory i : ℕ) : Option ℕ :=
  let entry := mem directory i
  if entry.getFlag PageTableItem.present then some entry.frame else none

def pageFrame (mem : ℕ → Page) (directory i k : ℕ) : Option ℕ :=
  (tableFrame mem directory i).bind fun table => tableFrame mem table k

namespace Machine

def translate (s : Machine) (page : ℕ) : Option ℕ := pageFrame s.mem s.cr3 (page / 1024) (page % 1024)

def read (s : Machine) (page w : ℕ) : Option PageTableItem := (s.translate page).map fun f => s.mem f w

def write (s : Machine) (page w : ℕ) (value : PageTableItem) : Option Machine :=
  (s.translate page).map fun f =>
    { s with mem := Function.update s.mem f (Function.update (s.mem f) w value) }

def readPage (s : Machine) (page : ℕ) : Option Page := (s.translate page).map s.mem

def writePage (s : Machine) (page : ℕ) (content : Page) : Option Machine :=
  (s.translate page).map fun f => { s with mem := Function.update s.mem f content }

/-- `physicalMemoryManager.allocatePhysicalMemory()`, where a null pointer is followed by a panic. -/
def allocate (s : Machine) : Option (ℕ × Machine) :=
  s.bitmap.allocatePhysicalMemory.map fun (f, bitmap) => (f, { s with bitmap := bitmap })

/-- The page of `getReadableEntryPointer`, which has the directory's words. -/
def entryPage : ℕ := 1023 * 1024 + 1023

/-- The page of `getReadableTablePointer(i, _)`, which has the words of a table. -/
def tablePage (i : ℕ) : ℕ := 1023 * 1024 + i

def modify (s : Machine) (page w : ℕ) (f : PageTableItem → PageTableItem) : Option Machine := do
  let value ← s.read page w
  s.write page w (f value)

def use (s : Machine) (directory : ℕ) : Machine := { s with cr3 := directory }

/-- `getPhysicalAddress` of the start of a page, as a frame. -/
def getPhysicalAddress (s : Machine) (page : ℕ) : Option ℕ := do
  let entry ← s.read (tablePage (page / 1024)) (page % 1024)
  return entry.frame

def allocateEntry (s : Machine) (index : ℕ) (mode : UserMode) : Option Machine := do
  let entry ← s.read entryPage index
  if entry.getFlag PageTableItem.present then return s
  let (phys, s) ← s.allocate
  let s ← s.modify entryPage index (·.setAddress (PageTableItem.ofFrame phys))
  let s ← s.modify entryPage index (·.enableFlag mode.flags)
  s.writePage (tablePage index) fun _ => 0

def bindPage (s : Machine) (page : ℕ) (mode : UserMode) : Option Machine := do
  let table := tablePage (page / 1024)
  let entry ← s.read table (page % 1024)
  if entry.getFlag PageTableItem.present then return s
  let (phys, s) ← s.allocate
  let s ← s.modify table (page % 1024) (·.setAddress (PageTableItem.ofFrame phys))
  let s ← s.modify table (page % 1024) (·.enableFlag mode.flags)
  s.writePage page fun _ => 0

def bindVirtualPage (s : Machine) (page : ℕ) (mode : UserMode) : Option Machine := do
  let entry ← s.read entryPage (page / 1024)
  let s ← if entry.getFlag PageTableItem.present then some s
    else s.allocateEntry (page / 1024) mode
  s.bindPage page mode

/-- The check that `bindFirstFreeVirtualPages` makes for each page of a range from `i`; it looks at
`i` every time. -/
def pageUnused (s : Machine) (i : ℕ) : Option Bool := do
  let entry ← s.read entryPage (i / 1024)
  if !entry.getFlag PageTableItem.present then return true
  let entry ← s.read (tablePage (i / 1024)) (i % 1024)
  return !entry.getFlag PageTableItem.present

def firstUnused (s : Machine) (count : ℕ) : ℕ → ℕ → Option (Option ℕ)
  | 0, _ => some none
  | n + 1, i => do
    if ← (List.range count).allM fun _ => s.pageUnused i then return some i
    s.firstUnused count n (i + 1)

/-- The start is rounded up to a page already. The null pointer is page 0. -/
def bindFirstFreeVirtualPages (s : Machine) (page count : ℕ) (mode : UserMode) : Option (Machine × ℕ) := do
  match ← s.firstUnused count (1024 * 1024 + 1 - count - page) page with
  | none => return (s, 0)
  | some i =>
    let s ← (List.range' i count).foldlM (fun s c => s.bindVirtualPage c mode) s
    return (s, i)

/-- `kernelEnd` is the first page from `KERNEL_END_VIRTUAL` on. -/
def allocatePageDirectory (s : Machine) (kernelEnd : ℕ) : Option (Machine × ℕ) := do
  let (s, page) ← s.bindFirstFreeVirtualPages kernelEnd 1 .supervisor
  let s ← s.writePage page fun _ => 0
  return (s, page)

/-- `this` and the result are the pages of the directories. -/
def clone (s : Machine) (kernelEnd this : ℕ) : Option (Machine × ℕ) := do
  let (s, dir) ← s.allocatePageDirectory kernelEnd
  let entries ← s.readPage this
  let s ← s.writePage dir entries
  let phys ← s.getPhysicalAddress dir
  let s ← s.modify dir 1023 (·.setAddress (PageTableItem.ofFrame phys))
  let s ← s.modify dir 1023 (·.enableFlag (PageTableItem.rw ||| PageTableItem.present))
  let s ← (List.range (256 * 3)).foldlM (fun s i => s.modify dir i (·.disableFlag PageTableItem.owned)) s
  return (s, dir)

def clonePage (i : ℕ) (s : Machine) (k : ℕ) : Option Machine := do
  let entry ← s.read (tablePage i) k
  if entry.getFlag PageTableItem.present then
    let buffer ← s.readPage (i * 1024 + k)
    let (phys, s) ← s.allocate
    let s ← s.modify (tablePage i) k (·.setAddress (PageTableItem.ofFrame phys))
    let s ← s.modify (tablePage i) k (·.enableFlag (PageTableItem.rw ||| PageTableItem.present))
    s.writePage (i * 1024 + k) buffer
  else return s

/-- The part of a round of the outer loop that gives entry `i` a table of its own. -/
def cloneTable (s : Machine) (i : ℕ) : Option Machine := do
  let buffer ← s.readPage (tablePage i)
  let (phys, s) ← s.allocate
  let s ← s.modify entryPage i (·.setAddress (PageTableItem.ofFrame phys))
  let s ← s.modify entryPage i (·.enableFlag (PageTableItem.owned ||| PageTableItem.present))
  s.writePage (tablePage i) buffer

def cloneEntry (s : Machine) (i : ℕ) : Option Machine := do
  let entry ← s.read entryPage i
  if entry.getFlag PageTableItem.present then
    let s ← s.cloneTable i
    (List.range 1024).foldlM (clonePage i) s
  else return s

/-- `heap` lists the pages that the heap binds when the buffer is allocated. The buffer itself is
memory of the heap that nothing else uses meanwhile, and is a value here. -/
def deepClone (s : Machine) (kernelEnd this : ℕ) (heap : List ℕ) : Option (Machine × ℕ) := do
  let (s, dir) ← s.clone kernelEnd this
  let s ← heap.foldlM (fun s page => s.bindVirtualPage page .supervisor) s
  let phys ← s.getPhysicalAddress dir
  let s := s.use phys
  let s ← (List.range' 1 (256 * 3 - 1)).foldlM cloneEntry s
  let phys ← s.getPhysicalAddress this
  return (s.use phys, dir)

end Machine

def Bitmap.freeCount (bitmap : Bitmap) : ℕ := ((Finset.Ico 0x100 0xFFFFF).filter fun f => bitmap.Free f).card

def Reachable (mem : ℕ → Page) (d f : ℕ) : Prop :=
  f = d ∨ ∃ i < 1024, tableFrame mem d i = some f ∨ ∃ k < 1024, pageFrame mem d i k = some f

def framesBehind (mem : ℕ → Page) (d i : ℕ) : ℕ :=
  match tableFrame mem d i with
  | none => 0
  | some t => 1 + (List.range 1024).countP fun k => (tableFrame mem t k).isSome

def KernelTable (mem : ℕ → Page) (d f : ℕ) : Prop := ∃ i, 768 ≤ i ∧ i < 1023 ∧ tableFrame mem d i = some f

/-- The directory `d` is in use and maps itself, the tables of the kernel are there, and no frame it
reaches is free. -/
structure Current (s : Machine) (d : ℕ) : Prop where
  cr3 : s.cr3 = d
  self : tableFrame s.mem d 1023 = some d
  kernel : ∀ i, 768 ≤ i → i < 1023 → ∃ t, tableFrame s.mem d i = some t ∧ t ≠ d
  used : ∀ f, Reachable s.mem d f → ¬ s.bitmap.Free f

/-- What `deep_clone` of the directory `d` needs. The directory is at the page `this` of the kernel, and
there is a free frame for the new directory, each page of the heap, and each table and page to copy. -/
structure ForkReady (s : Machine) (d kernelEnd this : ℕ) (heap : List ℕ) : Prop where
  current : Current s d
  apart : ∀ i t, 1 ≤ i → i < 768 → tableFrame s.mem d i = some t → ¬ KernelTable s.mem d t
  mapped : 768 ≤ this / 1024 ∧ this / 1024 < 1023 ∧ pageFrame s.mem d (this / 1024) (this % 1024) = some d
  room : 768 * 1024 ≤ kernelEnd ∧ ∃ v, kernelEnd ≤ v ∧ v < 1023 * 1024 ∧ pageFrame s.mem d (v / 1024) (v % 1024) = none
  growth : ∀ v ∈ heap, 768 ≤ v / 1024 ∧ v / 1024 < 1023
  frames : 1 + heap.length + ((List.range' 1 (256 * 3 - 1)).map (framesBehind s.mem d)).sum ≤ s.bitmap.freeCount

/-- A table of the slots 1 to 767, or a page of one. -/
def UserPlace (l : ℕ × Option ℕ) : Prop := (1 ≤ l.1 ∧ l.1 < 768) ∧ ∀ k ∈ l.2, k < 1024

def placeFrame (mem : ℕ → Page) (d : ℕ) : ℕ × Option ℕ → Option ℕ
  | (i, none) => tableFrame mem d i
  | (i, some k) => pageFrame mem d i k

/-- The directory `e` is an independent copy of the slots 1 to 767 of `d`, in frames of its own that were
free. Nothing else has changed but pages that show a table of the kernel. -/
structure Forked (s s' : Machine) (d e : ℕ) : Prop where
  pages : ∀ i k, 1 ≤ i → i < 768 → k < 1024 → ((pageFrame s'.mem e i k).isSome ↔ (pageFrame s'.mem d i k).isSome) ∧
    ∀ f f', pageFrame s'.mem d i k = some f → pageFrame s'.mem e i k = some f' → s'.mem f' = s'.mem f
  fresh : ∀ l f, UserPlace l → placeFrame s'.mem e l = some f →
    s.bitmap.Free f ∧ ¬ Reachable s.mem d f ∧ ¬ Reachable s'.mem d f
  distinct : ∀ l l' f, UserPlace l → UserPlace l' → placeFrame s'.mem e l = some f →
    placeFrame s'.mem e l' = some f → l = l'
  directory : s'.mem d = s.mem d
  behind : ∀ l f, UserPlace l → placeFrame s.mem d l = some f → ¬ KernelTable s.mem d f → s'.mem f = s.mem f
  tables : ∀ i t, 1 ≤ i → i < 768 → tableFrame s.mem d i = some t → s'.mem t = s.mem t
  kernel : ∀ i, 768 ≤ i → i < 1023 → s'.mem e i = s'.mem d i

end OlliOS
