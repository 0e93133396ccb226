import OlliOS.Handles
import OlliOS.Lib.Words

/-!
# Partitions

The mbr module looks for a partition table at the start of every child of `/dev`, and binds a view of the child
for each ISO partition. The views are bound to `/dev` too, so the loop comes to them as well.

`header` is an array on the stack that nothing sets: the bytes that were there before are given for each call.
The registry has the callbacks that other modules have registered for their types of file systems. A callback
may not return; what it binds is not in `/dev`. The names of the views are left out.
-/

namespace OlliOS.Mbr

/-- A child of `/dev` at the start. A read returns, with at most the bytes it was asked for: all bytes of
a disk, or less at its end or after an error, or none for a folder. -/
structure Device where
  handle : FileHandle Unit
  reads : ∀ size pos, ∃ bytes n, handle.read size pos () = some ((), bytes, n) ∧ bytes.length ≤ size.toNat

structure DevFile where
  base : ℕ
  isView : Bool
  handle : FileHandle Unit

def DevFile.view (file : DevFile) (start length : UInt32) : DevFile :=
  ⟨file.base, true, file.handle.fileView start length⟩

structure PartitionTableEntry where
  attributes : UInt8
  type : UInt8
  startLba : UInt32
  sectorCount : UInt32

def entry (header : Words.Memory) (i : ℕ) : PartitionTableEntry :=
  let partition := 0x1BE + 16 * UInt32.ofNat i
  { attributes := header partition
    type := header (partition + 4)
    startLba := Words.load header (partition + 8)
    sectorCount := Words.load header (partition + 12) }

def partitions (header : Words.Memory) : List PartitionTableEntry :=
  if header 0x1BC ≠ 0 ∨ header 0x1BD ≠ 0 then []
  else if header 0x1FE ≠ 0x55 ∨ header 0x1FF ≠ 0xAA then []
  else ((List.range 4).map (entry header)).filter fun e => e.attributes &&& 0x80 > 0 && e.type == 0xCD

def readHeader (stack : Words.Memory) (handle : FileHandle Unit) : Option Words.Memory := do
  let (_, bytes, _) ← handle.read 512 0 ()
  if bytes.length ≤ 512 then some fun i => bytes.getD i.toNat (stack i) else none

abbrev Registry := CStr → Option (DevFile → (offset length : UInt32) → Option Bool)

def Registry.createFilesystem (registry : Registry) (type : CStr) (root : DevFile) (offset length : UInt32) :
    Option Bool :=
  match registry type with
  | none => some false
  | some factory => factory root offset length

def iso9660 : CStr := chars ['I', 'S', 'O', '9', '6', '6', '0']

def DevFile.partition (file : DevFile) (e : PartitionTableEntry) : DevFile :=
  file.view (e.startLba * 512) (e.sectorCount * 512)

/-- `create_filesystem` returns for each partition of the table. -/
def Mounted (registry : Registry) (file : DevFile) (header : Words.Memory) : Prop :=
  ∀ e ∈ partitions header, (registry.createFilesystem iso9660 (file.partition e) (e.startLba * 512)
    (e.sectorCount * 512)).isSome

instance (registry : Registry) (file : DevFile) (header : Words.Memory) : Decidable (Mounted registry file header) :=
  inferInstanceAs (Decidable (∀ e ∈ partitions header, _))

def checkMbr (registry : Registry) (stack : Words.Memory) (file : DevFile) : Option (List DevFile) := do
  let header ← readHeader stack file.handle
  if Mounted registry file header then return (partitions header).map file.partition else none

structure Scan where
  children : List DevFile
  childOffset : ℕ

/-- A pass of the loop of `module_load`. `stack` is what the stack holds at each call. -/
def Scan.pass (registry : Registry) (stack : ℕ → Words.Memory) (s : Scan) : Scan ⊕ Option Scan :=
  match s.children[s.childOffset]? with
  | none => .inr (some s)
  | some child =>
    match checkMbr registry (stack s.childOffset) child with
    | none => .inr none
    | some found => .inl ⟨s.children ++ found, s.childOffset + 1⟩

def Scan.viewsOf (s : Scan) (base : ℕ) : ℕ := s.children.countP fun f => f.isView && f.base == base

def devFiles (devices : List Device) : List DevFile := devices.mapIdx fun i d => ⟨i, false, d.handle⟩

def start (devices : List Device) : Scan := ⟨devFiles devices, 0⟩

/-- The views for the table in the header of a file. -/
def viewsOf (stack : Words.Memory) (file : DevFile) : List DevFile :=
  (readHeader stack file.handle).elim [] fun header => (partitions header).map file.partition

/-- The views for the devices' own tables. -/
def ownViews (stack : ℕ → Words.Memory) (devices : List Device) : List DevFile :=
  ((devFiles devices).mapIdx fun i file => viewsOf (stack i) file).flatten

/-- The loop ends, and no device has more views than its own table gives it. -/
def Discovers (registry : Registry) (stack : ℕ → Words.Memory) (devices : List Device) : Prop :=
  ∃ n s, Loop.run (Scan.pass registry stack) n (start devices) = some (some s) ∧
    ∀ base file, (devFiles devices)[base]? = some file → s.viewsOf base ≤ (viewsOf (stack base) file).length

/-- File systems can be made of the partitions of the devices, and the first sector of such a partition,
which is read as its header, has no partitions in turn. -/
structure Plain (registry : Registry) (stack : ℕ → Words.Memory) (devices : List Device) : Prop where
  mounted : ∀ (i : ℕ) file header, (devFiles devices)[i]? = some file →
    readHeader (stack i) file.handle = some header → Mounted registry file header
  plain : ∀ (j : ℕ) file, (ownViews stack devices)[j]? = some file →
    ∃ header, readHeader (stack (devices.length + j)) file.handle = some header ∧ partitions header = []

end OlliOS.Mbr
