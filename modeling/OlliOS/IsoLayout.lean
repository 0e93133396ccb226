import OlliOS.Iso9660

/-!
# Directory trees in an image

What an image has to hold for a tree of directories and files to be laid out in it, and what files a
`Vfs` has to hold for that tree to be read back. The sectors of a directory hold its records one
behind the other, and zeros behind the last one.
-/

namespace OlliOS

open Iso9660FileSystem

structure IsoRecord where
  lba : UInt32
  length : UInt32
  flags : UInt8
  identifier : List UInt8
  fields : List (List UInt8)

namespace IsoRecord

def IsNM (field : List UInt8) : Prop := field[0]? = some 'N'.toUInt8 ∧ field[1]? = some 'M'.toUInt8

instance (field : List UInt8) : Decidable (IsNM field) := inferInstanceAs (Decidable (_ ∧ _))

structure IsField (field : List UInt8) : Prop where
  four_le : 4 ≤ field.length
  size : field[2]? = some (UInt8.ofNat field.length)
  /-- The flags of an alternate name are before its text. -/
  named : IsNM field → 5 ≤ field.length

def text (bytes : List UInt8) : CStr := bytes.takeWhile fun c => decide (c ≠ 0)

def name (r : IsoRecord) : CStr :=
  match r.fields.find? fun f => decide (IsNM f) with
  | some nm => text (nm.drop 5)
  | none =>
    if r.identifier = [0] then dot else if r.identifier = [1] then dotdot else text r.identifier

def IsDirectory (r : IsoRecord) : Prop := r.flags &&& 0x2 ≠ 0

instance (r : IsoRecord) : Decidable r.IsDirectory := inferInstanceAs (Decidable (_ ≠ _))

/-- Behind 33 bytes come the identifier, a byte that makes the place of the system use area even, the
fields of that area, and perhaps one more byte that makes the length even. -/
structure Encodes (r : IsoRecord) (bytes : List UInt8) : Prop where
  size : bytes[0]? = some (UInt8.ofNat bytes.length)
  short : bytes.length < 256
  lba : readU32 bytes 2 = some r.lba
  length : readU32 bytes 10 = some r.length
  flags : bytes[25]? = some r.flags
  idLength : bytes[32]? = some (UInt8.ofNat r.identifier.length)
  nonempty : r.identifier ≠ []
  fields : ∀ f ∈ r.fields, IsField f
  layout : ∃ head pad tail : List UInt8, head.length = 33 ∧
    pad.length = 1 - r.identifier.length % 2 ∧ tail.length ≤ 1 ∧
    bytes = head ++ (r.identifier ++ (pad ++ (r.fields.flatten ++ tail)))

end IsoRecord

/-- A directory has a record for itself and one for the directory above it before its entries. -/
inductive IsoTree where
  | file (record : IsoRecord)
  | folder (record self up : IsoRecord) (entries : List IsoTree)

namespace IsoTree

def record : IsoTree → IsoRecord
  | file record => record
  | folder record _ _ _ => record

mutual

def depth : IsoTree → ℕ
  | file _ => 0
  | folder _ _ _ entries => depths entries + 1

def depths : List IsoTree → ℕ
  | [] => 0
  | t :: entries => max (depth t) (depths entries)

end

end IsoTree

def sector (records : List (List UInt8)) : List UInt8 :=
  records.flatten ++ List.replicate (2048 - records.flatten.length) 0

/-- No record crosses the end of its sector, and the first sector starts with a record. -/
def IsExtent (records : List (List UInt8)) (bytes : List UInt8) : Prop :=
  ∃ sectors : List (List (List UInt8)), sectors.flatten = records ∧ sectors.head? ≠ some [] ∧
    (∀ s ∈ sectors, s.flatten.length ≤ 2048) ∧ bytes = (sectors.map sector).flatten

namespace Iso9660FileSystem

variable (fs : Iso9660FileSystem)

def byteAt (address : ℕ) : UInt8 := fs.dev (UInt32.ofNat (address - fs.offset.toNat))

def extent (lba length : UInt32) : List UInt8 :=
  (List.range length.toNat).map fun i => fs.byteAt (lba.toNat * 2048 + i)

def OnDevice (r : IsoRecord) : Prop :=
  fs.offset.toNat ≤ r.lba.toNat * 2048 ∧ r.lba.toNat * 2048 + r.length.toNat ≤ fs.offset.toNat + 2 ^ 32

mutual

def LaidOut : IsoTree → Prop
  | .file r => ¬ r.IsDirectory ∧ fs.OnDevice r
  | .folder r self up entries =>
    r.IsDirectory ∧ fs.OnDevice r ∧ self.identifier = [0] ∧ up.identifier = [1] ∧
      (∃ records, List.Forall₂ IsoRecord.Encodes (self :: up :: entries.map IsoTree.record) records ∧
        IsExtent records (fs.extent r.lba r.length)) ∧
      AllLaidOut entries

def AllLaidOut : List IsoTree → Prop
  | [] => True
  | t :: entries => t.record.identifier ≠ [0] ∧ t.record.identifier ≠ [1] ∧ LaidOut t ∧ AllLaidOut entries

end

/-- The tree of the image. What the primary descriptor says of the root is what the root says of
itself. -/
def IsRoot (t : IsoTree) : Prop :=
  ∃ self up entries, t = .folder self self up entries ∧ readU32 fs.primarydescriptor (156 + 2) = some self.lba ∧
    readU32 fs.primarydescriptor (156 + 10) = some self.length

end Iso9660FileSystem

section Yields

variable (P : IsoRecord → List UInt8 → Prop) (v : Vfs)

mutual

/-- The file `f` is the tree: it has the name of the record, and one child for each record in the
directory, in their order. `P` is what is said of the plain files and their buffers. -/
def Yields : ℕ → IsoTree → Prop
  | f, .file r => ∃ buffer, v.files[f]? = some (.iso9660File r.name buffer []) ∧ P r buffer
  | f, .folder r _ up entries => ∃ buffer upBuffer here above children,
      v.files[f]? = some (.iso9660File r.name buffer (here :: above :: children)) ∧
      f < here ∧ v.files[here]? = some (.fileLink dot f) ∧
      f < above ∧ v.files[above]? = some (.iso9660File up.name upBuffer []) ∧
      AllYield f children entries

def AllYield (f : ℕ) : List ℕ → List IsoTree → Prop
  | [], [] => True
  | c :: children, t :: entries => f < c ∧ Yields c t ∧ AllYield f children entries
  | _, _ => False

end

end Yields

end OlliOS
