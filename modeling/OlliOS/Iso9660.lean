import OlliOS.Vfs

/-!
# ISO9660 images

`Iso9660File` reads the whole tree of an image when it is made. A record is the buffer it stands in, from its
first byte on; a read behind the end of the buffer gives `none`, and so do a search that never ends and a tree
that is deeper than `depth`. The device returns the bytes it is asked for.
-/

namespace OlliOS

structure Iso9660FileSystem where
  dev : UInt32 → UInt8
  offset : UInt32
  primarydescriptor : List UInt8

namespace Iso9660FileSystem

def readU32 (bytes : List UInt8) (offset : ℕ) : Option UInt32 := do
  let b0 ← bytes[offset]?
  let b1 ← bytes[offset + 1]?
  let b2 ← bytes[offset + 2]?
  let b3 ← bytes[offset + 3]?
  return b0.toUInt32 ||| b1.toUInt32 <<< 8 ||| b2.toUInt32 <<< 16 ||| b3.toUInt32 <<< 24

def readExtend (fs : Iso9660FileSystem) (lba length : UInt32) : List UInt8 :=
  (List.range' 0 length.toNat).map fun i => fs.dev (lba * 0x400 * 2 - fs.offset + UInt32.ofNat i)

def readRaw (fs : Iso9660FileSystem) (offset length : UInt32) : List UInt8 :=
  (List.range' 0 length.toNat).map fun i => fs.dev (offset - fs.offset + UInt32.ofNat i)

def systemUsePass (record : List UInt8) (length b1 b2 cur : UInt8) : UInt8 ⊕ Option (Option ℕ) :=
  if cur.toNat + 1 < length.toNat then
    match record[cur.toNat]?, record[cur.toNat + 1]? with
    | some c1, some c2 =>
      if b1 = c1 ∧ b2 = c2 then .inr (some (some cur.toNat))
      else
        match record[cur.toNat + 2]? with
        | none => .inr none
        | some l => .inl (cur + l)
    | _, _ => .inr none
  else .inr (some none)

/-- The place of the field in the record, `some none` for the null pointer. The position has 256
values, so a loop that has not ended after as many passes never does. -/
def getSystemUseField (record : List UInt8) (b1 b2 : UInt8) : Option (Option ℕ) := do
  let length ← record[0]?
  let cur ← record[32]?
  (Loop.run (systemUsePass record length b1 b2) 256 ((if cur % 2 = 0 then cur + 1 else cur) + 33)).join

def stringAt (bytes : List UInt8) (offset n : ℕ) : Option CStr :=
  if offset + n ≤ bytes.length then
    some (((bytes.drop offset).take n).takeWhile fun c => decide (c ≠ 0))
  else none

def HasId (record : List UInt8) (b : UInt8) : Prop := record[32]? = some 1 ∧ record[33]? = some b

instance (record : List UInt8) (b : UInt8) : Decidable (HasId record b) := inferInstanceAs (Decidable (_ ∧ _))

def readName (record : List UInt8) : Option CStr := do
  match ← getSystemUseField record 'N'.toUInt8 'M'.toUInt8 with
  | none =>
    if HasId record 0 then return dot
    if HasId record 1 then return dotdot
    let n ← record[32]?
    stringAt record 33 n.toNat
  | some nm =>
    let n ← record[nm + 2]?
    if n.toNat < 5 then none else stringAt record (nm + 5) (n.toNat - 5)

def skipZeros (length : ℕ) : ℕ → List UInt8 → ℕ × List UInt8
  | offset, [] => (offset, [])
  | offset, b :: extend =>
    if offset < length ∧ b = 0 then skipZeros length (offset + 1) extend else (offset, b :: extend)

/-- The child for one record: a link for the directory itself, and a file without children for the
directory above it. -/
def newChild (newIso9660File : Vfs → List UInt8 → Bool → Option (Vfs × ℕ)) (this : ℕ) (v : Vfs)
    (extend : List UInt8) : Option (Vfs × ℕ) :=
  if HasId extend 0 then
    if h : this < v.files.length then some (v.newLink dot this h, v.files.length) else none
  else newIso9660File v extend (decide (HasId extend 1))

/-- The loop of `create_children`; every pass goes on by a byte at least. -/
def createChildren (newIso9660File : Vfs → List UInt8 → Bool → Option (Vfs × ℕ))
    (this length : ℕ) : ℕ → Vfs → ℕ → List UInt8 → Option Vfs
  | 0, _, _, _ => none
  | n + 1, v, offset, extend =>
    if offset < length then do
      let (v, child) ← newChild newIso9660File this v extend
      if h : child < v.files.length then
        let size ← extend[0]?
        let (offset, extend) := skipZeros length (offset + size.toNat) (extend.drop size.toNat)
        createChildren newIso9660File this length n (v.addChild this child h) offset extend
      else none
    else some v

def newIso9660File (fs : Iso9660FileSystem) : ℕ → Vfs → List UInt8 → Bool → Option (Vfs × ℕ)
  | depth, v, record, skipChildren => do
    let name ← readName record
    let flags ← record[25]?
    let made := v.newFile (.iso9660File name record []) (File.fresh_iso9660File name record)
    if flags &&& 0x2 ≠ 0 ∧ skipChildren = false then
      match depth with
      | 0 => none
      | depth + 1 =>
        let lba ← readU32 record 2
        let length ← readU32 record 10
        let filled ← createChildren (newIso9660File fs depth) v.files.length length.toNat
          (length.toNat + 1) made 0 (fs.readExtend lba length)
        return (filled, v.files.length)
    else return (made, v.files.length)

def createRoot (fs : Iso9660FileSystem) (depth : ℕ) (v : Vfs) : Option (Vfs × ℕ) := do
  let lba ← readU32 fs.primarydescriptor (156 + 2)
  let length ← readU32 fs.primarydescriptor (156 + 10)
  newIso9660File fs depth v (fs.readExtend lba length) false

def mount (fs : Iso9660FileSystem) (depth : ℕ) (v : Vfs) : Option Vfs := do
  let (v, file) ← fs.createRoot depth v
  if h : file < (v.rename file (chars ['r', 'o', 'o', 't'])).files.length then
    return (Vfs.bind _ Vfs.root file h).1
  else none

end Iso9660FileSystem

namespace Iso9660FileHandle

open Iso9660FileSystem

/-- What is copied into the buffer. The sum of position and size wraps. -/
def read (fs : Iso9660FileSystem) (record : List UInt8) (size pos : UInt32) : Option (List UInt8) := do
  let lba ← readU32 record 2
  let length ← readU32 record 10
  if pos ≥ length then return []
  let size := if pos + size ≥ length then length - pos else size
  return fs.readRaw (lba * 0x400 * 2 + pos) size

def getSize (record : List UInt8) : Option UInt32 := readU32 record 10

end Iso9660FileHandle

end OlliOS
