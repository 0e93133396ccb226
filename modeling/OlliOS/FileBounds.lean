import OlliOS.Iso9660
import OlliOS.Lib.Stepping

/-!
# Sizes and bounds of files

What the size of a virtual file is to be after a write at any position, and how many bytes a read is to
copy at most. A file is written in order if every write starts where the file ends.
-/

namespace OlliOS

namespace VirtualFile

abbrev WriteCall := List UInt8 × UInt32

def step (fresh : ℕ → Chunk) (f : VirtualFile) (w : WriteCall) : Option VirtualFile := f.write fresh w.1 w.2

/-- The write uses chunks that are there, and the file ends where it ended or where the write does. -/
def Extends (fresh : ℕ → Chunk) (f : VirtualFile) (w : WriteCall) : Prop :=
  ∃ g, f.step fresh w = some g ∧ g.getSize.toNat =
      if w.1 = [] then f.getSize.toNat else max f.getSize.toNat (w.2.toNat + w.1.length)

/-- Nothing is written, or it is written at the end and the size does not wrap. -/
def AtEnd (f : VirtualFile) (w : WriteCall) : Prop :=
  w.1 = [] ∨ (w.2 = f.size ∧ f.size.toNat + w.1.length < 2 ^ 32)

def InOrder (f : VirtualFile) (w : WriteCall) : Prop := w.1.length < 2 ^ 32 ∧ f.AtEnd w

/-- The read starts behind the end or it does not wrap. A read up to the end of the address space that
wraps still finds its chunks if they fill it. -/
def Inside (f : VirtualFile) (size pos : UInt32) : Prop :=
  f.size ≤ pos ∨ pos.toNat + size.toNat < 2 ^ 32 ∨ (pos.toNat + size.toNat = 2 ^ 32 ∧ 2 ^ 32 - 512 < f.size.toNat)

structure Copying where
  offset : ℕ
  size : ℕ
  copied : ℕ

def copyPass (c : Copying) : Copying ⊕ ℕ :=
  if c.size = 0 then .inr c.copied
  else
    let length := partLength c.size c.offset
    .inl ⟨0, c.size - length, c.copied + length⟩

def bytesCopied (f : VirtualFile) (size pos : UInt32) : Option ℕ :=
  if f.size ≤ pos then some 0
  else
    let size := if f.size ≤ pos + size then f.size - pos else size
    Loop.run copyPass (size.toNat + 1) ⟨pos.toNat % chunkSize, size.toNat, 0⟩

end VirtualFile

def countResult (copied : ℕ) : Int32 := (UInt32.ofNat copied).toInt32

def mostCopied (length size pos : UInt32) : ℕ :=
  if pos < length then min size.toNat (length.toNat - pos.toNat) else 0

def ReadsWithin (length size pos : UInt32) (copied : Option ℕ) : Prop :=
  ∃ n, copied = some n ∧ n ≤ mostCopied length size pos ∧ (countResult n).toInt = n

/-- The sum of position and size does not wrap, and the number of bytes is an `i32`. -/
def ReadFits (length size pos : UInt32) : Prop :=
  length ≤ pos ∨ (pos.toNat + size.toNat < 2 ^ 32 ∧ min size.toNat (length.toNat - pos.toNat) < 2 ^ 31)

end OlliOS
