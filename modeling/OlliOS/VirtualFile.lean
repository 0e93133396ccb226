import Mathlib.Data.List.Basic
import OlliOS.Lib.Loop

/-!
# Virtual files

A `VirtualFile` keeps its contents in buffers of 512 bytes. What a new buffer holds at first is given as
`fresh`, by the place of the buffer. A buffer that is not there cannot be used: the result is `none` then.
-/

namespace OlliOS

def chunkSize : ℕ := 512

abbrev Chunk := ℕ → UInt8

structure VirtualFile where
  data : List Chunk
  size : UInt32

namespace VirtualFile

def empty : VirtualFile := ⟨[], 0⟩

def copyInto (chunk : Chunk) (offset : ℕ) (bytes : List UInt8) : Chunk := fun i =>
  if offset ≤ i then bytes.getD (i - offset) (chunk i) else chunk i

def partLength (size offset : ℕ) : ℕ := if size < chunkSize - offset then size else chunkSize - offset

structure Writing where
  data : List Chunk
  chunk : ℕ
  offset : ℕ
  buffer : List UInt8

def writePass (fresh : ℕ → Chunk) (w : Writing) : Writing ⊕ Option (List Chunk) :=
  if w.buffer = [] then .inr (some w.data)
  else
    let data := if w.chunk = w.data.length then w.data ++ [fresh w.chunk] else w.data
    let length := partLength w.buffer.length w.offset
    match data[w.chunk]? with
    | none => .inr none
    | some c => .inl
      { data := data.set w.chunk (copyInto c w.offset (w.buffer.take length))
        chunk := w.chunk + 1
        offset := 0
        buffer := w.buffer.drop length }

/-- The size of the buffer is its length. A pass uses a byte at least. -/
def write (fresh : ℕ → Chunk) (f : VirtualFile) (buffer : List UInt8) (pos : UInt32) : Option VirtualFile := do
  let data ← (Loop.run (writePass fresh) (buffer.length + 1)
    ⟨f.data, pos.toNat / chunkSize, pos.toNat % chunkSize, buffer⟩).join
  return ⟨data, f.size + UInt32.ofNat buffer.length⟩

structure Reading where
  chunk : ℕ
  offset : ℕ
  size : ℕ
  buffer : List UInt8

def readPass (data : List Chunk) (r : Reading) : Reading ⊕ Option (List UInt8) :=
  if r.size = 0 then .inr (some r.buffer)
  else
    let length := partLength r.size r.offset
    match data[r.chunk]? with
    | none => .inr none
    | some c => .inl
      { chunk := r.chunk + 1
        offset := 0
        size := r.size - length
        buffer := r.buffer ++ (List.range' r.offset length).map c }

def read (f : VirtualFile) (size pos : UInt32) : Option (List UInt8) :=
  if f.size ≤ pos then some []
  else
    let size := if f.size ≤ pos + size then f.size - pos else size
    (Loop.run (readPass f.data) (size.toNat + 1) ⟨pos.toNat / chunkSize, pos.toNat % chunkSize, size.toNat, []⟩).join

def getSize (f : VirtualFile) : UInt32 := f.size

def writeAll (fresh : ℕ → Chunk) (f : VirtualFile) (buffers : List (List UInt8)) : Option VirtualFile :=
  buffers.foldlM (fun f buffer => f.write fresh buffer f.getSize) f

end VirtualFile

end OlliOS
