import OlliOS.Handles
import OlliOS.Lib.Journal

/-!
# System calls on descriptors

`Files` has a slot for every index: those that are not in `[0, maxCount)` are what the memory around the
table is taken for. A call logs the positions at which it indexes `_data`. It stops where it dereferences a
null pointer, and where a handle does not return. A description is given by its address.
-/

namespace OlliOS

open Journal

structure Slot where
  used : Bool
  entry : Option ℕ
  deriving DecidableEq

structure FileDescriptor (σ : Type) where
  handle : FileHandle σ
  offset : UInt32

structure Files (σ : Type) where
  world : σ
  data : ℤ → Slot
  descs : ℕ → FileDescriptor σ
  info : ℕ → InfoBlock
  closes : ℕ → ℕ

inductive Stop
  | null
  | stuck
  deriving DecidableEq

def InTable (i : ℤ) : Prop := 0 ≤ i ∧ i < maxCount

instance (i : ℤ) : Decidable (InTable i) := inferInstanceAs (Decidable (_ ∧ _))

namespace Files

variable {σ : Type}

def setSlot (s : Files σ) (i : ℤ) (v : Slot) : Files σ := { s with data := Function.update s.data i v }

def setEntry (s : Files σ) (i : ℤ) (entry : Option ℕ) : Files σ := s.setSlot i { s.data i with entry }

def setOffset (s : Files σ) (d : ℕ) (offset : UInt32) : Files σ :=
  { s with descs := Function.update s.descs d { s.descs d with offset } }

def destroy (s : Files σ) (d : ℕ) : Files σ :=
  { s with
    world := (s.descs d).handle.close s.world
    closes := Function.update s.closes d (s.closes d + 1) }

def release (s : Files σ) (d : ℕ) : Files σ :=
  let b := s.info d
  let s := { s with info := Function.update s.info d ⟨b.weakCount - 1, b.strongCount - 1⟩ }
  if b.strongCount - 1 = 0 then s.destroy d else s

def retain (s : Files σ) (d : ℕ) : Files σ :=
  let b := s.info d
  { s with info := Function.update s.info d ⟨b.weakCount + 1, b.strongCount + 1⟩ }

/-- `shared_ptr::reset` for the entry at `i`. -/
def reset (s : Files σ) (i : ℤ) : Files σ :=
  match (s.data i).entry with
  | none => s
  | some d => (s.release d).setEntry i none

/-- `shared_ptr::operator=` with the entry at `i` on the left and the one at `j` on the right. -/
def assign (s : Files σ) (i j : ℤ) : Files σ :=
  if (s.data i).entry = (s.data j).entry then s
  else
    let s := s.reset i
    match (s.data j).entry with
    | none => s.setEntry i none
    | some d => (s.setEntry i (some d)).retain d

end Files

abbrev SysCall (σ α : Type) := Journal (Files σ) ℤ Stop α

namespace SysCall

variable {σ α : Type}

def index (i : ℤ) : SysCall σ Slot := do
  emit i
  let s ← get
  return s.data i

def store (i : ℤ) (v : Slot) : SysCall σ Unit := do
  emit i
  modify (·.setSlot i v)

def deref (p : Option α) : SysCall σ α :=
  match p with
  | none => stop .null
  | some a => return a

def perform (f : Files σ → Option (σ × α)) : SysCall σ α := do
  match f (← get) with
  | none => stop .stuck
  | some (world, a) =>
    modify ({ · with world })
    return a

/-- `ResourceMap::at`: a pointer to the entry of the slot, which is named by its position. -/
def entryAt (i : Int32) : SysCall σ (Option ℤ) := do
  if i < 0 then return none
  else
    let slot ← index i.toInt
    return if slot.used then some i.toInt else none

def newResourceFrom : List ℕ → SysCall σ Int32
  | [] => return -1
  | i :: is => do
    let slot ← index i
    if slot.used then newResourceFrom is
    else
      store i ⟨true, none⟩
      return Int32.ofNat i

def newResource : SysCall σ Int32 := newResourceFrom (List.range maxCount)

def newResourceAt (i : Int32) : SysCall σ (Option ℤ) := do
  let slot ← index i.toInt
  if slot.used then return none
  else
    store i.toInt ⟨true, none⟩
    entryAt i

/-- `ResourceMap::free_resource`. The index is compared as a `size_t`. -/
def freeResource (i : Int32) : SysCall σ Unit := do
  if i.toUInt32.toNat < maxCount then
    let slot ← index i.toInt
    if slot.used then
      store i.toInt { slot with used := false }
      modify (·.reset i.toInt)

def opened (file : Int32) (fail : α) (body : ℤ → SysCall σ α) : SysCall σ α := do
  match ← entryAt file with
  | none => return fail
  | some desc => body desc

def description (desc : ℤ) : SysCall σ ℕ := do
  let s ← get
  deref (s.data desc).entry

def close (file : Int32) : SysCall σ Int32 := opened file (-1) fun _ => do
  freeResource file
  return 0

def write (file : Int32) (data : ℕ → UInt8) (len : Int32) : SysCall σ Int32 :=
  opened file (-1) fun desc => do
    let d ← description desc
    let ret ← perform fun s => (s.descs d).handle.write data len.toUInt32 (s.descs d).offset s.world
    modify fun s => s.setOffset d ((s.descs d).offset + ret.toUInt32)
    return ret

def read (file len : Int32) : SysCall σ (Int32 × List UInt8) :=
  opened file (-1, []) fun desc => do
    let d ← description desc
    let (bytes, status) ← perform fun s => (s.descs d).handle.read len.toUInt32 (s.descs d).offset s.world
    modify fun s => s.setOffset d ((s.descs d).offset + status.toUInt32)
    return (status, bytes)

/-- The offset that a seek stores; `SEEK_SET`, `SEEK_CUR` and `SEEK_END` are 0, 1 and 2. -/
def seekTarget (fd : FileDescriptor σ) (ptr dir : Int32) (world : σ) : Option UInt32 :=
  if dir = 0 then some ptr.toUInt32
  else if dir = 1 then some (fd.offset + ptr.toUInt32)
  else if dir = 2 then (fd.handle.getSize world).map (· + ptr.toUInt32)
  else some fd.offset

def lseek (file ptr dir : Int32) : SysCall σ Int32 :=
  opened file (-1) fun desc => do
    let d ← description desc
    let target ← perform fun s => (seekTarget (s.descs d) ptr dir s.world).map (s.world, ·)
    modify (·.setOffset d target)
    return target.toInt32

def dup (filedes : Int32) : SysCall σ Int32 := opened filedes (-1) fun olddesc => do
  let filedes2 ← newResource
  if filedes2 < 0 then return -1
  else
    let newdesc ← entryAt filedes2
    let newdesc ← deref newdesc
    modify (·.assign newdesc olddesc)
    return filedes2

def dup2 (filedes filedes2 : Int32) : SysCall σ Int32 := opened filedes (-1) fun olddesc => do
  let newdesc ← entryAt filedes2
  if newdesc.isSome then
    let _ ← close filedes2
  let newdesc ← newResourceAt filedes2
  let newdesc ← deref newdesc
  modify (·.assign newdesc olddesc)
  return filedes2

def nameMax : ℕ := 255

def readdir (filedes : Int32) : SysCall σ (Int32 × Option CStr) :=
  opened filedes (-1, none) fun desc => do
    let d ← description desc
    match ← perform fun s => (s.descs d).handle.nextChild s.world with
    | none => return (-1, none)
    | some name => return (0, some (name.take (if nameMax ≤ name.length then nameMax - 1 else name.length)))

end SysCall

inductive DescCall
  | close (file : Int32)
  | read (file len : Int32)
  | write (file : Int32) (data : ℕ → UInt8) (len : Int32)
  | lseek (file ptr dir : Int32)
  | dup (filedes : Int32)
  | dup2 (filedes filedes2 : Int32)
  | readdir (filedes : Int32)

def DescCall.exec {σ : Type} : DescCall → SysCall σ Int32
  | .close file => SysCall.close file
  | .read file len => do return (← SysCall.read file len).1
  | .write file data len => SysCall.write file data len
  | .lseek file ptr dir => SysCall.lseek file ptr dir
  | .dup filedes => SysCall.dup filedes
  | .dup2 filedes filedes2 => SysCall.dup2 filedes filedes2
  | .readdir filedes => do return (← SysCall.readdir filedes).1

namespace Files

variable {σ : Type}

def IsOpen (s : Files σ) (file : Int32) : Prop := InTable file.toInt ∧ (s.data file.toInt).used = true

/-- A descriptor of the call is negative, at least `maxCount` or, but for the second one of `dup2`, not
open. -/
def Refuses (s : Files σ) : DescCall → Prop
  | .close file | .read file _ | .write file _ _ | .lseek file _ _ | .dup file | .readdir file =>
    ¬ s.IsOpen file
  | .dup2 filedes filedes2 => ¬ s.IsOpen filedes ∨ ¬ InTable filedes2.toInt

structure Checks (s : Files σ) (c : DescCall) : Prop where
  inside : ∀ i ∈ (c.exec.run s).log, InTable i
  notNull : (c.exec.run s).result ≠ .error .null
  refused : s.Refuses c → (c.exec.run s).result = .ok (-1) ∧ ∀ i, InTable i → (c.exec.run s).state.data i = s.data i

/-- The first descriptor is less than `maxCount`. If it is open, the second one of `dup2` is a position
of the table, and a call that uses the description finds one. -/
def Guarded (s : Files σ) : DescCall → Prop
  | .close file | .dup file => file.toInt < maxCount
  | .read file _ | .write file _ _ | .lseek file _ _ | .readdir file =>
    file.toInt < maxCount ∧ (s.IsOpen file → (s.data file.toInt).entry ≠ none)
  | .dup2 filedes filedes2 => filedes.toInt < maxCount ∧ (s.IsOpen filedes → InTable filedes2.toInt)

instance (s : Files σ) (file : Int32) : Decidable (s.IsOpen file) := inferInstanceAs (Decidable (_ ∧ _))

instance (s : Files σ) : (c : DescCall) → Decidable (s.Guarded c)
  | .close _ | .dup _ => inferInstanceAs (Decidable (_ < _))
  | .read _ _ | .write _ _ _ | .lseek _ _ _ | .readdir _ | .dup2 _ _ => inferInstanceAs (Decidable (_ ∧ _))

def Refers (s : Files σ) (i : ℤ) (d : ℕ) : Prop := s.data i = ⟨true, some d⟩

instance (s : Files σ) (i : ℤ) (d : ℕ) : Decidable (s.Refers i d) := inferInstanceAs (Decidable (_ = _))

def refs (s : Files σ) (d : ℕ) : ℕ := ((Finset.range maxCount).filter fun i : ℕ => s.Refers i d).card

/-- The strong count of a description that the table refers to is the number of pointers to it: the
slots of the table and the `elsewhere d` slots of other processes. -/
def Counted (elsewhere : ℕ → ℕ) (s : Files σ) : Prop :=
  ∀ i d, InTable i → s.Refers i d → (s.info d).strongCount = elsewhere d + s.refs d

/-- The slot at `i` is the only one that refers to the description. -/
def Last (elsewhere : ℕ → ℕ) (s : Files σ) (i : ℤ) (d : ℕ) : Prop :=
  s.Refers i d ∧ elsewhere d = 0 ∧ ∀ j, InTable j → s.Refers j d → j = i

/-- Reading or seeking through the descriptor moves the offset of the description. -/
structure Moves (s : Files σ) (file : Int32) (d : ℕ) : Prop where
  read : ∀ len world bytes status,
    (s.descs d).handle.read len.toUInt32 (s.descs d).offset s.world = some (world, bytes, status) →
    (SysCall.read file len).run s =
      ⟨{ s with world }.setOffset d ((s.descs d).offset + status.toUInt32), [file.toInt], .ok (status, bytes)⟩
  lseek : ∀ ptr dir target, SysCall.seekTarget (s.descs d) ptr dir s.world = some target →
    (SysCall.lseek file ptr dir).run s = ⟨s.setOffset d target, [file.toInt], .ok target.toInt32⟩

/-- What `dup2(a, b)` is to do if `a` refers to the description `e`. -/
structure Aliases (elsewhere : ℕ → ℕ) (s : Files σ) (a b : Int32) (e : ℕ) : Prop where
  returned : ((SysCall.dup2 a b).run s).result = .ok b
  second : ((SysCall.dup2 a b).run s).state.Refers b.toInt e
  first : ((SysCall.dup2 a b).run s).state.Refers a.toInt e
  unchanged : ∀ i, i ≠ a.toInt → i ≠ b.toInt → ((SysCall.dup2 a b).run s).state.data i = s.data i
  closed : ∀ d, s.closes d < ((SysCall.dup2 a b).run s).state.closes d ↔ s.Last elsewhere b.toInt d ∧ d ≠ e
  shared : ∀ file, file = a ∨ file = b → ((SysCall.dup2 a b).run s).state.Moves file e

end Files

inductive OffsetCall
  | read (len : Int32)
  | write (data : ℕ → UInt8) (len : Int32)
  | lseek (ptr dir : Int32)

namespace OffsetCall

def call (file : Int32) : OffsetCall → DescCall
  | .read len => .read file len
  | .write data len => .write file data len
  | .lseek ptr dir => .lseek file ptr dir

def Transfers : OffsetCall → Prop
  | .read _ | .write _ _ => True
  | .lseek _ _ => False

end OffsetCall

namespace Files

variable {σ : Type}

/-- If the call returns, then the offset of the description stays where the result is negative, and grows
by the number of bytes that were read or written. -/
def KeepsOffset (s : Files σ) (file : Int32) (d : ℕ) (c : OffsetCall) : Prop :=
  ∀ n, (((c.call file).exec).run s).result = .ok n →
    (n < 0 → (((c.call file).exec.run s).state.descs d).offset = (s.descs d).offset) ∧
    (c.Transfers → 0 ≤ n →
      ((((c.call file).exec.run s).state.descs d).offset.toNat : ℤ) = (s.descs d).offset.toNat + n.toInt)

end Files

/-- The call finds the ring full, or empty with the write end open. -/
def Stream.Parks (st : Stream) : Call → Prop
  | .write buffer => buffer ≠ [] ∧ RingBuffer.next st.size st.write = st.read
  | .read count => count ≠ 0 ∧ st.read = st.write ∧ st.closed = false

instance (st : Stream) : DecidablePred st.Parks
  | .write _ => inferInstanceAs (Decidable (_ ∧ _))
  | .read _ => inferInstanceAs (Decidable (_ ∧ _))

/-- The bytes that there are, or that there is room for, as far as the call asks for them. -/
def Stream.available (st : Stream) : Call → ℕ
  | .write buffer => min buffer.length (st.size - 1 - st.buffered.length)
  | .read count => min count.toNat st.buffered.length

namespace HandleClass

variable {σ : Type}

/-- What is available when the others have brought the stream to where the call does not park. -/
def served (place : Loc σ Stream) (wait : σ → Option σ) (call : Call) : ℕ → σ → Option ℕ
  | 0, _ => none
  | n + 1, s =>
    if (place.get s).Parks call then
      (wait (place.put (place.get s) s)).bind fun s =>
        if (place.get s).closed then some 0 else served place wait call n s
    else some ((place.get s).available call)

/-- The streams are rings, and the others leave them so. -/
def Rings (s : σ) : HandleClass σ → Prop
  | stream place wait _ | ownedStream _ place wait _ =>
    (place.get s).Ok ∧ ∀ s s', wait s = some s' → (place.get s').Ok
  | fileView c _ _ => c.Rings s
  | _ => True

/-- The part of a file of `length` bytes that is asked for. The sum wraps. -/
def clipped (length size pos : UInt32) : UInt32 :=
  if length ≤ pos then 0 else if length ≤ pos + size then length - pos else size

def Room (offset : UInt32) (n : ℤ) : Prop := 0 ≤ n ∧ n < 2 ^ 31 ∧ offset.toNat + n < 2 ^ 32

inductive Transfer
  | read
  | write (data : ℕ → UInt8)

namespace Transfer

def mode : Transfer → WriteMode
  | read => .read
  | write _ => .write

def call (size : UInt32) : Transfer → Call
  | read => .read size
  | write data => .write (InterfaceFile.bytes data size)

/-- What a driver answers. -/
def answer {C : Type} (file : InterfaceFile C) (size pos : UInt32) (c : C) : Transfer → Option ℤ
  | read => (file.getter size pos c).map Prod.snd
  | write data => (file.setter data size pos c).map Prod.snd

end Transfer

/-- It is not a folder, the other end of a pipe or, for a write, a file of an image. The offset has room for
what a file or a stream has for the call, and for what a driver answers. -/
def Passes (s : σ) (offset : UInt32) (t : Transfer) : HandleClass σ → (size pos : UInt32) → Prop
  | virtualFile _ file, size, pos =>
    Room offset (if t.mode = .read then clipped (file.get s).size size pos else size).toNat
  | virtualFolder _ _, _, _ => False
  | stream place wait parks, size, _ =>
    ∀ n, served place wait (t.call size) parks s = some n → Room offset n
  | ownedStream mode place wait parks, size, _ =>
    t.mode = mode ∧ ∀ n, served place wait (t.call size) parks s = some n → Room offset n
  | iso9660File _ record _ _, size, pos => t.mode = .read ∧
    ∀ length, Iso9660FileSystem.readU32 record 10 = some length → Room offset (clipped length size pos).toNat
  | interfaceFile file context, size, pos => pos = 0 ∨ file.positionIndependant = false →
    ∀ n, t.answer file size pos (context.get s) = some n → Room offset (Int32.ofInt n).toInt
  | fileView c start length, size, pos =>
    c.Passes s offset t (FileHandle.viewSize length size pos) (pos + start)

/-- The place that a seek with `SEEK_SET`, `SEEK_CUR` or `SEEK_END` asks for is below `2 ^ 31`, or it is
where the offset is. -/
structure SeekCounts (s : σ) (offset : UInt32) (c : HandleClass σ) (ptr dir : Int32) : Prop where
  set : dir = 0 → 0 ≤ ptr.toInt ∨ ptr.toUInt32 = offset
  cur : dir = 1 → (offset + ptr.toUInt32).toNat < 2 ^ 31 ∨ ptr = 0
  finish : dir = 2 → ∀ size, c.handle.getSize s = some size →
    (size + ptr.toUInt32).toNat < 2 ^ 31 ∨ size + ptr.toUInt32 = offset

def Counts (s : σ) (offset : UInt32) (c : HandleClass σ) : OffsetCall → Prop
  | .read len => c.Passes s offset .read len.toUInt32 offset
  | .write data len => c.Passes s offset (.write data) len.toUInt32 offset
  | .lseek ptr dir => c.SeekCounts s offset ptr dir

end HandleClass

end OlliOS
