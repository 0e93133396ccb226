import OlliOS.Descriptors
import OlliOS.InterfaceFile
import OlliOS.Iso9660
import OlliOS.Stream

/-!
# File handles

A `FileHandle` is an object with virtual methods on a state `σ`, which holds the files; a method that never
returns has no result. What `read` puts into its buffer is part of its result.
-/

namespace OlliOS

structure FileHandle (σ : Type) where
  write : (buffer : ℕ → UInt8) → (size pos : UInt32) → σ → Option (σ × Int32)
  read : (size pos : UInt32) → σ → Option (σ × List UInt8 × Int32)
  getSize : σ → Option UInt32
  nextChild : σ → Option (σ × Option CStr)
  close : σ → σ

structure Loc (σ α : Type) where
  get : σ → α
  put : α → σ → σ

def Loc.here {σ : Type} : Loc σ σ := ⟨id, fun a _ => a⟩

namespace FileHandle

variable {σ : Type}

def nextOf (children : σ → List CStr) (counter : Loc σ ℕ) (s : σ) : σ × Option CStr :=
  match (children s)[counter.get s]? with
  | none => (s, none)
  | some child => (counter.put (counter.get s + 1) s, some child)

def virtualFile (fresh : ℕ → Chunk) (file : Loc σ VirtualFile) : FileHandle σ where
  write buffer size pos s := do
    let f ← (file.get s).write fresh (InterfaceFile.bytes buffer size) pos
    return (file.put f s, size.toInt32)
  read size pos s := do
    let bytes ← (file.get s).read size pos
    return (s, bytes, (UInt32.ofNat bytes.length).toInt32)
  getSize s := some (file.get s).getSize
  nextChild s := some (s, none)
  close := id

def virtualFolder (children : σ → List CStr) (childOffset : Loc σ ℕ) : FileHandle σ where
  write _ _ _ s := some (s, -1)
  read _ _ s := some (s, [], -1)
  getSize _ := some 0
  nextChild s := some (nextOf children childOffset s)
  close := id

section Stream

variable (place : Loc σ Stream) (wait : σ → Option σ)

/-- A section of a call of a `StreamHandle`, from the index it enters its loop with. If the thread parks,
the others are at work until it is woken, which `wait` does to the state. -/
def streamPass (call : Call) (x : σ × UInt32 × List UInt8) :
    (σ × UInt32 × List UInt8) ⊕ Option (σ × List UInt8 × Int32) :=
  let r := (place.get x.1).loop x.2.1 call
  let s := place.put r.1 x.1
  let moved := x.2.2 ++ r.2.1
  match r.2.2 with
  | .leave i => .inr (some (s, moved, i.toInt32))
  | .park i =>
    match wait s with
    | none => .inr none
    | some s =>
      if (place.get s).closed then .inr (some (s, moved, i.toInt32)) else .inl (s, i - 1 + 1, moved)

def streamCall (parks : ℕ) (call : Call) (s : σ) : Option (σ × List UInt8 × Int32) :=
  (Loop.run (streamPass place wait call) parks (s, 0, [])).join

def stream (parks : ℕ) : FileHandle σ where
  write buffer size _ s :=
    (streamCall place wait parks (.write (InterfaceFile.bytes buffer size)) s).map fun r => (r.1, r.2.2)
  read size _ s := streamCall place wait parks (.read size) s
  getSize s :=
    let st := place.get s
    some (UInt32.ofNat (if st.read < st.write then st.write - st.read else st.write + (st.size - st.read)))
  nextChild s := some (s, none)
  close := id

/-- `OwnedStreamHandle`: the handle of an end of a pipe. -/
def ownedStream (mode : WriteMode) (handle : FileHandle σ) : FileHandle σ where
  write buffer size pos s :=
    match mode with
    | .write => handle.write buffer size pos s
    | .read => some (s, -1)
  read size pos s :=
    match mode with
    | .read => handle.read size pos s
    | .write => some (s, [], -1)
  getSize := handle.getSize
  nextChild := handle.nextChild
  close s :=
    let s := handle.close s
    match mode with
    | .write => place.put { place.get s with closed := true } s
    | .read => s

end Stream

def iso9660File (fs : σ → Iso9660FileSystem) (record : List UInt8) (children : σ → List CStr)
    (childIter : Loc σ ℕ) : FileHandle σ where
  write _ _ _ s := some (s, -1)
  read size pos s := do
    let bytes ← Iso9660FileHandle.read (fs s) record size pos
    return (s, bytes, (UInt32.ofNat bytes.length).toInt32)
  getSize _ := Iso9660FileHandle.getSize record
  nextChild s := some (nextOf children childIter s)
  close := id

def interfaceFile {C : Type} (file : InterfaceFile C) (context : Loc σ C) : FileHandle σ where
  write buffer size pos s := do
    let (c, n) ← file.write buffer size pos (context.get s)
    return (context.put c s, Int32.ofInt n)
  read size pos s := do
    let (bytes, n) ← file.read size pos (context.get s)
    return (s, bytes, Int32.ofInt n)
  getSize _ := some 0
  nextChild s := some (s, none)
  close := id

/-- The size that a `FileViewHandle` passes on. Sum and difference wrap. -/
def viewSize (length size pos : UInt32) : UInt32 := if length < pos + size then length - pos else size

/-- `FileViewHandle`. It does not close the handle it was given. -/
def fileView (handle : FileHandle σ) (start length : UInt32) : FileHandle σ where
  write buffer size pos := handle.write buffer (viewSize length size pos) (pos + start)
  read size pos := handle.read (viewSize length size pos) (pos + start)
  getSize _ := some length
  nextChild := handle.nextChild
  close := id

end FileHandle

/-- The classes of handles. -/
inductive HandleClass (σ : Type) : Type 1
  | virtualFile (fresh : ℕ → Chunk) (file : Loc σ VirtualFile)
  | virtualFolder (children : σ → List CStr) (childOffset : Loc σ ℕ)
  | stream (place : Loc σ Stream) (wait : σ → Option σ) (parks : ℕ)
  | ownedStream (mode : WriteMode) (place : Loc σ Stream) (wait : σ → Option σ) (parks : ℕ)
  | iso9660File (fs : σ → Iso9660FileSystem) (record : List UInt8) (children : σ → List CStr)
      (childIter : Loc σ ℕ)
  | interfaceFile {C : Type} (file : InterfaceFile C) (context : Loc σ C)
  | fileView (handle : HandleClass σ) (start length : UInt32)

def HandleClass.handle {σ : Type} : HandleClass σ → FileHandle σ
  | virtualFile fresh file => .virtualFile fresh file
  | virtualFolder children childOffset => .virtualFolder children childOffset
  | stream place wait parks => .stream place wait parks
  | ownedStream mode place wait parks => .ownedStream place mode (.stream place wait parks)
  | iso9660File fs record children childIter => .iso9660File fs record children childIter
  | interfaceFile file context => .interfaceFile file context
  | fileView c start length => .fileView c.handle start length

end OlliOS
