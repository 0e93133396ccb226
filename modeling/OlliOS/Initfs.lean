import OlliOS.Libk.Strings

/-!
# The initial file system

The `initfs` module unpacks a tar archive into the folder `initfs`. The archive is the memory from the
pointer to its first header on. The names are split in place, so the archive is changed on the way.
-/

namespace OlliOS

namespace Initfs

def headerSize : ℕ := 512

def oldgnuMagic : List UInt8 := chars ['u', 's', 't', 'a', 'r', ' ', ' '] ++ [0]

/-- The number of parts and the memory with a 0 for each slash. -/
def splitFilename : List UInt8 → Option (ℕ × List UInt8)
  | [] => none
  | c :: name =>
    if c = 0 then some (1, c :: name)
    else do
      let (parts, name) ← splitFilename name
      return if c = slash then (parts + 1, 0 :: name) else (parts, c :: name)

def getOrCreate (v : Vfs) (base : ℕ) (name : CStr) : Vfs × Option ℕ :=
  match v.fileGet base name with
  | some next => (v, some next)
  | none => v.create base name Vfs.fileCreateDir

def makeFolders : ℕ → Vfs → ℕ → List UInt8 → Option (Vfs × ℕ × List UInt8)
  | 0, v, base, path => some (v, base, path)
  | n + 1, v, base, path => do
    let name ← cstr path
    let next ← (getOrCreate v base name).2
    makeFolders n (getOrCreate v base name).1 next (path.drop (name.length + 1))

def makeTarfsFile (v : Vfs) (base parts : ℕ) (path : List UInt8) : Option (Vfs × ℕ) := do
  let (v, base, path) ← makeFolders (parts - 1) v base path
  let name ← cstr path
  let file ← (v.create base name 0).2
  return ((v.create base name 0).1, file)

/-- `handle->write(bytes, size, 0)` for the handle of a `VirtualFile`, which `create` has made. -/
def writeFile (fresh : ℕ → ℕ → Chunk) (v : Vfs) (file : ℕ) (bytes : List UInt8) : Option Vfs :=
  match v.files[v.opened file]? with
  | some (.virtualFile _ content) => do
    let content ← content.write (fresh file) bytes 0
    return v.setContent (v.opened file) content
  | _ => none

def loadFile (fresh : ℕ → ℕ → Chunk) (v : Vfs) (base : ℕ) (tarFile : List UInt8) (size : ℕ) :
    Option (Vfs × List UInt8) := do
  let (parts, tarFile) ← splitFilename tarFile
  let (v, file) ← makeTarfsFile v base parts tarFile
  let bytes := (tarFile.drop headerSize).take size
  if bytes.length = size then
    let v ← writeFile fresh v file bytes
    return (v, tarFile)
  else none

def loadFiles (fresh : ℕ → ℕ → Chunk) : ℕ → Vfs → ℕ → List UInt8 → Option Vfs
  | 0, _, _, _ => none
  | n + 1, v, base, tarFile => do
    let differs ← strcmp (tarFile.drop 257) oldgnuMagic
    if differs ≠ 0 then return v
    let (size, _) ← strtol (tarFile.drop 124) 8
    let offset := (size + UInt32.ofNat headerSize - 1) / UInt32.ofNat headerSize
    let (v, tarFile) ←
      if 0 < size.toInt32 then loadFile fresh v base tarFile size.toNat else some (v, tarFile)
    loadFiles fresh n v base (tarFile.drop (headerSize * (offset.toNat + 1)))

def initfs : CStr := chars ['i', 'n', 'i', 't', 'f', 's']

/-- Every header is in another block, so there are fewer of them than bytes. -/
def moduleLoad (fresh : ℕ → ℕ → Chunk) (v : Vfs) (tarFile : List UInt8) : Option Vfs := do
  let base ← (v.create Vfs.root initfs Vfs.fileCreateDir).2
  loadFiles fresh (tarFile.length + 1) (v.create Vfs.root initfs Vfs.fileCreateDir).1 base tarFile

end Initfs

structure TarFile where
  name : CStr
  content : List UInt8

namespace TarFile

def octal : ℕ → ℕ → List UInt8
  | 0, _ => []
  | n + 1, k => octal n (k / 8) ++ ['0'.toUInt8 + UInt8.ofNat (k % 8)]

structure IsHeader (t : TarFile) (header : List UInt8) : Prop where
  length : header.length = Initfs.headerSize
  name : (t.name ++ [0]) <+: header
  size : (octal 11 t.content.length ++ [0]) <+: header.drop 124
  magic : Initfs.oldgnuMagic <+: header.drop 257

/-- The archive of the files: for each its header and its content, in whole blocks, and a block of
zeros at the end. -/
def Encodes : List TarFile → List UInt8 → Prop
  | [], archive => List.replicate Initfs.headerSize 0 <+: archive
  | t :: ts, archive => ∃ header padding rest, archive = header ++ (t.content ++ padding ++ rest) ∧
      t.IsHeader header ∧ padding.length < Initfs.headerSize ∧
        (t.content ++ padding).length % Initfs.headerSize = 0 ∧ Encodes ts rest

/-- The parts of the name are not empty and are no dots, and it fits its field; there is content, and
its size is a positive `int`. -/
structure Proper (t : TarFile) : Prop where
  length : t.name.length ≤ 99
  nul : 0 ∉ t.name
  parts : ∀ c ∈ t.name.splitOn slash, c ≠ [] ∧ c ≠ dot ∧ c ≠ dotdot
  content : t.content ≠ []
  size : t.content.length < 0x80000000

end TarFile

end OlliOS
