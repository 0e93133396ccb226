import OlliOS.Handles
import OlliOS.Sbrk

/-!
# Starting a program

`execve` keeps the file and the strings of its caller, and the thread that it makes runs
`load_file_and_run`: it reads the file into a buffer, links it, and copies the strings to its stack. The
arrays of the stack are given without their ends, and the indices that are written are kept beside them. A
string has no zero in it, so `strcpy` copies all of it.
-/

namespace OlliOS.Launch

def maxArgs : ℕ := 128

def maxArgsLength : ℕ := 2048

section Execve

structure Program where
  file : ℕ
  args : List CStr
  environ : List CStr

/-- The pointers may be null. Without a result it returns -1. -/
def execve (v : Vfs) (workingDirectory : CStr) (pathname : Option CStr) (argv envp : Option (List CStr)) :
    Option Program :=
  match pathname, argv with
  | some pathname, some argv =>
    (v.executedFile workingDirectory pathname).map fun child => ⟨child, pathname :: argv, envp.getD []⟩
  | _, _ => none

end Execve

section Copy

inductive Pointer
  | unset
  | null
  | into (offset : ℕ)
  deriving DecidableEq

structure Arrays where
  pointers : ℕ → Pointer
  data : ℕ → UInt8
  pointersWritten : List ℕ
  dataWritten : List ℕ

def Arrays.empty (stack : ℕ → UInt8) : Arrays := ⟨fun _ => .unset, stack, [], []⟩

def Arrays.point (a : Arrays) (i : ℕ) (p : Pointer) : Arrays :=
  { a with
    pointers := fun j => if j = i then p else a.pointers j
    pointersWritten := a.pointersWritten ++ [i] }

def Arrays.strcpy (a : Arrays) (offset : ℕ) (str : CStr) : Arrays :=
  { a with
    data := fun x => if offset ≤ x ∧ x ≤ offset + str.length then str.getD (x - offset) 0 else a.data x
    dataWritten := a.dataWritten ++ List.range' offset (str.length + 1) }

structure Copying where
  arrays : Arrays
  i : ℕ
  dc : ℕ

def Copying.pass (s : Copying) (str : CStr) : Copying :=
  { arrays := (s.arrays.point s.i (.into s.dc)).strcpy s.dc str
    i := s.i + 1
    dc := s.dc + (str.length + 1) }

def copyStrings (stack : ℕ → UInt8) (strs : List CStr) : Copying :=
  strs.foldl Copying.pass ⟨.empty stack, 0, 0⟩

structure Jump where
  entry : UInt32
  argc : ℕ
  argv : Arrays
  envv : Arrays

/-- The part of `load_file_and_run` behind the linking. -/
def handOver (entry : UInt32) (stack : ℕ → UInt8) (p : Program) : Jump :=
  let env := copyStrings stack p.environ
  { entry := entry
    argc := p.args.length
    argv := (copyStrings stack p.args).arrays
    envv := env.arrays.point env.i .null }

structure Arrays.HasCopy (a : Arrays) (i offset : ℕ) (str : CStr) : Prop where
  pointer : a.pointers i = .into offset
  bytes : ∀ j < str.length, a.data (offset + j) = str.getD j 0
  terminated : a.data (offset + str.length) = 0

/-- The elements lead to copies of the strings that do not overlap. -/
def Arrays.HasCopies (a : Arrays) (strs : List CStr) : Prop :=
  ∃ offset : ℕ → ℕ, (∀ i str, strs[i]? = some str → a.HasCopy i (offset i) str) ∧
    ∀ i j str str', i < j → strs[i]? = some str → strs[j]? = some str' → offset i + str.length + 1 ≤ offset j

structure Arrays.Inside (a : Arrays) : Prop where
  pointers : ∀ i ∈ a.pointersWritten, i < maxArgs
  data : ∀ x ∈ a.dataWritten, x < maxArgsLength

/-- The program is started with the strings of the caller of `execve`. -/
structure HandsOver (pathname : CStr) (argv envp : List CStr) (jump : Jump) : Prop where
  argc : jump.argc = 1 + argv.length
  args : jump.argv.HasCopies (pathname :: argv)
  environ : jump.envv.HasCopies envp
  null : jump.envv.pointers envp.length = .null
  argvInside : jump.argv.Inside
  envvInside : jump.envv.Inside

def copiedLength (strs : List CStr) : ℕ := (strs.map fun str => str.length + 1).sum

structure Fits (pathname : CStr) (argv envp : List CStr) : Prop where
  args : 1 + argv.length ≤ maxArgs
  argsLength : copiedLength (pathname :: argv) ≤ maxArgsLength
  environ : envp.length + 1 ≤ maxArgs
  environLength : copiedLength envp ≤ maxArgsLength

end Copy

section Load

/-- An open file of a fixed size. A read returns, with any result that is not above the count, and has
written as many bytes as the result says. -/
structure Source (σ : Type) where
  handle : FileHandle σ
  filesize : UInt32
  nonempty : 0 < filesize
  getSize : ∀ s, handle.getSize s = some filesize
  reads : ∀ size pos s, ∃ t bytes result, handle.read size pos s = some (t, bytes, result) ∧
    result.toInt ≤ size.toNat ∧ bytes.length = result.toInt.toNat

variable {σ : Type}

/-- `total`, the state of the file, and the bytes that were put into the buffer, each time with where they
start. -/
structure Loading (σ : Type) where
  state : σ
  total : UInt32
  writes : List (UInt32 × List UInt8)

def request (filesize total : UInt32) : UInt32 := if filesize - total < 4096 then filesize - total else 4096

/-- A pass of the loop that reads the file. A result below 0 wraps. -/
def readPass (handle : FileHandle σ) (filesize : UInt32) (s : Loading σ) : Loading σ ⊕ Option (Loading σ) :=
  match handle.read (request filesize s.total) s.total s.state with
  | none => .inr none
  | some (state, bytes, result) =>
    let next : Loading σ := ⟨state, s.total + result.toUInt32, s.writes ++ [(s.total, bytes)]⟩
    if next.total ≠ filesize then .inl next else .inr (some next)

def Source.request (src : Source σ) : UInt32 → UInt32 := Launch.request src.filesize

def Source.pass (src : Source σ) : Loading σ → Loading σ ⊕ Option (Loading σ) := readPass src.handle src.filesize

def Loading.start (s : σ) : Loading σ := ⟨s, 0, []⟩

def Loading.Inside (src : Source σ) (s : Loading σ) : Prop :=
  ∀ w ∈ s.writes, w.2 ≠ [] → w.1.toNat + w.2.length ≤ src.filesize.toNat

def Loading.Complete (src : Source σ) (s : Loading σ) : Prop :=
  ∀ b < src.filesize.toNat, ∃ w ∈ s.writes, w.1.toNat ≤ b ∧ b < w.1.toNat + w.2.length

/-- The loop ends, and then the file is in the buffer. -/
def Source.Loads (src : Source σ) (s : σ) : Prop :=
  ∃ n t, Loop.run src.pass n (.start s) = some (some t) ∧ t.Inside src ∧ t.Complete src

def Source.Results (src : Source σ) (s : σ) (ok : Int32 → Prop) : Prop :=
  ∀ n t, Loop.after src.pass n (.start s) = some t →
    ∀ state bytes result, src.handle.read (src.request t.total) t.total t.state = some (state, bytes, result) →
      ok result

/-- What the thread finds: the files by the handles that their `open` returns, the kernel heap with the
place that `new u8[filesize]` returns, the page directory in use, and what is on the stack. -/
structure Kernel (σ : Type) where
  opens : ℕ → FileHandle σ
  state : σ
  heap : Words.Memory
  buffer : UInt32
  machine : Machine
  stack : ℕ → UInt8

def put (m : Words.Memory) (a : UInt32) (bytes : List UInt8) : Words.Memory := fun x =>
  bytes.getD (x - a).toNat (m x)

def Loading.memory (s : Loading σ) (heap : Words.Memory) (buffer : UInt32) : Words.Memory :=
  s.writes.foldl (fun m w => put m (buffer + w.1) w.2) heap

/-- A file of size 0 is not started: `some none`. There is no result if a read does not return, the loop
takes more than `n` passes, or the linking has a fault. Without a `_start` the jump goes to 0. -/
def loadFileAndRun (k : Kernel σ) (n : ℕ) (p : Program) : Option (Option Jump) := do
  let handle := k.opens p.file
  let filesize ← handle.getSize k.state
  if filesize = 0 then return none
  let file ← (Loop.run (readPass handle filesize) n (.start k.state)).join
  let m := file.memory k.heap k.buffer
  let _ ← OlliOS.Program.load m k.buffer k.machine
  let entry ← Elf.getNamedValue k.buffer m (chars ['_', 's', 't', 'a', 'r', 't'])
  return some (handOver (entry.getD 0) k.stack p)

end Load

end OlliOS.Launch
