import OlliOS.Kstd.SharedPtr

/-!
# Descriptor tables and pipes

Every process has a `ResourceMap` of 1024 slots, each unused or holding a `shared_ptr<FileDescriptor>`, which
`dup`, `dup2` and `fork` share between slots. A `FileDescriptor` is named by the number of its pipe and the
mode of its handle. `ResourceMap::at` does not look at the length of the table: what an index past its end
finds there is an argument of the calls, `beyond`.
-/

namespace OlliOS

open Function

inductive WriteMode
  | read
  | write
  deriving DecidableEq

abbrev PipeEnd := ℕ × WriteMode

abbrev DescPtr := Option PipeEnd

structure PipeStream where
  closed : Bool
  strongCount : Int
  freed : Bool

structure DescHeap where
  streams : ℕ → PipeStream
  info : PipeEnd → InfoBlock
  closes : PipeEnd → ℕ
  next : ℕ

namespace DescHeap

/-- `OwnedStreamHandle::~OwnedStreamHandle`, with the `shared_ptr` to the stream it holds. -/
def closeHandle (h : DescHeap) (e : PipeEnd) : DescHeap :=
  let st := h.streams e.1
  let st := if e.2 = .write then { st with closed := true } else st
  let st := { st with strongCount := st.strongCount - 1 }
  let st := if st.strongCount = 0 then { st with freed := true } else st
  { h with
    closes := update h.closes e (h.closes e + 1)
    streams := update h.streams e.1 st }

def reset (h : DescHeap) : DescPtr → DescHeap
  | none => h
  | some e =>
    let b := h.info e
    let h := { h with info := update h.info e ⟨b.weakCount - 1, b.strongCount - 1⟩ }
    if b.strongCount - 1 = 0 then h.closeHandle e else h

def copy (h : DescHeap) : DescPtr → DescHeap
  | none => h
  | some e =>
    let b := h.info e
    { h with info := update h.info e ⟨b.weakCount + 1, b.strongCount + 1⟩ }

def newPipe (h : DescHeap) : DescHeap :=
  { streams := update h.streams h.next ⟨false, 1 + 1 + 1 - 1, false⟩
    info := update (update h.info (h.next, .read) ⟨1, 1⟩) (h.next, .write) ⟨1, 1⟩
    closes := h.closes
    next := h.next + 1 }

end DescHeap

abbrev Slots := ℕ → Option DescPtr

def maxCount : ℕ := 1024

structure DescState (P : Type*) where
  heap : DescHeap
  live : P → Bool
  bindings : P → Slots

namespace DescState

variable {P : Type*} [DecidableEq P]

def init : DescState P where
  heap := ⟨fun _ => ⟨false, 0, false⟩, fun _ => ⟨0, 0⟩, fun _ => 0, 0⟩
  live := fun _ => false
  bindings := fun _ _ => none

def setSlot (s : DescState P) (p : P) (i : ℕ) (v : Option DescPtr) : DescState P :=
  { s with bindings := update s.bindings p (update (s.bindings p) i v) }

def slotAt (s : DescState P) (p : P) (index : Int) (beyond : Option DescPtr) : Option DescPtr :=
  if index < 0 then none
  else if index < maxCount then s.bindings p index.toNat
  else beyond

/-- `ResourceMap::new_resource()`: the first unused slot, if there is one. -/
def newResource (s : DescState P) (p : P) : Option ℕ :=
  (List.range maxCount).find? fun i => (s.bindings p i).isNone

def freeResource (s : DescState P) (p : P) (i : ℕ) : DescState P :=
  if i < maxCount then
    match s.bindings p i with
    | some entry => { s.setSlot p i none with heap := s.heap.reset entry }
    | none => s
  else s

def freeAllResources (s : DescState P) (p : P) : DescState P :=
  (List.range maxCount).foldl (fun s i => s.freeResource p i) s

def assign (s : DescState P) (p : P) (i : ℕ) (new old : DescPtr) : DescState P :=
  if new = old then s
  else { s.setSlot p i (some old) with heap := (s.heap.reset new).copy old }

def close (s : DescState P) (p : P) (file : Int) (beyond : Option DescPtr) : DescState P × Int :=
  match s.slotAt p file beyond with
  | none => (s, -1)
  | some _ => (s.freeResource p file.toNat, 0)

def pipe (s : DescState P) (p : P) : DescState P × Int :=
  match s.newResource p with
  | none => (s, -1)
  | some readId =>
    let s := s.setSlot p readId (some none)
    match s.newResource p with
    | none => (s.freeResource p readId, -1)
    | some writeId =>
      let s := s.setSlot p writeId (some none)
      let k := s.heap.next
      let s := { s with heap := s.heap.newPipe }
      ((s.setSlot p readId (some (some (k, .read)))).setSlot p writeId (some (some (k, .write))), 0)

def dup (s : DescState P) (p : P) (filedes : Int) (beyond : Option DescPtr) : DescState P × Int :=
  match s.slotAt p filedes beyond with
  | none => (s, -1)
  | some old =>
    match s.newResource p with
    | none => (s, -1)
    | some i => ((s.setSlot p i (some none)).assign p i none old, i)

/-- Called with descriptors in the range of the table. -/
def dup2 (s : DescState P) (p : P) (filedes filedes2 : Int) : DescState P × Int :=
  match s.slotAt p filedes none with
  | none => (s, -1)
  | some old =>
    let s := if (s.slotAt p filedes2 none).isSome then (s.close p filedes2 none).1 else s
    ((s.setSlot p filedes2.toNat (some none)).assign p filedes2.toNat none old, filedes2)

/-- One round of the copying loop of `ResourceMap::operator=`. -/
def copySlot (p c : P) (s : DescState P) (i : ℕ) : DescState P :=
  match s.bindings p i with
  | none => s.setSlot c i none
  | some entry => { s.setSlot c i (some entry) with heap := s.heap.copy entry }

/-- `child._bindings = parent._bindings` for a new process. -/
def fork (s : DescState P) (p c : P) : DescState P :=
  let s := { s with live := update s.live c true }
  (List.range maxCount).foldl (copySlot p c) (s.freeAllResources c)

/-- `ResourceMap::~ResourceMap` of a process that is deleted. -/
def destroy (s : DescState P) (p : P) : DescState P :=
  let s := s.freeAllResources p
  { s with live := update s.live p false }

def Refers (s : DescState P) (e : PipeEnd) : Prop :=
  ∃ p, s.live p = true ∧ ∃ i < maxCount, s.bindings p i = some (some e)

end DescState

inductive DescAct (P : Type*)
  | spawn (p : P)
  | pipe (p : P)
  | dup (p : P) (filedes : Int) (beyond : Option DescPtr)
  | dup2 (p : P) (filedes filedes2 : Int)
  | close (p : P) (file : Int) (beyond : Option DescPtr)
  | fork (p c : P)
  | destroy (p : P)

namespace DescState

variable {P : Type*} [DecidableEq P]

/-- A system call by a live process, or a process that comes or goes. Memory past the table that
`dup` takes for a used slot is taken to hold the address of some `FileDescriptor`, deleted or not. -/
def step (s : DescState P) : DescAct P → Option (DescState P)
  | .spawn p => if s.live p then none else some { s with live := update s.live p true }
  | .pipe p => if s.live p then some (s.pipe p).1 else none
  | .dup p filedes beyond =>
    if s.live p ∧ (∀ e ∈ beyond.join, e.1 < s.heap.next) then some (s.dup p filedes beyond).1
    else none
  | .dup2 p filedes filedes2 =>
    if s.live p ∧ (0 ≤ filedes ∧ filedes < maxCount) ∧ (0 ≤ filedes2 ∧ filedes2 < maxCount) ∧ filedes ≠ filedes2 then
      some (s.dup2 p filedes filedes2).1
    else none
  | .close p file beyond => if s.live p then some (s.close p file beyond).1 else none
  | .fork p c => if s.live p ∧ s.live c = false then some (s.fork p c) else none
  | .destroy p => if s.live p then some (s.destroy p) else none

/-- A `dup` that reads past the table and has a slot to fill finds a descriptor there that some slot
still refers to. -/
def Traced (s : DescState P) : DescAct P → Prop
  | .dup p filedes beyond => filedes < maxCount ∨ s.newResource p = none ∨ ∀ e ∈ beyond.join, s.Refers e
  | _ => True

/-- The write end of a pipe is closed when no slot refers to it and only then, and a handle has been
closed once if no slot refers to its descriptor and not at all otherwise. -/
def Exact (s : DescState P) : Prop :=
  ∀ k < s.heap.next, ((s.heap.streams k).closed = true ↔ ¬ s.Refers (k, .write)) ∧
    ∀ m, (s.Refers (k, m) → s.heap.closes (k, m) = 0) ∧ (¬ s.Refers (k, m) → s.heap.closes (k, m) = 1)

end DescState

end OlliOS
