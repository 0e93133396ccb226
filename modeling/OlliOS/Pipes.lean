import OlliOS.Descriptors
import OlliOS.Stream

/-!
# Pipes with their callers

The descriptor tables of `Descriptors.lean` together with the streams of `Stream.lean`. A process has one
thread: it works on the tables, or it is in a `write` or `read` of a pipe that one of its slots refers to. Only
`~OwnedStreamHandle` ties the two together, and it looks at the mode of the handle.
-/

namespace OlliOS

def StreamState.closeHandle {ι : Type*} (s : StreamState ι) : WriteMode → StreamState ι
  | .write => { s with stream := { s.stream with closed := true }, waitingRead := [] }
  | .read => s

def Call.mode : Call → WriteMode
  | .write _ => .write
  | .read _ => .read

def pipeStream (data : ℕ → UInt8) : Stream := ⟨512, data, 0, 0, false⟩

/-- The section of `write` that enters its loop at the index `i` finds the ring full, and has a byte
to store. -/
def Stream.Blocks (st : Stream) (i : UInt32) (buffer : List UInt8) : Prop :=
  buffer.drop i.toNat ≠ [] ∧ RingBuffer.next st.size st.write = st.read

instance (st : Stream) (i : UInt32) (buffer : List UInt8) : Decidable (st.Blocks i buffer) :=
  inferInstanceAs (Decidable (_ ∧ _))

def StreamState.Parks {ι : Type*} (s : StreamState ι) : StreamAct ι → Prop
  | .call _ (.write buffer) => s.stream.Blocks 0 buffer
  | .resume c =>
    match s.pc c with
    | .parked (.write buffer) i _ => s.stream.closed = false ∧ s.stream.Blocks i buffer
    | _ => False
  | _ => False

def DescAct.process {P : Type*} : DescAct P → P
  | .spawn p | .pipe p | .dup p _ _ | .dup2 p _ _ | .close p _ _ | .fork p _ | .destroy p => p

structure PipeState (P : Type*) where
  table : DescState P
  streams : ℕ → StreamState P

inductive PipeAct (P : Type*)
  | pipe (p : P) (data : ℕ → UInt8)
  | table (a : DescAct P)
  | call (p : P) (k : ℕ) (call : Call)
  | resume (p : P) (k : ℕ)
  | unblock (p : P) (k : ℕ)

namespace PipeState

variable {P : Type*} [DecidableEq P]

def init : PipeState P where
  table := .init
  streams := fun _ => .init (pipeStream fun _ => 0)

def Idle (s : PipeState P) (p : P) : Prop := ∀ k < s.table.heap.next, (s.streams k).pc p = .idle

instance (s : PipeState P) (p : P) : Decidable (s.Idle p) := inferInstanceAs (Decidable (∀ k < _, _))

def HasEnd (s : PipeState P) (p : P) (e : PipeEnd) : Prop :=
  s.table.live p = true ∧ ∃ i < maxCount, s.table.bindings p i = some (some e)

instance (s : PipeState P) (p : P) (e : PipeEnd) : Decidable (s.HasEnd p e) :=
  inferInstanceAs (Decidable (_ ∧ ∃ i < _, _))

/-- The stream of a pipe after a call on the tables that leads to `t`: the handles that were closed
are deleted. -/
def settle (s : PipeState P) (t : DescState P) (k : ℕ) : StreamState P :=
  [WriteMode.read, .write].foldl (fun st m =>
    if s.table.heap.closes (k, m) < t.heap.closes (k, m) then st.closeHandle m else st) (s.streams k)

def step (s : PipeState P) : PipeAct P → Option (PipeState P)
  | .pipe p data =>
    if s.table.live p ∧ s.Idle p then
      some
        { table := (s.table.pipe p).1
          streams :=
            if (s.table.pipe p).2 = 0 then
              Function.update s.streams s.table.heap.next (.init (pipeStream data))
            else s.streams }
    else none
  | .table (.pipe _) => none
  | .table a =>
    if s.Idle a.process then (s.table.step a).map fun t => ⟨t, s.settle t⟩ else none
  | .call p k call =>
    if s.HasEnd p (k, call.mode) ∧ s.Idle p then
      ((s.streams k).step (.call p call)).map fun st => { s with streams := Function.update s.streams k st }
    else none
  | .resume p k =>
    ((s.streams k).step (.resume p)).map fun st => { s with streams := Function.update s.streams k st }
  | .unblock p k =>
    ((s.streams k).step (.unblock p)).map fun st => { s with streams := Function.update s.streams k st }

def Released (s : PipeState P) : Prop := ∀ k, ¬ s.table.Refers (k, .read) → (s.streams k).waitingWrite = []

/-- The last slot that refers to the read end of a pipe is given up only while no thread waits for
room in it, and from then on a `write` to the pipe finds room. -/
def Served (s : PipeState P) : PipeAct P → Prop
  | .pipe _ _ | .unblock _ _ => True
  | .table a => ∀ t ∈ s.table.step a, ∀ p, s.table.live p = true → ∀ i < maxCount,
      ∀ k, s.table.bindings p i = some (some (k, .read)) → t.Refers (k, .read) ∨ (s.streams k).waitingWrite = []
  | .call p k call => s.table.Refers (k, .read) ∨ ¬ (s.streams k).Parks (.call p call)
  | .resume p k => s.table.Refers (k, .read) ∨ ¬ (s.streams k).Parks (.resume p)

end PipeState

end OlliOS
