import Mathlib.Algebra.Group.Nat.Defs
import OlliOS.Lib.RingBuffer
import OlliOS.Lib.Stepping

/-!
# Streams

A `Stream` is the ring buffer behind a pipe. `StreamHandle::write` and `read` work on it in sections from a
`lock` of the mutex `m` to the next `release`, which is at the end of the call or where the thread parks.
A step is one section, one round of the `unblock_all_threads` after it, or the destruction of the write end.
-/

namespace OlliOS

structure Stream where
  size : ℕ
  data : ℕ → UInt8
  read : ℕ
  write : ℕ
  closed : Bool

/-- How a section ends: the call leaves its loop with the index `i`, or its thread parks. -/
inductive Exit
  | leave (i : UInt32)
  | park (i : UInt32)
  deriving DecidableEq

namespace Stream

/-- `Stream::Stream`, with whatever bytes the new array has. The `size <= 1` test raises the
parameter and not the member. The heap keeps a flag in bit 31 of a block's size, so `new` never
returns for an array of `2 ^ 31` bytes or more. -/
def create (size : ℕ) (data : ℕ → UInt8) : Option Stream :=
  if max size 2 < 2 ^ 31 then some ⟨size, data, 0, 0, false⟩ else none

def put (st : Stream) (b : UInt8) : Stream :=
  { st with
    data := Function.update st.data st.write b
    write := RingBuffer.next st.size st.write }

def drop (st : Stream) : Stream :=
  { st with read := RingBuffer.next st.size st.read }

def buffered (st : Stream) : List UInt8 := RingBuffer.contents st.data st.size st.read st.write

/-- The indices are in the ring, and the ring is one that `new` returns. -/
structure Ok (st : Stream) : Prop where
  size_lt : st.size < 2 ^ 31
  read_lt : st.read < st.size
  write_lt : st.write < st.size

/-- `StreamHandle::get_size`. The indices are in the ring, so that no difference is negative. -/
def getSize (st : Stream) : ℕ :=
  if st.read < st.write then st.write - st.read else st.write + (st.size - st.read)

/-- The loop of `StreamHandle::write` at the index `i`, until the mutex is released. Also the bytes it
stores. -/
def writeLoop (st : Stream) (i : UInt32) (written : Bool) : List UInt8 → Stream × List UInt8 × Exit
  | [] => (st, [], .leave i)
  | b :: bs =>
    if RingBuffer.next st.size st.write = st.read then
      (st, [], if written then .leave i else .park i)
    else
      let r := (st.put b).writeLoop (i + 1) true bs
      (r.1, b :: r.2.1, r.2.2)

/-- The loop of `StreamHandle::read` at the index `i`, until the mutex is released. Also the bytes it takes.
-/
def readLoop (st : Stream) (i : UInt32) (read : Bool) : ℕ → Stream × List UInt8 × Exit
  | 0 => (st, [], .leave i)
  | n + 1 =>
    if st.read = st.write then
      (st, [], if read || st.closed then .leave i else .park i)
    else
      let r := st.drop.readLoop (i + 1) true n
      (r.1, st.data st.read :: r.2.1, r.2.2)

end Stream

inductive Call
  | write (buffer : List UInt8)
  | read (count : UInt32)
  deriving DecidableEq

def Call.Valid : Call → Prop
  | .write buffer => buffer.length < 2 ^ 32
  | .read _ => True

instance : DecidablePred Call.Valid
  | .write buffer => inferInstanceAs (Decidable (buffer.length < 2 ^ 32))
  | .read _ => inferInstanceAs (Decidable True)

def Stream.loop (st : Stream) (i : UInt32) : Call → Stream × List UInt8 × Exit
  | .write buffer => st.writeLoop i false (buffer.drop i.toNat)
  | .read count => st.readLoop i false (count.toNat - i.toNat)

inductive CallPc
  | idle
  | parked (call : Call) (i : UInt32) (moved : List UInt8)
  /-- The mutex is released and the call is in `unblock_all_threads`. -/
  | unblocking (call : Call)
  deriving DecidableEq

/-- A call that has left its loop: the value it returns, the bytes it transferred, and the stream
it left behind when it released the mutex. -/
structure Returned where
  call : Call
  ret : Int
  moved : List UInt8
  after : Stream

/-- A `read` of at least one byte that returned 0 while the stream was open or had bytes left. -/
def Returned.prematureEof (e : Returned) : Bool :=
  match e.call with
  | .read count => count != 0 && e.ret == 0 && !(e.after.closed && e.after.buffered.isEmpty)
  | .write _ => false

structure StreamState (ι : Type*) where
  stream : Stream
  waitingRead : List ι
  waitingWrite : List ι
  pc : ι → CallPc
  inserted : List UInt8
  removed : List UInt8
  log : List Returned

inductive StreamAct (ι : Type*)
  | call (c : ι) (call : Call)
  | resume (c : ι)
  | unblock (c : ι)
  | close

namespace StreamState

variable {ι : Type*} [DecidableEq ι]

def init (st : Stream) : StreamState ι where
  stream := st
  waitingRead := []
  waitingWrite := []
  pc := fun _ => .idle
  inserted := []
  removed := []
  log := []

/-- The mutex is released at the end of a section: the thread parks, or the call is about to
return the `i32` of its index. -/
def release (s : StreamState ι) (c : ι) (call : Call) (moved : List UInt8) : Exit → StreamState ι
  | .leave i =>
    { s with
      pc := Function.update s.pc c (.unblocking call)
      log := s.log ++ [⟨call, i.toBitVec.toInt, moved, s.stream⟩] }
  | .park i =>
    let s := { s with pc := Function.update s.pc c (.parked call i moved) }
    match call with
    | .write _ => { s with waitingWrite := s.waitingWrite ++ [c] }
    | .read _ => { s with waitingRead := s.waitingRead ++ [c] }

def record (s : StreamState ι) (call : Call) (st : Stream) (moved : List UInt8) : StreamState ι :=
  match call with
  | .write _ => { s with stream := st, inserted := s.inserted ++ moved }
  | .read _ => { s with stream := st, removed := s.removed ++ moved }

def runLoop (s : StreamState ι) (c : ι) (call : Call) (i : UInt32) (moved : List UInt8) : StreamState ι :=
  let r := s.stream.loop i call
  (s.record call r.1 r.2.1).release c call (moved ++ r.2.1) r.2.2

/-- The list that `unblock_all_threads` empties at the end of a call, without its first thread. -/
def unblockFirst (s : StreamState ι) : Call → Option (StreamState ι)
  | .write _ => if s.waitingRead = [] then none else some { s with waitingRead := s.waitingRead.tail }
  | .read _ =>
    if s.waitingWrite = [] then none else some { s with waitingWrite := s.waitingWrite.tail }

def step (s : StreamState ι) : StreamAct ι → Option (StreamState ι)
  | .call c call =>
    if s.pc c = .idle ∧ call.Valid then some (s.runLoop c call 0 []) else none
  | .resume c =>
    match s.pc c with
    | .parked call i moved =>
      if c ∈ s.waitingRead ∨ c ∈ s.waitingWrite then none
      else if s.stream.closed then some (s.release c call moved (.leave i))
      -- `i--; continue;` and the `i++` of the loop
      else some (s.runLoop c call (i - 1 + 1) moved)
    | _ => none
  | .unblock c =>
    match s.pc c with
    | .unblocking call => some ((s.unblockFirst call).getD { s with pc := Function.update s.pc c .idle })
    | _ => none
  | .close => some { s with stream := { s.stream with closed := true }, waitingRead := [] }

/-- A parked reader gets the mutex back when the stream is closed with bytes in its buffer. -/
def lateReader (s : StreamState ι) : StreamAct ι → Bool
  | .resume c =>
    match s.pc c with
    | .parked (.read _) _ _ => s.stream.closed && s.stream.read != s.stream.write
    | _ => false
  | _ => false

def NoLateReader (s : StreamState ι) (a : StreamAct ι) : Prop := s.lateReader a = false

instance (s : StreamState ι) (a : StreamAct ι) : Decidable (s.NoLateReader a) :=
  inferInstanceAs (Decidable (s.lateReader a = false))

end StreamState

end OlliOS
