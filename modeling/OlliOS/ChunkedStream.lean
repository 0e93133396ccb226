import OlliOS.Stream

/-!
# Chunked streams

`ChunkedStreamHandle::write` and `read` cut their size down to whole chunks and call `StreamHandle` until that
many bytes are moved, with calls of other threads in between. A thread brings its index up to date when it
releases the mutex of the stream. The state also keeps for each byte stored the call that supplied it and its
place in the buffer of the call.
-/

namespace OlliOS

structure Origin where
  call : ℕ
  offset : ℕ
  deriving DecidableEq

def Call.size (chunk : UInt32) : Call → UInt32
  | .write buffer => .ofNat buffer.length - .ofNat buffer.length % chunk
  | .read count => count - count % chunk

def Call.rest (chunk : UInt32) (i : UInt32) : Call → Call
  | .write buffer => .write ((buffer.take ((Call.write buffer).size chunk).toNat).drop i.toNat)
  | .read count => .read ((Call.read count).size chunk - i)

/-- A chunked call: its number and arguments, its index, and for a `read` the bytes it has so far. -/
structure ChunkCall where
  id : ℕ
  call : Call
  i : UInt32
  data : List UInt8
  source : List Origin
  deriving DecidableEq

structure ChunkRead where
  data : List UInt8
  source : List Origin
  deriving DecidableEq

structure ChunkState (ι : Type*) where
  stream : StreamState ι
  pc : ι → Option ChunkCall
  calls : List Call
  origin : List Origin
  reads : List ChunkRead

inductive ChunkAct (ι : Type*)
  | begin (c : ι) (call : Call)
  | enter (c : ι)
  | resume (c : ι)
  | unblock (c : ι)
  | finish (c : ι)

namespace ChunkState

variable {ι : Type*} [DecidableEq ι]

def init (st : Stream) : ChunkState ι where
  stream := .init st
  pc := fun _ => none
  calls := []
  origin := []
  reads := []

/-- `i += write` or `i += read`, with the bytes that the call on the stream has moved. A call that
returns 0 only gives the core away before. -/
def gain (s : ChunkState ι) (c : ι) (p : ChunkCall) (e : Returned) : ChunkState ι :=
  match p.call with
  | .write _ =>
    { s with
      pc := Function.update s.pc c (some { p with i := p.i + .ofInt e.ret })
      origin := s.origin ++ (List.range' p.i.toNat e.moved.length).map fun o => ⟨p.id, o⟩ }
  | .read _ =>
    { s with
      pc := Function.update s.pc c (some { p with
          i := p.i + .ofInt e.ret
          data := p.data ++ e.moved
          source := p.source ++ (s.origin.drop s.stream.removed.length).take e.moved.length }) }

def advance (s : ChunkState ι) (c : ι) (p : ChunkCall) (st : StreamState ι) : ChunkState ι :=
  match st.log.drop s.stream.log.length with
  | [] => { s with stream := st }
  | e :: _ => { s.gain c p e with stream := st }

def finish (s : ChunkState ι) (c : ι) (p : ChunkCall) : ChunkState ι :=
  { s with
    pc := Function.update s.pc c none
    reads := match p.call with
      | .write _ => s.reads
      | .read _ => s.reads ++ [⟨p.data, p.source⟩] }

def step (chunk : UInt32) (s : ChunkState ι) : ChunkAct ι → Option (ChunkState ι)
  | .begin c call =>
    if s.pc c = none ∧ call.Valid then
      some { s with
          pc := Function.update s.pc c (some ⟨s.calls.length, call, 0, [], []⟩)
          calls := s.calls ++ [call] }
    else none
  | .enter c =>
    (s.pc c).bind fun p =>
      if p.i < p.call.size chunk then
        (s.stream.step (.call c (p.call.rest chunk p.i))).map (s.advance c p)
      else none
  | .resume c => (s.pc c).bind fun p => (s.stream.step (.resume c)).map (s.advance c p)
  | .unblock c => (s.stream.step (.unblock c)).map fun st => { s with stream := st }
  | .finish c =>
    (s.pc c).bind fun p =>
      if s.stream.pc c = .idle ∧ ¬ p.i < p.call.size chunk then some (s.finish c p) else none

end ChunkState

/-- The bytes `data`, which come from `source`, are whole chunks of `c` bytes, each supplied as one
aligned chunk of one of the `write` calls. -/
inductive Supplied (c : ℕ) (calls : List Call) : List UInt8 → List Origin → Prop
  | nil : Supplied c calls [] []
  | chunk {id j : ℕ} {buffer data : List UInt8} {source : List Origin}
      (hcall : calls[id]? = some (.write buffer)) (hfits : j * c + c ≤ buffer.length)
      (h : Supplied c calls data source) :
      Supplied c calls ((buffer.drop (j * c)).take c ++ data)
        ((List.range' (j * c) c).map (fun o => ⟨id, o⟩) ++ source)

def ChunkState.Whole {ι : Type*} (c : ℕ) (s : ChunkState ι) : Prop :=
  ∀ e ∈ s.reads, Supplied c s.calls e.data e.source

end OlliOS
