import Mathlib.Data.Fintype.Option
import OlliOS.Lib.Stepping

/-!
# The high precision event timer

`Hpet::wait` runs in a thread or in a callback, and `Hpet::process` in the interrupt handler. A thread may be
interrupted in `wait` before the queue is changed and behind it, since `CLI` and `STI` only enclose the
change; the counter goes on all the time. A callback is named by the number of its registration. The queue
that the links form is a list.
-/

namespace OlliOS

structure HpetQueuedCallback where
  accumulator : UInt64
  id : ℕ
  deriving DecidableEq

/-- A call of `wait`: where it is, what it has read from the counter, and the time it waits for. -/
inductive WaitPc
  | idle
  | computed (read timestamp : UInt64)
  | inserted (read timestamp : UInt64) (updateCounter : Bool)
  deriving DecidableEq

/-- A call of `process`: what it has read from the counter, the queue at its start, and the callbacks it
has called. -/
structure HpetCall where
  counter : UInt64
  start : List HpetQueuedCallback
  fired : List HpetQueuedCallback
  inCallback : Bool
  deriving DecidableEq

structure HpetReturn where
  read : UInt64
  comparator : UInt64
  queue : List HpetQueuedCallback
  deriving DecidableEq

/-- The comparator is that of the next deadline, which was ahead when the counter was read. -/
def HpetReturn.Armed (r : HpetReturn) : Prop :=
  ∀ head ∈ r.queue.head?, r.comparator = head.accumulator ∧ r.read < head.accumulator

structure HpetState (T : Type*) where
  frequency : UInt64
  counter : UInt64
  comparator : UInt64
  queuedCallbacks : List HpetQueuedCallback
  registered : ℕ
  /-- The calls of `wait` of the threads, and of the callback that runs. -/
  pc : Option T → WaitPc
  process : Option HpetCall
  calls : List HpetCall
  returns : List HpetReturn

inductive HpetAct (T : Type*)
  | tick (counter : UInt64)
  | wait (k : Option T) (us : UInt64)
  | insert (k : Option T)
  | arm (k : Option T)
  | interrupt
  | fire
  | callbackReturns
  | leave

namespace HpetState

variable {T : Type*} [DecidableEq T]

def init (frequency counter : UInt64) : HpetState T where
  frequency := frequency
  counter := counter
  comparator := 0
  queuedCallbacks := []
  registered := 0
  pc _ := .idle
  process := none
  calls := []
  returns := []

def Runs (s : HpetState T) : Option T → Prop
  | some _ => s.process = none
  | none => s.process.any HpetCall.inCallback = true

instance (s : HpetState T) (k : Option T) : Decidable (s.Runs k) := by
  unfold Runs
  split <;> infer_instance

def timestamp (s : HpetState T) (us : UInt64) : UInt64 := (s.counter / s.frequency + us) * s.frequency

def Earlier (a b : HpetQueuedCallback) : Prop := a.accumulator ≤ b.accumulator

instance : DecidableRel Earlier := fun a b => inferInstanceAs (Decidable (a.accumulator ≤ b.accumulator))

def first (timestamp : UInt64) : List HpetQueuedCallback → Bool
  | [] => true
  | current :: _ => timestamp ≤ current.accumulator

def step (s : HpetState T) : HpetAct T → Option (HpetState T)
  | .tick counter => if s.counter ≤ counter then some { s with counter } else none
  | .wait k us =>
    if s.Runs k ∧ s.pc k = .idle ∧ s.frequency ≠ 0 then
      some { s with pc := Function.update s.pc k (.computed s.counter (s.timestamp us)) }
    else none
  | .insert k =>
    match s.pc k with
    | .computed read timestamp =>
      if s.Runs k then
        some { s with
          queuedCallbacks := s.queuedCallbacks.orderedInsert Earlier ⟨timestamp, s.registered⟩
          registered := s.registered + 1
          pc := Function.update s.pc k (.inserted read timestamp (first timestamp s.queuedCallbacks)) }
      else none
    | _ => none
  | .arm k =>
    match s.pc k with
    | .inserted read timestamp updateCounter =>
      if s.Runs k then
        let comparator := if updateCounter then timestamp else s.comparator
        some { s with
          comparator
          pc := Function.update s.pc k .idle
          returns := s.returns ++ [⟨read, comparator, s.queuedCallbacks⟩] }
      else none
    | _ => none
  | .interrupt =>
    if s.process = none then some { s with process := some ⟨s.counter, s.queuedCallbacks, [], false⟩ }
    else none
  | .fire =>
    match s.process, s.queuedCallbacks with
    | some p, temp :: next =>
      if p.inCallback = false ∧ temp.accumulator ≤ p.counter then
        some { s with
          queuedCallbacks := next
          process := some { p with fired := p.fired ++ [temp], inCallback := true } }
      else none
    | _, _ => none
  | .callbackReturns =>
    match s.process with
    | some p =>
      if p.inCallback = true ∧ s.pc none = .idle then
        some { s with process := some { p with inCallback := false } }
      else none
    | none => none
  | .leave =>
    match s.process with
    | some p =>
      if p.inCallback = false ∧ ∀ head ∈ s.queuedCallbacks.head?, ¬ head.accumulator ≤ p.counter then
        let comparator := (s.queuedCallbacks.head?.map HpetQueuedCallback.accumulator).getD s.comparator
        some { s with
          comparator
          process := none
          calls := s.calls ++ [p]
          returns := s.returns ++ [⟨p.counter, comparator, s.queuedCallbacks⟩] }
      else none
    | none => none

def waitUninterrupted (s : HpetState T) (k : Option T) (us : UInt64) : Option (HpetState T) :=
  (s.step (.wait k us)).bind fun s => (s.step (.insert k)).bind fun s => s.step (.arm k)

def allCalls (s : HpetState T) : List HpetCall := s.calls ++ s.process.toList

def fired (s : HpetState T) : List HpetQueuedCallback := s.allCalls.flatMap HpetCall.fired

/-- Every callback is in the queue or was called, and not twice; the queue is in order; none was called
before its time, and a call of `process` has called every one that was due at its start. -/
structure Delivered (s : HpetState T) : Prop where
  sorted : s.queuedCallbacks.Pairwise Earlier
  once : (s.queuedCallbacks ++ s.fired).map HpetQueuedCallback.id |>.Perm (List.range s.registered)
  due : ∀ p ∈ s.allCalls, ∀ e ∈ p.fired, e.accumulator ≤ p.counter
  complete : ∀ p ∈ s.calls, ∀ e ∈ p.start, e.accumulator ≤ p.counter → e ∈ p.fired

def Idle (s : HpetState T) : Prop := ∀ k, s.pc k = .idle

instance [Fintype T] (s : HpetState T) : Decidable s.Idle := inferInstanceAs (Decidable (∀ k, s.pc k = .idle))

/-- `wait` asks for a time that is ahead, when no other call of `wait` is under way and no deadline has
passed. A callback asks for a time before all others, or the timer is armed for the first of them. The
interrupt does not come in the middle of `wait`. -/
def Timely (s : HpetState T) : HpetAct T → Prop
  | .wait k us =>
    s.Idle ∧ s.counter < s.timestamp us ∧ ∀ head ∈ s.queuedCallbacks.head?, s.counter < head.accumulator ∧
      (k = none → s.timestamp us ≤ head.accumulator ∨ s.comparator = head.accumulator)
  | .interrupt => s.Idle
  | _ => True

instance [Fintype T] (s : HpetState T) (a : HpetAct T) : Decidable (s.Timely a) := by
  unfold Timely
  split <;> infer_instance

end HpetState

end OlliOS
