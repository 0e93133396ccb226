import OlliOS.Process

/-!
# Parents that wait and children that stop

Processes run on any number of cores. A step is a section in which the state lock of one process is held: a
round of `wait(i32*)`, the part of `set_state(Stopped)` that publishes the new state, and the part that looks
at the parent. Between the last two the child still holds its own lock.
-/

namespace OlliOS

open Function

inductive ReapPc
  | idle
  | scanning (status : Bool)
  /-- In the loop of `wait(i32*)`, after `add_blocked_thread`. -/
  | parked (status : Bool)
  /-- `set_state(Stopped)` has published the state; the parent is next. -/
  | stopping
  /-- `set_state(Stopped)` has told the parent; releasing the lock is next. -/
  | releasing
  | ended
  deriving DecidableEq

def ReapPc.entered : ReapPc → ReapPc
  | .parked status => .scanning status
  | c => c

structure Reap (P : Type*) where
  parent : P
  child : P
  ret : BitVec 32
  status : Bool
  stored : Option (BitVec 32)
  before : List P
  after : List P

structure ReapState (P T : Type*) where
  kernel : Kernel P T
  pc : P → ReapPc
  log : List (Reap P)

inductive ReapAct (P : Type*)
  | enter (p : P)
  | wait (p : P) (status : Bool)
  | pass (p : P)
  /-- `Process::exit` stores the status before it kills the thread. -/
  | exit (p : P) (status : BitVec 32)
  | publish (p : P)
  | tellParent (p : P)
  | release (p : P)

namespace ReapState

variable {P T : Type*} [DecidableEq P] [DecidableEq T]

def thread (s : ReapState P T) (p : P) : T := (s.kernel.process p).thread

def OnCore (s : ReapState P T) (p : P) : Prop :=
  s.thread p ∉ s.kernel.threads.queue ∧ s.kernel.threads.blocking (s.thread p) = false

instance (s : ReapState P T) (p : P) : Decidable (s.OnCore p) := inferInstanceAs (Decidable (_ ∧ _))

def found (s : ReapState P T) (p : P) : List P :=
  ((s.kernel.firstStopped (s.kernel.process p).childs 0).map Prod.snd).toList

variable [Fintype T]

def afterPass (s : ReapState P T) (p : P) (status : Bool) (k : Kernel P T) : WaitEnd → ReapState P T
  | .exit => { s with kernel := k, pc := update s.pc p (.parked status) }
  | .ret value stored =>
    { kernel := k
      pc := update s.pc p .idle
      log := s.log ++ (s.found p).map fun c =>
        ⟨p, c, value, status, stored, (s.kernel.process p).childs, (k.process p).childs⟩ }

def step (s : ReapState P T) : ReapAct P → Option (ReapState P T)
  | .enter p =>
    if s.thread p ∈ s.kernel.threads.queue then
      some { s with
        kernel := { s.kernel with
          threads := { s.kernel.threads with
            queue := s.kernel.threads.queue.erase (s.thread p) } }
        pc := update s.pc p (s.pc p).entered }
    else none
  | .wait p status =>
    if s.OnCore p ∧ s.pc p = .idle ∧ (s.kernel.process p).childs ≠ [] then
      some { s with pc := update s.pc p (.scanning status) }
    else none
  | .pass p =>
    match s.pc p with
    | .scanning status =>
      if s.OnCore p then
        (s.kernel.waitPass true p (s.thread p) status).map fun r => s.afterPass p status r.1 r.2.2
      else none
    | _ => none
  | .exit p status =>
    if s.OnCore p ∧ s.pc p = .idle then
      some { s with kernel := s.kernel.modify p fun q => { q with statusCode := status } }
    else none
  | .publish p =>
    if s.OnCore p ∧ (s.pc p = .idle ∨ ∃ status, s.pc p = .scanning status) then
      (s.kernel.publish p .stopped).map fun k =>
        { s with kernel := k, pc := update s.pc p .stopping }
    else none
  | .tellParent p =>
    if s.pc p = .stopping then
      (s.kernel.tellParent p).map fun k =>
        { s with kernel := k, pc := update s.pc p .releasing }
    else none
  | .release p =>
    if s.pc p = .releasing then
      some { s with kernel := s.kernel.release p, pc := update s.pc p .ended }
    else none

end ReapState

end OlliOS
