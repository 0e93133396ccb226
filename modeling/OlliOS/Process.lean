import OlliOS.Kstd.Vector
import OlliOS.Threading

/-!
# Processes

`P` stands for the `Process*` values and `T` for the `Thread*` values. Each process has two waiting lists,
`_waitingForStopped` and `_waitingForChildStopped`, and a spinlock `_stateLock`. `wait()`, `wait(i32*)` and
`set_state` have no result where the source spins on a lock that is held; `waitPass` is one round of the loop
of `wait(i32*)`, up to its `threading::exit`.
-/

namespace OlliOS

inductive ProcessState
  | initing
  | running
  | forking
  | stopped
  | waiting
  | execve
  | pendingDestruction
  deriving DecidableEq

@[ext]
structure Process (P T : Type*) where
  statusCode : BitVec 32
  state : ProcessState
  thread : T
  childs : List P
  pid : BitVec 32
  parent : Option P
  stateLock : Bool

inductive ProcessList (P : Type*)
  | stopped (p : P)
  | childStopped (p : P)
  deriving DecidableEq

structure Kernel (P T : Type*) where
  process : P → Process P T
  threads : Threads T (ProcessList P)

/-- How `wait()` or a round of `wait(i32*)` ends: it returns a value, having stored a status if one
was asked for, or it gives up the core through `threading::exit`. -/
inductive WaitEnd
  | ret (value : BitVec 32) (status : Option (BitVec 32))
  | exit
  deriving DecidableEq

def sti (iflag enable : Bool) : Bool := if enable then true else iflag

namespace Kernel

variable {P T : Type*} [DecidableEq P] [DecidableEq T]

def modify (s : Kernel P T) (p : P) (f : Process P T → Process P T) : Kernel P T :=
  { s with process := Function.update s.process p (f (s.process p)) }

def lock (s : Kernel P T) (p : P) : Option (Kernel P T) :=
  if (s.process p).stateLock then none
  else some (s.modify p fun q => { q with stateLock := true })

def release (s : Kernel P T) (p : P) : Kernel P T := s.modify p fun q => { q with stateLock := false }

def assignState (s : Kernel P T) (p : P) (st : ProcessState) : Kernel P T :=
  s.modify p fun q => { q with state := st }

def schedule (s : Kernel P T) (t : T) : Kernel P T :=
  { s with threads := s.threads.schedule t }

def firstStopped (s : Kernel P T) : List P → ℕ → Option (ℕ × P)
  | [], _ => none
  | c :: cs, i =>
    if (s.process c).state = .stopped then some (i, c) else s.firstStopped cs (i + 1)

def reap (s : Kernel P T) (p : P) (i : ℕ) (c : P) : Kernel P T :=
  let s := s.modify p fun q => { q with childs := Vector.erase q.childs i }
  let s := s.assignState c .pendingDestruction
  let s := s.schedule (s.process c).thread
  s.assignState p .running

variable [Fintype T]

def addBlockedThread (s : Kernel P T) (l : ProcessList P) (t : T) : Option (Kernel P T) :=
  (s.threads.addBlockedThread l t).map fun th => { s with threads := th }

def unblockAllThreads (s : Kernel P T) (l : ProcessList P) : Option (Kernel P T) :=
  (s.threads.unblockAllThreads l).map fun th => { s with threads := th }

/-- `Process::wait()` on `p`. Without a current thread the null pointer that `add_blocked_thread`
is given is dereferenced; there is no result then. -/
def wait (s : Kernel P T) (iflag : Bool) (p : P) (currentThread : Option T) : Option (Kernel P T × Bool × WaitEnd) := do
  let eflags := iflag
  let s ← s.lock p
  if (s.process p).state ≠ .stopped then
    match currentThread with
    | none => none
    | some t =>
      let s ← s.addBlockedThread (.stopped p) t
      some (s.release p, sti false eflags, .exit)
  else
    some (s.release p, sti false eflags, .ret 0 none)

def waitPass (s : Kernel P T) (iflag : Bool) (p : P) (t : T) (status : Bool) :
    Option (Kernel P T × Bool × WaitEnd) := do
  let eflags := iflag
  let s ← s.lock p
  if 0 < (s.process p).childs.length then
    match s.firstStopped (s.process p).childs 0 with
    | some (i, c) =>
      let pid := (s.process c).pid
      let s := s.reap p i c
      let stored := if status then some (s.process c).statusCode else none
      some (s.release p, sti false eflags, .ret pid stored)
    | none =>
      let s ← (s.assignState p .waiting).addBlockedThread (.childStopped p) t
      some (s.release p, sti false eflags, .exit)
  else
    -- the lock is not released and the interrupt flag not restored
    some (s, false, .ret (-1) none)

def publish (s : Kernel P T) (p : P) (newState : ProcessState) : Option (Kernel P T) := do
  let s ← s.lock p
  let s := s.assignState p newState
  if newState = .stopped then s.unblockAllThreads (.stopped p) else some s

def tellParent (s : Kernel P T) (p : P) : Option (Kernel P T) :=
  match (s.process p).parent with
  | none => some s
  | some q => do
    let s ← s.lock q
    let s ← if (s.process q).state = .waiting then s.unblockAllThreads (.childStopped q) else some s
    some (s.release q)

def setState (s : Kernel P T) (iflag : Bool) (p : P) (newState : ProcessState) : Option (Kernel P T × Bool) := do
  let eflags := iflag
  let s ← s.publish p newState
  let s ← if newState = .stopped then s.tellParent p else some s
  some (s.release p, sti false eflags)

end Kernel

/-- What one core may do with processes between two switches: calls, rounds of `wait(i32*)`, and
turning its interrupts on and off in between. -/
inductive ProcessCall (P T : Type*)
  | wait (p : P) (t : T)
  | waitPass (p : P) (t : T) (status : Bool)
  | setState (p : P) (st : ProcessState)
  | setIflag (b : Bool)

namespace ProcessCall

variable {P T : Type*} [DecidableEq P] [DecidableEq T] [Fintype T]

def step (s : Kernel P T × Bool) : ProcessCall P T → Option (Kernel P T × Bool)
  | .wait p t => (s.1.wait s.2 p (some t)).map fun r => (r.1, r.2.1)
  | .waitPass p t status => (s.1.waitPass s.2 p t status).map fun r => (r.1, r.2.1)
  | .setState p st => s.1.setState s.2 p st
  | .setIflag b => some (s.1, b)

def HasChild (s : Kernel P T × Bool) : ProcessCall P T → Prop
  | .waitPass p _ _ => (s.1.process p).childs ≠ []
  | _ => True

end ProcessCall

end OlliOS
