import OlliOS.Process

/-!
# From fork to destruction

One core runs `Scheduler::enter` and the threads of processes. Every process has one thread, so `P` stands for
the `Process*` and the `Thread*` values alike. The log records each `delete` of a `Process` with the kernel at
that moment, and each call of `Process::wait()` with the `currentThread()` of the core.
-/

namespace OlliOS

open Function

inductive LifeCore (P : Type*)
  | idle
  | inThread (p : P)
  | returned (p : P)
  deriving DecidableEq

inductive LifePc
  | run
  /-- In the loop of `wait(i32*)`, about to take the lock. -/
  | scanning (status : Bool)
  /-- In the loop of `wait(i32*)`, after `add_blocked_thread`; `threading::exit` is next. -/
  | parking (status : Bool)
  deriving DecidableEq

inductive LifeEvent (P : Type*)
  | deleted (p : P) (kernel : Kernel P P)
  | waited (p : P) (currentThread : Option P)

structure LifeState (P : Type*) where
  kernel : Kernel P P
  core : LifeCore P
  born : P → Bool
  pc : P → LifePc
  iflag : P → Bool
  nextPid : BitVec 32
  log : List (LifeEvent P)
  crashed : Bool

inductive LifeAct (P : Type*)
  | spawn (p : P)
  /-- `Scheduler::enter` pops a thread and calls `Thread::enter`; a fork is finished there, and
  `child` is the new process. -/
  | enter (child : P)
  | settle
  | fork
  | exit (status : BitVec 32)
  | finish
  | wait (status : Bool)
  | pass
  | park
  | setIflag (b : Bool)
  | preempt

namespace LifeState

variable {P : Type*} [DecidableEq P]

def init : LifeState P where
  kernel :=
    { process := fun p => ⟨-1, .initing, p, [], 0, none, false⟩
      threads := Threads.empty }
  core := .idle
  born := fun _ => false
  pc := fun _ => .run
  iflag := fun _ => true
  nextPid := 1
  log := []
  crashed := false

def currentThread (s : LifeState P) : Option P :=
  match s.core with
  | .inThread p => some p
  | _ => none

def create (s : LifeState P) (p : P) (parent : Option P) (pc : LifePc) (iflag : Bool) : LifeState P :=
  { s with
    kernel := (s.kernel.modify p fun _ => ⟨-1, .running, p, [], s.nextPid, parent, false⟩).schedule p
    born := update s.born p true
    pc := update s.pc p pc
    iflag := update s.iflag p iflag
    nextPid := s.nextPid + 1 }

/-- `Process::finish_fork`; the child's thread is a clone, flags included. -/
def finishFork (s : LifeState P) (p child : P) : LifeState P :=
  let th := s.kernel.threads
  let th := { th with
    finished := update th.finished child (th.finished p)
    blocking := update th.blocking child (th.blocking p) }
  let s := { s with kernel := { s.kernel.assignState p .running with threads := th } }
  let s := s.create child (some p) (s.pc p) (s.iflag p)
  { s with kernel := s.kernel.modify p fun q => { q with childs := q.childs ++ [child] } }

def leave (s : LifeState P) (p : P) : LifeState P :=
  if s.kernel.threads.finished p then { s with core := .returned p }
  else if s.kernel.threads.blocking p then { s with core := .idle }
  else { s with core := .idle, kernel := s.kernel.schedule p }

/-- `Thread::enter` up to the switch, or up to its return when it does not switch. -/
def enterThread (s : LifeState P) (t child : P) : Option (LifeState P) :=
  if s.kernel.threads.finished t then some { s with core := .returned t }
  else match (s.kernel.process t).state with
    | .forking =>
      if s.born child then none
      else some ({ s with core := .inThread t }.finishFork t child)
    | .pendingDestruction => some { s with core := .returned t }
    | _ => some { s with core := .inThread t }

def kill (s : LifeState P) (p : P) : LifeState P :=
  { s with kernel := { s.kernel with threads := s.kernel.threads.kill p } }

def killChildren (s : LifeState P) (cs : List P) : LifeState P :=
  cs.foldl (fun s c => s.kill (s.kernel.process c).thread) s

variable [Fintype P]

def destroyChild (destroy : LifeState P → P → LifeState P) (s : LifeState P) (c : P) : LifeState P :=
  if s.crashed then s
  else
    let s := { s with log := s.log ++ [LifeEvent.waited c s.currentThread] }
    match s.kernel.wait true c s.currentThread with
    | none => { s with crashed := true }
    | some r => destroy { s with kernel := r.1 } c

/-- `delete` of a process: `Process::~Process`, recursing at most `fuel` deep into its children. -/
def destroy : ℕ → LifeState P → P → LifeState P
  | 0, s, _ => { s with crashed := true }
  | fuel + 1, s, p =>
    let cs := (s.kernel.process p).childs
    let s := { s with log := s.log ++ [LifeEvent.deleted p s.kernel] }
    cs.foldl (destroyChild (destroy fuel)) (s.killChildren cs)

def settle (s : LifeState P) (p : P) : Option (LifeState P) :=
  if (s.kernel.process p).state = .pendingDestruction then
    some { s.destroy (Fintype.card P + 1) p with core := .idle }
  else
    (s.kernel.setState true p .stopped).map fun r => { s with core := .idle, kernel := r.1 }

def threadStep (s : LifeState P) (p : P) : LifeAct P → Option (LifeState P)
  | .fork =>
    if s.pc p = .run then
      some ({ s with kernel := s.kernel.assignState p .forking }.leave p)
    else none
  | .exit status =>
    if s.pc p = .run then
      some (({ s with
        kernel := s.kernel.modify p fun q => { q with statusCode := status } }.kill p).leave p)
    else none
  | .finish => if s.pc p = .run then some ((s.kill p).leave p) else none
  | .wait status =>
    if s.pc p = .run then some { s with pc := update s.pc p (.scanning status) } else none
  | .pass =>
    match s.pc p with
    | .scanning status =>
      (s.kernel.waitPass (s.iflag p) p p status).map fun r =>
        { s with
          kernel := r.1
          iflag := update s.iflag p r.2.1
          pc := update s.pc p (if r.2.2 = .exit then .parking status else .run) }
    | _ => none
  | .park =>
    match s.pc p with
    | .parking status => some ({ s with pc := update s.pc p (.scanning status) }.leave p)
    | _ => none
  | .setIflag b => some { s with iflag := update s.iflag p b }
  | .preempt => if s.iflag p then some (s.leave p) else none
  | _ => none

def step (s : LifeState P) (a : LifeAct P) : Option (LifeState P) :=
  if s.crashed then none
  else match s.core with
    | .inThread p => s.threadStep p a
    | .returned p =>
      match a with
      | .settle => s.settle p
      | _ => none
    | .idle =>
      match a with
      | .spawn p => if s.born p then none else some (s.create p none .run true)
      | .enter child =>
        match s.kernel.threads.queue with
        | [] => some s
        | t :: ts =>
          { s with kernel := { s.kernel with
            threads := { s.kernel.threads with queue := ts } } }.enterThread t child
      | _ => none

/-- The scheduler only deletes processes that have no children. -/
def ChildlessDelete (s : LifeState P) (_ : LifeAct P) : Prop :=
  ∀ p, s.core = .returned p → (s.kernel.process p).state = .pendingDestruction → (s.kernel.process p).childs = []

instance (s : LifeState P) (a : LifeAct P) : Decidable (s.ChildlessDelete a) :=
  inferInstanceAs (Decidable (∀ p, s.core = .returned p →
    (s.kernel.process p).state = .pendingDestruction → (s.kernel.process p).childs = []))

end LifeState

/-- A deleted process has a finished thread that is in no queue or waiting list, and
`Process::wait()` is called by a thread. -/
def LifeEvent.Good {P : Type*} [Fintype P] [DecidableEq P] : LifeEvent P → Prop
  | .deleted p k =>
    k.threads.finished (k.process p).thread = true ∧ (k.process p).thread ∉ k.threads.queue ∧
      ∀ l, (k.process p).thread ∉ k.threads.waitingOn l
  | .waited _ currentThread => currentThread ≠ none

def LifeEvent.outsideThread {P : Type*} : LifeEvent P → Bool
  | .waited _ none => true
  | _ => false

end OlliOS
