import OlliOS.Lib.Stepping

/-!
# The lock of the scheduler and the interrupt flag

One core that executes `Scheduler::enter`, `Scheduler::schedule`, `threading::exit`, `Thread::enter` and the
thread switches of `thread_asm.asm`, cut at every step that reads or writes the lock or the interrupt flag.
What is still to be done is a stack of program points; a thread that is not running and the scheduler below a
running thread have theirs saved. A handler is entered wherever interrupts are enabled.
-/

namespace OlliOS

inductive Frame (T : Type*)
  /-- Code outside of the functions below. -/
  | code
  /-- An interrupt handler, which ends with `iret`. -/
  | handler
  /-- `schedule(t)`: is the core in a thread? -/
  | schedule (t : T)
  /-- In a thread: `eflag = CLI()`. -/
  | tryCli (t : T)
  /-- In a thread: `_lock.try_lock()`. -/
  | tryLock (t : T) (eflag : Bool)
  /-- In a thread: `STI(eflag)` and `threading::exit()` after a failed `try_lock`. -/
  | retry (t : T) (eflag : Bool)
  /-- Outside of a thread: `eflag = CLI()`. -/
  | spinCli (t : T)
  /-- Outside of a thread: `_lock.lock()`. -/
  | spin (t : T) (eflag : Bool)
  | push (t : T) (eflag : Bool)
  | release (eflag : Bool)
  | sti (eflag : Bool)
  /-- `threading::exit`: `eflags = CLI()`. -/
  | exitCli
  /-- `threading::exit`: leave the thread if the core is in one. -/
  | exit (eflags : Bool)
  /-- `Scheduler::enter`: `_lock.lock()`. -/
  | enter
  /-- `Scheduler::enter`: `eflag = CLI()`. -/
  | enterCli
  /-- `Scheduler::enter`: `_threads.is_empty()` and `_threads.pop()`. -/
  | pop (eflag : Bool)
  /-- `Thread::enter`: `_finished` and `eflag = CLI()`. -/
  | threadEnter (t : T)
  /-- `Thread::enter`: `thread_enter`. -/
  | threadSwitch (t : T)
  /-- `Thread::enter`: `thread_enter` has returned. -/
  | threadLeft (t : T)
  /-- `Scheduler::enter`: `Thread::enter` has returned. -/
  | entered (t : T)
  deriving DecidableEq

namespace Frame

variable {T : Type*}

def wants : Frame T → Bool
  | .tryLock _ _ | .spin _ _ => true
  | _ => false

end Frame

/-- A stack that is not active, with the flags saved on it. -/
structure Context (T : Type*) where
  stack : List (Frame T)
  iflag : Bool

structure CoreState (T : Type*) where
  iflag : Bool
  lock : Bool
  threads : List T
  running : Option T
  stack : List (Frame T)
  parent : Context T
  saved : T → Context T

inductive CoreAct (T : Type*)
  | run
  | schedule (t : T)
  | exit
  /-- The code of the scheduler calls `Scheduler::enter`. -/
  | enter
  /-- Code turns interrupts on or off. -/
  | setIflag (b : Bool)
  | finish
  | irq
  | iret
  | preempt
  /-- `Thread::enter` goes on to the thread; `finish_fork` schedules `ts` before it. -/
  | threadEnter (ts : List T)
  | finished
  /-- `Thread::enter` gives the thread up; `finish_execve` schedules `ts`. -/
  | giveUp (ts : List T)
  /-- `Scheduler::enter` is done with the thread; `ts` are scheduled on the way. -/
  | entered (ts : List T)

namespace CoreState

variable {T : Type*} [DecidableEq T]

/-- The code of the scheduler before it enters a thread. A new thread enables interrupts first. -/
def init : CoreState T where
  iflag := false
  lock := false
  threads := []
  running := none
  stack := [.code]
  parent := ⟨[], false⟩
  saved := fun _ => ⟨[.sti true, .code], false⟩

/-- The thread `t` is left with `stack` still to do, and the scheduler goes on. -/
def leave (s : CoreState T) (t : T) (stack : List (Frame T)) : CoreState T :=
  { s with
    saved := Function.update s.saved t ⟨stack, s.iflag⟩
    stack := s.parent.stack
    iflag := s.parent.iflag }

/-- The next point of the stack is executed. A spin on a lock that is taken is no step. -/
def run (s : CoreState T) : Option (CoreState T) :=
  match s.stack with
  | .schedule t :: k => some { s with stack := (if s.running.isSome then .tryCli t else .spinCli t) :: k }
  | .tryCli t :: k => some { s with iflag := false, stack := .tryLock t s.iflag :: k }
  | .tryLock t eflag :: k =>
    some (if s.lock then { s with stack := .retry t eflag :: k }
      else { s with lock := true, stack := .push t eflag :: k })
  | .retry t eflag :: k => some { s with iflag := s.iflag || eflag, stack := .exitCli :: .tryCli t :: k }
  | .spinCli t :: k => some { s with iflag := false, stack := .spin t s.iflag :: k }
  | .spin t eflag :: k =>
    if s.lock then none else some { s with lock := true, stack := .push t eflag :: k }
  | .push t eflag :: k => some { s with threads := s.threads ++ [t], stack := .release eflag :: k }
  | .release eflag :: k => some { s with lock := false, stack := .sti eflag :: k }
  | .sti eflag :: k => some { s with iflag := s.iflag || eflag, stack := k }
  | .exitCli :: k => some { s with iflag := false, stack := .exit s.iflag :: k }
  | .exit eflags :: k =>
    some (match s.running with
      | none => { s with stack := .sti eflags :: k }
      | some t => s.leave t (.sti eflags :: k))
  | .enter :: k => if s.lock then none else some { s with lock := true, stack := .enterCli :: k }
  | .enterCli :: k => some { s with iflag := false, stack := .pop s.iflag :: k }
  | .pop eflag :: k =>
    some (match s.threads with
      | [] => { s with stack := .release eflag :: k }
      | t :: ts => { s with threads := ts, stack := .release eflag :: .threadEnter t :: k })
  | .threadSwitch t :: k =>
    some { s with
      parent := ⟨.threadLeft t :: k, s.iflag⟩
      stack := (s.saved t).stack
      iflag := (s.saved t).iflag }
  | .threadLeft t :: k => some { s with running := none, iflag := true, stack := .entered t :: k }
  | .code :: _ | .handler :: _ | .threadEnter _ :: _ | .entered _ :: _ | [] => none

def Calls (s : CoreState T) : Prop := s.stack.head? = some .code ∨ s.stack.head? = some .handler

instance (s : CoreState T) : Decidable s.Calls := inferInstanceAs (Decidable (_ ∨ _))

def step (s : CoreState T) : CoreAct T → Option (CoreState T)
  | .run => s.run
  | .schedule t => if s.Calls then some { s with stack := .schedule t :: s.stack } else none
  | .exit => if s.Calls then some { s with stack := .exitCli :: s.stack } else none
  | .enter =>
    if s.stack.head? = some .code ∧ s.running = none then
      some { s with stack := .enter :: s.stack }
    else none
  | .setIflag b => if s.stack.head? = some .code then some { s with iflag := b } else none
  | .finish =>
    match s.stack, s.running with
    | .code :: _, some t => some (s.leave t [])
    | _, _ => none
  | .irq => if s.iflag then some { s with iflag := false, stack := .handler :: s.stack } else none
  | .iret =>
    match s.stack with
    | .handler :: k => some { s with iflag := true, stack := k }
    | _ => none
  | .preempt =>
    match s.stack, s.running with
    | .handler :: k, some t => some (s.leave t (.handler :: k))
    | _, _ => none
  | .threadEnter ts =>
    match s.stack with
    -- with interrupts disabled `Thread::enter` never returns
    | .threadEnter t :: k =>
      if s.iflag then
        some { s with
          iflag := false
          running := some t
          stack := ts.map .schedule ++ .threadSwitch t :: k }
      else none
    | _ => none
  | .finished =>
    match s.stack with
    | .threadEnter t :: k => some { s with stack := .entered t :: k }
    | _ => none
  | .giveUp ts =>
    match s.stack with
    | .threadEnter t :: k =>
      if s.iflag then
        some { s with iflag := false, stack := ts.map .schedule ++ .sti true :: .entered t :: k }
      else none
    | _ => none
  | .entered ts =>
    match s.stack with
    | .entered _ :: k => some { s with stack := ts.map .schedule ++ k }
    | _ => none

def HandlerWants (s : CoreState T) : Prop := (s.stack.head?.any Frame.wants) = true ∧ .handler ∈ s.stack

instance (s : CoreState T) : Decidable s.HandlerWants := inferInstanceAs (Decidable (_ ∧ _))

/-- Interrupts are disabled while the lock is taken, and a handler that takes it next finds it free. -/
def LockMasked (s : CoreState T) : Prop :=
  (s.lock = true → s.iflag = false) ∧ (s.HandlerWants → s.lock = false)

/-- `Scheduler::enter` has taken the lock and has interrupts still enabled, or was interrupted there by
a handler that takes the lock next. -/
def EnterOpen (s : CoreState T) : Prop :=
  (s.stack.head? = some .enterCli ∧ s.iflag = true) ∨ (.enterCli ∈ s.stack ∧ s.HandlerWants)

instance (s : CoreState T) : Decidable s.EnterOpen := inferInstanceAs (Decidable (_ ∨ _))

end CoreState

end OlliOS
