import Mathlib.Algebra.BigOperators.Group.Finset.Basic
import OlliOS.Lib.Stepping
import OlliOS.Threading

/-!
# One core running threads

`Core` is the program point of `Scheduler::enter`, cut where interrupts are enabled. A thread is any code made
of the operations that touch the scheduler: it blocks itself on a waiting list or in `usleep`, unblocks others,
starts threads, leaves the core through `threading::exit`, and turns its interrupts off and on. An interrupt
handler is one step, enabled wherever the interrupted code has interrupts on.
-/

namespace OlliOS

open Function

inductive Core (T : Type*)
  | idle
  | locked
  /-- A thread was taken off the queue, the lock released and `STI` done. -/
  | popped (t : T)
  | inThread (t : T)
  /-- `Thread::enter` returned `done`, with interrupts on again. -/
  | returned (t : T) (done : Bool)
  /-- `blocking()` was false; `schedule(thread)` is next. -/
  | resched (t : T)
  deriving DecidableEq

def Core.held {T : Type*} : Core T → Option T
  | .idle | .locked | .returned _ true => none
  | .popped t | .inThread t | .returned t false | .resched t => some t

inductive Pc
  | run
  /-- `usleep` has set the blocking flag; `hpet.wait` is next. -/
  | sleeping
  /-- The thread is on a waiting list or has its timer armed; `threading::exit` is next. -/
  | parking
  deriving DecidableEq

/-- What `Thread::enter` does before it switches to a thread that is not finished. -/
inductive Entry (T : Type*)
  | plain
  /-- The process is `Forking`: `finish_fork` schedules the child's thread. -/
  | forking (child : T)
  /-- The process is in `Execve`: `finish_execve` starts a new thread and this one is done. -/
  | execve (fresh : T)
  /-- The process is `PendingDestruction`: the thread is done. -/
  | pendingDestruction

structure RunState (T L : Type*) where
  threads : Threads T L
  lock : Bool
  core : Core T
  born : T → Bool
  pc : T → Pc
  iflag : T → Bool
  /-- The `toSchedule` of an unblock operation the thread is in the middle of. -/
  hand : T → Option T
  callbacks : List T

inductive Act (T L : Type*)
  -- `Scheduler::enter`
  | lock
  | dequeue
  | enter (e : Entry T)
  | test
  | push
  | settle (ls : List L)
  -- the thread that has the core
  | setIflag (b : Bool)
  | addBlockedThread (l : L)
  | usleep
  | armTimer
  | takeNext (l : L)
  | takeFirst (l : L)
  | schedule
  | spawn (t : T)
  | kill
  | exit
  | finish
  -- interrupts
  | preempt
  | irqUnblockNext (l : L)
  | irqUnblockAll (l : L)
  | irqTimer (t : T)

namespace RunState

variable {T L : Type*} [DecidableEq T] [DecidableEq L] [Fintype T]

def init : RunState T L where
  threads := Threads.empty
  lock := false
  core := .idle
  born := fun _ => false
  pc := fun _ => .run
  iflag := fun _ => true
  hand := fun _ => none
  callbacks := []

/-- The interrupt flag of the core: `Scheduler::enter` runs with interrupts on but for its critical
sections. -/
def interruptible (s : RunState T L) : Bool :=
  match s.core with
  | .inThread t => s.iflag t
  | _ => true

def start (s : RunState T L) (t : T) : RunState T L :=
  { s with
    threads := s.threads.schedule t
    born := update s.born t true
    pc := update s.pc t .run
    iflag := update s.iflag t true }

def leave (s : RunState T L) (t : T) : RunState T L :=
  { s with core := .returned t (s.threads.finished t) }

/-- A handler needs the lock, and spins for it, only if it has a thread to schedule. -/
def irq (s : RunState T L) (r : Option (Threads T L)) : Option (RunState T L) :=
  r.bind fun th =>
    if s.interruptible && (!s.lock || th.queue == s.threads.queue) then
      some { s with threads := th }
    else none

def unblockLists (th : Threads T L) (ls : List L) : Option (Threads T L) :=
  ls.foldlM Threads.unblockAllThreads th

def schedulerStep (s : RunState T L) : Act T L → Option (RunState T L)
  | .lock => if s.core = .idle ∧ !s.lock then some { s with core := .locked, lock := true } else none
  | .dequeue =>
    if s.core = .locked then
      match s.threads.queue with
      | [] => some { s with core := .idle, lock := false }
      | t :: ts => some { s with threads := { s.threads with queue := ts }, core := .popped t, lock := false }
    else none
  | .enter e =>
    match s.core with
    | .popped t =>
      if s.threads.finished t then some { s with core := .returned t true }
      else match e with
        | .plain => some { s with core := .inThread t }
        | .forking child =>
          if s.born child then none else some { s.start child with core := .inThread t }
        | .execve fresh =>
          if s.born fresh then none else some { s.start fresh with core := .returned t true }
        | .pendingDestruction => some { s with core := .returned t true }
    | _ => none
  | .test =>
    match s.core with
    | .returned t false =>
      if s.threads.blocking t then some { s with core := .idle }
      else some { s with core := .resched t }
    | _ => none
  | .push =>
    match s.core with
    | .resched t =>
      if s.lock then none else some { s with threads := s.threads.schedule t, core := .idle }
    | _ => none
  | .settle ls =>
    -- `set_state(Stopped)` unblocks the threads waiting for the process; deleting unblocks none
    match s.core with
    | .returned _ true =>
      if s.lock then none
      else (unblockLists s.threads ls).map fun th => { s with threads := th, core := .idle }
    | _ => none
  | _ => none

def threadStep (s : RunState T L) (t : T) : Act T L → Option (RunState T L)
  | .setIflag b => some { s with iflag := update s.iflag t b }
  | .addBlockedThread l =>
    if s.pc t = .run ∧ s.hand t = none then
      (s.threads.addBlockedThread l t).map fun th =>
        { s with threads := th, pc := update s.pc t .parking }
    else none
  | .usleep =>
    if s.pc t = .run ∧ s.hand t = none then
      some { s with
        threads := s.threads.setBlocking t true
        pc := update s.pc t .sleeping }
    else none
  | .armTimer =>
    if s.pc t = .sleeping then
      some { s with callbacks := s.callbacks ++ [t], pc := update s.pc t .parking }
    else none
  | .takeNext l =>
    if s.pc t ≠ .sleeping ∧ s.hand t = none then
      (s.threads.takeNext l).map fun r =>
        { s with threads := r.1, hand := update s.hand t r.2 }
    else none
  | .takeFirst l =>
    if s.pc t ≠ .sleeping ∧ s.hand t = none then
      some { s with
        threads := (s.threads.takeFirst l).1
        hand := update s.hand t (s.threads.takeFirst l).2 }
    else none
  | .schedule =>
    match s.hand t with
    | some u =>
      -- a thread that finds the lock taken gives up the core and retries
      if s.lock then some (s.leave t)
      else some { s with
        threads := s.threads.schedule u
        hand := update s.hand t none }
    | none => none
  | .spawn u =>
    if s.born u = false ∧ s.lock = false then some (s.start u) else none
  | .kill => some { s with threads := s.threads.kill t }
  | .exit =>
    if s.pc t ≠ .sleeping ∧ s.hand t = none then
      some { (s.leave t) with pc := update s.pc t .run }
    else none
  | .finish =>
    if s.pc t = .run ∧ s.hand t = none then
      some { s with threads := s.threads.kill t, core := .returned t true }
    else none
  | .preempt => if s.iflag t then some (s.leave t) else none
  | _ => none

def step (s : RunState T L) (a : Act T L) : Option (RunState T L) :=
  match a with
  | .irqUnblockNext l => s.irq (s.threads.unblockNextThread l)
  | .irqUnblockAll l => s.irq (s.threads.unblockAllThreads l)
  | .irqTimer t =>
    if t ∈ s.callbacks then
      (s.irq (some ((s.threads.setBlocking t false).schedule t))).map fun s' =>
        { s' with callbacks := s.callbacks.erase t }
    else none
  | .spawn t =>
    match s.core with
    | .inThread u => s.threadStep u (.spawn t)
    | .idle => if s.born t = false ∧ s.lock = false then some (s.start t) else none
    | _ => none
  | a =>
    match s.core with
    | .inThread t => s.threadStep t a
    | _ => s.schedulerStep a

def running (s : RunState T L) : List T :=
  match s.core with
  | .inThread t => if s.threads.blocking t then [] else [t]
  | _ => []

/-- How often a thread occurs in the run queue, among the running threads and on waiting lists. -/
def occurrences [Fintype L] (s : RunState T L) (t : T) : ℕ :=
  s.threads.queue.count t + s.running.count t + ∑ l, (s.threads.waitingOn l).count t

def unblocks (s : RunState T L) : Act T L → List T
  | .takeNext l | .takeFirst l | .irqUnblockNext l => (s.threads.waitingOn l).head?.toList
  | .irqUnblockAll l => s.threads.waitingOn l
  | .irqTimer t => [t]
  | .settle ls => ls.flatMap s.threads.waitingOn
  | _ => []

/-- No unblock operation hits the thread that `Scheduler::enter` may still push back: the one that
has the core, or has just left it unfinished with its `blocking()` not yet tested. -/
def SparesHeld (s : RunState T L) (a : Act T L) : Prop := ∀ t ∈ s.unblocks a, s.core.held ≠ some t

instance (s : RunState T L) (a : Act T L) : Decidable (s.SparesHeld a) :=
  inferInstanceAs (Decidable (∀ t ∈ s.unblocks a, s.core.held ≠ some t))

end RunState

end OlliOS
