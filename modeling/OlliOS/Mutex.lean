import OlliOS.Lib.Stepping
import OlliOS.Threading

/-!
# A mutex

Threads that call `Mutex::lock`, `try_lock` and `release`, in any interleaving, and interrupt handlers that
call `release`. The program points are those where interrupts are enabled; in `lock` the `xchg` that fails and
`add_blocked_thread` are two steps. A thread that has left the core may be entered again at any time, also when
its blocking flag is set.
-/

namespace OlliOS

inductive MutexPc (T : Type*)
  | idle
  /-- In `lock`, before the `xchg`. -/
  | trying
  /-- The `xchg` found the mutex locked; `add_blocked_thread` is next. -/
  | failed
  /-- On the waiting list; `threading::exit` is next. -/
  | parking
  /-- The thread has left the core; when it is entered again it tries again. -/
  | parked
  /-- In `release`, the mutex is free; `unblock_next_thread` is next. -/
  | releasing
  /-- `unblock_next_thread` has taken `u` off the list; `schedule(u)` is next. -/
  | scheduling (u : T)
  deriving DecidableEq

structure MutexState (T : Type*) where
  threads : Threads T Unit
  locked : Bool
  pc : T → MutexPc T
  /-- The thread was taken off the waiting list and has not done its `xchg` again. -/
  taken : T → Bool

inductive MutexAct (T : Type*)
  | lock (t : T)
  | xchg (t : T)
  | tryLock (t : T)
  | enqueue (t : T)
  | exit (t : T)
  | resume (t : T)
  | release (t : T)
  | takeNext (t : T)
  | schedule (t : T)
  | irqRelease

namespace MutexState

variable {T : Type*} [DecidableEq T] [Fintype T]

def init : MutexState T := ⟨Threads.empty, false, fun _ => .idle, fun _ => false⟩

def goto (s : MutexState T) (t : T) (p : MutexPc T) : MutexState T :=
  { s with pc := Function.update s.pc t p }

/-- The `toSchedule` of an unblock operation is remembered as taken. -/
def mark (s : MutexState T) : Option T → T → Bool
  | none => s.taken
  | some u => Function.update s.taken u true

def step (s : MutexState T) : MutexAct T → Option (MutexState T)
  | .lock t => if s.pc t = .idle then some (s.goto t .trying) else none
  | .xchg t =>
    if s.pc t = .trying then
      some { s.goto t (if s.locked then .failed else .idle) with
        locked := true
        taken := Function.update s.taken t false }
    else none
  | .tryLock t => if s.pc t = .idle then some { s with locked := true } else none
  | .enqueue t =>
    if s.pc t = .failed then
      (s.threads.addBlockedThread () t).map fun th => { s.goto t .parking with threads := th }
    else none
  | .exit t => if s.pc t = .parking then some (s.goto t .parked) else none
  | .resume t => if s.pc t = .parked then some (s.goto t .trying) else none
  | .release t =>
    if s.pc t = .idle then some { s.goto t .releasing with locked := false } else none
  | .takeNext t =>
    if s.pc t = .releasing then
      (s.threads.takeNext ()).map fun r =>
        { s.goto t (match r.2 with | none => .idle | some u => .scheduling u) with
          threads := r.1
          taken := s.mark r.2 }
    else none
  | .schedule t =>
    match s.pc t with
    | .scheduling u => some { s.goto t .idle with threads := s.threads.schedule u }
    | _ => none
  | .irqRelease =>
    (s.threads.takeNext ()).map fun r =>
      { s with threads := Threads.scheduleTaken r, locked := false, taken := s.mark r.2 }

/-- When the mutex is free and nobody is in the middle of `lock` or `release`, then no thread is on the
waiting list, or one that was taken off it has been scheduled and is still to do its `xchg`. -/
def Wakes (s : MutexState T) : Prop :=
  s.locked = false → (∀ t, s.pc t ≠ .failed ∧ s.pc t ≠ .releasing ∧ ∀ u, s.pc t ≠ .scheduling u) →
    s.threads.waitingOn () = [] ∨ ∃ t, s.taken t = true ∧ t ∈ s.threads.queue ∧
      t ∉ s.threads.waitingOn () ∧ (s.pc t = .parking ∨ s.pc t = .parked ∨ s.pc t = .trying)

instance (s : MutexState T) : Decidable s.Wakes := inferInstanceAs (Decidable (_ → _ → _))

/-- A thread puts itself on the waiting list only while the mutex is locked, a `release` is still to look at
the list, or a thread taken off it is still to do its `xchg`; and a parked thread is entered only when it
was unblocked. -/
def EnqueuesInTime (s : MutexState T) : MutexAct T → Prop
  | .enqueue _ => s.locked = true ∨ (∃ u, s.pc u = .releasing) ∨ ∃ u, s.taken u = true
  | .resume t => s.threads.blocking t = false
  | _ => True

instance (s : MutexState T) : (a : MutexAct T) → Decidable (s.EnqueuesInTime a)
  | .enqueue _ => inferInstanceAs (Decidable (_ ∨ _ ∨ _))
  | .resume _ => inferInstanceAs (Decidable (_ = _))
  | .lock _ | .xchg _ | .tryLock _ | .exit _ | .release _ | .takeNext _ | .schedule _ | .irqRelease =>
    inferInstanceAs (Decidable True)

end MutexState

end OlliOS
