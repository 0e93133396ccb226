import Mathlib.Algebra.Group.Nat.Defs
import OlliOS.Lib.Stepping
import OlliOS.Threading

/-!
# A semaphore

Threads of one core that call `Semaphore::lock`, `try_lock` and `release`, in any interleaving; what is between
`CLI` and `STI` is one step. A thread that has left the core may be entered again at any time, also when its
blocking flag is set. The state also counts the calls and keeps the threads that `release` has unblocked and
that have not tried again.
-/

namespace OlliOS

open Function

inductive SemaphorePc
  | idle
  /-- In `lock`, before the critical section. -/
  | trying
  /-- On the waiting list; `threading::exit` is next. -/
  | parking
  /-- The thread has left the core; when it is entered again it tries again. -/
  | parked
  deriving DecidableEq

structure SemaphoreState (T : Type*) where
  threads : Threads T Unit
  count : UInt32
  pc : T → SemaphorePc
  woken : T → Bool
  releases : ℕ
  acquired : ℕ

inductive SemaphoreAct (T : Type*)
  | lock (t : T)
  | acquire (t : T)
  | exit (t : T)
  | resume (t : T)
  | tryLock
  | release

namespace SemaphoreState

variable {T : Type*} [DecidableEq T] [Fintype T]

def init (n : UInt32) : SemaphoreState T := ⟨Threads.empty, n, fun _ => .idle, fun _ => false, 0, 0⟩

def decrement (s : SemaphoreState T) : SemaphoreState T :=
  { s with count := s.count - 1, acquired := s.acquired + 1 }

def acquire (s : SemaphoreState T) (t : T) : Option (SemaphoreState T) :=
  if s.count > 0 then
    some { s.decrement with
      pc := update s.pc t .idle
      woken := update s.woken t false }
  else
    (s.threads.addBlockedThread () t).map fun th =>
      { s with
        threads := th
        pc := update s.pc t .parking
        woken := update s.woken t false }

def release (s : SemaphoreState T) : Option (SemaphoreState T) :=
  (s.threads.takeNext ()).map fun r =>
    { s with
      threads := Threads.scheduleTaken r
      count := s.count + 1
      woken := match r.2 with | none => s.woken | some u => update s.woken u true
      releases := s.releases + 1 }

def step (s : SemaphoreState T) : SemaphoreAct T → Option (SemaphoreState T)
  | .lock t =>
    if s.pc t = .idle then some { s with pc := update s.pc t .trying } else none
  | .acquire t => if s.pc t = .trying then s.acquire t else none
  | .exit t =>
    if s.pc t = .parking then some { s with pc := update s.pc t .parked } else none
  | .resume t =>
    if s.pc t = .parked then some { s with pc := update s.pc t .trying } else none
  | .tryLock => some (if s.count > 0 then s.decrement else s)
  | .release => s.release

def wokenCount (s : SemaphoreState T) : ℕ := (Finset.univ.filter fun t => s.woken t = true).card

end SemaphoreState

end OlliOS
