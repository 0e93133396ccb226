import OlliOS.Lib.Stepping
import OlliOS.Threading

/-!
# Calls of waiting lists

Any calls of `add_blocked_thread`, `unblock_next_thread` and `unblock_all_threads` on some waiting
lists, one after the other. A thread is added only while it is on no list. The state also has for each
list the threads that were added and not unblocked yet, in order.
-/

namespace OlliOS

structure WaitState (T L : Type*) where
  threads : Threads T L
  fifo : L → List T

inductive WaitCall (T L : Type*)
  | addBlockedThread (l : L) (t : T)
  | unblockNextThread (l : L)
  | unblockAllThreads (l : L)

namespace WaitState

variable {T L : Type*} [DecidableEq T] [DecidableEq L] [Fintype T] [Fintype L]

def init (queue : List T) (blocking finished : T → Bool) : WaitState T L :=
  ⟨⟨queue, blocking, finished, fun _ => none, fun _ => none⟩, fun _ => []⟩

def step (s : WaitState T L) : WaitCall T L → Option (WaitState T L)
  | .addBlockedThread l t =>
    if ∀ l', t ∉ s.fifo l' then
      (s.threads.addBlockedThread l t).map fun th => ⟨th, Function.update s.fifo l (s.fifo l ++ [t])⟩
    else none
  | .unblockNextThread l =>
    (s.threads.unblockNextThread l).map fun th => ⟨th, Function.update s.fifo l (s.fifo l).tail⟩
  | .unblockAllThreads l => (s.threads.unblockAllThreads l).map fun th => ⟨th, Function.update s.fifo l []⟩

end WaitState

end OlliOS
