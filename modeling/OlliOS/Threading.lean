import Mathlib.Data.Fintype.Card
import OlliOS.Lib.Links

/-!
# Threads, the run queue and waiting lists

`T` stands for the `Thread*` values and `L` for the `WaitingList*` values in use. The operations of
`waiting_list.cpp` walk the `nextWaiting` links as the source does, with as many steps as there are threads,
which is enough unless the links form a cycle; there the source loops forever.
-/

namespace OlliOS

open Function

structure Threads (T L : Type*) where
  queue : List T
  blocking : T → Bool
  finished : T → Bool
  nextWaiting : T → Option T
  waiting : L → Option T

namespace Threads

variable {T L : Type*} [DecidableEq T] [DecidableEq L]

def empty : Threads T L where
  queue := []
  blocking := fun _ => false
  finished := fun _ => false
  nextWaiting := fun _ => none
  waiting := fun _ => none

def schedule (s : Threads T L) (t : T) : Threads T L := { s with queue := s.queue ++ [t] }

def setBlocking (s : Threads T L) (t : T) (b : Bool) : Threads T L :=
  { s with blocking := update s.blocking t b }

def kill (s : Threads T L) (t : T) : Threads T L :=
  { s with finished := update s.finished t true }

variable [Fintype T] {l : L} {t : T} {s : Threads T L}

/-- `WaitingList::add_blocked_thread`: link the thread behind the last one, then mark it. -/
def addBlockedThread (s : Threads T L) (l : L) (t : T) : Option (Threads T L) :=
  match s.waiting l with
  | none => some ({ s with waiting := update s.waiting l (some t) }.setBlocking t true)
  | some first =>
    (Links.last s.nextWaiting (Fintype.card T) first).map fun last =>
      { s with nextWaiting := update s.nextWaiting last (some t) }.setBlocking t true

theorem addBlockedThread_of_none (h : s.waiting l = none) : s.addBlockedThread l t
      = some ({ s with waiting := update s.waiting l (some t) }.setBlocking t true) := by
  rw [addBlockedThread, h]

theorem addBlockedThread_of_last {first last : T} (h : s.waiting l = some first)
    (hl : Links.last s.nextWaiting (Fintype.card T) first = some last) :
    s.addBlockedThread l t = some
      ({ s with nextWaiting := update s.nextWaiting last (some t) }.setBlocking t true) := by
  rw [addBlockedThread, h]
  simp only [hl, Option.map_some]

/-- The loop of `unblock_next_thread` that skips threads whose blocking flag is already clear; it
clears the flag of the thread it stops at. -/
def skipUnblocked : ℕ → Threads T L → L → Option (Threads T L)
  | 0, _, _ => none
  | fuel + 1, s, l =>
    match s.waiting l with
    | none => some s
    | some t =>
      if s.blocking t then some (s.setBlocking t false)
      else skipUnblocked fuel { s with waiting := update s.waiting l (s.nextWaiting t) } l

def unlinkFirst (s : Threads T L) (l : L) : Threads T L × Option T :=
  match s.waiting l with
  | none => (s, none)
  | some t =>
    ({ s with
        waiting := update s.waiting l (s.nextWaiting t)
        nextWaiting := update s.nextWaiting t none }, some t)

omit [Fintype T] in
theorem unlinkFirst_of_some (h : s.waiting l = some t) : s.unlinkFirst l = ({ s with
      waiting := update s.waiting l (s.nextWaiting t)
      nextWaiting := update s.nextWaiting t none }, some t) := by
  rw [unlinkFirst, h]

/-- The critical section of `unblock_next_thread`, with its `toSchedule`. -/
def takeNext (s : Threads T L) (l : L) : Option (Threads T L × Option T) :=
  (skipUnblocked (Fintype.card T + 1) s l).map fun s' => s'.unlinkFirst l

/-- The critical section of one pass of `unblock_all_threads`, with its `toSchedule`. -/
def takeFirst (s : Threads T L) (l : L) : Threads T L × Option T :=
  match s.waiting l with
  | none => (s, none)
  | some t => (s.setBlocking t false).unlinkFirst l

def scheduleTaken (r : Threads T L × Option T) : Threads T L :=
  match r.2 with
  | none => r.1
  | some t => r.1.schedule t

def unblockNextThread (s : Threads T L) (l : L) : Option (Threads T L) := (s.takeNext l).map scheduleTaken

def unblockAllLoop : ℕ → Threads T L → L → Option (Threads T L)
  | 0, _, _ => none
  | fuel + 1, s, l =>
    match (s.takeFirst l).2 with
    | none => some s
    | some _ => unblockAllLoop fuel (scheduleTaken (s.takeFirst l)) l

def unblockAllThreads (s : Threads T L) (l : L) : Option (Threads T L) :=
  unblockAllLoop (Fintype.card T + 1) s l

def waitingOn (s : Threads T L) (l : L) : List T := Links.walk s.nextWaiting (Fintype.card T) (s.waiting l)

end Threads

end OlliOS
