import Mathlib.Algebra.BigOperators.Group.Finset.Piecewise
import OlliOS.RunQueue
import OlliOS.Proofs.Threading

/-!
# The run queue holds no thread twice

Every thread is in one place (`RunInv`), and every step keeps that as long as no unblock operation hits the
thread that `Scheduler::enter` holds.
-/

namespace OlliOS

open Function Stepping List Option RunState OlliOS.Core Threads

inductive Spot (T : Type*)
  | nowhere
  | hand (u : T)
  | timer

variable {T L : Type*} {th : Threads T L} {s' : RunState T L}
  {a : Act T L}

/-- What holds of a thread `t` that is at `p`. -/
structure ThreadOk (s : RunState T L) (t : T) (p : Place L (Spot T)) : Prop where
  hand_iff : ∀ u, s.hand u = some t ↔ p = .other (.hand u)
  timer_iff : t ∈ s.callbacks ↔ p = .other .timer
  hand_awake : ∀ u, p = .other (.hand u) → s.threads.blocking t = false
  timer_blocking : p = .other .timer → s.threads.blocking t = true
  held_out : s.core.held = some t → p ≠ .queue ∧ ∀ u, p ≠ .other (.hand u)
  popped_awake : s.core = .popped t ∨ s.core = .resched t → s.threads.blocking t = false
  run_awake : s.core = .inThread t → s.pc t = .run → s.threads.blocking t = false
  sleeping_out : s.pc t = .sleeping → p = .other .nowhere ∧ s.threads.blocking t = true
  unborn : s.born t = false → p = .other .nowhere ∧ s.threads.blocking t = false ∧ s.core.held ≠ some t

structure RunInv (s : RunState T L) (loc : T → Place L (Spot T)) : Prop where
  placed : Placed s.threads loc
  timer_nodup : s.callbacks.Nodup
  thread : ∀ t, ThreadOk s t (loc t)

namespace RunInv

variable {s : RunState T L} {loc : T → Place L (Spot T)} {t : T}

lemma init [DecidableEq T] [DecidableEq L] : RunInv (init : RunState T L) (fun _ => .other .nowhere) where
  placed := Placed.empty _
  timer_nodup := nodup_nil
  thread t := by constructor <;> simp [RunState.init, Core.held, empty]

section

variable (h : RunInv s loc)

include h

lemma nowhere (ht : s.core.held = some t) (hb : s.threads.blocking t = false) : loc t = .other .nowhere := by
  obtain ⟨hq, hh⟩ := (h.thread t).held_out ht
  rcases hl : loc t with _ | l | _ | u | _
  · exact absurd hl hq
  · simp [h.placed.list_blocking t l hl] at hb
  · rfl
  · exact absurd hl (hh u)
  · simp [(h.thread t).timer_blocking hl] at hb

lemma born_of_held (ht : s.core.held = some t) : s.born t = true := by
  by_contra hb
  exact ((h.thread t).unborn (by simpa using hb)).2.2 ht

lemma withCore (c : Core T) {b : Bool} (hheld : ∀ t, c.held = some t → s.core.held = some t)
    (hpop : ∀ t, c = .popped t ∨ c = .resched t → s.threads.blocking t = false)
    (hrun : ∀ t, c = .inThread t → s.pc t = .run → s.threads.blocking t = false) :
    RunInv { s with core := c, lock := b } loc := by
  refine ⟨h.placed, h.timer_nodup, fun t => { h.thread t with
    held_out := fun ht => (h.thread t).held_out (hheld t ht)
    popped_awake := hpop t
    run_awake := hrun t
    unborn := fun ht => ?_ }⟩
  obtain ⟨hloc, hb, hc⟩ := (h.thread t).unborn ht
  exact ⟨hloc, hb, fun ht => hc (hheld t ht)⟩

lemma leave (hc : s.core = .inThread t) : RunInv (s.leave t) loc := by
  refine h.withCore _ ?_ (by simp) (by simp)
  cases s.threads.finished t <;> simp [Core.held, hc]

variable [DecidableEq T]

lemma wake {ts : List T} (hp : Placed th (woken loc ts))
    (hb : ∀ u, th.blocking u = if u ∈ ts then false else s.threads.blocking u)
    (hts : ∀ u ∈ ts, (∃ l, loc u = .list l) ∧ s.core.held ≠ some u) :
    RunInv { s with threads := th } (woken loc ts) := by
  refine ⟨hp, h.timer_nodup, fun u => ?_⟩
  have := h.thread u
  constructor <;> simp only [woken] <;> grind [ThreadOk]

lemma blockSelf (hc : s.core = .inThread t) (hpc : s.pc t = .run)
    {p : Place L (Spot T)} {q : Pc} (hp : Placed th (update loc t p))
    (hb : th.blocking = update s.threads.blocking t true)
    (hpq : (∃ l, p = .list l) ∧ q = .parking ∨ p = .other .nowhere ∧ q = .sleeping) :
    RunInv { s with threads := th, pc := update s.pc t q } (update loc t p) := by
  have hheld : s.core.held = some t := by rw [hc]; rfl
  have hloc := h.nowhere hheld ((h.thread t).run_awake hc hpc)
  have hborn := h.born_of_held hheld
  refine ⟨hp, h.timer_nodup, fun u => ?_⟩
  have := h.thread u
  constructor <;> simp only [hb] <;> grind [ThreadOk]

variable [DecidableEq L]

lemma killed (t : T) : RunInv { s with threads := s.threads.kill t } loc :=
  ⟨h.placed.kill t, h.timer_nodup, fun u => { h.thread u with }⟩

lemma start (ht : s.born t = false) : RunInv (s.start t) (update loc t .queue) := by
  obtain ⟨hloc, hb, hheld⟩ := (h.thread t).unborn ht
  refine ⟨h.placed.schedule hloc hb, h.timer_nodup, fun u => ?_⟩
  have := h.thread u
  constructor <;> simp only [RunState.start, schedule] <;> grind [ThreadOk]

end

section Waiting

variable [DecidableEq T] [DecidableEq L] [Fintype T]

variable (h : RunInv s loc)

include h

lemma irqUnblockNext {l : L} (hok : s.SparesHeld (.irqUnblockNext l))
    (hs : s.irq (s.threads.unblockNextThread l) = some s') : ∃ loc', RunInv s' loc' := by
  obtain ⟨th, hth, hp, -, -, hb⟩ := h.placed.unblockNextThread l .nowhere
  rw [hth, irq, bind_some] at hs
  split_ifs at hs
  cases hs
  refine ⟨_, h.wake hp hb fun u hu => ⟨⟨l, ?_⟩, hok u hu⟩⟩
  rw [← (h.placed.waitingOn l).2.2]
  exact mem_of_mem_head? (by simpa using hu)

lemma unblockAll (l : L) (hok : ∀ u, loc u = .list l → s.core.held ≠ some u) :
    ∃ th, s.threads.unblockAllThreads l = some th ∧
      RunInv { s with threads := th } (woken loc (s.threads.waitingOn l)) := by
  obtain ⟨th, hth, hp, -, -, -, hb⟩ := h.placed.unblockAllThreads l .nowhere
  refine ⟨th, hth, h.wake hp hb fun u hu => ?_⟩
  have hl := ((h.placed.waitingOn l).2.2 u).1 hu
  exact ⟨⟨l, hl⟩, hok u hl⟩

lemma irqUnblockAll {l : L} (hok : s.SparesHeld (.irqUnblockAll l))
    (hs : s.irq (s.threads.unblockAllThreads l) = some s') : ∃ loc', RunInv s' loc' := by
  obtain ⟨th, hth, hI⟩ := h.unblockAll l fun u hu => hok u (((h.placed.waitingOn l).2.2 u).2 hu)
  rw [hth, irq, bind_some] at hs
  split_ifs at hs
  cases hs
  exact ⟨_, hI⟩

omit h in
lemma unblockLists : ∀ (ls : List L) {s : RunState T L} {loc : T → Place L (Spot T)},
    RunInv s loc → (∀ u, ∀ l ∈ ls, loc u = .list l → s.core.held ≠ some u) →
    ∃ th loc', unblockLists s.threads ls = some th ∧ RunInv { s with threads := th } loc'
  | [], s, loc, h, _ => ⟨s.threads, loc, rfl, h⟩
  | l :: ls, s, loc, h, hok => by
    obtain ⟨th, hth, hI⟩ := h.unblockAll l fun u => hok u l (by simp)
    obtain ⟨th', loc', hth', hI'⟩ := unblockLists ls hI fun u l' hl' hu => by
      refine hok u l' (by simp [hl']) ?_
      simp only [woken] at hu
      split_ifs at hu
      exact hu
    refine ⟨th', loc', ?_, hI'⟩
    simp only [RunState.unblockLists, foldlM_cons, hth]
    exact hth'

lemma take (hc : s.core = .inThread t) {l : L} (hhand : s.hand t = none)
    (hok : ∀ u ∈ (s.threads.waitingOn l).head?.toList, s.core.held ≠ some u) :
    ∃ loc', RunInv { s with
      threads := (s.threads.takeFirst l).1
      hand := update s.hand t (s.threads.takeFirst l).2 } loc' := by
  rcases hw : s.threads.waitingOn l with _ | ⟨u, us⟩
  · refine ⟨loc, ?_⟩
    rw [h.placed.lists.takeFirst_nil hw]
    have : update s.hand t none = s.hand := by rw [← hhand, update_eq_self]
    simp only [this]
    exact h
  · obtain ⟨th, hth, hp, -, -, -, hb⟩ := h.placed.takeFirst_cons hw (.hand t)
    obtain ⟨hul, -⟩ := h.placed.blocking_of_waitingOn hw
    have hut : s.core.held ≠ some u := hok u (by simp [hw])
    rw [hth]
    refine ⟨_, hp, h.timer_nodup, fun v => ?_⟩
    have := h.thread v
    constructor <;> simp only [hb, update_apply] <;> grind [ThreadOk]

omit h in
lemma schedulerStep (h : RunInv s loc) (hok : s.SparesHeld a) (hs : s.schedulerStep a = some s') :
    ∃ loc', RunInv s' loc' := by
  cases a with simp only [schedulerStep] at hs
  | lock =>
    split_ifs at hs
    cases hs
    exact ⟨loc, h.withCore .locked (by simp [held]) (by simp) (by simp)⟩
  | dequeue =>
    split_ifs at hs with hc
    split at hs <;> cases hs
    · exact ⟨loc, h.withCore .idle (by simp [held]) (by simp) (by simp)⟩
    rename_i t ts hq
    have ht : loc t = .queue := by rw [← h.placed.mem_queue, hq]; simp
    have hb := h.placed.queue_awake t ht
    refine ⟨_, h.placed.pop hq .nowhere, h.timer_nodup, fun u => ?_⟩
    have := h.thread u
    constructor <;> simp only [held, update_apply] <;> grind [ThreadOk]
  | enter e =>
    split at hs
    · rename_i t hc
      have hb : s.threads.blocking t = false := (h.thread t).popped_awake (.inl hc)
      have hheld : s.core.held = some t := by rw [hc]; rfl
      -- the same thread is held whatever `Thread::enter` does first
      have hin : ∀ {s1 : RunState T L} {loc1 : T → Place L (Spot T)}, RunInv s1 loc1 →
          s1.core = s.core → s1.threads.blocking t = false →
          RunInv { s1 with core := .inThread t } loc1 := fun h₁ h2 h3 =>
        h₁.withCore _ (fun u hu => by rw [h2, hheld]; exact hu) (by simp)
          (by simp only [inThread.injEq]; rintro _ rfl _; exact h3)
      have hret : ∀ {s1 : RunState T L} {loc1 : T → Place L (Spot T)}, RunInv s1 loc1 →
          RunInv { s1 with core := .returned t true } loc1 := fun h₁ =>
        h₁.withCore _ (by simp [held]) (by simp) (by simp)
      split_ifs at hs
      · cases hs
        exact ⟨loc, hret h⟩
      split at hs
      · cases hs
        exact ⟨loc, hin h rfl hb⟩
      · rename_i child
        split_ifs at hs with hborn
        cases hs
        exact ⟨_, hin (h.start (by simpa using hborn)) rfl hb⟩
      · rename_i fresh
        split_ifs at hs with hborn
        cases hs
        exact ⟨_, hret (h.start (by simpa using hborn))⟩
      · cases hs
        exact ⟨loc, hret h⟩
    · simp at hs
  | test =>
    split at hs
    · rename_i t hc
      split_ifs at hs with hb <;> cases hs
      · exact ⟨loc, h.withCore .idle (by simp [held]) (by simp) (by simp)⟩
      refine ⟨loc, h.withCore (.resched t) (by simp [held, hc]) ?_ (by simp)⟩
      rintro u (hu | hu)
      · simp at hu
      · simp only [resched.injEq] at hu
        subst hu
        simpa using hb
    · simp at hs
  | push =>
    split at hs
    · rename_i t hc
      split_ifs at hs
      cases hs
      have hb := (h.thread t).popped_awake (.inr hc)
      have hheld : s.core.held = some t := by rw [hc]; rfl
      have hloc := h.nowhere hheld hb
      have hborn := h.born_of_held hheld
      refine ⟨_, h.placed.schedule hloc hb, h.timer_nodup, fun u => ?_⟩
      have := h.thread u
      constructor <;> simp only [held, schedule, update_apply] <;> grind [ThreadOk]
    · simp at hs
  | settle ls =>
    split at hs
    · rename_i t hc
      split_ifs at hs
      obtain ⟨th, loc', hth, hI⟩ := h.unblockLists ls fun u l hl hu =>
        hok u (mem_flatMap.2 ⟨l, hl, ((h.placed.waitingOn l).2.2 u).2 hu⟩)
      rw [hth, map_some, some.injEq] at hs
      subst hs
      exact ⟨loc', hI.withCore .idle (by simp [held]) (by simp) (by simp)⟩
    · simp at hs
  | _ => simp at hs

omit h in
lemma threadStep (h : RunInv s loc) (hc : s.core = .inThread t) (hok : s.SparesHeld a)
    (hs : s.threadStep t a = some s') :
    ∃ loc', RunInv s' loc' := by
  have hheld : s.core.held = some t := by rw [hc]; rfl
  cases a with simp only [threadStep] at hs
  | setIflag b =>
    cases hs
    exact ⟨loc, h.placed, h.timer_nodup, fun u => { h.thread u with }⟩
  | addBlockedThread l =>
    split_ifs at hs with hg
    have hloc := h.nowhere hheld ((h.thread t).run_awake hc hg.1)
    obtain ⟨th, hth, hp, -, -, -, hb⟩ := h.placed.addBlockedThread hloc l
    rw [hth, map_some, some.injEq] at hs
    subst hs
    exact ⟨_, h.blockSelf hc hg.1 hp hb (.inl ⟨⟨l, rfl⟩, rfl⟩)⟩
  | usleep =>
    split_ifs at hs with hg
    cases hs
    have hloc := h.nowhere hheld ((h.thread t).run_awake hc hg.1)
    have hp := (h.placed.setBlocking hloc true).move (y := .nowhere) hloc
    exact ⟨_, h.blockSelf hc hg.1 hp rfl (.inr ⟨rfl, rfl⟩)⟩
  | armTimer =>
    split_ifs at hs with hg
    cases hs
    obtain ⟨hloc, hb⟩ := (h.thread t).sleeping_out hg
    have hcb : t ∉ s.callbacks := by rw [(h.thread t).timer_iff, hloc]; simp
    refine ⟨_, h.placed.move (y := .timer) hloc, h.timer_nodup.append (nodup_singleton t) (by simpa using hcb),
      fun u => ?_⟩
    have := h.thread u
    constructor <;> simp only [mem_append, mem_singleton, update_apply] <;> grind [ThreadOk]
  | takeNext l =>
    split_ifs at hs with hg
    rw [h.placed.lists.takeNext_eq, map_some, some.injEq] at hs
    subst hs
    exact h.take hc hg.2 hok
  | takeFirst l =>
    split_ifs at hs with hg
    cases hs
    exact h.take hc hg.2 hok
  | schedule =>
    split at hs
    · rename_i u hu
      split_ifs at hs <;> cases hs
      · exact ⟨loc, h.leave hc⟩
      have hloc := ((h.thread u).hand_iff t).1 hu
      have hb := (h.thread u).hand_awake t hloc
      refine ⟨_, h.placed.schedule hloc hb, h.timer_nodup, fun v => ?_⟩
      have := h.thread v
      constructor <;> simp only [schedule, update_apply] <;> grind [ThreadOk]
    · simp at hs
  | spawn u =>
    split_ifs at hs with hg
    cases hs
    exact ⟨_, h.start hg.1⟩
  | kill =>
    cases hs
    exact ⟨loc, h.killed t⟩
  | exit =>
    split_ifs at hs with hg
    cases hs
    refine ⟨loc, h.placed, h.timer_nodup, fun u => { (h.leave hc).thread u with
      run_awake := by simp [RunState.leave]
      sleeping_out := fun hu => ?_ }⟩
    simp only [update_apply] at hu
    split_ifs at hu
    exact (h.thread u).sleeping_out hu
  | finish =>
    split_ifs at hs with hg
    cases hs
    exact ⟨loc, (h.killed t).withCore (.returned t true) (by simp [held, hc]) (by simp) (by simp)⟩
  | preempt =>
    split_ifs at hs
    cases hs
    exact ⟨loc, h.leave hc⟩
  | _ => simp at hs

lemma irqTimer (hok : s.SparesHeld (.irqTimer t)) (hs : s.step (.irqTimer t) = some s') : ∃ loc', RunInv s' loc' := by
  simp only [step] at hs
  split_ifs at hs with ht
  rw [irq, bind_some] at hs
  split_ifs at hs
  · simp only [map_some, some.injEq] at hs
    subst hs
    have hloc := (h.thread t).timer_iff.1 ht
    have hheld : s.core.held ≠ some t := hok t (by simp [unblocks])
    have hp := (h.placed.setBlocking hloc false).schedule hloc (by simp [setBlocking])
    refine ⟨_, hp, h.timer_nodup.erase t, fun u => ?_⟩
    have := h.thread u
    constructor <;> simp only [schedule, setBlocking, update_apply, h.timer_nodup.mem_erase_iff] <;>
      grind [ThreadOk, held]
  · simp at hs

omit h in
lemma step (h : RunInv s loc) (hok : s.SparesHeld a) (hs : s.step a = some s') : ∃ loc', RunInv s' loc' := by
  have hrest : (∀ t, s.core = .inThread t → s.step a = s.threadStep t a) →
      ((∀ t, s.core ≠ .inThread t) → s.step a = s.schedulerStep a) → ∃ loc', RunInv s' loc' := by
    intro hthread hscheduler
    by_cases hc : ∃ t, s.core = .inThread t
    · obtain ⟨t, hc⟩ := hc
      exact h.threadStep hc hok ((hthread t hc).symm.trans hs)
    · exact h.schedulerStep hok ((hscheduler fun t ht => hc ⟨t, ht⟩).symm.trans hs)
  cases a with
  | irqUnblockNext l => exact h.irqUnblockNext hok hs
  | irqUnblockAll l => exact h.irqUnblockAll hok hs
  | irqTimer t => exact h.irqTimer hok hs
  | spawn u =>
    simp only [step] at hs
    split at hs
    · rename_i t hc
      exact h.threadStep hc hok hs
    · split_ifs at hs with hg
      cases hs
      exact ⟨_, h.start hg.1⟩
    · simp at hs
  | _ =>
    refine hrest (fun t hc => ?_) fun hn => ?_
    · simp only [step, hc]
    · simp only [step]

lemma occurrences_le [Fintype L] (t : T) : s.occurrences t ≤ 1 := by
  classical
  have hq : s.threads.queue.count t = if loc t = .queue then 1 else 0 := by
    rw [h.placed.queue_nodup.count]
    simp only [h.placed.mem_queue]
  have hl : ∀ l, (s.threads.waitingOn l).count t = if loc t = .list l then 1 else 0 := by
    intro l
    rw [(h.placed.waitingOn l).2.1.count]
    simp only [(h.placed.waitingOn l).2.2]
  have hr : s.running.count t ≤ if s.core = .inThread t ∧ s.threads.blocking t = false then 1
      else 0 := by
    unfold running
    split
    · rename_i u hc
      by_cases hu : u = t
      · subst hu
        cases hb : s.threads.blocking u <;> simp [hc]
      · split_ifs <;> simp [hu]
    · simp
  unfold occurrences
  rw [hq, Finset.sum_congr rfl fun l _ => hl l]
  by_cases hrun : s.core = .inThread t ∧ s.threads.blocking t = false
  · have hn := h.nowhere (by rw [hrun.1]; rfl) hrun.2
    simp only [hn, reduceCtorEq, if_false, Finset.sum_const_zero]
    rw [if_pos hrun] at hr
    omega
  · rw [if_neg hrun] at hr
    rcases hloc : loc t with _ | l | x
    · simp only [if_true, reduceCtorEq, if_false, Finset.sum_const_zero]
      omega
    · simp only [Place.list.injEq, reduceCtorEq, if_false, Finset.sum_ite_eq, Finset.mem_univ, if_true]
      omega
    · simp only [reduceCtorEq, if_false, Finset.sum_const_zero]
      omega

end Waiting

end RunInv

section Main

variable [DecidableEq T] [DecidableEq L] [Fintype T] [Fintype L]

/-- Each thread occurs at most once among the run queue, the running threads and the waiting lists, in every
run in which no unblock operation hits the thread `Scheduler::enter` still holds. -/
theorem runQueue_unique {s : RunState T L} (h : Reaches step RunState.SparesHeld init s) :
    (∀ t, s.occurrences t ≤ 1) ∧ ∀ t, s.core = .resched t → t ∉ s.threads.queue := by
  obtain ⟨loc, hI⟩ : ∃ loc, RunInv s loc :=
    h.invariant (I := fun s => ∃ loc, RunInv s loc) ⟨_, RunInv.init⟩
      fun _ _ _ ⟨_, hI⟩ hok hs => hI.step hok hs
  refine ⟨hI.occurrences_le, fun t ht => ?_⟩
  rw [hI.placed.mem_queue]
  exact ((hI.thread t).held_out (by rw [ht]; rfl)).1

end Main

/-- A thread blocks on a list, is woken and runs again: the queue never holds it twice. -/
theorem runQueue_unique_woken : ∃ s : RunState (Fin 2) (Fin 1), s.threads.queue = [1, 0] ∧
      (∀ t, s.occurrences t ≤ 1) ∧ ∀ t, s.core = .resched t → t ∉ s.threads.queue := by
  obtain ⟨s, hs, hq⟩ : ∃ s : RunState (Fin 2) (Fin 1),
      Reaches step RunState.SparesHeld init s ∧ s.threads.queue = [1, 0] :=
    exists_of_run [.spawn 0, .spawn 1, .lock, .dequeue, .enter .plain, .addBlockedThread 0, .exit,
      .test, .irqUnblockNext 0] (by decide)
  exact ⟨s, hq, runQueue_unique hs⟩

/-- A handler releases a mutex between the `add_blocked_thread` of a thread and its `threading::exit`, and
the thread is pushed twice. -/
theorem runQueue_twice : ∃ s : RunState (Fin 1) (Fin 1), Reaches step Any init s ∧
      s.threads.queue = [0, 0] ∧ s.occurrences 0 = 2 :=
  exists_of_run [.spawn 0, .lock, .dequeue, .enter .plain, .addBlockedThread 0,
    .irqUnblockNext 0, .exit, .test, .push] (by decide)

end OlliOS
