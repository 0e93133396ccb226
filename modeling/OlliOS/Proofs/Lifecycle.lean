import OlliOS.Lifecycle
import OlliOS.Proofs.Process
import OlliOS.Proofs.Threading

/-!
# What the scheduler deletes

While only processes without children are deleted, a `delete` finds the thread finished and nowhere else
(`LifeInv`).
-/

namespace OlliOS

open Function Stepping Option LifeState Kernel

variable {P : Type*} [DecidableEq P] {a : LifeAct P} {s' : LifeState P}

/-- What holds of the process `p`, whose thread is at `l`. -/
structure ProcessOk (s : LifeState P) (p : P) (l : Place (ProcessList P) Unit) : Prop where
  thread_eq : (s.kernel.process p).thread = p
  unborn : s.born p = false → l = .other () ∧ s.kernel.threads.blocking p = false ∧
    s.kernel.threads.finished p = false ∧ (s.kernel.process p).state = .initing ∧
    s.core ≠ .inThread p ∧ s.core ≠ .returned p
  running : s.core = .inThread p → l ≠ .queue ∧ s.kernel.threads.finished p = false ∧
    ((∀ status, s.pc p ≠ .parking status) → l = .other () ∧ s.kernel.threads.blocking p = false)
  returned : s.core = .returned p → l = .other () ∧
    s.kernel.threads.finished p = true ∧ s.kernel.threads.blocking p = false
  stopped : (s.kernel.process p).state = .stopped → l = .other () ∧
    s.kernel.threads.finished p = true ∧ s.kernel.threads.blocking p = false ∧
    s.core ≠ .inThread p ∧ s.core ≠ .returned p
  pending : (s.kernel.process p).state = .pendingDestruction → s.kernel.threads.finished p = true

structure LifeInv (s : LifeState P) (loc : P → Place (ProcessList P) Unit) : Prop where
  placed : Placed s.kernel.threads loc
  process : ∀ p, ProcessOk s p (loc p)

namespace LifeInv

variable {s : LifeState P} {loc : P → Place (ProcessList P) Unit} {p : P} {b : Bool} {k : Kernel P P}

lemma init : LifeInv (init : LifeState P) (fun _ => .other ()) where
  placed := Placed.empty ()
  process p := by constructor <;> simp [LifeState.init, Threads.empty]

section

variable (h : LifeInv s loc)

include h

lemma create (hp : s.born p = false) (parent : Option P) {c : LifePc}
    : LifeInv (s.create p parent c b) (update loc p .queue) := by
  obtain ⟨hloc, hb, hf, -, -, -⟩ := (h.process p).unborn hp
  refine ⟨h.placed.schedule hloc hb, fun q => ?_⟩
  have := h.process q
  constructor <;>
    simp only [LifeState.create, Kernel.schedule, modify_process, modify_threads, Threads.schedule] <;>
    grind [ProcessOk]

lemma leave (hc : s.core = .inThread p) {pc : P → LifePc} :
    ∃ loc', LifeInv ({ s with pc := pc }.leave p) loc' := by
  obtain ⟨hq, hf, -⟩ := (h.process p).running hc
  unfold LifeState.leave
  rw [if_neg (by simp [hf])]
  split_ifs with hb
  · refine ⟨loc, h.placed, fun q => ?_⟩
    have := h.process q
    constructor <;> grind [ProcessOk]
  have hloc : loc p = .other () := by
    rcases hl : loc p with _ | l | _
    · exact absurd hl hq
    · exact absurd (h.placed.list_blocking p l hl) (by simpa using hb)
    · rfl
  refine ⟨_, h.placed.schedule hloc (by simpa using hb), fun q => ?_⟩
  have := h.process q
  constructor <;> simp only [schedule, Threads.schedule, update_apply] <;> grind [ProcessOk]

lemma finish (hc : s.core = .inThread p) (hpc : s.pc p = .run) :
    LifeInv ((s.kill p).leave p) loc := by
  unfold LifeState.leave
  rw [if_pos (by simp [kill, Threads.kill])]
  refine ⟨h.placed.kill p, fun q => ?_⟩
  have := h.process q
  constructor <;> simp only [kill, Threads.kill] <;> grind [ProcessOk]

lemma modify (_ : s.core = .inThread p) {f : Process P P → Process P P}
    (hf : ∀ q, (f q).thread = q.thread ∧ ((f q).state = q.state ∨ (f q).state = .forking ∨ (f q).state = .waiting)) :
    LifeInv { s with kernel := s.kernel.modify p f } loc := by
  refine ⟨h.placed, fun q => ?_⟩
  have := h.process q
  constructor <;> simp only [modify_process, modify_threads] <;> grind [ProcessOk]

lemma pop {ts : List P} (_ : s.core = .idle)
    (hq : s.kernel.threads.queue = p :: ts) {c : LifeCore P}
    (hcore : c = .inThread p ∧ s.kernel.threads.finished p = false ∨
      c = .returned p ∧ s.kernel.threads.finished p = true) :
    LifeInv { s with
      core := c
      kernel := { s.kernel with threads := { s.kernel.threads with queue := ts } } }
      (update loc p (.other ())) := by
  have hloc : loc p = .queue := by rw [← h.placed.mem_queue, hq]; simp
  have hb := h.placed.queue_awake p hloc
  refine ⟨h.placed.pop hq (), fun q => ?_⟩
  have := h.process q
  constructor <;> simp only [update_apply] <;> grind [ProcessOk]

lemma finishFork (hc : s.core = .inThread p)
    (hb : s.kernel.threads.blocking p = false) {child : P} (hchild : s.born child = false) :
    LifeInv (s.finishFork p child) (update loc child .queue) := by
  obtain ⟨-, hf, -⟩ := (h.process p).running hc
  obtain ⟨-, hcb, hcf, -⟩ := (h.process child).unborn hchild
  have hflags : ({ s.kernel.threads with
      finished := update s.kernel.threads.finished child (s.kernel.threads.finished p)
      blocking := update s.kernel.threads.blocking child (s.kernel.threads.blocking p) } :
      Threads P (ProcessList P)) = s.kernel.threads := by
    rw [hf.trans hcf.symm, hb.trans hcb.symm, update_eq_self, update_eq_self]
  have hI : LifeInv { s with kernel := s.kernel.assignState p .running } loc := by
    refine ⟨h.placed, fun q => ?_⟩
    have := h.process q
    constructor <;> simp only [assignState, modify_process, modify_threads] <;> grind [ProcessOk]
  have hI' := (hI.create hchild (some p) (c := s.pc p) (b := s.iflag p)).modify
    hc (f := fun q => { q with childs := q.childs ++ [child] }) (by simp)
  unfold LifeState.finishFork
  simp only [hflags]
  exact hI'

end

variable [Fintype P]

lemma wake (h : LifeInv s loc) {th : Threads P (ProcessList P)} {l : ProcessList P}
    (hc : s.core = .returned p) (hth : s.kernel.threads.unblockAllThreads l = some th) :
    LifeInv { s with kernel := { s.kernel with threads := th } } (woken loc (s.kernel.threads.waitingOn l)) := by
  obtain ⟨th', hth', hplaced, -, -, hf, hb⟩ := h.placed.unblockAllThreads l ()
  have hw := (h.placed.waitingOn l).2.2
  rw [hth', some.injEq] at hth
  subst hth
  refine ⟨hplaced, fun q => ?_⟩
  have := h.process q
  constructor <;> simp only [woken] <;> grind [ProcessOk]

lemma setState (h : LifeInv s loc) (hc : s.core = .returned p)
    (hk : s.kernel.setState true p .stopped = some (k, b)) :
    ∃ loc', LifeInv { s with core := .idle, kernel := k } loc' := by
  simp only [Kernel.setState, if_true, bind_eq_bind, bind_eq_some_iff] at hk
  obtain ⟨k1, hk1, k2, hk2, hk⟩ := hk
  simp only [some.injEq, Prod.mk.injEq] at hk
  obtain ⟨rfl, rfl⟩ := hk
  obtain ⟨-, hsame, hth1, hstate⟩ := publish_cases hk1
  obtain ⟨hproc, hcases⟩ := tellParent_cases hk2
  have hI1 := h.wake hc hth1
  obtain ⟨loc', hI2⟩ : ∃ loc', LifeInv { s with kernel := { s.kernel with threads := k2.threads } } loc' := by
    rcases hcases with ⟨-, hth⟩ | ⟨q, -, -, ⟨-, hth⟩ | ⟨-, hth⟩⟩
    · exact ⟨_, by rw [hth]; exact hI1⟩
    · exact ⟨_, hI1.wake hc hth⟩
    · exact ⟨_, by rw [hth]; exact hI1⟩
  have hst : ∀ q, ((k2.release p).process q).state = if q = p then .stopped else (s.kernel.process q).state := by
    intro q
    simp only [release, modify_process, hproc]
    split_ifs <;> simp_all
  have hthr : ∀ q, ((k2.release p).process q).thread = (s.kernel.process q).thread := by
    intro q
    simp only [release, modify_process, hproc]
    split_ifs <;> simp_all [hsame.thread]
  have hths : (k2.release p).threads = k2.threads := rfl
  refine ⟨loc', hI2.placed, fun q => ?_⟩
  have := hI2.process q
  constructor <;> simp only [hst, hthr, hths] <;> grind [ProcessOk]

lemma pass (h : LifeInv s loc) (hc : s.core = .inThread p) {status e : Bool}
    (hpc : s.pc p = .scanning status) {r : WaitEnd}
    (hk : s.kernel.waitPass (s.iflag p) p p status = some (k, e, r)) :
    ∃ loc', LifeInv { s with
      kernel := k
      iflag := update s.iflag p e
      pc := update s.pc p (if r = .exit then .parking status else .run) } loc' := by
  obtain ⟨-, hf, hrun⟩ := (h.process p).running hc
  obtain ⟨hloc, hb⟩ := hrun (by simp [hpc])
  obtain ⟨-, ⟨-, -, rfl, rfl⟩ | ⟨xs, c, ys, -, -, hst, -, rfl, hth, hproc⟩ |
    ⟨-, -, -, rfl, hth, hproc⟩⟩ := waitPass_cases hk
  · have hI := h.modify hc (f := fun q => { q with stateLock := true }) (by simp)
    refine ⟨loc, hI.placed, fun q => { hI.process q with running := fun hq => ?_ }⟩
    obtain rfl : p = q := by simpa [hc] using hq
    exact ⟨by simp [hloc], hf, fun _ => ⟨hloc, hb⟩⟩
  · obtain ⟨hcloc, hcf, hcb, hcc, -⟩ := (h.process c).stopped hst
    rw [(h.process c).thread_eq] at hth
    refine ⟨_, hth ▸ h.placed.schedule hcloc hcb, fun q => ?_⟩
    have := h.process q
    constructor <;> simp only [hproc, hth, Threads.schedule, update_apply] <;> grind [ProcessOk]
  · obtain ⟨th, hth', hplaced, -, -, hfin, hblock⟩ := h.placed.addBlockedThread hloc (.childStopped p)
    rw [hth', some.injEq] at hth
    subst hth
    refine ⟨_, hplaced, fun q => ?_⟩
    have := h.process q
    constructor <;> simp only [hproc, hfin, hblock, update_apply]
    case running =>
      intro hq
      obtain rfl : p = q := by simpa [hc] using hq
      exact ⟨by simp, hf, fun hno => False.elim (by simpa using hno status)⟩
    all_goals grind [ProcessOk]

lemma threadStep (h : LifeInv s loc) (hc : s.core = .inThread p) (hs : s.threadStep p a = some s') :
    ∃ loc', LifeInv s' loc' := by
  cases a with simp only [threadStep] at hs
  | fork =>
    split_ifs at hs with hpc
    cases hs
    exact (h.modify hc (by simp)).leave hc
  | exit status =>
    split_ifs at hs with hpc
    cases hs
    exact ⟨loc, (h.modify hc (by simp)).finish hc hpc⟩
  | finish =>
    split_ifs at hs with hpc
    cases hs
    exact ⟨loc, h.finish hc hpc⟩
  | wait status =>
    split_ifs at hs with hpc
    cases hs
    refine ⟨loc, h.placed, fun q => { h.process q with running := fun hq => ?_ }⟩
    obtain rfl : p = q := by simpa [hc] using hq
    obtain ⟨h1, h2, h3⟩ := (h.process p).running hc
    exact ⟨h1, h2, fun _ => h3 (by simp [hpc])⟩
  | pass =>
    split at hs
    · rename_i status hpc
      obtain ⟨⟨k, e, r⟩, hk, rfl⟩ := map_eq_some_iff.1 hs
      exact h.pass hc hpc hk
    · simp at hs
  | park =>
    split at hs
    · cases hs
      exact h.leave hc
    · simp at hs
  | setIflag b =>
    cases hs
    exact ⟨loc, h.placed, fun q => { h.process q with }⟩
  | preempt =>
    split_ifs at hs
    cases hs
    exact h.leave hc
  | _ => simp at hs

lemma destroy_nil {fuel : ℕ} (h : (s.kernel.process p).childs = []) :
    s.destroy (fuel + 1) p = { s with log := s.log ++ [.deleted p s.kernel] } := by
  simp [destroy, killChildren, h]

lemma settle (h : LifeInv s loc) (hc : s.core = .returned p)
    (hok : (s.kernel.process p).state = .pendingDestruction → (s.kernel.process p).childs = [])
    (hs : s.settle p = some s') : ∃ loc', LifeInv s' loc' := by
  unfold LifeState.settle at hs
  split_ifs at hs with hst
  · simp only [some.injEq, destroy_nil (hok hst)] at hs
    subst hs
    refine ⟨loc, h.placed, fun q => ?_⟩
    have := h.process q
    constructor <;> grind [ProcessOk]
  · obtain ⟨⟨k, b⟩, hk, rfl⟩ := map_eq_some_iff.1 hs
    exact h.setState hc hk

lemma step (h : LifeInv s loc) (hok : s.ChildlessDelete a) (hs : s.step a = some s') : ∃ loc', LifeInv s' loc' := by
  unfold LifeState.step at hs
  split_ifs at hs
  split at hs
  · rename_i p hc
    exact h.threadStep hc hs
  · rename_i p hc
    cases a with
    | settle => exact h.settle hc (hok p hc) hs
    | _ => simp at hs
  · rename_i hc
    cases a with
    | spawn p =>
      simp only at hs
      split_ifs at hs with hp
      cases hs
      exact ⟨_, h.create (by simpa using hp) none⟩
    | enter child =>
      simp only at hs
      split at hs
      · cases hs
        exact ⟨loc, h⟩
      rename_i t ts hq
      unfold enterThread at hs
      by_cases hf : s.kernel.threads.finished t = true
      · rw [if_pos hf, some.injEq] at hs
        subst hs
        exact ⟨_, h.pop hc hq (.inr ⟨rfl, hf⟩)⟩
      rw [if_neg hf] at hs
      have hI := h.pop hc hq (.inl ⟨rfl, by simpa using hf⟩)
      split at hs
      · split_ifs at hs with hchild
        cases hs
        have hloc : loc t = .queue := by rw [← h.placed.mem_queue, hq]; simp
        exact ⟨_, hI.finishFork rfl (h.placed.queue_awake t hloc) (by simpa using hchild)⟩
      · rename_i hst
        exact absurd ((h.process t).pending hst) hf
      · rw [some.injEq] at hs
        subst hs
        exact ⟨_, hI⟩
    | _ => simp at hs

end LifeInv

namespace LifeState

variable {s : LifeState P} {p : P}

omit [DecidableEq P] in
@[simp] lemma leave_log : (s.leave p).log = s.log := by
  unfold leave
  split_ifs <;> rfl

@[simp] lemma kill_log : (s.kill p).log = s.log := rfl

lemma killChildren_frame : ∀ (cs : List P) (s : LifeState P),
    (s.killChildren cs).log = s.log ∧ (s.killChildren cs).core = s.core ∧ (s.killChildren cs).crashed = s.crashed
  | [], _ => ⟨rfl, rfl, rfl⟩
  | c :: cs, s => killChildren_frame cs (s.kill (s.kernel.process c).thread)

lemma enterThread_log {t child : P} (hs : s.enterThread t child = some s') : s'.log = s.log := by
  unfold enterThread at hs
  by_cases hf : s.kernel.threads.finished t = true
  · rw [if_pos hf, some.injEq] at hs
    rw [← hs]
  rw [if_neg hf] at hs
  split at hs
  · split_ifs at hs
    rw [some.injEq] at hs
    simp [← hs, finishFork, create]
  · rw [some.injEq] at hs
    rw [← hs]
  · rw [some.injEq] at hs
    rw [← hs]

variable [Fintype P] {e : LifeEvent P}

lemma mem_log_foldl_destroyChild {destroy : LifeState P → P → LifeState P}
    (hd : ∀ s p, e ∈ s.log → e ∈ (destroy s p).log) :
    ∀ (cs : List P) (s : LifeState P), e ∈ s.log → e ∈ (cs.foldl (destroyChild destroy) s).log
  | [], s, h => h
  | c :: cs, s, h => by
    refine mem_log_foldl_destroyChild hd cs _ ?_
    unfold destroyChild
    split_ifs
    · exact h
    · dsimp only
      split
      · simp [h]
      · exact hd _ _ (by simp [h])

lemma mem_log_destroy : ∀ (fuel : ℕ) (s : LifeState P) (p : P), e ∈ s.log → e ∈ (s.destroy fuel p).log
  | 0, s, p, h => h
  | fuel + 1, s, p, h => by
    refine mem_log_foldl_destroyChild (mem_log_destroy fuel) _ _ ?_
    rw [(killChildren_frame _ _).1]
    simp [h]

/-- The destructor of a process with a child calls `wait()` on the child in the context of the core
that deletes it. -/
theorem destroy_waits {fuel : ℕ} {c : P} {cs : List P} (hcs : (s.kernel.process p).childs = c :: cs)
    (hcr : s.crashed = false) :
    .waited c s.currentThread ∈ (s.destroy (fuel + 1) p).log := by
  unfold destroy
  simp only [hcs]
  obtain ⟨-, hcore, hcrash⟩ := killChildren_frame (c :: cs) { s with
    log := s.log ++ [LifeEvent.deleted p s.kernel] }
  generalize killChildren _ (c :: cs) = s1 at hcore hcrash ⊢
  have hcur : s1.currentThread = s.currentThread := by
    unfold currentThread
    rw [hcore]
  refine mem_log_foldl_destroyChild (mem_log_destroy fuel) cs _ ?_
  unfold destroyChild
  rw [if_neg (by simp [hcrash, hcr])]
  dsimp only
  split
  · simp [hcur]
  · exact mem_log_destroy _ _ _ (by simp [hcur])

lemma step_log (hs : s.step a = some s') : s'.log = s.log ∨ ∃ p, s.core = .returned p ∧ s.crashed = false ∧
      (s.kernel.process p).state = .pendingDestruction ∧
      s'.log = (s.destroy (Fintype.card P + 1) p).log := by
  unfold step at hs
  split_ifs at hs with hcr
  split at hs
  · left
    cases a with
    | pass =>
      simp only [threadStep] at hs
      split at hs
      · obtain ⟨r, -, rfl⟩ := map_eq_some_iff.1 hs
        rfl
      · simp at hs
    | park =>
      simp only [threadStep] at hs
      split at hs
      · simp only [some.injEq] at hs
        simp [← hs]
      · simp at hs
    | spawn _ | enter _ | settle => simp [threadStep] at hs
    | setIflag b =>
      simp only [threadStep, some.injEq] at hs
      simp [← hs]
    | _ =>
      simp only [threadStep] at hs
      split_ifs at hs
      simp only [some.injEq] at hs
      simp [← hs]
  · rename_i p hc
    cases a with
    | settle =>
      simp only [settle] at hs
      split_ifs at hs with hst
      · simp only [some.injEq] at hs
        exact .inr ⟨p, hc, by simpa using hcr, hst, by rw [← hs]⟩
      · obtain ⟨r, -, rfl⟩ := map_eq_some_iff.1 hs
        exact .inl rfl
    | _ => simp at hs
  · left
    cases a with
    | spawn p =>
      simp only at hs
      split_ifs at hs
      simp only [some.injEq] at hs
      simp [← hs, create]
    | enter child =>
      simp only at hs
      split at hs
      · simp only [some.injEq] at hs
        rw [hs]
      · rw [enterThread_log hs]
    | _ => simp at hs

end LifeState

section Main

variable [Fintype P] {s : LifeState P}

lemma LifeInv.step_good {loc : P → Place (ProcessList P) Unit} (h : LifeInv s loc)
    (hok : s.ChildlessDelete a) (hs : s.step a = some s') (hlog : ∀ e ∈ s.log, e.Good) :
    ∀ e ∈ s'.log, e.Good := by
  rcases step_log hs with heq | ⟨p, hc, -, hst, heq⟩
  · rwa [heq]
  rw [heq, LifeInv.destroy_nil (hok p hc hst)]
  intro e he
  simp only [List.mem_append, List.mem_singleton] at he
  rcases he with he | rfl
  · exact hlog e he
  obtain ⟨hloc, hf, -⟩ := (h.process p).returned hc
  simp only [LifeEvent.Good, (h.process p).thread_eq]
  refine ⟨hf, ?_, fun l => ?_⟩
  · rw [h.placed.mem_queue, hloc]
    simp
  · rw [(h.placed.waitingOn l).2.2, hloc]
    simp

/-- While the scheduler only deletes processes without children, each deleted process has a finished thread
that is in no queue. A step that deletes one with a child calls `wait()` outside a thread. -/
theorem deleted_process_dead (h : Reaches step LifeState.ChildlessDelete init s) : (∀ e ∈ s.log, e.Good) ∧
      ∀ a s', s.step a = some s' → ¬ s.ChildlessDelete a → ∃ e ∈ s'.log, ¬ e.Good := by
  have hall : (∃ loc, LifeInv s loc) ∧ ∀ e ∈ s.log, e.Good :=
    h.invariant (I := fun s => (∃ loc, LifeInv s loc) ∧ ∀ e ∈ s.log, e.Good) ⟨⟨_, LifeInv.init⟩, by simp [init]⟩
      fun _ _ _ ⟨⟨_, hI⟩, hlog⟩ hok hs => ⟨hI.step hok hs, hI.step_good hok hs hlog⟩
  refine ⟨hall.2, fun a s' hs hno => ?_⟩
  simp only [LifeState.ChildlessDelete, not_forall] at hno
  obtain ⟨p, hc, hst, hcs⟩ := hno
  obtain ⟨c, cs, hcs⟩ := List.exists_cons_of_ne_nil hcs
  have hcur : s.currentThread = none := by simp [currentThread, hc]
  unfold step at hs
  split_ifs at hs with hcr
  simp only [hc] at hs
  cases a with
  | settle =>
    simp only [settle, if_pos hst, some.injEq] at hs
    subst hs
    refine ⟨.waited c none, ?_, by simp [LifeEvent.Good]⟩
    have hw : LifeEvent.waited c s.currentThread ∈ (s.destroy (Fintype.card P + 1) p).log :=
      destroy_waits hcs (by simpa using hcr)
    rwa [hcur] at hw
  | _ => simp at hs

end Main

theorem deleted_process_dead_reaped : ∃ s : LifeState (Fin 2), s.log.length = 1 ∧ ∀ e ∈ s.log, e.Good := by
  obtain ⟨s, hs, hlen⟩ : ∃ s : LifeState (Fin 2), Reaches step LifeState.ChildlessDelete init s ∧ s.log.length = 1 :=
    exists_of_run [.spawn 0, .enter 1, .fork, .enter 1, .wait true, .pass, .park, .enter 0, .exit 5,
      .settle, .enter 0, .pass, .preempt, .enter 0, .settle] (by decide)
  exact ⟨s, hlen, (deleted_process_dead hs).1⟩

/-- A process exits while its own child still runs, and the destructor calls `wait()` on the child from the
scheduler. -/
theorem wait_outside_thread : ∃ s : LifeState (Fin 3), Reaches step Any init s ∧ ∃ e ∈ s.log, ¬ e.Good := by
  obtain ⟨s, hs, e, he, hout⟩ : ∃ s : LifeState (Fin 3),
      Reaches step Any init s ∧ ∃ e ∈ s.log, e.outsideThread = true :=
    exists_of_run [.spawn 0, .enter 1, .fork, .enter 1, .wait true, .pass, .park, .enter 2, .fork,
      .enter 2, .exit 5, .settle, .enter 0, .preempt, .enter 0, .pass, .preempt, .enter 0, .preempt,
      .enter 0, .settle] (by decide)
  refine ⟨s, hs, e, he, ?_⟩
  rcases e with _ | ⟨p, _ | t⟩ <;> simp [LifeEvent.outsideThread, LifeEvent.Good] at hout ⊢

end OlliOS
