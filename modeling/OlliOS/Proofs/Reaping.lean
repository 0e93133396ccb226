import OlliOS.Proofs.Process
import OlliOS.Proofs.Threading
import OlliOS.Reaping

/-!
# No stopped child is missed

A process is parked on its `_waitingForChildStopped` only in the state `Waiting`, and then each of its
children that is `Stopped` has still to look at it (`ReapInv.parked`).
-/

set_option linter.unusedSectionVars false

namespace OlliOS

open Stepping List Option ReapState Kernel Function

variable {P T : Type*} [DecidableEq P] [DecidableEq T] {p : P} {k : Kernel P T}

def ReapPc.Stopped (c : ReapPc) : Prop := c = .stopping ∨ c = .releasing ∨ c = .ended

/-- A process tree in which nobody is in `wait(i32*)` or in `set_state`. -/
structure ReapState.Start (s : ReapState P T) (loc : T → Place (ProcessList P) Unit) : Prop where
  placed : Placed s.kernel.threads loc
  thread_inj : Function.Injective s.thread
  parent_eq : ∀ p, ∀ c ∈ (s.kernel.process p).childs, (s.kernel.process c).parent = some p
  nodup : ∀ p, (s.kernel.process p).childs.Nodup
  not_parked : ∀ t p, loc t ≠ .list (.childStopped p)
  pc_stopped : ∀ p, s.pc p = if (s.kernel.process p).state = .stopped then .ended else .idle
  stopped_out : ∀ p, (s.kernel.process p).state = .stopped →
    loc (s.thread p) = .other () ∧ s.kernel.threads.blocking (s.thread p) = false
  log_nil : s.log = []

structure ReapInv (s : ReapState P T) (loc : T → Place (ProcessList P) Unit) : Prop where
  placed : Placed s.kernel.threads loc
  thread_inj : Function.Injective s.thread
  parent_eq : ∀ p, ∀ c ∈ (s.kernel.process p).childs, (s.kernel.process c).parent = some p
  nodup : ∀ p, (s.kernel.process p).childs.Nodup
  parked : ∀ t p, loc t = .list (.childStopped p) → t = s.thread p ∧
    (s.kernel.process p).state = .waiting ∧
    ∀ c ∈ (s.kernel.process p).childs, (s.kernel.process c).state = .stopped → s.pc c = .stopping
  stopped_out : ∀ p, ∀ c ∈ (s.kernel.process p).childs, (s.kernel.process c).state = .stopped →
    (s.pc c).Stopped ∧ loc (s.thread c) = .other () ∧ s.kernel.threads.blocking (s.thread c) = false

namespace ReapInv

variable {s : ReapState P T} {loc : T → Place (ProcessList P) Unit}

lemma start (h : s.Start loc) : ReapInv s loc where
  placed := h.placed
  thread_inj := h.thread_inj
  parent_eq := h.parent_eq
  nodup := h.nodup
  parked := fun t p ht => absurd ht (h.not_parked t p)
  stopped_out := fun p c _ hst => by
    refine ⟨?_, h.stopped_out c hst⟩
    rw [h.pc_stopped, if_pos hst]
    exact .inr (.inr rfl)

lemma onCore (h : ReapInv s loc) (hp : s.OnCore p) : loc (s.thread p) = .other () := by
  rcases hl : loc (s.thread p) with _ | l | _
  · exact absurd ((h.placed.mem_queue _).2 hl) hp.1
  · exact absurd hp.2 (by simp [h.placed.list_blocking _ l hl])
  · rfl

lemma enter (h : ReapInv s loc) (hp : s.thread p ∈ s.kernel.threads.queue) :
    ∃ loc', ReapInv { s with
      kernel := { s.kernel with
        threads := { s.kernel.threads with
          queue := s.kernel.threads.queue.erase (s.thread p) } }
      pc := update s.pc p (s.pc p).entered } loc' := by
  have hloc := (h.placed.mem_queue _).1 hp
  have hplaced := h.placed.dequeue hloc ()
  refine ⟨update loc (s.thread p) (.other ()), ?_⟩
  obtain ⟨-, thread_inj, parent_eq, nodup, parked, stopped_out⟩ := h
  refine ⟨hplaced, thread_inj, parent_eq, nodup, ?_, ?_⟩ <;>
    simp only [update_apply]
  · grind [thread, ReapPc.entered]
  · grind [thread, ReapPc.entered, ReapPc.Stopped]

variable [Fintype T]

section

variable (h : ReapInv s loc)

include h

lemma publish (hp : s.OnCore p) (hk : s.kernel.publish p .stopped = some k) :
    ∃ loc', ReapInv { s with kernel := k, pc := update s.pc p .stopping } loc' := by
  obtain ⟨-, hsame, hth, hstate⟩ := publish_cases hk
  obtain ⟨th, hth', hplaced, -, -, -, hb⟩ := h.placed.unblockAllThreads (.stopped p) ()
  have hw := (h.placed.waitingOn (.stopped p)).2.2
  have hout := h.onCore hp
  have hbp := hp.2
  rw [hth', some.injEq] at hth
  subst hth
  obtain ⟨-, thread_inj, parent_eq, nodup, parked, stopped_out⟩ := h
  refine ⟨_, hplaced, fun a b hab => thread_inj ?_, ?_, ?_, ?_, ?_⟩
  · simpa only [thread, hsame.thread] using hab
  all_goals
    simp [thread, hsame.thread, hsame.childs, hsame.parent, woken]
  · exact parent_eq
  · exact nodup
  · grind [thread]
  · grind [thread, ReapPc.Stopped]

lemma tellParent (hpc : s.pc p = .stopping)
    (hk : s.kernel.tellParent p = some k) :
    ∃ loc', ReapInv { s with kernel := k, pc := update s.pc p .releasing } loc' := by
  obtain ⟨hproc, hcases⟩ := tellParent_cases hk
  -- once nobody is left on the list of the parent, it does not matter that the child goes on
  have hgo : ∀ {loc' : T → Place (ProcessList P) Unit}, Placed k.threads loc' →
      (∀ t q, loc' t = .list (.childStopped q) →
        loc t = .list (.childStopped q) ∧ (s.kernel.process p).parent ≠ some q) →
      (∀ t, loc t = .other () → loc' t = .other () ∧
        (s.kernel.threads.blocking t = false → k.threads.blocking t = false)) →
      ReapInv { s with kernel := k, pc := update s.pc p .releasing } loc' := by
    intro loc' hplaced hlist hother
    obtain ⟨-, thread_inj, parent_eq, nodup, parked, stopped_out⟩ := h
    refine ⟨hplaced, fun a b hab => thread_inj ?_, ?_, ?_, ?_, ?_⟩
    · simpa only [thread, hproc] using hab
    all_goals simp [thread, hproc, update_apply]
    · exact parent_eq
    · exact nodup
    · intro t q ht
      obtain ⟨ht', hne⟩ := hlist t q ht
      obtain ⟨h1, h2, h3⟩ := parked t q ht'
      refine ⟨h1, h2, fun c hc hst => ?_⟩
      have hcp : c ≠ p := by
        rintro rfl
        exact hne (parent_eq q c hc)
      rw [if_neg hcp]
      exact h3 c hc hst
    · intro q c hc hst
      obtain ⟨h1, h2, h3⟩ := stopped_out q c hc hst
      obtain ⟨h4, h5⟩ := hother _ h2
      refine ⟨?_, h4, h5 h3⟩
      split_ifs
      · exact .inr (.inl rfl)
      · exact h1
  rcases hcases with ⟨hnone, hth⟩ | ⟨q, hpar, -, ⟨hst, hth⟩ | ⟨hst, hth⟩⟩
  · refine ⟨loc, hgo (hth ▸ h.placed) (fun t q ht => ⟨ht, by simp [hnone]⟩) (fun t ht => ⟨ht, fun hb => hth ▸ hb⟩)⟩
  · obtain ⟨th, hth', hplaced, -, -, -, hb⟩ := h.placed.unblockAllThreads (.childStopped q) ()
    have hw := (h.placed.waitingOn (.childStopped q)).2.2
    rw [hth', some.injEq] at hth
    subst hth
    refine ⟨_, hgo hplaced (fun t q' ht => ?_) (fun t ht => ?_)⟩ <;>
      simp only [woken, hw, hb] at *
    · split_ifs at ht with hl
      refine ⟨ht, fun hq => hl ?_⟩
      rw [hpar, some.injEq] at hq
      rw [ht, hq]
    · simp [ht]
  · refine ⟨loc, hgo (hth ▸ h.placed) (fun t q' ht => ⟨ht, ?_⟩) (fun t ht => ⟨ht, fun hb => hth ▸ hb⟩)⟩
    rw [hpar]
    rintro ⟨⟩
    exact hst (h.parked t q ht).2.1

lemma update {f : Process P T → Process P T} {c : ReapPc}
    (hf : ∀ q, (f q).thread = q.thread ∧ (f q).childs = q.childs ∧ (f q).parent = q.parent ∧ (f q).state = q.state)
    (hpc : s.pc p ≠ .stopping ∧ ((s.pc p).Stopped → c.Stopped)) :
    ReapInv { s with kernel := s.kernel.modify p f, pc := update s.pc p c } loc := by
  obtain ⟨hplaced, thread_inj, parent_eq, nodup, parked, stopped_out⟩ := h
  have hsame : ∀ q, ((s.kernel.modify p f).process q).thread = (s.kernel.process q).thread ∧
      ((s.kernel.modify p f).process q).childs = (s.kernel.process q).childs ∧
      ((s.kernel.modify p f).process q).parent = (s.kernel.process q).parent ∧
      ((s.kernel.modify p f).process q).state = (s.kernel.process q).state := by
    intro q
    rw [modify_process]
    split_ifs with hq
    · subst hq
      exact hf _
    · exact ⟨rfl, rfl, rfl, rfl⟩
  refine ⟨hplaced, fun a b hab => thread_inj ?_, ?_, ?_, ?_, ?_⟩
  · simpa only [thread, hsame] using hab
  all_goals simp only [thread, hsame, modify_threads]
  · exact parent_eq
  · exact nodup
  · grind [thread]
  · grind [thread, ReapPc.Stopped]

lemma pass_reap {c : P} {xs ys : List P} (hp : s.OnCore p)
    (hcs : (s.kernel.process p).childs = xs ++ c :: ys) (hst : (s.kernel.process c).state = .stopped)
    (hth : k.threads = s.kernel.threads.schedule (s.kernel.process c).thread)
    (hproc : ∀ q, k.process q = { s.kernel.process q with
      childs := if q = p then xs ++ ys else (s.kernel.process q).childs
      state := if q = p then .running else if q = c then .pendingDestruction
        else (s.kernel.process q).state })
    {log : List (Reap P)} :
    ∃ loc', ReapInv ⟨k, Function.update s.pc p .idle, log⟩ loc' := by
  have hmem : c ∈ (s.kernel.process p).childs := by simp [hcs]
  obtain ⟨hcpc, hcout, hcb⟩ := h.stopped_out p c hmem hst
  have hplaced := h.placed.schedule hcout hcb
  have hpout := h.onCore hp
  refine ⟨Function.update loc (s.thread c) .queue, ?_⟩
  obtain ⟨-, thread_inj, parent_eq, nodup, parked, stopped_out⟩ := h
  have hnd := nodup p
  rw [hcs, nodup_middle, nodup_cons] at hnd
  refine ⟨hth ▸ hplaced, fun a b hab => thread_inj ?_, ?_, ?_, ?_, ?_⟩
  · simpa only [thread, hproc] using hab
  all_goals simp only [thread, hproc, hth, Threads.schedule, Function.update_apply]
  · grind
  · intro q
    split_ifs
    · exact hnd.2
    · exact nodup q
  · grind [thread]
  · grind [thread, ReapPc.Stopped]

lemma pass_park (status : Bool) (hp : s.OnCore p)
    (hcs : ∀ c ∈ (s.kernel.process p).childs, (s.kernel.process c).state ≠ .stopped)
    (hth : s.kernel.threads.addBlockedThread (.childStopped p) (s.thread p) = some k.threads)
    (hproc : ∀ q, k.process q = { s.kernel.process q with
      state := if q = p then .waiting else (s.kernel.process q).state }) :
    ∃ loc', ReapInv { s with kernel := k, pc := Function.update s.pc p (.parked status) } loc' := by
  obtain ⟨th, hth', hplaced, -, -, -, hb⟩ := h.placed.addBlockedThread (h.onCore hp)
    (.childStopped p)
  rw [hth', some.injEq] at hth
  subst hth
  refine ⟨Function.update loc (s.thread p) (.list (.childStopped p)), ?_⟩
  obtain ⟨-, thread_inj, parent_eq, nodup, parked, stopped_out⟩ := h
  refine ⟨hplaced, fun a b hab => thread_inj ?_, ?_, ?_, ?_, ?_⟩
  · simpa only [thread, hproc] using hab
  all_goals simp [hproc, hb]
  · exact parent_eq
  · exact nodup
  · grind [thread]
  · grind [thread, ReapPc.Stopped]

lemma step {a : ReapAct P} {s' : ReapState P T}
    (hs : s.step a = some s') : ∃ loc', ReapInv s' loc' := by
  cases a with simp only [ReapState.step] at hs
  | enter p =>
    split_ifs at hs with hp
    cases hs
    exact h.enter hp
  | wait p status =>
    split_ifs at hs with hg
    cases hs
    have := h.update (p := p) (f := id) (c := .scanning status) (by simp)
      (by simp [hg.2.1, ReapPc.Stopped])
    refine ⟨loc, ?_⟩
    simpa [Kernel.modify] using this
  | pass p =>
    split at hs
    · rename_i status hpc
      split_ifs at hs with hp
      obtain ⟨⟨k, e, r⟩, hk, rfl⟩ := map_eq_some_iff.1 hs
      obtain ⟨-, ⟨hnil, -, rfl, rfl⟩ | ⟨xs, c, ys, -, hcs, hst, -, rfl, hth, hproc⟩ |
        ⟨-, hcs, -, rfl, hth, hproc⟩⟩ := waitPass_cases hk
      · have := h.update (p := p) (f := fun q => { q with stateLock := true }) (c := .idle) (by simp)
          (by simp [hpc, ReapPc.Stopped])
        exact ⟨loc, { this with }⟩
      · exact h.pass_reap hp hcs hst hth hproc
      · exact h.pass_park status hp hcs hth hproc
    · simp at hs
  | exit p status =>
    split_ifs at hs with hg
    cases hs
    have := h.update (p := p) (f := fun q => { q with statusCode := status }) (c := .idle) (by simp)
      (by simp [hg.2])
    rw [← hg.2, update_eq_self] at this
    exact ⟨loc, this⟩
  | publish p =>
    split_ifs at hs with hg
    obtain ⟨k, hk, rfl⟩ := map_eq_some_iff.1 hs
    exact h.publish hg.1 hk
  | tellParent p =>
    split_ifs at hs with hg
    obtain ⟨k, hk, rfl⟩ := map_eq_some_iff.1 hs
    exact h.tellParent hg hk
  | release p =>
    split_ifs at hs with hg
    cases hs
    exact ⟨loc, h.update (by simp) (by simp [hg, ReapPc.Stopped])⟩

end

end ReapInv

/-- What the log says: each child was reaped once, and its `wait(i32*)` returned its pid, stored its
exit status and took it out of the list of children. -/
structure ReapLog (s : ReapState P T) : Prop where
  nodup : (s.log.map Reap.child).Nodup
  gone : ∀ e ∈ s.log, (s.pc e.child).Stopped ∧ ∀ p, e.child ∉ (s.kernel.process p).childs
  ret : ∀ e ∈ s.log, e.ret = (s.kernel.process e.child).pid ∧
    e.stored = if e.status then some (s.kernel.process e.child).statusCode else none
  erased : ∀ e ∈ s.log, ∃ xs ys, e.before = xs ++ e.child :: ys ∧ e.after = xs ++ ys

namespace ReapLog

variable {s s' : ReapState P T} {loc : T → Place (ProcessList P) Unit}

lemma mono (h : ReapLog s) (hlog : s'.log = s.log)
    (hpid : ∀ c, (s'.kernel.process c).pid = (s.kernel.process c).pid)
    (hchilds : ∀ p, (s'.kernel.process p).childs = (s.kernel.process p).childs)
    (hpc : ∀ c, (s.pc c).Stopped → (s'.pc c).Stopped ∧
      (s'.kernel.process c).statusCode = (s.kernel.process c).statusCode) : ReapLog s' := by
  refine ⟨hlog ▸ h.nodup, fun e he => ?_, fun e he => ?_, fun e he => h.erased e (hlog ▸ he)⟩ <;>
    rw [hlog] at he
  · obtain ⟨h1, h2⟩ := h.gone e he
    exact ⟨(hpc _ h1).1, fun p => by rw [hchilds]; exact h2 p⟩
  · rw [hpid, (hpc _ (h.gone e he).1).2]
    exact h.ret e he

lemma reap (h : ReapLog s) (hI : ReapInv s loc) {c : P} {status : Bool} {xs ys : List P}
    (hpc : s.pc p = .scanning status) (hcs : (s.kernel.process p).childs = xs ++ c :: ys)
    (hst : (s.kernel.process c).state = .stopped)
    (hproc : ∀ q, k.process q = { s.kernel.process q with
      childs := if q = p then xs ++ ys else (s.kernel.process q).childs
      state := if q = p then .running else if q = c then .pendingDestruction
        else (s.kernel.process q).state })
    {stored : Option (BitVec 32)}
    (hstored : stored = if status then some (s.kernel.process c).statusCode else none) :
    ReapLog ⟨k, update s.pc p .idle, s.log ++ [⟨p, c, (s.kernel.process c).pid, status,
      stored, (s.kernel.process p).childs, (k.process p).childs⟩]⟩ := by
  have hmem : c ∈ (s.kernel.process p).childs := by simp [hcs]
  have hcpc := (hI.stopped_out p c hmem hst).1
  have hnd := hI.nodup p
  rw [hcs, nodup_middle, nodup_cons] at hnd
  have hstop : ∀ x, (s.pc x).Stopped → (update s.pc p .idle x).Stopped := by
    intro x hx
    have hxp : x ≠ p := by
      rintro rfl
      simp [hpc, ReapPc.Stopped] at hx
    rwa [update_of_ne hxp]
  -- nobody else has `c` or any child of `p` among its children
  have hgone : ∀ x, (∀ q, x ∉ (s.kernel.process q).childs) ∨ x = c → ∀ q, x ∉ (k.process q).childs := by
    intro x hx q hq
    rw [hproc] at hq
    dsimp only at hq
    split_ifs at hq with hqp
    · rcases hx with hx | rfl
      · refine hx p ?_
        rw [hcs]
        simp only [mem_append] at hq ⊢
        tauto
      · exact hnd.1 hq
    · rcases hx with hx | rfl
      · exact hx q hq
      · have h1 := hI.parent_eq p x hmem
        rw [hI.parent_eq q x hq, some.injEq] at h1
        exact hqp h1
  have hpid : ∀ q, (k.process q).pid = (s.kernel.process q).pid := fun q => by rw [hproc]
  have hcode : ∀ q, (k.process q).statusCode = (s.kernel.process q).statusCode := fun q => by rw [hproc]
  refine ⟨?_, ?_, ?_, ?_⟩ <;> simp only [map_append, map_cons, map_nil, mem_append, mem_singleton]
  · refine h.nodup.append (nodup_singleton c) ?_
    simp only [disjoint_singleton, List.mem_map, not_exists, not_and]
    rintro e he rfl
    exact (h.gone e he).2 p hmem
  · rintro e (he | rfl)
    · exact ⟨hstop _ (h.gone e he).1, hgone _ (.inl (h.gone e he).2)⟩
    · exact ⟨hstop _ hcpc, hgone _ (.inr rfl)⟩
  · rintro e (he | rfl)
    · rw [hpid, hcode]
      exact h.ret e he
    · rw [hpid, hcode]
      exact ⟨rfl, hstored⟩
  · rintro e (he | rfl)
    · exact h.erased e he
    · exact ⟨xs, ys, hcs, by simp [hproc]⟩

variable [Fintype T]

lemma step (h : ReapLog s) (hI : ReapInv s loc) {a : ReapAct P} (hs : s.step a = some s') : ReapLog s' := by
  cases a with simp only [ReapState.step] at hs
  | enter p =>
    split_ifs at hs with hp
    cases hs
    refine h.mono rfl (fun _ => rfl) (fun _ => rfl) fun c hc => ⟨?_, rfl⟩
    simp only [update_apply]
    grind [ReapPc.Stopped, ReapPc.entered]
  | wait p status =>
    split_ifs at hs with hg
    cases hs
    refine h.mono rfl (fun _ => rfl) (fun _ => rfl) fun c hc => ⟨?_, rfl⟩
    simp only [update_apply]
    grind [ReapPc.Stopped]
  | pass p =>
    split at hs
    · rename_i status hpc
      split_ifs at hs with hp
      obtain ⟨⟨k, e, r⟩, hk, rfl⟩ := map_eq_some_iff.1 hs
      have hkeep : ∀ {c : ReapPc}, ∀ x, (s.pc x).Stopped → (update s.pc p c x).Stopped := by
        intro c x hx
        simp only [update_apply]
        grind [ReapPc.Stopped]
      obtain ⟨-, ⟨hnil, -, rfl, rfl⟩ | ⟨xs, c, ys, hfirst, hcs, hst, -, rfl, hth, hproc⟩ |
        ⟨-, hcs, -, rfl, hth, hproc⟩⟩ := waitPass_cases hk
      · refine h.mono ?_ ?_ ?_ fun c hc => ⟨hkeep c hc, ?_⟩
        · simp [afterPass, found, hnil, firstStopped]
        all_goals
          intros
          simp only [afterPass, modify_process]
          split_ifs <;> simp_all
      · simp only [afterPass, found, hfirst, map_some, toList_some, map_cons, map_nil]
        exact h.reap hI hpc hcs hst hproc rfl
      · refine h.mono rfl ?_ ?_ fun c hc => ⟨hkeep c hc, ?_⟩
        all_goals
          intros
          simp only [afterPass, hproc]
    · simp at hs
  | exit p status =>
    split_ifs at hs with hg
    cases hs
    refine h.mono rfl ?_ ?_ fun c hc => ⟨hc, ?_⟩
    all_goals
      intros
      simp only [modify_process]
      grind [ReapPc.Stopped]
  | publish p =>
    split_ifs at hs with hg
    obtain ⟨k, hk, rfl⟩ := map_eq_some_iff.1 hs
    obtain ⟨-, hsame, -⟩ := publish_cases hk
    refine h.mono rfl hsame.pid hsame.childs fun c hc => ⟨?_, hsame.statusCode c⟩
    grind [ReapPc.Stopped]
  | tellParent p =>
    split_ifs at hs with hg
    obtain ⟨k, hk, rfl⟩ := map_eq_some_iff.1 hs
    have hproc := (tellParent_cases hk).1
    refine h.mono rfl (by simp [hproc]) (by simp [hproc]) fun c hc => ⟨?_, by simp [hproc]⟩
    grind [ReapPc.Stopped]
  | release p =>
    split_ifs at hs with hg
    cases hs
    refine h.mono rfl ?_ ?_ fun c hc => ⟨?_, ?_⟩
    all_goals
      intros
      simp only [release, modify_process, update_apply]
      grind [ReapPc.Stopped]

end ReapLog

section Main

variable [Fintype T] {s₀ s : ReapState P T} {loc : T → Place (ProcessList P) Unit}

/-- While a thread is parked on the `_waitingForChildStopped` of a process, each child that is stopped has
still to look at it; and every child is reaped at most once, with its exit status. -/
theorem stopped_child_reaped (h₀ : s₀.Start loc) (h : Reaches step Any s₀ s) :
    (∀ p, ∀ t ∈ s.kernel.threads.waitingOn (.childStopped p),
      ∀ c ∈ (s.kernel.process p).childs, (s.kernel.process c).state = .stopped → s.pc c = .stopping) ∧
      (s.log.map Reap.child).Nodup ∧
      ∀ e ∈ s.log, e.ret = (s.kernel.process e.child).pid ∧
        (e.stored = if e.status then some (s.kernel.process e.child).statusCode else none) ∧
        ∃ xs ys, e.before = xs ++ e.child :: ys ∧ e.after = xs ++ ys := by
  obtain ⟨⟨loc', hI⟩, hL⟩ : (∃ loc', ReapInv s loc') ∧ ReapLog s := by
    refine h.invariant (I := fun s => (∃ loc', ReapInv s loc') ∧ ReapLog s)
      ⟨⟨loc, .start h₀⟩, ?_⟩ fun _ _ _ ⟨⟨_, hI⟩, hL⟩ _ hs => ⟨hI.step hs, hL.step hI hs⟩
    constructor <;> simp [h₀.log_nil]
  refine ⟨fun p t ht => (hI.parked t p (((hI.placed.waitingOn _).2.2 t).1 ht)).2.2, hL.nodup,
    fun e he => ⟨(hL.ret e he).1, (hL.ret e he).2, hL.erased e he⟩⟩

end Main

theorem stopped_child_reaped_once :
    ∃ s : ReapState (Fin 2) (Fin 2),
      s.log.map (fun e => (e.child, e.ret, e.stored)) = [(1, 2, some 7)] ∧
      (s.log.map Reap.child).Nodup := by
  have h₀ : ReapState.Start (⟨twoProcesses true, fun _ => .idle, []⟩ : ReapState (Fin 2) (Fin 2))
      (fun _ => .other ()) := by
    refine ⟨Placed.empty (), fun a b h => h, by decide, by decide, by simp, by decide, by decide, rfl⟩
  obtain ⟨s, hs, hlog⟩ : ∃ s : ReapState (Fin 2) (Fin 2),
      Reaches step Any ⟨twoProcesses true, fun _ => .idle, []⟩ s ∧
      s.log.map (fun e => (e.child, e.ret, e.stored)) = [(1, 2, some 7)] :=
    exists_of_run [.wait 0 true, .pass 0, .exit 1 7, .publish 1, .tellParent 1, .enter 0, .pass 0]
      (by decide)
  exact ⟨s, hlog, (stopped_child_reaped h₀ hs).2.1⟩

end OlliOS
