import OlliOS.Process

/-!
# What the process functions do

Each function of `Process` that can give up the core or return is inverted once.
-/

set_option linter.unusedSectionVars false

namespace OlliOS

open Stepping List Option ProcessCall

variable {P T : Type*} [DecidableEq P] [DecidableEq T] {l : ProcessList P} {r : WaitEnd}
  {st : ProcessState}

namespace Kernel

variable {s s' : Kernel P T} {p q : P} {t : T} {iflag e status e' : Bool} {cur : Option T} {c : P}

@[simp] lemma modify_threads (f : Process P T → Process P T) : (s.modify p f).threads = s.threads := rfl

lemma modify_process (f : Process P T → Process P T) (q : P) :
    (s.modify p f).process q = if q = p then f (s.process p) else s.process q := by
  simp only [modify, Function.update_apply]

lemma lock_eq_some : s.lock p = some s' ↔ (s.process p).stateLock = false ∧
      s' = s.modify p fun q => { q with stateLock := true } := by
  unfold lock
  cases (s.process p).stateLock <;> simp [eq_comm]

lemma release_process (hfree : (s.process p).stateLock = false)
    (h : s'.process = (s.modify p fun q => { q with stateLock := true }).process) :
    (s'.release p).process = s.process := by
  funext q
  simp only [release, modify_process, h]
  split_ifs with hq
  · rw [hq]
    ext1 <;> simp [hfree]
  · rfl

lemma firstStopped_some : ∀ {cs : List P} {n i : ℕ} {c : P},
    s.firstStopped cs n = some (i, c) → (s.process c).state = .stopped ∧ ∃ xs ys, cs = xs ++ c :: ys ∧ i = n + xs.length
  | c' :: cs, n, i, c, h => by
    unfold firstStopped at h
    split_ifs at h with hc
    · obtain ⟨rfl, rfl⟩ := h
      exact ⟨hc, [], cs, by simp, by simp⟩
    · obtain ⟨hst, xs, ys, rfl, rfl⟩ := firstStopped_some h
      refine ⟨hst, c' :: xs, ys, by simp, ?_⟩
      simp only [length_cons]
      omega

lemma firstStopped_none : ∀ {cs : List P} {n : ℕ}, s.firstStopped cs n = none →
    ∀ c ∈ cs, (s.process c).state ≠ .stopped
  | [], n, h => by simp
  | c' :: cs, n, h => by
    unfold firstStopped at h
    split_ifs at h with hc
    intro c hmem
    rcases mem_cons.1 hmem with rfl | hmem
    · exact hc
    · exact firstStopped_none h c hmem

lemma firstStopped_congr (h : ∀ c, (s'.process c).state = (s.process c).state) :
    ∀ (cs : List P) (n : ℕ), s'.firstStopped cs n = s.firstStopped cs n
  | [], n => rfl
  | c :: cs, n => by rw [firstStopped, firstStopped, h c, firstStopped_congr h cs (n + 1)]

lemma reap_process (hfree : (s.process p).stateLock = false) {xs ys : List P}
    (hcs : (s.process p).childs = xs ++ c :: ys) (q : P) :
    (((s.modify p fun q => { q with stateLock := true }).reap p xs.length c).release p).process q = { s.process q with
          childs := if q = p then xs ++ ys else (s.process q).childs
          state := if q = p then .running else if q = c then .pendingDestruction
            else (s.process q).state } := by
  have herase : Vector.erase (s.process p).childs xs.length = xs ++ ys := by rw [hcs, Vector.erase_eq]
  simp only [release, reap, assignState, schedule, modify_process]
  ext1 <;> split_ifs <;> grind

lemma reap_statusCode {i : ℕ} (q : P) : ((s.reap p i c).process q).statusCode = (s.process q).statusCode := by
  simp only [reap, assignState, schedule, modify_process]
  grind

lemma reap_threads {xs : List P} :
    (((s.modify p fun q => { q with stateLock := true }).reap p xs.length c).release p).threads
      = s.threads.schedule (s.process c).thread := by
  simp only [release, reap, assignState, schedule, modify_process]
  split_ifs <;> simp_all

variable [Fintype T]

lemma addBlockedThread_eq_some : s.addBlockedThread l t = some s' ↔ s'.process = s.process ∧
      s.threads.addBlockedThread l t = some s'.threads := by
  unfold addBlockedThread
  rw [map_eq_some_iff]
  constructor
  · rintro ⟨th, hth, rfl⟩
    exact ⟨rfl, hth⟩
  · rintro ⟨hp, hth⟩
    exact ⟨s'.threads, hth, by rw [← hp]⟩

lemma unblockAllThreads_eq_some : s.unblockAllThreads l = some s' ↔ s'.process = s.process ∧
      s.threads.unblockAllThreads l = some s'.threads := by
  unfold unblockAllThreads
  rw [map_eq_some_iff]
  constructor
  · rintro ⟨th, hth, rfl⟩
    exact ⟨rfl, hth⟩
  · rintro ⟨hp, hth⟩
    exact ⟨s'.threads, hth, by rw [← hp]⟩

lemma wait_cases (h : s.wait iflag p cur = some (s', e, r)) :
    (s.process p).stateLock = false ∧ e = iflag ∧ s'.process = s.process ∧
      ((s.process p).state ≠ .stopped ∧ r = .exit ∧
          (∃ t, cur = some t ∧ s.threads.addBlockedThread (.stopped p) t = some s'.threads) ∨
        (s.process p).state = .stopped ∧ r = .ret 0 none ∧ s'.threads = s.threads) := by
  simp only [wait, bind_eq_bind, bind_eq_some_iff, lock_eq_some] at h
  obtain ⟨s1, ⟨hfree, rfl⟩, h⟩ := h
  have hsti : sti false iflag = iflag := by cases iflag <;> rfl
  simp only [modify_process, if_true] at h
  split_ifs at h with hst
  · split at h
    · simp at h
    · rename_i t
      obtain ⟨s2, h2, h⟩ := bind_eq_some_iff.1 h
      obtain ⟨hp2, hth⟩ := addBlockedThread_eq_some.1 h2
      obtain ⟨rfl, rfl, rfl⟩ := h
      exact ⟨hfree, hsti, release_process hfree hp2, .inl ⟨hst, rfl, t, rfl, hth⟩⟩
  · obtain ⟨rfl, rfl, rfl⟩ := h
    exact ⟨hfree, hsti, release_process hfree rfl, .inr ⟨by simpa using hst, rfl, rfl⟩⟩

lemma waitPass_cases (h : s.waitPass iflag p t status = some (s', e, r)) : (s.process p).stateLock = false ∧
      ((s.process p).childs = [] ∧ e = false ∧ r = .ret (-1) none ∧
          s' = (s.modify p fun q => { q with stateLock := true }) ∨
        (∃ xs c ys, s.firstStopped (s.process p).childs 0 = some (xs.length, c) ∧
          (s.process p).childs = xs ++ c :: ys ∧ (s.process c).state = .stopped ∧ e = iflag ∧
          r = .ret (s.process c).pid (if status then some (s.process c).statusCode else none) ∧
          s'.threads = s.threads.schedule (s.process c).thread ∧
          ∀ q, s'.process q = { s.process q with
            childs := if q = p then xs ++ ys else (s.process q).childs
            state := if q = p then .running else if q = c then .pendingDestruction
              else (s.process q).state }) ∨
        ((s.process p).childs ≠ [] ∧ (∀ c ∈ (s.process p).childs, (s.process c).state ≠ .stopped) ∧
          e = iflag ∧ r = .exit ∧
          s.threads.addBlockedThread (.childStopped p) t = some s'.threads ∧
          ∀ q, s'.process q = { s.process q with
            state := if q = p then .waiting else (s.process q).state })) := by
  simp only [waitPass, bind_eq_bind, bind_eq_some_iff, lock_eq_some] at h
  obtain ⟨s1, ⟨hfree, rfl⟩, h⟩ := h
  refine ⟨hfree, ?_⟩
  have hsti : sti false iflag = iflag := by cases iflag <;> rfl
  have hstate : ∀ c, ((s.modify p fun q => { q with stateLock := true }).process c).state = (s.process c).state := by
    intro c
    rw [modify_process]
    split_ifs <;> simp_all
  have hchilds : ((s.modify p fun q => { q with stateLock := true }).process p).childs
      = (s.process p).childs := by rw [modify_process, if_pos rfl]
  rw [firstStopped_congr hstate, hchilds] at h
  by_cases hlen : 0 < (s.process p).childs.length
  · rw [if_pos hlen] at h
    split at h
    · rename_i i c hfirst
      obtain ⟨hc, xs, ys, hcs, hi⟩ := firstStopped_some hfirst
      rw [Nat.zero_add] at hi
      subst hi
      simp only [some.injEq, Prod.mk.injEq, reap_statusCode] at h
      obtain ⟨rfl, rfl, rfl⟩ := h
      refine .inr (.inl ⟨xs, c, ys, hfirst, hcs, hc, hsti, ?_, reap_threads, reap_process hfree hcs⟩)
      simp only [modify_process]
      split_ifs <;> simp_all
    · rename_i hnone
      obtain ⟨s2, h2, h⟩ := bind_eq_some_iff.1 h
      obtain ⟨hp2, hth⟩ := addBlockedThread_eq_some.1 h2
      obtain ⟨rfl, rfl, rfl⟩ := h
      refine .inr (.inr ⟨ne_nil_of_length_pos hlen, firstStopped_none hnone, hsti, rfl, hth, ?_⟩)
      intro q
      simp only [release, modify_process, hp2, assignState]
      ext1 <;> split_ifs <;> grind
  · rw [if_neg hlen, some.injEq, Prod.mk.injEq, Prod.mk.injEq] at h
    obtain ⟨rfl, rfl, rfl⟩ := h
    exact .inl ⟨by simpa using hlen, rfl, rfl, rfl⟩

lemma publish_eq_some : s.publish p .stopped = some s' ↔ (s.process p).stateLock = false ∧
      s.threads.unblockAllThreads (.stopped p) = some s'.threads ∧
      s'.process = fun q => if q = p then { s.process p with state := .stopped, stateLock := true }
        else s.process q := by
  simp only [publish, bind_eq_bind, bind_eq_some_iff, lock_eq_some, if_true, unblockAllThreads_eq_some]
  constructor
  · rintro ⟨s1, ⟨hfree, rfl⟩, hp, hth⟩
    refine ⟨hfree, hth, ?_⟩
    rw [hp]
    funext q
    simp only [assignState, modify_process]
    split_ifs <;> rfl
  · rintro ⟨hfree, hth, hp⟩
    refine ⟨_, ⟨hfree, rfl⟩, ?_, hth⟩
    rw [hp]
    funext q
    simp only [assignState, modify_process]
    split_ifs <;> rfl

structure SameTree (s s' : Kernel P T) : Prop where
  thread : ∀ q, (s'.process q).thread = (s.process q).thread
  childs : ∀ q, (s'.process q).childs = (s.process q).childs
  parent : ∀ q, (s'.process q).parent = (s.process q).parent
  pid : ∀ q, (s'.process q).pid = (s.process q).pid
  statusCode : ∀ q, (s'.process q).statusCode = (s.process q).statusCode

lemma publish_cases (h : s.publish p .stopped = some s') : (s.process p).stateLock = false ∧ s.SameTree s' ∧
      s.threads.unblockAllThreads (.stopped p) = some s'.threads ∧
      ∀ q, (s'.process q).state = if q = p then .stopped else (s.process q).state := by
  obtain ⟨hfree, hth, hproc⟩ := publish_eq_some.1 h
  refine ⟨hfree, ⟨?_, ?_, ?_, ?_, ?_⟩, hth, ?_⟩ <;> intro q <;> rw [hproc] <;> dsimp only <;>
    split_ifs with hq <;> simp [hq]

lemma tellParent_cases (h : s.tellParent p = some s') : s'.process = s.process ∧
      ((s.process p).parent = none ∧ s'.threads = s.threads ∨
        ∃ q, (s.process p).parent = some q ∧ (s.process q).stateLock = false ∧
          ((s.process q).state = .waiting ∧ s.threads.unblockAllThreads (.childStopped q) = some s'.threads ∨
            (s.process q).state ≠ .waiting ∧ s'.threads = s.threads)) := by
  unfold tellParent at h
  split at h
  · rename_i hpar
    rw [some.injEq] at h
    subst h
    exact ⟨rfl, .inl ⟨hpar, rfl⟩⟩
  · rename_i q hpar
    simp only [bind_eq_bind, bind_eq_some_iff, lock_eq_some] at h
    obtain ⟨s1, ⟨hfree, rfl⟩, h⟩ := h
    simp only [modify_process, if_true] at h
    split_ifs at h with hst
    · obtain ⟨s2, h2, h⟩ := bind_eq_some_iff.1 h
      obtain ⟨hp2, hth⟩ := unblockAllThreads_eq_some.1 h2
      rw [some.injEq] at h
      subst h
      exact ⟨release_process hfree hp2, .inr ⟨q, hpar, hfree, .inl ⟨hst, hth⟩⟩⟩
    · rw [bind_some, some.injEq] at h
      subst h
      exact ⟨release_process hfree rfl, .inr ⟨q, hpar, hfree, .inr ⟨hst, rfl⟩⟩⟩

lemma publish_locks (h : s.publish p st = some s') :
    (s.process p).stateLock = false ∧ (s'.process p).parent = (s.process p).parent ∧
      ∀ q, (s'.process q).stateLock = if q = p then true else (s.process q).stateLock := by
  simp only [publish, bind_eq_bind, bind_eq_some_iff, lock_eq_some] at h
  obtain ⟨s1, ⟨hfree, rfl⟩, h⟩ := h
  have hproc : s'.process = ((s.modify p fun q => { q with stateLock := true }).assignState p st).process := by
    split_ifs at h
    · exact (unblockAllThreads_eq_some.1 h).1
    · rw [some.injEq] at h
      rw [h]
  refine ⟨hfree, ?_, fun q => ?_⟩ <;> simp only [hproc, assignState, modify_process] <;>
    split_ifs <;> rfl

/-- A call that started in `s` with the interrupt flag `e` has released the locks it took, those of
the processes `ps`, and left every other lock and the flag as they were. -/
structure Restored (s : Kernel P T) (e : Bool) (ps : List P) (s' : Kernel P T) (e' : Bool) : Prop where
  iflag : e' = e
  free : ∀ p ∈ ps, (s'.process p).stateLock = false
  others : ∀ q, (s'.process q).stateLock = (s.process q).stateLock

def setStateLocks (s : Kernel P T) (p : P) (st : ProcessState) : List P :=
  if st = .stopped then p :: (s.process p).parent.toList else [p]

lemma wait_restored (h : s.wait e p cur = some (s', e', r)) : s.Restored e [p] s' e' := by
  obtain ⟨hfree, rfl, hproc, -⟩ := wait_cases h
  refine ⟨rfl, fun q hq => ?_, fun q => by rw [hproc]⟩
  rw [mem_singleton] at hq
  rw [hproc, hq, hfree]

lemma setState_restored (h : s.setState e p st = some (s', e')) : s.Restored e (s.setStateLocks p st) s' e' := by
  simp only [setState, bind_eq_bind, bind_eq_some_iff] at h
  obtain ⟨s1, h1, h⟩ := h
  obtain ⟨hfree, hpar, hlocks⟩ := publish_locks h1
  have hsti : sti false e = e := by cases e <;> rfl
  -- what holds once the parent, if it matters, has been told
  have hend : ∀ {s2 : Kernel P T}, s2.process = s1.process → ∀ q,
      ((s2.release p).process q).stateLock = (s.process q).stateLock := by
    intro s2 h2 q
    simp only [release, modify_process, h2]
    split_ifs with hq
    · rw [hq, hfree]
    · rw [hlocks, if_neg hq]
  unfold setStateLocks
  split_ifs at h ⊢ with hst
  · obtain ⟨s2, h2, h⟩ := bind_eq_some_iff.1 h
    obtain ⟨hproc, hcases⟩ := tellParent_cases h2
    obtain ⟨rfl, rfl⟩ := h
    refine ⟨hsti, fun q hq => ?_, hend hproc⟩
    rw [hend hproc]
    rcases mem_cons.1 hq with rfl | hq
    · exact hfree
    rw [← hpar] at hq
    rcases hcases with ⟨hnone, -⟩ | ⟨q', hsome, hfree', -⟩
    · simp [hnone] at hq
    · simp only [hsome, toList_some, mem_singleton] at hq
      subst hq
      rw [hlocks] at hfree'
      split_ifs at hfree'
      exact hfree'
  · obtain ⟨rfl, rfl⟩ := h
    refine ⟨hsti, fun q hq => ?_, hend rfl⟩
    rw [hend rfl, mem_singleton.1 hq, hfree]

lemma waitPass_restored_iff (h : s.waitPass e p t status = some (s', e', r)) :
    s.Restored e [p] s' e' ↔ (s.process p).childs ≠ [] := by
  obtain ⟨hfree, hcases⟩ := waitPass_cases h
  constructor
  · rintro hR hnil
    rcases hcases with ⟨-, -, -, rfl⟩ | ⟨xs, c, ys, -, hcs, -⟩ | ⟨hne, -⟩
    · have := hR.free p (mem_singleton_self p)
      simp [modify_process] at this
    · simp [hnil] at hcs
    · exact hne hnil
  · intro hne
    have hrest : e' = e ∧ ∀ q, (s'.process q).stateLock = (s.process q).stateLock := by
      rcases hcases with ⟨hnil, -⟩ | ⟨xs, c, ys, -, -, -, he, -, -, hproc⟩ | ⟨-, -, he, -, -, hproc⟩
      · exact absurd hnil hne
      · exact ⟨he, fun q => by rw [hproc]⟩
      · exact ⟨he, fun q => by rw [hproc]⟩
    refine ⟨hrest.1, fun q hq => ?_, hrest.2⟩
    rw [hrest.2, mem_singleton.1 hq, hfree]

end Kernel

lemma ProcessCall.step_locks [Fintype T] {s s' : Kernel P T × Bool} {a : ProcessCall P T}
    (hok : ProcessCall.HasChild s a) (hs : step s a = some s') (q : P) :
    (s'.1.process q).stateLock = (s.1.process q).stateLock := by
  cases a with
  | wait p t =>
    obtain ⟨⟨s1, e, r⟩, h, rfl⟩ := map_eq_some_iff.1 hs
    exact (Kernel.wait_restored h).others q
  | waitPass p t status =>
    obtain ⟨⟨s1, e, r⟩, h, rfl⟩ := map_eq_some_iff.1 hs
    exact ((Kernel.waitPass_restored_iff h).2 hok).others q
  | setState p st => exact (Kernel.setState_restored hs).others q
  | setIflag b =>
    simp only [step, some.injEq] at hs
    rw [← hs]

/-- `wait()` and `set_state` always release the locks they take and restore the interrupt flag; a round of
`wait(i32*)` does so just when the process has a child. -/
theorem stateLock_released [Fintype T] : (∀ (s s' : Kernel P T) (e e' : Bool) (p : P),
      (∀ cur r, s.wait e p cur = some (s', e', r) → s.Restored e [p] s' e') ∧
      (∀ st, s.setState e p st = some (s', e') → s.Restored e (s.setStateLocks p st) s' e') ∧
      ∀ t status r, s.waitPass e p t status = some (s', e', r) → (s.Restored e [p] s' e' ↔ (s.process p).childs ≠ [])) ∧
    ∀ s s' : Kernel P T × Bool, (∀ q, (s.1.process q).stateLock = false) →
      Reaches step ProcessCall.HasChild s s' → ∀ q, (s'.1.process q).stateLock = false := by
  refine ⟨fun s s' e e' p => ⟨fun _ _ => Kernel.wait_restored, fun _ => Kernel.setState_restored,
    fun _ _ _ => Kernel.waitPass_restored_iff⟩, fun s s' h0 h => ?_⟩
  refine h.invariant (I := fun s => ∀ q, (s.1.process q).stateLock = false) h0 ?_
  intro s a s' hI hok hs q
  rw [step_locks hok hs, hI]

def twoProcesses (child : Bool) : Kernel (Fin 2) (Fin 2) where
  process := fun p =>
    { statusCode := -1
      state := .running
      thread := p
      childs := if child && p == 0 then [1] else []
      pid := p.val + 1
      parent := if child && p == 1 then some 0 else none
      stateLock := false }
  threads := Threads.empty

theorem stateLock_released_park : ∃ s', (twoProcesses true).waitPass true 0 0 true = some (s', true, .exit) ∧
      (twoProcesses true).Restored true [0] s' true := by
  obtain ⟨⟨s', e, r⟩, hs, he⟩ : ∃ x, (twoProcesses true).waitPass true 0 0 true = some x ∧ x.2 = (true, .exit) := by
    decide
  obtain ⟨rfl, rfl⟩ := he
  exact ⟨s', hs, ((stateLock_released.1 _ _ _ _ _).2.2 _ _ _ hs).2 (by decide)⟩

/-- A process without children calls `wait(i32*)`: its lock stays held, and the `set_state` that ends it
spins forever. -/
theorem stateLock_left_held : ∃ s', (twoProcesses false).waitPass true 0 0 true = some (s', false, .ret (-1) none) ∧
      (s'.process 0).stateLock = true ∧ s'.setState true 0 .stopped = none := by
  refine ⟨_, rfl, ?_, ?_⟩ <;> decide

end OlliOS
