import OlliOS.Mutex
import OlliOS.Proofs.WaitingList

/-!
# A free mutex with waiting threads

While the mutex is free and somebody waits, a `release` is still to look at the waiting list or a thread
taken off it is on its way to the `xchg` (`MutexInv.awake`).
-/

namespace OlliOS

open Function Stepping Option MutexState

variable {T : Type*} [DecidableEq T] [Fintype T]

structure MutexInv (s : MutexState T) (ws : List T) : Prop where
  lists : Lists s.threads fun _ => ws
  waiting_pc : ∀ t ∈ ws, s.pc t = .parking ∨ s.pc t = .parked
  taken_pc : ∀ t, s.taken t = true → s.pc t = .parking ∨ s.pc t = .parked ∨ s.pc t = .trying
  taken_off : ∀ t, s.taken t = true → t ∉ ws
  taken_scheduled : ∀ t, s.taken t = true → t ∈ s.threads.queue ∨ ∃ u, s.pc u = .scheduling t
  awake : s.locked = false → (∃ u, s.pc u = .releasing) ∨ ws = [] ∨ ∃ u, s.taken u = true

namespace MutexInv

variable {s s' : MutexState T} {ws : List T} {t u : T}

lemma init : MutexInv (init : MutexState T) [] := by
  refine ⟨⟨fun _ => rfl, fun _ => .nil, ?_, fun _ _ => rfl, ?_⟩, ?_, ?_, ?_, ?_, fun _ => .inr (.inl rfl)⟩
  all_goals simp [MutexState.init]

section

variable (h : MutexInv s ws)

include h

lemma notMem_of_pc (hpc : s.pc t ≠ .parking) (hpc' : s.pc t ≠ .parked) :
    t ∉ ws := fun ht => (h.waiting_pc t ht).elim hpc hpc'

lemma not_taken_of_pc (hpc : s.pc t ≠ .parking) (hpc' : s.pc t ≠ .parked)
    (hpc'' : s.pc t ≠ .trying) : s.taken t ≠ true :=
  fun ht => (h.taken_pc t ht).elim hpc fun h' => h'.elim hpc' hpc''

lemma goto {p : MutexPc T} (hrel : s.pc t ≠ .releasing)
    (hsched : ∀ u, s.pc t ≠ .scheduling u) (hw : t ∈ ws → p = .parking ∨ p = .parked)
    (htaken : s.taken t = true → p = .parking ∨ p = .parked ∨ p = .trying) :
    MutexInv (s.goto t p) ws := by
  refine ⟨h.lists, fun u hu => ?_, fun u hu => ?_, h.taken_off, fun u hu => ?_, fun hl => ?_⟩
  · by_cases hut : u = t
    · subst hut
      simpa [goto] using hw hu
    · simpa [MutexState.goto, hut] using h.waiting_pc u hu
  · by_cases hut : u = t
    · subst hut
      simpa [goto] using htaken hu
    · simpa [MutexState.goto, hut] using h.taken_pc u hu
  · rcases h.taken_scheduled u hu with hq | ⟨v, hv⟩
    · exact .inl hq
    · have hvt : v ≠ t := fun heq => hsched u (heq ▸ hv)
      exact .inr ⟨v, by simpa [MutexState.goto, hvt] using hv⟩
  · rcases h.awake hl with ⟨v, hv⟩ | hws
    · have hvt : v ≠ t := fun heq => hrel (heq ▸ hv)
      exact .inl ⟨v, by simpa [MutexState.goto, hvt] using hv⟩
    · exact .inr hws

lemma lock : MutexInv { s with locked := true } ws :=
  ⟨h.lists, h.waiting_pc, h.taken_pc, h.taken_off, h.taken_scheduled, fun hl => absurd hl (by simp)⟩

lemma unlock (hrel : s.pc t = .releasing) : MutexInv { s with locked := false } ws :=
  ⟨h.lists, h.waiting_pc, h.taken_pc, h.taken_off, h.taken_scheduled, fun _ => .inl ⟨t, hrel⟩⟩

lemma xchg (hpc : s.pc t = .trying) {p : MutexPc T} :
    MutexInv { s.goto t p with locked := true, taken := update s.taken t false } ws := by
  have hne : ∀ u, update s.taken t false u = true → u ≠ t ∧ s.taken u = true := by
    intro u hu
    by_cases hut : u = t
    · subst hut
      simp at hu
    · exact ⟨hut, by simpa [hut] using hu⟩
  have h' : MutexInv { s with locked := true, taken := update s.taken t false } ws :=
    ⟨h.lists, h.waiting_pc, fun u hu => h.taken_pc u (hne u hu).2,
      fun u hu => h.taken_off u (hne u hu).2, fun u hu => h.taken_scheduled u (hne u hu).2,
      fun hl => absurd hl (by simp)⟩
  refine h'.goto ?_ ?_ (fun ht => ?_) fun ht => ?_
  · simp [hpc]
  · simp [hpc]
  · exact absurd ht (h.notMem_of_pc (by simp [hpc]) (by simp [hpc]))
  · exact absurd rfl (hne t ht).1

lemma enqueue (hpc : s.pc t = .failed)
    (hok : s.locked = true ∨ (∃ u, s.pc u = .releasing) ∨ ∃ u, s.taken u = true) :
    ∃ th, s.threads.addBlockedThread () t = some th ∧
      MutexInv { s.goto t .parking with threads := th } (ws ++ [t]) := by
  have hws := h.notMem_of_pc (t := t) (by simp [hpc]) (by simp [hpc])
  have htaken := h.not_taken_of_pc (t := t) (by simp [hpc]) (by simp [hpc]) (by simp [hpc])
  obtain ⟨th, hth, hL, hq, -, -⟩ := h.lists.addBlockedThread (fun _ => hws) ()
  have hg : MutexInv (s.goto t .parking) ws := h.goto (by simp [hpc]) (by simp [hpc]) (by simp) (by simp)
  refine ⟨th, hth, ⟨?_, fun u hu => ?_, hg.taken_pc, fun u hu hu' => ?_, fun u hu => ?_, fun hl => ?_⟩⟩
  · rwa [update_unit] at hL
  · rcases List.mem_append.1 hu with hu | hu
    · exact hg.waiting_pc u hu
    · obtain rfl := List.mem_singleton.1 hu
      simp [MutexState.goto]
  · rcases List.mem_append.1 hu' with hu' | hu'
    · exact hg.taken_off u hu hu'
    · obtain rfl := List.mem_singleton.1 hu'
      exact htaken hu
  · rw [hq]
    exact hg.taken_scheduled u hu
  · rcases hok with hlocked | ⟨v, hv⟩ | hv
    · exact absurd (hlocked.symm.trans hl) (by simp)
    · have hvt : v ≠ t := by
        intro heq
        rw [heq, hpc] at hv
        cases hv
      exact .inl ⟨v, by simpa [MutexState.goto, hvt] using hv⟩
    · exact .inr (.inr hv)

end

lemma take (h : MutexInv s (u :: ws)) : ∃ th, s.threads.takeNext () = some (th, some u) ∧ Lists th (fun _ => ws) ∧
      th.queue = s.threads.queue ∧ (s.pc u = .parking ∨ s.pc u = .parked) ∧
      (∀ v, update s.taken u true v = true → v ∉ ws) ∧
      ∀ v, update s.taken u true v = true → v = u ∨ s.taken v = true := by
  obtain ⟨th, hth, hL, hq, -, -⟩ := h.lists.takeFirst_cons rfl
  have hcases : ∀ v, update s.taken u true v = true → v = u ∨ s.taken v = true := by
    intro v hv
    by_cases hvu : v = u
    · exact .inl hvu
    · exact .inr (by simpa [hvu] using hv)
  refine ⟨th, (h.lists.takeNext_eq ()).trans (congrArg some hth), hL, hq,
    h.waiting_pc u (by simp), fun v hv => ?_, hcases⟩
  rcases hcases v hv with rfl | hv
  · exact (List.nodup_cons.1 (h.lists.nodup ())).1
  · exact fun hmem => h.taken_off v hv (by simp [hmem])

lemma takeNext_none (h : MutexInv s []) : s.threads.takeNext () = some (s.threads, none) :=
  (h.lists.takeNext_eq ()).trans (congrArg some (h.lists.takeFirst_nil rfl))

lemma takeNext_nil (h : MutexInv s []) (hpc : s.pc t = .releasing) : MutexInv (s.goto t .idle) [] := by
  refine ⟨h.lists, by simp, fun v hv => ?_, by simp, fun v hv => ?_, fun _ => .inr (.inl rfl)⟩
  · have hvt : v ≠ t := by
      intro heq
      exact h.not_taken_of_pc (by simp [hpc]) (by simp [hpc]) (by simp [hpc]) (heq ▸ hv)
    simpa [MutexState.goto, hvt] using h.taken_pc v hv
  · rcases h.taken_scheduled v hv with hq | ⟨x, hx⟩
    · exact .inl hq
    · have hxt : x ≠ t := by
        intro heq
        rw [heq, hpc] at hx
        cases hx
      exact .inr ⟨x, by simpa [MutexState.goto, hxt] using hx⟩

lemma takeNext_cons (h : MutexInv s (u :: ws)) (hpc : s.pc t = .releasing) :
    ∃ th, s.threads.takeNext () = some (th, some u) ∧ MutexInv { s.goto t (.scheduling u) with
        threads := th, taken := update s.taken u true } ws := by
  obtain ⟨th, hth, hL, hq, hu, hoff, hcases⟩ := h.take
  have hpcs : ∀ v, s.pc v ≠ .releasing → (s.goto t (.scheduling u)).pc v = s.pc v := by
    intro v hv
    have hvt : v ≠ t := fun heq => hv (heq ▸ hpc)
    simp [MutexState.goto, hvt]
  refine ⟨th, hth, ⟨hL, fun v hv => ?_, fun v hv => ?_, hoff, fun v hv => ?_, fun _ => .inr (.inr ⟨u, by simp⟩)⟩⟩
  · have hv := h.waiting_pc v (by simp [hv])
    rwa [hpcs v (by rcases hv with hv | hv <;> simp [hv])]
  · have hv : s.pc v = .parking ∨ s.pc v = .parked ∨ s.pc v = .trying := by
      rcases hcases v hv with rfl | hv
      · exact hu.imp id Or.inl
      · exact h.taken_pc v hv
    rwa [hpcs v (by rcases hv with hv | hv | hv <;> simp [hv])]
  · rcases hcases v hv with rfl | hv
    · exact .inr ⟨t, by simp [MutexState.goto]⟩
    · rw [hq]
      rcases h.taken_scheduled v hv with hv | ⟨x, hx⟩
      · exact .inl hv
      · exact .inr ⟨x, (hpcs x (by simp [hx])).trans hx⟩

lemma schedule (h : MutexInv s ws) (hpc : s.pc t = .scheduling u) :
    MutexInv { s.goto t .idle with threads := s.threads.schedule u } ws := by
  have hpcs : ∀ v, s.pc v ≠ .scheduling u → (s.goto t .idle).pc v = s.pc v := by
    intro v hv
    have hvt : v ≠ t := fun heq => hv (heq ▸ hpc)
    simp [MutexState.goto, hvt]
  refine ⟨h.lists.schedule u, fun v hv => ?_, fun v hv => ?_, h.taken_off, fun v hv => ?_, fun hl => ?_⟩
  · have hv := h.waiting_pc v hv
    rwa [hpcs v (by rcases hv with hv | hv <;> simp [hv])]
  · have hv := h.taken_pc v hv
    rwa [hpcs v (by rcases hv with hv | hv | hv <;> simp [hv])]
  · rcases h.taken_scheduled v hv with hv | ⟨x, hx⟩
    · exact .inl (by simp [Threads.schedule, hv])
    · by_cases hvu : v = u
      · exact .inl (by simp [Threads.schedule, hvu])
      · exact .inr ⟨x, (hpcs x (by simp [hx, hvu])).trans hx⟩
  · rcases h.awake hl with ⟨x, hx⟩ | hws
    · exact .inl ⟨x, (hpcs x (by simp [hx])).trans hx⟩
    · exact .inr hws

lemma irqRelease (h : MutexInv s ws) : ∃ r ws', s.threads.takeNext () = some r ∧ MutexInv { s with
        threads := Threads.scheduleTaken r, locked := false, taken := s.mark r.2 } ws' := by
  match ws, h with
  | [], h =>
    exact ⟨_, [], h.takeNext_none, ⟨h.lists, h.waiting_pc, h.taken_pc, h.taken_off,
      h.taken_scheduled, fun _ => .inr (.inl rfl)⟩⟩
  | u :: ws, h =>
    obtain ⟨th, hth, hL, hq, hu, hoff, hcases⟩ := h.take
    refine ⟨_, ws, hth, ⟨hL.schedule u, fun v hv => h.waiting_pc v (by simp [hv]), fun v hv => ?_,
      hoff, fun v hv => ?_, fun _ => .inr (.inr ⟨u, by simp [mark]⟩)⟩⟩
    · rcases hcases v hv with rfl | hv
      · exact hu.imp id Or.inl
      · exact h.taken_pc v hv
    · show v ∈ (th.schedule u).queue ∨ _
      rw [Threads.schedule, hq]
      rcases hcases v hv with rfl | hv
      · exact .inl (by simp)
      · exact (h.taken_scheduled v hv).imp (fun hv => by simp [hv]) id

lemma step (h : MutexInv s ws) {a : MutexAct T} (hok : s.EnqueuesInTime a)
    (hs : s.step a = some s') : ∃ ws', MutexInv s' ws' := by
  cases a with simp only [MutexState.step] at hs
  | lock t =>
    split_ifs at hs with hpc
    cases hs
    exact ⟨ws, h.goto (by simp [hpc]) (by simp [hpc])
      (fun ht => absurd ht (h.notMem_of_pc (by simp [hpc]) (by simp [hpc]))) (by simp)⟩
  | xchg t =>
    split_ifs at hs with hpc
    · cases hs
      exact ⟨ws, h.xchg hpc⟩
    · cases hs
      exact ⟨ws, h.xchg hpc⟩
  | tryLock t =>
    split_ifs at hs with hpc
    cases hs
    exact ⟨ws, h.lock⟩
  | enqueue t =>
    split_ifs at hs with hpc
    obtain ⟨th, hth, h'⟩ := h.enqueue hpc hok
    rw [hth, map_some] at hs
    cases hs
    exact ⟨_, h'⟩
  | exit t =>
    split_ifs at hs with hpc
    cases hs
    exact ⟨ws, h.goto (by simp [hpc]) (by simp [hpc]) (by simp) (by simp)⟩
  | resume t =>
    split_ifs at hs with hpc
    cases hs
    refine ⟨ws, h.goto (by simp [hpc]) (by simp [hpc]) (fun ht => ?_) (by simp)⟩
    have hblocked := h.lists.blocking () t ht
    rw [show s.threads.blocking t = false from hok] at hblocked
    cases hblocked
  | release t =>
    split_ifs at hs with hpc
    cases hs
    have hws := h.notMem_of_pc (t := t) (by simp [hpc]) (by simp [hpc])
    have htaken := h.not_taken_of_pc (t := t) (by simp [hpc]) (by simp [hpc]) (by simp [hpc])
    have hg : MutexInv (s.goto t .releasing) ws :=
      h.goto (by simp [hpc]) (by simp [hpc]) (fun ht => absurd ht hws) fun ht => absurd ht htaken
    exact ⟨ws, hg.unlock (t := t) (by simp [MutexState.goto])⟩
  | takeNext t =>
    split_ifs at hs with hpc
    match ws, h with
    | [], h =>
      rw [h.takeNext_none, map_some] at hs
      cases hs
      exact ⟨[], h.takeNext_nil hpc⟩
    | u :: ws, h =>
      obtain ⟨th, hth, h'⟩ := h.takeNext_cons hpc
      rw [hth, map_some] at hs
      cases hs
      exact ⟨ws, h'⟩
  | schedule t =>
    split at hs
    · rename_i u hpc
      cases hs
      exact ⟨ws, h.schedule hpc⟩
    · cases hs
  | irqRelease =>
    obtain ⟨r, ws', hr, h'⟩ := h.irqRelease
    simp only [hr] at hs
    cases hs
    exact ⟨ws', h'⟩

lemma wakes (h : MutexInv s ws) : s.Wakes := by
  intro hfree hquiet
  rw [h.lists.waitingOn ()]
  rcases h.awake hfree with ⟨u, hu⟩ | hws | ⟨u, hu⟩
  · exact absurd hu (hquiet u).2.1
  · exact .inl hws
  · refine .inr ⟨u, hu, ?_, h.taken_off u hu, h.taken_pc u hu⟩
    rcases h.taken_scheduled u hu with hq | ⟨v, hv⟩
    · exact hq
    · exact absurd hv ((hquiet v).2.2 u)

end MutexInv

/-- No wake-up is lost in a run in which every thread enqueues in time. -/
theorem mutex_wakes {s : MutexState T} (hs : Reaches step MutexState.EnqueuesInTime init s) : s.Wakes := by
  obtain ⟨ws, h⟩ : ∃ ws, MutexInv s ws := by
    refine hs.invariant (I := fun s => ∃ ws, MutexInv s ws) ⟨[], .init⟩ ?_
    intro s a s' h hok hstep
    obtain ⟨ws, h⟩ := h
    exact h.step hok hstep
  exact h.wakes

theorem mutex_wakes_contended : ∃ s : MutexState (Fin 3),
    (s.locked = false ∧ s.threads.waitingOn () = [2] ∧ s.taken 1 = true) ∧ s.Wakes := by
  obtain ⟨s, hs, hstate⟩ : ∃ s : MutexState (Fin 3), Reaches step MutexState.EnqueuesInTime init s ∧
      s.locked = false ∧ s.threads.waitingOn () = [2] ∧ s.taken 1 = true :=
    exists_of_run [.lock 0, .xchg 0, .lock 1, .xchg 1, .lock 2, .xchg 2, .enqueue 1, .enqueue 2,
      .exit 2, .irqRelease, .exit 1] (by decide)
  exact ⟨s, hstate, mutex_wakes hs⟩

/-- The first thread releases the mutex after the second has found it locked, and the second then
waits for it. -/
theorem mutex_wake_lost : ∃ s : MutexState (Fin 2), Reaches step Any init s ∧ ¬ s.Wakes :=
  exists_of_run [.lock 0, .xchg 0, .lock 1, .xchg 1, .release 0, .takeNext 0, .enqueue 1, .exit 1] (by decide)

end OlliOS
