import OlliOS.Semaphore

/-!
# The units of a semaphore

While threads wait, every unit of the count has a thread that was unblocked for it and has not tried again
(`SemaphoreInv.awake`).
-/

namespace OlliOS

open Function Stepping Option SemaphoreState Finset Threads

variable {T : Type*} [DecidableEq T] [Fintype T]

structure SemaphoreInv (n : UInt32) (s : SemaphoreState T) : Prop where
  woken_clear : ∀ t, s.woken t = true → s.threads.blocking t = false
  awake : s.threads.waiting () ≠ none → s.count.toNat ≤ s.wokenCount
  acquired : s.acquired ≤ n.toNat + s.releases
  count : s.count.toNat = (n.toNat + s.releases - s.acquired) % 2 ^ 32

namespace Threads

variable {L : Type*} [DecidableEq L] {s s' : Threads T L} {l : L} {t : T}

lemma addBlockedThread_blocking (h : s.addBlockedThread l t = some s') : s'.blocking = update s.blocking t true := by
  unfold addBlockedThread at h
  split at h
  · cases h
    rfl
  · obtain ⟨last, -, rfl⟩ := map_eq_some_iff.1 h
    rfl

lemma skipUnblocked_cases : ∀ {fuel : ℕ} {s : Threads T L}, skipUnblocked fuel s l = some s' →
    (s'.waiting l = none ∧ s'.blocking = s.blocking) ∨
      ∃ t, s.waiting l ≠ none ∧ s'.waiting l = some t ∧ s.blocking t = true ∧ s'.blocking = update s.blocking t false
  | 0, s, h => by simp [skipUnblocked] at h
  | fuel + 1, s, h => by
    unfold skipUnblocked at h
    split at h
    case h_1 hw =>
      cases h
      exact .inl ⟨hw, rfl⟩
    case h_2 t hw =>
      split_ifs at h with hb
      · cases h
        exact .inr ⟨t, by simp [hw], hw, hb, rfl⟩
      · rcases skipUnblocked_cases h with hend | ⟨u, -, hu⟩
        · exact .inl hend
        · exact .inr ⟨u, by simp [hw], hu⟩

lemma takeNext_cases {r : Threads T L × Option T} (h : s.takeNext l = some r) :
    (r.2 = none ∧ r.1.waiting l = none ∧ r.1.blocking = s.blocking) ∨
      ∃ t, r.2 = some t ∧ s.waiting l ≠ none ∧ s.blocking t = true ∧ r.1.blocking = update s.blocking t false := by
  obtain ⟨s', hs', rfl⟩ := map_eq_some_iff.1 h
  rcases skipUnblocked_cases hs' with ⟨hw, hb⟩ | ⟨t, hne, hw, ht, hb⟩
  · refine .inl ?_
    unfold unlinkFirst
    rw [hw]
    exact ⟨rfl, hw, hb⟩
  · refine .inr ⟨t, ?_⟩
    rw [unlinkFirst_of_some hw]
    exact ⟨rfl, hne, ht, hb⟩

end Threads

section Count

variable {w : T → Bool} {t : T}

lemma card_update_true (ht : w t = false) : (univ.filter fun u => update w t true u = true).card =
      (univ.filter fun u => w u = true).card + 1 := by
  have hins : (univ.filter fun u => update w t true u = true) = insert t (univ.filter fun u => w u = true) := by
    ext u
    by_cases hut : u = t
    · simp [hut]
    · simp [hut]
  rw [hins, card_insert_of_notMem (by simp [ht])]

lemma card_update_false : (univ.filter fun u => w u = true).card - 1 ≤
      (univ.filter fun u => update w t false u = true).card := by
  have herase : (univ.filter fun u => update w t false u = true) = (univ.filter fun u => w u = true).erase t := by
    ext u
    by_cases hut : u = t
    · simp [hut]
    · simp [hut]
  rw [herase]
  exact pred_card_le_card_erase

end Count

namespace SemaphoreInv

variable {n : UInt32} {s s' : SemaphoreState T} {t u : T}

lemma init (n : UInt32) : SemaphoreInv n (init n : SemaphoreState T) := by
  have hn := n.toNat_lt
  refine ⟨fun t ht => ?_, fun hne => absurd rfl hne, Nat.zero_le _, ?_⟩
  · exact absurd ht (by simp [SemaphoreState.init])
  · show n.toNat = (n.toNat + 0 - 0) % 2 ^ 32
    omega

section

variable (h : SemaphoreInv n s)

include h

lemma goto (t : T) (p : SemaphorePc) : SemaphoreInv n { s with pc := update s.pc t p } :=
  ⟨h.woken_clear, h.awake, h.acquired, h.count⟩

omit h in
lemma decrement_toNat (hpos : s.count > 0) : (s.count - 1).toNat = s.count.toNat - 1 := by
  have hpos : 0 < s.count.toNat := UInt32.lt_iff_toNat_lt.1 hpos
  exact UInt32.toNat_sub_of_le _ _ (UInt32.le_iff_toNat_le.2 (by show 1 ≤ _; omega))

lemma decrement (hpos : s.count > 0) : SemaphoreInv n s.decrement := by
  have hcount := h.count
  have hdec := decrement_toNat hpos
  have hpos : 0 < s.count.toNat := UInt32.lt_iff_toNat_lt.1 hpos
  refine ⟨h.woken_clear, fun hne => ?_, ?_, ?_⟩
  · have := h.awake hne
    show (s.count - 1).toNat ≤ s.wokenCount
    omega
  · show s.acquired + 1 ≤ n.toNat + s.releases
    omega
  · show (s.count - 1).toNat = (n.toNat + s.releases - (s.acquired + 1)) % 2 ^ 32
    omega

omit h in
lemma woken_of_update {v : T} (hv : update s.woken t false v = true) : v ≠ t ∧ s.woken v = true := by
  have hvt : v ≠ t := by
    intro heq
    simp [heq] at hv
  exact ⟨hvt, by simpa [hvt] using hv⟩

lemma acquire_some (hpos : s.count > 0) : SemaphoreInv n { s.decrement with
      pc := update s.pc t .idle
      woken := update s.woken t false } := by
  have hdec := decrement_toNat hpos
  have h' := h.decrement hpos
  refine ⟨fun v hv => h.woken_clear v (woken_of_update hv).2, fun hne => ?_, h'.acquired, h'.count⟩
  have hle := h.awake hne
  have hcard := card_update_false (w := s.woken) (t := t)
  show (s.count - 1).toNat ≤ _
  rw [hdec]
  exact (Nat.sub_le_sub_right hle 1).trans hcard

lemma acquire_none (h0 : ¬ s.count > 0) {th : Threads T Unit} (hth : s.threads.addBlockedThread () t = some th) :
    SemaphoreInv n { s with
      threads := th
      pc := update s.pc t .parking
      woken := update s.woken t false } := by
  have hzero : s.count.toNat = 0 := by
    have hlt : ¬ 0 < s.count.toNat := fun hlt => h0 (UInt32.lt_iff_toNat_lt.2 hlt)
    omega
  refine ⟨fun v hv => ?_, fun _ => ?_, h.acquired, h.count⟩
  · obtain ⟨hvt, hv⟩ := woken_of_update hv
    rw [addBlockedThread_blocking hth, update_of_ne hvt]
    exact h.woken_clear v hv
  · show s.count.toNat ≤ _
    omega

omit h in
lemma increment_toNat (c : UInt32) : (c + 1).toNat = (c.toNat + 1) % 2 ^ 32 := UInt32.toNat_add c 1

lemma count_succ : (s.count + 1).toNat = (n.toNat + (s.releases + 1) - s.acquired) % 2 ^ 32 := by
  have hcount := h.count
  have hacq := h.acquired
  rw [increment_toNat]
  omega

lemma release (hs : s.release = some s') : SemaphoreInv n s' := by
  obtain ⟨r, hr, rfl⟩ := map_eq_some_iff.1 hs
  have hacq : s.acquired ≤ n.toNat + (s.releases + 1) := h.acquired.trans (by omega)
  have hsched : (scheduleTaken r).blocking = r.1.blocking ∧ (scheduleTaken r).waiting = r.1.waiting := by
    unfold scheduleTaken
    split <;> exact ⟨rfl, rfl⟩
  rcases takeNext_cases hr with ⟨hnone, hw, hb⟩ | ⟨u, hu, hne, hblocked, hb⟩
  · refine ⟨fun v hv => ?_, fun hne => absurd ?_ hne, hacq, h.count_succ⟩
    · rw [hsched.1, hb]
      simp only [hnone] at hv
      exact h.woken_clear v hv
    · rw [hsched.2, hw]
  · -- a thread whose flag is set is not one of those that were unblocked before
    have hwoken : s.woken u = false := by
      by_contra hw
      have := h.woken_clear u (by simpa using hw)
      simp [hblocked] at this
    refine ⟨fun v hv => ?_, fun _ => ?_, hacq, h.count_succ⟩
    · rw [hsched.1, hb]
      simp only [hu] at hv
      by_cases hvu : v = u
      · simp [hvu]
      · simp only [update_of_ne hvu] at hv ⊢
        exact h.woken_clear v hv
    · simp only [hu, wokenCount]
      rw [increment_toNat, card_update_true hwoken]
      exact (Nat.mod_le _ _).trans (Nat.add_le_add_right (h.awake hne) 1)

end

lemma step (h : SemaphoreInv n s) {a : SemaphoreAct T} (hs : s.step a = some s') : SemaphoreInv n s' := by
  cases a with simp only [SemaphoreState.step] at hs
  | lock t =>
    split_ifs at hs
    cases hs
    exact h.goto t .trying
  | acquire t =>
    simp only [acquire] at hs
    split_ifs at hs with hpc hpos
    · cases hs
      exact h.acquire_some hpos
    · obtain ⟨th, hth, rfl⟩ := map_eq_some_iff.1 hs
      exact h.acquire_none hpos hth
  | exit t =>
    split_ifs at hs
    cases hs
    exact h.goto t .parked
  | resume t =>
    split_ifs at hs
    cases hs
    exact h.goto t .trying
  | tryLock =>
    cases hs
    split_ifs with hpos
    · exact h.decrement hpos
    · exact h
  | release => exact h.release hs

lemma of_reaches (hs : Reaches SemaphoreState.step Any (SemaphoreState.init n) s) : SemaphoreInv n s :=
  hs.invariant (init n) fun _ _ _ h _ hstep => h.step hstep

end SemaphoreInv

/-- No more units are taken than there are, the count is what is left of them modulo 2^32, and while
threads wait each unit of the count has a thread that was unblocked and has not tried again. -/
structure SemaphoreSafe (n : UInt32) (s : SemaphoreState T) : Prop where
  acquired : s.acquired ≤ n.toNat + s.releases
  count : s.count.toNat = (n.toNat + s.releases - s.acquired) % 2 ^ 32
  awake : s.threads.waiting () ≠ none → s.count.toNat ≤ s.wokenCount

theorem semaphore_conserved {n : UInt32} {s : SemaphoreState T}
    (hs : Reaches SemaphoreState.step Any (SemaphoreState.init n) s) : SemaphoreSafe n s := by
  have h := SemaphoreInv.of_reaches hs
  exact ⟨h.acquired, h.count, h.awake⟩

/-- A unit is stolen from the thread that was unblocked for it, which waits again. -/
theorem semaphore_conserved_stolen : ∃ s : SemaphoreState (Fin 3),
    (s.count = 0 ∧ s.threads.waitingOn () = [2, 1] ∧ s.acquired = 2) ∧ SemaphoreSafe 1 s := by
  obtain ⟨s, hs, hstate⟩ : ∃ s : SemaphoreState (Fin 3), Reaches step Any (init 1) s ∧
      s.count = 0 ∧ s.threads.waitingOn () = [2, 1] ∧ s.acquired = 2 :=
    exists_of_run [.lock 0, .acquire 0, .lock 1, .acquire 1, .exit 1, .lock 2, .acquire 2, .exit 2,
      .release, .tryLock, .resume 1, .acquire 1] (by decide)
  exact ⟨s, hstate, semaphore_conserved hs⟩

lemma releases_reached (n : UInt32) : ∀ k : ℕ, ∃ s : SemaphoreState (Fin 1),
    Reaches step Any (init n) s ∧ s.releases = k ∧ s.acquired = 0 ∧ s.threads.waiting () = none
  | 0 => ⟨init n, .refl _, rfl, rfl, rfl⟩
  | k + 1 => by
    obtain ⟨s, hs, hk, hacq, hw⟩ := releases_reached n k
    have htake : s.threads.takeNext () = some (s.threads, none) := by
      simp [takeNext, skipUnblocked, unlinkFirst, hw]
    have hrel : s.step .release = some { s with
        count := s.count + 1
        releases := s.releases + 1 } := by
      show s.release = _
      rw [release, htake]
      rfl
    exact ⟨_, hs.tail trivial hrel, congrArg (· + 1) hk, hacq, hw⟩

/-- After 2^32 calls of `release` the count is back at 0. -/
theorem semaphore_count_wraps : ∃ s : SemaphoreState (Fin 1), Reaches step Any (init 0) s ∧
      s.count.toNat ≠ (0 : UInt32).toNat + s.releases - s.acquired := by
  obtain ⟨s, hs, hk, hacq, -⟩ := releases_reached 0 (2 ^ 32)
  refine ⟨s, hs, ?_⟩
  rw [(SemaphoreInv.of_reaches hs).count, hk, hacq]
  omega

end OlliOS
