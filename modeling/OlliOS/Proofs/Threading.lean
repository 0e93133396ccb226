import OlliOS.Proofs.WaitingList

/-!
# Every thread is in one place

`Placed s loc` says that the run queue and the waiting lists hold what `loc` says. `loc` being a
function, no thread is in two of these places or twice in one.
-/

set_option linter.unusedSectionVars false

namespace OlliOS

/-- Where a thread is: in the run queue, on a waiting list, or at some other place. -/
inductive Place (L X : Type*)
  | queue
  | list (l : L)
  | other (x : X)
  deriving DecidableEq

variable {T L X : Type*} [DecidableEq T] [DecidableEq L]

/-- The run queue and the waiting lists hold the threads `loc` puts there, each once; a thread on
a waiting list is marked blocking and one in the queue is not. -/
structure Placed (s : Threads T L) (loc : T → Place L X) : Prop where
  queue_nodup : s.queue.Nodup
  mem_queue : ∀ t, t ∈ s.queue ↔ loc t = .queue
  chain : ∀ l, ∃ xs, Links.Chain s.nextWaiting (s.waiting l) xs ∧ xs.Nodup ∧ ∀ t, t ∈ xs ↔ loc t = .list l
  next_none : ∀ t, (∀ l, loc t ≠ .list l) → s.nextWaiting t = none
  queue_awake : ∀ t, loc t = .queue → s.blocking t = false
  list_blocking : ∀ t l, loc t = .list l → s.blocking t = true

def woken (loc : T → Place L X) (ts : List T) (u : T) : Place L X :=
  if u ∈ ts then .queue else loc u

@[simp] lemma woken_nil (loc : T → Place L X) : woken loc [] = loc := by
  funext u
  simp [woken]

lemma woken_cons (loc : T → Place L X) (t : T) (ts : List T) :
    woken (Function.update loc t .queue) ts = woken loc (t :: ts) := by
  funext u
  by_cases hut : u = t
  · subst hut; simp [woken]
  · simp [woken, hut]

namespace Placed

variable {s : Threads T L} {loc : T → Place L X} {t : T} {l : L}

lemma empty (x : X) : Placed (Threads.empty : Threads T L) (fun _ => .other x) where
  queue_nodup := List.nodup_nil
  mem_queue := by simp [Threads.empty]
  chain := fun l => ⟨[], rfl, List.nodup_nil, by simp⟩
  next_none := fun _ _ => rfl
  queue_awake := by simp
  list_blocking := by simp

section

variable (h : Placed s loc) {x : X}

include h

lemma update {p : Place L X} (hold : ∀ l, loc t ≠ .list l)
    (hnew : ∀ l, p ≠ .list l) {queue : List T} (hnd : queue.Nodup)
    (hmem : ∀ u, u ∈ queue ↔ Function.update loc t p u = .queue)
    (hb : p = .queue → s.blocking t = false) :
    Placed { s with queue := queue } (Function.update loc t p) := by
  have hlist : ∀ u l, Function.update loc t p u = .list l ↔ loc u = .list l := by
    intro u l
    by_cases hu : u = t
    · subst hu; simp [hold l, hnew l]
    · simp [hu]
  refine ⟨hnd, hmem, fun l => ?_, fun u hu => h.next_none u fun l => mt (hlist u l).2 (hu l),
    fun u hu => ?_, fun u l hu => h.list_blocking u l ((hlist u l).1 hu)⟩
  · obtain ⟨xs, hc, hxs, hm⟩ := h.chain l
    exact ⟨xs, hc, hxs, fun u => (hm u).trans (hlist u l).symm⟩
  · by_cases hut : u = t
    · subst hut
      exact hb (by simpa using hu)
    · exact h.queue_awake u (by simpa [hut] using hu)

lemma move {y : X} (hx : loc t = .other x) : Placed s (Function.update loc t (.other y)) := by
  refine h.update (by simp [hx]) (by simp) h.queue_nodup (fun u => ?_) (by simp)
  rw [h.mem_queue]
  by_cases hu : u = t
  · subst hu; simp [hx]
  · simp [hu]

lemma setBlocking (hx : loc t = .other x) (b : Bool) : Placed (s.setBlocking t b) loc where
  queue_nodup := h.queue_nodup
  mem_queue := h.mem_queue
  chain := h.chain
  next_none := h.next_none
  queue_awake := fun u hu => by
    have hut : u ≠ t := by rintro rfl; simp [hx] at hu
    simpa [Threads.setBlocking, hut] using h.queue_awake u hu
  list_blocking := fun u l hu => by
    have hut : u ≠ t := by rintro rfl; simp [hx] at hu
    simpa [Threads.setBlocking, hut] using h.list_blocking u l hu

lemma kill (t : T) : Placed (s.kill t) loc :=
  ⟨h.queue_nodup, h.mem_queue, h.chain, h.next_none, h.queue_awake, h.list_blocking⟩

lemma schedule (hx : loc t = .other x) (hb : s.blocking t = false) :
    Placed (s.schedule t) (Function.update loc t .queue) := by
  have hq : t ∉ s.queue := by rw [h.mem_queue, hx]; simp
  have hnd := h.queue_nodup.append (List.nodup_singleton t) (by simpa using hq)
  refine h.update (by simp [hx]) (by simp) hnd (fun u => ?_) fun _ => hb
  by_cases hu : u = t
  · subst hu; simp
  · simp [hu, h.mem_queue]

lemma dequeue (ht : loc t = .queue) (x : X) :
    Placed { s with queue := s.queue.erase t } (Function.update loc t (.other x)) := by
  refine h.update (by simp [ht]) (by simp) (h.queue_nodup.erase t) (fun u => ?_) (by simp)
  rw [h.queue_nodup.mem_erase_iff, h.mem_queue]
  by_cases hu : u = t
  · subst hu; simp
  · simp [hu]

lemma pop {ts : List T} (hq : s.queue = t :: ts) (x : X) :
    Placed { s with queue := ts } (Function.update loc t (.other x)) := by
  have ht : loc t = .queue := by rw [← h.mem_queue, hq]; simp
  have hpop := h.dequeue ht x
  rwa [hq, List.erase_cons_head] at hpop

end

section Waiting

variable [Fintype T]

variable (h : Placed s loc) {ts : List T}

include h

lemma waitingOn (l : L) : Links.Chain s.nextWaiting (s.waiting l) (s.waitingOn l) ∧ (s.waitingOn l).Nodup ∧
      ∀ t, t ∈ s.waitingOn l ↔ loc t = .list l := by
  obtain ⟨xs, hc, hnd, hm⟩ := h.chain l
  have hw : s.waitingOn l = xs := hc.walk hnd.length_le_card
  rw [hw]
  exact ⟨hc, hnd, hm⟩

lemma lists : Lists s s.waitingOn where
  chain l := (h.waitingOn l).1
  nodup l := (h.waitingOn l).2.1
  apart l l' t ht ht' := by
    have heq := (((h.waitingOn l).2.2 t).1 ht).symm.trans (((h.waitingOn l').2.2 t).1 ht')
    simpa using heq
  next_none t ht := h.next_none t fun l hl => ht l (((h.waitingOn l).2.2 t).2 hl)
  blocking l t ht := h.list_blocking t l (((h.waitingOn l).2.2 t).1 ht)

lemma relist {s' : Threads T L} {p : Place L X} {ys : List T}
    (hL : Lists s' (Function.update s.waitingOn l ys)) (hq : s'.queue = s.queue)
    (hb : ∀ u, u ≠ t → s'.blocking u = s.blocking u)
    (hys : ∀ u, u ∈ ys ↔ Function.update loc t p u = .list l)
    (ht : ∀ q : Place L X, q = loc t ∨ q = p → q ≠ .queue ∧ ∀ l', l' ≠ l → q ≠ .list l') :
    Placed s' (Function.update loc t p) := by
  obtain ⟨hold, hold'⟩ := ht _ (.inl rfl)
  obtain ⟨hnew, hnew'⟩ := ht _ (.inr rfl)
  have hmem : ∀ l' u, u ∈ Function.update s.waitingOn l ys l' ↔ Function.update loc t p u = .list l' := by
    intro l' u
    by_cases hl : l' = l
    · subst hl
      simpa using hys u
    · rw [Function.update_of_ne hl, (h.waitingOn l').2.2]
      by_cases hut : u = t
      · subst hut; simp [hold' l' hl, hnew' l' hl]
      · simp [hut]
  refine ⟨hq ▸ h.queue_nodup, fun u => ?_, fun l' => ⟨_, hL.chain l', hL.nodup l', hmem l'⟩,
    fun u hu => hL.next_none u fun l' hl' => hu l' ((hmem l' u).1 hl'), fun u hu => ?_,
    fun u l' hu => hL.blocking l' u ((hmem l' u).2 hu)⟩
  · rw [hq, h.mem_queue]
    by_cases hut : u = t
    · subst hut; simp [hold, hnew]
    · simp [hut]
  · have hut : u ≠ t := by rintro rfl; simp [hnew] at hu
    rw [hb u hut]
    exact h.queue_awake u (by simpa [hut] using hu)

lemma addBlockedThread {x : X} (hx : loc t = .other x) (l : L) :
    ∃ s', s.addBlockedThread l t = some s' ∧ Placed s' (Function.update loc t (.list l)) ∧
      s'.waitingOn l = s.waitingOn l ++ [t] ∧ s'.queue = s.queue ∧ s'.finished = s.finished ∧
      s'.blocking = Function.update s.blocking t true := by
  have ht : ∀ l', t ∉ s.waitingOn l' := fun l' => by simp [(h.waitingOn l').2.2, hx]
  obtain ⟨s', hs, hL, hq, hf, hb⟩ := h.lists.addBlockedThread ht l
  refine ⟨s', hs, h.relist hL hq (fun u hu => by simp [hb, hu]) (fun u => ?_) ?_, ?_, hq, hf, hb⟩
  · by_cases hut : u = t
    · subst hut; simp
    · simp [hut, (h.waitingOn l).2.2]
  · rintro q (rfl | rfl)
    · simp [hx]
    · simpa using fun l' hl => Ne.symm hl
  · rw [hL.waitingOn, Function.update_self]

section

variable (hw : s.waitingOn l = t :: ts)

include hw

lemma blocking_of_waitingOn : loc t = .list l ∧ s.blocking t = true := by
  have ht : loc t = .list l := ((h.waitingOn l).2.2 t).1 (by simp [hw])
  exact ⟨ht, h.list_blocking t l ht⟩

lemma takeFirst_cons (x : X) :
    ∃ s', s.takeFirst l = (s', some t) ∧ Placed s' (Function.update loc t (.other x)) ∧
      s'.waitingOn l = ts ∧ s'.queue = s.queue ∧ s'.finished = s.finished ∧
      s'.blocking = Function.update s.blocking t false := by
  obtain ⟨-, hnd, hm⟩ := h.waitingOn l
  rw [hw] at hnd hm
  obtain ⟨s', hs, hL, hq, hf, hb⟩ := h.lists.takeFirst_cons hw
  refine ⟨s', hs, h.relist hL hq (fun u hu => by simp [hb, hu]) (fun u => ?_) ?_, ?_, hq, hf, hb⟩
  · have := hm u
    by_cases hut : u = t
    · subst hut; simpa using (List.nodup_cons.1 hnd).1
    · simpa [hut] using this
  · rintro q (rfl | rfl)
    · simpa [(hm t).1 (by simp)] using fun l' hl => Ne.symm hl
    · simp
  · rw [hL.waitingOn, Function.update_self]

lemma takeFirst_schedule (x : X) :
    ∃ s', Threads.scheduleTaken (s.takeFirst l) = s' ∧ (s.takeFirst l).2 = some t ∧
      Placed s' (Function.update loc t .queue) ∧ s'.waitingOn l = ts ∧
      s'.queue = s.queue ++ [t] ∧ s'.finished = s.finished ∧
      s'.blocking = Function.update s.blocking t false := by
  obtain ⟨s', hs, hP, hts, hq, hf, hb⟩ := h.takeFirst_cons hw x
  have hP' := hP.schedule (t := t) (x := x) (by simp) (by simp [hb])
  rw [Function.update_idem] at hP'
  exact ⟨s'.schedule t, by rw [hs]; rfl, by rw [hs], hP', hts, by simp [Threads.schedule, hq], hf, hb⟩

end

omit h in
lemma unblockAllLoop (x : X) : ∀ (ts : List T) (fuel : ℕ) (s : Threads T L)
    (loc : T → Place L X), Placed s loc → s.waitingOn l = ts → ts.length < fuel →
    ∃ s', Threads.unblockAllLoop fuel s l = some s' ∧ Placed s' (woken loc ts) ∧
      s'.waitingOn l = [] ∧ s'.queue = s.queue ++ ts ∧ s'.finished = s.finished ∧
      ∀ u, s'.blocking u = if u ∈ ts then false else s.blocking u
  | _, 0, _, _, _, _, hlen => by simp at hlen
  | [], fuel + 1, s, loc, h, hw, _ => by
    refine ⟨s, ?_, by simpa using h, hw, by simp, rfl, by simp⟩
    simp [Threads.unblockAllLoop, h.lists.takeFirst_nil hw]
  | t :: ts, fuel + 1, s, loc, h, hw, hlen => by
    obtain ⟨s1, hs, ht, hP, hts, hq, hf, hb⟩ := h.takeFirst_schedule hw x
    obtain ⟨s', hs', hP', hw', hq', hf', hb'⟩ := unblockAllLoop x ts fuel s1 _ hP hts (by simpa using hlen)
    refine ⟨s', ?_, ?_, hw', by simp [hq', hq], hf'.trans hf, fun u => ?_⟩
    · simp [Threads.unblockAllLoop, ht, hs, hs']
    · rwa [woken_cons] at hP'
    · rw [hb', hb]
      by_cases hut : u = t
      · subst hut; simp
      · simp [hut]

lemma unblockAllThreads (l : L) (x : X) :
    ∃ s', s.unblockAllThreads l = some s' ∧ Placed s' (woken loc (s.waitingOn l)) ∧
      s'.waitingOn l = [] ∧ s'.queue = s.queue ++ s.waitingOn l ∧ s'.finished = s.finished ∧
      ∀ u, s'.blocking u = if u ∈ s.waitingOn l then false else s.blocking u :=
  unblockAllLoop x (s.waitingOn l) _ s loc h rfl (Nat.lt_succ_of_le (h.waitingOn l).2.1.length_le_card)

lemma unblockNextThread (l : L) (x : X) : ∃ s', s.unblockNextThread l = some s' ∧
      Placed s' (woken loc (s.waitingOn l).head?.toList) ∧
      s'.queue = s.queue ++ (s.waitingOn l).head?.toList ∧ s'.finished = s.finished ∧
      ∀ u, s'.blocking u = if u ∈ (s.waitingOn l).head?.toList then false else s.blocking u := by
  rw [Threads.unblockNextThread, h.lists.takeNext_eq]
  rcases hw : s.waitingOn l with _ | ⟨t, ts⟩
  · refine ⟨s, ?_, by simpa using h, by simp, rfl, by simp⟩
    simp [h.lists.takeFirst_nil hw, Threads.scheduleTaken]
  obtain ⟨s', hs, -, hP, -, hq, hf, hb⟩ := h.takeFirst_schedule hw x
  refine ⟨s', by simp [hs], ?_, by simpa using hq, hf, fun u => ?_⟩
  · have hwk := woken_cons loc t []
    simpa [← hwk] using hP
  · by_cases hut : u = t
    · subst hut; simp [hb]
    · simp [hb, hut]

end Waiting

end Placed

end OlliOS
