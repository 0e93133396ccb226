import OlliOS.WaitingList

/-!
# Waiting lists are first-in first-out queues

`Lists s fifo` says that the links of the threads form the lists of `fifo`.
-/

namespace OlliOS

open Function Stepping List Option Threads WaitState

variable {T L : Type*} [DecidableEq T] [DecidableEq L]

structure Lists (s : Threads T L) (fifo : L → List T) : Prop where
  chain : ∀ l, Links.Chain s.nextWaiting (s.waiting l) (fifo l)
  nodup : ∀ l, (fifo l).Nodup
  apart : ∀ l l' t, t ∈ fifo l → t ∈ fifo l' → l = l'
  next_none : ∀ t, (∀ l, t ∉ fifo l) → s.nextWaiting t = none
  blocking : ∀ l, ∀ t ∈ fifo l, s.blocking t = true

lemma update_unit (ws ws' : List T) : update (fun _ : Unit => ws) () ws' = fun _ => ws' := by
  funext u
  simp

namespace Lists

variable {s s' : Threads T L} {fifo : L → List T} {l : L} {t : T} {ts : List T}

lemma relink (h : Lists s fifo) (hnd : ts.Nodup) (hc : Links.Chain s'.nextWaiting (s'.waiting l) ts)
    (hold : ∀ u ∈ ts, ∀ l', u ∈ fifo l' → l' = l)
    (hw : ∀ l', l' ≠ l → s'.waiting l' = s.waiting l')
    (hn : ∀ u, u ∉ fifo l → s'.nextWaiting u = s.nextWaiting u)
    (hoff : ∀ u ∈ fifo l, u ∉ ts → s'.nextWaiting u = none)
    (hon : ∀ u ∈ ts, s'.blocking u = true)
    (hb : ∀ l', l' ≠ l → ∀ u ∈ fifo l', s'.blocking u = s.blocking u) :
    Lists s' (update fifo l ts) := by
  refine ⟨fun l' => ?_, fun l' => ?_, fun l1 l2 u h1 h2 => ?_, fun u hu => ?_, fun l' u hu => ?_⟩
  · by_cases hl : l' = l
    · subst hl
      simpa using hc
    · rw [update_of_ne hl, hw l' hl]
      refine (h.chain l').congr fun u hu => hn u fun hul => ?_
      exact hl (h.apart l' l u hu hul)
  · by_cases hl : l' = l
    · subst hl
      simpa using hnd
    · simpa [hl] using h.nodup l'
  · by_cases hl1 : l1 = l
    · subst hl1
      by_cases hl2 : l2 = l1
      · exact hl2.symm
      · simp only [update_self, update_of_ne hl2] at h1 h2
        exact (hold u h1 l2 h2).symm
    · by_cases hl2 : l2 = l
      · subst hl2
        simp only [update_self, update_of_ne hl1] at h1 h2
        exact hold u h2 l1 h1
      · simp only [update_of_ne hl1, update_of_ne hl2] at h1 h2
        exact h.apart l1 l2 u h1 h2
  · have hts : u ∉ ts := by simpa using hu l
    by_cases hul : u ∈ fifo l
    · exact hoff u hul hts
    · rw [hn u hul]
      refine h.next_none u fun l' hul' => ?_
      have hl : l' ≠ l := fun hl => hul (hl ▸ hul')
      exact hu l' (by simpa [hl] using hul')
  · by_cases hl : l' = l
    · subst hl
      exact hon u (by simpa using hu)
    · have hu' : u ∈ fifo l' := by simpa [hl] using hu
      rw [hb l' hl u hu']
      exact h.blocking l' u hu'

lemma schedule (h : Lists s fifo) (t : T) : Lists (s.schedule t) fifo := { h with }

lemma waiting_eq_head? (h : Lists s fifo) (l : L) : s.waiting l = (fifo l).head? := (h.chain l).head?

variable [Fintype T]

lemma waitingOn (h : Lists s fifo) (l : L) : s.waitingOn l = fifo l :=
  (h.chain l).walk (h.nodup l).length_le_card

lemma addBlockedThread (h : Lists s fifo) (ht : ∀ l', t ∉ fifo l') (l : L) :
    ∃ s', s.addBlockedThread l t = some s' ∧ Lists s' (update fifo l (fifo l ++ [t])) ∧
      s'.queue = s.queue ∧ s'.finished = s.finished ∧
      s'.blocking = update s.blocking t true := by
  have hnt := h.next_none t ht
  have hnd : (fifo l ++ [t]).Nodup := (h.nodup l).append (nodup_singleton t) (by simpa using ht l)
  -- whichever branch is taken, only `l` changes, and it ends in `t`
  obtain ⟨s', hs, hq, hf, hb, hc, hw, hn⟩ : ∃ s' : Threads T L,
      s.addBlockedThread l t = some s' ∧ s'.queue = s.queue ∧ s'.finished = s.finished ∧
      s'.blocking = update s.blocking t true ∧
      Links.Chain s'.nextWaiting (s'.waiting l) (fifo l ++ [t]) ∧
      (∀ l', l' ≠ l → s'.waiting l' = s.waiting l') ∧
      ∀ u, u ∉ fifo l → s'.nextWaiting u = s.nextWaiting u := by
    have hc := h.chain l
    have hndl := h.nodup l
    rcases hl : fifo l with _ | ⟨first, rest⟩
    · rw [hl] at hc
      have hnone : s.waiting l = none := hc
      refine ⟨_, addBlockedThread_of_none hnone, rfl, rfl, rfl, ?_, ?_, fun _ _ => rfl⟩
      · simp [setBlocking, hnt]
      · intro l' hl'
        simp [setBlocking, hl']
    · rw [hl] at hc hndl
      have hfirst : s.waiting l = some first := hc.1
      rw [hfirst] at hc
      have hlen : rest.length < Fintype.card T := by
        have := hndl.length_le_card
        simp only [length_cons] at this
        omega
      obtain ⟨last, hlast⟩ : ∃ last, (first :: rest).getLast? = some last :=
        ⟨_, getLast?_eq_getLast_of_ne_nil (by simp)⟩
      refine ⟨_, addBlockedThread_of_last hfirst ((hc.last hlen).trans hlast), rfl, rfl, rfl,
        ?_, fun _ _ => rfl, fun u hu => ?_⟩
      · simp only [setBlocking, hfirst]
        exact hc.append hlast hndl (hl ▸ ht l) hnt
      · have hne : u ≠ last := by
          intro heq
          exact hu (heq ▸ mem_of_getLast? hlast)
        simp [setBlocking, hne]
  refine ⟨s', hs, ?_, hq, hf, hb⟩
  refine h.relink hnd hc (fun u hu l' hul' => ?_) hw hn (fun u hul hu => ?_) (fun u hu => ?_)
    fun l' hl u hu => ?_
  · rcases mem_append.1 hu with hul | hut
    · exact h.apart l' l u hul' hul
    · exact absurd (mem_singleton.1 hut ▸ hul') (ht l')
  · exact absurd (mem_append_left _ hul) hu
  · by_cases hut : u = t
    · simp [hb, hut]
    · have hul : u ∈ fifo l := by simpa [hut] using hu
      simpa [hb, hut] using h.blocking l u hul
  · have hut : u ≠ t := fun heq => ht l' (heq ▸ hu)
    simp [hb, hut]

omit [Fintype T] in
lemma takeFirst_nil (h : Lists s fifo) (hl : fifo l = []) : s.takeFirst l = (s, none) := by
  have hnone : s.waiting l = none := by rw [h.waiting_eq_head?, hl]; rfl
  rw [takeFirst, hnone]

omit [Fintype T] in
lemma takeFirst_cons (h : Lists s fifo) (hl : fifo l = t :: ts) :
    ∃ s', s.takeFirst l = (s', some t) ∧ Lists s' (update fifo l ts) ∧ s'.queue = s.queue ∧ s'.finished = s.finished ∧
      s'.blocking = update s.blocking t false := by
  have hc := h.chain l
  have hnd := h.nodup l
  rw [hl] at hc hnd
  have hfirst : s.waiting l = some t := hc.1
  obtain ⟨htts, hnd'⟩ := nodup_cons.1 hnd
  have htake : s.takeFirst l = ({ s.setBlocking t false with
      waiting := update s.waiting l (s.nextWaiting t)
      nextWaiting := update s.nextWaiting t none }, some t) := by
    simp only [takeFirst, hfirst]
    exact unlinkFirst_of_some hfirst
  refine ⟨_, htake, ?_, rfl, rfl, rfl⟩
  refine h.relink hnd' ?_ (fun u hu l' hul' => ?_) (fun l' hl' => ?_) (fun u hu => ?_)
    (fun u hul hu => ?_) (fun u hu => ?_) fun l' hl' u hu => ?_
  · simpa [setBlocking] using hc.tail hnd
  · exact h.apart l' l u hul' (by simp [hl, hu])
  · simp [setBlocking, hl']
  · have hut : u ≠ t := fun heq => hu (by simp [hl, heq])
    simp [setBlocking, hut]
  · have hut : u = t := by simpa [hl, hu] using hul
    simp [hut]
  · have hut : u ≠ t := fun heq => htts (heq ▸ hu)
    simpa [setBlocking, hut] using h.blocking l u (by simp [hl, hu])
  · have hut : u ≠ t := fun heq => hl' (h.apart l' l u hu (by simp [hl, heq]))
    simp [setBlocking, hut]

lemma takeNext_eq (h : Lists s fifo) (l : L) : s.takeNext l = some (s.takeFirst l) := by
  rcases hl : fifo l with _ | ⟨t, ts⟩
  · have hnone : s.waiting l = none := by rw [h.waiting_eq_head?, hl]; rfl
    simp [takeNext, skipUnblocked, takeFirst, unlinkFirst, hnone]
  · have hfirst : s.waiting l = some t := by rw [h.waiting_eq_head?, hl]; rfl
    have hb := h.blocking l t (by simp [hl])
    simp [takeNext, skipUnblocked, takeFirst, hfirst, hb]

lemma unblockNextThread (h : Lists s fifo) (l : L) :
    ∃ s', s.unblockNextThread l = some s' ∧ Lists s' (update fifo l (fifo l).tail) ∧
      s'.queue = s.queue ++ (fifo l).head?.toList ∧
      ∀ u, s'.blocking u = if u ∈ (fifo l).head? then false else s.blocking u := by
  rw [Threads.unblockNextThread, h.takeNext_eq]
  rcases hl : fifo l with _ | ⟨t, ts⟩
  · refine ⟨s, ?_, ?_, by simp, by simp⟩
    · simp [h.takeFirst_nil hl, scheduleTaken]
    · rwa [tail_nil, ← hl, update_eq_self]
  · obtain ⟨s', hs, hL, hq, -, hb⟩ := h.takeFirst_cons hl
    refine ⟨s'.schedule t, by simp [hs, scheduleTaken], hL.schedule t, by simp [Threads.schedule, hq], fun u => ?_⟩
    by_cases hut : u = t
    · simp [Threads.schedule, hb, hut]
    · simp [Threads.schedule, hb, hut, Ne.symm hut]

omit [Fintype T] in
lemma unblockAllLoop : ∀ (ts : List T) (fuel : ℕ) (s : Threads T L) (fifo : L → List T),
    Lists s fifo → fifo l = ts → ts.length < fuel →
    ∃ s', unblockAllLoop fuel s l = some s' ∧ Lists s' (update fifo l []) ∧ s'.queue = s.queue ++ ts
  | _, 0, _, _, _, _, hlen => absurd hlen (Nat.not_lt_zero _)
  | [], fuel + 1, s, fifo, h, hl, _ => by
    refine ⟨s, ?_, ?_, by simp⟩
    · simp [Threads.unblockAllLoop, h.takeFirst_nil hl]
    · rwa [← hl, update_eq_self]
  | t :: ts, fuel + 1, s, fifo, h, hl, hlen => by
    obtain ⟨s1, hs, hL, hq, -, -⟩ := h.takeFirst_cons hl
    obtain ⟨s', hs', hL', hq'⟩ := unblockAllLoop ts fuel (s1.schedule t) _ (hL.schedule t)
      (by simp) (by simpa using hlen)
    refine ⟨s', ?_, ?_, by simp [hq', Threads.schedule, hq]⟩
    · simp only [Threads.unblockAllLoop, hs, Threads.scheduleTaken, hs']
    · rwa [update_idem] at hL'

lemma unblockAllThreads (h : Lists s fifo) (l : L) :
    ∃ s', s.unblockAllThreads l = some s' ∧ Lists s' (update fifo l []) ∧ s'.queue = s.queue ++ fifo l :=
  unblockAllLoop (fifo l) _ s fifo h rfl (Nat.lt_succ_of_le (h.nodup l).length_le_card)

end Lists

namespace WaitState

variable [Fintype T] [Fintype L] {s s' : WaitState T L}

lemma lists_init (queue : List T) (blocking finished : T → Bool) :
    Lists (init queue blocking finished : WaitState T L).threads (fun _ => []) where
  chain := fun _ => rfl
  nodup := fun _ => .nil
  apart := by simp
  next_none := fun _ _ => rfl
  blocking := by simp

lemma lists_step {a : WaitCall T L} (h : Lists s.threads s.fifo) (hs : s.step a = some s') :
    Lists s'.threads s'.fifo := by
  cases a with
  | addBlockedThread l t =>
    simp only [step] at hs
    split_ifs at hs with ht
    obtain ⟨th, hth, hL, -⟩ := h.addBlockedThread ht l
    rw [hth, map_some] at hs
    cases hs
    exact hL
  | unblockNextThread l =>
    obtain ⟨th, hth, hL, -⟩ := h.unblockNextThread l
    simp only [step, hth] at hs
    cases hs
    exact hL
  | unblockAllThreads l =>
    obtain ⟨th, hth, hL, -⟩ := h.unblockAllThreads l
    simp only [step, hth] at hs
    cases hs
    exact hL

lemma lists_of_reaches {queue : List T} {blocking finished : T → Bool}
    (hs : Reaches step Any (init queue blocking finished) s) : Lists s.threads s.fifo :=
  hs.invariant (lists_init queue blocking finished)
    fun _ _ _ h _ hs => lists_step h hs

end WaitState

/-- Each waiting list links exactly the threads added and not unblocked yet, first added first; no thread is
on two lists. A call returns, and schedules the oldest thread of the list, or all of them in order. -/
structure WaitFifo [Fintype T] [Fintype L] (s : WaitState T L) : Prop where
  chain : ∀ l, Links.Chain s.threads.nextWaiting (s.threads.waiting l) (s.fifo l) ∧ (s.fifo l).Nodup
  apart : ∀ l l', l ≠ l' → (s.fifo l).Disjoint (s.fifo l')
  next_none : ∀ t, (∀ l, t ∉ s.fifo l) → s.threads.nextWaiting t = none
  add : ∀ l t, (∀ l', t ∉ s.fifo l') → ∃ s', s.step (.addBlockedThread l t) = some s' ∧
    s'.threads.queue = s.threads.queue
  next : ∀ l, ∃ s', s.step (.unblockNextThread l) = some s' ∧
    s'.threads.queue = s.threads.queue ++ (s.fifo l).head?.toList
  all : ∀ l, ∃ s', s.step (.unblockAllThreads l) = some s' ∧ s'.threads.queue = s.threads.queue ++ s.fifo l

theorem waitingList_fifo [Fintype T] [Fintype L] {queue : List T} {blocking finished : T → Bool} {s : WaitState T L}
    (hs : Reaches step Any (init queue blocking finished) s) : WaitFifo s := by
  have h := lists_of_reaches hs
  refine ⟨fun l => ⟨h.chain l, h.nodup l⟩, fun l l' hne t ht ht' => hne (h.apart l l' t ht ht'),
    h.next_none, fun l t ht => ?_, fun l => ?_, fun l => ?_⟩
  · obtain ⟨th, hth, -, hq, -⟩ := h.addBlockedThread ht l
    exact ⟨⟨th, update s.fifo l (s.fifo l ++ [t])⟩, by simp [step, if_pos ht, hth], hq⟩
  · obtain ⟨th, hth, -, hq, -⟩ := h.unblockNextThread l
    exact ⟨⟨th, update s.fifo l (s.fifo l).tail⟩, by simp only [step, hth, map_some], hq⟩
  · obtain ⟨th, hth, -, hq⟩ := h.unblockAllThreads l
    exact ⟨⟨th, update s.fifo l []⟩, by simp only [step, hth, map_some], hq⟩

theorem waitingList_fifo_moved : ∃ s : WaitState (Fin 3) (Fin 2), (s.fifo 0, s.fifo 1) = ([2], [0]) ∧ WaitFifo s := by
  obtain ⟨s, hs, hfifo⟩ : ∃ s : WaitState (Fin 3) (Fin 2),
      Reaches step Any (init [] (fun _ => false) fun _ => false) s ∧
      (s.fifo 0, s.fifo 1) = ([2], [0]) :=
    exists_of_run [.addBlockedThread 0 0, .addBlockedThread 0 1, .addBlockedThread 1 2,
      .unblockNextThread 0, .addBlockedThread 1 0, .unblockNextThread 1, .unblockAllThreads 0,
      .addBlockedThread 0 2] (by decide)
  exact ⟨s, hfifo, waitingList_fifo hs⟩

end OlliOS
