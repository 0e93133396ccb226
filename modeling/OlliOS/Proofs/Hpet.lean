import OlliOS.Hpet

/-!
# Callbacks of the timer

Each callback that was queued when `process` starts is in the queue or was called (`DeliveryInv`).
`ArmedInv` follows the comparator through `wait` in the runs with one call at a time.
-/

namespace OlliOS.HpetState

open Function Stepping List Option HpetQueuedCallback HpetState UInt64

variable {T : Type*} {s t : HpetState T} {k : Option T} {a : HpetAct T} {p : HpetCall} {us : UInt64}

instance : Std.Total Earlier := ⟨fun a b => UInt64.le_total a.accumulator b.accumulator⟩

instance : IsTrans HpetQueuedCallback Earlier := ⟨fun _ _ _ h h' => UInt64.le_trans h h'⟩

/-! The states that the steps lead to. -/

def afterFire (s : HpetState T) (p : HpetCall) (temp : HpetQueuedCallback) (next : List HpetQueuedCallback) :
    HpetState T :=
  { s with
    queuedCallbacks := next
    process := some { p with fired := p.fired ++ [temp], inCallback := true } }

def afterLeave (s : HpetState T) (p : HpetCall) (comparator : UInt64) : HpetState T :=
  { s with
    comparator
    process := none
    calls := s.calls ++ [p]
    returns := s.returns ++ [⟨p.counter, comparator, s.queuedCallbacks⟩] }

section Inversion

variable [DecidableEq T]

def afterInsert (s : HpetState T) (k : Option T) (read timestamp : UInt64) : HpetState T :=
  { s with
    queuedCallbacks := s.queuedCallbacks.orderedInsert Earlier ⟨timestamp, s.registered⟩
    registered := s.registered + 1
    pc := update s.pc k (.inserted read timestamp (first timestamp s.queuedCallbacks)) }

def afterArm (s : HpetState T) (k : Option T) (read comparator : UInt64) : HpetState T :=
  { s with
    comparator
    pc := update s.pc k .idle
    returns := s.returns ++ [⟨read, comparator, s.queuedCallbacks⟩] }

lemma step_insert (h : s.step (.insert k) = some t) :
    ∃ read timestamp, s.pc k = .computed read timestamp ∧ s.Runs k ∧
      t = s.afterInsert k read timestamp := by
  rcases hpc : s.pc k with _ | ⟨read, timestamp⟩ | ⟨read, timestamp, updateCounter⟩ <;>
    simp only [step, hpc] at h
  · cases h
  · split_ifs at h with hruns
    exact ⟨read, timestamp, rfl, hruns, (some.inj h).symm⟩
  · cases h

lemma step_arm (h : s.step (.arm k) = some t) :
    ∃ read timestamp updateCounter, s.pc k = .inserted read timestamp updateCounter ∧ s.Runs k ∧
      t = s.afterArm k read (if updateCounter then timestamp else s.comparator) := by
  rcases hpc : s.pc k with _ | ⟨read, timestamp⟩ | ⟨read, timestamp, updateCounter⟩ <;>
    simp only [step, hpc] at h
  · cases h
  · cases h
  · by_cases hruns : s.Runs k
    · rw [if_pos hruns] at h
      exact ⟨read, timestamp, updateCounter, rfl, hruns, (some.inj h).symm⟩
    · rw [if_neg hruns] at h
      cases h

lemma step_fire (h : s.step .fire = some t) :
    ∃ p temp next, s.process = some p ∧ s.queuedCallbacks = temp :: next ∧ p.inCallback = false ∧
      temp.accumulator ≤ p.counter ∧ t = s.afterFire p temp next := by
  rcases hprocess : s.process with _ | p
  · simp only [step, hprocess] at h
    cases h
  rcases hqueue : s.queuedCallbacks with _ | ⟨temp, next⟩ <;> simp only [step, hprocess, hqueue] at h
  · cases h
  · split_ifs at h with hdue
    exact ⟨p, temp, next, rfl, rfl, hdue.1, hdue.2, (some.inj h).symm⟩

lemma step_callbackReturns (h : s.step .callbackReturns = some t) :
    ∃ p, s.process = some p ∧ p.inCallback = true ∧ s.pc none = .idle ∧
      t = { s with process := some { p with inCallback := false } } := by
  rcases hprocess : s.process with _ | p <;> simp only [step, hprocess] at h
  · cases h
  · split_ifs at h with hin
    exact ⟨p, rfl, hin.1, hin.2, (some.inj h).symm⟩

lemma step_leave (h : s.step .leave = some t) : ∃ p, s.process = some p ∧ p.inCallback = false ∧
      (∀ head ∈ s.queuedCallbacks.head?, ¬ head.accumulator ≤ p.counter) ∧
      t = s.afterLeave p ((s.queuedCallbacks.head?.map accumulator).getD s.comparator) := by
  rcases hprocess : s.process with _ | p <;> simp only [step, hprocess] at h
  · cases h
  · split_ifs at h with hin
    exact ⟨p, rfl, hin.1, hin.2, (some.inj h).symm⟩

end Inversion

structure DeliveryInv (s : HpetState T) : Prop where
  delivered : s.Delivered
  running : ∀ p ∈ s.process, ∀ e ∈ p.start, e ∈ s.queuedCallbacks ∨ e ∈ p.fired

namespace DeliveryInv

lemma init (frequency counter : UInt64) : DeliveryInv (init frequency counter : HpetState T) where
  delivered := {
    sorted := List.Pairwise.nil
    once := List.Perm.nil
    due p hp := absurd hp not_mem_nil
    complete p hp := absurd hp not_mem_nil }
  running p hp := by cases hp

variable (h : DeliveryInv s)

include h

lemma congr (hqueue : t.queuedCallbacks = s.queuedCallbacks)
    (hregistered : t.registered = s.registered) (hprocess : t.process = s.process)
    (hcalls : t.calls = s.calls) : DeliveryInv t := by
  have hall : t.allCalls = s.allCalls := by rw [allCalls, hprocess, hcalls]; rfl
  have hfired : t.fired = s.fired := by rw [fired, hall]; rfl
  obtain ⟨⟨hsorted, honce, hdue, hcomplete⟩, hrunning⟩ := h
  refine ⟨⟨?_, ?_, ?_, ?_⟩, ?_⟩
  · rwa [hqueue]
  · rwa [hqueue, hfired, hregistered]
  · rwa [hall]
  · rwa [hcalls]
  · rwa [hqueue, hprocess]

lemma insert [DecidableEq T] (read timestamp : UInt64) : DeliveryInv (s.afterInsert k read timestamp) := by
  obtain ⟨⟨hsorted, honce, hdue, hcomplete⟩, hrunning⟩ := h
  have hperm := List.perm_orderedInsert Earlier ⟨timestamp, s.registered⟩ s.queuedCallbacks
  refine ⟨⟨hsorted.orderedInsert _ _, ?_, hdue, hcomplete⟩, fun p hp e he => ?_⟩
  · have hids := ((hperm.append_right s.fired).map HpetQueuedCallback.id)
    refine hids.trans ?_
    rw [afterInsert, range_succ, cons_append, map_cons]
    exact (honce.cons s.registered).trans (List.perm_append_singleton _ _).symm
  · rcases hrunning p hp e he with hmem | hmem
    · exact .inl (hperm.mem_iff.2 (mem_cons_of_mem _ hmem))
    · exact .inr hmem

/-- Where `process` is changes, but not what it has called. -/
lemma process_changed {q : HpetCall} (hfired : ({ s with process := some q } : HpetState T).fired = s.fired)
    (hdue : ∀ e ∈ q.fired, e.accumulator ≤ q.counter)
    (hrunning : ∀ e ∈ q.start, e ∈ s.queuedCallbacks ∨ e ∈ q.fired) :
    DeliveryInv { s with process := some q } := by
  obtain ⟨⟨hsorted, honce, hdue', hcomplete⟩, -⟩ := h
  refine ⟨⟨hsorted, by rwa [hfired], fun p hp e he => ?_, hcomplete⟩, fun p hp e he => ?_⟩
  · rcases mem_append.1 hp with hp | hp
    · exact hdue' p (mem_append_left _ hp) e he
    · obtain rfl := mem_singleton.1 hp
      exact hdue e he
  · cases hp
    exact hrunning e he

lemma interrupt (hprocess : s.process = none) :
    DeliveryInv { s with process := some ⟨s.counter, s.queuedCallbacks, [], false⟩ } :=
  h.process_changed (by simp [fired, allCalls, hprocess]) nofun fun _ => .inl

lemma fire {temp : HpetQueuedCallback} {next : List HpetQueuedCallback}
    (hprocess : s.process = some p) (hqueue : s.queuedCallbacks = temp :: next)
    (hdue' : temp.accumulator ≤ p.counter) : DeliveryInv (s.afterFire p temp next) := by
  obtain ⟨⟨hsorted, honce, hdue, hcomplete⟩, hrunning⟩ := h
  have hfired : (s.afterFire p temp next).fired = s.fired ++ [temp] := by
    simp [fired, allCalls, afterFire, hprocess]
  have hlast : p ∈ s.allCalls := mem_append_right _ (by simp [hprocess])
  rw [hqueue] at hsorted honce hrunning
  refine ⟨⟨(pairwise_cons.1 hsorted).2, ?_, fun p' hp e he => ?_, hcomplete⟩, fun p' hp e he => ?_⟩
  · rw [hfired]
    refine List.Perm.trans (List.Perm.map _ ?_) honce
    rw [← append_assoc]
    exact List.perm_append_singleton temp (next ++ s.fired)
  · rcases mem_append.1 hp with hp | hp
    · exact hdue p' (mem_append_left _ hp) e he
    · obtain rfl := mem_singleton.1 hp
      rcases mem_append.1 he with he | he
      · exact hdue p hlast e he
      · rwa [mem_singleton.1 he]
  · cases hp
    rcases hrunning p hprocess e he with hmem | hmem
    · rcases mem_cons.1 hmem with rfl | hmem
      · exact .inr (mem_append_right _ (mem_singleton_self _))
      · exact .inl hmem
    · exact .inr (mem_append_left _ hmem)

lemma callbackReturns (hprocess : s.process = some p) :
    DeliveryInv { s with process := some { p with inCallback := false } } :=
  h.process_changed (by simp [fired, allCalls, hprocess])
    (h.delivered.due p (mem_append_right _ (by simp [hprocess]))) (h.running p hprocess)

lemma leave (hprocess : s.process = some p)
    (hhead : ∀ head ∈ s.queuedCallbacks.head?, ¬ head.accumulator ≤ p.counter) (comparator : UInt64) :
    DeliveryInv (s.afterLeave p comparator) := by
  obtain ⟨⟨hsorted, honce, hdue, hcomplete⟩, hrunning⟩ := h
  have hall : (s.afterLeave p comparator).allCalls = s.allCalls := by simp [allCalls, afterLeave, hprocess]
  have hlater : ∀ e ∈ s.queuedCallbacks, ¬ e.accumulator ≤ p.counter := by
    intro e he hle
    rcases hqueue : s.queuedCallbacks with _ | ⟨head, rest⟩
    · rw [hqueue] at he
      cases he
    rw [hqueue] at he hsorted hhead
    have hlt := hhead head rfl
    rcases mem_cons.1 he with rfl | he
    · exact hlt hle
    · exact hlt (UInt64.le_trans ((pairwise_cons.1 hsorted).1 e he) hle)
  refine ⟨⟨hsorted, ?_, ?_, fun p' hp e he hle => ?_⟩, fun p' hp => by cases hp⟩
  · rwa [fired, hall]
  · rwa [hall]
  · rcases mem_append.1 hp with hp | hp
    · exact hcomplete p' hp e he hle
    · obtain rfl := mem_singleton.1 hp
      rcases hrunning p' hprocess e he with hmem | hmem
      · exact absurd hle (hlater e hmem)
      · exact hmem

variable [DecidableEq T]

lemma step (hstep : s.step a = some t) : DeliveryInv t := by
  rcases a with counter | ⟨k, us⟩ | k | k | _ | _ | _ | _
  · simp only [step] at hstep
    split_ifs at hstep
    cases hstep
    exact h.congr rfl rfl rfl rfl
  · simp only [step] at hstep
    split_ifs at hstep
    cases hstep
    exact h.congr rfl rfl rfl rfl
  · obtain ⟨read, timestamp, -, -, rfl⟩ := step_insert hstep
    exact h.insert read timestamp
  · obtain ⟨read, timestamp, updateCounter, -, -, rfl⟩ := step_arm hstep
    exact h.congr rfl rfl rfl rfl
  · simp only [step] at hstep
    split_ifs at hstep with hprocess
    cases hstep
    exact h.interrupt hprocess
  · obtain ⟨p, temp, next, hprocess, hqueue, -, hdue, rfl⟩ := step_fire hstep
    exact h.fire hprocess hqueue hdue
  · obtain ⟨p, hprocess, -, -, rfl⟩ := step_callbackReturns hstep
    exact h.callbackReturns hprocess
  · obtain ⟨p, hprocess, -, hhead, rfl⟩ := step_leave hstep
    exact h.leave hprocess hhead _

end DeliveryInv

variable [DecidableEq T]

/-- In every run the queue is in order, and every callback that was registered is called at most once,
not before its time, and by the next call of `process` that starts when it is due. -/
theorem callbacks_delivered (frequency counter : UInt64) (s : HpetState T)
    (hs : Reaches step Any (init frequency counter) s) : s.Delivered :=
  (hs.invariant (DeliveryInv.init frequency counter) fun _ _ _ h _ hstep => h.step hstep).delivered

theorem callbacks_delivered_again : ∃ s : HpetState ℕ, s.Delivered ∧ s.calls.map HpetCall.counter = [30] ∧
    s.fired.map HpetQueuedCallback.id = [1, 0] ∧ s.queuedCallbacks.map HpetQueuedCallback.id = [2] := by
  obtain ⟨s, hs, hcalls, hfired, hqueue⟩ : ∃ s : HpetState ℕ, Reaches step Any (init 10 0) s ∧
      s.calls.map HpetCall.counter = [30] ∧ s.fired.map HpetQueuedCallback.id = [1, 0] ∧
      s.queuedCallbacks.map HpetQueuedCallback.id = [2] :=
    exists_of_run [.wait (some 0) 2, .insert (some 0), .arm (some 0), .wait (some 1) 1, .insert (some 1),
      .arm (some 1), .tick 30, .interrupt, .fire, .wait none 5, .insert none, .arm none, .callbackReturns,
      .fire, .callbackReturns, .leave] (by decide)
  exact ⟨s, callbacks_delivered 10 0 s hs, hcalls, hfired, hqueue⟩

section Armed

/-- The comparator follows the head of the queue, except while `process` runs and until a call of `wait`
that has put its entry there returns. -/
structure ArmedInv (s : HpetState T) : Prop where
  returns : ∀ r ∈ s.returns, r.Armed
  single : ∀ k k', s.pc k ≠ .idle → s.pc k' ≠ .idle → k = k'
  threads : s.process ≠ none → ∀ k, s.pc (some k) = .idle
  callback : s.process.any HpetCall.inCallback = false → s.pc none = .idle
  points : s.Idle → s.process = none → ∀ head ∈ s.queuedCallbacks.head?, s.comparator = head.accumulator
  computed : ∀ k read timestamp, s.pc k = .computed read timestamp → read < timestamp ∧
    ∀ head ∈ s.queuedCallbacks.head?, read < head.accumulator ∧
      (timestamp ≤ head.accumulator ∨ s.comparator = head.accumulator)
  inserted : ∀ k read timestamp updateCounter, s.pc k = .inserted read timestamp updateCounter →
    ∀ head ∈ s.queuedCallbacks.head?, read < head.accumulator ∧
      (if updateCounter then timestamp else s.comparator) = head.accumulator

lemma head_orderedInsert {e head : HpetQueuedCallback} {queue : List HpetQueuedCallback}
    (hhead : head ∈ (queue.orderedInsert Earlier e).head?) :
    first e.accumulator queue = true ∧ head = e ∨
    first e.accumulator queue = false ∧ head ∈ queue.head? ∧ ¬ e.accumulator ≤ head.accumulator := by
  rcases queue with _ | ⟨current, rest⟩
  · exact .inl ⟨rfl, (some.inj hhead).symm⟩
  · by_cases hle : Earlier e current
    · rw [List.orderedInsert_cons_of_le _ _ hle] at hhead
      exact .inl ⟨decide_eq_true hle, (some.inj hhead).symm⟩
    · rw [List.orderedInsert_of_not_le _ _ hle] at hhead
      cases hhead
      exact .inr ⟨decide_eq_false hle, rfl, hle⟩

namespace ArmedInv

omit [DecidableEq T] in
lemma of_idle (hreturns : ∀ r ∈ t.returns, r.Armed) (hidle : t.Idle)
    (hpoints : t.process = none → ∀ head ∈ t.queuedCallbacks.head?, t.comparator = head.accumulator) :
    ArmedInv t where
  returns := hreturns
  single k _ hk := absurd (hidle k) hk
  threads _ k := hidle _
  callback _ := hidle none
  points _ := hpoints
  computed k read timestamp hk := by
    cases (hidle k).symm.trans hk
  inserted k read timestamp updateCounter hk := by
    cases (hidle k).symm.trans hk

lemma of_busy {pc : WaitPc} (hreturns : ∀ r ∈ s.returns, r.Armed) (hidle : ∀ k', k' ≠ k → s.pc k' = .idle)
    (hbusy : pc ≠ .idle) (hthread : s.process ≠ none → k = none)
    (hcallback : s.process.any HpetCall.inCallback = false → k ≠ none)
    (hcomputed : ∀ read timestamp, pc = .computed read timestamp → read < timestamp ∧
      ∀ head ∈ s.queuedCallbacks.head?, read < head.accumulator ∧
        (timestamp ≤ head.accumulator ∨ s.comparator = head.accumulator))
    (hinserted : ∀ read timestamp updateCounter, pc = .inserted read timestamp updateCounter →
      ∀ head ∈ s.queuedCallbacks.head?, read < head.accumulator ∧
        (if updateCounter then timestamp else s.comparator) = head.accumulator) :
    ArmedInv { s with pc := update s.pc k pc } := by
  have hcases : ∀ k', k' = k ∧ update s.pc k pc k' = pc ∨ update s.pc k pc k' = .idle := by
    intro k'
    rcases eq_or_ne k' k with rfl | hne
    · exact .inl ⟨rfl, update_self ..⟩
    · exact .inr ((update_of_ne hne ..).trans (hidle k' hne))
  have hother : ∀ {k'}, k' ≠ k → update s.pc k pc k' = .idle :=
    fun hne => (hcases _).resolve_left fun h => hne h.1
  refine ⟨hreturns, fun k1 k2 h1 h2 => ?_, fun hp k' => hother fun hk => ?_, fun hp => hother (hcallback hp).symm,
    fun hall => ?_, fun k' read timestamp hk' => ?_, fun k' read timestamp updateCounter hk' => ?_⟩
  · rw [((hcases k1).resolve_right h1).1, ((hcases k2).resolve_right h2).1]
  · cases hk.trans (hthread hp)
  · exact absurd ((update_self ..).symm.trans (hall k)) hbusy
  · rcases hcases k' with ⟨-, hself⟩ | hself
    · exact hcomputed read timestamp (hself.symm.trans hk')
    · cases hself.symm.trans hk'
  · rcases hcases k' with ⟨-, hself⟩ | hself
    · exact hinserted read timestamp updateCounter (hself.symm.trans hk')
    · cases hself.symm.trans hk'

omit [DecidableEq T] in
lemma init (frequency counter : UInt64) : ArmedInv (init frequency counter : HpetState T) :=
  of_idle nofun (fun _ => rfl) nofun

omit [DecidableEq T] in
lemma idle_of_ne (h : ArmedInv s) {k' : Option T} (hk : s.pc k ≠ .idle) (hne : k' ≠ k) : s.pc k' = .idle := by
  by_contra hk'
  exact hne (h.single k' k hk' hk)

omit [DecidableEq T] in
lemma idle_in_process (h : ArmedInv s) (hprocess : s.process = some p) (hin : p.inCallback = false) : s.Idle := by
  intro k
  rcases k with _ | k
  · refine h.callback ?_
    rwa [hprocess]
  · refine h.threads ?_ k
    rw [hprocess]
    exact some_ne_none p

lemma wait (h : ArmedInv s) (hok : s.Timely (.wait k us)) (hruns : s.Runs k) :
    ArmedInv { s with pc := update s.pc k (.computed s.counter (s.timestamp us)) } := by
  obtain ⟨hidle, hlater, hhead⟩ := hok
  refine of_busy h.returns (fun k' _ => hidle k') nofun (fun hp => ?_) ?_ (fun read timestamp hpc => ?_) nofun
  · rcases k with _ | k
    · rfl
    · exact absurd hruns hp
  · rintro hp rfl
    exact absurd (hruns.symm.trans hp) (by simp)
  · cases hpc
    refine ⟨hlater, fun head hmem => ⟨(hhead head hmem).1, ?_⟩⟩
    rcases k with _ | k
    · exact (hhead head hmem).2 rfl
    · exact .inr (h.points hidle hruns head hmem)

lemma insert (h : ArmedInv s) {read timestamp : UInt64} (hpc : s.pc k = .computed read timestamp) :
    ArmedInv (s.afterInsert k read timestamp) := by
  have hbusy : s.pc k ≠ .idle := fun hk => by cases hpc.symm.trans hk
  obtain ⟨hlater, hhead⟩ := h.computed k read timestamp hpc
  refine of_busy (s := { s with
    queuedCallbacks := s.queuedCallbacks.orderedInsert Earlier ⟨timestamp, s.registered⟩
    registered := s.registered + 1 }) h.returns (fun k' hne => h.idle_of_ne hbusy hne) nofun (fun hp => ?_) ?_ nofun
    fun read' timestamp' updateCounter hinserted head hmem => ?_
  · rcases k with _ | k
    · rfl
    · exact absurd (h.threads hp k) hbusy
  · rintro hp rfl
    exact hbusy (h.callback hp)
  · cases hinserted
    rcases head_orderedInsert hmem with ⟨hfirst, rfl⟩ | ⟨hfirst, hold, hnot⟩
    · exact ⟨hlater, if_pos hfirst⟩
    · obtain ⟨hread, hpoints⟩ := hhead head hold
      refine ⟨hread, ?_⟩
      rw [hfirst]
      exact hpoints.resolve_left hnot

lemma arm (h : ArmedInv s) {read timestamp : UInt64} {updateCounter : Bool}
    (hpc : s.pc k = .inserted read timestamp updateCounter) :
    ArmedInv (s.afterArm k read (if updateCounter then timestamp else s.comparator)) := by
  have hbusy : s.pc k ≠ .idle := fun hk => by cases hpc.symm.trans hk
  have hidle : ∀ k', update s.pc k .idle k' = .idle := by
    intro k'
    rcases eq_or_ne k' k with rfl | hne
    · rw [update_self]
    · rw [update_of_ne hne]
      exact h.idle_of_ne hbusy hne
  have hhead := h.inserted k read timestamp updateCounter hpc
  refine of_idle (fun r hr => ?_) hidle fun _ head hmem => (hhead head hmem).2
  rcases mem_append.1 hr with hr | hr
  · exact h.returns r hr
  · obtain rfl := mem_singleton.1 hr
    exact fun head hmem => ⟨(hhead head hmem).2, (hhead head hmem).1⟩

omit [DecidableEq T] in
lemma leave (h : ArmedInv s) (hidle : s.Idle)
    (hhead : ∀ head ∈ s.queuedCallbacks.head?, ¬ head.accumulator ≤ p.counter) :
    ArmedInv (s.afterLeave p ((s.queuedCallbacks.head?.map accumulator).getD s.comparator)) := by
  have hpoints : ∀ head ∈ s.queuedCallbacks.head?,
      (s.queuedCallbacks.head?.map accumulator).getD s.comparator = head.accumulator := by
    intro head hmem
    rw [hmem]
    rfl
  refine of_idle (fun r hr => ?_) hidle fun _ => hpoints
  rcases mem_append.1 hr with hr | hr
  · exact h.returns r hr
  · obtain rfl := mem_singleton.1 hr
    exact fun head hmem => ⟨hpoints head hmem, UInt64.not_le.1 (hhead head hmem)⟩

lemma step (h : ArmedInv s) (hok : s.Timely a) (hstep : s.step a = some t) : ArmedInv t := by
  rcases a with counter | ⟨k, us⟩ | k | k | _ | _ | _ | _
  · simp only [step] at hstep
    split_ifs at hstep
    cases hstep
    exact ⟨h.returns, h.single, h.threads, h.callback, h.points, h.computed, h.inserted⟩
  · simp only [step] at hstep
    split_ifs at hstep with hg
    cases hstep
    exact h.wait hok hg.1
  · obtain ⟨read, timestamp, hpc, -, rfl⟩ := step_insert hstep
    exact h.insert hpc
  · obtain ⟨read, timestamp, updateCounter, hpc, -, rfl⟩ := step_arm hstep
    exact h.arm hpc
  · simp only [step] at hstep
    split_ifs at hstep
    cases hstep
    exact of_idle h.returns hok nofun
  · obtain ⟨p, temp, next, hprocess, -, hin, -, rfl⟩ := step_fire hstep
    exact of_idle h.returns (h.idle_in_process hprocess hin) nofun
  · obtain ⟨p, hprocess, -, hidle, rfl⟩ := step_callbackReturns hstep
    refine of_idle h.returns (fun k => ?_) nofun
    rcases k with _ | k
    · exact hidle
    · exact h.threads (by rw [hprocess]; exact some_ne_none p) k
  · obtain ⟨p, hprocess, hin, hhead, rfl⟩ := step_leave hstep
    exact h.leave (h.idle_in_process hprocess hin) hhead

end ArmedInv

end Armed

omit [DecidableEq T] in
lemma ArmedInv.comparator_eq (h : ArmedInv s) (hidle : s.Idle) (hruns : s.Runs k) {head : HpetQueuedCallback}
    (hhead : head ∈ s.queuedCallbacks.head?) : k ≠ none → s.comparator = head.accumulator := by
  rcases k with _ | k
  · exact fun hk => absurd rfl hk
  · exact fun _ => h.points hidle hruns head hhead

lemma step_waitUninterrupted (hrun : s.waitUninterrupted k us = some t) :
    s.Runs k ∧ t.returns = s.returns ++ [⟨s.counter,
      if first (s.timestamp us) s.queuedCallbacks then s.timestamp us else s.comparator,
      s.queuedCallbacks.orderedInsert Earlier ⟨s.timestamp us, s.registered⟩⟩] := by
  obtain ⟨s1, h1, hrun⟩ := bind_eq_some_iff.1 hrun
  obtain ⟨s2, h2, h3⟩ := bind_eq_some_iff.1 hrun
  simp only [step] at h1
  split_ifs at h1 with hg
  cases h1
  obtain ⟨read, timestamp, hpc, -, rfl⟩ := step_insert h2
  dsimp only at hpc
  rw [update_self] at hpc
  cases hpc
  obtain ⟨read, timestamp, updateCounter, hpc, -, rfl⟩ := step_arm h3
  simp only [afterInsert, update_self] at hpc
  cases hpc
  exact ⟨hg.1, rfl⟩

omit [DecidableEq T] in
lemma ArmedInv.armed_iff_timely (h : ArmedInv s) (hidle : s.Idle) (hruns : s.Runs k) (us : UInt64) :
    (HpetReturn.mk s.counter (if first (s.timestamp us) s.queuedCallbacks then s.timestamp us else s.comparator)
      (s.queuedCallbacks.orderedInsert Earlier ⟨s.timestamp us, s.registered⟩)).Armed ↔ s.Timely (.wait k us) := by
  have hpoints := @h.comparator_eq _ _ _ hidle hruns
  rcases hqueue : s.queuedCallbacks with _ | ⟨head, rest⟩
  · constructor
    · intro harmed
      refine ⟨hidle, (harmed _ rfl).2, fun head hhead => ?_⟩
      rw [hqueue] at hhead
      cases hhead
    · rintro ⟨-, hlater, -⟩ head hhead
      cases hhead
      exact ⟨rfl, hlater⟩
  rw [hqueue] at hpoints
  by_cases hle : s.timestamp us ≤ head.accumulator
  · have hinsert : (head :: rest).orderedInsert Earlier ⟨s.timestamp us, s.registered⟩ =
        ⟨s.timestamp us, s.registered⟩ :: head :: rest := List.orderedInsert_cons_of_le _ _ hle
    rw [hinsert, first, decide_eq_true hle, if_pos rfl]
    constructor
    · intro harmed
      have hlater : s.counter < s.timestamp us := (harmed _ rfl).2
      refine ⟨hidle, hlater, fun head' hhead' => ?_⟩
      rw [hqueue] at hhead'
      cases hhead'
      exact ⟨UInt64.lt_of_lt_of_le hlater hle, fun _ => .inl hle⟩
    · rintro ⟨-, hlater, -⟩ head' hhead'
      cases hhead'
      exact ⟨rfl, hlater⟩
  · have hinsert : (head :: rest).orderedInsert Earlier ⟨s.timestamp us, s.registered⟩ =
        head :: rest.orderedInsert Earlier ⟨s.timestamp us, s.registered⟩ :=
      List.orderedInsert_of_not_le _ _ hle
    rw [hinsert, first, decide_eq_false hle, if_neg Bool.false_ne_true]
    constructor
    · intro harmed
      obtain ⟨hcomparator, hlater⟩ := harmed head rfl
      refine ⟨hidle, UInt64.lt_trans hlater (UInt64.not_le.1 hle), fun head' hhead' => ?_⟩
      rw [hqueue] at hhead'
      cases hhead'
      exact ⟨hlater, fun _ => .inr hcomparator⟩
    · rintro ⟨-, -, hhead⟩ head' hhead'
      rw [hqueue] at hhead
      cases hhead'
      obtain ⟨hlater, hcallback⟩ := hhead head rfl
      refine ⟨?_, hlater⟩
      by_cases hk : k = none
      · exact (hcallback hk).resolve_left hle
      · exact hpoints rfl hk

/-- In a run whose calls of `wait` are timely, the timer is armed for the next deadline whenever a call
returns. A call that nothing interrupts keeps this if and only if it is timely. -/
theorem timer_armed (frequency counter : UInt64) (s : HpetState T)
    (hs : Reaches step Timely (init frequency counter) s) :
    (∀ r ∈ s.returns, r.Armed) ∧ ∀ k us t, s.Idle → s.waitUninterrupted k us = some t →
      ((∀ r ∈ t.returns, r.Armed) ↔ s.Timely (.wait k us)) := by
  have h : ArmedInv s :=
    hs.invariant (ArmedInv.init frequency counter) fun _ _ _ h hok hstep => h.step hok hstep
  refine ⟨h.returns, fun k us t hidle hrun => ?_⟩
  obtain ⟨hruns, hreturns⟩ := step_waitUninterrupted hrun
  rw [← h.armed_iff_timely hidle hruns us, hreturns]
  constructor
  · intro hall
    exact hall _ (mem_append_right _ (mem_singleton_self _))
  · intro hlast r hr
    rcases mem_append.1 hr with hr | hr
    · exact h.returns r hr
    · rwa [mem_singleton.1 hr]

/-- Two threads wait, the second one for an earlier time, and its callback waits again. -/
theorem timer_armed_again : ∃ s : HpetState (Fin 2),
    s.returns.map HpetReturn.comparator = [30, 10, 20, 20] ∧ ∀ r ∈ s.returns, r.Armed := by
  obtain ⟨s, hs, hreturns⟩ : ∃ s : HpetState (Fin 2), Reaches step Timely (init 10 3) s ∧
      s.returns.map HpetReturn.comparator = [30, 10, 20, 20] :=
    exists_of_run [.wait (some 0) 3, .insert (some 0), .arm (some 0), .wait (some 1) 1, .insert (some 1),
      .arm (some 1), .tick 12, .interrupt, .fire, .wait none 1, .insert none, .arm none, .callbackReturns,
      .leave] (by decide)
  exact ⟨s, hreturns, (timer_armed 10 3 s hs).1⟩

/-- A thread waits for no time at all: the timer is armed for a time that has passed. -/
theorem deadline_missed : ∃ s : HpetState ℕ, Reaches step Any (init 10 5) s ∧
    s.returns = [⟨5, 0, [⟨0, 0⟩]⟩] ∧ ¬ ∀ r ∈ s.returns, r.Armed := by
  obtain ⟨s, hs, hreturns⟩ : ∃ s : HpetState ℕ, Reaches step Any (init 10 5) s ∧ s.returns = [⟨5, 0, [⟨0, 0⟩]⟩] :=
    exists_of_run [.wait (some 0) 0, .insert (some 0), .arm (some 0)] (by decide)
  refine ⟨s, hs, hreturns, fun hall => ?_⟩
  have harmed := hall ⟨5, 0, [⟨0, 0⟩]⟩ (by rw [hreturns]; exact mem_singleton_self _)
  exact absurd (harmed ⟨0, 0⟩ rfl).2 (by decide)

end OlliOS.HpetState
