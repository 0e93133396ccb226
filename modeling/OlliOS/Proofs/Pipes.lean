import OlliOS.Pipes
import OlliOS.Proofs.Descriptors

/-!
# Writers of a pipe without readers

`~OwnedStreamHandle` does nothing when the read end goes. A `write` that finds the ring full parks all
the same, and no `read` will ever wake it (`writer_left_waiting`).
-/

set_option linter.unusedSectionVars false

namespace OlliOS

open Function Stepping Option PipeState

namespace Stream

variable {st : Stream} {i : UInt32} {bs : List UInt8}

lemma writeLoop_written_leaves : ∀ (bs : List UInt8) {st : Stream} {i : UInt32},
    ∃ j, (st.writeLoop i true bs).2.2 = .leave j
  | [], _, i => ⟨i, rfl⟩
  | b :: bs, st, i => by
    unfold writeLoop
    split_ifs
    · exact ⟨i, rfl⟩
    · exact absurd rfl ‹_›
    · exact writeLoop_written_leaves bs

lemma writeLoop_blocks (hbs : bs ≠ []) (hfull : RingBuffer.next st.size st.write = st.read) :
    st.writeLoop i false bs = (st, [], .park i) := by
  obtain ⟨b, bs, rfl⟩ := List.exists_cons_of_ne_nil hbs
  simp [writeLoop, hfull]

lemma writeLoop_leaves (h : ¬ (bs ≠ [] ∧ RingBuffer.next st.size st.write = st.read)) :
    ∃ j, (st.writeLoop i false bs).2.2 = .leave j := by
  rcases bs with _ | ⟨b, bs⟩
  · exact ⟨i, rfl⟩
  · have hroom : RingBuffer.next st.size st.write ≠ st.read := fun hfull => h ⟨by simp, hfull⟩
    simp only [writeLoop, hroom]
    exact writeLoop_written_leaves bs

end Stream

namespace StreamState

variable {ι : Type*} [DecidableEq ι] {s t : StreamState ι} {c : ι} {buffer : List UInt8} {i : UInt32}

lemma release_read_waitingWrite (count : UInt32) (moved : List UInt8) (x : Exit) :
    (s.release c (.read count) moved x).waitingWrite = s.waitingWrite := by
  cases x <;> rfl

lemma runLoop_read_waitingWrite (count i : UInt32) (moved : List UInt8) :
    (s.runLoop c (.read count) i moved).waitingWrite = s.waitingWrite :=
  release_read_waitingWrite ..

lemma runLoop_waitingWrite_ne (moved : List UInt8)
    (h : s.stream.Blocks i buffer) : (s.runLoop c (.write buffer) i moved).waitingWrite ≠ [] := by
  simp only [runLoop, Stream.loop, Stream.writeLoop_blocks h.1 h.2]
  exact List.concat_ne_nil _ _

lemma runLoop_waitingWrite (moved : List UInt8) (h : ¬ s.stream.Blocks i buffer) :
    (s.runLoop c (.write buffer) i moved).waitingWrite = s.waitingWrite := by
  obtain ⟨j, hj⟩ := Stream.writeLoop_leaves (i := i) h
  simp only [runLoop, Stream.loop, hj]
  rfl

lemma unblockFirst_waitingWrite {call : Call} (h : s.unblockFirst call = some t)
    (hs : s.waitingWrite = []) : t.waitingWrite = [] := by
  cases call with
  | write _ =>
    simp only [unblockFirst] at h
    split_ifs at h
    cases h
    exact hs
  | read _ => simp [unblockFirst, hs] at h

lemma step_waitingWrite {a : StreamAct ι} (h : s.step a = some t) : (s.Parks a → t.waitingWrite ≠ []) ∧
      (¬ s.Parks a → s.waitingWrite = [] → t.waitingWrite = []) := by
  cases a with
  | call c call =>
    simp only [step] at h
    split_ifs at h
    cases h
    cases call with
    | write buffer => exact ⟨runLoop_waitingWrite_ne [], fun hp hs => (runLoop_waitingWrite [] hp).trans hs⟩
    | read count => exact ⟨False.elim, fun _ hs => (runLoop_read_waitingWrite ..).trans hs⟩
  | resume c =>
    simp only [step] at h
    unfold Parks
    rcases hpc : s.pc c with _ | ⟨call, i, moved⟩ | call
    · simp [hpc] at h
    · simp only [hpc] at h ⊢
      split_ifs at h with hlisted hclosed <;> cases h
      · cases call with
        | write buffer => exact ⟨fun hp => by simp [hclosed] at hp, fun _ hs => hs⟩
        | read count => exact ⟨False.elim, fun _ hs => hs⟩
      rw [UInt32.sub_add_cancel]
      cases call with
      | write buffer =>
        refine ⟨fun hp => runLoop_waitingWrite_ne moved hp.2, fun hp hs => ?_⟩
        have hroom : ¬ s.stream.Blocks i buffer := fun hb => hp ⟨by simpa using hclosed, hb⟩
        exact (runLoop_waitingWrite moved hroom).trans hs
      | read count => exact ⟨False.elim, fun _ hs => (runLoop_read_waitingWrite ..).trans hs⟩
    · simp [hpc] at h
  | unblock c =>
    refine ⟨False.elim, fun _ hs => ?_⟩
    simp only [step] at h
    split at h
    · cases h
      rename_i call _
      rcases hu : s.unblockFirst call with _ | t
      · exact hs
      · exact unblockFirst_waitingWrite hu hs
    · simp at h
  | close =>
    cases h
    exact ⟨False.elim, fun _ hs => hs⟩

lemma closeHandle_waitingWrite (s : StreamState ι) (m : WriteMode) :
    (s.closeHandle m).waitingWrite = s.waitingWrite := by
  cases m <;> rfl

end StreamState

namespace DescState

variable {P : Type*} [DecidableEq P] {s : DescState P} {p : P}

lemma pipe_cases (s : DescState P) (p : P) :
    ((s.pipe p).2 = -1 ∧ (s.pipe p).1.bindings = s.bindings ∧ (s.pipe p).1.live = s.live) ∨
    ∃ rd wr, rd < maxCount ∧ wr ≠ rd ∧ s.bindings p rd = none ∧ s.bindings p wr = none ∧
      s.pipe p = ((((({ s with heap := s.heap.newPipe } : DescState P).setSlot p rd (some none)).setSlot
        p wr (some none)).setSlot p rd (some (some (s.heap.next, .read)))).setSlot p wr
          (some (some (s.heap.next, .write))), 0) := by
  rcases hrd : s.newResource p with _ | rd
  · have hfail : s.pipe p = (s, -1) := by
      unfold pipe
      rw [hrd]
    rw [hfail]
    exact .inl ⟨rfl, rfl, rfl⟩
  obtain ⟨hlt, hb⟩ := newResource_some hrd
  rcases hwr : (s.setSlot p rd (some none)).newResource p with _ | wr
  · have hfail : s.pipe p = ((s.setSlot p rd (some none)).freeResource p rd, -1) := by
      unfold pipe
      rw [hrd]
      dsimp only
      rw [hwr]
    have hret : (s.pipe p).2 = -1 := by rw [hfail]
    exact .inl ⟨hret, pipe_failed hret, by rw [hfail, freeResource_live]; rfl⟩
  · obtain ⟨-, hb'⟩ := newResource_some hwr
    have hne : wr ≠ rd := by
      rintro rfl
      simp at hb'
    rw [setSlot_of_ne _ hne] at hb'
    refine .inr ⟨rd, wr, hlt, hne, hb, hb', ?_⟩
    unfold pipe
    rw [hrd]
    dsimp only
    rw [hwr]
    rfl

lemma pipe_refers {e : PipeEnd} (h : s.Refers e) : (s.pipe p).1.Refers e := by
  rcases pipe_cases s p with ⟨-, hb, hl⟩ | ⟨rd, wr, -, hne, hrd, hwr, hpipe⟩
  · unfold Refers
    rwa [hb, hl]
  obtain ⟨q, hq, j, hj, hqj⟩ := h
  have hkeep : ∀ i, s.bindings p i = none → ¬ (q = p ∧ j = i) := by
    rintro i hi ⟨rfl, rfl⟩
    simp [hi] at hqj
  refine ⟨q, ?_, j, hj, ?_⟩
  · rwa [hpipe]
  · simp only [hpipe, setSlot_bindings, if_neg (hkeep wr hwr), if_neg (hkeep rd hrd), hqj]

end DescState

namespace PipeState

variable {P : Type*} [DecidableEq P] {s t : PipeState P}

lemma settle_waitingWrite (s : PipeState P) (t : DescState P) (k : ℕ) :
    (s.settle t k).waitingWrite = (s.streams k).waitingWrite := by
  simp only [settle, List.foldl_cons]
  split_ifs <;> simp [StreamState.closeHandle_waitingWrite]

lemma init_released : (init : PipeState P).Released := fun _ _ => rfl

lemma step_pipe {p : P} {data : ℕ → UInt8} (hs : s.step (.pipe p data) = some t) : t.table = (s.table.pipe p).1 ∧
      ∀ k, t.streams k = s.streams k ∨ t.streams k = .init (pipeStream data) := by
  simp only [step] at hs
  split_ifs at hs with hg hret
  · have heq := some.inj hs
    refine ⟨by rw [← heq], fun k => ?_⟩
    rw [← heq]
    rcases eq_or_ne k s.table.heap.next with rfl | hne
    · exact .inr (update_self ..)
    · exact .inl (update_of_ne hne ..)
  · have heq := some.inj hs
    exact ⟨by rw [← heq], fun k => .inl (by rw [← heq])⟩

lemma stream_released {k : ℕ} {a : StreamAct P} {st : StreamState P}
    (hs : (s.streams k).step a = some st) (h : s.Released) :
    ({ s with streams := update s.streams k st } : PipeState P).Released ↔
      s.table.Refers (k, .read) ∨ ¬ (s.streams k).Parks a := by
  obtain ⟨hparks, hkeeps⟩ := StreamState.step_waitingWrite hs
  constructor
  · intro ht
    by_contra hno
    obtain ⟨hread, hpark⟩ := not_or.1 hno
    have hst := ht k hread
    simp only [update_self] at hst
    exact hparks (not_not.1 hpark) hst
  · intro hok j hj
    rcases eq_or_ne j k with rfl | hjk
    · simp only [update_self]
      exact hkeeps (hok.resolve_left hj) (h j hj)
    · simp only [update_of_ne hjk]
      exact h j hj

lemma step_released {a : PipeAct P} (hs : s.step a = some t) (h : s.Released) : t.Released ↔ s.Served a := by
  cases a with
  | pipe p data =>
    obtain ⟨htable, hstreams⟩ := step_pipe hs
    refine iff_of_true (fun k hk => ?_) trivial
    rw [htable] at hk
    rcases hstreams k with hk' | hk'
    · rw [hk']
      exact h k (mt DescState.pipe_refers hk)
    · rw [hk']
      rfl
  | table a =>
    have hmap : ∃ u, s.table.step a = some u ∧ t = ⟨u, s.settle u⟩ := by
      cases a <;> simp only [step] at hs
      case pipe => simp at hs
      all_goals
        split_ifs at hs
        obtain ⟨u, hu, rfl⟩ := map_eq_some_iff.1 hs
        exact ⟨u, hu, rfl⟩
    obtain ⟨u, hu, rfl⟩ := hmap
    simp only [Released, settle_waitingWrite, Served, mem_def, hu, some.injEq, forall_eq']
    constructor
    · intro ht p _ i _ k _
      by_cases hr : u.Refers (k, .read)
      · exact .inl hr
      · exact .inr (ht k hr)
    · intro hok k hk
      by_cases hr : s.table.Refers (k, .read)
      · obtain ⟨p, hp, i, hi, hb⟩ := hr
        exact (hok p hp i hi k hb).resolve_left hk
      · exact h k hr
  | call p k call =>
    simp only [step] at hs
    split_ifs at hs
    obtain ⟨st, hst, rfl⟩ := map_eq_some_iff.1 hs
    exact stream_released hst h
  | resume p k =>
    obtain ⟨st, hst, rfl⟩ := map_eq_some_iff.1 hs
    exact stream_released hst h
  | unblock p k =>
    obtain ⟨st, hst, rfl⟩ := map_eq_some_iff.1 hs
    exact (stream_released hst h).trans (iff_of_true (.inr id) trivial)

end PipeState

section Main

variable {P : Type*} [DecidableEq P] {s : PipeState P}

/-- No thread waits for room in a pipe whose read end no slot refers to, until a read end goes while one
waits or a later `write` finds no room. -/
theorem writers_released (h : Reaches step PipeState.Served (init : PipeState P) s) :
    s.Released ∧ ∀ a t, s.step a = some t → ¬ s.Served a → ¬ t.Released := by
  have hs : s.Released := h.invariant init_released fun _ _ _ hs hok hstep => (step_released hstep hs).2 hok
  exact ⟨hs, fun a t hstep hno ht => hno ((step_released hstep hs).1 ht)⟩

end Main

section Runs

instance (v : Option DescPtr) (Q : ℕ → Prop) [DecidablePred Q] : Decidable (∀ k, v = some (some (k, .read)) → Q k) :=
  match v with
  | some (some (k, .read)) => decidable_of_iff (Q k) (by simp)
  | some (some (_, .write)) => isTrue (by simp)
  | some none => isTrue (by simp)
  | none => isTrue (by simp)

instance {ι : Type*} (s : StreamState ι) (a : StreamAct ι) : Decidable (s.Parks a) := by
  unfold StreamState.Parks
  split
  · infer_instance
  · split <;> infer_instance
  · infer_instance

instance {P : Type*} [Fintype P] (s : DescState P) (e : PipeEnd) : Decidable (s.Refers e) :=
  decidable_of_iff (∃ p, s.live p = true ∧
      ((List.range' 0 maxCount).any fun i => decide (s.bindings p i = some (some e))) = true) <| by
    simp only [DescState.Refers, List.any_eq_true, List.mem_range'_1, Nat.zero_le, true_and,
      Nat.zero_add, decide_eq_true_eq]

instance {P : Type*} [DecidableEq P] [Fintype P] (s : PipeState P) (a : PipeAct P) : Decidable (s.Served a) := by
  cases a <;> unfold PipeState.Served <;> infer_instance

theorem writers_released_room : ∃ s : PipeState (Fin 1), ¬ s.table.Refers (0, .read) ∧
      (s.streams 0).inserted.length = 511 ∧ s.Released := by
  obtain ⟨s, hs, hr, hlen⟩ : ∃ s : PipeState (Fin 1),
      Reaches step PipeState.Served init s ∧ ¬ s.table.Refers (0, .read) ∧ (s.streams 0).inserted.length = 511 :=
    exists_of_run [.table (.spawn 0), .pipe 0 fun _ => 0, .call 0 0 (.write (List.replicate 510 7)),
      .unblock 0 0, .table (.close 0 0 none), .call 0 0 (.write [8]), .unblock 0 0] (by decide +kernel)
  exact ⟨s, hr, hlen, (writers_released hs).1⟩

/-- A process gives the read end up and fills the pipe. Its next `write` waits for a reader. -/
theorem writer_left_waiting : ∃ s : PipeState (Fin 1), Reaches step Any init s ∧
      ¬ s.table.Refers (0, .read) ∧ (s.streams 0).waitingWrite = [0] ∧ (s.streams 0).stream.closed = false :=
  exists_of_run [.table (.spawn 0), .pipe 0 fun _ => 0, .table (.close 0 0 none),
    .call 0 0 (.write (List.replicate 511 7)), .unblock 0 0, .call 0 0 (.write [8])]
    (by decide +kernel)

end Runs

end OlliOS
