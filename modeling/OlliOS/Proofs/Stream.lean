import OlliOS.Stream

/-!
# A stream is a first-in first-out queue

In every run the bytes taken followed by the bytes buffered are the bytes stored (`StreamInv`).
-/

namespace OlliOS

open Stepping List Option StreamState Returned UInt32 RingBuffer OlliOS.Stream

namespace Stream

variable {fresh : Bool} {st : Stream} {i j : UInt32}

lemma Ok.put (h : st.Ok) (b : UInt8) : (st.put b).Ok := ⟨h.size_lt, h.read_lt, next_lt h.write_lt⟩

lemma Ok.drop (h : st.Ok) : st.drop.Ok := ⟨h.size_lt, next_lt h.read_lt, h.write_lt⟩

lemma Ok.length_buffered (h : st.Ok) : st.buffered.length < st.size := by
  rw [buffered, length_contents]
  exact fill_lt h.read_lt h.write_lt

lemma Ok.buffered_eq_nil_iff (h : st.Ok) : st.buffered = [] ↔ st.read = st.write :=
  contents_eq_nil_iff h.read_lt

lemma Ok.getSize_eq (h : st.Ok) : st.getSize = if st.read = st.write then st.size else st.buffered.length := by
  have hread := h.read_lt
  rw [buffered, length_contents]
  unfold getSize fill
  split_ifs <;> omega

/-- A section of a call on `st` that started at the index `i` has moved the bytes `moved`. -/
structure Moved (st : Stream) (i : UInt32) (fresh : Bool) (r : Stream × List UInt8 × Exit) : Prop where
  ok : r.1.Ok
  size : r.1.size = st.size
  closed : r.1.closed = st.closed
  leave : ∀ j, r.2.2 = .leave j → j = i + ofNat r.2.1.length
  park : ∀ j, r.2.2 = .park j → j = i ∧ r.2.1 = [] ∧ fresh = false

lemma Moved.nil {x : Exit} (h : st.Ok)
    (hx : x = .leave i ∨ x = .park i ∧ fresh = false) : st.Moved i fresh (st, [], x) := by
  refine ⟨h, rfl, rfl, fun j hj => ?_, fun j hj => ?_⟩
  · rcases hx with rfl | ⟨rfl, -⟩
    · simpa using hj.symm
    · simp at hj
  · rcases hx with rfl | ⟨rfl, hf⟩
    · simp at hj
    · exact ⟨by simpa using hj.symm, rfl, hf⟩

lemma Moved.cons {st' : Stream} {b : UInt8}
    {r : Stream × List UInt8 × Exit} (h : st'.Moved (i + 1) true r) (hs : st'.size = st.size)
    (hc : st'.closed = st.closed) : st.Moved i fresh (r.1, b :: r.2.1, r.2.2) := by
  refine ⟨h.ok, h.size.trans hs, h.closed.trans hc, fun j hj => ?_, fun j hj => ?_⟩
  · rw [h.leave j hj, length_cons, UInt32.ofNat_add, UInt32.add_comm (UInt32.ofNat _), ← UInt32.add_assoc]
    rfl
  · simpa using (h.park j hj).2.2

lemma writeLoop_spec : ∀ (bs : List UInt8) {st : Stream} (i : UInt32) (written : Bool), st.Ok →
    st.Moved i written (st.writeLoop i written bs) ∧
      (st.writeLoop i written bs).1.buffered = st.buffered ++ (st.writeLoop i written bs).2.1 ∧
      (st.writeLoop i written bs).2.1 <+: bs
  | [], st, i, written, h => ⟨.nil h (.inl rfl), by simp [writeLoop], by simp [writeLoop]⟩
  | b :: bs, st, i, written, h => by
    unfold writeLoop
    split_ifs with hfull hw
    · exact ⟨.nil h (.inl rfl), by simp, by simp⟩
    · exact ⟨.nil h (.inr ⟨rfl, by simpa using hw⟩), by simp, by simp⟩
    · obtain ⟨hm, hbuf, hpre⟩ := writeLoop_spec bs (i + 1) true (h.put b)
      refine ⟨hm.cons rfl rfl, ?_, cons_prefix_cons.2 ⟨rfl, hpre⟩⟩
      have hput : (st.put b).buffered = st.buffered ++ [b] := contents_push h.read_lt h.write_lt hfull b
      rw [hbuf, hput, append_assoc, singleton_append]

lemma readLoop_spec : ∀ (n : ℕ) {st : Stream} (i : UInt32) (read : Bool), st.Ok →
    st.Moved i read (st.readLoop i read n) ∧
      st.buffered = (st.readLoop i read n).2.1 ++ (st.readLoop i read n).1.buffered ∧
      (st.readLoop i read n).2.1.length ≤ n
  | 0, st, i, read, h => ⟨.nil h (.inl rfl), by simp [readLoop], by simp [readLoop]⟩
  | n + 1, st, i, read, h => by
    unfold readLoop
    split_ifs with hempty hr
    · exact ⟨.nil h (.inl rfl), by simp, by simp⟩
    · exact ⟨.nil h (.inr ⟨rfl, by simp_all⟩), by simp, by simp⟩
    · obtain ⟨hm, hbuf, hlen⟩ := readLoop_spec n (i + 1) true h.drop
      refine ⟨hm.cons rfl rfl, ?_, by simpa using hlen⟩
      have hdrop : st.buffered = st.data st.read :: st.drop.buffered :=
        contents_pop h.read_lt h.write_lt hempty
      rw [hdrop, hbuf, cons_append]

lemma readLoop_leave_nil : ∀ {n : ℕ}, n ≠ 0 → (st.readLoop i false n).2 = ([], .leave j) →
    (st.readLoop i false n).1 = st ∧ st.closed = true ∧ st.read = st.write
  | n + 1, _, h => by
    unfold readLoop at h ⊢
    split_ifs at h ⊢ with hempty hc
    · simpa [hempty] using hc
    · simp at h
    · simp at h

lemma readLoop_park {read : Bool} : ∀ {n : ℕ}, (st.readLoop i read n).2.2 = .park j → n ≠ 0
  | 0, h => by simp [readLoop] at h
  | n + 1, _ => by simp

lemma loop_moved (h : st.Ok) : ∀ call : Call, st.Moved 0 false (st.loop 0 call)
  | .write _ => (writeLoop_spec _ 0 false h).1
  | .read _ => (readLoop_spec _ 0 false h).1

lemma loop_park (st : Stream) : ∀ (call : Call) (j : UInt32), (st.loop 0 call).2.2 = .park j → call ≠ .read 0
  | .write _, _, _ => by simp
  | .read count, j, h => by
    rintro ⟨⟩
    exact readLoop_park h rfl

lemma length_loop_lt (h : st.Ok) : ∀ call : Call, (st.loop 0 call).2.1.length < 2 ^ 31
  | .write buffer => by
    obtain ⟨hm, hbuf, -⟩ := writeLoop_spec (buffer.drop 0) 0 false h
    have hlen := hm.ok.length_buffered
    rw [hbuf, length_append] at hlen
    have := hm.ok.size_lt
    simp only [loop, UInt32.toNat_zero]
    omega
  | .read count => by
    obtain ⟨-, hbuf, -⟩ := readLoop_spec (count.toNat - 0) 0 false h
    have hlen := h.length_buffered
    rw [hbuf, length_append] at hlen
    have := h.size_lt
    simp only [loop, UInt32.toNat_zero]
    omega

end Stream

def Returned.stored (e : Returned) : List UInt8 :=
  match e.call with
  | .write _ => e.moved
  | .read _ => []

def Returned.taken (e : Returned) : List UInt8 :=
  match e.call with
  | .write _ => []
  | .read _ => e.moved

/-- The bytes that were stored are the first ones of the caller's buffer, and no more bytes were taken than
were asked for. -/
def Returned.Transfers (e : Returned) : Prop :=
  match e.call with
  | .write buffer => e.moved <+: buffer
  | .read count => e.moved.length ≤ count.toNat

/-- The invariant of a stream with any number of callers. A parked call has moved nothing, so the
bytes moved are those of the calls that have returned. -/
structure StreamInv {ι : Type*} (size : ℕ) (s : StreamState ι) : Prop where
  ok : s.stream.Ok
  size_eq : s.stream.size = size
  fifo : s.removed ++ s.stream.buffered = s.inserted
  parked : ∀ c call i moved, s.pc c = .parked call i moved → i = 0 ∧ moved = [] ∧ call ≠ .read 0
  ret : ∀ e ∈ s.log, e.ret = e.moved.length ∧ e.Transfers
  inserted : s.inserted = s.log.flatMap stored
  removed : s.removed = s.log.flatMap taken

namespace StreamInv

variable {ι : Type*} {size : ℕ} {s : StreamState ι} {st : Stream} {a : StreamAct ι} {s' : StreamState ι}

lemma init (h : st.Ok) (hempty : st.read = st.write) : StreamInv st.size (init st : StreamState ι) where
  ok := h
  size_eq := rfl
  fifo := by simp [StreamState.init, h.buffered_eq_nil_iff.2 hempty]
  parked := by simp [StreamState.init]
  ret := by simp [StreamState.init]
  inserted := by simp [StreamState.init]
  removed := by simp [StreamState.init]

lemma toInt_ofNat {n : ℕ} (h : n < 2 ^ 31) : (ofNat n).toBitVec.toInt = n := by
  have hn : (ofNat n).toBitVec.toNat = n := by
    simp only [toBitVec_ofNat', BitVec.toNat_ofNat]
    omega
  rw [BitVec.toInt_eq_toNat_of_lt (by omega), hn]

lemma record_fifo (h : StreamInv size s) : ∀ call : Call,
    (s.record call (s.stream.loop 0 call).1 (s.stream.loop 0 call).2.1).removed ++ (s.stream.loop 0 call).1.buffered
      = (s.record call (s.stream.loop 0 call).1 (s.stream.loop 0 call).2.1).inserted
  | .write buffer => by
    obtain ⟨-, hbuf, -⟩ := writeLoop_spec (buffer.drop 0) 0 false h.ok
    simp only [StreamState.record, Stream.loop, UInt32.toNat_zero]
    rw [hbuf, ← append_assoc, h.fifo]
  | .read count => by
    obtain ⟨-, hbuf, -⟩ := readLoop_spec (count.toNat - 0) 0 false h.ok
    simp only [StreamState.record, Stream.loop, UInt32.toNat_zero]
    rw [append_assoc, ← hbuf, h.fifo]

lemma transfers_loop (h : StreamInv size s) (ret : Int) (after : Stream) : ∀ call : Call,
    Returned.Transfers ⟨call, ret, (s.stream.loop 0 call).2.1, after⟩
  | .write buffer => (writeLoop_spec (buffer.drop 0) 0 false h.ok).2.2
  | .read count => (readLoop_spec (count.toNat - 0) 0 false h.ok).2.2

variable [DecidableEq ι]

lemma runLoop (h : StreamInv size s) (c : ι) (call : Call) : StreamInv size (s.runLoop c call 0 []) := by
  have hm := loop_moved h.ok call
  have htransfers := fun ret after => h.transfers_loop ret after call
  have hlen := length_loop_lt h.ok call
  have hfifo := h.record_fifo call
  have hpark := loop_park s.stream call
  unfold StreamState.runLoop
  generalize s.stream.loop 0 call = r at hm htransfers hlen hfifo hpark ⊢
  obtain ⟨st, moved, x⟩ := r
  cases x with
  | leave j =>
    have hj : j.toBitVec.toInt = moved.length := by rw [hm.leave j rfl, UInt32.zero_add, toInt_ofNat hlen]
    refine ⟨?_, ?_, ?_, ?_, ?_, ?_, ?_⟩
    · cases call <;> exact hm.ok
    · cases call <;> exact hm.size.trans h.size_eq
    · cases call <;> exact hfifo
    · intro c' call' i moved' hc'
      simp only [release, Function.update_apply] at hc'
      split_ifs at hc'
      cases call <;> exact h.parked c' call' i moved' hc'
    · intro e he
      cases call <;> simp only [release, mem_append, mem_singleton] at he <;> rcases he with he | rfl
      all_goals first | exact h.ret e he | exact ⟨hj, htransfers _ _⟩
    · cases call <;> simp [release, record, h.inserted, stored]
    · cases call <;> simp [release, record, h.removed, taken]
  | park j =>
    obtain ⟨hj, hmoved, -⟩ := hm.park j rfl
    have hcall := hpark j rfl
    subst hj hmoved
    refine ⟨?_, ?_, ?_, ?_, ?_, ?_, ?_⟩
    · cases call <;> exact hm.ok
    · cases call <;> exact hm.size.trans h.size_eq
    · cases call <;> exact hfifo
    · intro c' call' i moved' hc'
      have hrest : s.pc c' = .parked call' i moved' → _ := h.parked c' call' i moved'
      cases call <;> simp only [release, Function.update_apply] at hc' <;> split_ifs at hc' <;> try exact hrest hc'
      all_goals
        obtain ⟨rfl, rfl, rfl⟩ := hc'
        exact ⟨rfl, rfl, hcall⟩
    · cases call <;> exact h.ret
    · cases call <;> simp [release, record, h.inserted]
    · cases call <;> simp [release, record, h.removed]

lemma release_closed (h : StreamInv size s) (c : ι) (call : Call) :
    StreamInv size (s.release c call [] (.leave 0)) := by
  refine { h with parked := ?_, ret := ?_, inserted := ?_, removed := ?_ }
  · intro c' call' i moved' hc'
    simp only [release, Function.update_apply] at hc'
    split_ifs at hc'
    exact h.parked c' call' i moved' hc'
  · intro e he
    simp only [release, mem_append, mem_singleton] at he
    rcases he with he | rfl
    · exact h.ret e he
    · cases call <;> simp [Transfers]
  · cases call <;> simp [release, h.inserted, stored]
  · cases call <;> simp [release, h.removed, taken]

lemma step (h : StreamInv size s) (hs : s.step a = some s') : StreamInv size s' := by
  cases a with simp only [StreamState.step] at hs
  | call c call =>
    split_ifs at hs
    cases hs
    exact h.runLoop c call
  | resume c =>
    split at hs
    · rename_i call i moved hpc
      obtain ⟨rfl, rfl, -⟩ := h.parked c call i moved hpc
      split_ifs at hs <;> simp only [some.injEq] at hs <;> subst hs
      · exact h.release_closed c call
      · exact h.runLoop c call
    · simp at hs
  | unblock c =>
    split at hs
    · rename_i call hpc
      cases hs
      cases call <;> simp only [unblockFirst] <;> split_ifs
      all_goals try exact { h with }
      all_goals
        refine { h with parked := fun c' call' i moved' hc' => ?_ }
        simp only [getD_none, Function.update_apply] at hc'
        split_ifs at hc'
        exact h.parked c' call' i moved' hc'
    · simp at hs
  | close =>
    cases hs
    exact { h with ok := ⟨h.ok.size_lt, h.ok.read_lt, h.ok.write_lt⟩ }

lemma of_create {data : ℕ → UInt8} (hsize : 0 < size)
    (hst : create size data = some st) {ok : StreamState ι → StreamAct ι → Prop}
    (h : Reaches StreamState.step ok (StreamState.init st) s) : StreamInv size s := by
  unfold create at hst
  split_ifs at hst with hlt
  cases hst
  have hok : (⟨size, data, 0, 0, false⟩ : Stream).Ok :=
    ⟨Nat.lt_of_le_of_lt (Nat.le_max_left size 2) hlt, hsize, hsize⟩
  exact h.invariant (init hok rfl) fun _ _ _ hI _ hs => hI.step hs

lemma runLoop_log (h : StreamInv size s) {c : ι} {call : Call} {e : Returned}
    (he : e ∈ (s.runLoop c call 0 []).log) : e ∈ s.log ∨ e.prematureEof = false := by
  cases call with
  | write buffer =>
    unfold StreamState.runLoop at he
    rcases hx : (s.stream.loop 0 (.write buffer)).2.2 with j | j <;>
      simp only [hx, release, mem_append, mem_singleton] at he
    · exact he.imp_right fun h => by rw [h]; rfl
    · exact .inl he
  | read count =>
    have hok := h.ok
    have hm := loop_moved hok (.read count)
    have hlen := length_loop_lt hok (.read count)
    unfold StreamState.runLoop at he
    rcases hx : (s.stream.loop 0 (.read count)).2.2 with j | j <;>
      simp only [hx, release, record, mem_append, mem_singleton] at he
    · refine he.imp_right fun h => ?_
      by_cases hmoved : (s.stream.loop 0 (.read count)).2.1 = []
      · by_cases hcount : count = 0
        · simp [h, hcount, prematureEof]
        · have hn : count.toNat - 0 ≠ 0 := by
            rwa [Nat.sub_zero, ← UInt32.toNat_zero, Ne, UInt32.toNat_inj]
          obtain ⟨hst, hclosed, hempty⟩ := readLoop_leave_nil hn (Prod.ext hmoved hx)
          have hafter : (s.stream.loop 0 (.read count)).1 = s.stream := hst
          simp [h, prematureEof, hafter, hclosed, hok.buffered_eq_nil_iff.2 hempty]
      · have hj : j.toBitVec.toInt ≠ 0 := by
          rw [hm.leave j hx, UInt32.zero_add, toInt_ofNat hlen]
          simpa using hmoved
        simp [h, prematureEof, hj]
    · exact .inl he

lemma step_log (h : StreamInv size s) (hs : s.step a = some s') (hlog : ∀ e ∈ s.log, e.prematureEof = false) :
    (∀ e ∈ s'.log, e.prematureEof = false) ↔ s.NoLateReader a := by
  cases a with
  | call c call =>
    simp only [StreamState.step] at hs
    split_ifs at hs
    cases hs
    exact iff_of_true (fun e he => (h.runLoop_log he).elim (hlog e) id) rfl
  | resume c =>
    simp only [StreamState.step] at hs
    split at hs
    · rename_i call i moved hpc
      obtain ⟨rfl, rfl, hcall⟩ := h.parked c call i moved hpc
      simp only [StreamState.NoLateReader, lateReader, hpc]
      split_ifs at hs with hw hclosed <;> simp only [some.injEq] at hs <;> subst hs
      · cases call with
        | write buffer => simpa [release, or_imp, forall_and, prematureEof] using hlog
        | read count =>
          have hcount : count ≠ 0 := by rintro rfl; exact hcall rfl
          simp only [release, mem_append, or_imp, forall_and]
          rw [and_iff_right hlog]
          simp [prematureEof, hcount, hclosed, h.ok.buffered_eq_nil_iff]
      · have hgood : ∀ e ∈ (s.runLoop c call 0 []).log, e.prematureEof = false :=
          fun e he => (h.runLoop_log he).elim (hlog e) id
        refine iff_of_true hgood ?_
        cases call <;> simp [hclosed]
    · simp at hs
  | unblock c =>
    refine iff_of_true ?_ rfl
    simp only [StreamState.step] at hs
    split at hs
    · rename_i call hpc
      cases hs
      cases call <;> simp only [unblockFirst] <;> split_ifs <;> exact hlog
    · simp at hs
  | close =>
    simp only [StreamState.step, some.injEq] at hs
    subst hs
    exact iff_of_true hlog rfl

end StreamInv

section Main

variable {ι : Type*} [DecidableEq ι] {size : ℕ} {st : Stream} {data : ℕ → UInt8}
  {s : StreamState ι}

/-- In every interleaving of any number of calls at most `size - 1` bytes are buffered, every call returns
the number of bytes it moved, and what was taken and is buffered is what was stored, in order. -/
theorem stream_fifo (hsize : 2 ≤ size) (hst : create size data = some st) (h : Reaches step Any (init st) s) :
    s.stream.read < size ∧ s.stream.write < size ∧ s.stream.buffered.length ≤ size - 1 ∧
      (∀ e ∈ s.log, e.ret = e.moved.length ∧ e.Transfers) ∧
      s.inserted = s.log.flatMap Returned.stored ∧ s.removed = s.log.flatMap Returned.taken ∧
      s.removed ++ s.stream.buffered = s.inserted := by
  have hI := StreamInv.of_create (by omega) hst h
  have hr := hI.ok.read_lt
  have hw := hI.ok.write_lt
  have hb := hI.ok.length_buffered
  rw [hI.size_eq] at hr hw hb
  exact ⟨hr, hw, by omega, hI.ret, hI.inserted, hI.removed, hI.fifo⟩

theorem stream_fifo_wrap : ∃ s : StreamState (Fin 2), s.stream.buffered = [3] ∧ s.removed = [1, 2] ∧
      (∀ e ∈ s.log, e.ret = e.moved.length ∧ e.Transfers) := by
  obtain ⟨s, hs, hb, hr⟩ : ∃ s : StreamState (Fin 2), Reaches step Any (init ⟨3, fun _ => 0, 0, 0, false⟩) s ∧
      s.stream.buffered = [3] ∧ s.removed = [1, 2] :=
    exists_of_run [.call 1 (.read 5), .call 0 (.write [1, 2, 3]), .unblock 0, .unblock 0,
      .resume 1, .call 0 (.write [3])] (by decide)
  have hst : create 3 (fun _ => 0) = some ⟨3, fun _ => 0, 0, 0, false⟩ := rfl
  exact ⟨s, hb, hr, (stream_fifo (by decide) hst hs).2.2.2.1⟩

/-- The size that is reported is the number of bytes that were stored and not taken, unless that is 0: then
it is the size of the ring. -/
theorem stream_size_iff (hsize : 2 ≤ size) (hst : create size data = some st) (h : Reaches step Any (init st) s) :
    (s.removed.length + s.stream.getSize = s.inserted.length ↔ s.removed.length ≠ s.inserted.length) ∧
      (s.removed.length = s.inserted.length → s.stream.getSize = size) := by
  have hI := StreamInv.of_create (by omega) hst h
  have hlength := congrArg List.length hI.fifo
  have hempty := hI.ok.buffered_eq_nil_iff
  rw [← length_eq_zero_iff] at hempty
  rw [length_append] at hlength
  rw [hI.ok.getSize_eq, hI.size_eq]
  split_ifs with heq
  · have hzero := hempty.2 heq
    omega
  · have hpos := mt hempty.1 heq
    omega

theorem stream_size_wrap : ∃ s : StreamState (Fin 2), s.stream.write < s.stream.read ∧
    s.removed.length + s.stream.getSize = s.inserted.length := by
  obtain ⟨s, hs, hwrap, hne⟩ : ∃ s : StreamState (Fin 2), Reaches step Any
      (init ⟨3, fun _ => 0, 0, 0, false⟩) s ∧ s.stream.write < s.stream.read ∧
      s.removed.length ≠ s.inserted.length :=
    exists_of_run [.call 0 (.write [1, 2]), .unblock 0, .call 0 (.read 2), .unblock 0, .call 0 (.write [3])]
      (by decide)
  have hst : create 3 (fun _ => 0) = some ⟨3, fun _ => 0, 0, 0, false⟩ := rfl
  exact ⟨s, hwrap, (stream_size_iff (by omega) hst hs).1.2 hne⟩

/-- Everything has been read, and the ring of three slots reports three bytes. -/
theorem stream_size_full : ∃ s : StreamState (Fin 1), Reaches step Any (init ⟨3, fun _ => 0, 0, 0, false⟩) s ∧
      s.inserted = [1] ∧ s.removed = [1] ∧ s.stream.getSize = 3 :=
  exists_of_run [.call 0 (.write [1]), .unblock 0, .call 0 (.read 1)] (by decide)

/-- A `read` of at least one byte that returned 0 left a closed and empty stream, until a parked reader gets
the mutex back while the stream is closed with bytes in its buffer. -/
theorem eof_not_premature (hsize : 0 < size) (hst : create size data = some st)
    (h : Reaches StreamState.step StreamState.NoLateReader (StreamState.init st) s) :
    (∀ e ∈ s.log, e.prematureEof = false) ∧ ∀ a s', s.step a = some s' → ¬ s.NoLateReader a →
        ∃ e ∈ s'.log, e.prematureEof = true := by
  have hI := StreamInv.of_create hsize hst h
  have hlog : ∀ e ∈ s.log, e.prematureEof = false := by
    have hboth : StreamInv size s ∧ ∀ e ∈ s.log, e.prematureEof = false :=
      h.invariant (I := fun s => StreamInv size s ∧ ∀ e ∈ s.log, e.prematureEof = false)
        ⟨StreamInv.of_create hsize hst (Reaches.refl _ : Reaches _ Any _ _), by
          simp [StreamState.init]⟩
        fun _ _ _ ⟨hI, hl⟩ hok hs => ⟨hI.step hs, (hI.step_log hs hl).2 hok⟩
    exact hboth.2
  refine ⟨hlog, fun a s' hs ha => ?_⟩
  by_contra hno
  refine ha ((hI.step_log hs hlog).1 fun e he => ?_)
  by_contra he'
  exact hno ⟨e, he, by simpa using he'⟩

/-- A byte is written before the close and read after it by a reader that had not parked; the next
`read` returns 0. -/
theorem eof_not_premature_drained : ∃ s : StreamState (Fin 2), s.removed = [7] ∧ s.log.length = 3 ∧
      ∀ e ∈ s.log, e.prematureEof = false := by
  obtain ⟨s, hs, hr, hl⟩ : ∃ s : StreamState (Fin 2), Reaches step
      StreamState.NoLateReader (init ⟨512, fun _ => 0, 0, 0, false⟩) s ∧
      s.removed = [7] ∧ s.log.length = 3 :=
    exists_of_run [.call 0 (.write [7]), .close, .call 1 (.read 4), .unblock 1, .call 1 (.read 4)] (by decide)
  have hst : create 512 (fun _ => 0) = some ⟨512, fun _ => 0, 0, 0, false⟩ := rfl
  exact ⟨s, hr, hl, (eof_not_premature (by decide) hst hs).1⟩

/-- A reader that parked gets the mutex only after the write end is destroyed, and returns 0 with a byte
left in the buffer. -/
theorem read_zero_with_data : ∃ s : StreamState (Fin 2), Reaches step Any (init ⟨512, fun _ => 0, 0, 0, false⟩) s ∧
      ∃ e ∈ s.log, e.call = .read 4 ∧ e.ret = 0 ∧ e.after.buffered = [7] :=
  exists_of_run [.call 1 (.read 4), .call 0 (.write [7]), .unblock 0, .unblock 0, .close, .resume 1] (by decide)

end Main

end OlliOS
