import OlliOS.ChunkedStream
import OlliOS.Proofs.Stream

/-!
# Whole chunks

If a full ring holds a multiple of the chunk size, every section moves whole chunks (`ChunkInv`). Otherwise
a writer fills the ring in the middle of a chunk (`torn`).
-/

set_option linter.unusedSectionVars false

namespace OlliOS

open Function Stepping List Option ChunkState Call StreamState UInt32 RingBuffer Stream

namespace Stream

variable {st : Stream} {c : ℕ}

lemma Ok.next_eq_iff (h : st.Ok) : next st.size st.write = st.read ↔ st.buffered.length + 1 = st.size := by
  rw [buffered, length_contents]
  exact RingBuffer.next_eq_iff h.read_lt h.write_lt

lemma Ok.buffered_put (h : st.Ok) (hroom : next st.size st.write ≠ st.read) (b : UInt8) :
    (st.put b).buffered = st.buffered ++ [b] :=
  contents_push h.read_lt h.write_lt hroom b

lemma Ok.buffered_drop (h : st.Ok) (hne : st.read ≠ st.write) : st.buffered = st.data st.read :: st.drop.buffered :=
  contents_pop h.read_lt h.write_lt hne

lemma writeLoop_length : ∀ (bs : List UInt8) {st : Stream} (i : UInt32) (written : Bool), st.Ok →
    (st.writeLoop i written bs).2.1.length = min bs.length (st.size - 1 - st.buffered.length)
  | [], st, i, written, h => by simp [writeLoop]
  | b :: bs, st, i, written, h => by
    unfold writeLoop
    split_ifs with hfull hw
    · have := h.next_eq_iff.1 hfull
      simp only [length_nil]
      omega
    · have := h.next_eq_iff.1 hfull
      simp only [length_nil]
      omega
    · have hlen := writeLoop_length bs (i + 1) true (h.put b)
      have hroom := h.length_buffered
      have hne := mt h.next_eq_iff.2 hfull
      rw [h.buffered_put hfull, length_append, length_singleton] at hlen
      change _ = min _ (st.size - 1 - _) at hlen
      simp only [length_cons]
      omega

lemma readLoop_length : ∀ (n : ℕ) {st : Stream} (i : UInt32) (read : Bool), st.Ok →
    (st.readLoop i read n).2.1.length = min n st.buffered.length
  | 0, st, i, read, h => by simp [readLoop]
  | n + 1, st, i, read, h => by
    unfold readLoop
    split_ifs with hempty hr
    · simp [h.buffered_eq_nil_iff.2 hempty]
    · simp [h.buffered_eq_nil_iff.2 hempty]
    · have hlen := readLoop_length n (i + 1) true h.drop
      rw [h.buffered_drop hempty]
      simp only [length_cons]
      omega

/-- The ring holds whole chunks, and it does when it is full. A ring of no bytes is always full. -/
structure Chunked (c : ℕ) (st : Stream) : Prop where
  ring : st.Ok ∨ st.size = 0 ∧ st.read = 0 ∧ st.write = 0
  opened : st.closed = false
  size : c ∣ st.size - 1
  fill : c ∣ st.buffered.length

end Stream

def Call.length : Call → ℕ
  | .write buffer => buffer.length
  | .read count => count.toNat

def Call.Moves (call : Call) (st st' : Stream) (moved : List UInt8) : Prop :=
  match call with
  | .write buffer => st'.buffered = st.buffered ++ moved ∧ moved <+: buffer
  | .read count => st.buffered = moved ++ st'.buffered ∧ moved.length ≤ count.toNat

structure Stream.Section (c : ℕ) (st : Stream) (call : Call) (r : Stream × List UInt8 × Exit) : Prop where
  chunked : r.1.Chunked c
  whole : c ∣ r.2.1.length
  short : r.2.1.length < 2 ^ 31
  exit : r.2.2 = .leave (ofNat r.2.1.length) ∨ r.2.2 = .park 0 ∧ r.2.1 = []
  moves : call.Moves st r.1 r.2.1

namespace Stream

variable {st : Stream} {c : ℕ} {call : Call}

lemma Moved.exit {r : Stream × List UInt8 × Exit} (h : st.Moved 0 false r) :
    r.2.2 = .leave (ofNat r.2.1.length) ∨ r.2.2 = .park 0 ∧ r.2.1 = [] := by
  rcases hx : r.2.2 with j | j
  · rw [h.leave j hx, UInt32.zero_add]
    exact .inl rfl
  · obtain ⟨rfl, hnil, -⟩ := h.park j hx
    exact .inr ⟨rfl, hnil⟩

lemma Ok.loop_moves (h : st.Ok) : ∀ call : Call, call.Moves st (st.loop 0 call).1 (st.loop 0 call).2.1
  | .write buffer => (writeLoop_spec (buffer.drop 0) 0 false h).2
  | .read count => (readLoop_spec (count.toNat - 0) 0 false h).2

variable (hs : st.Chunked c)

include hs

lemma Chunked.dvd_loop (h : st.Ok) : ∀ call : Call, c ∣ call.length → c ∣ (st.loop 0 call).2.1.length
  | .write buffer, hc => by
    have hfree : c ∣ st.size - 1 - st.buffered.length := Nat.dvd_sub hs.size hs.fill
    simp only [loop, UInt32.toNat_zero, drop_zero, writeLoop_length buffer 0 false h]
    rcases Nat.le_total buffer.length (st.size - 1 - st.buffered.length) with hle | hle
    · rwa [Nat.min_eq_left hle]
    · rwa [Nat.min_eq_right hle]
  | .read count, hc => by
    simp only [loop, UInt32.toNat_zero, Nat.sub_zero, readLoop_length _ 0 false h]
    rcases Nat.le_total count.toNat st.buffered.length with hle | hle
    · rwa [Nat.min_eq_left hle]
    · rw [Nat.min_eq_right hle]
      exact hs.fill


lemma loop_section_of_ok (h : st.Ok) (hc : c ∣ call.length) : st.Section c call (st.loop 0 call) := by
  have hm := loop_moved h call
  have hmoves := h.loop_moves call
  have hdvd := hs.dvd_loop h call hc
  refine ⟨⟨.inl hm.ok, hm.closed.trans hs.opened, by rw [hm.size]; exact hs.size, ?_⟩, hdvd,
    length_loop_lt h call, hm.exit, hmoves⟩
  cases call with
  | write buffer =>
    rw [hmoves.1, length_append]
    exact Nat.dvd_add hs.fill hdvd
  | read count =>
    have hfill := hs.fill
    rw [hmoves.1, length_append] at hfill
    exact (Nat.dvd_add_right hdvd).1 hfill

lemma loop_section_of_none (h : st.size = 0 ∧ st.read = 0 ∧ st.write = 0) : st.Section c call (st.loop 0 call) := by
  have hstay : (st.loop 0 call).1 = st ∧ (st.loop 0 call).2.1 = [] ∧
      ((st.loop 0 call).2.2 = .leave 0 ∨ (st.loop 0 call).2.2 = .park 0) := by
    cases call with
    | write buffer =>
      rcases buffer with _ | ⟨b, bs⟩
      · exact ⟨rfl, rfl, .inl rfl⟩
      · simp [loop, writeLoop, RingBuffer.next, h.1, h.2.1]
    | read count =>
      rcases hn : count.toNat with _ | n
      · simp [loop, readLoop, hn]
      · simp [loop, readLoop, hn, h.2.1, h.2.2]
  obtain ⟨hst, hnil, hexit⟩ := hstay
  refine ⟨by rwa [hst], by simp [hnil], by simp [hnil], ?_, ?_⟩
  · rcases hexit with hx | hx
    · exact .inl (by rw [hx, hnil]; rfl)
    · exact .inr ⟨hx, hnil⟩
  · rw [hst, hnil]
    cases call <;> simp [Call.Moves]

lemma Chunked.loop_section (hc : c ∣ call.length) : st.Section c call (st.loop 0 call) := by
  rcases hs.ring with h | h
  · exact loop_section_of_ok hs h hc
  · exact loop_section_of_none hs h

end Stream

namespace StreamState

variable {ι : Type*} [DecidableEq ι] {s : StreamState ι} {k : ι} {call : Call}

lemma record_stream (s : StreamState ι) (call : Call) (st : Stream) (moved : List UInt8) :
    (s.record call st moved).stream = st ∧ (s.record call st moved).log = s.log ∧
      (s.record call st moved).pc = s.pc := by
  cases call <;> exact ⟨rfl, rfl, rfl⟩

lemma runLoop_park (h : (s.stream.loop 0 call).2 = ([], .park 0)) :
    (s.runLoop k call 0 []).stream = (s.stream.loop 0 call).1 ∧
    (s.runLoop k call 0 []).inserted = s.inserted ∧ (s.runLoop k call 0 []).removed = s.removed ∧
    (s.runLoop k call 0 []).log = s.log ∧
    (s.runLoop k call 0 []).pc = update s.pc k (.parked call 0 []) := by
  unfold runLoop
  generalize s.stream.loop 0 call = r at h ⊢
  obtain ⟨st, moved, x⟩ := r
  cases h
  cases call <;> simp [release, record]

lemma runLoop_leave {j : UInt32} (h : (s.stream.loop 0 call).2.2 = .leave j) :
    (s.runLoop k call 0 []).stream = (s.stream.loop 0 call).1 ∧
    (s.runLoop k call 0 []).inserted = (s.record call (s.stream.loop 0 call).1 (s.stream.loop 0 call).2.1).inserted ∧
    (s.runLoop k call 0 []).removed = (s.record call (s.stream.loop 0 call).1 (s.stream.loop 0 call).2.1).removed ∧
    (s.runLoop k call 0 []).log = s.log ++
      [⟨call, j.toBitVec.toInt, (s.stream.loop 0 call).2.1, (s.stream.loop 0 call).1⟩] ∧
    (s.runLoop k call 0 []).pc = update s.pc k (.unblocking call) := by
  unfold runLoop
  generalize s.stream.loop 0 call = r at h ⊢
  obtain ⟨st, moved, x⟩ := r
  obtain rfl : x = .leave j := h
  obtain ⟨hst, hlog, hpc⟩ := s.record_stream call st moved
  simp only [release, hst, hlog, hpc, nil_append]
  exact ⟨trivial, trivial, trivial, trivial, trivial⟩

end StreamState

namespace Supplied

variable {c : ℕ} {calls : List Call} {data data' : List UInt8} {source source' : List Origin} {α : Type*}
  {n m : ℕ}

lemma append (h : Supplied c calls data source) (h' : Supplied c calls data' source') :
    Supplied c calls (data ++ data') (source ++ source') := by
  induction h with
  | nil => exact h'
  | chunk hcall hfits _ ih =>
    rw [append_assoc, append_assoc]
    exact .chunk hcall hfits ih

lemma more (h : Supplied c calls data source) (call : Call) : Supplied c (calls ++ [call]) data source := by
  induction h with
  | nil => exact .nil
  | chunk hcall hfits _ ih =>
    have hlt := (List.getElem?_eq_some_iff.1 hcall).1
    exact .chunk (by rwa [getElem?_append_left hlt]) hfits ih

lemma take_append_add {x y : List α} (h : x.length = n) : (x ++ y).take (n + m) = x ++ y.take m := by
  rw [← h, take_length_add_append]

lemma drop_append_add {x y : List α} (h : x.length = n) : (x ++ y).drop (n + m) = y.drop m := by
  rw [← h, drop_length_add_append]

lemma split (h : Supplied c calls data source) : ∀ n, Supplied c calls (data.take (n * c)) (source.take (n * c)) ∧
      Supplied c calls (data.drop (n * c)) (source.drop (n * c)) := by
  induction h with
  | nil =>
    intro n
    simp only [take_nil, drop_nil]
    exact ⟨.nil, .nil⟩
  | @chunk id j buffer data source hcall hfits h ih =>
    intro n
    rcases n with _ | n
    · simp only [Nat.zero_mul]
      exact ⟨.nil, .chunk hcall hfits h⟩
    have hchunk : ((buffer.drop (j * c)).take c).length = c := by
      simp only [length_take, length_drop]
      omega
    have hsource : ((List.range' (j * c) c).map fun o => (⟨id, o⟩ : Origin)).length = c := by simp
    have hn : (n + 1) * c = c + n * c := by rw [Nat.succ_mul, Nat.add_comm]
    rw [hn, take_append_add hchunk, take_append_add hsource, drop_append_add hchunk, drop_append_add hsource]
    exact ⟨.chunk hcall hfits (ih n).1, (ih n).2⟩

lemma of_part {id : ℕ} {buffer : List UInt8} (hcall : calls[id]? = some (.write buffer)) :
    ∀ (n j : ℕ), (j + n) * c ≤ buffer.length → Supplied c calls ((buffer.drop (j * c)).take (n * c))
        ((List.range' (j * c) (n * c)).map fun o => ⟨id, o⟩)
  | 0, j, _ => by
    simp only [Nat.zero_mul]
    exact .nil
  | n + 1, j, h => by
    have hn : (n + 1) * c = c + n * c := by rw [Nat.succ_mul, Nat.add_comm]
    have hj : (j + 1) * c = j * c + c := Nat.succ_mul j c
    have hsum : (j + (n + 1)) * c = j * c + (c + n * c) := by rw [Nat.add_mul, hn]
    have ih := of_part hcall n (j + 1) (by rw [Nat.add_mul, hj]; omega)
    rw [hn, take_add, drop_drop, ← range'_append_1, map_append, ← hj]
    exact .chunk hcall (by omega) ih

end Supplied

section Sizes

variable {chunk i : UInt32} {call : Call}

lemma toNat_add_ofInt {n : ℕ} (h : i.toNat + n < 2 ^ 32) : (i + .ofInt n).toNat = i.toNat + n := by
  have hofInt : (UInt32.ofInt (n : Int)).toNat = n := by
    have hmod : (n : Int) % 0x100000000 = n := Int.emod_eq_of_lt (by omega) (by omega)
    change (ofNat ((n : Int) % 0x100000000).toNat).toNat = n
    rw [hmod, Int.toNat_natCast]
    exact toNat_ofNat_of_lt' (by change n < 4294967296; omega)
  rw [UInt32.toNat_add, hofInt]
  omega

lemma Call.size_toNat (hv : call.Valid) : (call.size chunk).toNat = call.length - call.length % chunk.toNat := by
  have hsub : ∀ n : UInt32, (n - n % chunk).toNat = n.toNat - n.toNat % chunk.toNat := by
    intro n
    rw [UInt32.toNat_sub_of_le _ _ (UInt32.le_iff_toNat_le.2 ?_), UInt32.toNat_mod]
    exact Nat.mod_le _ _
  cases call with
  | write buffer =>
    have hlen : (ofNat buffer.length).toNat = buffer.length := toNat_ofNat_of_lt' hv
    simp only [size, length, hsub, hlen]
  | read count => exact hsub count

lemma Call.dvd_size (hv : call.Valid) : chunk.toNat ∣ (call.size chunk).toNat := by
  rw [size_toNat hv]
  exact Nat.dvd_sub_mod _

lemma Call.size_le (chunk : UInt32) (hv : call.Valid) : (call.size chunk).toNat ≤ call.length := by
  rw [size_toNat hv]
  exact Nat.sub_le _ _

lemma Call.rest_length (hv : call.Valid) (hi : i.toNat ≤ (call.size chunk).toNat) :
    (call.rest chunk i).length = (call.size chunk).toNat - i.toNat := by
  cases call with
  | write buffer =>
    have hle : _ ≤ buffer.length := size_le chunk hv
    simp [rest, length, Nat.min_eq_left hle]
  | read count => exact UInt32.toNat_sub_of_le _ _ (UInt32.le_iff_toNat_le.2 hi)

end Sizes

structure Progress (chunk : UInt32) (calls : List Call) (p : ChunkCall) : Prop where
  id : calls[p.id]? = some p.call
  valid : p.call.Valid
  index : chunk.toNat ∣ p.i.toNat
  le : p.i.toNat ≤ (p.call.size chunk).toNat
  supplied : Supplied chunk.toNat calls p.data p.source

structure ChunkInv {ι : Type*} (chunk : UInt32) (s : ChunkState ι) : Prop where
  ring : s.stream.stream.Chunked chunk.toNat
  fifo : s.stream.removed ++ s.stream.stream.buffered = s.stream.inserted
  origin : Supplied chunk.toNat s.calls s.stream.inserted s.origin
  removed : chunk.toNat ∣ s.stream.removed.length
  call : ∀ k p, s.pc k = some p → Progress chunk s.calls p
  parked : ∀ k call i moved, s.stream.pc k = .parked call i moved →
    i = 0 ∧ moved = [] ∧ ∃ p, s.pc k = some p ∧ call = p.call.rest chunk p.i
  reads : s.Whole chunk.toNat

namespace Progress

variable {chunk : UInt32} {calls : List Call} {p : ChunkCall} {n : ℕ}

variable (h : Progress chunk calls p)

include h

lemma dvd_rest : chunk.toNat ∣ (p.call.rest chunk p.i).length := by
  rw [rest_length h.valid h.le]
  exact Nat.dvd_sub (dvd_size h.valid) h.index

lemma toNat_add (hn : n ≤ (p.call.rest chunk p.i).length) :
    (p.i + .ofInt n).toNat = p.i.toNat + n ∧ p.i.toNat + n ≤ (p.call.size chunk).toNat := by
  rw [rest_length h.valid h.le] at hn
  have hle := h.le
  have hlt := (p.call.size chunk).toNat_lt
  exact ⟨toNat_add_ofInt (by omega), by omega⟩

lemma gain (hdvd : chunk.toNat ∣ n)
    (hn : n ≤ (p.call.rest chunk p.i).length) {data : List UInt8} {source : List Origin}
    (hsup : Supplied chunk.toNat calls data source) :
    Progress chunk calls { p with i := p.i + .ofInt n, data := data, source := source } := by
  obtain ⟨hi, hle⟩ := h.toNat_add hn
  exact ⟨h.id, h.valid, by rw [hi]; exact Nat.dvd_add h.index hdvd, by rwa [hi], hsup⟩

lemma more (call : Call) : Progress chunk (calls ++ [call]) p := by
  have hlt := (List.getElem?_eq_some_iff.1 h.id).1
  exact ⟨by rw [getElem?_append_left hlt, h.id], h.valid, h.index, h.le, h.supplied.more call⟩

end Progress

namespace ChunkInv

variable {ι : Type*} [DecidableEq ι] {chunk : UInt32} {s t : ChunkState ι} {k : ι} {p : ChunkCall}
  {call : Call} {st : StreamState ι}

lemma init {st : Stream} (h : st.Chunked chunk.toNat) (hempty : st.buffered = []) :
    ChunkInv chunk (init st : ChunkState ι) where
  ring := h
  fifo := hempty
  origin := .nil
  removed := Nat.dvd_zero _
  call := by simp [ChunkState.init]
  parked := by simp [ChunkState.init, StreamState.init]
  reads := by simp [ChunkState.init, ChunkState.Whole]

section

variable (h : ChunkInv chunk s) {q : ChunkCall} {moved : List UInt8}

include h

lemma begin (hv : call.Valid) (hk : s.pc k = none) : ChunkInv chunk { s with
      pc := update s.pc k (some ⟨s.calls.length, call, 0, [], []⟩)
      calls := s.calls ++ [call] } where
  ring := h.ring
  fifo := h.fifo
  origin := h.origin.more call
  removed := h.removed
  call k' p' hp := by
    rcases eq_or_ne k' k with rfl | hne
    · simp only [update_self] at hp
      cases hp
      exact ⟨by simp, hv, Nat.dvd_zero _, Nat.zero_le _, .nil⟩
    · simp only [update_of_ne hne] at hp
      exact (h.call k' p' hp).more call
  parked k' call' i moved hpc := by
    obtain ⟨hi, hmoved, p', hp', hcall'⟩ := h.parked k' call' i moved hpc
    have hne : k' ≠ k := by
      rintro rfl
      simp [hk] at hp'
    exact ⟨hi, hmoved, p', by simp only [update_of_ne hne, hp'], hcall'⟩
  reads e he := (h.reads e he).more call

lemma finish (hp : s.pc k = some p) (hidle : s.stream.pc k = .idle) : ChunkInv chunk (s.finish k p) where
  ring := h.ring
  fifo := h.fifo
  origin := h.origin
  removed := h.removed
  call k' p' hp' := by
    simp only [ChunkState.finish, update_apply] at hp'
    split_ifs at hp'
    exact h.call k' p' hp'
  parked k' call' i moved hpc := by
    obtain ⟨hi, hmoved, p', hp', hcall'⟩ := h.parked k' call' i moved hpc
    have hne : k' ≠ k := by
      rintro rfl
      simp only [finish, hidle] at hpc
      simp at hpc
    exact ⟨hi, hmoved, p', by simp [ChunkState.finish, update_of_ne hne, hp'], hcall'⟩
  reads e he := by
    have hread := (h.call k p hp).supplied
    simp only [ChunkState.finish] at he
    split at he
    · exact h.reads e he
    · rcases mem_append.1 he with he | he
      · exact h.reads e he
      · obtain rfl := mem_singleton.1 he
        exact hread

lemma unblock (hs : s.stream.step (.unblock k) = some st) : ChunkInv chunk { s with stream := st } := by
  simp only [StreamState.step] at hs
  split at hs
  · rename_i call hpc
    cases hs
    cases call <;> simp only [unblockFirst] <;> split_ifs
    all_goals try exact { h with }
    all_goals
      refine { h with parked := fun k' call' i moved hpc' => ?_ }
      simp only [getD_none, update_apply] at hpc'
      split_ifs at hpc'
      exact h.parked k' call' i moved hpc'
  · simp at hs

lemma parked_of_leave (hpc : st.pc = update s.stream.pc k (.unblocking call)) (k' : ι) (call' : Call) (i : UInt32)
    (moved : List UInt8) (hpark : st.pc k' = .parked call' i moved) :
    i = 0 ∧ moved = [] ∧ ∃ p, update s.pc k (some q) k' = some p ∧ call' = p.call.rest chunk p.i := by
  rw [hpc] at hpark
  rcases eq_or_ne k' k with rfl | hne
  · simp at hpark
  · rw [update_of_ne hne] at hpark ⊢
    exact h.parked k' call' i moved hpark

lemma call_of_leave (hq : Progress chunk s.calls q) (k' : ι)
    (p' : ChunkCall) (hp' : update s.pc k (some q) k' = some p') :
    Progress chunk s.calls p' := by
  rcases eq_or_ne k' k with rfl | hne
  · rw [update_self] at hp'
    cases hp'
    exact hq
  · rw [update_of_ne hne] at hp'
    exact h.call k' p' hp'

lemma store {buffer : List UInt8} (hp : s.pc k = some p) (hcall : p.call = .write buffer)
    (hpre : moved <+: (buffer.take ((write buffer).size chunk).toNat).drop p.i.toNat)
    (hwhole : chunk.toNat ∣ moved.length) :
    Supplied chunk.toNat s.calls (s.stream.inserted ++ moved)
      (s.origin ++ (List.range' p.i.toNat moved.length).map fun o => ⟨p.id, o⟩) := by
  have hprog := h.call k p hp
  have hid : s.calls[p.id]? = some (.write buffer) := hcall ▸ hprog.id
  have hfits : p.i.toNat + moved.length ≤ buffer.length := by
    have hlen := hpre.length_le
    have hle := hprog.le
    have hsize := size_le chunk hprog.valid
    rw [hcall] at hle hsize
    have hlong : ((write buffer).size chunk).toNat ≤ buffer.length := hsize
    rw [length_drop, length_take, Nat.min_eq_left hlong] at hlen
    omega
  have htake : moved = (buffer.drop p.i.toNat).take moved.length := by
    rw [drop_take] at hpre
    have hlong := hpre.trans ( take_prefix _ _)
    exact prefix_iff_eq_take.1 hlong
  obtain ⟨j, hj⟩ := hprog.index
  obtain ⟨n, hn⟩ := hwhole
  rw [Nat.mul_comm] at hj hn
  refine h.origin.append ?_
  have hpart := Supplied.of_part (c := chunk.toNat) hid n j (by rw [Nat.add_mul, ← hj, ← hn]; exact hfits)
  rwa [← hj, ← hn, ← htake] at hpart

lemma take {rest : List UInt8}
    (hbuf : s.stream.stream.buffered = moved ++ rest) (hwhole : chunk.toNat ∣ moved.length) :
    Supplied chunk.toNat s.calls moved ((s.origin.drop s.stream.removed.length).take moved.length) := by
  have hmoved : (s.stream.inserted.drop s.stream.removed.length).take moved.length = moved := by
    rw [← h.fifo, drop_left, hbuf, take_left]
  obtain ⟨m, hm⟩ := h.removed
  obtain ⟨n, hn⟩ := hwhole
  rw [Nat.mul_comm] at hm hn
  have hpart := ((h.origin.split m).2.split n).1
  rwa [← hm, ← hn, hmoved] at hpart

lemma leave (hp : s.pc k = some p) {r : Stream × List UInt8 × Exit}
    (hcall : p.call.rest chunk p.i = call) (hsec : s.stream.stream.Section chunk.toNat call r)
    (hst : st.stream = r.1) (hins : st.inserted = (s.stream.record call r.1 r.2.1).inserted)
    (hrem : st.removed = (s.stream.record call r.1 r.2.1).removed)
    (hpc : st.pc = update s.stream.pc k (.unblocking call)) :
    ChunkInv chunk { s.gain k p ⟨call, r.2.1.length, r.2.1, r.1⟩ with stream := st } := by
  have hprog := h.call k p hp
  obtain ⟨st', moved, x⟩ := r
  have hmoves := hsec.moves
  have hlen : moved.length ≤ (p.call.rest chunk p.i).length := by
    rw [hcall]
    cases call with
    | write _ => exact hmoves.2.length_le
    | read _ => exact hmoves.2
  obtain ⟨id, call0, i, data, source⟩ := p
  cases call0 with
  | write buffer =>
    subst hcall
    refine ⟨?_, ?_, ?_, ?_, ?_, h.parked_of_leave hpc, h.reads⟩
    · rw [hst]
      exact hsec.chunked
    · rw [hst, hins, hrem, hmoves.1]
      simp [record, rest, ← append_assoc, h.fifo]
    · rw [hins]
      exact h.store hp rfl hmoves.2 hsec.whole
    · rw [hrem]
      exact h.removed
    · exact h.call_of_leave (hprog.gain hsec.whole hlen hprog.supplied)
  | read count =>
    subst hcall
    refine ⟨?_, ?_, ?_, ?_, ?_, h.parked_of_leave hpc, h.reads⟩
    · rw [hst]
      exact hsec.chunked
    · rw [hst, hins, hrem]
      simp only [record, rest, append_assoc]
      rw [← hmoves.1, h.fifo]
    · rw [hins]
      exact h.origin
    · rw [hrem]
      simp only [record, rest, length_append]
      exact Nat.dvd_add h.removed hsec.whole
    · exact h.call_of_leave (hprog.gain hsec.whole hlen (hprog.supplied.append (h.take hmoves.1 hsec.whole)))

lemma advance (hp : s.pc k = some p) :
    ChunkInv chunk (s.advance k p (s.stream.runLoop k (p.call.rest chunk p.i) 0 [])) := by
  have hprog := h.call k p hp
  have hsec := h.ring.loop_section hprog.dvd_rest
  rcases hsec.exit with hx | ⟨hx, hnil⟩
  · obtain ⟨hst, hins, hrem, hlog, hpc⟩ := runLoop_leave (k := k) hx
    have hret : (ofNat (s.stream.stream.loop 0 (p.call.rest chunk p.i)).2.1.length).toBitVec.toInt
        = (s.stream.stream.loop 0 (p.call.rest chunk p.i)).2.1.length := StreamInv.toInt_ofNat hsec.short
    rw [hret] at hlog
    simp only [ChunkState.advance, hlog, drop_left]
    exact h.leave hp rfl hsec hst hins hrem hpc
  · obtain ⟨hst, hins, hrem, hlog, hpc⟩ := runLoop_park (k := k) (Prod.ext hnil hx)
    simp only [ChunkState.advance, hlog, drop_length]
    refine ⟨?_, ?_, ?_, ?_, h.call, ?_, h.reads⟩
    · rw [hst]
      exact hsec.chunked
    · have hmoves := hsec.moves
      rw [hst, hins, hrem, ← h.fifo]
      unfold Call.Moves at hmoves
      split at hmoves <;> simp [hmoves.1, hnil]
    · rw [hins]
      exact h.origin
    · rw [hrem]
      exact h.removed
    · intro k' call' i moved hpc'
      rw [hpc] at hpc'
      rcases eq_or_ne k' k with rfl | hne
      · simp only [update_self] at hpc'
        obtain ⟨rfl, rfl, rfl⟩ := hpc'
        exact ⟨rfl, rfl, p, hp, rfl⟩
      · rw [update_of_ne hne] at hpc'
        exact h.parked k' call' i moved hpc'

end

lemma step (h : ChunkInv chunk s) {a : ChunkAct ι} (hs : s.step chunk a = some t) : ChunkInv chunk t := by
  cases a with
  | begin k call =>
    simp only [ChunkState.step] at hs
    split_ifs at hs with hg
    cases hs
    exact h.begin hg.2 hg.1
  | enter k =>
    obtain ⟨p, hp, hs⟩ := bind_eq_some_iff.1 hs
    split_ifs at hs
    obtain ⟨st, hst, rfl⟩ := map_eq_some_iff.1 hs
    simp only [StreamState.step] at hst
    split_ifs at hst
    cases hst
    exact h.advance hp
  | resume k =>
    obtain ⟨p, hp, hs⟩ := bind_eq_some_iff.1 hs
    obtain ⟨st, hst, rfl⟩ := map_eq_some_iff.1 hs
    simp only [StreamState.step] at hst
    split at hst
    · rename_i call i moved hpc
      obtain ⟨rfl, rfl, p', hp', rfl⟩ := h.parked k call i moved hpc
      obtain rfl : p = p' := some.inj (hp.symm.trans hp')
      simp only [h.ring.opened, Bool.false_eq_true, if_false] at hst
      split_ifs at hst
      cases hst
      exact h.advance hp
    · simp at hst
  | unblock k =>
    obtain ⟨st, hst, rfl⟩ := map_eq_some_iff.1 hs
    exact h.unblock hst
  | finish k =>
    obtain ⟨p, hp, hs⟩ := bind_eq_some_iff.1 hs
    split_ifs at hs with hg
    cases hs
    exact h.finish hp hg.1

end ChunkInv

section Torn

variable {chunk : UInt32} {s : ChunkState ℕ} {k : ℕ} {p : ChunkCall} {filled : List Origin} {size : ℕ}
  {buffer : List UInt8} {call : Call} {count : UInt32} {n room c more : ℕ}

structure Quiet (size : ℕ) (filled : List Origin) (s : ChunkState ℕ) : Prop where
  idle : ∀ k, s.stream.pc k = .idle
  reads : s.stream.waitingRead = []
  writes : s.stream.waitingWrite = []
  ok : s.stream.stream.Ok
  size : s.stream.stream.size = size
  origin : s.origin.drop s.stream.removed.length = filled
  removed : s.stream.removed.length ≤ s.origin.length
  fill : filled.length = s.stream.stream.buffered.length

lemma reaches_call (chunk : UInt32) {r : Stream × List UInt8 × Exit}
    (h : Quiet size filled s) (hp : s.pc k = some p) (hlt : p.i < p.call.size chunk)
    (hcall : p.call.rest chunk p.i = call) (hv : call.Valid) (hr : s.stream.stream.loop 0 call = r)
    (hleave : r.2.2 = .leave (ofNat r.2.1.length)) (hshort : r.2.1.length < 2 ^ 31) :
    ∃ log, Reaches (ChunkState.step chunk) Any s { s.gain k p ⟨call, r.2.1.length, r.2.1, r.1⟩ with
      stream := { s.stream.record call r.1 r.2.1 with log := log } } := by
  obtain ⟨st, moved, x⟩ := r
  obtain rfl : x = .leave (ofNat moved.length) := hleave
  have hlists : (s.stream.record call st moved).waitingRead = [] ∧
      (s.stream.record call st moved).waitingWrite = [] := by
    cases call <;> exact ⟨h.reads, h.writes⟩
  obtain ⟨-, hlog, hpc⟩ := s.stream.record_stream call st moved
  have hrun : s.stream.runLoop k call 0 [] = { s.stream.record call st moved with
      pc := update s.stream.pc k (.unblocking call)
      log := s.stream.log ++ [⟨call, moved.length, moved, st⟩] } := by
    obtain ⟨hst, -, -⟩ := s.stream.record_stream call st moved
    simp only [StreamState.runLoop, hr, StreamState.release, hlog, hpc, hst, nil_append]
    rw [StreamInv.toInt_ofNat hshort]
  have henter : s.step chunk (.enter k) = some { s.gain k p ⟨call, moved.length, moved, st⟩ with
      stream := s.stream.runLoop k call 0 [] } := by
    simp [ChunkState.step, hp, hlt, hcall, StreamState.step, h.idle k, hv, advance, hrun]
  refine ⟨s.stream.log ++ [⟨call, moved.length, moved, st⟩],
    ((Reaches.refl s).tail trivial henter).tail (a := .unblock k) trivial ?_⟩
  have hpcs : update s.stream.pc k .idle = (s.stream.record call st moved).pc := by
    rw [hpc, ← h.idle k, update_eq_self]
  simp only [ChunkState.step, StreamState.step, hrun, update_idem, hpcs]
  cases call <;> simp [unblockFirst, hlists.1, hlists.2]

lemma Quiet.leaves (h : Quiet size filled s) (hpos : 0 < (s.stream.stream.loop 0 call).2.1.length) :
    (s.stream.stream.loop 0 call).2.2 = .leave (ofNat (s.stream.stream.loop 0 call).2.1.length) := by
  rcases (loop_moved h.ok call).exit with hx | ⟨-, hnil⟩
  · exact hx
  · simp [hnil] at hpos

lemma Quiet.write (h : Quiet size filled s) (chunk : UInt32) (hp : s.pc k = some p)
    (hcall : p.call = .write buffer) (hv : (write buffer).Valid)
    (hlt : p.i.toNat < ((write buffer).size chunk).toNat) (hroom : filled.length + 1 < size)
    (hn : n = min (((Call.write buffer).size chunk).toNat - p.i.toNat) (size - 1 - filled.length)) :
    ∃ s', Reaches (ChunkState.step chunk) Any s s' ∧
      Quiet size (filled ++ (List.range' p.i.toNat n).map fun o => ⟨p.id, o⟩) s' ∧
      s'.pc = update s.pc k (some { p with i := p.i + .ofInt n }) ∧ s'.reads = s.reads := by
  have hrestlen : ((Call.write buffer).rest chunk p.i).length = _ := Call.rest_length hv (Nat.le_of_lt hlt)
  have hrest : (Call.write buffer).rest chunk p.i =
      .write ((buffer.take ((Call.write buffer).size chunk).toNat).drop p.i.toNat) := rfl
  set bs := (buffer.take ((Call.write buffer).size chunk).toNat).drop p.i.toNat with hbs
  have hlen : (s.stream.stream.loop 0 (.write bs)).2.1.length = n := by
    have hloop := writeLoop_length bs 0 false h.ok
    rw [h.size, ← h.fill] at hloop
    rwa [hn, ← hrestlen]
  have hmoves := h.ok.loop_moves (.write bs)
  have hsize := ((Call.write buffer).size chunk).toNat_lt
  obtain ⟨log, hreach⟩ := reaches_call chunk h hp (by rw [hcall]; exact lt_iff_toNat_lt.2 hlt)
    (by rw [hcall, hrest]) (by rw [hrest, Call.length] at hrestlen; change bs.length < _; omega) rfl
    (h.leaves (by omega)) (length_loop_lt h.ok _)
  refine ⟨_, hreach, ?_, ?_, ?_⟩
  · have hm := loop_moved h.ok (.write bs)
    refine ⟨h.idle, h.reads, h.writes, hm.ok, hm.size.trans h.size, ?_, ?_, ?_⟩
    · simp only [gain, hcall, record, hlen]
      rw [drop_append_of_le_length h.removed, h.origin]
    · simp only [gain, hcall, length_append]
      exact Nat.le_trans h.removed (Nat.le_add_right _ _)
    · simp [record, hmoves.1, h.fill, hlen]
  · simp only [gain, hcall, hlen]
  · simp only [gain, hcall]

lemma Quiet.read (h : Quiet size filled s) (chunk : UInt32) (hp : s.pc k = some p) (hcall : p.call = .read count)
    (hlt : p.i.toNat < ((read count).size chunk).toNat) (hfilled : 0 < filled.length)
    (hn : n = min (((read count).size chunk).toNat - p.i.toNat) filled.length) :
    ∃ s' data, Reaches (ChunkState.step chunk) Any s s' ∧ Quiet size (filled.drop n) s' ∧ s'.pc = update s.pc k
        (some { p with i := p.i + .ofInt n, data := data, source := p.source ++ filled.take n }) ∧
      s'.reads = s.reads := by
  have hrestlen : ((Call.read count).rest chunk p.i).length = _ := Call.rest_length trivial (Nat.le_of_lt hlt)
  have hrest : (Call.read count).rest chunk p.i = .read ((Call.read count).size chunk - p.i) := rfl
  set rest := (Call.read count).size chunk - p.i
  have hlen : (s.stream.stream.loop 0 (.read rest)).2.1.length = n := by
    have hloop := readLoop_length rest.toNat 0 false h.ok
    rw [← h.fill] at hloop
    rwa [hn, ← hrestlen]
  have hmoves := h.ok.loop_moves (.read rest)
  obtain ⟨log, hreach⟩ := reaches_call chunk h hp (by rw [hcall]; exact UInt32.lt_iff_toNat_lt.2 hlt)
    (by rw [hcall, hrest]) (show (Call.read rest).Valid from trivial) rfl (h.leaves (by omega)) (length_loop_lt h.ok _)
  refine ⟨_, p.data ++ (s.stream.stream.loop 0 (.read rest)).2.1, hreach, ?_, ?_, ?_⟩
  · have hm := loop_moved h.ok (.read rest)
    have hfill := congrArg List.length hmoves.1
    have horigin := congrArg List.length h.origin
    rw [length_append, ← h.fill, hlen] at hfill
    rw [length_drop] at horigin
    refine ⟨h.idle, h.reads, h.writes, hm.ok, hm.size.trans h.size, ?_, ?_, ?_⟩
    · simp only [ChunkState.gain, hcall, StreamState.record, length_append, hlen]
      rw [← drop_drop, h.origin]
    · simp only [ChunkState.gain, hcall, StreamState.record, length_append]
      omega
    · simp only [StreamState.record, length_drop]
      omega
  · simp [ChunkState.gain, hcall, hlen, h.origin]
  · simp only [gain, hcall]

def bytesOf (id n : ℕ) : List Origin := (List.range' 0 n).map fun o => ⟨id, o⟩

lemma bytesOf_append_take (id a : ℕ) {m : ℕ} (h : m ≤ n) :
    bytesOf id a ++ ((List.range' a n).map fun o => ⟨id, o⟩).take m = bytesOf id (a + m) := by
  have hsplit : List.range' a n = List.range' a m ++ List.range' (a + m) (n - m) := by
    rw [range'_append_1, Nat.add_sub_cancel' h]
  rw [bytesOf, bytesOf, hsplit, ← map_take, take_left' length_range', ← map_append, ← range'_append_1, Nat.zero_add]

/-- A reader that has the first `room` bytes of one writer, which fill the ring, takes the rest from another
in turn. -/
theorem reaches_torn (hv : (write buffer).Valid) (hbuffer : ((write buffer).size chunk).toNat = c)
    (hcount : ((read count).size chunk).toNat = room + more) (hroom : 0 < room)
    (hmore : more < c) :
    ∀ (left : ℕ) {s : ChunkState ℕ} {q q' : ChunkCall} {a : ℕ}, more = a + (left + 1) → Quiet (room + 1) [] s →
      s.pc 1 = some q → q.call = .write buffer → q.id = 1 → q.i.toNat = a →
      s.pc 2 = some q' → q'.call = .read count → q'.i.toNat = room + a →
      q'.source = bytesOf 0 room ++ bytesOf 1 a →
      ∃ s', Reaches (step chunk) Any s s' ∧ ∃ e ∈ s'.reads, e.source = bytesOf 0 room ++ bytesOf 1 more := by
  intro left
  induction left using Nat.strongRecOn with
  | _ left ih =>
    intro s q q' a hleft h hq hqcall hqid hqi hq' hqcall' hqi' hsource
    have hclt := ((write buffer).size chunk).toNat_lt
    have htlt := ((read count).size chunk).toNat_lt
    obtain ⟨s1, hreach1, hquiet1, hpc1, -⟩ := h.write chunk hq hqcall hv (by omega) (by simpa using hroom) rfl
    rw [hbuffer, hqi, hqid] at hquiet1
    rw [hbuffer, hqi] at hpc1
    simp only [length_nil, Nat.add_sub_cancel, Nat.sub_zero, nil_append] at hquiet1 hpc1
    have hq1' : s1.pc 2 = some q' := by rw [hpc1, update_of_ne (by decide), hq']
    obtain ⟨s2, data, hreach2, hquiet2, hpc2, -⟩ := hquiet1.read chunk hq1' hqcall' (by omega)
      (by simp only [length_map, length_range']; omega) rfl
    rw [hcount, hqi'] at hquiet2 hpc2
    simp only [length_map, length_range'] at hquiet2 hpc2
    have hreach := hreach1.trans hreach2
    have hget := congrFun hpc2 2
    rw [update_self] at hget
    rcases Nat.lt_or_ge (min (c - a) room) (more - a) with hle | hle
    · -- the second writer has filled the ring once more, and the reader has emptied it
      have hn : min (c - a) room = room := by omega
      rw [hn, Nat.min_eq_right (by omega)] at hget hpc2 hquiet2
      rw [hn] at hpc1
      rw [drop_of_length_le (by simp)] at hquiet2
      have hq2 : s2.pc 1 = some { q with i := q.i + .ofInt room } := by
        rw [hpc2, update_of_ne (by decide), hpc1, update_self]
      obtain ⟨s3, hreach3, he⟩ := ih (left - room) (by omega) (a := a + room) (by omega) hquiet2 hq2 hqcall
        hqid (by simp only [toNat_add_ofInt (by omega : q.i.toNat + room < 2 ^ 32), hqi]) hget hqcall'
        (by simp only [toNat_add_ofInt (by omega : q'.i.toNat + room < 2 ^ 32), hqi', Nat.add_assoc])
        (by simp only [hsource, append_assoc, bytesOf_append_take 1 a (Nat.le_refl room)])
      exact ⟨s3, hreach.trans hreach3, he⟩
    · -- the reader has all it asked for
      rw [Nat.min_eq_left (by omega : room + more - (room + a) ≤ _)] at hget
      have hi : (q'.i + .ofInt ((room + more - (room + a) : ℕ) : Int)).toNat = room + more := by
        rw [toNat_add_ofInt (by omega)]
        omega
      have hall : q'.source ++ ((List.range' a (min (c - a) room)).map fun o => ⟨1, o⟩).take
          (room + more - (room + a)) = bytesOf 0 room ++ bytesOf 1 more := by
        rw [hsource, append_assoc, bytesOf_append_take 1 a (by omega)]
        congr 2
        omega
      rw [hall] at hget
      generalize q'.i + .ofInt ((room + more - (room + a) : ℕ) : Int) = i at hget hi
      have hfinish : s2.step chunk (.finish 2) =
          some (s2.finish 2 ⟨q'.id, q'.call, i, data, bytesOf 0 room ++ bytesOf 1 more⟩) := by
        simp only [ChunkState.step, hget, bind_some, hqcall', UInt32.lt_iff_toNat_lt, hi, hcount,
          Nat.lt_irrefl, hquiet2.idle, not_false_eq_true, and_self, if_true]
      refine ⟨_, hreach.tail trivial hfinish, ⟨data, bytesOf 0 room ++ bytesOf 1 more⟩, ?_, rfl⟩
      simp only [finish, hqcall']
      exact mem_append_right _ (mem_singleton_self _)

lemma not_supplied {r : ℕ} (q : ℕ) {calls : List Call} {data : List UInt8} (hr : 0 < r) (hc : r + more = c)
    (hmore : 0 < more) : ¬ Supplied c calls data (bytesOf 0 (q * c + r) ++ bytesOf 1 more) := by
  intro h
  have hdrop := (h.split q).2
  have hlen : (bytesOf 0 (q * c)).length = q * c := by simp [bytesOf]
  have hfirst : bytesOf 0 (q * c + r) = bytesOf 0 (q * c) ++ (List.range' (q * c) r).map fun o => ⟨0, o⟩ := by
    rw [← bytesOf_append_take 0 (q * c) (Nat.le_refl r), take_of_length_le (by simp)]
  rw [hfirst, append_assoc, drop_left' hlen] at hdrop
  generalize hsource : (List.range' (q * c) r).map (fun o => (⟨0, o⟩ : Origin)) ++ bytesOf 1 more = source at hdrop
  generalize data.drop (q * c) = rest at hdrop
  cases hdrop with
  | nil =>
    have := congrArg List.length hsource
    simp at this
    omega
  | @chunk id j buffer data source hcall hfits h =>
    -- the bytes at 0 and at `r` come from the same call
    have h0 := congrArg (·[0]?) hsource
    have hr' := congrArg (·[r]?) hsource
    simp only [bytesOf] at h0 hr'
    rw [getElem?_append_right (by simp), getElem?_append_left (by simp; omega)] at hr'
    simp only [getElem?_map, length_map, length_range', Nat.sub_self,
      getElem?_range' hmore, getElem?_range' (by omega : r < c), map_some,
      some.injEq, Origin.mk.injEq] at hr'
    omega

lemma Quiet.begin (h : Quiet size filled s) (chunk : UInt32) (call : Call) (hk : s.pc k = none)
    (hv : call.Valid) : ∃ s', Reaches (step chunk) Any s s' ∧ Quiet size filled s' ∧
      s'.pc = update s.pc k (some ⟨s.calls.length, call, 0, [], []⟩) ∧
      s'.calls.length = s.calls.length + 1 := by
  have hbegin : s.step chunk (.begin k call) = some { s with
      pc := update s.pc k (some ⟨s.calls.length, call, 0, [], []⟩)
      calls := s.calls ++ [call] } := by
    simp [ChunkState.step, hk, hv]
  exact ⟨_, (Reaches.refl s).tail trivial hbegin, { h with }, rfl, by simp⟩

/-- The first writer fills the ring, and the reader takes that before the second writer begins. -/
theorem exists_mixed (data : ℕ → UInt8) {buffer0 buffer1 : List UInt8} (count : UInt32)
    (hv0 : (write buffer0).Valid) (h₀ : ((write buffer0).size chunk).toNat = room + more)
    (hv1 : (write buffer1).Valid) (h1 : ((write buffer1).size chunk).toNat = c)
    (hcount : ((read count).size chunk).toNat = room + more) (hroom : 0 < room)
    (hpos : 0 < more) (hmore : more < c) (hlt : room + 1 < 2 ^ 31) :
    ∃ s : ChunkState ℕ, Reaches (ChunkState.step chunk) Any (ChunkState.init ⟨room + 1, data, 0, 0, false⟩) s ∧
      ∃ e ∈ s.reads, e.source = bytesOf 0 room ++ bytesOf 1 more := by
  have hok : (⟨room + 1, data, 0, 0, false⟩ : Stream).Ok := ⟨hlt, Nat.succ_pos _, Nat.succ_pos _⟩
  have hempty : 0 = (⟨room + 1, data, 0, 0, false⟩ : Stream).buffered.length := by rfl
  have hinit : Quiet (room + 1) [] (init ⟨room + 1, data, 0, 0, false⟩) :=
    ⟨fun _ => rfl, rfl, rfl, hok, rfl, rfl, Nat.le_refl _, hempty⟩
  -- the three calls are made
  obtain ⟨s1, hreach1, hquiet1, hpc1, hcalls1⟩ := hinit.begin chunk _ (k := 0) rfl hv0
  obtain ⟨s2, hreach2, hquiet2, hpc2, hcalls2⟩ := hquiet1.begin chunk _ (k := 1) (by rw [hpc1]; rfl) hv1
  obtain ⟨s3, hreach3, hquiet3, hpc3, -⟩ := hquiet2.begin chunk (.read count) (k := 2)
    (by rw [hpc2, hpc1]; rfl) trivial
  rw [hcalls1] at hpc2
  rw [hcalls2, hcalls1] at hpc3
  have hfirst : s3.pc 0 = some ⟨0, .write buffer0, 0, [], []⟩ := by
    rw [hpc3, hpc2, hpc1]
    rfl
  have hsecond : s3.pc 1 = some ⟨1, .write buffer1, 0, [], []⟩ := by
    rw [hpc3, hpc2, hpc1]
    rfl
  have hreader : s3.pc 2 = some ⟨2, .read count, 0, [], []⟩ := by
    rw [hpc3, hpc2, hpc1]
    rfl
  have hbegun := (hreach1.trans hreach2).trans hreach3
  -- the first writer fills the ring
  obtain ⟨s4, hreach4, hquiet4, hpc4, -⟩ := hquiet3.write chunk (n := room) hfirst rfl hv0
    (by rw [h₀]; exact Nat.add_pos_left hroom _) (by simpa using hroom)
    (by rw [h₀, UInt32.toNat_zero, length_nil]; omega)
  change Quiet _ (bytesOf 0 room) _ at hquiet4
  have hlen : (bytesOf 0 room).length = room := by simp [bytesOf]
  -- the reader empties it
  have hreader4 : s4.pc 2 = some ⟨2, .read count, 0, [], []⟩ := by
    rw [hpc4, update_of_ne (by decide), hreader]
  obtain ⟨s5, data', hreach5, hquiet5, hpc5, -⟩ := hquiet4.read chunk (n := room) hreader4 rfl
    (by rw [hcount]; exact Nat.add_pos_left hroom _) (by rwa [hlen])
    (by rw [hcount, UInt32.toNat_zero, hlen]; omega)
  rw [drop_of_length_le (by omega)] at hquiet5
  rw [take_of_length_le (by omega)] at hpc5
  have hsecond5 : s5.pc 1 = some ⟨1, .write buffer1, 0, [], []⟩ := by
    rw [hpc5, update_of_ne (by decide), hpc4, update_of_ne (by decide), hsecond]
  have hindex : ((0 : UInt32) + .ofInt (room : Int)).toNat = room + 0 := by
    rw [toNat_add_ofInt (by rw [UInt32.toNat_zero]; omega), UInt32.toNat_zero, Nat.zero_add]
    rfl
  obtain ⟨s6, hreach6, he⟩ := reaches_torn hv1 h1 hcount hroom hmore (more - 1) (a := 0) (by omega) hquiet5 hsecond5
    rfl rfl rfl (by rw [hpc5, update_self]) rfl hindex (append_nil _).symm
  exact ⟨s6, ((hbegun.trans hreach4).trans hreach5).trans hreach6, he⟩

lemma exists_torn (data : ℕ → UInt8) (hchunk : chunk ≠ 0) (hlt : size < 2 ^ 31) (hno : ¬ chunk.toNat ∣ size - 1) :
    ∃ s : ChunkState ℕ, Reaches (step chunk) Any (init ⟨size, data, 0, 0, false⟩) s ∧ ¬ s.Whole chunk.toNat := by
  have hpos : 0 < chunk.toNat := Nat.pos_of_ne_zero fun h => hchunk (UInt32.toNat_inj.1 h)
  have hclt := chunk.toNat_lt
  obtain ⟨room, rfl⟩ : ∃ room, size = room + 1 := by
    rcases size with _ | room
    · exact absurd (Nat.dvd_zero _) hno
    · exact ⟨room, rfl⟩
  have hrem : 0 < room % chunk.toNat := Nat.pos_of_ne_zero fun h => hno (Nat.dvd_of_mod_eq_zero h)
  have hmod := Nat.mod_lt room hpos
  have hdiv := Nat.div_add_mod' room chunk.toNat
  generalize room / chunk.toNat = q at hdiv
  generalize room % chunk.toNat = r at hrem hmod hdiv
  obtain ⟨more, hmore⟩ : ∃ more, r + more = chunk.toNat := ⟨chunk.toNat - r, by omega⟩
  have htotal : (q + 1) * chunk.toNat = room + more := by rw [Nat.succ_mul]; omega
  have htotal_lt : room + more < 2 ^ 32 := by
    rcases Nat.eq_zero_or_pos q with rfl | hq
    · omega
    · have := Nat.le_mul_of_pos_left chunk.toNat hq
      omega
  have hwhole : room + more - (room + more) % chunk.toNat = room + more := by
    rw [← htotal, Nat.mul_mod_left, Nat.sub_zero]
  have hv0 : (write (List.replicate (room + more) 0)).Valid := by
    change (List.replicate _ _).length < _
    rwa [length_replicate]
  have hv1 : (write (List.replicate chunk.toNat 1)).Valid := by
    change (List.replicate _ _).length < _
    rwa [length_replicate]
  have hv2 : (read (.ofNat (room + more))).Valid := trivial
  obtain ⟨s, hs, e, he, hsource⟩ := exists_mixed data (.ofNat (room + more)) hv0
    (by rw [Call.size_toNat hv0, Call.length, length_replicate, hwhole]) hv1
    (by rw [Call.size_toNat hv1, Call.length, length_replicate, Nat.mod_self, Nat.sub_zero])
    (by rw [Call.size_toNat hv2, Call.length, UInt32.toNat_ofNat_of_lt' htotal_lt, hwhole])
    (by omega) (by omega) (by omega) hlt
  refine ⟨s, hs, fun h => ?_⟩
  have hsup := h e he
  rw [hsource, ← hdiv] at hsup
  exact not_supplied _ hrem hmore (by omega) hsup

end Torn

section Main

variable {chunk : UInt32} {size : ℕ} {data : ℕ → UInt8} {st : Stream}

/-- The reads of a chunked stream have whole chunks in every run if and only if its ring holds whole
chunks when it is full. -/
theorem chunks_atomic (hchunk : chunk ≠ 0) (hst : create size data = some st) :
    (∀ s, Reaches (step chunk) Any (init st : ChunkState ℕ) s → s.Whole chunk.toNat) ↔ chunk.toNat ∣ size - 1 := by
  unfold create at hst
  split_ifs at hst with hlt
  cases hst
  constructor
  · intro h
    by_contra hno
    obtain ⟨s, hs, hnot⟩ := exists_torn data hchunk (by omega) hno
    exact hnot (h s hs)
  · intro hdvd s hs
    have hempty : (⟨size, data, 0, 0, false⟩ : Stream).buffered = [] := contents_self
    have hring : (⟨size, data, 0, 0, false⟩ : Stream).Chunked chunk.toNat := by
      refine ⟨?_, rfl, hdvd, by exact Nat.dvd_zero _⟩
      rcases Nat.eq_zero_or_pos size with rfl | hpos
      · exact .inr ⟨rfl, rfl, rfl⟩
      · exact .inl ⟨Nat.lt_of_le_of_lt (Nat.le_max_left size 2) hlt, hpos, hpos⟩
    exact (hs.invariant (ChunkInv.init hring hempty) fun _ _ _ h _ hstep => h.step hstep).reads

end Main

theorem chunks_atomic_five :
    ∃ s : ChunkState ℕ, s.reads = [⟨[1, 2, 3, 4], [⟨0, 0⟩, ⟨0, 1⟩, ⟨1, 0⟩, ⟨1, 1⟩]⟩] ∧ s.Whole 2 := by
  obtain ⟨s, hs, hreads⟩ : ∃ s : ChunkState ℕ, Reaches (step 2) Any (init ⟨5, fun _ => 0, 0, 0, false⟩) s ∧
        s.reads = [⟨[1, 2, 3, 4], [⟨0, 0⟩, ⟨0, 1⟩, ⟨1, 0⟩, ⟨1, 1⟩]⟩] :=
    exists_of_run [.begin 0 (.write [1, 2]), .begin 1 (.write [3, 4, 5]), .begin 2 (.read 4), .enter 2,
      .enter 0, .unblock 0, .enter 1, .resume 2, .unblock 2, .finish 2] (by decide)
  have hcreate : create 5 (fun _ => 0) = some ⟨5, fun _ => 0, 0, 0, false⟩ := rfl
  exact ⟨s, hreads, (chunks_atomic (by decide) hcreate).2 (by decide) s hs⟩

/-- Chunks of two bytes in a ring of twice that size, which is full with three bytes. The reader gets
three bytes of the first writer and one of the second. -/
theorem chunk_torn : ∃ s : ChunkState ℕ, Reaches (step 2) Any (init ⟨4, fun _ => 0, 0, 0, false⟩) s ∧
      s.reads = [⟨[1, 1, 1, 2], [⟨0, 0⟩, ⟨0, 1⟩, ⟨0, 2⟩, ⟨1, 0⟩]⟩] ∧ ¬ s.Whole 2 := by
  obtain ⟨s, hs, hreads⟩ : ∃ s : ChunkState ℕ, Reaches (step 2) Any (init ⟨4, fun _ => 0, 0, 0, false⟩) s ∧
        s.reads = [⟨[1, 1, 1, 2], [⟨0, 0⟩, ⟨0, 1⟩, ⟨0, 2⟩, ⟨1, 0⟩]⟩] :=
    exists_of_run [.begin 0 (.write [1, 1, 1, 1]), .begin 1 (.write [2, 2]), .begin 2 (.read 4),
      .enter 0, .unblock 0, .enter 2, .unblock 2, .enter 1, .unblock 1, .enter 2, .unblock 2, .finish 2]
      (by decide)
  refine ⟨s, hs, hreads, fun h => ?_⟩
  have hsup := h ⟨[1, 1, 1, 2], [⟨0, 0⟩, ⟨0, 1⟩, ⟨0, 2⟩, ⟨1, 0⟩]⟩ (by rw [hreads]; exact mem_singleton_self _)
  exact not_supplied 1 Nat.one_pos rfl Nat.one_pos hsup

end OlliOS
