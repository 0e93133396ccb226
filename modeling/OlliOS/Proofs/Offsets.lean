import OlliOS.Proofs.ChunkedStream
import OlliOS.Proofs.FileDescriptors
import OlliOS.Proofs.Pipes
import OlliOS.Proofs.VirtualFile

/-!
# Offsets

`read` and `write` add what the handle returns to the offset, an error as well as a number of bytes, and
`lseek` returns the offset that it stored.
-/

namespace OlliOS

lemma Stream.loop_of_parks {st : Stream} {call : Call} (h : st.Parks call) :
    st.loop 0 call = (st, [], .park 0) := by
  cases call with
  | write buffer => exact writeLoop_blocks (by simpa using h.1) h.2
  | read count =>
    obtain ⟨n, hn⟩ := Nat.exists_eq_succ_of_ne_zero (by simpa [← UInt32.toNat_inj] using h.1)
    simp [loop, hn, readLoop, h.2.1, h.2.2]

lemma Stream.Ok.loop_of_not_parks {st : Stream} {call : Call} (hok : st.Ok) (h : ¬ st.Parks call) :
    (st.loop 0 call).2.2 = .leave (.ofNat (st.available call)) ∧ st.available call < 2 ^ 31 := by
  have hlength : (st.loop 0 call).2.1.length = st.available call := by
    cases call with
    | write buffer => exact writeLoop_length buffer 0 false hok
    | read count => exact readLoop_length count.toNat 0 false hok
  refine ⟨?_, hlength ▸ length_loop_lt hok call⟩
  rcases (loop_moved hok call).exit with hx | ⟨hx, hnil⟩
  · rw [hx, hlength]
  exfalso
  rw [hnil, List.length_nil] at hlength
  cases call with
  | write buffer =>
    obtain ⟨j, hj⟩ := writeLoop_leaves h
    cases hx.symm.trans hj
  | read count =>
    rcases hn : count.toNat with _ | n
    · simp [loop, hn, readLoop] at hx
    have hempty : st.buffered = [] := by
      change 0 = min count.toNat st.buffered.length at hlength
      exact List.length_eq_zero_iff.1 (by omega)
    have hne : count ≠ 0 := by
      rintro rfl
      cases hn
    have hclosed : st.closed = true :=
      Bool.of_not_eq_false fun hopen => h ⟨hne, hok.buffered_eq_nil_iff.1 hempty, hopen⟩
    simp [loop, hn, readLoop, hok.buffered_eq_nil_iff.1 hempty, hclosed] at hx

namespace HandleClass

variable {σ : Type} {s : σ} {offset size pos : UInt32}

lemma room_iff (k : UInt32) :
    (0 ≤ k.toInt32 ∧ offset.toNat + k.toInt32.toInt < 2 ^ 32) ↔ Room offset k.toNat := by
  have hk := Words.toInt_signed k.toInt32
  rw [UInt32.toUInt32_toInt32] at hk
  rw [Room, Int32.le_iff_toInt_le]
  change 0 ≤ _ ∧ _ ↔ _
  have hbound := k.toNat_lt
  split_ifs at hk <;> omega

lemma room_toInt (n : Int32) : (0 ≤ n ∧ offset.toNat + n.toInt < 2 ^ 32) ↔ Room offset n.toInt := by
  have hn := n.toInt_lt
  rw [Room, Int32.le_iff_toInt_le]
  change 0 ≤ _ ∧ _ ↔ _
  omega

lemma served_of_streamCall {place : Loc σ Stream} {wait : σ → Option σ} {call : Call}
    (hwait : ∀ s s', wait s = some s' → (place.get s').Ok) : ∀ (parks : ℕ) {s t : σ} {moved moved' : List UInt8}
    {n : Int32}, (place.get s).Ok →
    Loop.run (FileHandle.streamPass place wait call) parks (s, 0, moved) = some (some (t, moved', n)) →
    ∃ k, served place wait call parks s = some k ∧ k < 2 ^ 31 ∧ n = (UInt32.ofNat k).toInt32
  | 0, s, t, moved, moved', n, _, h => by cases h
  | parks + 1, s, t, moved, moved', n, hok, h => by
    rw [Loop.run_succ] at h
    rw [served]
    split_ifs with hparks
    · have hloop := Stream.loop_of_parks hparks
      simp only [FileHandle.streamPass, hloop] at h
      rcases hw : wait (place.put (place.get s) s) with _ | s'
      · rw [hw] at h
        cases h
      simp only [hw] at h
      rw [Option.bind_some]
      split_ifs at h ⊢ with hclosed
      · cases h
        exact ⟨0, rfl, by decide, rfl⟩
      · exact served_of_streamCall hwait parks (hwait _ _ hw) h
    · obtain ⟨hleave, hlt⟩ := hok.loop_of_not_parks hparks
      simp only [FileHandle.streamPass, hleave] at h
      cases h
      exact ⟨_, rfl, hlt, rfl⟩

lemma length_of_readPass {data : List Chunk} {n : ℕ} {r : VirtualFile.Reading} {bytes : List UInt8}
    (h : Loop.run (VirtualFile.readPass data) n r = some (some bytes)) : bytes.length = r.buffer.length + r.size := by
  refine Loop.run_of_invariant (I := fun r' => r'.buffer.length + r'.size = r.buffer.length + r.size)
    (Q := fun x => ∀ b, x = some b → b.length = r.buffer.length + r.size) (fun u v hu hv => ?_)
    (fun u x hu hx => ?_) n r _ rfl h bytes rfl
  · unfold VirtualFile.readPass at hv
    split_ifs at hv with hzero
    split at hv
    · cases hv
    · cases hv
      have hpl := VirtualFile.partLength_eq u.size u.offset
      simp only [List.length_append, List.length_map, List.length_range']
      omega
  · unfold VirtualFile.readPass at hx
    split_ifs at hx with hzero
    · cases hx
      rintro b hb
      cases hb
      omega
    · split at hx
      · cases hx
        nofun
      · cases hx

lemma length_of_read {f : VirtualFile} {bytes : List UInt8} (h : f.read size pos = some bytes) :
    bytes.length = (clipped f.size size pos).toNat := by
  unfold VirtualFile.read at h
  unfold clipped
  split_ifs at h ⊢ with hend hclip
  · cases h
    rfl
  all_goals
    exact (length_of_readPass (Option.join_eq_some_iff.1 h)).trans (Nat.zero_add _)

lemma length_of_isoRead {fs : Iso9660FileSystem} {record bytes : List UInt8}
    (h : Iso9660FileHandle.read fs record size pos = some bytes) :
    ∃ length, Iso9660FileSystem.readU32 record 10 = some length ∧
      bytes.length = (clipped length size pos).toNat := by
  obtain ⟨lba, -, h⟩ := Option.bind_eq_some_iff.1 h
  obtain ⟨length, hlength, h⟩ := Option.bind_eq_some_iff.1 h
  refine ⟨length, hlength, ?_⟩
  unfold clipped
  split_ifs at h ⊢ with hend hclip
  · cases h
    rfl
  all_goals
    cases h
    simp [Iso9660FileSystem.readRaw]

lemma room_zero (offset : UInt32) : Room offset 0 := ⟨le_rfl, by decide, by simpa using offset.toNat_lt⟩

variable {c : HandleClass σ} {t : σ} {n : Int32}

lemma not_neg_one : ¬ ((0 : Int32) ≤ -1 ∧ offset.toNat + (-1 : Int32).toInt < 2 ^ 32) :=
  fun h => absurd h.1 (by decide)

/-- What a call of the handle returns. -/
def result (handle : FileHandle σ) (size pos : UInt32) (s : σ) : Transfer → Option Int32
  | .read => (handle.read size pos s).map (·.2.2)
  | .write data => (handle.write data size pos s).map Prod.snd

lemma result_stream {place : Loc σ Stream} {wait : σ → Option σ} {parks : ℕ} (t : Transfer) :
    result (.stream place wait parks) size pos s t =
      (FileHandle.streamCall place wait parks (t.call size) s).map (·.2.2) := by
  cases t with
  | read => rfl
  | write data => exact Option.map_map ..

lemma result_interfaceFile {C : Type} {file : InterfaceFile C} {context : Loc σ C} (t : Transfer) :
    result (.interfaceFile file context) size pos s t =
      (if pos = 0 ∨ file.positionIndependant = false then t.answer file size pos (context.get s)
        else some 0).map Int32.ofInt := by
  cases t with
  | read =>
    simp only [result, FileHandle.interfaceFile, InterfaceFile.read, Transfer.answer]
    split_ifs
    · cases file.getter size pos (context.get s) <;> rfl
    · rfl
  | write data =>
    simp only [result, FileHandle.interfaceFile, InterfaceFile.write, Transfer.answer]
    split_ifs
    · cases file.setter data size pos (context.get s) <;> rfl
    · rfl

lemma served_iff {place : Loc σ Stream} {wait : σ → Option σ} {parks : ℕ} {t : Transfer}
    (hrings : (stream place wait parks).Rings s) (h : result (.stream place wait parks) size pos s t = some n) :
    (0 ≤ n ∧ offset.toNat + n.toInt < 2 ^ 32) ↔
      ∀ k, served place wait (t.call size) parks s = some k → Room offset k := by
  rw [result_stream] at h
  obtain ⟨_, hcall, rfl⟩ := Option.map_eq_some_iff.1 h
  obtain ⟨k, hk, hlt, hn⟩ := served_of_streamCall hrings.2 parks hrings.1 (Option.join_eq_some_iff.1 hcall)
  rw [hn, room_iff, UInt32.toNat_ofNat_of_lt' (show k < 2 ^ 32 by omega), hk]
  simp

lemma passes_iff {t : Transfer} (hrings : c.Rings s) (h : result c.handle size pos s t = some n) :
    (0 ≤ n ∧ offset.toNat + n.toInt < 2 ^ 32) ↔ c.Passes s offset t size pos := by
  induction c generalizing size pos with
  | virtualFile fresh file =>
    cases t with
    | read =>
      obtain ⟨_, hread, rfl⟩ := Option.map_eq_some_iff.1 h
      obtain ⟨_, hbytes, hret⟩ := Option.bind_eq_some_iff.1 hread
      cases hret
      rw [room_iff, length_of_read hbytes, UInt32.ofNat_toNat]
      rfl
    | write data =>
      obtain ⟨_, hwrite, rfl⟩ := Option.map_eq_some_iff.1 h
      obtain ⟨_, -, hret⟩ := Option.bind_eq_some_iff.1 hwrite
      cases hret
      exact room_iff size
  | virtualFolder children childOffset =>
    cases t <;> cases h <;> exact iff_of_false not_neg_one id
  | stream place wait parks => exact served_iff hrings h
  | ownedStream mode place wait parks =>
    by_cases hmode : t.mode = mode
    · have hserved : result (.stream place wait parks) size pos s t = some n := by
        subst hmode
        cases t <;> exact h
      exact (served_iff hrings hserved).trans (and_iff_right hmode).symm
    · refine iff_of_false ?_ fun hp => hmode hp.1
      cases t <;> cases mode <;> first | exact absurd rfl hmode | (cases h; exact not_neg_one)
  | iso9660File fs record children childIter =>
    cases t with
    | read =>
      obtain ⟨_, hread, rfl⟩ := Option.map_eq_some_iff.1 h
      obtain ⟨_, hbytes, hret⟩ := Option.bind_eq_some_iff.1 hread
      cases hret
      obtain ⟨length, hlength, hlen⟩ := length_of_isoRead hbytes
      rw [room_iff, hlen, UInt32.ofNat_toNat, Passes, hlength]
      simp [Transfer.mode]
    | write data =>
      cases h
      exact iff_of_false not_neg_one fun hp => by cases hp.1
  | interfaceFile file context =>
    obtain ⟨m, hm, rfl⟩ := Option.map_eq_some_iff.1 ((result_interfaceFile t).symm.trans h)
    rw [room_toInt, Passes]
    split_ifs at hm with hpos
    · simp [hm, hpos]
    · cases hm
      exact iff_of_true (room_zero offset) fun h => absurd h hpos
  | fileView c start length ih => exact ih hrings (by cases t <;> exact h)

lemma seekCounts_iff {fd : FileDescriptor σ} {ptr dir : Int32} {target : UInt32} (hc : fd.handle = c.handle)
    (h : SysCall.seekTarget fd ptr dir s = some target) :
    (target.toNat < 2 ^ 31 ∨ target = fd.offset) ↔ c.SeekCounts s fd.offset ptr dir := by
  unfold SysCall.seekTarget at h
  split_ifs at h with hset hcur hend
  · cases h
    have hsign : ptr.toUInt32.toNat < 2 ^ 31 ↔ 0 ≤ ptr.toInt := by
      have hptr := Words.toInt_signed ptr
      have hbound := ptr.toUInt32.toNat_lt
      split_ifs at hptr <;> omega
    rw [hsign]
    refine ⟨fun h => ⟨fun _ => h, ?_, ?_⟩, fun h => h.set hset⟩
    · exact fun hdir => absurd (hset.symm.trans hdir) (by decide)
    · exact fun hdir => absurd (hset.symm.trans hdir) (by decide)
  · cases h
    have hstay : fd.offset + ptr.toUInt32 = fd.offset ↔ ptr = 0 := by
      rw [UInt32.add_eq_left]
      exact ⟨fun hzero => by simpa using congrArg UInt32.toInt32 hzero, fun hzero => by rw [hzero]; rfl⟩
    rw [hstay]
    refine ⟨fun h => ⟨fun hdir => absurd hdir hset, fun _ => h, ?_⟩, fun h => h.cur hcur⟩
    exact fun hdir => absurd (hcur.symm.trans hdir) (by decide)
  · obtain ⟨size, hsize, rfl⟩ := Option.map_eq_some_iff.1 h
    rw [hc] at hsize
    refine ⟨fun h => ⟨fun hdir => absurd hdir hset, fun hdir => absurd hdir hcur, fun _ size' hsize' => ?_⟩,
      fun h => h.finish hend size hsize⟩
    rwa [← Option.some.inj (hsize.symm.trans hsize')]
  · cases h
    refine iff_of_true (.inr rfl) ⟨fun hdir => absurd hdir hset, fun hdir => absurd hdir hcur, ?_⟩
    exact fun hdir => absurd hdir hend

end HandleClass

namespace Files

open Journal FileHandle

open SysCall

variable {σ : Type} {s : Files σ}

lemma advance_iff (offset : UInt32) (n : Int32) : ((n < 0 → offset + n.toUInt32 = offset) ∧
      (0 ≤ n → ((offset + n.toUInt32).toNat : ℤ) = offset.toNat + n.toInt)) ↔
    0 ≤ n ∧ offset.toNat + n.toInt < 2 ^ 32 := by
  have hn := Words.toInt_signed n
  have hsign : 0 ≤ n ↔ 0 ≤ n.toInt := Int32.le_iff_toInt_le
  rw [toInt_lt_zero, hsign, ← UInt32.toNat_inj, UInt32.toNat_add]
  split_ifs at hn <;> omega

lemma toInt32_neg_iff (target : UInt32) : target.toInt32 < 0 ↔ ¬ target.toNat < 2 ^ 31 := by
  have h := Words.toInt_signed target.toInt32
  rw [UInt32.toUInt32_toInt32] at h
  have hbound := target.toNat_lt
  rw [toInt_lt_zero]
  split_ifs at h <;> omega

lemma setOffset_offset (s : Files σ) (d : ℕ) (offset : UInt32) :
    ((s.setOffset d offset).descs d).offset = offset := by
  simp [setOffset]

section Offset

variable {file : Int32} {d : ℕ} {c : OffsetCall} {t : Files σ} {n : Int32} {l : List ℤ}

lemma keepsOffset_of_ok {offset : UInt32}
    (hrun : (c.call file).exec.run s = ⟨t, l, .ok n⟩) (hoffset : (t.descs d).offset = offset) :
    s.KeepsOffset file d c ↔ (n < 0 → offset = (s.descs d).offset) ∧
      (c.Transfers → 0 ≤ n → (offset.toNat : ℤ) = (s.descs d).offset.toNat + n.toInt) := by
  rw [KeepsOffset, hrun]
  simp only [hoffset]
  constructor
  · exact fun h => h n rfl
  · intro h n' hn
    obtain rfl := Except.ok.inj hn
    exact h

lemma stuck_of_none {α β : Type} {f : ℕ → Files σ → Option (σ × α)} {rest : ℕ → α → SysCall σ β} {fail : β}
    (hin : InTable file.toInt) (h : s.Refers file.toInt d) (hnone : f d s = none) :
    (opened file fail fun desc => description desc >>= fun d => perform (f d) >>= rest d).run s =
      ⟨s, [file.toInt], .error .stuck⟩ := by
  rw [opened_description hin h, run_bind_error (run_perform_none hnone)]
  rfl

lemma keepsOffset_transfer (hc : c.Transfers) (hrun : (c.call file).exec.run s = ⟨t, l, .ok n⟩)
    (hoffset : (t.descs d).offset = (s.descs d).offset + n.toUInt32) :
    s.KeepsOffset file d c ↔ 0 ≤ n ∧ (s.descs d).offset.toNat + n.toInt < 2 ^ 32 := by
  rw [keepsOffset_of_ok hrun hoffset, ← advance_iff]
  simp only [hc, forall_const]

/-- For each class of handles: a call that returns keeps the offset where it fails, and moves it by what it
returns, if and only if what it is given counts. -/
theorem keepsOffset_iff (hin : InTable file.toInt) (h : s.Refers file.toInt d) {k : HandleClass σ}
    (hk : (s.descs d).handle = k.handle) (hrings : k.Rings s.world) (c : OffsetCall) {n : Int32}
    (hret : ((c.call file).exec.run s).result = .ok n) :
    s.KeepsOffset file d c ↔ k.Counts s.world (s.descs d).offset c := by
  cases c with
  | read len =>
    rcases hread : (s.descs d).handle.read len.toUInt32 (s.descs d).offset s.world with _ | ⟨world, bytes, n⟩
    · rw [show ((OffsetCall.read len).call file).exec.run s = _ from
        run_bind_error (stuck_of_none hin h hread)] at hret
      cases hret
    · have hrun := (moves_of_refers hin h).read len world bytes n hread
      rw [keepsOffset_transfer (c := .read len) trivial (run_bind_ok hrun) (setOffset_offset _ _ _)]
      refine HandleClass.passes_iff hrings ?_
      rw [← hk, HandleClass.result, hread]
      rfl
  | write data len =>
    rcases hwrite : (s.descs d).handle.write data len.toUInt32 (s.descs d).offset s.world with _ | ⟨world, n⟩
    · rw [show ((OffsetCall.write data len).call file).exec.run s = _ from stuck_of_none hin h hwrite] at hret
      cases hret
    have hrun : (SysCall.write file data len).run s =
        ⟨{ s with world }.setOffset d ((s.descs d).offset + n.toUInt32), [file.toInt], .ok n⟩ := by
      rw [SysCall.write, opened_description hin h, run_bind_ok (run_perform hwrite)]
      rfl
    rw [keepsOffset_transfer (c := .write data len) trivial hrun (setOffset_offset _ _ _)]
    refine HandleClass.passes_iff hrings ?_
    rw [← hk, HandleClass.result, hwrite]
    rfl
  | lseek ptr dir =>
    rcases htarget : seekTarget (s.descs d) ptr dir s.world with _ | target
    · rw [show ((OffsetCall.lseek ptr dir).call file).exec.run s = _ from
        stuck_of_none hin h (congrArg (Option.map (s.world, ·)) htarget)] at hret
      cases hret
    have hrun := (moves_of_refers hin h).lseek ptr dir target htarget
    rw [keepsOffset_of_ok (c := .lseek ptr dir) hrun (setOffset_offset _ _ _), toInt32_neg_iff]
    refine Iff.trans ?_ (HandleClass.seekCounts_iff hk htarget)
    constructor
    · exact fun hn => or_iff_not_imp_left.2 hn.1
    · exact fun hor => ⟨or_iff_not_imp_left.1 hor, fun hc => hc.elim⟩

end Offset

def oneOpen (world : σ) (handle : FileHandle σ) (offset : UInt32) : Files σ where
  world := world
  data i := if i = 0 then ⟨true, some 0⟩ else ⟨false, none⟩
  descs _ := ⟨handle, offset⟩
  info _ := ⟨1, 1⟩
  closes _ := 0

lemma oneOpen_refers (world : σ) (handle : FileHandle σ) (offset : UInt32) :
    (oneOpen world handle offset).Refers (0 : Int32).toInt 0 := rfl

def emptyFile : Files VirtualFile := oneOpen .empty (.virtualFile (fun _ _ => 0) .here) 0

theorem keepsOffset_write : InTable (0 : Int32).toInt ∧ emptyFile.Refers (0 : Int32).toInt 0 ∧
    emptyFile.KeepsOffset 0 0 (.write (fun _ => 0x41) 3) :=
  ⟨by decide, oneOpen_refers _ _ _, (keepsOffset_iff (by decide) (oneOpen_refers _ _ _)
    (k := .virtualFile (fun _ _ => 0) .here) rfl trivial _ rfl).2
      ⟨by decide, by decide, by decide⟩⟩

/-- A folder, the write end of a pipe and a file of an image, each at the offset 5. -/
def openFolder : Files ℕ := oneOpen 0 (.virtualFolder (fun _ => []) .here) 5

def openPipeEnd : Files Stream :=
  oneOpen ⟨512, fun _ => 0, 0, 0, false⟩ (.ownedStream .here .write (.stream .here some 1)) 5

def openIsoFile : Files ℕ := oneOpen 0 (.iso9660File (fun _ => ⟨fun _ => 0, 0, []⟩) [] (fun _ => []) .here) 5

/-- An error takes the offset back by one, and a seek to a negative offset stores it. -/
theorem offset_moved_by_errors : (((SysCall.read 0 1).run openFolder).result = .ok (-1, []) ∧
      (((SysCall.read 0 1).run openFolder).state.descs 0).offset = 4 ∧
      ¬ openFolder.KeepsOffset 0 0 (.read 1)) ∧
    (((SysCall.read 0 1).run openPipeEnd).result = .ok (-1, []) ∧
      (((SysCall.read 0 1).run openPipeEnd).state.descs 0).offset = 4 ∧
      ¬ openPipeEnd.KeepsOffset 0 0 (.read 1)) ∧
    (((SysCall.write 0 (fun _ => 0) 1).run openIsoFile).result = .ok (-1) ∧
      (((SysCall.write 0 (fun _ => 0) 1).run openIsoFile).state.descs 0).offset = 4 ∧
      ¬ openIsoFile.KeepsOffset 0 0 (.write (fun _ => 0) 1)) ∧
    ((SysCall.lseek 0 (-5) 0).run openFolder).result = .ok (-5) ∧
      (((SysCall.lseek 0 (-5) 0).run openFolder).state.descs 0).offset = 0xFFFFFFFB ∧
      ¬ openFolder.KeepsOffset 0 0 (.lseek (-5) 0) := by
  refine ⟨⟨rfl, rfl, fun h => ?_⟩, ⟨rfl, rfl, fun h => ?_⟩, ⟨rfl, rfl, fun h => ?_⟩, rfl, rfl, fun h => ?_⟩
  · exact absurd ((h (-1) rfl).1 (by decide)) (by decide)
  · exact absurd ((h (-1) rfl).1 (by decide)) (by decide)
  · exact absurd ((h (-1) rfl).1 (by decide)) (by decide)
  · exact absurd ((h (-5) rfl).1 (by decide)) (by decide)

open InterfaceFile

variable {loc : Loc σ VirtualFile} {file : Int32}

/-- The descriptor is at the end of a virtual file with the bytes `b`. -/
def AtEnd (loc : Loc σ VirtualFile) (file : Int32) (b : List UInt8) (s : Files σ) : Prop :=
  ∃ d fresh, s.Refers file.toInt d ∧ s.descs d = ⟨.virtualFile fresh loc, .ofNat b.length⟩ ∧ (loc.get s.world).Holds b

def writeTo (file : Int32) (s : Files σ) (w : (ℕ → UInt8) × Int32) : Files σ := ((SysCall.write file w.1 w.2).run s).state

def written (ws : List ((ℕ → UInt8) × Int32)) : List UInt8 := ws.flatMap fun w => bytes w.1 w.2.toUInt32

/-- The bytes of `b` that a read of `len` bytes at `ptr` is asked for. -/
def slice (b : List UInt8) (ptr len : Int32) : List UInt8 := (b.drop ptr.toUInt32.toNat).take len.toUInt32.toNat

variable (hloc : ∀ f w, loc.get (loc.put f w) = f) (hin : InTable file.toInt)

include hloc hin

lemma AtEnd.write {w : (ℕ → UInt8) × Int32} {b : List UInt8} (h : AtEnd loc file b s)
    (hlen : b.length + w.2.toUInt32.toNat < 2 ^ 32) : AtEnd loc file (b ++ bytes w.1 w.2.toUInt32) (s.writeTo file w) := by
  obtain ⟨d, fresh, href, hdesc, hb⟩ := h
  have hbytes : (bytes w.1 w.2.toUInt32).length = w.2.toUInt32.toNat := by simp [bytes]
  obtain ⟨g, hg, hholds⟩ := hb.write fresh (bytes w.1 w.2.toUInt32) (by omega)
  have hwrite : (s.descs d).handle.write w.1 w.2.toUInt32 (s.descs d).offset s.world = some (loc.put g s.world, w.2) := by
    simp [hdesc, virtualFile, hg]
  rw [writeTo, SysCall.write, opened_description hin href, run_bind_ok (run_perform hwrite)]
  change AtEnd _ _ _ ({ s with world := loc.put g s.world }.setOffset d ((s.descs d).offset + w.2.toUInt32))
  exact ⟨d, fresh, href, by simp [setOffset, hdesc, hbytes], by simpa [setOffset, hloc] using hholds⟩

lemma AtEnd.writes : ∀ (ws : List ((ℕ → UInt8) × Int32)) {s : Files σ} {b : List UInt8}, AtEnd loc file b s →
    (b ++ written ws).length < 2 ^ 32 → AtEnd loc file (b ++ written ws) (ws.foldl (writeTo file) s)
  | [], _, _, h, _ => by simpa [written] using h
  | w :: ws, _, b, h, hlen => by
    rw [written, List.flatMap_cons, ← List.append_assoc] at hlen ⊢
    refine writes ws (h.write hloc hin ?_) hlen
    simp only [List.length_append, bytes, List.length_map, List.length_range] at hlen
    omega

/-- After any writes to an empty file, what is read at any place is what was written there, and the call
returns how many bytes that are. -/
theorem writes_read_back (h : AtEnd loc file [] s) {ws : List ((ℕ → UInt8) × Int32)}
    (hlen : (written ws).length < 2 ^ 32)
    {ptr len : Int32} (hwrap : ptr.toUInt32.toNat + len.toUInt32.toNat < 2 ^ 32) :
    ((SysCall.read file len).run ((lseek file ptr 0).run (ws.foldl (writeTo file) s)).state).result =
      .ok ((UInt32.ofNat (slice (written ws) ptr len).length).toInt32, slice (written ws) ptr len) := by
  have hend := h.writes hloc hin ws hlen
  generalize ws.foldl (writeTo file) s = t at hend ⊢
  obtain ⟨d, fresh, href, hdesc, hb⟩ := hend
  have hread := hb.read hwrap
  rw [(moves_of_refers hin href).lseek ptr 0 ptr.toUInt32 rfl,
    (moves_of_refers (s := t.setOffset d _) hin href).read len t.world _ _ (by
      simp only [setOffset, Function.update_self, hdesc, virtualFile, hread, bind,
        Option.bind_some]
      rfl)]
  rfl

omit hloc hin

theorem writes_read_back_two : ((SysCall.read 0 9).run ((lseek 0 1 0).run
    ([(fun _ => 0x41, 2), (fun _ => 0x42, 2)].foldl (writeTo 0) emptyFile)).state).result =
      .ok (3, [0x41, 0x42, 0x42]) := by
  have h : AtEnd .here 0 [] emptyFile := ⟨0, _, rfl, rfl, VirtualFile.holds_empty⟩
  exact writes_read_back (fun _ _ => rfl) (by decide) h (by decide) (by decide)

end Files

end OlliOS
