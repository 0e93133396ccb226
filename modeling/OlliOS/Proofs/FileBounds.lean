import OlliOS.FileBounds
import OlliOS.Proofs.VirtualFile

/-!
# Writes at the end and reads that do not wrap

The size of a virtual file grows by what is written and not to where it is written. A read stays inside
the chunks unless the sum of its position and its size wraps.
-/

namespace OlliOS

open List Option VirtualFile Iso9660FileSystem Iso9660FileHandle UInt32

def clip (length size pos : UInt32) : UInt32 :=
  if length ≤ pos then 0 else if length ≤ pos + size then length - pos else size

variable {length size pos : UInt32}

lemma clip_of_le (h : length ≤ pos) : clip length size pos = 0 := if_pos h

lemma toNat_clip (h : pos < length) : (clip length size pos).toNat =
    if pos.toNat + size.toNat < 2 ^ 32 then min size.toNat (length.toNat - pos.toNat) else size.toNat := by
  have hsize := size.toNat_lt
  rw [UInt32.lt_iff_toNat_lt] at h
  have hend : ¬ length ≤ pos := by
    rw [UInt32.le_iff_toNat_le]
    omega
  have hsum := UInt32.toNat_add pos size
  have hdiff := UInt32.toNat_sub length pos
  unfold clip
  by_cases hclip : length ≤ pos + size
  · rw [if_pos hclip]
    rw [le_iff_toNat_le, hsum] at hclip
    split_ifs <;> omega
  · rw [if_neg hclip]
    rw [le_iff_toNat_le, hsum] at hclip
    split_ifs <;> omega

lemma toInt_countResult {n : ℕ} (h : n < 2 ^ 32) : (countResult n).toInt = n ↔ n < 2 ^ 31 := by
  have htoNat : (ofNat n).toNat = n := by
    rw [toNat_ofNat']
    omega
  have hint := Words.toInt_signed (countResult n)
  rw [countResult, toUInt32_toInt32, htoNat] at hint
  rw [countResult]
  split_ifs at hint <;> omega

lemma readsWithin_clip_iff (length size pos : UInt32) :
    ReadsWithin length size pos (some (clip length size pos).toNat) ↔ ReadFits length size pos := by
  have hclip := (clip length size pos).toNat_lt
  have hunfold : ReadsWithin length size pos (some (clip length size pos).toNat) ↔
      (clip length size pos).toNat ≤ mostCopied length size pos ∧ (clip length size pos).toNat < 2 ^ 31 := by
    simp [ReadsWithin, toInt_countResult hclip]
  rw [hunfold, mostCopied, ReadFits]
  by_cases hend : length ≤ pos
  · simp [clip_of_le hend, hend]
  have hlt : pos < length := UInt32.not_le.1 hend
  have hpos := pos.toNat_lt
  have hlength := length.toNat_lt
  rw [toNat_clip hlt, if_pos hlt]
  simp only [hend, false_or]
  split_ifs with hwrap <;> omega

namespace VirtualFile

section Copying

lemma copyPass_invariant {total : ℕ} {c : Copying} (hsum : c.copied + c.size = total) (hoffset : c.offset < 512) :
    (∃ d, copyPass c = .inl d ∧ (d.copied + d.size = total ∧ d.offset < 512) ∧ d.size < c.size) ∨
      ∃ n, copyPass c = .inr n ∧ n = total := by
  by_cases hsize : c.size = 0
  · exact .inr ⟨c.copied, by rw [copyPass, if_pos hsize], by omega⟩
  have hpart := partLength_eq c.size c.offset
  refine .inl ⟨_, by rw [copyPass, if_neg hsize], ⟨?_, Nat.succ_pos _⟩, ?_⟩
  · simp only
    omega
  · simp only
    omega

lemma bytesCopied_eq (f : VirtualFile) (size pos : UInt32) :
    f.bytesCopied size pos = some (clip f.size size pos).toNat := by
  by_cases hend : f.size ≤ pos
  · rw [bytesCopied, if_pos hend, clip_of_le hend]
    rfl
  have hclip : clip f.size size pos = if f.size ≤ pos + size then f.size - pos else size := if_neg hend
  rw [bytesCopied, if_neg hend, ← hclip]
  obtain ⟨hall, hex⟩ := Loop.run_of_variant (fun c : Copying => c.size)
    (fun c hc => copyPass_invariant hc.1 hc.2) ((clip f.size size pos).toNat + 1)
    ⟨pos.toNat % chunkSize, (clip f.size size pos).toNat, 0⟩
    ⟨Nat.zero_add _, Nat.mod_lt _ (by decide)⟩
  obtain ⟨n, hn⟩ := hex (Nat.lt_succ_self _)
  rw [hn, hall n hn]

end Copying

section Read

def Progress (data : List Chunk) (pos total : ℕ) (r : Reading) : Prop :=
  ∃ done, done + r.size = total ∧ r.buffer.length = done ∧
    (r.size ≠ 0 → r.chunk = (pos + done) / 512 ∧ r.offset = (pos + done) % 512) ∧
    (done = 0 ∨ pos + done ≤ 512 * data.length)

def Ended (data : List Chunk) (pos total : ℕ) (x : Option (List UInt8)) : Prop :=
  (∃ bytes, x = some bytes ∧ bytes.length = total ∧ (total = 0 ∨ pos + total ≤ 512 * data.length)) ∨
    (x = none ∧ total ≠ 0 ∧ 512 * data.length < pos + total)

lemma Progress.pass {data : List Chunk} {pos total : ℕ} {r : Reading} (h : Progress data pos total r) :
    (∃ t, readPass data r = .inl t ∧ Progress data pos total t ∧ t.size < r.size) ∨
      ∃ x, readPass data r = .inr x ∧ Ended data pos total x := by
  obtain ⟨done, hdone, hbuffer, hnext, hthere⟩ := h
  by_cases hempty : r.size = 0
  · refine .inr ⟨some r.buffer, by rw [readPass, if_pos hempty], .inl ⟨r.buffer, rfl, by omega, ?_⟩⟩
    rwa [← hdone, hempty, Nat.add_zero]
  obtain ⟨hchunk, hoffset⟩ := hnext hempty
  have hpl := partLength_eq r.size r.offset
  cases hc : data[r.chunk]? with
  | none =>
    have hlen := List.getElem?_eq_none_iff.1 hc
    refine .inr ⟨none, by simp only [readPass, if_neg hempty, hc], .inr ⟨rfl, by omega, by omega⟩⟩
  | some c =>
    have hlen := (List.getElem?_eq_some_iff.1 hc).1
    refine .inl ⟨_, readPass_eq hempty hc, ?_, by simp only; omega⟩
    refine ⟨done + partLength r.size r.offset, by simp only; omega, ?_, fun hmore => ?_, by omega⟩
    · simp only [length_append, length_map, length_range', hbuffer]
    · simp only at hmore ⊢
      omega

lemma read_ended (f : VirtualFile) (size pos : UInt32) :
    Ended f.data pos.toNat (clip f.size size pos).toNat (f.read size pos) := by
  by_cases hend : f.size ≤ pos
  · rw [read, if_pos hend, clip_of_le hend]
    exact .inl ⟨[], rfl, rfl, .inl rfl⟩
  have hclip : clip f.size size pos = if f.size ≤ pos + size then f.size - pos else size := if_neg hend
  have hstart : Progress f.data pos.toNat (clip f.size size pos).toNat
      ⟨pos.toNat / chunkSize, pos.toNat % chunkSize, (clip f.size size pos).toNat, []⟩ :=
    ⟨0, Nat.zero_add _, rfl, fun _ => ⟨rfl, rfl⟩, .inl rfl⟩
  obtain ⟨hall, hex⟩ := Loop.run_of_variant (fun r : Reading => r.size) (fun r hr => Progress.pass hr)
    ((clip f.size size pos).toNat + 1) _ hstart
  obtain ⟨x, hx⟩ := hex (Nat.lt_succ_self _)
  have hread : f.read size pos = x := by
    rw [read, if_neg hend, ← hclip]
    exact congrArg Option.join hx
  rw [hread]
  exact hall x hx

lemma read_isSome_iff (f : VirtualFile) (size pos : UInt32) : (f.read size pos).isSome = true ↔
    (clip f.size size pos).toNat = 0 ∨ pos.toNat + (clip f.size size pos).toNat ≤ 512 * f.data.length := by
  rcases f.read_ended size pos with ⟨bytes, hbytes, -, hthere⟩ | ⟨hnone, hne, hlt⟩
  · simp [hbytes, hthere]
  · simp only [hnone, isSome_none, Bool.false_eq_true, false_iff]
    omega

lemma Holds.read_isSome_iff {f : VirtualFile} {bytes : List UInt8} (h : Holds f bytes) (size pos : UInt32) :
    (f.read size pos).isSome = true ↔ f.Inside size pos := by
  have hchunks := h.data.length
  rw [← h.size] at hchunks
  have hbound := f.size.toNat_lt
  have hpos := pos.toNat_lt
  rw [VirtualFile.read_isSome_iff, Inside]
  by_cases hend : f.size ≤ pos
  · simp [clip_of_le hend, hend]
  · have hlt : pos < f.size := UInt32.not_le.1 hend
    rw [toNat_clip hlt]
    simp only [hend, false_or]
    split_ifs with hwrap <;> omega

end Read

section Write

lemma write_nil (fresh : ℕ → Chunk) (f : VirtualFile) (pos : UInt32) : f.write fresh [] pos = some f := by
  simp [write, Loop.run, writePass]

variable {bytes : List UInt8} {f : VirtualFile} {w : WriteCall} {fresh : ℕ → Chunk}

lemma write_size {g : VirtualFile} {buffer : List UInt8} {pos : UInt32}
    (h : f.write fresh buffer pos = some g) : g.size = f.size + ofNat buffer.length := by
  obtain ⟨data, -, hg⟩ := bind_eq_some_iff.1 h
  rw [← some.inj hg]

lemma atEnd_of_extends (hlen : w.1.length < 2 ^ 32) (h : f.Extends fresh w) : f.AtEnd w := by
  obtain ⟨g, hg, hsize⟩ := h
  rw [getSize, write_size hg] at hsize
  by_cases hnil : w.1 = []
  · exact .inl hnil
  · have hpos : 0 < w.1.length := length_pos_iff.2 hnil
    rw [if_neg hnil, UInt32.toNat_add, UInt32.toNat_ofNat', getSize] at hsize
    refine .inr ⟨UInt32.toNat_inj.1 ?_, ?_⟩ <;> omega

lemma Holds.step (fresh : ℕ → Chunk) (h : Holds f bytes)
    (hw : f.AtEnd w) : ∃ g, f.step fresh w = some g ∧ Holds g (bytes ++ w.1) := by
  rcases hw with hnil | ⟨hpos, hsize⟩
  · refine ⟨f, ?_, ?_⟩
    · rw [VirtualFile.step, hnil, write_nil]
    · rwa [hnil, append_nil]
  · have hend : w.2 = ofNat bytes.length := by
      rw [hpos, ← h.size, UInt32.ofNat_toNat]
    rw [VirtualFile.step, hend]
    exact h.write fresh w.1 (by rw [← h.size]; exact hsize)

lemma Holds.extends_iff (fresh : ℕ → Chunk) (h : Holds f bytes)
    (hlen : w.1.length < 2 ^ 32) : f.Extends fresh w ↔ f.AtEnd w := by
  refine ⟨atEnd_of_extends hlen, fun hw => ?_⟩
  obtain ⟨g, hg, hholds⟩ := h.step fresh hw
  refine ⟨g, hg, ?_⟩
  rw [getSize, getSize, hholds.size, h.size, length_append]
  split_ifs with hnil
  · simp [hnil]
  · rcases hw with hnil' | ⟨hpos, -⟩
    · exact absurd hnil' hnil
    · rw [hpos, h.size]
      omega

end Write

/-- In every file that was written in order, a write gives the file the size it is to have if it is in
order itself and only then, and a read uses chunks that are there unless it wraps. -/
theorem sizes_in_order (fresh : ℕ → Chunk) {f : VirtualFile}
    (hreach : Stepping.Reaches (step fresh) InOrder empty f) :
    (∀ w : WriteCall, w.1.length < 2 ^ 32 → (f.Extends fresh w ↔ f.AtEnd w)) ∧
    ∀ size pos : UInt32, (f.read size pos).isSome = true ↔ f.Inside size pos := by
  have hholds : ∃ bytes, Holds f bytes := by
    refine hreach.invariant (I := fun f => ∃ bytes, Holds f bytes) ⟨[], holds_empty⟩ ?_
    rintro g w g' ⟨bytes, hbytes⟩ hw hstep
    obtain ⟨h, hh, hholds⟩ := hbytes.step fresh hw.2
    cases hstep.symm.trans hh
    exact ⟨_, hholds⟩
  obtain ⟨bytes, hbytes⟩ := hholds
  exact ⟨fun w hlen => hbytes.extends_iff fresh hlen, fun size pos => hbytes.read_isSome_iff size pos⟩

theorem sizes_in_order_three : ∃ f, Stepping.Reaches (step fun _ _ => 0) InOrder empty f ∧
    f.size = 3 ∧ f.Extends (fun _ _ => 0) ([4], 3) ∧ (f.read 2 1).isSome = true := by
  have hw : InOrder empty ([1, 2, 3], 0) := ⟨by decide, .inr ⟨rfl, by decide⟩⟩
  obtain ⟨f, hf, hholds⟩ := holds_empty.step (fun _ _ => 0) hw.2
  have hreach : Stepping.Reaches (step fun _ _ => 0) InOrder empty f := (Stepping.Reaches.refl _).tail hw hf
  have hsize : f.size = 3 := UInt32.toNat_inj.1 hholds.size
  obtain ⟨hwrite, hread⟩ := sizes_in_order (fun _ _ => 0) hreach
  refine ⟨f, hreach, hsize, (hwrite ([4], 3) (by decide)).2 (.inr ⟨hsize.symm, ?_⟩), (hread 2 1).2 (.inr (.inl ?_))⟩
  · rw [hsize]
    decide
  · decide

def twoBytes : VirtualFile := ⟨[copyInto (fun _ => 0) 0 [1, 2]], 2⟩

/-- A byte that is written over another one makes the file longer. -/
theorem size_of_overwritten : empty.write (fun _ _ => 0) [1, 2] 0 = some twoBytes ∧
    (twoBytes.write (fun _ _ => 0) [3] 0).map getSize = some 3 ∧
    ¬ twoBytes.Extends (fun _ _ => 0) ([3], 0) ∧
    empty.write (fun _ _ => 0) [1] 1024 = none ∧ twoBytes.read 0xFFFFFFFF 1 = none := by
  refine ⟨rfl, rfl, fun hext => ?_, rfl, ?_⟩
  · rcases atEnd_of_extends (by decide) hext with hnil | ⟨hpos, -⟩
    · cases hnil
    · cases hpos
  · have hnot : ¬ (twoBytes.read 0xFFFFFFFF 1).isSome = true := by
      decide
    exact not_isSome_iff_eq_none.1 hnot

end VirtualFile

lemma iso_requested {fs : Iso9660FileSystem} {record : List UInt8} {lba : UInt32}
    (hlba : readU32 record 2 = some lba)
    (hlength : readU32 record 10 = some length) (size pos : UInt32) :
    (Iso9660FileHandle.read fs record size pos).map List.length = some (clip length size pos).toNat := by
  by_cases hend : length ≤ pos
  · rw [clip_of_le hend]
    simp [Iso9660FileHandle.read, hlba, hlength, hend]
  · have hclip : clip length size pos = if length ≤ pos + size then length - pos else size := if_neg hend
    rw [hclip]
    simp [Iso9660FileHandle.read, hlba, hlength, hend, Iso9660FileSystem.readRaw]

/-- Reads of virtual files and of files of an image copy no more than there is, exactly if they do not
wrap and the number of bytes is an `i32`. -/
theorem reads_within_iff (size pos : UInt32) :
    (∀ f : VirtualFile, ReadsWithin f.getSize size pos (f.bytesCopied size pos) ↔ ReadFits f.getSize size pos) ∧
    ∀ (fs : Iso9660FileSystem) (record : List UInt8) (lba length : UInt32),
      readU32 record 2 = some lba → readU32 record 10 = some length →
      (ReadsWithin length size pos ((read fs record size pos).map List.length) ↔ ReadFits length size pos) := by
  refine ⟨fun f => ?_, fun fs record lba length hlba hlength => ?_⟩
  · rw [bytesCopied_eq]
    exact readsWithin_clip_iff f.getSize size pos
  · rw [iso_requested hlba hlength]
    exact readsWithin_clip_iff length size pos

def smallRecord : List UInt8 := [34, 0, 20, 0, 0, 0, 0, 0, 0, 20, 2, 0, 0, 0, 0, 0, 0, 2]

def blankImage : Iso9660FileSystem := ⟨fun _ => 0, 0, []⟩

theorem reads_within_small : readU32 smallRecord 2 = some 20 ∧ readU32 smallRecord 10 = some 2 ∧
    ReadsWithin 2 512 1 ((read blankImage smallRecord 512 1).map List.length) ∧
    ReadsWithin (getSize ⟨[], 2⟩) 512 1 (bytesCopied ⟨[], 2⟩ 512 1) :=
  ⟨by decide, by decide,
    ((reads_within_iff 512 1).2 blankImage smallRecord 20 2 (by decide) (by decide)).2 (.inr (by decide)),
    ((reads_within_iff 512 1).1 ⟨[], 2⟩).2 (.inr (by decide))⟩

/-- A size of `-1` at the second of two bytes is not clipped, and half of the address space is not a
number of bytes that can be returned. -/
theorem read_past_end : bytesCopied ⟨[], 2⟩ 0xFFFFFFFF 1 = some 0xFFFFFFFF ∧
    ¬ ReadsWithin 2 0xFFFFFFFF 1 (bytesCopied ⟨[], 2⟩ 0xFFFFFFFF 1) ∧
    (read blankImage smallRecord 0xFFFFFFFF 1).map List.length = some 0xFFFFFFFF ∧
    ¬ ReadsWithin 2 0xFFFFFFFF 1 ((read blankImage smallRecord 0xFFFFFFFF 1).map List.length) ∧
    bytesCopied ⟨[], 0x80000000⟩ 0x80000000 0 = some 0x80000000 ∧
    (countResult 0x80000000).toInt = -0x80000000 := by
  have hfile : bytesCopied ⟨[], 2⟩ 0xFFFFFFFF 1 = some 0xFFFFFFFF := by
    rw [bytesCopied_eq]
    rfl
  have hlba : readU32 smallRecord 2 = some 20 := by decide
  have hlength : readU32 smallRecord 10 = some 2 := by decide
  have hiso : (read blankImage smallRecord 0xFFFFFFFF 1).map List.length = some 0xFFFFFFFF := by
    rw [iso_requested hlba hlength]
    rfl
  have hmore : ¬ ReadsWithin 2 0xFFFFFFFF 1 (some 0xFFFFFFFF) := by
    rintro ⟨n, hn, hle, -⟩
    cases hn
    exact absurd hle (by decide)
  refine ⟨hfile, hfile ▸ hmore, hiso, hiso ▸ hmore, ?_, by decide⟩
  rw [bytesCopied_eq]
  rfl

end OlliOS
