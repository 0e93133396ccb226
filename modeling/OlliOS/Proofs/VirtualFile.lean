import OlliOS.Kstd.Vector
import OlliOS.VirtualFile

/-!
# Contents of virtual files

`Stores data bytes` says that the buffers hold the bytes, one after the other and no buffer more than they
need.
-/

namespace OlliOS.VirtualFile

open List UInt32

structure Stores (data : List Chunk) (bytes : List UInt8) : Prop where
  length : data.length = (bytes.length + 511) / 512
  byte : ∀ (i : ℕ) (b : UInt8), bytes[i]? = some b → (data[i / 512]?).map (fun c => c (i % 512)) = some b

structure Holds (f : VirtualFile) (bytes : List UInt8) : Prop where
  data : Stores f.data bytes
  size : f.size.toNat = bytes.length

lemma holds_empty : Holds empty [] := ⟨⟨rfl, fun i b h => by simp at h⟩, rfl⟩

lemma Holds.unique {f : VirtualFile} {bytes bytes' : List UInt8} (h : Holds f bytes)
    (h' : Holds f bytes') : bytes = bytes' := by
  have hlen : bytes.length = bytes'.length := h.size.symm.trans h'.size
  refine ext_getElem hlen fun i hi hi' => ?_
  have hbyte := h.data.byte i _ (getElem?_eq_getElem hi)
  rw [h'.data.byte i _ (getElem?_eq_getElem hi')] at hbyte
  exact (Option.some.inj hbyte).symm

lemma partLength_eq (size offset : ℕ) : partLength size offset = min size (512 - offset) := by
  unfold partLength chunkSize
  split_ifs <;> omega

section Write

variable {chunk c : Chunk} {data : List Chunk} {bytes : List UInt8} {w : Writing} {offset i : ℕ}

lemma copyInto_of_lt (h : i < offset) : copyInto chunk offset bytes i = chunk i := by
  simp [copyInto, Nat.not_le.2 h]

lemma copyInto_of_le {b : UInt8}
    (h : offset ≤ i) (hb : bytes[i - offset]? = some b) : copyInto chunk offset bytes i = b := by
  simp [copyInto, h, hb]

/-- The buffers once the one that is written to is there. -/
def reserved (fresh : ℕ → Chunk) (data : List Chunk) (k : ℕ) : List Chunk :=
  if k = data.length then data ++ [fresh k] else data

lemma Stores.reserved (fresh : ℕ → Chunk) (h : Stores data bytes) :
    (reserved fresh data (bytes.length / 512)).length = bytes.length / 512 + 1 ∧
      ∀ (i : ℕ) (b : UInt8), bytes[i]? = some b →
        ((reserved fresh data (bytes.length / 512))[i / 512]?).map (fun c => c (i % 512)) = some b := by
  have hlen := h.length
  unfold VirtualFile.reserved
  split_ifs with hend
  · refine ⟨by rw [length_append, length_singleton, hend], fun i b hb => ?_⟩
    have hi := (List.getElem?_eq_some_iff.1 hb).1
    rw [getElem?_append_left (by omega)]
    exact h.byte i b hb
  · exact ⟨by omega, h.byte⟩

lemma Stores.append (part : List UInt8) (hlen : data.length = bytes.length / 512 + 1)
    (hold : ∀ (i : ℕ) (b : UInt8), bytes[i]? = some b → (data[i / 512]?).map (fun c => c (i % 512)) = some b)
    (hpart : 0 < part.length) (hfit : bytes.length % 512 + part.length ≤ 512)
    (hc : data[bytes.length / 512]? = some c) :
    Stores (data.set (bytes.length / 512) (copyInto c (bytes.length % 512) part)) (bytes ++ part) := by
  refine ⟨by rw [length_set, length_append]; omega, fun i b hb => ?_⟩
  rw [getElem?_append] at hb
  split_ifs at hb with hi
  · -- a byte that was there before, in the last chunk or in another
    have hbyte := hold i b hb
    by_cases hchunk : bytes.length / 512 = i / 512
    · rw [hchunk] at hc
      rw [hc] at hbyte
      rwa [hchunk, getElem?_set_self (List.getElem?_eq_some_iff.1 hc).1, Option.map_some, copyInto_of_lt (by omega)]
    · rw [getElem?_set_ne hchunk, hbyte]
  · have hlt := (List.getElem?_eq_some_iff.1 hb).1
    have hchunk : i / 512 = bytes.length / 512 := by omega
    have hindex : i % 512 - bytes.length % 512 = i - bytes.length := by omega
    rw [hchunk, getElem?_set_self (List.getElem?_eq_some_iff.1 hc).1, Option.map_some,
      copyInto_of_le (by omega) (by rw [hindex]; exact hb)]

lemma writePass_eq {fresh : ℕ → Chunk} (hne : w.buffer ≠ [])
    (hc : (reserved fresh w.data w.chunk)[w.chunk]? = some c) : writePass fresh w = .inl
      { data := (reserved fresh w.data w.chunk).set w.chunk
          (copyInto c w.offset (w.buffer.take (partLength w.buffer.length w.offset)))
        chunk := w.chunk + 1
        offset := 0
        buffer := w.buffer.drop (partLength w.buffer.length w.offset) } := by
  rw [VirtualFile.reserved] at hc
  simp only [writePass, if_neg hne, hc]
  rfl

/-- What is written so far stands behind the bytes that were there, and the next byte goes to its
end. -/
def Written (bytes buffer : List UInt8) (w : Writing) : Prop :=
  ∃ part, buffer = part ++ w.buffer ∧ Stores w.data (bytes ++ part) ∧
    (w.buffer ≠ [] → w.chunk = (bytes ++ part).length / 512 ∧ w.offset = (bytes ++ part).length % 512)

lemma Written.pass (fresh : ℕ → Chunk) {buffer : List UInt8} (h : Written bytes buffer w) :
    (∃ t, writePass fresh w = .inl t ∧ Written bytes buffer t ∧ t.buffer.length < w.buffer.length) ∨
      ∃ r, writePass fresh w = .inr r ∧ ∃ data, r = some data ∧ Stores data (bytes ++ buffer) := by
  obtain ⟨part, hbuffer, hdata, hnext⟩ := h
  by_cases hempty : w.buffer = []
  · refine .inr ⟨some w.data, by rw [writePass, if_pos hempty], w.data, rfl, ?_⟩
    rwa [hbuffer, hempty, append_nil]
  left
  obtain ⟨hchunk, hoffset⟩ := hnext hempty
  have hpos := length_pos_of_ne_nil hempty
  have hpl := partLength_eq w.buffer.length w.offset
  obtain ⟨hlen, hold⟩ := hdata.reserved fresh
  rw [← hchunk] at hlen hold
  obtain ⟨c, hc⟩ : ∃ c, (reserved fresh w.data w.chunk)[w.chunk]? = some c :=
    ⟨_, getElem?_eq_getElem (by omega)⟩
  refine ⟨_, writePass_eq hempty hc, ?_, ?_⟩
  · refine ⟨part ++ w.buffer.take (partLength w.buffer.length w.offset), ?_, ?_, ?_⟩
    · rw [append_assoc, take_append_drop, hbuffer]
    · rw [← append_assoc]
      have happend := Stores.append (w.buffer.take (partLength w.buffer.length w.offset))
        (by rw [hlen, hchunk]) hold (by rw [length_take]; omega)
        (by rw [length_take]; omega) (by rw [← hchunk]; exact hc)
      rwa [← hchunk, ← hoffset] at happend
    · -- there is more to write only if the chunk is full
      intro hmore
      have hdrop := length_pos_of_ne_nil hmore
      simp only [length_drop] at hdrop
      simp only [length_append, length_take] at hchunk hoffset ⊢
      omega
  · simp only [length_drop]
    omega

lemma Holds.write (fresh : ℕ → Chunk) {f : VirtualFile} (h : Holds f bytes)
    (buffer : List UInt8) (hsize : bytes.length + buffer.length < 2 ^ 32) :
    ∃ g, f.write fresh buffer (ofNat bytes.length) = some g ∧ Holds g (bytes ++ buffer) := by
  have hpos : (ofNat bytes.length).toNat = bytes.length := by
    rw [toNat_ofNat']
    omega
  have hstart : Written bytes buffer ⟨f.data, bytes.length / chunkSize, bytes.length % chunkSize, buffer⟩ :=
    ⟨[], rfl, by simpa using h.data, fun _ => by simp [chunkSize]⟩
  obtain ⟨hall, hex⟩ := Loop.run_of_variant (fun w : Writing => w.buffer.length)
    (fun w hw => Written.pass fresh hw) (buffer.length + 1) _ hstart
  obtain ⟨r, hr⟩ := hex (Nat.lt_succ_self _)
  obtain ⟨data, rfl, hdata⟩ := hall r hr
  refine ⟨⟨data, f.size + ofNat buffer.length⟩, ?_, hdata, ?_⟩
  · rw [VirtualFile.write, hpos, hr]
    rfl
  · rw [UInt32.toNat_add, h.size, UInt32.toNat_ofNat', length_append]
    omega

end Write

section Read

variable {c : Chunk} {data : List Chunk} {bytes : List UInt8} {r : Reading}

lemma Stores.part (h : Stores data bytes) (pos n : ℕ)
    (hc : data[pos / 512]? = some c) (hn : pos % 512 + n ≤ 512)
    (hlen : pos + n ≤ bytes.length) :
    (List.range' (pos % 512) n).map c = (bytes.drop pos).take n := by
  refine ext_getElem? fun i => ?_
  by_cases hi : i < n
  · have hbyte := h.byte (pos + i) bytes[pos + i] (getElem?_eq_getElem (by omega))
    have hchunk : (pos + i) / 512 = pos / 512 := by omega
    have hindex : (pos + i) % 512 = pos % 512 + i := by omega
    rw [hchunk, hc, hindex] at hbyte
    rw [getElem?_map, getElem?_range' hi, getElem?_take, if_pos hi, getElem?_drop, getElem?_eq_getElem (by omega)]
    simpa using hbyte
  · rw [getElem?_eq_none (by simpa using Nat.le_of_not_lt hi), getElem?_eq_none (by simp only [length_take]; omega)]

lemma readPass_eq (hne : r.size ≠ 0) (hc : data[r.chunk]? = some c) : readPass data r = .inl
      { chunk := r.chunk + 1
        offset := 0
        size := r.size - partLength r.size r.offset
        buffer := r.buffer ++ (List.range' r.offset (partLength r.size r.offset)).map c } := by
  simp only [readPass, if_neg hne, hc]

/-- What was copied so far, and where the next byte comes from. -/
def Copied (bytes : List UInt8) (pos total : ℕ) (r : Reading) : Prop :=
  ∃ done, done + r.size = total ∧ r.buffer = (bytes.drop pos).take done ∧
    (r.size ≠ 0 → r.chunk = (pos + done) / 512 ∧ r.offset = (pos + done) % 512)

lemma Copied.pass (h : Stores data bytes) {pos total : ℕ}
    (htotal : pos + total ≤ bytes.length) (hr : Copied bytes pos total r) :
    (∃ t, readPass data r = .inl t ∧ Copied bytes pos total t ∧ t.size < r.size) ∨
      ∃ x, readPass data r = .inr x ∧ x = some ((bytes.drop pos).take total) := by
  obtain ⟨done, hdone, hbuffer, hnext⟩ := hr
  by_cases hempty : r.size = 0
  · refine .inr ⟨some r.buffer, by rw [readPass, if_pos hempty], ?_⟩
    rw [hbuffer, ← hdone, hempty, Nat.add_zero]
  left
  obtain ⟨hchunk, hoffset⟩ := hnext hempty
  have hpl := partLength_eq r.size r.offset
  have hlen := h.length
  obtain ⟨c, hc⟩ : ∃ c, data[r.chunk]? = some c := ⟨_, getElem?_eq_getElem (by omega)⟩
  refine ⟨_, readPass_eq hempty hc, ?_, by simp only; omega⟩
  refine ⟨done + partLength r.size r.offset, by simp only; omega, ?_, fun hmore => ?_⟩
  · have hpart := h.part (pos + done) (partLength r.size r.offset)
      (by rw [← hchunk]; exact hc) (by omega) (by omega)
    rw [← hoffset] at hpart
    simp [hbuffer, hpart, take_add]
  · simp only at hmore ⊢
    omega

lemma Holds.read {f : VirtualFile} (h : Holds f bytes) {size pos : UInt32}
    (hwrap : pos.toNat + size.toNat < 2 ^ 32) :
    f.read size pos = some ((bytes.drop pos.toNat).take size.toNat) := by
  have hsize := h.size
  unfold VirtualFile.read
  by_cases hend : f.size ≤ pos
  · rw [if_pos hend, drop_of_length_le (by rw [le_iff_toNat_le] at hend; omega), take_nil]
  rw [if_neg hend]
  rw [le_iff_toNat_le] at hend
  have hclip : ∃ n : UInt32, (if f.size ≤ pos + size then f.size - pos else size) = n ∧
      n.toNat = min size.toNat (bytes.length - pos.toNat) := by
    refine ⟨_, rfl, ?_⟩
    have hadd : (pos + size).toNat = pos.toNat + size.toNat := by
      rw [UInt32.toNat_add]
      omega
    split_ifs with hle
    · rw [le_iff_toNat_le, hadd] at hle
      rw [UInt32.toNat_sub_of_le _ _ (by rw [UInt32.le_iff_toNat_le]; omega)]
      omega
    · rw [le_iff_toNat_le, hadd] at hle
      omega
  obtain ⟨n, hn, hnat⟩ := hclip
  have hstart : Copied bytes pos.toNat n.toNat ⟨pos.toNat / chunkSize, pos.toNat % chunkSize, n.toNat, []⟩ :=
    ⟨0, by simp, by simp, fun _ => by simp [chunkSize]⟩
  obtain ⟨hall, hex⟩ := Loop.run_of_variant (fun r : Reading => r.size)
    (fun r hr => Copied.pass h.data (by omega) hr) (n.toNat + 1) _ hstart
  obtain ⟨x, hx⟩ := hex (Nat.lt_succ_self _)
  simp only [hn, hx, hall x hx, Option.join_some]
  congr 1
  rw [hnat, ← length_drop, take_eq_take_iff]
  omega

end Read

lemma Holds.writeAll (fresh : ℕ → Chunk) : ∀ (buffers : List (List UInt8)) {f : VirtualFile}
    {bytes : List UInt8}, Holds f bytes → bytes.length + buffers.flatten.length < 2 ^ 32 →
    ∃ g, f.writeAll fresh buffers = some g ∧ Holds g (bytes ++ buffers.flatten)
  | [], f, bytes, h, _ => ⟨f, rfl, by simpa using h⟩
  | buffer :: buffers, f, bytes, h, hsize => by
    rw [flatten_cons, length_append] at hsize
    have hpos : f.getSize = ofNat bytes.length := by rw [← h.size, UInt32.ofNat_toNat, getSize]
    obtain ⟨g, hg, hholds⟩ := h.write fresh buffer (by omega)
    obtain ⟨g', hg', hholds'⟩ := hholds.writeAll fresh buffers (by rw [length_append]; omega)
    refine ⟨g', ?_, by simpa using hholds'⟩
    rwa [VirtualFile.writeAll, foldlM_cons, hpos, hg]

/-- A file that was written from start to end reads as what was written, however it was cut. The vector of
its buffers grows as it should. -/
theorem sequential_contents (fresh : ℕ → Chunk) (buffers : List (List UInt8))
    (htotal : buffers.flatten.length < 2 ^ 31) :
    ∃ f, empty.writeAll fresh buffers = some f ∧ f.getSize.toNat = buffers.flatten.length ∧
      (∀ size pos : UInt32, pos.toNat + size.toNat < 2 ^ 32 → ∃ bytes, f.read size pos = some bytes ∧
        bytes = (buffers.flatten.drop pos.toNat).take size.toNat ∧
        bytes.length = min size.toNat (buffers.flatten.length - pos.toNat)) ∧
      ∀ chunks : List UInt32, chunks.length = f.data.length →
        ∃ v, chunks.foldlM (Vector.Raw.pushBack 4) .empty = some v ∧ v.Represents chunks := by
  obtain ⟨f, hf, hholds⟩ := holds_empty.writeAll fresh buffers (by rw [length_nil]; omega)
  rw [nil_append] at hholds
  refine ⟨f, hf, hholds.size, fun size pos hwrap => ⟨_, hholds.read hwrap, rfl, ?_⟩, fun chunks hlen => ?_⟩
  · rw [length_take, length_drop]
  · have hdata := hholds.data.length
    refine Vector.Raw.Represents.pushAll (by decide : 0 < (4 : UInt32).toNat) chunks Vector.Raw.represents_empty ?_
    change 2 * (0 + chunks.length) * 4 < 2 ^ 32
    omega

theorem sequential_contents_crossing : ∃ f,
    empty.writeAll (fun _ _ => 0) [List.replicate 510 7, [1, 2, 3], [], [4]] = some f ∧
      f.getSize.toNat = 514 ∧ f.read 10 511 = some [2, 3, 4] := by
  obtain ⟨f, hf, hsize, hread, -⟩ :=
    sequential_contents (fun _ _ => 0) [List.replicate 510 7, [1, 2, 3], [], [4]] (by decide +kernel)
  decide +kernel

end OlliOS.VirtualFile
