import Mathlib.Data.List.Forall2
import OlliOS.IsoLayout

/-!
# Reading an image back

A record is read from the buffer it starts, the loop of `create_children` goes from record to record, and
files made later leave those made before as they are.
-/

namespace OlliOS

open Iso9660FileSystem List Option UInt8 UInt32 Iso9660FileHandle

/-! ## One record -/

section Record

lemma getElem?_append_of_eq_some {α : Type*} {l : List α} {i : ℕ} {a : α} (h : l[i]? = some a)
    (rest : List α) : (l ++ rest)[i]? = some a := by
  rw [getElem?_append_left (List.getElem?_eq_some_iff.1 h).1, h]

lemma readU32_append {bytes : List UInt8} {offset : ℕ} {word : UInt32}
    (h : readU32 bytes offset = some word) (rest : List UInt8) :
    readU32 (bytes ++ rest) offset = some word := by
  obtain ⟨b0, h0, h⟩ := bind_eq_some_iff.1 h
  obtain ⟨b1, h1, h⟩ := bind_eq_some_iff.1 h
  obtain ⟨b2, h2, h⟩ := bind_eq_some_iff.1 h
  obtain ⟨b3, h3, h⟩ := bind_eq_some_iff.1 h
  simp [readU32, getElem?_append_of_eq_some h0, getElem?_append_of_eq_some h1,
    getElem?_append_of_eq_some h2, getElem?_append_of_eq_some h3]
  simpa using h

def Finds (p : ℕ) (fields : List (List UInt8)) (found : Option ℕ) : Prop :=
  (fields.find? (fun f => decide (IsoRecord.IsNM f)) = none ∧ found = none) ∨
    ∃ nm before after, fields.find? (fun f => decide (IsoRecord.IsNM f)) = some nm ∧
      fields.flatten = before ++ (nm ++ after) ∧ found = some (p + before.length)

variable {fields : List (List UInt8)} {total : ℕ}

lemma Finds.cons {p : ℕ} {f : List UInt8} {found : Option ℕ}
    (hf : ¬ IsoRecord.IsNM f) (h : Finds (p + f.length) fields found) :
    Finds p (f :: fields) found := by
  rcases h with ⟨hnone, rfl⟩ | ⟨nm, before, after, hsome, hflat, rfl⟩
  · exact .inl ⟨by simp [hf, hnone], rfl⟩
  · refine .inr ⟨nm, f ++ before, after, by simp [hf, hsome], ?_, ?_⟩
    · simp [hflat]
    · simp [Nat.add_assoc]

lemma systemUsePass_field {pre f rest : List UInt8} (hf : IsoRecord.IsField f)
    (hfits : pre.length + f.length ≤ total) (htotal : total < 256) :
    systemUsePass (pre ++ (f ++ rest)) (ofNat total) 'N'.toUInt8 'M'.toUInt8 (ofNat pre.length) =
      if IsoRecord.IsNM f then .inr (some (some pre.length))
      else .inl (UInt8.ofNat (pre ++ f).length) := by
  obtain ⟨hfour, hsize, -⟩ := hf
  obtain ⟨a, b, c, d, f', rfl⟩ : ∃ a b c d f', f = a :: b :: c :: d :: f' := by
    match f, hfour with
    | a :: b :: c :: d :: f', _ => exact ⟨a, b, c, d, f', rfl⟩
  have hpre : (UInt8.ofNat pre.length).toNat = pre.length := by rw [UInt8.toNat_ofNat']; omega
  have htot : (UInt8.ofNat total).toNat = total := by rw [UInt8.toNat_ofNat']; omega
  have hlt : pre.length + 1 < total := by omega
  have h2 : c = UInt8.ofNat (f'.length + 1 + 1 + 1 + 1) := by simpa using hsize
  have hnext : UInt8.ofNat pre.length + c = UInt8.ofNat (pre ++ a :: b :: c :: d :: f').length := by
    rw [h2, ← UInt8.ofNat_add]
    simp
  simp [systemUsePass, hpre, htot, hlt, IsoRecord.IsNM, hnext, eq_comm]

lemma run_systemUsePass {tail : List UInt8} (rest : List UInt8) (htail : tail.length ≤ 1)
    (htotal : total < 256) : ∀ (fields : List (List UInt8)) (pre : List UInt8) (n : ℕ),
    (∀ f ∈ fields, IsoRecord.IsField f) → fields.length < n →
    total = pre.length + fields.flatten.length + tail.length →
    ∃ found, Loop.run (systemUsePass (pre ++ (fields.flatten ++ (tail ++ rest))) (ofNat total)
      'N'.toUInt8 'M'.toUInt8) n (ofNat pre.length) = some (some found) ∧
      Finds pre.length fields found
  | [], pre, n + 1, _, _, hlen => by
    have hpre : (UInt8.ofNat pre.length).toNat = pre.length := by rw [UInt8.toNat_ofNat']; omega
    have htot : (UInt8.ofNat total).toNat = total := by rw [UInt8.toNat_ofNat']; omega
    have hend : ¬ pre.length + 1 < total := by
      simp only [flatten_nil, length_nil] at hlen
      omega
    exact ⟨none, by simp [Loop.run, systemUsePass, hpre, htot, hend], .inl ⟨rfl, rfl⟩⟩
  | f :: fields, pre, n + 1, hfields, hn, hlen => by
    have hf := hfields f (by simp)
    simp only [flatten_cons, length_append] at hlen
    rw [Loop.run_succ, flatten_cons, append_assoc, systemUsePass_field hf (by omega) htotal]
    by_cases hnm : IsoRecord.IsNM f
    · rw [if_pos hnm]
      exact ⟨some pre.length, rfl, .inr ⟨f, [], fields.flatten, by simp [hnm], rfl, by simp⟩⟩
    rw [if_neg hnm]
    obtain ⟨found, hrun, hfound⟩ := run_systemUsePass rest htail htotal fields (pre ++ f) n
      (fun g hg => hfields g (by simp [hg])) (by simpa using hn)
      (by rw [length_append]; omega)
    rw [append_assoc] at hrun
    rw [length_append] at hfound
    exact ⟨found, hrun, hfound.cons hnm⟩

lemma length_le_flatten (h : ∀ f ∈ fields, IsoRecord.IsField f) : fields.length ≤ fields.flatten.length := by
  induction fields with
  | nil => simp
  | cons f fields ih =>
    have hf := (h f (by simp)).four_le
    have hle := ih fun g hg => h g (by simp [hg])
    simp only [length_cons, flatten_cons, length_append]
    omega

lemma systemUse_start {n : ℕ} (h : n < 222) :
    (if UInt8.ofNat n % 2 = 0 then UInt8.ofNat n + 1 else UInt8.ofNat n) + 33 = UInt8.ofNat (33 + n + (1 - n % 2)) := by
  have hmod : UInt8.ofNat n % 2 = 0 ↔ n % 2 = 0 := by
    rw [← UInt8.toNat_inj, UInt8.toNat_mod, UInt8.toNat_ofNat']
    change n % 256 % 2 = 0 ↔ _
    omega
  rw [← UInt8.toNat_inj]
  by_cases hn : n % 2 = 0
  · rw [if_pos (hmod.2 hn), UInt8.toNat_add, UInt8.toNat_add, UInt8.toNat_ofNat', UInt8.toNat_ofNat']
    change ((n % 256 + 1) % 256 + 33) % 256 = _ % 256
    omega
  · rw [if_neg (mt hmod.1 hn), UInt8.toNat_add, UInt8.toNat_ofNat', UInt8.toNat_ofNat']
    change (n % 256 + 33) % 256 = _ % 256
    omega

namespace IsoRecord.Encodes

variable {r : IsoRecord} {bytes : List UInt8}

lemma getSystemUseField_eq (h : r.Encodes bytes) (rest : List UInt8) :
    ∃ head pad tail found, bytes = head ++ (r.identifier ++ (pad ++ (r.fields.flatten ++ tail))) ∧
      head.length = 33 ∧ pad.length = 1 - r.identifier.length % 2 ∧
      getSystemUseField (bytes ++ rest) 'N'.toUInt8 'M'.toUInt8 = some found ∧
      Finds (head ++ (r.identifier ++ pad)).length r.fields found := by
  obtain ⟨head, pad, tail, hhead, hpad, htail, hbytes⟩ := h.layout
  have hlen := congrArg List.length hbytes
  simp only [length_append] at hlen
  have hshort := h.short
  have hfields := length_le_flatten h.fields
  obtain ⟨found, hrun, hfound⟩ := run_systemUsePass rest htail hshort r.fields
    (head ++ (r.identifier ++ pad)) 256 h.fields (by omega)
    (by simp only [length_append]; omega)
  refine ⟨head, pad, tail, found, hbytes, hhead, hpad, ?_, hfound⟩
  have hstart := systemUse_start (n := r.identifier.length) (by omega)
  have hpre : (head ++ (r.identifier ++ pad)).length = 33 + r.identifier.length + (1 - r.identifier.length % 2) := by
    simp only [length_append]
    omega
  have hrecord : bytes ++ rest = head ++ (r.identifier ++ pad) ++ (r.fields.flatten ++ (tail ++ rest)) := by
    rw [hbytes]
    simp
  unfold getSystemUseField
  rw [getElem?_append_of_eq_some h.size, getElem?_append_of_eq_some h.idLength]
  simp only [bind_eq_bind, bind_some]
  rw [hstart, ← hpre, hrecord, hrun]
  rfl

lemma hasId_iff (h : r.Encodes bytes) (rest : List UInt8) (b : UInt8) :
    HasId (bytes ++ rest) b ↔ r.identifier = [b] := by
  obtain ⟨head, pad, tail, hhead, hpad, htail, hbytes⟩ := h.layout
  have hlen := congrArg List.length hbytes
  simp only [length_append] at hlen
  have hshort := h.short
  obtain ⟨c, id, hid⟩ := exists_cons_of_ne_nil h.nonempty
  have hfirst : (bytes ++ rest)[33]? = some c := by
    rw [hbytes, hid, ← hhead]
    simp
  have hone : UInt8.ofNat r.identifier.length = 1 ↔ r.identifier.length = 1 := by
    rw [← UInt8.toNat_inj, UInt8.toNat_ofNat']
    change _ % 256 = 1 ↔ _
    omega
  unfold HasId
  rw [getElem?_append_of_eq_some h.idLength, hfirst, some_inj, some_inj, hone, hid]
  simp
  exact and_comm

lemma readName_eq (h : r.Encodes bytes) (rest : List UInt8) : readName (bytes ++ rest) = some r.name := by
  obtain ⟨head, pad, tail, found, hbytes, hhead, hpad, hfield, hfound⟩ := h.getSystemUseField_eq rest
  have hlen := congrArg List.length hbytes
  simp only [length_append] at hlen
  have hshort := h.short
  unfold readName
  rw [hfield]
  rcases hfound with ⟨hnone, rfl⟩ | ⟨nm, before, after, hsome, hflat, rfl⟩
  · have htext : stringAt (bytes ++ rest) 33 r.identifier.length = some (text r.identifier) := by
      unfold stringAt
      rw [if_pos (by rw [length_append]; omega), hbytes, ← hhead]
      simp [text]
    have hid : (UInt8.ofNat r.identifier.length).toNat = r.identifier.length := by
      rw [UInt8.toNat_ofNat']; omega
    simp only [bind_eq_bind, bind_some, h.hasId_iff, name, hnone,
      getElem?_append_of_eq_some h.idLength, hid, htext, Option.pure_def]
    split_ifs <;> rfl
  · have hmem := mem_of_find?_eq_some hsome
    have hnm : IsNM nm := by simpa using find?_some hsome
    have hfive := (h.fields nm hmem).named hnm
    have hsize := (h.fields nm hmem).size
    have hflen := congrArg List.length hflat
    simp only [length_append] at hflen
    have hrecord : bytes ++ rest = head ++ (r.identifier ++ pad) ++ before ++ (nm ++ (after ++ (tail ++ rest))) := by
      rw [hbytes, hflat]
      simp
    have hn : (UInt8.ofNat nm.length).toNat = nm.length := by rw [UInt8.toNat_ofNat']; omega
    set p := head ++ (r.identifier ++ pad) ++ before
    have hplen : (head ++ (r.identifier ++ pad)).length + before.length = p.length := length_append.symm
    have hget : (bytes ++ rest)[p.length + 2]? = some (UInt8.ofNat nm.length) := by
      rw [hrecord, getElem?_append_right (by omega), Nat.add_sub_cancel_left]
      exact getElem?_append_of_eq_some hsize _
    have htext : stringAt (bytes ++ rest) (p.length + 5) (nm.length - 5) = some (text (nm.drop 5)) := by
      unfold stringAt
      rw [if_pos (by rw [hrecord]; simp only [length_append]; omega), hrecord]
      have hdrop : (p ++ (nm ++ (after ++ (tail ++ rest)))).drop (p.length + 5) =
          nm.drop 5 ++ (after ++ (tail ++ rest)) := by
        rw [drop_append, drop_of_length_le (by omega), nil_append,
          Nat.add_sub_cancel_left, drop_append_of_le_length hfive]
      rw [hdrop, take_append_of_le_length (by simp), take_of_length_le (by simp)]
      rfl
    simp only [bind_eq_bind, bind_some, hplen, hget, hn, if_neg (Nat.not_lt.2 hfive), htext, name, hsome]

end IsoRecord.Encodes

end Record

/-! ## From record to record -/

section Loop

inductive Gapped : List (List UInt8) → List UInt8 → Prop
  | nil : Gapped [] []
  | cons (r : List UInt8) (zeros : ℕ) {records : List (List UInt8)} {bytes : List UInt8} :
    Gapped records bytes → Gapped (r :: records) (r ++ (List.replicate zeros 0 ++ bytes))

variable {records : List (List UInt8)} {rs : List IsoRecord} {bytes : List UInt8}

lemma Gapped.append (h : Gapped records bytes) (zeros : ℕ) : ∀ s : List (List UInt8), s ≠ [] →
      Gapped (s ++ records) (s.flatten ++ (List.replicate zeros 0 ++ bytes))
  | [r], _ => by simpa using Gapped.cons r zeros h
  | r :: r' :: s, _ => by
    have hs := Gapped.cons r 0 (h.append zeros (r' :: s) (by simp))
    simpa using hs

lemma gapped_sectors : ∀ sectors : List (List (List UInt8)), ∃ zeros bytes,
    (sectors.map sector).flatten = List.replicate zeros 0 ++ bytes ∧ Gapped sectors.flatten bytes ∧
      (sectors.head? ≠ some [] → zeros = 0)
  | [] => ⟨0, [], rfl, .nil, fun _ => rfl⟩
  | s :: sectors => by
    obtain ⟨zeros, bytes, hbytes, hgapped, -⟩ := gapped_sectors sectors
    rcases eq_or_ne s [] with rfl | hs
    · refine ⟨2048 + zeros, bytes, ?_, hgapped, fun h => absurd rfl h⟩
      rw [map_cons, flatten_cons, hbytes, replicate_add, append_assoc]
      rfl
    · refine ⟨0, _, ?_, hgapped.append (2048 - s.flatten.length + zeros) s hs, fun _ => rfl⟩
      rw [map_cons, flatten_cons, hbytes, replicate_add, sector]
      simp only [append_assoc, replicate_zero, nil_append]

lemma IsExtent.gapped (h : IsExtent records bytes) : Gapped records bytes := by
  obtain ⟨sectors, rfl, hhead, -, rfl⟩ := h
  obtain ⟨zeros, bytes, hbytes, hgapped, hzeros⟩ := gapped_sectors sectors
  rwa [hbytes, hzeros hhead]

lemma skipZeros_replicate {length : ℕ} {rest : List UInt8} (hrest : rest.head? ≠ some 0) :
    ∀ (zeros offset : ℕ), offset + zeros + rest.length = length →
      skipZeros length offset (List.replicate zeros 0 ++ rest) = (offset + zeros, rest)
  | 0, offset, _ => by
    cases rest with
    | nil => rfl
    | cons b rest =>
      have hb : b ≠ 0 := fun h => hrest (by rw [h]; rfl)
      simp [skipZeros, hb]
  | zeros + 1, offset, h => by
    rw [replicate_succ, cons_append, skipZeros, if_pos ⟨by omega, rfl⟩,
      skipZeros_replicate hrest zeros (offset + 1) (by omega), Nat.add_right_comm, Nat.add_assoc]

lemma IsoRecord.Encodes.head?_ne {r : IsoRecord} (h : r.Encodes bytes)
    (rest : List UInt8) : (bytes ++ rest).head? ≠ some 0 := by
  obtain ⟨head, pad, tail, hhead, -, -, hbytes⟩ := h.layout
  have hlen := congrArg List.length hbytes
  simp only [length_append] at hlen
  have hshort := h.short
  rw [head?_eq_getElem?, getElem?_append_of_eq_some h.size]
  intro hzero
  have hnat := congrArg UInt8.toNat (some.inj hzero)
  change _ % 256 = 0 at hnat
  omega

lemma Gapped.head?_ne (h : Gapped records bytes) (hrs : List.Forall₂ IsoRecord.Encodes rs records) :
    bytes.head? ≠ some 0 := by
  cases h with
  | nil => simp
  | cons r zeros h =>
    cases hrs with
    | cons hr _ => exact hr.head?_ne _

lemma Gapped.length_le (h : Gapped records bytes) (hrs : List.Forall₂ IsoRecord.Encodes rs records) :
    rs.length ≤ bytes.length := by
  induction h generalizing rs with
  | nil => cases hrs; simp
  | cons b zeros h ih =>
    cases hrs with
    | cons hr hrs =>
      have hle := ih hrs
      have hpos := (List.getElem?_eq_some_iff.1 hr.size).1
      simp only [length_cons, length_append]
      omega

structure Leaves (this : ℕ) (v w : Vfs) : Prop where
  length : v.files.length ≤ w.files.length
  same : ∀ i < v.files.length, i ≠ this → w.files[i]? = v.files[i]?

lemma Leaves.trans {v w u : Vfs} (h : Leaves this v w) (h' : Leaves this w u) : Leaves this v u where
  length := Nat.le_trans h.length h'.length
  same i hi hne := by rw [h'.same i (Nat.lt_of_lt_of_le hi h.length) hne, h.same i hi hne]

variable {this length : ℕ}

lemma createChildren_nil {new : Vfs → List UInt8 → Bool → Option (Vfs × ℕ)} {n offset : ℕ} {v : Vfs} {extend : List UInt8} (h : offset = length) :
    createChildren new this length (n + 1) v offset extend = some v := by
  rw [createChildren, if_neg (by omega)]

lemma exists_step (new : Vfs → List UInt8 → Bool → Option (Vfs × ℕ)) {n offset : ℕ} {v w : Vfs} {r : IsoRecord} {record rest : List UInt8} {zeros : ℕ}
    (hr : r.Encodes record) (hrest : rest.head? ≠ some 0)
    (hlength : offset + (record ++ (List.replicate zeros 0 ++ rest)).length = length)
    (hchild : newChild new this v (record ++ (List.replicate zeros 0 ++ rest)) = some (w, v.files.length))
    (hpre : v.files <+: w.files) (hlt : v.files.length < w.files.length)
    {name : CStr} {buffer : List UInt8} {children : List ℕ}
    (hthis : v.files[this]? = some (.iso9660File name buffer children)) :
    ∃ u : Vfs, createChildren new this length (n + 1) v offset (record ++ (List.replicate zeros 0 ++ rest)) =
        createChildren new this length n u (offset + record.length + zeros) rest ∧
      u.files[this]? = some (.iso9660File name buffer (children ++ [v.files.length])) ∧
      Leaves this v u ∧ ∀ i, i ≠ this → u.files[i]? = w.files[i]? := by
  have hshort := hr.short
  have hpos := (List.getElem?_eq_some_iff.1 hr.size).1
  have hsize : (UInt8.ofNat record.length).toNat = record.length := by rw [UInt8.toNat_ofNat']; omega
  simp only [length_append, length_replicate] at hlength
  have hw : ∀ i < v.files.length, w.files[i]? = v.files[i]? := by
    obtain ⟨more, hmore⟩ := hpre
    intro i hi
    rw [← hmore, getElem?_append_left hi]
  have hthisLt := (List.getElem?_eq_some_iff.1 hthis).1
  have hsame : ∀ i, i ≠ this → (w.addChild this v.files.length hlt).files[i]? = w.files[i]? := by
    intro i hi
    simp [Ne.symm hi]
  refine ⟨w.addChild this v.files.length hlt, ?_, ?_, ⟨?_, ?_⟩, hsame⟩
  · rw [createChildren, if_pos (by omega), hchild]
    simp only [bind_eq_bind, bind_some]
    rw [dif_pos hlt, getElem?_append_of_eq_some hr.size]
    simp only [bind_some, hsize]
    rw [drop_left, skipZeros_replicate hrest zeros _ (by omega)]
  · simp [hw this hthisLt, hthis, File.addChild]
  · rw [Vfs.files_addChild, length_modify]
    exact Nat.le_of_lt hlt
  · intro i hi hne
    rw [hsame i hne, hw i hi]

end Loop

/-! ## The tree -/

section Tree

variable {P : IsoRecord → List UInt8 → Prop}

mutual

lemma Yields.congr {v w : Vfs} {f : ℕ} (h : ∀ i, f ≤ i → i < v.files.length → w.files[i]? = v.files[i]?) :
    ∀ {t : IsoTree}, Yields P v f t → Yields P w f t
  | .file r, ht => by
    obtain ⟨buffer, hf, hP⟩ := ht
    refine ⟨buffer, ?_, hP⟩
    rw [h f (Nat.le_refl f) (List.getElem?_eq_some_iff.1 hf).1, hf]
  | .folder r self up entries, ht => by
    obtain ⟨buffer, upBuffer, here, above, children, hf, hhere, hlink, habove, hup, hall⟩ := ht
    refine ⟨buffer, upBuffer, here, above, children, ?_, hhere, ?_, habove, ?_, hall.congr h⟩
    · rw [h f (Nat.le_refl f) (List.getElem?_eq_some_iff.1 hf).1, hf]
    · rw [h here (Nat.le_of_lt hhere) (List.getElem?_eq_some_iff.1 hlink).1, hlink]
    · rw [h above (Nat.le_of_lt habove) (List.getElem?_eq_some_iff.1 hup).1, hup]

lemma AllYield.congr {v w : Vfs} {f : ℕ} (h : ∀ i, f ≤ i → i < v.files.length → w.files[i]? = v.files[i]?) :
    ∀ {children : List ℕ} {entries : List IsoTree}, AllYield P v f children entries → AllYield P w f children entries
  | [], [], ht => ht
  | c :: children, t :: entries, ht => by
    obtain ⟨hlt, hc, hall⟩ := ht
    exact ⟨hlt, hc.congr fun i hi => h i (Nat.le_trans (Nat.le_of_lt hlt) hi), hall.congr h⟩

end

variable {self up : IsoRecord} {f this : ℕ}

lemma Yields.only {t : IsoTree} (h : Yields P v f (.folder r self up [t])) : ∃ name buffer here above c,
      v.files[f]? = some (.iso9660File name buffer [here, above, c]) ∧ Yields P v c t := by
  obtain ⟨buffer, _, here, above, children, hf, -, -, -, -, hall⟩ := h
  match children, hall with
  | [c], ⟨_, hc, _⟩ => exact ⟨_, buffer, here, above, c, hf, hc⟩

variable {fs : Iso9660FileSystem} {r : IsoRecord} {bytes : List UInt8} {v : Vfs}

lemma newIso9660File_leaf (fs : Iso9660FileSystem) (h : r.Encodes bytes) (depth : ℕ) (v : Vfs)
    (rest : List UInt8) (skipChildren : Bool) (hskip : ¬ (r.IsDirectory ∧ skipChildren = false)) :
    ∃ w : Vfs, newIso9660File fs depth v (bytes ++ rest) skipChildren = some (w, v.files.length) ∧
      w.files = v.files ++ [.iso9660File r.name (bytes ++ rest) []] := by
  refine ⟨_, ?_, Vfs.files_newFile v _ (File.fresh_iso9660File _ _)⟩
  unfold newIso9660File
  rw [h.readName_eq rest, getElem?_append_of_eq_some h.flags]
  simp only [bind_eq_bind, bind_some]
  unfold IsoRecord.IsDirectory at hskip
  rw [if_neg hskip]
  rfl

lemma newIso9660File_folder (fs : Iso9660FileSystem) (h : r.Encodes bytes) (depth : ℕ) (v : Vfs)
    (rest : List UInt8) (hdir : r.IsDirectory) :
    ∃ u : Vfs, u.files = v.files ++ [.iso9660File r.name (bytes ++ rest) []] ∧
      newIso9660File fs (depth + 1) v (bytes ++ rest) false =
        (createChildren (newIso9660File fs depth) v.files.length r.length.toNat
          (r.length.toNat + 1) u 0 (fs.readExtend r.lba r.length)).map (·, v.files.length) := by
  refine ⟨_, Vfs.files_newFile v _ (File.fresh_iso9660File _ _), ?_⟩
  rw [newIso9660File, h.readName_eq rest, getElem?_append_of_eq_some h.flags]
  simp only [bind_eq_bind, bind_some]
  rw [if_pos ⟨hdir, trivial⟩, readU32_append h.lba, readU32_append h.length, map_eq_bind]
  rfl

lemma newChild_self (new : Vfs → List UInt8 → Bool → Option (Vfs × ℕ)) (h : r.Encodes bytes)
    (hid : r.identifier = [0]) (hthis : this < v.files.length) (rest : List UInt8) :
    ∃ w : Vfs, newChild new this v (bytes ++ rest) = some (w, v.files.length) ∧
      w.files = v.files ++ [.fileLink dot this] := by
  refine ⟨v.newLink dot this hthis, ?_, Vfs.files_newLink ..⟩
  rw [newChild, if_pos ((h.hasId_iff rest 0).2 hid), dif_pos hthis]

lemma newChild_of_ne (new : Vfs → List UInt8 → Bool → Option (Vfs × ℕ)) (h : r.Encodes bytes)
    (hid : r.identifier ≠ [0]) (rest : List UInt8) : newChild new this v (bytes ++ rest) =
      new v (bytes ++ rest) (decide (r.identifier = [1])) := by
  rw [newChild, if_neg (mt (h.hasId_iff rest 0).1 hid)]
  simp only [h.hasId_iff]

lemma length_extent (fs : Iso9660FileSystem) (lba length : UInt32) :
    (fs.extent lba length).length = length.toNat := by simp [extent]

lemma position_eq {lba offset : UInt32} (h : offset.toNat ≤ lba.toNat * 2048) (i : ℕ) :
    lba * 0x400 * 2 - offset + UInt32.ofNat i = UInt32.ofNat (lba.toNat * 2048 + i - offset.toNat) := by
  rw [← UInt32.toNat_inj]
  have ho := offset.toNat_lt
  have hkb : (0x400 : UInt32).toNat = 1024 := rfl
  have htwo : (2 : UInt32).toNat = 2 := rfl
  simp only [UInt32.toNat_add, UInt32.toNat_sub, UInt32.toNat_mul, UInt32.toNat_ofNat', hkb, htwo]
  omega

lemma readExtend_eq (h : fs.OnDevice r) : fs.readExtend r.lba r.length = fs.extent r.lba r.length := by
  unfold readExtend extent
  rw [range_eq_range']
  refine map_congr_left fun i _ => ?_
  rw [position_eq h.1 i]
  rfl

lemma exists_dots (fs : Iso9660FileSystem) (depth : ℕ) {u : Vfs} {length zeros zeros' : ℕ}
    {selfBytes upBytes extend : List UInt8} (hself : self.Encodes selfBytes)
    (hselfId : self.identifier = [0]) (hup : up.Encodes upBytes) (hupId : up.identifier = [1])
    (hextend : extend.head? ≠ some 0)
    (hlength : (selfBytes ++ (List.replicate zeros 0 ++
      (upBytes ++ (List.replicate zeros' 0 ++ extend)))).length = length) (n : ℕ)
    {name : CStr} {buffer : List UInt8}
    (hthis : u.files[this]? = some (.iso9660File name buffer [])) :
    ∃ (w : Vfs) (here above : ℕ), createChildren (newIso9660File fs depth) this length (n + 1 + 1) u 0 (selfBytes ++
          (List.replicate zeros 0 ++ (upBytes ++ (List.replicate zeros' 0 ++ extend)))) =
        createChildren (newIso9660File fs depth) this length n w
          (selfBytes.length + zeros + upBytes.length + zeros') extend ∧
      w.files[this]? = some (.iso9660File name buffer [here, above]) ∧ Leaves this u w ∧
      this < here ∧ w.files[here]? = some (.fileLink dot this) ∧
      this < above ∧ w.files[above]? = some (.iso9660File up.name
        (upBytes ++ (List.replicate zeros' 0 ++ extend)) []) := by
  have hthisLt := (List.getElem?_eq_some_iff.1 hthis).1
  have hlength' : 0 + selfBytes.length + zeros + (upBytes ++ (List.replicate zeros' 0 ++ extend)).length = length := by
    simp only [length_append, length_replicate] at hlength ⊢
    omega
  obtain ⟨w1, hchild1, hw1⟩ := newChild_self (newIso9660File fs depth) hself hselfId hthisLt
    (List.replicate zeros 0 ++ (upBytes ++ (List.replicate zeros' 0 ++ extend)))
  obtain ⟨u1, hstep1, hthis1, hleaves1, hsame1⟩ := exists_step (newIso9660File fs depth)
    hself (hup.head?_ne _) ((Nat.zero_add _).trans hlength) hchild1
    (hw1 ▸ prefix_append _ _) (by simp [hw1]) hthis
  obtain ⟨w2, hchild2, hw2⟩ := newIso9660File_leaf fs hup depth u1 (List.replicate zeros' 0 ++ extend) true (by simp)
  obtain ⟨u2, hstep2, hthis2, hleaves2, hsame2⟩ := exists_step (newIso9660File fs depth) hup
    hextend hlength' (by rw [newChild_of_ne _ hup (by simp [hupId]), hupId]; exact hchild2)
    (hw2 ▸ prefix_append _ _) (by simp [hw2]) hthis1
  have hhere : u1.files[u.files.length]? = some (.fileLink dot this) := by
    rw [hsame1 _ (by omega), hw1]
    simp
  have hlt := (List.getElem?_eq_some_iff.1 hhere).1
  refine ⟨u2, u.files.length, u1.files.length, ?_, hthis2, hleaves1.trans hleaves2, hthisLt, ?_, by omega, ?_⟩
  · rw [hstep1, hstep2, Nat.zero_add]
  · rw [hleaves2.same _ hlt (by omega), hhere]
  · rw [hsame2 _ (by omega), hw2]
    simp

lemma Yields.lt : ∀ {t : IsoTree}, Yields P v f t → f < v.files.length
  | .file _, ⟨_, hf, _⟩ => (List.getElem?_eq_some_iff.1 hf).1
  | .folder .., ⟨_, _, _, _, _, hf, _⟩ => (List.getElem?_eq_some_iff.1 hf).1

mutual

lemma newIso9660File_laidOut (hP : ∀ r bytes rest, r.Encodes bytes → fs.OnDevice r → P r (bytes ++ rest)) :
    ∀ (t : IsoTree) (depth : ℕ) (v : Vfs) (bytes rest : List UInt8), fs.LaidOut t →
      t.depth ≤ depth → t.record.Encodes bytes →
      ∃ w, newIso9660File fs depth v (bytes ++ rest) false = some (w, v.files.length) ∧
        v.files <+: w.files ∧ Yields P w v.files.length t
  | .file r, depth, v, bytes, rest, hlaid, _, hr => by
    obtain ⟨hfile, hdev⟩ := hlaid
    change r.Encodes bytes at hr
    obtain ⟨w, hw, hfiles⟩ := newIso9660File_leaf fs hr depth v rest false (fun h => hfile h.1)
    refine ⟨w, hw, hfiles ▸ prefix_append _ _, bytes ++ rest, ?_, hP r bytes rest hr hdev⟩
    rw [hfiles]
    simp
  | .folder r self up entries, depth + 1, v, bytes, rest, hlaid, hdepth, hr => by
    obtain ⟨hdir, hdev, hself, hup, ⟨records, hrecords, hextent⟩, hall⟩ := hlaid
    change r.Encodes bytes at hr
    obtain ⟨u, hu, hnew⟩ := newIso9660File_folder fs hr depth v rest hdir
    -- the records of the directory itself, of the one above it, and of the entries
    rw [← readExtend_eq hdev] at hextent
    have hlength : (fs.readExtend r.lba r.length).length = r.length.toNat := by
      rw [readExtend_eq hdev, length_extent]
    obtain ⟨self', _, hselfRec, hbehind, rfl⟩ := forall₂_cons_left_iff.1 hrecords
    obtain ⟨up', records, hupRec, hentries, rfl⟩ := forall₂_cons_left_iff.1 hbehind
    generalize fs.readExtend r.lba r.length = bytes' at hextent hlength hnew
    have hgapped := hextent.gapped
    cases hgapped with
    | cons _ zeros hgapped =>
    cases hgapped with
    | cons _ zeros' hgapped =>
    rename_i extend
    have hcount := hgapped.length_le hentries
    simp only [length_map] at hcount
    have hthis : u.files[v.files.length]? = some (.iso9660File r.name (bytes ++ rest) []) := by rw [hu]; simp
    have hselfPos := (List.getElem?_eq_some_iff.1 hselfRec.size).1
    have hupPos := (List.getElem?_eq_some_iff.1 hupRec.size).1
    obtain ⟨n, hn, hcount'⟩ : ∃ n, r.length.toNat + 1 = n + 1 + 1 ∧ entries.length < n := by
      simp only [length_append] at hlength
      exact ⟨r.length.toNat - 1, by omega, by omega⟩
    obtain ⟨u', here, above, hdots, hthis', hleaves', hhere, hlink, habove, hparent⟩ :=
      exists_dots fs depth hselfRec hself hupRec hup (hgapped.head?_ne hentries) hlength n hthis
    obtain ⟨w, made, hrest, hleaves, hthisW, hall'⟩ := createChildren_laidOut hP entries depth
      v.files.length r.length.toNat n (self'.length + zeros + up'.length + zeros') u' records extend
      r.name (bytes ++ rest) [here, above] hall (by simpa [IsoTree.depth] using hdepth) hentries
      hgapped (by simp only [length_append, length_replicate] at hlength; omega) hcount' hthis'
    refine ⟨w, ?_, ?_, bytes ++ rest, up' ++ (List.replicate zeros' 0 ++ extend), here, above, made,
      hthisW, hhere, ?_, habove, ?_, hall'⟩
    · rw [hnew, hn, hdots, hrest]
      rfl
    · rw [prefix_iff_getElem?]
      intro i hi
      have hiu : i < u.files.length := by
        rw [hu, length_append]
        omega
      rw [(hleaves'.trans hleaves).same i hiu (by omega), hu, getElem?_append_left hi, getElem?_eq_getElem hi]
    · rw [hleaves.same _ (List.getElem?_eq_some_iff.1 hlink).1 (by omega), hlink]
    · rw [hleaves.same _ (List.getElem?_eq_some_iff.1 hparent).1 (by omega), hparent]

lemma createChildren_laidOut (hP : ∀ r bytes rest, r.Encodes bytes → fs.OnDevice r → P r (bytes ++ rest)) :
    ∀ (entries : List IsoTree) (depth this length n offset : ℕ) (v : Vfs)
      (records : List (List UInt8)) (bytes : List UInt8) (name : CStr) (buffer : List UInt8)
      (children : List ℕ), fs.AllLaidOut entries → IsoTree.depths entries ≤ depth →
      List.Forall₂ IsoRecord.Encodes (entries.map IsoTree.record) records → Gapped records bytes →
      offset + bytes.length = length → entries.length < n →
      v.files[this]? = some (.iso9660File name buffer children) →
      ∃ w made, createChildren (newIso9660File fs depth) this length n v offset bytes = some w ∧
        Leaves this v w ∧ w.files[this]? = some (.iso9660File name buffer (children ++ made)) ∧
        AllYield P w this made entries
  | [], depth, this, length, n + 1, offset, v, records, bytes, name, buffer, children, _, _, hrecords,
      hgapped, hlength, _, hthis => by
    cases hrecords
    cases hgapped
    refine ⟨v, [], createChildren_nil hlength, ⟨Nat.le_refl _, fun _ _ _ => rfl⟩, ?_, trivial⟩
    rw [hthis, append_nil]
  | t :: entries, depth, this, length, n + 1, offset, v, records, bytes, name, buffer, children,
      hlaid, hdepth, hrecords, hgapped, hlength, hn, hthis => by
    obtain ⟨hzero, hone, ht, hentries⟩ := hlaid
    obtain ⟨record, records, hr, hbehind, rfl⟩ := forall₂_cons_left_iff.1 hrecords
    cases hgapped with
    | cons _ zeros hgapped =>
    rename_i rest
    obtain ⟨hdepthT, hdepthE⟩ := Nat.max_le.1 hdepth
    obtain ⟨w1, hnew, hprefix, hyields⟩ := newIso9660File_laidOut hP t depth v record
      (List.replicate zeros 0 ++ rest) ht hdepthT hr
    have hlt : v.files.length < w1.files.length := hyields.lt
    obtain ⟨u, hstep, hthisU, hleaves, hsame⟩ := exists_step (newIso9660File fs depth) hr
      (hgapped.head?_ne hbehind) hlength
      (by rw [newChild_of_ne _ hr hzero, decide_eq_false hone, hnew]) hprefix hlt hthis
    have hthisLt := (List.getElem?_eq_some_iff.1 hthis).1
    obtain ⟨w, made, hrest, hleaves', hthisW, hall⟩ := createChildren_laidOut hP entries depth this
      length n (offset + record.length + zeros) u records rest name buffer
      (children ++ [v.files.length]) hentries hdepthE hbehind hgapped
      (by simp only [length_append, length_replicate] at hlength; omega)
      (by simpa using hn) hthisU
    refine ⟨w, v.files.length :: made, hstep.trans hrest, hleaves.trans hleaves', ?_, hthisLt, ?_, hall⟩
    · rw [hthisW, append_assoc]
      rfl
    · refine hyields.congr fun i hi hiw => ?_
      have hne : i ≠ this := by omega
      have hu : i < u.files.length := by
        exact (List.getElem?_eq_some_iff.1 ((hsame i hne).trans (getElem?_eq_getElem hiw))).1
      rw [hleaves'.same i hu hne, hsame i hne]

end

end Tree

/-! ## Plain files -/

section Files

variable {fs : Iso9660FileSystem} {r : IsoRecord} {bytes : List UInt8}

def slice (fs : Iso9660FileSystem) (r : IsoRecord) (size pos : UInt32) : List UInt8 :=
  ((fs.extent r.lba r.length).drop pos.toNat).take size.toNat

def Iso9660FileSystem.ReadsBack (fs : Iso9660FileSystem) (r : IsoRecord) (buffer : List UInt8)
    (size pos : UInt32) : Prop :=
  read fs buffer size pos = some (slice fs r size pos)

lemma length_slice (fs : Iso9660FileSystem) (r : IsoRecord) (size pos : UInt32) :
    (slice fs r size pos).length = min size.toNat (r.length.toNat - pos.toNat) := by
  simp [slice, length_extent]

lemma readRaw_eq (h : fs.OnDevice r) {size n pos : UInt32}
    (hn : n.toNat = min size.toNat (r.length.toNat - pos.toNat)) :
    fs.readRaw (r.lba * 0x400 * 2 + pos) n = slice fs r size pos := by
  refine ext_getElem ?_ fun i hi hi' => ?_
  · rw [length_slice, ← hn]
    simp [readRaw]
  have hpos : r.lba * 0x400 * 2 + pos - fs.offset + UInt32.ofNat i =
      r.lba * 0x400 * 2 - fs.offset + UInt32.ofNat (pos.toNat + i) := by
    rw [UInt32.ofNat_add, UInt32.ofNat_toNat, UInt32.sub_eq_add_neg, UInt32.sub_eq_add_neg]
    ac_rfl
  simp only [readRaw, slice, extent, getElem_map, getElem_range', getElem_take,
    getElem_drop, getElem_range, Nat.zero_add, Nat.one_mul]
  rw [hpos, position_eq h.1]
  rfl

lemma read_eq (hr : r.Encodes bytes) (rest : List UInt8) (size pos : UInt32) : read fs (bytes ++ rest) size pos =
      some (if r.length ≤ pos then [] else fs.readRaw (r.lba * 0x400 * 2 + pos)
        (if r.length ≤ pos + size then r.length - pos else size)) := by
  unfold Iso9660FileHandle.read
  rw [readU32_append hr.lba, readU32_append hr.length]
  simp only [bind_eq_bind, bind_some]
  split_ifs <;> rfl

lemma readsBack_iff (hr : r.Encodes bytes) (hdev : fs.OnDevice r) (rest : List UInt8)
    (size pos : UInt32) : fs.ReadsBack r (bytes ++ rest) size pos ↔
      (pos < r.length → pos.toNat + size.toNat < 2 ^ 32) := by
  rw [ReadsBack, read_eq hr]
  have hs := size.toNat_lt
  have hl := r.length.toNat_lt
  by_cases hpos : r.length ≤ pos
  · rw [if_pos hpos]
    rw [UInt32.le_iff_toNat_le] at hpos
    refine iff_of_true (congrArg some ?_) fun h => ?_
    · rw [eq_comm, eq_nil_iff_length_eq_zero, length_slice]
      omega
    · rw [UInt32.lt_iff_toNat_lt] at h
      omega
  · rw [if_neg hpos]
    rw [UInt32.le_iff_toNat_le] at hpos
    rw [UInt32.lt_iff_toNat_lt]
    by_cases hwrap : pos.toNat + size.toNat < 2 ^ 32
    · refine iff_of_true (congrArg some (readRaw_eq hdev ?_)) fun _ => hwrap
      split_ifs with hend
      all_goals
        rw [UInt32.le_iff_toNat_le, UInt32.toNat_add, Nat.mod_eq_of_lt hwrap] at hend
      · rw [UInt32.toNat_sub_of_le _ _ (by rw [UInt32.le_iff_toNat_le]; omega)]
        omega
      · omega
    · -- the sum is less than the position, and so the size stays larger than what is left
      have hend : ¬ r.length ≤ pos + size := by
        rw [UInt32.le_iff_toNat_le, UInt32.toNat_add]
        omega
      rw [if_neg hend]
      refine iff_of_false (fun h => ?_) fun h => hwrap (h (by omega))
      have hlen := congrArg List.length (some.inj h)
      rw [length_slice] at hlen
      simp only [readRaw, length_map, length_range'] at hlen
      omega

/-- The size is the recorded one, and exactly the reads that do not wrap give the bytes of the extent. -/
def Iso9660FileSystem.ReadsUnlessWrapped (fs : Iso9660FileSystem) (r : IsoRecord)
    (buffer : List UInt8) : Prop :=
  getSize buffer = some r.length ∧ ∀ size pos, fs.ReadsBack r buffer size pos ↔
    (pos < r.length → pos.toNat + size.toNat < 2 ^ 32)

lemma Iso9660FileSystem.readsUnlessWrapped (fs : Iso9660FileSystem) (r : IsoRecord) (bytes rest : List UInt8)
    (hr : r.Encodes bytes) (hdev : fs.OnDevice r) : fs.ReadsUnlessWrapped r (bytes ++ rest) :=
  ⟨readU32_append hr.length rest, readsBack_iff hr hdev rest⟩

end Files

/-! ## The image -/

section Image

variable {fs : Iso9660FileSystem} {records : List (List UInt8)}

lemma createRoot_laidOut {P : IsoRecord → List UInt8 → Prop}
    (hP : ∀ r bytes rest, r.Encodes bytes → fs.OnDevice r → P r (bytes ++ rest)) {t : IsoTree}
    (hroot : fs.IsRoot t) (hlaid : fs.LaidOut t) {depth : ℕ} (hdepth : t.depth ≤ depth) (v : Vfs) :
    ∃ w, fs.createRoot depth v = some (w, v.files.length) ∧ Yields P w v.files.length t := by
  obtain ⟨self, up, entries, rfl, hlba, hlength⟩ := hroot
  -- the extent of the root starts with the record of the root
  obtain ⟨-, hdev, -, -, ⟨records, hrecords, hextent⟩, -⟩ := id hlaid
  obtain ⟨bytes, records, hself, -, rfl⟩ := forall₂_cons_left_iff.1 hrecords
  obtain ⟨rest, hrest⟩ : ∃ rest, fs.readExtend self.lba self.length = bytes ++ rest := by
    rw [readExtend_eq hdev]
    generalize fs.extent self.lba self.length = extend at hextent
    cases hextent.gapped
    exact ⟨_, rfl⟩
  obtain ⟨w, hw, -, hyields⟩ := newIso9660File_laidOut hP _ depth v bytes rest hlaid hdepth hself
  refine ⟨w, ?_, hyields⟩
  rw [createRoot, hlba, hlength]
  simp only [bind_eq_bind, bind_some]
  rw [hrest, hw]

/-- The files made from the root of a tree are that tree, and a read of a plain file returns the bytes of
its extent if and only if the range does not wrap, or the position is behind the file. -/
theorem iso9660_reads_back (fs : Iso9660FileSystem) (t : IsoTree) (hroot : fs.IsRoot t)
    (hlaid : fs.LaidOut t) (depth : ℕ) (hdepth : t.depth ≤ depth) (v : Vfs) :
    ∃ w f, fs.createRoot depth v = some (w, f) ∧ Yields fs.ReadsUnlessWrapped w f t := by
  obtain ⟨w, hw, hyields⟩ := createRoot_laidOut fs.readsUnlessWrapped hroot hlaid hdepth v
  exact ⟨w, _, hw, hyields⟩

def onDisk (disk primarydescriptor : List UInt8) : Iso9660FileSystem where
  dev := fun pos => disk.getD pos.toNat 0
  offset := 0
  primarydescriptor := primarydescriptor

lemma extent_onDisk {disk primarydescriptor before bytes after : List UInt8} {lba length : UInt32}
    (hdisk : disk = before ++ (bytes ++ after)) (hbefore : before.length = lba.toNat * 2048)
    (hbytes : bytes.length = length.toNat) (hshort : disk.length < 2 ^ 32) :
    (onDisk disk primarydescriptor).extent lba length = bytes := by
  have hlen := congrArg List.length hdisk
  simp only [length_append] at hlen
  refine ext_getElem (by rw [length_extent, hbytes]) fun i hi hi' => ?_
  have hword : (UInt32.ofNat (lba.toNat * 2048 + i)).toNat = before.length + i := by
    rw [UInt32.toNat_ofNat', Nat.mod_eq_of_lt (by omega), hbefore]
  simp only [extent, getElem_map, getElem_range, byteAt, onDisk, UInt32.toNat_zero, Nat.sub_zero, hword]
  rw [hdisk, getD_eq_getElem?_getD, getElem?_append_right (by omega),
    Nat.add_sub_cancel_left, getElem?_append_left hi', getElem?_eq_getElem hi']
  rfl

def recordBytes (lba low high flags id : UInt8) (use : List UInt8) : List UInt8 :=
  [UInt8.ofNat (34 + use.length), 0, lba, 0, 0, 0, 0, 0, 0, lba, low, high, 0, 0, 0, 0, high, low,
    0, 0, 0, 0, 0, 0, 0, flags, 0, 0, 1, 0, 0, 1, 1, id] ++ use

def dirRecord (lba id : UInt8) : IsoRecord := ⟨lba.toUInt32, 2048, 2, [id], []⟩

def textRecord : IsoRecord := ⟨3, 3, 0, ['A'.toUInt8], [['N'.toUInt8, 'M'.toUInt8, 6, 1, 0, 'b'.toUInt8]]⟩

lemma encodes_dirRecord {lba : UInt8} (hlba : lba = 1 ∨ lba = 2) (id : UInt8) :
    (dirRecord lba id).Encodes (recordBytes lba 0 8 2 id []) := by
  refine ⟨rfl, by simp [recordBytes], ?_, rfl, rfl, rfl, by simp [dirRecord], by simp [dirRecord],
    (recordBytes lba 0 8 2 id []).take 33, [], [], rfl, rfl, by decide, rfl⟩
  rcases hlba with rfl | rfl <;> rfl

def textBytes : List UInt8 := recordBytes 3 3 0 0 'A'.toUInt8 ['N'.toUInt8, 'M'.toUInt8, 6, 1, 0, 'b'.toUInt8]

lemma encodes_textRecord : textRecord.Encodes textBytes := by
  refine ⟨by decide, by decide, by decide, by decide, by decide, by decide, by decide, ?_,
    textBytes.take 33, [], [], by decide, by decide, by decide, by decide⟩
  intro f hf
  obtain rfl := mem_singleton.1 hf
  exact ⟨by decide, by decide, fun _ => by decide⟩

/-- The root is in sector 1, its directory `D` in sector 2, and the bytes of a file there in sector 3. -/
def smallTree : IsoTree :=
  .folder (dirRecord 1 0) (dirRecord 1 0) (dirRecord 1 1)
    [.folder (dirRecord 2 'D'.toUInt8) (dirRecord 2 0) (dirRecord 1 1) [.file textRecord]]

def rootSector : List (List UInt8) :=
  [recordBytes 1 0 8 2 0 [], recordBytes 1 0 8 2 1 [], recordBytes 2 0 8 2 'D'.toUInt8 []]

def folderSector : List (List UInt8) := [recordBytes 2 0 8 2 0 [], recordBytes 1 0 8 2 1 [], textBytes]

def smallImage : Iso9660FileSystem :=
  onDisk (List.replicate 2048 0 ++ (sector rootSector ++ (sector folderSector ++
    ['h'.toUInt8, 'i'.toUInt8, '!'.toUInt8])))
    (List.replicate 158 0 ++ [1, 0, 0, 0, 0, 0, 0, 1, 0, 8, 0, 0])

lemma length_sector (h : records.flatten.length ≤ 2048) : (sector records).length = 2048 := by
  rw [sector, length_append, length_replicate]
  omega

lemma isExtent_sector (h : records.flatten.length ≤ 2048) (hne : records ≠ []) : IsExtent records (sector records) :=
  ⟨[records], by simp, by simpa using hne, by simpa using h, by simp⟩

lemma smallImage_isRoot : smallImage.IsRoot smallTree := ⟨_, _, _, rfl, by decide, by decide⟩

lemma smallImage_laidOut : smallImage.LaidOut smallTree := by
  have hroot : (sector rootSector).length = 2048 := length_sector (by decide)
  have hfolder : (sector folderSector).length = 2048 := length_sector (by decide)
  have hshort : (List.replicate 2048 (0 : UInt8) ++ (sector rootSector ++ (sector folderSector ++
      ['h'.toUInt8, 'i'.toUInt8, '!'.toUInt8]))).length < 2 ^ 32 := by
    simp only [length_append, length_replicate, hroot, hfolder]
    decide
  have hextent1 : smallImage.extent 1 2048 = sector rootSector :=
    extent_onDisk rfl (by rw [length_replicate]; rfl) (by rw [hroot]; rfl) hshort
  have hextent2 : smallImage.extent 2 2048 = sector folderSector :=
    extent_onDisk (append_assoc ..).symm
      (by rw [length_append, length_replicate, hroot]; rfl) (by rw [hfolder]; rfl) hshort
  have h1 := encodes_dirRecord (.inl rfl)
  have h2 := encodes_dirRecord (.inr rfl)
  refine ⟨by decide, ⟨by decide, by decide⟩, rfl, rfl,
    ⟨rootSector, .cons (h1 0) (.cons (h1 1) (.cons (h2 _) .nil)), ?_⟩,
    by decide, by decide, ⟨by decide, ⟨by decide, by decide⟩, rfl, rfl,
      ⟨folderSector, .cons (h2 0) (.cons (h1 1) (.cons encodes_textRecord .nil)), ?_⟩,
      by decide, by decide, ⟨by decide, by decide, by decide⟩, trivial⟩, trivial⟩
  · exact hextent1 ▸ isExtent_sector (by decide) (by decide)
  · exact hextent2 ▸ isExtent_sector (by decide) (by decide)

theorem iso9660_reads_back_small : smallImage.IsRoot smallTree ∧ smallImage.LaidOut smallTree ∧
      ∃ w f, smallImage.createRoot 2 Vfs.init = some (w, f) ∧ Yields smallImage.ReadsUnlessWrapped w f smallTree :=
  ⟨smallImage_isRoot, smallImage_laidOut,
    iso9660_reads_back smallImage smallTree smallImage_isRoot smallImage_laidOut 2 (by decide) Vfs.init⟩

/-- The file of three bytes is asked for 0xffffffff bytes from its second byte on: the sum is 0, and so
the device is asked for all of them. -/
theorem iso9660_read_past_end : smallImage.IsRoot smallTree ∧ smallImage.LaidOut smallTree ∧
      ∃ w f, smallImage.createRoot 2 Vfs.init = some (w, f) ∧
        ¬ Yields (fun r buffer => getSize buffer = some r.length ∧
          ∀ size pos, smallImage.ReadsBack r buffer size pos) w f smallTree := by
  obtain ⟨w, hw, hyields⟩ := createRoot_laidOut smallImage.readsUnlessWrapped smallImage_isRoot
    smallImage_laidOut (Nat.le_refl _) Vfs.init
  refine ⟨smallImage_isRoot, smallImage_laidOut, w, _, hw, fun hall => ?_⟩
  obtain ⟨_, _, _, _, d, hf, hd⟩ := hyields.only
  obtain ⟨_, _, _, _, a, hfd, buffer, ha, -, hreads⟩ := hd.only
  obtain ⟨_, _, _, _, d', hf', hd'⟩ := hall.only
  obtain ⟨_, _, _, _, a', hfd', buffer', ha', -, hreads'⟩ := hd'.only
  obtain rfl : buffer = buffer' := by simp_all
  exact absurd ((hreads 0xffffffff 1).1 (hreads' _ _) (by decide)) (by decide)

end Image

end OlliOS
