import Mathlib.Data.List.Nodup
import Mathlib.Data.List.Perm.Subperm
import Mathlib.Data.List.TakeWhile
import OlliOS.IsoRecords

/-!
# Which directory records can be parsed

If the fields lead to the end of the record, then the positions are all different, so that the search ends
in time.
-/

namespace OlliOS.Iso9660FileSystem

open List Option UInt8

variable {record : List UInt8} {b1 b2 : UInt8} {ps : List UInt8} {mem : ℕ → UInt8}

def Sized (record : List UInt8) (length : UInt8) : Prop :=
  record[0]? = some length ∧ length.toNat = record.length

section Pass

variable {length cur : UInt8}

lemma systemUsePass_end (h : record.length ≤ cur.toNat + 1) (hlen : length.toNat = record.length) :
    systemUsePass record length b1 b2 cur = .inr (some none) := if_neg (by omega)

section

variable (hlen : length.toNat = record.length)

include hlen

lemma systemUsePass_found {l : UInt8} (hl : record[cur.toNat + 2]? = some l) (h : HasSignature record b1 b2 cur) :
    systemUsePass record length b1 b2 cur = .inr (some (some cur.toNat)) := by
  have hlt := (List.getElem?_eq_some_iff.1 hl).1
  rw [systemUsePass, if_pos (by omega), h.1, h.2]
  simp

lemma systemUsePass_bytes (hend : ¬ record.length ≤ cur.toNat + 1)
    (h : ¬ HasSignature record b1 b2 cur) : systemUsePass record length b1 b2 cur =
      match record[cur.toNat + 2]? with
      | none => .inr none
      | some l => .inl (cur + l) := by
  have h0 : record[cur.toNat]? = some record[cur.toNat] := getElem?_eq_getElem (by omega)
  have h1 : record[cur.toNat + 1]? = some record[cur.toNat + 1] := getElem?_eq_getElem (by omega)
  have hne : ¬ (b1 = record[cur.toNat] ∧ b2 = record[cur.toNat + 1]) := by
    rintro ⟨hb1, hb2⟩
    exact h ⟨by rw [h0, hb1], by rw [h1, hb2]⟩
  rw [systemUsePass, if_pos (by omega), h0, h1]
  simp only [if_neg hne] <;> rfl

lemma systemUsePass_cut (hend : ¬ record.length ≤ cur.toNat + 1)
    (hl : record[cur.toNat + 2]? = none) (h : ¬ HasSignature record b1 b2 cur) :
    systemUsePass record length b1 b2 cur = .inr none := by
  rw [systemUsePass_bytes hlen hend h]
  simp only [hl]

lemma systemUsePass_next {l : UInt8} (hl : record[cur.toNat + 2]? = some l) (h : ¬ HasSignature record b1 b2 cur) :
    systemUsePass record length b1 b2 cur = .inl (cur + l) := by
  have hlt := (List.getElem?_eq_some_iff.1 hl).1
  rw [systemUsePass_bytes hlen (by omega) h]
  simp only [hl]

end

lemma run_fields (hlen : length.toNat = record.length) : ∀ {ps : List UInt8} {cur : UInt8},
    Fields record cur ps → ∀ {n : ℕ}, ps.length < n → Loop.run (systemUsePass record length b1 b2) n cur =
        some (some ((firstWith record ps b1 b2).map toNat))
  | [], cur, h, n + 1, _ => by
    rw [Loop.run_succ, systemUsePass_end h hlen]
    rfl
  | p :: ps, cur, ⟨hp, l, hl, hps⟩, n + 1, hn => by
    subst hp
    rw [Loop.run_succ]
    by_cases hsig : HasSignature record b1 b2 p
    · rw [systemUsePass_found hlen hl hsig]
      simp [firstWith, hsig]
    · rw [systemUsePass_next hlen hl hsig]
      refine (run_fields hlen hps (Nat.lt_of_succ_lt_succ hn)).trans ?_
      simp [firstWith, hsig]

lemma fields_of_run (hlen : length.toNat = record.length) (hb2 : b2 ∉ record) :
    ∀ {n : ℕ} {cur : UInt8} {found : Option ℕ},
      Loop.run (systemUsePass record length b1 b2) n cur = some (some found) → ∃ ps, Fields record cur ps
  | n + 1, cur, found, h => by
    by_cases hend : record.length ≤ cur.toNat + 1
    · exact ⟨[], hend⟩
    have hsig : ¬ HasSignature record b1 b2 cur := fun hsig => hb2 (mem_of_getElem? hsig.2)
    cases hl : record[cur.toNat + 2]? with
    | none =>
      rw [Loop.run_succ, systemUsePass_cut hlen hend hl hsig] at h
      cases h
    | some l =>
      rw [Loop.run_succ, systemUsePass_next hlen hl hsig] at h
      obtain ⟨ps, hps⟩ := fields_of_run hlen hb2 h
      exact ⟨cur :: ps, rfl, l, hl, hps⟩

end Pass

section Positions

lemma Fields.unique : ∀ {ps qs : List UInt8} {cur : UInt8}, Fields record cur ps → Fields record cur qs → ps = qs
  | [], [], _, _, _ => rfl
  | [], q :: qs, cur, hend, ⟨_, l, hl, _⟩ => by
    have hlt := (List.getElem?_eq_some_iff.1 hl).1
    have hle : record.length ≤ cur.toNat + 1 := hend
    omega
  | p :: ps, [], cur, ⟨_, l, hl, _⟩, hend => by
    have hlt := (List.getElem?_eq_some_iff.1 hl).1
    have hle : record.length ≤ cur.toNat + 1 := hend
    omega
  | p :: ps, q :: qs, cur, ⟨hp, l, hl, hps⟩, ⟨hq, l', hl', hqs⟩ => by
    cases hl.symm.trans hl'
    rw [hp, hq, hps.unique hqs]

lemma Fields.from_mem : ∀ {ps : List UInt8} {cur q : UInt8}, Fields record cur ps → q ∈ ps →
    ∃ qs, Fields record q (q :: qs) ∧ qs.length < ps.length
  | p :: ps, cur, q, h, hq => by
    rcases mem_cons.1 hq with rfl | hq
    · obtain ⟨rfl, hrest⟩ := h
      exact ⟨ps, ⟨rfl, hrest⟩, Nat.lt_succ_self _⟩
    · obtain ⟨-, l, -, hps⟩ := h
      obtain ⟨qs, hqs, hlt⟩ := hps.from_mem hq
      exact ⟨qs, hqs, Nat.lt_succ_of_lt hlt⟩

lemma Fields.nodup : ∀ {ps : List UInt8} {cur : UInt8}, Fields record cur ps → ps.Nodup
  | [], _, _ => nodup_nil
  | p :: ps, cur, h => by
    obtain ⟨rfl, l, hl, hps⟩ := h
    refine nodup_cons.2 ⟨fun hmem => ?_, hps.nodup⟩
    obtain ⟨qs, hqs, hlt⟩ := hps.from_mem hmem
    have heq : p :: ps = p :: qs := Fields.unique ⟨rfl, l, hl, hps⟩ hqs
    have hsame := congrArg List.length heq
    simp only [length_cons] at hsame
    omega

lemma Fields.length_byte {cur p : UInt8} (h : Fields record cur ps) (hp : p ∈ ps) :
    ∃ l, record[p.toNat + 2]? = some l := by
  obtain ⟨qs, ⟨-, l, hl, -⟩, -⟩ := h.from_mem hp
  exact ⟨l, hl⟩

lemma Fields.length_le {cur : UInt8} (h : Fields record cur ps) : ps.length ≤ record.length := by
  have hnodup : (ps.map UInt8.toNat).Nodup := h.nodup.map fun p q hpq => UInt8.toNat_inj.1 hpq
  have hsub : ps.map UInt8.toNat ⊆ List.range record.length := by
    intro n hn
    obtain ⟨p, hp, rfl⟩ := List.mem_map.1 hn
    obtain ⟨l, hl⟩ := h.length_byte hp
    have hlt := (List.getElem?_eq_some_iff.1 hl).1
    exact mem_range.2 (by omega)
  have hle := (hnodup.subperm hsub).length_le
  rwa [length_map, length_range] at hle

lemma exists_notMem (h : record.length < 256) : ∃ b, b ∉ record := by
  by_contra hall
  have hsub : List.range 256 ⊆ record.map toNat := by
    intro n hn
    have hlt := mem_range.1 hn
    have hmem : ofNat n ∈ record := by
      by_contra hnot
      exact hall ⟨_, hnot⟩
    refine List.mem_map.2 ⟨_, hmem, ?_⟩
    rw [toNat_ofNat']
    omega
  have hle := (nodup_range.subperm hsub).length_le
  rw [length_range, length_map] at hle
  omega

end Positions

section Search

variable {length idLength : UInt8}

variable (hrecord : Sized record length)

include hrecord

lemma getSystemUseField_of_fields
    (hid : record[32]? = some idLength) (hps : Fields record (firstField idLength) ps) (b1 b2 : UInt8) :
    getSystemUseField record b1 b2 = some ((firstWith record ps b1 b2).map toNat) := by
  have hle := hps.length_le
  have hlt := length.toNat_lt
  have hlen := hrecord.2
  unfold getSystemUseField
  rw [hrecord.1, hid]
  exact congrArg Option.join (run_fields hlen hps (by omega))

lemma fields_of_getSystemUseField (hb2 : b2 ∉ record) {found : Option ℕ}
    (h : getSystemUseField record b1 b2 = some found) :
    ∃ idLength ps, record[32]? = some idLength ∧ Fields record (firstField idLength) ps := by
  unfold getSystemUseField at h
  rw [hrecord.1] at h
  simp only [bind_eq_bind, bind_some] at h
  obtain ⟨idLength, hid, hrun⟩ := bind_eq_some_iff.1 h
  have hsome := join_eq_some_iff.1 hrun
  obtain ⟨ps, hps⟩ := fields_of_run hrecord.2 hb2 hsome
  exact ⟨idLength, ps, hid, hps⟩

lemma fieldFound_iff (hid : record[32]? = some idLength)
    (hps : Fields record (firstField idLength) ps) (b1 b2 : UInt8) :
    FieldFound record b1 b2 ↔ ∀ p l, firstWith record ps b1 b2 = some p → record[p.toNat + 2]? = some l →
      p.toNat + l.toNat ≤ record.length := by
  have hfield := getSystemUseField_of_fields hrecord hid hps b1 b2
  constructor
  · rintro ⟨found, hfound, hends⟩ p l hp hl
    rw [hfield, hp] at hfound
    cases hfound
    obtain ⟨l', hl', hle⟩ := hends p.toNat rfl
    cases hl.symm.trans hl'
    exact hle
  · intro hends
    refine ⟨_, hfield, fun n hn => ?_⟩
    obtain ⟨p, hp, rfl⟩ := map_eq_some_iff.1 hn
    obtain ⟨l, hl⟩ := hps.length_byte (mem_of_find?_eq_some hp)
    exact ⟨l, hl, hends p l hp hl⟩

end Search

section Name

lemma length_takeWhile_iff (bytes : List UInt8) (offset n : ℕ) (h : offset + n ≤ bytes.length) :
    (((bytes.drop offset).take n).takeWhile fun c => decide (c ≠ 0)).length = n ↔
      ∀ i, i < n → bytes[offset + i]? ≠ some 0 := by
  have hlen : ((bytes.drop offset).take n).length = n := by
    rw [length_take, length_drop]
    omega
  have hbyte : ∀ i, i < n → ((bytes.drop offset).take n)[i]? = bytes[offset + i]? := by
    intro i hi
    rw [getElem?_take, if_pos hi, getElem?_drop]
  constructor
  · intro hall i hi hzero
    have hself := ( takeWhile_prefix fun c => decide (c ≠ 0)).eq_of_length (hall.trans hlen.symm)
    rw [← hbyte i hi] at hzero
    have hne := (takeWhile_eq_self_iff.1 hself) 0 (mem_of_getElem? hzero)
    simp at hne
  · intro hne
    have hself : ((bytes.drop offset).take n).takeWhile (fun c => decide (c ≠ 0)) = (bytes.drop offset).take n := by
      refine takeWhile_eq_self_iff.2 fun c hc => ?_
      obtain ⟨i, hi⟩ := mem_iff_getElem?.1 hc
      have hlt := (List.getElem?_eq_some_iff.1 hi).1
      rw [hbyte i (by omega)] at hi
      refine decide_eq_true fun hzero => hne i (by omega) ?_
      rw [hi, hzero]
    rw [hself, hlen]

variable {length idLength : UInt8}

lemma readName_of_field {p l : UInt8}
    (hfield : getSystemUseField record 'N'.toUInt8 'M'.toUInt8 = some (some p.toNat))
    (hl : record[p.toNat + 2]? = some l) (hle : p.toNat + l.toNat ≤ record.length) :
    readName record = if l.toNat < 5 then none else
      some (((record.drop (p.toNat + 5)).take (l.toNat - 5)).takeWhile fun c => decide (c ≠ 0)) := by
  unfold readName
  rw [hfield]
  simp only [bind_eq_bind, bind_some, hl]
  split_ifs with hshort
  · rfl
  · exact if_pos (by omega)

lemma readName_of_none (hid : record[32]? = some idLength)
    (hfield : getSystemUseField record 'N'.toUInt8 'M'.toUInt8 = some none) :
    readName record = if HasId record 0 then some dot else if HasId record 1 then some dotdot
      else if 33 + idLength.toNat ≤ record.length then some (identifier record idLength) else none := by
  unfold readName
  rw [hfield]
  simp only [bind_eq_bind, bind_some]
  split_ifs <;> simp_all [stringAt, identifier]

lemma nameBuilt_iff (hrecord : Sized record length) (hid : record[32]? = some idLength)
    (hps : Fields record (firstField idLength) ps)
    (hends : ∀ b1 b2 p l, firstWith record ps b1 b2 = some p → record[p.toNat + 2]? = some l →
      p.toNat + l.toNat ≤ record.length)
    :
    NameBuilt record ↔ NameFits record ps idLength := by
  have hfield := getSystemUseField_of_fields hrecord hid hps 'N'.toUInt8 'M'.toUInt8
  unfold NameFits
  cases hp : firstWith record ps 'N'.toUInt8 'M'.toUInt8 with
  | some p =>
    obtain ⟨l, hl⟩ := hps.length_byte (mem_of_find?_eq_some hp)
    have hle := hends _ _ p l hp hl
    rw [hp] at hfield
    have hname := readName_of_field hfield hl hle
    constructor
    · rintro ⟨name, hbuilt, ⟨p', l', hfield', hl', hlen⟩ | ⟨n, hfield', -⟩⟩
      · rw [hfield] at hfield'
        cases some.inj hfield'
        cases hl.symm.trans hl'
        rw [hname, if_neg (by omega)] at hbuilt
        have htext := (length_takeWhile_iff record (p.toNat + 5) (l.toNat - 5) (by omega)).1
          (by rw [some.inj hbuilt]; omega)
        refine ⟨l, hl, by omega, fun i hi hil => ?_⟩
        have hbyte := htext (i - 5) (by omega)
        rwa [show p.toNat + 5 + (i - 5) = p.toNat + i by omega] at hbyte
      · cases hfield.symm.trans hfield'
    · rintro ⟨l', hl', hfive, htext⟩
      cases hl.symm.trans hl'
      rw [if_neg (by omega)] at hname
      refine ⟨_, hname, .inl ⟨p.toNat, l, hfield, hl, ?_⟩⟩
      rw [(length_takeWhile_iff record (p.toNat + 5) (l.toNat - 5) (by omega)).2 ?_]
      · omega
      · intro i hi
        have hbyte := htext (5 + i) (by omega) (by omega)
        rwa [← Nat.add_assoc] at hbyte
  | none =>
    rw [hp] at hfield
    have hname := readName_of_none hid hfield
    constructor
    · rintro ⟨name, -, ⟨p', l', hfield', -⟩ | ⟨n, -, hid', hle, -⟩⟩
      · cases hfield.symm.trans hfield'
      · cases hid.symm.trans hid'
        exact hle
    · intro hle
      refine ⟨if HasId record 0 then dot else if HasId record 1 then dotdot else identifier record idLength,
        ?_, .inr ⟨idLength, hfield, hid, hle, rfl⟩⟩
      rw [hname, if_pos hle]
      split_ifs <;> rfl

end Name

lemma recordAt_sized (h : mem 0 ≠ 0) : Sized (recordAt mem) (mem 0) := by
  have hpos : 0 < (mem 0).toNat := Nat.pos_of_ne_zero fun h0 => h (UInt8.toNat_inj.1 h0)
  constructor
  · rw [recordAt, getElem?_map, getElem?_range hpos]
    rfl
  · rw [recordAt, length_map, length_range]

lemma recordAt_empty (h : mem 0 = 0) : recordAt mem = [] := by
  rw [recordAt, h]
  rfl

/-- A record of any content can be parsed exactly if its fields lead to its end, the first field with any
signature ends in it, and the name fits. -/
theorem parses_iff (mem : ℕ → UInt8) : Parses (recordAt mem) ↔ WellFormed (recordAt mem) := by
  by_cases hmem : mem 0 = 0
  · rw [recordAt_empty hmem]
    refine iff_of_false ?_ ?_
    · rintro ⟨-, name, hname, -⟩
      cases hname
    · rintro ⟨length, ps, hid, -⟩
      cases hid
  · have hrecord := recordAt_sized hmem
    constructor
    · rintro ⟨hfound, hbuilt⟩
      have hlt : (recordAt mem).length < 256 := hrecord.2 ▸ (mem 0).toNat_lt
      obtain ⟨b2, hb2⟩ := exists_notMem hlt
      obtain ⟨found, hsome, -⟩ := hfound 0 b2
      obtain ⟨idLength, ps, hid, hps⟩ := fields_of_getSystemUseField hrecord hb2 hsome
      have hends : ∀ b1 b2 p l, firstWith (recordAt mem) ps b1 b2 = some p →
          (recordAt mem)[p.toNat + 2]? = some l → p.toNat + l.toNat ≤ (recordAt mem).length :=
        fun b1 b2 => (fieldFound_iff hrecord hid hps b1 b2).1 (hfound b1 b2)
      exact ⟨idLength, ps, hid, hps, hends, (nameBuilt_iff hrecord hid hps hends).1 hbuilt⟩
    · rintro ⟨idLength, ps, hid, hps, hends, hfits⟩
      exact ⟨fun b1 b2 => (fieldFound_iff hrecord hid hps b1 b2).2 (hends b1 b2),
        (nameBuilt_iff hrecord hid hps hends).2 hfits⟩

def smallRecordOf (length : UInt8) (fields : List UInt8) (i : ℕ) : UInt8 :=
  if i = 0 then length else if i = 32 then 1 else if i = 33 then 0x41 else fields.getD (i - 34) 0

/-- A field without a length, a record that is cut off behind a signature, and a field of alternate names
without a text. -/
theorem records_not_parsed :
    (∀ n, Loop.run (systemUsePass (recordAt (smallRecordOf 40 [])) 40 'N'.toUInt8 'M'.toUInt8) n
      (firstField 1) = none) ∧
    systemUsePass (recordAt (smallRecordOf 36 [])) 36 'N'.toUInt8 'M'.toUInt8 (firstField 1) = .inr none ∧
    readName (recordAt (smallRecordOf 38 [0x4E, 0x4D, 4, 1])) = none ∧
    ¬ Parses (recordAt (smallRecordOf 40 [])) ∧ ¬ Parses (recordAt (smallRecordOf 36 [])) ∧
    ¬ Parses (recordAt (smallRecordOf 38 [0x4E, 0x4D, 4, 1])) := by
  have hpass : systemUsePass (recordAt (smallRecordOf 40 [])) 40 'N'.toUInt8 'M'.toUInt8 (firstField 1) =
      .inl (firstField 1) := by decide
  have hshort : readName (recordAt (smallRecordOf 38 [0x4E, 0x4D, 4, 1])) = none := by decide +kernel
  refine ⟨fun n => ?_, by decide, hshort, ?_, ?_, ?_⟩
  · refine Loop.run_eq_none ?_ n _ rfl
    rintro _ rfl
    exact ⟨_, hpass, rfl⟩
  · rintro ⟨hfound, -⟩
    obtain ⟨found, hsome, -⟩ := hfound 'N'.toUInt8 'M'.toUInt8
    have hnone : getSystemUseField (recordAt (smallRecordOf 40 [])) 'N'.toUInt8 'M'.toUInt8 = none := by
      decide +kernel
    cases hnone.symm.trans hsome
  · rintro ⟨hfound, -⟩
    obtain ⟨found, hsome, -⟩ := hfound 'N'.toUInt8 'M'.toUInt8
    cases hsome
  · rintro ⟨-, name, hname, -⟩
    cases hname

end OlliOS.Iso9660FileSystem
