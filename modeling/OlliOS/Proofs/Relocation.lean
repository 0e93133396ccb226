import OlliOS.ModuleImage

/-!
# A kernel module is relocated

Both loops of `link_as_kernel_module` read the tables of the image in each pass. What carries the proofs
is that no pass writes where a later one reads.
-/

namespace OlliOS.Elf

open Words List Option UInt32 Entry

variable {header got : UInt32} {map : SymbolMap}

section Loops

variable {bound : Linker → UInt32} {body : UInt32 → Linker → Option (Int × Linker)} {s : Linker}

/-- A call returns -1 if `bad`, and else 0 and a state that meets `Q`. -/
def FailsIff (bad : Prop) (Q : Linker → Prop) (result : Option (Int × Linker)) : Prop :=
  (¬ bad ∧ ∃ s, result = some (0, s) ∧ Q s) ∨ (bad ∧ ∃ s, result = some (-1, s))

lemma forLoop_spec {n : UInt32} (I : ℕ → Linker → Prop) (Bad : UInt32 → Prop) (hbound : ∀ k s, I k s → bound s = n)
    (hbody : ∀ i s, i < n → I i.toNat s → FailsIff (Bad i) (I (i.toNat + 1)) (body i s)) (h0 : I 0 s) :
    FailsIff (∃ i, i < n ∧ Bad i) (I n.toNat) (forLoop bound body s) := by
  -- a state of the loop: the counter has passed good indices only
  let Inv : UInt32 × Linker → Prop := fun p => p.1 ≤ n ∧ I p.1.toNat p.2 ∧ ∀ i, i < p.1 → ¬ Bad i
  have hpass : ∀ p, Inv p → (∃ t, forPass bound body p = .inl t ∧ Inv t ∧ n.toNat - t.1.toNat < n.toNat - p.1.toNat) ∨
      ∃ r, forPass bound body p = .inr r ∧ FailsIff (∃ i, i < n ∧ Bad i) (I n.toNat) r := by
    rintro ⟨i, s⟩ ⟨hi, hI, hgood⟩
    simp only [forPass, hbound _ _ hI]
    split_ifs with hlt
    · rcases hbody i s hlt hI with ⟨hok, s', hs', hI'⟩ | ⟨hbad, s', hs'⟩
      · have hlt' := lt_iff_toNat_lt.mp hlt
        have hsucc : (i + 1).toNat = i.toNat + 1 := by
          rw [UInt32.toNat_add, UInt32.toNat_one]
          have := n.toNat_lt
          omega
        left
        rw [hs']
        refine ⟨(i + 1, s'), by simp, ⟨?_, by rwa [hsucc], ?_⟩, by change _ - (i + 1).toNat < _; omega⟩
        · rw [le_iff_toNat_le]
          change (i + 1).toNat ≤ _
          omega
        intro j hj
        rcases Nat.lt_or_ge j.toNat i.toNat with hlt | hge
        · exact hgood j (lt_iff_toNat_lt.mpr hlt)
        · have hji : j = i := UInt32.toNat_inj.mp (by
            have := lt_iff_toNat_lt.mp hj
            change _ < (i + 1).toNat at this
            omega)
          exact hji ▸ hok
      · right
        rw [hs']
        exact ⟨some (-1, s'), by simp, .inr ⟨⟨i, hlt, hbad⟩, s', rfl⟩⟩
    · right
      obtain rfl : i = n := by
        have := le_iff_toNat_le.mp hi
        have hnot : ¬ i.toNat < n.toNat := fun h => hlt (lt_iff_toNat_lt.mpr h)
        exact UInt32.toNat_inj.mp (by change i.toNat ≤ _ at this; omega)
      exact ⟨_, rfl, .inl ⟨fun ⟨j, hj, hbad⟩ => hgood j hj hbad, s, rfl, hI⟩⟩
  have hstart : Inv (0, s) := ⟨UInt32.zero_le, h0, fun i hi => absurd hi UInt32.not_lt_zero⟩
  obtain ⟨hall, hex⟩ := Loop.run_of_variant (fun p : UInt32 × Linker => n.toNat - p.1.toNat) hpass
    0x100000000 (0, s) hstart
  obtain ⟨r, hr⟩ := hex (by have := n.toNat_lt; omega)
  have hloop : forLoop bound body s = r := by
    unfold forLoop
    rw [hr]
    rfl
  rw [hloop]
  exact hall r hr

end Loops

section Headers

variable {m : Memory} {i c x : UInt32}

lemma load16_toNat_lt (m : Memory) (a : UInt32) : (load16 m a).toNat < 65536 := by
  unfold load16
  have h0 := (m a).toNat_lt
  have h1 := (m (a + 1)).toNat_lt
  rw [toNat_ofNat']
  omega

lemma index_lt (hi : i < sectionHeaderTableEntries header m) : i.toNat < 65536 :=
  Nat.lt_trans (lt_iff_toNat_lt.mp hi) (load16_toNat_lt m _)

lemma inBytes_field (hi : i.toNat < 65536) (hc : c.toNat ≤ 36) : InBytes (getSectionHeader header m i + c) 4 x ↔
      40 * i.toNat + c.toNat ≤ (x - (header + load m (header + 32))).toNat ∧
      (x - (header + load m (header + 32))).toNat < 40 * i.toNat + c.toNat + 4 := by
  have hsum : (i * 40 + c).toNat = 40 * i.toNat + c.toNat := by
    rw [UInt32.toNat_add, UInt32.toNat_mul]
    change (i.toNat * 40 % _ + _) % _ = _
    omega
  unfold getSectionHeader
  rw [UInt32.add_assoc, inBytes_add_iff (by omega), hsum]

lemma inHeaders_of_field (hi : i < sectionHeaderTableEntries header m) (hc : c.toNat ≤ 36)
    (hx : InBytes (getSectionHeader header m i + c) 4 x) : InHeaders header m x := by
  have hlt := lt_iff_toNat_lt.mp hi
  have hpos := (inBytes_field (index_lt hi) hc).mp hx
  unfold InHeaders InBytes
  omega

end Headers

section Nobits

variable {s s' : Linker} {m : Memory} {k : ℕ} {i a x : UInt32}

lemma size_le_nobitsPages (size : UInt32) : size.toNat ≤ (nobitsPages size).toNat * 0x1000 := by
  have hlt := size.toNat_lt
  have hdiv : (size / 0x1000).toNat = size.toNat / 4096 := UInt32.toNat_div _ _
  unfold nobitsPages
  split_ifs with h
  · rw [UInt32.toNat_add, hdiv, UInt32.toNat_one]
    omega
  · have hmod : size.toNat % 4096 = 0 := by
      have := congrArg toNat (not_not.mp h)
      rwa [UInt32.toNat_mod] at this
    omega

section

variable (hf : Fresh header s)

include hf

lemma Bound.read (hb : Bound header s k m)
    (hx : InBytes header 52 x ∨ InHeaders header s.mem x ∧ ∀ j, Allocated header s.mem j → j.toNat < k →
      ¬ InBytes (getSectionHeader header s.mem j + 16) 4 x) : m x = s.mem x := by
  apply hb.same
  intro j a hj hjk ha
  obtain ⟨a', ha', hout⟩ := hf.area j hj
  obtain rfl : a = a' := some.inj (ha.symm.trans ha')
  rcases hx with hx | ⟨hx, hfield⟩
  · exact ⟨fun h => hf.apart x hx (inHeaders_of_field hj.lt (by decide) h), fun h => (hout x h).1 hx⟩
  · exact ⟨hfield j hj hjk, fun h => (hout x h).2 hx⟩

lemma Bound.entries_eq (hb : Bound header s k m) :
    sectionHeaderTableEntries header m = sectionHeaderTableEntries header s.mem :=
  load16_congr_inBytes fun _ hx => hb.read hf (.inl (hx.of_part (by decide)))

lemma Bound.getSectionHeader_eq (hb : Bound header s k m) (i : UInt32) :
    getSectionHeader header m i = getSectionHeader header s.mem i := by
  unfold getSectionHeader
  rw [load_congr_inBytes fun _ hx => hb.read hf (.inl (hx.of_part (by decide)))]

lemma Bound.field_eq {c : UInt32} (hb : Bound header s k m)
    (hi : i < sectionHeaderTableEntries header s.mem) (hc : c.toNat ≤ 12 ∨ 20 ≤ c.toNat ∧ c.toNat ≤ 36) :
    load m (getSectionHeader header s.mem i + c) = load s.mem (getSectionHeader header s.mem i + c) := by
  refine load_congr_inBytes fun x hx => hb.read hf (.inr ⟨inHeaders_of_field hi (by omega) hx, ?_⟩)
  intro j hj _ hxj
  have hx' := (inBytes_field (index_lt hi) (by omega)).mp hx
  have hxj' := (inBytes_field (index_lt hj.lt) (by decide)).mp hxj
  change 40 * j.toNat + 16 ≤ _ ∧ _ < 40 * j.toNat + 16 + 4 at hxj'
  omega

end

lemma allocatedBelow_succ (m : Memory) (i : UInt32) : allocatedBelow header m (i.toNat + 1) =
    allocatedBelow header m i.toNat + if Allocated header m i then 1 else 0 := by
  unfold allocatedBelow
  rw [range'_concat, filter_append, length_append]
  simp only [Nat.one_mul, Nat.zero_add, filter_cons, UInt32.ofNat_toNat, decide_eq_true_eq]
  split_ifs <;> rfl

lemma Bound.skip (hb : Bound header s i.toNat m) (hi : ¬ Allocated header s.mem i) :
    Bound header s (i.toNat + 1) m := by
  have hbelow : ∀ j, Allocated header s.mem j → j.toNat < i.toNat + 1 → j.toNat < i.toNat := by
    intro j hj hlt
    rcases Nat.lt_or_ge j.toNat i.toNat with h | h
    · exact h
    · exact absurd (UInt32.toNat_inj.mp (Nat.le_antisymm (by omega) h) ▸ hj) hi
  refine ⟨fun j a hj hlt => hb.area j a hj (hbelow j hj hlt), fun x hx => hb.same x ?_⟩
  exact fun j a hj hlt => hx j a hj (by omega)

def bindArea (header : UInt32) (m : Memory) (section_ size a : UInt32) : Memory :=
  store (clear (clear m a ((nobitsPages size).toNat * 0x1000)) a size.toNat) (section_ + 16) (a - header)

lemma bindArea_of_not_inBytes {section_ size : UInt32} (hx : ¬ InBytes (section_ + 16) 4 x) :
    bindArea header m section_ size a x =
      if InBytes a ((nobitsPages size).toNat * 0x1000) x then 0 else m x := by
  have hle := size_le_nobitsPages size
  unfold bindArea
  rw [store_of_not_inBytes hx]
  by_cases hin : InBytes a ((nobitsPages size).toNat * 0x1000) x
  · unfold clear
    rw [if_pos hin, ite_self]
  · have hout : ¬ InBytes a size.toNat x := fun h => hin (Nat.lt_of_lt_of_le h hle)
    unfold clear
    rw [if_neg hin, if_neg hout]

lemma Bound.bind (hf : Fresh header s) (hb : Bound header s i.toNat m) (hi : Allocated header s.mem i)
    (ha : areaOf header s i = some a) :
    Bound header s (i.toNat + 1) (bindArea header m (getSectionHeader header s.mem i)
      (sectionSize s.mem (getSectionHeader header s.mem i)) a) := by
  obtain ⟨a', ha', hout⟩ := hf.area i hi
  obtain rfl : a = a' := some.inj (ha.symm.trans ha')
  have hfield : ∀ x, InArea header s.mem i a x → ¬ InBytes (getSectionHeader header s.mem i + 16) 4 x := fun x hx h =>
    (hout x hx).2 (inHeaders_of_field hi.lt (by decide) h)
  refine ⟨fun j b hj hlt hjb => ?_, fun x hx => ?_⟩
  · rcases Nat.lt_or_ge j.toNat i.toNat with hji | hji
    · obtain ⟨hoffset, hzero⟩ := hb.area j b hj hji hjb
      obtain ⟨b', hb', hout'⟩ := hf.area j hj
      obtain rfl : b = b' := some.inj (hjb.symm.trans hb')
      refine ⟨?_, fun x hx => ?_⟩
      · rw [← hoffset]
        refine load_congr_inBytes fun x hx => ?_
        have hx' := (inBytes_field (index_lt hj.lt) (by decide)).mp hx
        have hne : ¬ InBytes (getSectionHeader header s.mem i + 16) 4 x := fun h => by
          have := (inBytes_field (index_lt hi.lt) (by decide)).mp h
          omega
        rw [bindArea_of_not_inBytes hne]
        exact if_neg fun h => (hout x h).2 (inHeaders_of_field hj.lt (by decide) hx)
      · have hne : ¬ InBytes (getSectionHeader header s.mem i + 16) 4 x := fun h =>
          (hout' x hx).2 (inHeaders_of_field hi.lt (by decide) h)
        rw [bindArea_of_not_inBytes hne, hzero x hx, ite_self]
    · obtain rfl : j = i := UInt32.toNat_inj.mp (by omega)
      obtain rfl : a = b := some.inj (ha.symm.trans hjb)
      refine ⟨load_store, fun x hx => ?_⟩
      rw [bindArea_of_not_inBytes (hfield x hx)]
      exact if_pos hx
  · obtain ⟨hne, hna⟩ := hx i a hi (by omega) ha
    rw [bindArea_of_not_inBytes hne]
    exact (if_neg hna).trans (hb.same x fun j b hj hlt hjb => hx j b hj (by omega) hjb)

lemma Bound.unique {m' : Memory} (hb : Bound header s k m) (hb' : Bound header s k m') : m = m' := by
  funext x
  by_cases hx : ∀ i a, Allocated header s.mem i → i.toNat < k → areaOf header s i = some a →
      ¬ InBytes (getSectionHeader header s.mem i + 16) 4 x ∧ ¬ InArea header s.mem i a x
  · rw [hb.same x hx, hb'.same x hx]
  push Not at hx
  obtain ⟨i, a, hi, hlt, ha, hx⟩ := hx
  obtain ⟨hoffset, hzero⟩ := hb.area i a hi hlt ha
  obtain ⟨hoffset', hzero'⟩ := hb'.area i a hi hlt ha
  by_cases hfield : InBytes (getSectionHeader header s.mem i + 16) 4 x
  · exact eq_of_load_eq (hoffset.trans hoffset'.symm) hfield
  · rw [hzero x (hx hfield), hzero' x (hx hfield)]

structure Binding (header : UInt32) (s : Linker) (k : ℕ) (s' : Linker) : Prop where
  bound : Bound header s k s'.mem
  areas : s'.areas = s.areas.drop (allocatedBelow header s.mem k)

lemma Binding.pass (hf : Fresh header s) (hi : i < sectionHeaderTableEntries header s.mem)
    (hb : Binding header s i.toNat s') :
    ∃ s'', (if sectionType s'.mem (getSectionHeader header s'.mem i) = nobits then
        allocateNobits header (getSectionHeader header s'.mem i) s' else some (0, s')) = some (0, s'') ∧
      Binding header s (i.toNat + 1) s'' := by
  have hskip : ¬ Allocated header s.mem i → Binding header s (i.toNat + 1) s' := fun hn =>
    ⟨hb.bound.skip hn, by rw [hb.areas, allocatedBelow_succ, if_neg hn, Nat.add_zero]⟩
  have htype : sectionType s'.mem (getSectionHeader header s.mem i) = _ :=
    hb.bound.field_eq hf hi (.inl (by decide))
  have hflags : sectionFlags s'.mem (getSectionHeader header s.mem i) = _ :=
    hb.bound.field_eq hf hi (.inl (by decide))
  have hsize : sectionSize s'.mem (getSectionHeader header s.mem i) = _ :=
    hb.bound.field_eq hf hi (.inr (by decide))
  rw [hb.bound.getSectionHeader_eq hf, htype]
  unfold allocateNobits
  simp only [hflags, hsize]
  split_ifs with hnobits hzero hflag
  · exact ⟨s', rfl, hskip fun h => h.size hzero⟩
  · have hi' : Allocated header s.mem i := ⟨hi, hnobits, hzero, hflag⟩
    obtain ⟨a, ha, -⟩ := hf.area i hi'
    obtain ⟨hlt, rfl⟩ := List.getElem?_eq_some_iff.mp ha
    rw [hb.areas, drop_eq_getElem_cons hlt]
    refine ⟨_, rfl, hb.bound.bind hf hi' ha, ?_⟩
    rw [allocatedBelow_succ, if_pos hi']
  · exact ⟨s', rfl, hskip fun h => h.flags (not_not.mp hflag)⟩
  · exact ⟨s', rfl, hskip fun h => hnobits h.type⟩

lemma allocateAll_spec (hf : Fresh header s) : ∃ s', allocateAll header s = some (0, s') ∧
    Bound header s (sectionHeaderTableEntries header s.mem).toNat s'.mem := by
  have hstart : Binding header s 0 s := ⟨⟨fun i a _ h => absurd h (Nat.not_lt_zero _), fun _ _ => rfl⟩, rfl⟩
  rcases forLoop_spec (Binding header s) (fun _ => False) (fun k s' h => h.bound.entries_eq hf)
      (fun i s' hi h => .inl ⟨not_false, h.pass hf hi⟩) hstart with ⟨-, s', hs', hb⟩ | ⟨⟨_, _, h⟩, _⟩
  · exact ⟨s', hs', hb.bound⟩
  · exact h.elim

end Nobits

section Strings

lemma stringAt_of_isString {m : Memory} : ∀ {str : CStr} {n : ℕ} {a : UInt32},
    IsString m a str → str.length < n → stringAt m n a = some str
  | [], n + 1, a, h, _ => if_pos h
  | c :: str, n + 1, a, ⟨hc, ha, h⟩, hn => by
    have hne : m a ≠ 0 := fun h0 => hc (ha.symm.trans h0)
    unfold stringAt
    rw [if_neg hne, stringAt_of_isString h (by simpa using hn), ha]
    rfl

lemma isString_congr {m m' : Memory} : ∀ {str : CStr} {a : UInt32},
    (∀ x, InBytes a (str.length + 1) x → m' x = m x) → str.length < 2 ^ 32 - 1 → IsString m a str →
    IsString m' a str
  | [], a, hm, _, h => (hm a (by simp [InBytes])).trans h
  | c :: str, a, hm, hlen, ⟨hc, ha, h⟩ => by
    rw [length_cons] at hm hlen
    refine ⟨hc, (hm a (by simp [InBytes])).trans ha, isString_congr (fun x hx => hm x ?_) (by omega) h⟩
    exact hx.of_part (by change 1 + _ ≤ _; omega)

end Strings

section Tables

variable {m m' : Memory} {e : Entry} {i c x S : UInt32}

def Agrees (header : UInt32) (m m' : Memory) : Prop := ∀ x, InTables header m x → m' x = m x

namespace Agrees

variable (h : Agrees header m m')

include h

lemma entries_eq : sectionHeaderTableEntries header m' = sectionHeaderTableEntries header m :=
  load16_congr_inBytes fun x hx => h x (.elf (hx.of_part (by decide)))

lemma getSectionHeader_eq (i : UInt32) : getSectionHeader header m' i = getSectionHeader header m i := by
  unfold getSectionHeader
  rw [load_congr_inBytes fun x hx => h x (.elf (hx.of_part (by decide)))]

lemma field_eq (hi : i < sectionHeaderTableEntries header m) (hc : c.toNat ≤ 36) :
    load m' (getSectionHeader header m i + c) = load m (getSectionHeader header m i + c) :=
  load_congr_inBytes fun x hx => h x (.headers (inHeaders_of_field hi hc hx))

lemma sectionOffset_eq (hi : i < sectionHeaderTableEntries header m) :
    sectionOffset m' (getSectionHeader header m i) = sectionOffset m (getSectionHeader header m i) :=
  h.field_eq hi (by decide)

section

variable (he : e.IsIn header m)

include he

lemma address_eq :
    header + sectionOffset m' (e.section_ header m) + e.number * 8 = e.address header m := by
  unfold address section_
  rw [h.sectionOffset_eq he.table.lt]

lemma entry_eq (hc : c.toNat ≤ 4) :
    load m' (e.address header m + c) = load m (e.address header m + c) := by
  have hnum : e.number.toNat < (sectionSize m (e.section_ header m)).toNat / 8 :=
    (UInt32.lt_iff_toNat_lt.mp he.number).trans_eq (UInt32.toNat_div _ _)
  have hlt := (sectionSize m (e.section_ header m)).toNat_lt
  have hsum : (e.number * 8 + c).toNat = e.number.toNat * 8 + c.toNat := by
    rw [UInt32.toNat_add, UInt32.toNat_mul]
    change (e.number.toNat * 8 % _ + _) % _ = _
    omega
  refine load_congr_inBytes fun x hx => h x (.relocations e.table he.table ?_)
  unfold address at hx
  rw [UInt32.add_assoc] at hx
  exact hx.of_part (by change _ ≤ (sectionSize m (e.section_ header m)).toNat; omega)

lemma offset_eq : load m' (e.address header m) = load m (e.address header m) := by
  have := h.entry_eq he (c := 0) (by decide)
  rwa [UInt32.add_zero] at this

lemma info_eq : load m' (e.address header m + 4) = e.info header m :=
  h.entry_eq he (by decide)

end

lemma target_eq (he : e.Readable header m) :
    refAddress header m' (e.section_ header m) (load m (e.address header m)) = e.target header m := by
  have hinfo : sectionInfo m' (e.section_ header m) = sectionInfo m (e.section_ header m) :=
    h.field_eq he.isIn.table.lt (by decide)
  have hoffset : sectionOffset m' (getSectionHeader header m (sectionInfo m (e.section_ header m))) = _ :=
    h.sectionOffset_eq he.info
  unfold target refAddress
  rw [hinfo, h.getSectionHeader_eq, hoffset]

lemma symbolTable_eq (hi : IsTable header m i) :
    getSectionHeader header m' (linkIndex m' (getSectionHeader header m i)) = symbolTable header m i := by
  have hlink : linkIndex m' (getSectionHeader header m i) = linkIndex m (getSectionHeader header m i) :=
    h.field_eq hi.lt (by decide)
  rw [hlink, h.getSectionHeader_eq]
  rfl

lemma stringTable_eq (hlink : linkIndex m (getSectionHeader header m i) < sectionHeaderTableEntries header m) :
    getSectionHeader header m' (linkIndex m' (symbolTable header m i)) = stringTable header m i := by
  have hlink : linkIndex m' (symbolTable header m i) = linkIndex m (symbolTable header m i) :=
    h.field_eq hlink (by decide)
  rw [hlink, h.getSectionHeader_eq]
  rfl

lemma symbol_eq (he : e.Readable header m) :
    symbolAt header m' (symbolTable header m e.table) (e.info header m >>> 8) = e.symbol header m := by
  have hoffset : sectionOffset m' (symbolTable header m e.table) = sectionOffset m (symbolTable header m e.table) :=
    h.sectionOffset_eq he.link
  unfold symbol symbolAt
  rw [hoffset]

omit h in
lemma inTables_of_symbol {p : ℕ} (he : e.Readable header m) (hc : c.toNat + p ≤ 16) (hx : InBytes (e.symbol header m + c) p x) : InTables header m x := by
  have hsize := he.symbol
  have hlt := (sectionSize m (symbolTable header m e.table)).toNat_lt
  have hsum : (e.info header m >>> 8 * 16 + c).toNat = (e.info header m >>> 8).toNat * 16 + c.toNat := by
    rw [UInt32.toNat_add, UInt32.toNat_mul]
    change (_ * 16 % _ + _) % _ = _
    omega
  refine .symbols e.table he.isIn.table ?_
  unfold symbol symbolAt at hx
  rw [UInt32.add_assoc] at hx
  exact hx.of_part (by omega)

lemma symbol_word (he : e.Readable header m) (hc : c.toNat ≤ 12) :
    load m' (e.symbol header m + c) = load m (e.symbol header m + c) :=
  load_congr_inBytes fun x hx => h x (inTables_of_symbol he (by omega) hx)

lemma sectionIndex_eq (he : e.Readable header m) : load16 m' (e.symbol header m + 14) = e.sectionIndex header m :=
  load16_congr_inBytes fun x hx => h x (inTables_of_symbol he (by decide) hx)

lemma getSymbolName_eq {name : CStr} (he : e.Readable header m) (hname : e.Named header m name) :
    getSymbolName header m' (symbolTable header m e.table) (e.info header m >>> 8) = some name := by
  have hlt := (sectionSize m (stringTable header m e.table)).toNat_lt
  have hin := hname.inside
  have hword : load m' (e.symbol header m) = load m (e.symbol header m) := by
    have := h.symbol_word he (c := 0) (by decide)
    rwa [UInt32.add_zero] at this
  unfold getSymbolName
  simp only [h.stringTable_eq he.link, h.symbol_eq he, hword]
  rw [stringTable, h.sectionOffset_eq he.names]
  refine stringAt_of_isString (isString_congr (fun x hx => ?_) (by omega) hname.string) (by omega)
  exact h x (.strings e.table he.isIn.table (hx.of_part (by omega)))

lemma getSymbolValue_of_symbol (he : e.Readable header m)
    (ht : e.type header m ≠ some .gotpc) (hS : e.Symbol header map m S) :
    getSymbolValue header map m' (symbolTable header m e.table) (e.info header m >>> 8) = some (some S) := by
  unfold getSymbolValue
  simp only [h.symbol_eq he, h.sectionIndex_eq he]
  rcases hS with ⟨hzero, name, hname, hfind⟩ | ⟨hne, rfl⟩
  · rw [if_pos hzero, h.getSymbolName_eq he hname]
    simp [hfind]
  · rw [if_neg hne, h.getSectionHeader_eq, h.sectionOffset_eq (he.defined ht), h.symbol_word he (by decide)]

lemma getSymbolValue_of_missing (he : e.Readable header m) (hmiss : e.Missing header map m) :
    getSymbolValue header map m' (symbolTable header m e.table) (e.info header m >>> 8) = some none := by
  obtain ⟨name, hname, hfind⟩ := hmiss.name
  unfold getSymbolValue
  simp only [h.symbol_eq he, h.sectionIndex_eq he]
  rw [if_pos hmiss.undefined, h.getSymbolName_eq he hname]
  simp [hfind]

end Agrees

lemma WellFormed.readable (hw : WellFormed header m) (he : e.IsIn header m) : e.Readable header m :=
  ⟨he, hw.nonzero e he, hw.info _ he.table, hw.link _ he.table, hw.names _ he.table, hw.symbol e he, hw.defined e he⟩

lemma Entry.exists_symbol (ht : e.type header m ≠ some .gotpc)
    (hundefined : e.sectionIndex header m = 0 → ∃ name, e.Named header m name) (hmiss : ¬ e.Missing header map m) :
    ∃ S, e.Symbol header map m S := by
  by_cases hzero : e.sectionIndex header m = 0
  · obtain ⟨name, hname⟩ := hundefined hzero
    rcases hfind : map.findSymbol name with _ | entry
    · exact absurd ⟨ht, hzero, name, hname, hfind⟩ hmiss
    · exact ⟨entry.offset, .inl ⟨hzero, name, hname, hfind⟩⟩
  · exact ⟨_, .inr ⟨hzero, rfl⟩⟩

lemma Entry.Symbol.unique {S' : UInt32} (he : e.Readable header m) (ht : e.type header m ≠ some .gotpc) (hS : e.Symbol header map m S) (hS' : e.Symbol header map m S') :
    S = S' := by
  have hself : Agrees header m m := fun _ _ => rfl
  have h := (hself.getSymbolValue_of_symbol he ht hS).symm.trans (hself.getSymbolValue_of_symbol he ht hS')
  exact some.inj (some.inj h)

lemma Entry.Symbol.not_missing (he : e.Readable header m) (hS : e.Symbol header map m S) : ¬ e.Missing header map m := by
  intro hmiss
  have hself : Agrees header m m := fun _ _ => rfl
  have h := (hself.getSymbolValue_of_symbol he hmiss.type hS).symm.trans (hself.getSymbolValue_of_missing he hmiss)
  exact some_ne_none _ (some.inj h)

end Tables

section Relocate

variable {m : Memory} {s : Linker} {D : Entry → Prop} {e : Entry} {v i : UInt32} {x : UInt32}

structure Relocated (header got : UInt32) (map : SymbolMap) (D : Entry → Prop) (m : Memory) (s : Linker) : Prop where
  done : ∀ e, D e → e.IsIn header m → ∀ t S, e.type header m = some t → (t = .gotpc ∨ e.Symbol header map m S) →
    load s.mem (e.target header m) = t.word S (load m (e.target header m)) (e.target header m) got
  same : ∀ x, (∀ e, D e → e.IsIn header m → ¬ InBytes (e.target header m) 4 x) → s.mem x = m x

namespace Relocated

section

variable (hw : WellFormed header m)

include hw

section

variable (hr : Relocated header got map D m s)

include hr

lemma agrees : Agrees header m s.mem := fun x hx =>
  hr.same x fun e _ he h => hw.apart e he x h hx

lemma addend (he : e.IsIn header m)
    (hD : ¬ D e) : load s.mem (e.target header m) = load m (e.target header m) := by
  refine load_congr_inBytes fun x hx => hr.same x fun e' hD' he' hx' => ?_
  have hne : e' ≠ e := by
    rintro rfl
    exact hD hD'
  exact hw.once e' e he' he hne x hx' hx

lemma put (he : e.IsIn header m)
    (hv : ∀ t S, e.type header m = some t → (t = .gotpc ∨ e.Symbol header map m S) →
      v = t.word S (load m (e.target header m)) (e.target header m) got) :
    Relocated header got map (fun e' => D e' ∨ e' = e) m (s.put (e.target header m) v) := by
  refine ⟨fun e' hD' he' t S ht hS => ?_, fun x hx => ?_⟩
  · by_cases hee : e' = e
    · subst hee
      exact load_store.trans (hv t S ht hS)
    · rw [← hr.done e' (hD'.resolve_right hee) he' t S ht hS]
      refine load_congr_inBytes fun x hx => store_of_not_inBytes ?_
      exact hw.once e' e he' he hee x hx
  · have hout := hx e (.inr rfl) he
    exact (store_of_not_inBytes hout).trans (hr.same x fun e' hD' => hx e' (.inl hD'))

lemma skip (he : e.IsIn header m)
    (hD : ¬ D e) (hv : ∀ t S, e.type header m = some t → (t = .gotpc ∨ e.Symbol header map m S) →
      load m (e.target header m) = t.word S (load m (e.target header m)) (e.target header m) got) :
    Relocated header got map (fun e' => D e' ∨ e' = e) m s := by
  refine ⟨fun e' hD' he' t S ht hS => ?_, fun x hx => hr.same x fun e' hD' => hx e' (.inl hD')⟩
  rcases hD' with hD' | rfl
  · exact hr.done e' hD' he' t S ht hS
  · exact (hr.addend hw he hD).trans (hv t S ht hS)

end

omit hw in
lemma congr {D' : Entry → Prop} (h : ∀ e, e.IsIn header m → (D' e ↔ D e))
    (hr : Relocated header got map D m s) : Relocated header got map D' m s :=
  ⟨fun e hD he => hr.done e ((h e he).mp hD) he, fun x hx => hr.same x fun e hD he => hx e ((h e he).mpr hD) he⟩

lemma relocateEntry_spec (hr : Relocated header got map D m s) (he : e.IsIn header m) (hD : ¬ D e) :
    FailsIff (e.Missing header map m) (Relocated header got map (fun e' => D e' ∨ e' = e) m)
      (relocateEntry header got map (e.section_ header m) (load m (e.address header m)) (e.info header m) s) := by
  have hagree := hr.agrees hw
  have hread := hw.readable he
  have hA := hr.addend hw he hD
  have htype : RelocationType.ofByte (e.info header m % 0x100) = e.type header m := rfl
  have htable : getSectionHeader header s.mem (linkIndex s.mem (e.section_ header m)) =
      symbolTable header m e.table := hagree.symbolTable_eq he.table
  obtain ⟨t, ht, hgot⟩ := hw.type e he
  unfold relocateEntry
  simp only [hagree.target_eq hread, if_pos hread.nonzero, htype, htable, hA]
  by_cases hgotpc : e.type header m = some .gotpc
  · rw [if_pos hgotpc]
    refine .inl ⟨fun h => h.type hgotpc, _, rfl, hr.put hw he fun t' S ht' _ => ?_⟩
    obtain rfl : .gotpc = t' := some.inj (hgotpc.symm.trans ht')
    rfl
  rw [if_neg hgotpc]
  by_cases hmiss : e.Missing header map m
  · right
    rw [hagree.getSymbolValue_of_missing hread hmiss]
    exact ⟨hmiss, s, rfl⟩
  obtain ⟨S, hS⟩ := exists_symbol hgotpc (hw.undefined e he hgotpc) hmiss
  -- the type and the symbol of the entry are those that the code found
  have honly : ∀ t' S', e.type header m = some t' → (t' = .gotpc ∨ e.Symbol header map m S') → t' = t ∧ S' = S := by
    intro t' S' ht' hS'
    obtain rfl : t = t' := some.inj (ht.symm.trans ht')
    exact ⟨rfl, (hS'.resolve_left fun h => hgotpc (h ▸ ht)).unique hread hgotpc hS⟩
  left
  refine ⟨hmiss, ?_⟩
  rw [hagree.getSymbolValue_of_symbol hread hgotpc hS]
  simp only [ht]
  cases t with
  | none =>
    refine ⟨s, rfl, hr.skip hw he hD fun t' S' ht' hS' => ?_⟩
    obtain ⟨rfl, -⟩ := honly t' S' ht' hS'
    rfl
  | got32 => exact absurd rfl hgot
  | gotpc => exact absurd ht hgotpc
  | abs32 | pc32 | plt32 | gotoff =>
    refine ⟨_, rfl, hr.put hw he fun t' S' ht' hS' => ?_⟩
    obtain ⟨rfl, rfl⟩ := honly t' S' ht' hS'
    rfl

end

def upTo (i : UInt32) (j : ℕ) (e : Entry) : Prop := e.table.toNat < i.toNat ∨ e.table = i ∧ e.number.toNat < j

def HasMissing (header : UInt32) (map : SymbolMap) (m : Memory) (i : UInt32) : Prop :=
  ∃ j, Entry.IsIn header m ⟨i, j⟩ ∧ Entry.Missing header map m ⟨i, j⟩

lemma relocateSection_spec (hw : WellFormed header m) (hi : IsTable header m i)
    (hr : Relocated header got map (fun e => e.table.toNat < i.toNat) m s) :
    FailsIff (HasMissing header map m i) (Relocated header got map (fun e => e.table.toNat < i.toNat + 1) m)
      (relocateSection header got map (getSectionHeader header m i) s) := by
  have hisIn : ∀ j, j < sectionSize m (getSectionHeader header m i) / 8 → Entry.IsIn header m ⟨i, j⟩ :=
    fun j hj => ⟨hi, hj⟩
  have hstart : Relocated header got map (upTo i 0) m s := hr.congr fun e _ =>
    or_iff_left fun h => Nat.not_lt_zero _ h.2
  have hsize : ∀ j s', Relocated header got map (upTo i j) m s' →
      sectionSize s'.mem (getSectionHeader header m i) / 8 =
        sectionSize m (getSectionHeader header m i) / 8 := fun j s' h =>
    congrArg (· / 8) ((h.agrees hw).field_eq hi.lt (by decide))
  have hpass : ∀ j s', j < sectionSize m (getSectionHeader header m i) / 8 →
      Relocated header got map (upTo i j.toNat) m s' →
      FailsIff (Entry.Missing header map m ⟨i, j⟩) (Relocated header got map (upTo i (j.toNat + 1)) m)
        (relocateEntry header got map (getSectionHeader header m i)
          (load s'.mem (header + sectionOffset s.mem (getSectionHeader header m i) + j * 8))
          (load s'.mem (header + sectionOffset s.mem (getSectionHeader header m i) + j * 8 + 4)) s') := by
    intro j s' hj h
    have he := hisIn j hj
    have haddress : header + sectionOffset s.mem (getSectionHeader header m i) + j * 8 =
        address header m ⟨i, j⟩ := Agrees.address_eq (e := ⟨i, j⟩) (hr.agrees hw) he
    have hnew : ¬ upTo i j.toNat ⟨i, j⟩ := by simp [upTo]
    rw [haddress, (h.agrees hw).offset_eq he, (h.agrees hw).info_eq he]
    rcases h.relocateEntry_spec hw he hnew with ⟨hok, s'', hs'', hr''⟩ | hbad
    · refine .inl ⟨hok, s'', hs'', hr''.congr fun e _ => ?_⟩
      obtain ⟨a, b⟩ := e
      simp only [upTo, Entry.mk.injEq, Nat.lt_succ_iff_lt_or_eq, UInt32.toNat_inj]
      tauto
    · exact .inr hbad
  rcases forLoop_spec (fun j => Relocated header got map (upTo i j) m)
      (fun j => Entry.Missing header map m ⟨i, j⟩) hsize hpass hstart with
    ⟨hok, s', hs', hr'⟩ | ⟨⟨j, hj, hbad⟩, hfail⟩
  · refine .inl ⟨fun ⟨j, he, hmiss⟩ => hok ⟨j, he.number, hmiss⟩, s', hs', hr'.congr fun e he => ?_⟩
    simp only [Nat.lt_succ_iff_lt_or_eq, UInt32.toNat_inj]
    refine or_congr_right ⟨fun h => ⟨h, ?_⟩, fun h => h.1⟩
    subst h
    exact lt_iff_toNat_lt.mp he.number
  · exact .inr ⟨⟨j, hisIn j hj, hbad⟩, hfail⟩

lemma relocateAll_spec (hw : WellFormed header m) (hs : s.mem = m) :
    FailsIff (∃ e : Entry, e.IsIn header m ∧ e.Missing header map m)
      (Relocated header got map (fun _ => True) m) (relocateAll header got map s) := by
  have hstart : Relocated header got map (fun e => e.table.toNat < 0) m s :=
    ⟨fun e h => absurd h (Nat.not_lt_zero _), fun x _ => by rw [hs]⟩
  have hpass : ∀ i s', i < sectionHeaderTableEntries header m →
      Relocated header got map (fun e => e.table.toNat < i.toNat) m s' →
      FailsIff (HasMissing header map m i) (Relocated header got map (fun e => e.table.toNat < i.toNat + 1) m)
        (if sectionType s'.mem (getSectionHeader header s'.mem i) = rel then
          relocateSection header got map (getSectionHeader header s'.mem i) s' else some (0, s')) := by
    intro i s' hi hr
    have htype : sectionType s'.mem (getSectionHeader header m i) = _ :=
      (hr.agrees hw).field_eq hi (by decide)
    rw [(hr.agrees hw).getSectionHeader_eq, htype]
    split_ifs with hrel
    · exact hr.relocateSection_spec hw ⟨hi, hrel⟩
    · refine .inl ⟨fun ⟨j, he, _⟩ => hrel he.table.type, s', rfl, hr.congr fun e he => ?_⟩
      have hne : e.table.toNat ≠ i.toNat := fun h => hrel (UInt32.toNat_inj.mp h ▸ he.table.type)
      omega
  rcases forLoop_spec (fun k => Relocated header got map (fun e => e.table.toNat < k) m)
      (HasMissing header map m) (fun k s' h => (h.agrees hw).entries_eq) hpass hstart with
    ⟨hok, s', hs', hr⟩ | ⟨⟨i, hi, j, he, hmiss⟩, hfail⟩
  · refine .inl ⟨fun ⟨e, he, hmiss⟩ => hok ⟨e.table, he.table.lt, e.number, he, hmiss⟩, s', hs',
      hr.congr fun e he => ?_⟩
    exact iff_of_true trivial (lt_iff_toNat_lt.mp he.table.lt)
  · exact .inr ⟨⟨⟨i, j⟩, he, hmiss⟩, hfail⟩

end Relocated

lemma linkAsKernelModule_spec (hf : Fresh header s)
    (hb : Bound header s (sectionHeaderTableEntries header s.mem).toNat m) (hw : WellFormed header m) :
    FailsIff (∃ e : Entry, e.IsIn header m ∧ e.Missing header map m)
      (Relocated header got map (fun _ => True) m) (linkAsKernelModule header got map s) := by
  obtain ⟨s1, hs1, hb1⟩ := allocateAll_spec hf
  unfold linkAsKernelModule
  rw [hs1]
  exact Relocated.relocateAll_spec hw (hb1.unique hb)

/-- With all symbols there the linker returns 0, each word named by an entry is as its type says, and all
others are as in `m`; with a symbol missing it returns -1. -/
theorem module_relocated (got : UInt32) (map : SymbolMap) (hf : Fresh header s)
    (hb : Bound header s (sectionHeaderTableEntries header s.mem).toNat m) (hw : WellFormed header m) :
    ((∀ e : Entry, e.IsIn header m → ¬ e.Missing header map m) →
      ∃ s', linkAsKernelModule header got map s = some (0, s') ∧
        (∀ e : Entry, e.IsIn header m → ∀ t S, e.type header m = some t → (t = .gotpc ∨ e.Symbol header map m S) →
          load s'.mem (e.target header m) = t.word S (load m (e.target header m)) (e.target header m) got) ∧
        ∀ x, (∀ e : Entry, e.IsIn header m → ¬ InBytes (e.target header m) 4 x) → s'.mem x = m x) ∧
    ((∃ e : Entry, e.IsIn header m ∧ e.Missing header map m) →
      ∃ s', linkAsKernelModule header got map s = some (-1, s')) := by
  rcases linkAsKernelModule_spec hf hb hw with ⟨hnone, s', hs', hr⟩ | ⟨hmiss, hfail⟩
  · refine ⟨fun _ => ⟨s', hs', fun e he => hr.done e trivial he, fun x hx => ?_⟩, fun h => absurd h hnone⟩
    exact hr.same x fun e _ => hx e
  · obtain ⟨e, he, hmiss⟩ := hmiss
    exact ⟨fun h => absurd hmiss (h e he), fun _ => hfail⟩

/-- The place in a file that is loaded at `0x10000`. -/
lemma inFile (k n : ℕ) (h : InBytes (0x10000 + ofNat k) n x) (hk : k + n < 2 ^ 32) :
    k ≤ (x - 0x10000).toNat ∧ (x - 0x10000).toNat < k + n := by
  have hofNat : (ofNat k).toNat = k := toNat_ofNat_of_lt' (by rw [size]; omega)
  rwa [inBytes_add_iff (by omega), hofNat] at h

/-- The entries of a file with one table of two relocations. -/
lemma eq_of_two (htable : ∀ {k}, IsTable header m k → k = i)
    (hsize : sectionSize m (getSectionHeader header m i) / 8 = 2) (h : e.IsIn header m) :
    e = ⟨i, 0⟩ ∨ e = ⟨i, 1⟩ := by
  obtain ⟨k, j⟩ := e
  obtain rfl : k = i := htable h.table
  have hj : j.toNat < 2 := lt_iff_toNat_lt.mp (h.number.trans_eq hsize)
  simp only [Entry.mk.injEq, true_and, ← UInt32.toNat_inj]
  change j.toNat = 0 ∨ j.toNat = 1
  omega

/-- A file of a section with code, one with variables, and their tables. The first word of the code is the
address of a symbol of the kernel, the second is relative and leads to the variables. -/
def bssFile : List (UInt32 × UInt32) :=
  [(32, 52), (48, 6),
    -- `.bss`, `.text`, `.rel.text`, `.symtab` and `.strtab`
    (96, 8), (100, 3), (108, 0), (112, 4),
    (136, 1), (140, 6), (148, 292), (152, 8),
    (176, 9), (188, 300), (192, 16), (196, 4), (200, 2),
    (216, 2), (228, 316), (232, 48), (236, 5),
    (256, 3), (268, 364), (272, 4),
    -- the code, its relocations, two symbols and the name `ab`
    (292, 0x10), (296, 0xFFFFFFFC),
    (300, 0), (304, 0x101), (308, 4), (312, 0x202),
    (332, 1), (360, 0x10000),
    (364, 0x626100)]

def bssLoaded : Linker where
  mem x := UInt8.ofNat (((bssFile.lookup (x - 0x10000 - x % 4)).getD 0).toNat / 0x100 ^ (x % 4).toNat)
  areas := [0x20000]
  gotCount := 0
  gotIndex _ := 0

def abMap : SymbolMap := ⟨⟨1, 1, fun _ => [([97, 98], ⟨0x5000⟩)]⟩⟩

def bssBound : Memory := bindArea 0x10000 bssLoaded.mem (0x10000 + 92) 4 0x20000

lemma eq_of_lt_six (h : i < 6) : i = 0 ∨ i = 1 ∨ i = 2 ∨ i = 3 ∨ i = 4 ∨ i = 5 := by
  have hlt : i.toNat < 6 := lt_iff_toNat_lt.mp h
  simp only [← UInt32.toNat_inj]
  change i.toNat = 0 ∨ i.toNat = 1 ∨ i.toNat = 2 ∨ i.toNat = 3 ∨ i.toNat = 4 ∨ i.toNat = 5
  omega

lemma bssLoaded_allocated (h : Allocated 0x10000 bssLoaded.mem i) : i = 1 := by
  rcases eq_of_lt_six (h.lt.trans_eq (by decide)) with rfl | rfl | rfl | rfl | rfl | rfl
  · exact absurd h (by decide)
  · rfl
  all_goals exact absurd h (by decide)

lemma bssLoaded_fresh : Fresh 0x10000 bssLoaded := by
  refine ⟨fun x hx hin => ?_, fun i hi => ?_⟩
  · have := inFile 52 240 hin (by decide)
    unfold InBytes at hx
    omega
  obtain rfl := bssLoaded_allocated hi
  refine ⟨0x20000, by decide, fun x hx => ?_⟩
  have := inFile 0x10000 0x1000 hx (by decide)
  refine ⟨fun h => ?_, fun h => ?_⟩
  · unfold InBytes at h
    omega
  · have := inFile 52 240 h (by decide)
    omega

lemma bssLoaded_bound : Bound 0x10000 bssLoaded (sectionHeaderTableEntries 0x10000 bssLoaded.mem).toNat bssBound := by
  have hstart : Bound 0x10000 bssLoaded 0 bssLoaded.mem :=
    ⟨fun i a _ h => absurd h (Nat.not_lt_zero _), fun _ _ => rfl⟩
  have hfirst : Bound 0x10000 bssLoaded 1 bssLoaded.mem :=
    Bound.skip (i := 0) hstart fun h => absurd (bssLoaded_allocated h) (by decide)
  have hsecond : Bound 0x10000 bssLoaded 2 bssBound :=
    Bound.bind (i := 1) bssLoaded_fresh hfirst (by decide) (by decide)
  refine ⟨fun i a hi _ => hsecond.area i a hi ?_, fun x hx => hsecond.same x fun i a hi _ => hx i a hi ?_⟩
  · rw [bssLoaded_allocated hi]
    decide
  · rw [bssLoaded_allocated hi]
    decide

lemma bssBound_isTable (h : IsTable 0x10000 bssBound i) : i = 3 := by
  have htype := h.type
  rcases eq_of_lt_six (h.lt.trans_eq (by decide)) with rfl | rfl | rfl | rfl | rfl | rfl
  case inr.inr.inr.inl => rfl
  all_goals cases htype

lemma bssBound_isIn (h : e.IsIn 0x10000 bssBound) : e = ⟨3, 0⟩ ∨ e = ⟨3, 1⟩ :=
  eq_of_two bssBound_isTable (by decide) h

lemma bssBound_inTables (h : InTables 0x10000 bssBound x) :
    (x - 0x10000).toNat < 292 ∨ 300 ≤ (x - 0x10000).toNat := by
  rcases h with h | h | ⟨i, hi, h⟩ | ⟨i, hi, h⟩ | ⟨i, hi, h⟩
  · unfold InBytes at h
    omega
  · have := inFile 52 240 h (by decide)
    omega
  all_goals
    obtain rfl := bssBound_isTable hi
  · have := inFile 300 16 h (by decide)
    omega
  · have := inFile 316 48 h (by decide)
    omega
  · have := inFile 364 4 h (by decide)
    omega

lemma bssBound_target : (InBytes (target 0x10000 bssBound ⟨3, 0⟩) 4 x →
      292 ≤ (x - 0x10000).toNat ∧ (x - 0x10000).toNat < 296) ∧
    (InBytes (target 0x10000 bssBound ⟨3, 1⟩) 4 x → 296 ≤ (x - 0x10000).toNat ∧ (x - 0x10000).toNat < 300) :=
  ⟨fun h => inFile 292 4 h (by decide), fun h => inFile 296 4 h (by decide)⟩

lemma bssBound_wellFormed : WellFormed 0x10000 bssBound where
  info i hi := by
    obtain rfl := bssBound_isTable hi
    decide
  link i hi := by
    obtain rfl := bssBound_isTable hi
    decide
  names i hi := by
    obtain rfl := bssBound_isTable hi
    decide
  type e he := by
    rcases bssBound_isIn he with rfl | rfl
    · exact ⟨.abs32, by decide, by decide⟩
    · exact ⟨.pc32, by decide, by decide⟩
  nonzero e he := by rcases bssBound_isIn he with rfl | rfl <;> decide
  symbol e he := by rcases bssBound_isIn he with rfl | rfl <;> decide
  defined e he _ := by rcases bssBound_isIn he with rfl | rfl <;> decide
  undefined e he _ hzero := by
    rcases bssBound_isIn he with rfl | rfl
    · exact ⟨[97, 98], ⟨by decide, by decide, by decide, by decide, by decide⟩, by decide⟩
    · cases hzero
  apart e he x hx hin := by
    have hout := bssBound_inTables hin
    rcases bssBound_isIn he with rfl | rfl
    · have hx' := bssBound_target.1 hx
      omega
    · have hx' := bssBound_target.2 hx
      omega
  once e e' he he' hne x hx hx' := by
    rcases bssBound_isIn he with rfl | rfl <;> rcases bssBound_isIn he' with rfl | rfl
    · exact hne rfl
    · have := bssBound_target.1 hx
      have := bssBound_target.2 hx'
      omega
    · have := bssBound_target.2 hx
      have := bssBound_target.1 hx'
      omega
    · exact hne rfl

lemma bssBound_named : Entry.Named 0x10000 bssBound ⟨3, 0⟩ [97, 98] := ⟨by decide, by decide⟩

lemma bssBound_symbol : Entry.Symbol 0x10000 abMap bssBound ⟨3, 0⟩ 0x5000 ∧
    Entry.Symbol 0x10000 abMap bssBound ⟨3, 1⟩ 0x20000 :=
  ⟨.inl ⟨by decide, _, bssBound_named, by decide⟩, .inr ⟨by decide, by decide⟩⟩

lemma bssBound_isIn_iff (e : Entry) : e.IsIn 0x10000 bssBound ↔ e = ⟨3, 0⟩ ∨ e = ⟨3, 1⟩ := by
  refine ⟨bssBound_isIn, ?_⟩
  rintro (rfl | rfl) <;> exact ⟨⟨by decide, by decide⟩, by decide⟩

lemma bssBound_not_missing (e : Entry) (he : e.IsIn 0x10000 bssBound) : ¬ e.Missing 0x10000 abMap bssBound := by
  rcases bssBound_isIn he with rfl | rfl
  · exact bssBound_symbol.1.not_missing (bssBound_wellFormed.readable he)
  · exact bssBound_symbol.2.not_missing (bssBound_wellFormed.readable he)

/-- The code of the file gets the address of `ab`, and the distance to the variables. -/
theorem module_relocated_bss : ∃ s', linkAsKernelModule 0x10000 0x30000 abMap bssLoaded = some (0, s') ∧
    load s'.mem (0x10000 + 292) = 0x5000 + 0x10 ∧
    load s'.mem (0x10000 + 296) = 0x20000 + 0xFFFFFFFC - (0x10000 + 296) := by
  obtain ⟨s', hs', hwords, -⟩ := (module_relocated 0x30000 abMap bssLoaded_fresh
    bssLoaded_bound bssBound_wellFormed).1 bssBound_not_missing
  have h0 := hwords ⟨3, 0⟩ ((bssBound_isIn_iff _).mpr (.inl rfl)) .abs32 0x5000 (by decide) (.inr bssBound_symbol.1)
  have h1 := hwords ⟨3, 1⟩ ((bssBound_isIn_iff _).mpr (.inr rfl)) .pc32 0x20000 (by decide) (.inr bssBound_symbol.2)
  exact ⟨s', hs', h0.trans (by decide), h1.trans (by decide)⟩

/-- A word that no entry names and that changes: `section->offset` of the variables. -/
theorem nobits_offset_rewritten : Fresh 0x10000 bssLoaded ∧
    Bound 0x10000 bssLoaded (sectionHeaderTableEntries 0x10000 bssLoaded.mem).toNat bssBound ∧
    WellFormed 0x10000 bssBound ∧
    (∀ e : Entry, e.IsIn 0x10000 bssBound → ¬ e.Missing 0x10000 abMap bssBound) ∧
    ∃ s', linkAsKernelModule 0x10000 0x30000 abMap bssLoaded = some (0, s') ∧ (∀ e : Entry, e.IsIn 0x10000 bssBound →
        ∀ x, InBytes (0x10000 + 108) 4 x → ¬ InBytes (e.target 0x10000 bssBound) 4 x) ∧
      load bssLoaded.mem (0x10000 + 108) = 0 ∧ load s'.mem (0x10000 + 108) = 0x20000 - 0x10000 := by
  refine ⟨bssLoaded_fresh, bssLoaded_bound, bssBound_wellFormed, bssBound_not_missing, ?_⟩
  have hout : ∀ e : Entry, e.IsIn 0x10000 bssBound →
      ∀ x, InBytes (0x10000 + 108) 4 x → ¬ InBytes (e.target 0x10000 bssBound) 4 x := by
    intro e he x hx htarget
    have := inFile 108 4 hx (by decide)
    rcases bssBound_isIn he with rfl | rfl
    · have := bssBound_target.1 htarget
      omega
    · have := bssBound_target.2 htarget
      omega
  have hspec : FailsIff _ (Relocated 0x10000 0x30000 abMap (fun _ => True) bssBound) _ :=
    linkAsKernelModule_spec bssLoaded_fresh bssLoaded_bound bssBound_wellFormed
  rcases hspec with ⟨-, s', hs', hr⟩ | ⟨⟨e, he, hmiss⟩, -⟩
  · have hword : load s'.mem (0x10000 + 108) = load bssBound (0x10000 + 108) :=
      load_congr_inBytes fun x hx => hr.same x fun e _ he => hout e he x hx
    exact ⟨s', hs', hout, by decide, hword.trans (by decide)⟩
  · exact absurd hmiss (bssBound_not_missing e he)

end Relocate

end OlliOS.Elf
