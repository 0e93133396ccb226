import OlliOS.PageBytes
import OlliOS.Proofs.Mappings

/-!
# Bytes of private pages

A page that is bound for the user becomes private, and the private ones stay so with their bytes
(`Enters`).
-/

namespace OlliOS

open Option PageTableItem UserMode Machine

namespace PageTableItem

variable {v : PageTableItem} {k : ℕ}

lemma getLsbD_setByte {i : ℕ} (hi : i < 32) (b : UInt8) : (v.setByte k b).getLsbD i =
    if 8 * k ≤ i ∧ i < 8 * k + 8 then b.toBitVec.getLsbD (i - 8 * k) else v.getLsbD i := by
  unfold setByte
  rw [BitVec.getLsbD_or, BitVec.getLsbD_and, BitVec.getLsbD_not, BitVec.getLsbD_shiftLeft,
    BitVec.getLsbD_shiftLeft, BitVec.getLsbD_setWidth, BitVec.getLsbD_setWidth,
    BitVec.getLsbD_allOnes]
  by_cases h : 8 * k ≤ i ∧ i < 8 * k + 8
  · have h1 : ¬ i < 8 * k := by omega
    have h2 : i - 8 * k < 8 := by omega
    have h3 : i - 8 * k < 32 := by omega
    simp [h, hi, h1, h2, h3]
  · have h1 : i < 8 * k ∨ ¬ i - 8 * k < 8 := by omega
    have h2 : 8 ≤ i - 8 * k → b.toBitVec.getLsbD (i - 8 * k) = false := fun h =>
      BitVec.getLsbD_of_ge _ _ h
    rw [if_neg h]
    rcases h1 with h1 | h1
    · simp [hi, h1]
    · simp [hi, h1, h2 (by omega)]

lemma byte_setByte (hk : k < 4) (b : UInt8) : (v.setByte k b).byte k = b := by
  unfold byte
  rw [← UInt8.toBitVec_inj]
  refine BitVec.eq_of_getLsbD_eq fun i hi => ?_
  rw [UInt8.toBitVec_ofBitVec, BitVec.getLsbD_extractLsb', getLsbD_setByte (by omega),
    if_pos ⟨by omega, by omega⟩, Nat.add_sub_cancel_left]
  simp [hi]

lemma byte_setByte_of_ne {j : ℕ} (hj : j < 4) (hjk : j ≠ k) (b : UInt8) :
    (v.setByte k b).byte j = v.byte j := by
  unfold byte
  rw [← UInt8.toBitVec_inj]
  refine BitVec.eq_of_getLsbD_eq fun i hi => ?_
  rw [UInt8.toBitVec_ofBitVec, UInt8.toBitVec_ofBitVec, BitVec.getLsbD_extractLsb',
    BitVec.getLsbD_extractLsb', getLsbD_setByte (by omega), if_neg (by omega)]

lemma getFlag_user : v.getFlag user = v.getLsbD 2 := by
  have h : user = BitVec.twoPow 32 2 := by decide
  unfold getFlag
  rw [h, BitVec.and_twoPow]
  cases hb : v.getLsbD 2
  · decide
  · simp

lemma user_enableFlag : (v.enableFlag UserMode.user.flags).getFlag user = true := by
  have h : UserMode.user.flags.getLsbD 2 = true := by decide
  rw [getFlag_user, enableFlag, BitVec.getLsbD_or, h, Bool.or_true]

end PageTableItem

variable {U : ℕ → Prop} {s s1 s' s'' : Machine} {i t f x page q : ℕ} {e v : PageTableItem}

/-! ## Pages of the user -/

lemma userPage_iff : UserPage s s.cr3 q ↔
    ∃ e v, s.mapping q = some (e, v) ∧ e.getFlag user = true ∧ v.getFlag user = true := by
  constructor
  · rintro ⟨t, f, ht, he, hf, hv⟩
    exact ⟨_, _, (mapping_of_table ht).trans (if_pos (tableFrame_eq_some.1 hf).1), he, hv⟩
  rintro ⟨e, v, hmap, he, hv⟩
  rcases ht : tableFrame s.mem s.cr3 (q / 1024) with _ | t
  · rw [mapping_of_none ht] at hmap
    cases hmap
  · rw [mapping_of_table ht, ite_none_right_eq_some] at hmap
    obtain ⟨hp, heq⟩ := hmap
    cases heq
    exact ⟨t, _, ht, he, tableFrame_eq_some.2 ⟨hp, rfl⟩, hv⟩

lemma userPage_congr (h : s'.mapping q = s.mapping q) :
    UserPage s' s'.cr3 q ↔ UserPage s s.cr3 q := by
  rw [userPage_iff, userPage_iff, h]

lemma not_userPage (h : s.mapping q = none) : ¬ UserPage s s.cr3 q := by
  rw [userPage_iff, h]
  rintro ⟨e, v, hno, -⟩
  cases hno

/-- Whether a page whose word is for the user is a page of the user depends on the word of its slot. -/
lemma userPage_of_mapping (h : s.mapping q = some (e, v)) (hv : v.getFlag user = true) :
    UserPage s s.cr3 q ↔ e.getFlag user = true := by
  rw [userPage_iff, h]
  constructor
  · rintro ⟨e', v', heq, he, -⟩
    obtain ⟨rfl, -⟩ := Prod.mk.inj (some.inj heq)
    exact he
  · exact fun he => ⟨e, v, rfl, he, hv⟩

lemma slotUser_congr (hcr3 : s'.cr3 = s.cr3) (hword : s'.mem s.cr3 i = s.mem s.cr3 i) :
    s'.SlotUser i ↔ s.SlotUser i := by
  rw [SlotUser, SlotUser, hcr3, hword, tableFrame_congr hword]

lemma slotUser_of_table (ht : tableFrame s.mem s.cr3 i = some t) :
    s.SlotUser i ↔ (s.mem s.cr3 i).getFlag user = true := by
  rw [SlotUser, ht]
  exact or_iff_right (some_ne_none t)

lemma PageTree.slotUser_prepared (h : PageTree U s) (hi : i < 1023)
    (hs : (if (s.mem s.cr3 i).getFlag present then some s else s.allocateEntry i .user) = some s1)
    (j : ℕ) : s1.SlotUser j ↔ s.SlotUser j := by
  rcases h.prepare_cases hi hs with ⟨-, rfl⟩ | ⟨hnone, f, hf, -, rfl⟩
  · rfl
  rcases eq_or_ne j i with rfl | hne
  · refine iff_of_true (.inr ?_) (.inl hnone)
    change ((s.attach _ _ _ _ _).mem s.cr3 j).getFlag user = true
    rw [attach_item (h.ne_directory hf)]
    exact user_enableFlag
  · exact slotUser_congr rfl (attach_of_ne (h.ne_directory hf) (.inr hne))

/-! ## Writing bytes -/

/-- The frame of the page is in use and no table, and no other page of the slots `U` leads to it. -/
structure Private (U : ℕ → Prop) (s : Machine) (page f : ℕ) : Prop where
  slot : U (page / 1024)
  frame : s.translate page = some f
  used : ¬ s.bitmap.Free f
  ordinary : s.Ordinary f
  only : ∀ q, U (q / 1024) → s.translate q = some f → q = page

/-- The two states map the same pages to the same frames. -/
structure SameMap (s s' : Machine) : Prop where
  cr3 : s'.cr3 = s.cr3
  bitmap : s'.bitmap = s.bitmap
  dir : s'.mem s.cr3 = s.mem s.cr3
  mapping : ∀ q < window, s'.mapping q = s.mapping q

lemma AddressSpace.lt_window (h : AddressSpace U s) (hq : U (q / 1024)) : q < window := by
  have := h.low _ hq
  unfold window
  omega

namespace SameMap

lemma refl (s : Machine) : SameMap s s := ⟨rfl, rfl, rfl, fun _ _ => rfl⟩

lemma poke (h : s.Ordinary f) (w : ℕ) (v : PageTableItem) : SameMap s (s.poke f w v) := by
  have hdir : (s.poke f w v).mem s.cr3 = s.mem s.cr3 := poke_frame_of_ne h.1.symm
  refine ⟨rfl, rfl, hdir, fun q hq => mapping_congr rfl (congrFun hdir _) fun t ht => ?_⟩
  exact poke_of_ne (.inl fun heq => h.2 _ (slot_lt hq) (heq ▸ ht))

variable (h : SameMap s s')

include h

lemma trans (h' : SameMap s' s'') : SameMap s s'' where
  cr3 := h'.cr3.trans h.cr3
  bitmap := h'.bitmap.trans h.bitmap
  dir := by rw [← h.dir, ← h.cr3, h'.dir]
  mapping q hq := (h'.mapping q hq).trans (h.mapping q hq)

lemma addressSpace (hs : AddressSpace U s) : AddressSpace U s' where
  toPageTree := hs.toPageTree.congr h.cr3 h.dir fun g hg => .inl (h.bitmap ▸ hg)
  low := hs.low
  page q hq f hf := by
    rw [h.bitmap]
    exact hs.page q hq f ((translate_congr (h.mapping q (hs.lt_window hq))).symm.trans hf)

lemma of_private (hs : AddressSpace U s) (hf : Private U s page f) : Private U s' page f where
  slot := hf.slot
  frame := (translate_congr (h.mapping page (hs.lt_window hf.slot))).trans hf.frame
  used := h.bitmap.symm ▸ hf.used
  ordinary := hf.ordinary.congr h.cr3 h.dir
  only q hq hqf := hf.only q hq ((translate_congr (h.mapping q (hs.lt_window hq))).symm.trans hqf)

end SameMap

namespace Machine

/-- A byte written to a private page shows on no other byte of the slots. -/
lemma writeByte_spec (h : AddressSpace U s) (hp : Private U s (x / 0x1000) f) (b : UInt8) :
    ∃ s', s.writeByte x b = some s' ∧ SameMap s s' ∧ s'.readByte x = some b ∧
      ∀ y, U (y / 0x1000 / 1024) → y ≠ x → s'.readByte y = s.readByte y := by
  set v := (s.mem f (x % 0x1000 / 4)).setByte (x % 4) b with hv
  have hsame := SameMap.poke hp.ordinary (x % 0x1000 / 4) v
  have htrans : ∀ q, U (q / 1024) → (s.poke f (x % 0x1000 / 4) v).translate q = s.translate q :=
    fun q hq => translate_congr (hsame.mapping q (h.lt_window hq))
  refine ⟨s.poke f (x % 0x1000 / 4) v, modify_eq hp.frame _, hsame, ?_, fun y hy hyx => ?_⟩
  · rw [readByte, read, htrans _ hp.slot, hp.frame, map_some, map_some, poke_self, hv,
      byte_setByte (by omega)]
  unfold readByte read
  rw [htrans _ hy]
  rcases hg : s.translate (y / 0x1000) with _ | g
  · rfl
  simp only [map_some]
  by_cases hword : g ≠ f ∨ y % 0x1000 / 4 ≠ x % 0x1000 / 4
  · rw [poke_of_ne hword]
  · obtain ⟨rfl, hw⟩ : g = f ∧ y % 0x1000 / 4 = x % 0x1000 / 4 := by
      rwa [not_or, not_not, not_not] at hword
    have hpage : y / 0x1000 = x / 0x1000 := hp.only _ hy hg
    rw [hw, poke_self, hv, byte_setByte_of_ne (by omega) (by omega)]

lemma writeBytes_spec (h : AddressSpace U s) (bytes : ℕ → UInt8) : ∀ n : ℕ,
    (∀ i < n, ∃ f, Private U s ((x + i) / 0x1000) f) →
    ∃ s', s.writeBytes x bytes n = some s' ∧ SameMap s s' ∧
      (∀ i < n, s'.readByte (x + i) = some (bytes i)) ∧
      ∀ y, U (y / 0x1000 / 1024) → y < x ∨ x + n ≤ y → s'.readByte y = s.readByte y
  | 0, _ => ⟨s, rfl, .refl s, fun i hi => absurd hi (Nat.not_lt_zero i), fun _ _ _ => rfl⟩
  | n + 1, hp => by
    obtain ⟨s1, h₁, hsame1, hread1, hold1⟩ := writeBytes_spec h bytes n fun i hi => hp i (by omega)
    obtain ⟨f, hf⟩ := hp n (by omega)
    obtain ⟨s', h', hsame, hread, hold⟩ := writeByte_spec (hsame1.addressSpace h)
      (hsame1.of_private h hf) (bytes n)
    refine ⟨s', ?_, hsame1.trans hsame, fun i hi => ?_, fun y hy hout => ?_⟩
    · rwa [writeBytes, h₁]
    · rcases eq_or_ne i n with rfl | hne
      · exact hread
      · obtain ⟨g, hg⟩ := hp i hi
        rw [hold (x + i) hg.slot (by omega), hread1 i (by omega)]
    · rw [hold y hy (by omega), hold1 y hy (by omega)]

/-- The bytes before the absent page are written, and then the write faults. -/
lemma writeBytes_eq_none {j n : ℕ} (h : AddressSpace U s) (bytes : ℕ → UInt8) (hjn : j < n)
    (hp : ∀ i < j, ∃ f, Private U s ((x + i) / 0x1000) f) (hU : U ((x + j) / 0x1000 / 1024))
    (hj : s.mapping ((x + j) / 0x1000) = none) : s.writeBytes x bytes n = none := by
  induction n with
  | zero => exact absurd hjn (Nat.not_lt_zero j)
  | succ n ih =>
    rcases eq_or_ne j n with rfl | hne
    · obtain ⟨s', hs', hsame, -⟩ := writeBytes_spec h bytes j hp
      have htrans : s'.translate ((x + j) / 0x1000) = none :=
        mapping_eq_none_iff.1 ((hsame.mapping _ (h.lt_window hU)).trans hj)
      rw [writeBytes, hs']
      simp [writeByte, modify, read, htrans]
    · rw [writeBytes, ih (by omega)]
      rfl

end Machine

/-! ## Binding pages -/

/-- The page has been entered into the table of its slot, with a frame that was free, and at most one
more frame has become a table. -/
structure Enters (U : ℕ → Prop) (s s' : Machine) (page : ℕ) : Prop where
  space : AddressSpace U s'
  only : ChangesOnly U s s' page
  free : ∀ g, s'.bitmap.Free g → s.bitmap.Free g
  slots : ∀ i, s'.SlotUser i ↔ s.SlotUser i
  fresh : ∃ f, s.bitmap.Free f ∧ Private U s' page f
  user : UserPage s' s'.cr3 page ↔ s.SlotUser (page / 1024)
  count : s.bitmap.freeCount ≤ s'.bitmap.freeCount + 2

namespace Enters

variable (h : Enters U s s' page) (hs : AddressSpace U s) (hne : q ≠ page) (hq : Private U s q f)

include h hs hne hq

lemma of_private : Private U s' q f ∧ s'.mem f = s.mem f := by
  obtain ⟨hmem, hord⟩ := h.only.frames f hq.used hq.ordinary
  refine ⟨⟨hq.slot, ?_, fun hfr => hq.used (h.free f hfr), hord, fun r hr hrf => ?_⟩, hmem⟩
  · exact (translate_congr (h.only.others q (hs.lt_window hq.slot) hne)).trans hq.frame
  · rcases eq_or_ne r page with rfl | hrne
    · obtain ⟨g, hg, hnew⟩ := h.fresh
      cases hnew.frame.symm.trans hrf
      exact absurd hg hq.used
    · exact hq.only r hr ((translate_congr (h.only.others r (hs.lt_window hr) hrne)).symm.trans hrf)

lemma readByte_eq {y : ℕ} (hy : y / 0x1000 = q) : s'.readByte y = s.readByte y := by
  obtain ⟨hq', hmem⟩ := h.of_private hs hne hq
  unfold Machine.readByte Machine.read
  rw [hy, hq.frame, hq'.frame, map_some, map_some, hmem]
  rfl

end Enters

namespace Machine

lemma freeCount_of_allocate (h : s.allocate = none) : s.bitmap.freeCount = 0 := by
  by_contra hpos
  obtain ⟨f, s', ha⟩ := exists_allocate (Nat.pos_of_ne_zero hpos)
  cases ha.symm.trans h

lemma bindVirtualPageAt_eq (h : s.SelfMapped) (x : ℕ) (mode : UserMode) :
    s.bindVirtualPageAt x mode = (if (s.mem s.cr3 (x / 0x1000 / 1024)).getFlag present then some s
      else s.allocateEntry (x / 0x1000 / 1024) mode).bind (·.bindPageAt x mode) := by
  rw [show x / 0x1000 / 1024 = x / 0x400000 by omega]
  simp only [bindVirtualPageAt, read_entry h, bind_eq_bind, bind_some]
  split_ifs <;> rfl

end Machine

/-- The frame is entered with the bytes it has, and then the memory from the address on is cleared. -/
lemma PageTree.bindPageAt_cases (h : PageTree U s) (hx : x / 0x1000 < window)
    (ht : tableFrame s.mem s.cr3 (x / 0x1000 / 1024) = some t) (hnone : s.mapping (x / 0x1000) = none) :
    s.bindPageAt x .user = none ∧ s.bitmap.freeCount = 0 ∨
      ∃ f content, s.bitmap.Free f ∧ f < 2 ^ 20 ∧
        s.bitmap.freeCount = (s.bitmap.mark f).freeCount + 1 ∧
        s.bindPageAt x .user = (s.attach t (x / 0x1000 % 1024)
          (((s.mem t (x / 0x1000 % 1024)).setAddress (ofFrame f)).enableFlag user.flags) f
            content).memset x 0 0x1000 := by
  have hslot := slot_lt hx
  rw [mapping_of_table ht, ite_eq_right_iff] at hnone
  have habsent : ¬ (s.mem t (x / 0x1000 % 1024)).getFlag present = true :=
    fun hp => some_ne_none _ (hnone hp)
  unfold bindPageAt
  rw [show x / 0x400000 = x / 0x1000 / 1024 by omega,
    show x % 0x400000 / 0x1000 = x / 0x1000 % 1024 by omega]
  simp only [read_table h.self (by omega : x / 0x1000 / 1024 < 1024) ht, bind_eq_bind, bind_some,
    if_neg habsent]
  rcases ha : s.allocate with _ | ⟨f, s'⟩
  · exact .inl ⟨rfl, freeCount_of_allocate ha⟩
  obtain ⟨hfree, hlt, rfl, hcount⟩ := allocate_eq_some ha
  set k := x / 0x1000 % 1024
  set item := ((s.mem t k).setAddress (ofFrame f)).enableFlag user.flags
  have hself : ({ s with bitmap := s.bitmap.mark f } : Machine).SelfMapped := h.self
  have hmodify := modify_table (k := k) hself (by omega) ht (h.table _ hslot t ht)
    (·.setAddress (ofFrame f)) (·.enableFlag user.flags) fun s => s.memset x 0 0x1000
  have hentered : Machine.poke { s with bitmap := s.bitmap.mark f } t k item =
      s.attach t k item f ((s.poke t k item).mem f) := by
    simp [Machine.attach, Machine.poke]
  exact .inr ⟨f, _, hfree, hlt, hcount,
    hmodify.trans (congrArg (·.memset x 0 0x1000) hentered)⟩

namespace AddressSpace

variable (h : AddressSpace U s)

include h

lemma of_prepared (hprep : Prepared U s s1 i) : AddressSpace U s1 where
  toPageTree := hprep.tree
  low := h.low
  page q hq f hf hfr := h.page q hq f
    ((translate_congr (hprep.mapping q (h.lt_window hq))).symm.trans hf) (hprep.free f hfr)

lemma count_prepared (hi : i < 1023)
    (hs : (if (s.mem s.cr3 i).getFlag present then some s else s.allocateEntry i .user) = some s1) :
    s.bitmap.freeCount ≤ s1.bitmap.freeCount + 1 := by
  rcases Nat.eq_zero_or_pos s.bitmap.freeCount with hzero | hpos
  · omega
  · obtain ⟨s2, hs2, hcount⟩ := h.exists_prepared hi .user hpos
    cases hs.symm.trans hs2
    exact hcount

/-- The state after a frame is entered as an absent page of a slot that has a table. -/
lemma enters_attach (hU : U (page / 1024)) (ht : tableFrame s.mem s.cr3 (page / 1024) = some t)
    (hf : s.bitmap.Free f) (hlt : f < 2 ^ 20)
    (hcount : s.bitmap.freeCount = (s.bitmap.mark f).freeCount + 1)
    (content : Page) : Enters U s (s.attach t (page % 1024)
      (((s.mem t (page % 1024)).setAddress (ofFrame f)).enableFlag user.flags) f content) page := by
  set v := ((s.mem t (page % 1024)).setAddress (ofFrame f)).enableFlag user.flags with hv
  have hpresent : v.getFlag present = true := present_enableFlag user.flags_present
  have hpage := h.lt_window hU
  have honly := h.changesOnly_attach (v := v) hpage hU ht hf content
  have hmap := h.mapping_attach hpage hf ht hpresent content
  have htrans : (s.attach t (page % 1024) v f content).translate page = some f := by
    rw [translate_eq_mapping, hmap, map_some, hv, frame_enableFlag user.flags_low,
      frame_setAddress hlt]
  have hdir : (s.attach t (page % 1024) v f content).mem s.cr3 = s.mem s.cr3 :=
    attach_frame_of_ne (h.ne_directory hf) (h.table _ (slot_lt hpage) t ht).symm
  have hord : s.Ordinary f :=
    ⟨(h.ne_directory hf).symm, fun i hi hif => h.ne_table hi hif hf rfl⟩
  -- no other page of the slots had the frame, since these are in use
  have hother : ∀ q, U (q / 1024) → q ≠ page → ∀ g,
      (s.attach t (page % 1024) v f content).translate q = some g → s.translate q = some g :=
    fun q hq hne g hg => (translate_congr (honly.others q (h.lt_window hq) hne)).symm.trans hg
  refine ⟨⟨honly.tree, h.low, fun q hq g hg hfr => ?_⟩, honly, fun g hg => (attach_free.1 hg).2,
    fun i => slotUser_congr rfl (congrFun hdir i), ⟨f, hf, hU, htrans,
      fun hfr => (attach_free.1 hfr).1 rfl, hord.congr rfl hdir, fun q hq hqf => ?_⟩,
    (userPage_of_mapping hmap user_enableFlag).trans (slotUser_of_table ht).symm, by
      rw [hcount]
      exact Nat.le_succ_of_le le_rfl⟩
  · obtain ⟨hgf, hfr⟩ := attach_free.1 hfr
    rcases eq_or_ne q page with rfl | hne
    · exact hgf (some.inj (hg.symm.trans htrans))
    · exact h.page q hq g (hother q hq hne g hg) hfr
  · by_contra hne
    exact h.page q hq f (hother q hq hne f hqf) hf

lemma bindVirtualPageAt_cases (hU : U (x / 0x1000 / 1024)) (hnone : s.mapping (x / 0x1000) = none) :
    s.bindVirtualPageAt x .user = none ∧ s.bitmap.freeCount < 2 ∨
      ∃ s1, s.bindVirtualPageAt x .user = s1.memset x 0 0x1000 ∧ Enters U s s1 (x / 0x1000) := by
  have hpage := h.lt_window hU
  have hslot := slot_lt hpage
  rw [bindVirtualPageAt_eq h.self]
  rcases hs1 : (if (s.mem s.cr3 (x / 0x1000 / 1024)).getFlag present then some s
    else s.allocateEntry (x / 0x1000 / 1024) .user) with _ | s1
  · refine .inl ⟨rfl, ?_⟩
    by_contra hcount
    obtain ⟨s1, hs, -⟩ := h.exists_prepared hslot .user (by omega)
    cases hs1.symm.trans hs
  · have hprep := h.prepared hslot hs1
    have hcount1 := h.count_prepared hslot hs1
    obtain ⟨t, ht⟩ := hprep.table
    rcases hprep.tree.bindPageAt_cases hpage ht ((hprep.mapping _ hpage).trans hnone) with
      ⟨hno, hzero⟩ | ⟨f, content, hf, hlt, hcount, hbind⟩
    · exact .inl ⟨hno, by omega⟩
    have henters := (h.of_prepared hprep).enters_attach hU ht hf hlt hcount content
    have hslots := h.slotUser_prepared hslot hs1
    obtain ⟨g, hg, hnew⟩ := henters.fresh
    exact .inr ⟨_, hbind, henters.space, hprep.changesOnly henters.only,
      fun g hg => hprep.free g (henters.free g hg), fun i => (henters.slots i).trans (hslots i),
      ⟨g, hprep.free g hg, hnew⟩, henters.user.trans (hslots _), by
        change _ ≤ (s1.bitmap.mark f).freeCount + 2
        omega⟩

lemma bindVirtualPageAt_of_some (hU : U (x / 0x1000 / 1024)) (hg : s.translate (x / 0x1000) = some f)
    (mode : UserMode) : s.bindVirtualPageAt x mode = some s := by
  have hslot := slot_lt (h.lt_window hU)
  obtain ⟨t, ht, hk⟩ := pageFrame_eq_some.1 hg
  rw [bindVirtualPageAt_eq h.self, if_pos (tableFrame_eq_some.1 ht).1, bind_some, bindPageAt,
    show x / 0x400000 = x / 0x1000 / 1024 by omega,
    show x % 0x400000 / 0x1000 = x / 0x1000 % 1024 by omega]
  simp only [read_table h.self (by omega : x / 0x1000 / 1024 < 1024) ht, bind_eq_bind, bind_some,
    (tableFrame_eq_some.1 hk).1]
  rfl

end AddressSpace

end OlliOS
