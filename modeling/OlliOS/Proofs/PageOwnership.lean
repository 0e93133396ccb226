import OlliOS.PageOwnership
import OlliOS.Proofs.Paging

/-!
# Which frames a page directory gives back

The frames that the items with `PFLAG_OWNED` lead to were handed out for the directory, each for one
item (`DirOwns`). `freeEntry` does not look at the flag.
-/

namespace OlliOS

open Function Stepping List Machine PageTableItem
open Option hiding or_assoc

namespace PageTableItem

variable {v a : PageTableItem} {physical : BitVec 32}

lemma getFlag_owned : v.getFlag owned = v.getLsbD 9 := by
  have h : owned = BitVec.twoPow 32 9 := by decide
  unfold getFlag
  rw [h, BitVec.and_twoPow]
  cases hb : v.getLsbD 9
  · decide
  · simp

lemma owned_enableFlag (ha : a.getLsbD 9 = true) : (v.enableFlag a).getFlag owned = true := by
  rw [getFlag_owned, enableFlag, BitVec.getLsbD_or, ha, Bool.or_true]

lemma not_owned_map (hv : v.getFlag owned = false) (hp : physical &&& 0xFFF#32 = 0) (ha : a.getLsbD 9 = false) :
    ((v.setAddress physical).enableFlag a).getFlag owned = false := by
  have hp9 : physical.getLsbD 9 = false := by
    have h := congrArg (fun x : BitVec 32 => x.getLsbD 9) hp
    simpa using h
  rw [getFlag_owned] at hv
  rw [getFlag_owned, enableFlag, setAddress]
  simp only [BitVec.getLsbD_or, BitVec.getLsbD_and, hv, hp9, ha, Bool.false_and, Bool.or_false]

lemma frame_map (ha : a >>> 12 = 0#32) : ((v.setAddress physical).enableFlag a).frame = frameOf physical := by
  have hmask : (~~~ 0xFFFFF000#32) >>> 12 = 0#32 := by decide
  rw [frame_enableFlag ha, frameOf, frame_eq, frame_eq, setAddress, BitVec.ushiftRight_or_distrib,
    BitVec.ushiftRight_and_distrib, hmask, BitVec.and_zero, BitVec.zero_or]

end PageTableItem

lemma UserMode.flags_owned (mode : UserMode) : mode.flags.getLsbD 9 = true := by cases mode <;> decide

lemma UserMode.mapFlags_present (mode : UserMode) : mode.mapFlags.getLsbD 0 = true := by
  cases mode <;> decide

lemma UserMode.mapFlags_low (mode : UserMode) : mode.mapFlags >>> 12 = 0#32 := by cases mode <;> decide

lemma UserMode.mapFlags_owned (mode : UserMode) : mode.mapFlags.getLsbD 9 = false := by
  cases mode <;> decide

lemma Machine.free_release {m : Machine} {v : PageTableItem} {f : ℕ} :
    (m.release v).bitmap.Free f ↔ f = v.frame ∨ m.bitmap.Free f := by
  have hindex : ((UInt32.ofBitVec v.getAddress) / 0x1000).toNat = v.frame := by
    rw [UInt32.toNat_div, frame, BitVec.toNat_ushiftRight, Nat.shiftRight_eq_div_pow]
    rfl
  unfold release Bitmap.freePhysicalMemory
  rw [hindex]
  exact Bitmap.free_clear

def OwnedItem (mem : ℕ → Page) (t k f : ℕ) : Prop :=
  tableFrame mem t k = some f ∧ (mem t k).getFlag owned = true

/-- The table of a slot, or the page `k` of it, is owned and is the frame. -/
def OwnedAt (mem : ℕ → Page) (d : ℕ) : ℕ × Option ℕ → ℕ → Prop
  | (i, none), f => i < 1023 ∧ OwnedItem mem d i f
  | (i, some k), f => i < 1023 ∧ k < 1024 ∧ ∃ t, tableFrame mem d i = some t ∧ OwnedItem mem t k f

/-- An item that is owned is present, and one that is present and not owned was borrowed. -/
def ItemOk (borrowed : ℕ → Bool) (v : PageTableItem) : Prop :=
  (v.getFlag owned = true → v.getFlag present = true) ∧ (v.getFlag present = true →
      v.getFlag owned = true ∨ borrowed v.frame = true)

def SlotOk (mem : ℕ → Page) (d : ℕ) (borrowed : ℕ → Bool) (i : ℕ) : Prop :=
  ∀ t, tableFrame mem d i = some t → (mem d i).getFlag owned = true ∧ ∀ k < 1024, ItemOk borrowed (mem t k)

structure DirOwns (m : Machine) (handed borrowed : ℕ → Bool) : Prop where
  self : m.SelfMapped
  lent : (m.mem m.cr3 1023).getFlag owned = false
  used : ¬ m.bitmap.Free m.cr3
  own : handed m.cr3 = false ∧ borrowed m.cr3 = false
  slot : ∀ i < 1023, SlotOk m.mem m.cr3 borrowed i
  owned : ∀ l f, OwnedAt m.mem m.cr3 l f → handed f = true
  inj : ∀ l l' f, OwnedAt m.mem m.cr3 l f → OwnedAt m.mem m.cr3 l' f → l = l'
  handed : ∀ f, handed f = true → ¬ m.bitmap.Free f ∧ borrowed f = false
  borrowed : ∀ f, borrowed f = true → ¬ m.bitmap.Free f

section Congr

variable {mem mem' : ℕ → Page} {d i f : ℕ} {b : ℕ → Bool} {l : ℕ × Option ℕ}

lemma ownedAt_congr (hd : mem' d l.1 = mem d l.1)
    (ht : ∀ t, tableFrame mem d l.1 = some t → ∀ k ∈ l.2, mem' t k = mem t k) :
    OwnedAt mem' d l f ↔ OwnedAt mem d l f := by
  have item : ∀ {t k : ℕ}, mem' t k = mem t k → (OwnedItem mem' t k f ↔ OwnedItem mem t k f) := by
    intro t k h
    unfold OwnedItem
    rw [tableFrame_congr h, h]
  obtain ⟨i, _ | k⟩ := l
  · exact and_congr_right fun _ => item hd
  · refine and_congr_right fun _ => and_congr_right fun _ => exists_congr fun t => ?_
    rw [tableFrame_congr hd]
    exact and_congr_right fun htab => item (ht t htab k rfl)

lemma SlotOk.congr (h : SlotOk mem d b i) (hd : mem' d i = mem d i)
    (ht : ∀ t, tableFrame mem d i = some t → mem' t = mem t) : SlotOk mem' d b i := by
  intro t htab
  rw [tableFrame_congr hd] at htab
  obtain ⟨howned, hitems⟩ := h t htab
  rw [hd, ht t htab]
  exact ⟨howned, hitems⟩

lemma OwnedAt.lt (h : OwnedAt mem d l f) : l.1 < 1023 := by
  obtain ⟨i, _ | k⟩ := l
  · exact h.1
  · exact h.1

end Congr

namespace DirOwns

variable {m m' : Machine} {hd b : ℕ → Bool} {i k t f : ℕ}

section

variable (h : DirOwns m hd b) {l : ℕ × Option ℕ} {hd' b' : ℕ → Bool} {mem : ℕ → Page}

include h

lemma ownedAt_table (hi : i < 1023) (ht : tableFrame m.mem m.cr3 i = some t) : OwnedAt m.mem m.cr3 (i, none) t :=
  ⟨hi, ht, (h.slot i hi t ht).1⟩

lemma table_handed (hi : i < 1023) (ht : tableFrame m.mem m.cr3 i = some t) : hd t = true :=
  h.owned _ _ (h.ownedAt_table hi ht)

lemma table_ne (hi : i < 1023) (ht : tableFrame m.mem m.cr3 i = some t) : t ≠ m.cr3 := by
  intro heq
  have hh := h.table_handed hi ht
  rw [heq, h.own.1] at hh
  cases hh

lemma table_inj {j : ℕ} (hi : i < 1023) (hj : j < 1023)
    (ht : tableFrame m.mem m.cr3 i = some t) (ht' : tableFrame m.mem m.cr3 j = some t) : i = j :=
  congrArg Prod.fst (h.inj _ _ _ (h.ownedAt_table hi ht) (h.ownedAt_table hj ht'))

lemma ne_of_free (hf : m.bitmap.Free f) : m.cr3 ≠ f ∧ hd f = false ∧ b f = false := by
  refine ⟨fun heq => h.used (heq ▸ hf), ?_, ?_⟩
  · by_contra hno
    exact (h.handed f (by simpa using hno)).1 hf
  · by_contra hno
    exact h.borrowed f (by simpa using hno) hf

lemma table_ne_of_free (hf : m.bitmap.Free f) (hi : i < 1023) (ht : tableFrame m.mem m.cr3 i = some t) : t ≠ f := by
  intro heq
  exact (h.handed t (h.table_handed hi ht)).1 (heq ▸ hf)

lemma lt_of_owned (hi : i < 1024) (ho : (m.mem m.cr3 i).getFlag PageTableItem.owned = true) : i < 1023 := by
  have hne : i ≠ 1023 := by
    rintro rfl
    simp [h.lent] at ho
  omega

lemma of_places (hcr3 : m'.cr3 = m.cr3)
    (hown : hd' m.cr3 = false ∧ b' m.cr3 = false) (hdir : m'.mem m.cr3 1023 = m.mem m.cr3 1023)
    (hused : ¬ m'.bitmap.Free m.cr3) (hslot : ∀ i < 1023, SlotOk m'.mem m.cr3 b' i)
    (hplace : ∀ l' g, OwnedAt m'.mem m.cr3 l' g → hd' g = true ∧ (OwnedAt m.mem m.cr3 l' g ∨ l' = l ∧ hd g = false))
    (hhd : ∀ g, hd' g = true → ¬ m'.bitmap.Free g ∧ b' g = false)
    (hb : ∀ g, b' g = true → ¬ m'.bitmap.Free g) : DirOwns m' hd' b' := by
  have hold : ∀ {l' g}, OwnedAt m.mem m.cr3 l' g → hd g ≠ false := by
    intro l' g hl
    simp [h.owned l' g hl]
  refine ⟨h.self.congr hcr3 hdir, ?_, ?_, ?_, ?_, fun l' g hl => ?_, fun l1 l2 g h1 h2 => ?_, hhd, hb⟩
  · rw [hcr3, hdir]
    exact h.lent
  · rwa [hcr3]
  · rwa [hcr3]
  · rwa [hcr3]
  · rw [hcr3] at hl
    exact (hplace l' g hl).1
  · rw [hcr3] at h1 h2
    rcases (hplace l1 g h1).2 with h1 | ⟨rfl, hg⟩
    · rcases (hplace l2 g h2).2 with h2 | ⟨-, hg⟩
      · exact h.inj l1 l2 g h1 h2
      · exact absurd hg (hold h1)
    · rcases (hplace l2 g h2).2 with h2 | ⟨rfl, -⟩
      · exact absurd hg (hold h2)
      · rfl

lemma enter (hf : m.bitmap.Free f) (hcr3 : m'.cr3 = m.cr3) (hdir : m'.mem m.cr3 1023 = m.mem m.cr3 1023)
    (hfree : ∀ g, m'.bitmap.Free g ↔ g ≠ f ∧ m.bitmap.Free g)
    (hslot : ∀ i < 1023, SlotOk m'.mem m.cr3 b i)
    (hplace : ∀ l' g, OwnedAt m'.mem m.cr3 l' g →
      OwnedAt m.mem m.cr3 l' g ∨ (l' = l ∧ g = f)) : DirOwns m' (update hd f true) b := by
  obtain ⟨hne, hhd, hb⟩ := h.ne_of_free hf
  refine h.of_places (l := l) hcr3 ?_ hdir (fun hno => h.used ((hfree _).1 hno).2) hslot
    (fun l' g hown => ?_) (fun g hg => ?_) fun g hg hfr => h.borrowed g hg ((hfree g).1 hfr).2
  · rw [update_of_ne hne]
    exact h.own
  · rcases hplace l' g hown with hown | ⟨rfl, rfl⟩
    · exact ⟨by simp [update_apply, h.owned l' g hown], .inl hown⟩
    · exact ⟨update_self _ _ _, .inr ⟨rfl, hhd⟩⟩
  · by_cases hgf : g = f
    · subst hgf
      exact ⟨fun hfr => ((hfree g).1 hfr).1 rfl, hb⟩
    · have hg : hd g = true := by simpa [hgf] using hg
      exact ⟨fun hfr => (h.handed g hg).1 ((hfree g).1 hfr).2, (h.handed g hg).2⟩

lemma shrink (hcr3 : m'.cr3 = m.cr3) (hbcr3 : b' m.cr3 = false)
    (hdir : m'.mem m.cr3 1023 = m.mem m.cr3 1023) (hused : ¬ m'.bitmap.Free m.cr3)
    (hslot : ∀ i < 1023, SlotOk m'.mem m.cr3 b' i)
    (hplace : ∀ l g, OwnedAt m'.mem m.cr3 l g → OwnedAt m.mem m.cr3 l g ∧ hd' g = true)
    (hhd : ∀ g, hd' g = true → hd g = true ∧ ¬ m'.bitmap.Free g ∧ b' g = false)
    (hb : ∀ g, b' g = true → ¬ m'.bitmap.Free g) : DirOwns m' hd' b' := by
  refine h.of_places (l := (0, none)) hcr3 ⟨?_, hbcr3⟩ hdir hused hslot (fun l g hown => ?_)
    (fun g hg => (hhd g hg).2) hb
  · by_contra hno
    have := (hhd m.cr3 (by simpa using hno)).1
    simp [h.own.1] at this
  · exact ⟨(hplace l g hown).2, .inl (hplace l g hown).1⟩

lemma entry_changed (hdir : ∀ {j}, j ≠ i → mem m.cr3 j = m.mem m.cr3 j)
    (htab : ∀ {j t}, j < 1023 → tableFrame m.mem m.cr3 j = some t → mem t = m.mem t)
    (hnew : SlotOk mem m.cr3 b i) :
    (∀ j < 1023, SlotOk mem m.cr3 b j) ∧ ∀ l g, OwnedAt mem m.cr3 l g → l.1 ≠ i → OwnedAt m.mem m.cr3 l g := by
  refine ⟨fun j hj => ?_, fun l g hown hl => ?_⟩
  · by_cases hji : j = i
    · exact hji ▸ hnew
    · exact (h.slot j hj).congr (hdir hji) fun t ht => htab hj ht
  · exact (ownedAt_congr (hdir hl) fun t ht k _ => congrFun (htab hown.lt ht) k).1 hown

lemma word_changed (hi : i < 1023) (ht : tableFrame m.mem m.cr3 i = some t) (hdir : mem m.cr3 = m.mem m.cr3)
    (hkept : ∀ {j t' k'}, j < 1023 → tableFrame m.mem m.cr3 j = some t' → t' ≠ t ∨ k' ≠ k → mem t' k' = m.mem t' k')
    (hnew : ItemOk b' (mem t k)) (hmono : ∀ g, b g = true → b' g = true) :
    (∀ j < 1023, SlotOk mem m.cr3 b' j) ∧ ∀ l g, OwnedAt mem m.cr3 l g →
      l = (i, some k) ∧ OwnedItem mem t k g ∨ l ≠ (i, some k) ∧ OwnedAt m.mem m.cr3 l g := by
  refine ⟨fun j hj t' ht' => ?_, fun l g hown => ?_⟩
  · rw [tableFrame_congr (congrFun hdir j)] at ht'
    obtain ⟨howned, hitems⟩ := h.slot j hj t' ht'
    refine ⟨congrFun hdir j ▸ howned, fun k' hk' => ?_⟩
    by_cases hplace : t' = t ∧ k' = k
    · obtain ⟨rfl, rfl⟩ := hplace
      exact hnew
    · rw [hkept hj ht' (not_and_or.1 hplace)]
      exact ⟨(hitems k' hk').1, fun hp => ((hitems k' hk').2 hp).imp_right (hmono _)⟩
  · by_cases hl : l = (i, some k)
    · subst hl
      obtain ⟨-, -, t', ht', hitem⟩ := hown
      rw [tableFrame_congr (congrFun hdir i)] at ht'
      cases ht.symm.trans ht'
      exact .inl ⟨rfl, hitem⟩
    · refine .inr ⟨hl, (ownedAt_congr (congrFun hdir _) fun t' ht' k' hk' => hkept hown.lt ht' ?_).1 hown⟩
      refine not_and_or.1 fun hsame => hl ?_
      obtain ⟨rfl, rfl⟩ := hsame
      exact Prod.ext (h.table_inj hown.lt hi ht' ht) hk'

end

section Item

variable {mem : ℕ → Page}

lemma OwnedItem.frame_eq {g : ℕ} (h : OwnedItem mem t k f) (h' : OwnedItem mem t k g) : g = f :=
  some.inj (h'.1.symm.trans h.1)

lemma ItemOk.of_owned (h : OwnedItem mem t k f) : ItemOk b (mem t k) :=
  ⟨fun _ => (tableFrame_eq_some.1 h.1).1, fun _ => .inl h.2⟩

lemma itemOk_zero : ItemOk b 0 := ⟨fun h => absurd h (by decide), fun h => absurd h (by decide)⟩

lemma not_ownedItem_zero (h : mem t k = 0) : ¬ OwnedItem mem t k f := by
  intro hown
  have := hown.2
  rw [h] at this
  cases this

end Item

section Attach

variable {w : PageTableItem}

lemma attach_entry (h : DirOwns m hd b) (hi : i < 1023) (hf : m.bitmap.Free f)
    (hw : tableFrame (m.attach m.cr3 i w f fun _ => 0).mem m.cr3 i = some f)
    (hwo : w.getFlag PageTableItem.owned = true) :
    DirOwns (m.attach m.cr3 i w f fun _ => 0) (update hd f true) b := by
  have hne := (h.ne_of_free hf).1
  have hnew : OwnedItem (m.attach m.cr3 i w f fun _ => 0).mem m.cr3 i f := ⟨hw, (attach_item hne).symm ▸ hwo⟩
  have hempty : SlotOk (m.attach m.cr3 i w f fun _ => 0).mem m.cr3 b i := by
    intro t ht
    cases hnew.1.symm.trans ht
    rw [attach_new]
    exact ⟨hnew.2, fun _ _ => itemOk_zero⟩
  obtain ⟨hslot, hplace⟩ := h.entry_changed (fun hj => attach_of_ne hne (.inr hj)) (fun hj ht =>
    attach_frame_of_ne (h.table_ne_of_free hf hj ht) (h.table_ne hj ht)) hempty
  refine h.enter (l := (i, none)) hf rfl (attach_of_ne hne (.inr (by omega)))
    (fun g => attach_free) hslot fun l g hown => ?_
  by_cases hl : l.1 = i
  · refine .inr ?_
    obtain ⟨j, _ | k⟩ := l
    · obtain rfl : j = i := hl
      exact ⟨rfl, OwnedItem.frame_eq hnew hown.2⟩
    · obtain rfl : j = i := hl
      obtain ⟨-, -, t, ht, hitem⟩ := hown
      cases hnew.1.symm.trans ht
      exact absurd hitem (not_ownedItem_zero (by rw [attach_new]))
  · exact .inl (hplace l g hown hl)

lemma attach_page (h : DirOwns m hd b) (hi : i < 1023) (ht : tableFrame m.mem m.cr3 i = some t)
    (hf : m.bitmap.Free f) {content : Page} (hw : tableFrame (m.attach t k w f content).mem t k = some f)
    (hwo : w.getFlag PageTableItem.owned = true) :
    DirOwns (m.attach t k w f content) (update hd f true) b := by
  have htf := h.table_ne_of_free hf hi ht
  have hdir : (m.attach t k w f content).mem m.cr3 = m.mem m.cr3 :=
    attach_frame_of_ne (h.ne_of_free hf).1 (h.table_ne hi ht).symm
  have hnew : OwnedItem (m.attach t k w f content).mem t k f := ⟨hw, (attach_item htf).symm ▸ hwo⟩
  obtain ⟨hslot, hplace⟩ := h.word_changed hi ht hdir (fun hj ht' hne =>
    attach_of_ne (h.table_ne_of_free hf hj ht') hne) (ItemOk.of_owned hnew) fun _ hg => hg
  refine h.enter (l := (i, some k)) hf rfl (congrFun hdir _) (fun g => attach_free) hslot
    fun l g hown => ?_
  rcases hplace l g hown with ⟨hl, hitem⟩ | ⟨-, hold⟩
  · exact .inr ⟨hl, OwnedItem.frame_eq hnew hitem⟩
  · exact .inl hold

end Attach

lemma poke_page (h : DirOwns m hd b) (hi : i < 1023) (ht : tableFrame m.mem m.cr3 i = some t)
    {w : PageTableItem} {bitmap : Bitmap} {hd' b' : ℕ → Bool}
    (hw : ItemOk b' w) (hwo : w.getFlag PageTableItem.owned = false) (hbcr3 : b' m.cr3 = false)
    (hown : ∀ l g, l ≠ (i, some k) → OwnedAt m.mem m.cr3 l g → hd' g = true)
    (hused : ¬ bitmap.Free m.cr3)
    (hhd : ∀ g, hd' g = true → hd g = true ∧ ¬ bitmap.Free g ∧ b' g = false)
    (hmono : ∀ g, b g = true → b' g = true) (hb : ∀ g, b' g = true → ¬ bitmap.Free g) :
    DirOwns { m.poke t k w with bitmap := bitmap } hd' b' := by
  have hdir : (m.poke t k w).mem m.cr3 = m.mem m.cr3 := poke_frame_of_ne (h.table_ne hi ht).symm
  obtain ⟨hslot, hplace⟩ := h.word_changed hi ht hdir (fun _ _ hne => poke_of_ne hne) (poke_self.symm ▸ hw) hmono
  refine h.shrink rfl hbcr3 (congrFun hdir _) hused hslot (fun l g hown' => ?_) hhd hb
  rcases hplace l g hown' with ⟨-, hitem⟩ | ⟨hne, hold⟩
  · have := hitem.2
    rw [show (m.poke t k w).mem t k = w from poke_self, hwo] at this
    cases this
  · exact ⟨hold, hown l g hne hold⟩

end DirOwns

open DirState

/-- Frames were entered between `m` and `m'`, and the manager has taken none back. -/
structure Entered (m m' : Machine) (hd b : ℕ → Bool) : Prop where
  cr3 : m'.cr3 = m.cr3
  free : ∀ f, m'.bitmap.Free f → m.bitmap.Free f
  owns : DirOwns m' (handedAfter hd m m') b

namespace Entered

variable {m m' m'' : Machine} {hd b : ℕ → Bool} {i k t f page : ℕ} {mode : UserMode}

lemma of_bitmap (hcr3 : m'.cr3 = m.cr3) (hbitmap : m'.bitmap = m.bitmap) (h : DirOwns m' hd b) :
    Entered m m' hd b := by
  have hsame : handedAfter hd m m' = hd := by
    funext f
    simp [handedAfter, hbitmap]
  exact ⟨hcr3, fun _ hf => hbitmap ▸ hf, hsame.symm ▸ h⟩

lemma refl (h : DirOwns m hd b) : Entered m m hd b := .of_bitmap rfl rfl h

lemma trans {b' : ℕ → Bool} (h : Entered m m' hd b)
    (h' : Entered m' m'' (handedAfter hd m m') b') : Entered m m'' hd b' := by
  have hsame : handedAfter (handedAfter hd m m') m' m'' = handedAfter hd m m'' := by
    funext f
    have h1 := h.free f
    have h2 := h'.free f
    by_cases hf : m.bitmap.Free f <;> by_cases hf' : m'.bitmap.Free f <;>
      by_cases hf'' : m''.bitmap.Free f <;> simp_all [handedAfter]
  exact ⟨h'.cr3.trans h.cr3, fun f hf => h.free f (h'.free f hf), hsame ▸ h'.owns⟩

lemma attach {v : PageTableItem} {content : Page} (hf : m.bitmap.Free f)
    (h : DirOwns (m.attach t k v f content) (update hd f true) b) :
    Entered m (m.attach t k v f content) hd b := by
  have hsame : handedAfter hd m (m.attach t k v f content) = update hd f true := by
    funext g
    by_cases hgf : g = f
    · subst hgf
      simp [handedAfter, attach_free, hf]
    · simp [handedAfter, attach_free, hgf]
  exact ⟨rfl, fun g hg => (attach_free.1 hg).2, hsame.symm ▸ h⟩

lemma not_handed (hf : ¬ m.bitmap.Free f) (hhd : hd f = false) : handedAfter hd m m' f = false := by
  simp [handedAfter, hf, hhd]

end Entered

namespace DirOwns

variable {m m' : Machine} {hd b : ℕ → Bool} {i k t f page : ℕ} {mode : UserMode} {mem : ℕ → Page}
  {physical : BitVec 32} {freed : List ℕ} {count d c : ℕ}

lemma tableFrame_eq_none (h : ¬ (mem t k).getFlag present = true) : tableFrame mem t k = none := by
  simp [tableFrame, h]

section

variable (h : DirOwns m hd b)

include h

lemma allocateEntry (hi : i < 1024) (hs : m.allocateEntry i mode = some m') :
    Entered m m' hd b ∧ ∃ t, tableFrame m'.mem m'.cr3 i = some t ∧ (m' = m ∨ i < 1023 ∧ m'.mem t = fun _ => 0) := by
  unfold Machine.allocateEntry at hs
  simp only [read_entry h.self, bind_eq_bind, bind_some] at hs
  split_ifs at hs with hp
  · cases hs
    exact ⟨.refl h, _, tableFrame_eq_some.2 ⟨hp, rfl⟩, .inl rfl⟩
  have hi' : i < 1023 := by
    have hne : i ≠ 1023 := by
      rintro rfl
      exact hp (tableFrame_eq_some.1 h.self).1
    omega
  obtain ⟨⟨f, m1⟩, ha, hs⟩ := bind_eq_some_iff.1 hs
  rw [Machine.attach_entry _ mode.flags h.self hi' mode.flags_present mode.flags_low ha] at hs
  cases hs
  obtain ⟨hf, hlt, -, -⟩ := allocate_eq_some ha
  have hnew : tableFrame (m.attach m.cr3 i (((m.mem m.cr3 i).setAddress (ofFrame f)).enableFlag mode.flags) f
        fun _ => 0).mem m.cr3 i = some f :=
    tableFrame_attach (h.ne_of_free hf).1 hlt mode.flags_present mode.flags_low
  refine ⟨.attach hf (h.attach_entry hi' hf hnew ?_), f, hnew, .inr ⟨hi', attach_new⟩⟩
  exact owned_enableFlag mode.flags_owned

lemma bindPage (hpage : page < 1024 * 1024)
    (ht : tableFrame m.mem m.cr3 (page / 1024) = some t) (hs : m.bindPage page mode = some m') :
    Entered m m' hd b := by
  unfold Machine.bindPage at hs
  simp only [read_table h.self (by omega : page / 1024 < 1024) ht, bind_eq_bind, bind_some] at hs
  split_ifs at hs with hp
  · cases hs
    exact .refl h
  obtain ⟨⟨f, m1⟩, ha, hs⟩ := bind_eq_some_iff.1 hs
  obtain ⟨hf, hlt, -, -⟩ := allocate_eq_some ha
  have hown : ∀ v : PageTableItem, (v.enableFlag mode.flags).getFlag PageTableItem.owned = true :=
    fun v => owned_enableFlag mode.flags_owned
  by_cases hslot : page / 1024 = 1023
  · -- a page of the last 4 MiB is a table, and its item is the word of the directory
    obtain rfl : t = m.cr3 := by
      rw [hslot] at ht
      exact some.inj (ht.symm.trans h.self)
    have hk : page % 1024 < 1023 := by
      have hne : page % 1024 ≠ 1023 := by
        intro hk
        rw [hk] at hp
        exact hp (tableFrame_eq_some.1 h.self).1
      omega
    rw [hslot, show page = tablePage (page % 1024) by unfold tablePage; omega,
      show tablePage (page % 1024) % 1024 = page % 1024 by unfold tablePage; omega]
      at hs
    have heq := Machine.attach_entry (fun _ => 0) mode.flags h.self hk mode.flags_present mode.flags_low ha
    cases heq.symm.trans hs
    refine .attach hf (h.attach_entry hk hf ?_ (hown _))
    exact tableFrame_attach (h.ne_of_free hf).1 hlt mode.flags_present mode.flags_low
  · have hi : page / 1024 < 1023 := by omega
    rw [attach_table page _ mode.flags h.self (by omega) ht (h.table_ne hi ht)
      mode.flags_present mode.flags_low ha] at hs
    cases hs
    refine .attach hf (h.attach_page hi ht hf ?_ (hown _))
    exact tableFrame_attach (h.table_ne_of_free hf hi ht) hlt mode.flags_present mode.flags_low

lemma tableThere (hi : i < 1024) {β : Type*} {rest : Machine → Option β} {r : β}
    (hs : (if (m.mem m.cr3 i).getFlag present = true then rest m
      else (m.allocateEntry i mode).bind rest) = some r) :
    ∃ m1 t, Entered m m1 hd b ∧ tableFrame m1.mem m1.cr3 i = some t ∧
      (m1 = m ∨ i < 1023 ∧ m1.mem t = fun _ => 0) ∧ rest m1 = some r := by
  split_ifs at hs with hp
  · exact ⟨m, _, .refl h, tableFrame_eq_some.2 ⟨hp, rfl⟩, .inl rfl, hs⟩
  · obtain ⟨m1, hm1, hs⟩ := bind_eq_some_iff.1 hs
    obtain ⟨hent, t, ht, hnew⟩ := h.allocateEntry hi hm1
    exact ⟨m1, t, hent, ht, hnew, hs⟩

lemma bindVirtualPage (hpage : page < 1024 * 1024)
    (hs : m.bindVirtualPage page mode = some m') : Entered m m' hd b := by
  unfold Machine.bindVirtualPage at hs
  simp only [read_entry h.self] at hs
  obtain ⟨m1, t, hent, ht, -, hs⟩ := h.tableThere (by omega) hs
  exact hent.trans (hent.owns.bindPage hpage ht hs)

end

lemma bindVirtualPages : ∀ (pages : List ℕ) {m : Machine} {hd : ℕ → Bool}, DirOwns m hd b →
    (∀ page ∈ pages, page < 1024 * 1024) →
    pages.foldlM (fun s c => Machine.bindVirtualPage s c mode) m = some m' → Entered m m' hd b
  | [], m, hd, h, _, hs => by
    cases hs
    exact .refl h
  | page :: pages, m, hd, h, hpages, hs => by
    obtain ⟨m1, hm1, hs⟩ := bind_eq_some_iff.1 hs
    have hent := h.bindVirtualPage (hpages page (by simp)) hm1
    exact hent.trans (bindVirtualPages pages hent.owns (fun c hc => hpages c (by simp [hc])) hs)

lemma firstUnused_mem : ∀ {n i j : ℕ}, m.firstUnused count n i = some (some j) → i ≤ j ∧ j < i + n
  | 0, i, j, hs => by simp [firstUnused] at hs
  | n + 1, i, j, hs => by
    obtain ⟨unused, -, hs⟩ := bind_eq_some_iff.1 hs
    split_ifs at hs
    · obtain rfl : i = j := some.inj (some.inj hs)
      omega
    · have := firstUnused_mem hs
      omega

lemma bindFirstFreeVirtualPages (h : DirOwns m hd b) {j : ℕ}
    (hs : m.bindFirstFreeVirtualPages page count mode = some (m', j)) : Entered m m' hd b := by
  unfold Machine.bindFirstFreeVirtualPages at hs
  obtain ⟨found, hfound, hs⟩ := bind_eq_some_iff.1 hs
  cases found with
  | none =>
    obtain ⟨rfl, -⟩ := Prod.mk.inj (some.inj hs)
    exact .refl h
  | some i =>
    have hi := firstUnused_mem hfound
    obtain ⟨m1, hm1, hs⟩ := bind_eq_some_iff.1 hs
    obtain ⟨rfl, -⟩ := Prod.mk.inj (some.inj hs)
    refine h.bindVirtualPages _ (fun c hc => ?_) hm1
    have := mem_range'_1.1 hc
    omega

lemma mapPage (h : DirOwns m hd b) (mode : UserMode) (hi : i < 1023)
    (ht : tableFrame m.mem m.cr3 i = some t) (hal : physical &&& 0xFFF#32 = 0)
    (hne : frameOf physical ≠ m.cr3) (hfree : ¬ m.bitmap.Free (frameOf physical))
    (hhd : hd (frameOf physical) = false) (hold : (m.mem t k).getFlag PageTableItem.owned = false) :
    ∃ w, ((m.modify (tablePage i) k (·.setAddress physical)).bind fun s =>
      s.modify (tablePage i) k (·.enableFlag mode.mapFlags)) = some (m.poke t k w) ∧
      DirOwns (m.poke t k w) hd (update b (frameOf physical) true) := by
  have heq := modify_table (k := k) h.self (by omega) ht (h.table_ne hi ht) (·.setAddress physical)
    (·.enableFlag mode.mapFlags) some
  simp only [bind_fun_some] at heq
  refine ⟨_, heq, ?_⟩
  have hown := not_owned_map hold hal mode.mapFlags_owned
  have hframe : (((m.mem t k).setAddress physical).enableFlag mode.mapFlags).frame =
      frameOf physical := frame_map mode.mapFlags_low
  refine h.poke_page hi ht ?_ hown ?_ (fun l g _ hl => h.owned l g hl) h.used (fun g hg => ?_)
    (fun g hg => ?_) fun g hg => ?_
  · refine ⟨fun ho => by simp [hown] at ho, fun _ => .inr ?_⟩
    rw [hframe, update_self]
  · rw [update_of_ne hne.symm]
    exact h.own.2
  · have hgf : g ≠ frameOf physical := by
      rintro rfl
      simp [hhd] at hg
    rw [update_of_ne hgf]
    exact ⟨hg, h.handed g hg⟩
  · by_cases hgf : g = frameOf physical
    · simp [hgf]
    · simpa [hgf] using hg
  · by_cases hgf : g = frameOf physical
    · rwa [hgf]
    · exact h.borrowed g (by simpa [hgf] using hg)

/-- The frame at the address is foreign to a directory for which `hd` was handed out. -/
def ForeignTo (m : Machine) (hd : ℕ → Bool) (physical : BitVec 32) : Prop :=
  physical &&& 0xFFF#32 = 0 ∧ frameOf physical ≠ m.cr3 ∧ ¬ m.bitmap.Free (frameOf physical) ∧
    hd (frameOf physical) = false

lemma ForeignTo.entered (h : ForeignTo m hd physical) (hent : Entered m m' hd b) :
    ForeignTo m' (handedAfter hd m m') physical := by
  obtain ⟨hal, hne, hfree, hhd⟩ := h
  exact ⟨hal, hent.cr3 ▸ hne, fun hf => hfree (hent.free _ hf), Entered.not_handed hfree hhd⟩

lemma mapMemory (h : DirOwns m hd b) (hpage : page < 1023 * 1024) (hfor : ForeignTo m hd physical)
    (hold : ∀ v ∈ item m page, v.getFlag PageTableItem.owned = false)
    (hs : m.mapMemory page physical mode = some m') :
    Entered m m' hd (update b (frameOf physical) true) := by
  unfold Machine.mapMemory at hs
  simp only [read_entry h.self] at hs
  obtain ⟨m1, t, hent, ht, hnew, hs⟩ := h.tableThere (by omega) hs
  obtain ⟨hal, hne, hfree, hhd⟩ := hfor.entered hent
  have hold1 : (m1.mem t (page % 1024)).getFlag PageTableItem.owned = false := by
    rcases hnew with rfl | ⟨-, hzero⟩
    · exact hold _ (by rw [item, ht]; rfl)
    · rw [congrFun hzero]
      decide
  obtain ⟨w, hw, howns⟩ := hent.owns.mapPage mode (by omega) ht hal hne hfree hhd hold1
  cases hw.symm.trans hs
  exact hent.trans (.of_bitmap rfl rfl howns)

lemma not_owned (h : DirOwns m hd b) (hi : i < 1023) (hk : k < 1024) (ht : tableFrame m.mem m.cr3 i = some t)
    (hp : (m.mem t k).getFlag present = false) :
    (m.mem t k).getFlag PageTableItem.owned = false := by
  by_contra ho
  have := ((h.slot i hi t ht).2 k hk).1 (by simpa using ho)
  simp [hp] at this

lemma bindPhysicalFrom : ∀ {n : ℕ} {m : Machine} {hd : ℕ → Bool} {page : ℕ}
    {r : Option ℕ}, DirOwns m hd b → page < 1024 * 1024 → ForeignTo m hd physical →
    (∀ v ∈ r, v < 1023 * 1024) →
    bindPhysicalFrom physical mode n m page = some (m', r) →
    Entered m m' hd (if r.isSome then update b (frameOf physical) true else b)
  | 0, m, hd, page, r, _, _, _, _, hs => by simp [Machine.bindPhysicalFrom] at hs
  | n + 1, m, hd, page, r, h, hpage, hfor, hr, hs => by
    unfold Machine.bindPhysicalFrom at hs
    simp only [read_entry h.self, bind_eq_bind, bind_some] at hs
    obtain ⟨m1, t, hent, ht, -, hs⟩ := h.tableThere (by omega) hs
    rw [read_table hent.owns.self (by omega) ht, bind_some] at hs
    have hfor1 := hfor.entered hent
    split_ifs at hs with hp hslot
    · -- the page is not present and is mapped
      obtain ⟨m2, hm2, hs⟩ := bind_eq_some_iff.1 hs
      cases hs
      have hlt := hr page rfl
      refine hent.trans (hent.owns.mapMemory hlt hfor1 (fun v hv => ?_) hm2)
      rw [item, ht] at hv
      cases hv
      exact hent.owns.not_owned (by omega) (Nat.mod_lt page (by omega)) ht (by simpa using hp)
    · exact hent.trans (bindPhysicalFrom hent.owns (by omega) hfor1 hr hs)
    · cases hs
      exact hent

def slotFrames (mem : ℕ → Page) (d i : ℕ) : List ℕ :=
  if (mem d i).getFlag PageTableItem.owned then
    match tableFrame mem d i with
    | none => []
    | some t => (List.range 1024).filterMap (tableFrame mem t) ++ [t]
  else []

structure Released (m m' : Machine) (freed : List ℕ) : Prop where
  cr3 : m'.cr3 = m.cr3
  free : ∀ f, m'.bitmap.Free f ↔ m.bitmap.Free f ∨ f ∈ freed

lemma freePages (hself : m.SelfMapped) (hi : i < 1024) (ht : tableFrame m.mem m.cr3 i = some t) :
    ∀ (ks : List ℕ) {m0 : Machine} {freed : List ℕ}, m0.mem = m.mem → Released m m0 freed →
      ∃ m', ks.foldlM (freePage i) (m0, freed) = some (m', freed ++ ks.filterMap (tableFrame m.mem t)) ∧
        m'.mem = m.mem ∧ Released m m' (freed ++ ks.filterMap (tableFrame m.mem t))
  | [], m0, freed, hmem, hrel => ⟨m0, by simp, hmem, by simpa using hrel⟩
  | k :: ks, m0, freed, hmem, hrel => by
    have hself0 : m0.SelfMapped := hself.congr hrel.cr3 (by rw [hmem])
    have ht0 : tableFrame m0.mem m0.cr3 i = some t := by
      rwa [hmem, hrel.cr3]
    have hread : m0.read (tablePage i) k = some (m.mem t k) := by rw [read_table hself0 hi ht0, hmem]
    have hpage : freePage i (m0, freed) k = some (if (m.mem t k).getFlag present then
          (m0.release (m.mem t k), freed ++ [(m.mem t k).frame]) else (m0, freed)) := by
      simp [freePage, hread]
    rw [foldlM_cons, hpage, bind_eq_bind, bind_some]
    by_cases hp : (m.mem t k).getFlag present = true
    · have hk : tableFrame m.mem t k = some (m.mem t k).frame := tableFrame_eq_some.2 ⟨hp, rfl⟩
      have hmem0 : (m0.release (m.mem t k)).mem = m.mem := hmem
      have hrel0 : Released m (m0.release (m.mem t k)) (freed ++ [(m.mem t k).frame]) := by
        refine ⟨hrel.cr3, fun f => ?_⟩
        rw [free_release, hrel.free, mem_append, mem_singleton]
        exact or_comm.trans or_assoc
      obtain ⟨m', hm', hmem', hrel'⟩ := freePages hself hi ht ks hmem0 hrel0
      rw [append_assoc] at hm' hrel'
      rw [if_pos hp, filterMap_cons, hk]
      exact ⟨m', hm', hmem', hrel'⟩
    · have hk : tableFrame m.mem t k = none := tableFrame_eq_none hp
      obtain ⟨m', hm', hmem', hrel'⟩ := freePages hself hi ht ks hmem hrel
      rw [if_neg hp, filterMap_cons, hk]
      exact ⟨m', hm', hmem', hrel'⟩

lemma freeEntry_eq (hself : m.SelfMapped) (hi : i < 1024) :
    ∃ m', m.freeEntry i = some (m', slotFrames m.mem m.cr3 i) ∧ Released m m' (slotFrames m.mem m.cr3 i) ∧
      m'.mem = if slotFrames m.mem m.cr3 i = [] then m.mem else (m.poke m.cr3 i 0).mem := by
  unfold freeEntry slotFrames
  simp only [read_entry hself, bind_eq_bind, bind_some, Option.pure_def]
  by_cases hp : (m.mem m.cr3 i).getFlag present = true
  · by_cases ho : (m.mem m.cr3 i).getFlag PageTableItem.owned = true
    · have ht : tableFrame m.mem m.cr3 i = some (m.mem m.cr3 i).frame := tableFrame_eq_some.2 ⟨hp, rfl⟩
      have hnone : Released m m [] := ⟨rfl, by simp⟩
      obtain ⟨m', hm', hmem', hrel'⟩ := freePages hself (by omega) ht (List.range 1024) rfl hnone
      rw [nil_append] at hm' hrel'
      have hself' : m'.SelfMapped := hself.congr hrel'.cr3 (by rw [hmem'])
      have hread : m'.read entryPage i = some (m.mem m.cr3 i) := by rw [read_entry hself', hmem', hrel'.cr3]
      have htr : (m'.release (m.mem m.cr3 i)).translate entryPage = some m.cr3 := by
        rw [← hrel'.cr3]
        exact translate_entryPage hself'
      simp only [hp, ho, Bool.not_true, Bool.false_eq_true, if_false, if_true, hm', bind_some,
        hread, ht, write, htr, map_some]
      refine ⟨_, rfl, ⟨hrel'.cr3, fun f => ?_⟩, ?_⟩
      · show (m'.release (m.mem m.cr3 i)).bitmap.Free f ↔ _
        rw [free_release, hrel'.free, mem_append, mem_singleton]
        exact or_comm.trans or_assoc
      · rw [if_neg (by simp)]
        show update m'.mem m.cr3 (update (m'.mem m.cr3) i 0) = _
        rw [hmem']
        rfl
    · simp only [hp, ho, Bool.not_true, Bool.false_eq_true, if_false, Bool.not_false, if_true]
      exact ⟨m, rfl, ⟨rfl, by simp⟩, by simp⟩
  · have ht : tableFrame m.mem m.cr3 i = none := tableFrame_eq_none hp
    simp only [hp, Bool.not_false, if_true, ht]
    refine ⟨m, ?_, ⟨rfl, ?_⟩, ?_⟩ <;> simp

lemma slotFrames_eq_nil (ho : (mem d i).getFlag PageTableItem.owned = false) : slotFrames mem d i = [] := by
  unfold slotFrames
  rw [if_neg (by simp [ho])]

lemma mem_slotFrames (ho : (mem d i).getFlag PageTableItem.owned = true) (ht : tableFrame mem d i = some t) :
    f ∈ slotFrames mem d i ↔ (∃ k < 1024, tableFrame mem t k = some f) ∨ f = t := by
  unfold slotFrames
  rw [if_pos ho, ht]
  simp

lemma ownedAt_of_mem (h : DirOwns m hd b) (hi : i < 1024) (hp : OwnsPages m i)
    (hf : f ∈ slotFrames m.mem m.cr3 i) : ∃ o, OwnedAt m.mem m.cr3 (i, o) f := by
  have ho : (m.mem m.cr3 i).getFlag PageTableItem.owned = true := by
    by_contra hno
    rw [slotFrames_eq_nil (by simpa using hno)] at hf
    cases hf
  have hi' := h.lt_of_owned hi ho
  rcases htab : tableFrame m.mem m.cr3 i with _ | t
  · simp [slotFrames, htab] at hf
  · rcases (mem_slotFrames ho htab).1 hf with ⟨k, hk, hkf⟩ | rfl
    · exact ⟨some k, hi', hk, t, htab, hkf, hp ho t htab k hk (tableFrame_eq_some.1 hkf).1⟩
    · exact ⟨none, h.ownedAt_table hi' htab⟩

lemma ownsPages_of_slotFrames (h : DirOwns m hd b) (hi : i < 1024)
    (hall : ∀ f ∈ slotFrames m.mem m.cr3 i, b f = false) : OwnsPages m i := by
  intro ho t ht k hk hp
  have hi' := h.lt_of_owned hi ho
  have hkf : tableFrame m.mem t k = some (m.mem t k).frame := tableFrame_eq_some.2 ⟨hp, rfl⟩
  have hb := hall _ ((mem_slotFrames ho ht).2 (.inl ⟨k, hk, hkf⟩))
  rcases ((h.slot i hi' t ht).2 k hk).2 hp with howned | hbor
  · exact howned
  · simp [hb] at hbor

lemma handed_of_slotFrames (h : DirOwns m hd b) (hi : i < 1024) (hp : OwnsPages m i) :
    ∀ f ∈ slotFrames m.mem m.cr3 i, hd f = true ∧ b f = false := by
  intro f hf
  obtain ⟨o, hown⟩ := h.ownedAt_of_mem hi hp hf
  have hhd := h.owned _ _ hown
  exact ⟨hhd, (h.handed f hhd).2⟩

def without (hd : ℕ → Bool) (freed : List ℕ) : ℕ → Bool := fun f => hd f && !decide (f ∈ freed)

lemma release (h : DirOwns m hd b) (hrel : Released m m' freed) (hown : ∀ f ∈ freed, hd f = true ∧ b f = false) :
    ¬ m'.bitmap.Free m.cr3 ∧ (∀ g, without hd freed g = true → hd g = true ∧ ¬ m'.bitmap.Free g ∧ b g = false) ∧
      ∀ g, b g = true → ¬ m'.bitmap.Free g := by
  refine ⟨fun hf => ?_, fun g hg => ?_, fun g hg hf => ?_⟩
  · rcases (hrel.free _).1 hf with hf | hf
    · exact h.used hf
    · have := (hown _ hf).1
      simp [h.own.1] at this
  · simp only [without, Bool.and_eq_true, Bool.not_eq_true', decide_eq_false_iff_not] at hg
    refine ⟨hg.1, fun hf => ?_, (h.handed g hg.1).2⟩
    rcases (hrel.free g).1 hf with hf | hf
    · exact (h.handed g hg.1).1 hf
    · exact hg.2 hf
  · rcases (hrel.free g).1 hf with hf | hf
    · exact h.borrowed g hg hf
    · have := (hown g hf).2
      simp [hg] at this

lemma without_nil (hd : ℕ → Bool) : without hd [] = hd := by
  funext f
  simp [without]

lemma same (h : DirOwns m hd b) (hmem : m'.mem = m.mem) (hcr3 : m'.cr3 = m.cr3)
    (hfree : ∀ f, m'.bitmap.Free f ↔ m.bitmap.Free f) : DirOwns m' hd b := by
  refine h.shrink hcr3 h.own.2 (by rw [hmem]) (fun hf => h.used ((hfree _).1 hf))
    (by rw [hmem]; exact h.slot) (fun l g hown => ?_) (fun g hg => ?_)
    fun g hg hf => h.borrowed g hg ((hfree g).1 hf)
  · rw [hmem] at hown
    exact ⟨hown, h.owned l g hown⟩
  · exact ⟨hg, fun hf => (h.handed g hg).1 ((hfree g).1 hf), (h.handed g hg).2⟩

lemma freeEntry (h : DirOwns m hd b) (hi : i < 1024) (hp : OwnsPages m i)
    (hs : m.freeEntry i = some (m', freed)) : DirOwns m' (without hd freed) b := by
  obtain ⟨m1, hm1, hrel, hmem⟩ := freeEntry_eq h.self hi
  obtain ⟨rfl, rfl⟩ := Prod.mk.inj (some.inj (hm1.symm.trans hs))
  obtain ⟨hused, hkept, hborrowed⟩ := h.release hrel (h.handed_of_slotFrames hi hp)
  by_cases hnil : slotFrames m.mem m.cr3 i = []
  · rw [if_pos hnil] at hmem
    rw [hnil, without_nil]
    exact h.same hmem hrel.cr3 fun f => by rw [hrel.free, hnil]; simp
  have hi' : i < 1023 := by
    have hne : i ≠ 1023 := by
      rintro rfl
      exact hnil (slotFrames_eq_nil h.lent)
    omega
  rw [if_neg hnil] at hmem
  have hdir : ∀ {j}, j ≠ i → m1.mem m.cr3 j = m.mem m.cr3 j := by
    intro j hj
    rw [hmem]
    exact poke_of_ne (.inr hj)
  have htab : ∀ {j t}, j < 1023 → tableFrame m.mem m.cr3 j = some t → m1.mem t = m.mem t := by
    intro j t hj ht
    rw [hmem]
    exact poke_frame_of_ne (h.table_ne hj ht)
  have hgone : tableFrame m1.mem m.cr3 i = none := by
    rw [hmem, tableFrame, poke_self]
    rfl
  obtain ⟨hslot, hplace⟩ := h.entry_changed hdir htab fun t ht => by simp [hgone] at ht
  refine h.shrink hrel.cr3 h.own.2 (hdir (by omega)) hused hslot (fun l g hown => ?_) hkept hborrowed
  have hl : l.1 ≠ i := by
    obtain ⟨j, _ | k⟩ := l
    · rintro rfl
      have := hown.2.1
      simp [hgone] at this
    · rintro rfl
      obtain ⟨-, -, t, ht, -⟩ := hown
      simp [hgone] at ht
  have hold := hplace l g hown hl
  have hnotin : g ∉ slotFrames m.mem m.cr3 i := by
    intro hg
    obtain ⟨o, hown'⟩ := h.ownedAt_of_mem hi hp hg
    exact hl (congrArg Prod.fst (h.inj _ _ _ hold hown'))
  exact ⟨hold, by simp [without, hnotin, h.owned _ _ hold]⟩

def pageFrames (mem : ℕ → Page) (d page : ℕ) : List ℕ :=
  match tableFrame mem d (page / 1024) with
  | none => []
  | some t => if (mem t (page % 1024)).getFlag PageTableItem.owned then
      (tableFrame mem t (page % 1024)).toList else []

lemma unbindVirtualPage_eq (page : ℕ) (hself : m.SelfMapped) (hpage : page < 1024 * 1024) :
    ∃ m', m.unbindVirtualPage page = some (m', pageFrames m.mem m.cr3 page) ∧
      Released m m' (pageFrames m.mem m.cr3 page) ∧
      (m'.mem = m.mem ∧ m.translate page = none ∧ pageFrames m.mem m.cr3 page = [] ∨
        ∃ t, tableFrame m.mem m.cr3 (page / 1024) = some t ∧ m'.mem = (m.poke t (page % 1024) 0).mem) := by
  unfold unbindVirtualPage pageFrames
  simp only [read_entry hself, bind_eq_bind, bind_some, Option.pure_def]
  by_cases hp : (m.mem m.cr3 (page / 1024)).getFlag present = true
  · have ht : tableFrame m.mem m.cr3 (page / 1024) = some (m.mem m.cr3 (page / 1024)).frame :=
      tableFrame_eq_some.2 ⟨hp, rfl⟩
    generalize (m.mem m.cr3 (page / 1024)).frame = t at ht
    have htr : ∀ v, (m.release v).translate (tablePage (page / 1024)) = some t := by
      intro v
      rwa [translate_tablePage (show (m.release v).SelfMapped from hself) (by omega)]
    have htr' : m.translate (tablePage (page / 1024)) = some t := by
      rwa [translate_tablePage hself (by omega)]
    simp only [hp, Bool.not_true, Bool.false_eq_true, if_false, ht,
      read_table hself (by omega : page / 1024 < 1024) ht, bind_some]
    by_cases hk : (m.mem t (page % 1024)).getFlag present = true
    · have hkf : tableFrame m.mem t (page % 1024) = some (m.mem t (page % 1024)).frame :=
        tableFrame_eq_some.2 ⟨hk, rfl⟩
      by_cases ho : (m.mem t (page % 1024)).getFlag PageTableItem.owned = true
      · simp only [hk, ho, Bool.not_true, Bool.false_eq_true, if_false, if_true, write, htr,
          map_some, bind_some, hkf, toList_some]
        refine ⟨_, rfl, ⟨rfl, fun f => ?_⟩, .inr ⟨t, rfl, rfl⟩⟩
        rw [mem_singleton]
        exact free_release.trans or_comm
      · simp only [hk, ho, Bool.not_true, Bool.false_eq_true, if_false, write, htr', map_some, bind_some]
        exact ⟨_, rfl, ⟨rfl, by simp⟩, .inr ⟨t, rfl, rfl⟩⟩
    · have hkf : tableFrame m.mem t (page % 1024) = none := tableFrame_eq_none hk
      have hnone : m.translate page = none := by rw [Machine.translate, pageFrame, ht, bind_some, hkf]
      simp only [hk, Bool.not_false, if_true, hkf, toList_none, ite_self]
      exact ⟨m, rfl, ⟨rfl, by simp⟩, .inl ⟨rfl, hnone, trivial⟩⟩
  · have ht : tableFrame m.mem m.cr3 (page / 1024) = none := tableFrame_eq_none hp
    have hnone : m.translate page = none := by rw [Machine.translate, pageFrame, ht, bind_none]
    simp only [hp, Bool.not_false, if_true, ht]
    exact ⟨m, rfl, ⟨rfl, by simp⟩, .inl ⟨rfl, hnone, trivial⟩⟩

lemma translate_of_mem_pageFrames (hf : f ∈ pageFrames m.mem m.cr3 page) : m.translate page = some f := by
  unfold pageFrames at hf
  rcases ht : tableFrame m.mem m.cr3 (page / 1024) with _ | t
  · simp [ht] at hf
  · simp only [ht] at hf
    split_ifs at hf
    · exact pageFrame_eq_some.2 ⟨t, ht, by simpa using hf⟩
    · cases hf

lemma ownedAt_of_mem_page (hpage : page < 1023 * 1024) (hf : f ∈ pageFrames m.mem m.cr3 page) :
    OwnedAt m.mem m.cr3 (page / 1024, some (page % 1024)) f := by
  unfold pageFrames at hf
  rcases ht : tableFrame m.mem m.cr3 (page / 1024) with _ | t
  · simp [ht] at hf
  · simp only [ht] at hf
    split_ifs at hf with ho
    · exact ⟨by omega, Nat.mod_lt page (by omega), t, ht, by simpa using hf, ho⟩
    · cases hf

lemma unbindVirtualPage (h : DirOwns m hd b) (hpage : page < 1023 * 1024)
    (hs : m.unbindVirtualPage page = some (m', freed)) :
    (∀ f ∈ freed, hd f = true ∧ b f = false) ∧ DirOwns m' (without hd freed) b := by
  obtain ⟨m1, hm1, hrel, hmem⟩ := unbindVirtualPage_eq page h.self (by omega)
  obtain ⟨rfl, rfl⟩ := Prod.mk.inj (some.inj (hm1.symm.trans hs))
  have hown : ∀ {f}, f ∈ pageFrames m.mem m.cr3 page → hd f = true ∧ b f = false := by
    intro f hf
    have hhd := h.owned _ _ (ownedAt_of_mem_page hpage hf)
    exact ⟨hhd, (h.handed f hhd).2⟩
  obtain ⟨hused, hkept, hborrowed⟩ := h.release hrel fun f hf => hown hf
  refine ⟨fun f hf => hown hf, ?_⟩
  rcases hmem with ⟨hmem, -, hnil⟩ | ⟨t, ht, hmem⟩
  · rw [hnil, without_nil]
    exact h.same hmem hrel.cr3 fun f => by rw [hrel.free, hnil]; simp
  have hsame : m1 = { m.poke t (page % 1024) 0 with bitmap := m1.bitmap } := by
    cases m1
    cases hmem
    cases hrel.cr3
    rfl
  rw [hsame]
  refine h.poke_page (by omega) ht itemOk_zero (by decide) h.own.2
    (fun l g hl hold => ?_) hused hkept (fun _ hg => hg) hborrowed
  have hnotin : g ∉ pageFrames m.mem m.cr3 page := fun hg =>
    hl (h.inj _ _ _ hold (ownedAt_of_mem_page hpage hg))
  simp [without, hnotin, h.owned _ _ hold]

lemma freeSlots (h : DirOwns m hd b) : ∀ (is done : List ℕ) (m0 : Machine) (freed : List ℕ),
    is.Nodup → (∀ i ∈ is, i < 1023 ∧ i ∉ done) → (∀ f ≠ m.cr3, m0.mem f = m.mem f) →
    (∀ j ∉ done, m0.mem m.cr3 j = m.mem m.cr3 j) → 1023 ∉ done → m0.cr3 = m.cr3 →
    ∃ m', is.foldlM freeSlot (m0, freed) = some (m', freed ++ is.flatMap (slotFrames m.mem m.cr3)) ∧
      m'.cr3 = m.cr3 ∧ (∀ f ≠ m.cr3, m'.mem f = m.mem f) ∧
      ∀ j ∉ done ++ is, m'.mem m.cr3 j = m.mem m.cr3 j
  | [], done, m0, freed, _, _, hmem, hdir, _, hcr3 => ⟨m0, by simp, hcr3, hmem, by simpa using hdir⟩
  | i :: is, done, m0, freed, hnd, his, hmem, hdir, hself, hcr3 => by
    obtain ⟨hi, hnotin⟩ := his i (by simp)
    have hself0 : m0.SelfMapped := h.self.congr hcr3 (hdir 1023 hself)
    have hslot : slotFrames m0.mem m0.cr3 i = slotFrames m.mem m.cr3 i := by
      unfold slotFrames
      rw [hcr3, tableFrame_congr (hdir i hnotin), hdir i hnotin]
      rcases ht : tableFrame m.mem m.cr3 i with _ | t
      · rfl
      · have htab : ∀ k, tableFrame m0.mem t k = tableFrame m.mem t k := fun k =>
          tableFrame_congr (congrFun (hmem t (h.table_ne hi ht)) k)
        simp only [htab]
    obtain ⟨m1, hm1, hrel, hmem1⟩ := freeEntry_eq (i := i) hself0 (by omega)
    rw [hslot] at hm1 hmem1
    have hframes : ∀ f ≠ m.cr3, m1.mem f = m.mem f := by
      intro f hf
      rw [hmem1]
      split_ifs
      · exact hmem f hf
      · rw [poke_frame_of_ne (hcr3.symm ▸ hf)]
        exact hmem f hf
    have hwords : ∀ j ∉ i :: done, m1.mem m.cr3 j = m.mem m.cr3 j := by
      intro j hj
      rw [hmem1]
      split_ifs
      · exact hdir j (fun hin => hj (by simp [hin]))
      · rw [poke_of_ne (.inr fun hji => hj (by simp [hji]))]
        exact hdir j (fun hin => hj (by simp [hin]))
    obtain ⟨hnot, hnd⟩ := nodup_cons.1 hnd
    have hrest : ∀ j ∈ is, j < 1023 ∧ j ∉ i :: done := by
      intro j hj
      refine ⟨(his j (by simp [hj])).1, fun hin => ?_⟩
      rcases mem_cons.1 hin with rfl | hin
      · exact hnot hj
      · exact (his j (by simp [hj])).2 hin
    obtain ⟨m', hm', hcr3', hmem', hdir'⟩ := freeSlots h is (i :: done) m1
      (freed ++ slotFrames m.mem m.cr3 i) hnd hrest hframes hwords (by simp [hself]; omega)
      (hrel.cr3.trans hcr3)
    refine ⟨m', ?_, hcr3', hmem', fun j hj => hdir' j fun hin => hj ?_⟩
    · rw [foldlM_cons, show freeSlot (m0, freed) i =
        some (m1, freed ++ slotFrames m.mem m.cr3 i) by rw [freeSlot, hm1]; rfl]
      simpa using hm'
    · simp only [mem_append, mem_cons] at hin ⊢
      tauto

lemma freePageDirectory_eq (h : DirOwns m hd b) (hc : HeldBy m c page) :
    ∃ m' last, (m.use c).freePageDirectory page =
        some (m', (List.range' 1 (256 * 3 - 1)).flatMap (slotFrames m.mem m.cr3) ++ last) ∧
      ∀ f ∈ last, f = m.cr3 := by
  obtain ⟨t, htd, ht, hk⟩ := hc.mapped
  obtain ⟨hslot, hback⟩ := hc.back
  have hphys : (m.use c).getPhysicalAddress page = some m.cr3 := by
    have hlt := hc.lt
    exact getPhysicalAddress_eq hc.self (by omega) (pageFrame_eq_some.2 ⟨t, ht, hk⟩)
  obtain ⟨m1, hm1, hcr3, hmem, hdir⟩ := h.freeSlots (List.range' 1 (256 * 3 - 1)) [] m []
    nodup_range' (fun i hi => ⟨by have := mem_range'_1.1 hi; omega, not_mem_nil⟩)
    (fun _ _ => rfl) (fun _ _ => rfl) not_mem_nil rfl
  have hkept : ∀ {j}, j = 0 ∨ 768 ≤ j → m1.mem m.cr3 j = m.mem m.cr3 j := by
    intro j hj
    refine hdir j fun hin => ?_
    rw [nil_append, mem_range'_1] at hin
    omega
  have hself1 : m1.SelfMapped := h.self.congr hcr3 (hkept (by omega))
  have hphys1 : m1.getPhysicalAddress c = some c := by
    refine getPhysicalAddress_eq hself1 (by omega) ?_
    obtain ⟨t', ht', hk'⟩ := pageFrame_eq_some.1 hback
    refine pageFrame_eq_some.2 ⟨t', ?_, ?_⟩
    · rwa [hcr3, tableFrame_congr (hkept (by omega))]
    · rwa [tableFrame_congr (congrFun (hmem t' (h.table_ne (by omega) ht')) _)]
  have hself2 : (m1.use c).SelfMapped := by
    show tableFrame m1.mem c 1023 = some c
    rw [tableFrame_congr (congrFun (hmem c hc.apart) _)]
    exact hc.self
  obtain ⟨m2, hm2, -, -⟩ := unbindVirtualPage_eq page hself2 hc.lt
  refine ⟨m2, pageFrames m1.mem c page, ?_, fun f hf => ?_⟩
  · unfold freePageDirectory
    have huse : (m.use c).use m.cr3 = m := rfl
    have hcur : (m.use c).cr3 = c := rfl
    rw [nil_append] at hm1
    simp only [hphys, huse, hcur, hm1, hphys1, hm2, bind_eq_bind, bind_some, Option.pure_def]
    rfl
  · have ht1 : tableFrame m1.mem c (page / 1024) = some t := by
      rwa [tableFrame_congr (congrFun (hmem c hc.apart) _)]
    have hk1 : tableFrame m1.mem t (page % 1024) = some m.cr3 := by
      rwa [tableFrame_congr (congrFun (hmem t htd) _)]
    simp only [pageFrames, ht1, hk1] at hf
    split_ifs at hf
    · simpa using hf
    · cases hf

lemma freePageDirectory (h : DirOwns m hd b) (hc : HeldBy m c page) :
    ∃ r, (m.use c).freePageDirectory page = some r ∧ ((∀ f ∈ r.2, (hd f = true ∨ f = m.cr3) ∧ b f = false) ↔
        ∀ i, 1 ≤ i → i < 768 → OwnsPages m i) := by
  obtain ⟨m', last, hm', hlast⟩ := h.freePageDirectory_eq hc
  refine ⟨_, hm', fun hall i hlo hhi => ?_, fun hp f hf => ?_⟩
  · refine h.ownsPages_of_slotFrames (by omega) fun f hf => (hall f ?_).2
    refine mem_append.2 (.inl (mem_flatMap.2 ⟨i, ?_, hf⟩))
    rw [mem_range'_1]
    omega
  · rcases mem_append.1 hf with hf | hf
    · obtain ⟨i, hi, hf⟩ := mem_flatMap.1 hf
      rw [mem_range'_1] at hi
      obtain ⟨hhd, hb⟩ := h.handed_of_slotFrames (by omega) (hp i (by omega) (by omega)) f hf
      exact ⟨.inl hhd, hb⟩
    · obtain rfl := hlast f hf
      exact ⟨.inr rfl, h.own.2⟩

end DirOwns

namespace DirState

variable {s s' : DirState}

def Sound (s : DirState) : Prop := DirOwns s.machine s.handed s.borrowed

lemma sound_init {m : Machine} (h : EmptyDirectory m) : (init m).Sound := by
  have hempty : ∀ {i}, i < 1023 → tableFrame m.mem m.cr3 i = none := by
    intro i hi
    unfold tableFrame
    rw [h.empty i hi]
    rfl
  have hno : ∀ l f, ¬ OwnedAt m.mem m.cr3 l f := by
    rintro ⟨i, _ | k⟩ f hown
    · have := hown.2.1
      simp [hempty hown.1] at this
    · obtain ⟨hi, -, t, ht, -⟩ := hown
      simp [hempty hi] at ht
  refine ⟨h.self, h.lent, h.used, ⟨rfl, rfl⟩, fun i hi t ht => ?_, fun l f hown => ?_,
    fun l l' f hown => ?_, fun f hf => ?_, fun f hf => ?_⟩
  · simp [init, hempty hi] at ht
  · exact absurd hown (hno l f)
  · exact absurd hown (hno l f)
  · simp [init] at hf
  · simp [init] at hf

lemma Sound.step (h : s.Sound) {a : DirCall} (hok : s.Careful a) (hs : s.step a = some s') : s'.Sound := by
  cases a with simp only [DirState.step] at hs
  | bindVirtualPage page mode =>
    split_ifs at hs with hpage
    obtain ⟨m, hm, rfl⟩ := map_eq_some_iff.1 hs
    exact (DirOwns.bindVirtualPage h hpage hm).owns
  | bindFirstFreeVirtualPages page count mode =>
    split_ifs at hs with hpage
    obtain ⟨⟨m, j⟩, hm, rfl⟩ := map_eq_some_iff.1 hs
    exact (DirOwns.bindFirstFreeVirtualPages h hm).owns
  | mapMemory page physical mode =>
    split_ifs at hs with hpage
    obtain ⟨m, hm, rfl⟩ := map_eq_some_iff.1 hs
    obtain ⟨hlt, hfor, hold⟩ := hok
    exact (DirOwns.mapMemory h hlt hfor hold hm).owns
  | bindPhysicalPage physical mode page =>
    split_ifs at hs with hpage
    obtain ⟨⟨m, r⟩, hm, hs⟩ := map_eq_some_iff.1 hs
    obtain ⟨hfor, hlt⟩ := hok
    have hent := DirOwns.bindPhysicalFrom h hpage hfor (hlt _ hm) hm
    cases r with
    | none =>
      obtain rfl := hs
      exact hent.owns
    | some v =>
      obtain rfl := hs
      exact hent.owns
  | unbindVirtualPage page =>
    split_ifs at hs with hpage
    obtain ⟨⟨m, freed⟩, hm, rfl⟩ := map_eq_some_iff.1 hs
    exact (DirOwns.unbindVirtualPage h hok hm).2
  | freeEntry index =>
    split_ifs at hs with hindex
    obtain ⟨⟨m, freed⟩, hm, rfl⟩ := map_eq_some_iff.1 hs
    exact DirOwns.freeEntry h hindex hok hm

end DirState

/-- `unbindVirtualPage` returns and gives back only frames that were handed out for the directory and
none that was entered from outside. `freeEntry` and `freePageDirectory` return and do so if and only
if the pages that are present in the tables they free are owned; with the frames that were handed out
for the directory, `freePageDirectory` counts its own. -/
structure GivesBackOwned (s : DirState) : Prop where
  unbindVirtualPage : ∀ page, page < 1023 * 1024 → ∃ r, s.machine.unbindVirtualPage page = some r ∧ s.GivesBackOwn r.2
  freeEntry : ∀ i < 1024, ∃ r, s.machine.freeEntry i = some r ∧ (s.GivesBackOwn r.2 ↔ DirState.OwnsPages s.machine i)
  freePageDirectory : ∀ c page, HeldBy s.machine c page → ∃ r, (s.machine.use c).freePageDirectory page = some r ∧
      ((∀ f ∈ r.2, (s.handed f = true ∨ f = s.machine.cr3) ∧ s.borrowed f = false) ↔
        ∀ i, 1 ≤ i → i < 768 → DirState.OwnsPages s.machine i)

theorem directory_gives_back_owned {m : Machine} (hm : EmptyDirectory m) {s : DirState}
    (hs : Reaches DirState.step DirState.Careful (DirState.init m) s) : GivesBackOwned s := by
  have h : s.Sound := hs.invariant (DirState.sound_init hm) fun _ _ _ h hok hstep => h.step hok hstep
  refine ⟨fun page hpage => ?_, fun i hi => ?_, fun c page hc => DirOwns.freePageDirectory h hc⟩
  · obtain ⟨m', hm', -⟩ := DirOwns.unbindVirtualPage_eq page h.self (by omega)
    exact ⟨_, hm', (DirOwns.unbindVirtualPage h hpage hm').1⟩
  · obtain ⟨m', hm', -⟩ := DirOwns.freeEntry_eq h.self hi
    exact ⟨_, hm', fun hall => DirOwns.ownsPages_of_slotFrames h hi fun f hf => (hall f hf).2,
      fun hp => DirOwns.handed_of_slotFrames h hi hp⟩

/-- Frame 1 is an empty directory, frame 2 a directory that has frame 1 as its page 0x400 by the table
in frame 3, and the frames from 1 MiB on are free. -/
def twoDirectories : Machine where
  mem := fun f w => if w = 1023 ∧ (f = 1 ∨ f = 2) then BitVec.ofNat 32 (f * 0x1000 + 3)
    else if f = 2 ∧ w = 1 then 0x3003#32
    else if f = 3 ∧ w = 0 then 0x1003#32
    else 0
  bitmap := fun i => if i < 0x20 then 0xFF else 0
  cr3 := 1

lemma twoDirectories_empty : EmptyDirectory twoDirectories := by
  refine ⟨by decide, by decide, fun i hi => ?_, by decide⟩
  have hi' : i ≠ 1023 := by omega
  simp [twoDirectories, hi']

theorem directory_gives_back_owned_mixed : ∃ s : DirState,
    (s.handed 0x102 = true ∧ s.borrowed 2 = true ∧ HeldBy s.machine 2 0x400) ∧ GivesBackOwned s := by
  obtain ⟨s, hs, hhd, hb, hcr3, hself, hlt, hmap, hback⟩ : ∃ s : DirState,
      Reaches DirState.step DirState.Careful (DirState.init twoDirectories) s ∧
      s.handed 0x102 = true ∧ s.borrowed 2 = true ∧ s.machine.cr3 = 1 ∧
      tableFrame s.machine.mem 2 1023 = some 2 ∧ tableFrame s.machine.mem 2 1 = some 3 ∧
      tableFrame s.machine.mem 3 0 = some 1 ∧ pageFrame s.machine.mem 1 0 2 = some 2 :=
    exists_of_run [.mapMemory 2 0x2000#32 .supervisor, .bindVirtualPage 0x400 .user] (by decide +kernel)
  refine ⟨s, ⟨hhd, hb, ?_⟩, directory_gives_back_owned twoDirectories_empty hs⟩
  exact ⟨by rw [hcr3]; decide, hself, by decide, ⟨3, by rw [hcr3]; decide, hlt, hcr3 ▸ hmap⟩, .inl rfl,
    hcr3.symm ▸ hback⟩

/-- The frame of the screen is mapped, and is given back with the table, and with a page that was bound
there before. -/
theorem directory_gives_back_borrowed :
    (∃ s s' : DirState, Reaches DirState.step Any (DirState.init twoDirectories) s ∧
      s.step (.freeEntry 1) = some s' ∧ s.handed 0xB8 = false ∧ s.borrowed 0xB8 = true ∧
        0xB8 ∈ s'.freed ∧ s'.machine.bitmap.Free 0xB8) ∧
    ∃ s : DirState, Reaches DirState.step Any (DirState.init twoDirectories) s ∧
      0xB8 ∈ s.freed ∧ s.handed 0xB8 = false ∧ s.borrowed 0xB8 = true ∧ s.machine.bitmap.Free 0xB8 := by
  constructor
  · obtain ⟨s, hs, hhd, hb, hcr3, hself, ho, ht, hk⟩ : ∃ s : DirState,
        Reaches DirState.step Any (DirState.init twoDirectories) s ∧
        s.handed 0xB8 = false ∧ s.borrowed 0xB8 = true ∧ s.machine.cr3 = 1 ∧
        tableFrame s.machine.mem 1 1023 = some 1 ∧
        (s.machine.mem 1 1).getFlag owned = true ∧
        tableFrame s.machine.mem 1 1 = some 0x100 ∧
        tableFrame s.machine.mem 0x100 0 = some 0xB8 :=
      exists_of_run [.mapMemory 0x400 0xB8000#32 .supervisor] (by decide +kernel)
    have hself' : s.machine.SelfMapped := by
      unfold Machine.SelfMapped
      rwa [hcr3]
    obtain ⟨m, hm, hrel, -⟩ := DirOwns.freeEntry_eq (i := 1) hself' (by decide)
    have hmem : 0xB8 ∈ DirOwns.slotFrames s.machine.mem s.machine.cr3 1 := by
      rw [hcr3]
      exact (DirOwns.mem_slotFrames ho ht).2 (.inl ⟨0, by decide, hk⟩)
    refine ⟨s, s.giveBack (m, DirOwns.slotFrames s.machine.mem s.machine.cr3 1), hs, ?_, hhd, hb, hmem,
      (hrel.free _).2 (.inr hmem)⟩
    simp [DirState.step, hm]
  · exact exists_of_run [.bindVirtualPage 0x400 .user, .mapMemory 0x400 0xB8000#32 .supervisor,
      .unbindVirtualPage 0x400] (by decide +kernel)

end OlliOS
