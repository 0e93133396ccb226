import OlliOS.Proofs.FileDescriptors

/-!
# `dup2` and the counts of descriptions

In every state that a process gets to by calls that check their descriptors, the strong count of a
description is the number of slots that refer to it. So `dup2` closes a description exactly with its
last descriptor.
-/

namespace OlliOS

open Journal Option Finset

namespace Files

open SysCall

variable {σ : Type} {s : Files σ} {i : ℤ} {e d : ℕ} {t : Files σ} {elsewhere : ℕ → ℕ} {j : ℤ}

lemma assign_null (hi : s.data i = ⟨true, none⟩) (h : s.Refers j e) :
    s.assign i j = (s.setSlot i ⟨true, some e⟩).retain e := by
  have hj : (s.data j).entry = some e := by rw [h]
  have hreset : s.reset i = s := by simp [reset, hi]
  unfold assign
  rw [hreset, hj, hi, if_neg (by simp)]
  simp [setEntry, hi, hj]

def held (s : Files σ) (i : ℤ) : Option ℕ := if (s.data i).used then (s.data i).entry else none

lemma held_eq_some_iff : s.held i = some d ↔ s.Refers i d := by
  unfold held Refers
  rcases s.data i with ⟨_ | _, entry⟩ <;> simp

def redirect (s : Files σ) (i : ℤ) (e : ℕ) : Files σ :=
  ((s.drop (s.held i)).setSlot i ⟨true, some e⟩).retain e

lemma vacate_setSlot (s : Files σ) (i : ℤ) (v : Slot) :
    (s.vacate i).setSlot i v = (s.drop (s.held i)).setSlot i v := by
  cases hu : (s.data i).used with
  | true => rw [vacate_of_used hu, setSlot_setSlot, held, if_pos hu]
  | false => rw [vacate_of_unused hu, held, if_neg (by simp [hu]), drop]

lemma dup2_of_ne {a b : Int32} (ha : InTable a.toInt) (hb : InTable b.toInt)
    (hopen : s.Refers a.toInt e) (hne : a.toInt ≠ b.toInt) :
    Leads InTable (dup2 a b) s (s.redirect b.toInt e) b := by
  have hleads := dup2_leads ⟨ha, by rw [hopen]⟩ hb
  have hkept : ((s.vacate b.toInt).setSlot b.toInt ⟨true, none⟩).Refers a.toInt e := by
    rwa [Refers, setSlot_data_of_ne _ _ hne, vacate_data_of_ne _ hne]
  rwa [assign_null (setSlot_data_self _ _ _) hkept, setSlot_setSlot, vacate_setSlot] at hleads

lemma redirect_data_self (s : Files σ) (i : ℤ) (e : ℕ) : (s.redirect i e).Refers i e :=
  setSlot_data_self _ _ _

lemma redirect_data_of_ne (s : Files σ) (e : ℕ) (hne : j ≠ i) : (s.redirect i e).data j = s.data j :=
  (setSlot_data_of_ne _ _ hne).trans (by rw [drop_data])

lemma redirect_closes (s : Files σ) (i : ℤ) (e : ℕ) : (s.redirect i e).closes = (s.drop (s.held i)).closes :=
  rfl

lemma release_closes (s : Files σ) (d d' : ℕ) :
    s.closes d' < (s.release d).closes d' ↔ d' = d ∧ (s.info d).strongCount = 1 := by
  by_cases h : (s.info d).strongCount - 1 = 0
  · have hone : (s.info d).strongCount = 1 := by omega
    rcases eq_or_ne d' d with rfl | hne
    · simp [release, destroy, hone]
    · simp [release, destroy, hone, hne]
  · have hone : (s.info d).strongCount ≠ 1 := by omega
    simp [release, h, hone]

def slots (s : Files σ) (d : ℕ) : Finset ℕ := (range maxCount).filter fun i : ℕ => s.Refers i d

lemma mem_slots {j : ℕ} : j ∈ s.slots d ↔ InTable j ∧ s.Refers j d := by
  have hin : InTable (j : ℤ) ↔ j < maxCount := by
    unfold InTable
    omega
  rw [slots, mem_filter, mem_range, hin]

lemma last_iff (hs : s.Counted elsewhere) (hi : InTable i) (h : s.Refers i d) :
    s.Last elsewhere i d ↔ (s.info d).strongCount = 1 := by
  obtain ⟨i, rfl⟩ := Int.eq_ofNat_of_zero_le hi.1
  have hpos : 0 < (s.slots d).card := card_pos.2 ⟨i, mem_slots.2 ⟨hi, h⟩⟩
  have honly : (s.slots d).card ≤ 1 ↔ ∀ j, InTable j → s.Refers j d → j = i := by
    rw [card_le_one]
    constructor
    · intro hall j hj hr
      obtain ⟨j, rfl⟩ := Int.eq_ofNat_of_zero_le hj.1
      exact congrArg Nat.cast (hall j (mem_slots.2 ⟨hj, hr⟩) i (mem_slots.2 ⟨hi, h⟩))
    intro hall j hj k hk
    obtain ⟨hj, hjr⟩ := mem_slots.1 hj
    obtain ⟨hk, hkr⟩ := mem_slots.1 hk
    have hji := hall j hj hjr
    have hki := hall k hk hkr
    omega
  have hcount : (s.info d).strongCount = elsewhere d + (s.slots d).card := hs i d hi h
  rw [Last, ← honly, hcount]
  simp only [h, true_and]
  omega

lemma redirect_closed (hs : s.Counted elsewhere) (hi : InTable i) (d e : ℕ) :
    s.closes d < (s.redirect i e).closes d ↔ s.Last elsewhere i d := by
  rw [redirect_closes]
  cases hheld : s.held i with
  | none =>
    have hnot : ¬ s.Last elsewhere i d := by
      rintro ⟨hr, -⟩
      rw [held_eq_some_iff.2 hr] at hheld
      cases hheld
    simp [drop, hnot]
  | some d' =>
    have hr := held_eq_some_iff.1 hheld
    rw [drop, release_closes, ← last_iff hs hi hr]
    constructor
    · rintro ⟨rfl, hlast⟩
      exact hlast
    intro hlast
    have heq : d = d' := by
      have hsame := held_eq_some_iff.2 hlast.1
      rw [hheld] at hsame
      exact (some.inj hsame).symm
    exact ⟨heq, heq ▸ hlast⟩

theorem dup2_aliases_iff {elsewhere : ℕ → ℕ} (hs : s.Counted elsewhere) {a b : Int32} {e : ℕ}
    (ha : InTable a.toInt) (hb : InTable b.toInt) (hopen : s.Refers a.toInt e) :
    s.Aliases elsewhere a b e ↔ a ≠ b := by
  constructor
  · rintro h rfl
    obtain ⟨l, -, hrun⟩ := dup2_leads ⟨ha, by rw [hopen]⟩ ha
    have hsecond := h.second
    rw [hrun, assign, if_pos rfl, Refers, setSlot_data_self] at hsecond
    simp at hsecond
  · intro hne
    have hne' : a.toInt ≠ b.toInt := fun h => hne (Int32.toInt_inj.1 h)
    obtain ⟨l, -, hrun⟩ := dup2_of_ne ha hb hopen hne'
    have hfirst : (s.redirect b.toInt e).Refers a.toInt e := by
      rwa [Refers, redirect_data_of_ne _ _ hne']
    have hsecond := s.redirect_data_self b.toInt e
    constructor <;> rw [hrun]
    · exact hsecond
    · exact hfirst
    · exact fun i _ hi => s.redirect_data_of_ne e hi
    · intro d
      rw [redirect_closed hs hb]
      refine ⟨fun hlast => ⟨hlast, ?_⟩, fun h => h.1⟩
      rintro rfl
      exact hne' (hlast.2.2 a.toInt ha hopen)
    · rintro file (rfl | rfl)
      · exact moves_of_refers ha hfirst
      · exact moves_of_refers hb hsecond

def twoFolders : Files ℕ :=
  { folderFiles with data := fun i => if i = 0 then ⟨true, some 0⟩ else if i = 1 then ⟨true, some 1⟩ else ⟨false, none⟩ }

lemma twoFolders_refers (h : twoFolders.Refers i d) : (i = 0 ∧ d = 0) ∨ (i = 1 ∧ d = 1) := by
  unfold Refers twoFolders at h
  dsimp only at h
  split_ifs at h with h0 h1
  · exact .inl ⟨h0, by simpa using h.symm⟩
  · exact .inr ⟨h1, by simpa using h.symm⟩
  · cases h

lemma twoFolders_counted : twoFolders.Counted fun _ => 0 := by
  intro i d _ hr
  have hslots : twoFolders.slots d = {d} := by
    ext j
    rw [mem_slots, mem_singleton]
    constructor
    · rintro ⟨-, hj⟩
      rcases twoFolders_refers hj with ⟨hj, hd⟩ | ⟨hj, hd⟩ <;> omega
    · rintro rfl
      rcases twoFolders_refers hr with ⟨-, rfl⟩ | ⟨-, rfl⟩
      · exact ⟨by decide, rfl⟩
      · exact ⟨by decide, rfl⟩
  have hrefs : twoFolders.refs d = 1 := congrArg card hslots
  rw [hrefs]
  rfl

lemma twoFolders_open : twoFolders.Refers (0 : Int32).toInt 0 := rfl

theorem dup2_aliases_two : twoFolders.Counted (fun _ => 0) ∧ InTable (0 : Int32).toInt ∧
    InTable (1 : Int32).toInt ∧ twoFolders.Refers (0 : Int32).toInt 0 ∧
    twoFolders.Aliases (fun _ => 0) 0 1 0 :=
  ⟨twoFolders_counted, by decide, by decide, twoFolders_open,
    (dup2_aliases_iff twoFolders_counted (by decide) (by decide) twoFolders_open).2 (by decide)⟩

/-- `dup2(0, 0)` closes the description and leaves a null pointer. -/
theorem dup2_self_lost : twoFolders.Refers (0 : Int32).toInt 0 ∧ ((SysCall.dup2 0 0).run twoFolders).result = .ok 0 ∧
    ((SysCall.dup2 0 0).run twoFolders).state.data 0 = ⟨true, none⟩ ∧
    ((SysCall.dup2 0 0).run twoFolders).state.closes 0 = 1 ∧
    ¬ twoFolders.Aliases (fun _ => 0) 0 0 0 := by
  have hnull : ((SysCall.dup2 0 0).run twoFolders).state.data 0 = ⟨true, none⟩ := rfl
  refine ⟨rfl, rfl, hnull, rfl, fun h => ?_⟩
  cases h.second

end Files

end OlliOS
