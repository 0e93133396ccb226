import OlliOS.Kstd.String

/-!
# Slices of strings

Where `substr` starts and ends is cut to the index of the last character, so a slice that reaches the end of the
string loses a character.
-/

namespace OlliOS.String

open List UInt32

variable {s : CStr} {pos len : UInt32}

/-- The index that `substr` starts at, in a string that is not empty. -/
def first (s : CStr) (pos : UInt32) : ℕ := min pos.toNat (s.length - 1)

lemma toNat_length (hs : s.length < 2 ^ 32) : (ofNat s.length).toNat = s.length := toNat_ofNat_of_lt' hs

section Words

variable (hne : s ≠ []) (hs : s.length < 2 ^ 32)

include hne hs

lemma toNat_last : (ofNat s.length - 1).toNat = s.length - 1 := by
  have hlt : 1 ≤ s.length := length_pos_iff.2 hne
  rw [UInt32.toNat_sub_of_le _ _ (le_iff_toNat_le.2 (by rwa [toNat_length hs])), toNat_length hs, UInt32.toNat_one]

lemma toNat_start : (if ofNat s.length ≤ pos then ofNat s.length - 1 else pos).toNat = first s pos := by
  rw [first]
  split_ifs with hle <;> rw [le_iff_toNat_le, toNat_length hs] at hle
  · rw [toNat_last hne hs]
    omega
  · omega

lemma substr_npos : substr s pos npos = some (s.drop (first s pos)) := by
  have hle : first s pos ≤ s.length := Nat.le_trans (Nat.min_le_right _ _) (Nat.sub_le _ _)
  simp only [substr, if_true, toNat_start hne hs, if_pos hle]

lemma substr_eq (hlen : len ≠ npos) : substr s pos len =
    if first s pos + len.toNat < 2 ^ 32 then some (slice s (first s pos) (min len.toNat (s.length - 1 - first s pos)))
    else none := by
  have hfirst : first s pos ≤ s.length - 1 := Nat.min_le_right _ _
  have hstart : _ = first s pos := toNat_start hne hs
  have hword := len.toNat_lt
  have hlast := toNat_last hne hs
  simp only [substr, if_neg hlen]
  generalize (if ofNat s.length ≤ pos then ofNat s.length - 1 else pos) = start at hstart ⊢
  have hn : ((if ofNat s.length ≤ start + len then ofNat s.length - 1 else start + len) - start).toNat =
      if first s pos + len.toNat < 2 ^ 32 then min len.toNat (s.length - 1 - first s pos) else len.toNat := by
    have hsum : (start + len).toNat = (first s pos + len.toNat) % 2 ^ 32 := by rw [UInt32.toNat_add, hstart]
    split_ifs with hle hfit hfit <;> rw [le_iff_toNat_le, toNat_length hs, hsum] at hle
    · rw [UInt32.toNat_sub_of_le _ _ (le_iff_toNat_le.2 (by omega)), hlast, hstart]
      omega
    · omega
    · rw [UInt32.add_comm, UInt32.add_sub_cancel]
      omega
    · rw [UInt32.add_comm, UInt32.add_sub_cancel]
  rw [hn, hstart]
  rcases Nat.lt_or_ge (first s pos + len.toNat) (2 ^ 32) with hfit | hwrap
  · simp only [if_pos hfit]
    split_ifs with hzero hin
    · rw [slice, hzero, take_zero]
    · rfl
    · omega
  · simp only [if_neg (Nat.not_lt.2 hwrap)]
    rw [if_neg (by omega), if_neg (by omega)]

end Words

lemma slice_eq_iff (hpos : pos.toNat ≤ s.length) (hne : s ≠ []) :
    slice s (first s pos) (min len.toNat (s.length - 1 - first s pos)) = slice s pos.toNat len.toNat ↔
      pos.toNat = s.length ∨ pos.toNat + len.toNat < s.length := by
  rcases Nat.eq_or_lt_of_le hpos with heq | hless
  · have hfirst : first s pos = s.length - 1 := by
      rw [first]
      omega
    simp [slice, hfirst, heq]
  · have hfirst : first s pos = pos.toNat := by
      rw [first]
      omega
    rw [hfirst]
    constructor
    · intro h
      have hl := congrArg List.length h
      simp only [slice, length_take, length_drop] at hl
      omega
    · intro h
      rw [Nat.min_eq_left (by omega)]

/-- A string that is not empty is put together again wherever it is split: at its end the last character is left
out of the first part and is in the second one. -/
theorem substr_iff (hs : s.length + 1 < 2 ^ 32) (hpos : pos.toNat ≤ s.length) :
    (substr s pos len = some (slice s pos.toNat len.toNat) ↔ Sliced s pos len) ∧
      ((∀ i : UInt32, i.toNat ≤ s.length → rejoin s i = some s) ↔ s ≠ []) := by
  rcases eq_or_ne s [] with rfl | hne
  · obtain rfl : pos = 0 := UInt32.toNat_inj.1 (Nat.le_zero.1 hpos)
    refine ⟨?_, fun h => absurd (h 0 (Nat.le_refl _)) (by decide), fun h => absurd rfl h⟩
    rcases eq_or_ne len npos with rfl | hlen
    · simp [substr, Sliced, npos]
    · simp [substr, Sliced, slice, hlen]
  · have hlt := length_pos_iff.2 hne
    have hnpos : npos.toNat = 2 ^ 32 - 1 := rfl
    have hs32 : s.length < 2 ^ 32 := by omega
    refine ⟨?_, fun _ => hne, fun _ i hi => ?_⟩
    · rw [Sliced]
      split_ifs with hlen
      · subst hlen
        have htake : slice s pos.toNat npos.toNat = s.drop pos.toNat := take_of_length_le (by
          rw [length_drop]
          omega)
        rw [substr_npos hne hs32, htake, Option.some_inj, first]
        constructor
        · intro h
          have hl := congrArg List.length h
          simp only [length_drop] at hl
          omega
        · intro h
          rw [Nat.min_eq_left (by omega)]
      · rw [substr_eq hne hs32 hlen]
        have hslice : _ = slice s pos.toNat len.toNat ↔ _ := slice_eq_iff hpos hne
        have hfirst : first s pos = min pos.toNat (s.length - 1) := rfl
        split_ifs with hfit
        · rw [Option.some_inj, hslice]
          simp only [hne, false_or]
          omega
        · simp only [hne, false_or, false_iff]
          omega
    · have hi32 : i ≠ npos := by
        rintro rfl
        omega
      have hzero : first s 0 = 0 := Nat.zero_min _
      rw [rejoin, substr_eq hne hs32 hi32, substr_npos hne hs32, hzero, if_pos (by omega)]
      simp [slice, first, take_append_drop]

theorem substr_iff_end : substr [0x61, 0x62] 1 npos = some [0x62] ∧ Sliced [0x61, 0x62] 1 npos :=
  have h : Sliced [0x61, 0x62] 1 npos := by rw [Sliced, if_pos rfl]; decide
  ⟨(substr_iff (by decide) (by decide)).1.2 h, h⟩

/-- The last character of "ab" is left out, there is one at its end, and an empty string is read in
front of its start. -/
theorem substr_end_lost : substr [0x61, 0x62] 1 1 = some [] ∧ substr [0x61, 0x62] 2 npos = some [0x62] ∧
    substr [] 0 npos = none ∧ rejoin [] 0 = none := ⟨rfl, rfl, rfl, rfl⟩

end OlliOS.String
