import OlliOS.Libk.Strings

/-!
# `memmove` and `strcspn`

The bytes that `memmove` has copied are at all times an interval, and the next byte to be read is not in
it. `strcspn` looks for the first character of its second string only.
-/

namespace OlliOS

open UInt32 Strcspn List

/-! ### `memmove` -/

section Memmove

variable (mem : UInt32 → UInt8) (dest source : UInt32)

/-- The bytes from `lo` to `hi` have been copied. -/
def copied (lo hi : ℕ) (a : UInt32) : UInt8 :=
  if lo ≤ (a - dest).toNat ∧ (a - dest).toNat < hi then mem (source + (a - dest)) else mem a

lemma copied_step {lo hi lo' hi' i : ℕ} (hi32 : i < 4294967296)
    (hrange : ∀ j, lo' ≤ j ∧ j < hi' ↔ j = i ∨ lo ≤ j ∧ j < hi)
    (hunread : ¬ (lo ≤ (source + ofNat i - dest).toNat ∧ (source + ofNat i - dest).toNat < hi)) :
    Function.update (copied mem dest source lo hi) (dest + ofNat i)
      (copied mem dest source lo hi (source + ofNat i)) = copied mem dest source lo' hi' := by
  have hi : (ofNat i).toNat = i := toNat_ofNat_of_lt hi32
  funext a
  by_cases ha : a = dest + ofNat i
  · subst ha
    have hplace : dest + ofNat i - dest = ofNat i := by rw [UInt32.add_comm, UInt32.add_sub_cancel]
    rw [Function.update_self, copied, if_neg hunread, copied, hplace, hi, if_pos ((hrange i).2 (.inl rfl))]
  have hne : (a - dest).toNat ≠ i := by
    intro heq
    refine ha ?_
    rw [← heq, UInt32.ofNat_toNat, UInt32.add_comm, UInt32.sub_add_cancel]
  rw [Function.update_of_ne ha]
  refine if_congr ?_ rfl rfl
  rw [hrange, or_iff_right hne]

variable {dest source} {num : UInt32}

lemma memmove_eq (hdest : dest.toNat + num.toNat ≤ 2 ^ 32) (hsource : source.toNat + num.toNat ≤ 2 ^ 32) :
    memmove mem dest source num = copied mem dest source 0 num.toNat := by
  have hempty : ∀ k, mem = copied mem dest source k k := fun k => funext fun a => (if_neg (by omega)).symm
  have hplace : ∀ i < num.toNat, (source + ofNat i - dest).toNat =
      (4294967296 - dest.toNat + (source.toNat + i)) % 4294967296 := by
    intro i hi
    rw [UInt32.toNat_sub, UInt32.toNat_add, toNat_ofNat']
    omega
  unfold memmove
  split_ifs with hlt
  · -- forward: after `k` rounds the first `k` bytes are there
    have hlt' : dest.toNat < source.toNat := hlt
    have hrun : ∀ k ≤ num.toNat, (range k).foldl (fun mem i =>
        Function.update mem (dest + .ofNat i) (mem (source + .ofNat i))) mem = copied mem dest source 0 k := by
      intro k
      induction k with
      | zero => exact fun _ => hempty 0
      | succ k ih =>
        intro hk
        have hread := hplace k (by omega)
        rw [range_succ, foldl_append, ih (by omega)]
        exact copied_step mem dest source (by omega) (by omega) (by omega)
    exact hrun _ (Nat.le_refl _)
  · -- backward: the bytes from `num - k` on are there
    have hle : source.toNat ≤ dest.toNat := UInt32.le_iff_toNat_le.1 (UInt32.not_lt.1 hlt)
    have hrun : ∀ k j, k + j = num.toNat → (range' k j).foldr (fun i mem =>
        Function.update mem (dest + .ofNat i) (mem (source + .ofNat i))) mem = copied mem dest source k num.toNat := by
      intro k j
      induction j generalizing k with
      | zero =>
        rintro rfl
        exact hempty _
      | succ j ih =>
        intro hk
        have hread := hplace k (by omega)
        rw [range'_succ, foldr_cons, ih (k + 1) (by omega)]
        exact copied_step mem dest source (by omega) (by omega) (by omega)
    rw [range_eq_range']
    exact hrun 0 _ (by omega)

/-- The bytes at `dest` are those that were at `source`, however the two overlap. -/
theorem memmove_snapshot (hdest : dest.toNat + num.toNat ≤ 2 ^ 32) (hsource : source.toNat + num.toNat ≤ 2 ^ 32) :
    (∀ i < num, memmove mem dest source num (dest + i) = mem (source + i)) ∧
    ∀ a : UInt32, a.toNat < dest.toNat ∨ dest.toNat + num.toNat ≤ a.toNat → memmove mem dest source num a = mem a := by
  rw [memmove_eq mem hdest hsource]
  refine ⟨fun i hi => ?_, fun a ha => if_neg ?_⟩
  · have hplace : dest + i - dest = i := by rw [UInt32.add_comm, UInt32.add_sub_cancel]
    rw [copied, hplace, if_pos ⟨Nat.zero_le _, lt_iff_toNat_lt.1 hi⟩]
  · have halt := a.toNat_lt
    rw [UInt32.toNat_sub]
    omega

end Memmove

theorem memmove_snapshot_overlap : memmove UInt32.toUInt8 11 10 4 14 = 13 ∧ memmove UInt32.toUInt8 11 10 4 15 = 15 := by
  obtain ⟨hcopied, hkept⟩ := memmove_snapshot UInt32.toUInt8 (show (11 : UInt32).toNat + (4 : UInt32).toNat ≤ 2 ^ 32 by decide)
    (show (10 : UInt32).toNat + (4 : UInt32).toNat ≤ 2 ^ 32 by decide)
  exact ⟨hcopied 3 (by decide), hkept 15 (by decide)⟩

/-! ### `strcspn` -/

namespace Strcspn

variable {c first : UInt8} {r s rest rest' : List UInt8}

lemma matches_ne (hc : c ≠ first) : ∀ {r : List UInt8} {i : ℕ}, 0 ∉ r → i < 2 ^ 31 →
    Strcspn.matches c first i (r ++ 0 :: rest) = if i + r.length < 2 ^ 31 then some false else none
  | [], i, _, hi => (if_pos hi).symm
  | d :: r, i, hr, hi => by
    have hd : d ≠ 0 := fun h => hr (by simp [h])
    rw [cons_append, Strcspn.matches, if_pos hd, if_neg hc, length_cons]
    split_ifs with hnext hall hall
    · rw [matches_ne hc (fun h => hr (by simp [h])) hnext, if_pos (by omega)]
    · rw [matches_ne hc (fun h => hr (by simp [h])) hnext, if_neg (by omega)]
    · omega
    · rfl

/-- The characters of `s` before the first one that is the first of `r`. -/
def before (r s : List UInt8) : List UInt8 := s.takeWhile fun c => decide (r.head? ≠ some c)

lemma matches_eq (hr : 0 ∉ r) : Strcspn.matches c ((r ++ 0 :: rest).headD 0) 0 (r ++ 0 :: rest) =
    if r.head? = some c then some true else if r.length < 2 ^ 31 then some false else none := by
  cases r with
  | nil => rfl
  | cons d r =>
    have hd : d ≠ 0 := fun h => hr (by simp [h])
    by_cases hc : c = d
    · subst hc
      simp [Strcspn.matches, hd]
    · rw [matches_ne (by simpa using hc) hr (by omega)]
      simp [Ne.symm hc]

lemma scan_eq (hr : 0 ∉ r) : ∀ {s : List UInt8} {length : UInt32}, 0 ∉ s →
    scan (r ++ 0 :: rest) length (s ++ 0 :: rest') =
      if before r s = [] ∨ r.length < 2 ^ 31 then some (length + ofNat (before r s).length) else none
  | [], length, _ => by simp [scan, before]
  | c :: s, length, hs => by
    have hc : c ≠ 0 := fun h => hs (by simp [h])
    rw [cons_append, scan, if_pos hc, matches_eq hr]
    by_cases hhead : r.head? = some c
    · simp [hhead, before]
    have hcons : before r (c :: s) = c :: before r s := by simp [before, hhead]
    rw [hcons, if_neg hhead]
    by_cases hlen : r.length < 2 ^ 31
    · have hnext : length + 1 + ofNat (before r s).length = length + ofNat ((before r s).length + 1) := by
        rw [UInt32.ofNat_add, UInt32.add_comm (ofNat _), UInt32.add_assoc]
        rfl
      rw [if_pos hlen, if_pos (.inr hlen), length_cons, ← hnext]
      exact (scan_eq hr fun h => hs (by simp [h])).trans (if_pos (.inr hlen))
    · rw [if_neg hlen, if_neg (by simpa using hlen)]
      rfl

lemma longestWithout_iff : LongestWithout s r (before r s).length ↔ ∀ c ∈ before r s, c ∉ r := by
  have htake : s.take (before r s).length = before r s := (prefix_iff_eq_take.1 ( takeWhile_prefix _)).symm
  unfold LongestWithout
  rw [htake]
  refine ⟨fun h => h.2.1, fun h => ⟨( takeWhile_prefix _).length_le, h, fun c hc => ?_⟩⟩
  have hsplit : s = before r s ++ s.dropWhile fun c => decide (r.head? ≠ some c) :=
    takeWhile_append_dropWhile.symm
  have hplace := congrArg (fun l => l[(before r s).length]?) hsplit
  simp only [getElem?_append_right (Nat.le_refl _), Nat.sub_self, ← head?_eq_getElem?] at hplace
  have hnext := head?_dropWhile_not (fun c => decide (r.head? ≠ some c)) s
  rw [← hplace, Option.mem_def.1 hc] at hnext
  exact mem_of_mem_head? (by simpa using hnext)

end Strcspn

/-- `strcspn` is right when no other character of `r` comes before the first one of `r` in `s`. -/
theorem strcspn_iff {s r rest rest' : List UInt8} (hs : 0 ∉ s) (hr : 0 ∉ r) (hlength : s.length < 2 ^ 32) :
    (∃ n, strcspn (s ++ 0 :: rest) (r ++ 0 :: rest') = some n ∧ LongestWithout s r n.toNat) ↔
      (before r s = [] ∨ r.length < 2 ^ 31) ∧ ∀ c ∈ before r s, c ∉ r := by
  have hle : (before r s).length ≤ s.length := ( takeWhile_prefix _).length_le
  have hn : (ofNat (before r s).length).toNat = (before r s).length :=
    toNat_ofNat_of_lt (Nat.lt_of_le_of_lt hle hlength)
  rw [strcspn, scan_eq hr hs, UInt32.zero_add]
  split_ifs with hdone
  · rw [and_iff_right hdone, ← longestWithout_iff]
    constructor
    · rintro ⟨n, hn', h⟩
      rwa [← Option.some.inj hn', hn] at h
    · exact fun h => ⟨_, rfl, hn.symm ▸ h⟩
  · exact iff_of_false (fun ⟨_, hnone, _⟩ => by simp at hnone) fun h => hdone h.1

theorem strcspn_iff_comma : ∃ n, strcspn [0x61, 0x62, 0x2C, 0] [0x2C, 0] = some n ∧
    LongestWithout [0x61, 0x62, 0x2C] [0x2C] n.toNat :=
  (strcspn_iff (s := [0x61, 0x62, 0x2C]) (r := [0x2C]) (by simp) (by simp) (by simp)).2
    ⟨.inr (by simp), by simp [before]⟩

/-- `b` is in `ab`, but is not its first character. -/
theorem strcspn_second_missed : strcspn [0x62, 0x61, 0] [0x61, 0x62, 0] = some 1 ∧
    ¬ LongestWithout [0x62, 0x61] [0x61, 0x62] 1 ∧ LongestWithout [0x62, 0x61] [0x61, 0x62] 0 := by
  refine ⟨rfl, ?_, ?_⟩ <;> simp [LongestWithout]

end OlliOS
