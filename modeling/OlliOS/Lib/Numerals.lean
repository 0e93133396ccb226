import Mathlib.Data.Nat.Digits.Lemmas

/-!
# Numerals

The digits of a number from the first to the last, where the number 0 has one digit, and the number that
a list of digits stands for.
-/

namespace Numerals

open List

variable {α : Type*} {β : Type*} {base n : ℕ}

def numeral (base : ℕ) (digit : ℕ → α) (n : ℕ) : List α :=
  (if n = 0 then [0] else (Nat.digits base n).reverse).map digit

def padded (places : ℕ) (zero : α) (ds : List α) : List α := replicate (places - ds.length) zero ++ ds

def value (ds : List ℕ) : ℕ := ds.foldl (fun n d => n * 10 + d) 0

theorem value_reverse (ds : List ℕ) : value ds.reverse = Nat.ofDigits 10 ds := by
  rw [value, foldl_reverse, Nat.ofDigits_eq_foldr]
  congr 1
  funext d n
  rw [Nat.mul_comm, Nat.add_comm]
  rfl

theorem value_numeral (n : ℕ) : value (numeral 10 id n) = n := by
  unfold numeral
  split_ifs with hn
  · rw [hn]
    rfl
  · rw [map_id, value_reverse, Nat.ofDigits_digits]

theorem value_replicate_zero (ds : List ℕ) : ∀ k : ℕ, value (replicate k 0 ++ ds) = value ds
  | 0 => rfl
  | k + 1 => value_replicate_zero ds k

theorem value_padded (places : ℕ) (ds : List ℕ) : value (padded places 0 ds) = value ds :=
  value_replicate_zero ds _

theorem length_padded (places : ℕ) (zero : α) (ds : List α) : (padded places zero ds).length = max places ds.length := by
  rw [padded, length_append, length_replicate]
  omega

theorem map_padded (f : α → β) (places : ℕ) (zero : α) (ds : List α) :
    (padded places zero ds).map f = padded places (f zero) (ds.map f) := by
  simp [padded]

theorem map_numeral (f : α → β) (base : ℕ) (digit : ℕ → α) (n : ℕ) :
    (numeral base digit n).map f = numeral base (f ∘ digit) n := by
  simp [numeral]

theorem length_numeral_le_iff {k : ℕ} (digit : ℕ → α) (hbase : 1 < base) (hk : 0 < k) :
    (numeral base digit n).length ≤ k ↔ n < base ^ k := by
  unfold numeral
  rw [length_map]
  split_ifs with hn
  · exact iff_of_true hk (hn ▸ Nat.pow_pos (by omega))
  · rw [length_reverse]
    exact Nat.digits_length_le_iff hbase n

theorem numeral_ne_nil (base : ℕ) (digit : ℕ → α) (n : ℕ) : numeral base digit n ≠ [] := by
  unfold numeral
  split_ifs with hn
  · simp
  · simp [Nat.digits_ne_nil_iff_ne_zero.2 hn]

theorem mem_numeral {digit : ℕ → α} {c : α} (hbase : 1 < base) (h : c ∈ numeral base digit n) :
    ∃ d < base, digit d = c := by
  obtain ⟨d, hd, rfl⟩ := mem_map.1 h
  refine ⟨d, ?_, rfl⟩
  split_ifs at hd with hn
  · rw [mem_singleton.1 hd]
    omega
  · exact Nat.digits_lt_base hbase (mem_reverse.1 hd)

theorem numeral_of_base_le (digit : ℕ → α) (hbase : 1 < base) (h : base ≤ n) :
    numeral base digit n = numeral base digit (n / base) ++ [digit (n % base)] := by
  have hdiv : n / base ≠ 0 := (Nat.div_pos h (by omega)).ne'
  rw [numeral, numeral, if_neg hdiv, if_neg (by omega), Nat.digits_def' hbase (by omega)]
  simp

theorem numeral_of_lt (digit : ℕ → α) (h : n < base) : numeral base digit n = [digit n] := by
  unfold numeral
  split_ifs with hn
  · rw [hn]
    rfl
  · rw [Nat.digits_of_lt base n hn h]
    rfl

end Numerals
