import OlliOS.Vfs

/-!
# Strings of the C library

A pointer is the memory from there on, as a list of bytes. A read behind the end of it gives `none`.
-/

namespace OlliOS

def cstr (str : List UInt8) : Option CStr :=
  if 0 ∈ str then some (str.takeWhile fun c => decide (c ≠ 0)) else none

theorem cstr_append {c rest : List UInt8} (h : 0 ∉ c) : cstr (c ++ 0 :: rest) = some c := by
  have hmem : 0 ∈ c ++ 0 :: rest := by simp
  rw [cstr, if_pos hmem]
  congr 1
  rw [List.takeWhile_append_of_pos fun a ha => ?_]
  · simp
  · have hne : a ≠ 0 := fun e => h (e ▸ ha)
    simpa using hne

theorem exists_of_cstr {str text : List UInt8} (h : cstr str = some text) :
    ∃ rest, str = text ++ 0 :: rest ∧ 0 ∉ text := by
  unfold cstr at h
  split_ifs at h with hmem
  obtain ⟨before, rest, rfl, hbefore⟩ := List.eq_append_cons_of_mem hmem
  have hcut : cstr (before ++ 0 :: rest) = some before := cstr_append hbefore
  rw [cstr, if_pos hmem, h] at hcut
  cases hcut
  exact ⟨rest, rfl, hbefore⟩

def strcmp : List UInt8 → List UInt8 → Option Int
  | a :: str1, b :: str2 =>
    if a ≠ 0 ∧ b ≠ 0 ∧ a = b then strcmp str1 str2 else some (a.toInt8.toInt - b.toInt8.toInt)
  | _, _ => none

def isspace (c : UInt8) : Bool :=
  c = ' '.toUInt8 || c = '\t'.toUInt8 || c = '\r'.toUInt8 || c = '\n'.toUInt8 || c = 11 || c = 12

namespace Strtol

def digits (base : UInt32) (last : UInt8) : UInt32 → List UInt8 → Option (UInt32 × List UInt8)
  | _, [] => none
  | result, c :: str =>
    if '0'.toUInt8 ≤ c ∧ c ≤ last then
      digits base last (result * base + (c - '0'.toUInt8).toUInt32) str
    else some (result, c :: str)

def sign (str : List UInt8) : Option (Bool × List UInt8) :=
  match str with
  | [] => none
  | c :: str' =>
    if c = '-'.toUInt8 then some (false, str')
    else if c = '+'.toUInt8 then some (true, str') else some (true, c :: str')

end Strtol

/-- The number and `*endptr`. Any base but 8 and 10 is a panic. -/
def strtol (str : List UInt8) (base : UInt32) : Option (UInt32 × List UInt8) := do
  let (isPos, str) ← Strtol.sign (str.dropWhile isspace)
  let (result, str) ←
    if base = 10 then Strtol.digits base '9'.toUInt8 0 str
    else if base = 8 then Strtol.digits base '7'.toUInt8 0 str
    else none
  return (if isPos then result else -result, str)

def Atoi.digits : UInt32 → List UInt8 → Option UInt32
  | _, [] => none
  | result, c :: str => if c ≠ 0 then digits (result * 10 + (c.toInt8.toInt32.toUInt32 - 48)) str else some result

def atoi (str : List UInt8) : Option UInt32 := do
  let (isPos, str) ← Strtol.sign (str.dropWhile isspace)
  let result ← Atoi.digits 0 str
  return if isPos then result else -result

/-- The inner loop compares `*str2` in every round; `i` is an `int`. -/
def Strcspn.matches (c first : UInt8) : ℕ → List UInt8 → Option Bool
  | _, [] => none
  | i, d :: str2 =>
    if d ≠ 0 then
      if c = first then some true else if i + 1 < 2 ^ 31 then Strcspn.matches c first (i + 1) str2 else none
    else some false

def Strcspn.scan (str2 : List UInt8) : UInt32 → List UInt8 → Option UInt32
  | _, [] => none
  | length, c :: str1 =>
    if c ≠ 0 then do
      if ← Strcspn.matches c (str2.headD 0) 0 str2 then return length
      scan str2 (length + 1) str1
    else some length

def strcspn (str1 str2 : List UInt8) : Option UInt32 := Strcspn.scan str2 0 str1

/-- No longer start of `s` than that of `n` characters is without characters of `r`. -/
def LongestWithout (s r : List UInt8) (n : ℕ) : Prop :=
  n ≤ s.length ∧ (∀ c ∈ s.take n, c ∉ r) ∧ ∀ c ∈ s[n]?, c ∈ r

def memmove (mem : UInt32 → UInt8) (dest source num : UInt32) : UInt32 → UInt8 :=
  let copy mem (i : ℕ) := Function.update mem (dest + .ofNat i) (mem (source + .ofNat i))
  if source > dest then (List.range num.toNat).foldl copy mem
  else (List.range num.toNat).foldr (fun i mem => copy mem i) mem

end OlliOS
