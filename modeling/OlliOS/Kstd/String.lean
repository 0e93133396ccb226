import OlliOS.Vfs

/-!
# `std::string`

A string is the list of its characters. Reading outside of them and of the 0 behind them gives `none`, and so
does a string that is longer than there is memory for.
-/

namespace OlliOS.String

def npos : UInt32 := -1

def substr (s : CStr) (pos len : UInt32) : Option CStr :=
  let slen := UInt32.ofNat s.length
  let start := if slen ≤ pos then slen - 1 else pos
  if len = npos then
    if start.toNat ≤ s.length then some (s.drop start.toNat) else none
  else
    let last := if slen ≤ start + len then slen - 1 else start + len
    let n := (last - start).toNat
    if n = 0 then some []
    else if start.toNat + n ≤ s.length then some ((s.drop start.toNat).take n) else none

def slice (s : CStr) (pos len : ℕ) : CStr := (s.drop pos).take len

/-- `s.substr(0, i) + s.substr(i)`. -/
def rejoin (s : CStr) (i : UInt32) : Option CStr := do
  return (← substr s 0 i) ++ (← substr s i npos)

/-- The slice ends before the last character, or it is the rest of the string and not empty. At the end of the
string, the sum of the index of the last character and the length must not wrap. -/
def Sliced (s : CStr) (pos len : UInt32) : Prop :=
  if len = npos then pos.toNat < s.length
  else s = [] ∨ (pos.toNat = s.length ∧ s.length - 1 + len.toNat < 2 ^ 32) ∨ pos.toNat + len.toNat < s.length

end OlliOS.String
