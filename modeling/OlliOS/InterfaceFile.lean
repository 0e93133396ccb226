import OlliOS.Libk.Printf

/-!
# Files of drivers

An interface file hands what is written to it to a function of its driver `C`, and asks another one for what
is read. A function returns the number of bytes it used, an `i32`, and nothing if it left the memory it may
access. `readWriteData` is the file of one number.
-/

namespace OlliOS

/-- A `size_t` that is returned as an `i32`. -/
def toI32 (n : UInt32) : ℤ := n.toBitVec.toInt

structure InterfaceFile (C : Type) where
  setter : (value : ℕ → UInt8) → (length pos : UInt32) → C → Option (C × ℤ)
  getter : (length pos : UInt32) → C → Option (List UInt8 × ℤ)
  positionIndependant : Bool

namespace InterfaceFile

variable {C : Type}

def write (f : InterfaceFile C) (value : ℕ → UInt8) (size pos : UInt32) (c : C) : Option (C × ℤ) :=
  if pos = 0 ∨ f.positionIndependant = false then f.setter value size pos c else some (c, 0)

def read (f : InterfaceFile C) (size pos : UInt32) (c : C) : Option (List UInt8 × ℤ) :=
  if pos = 0 ∨ f.positionIndependant = false then f.getter size pos c else some ([], 0)

def bytes (value : ℕ → UInt8) (length : UInt32) : List UInt8 := (List.range length.toNat).map value

/-- `sprintf(data, "%d\n", n)` with 12 bytes of `data`, and `strcpy` when there is room for the text and
its NUL. -/
def print (n : ℤ) (length : UInt32) : Option (List UInt8 × ℤ) := do
  let (data, _) ← Printf.sprintf (['%', 'd', '\n'].map Char.toUInt8) [.word ⟨BitVec.ofInt 32 n⟩]
  if 12 < data.length then none
  else
    let text ← cstr data
    return if length.toNat ≤ text.length then ([], 0) else (text ++ [0], text.length)

def readOnlyData (data : ℤ) : InterfaceFile C where
  setter _ _ _ c := some (c, 0)
  getter length _ _ := print data length
  positionIndependant := true

structure Parser (w : ℕ) where
  parsed : BitVec w
  parsedAnything : Bool
  finished : Bool
  isMin : Bool

namespace Parser

variable {w : ℕ}

def init : Parser w := ⟨0, false, false, false⟩

def next (p : Parser w) (c : UInt8) : Option (Parser w) :=
  if c = '-'.toUInt8 then
    if p.parsedAnything then none else some { p with parsedAnything := true, isMin := true }
  else if c = ' '.toUInt8 ∨ c = '\t'.toUInt8 ∨ c = '\n'.toUInt8 ∨ c = '\r'.toUInt8 then
    if p.parsedAnything then some { p with finished := true } else some p
  else if '0'.toUInt8 ≤ c ∧ c ≤ '9'.toUInt8 then
    if p.finished then none
    else some { p with
      parsedAnything := true, parsed := p.parsed * 10 + BitVec.ofNat w (c - '0'.toUInt8).toNat }
  else none

def parse (value : ℕ → UInt8) (length : UInt32) : Option (BitVec w) := do
  let p ← (bytes value length).foldlM next init
  return if p.isMin then -p.parsed else p.parsed

end Parser

/-- `toInt` is the promotion of the type of the number. -/
def readWriteData {w : ℕ} (toInt : BitVec w → ℤ) (getter : C → BitVec w) (setter : C → BitVec w → C) :
    InterfaceFile C where
  setter value length _ c :=
    match Parser.parse value length with
    | none => some (c, 0)
    | some parsed => some (setter c parsed, toI32 length)
  getter length _ c := print (toInt (getter c)) length
  positionIndependant := true

/-! ### Numbers -/

def Blank (c : UInt8) : Prop := c = ' '.toUInt8 ∨ c = '\t'.toUInt8 ∨ c = '\n'.toUInt8 ∨ c = '\r'.toUInt8

/-- The text is a number between blanks, as far as it has digits. -/
structure Spells (s : List UInt8) (neg : Bool) (ds : List ℕ) : Prop where
  digits : ∀ d ∈ ds, d < 10
  text : ∃ before after, (∀ c ∈ before, Blank c) ∧ (∀ c ∈ after, Blank c) ∧
    s = before ++ ((if neg then ['-'.toUInt8] else []) ++ (ds.map Printf.decimal ++ after))

def denoted (neg : Bool) (ds : List ℕ) : ℤ := if neg then -(Numerals.value ds : ℤ) else Numerals.value ds

/-- A file of one number takes a text that is a number, and leaves the driver alone with any other. -/
def AcceptsNumbers (w : ℕ) (value : ℕ → UInt8) (length : UInt32) : Prop :=
  ∀ (C : Type) (toInt : BitVec w → ℤ) (getter : C → BitVec w) (setter : C → BitVec w → C) (c : C),
    (∀ neg ds, Spells (bytes value length) neg ds → ds ≠ [] → (readWriteData toInt getter setter).write value length 0 c =
      some (setter c (BitVec.ofInt w (denoted neg ds)), toI32 length)) ∧
    ((¬ ∃ neg ds, Spells (bytes value length) neg ds ∧ ds ≠ []) →
      (readWriteData toInt getter setter).write value length 0 c = some (c, 0))

/-- What is read while the number is `v` stores `v` when it is written back. -/
def RoundTrips {w : ℕ} (toInt : BitVec w → ℤ) (v : BitVec w) : Prop :=
  ∀ (C : Type) (getter : C → BitVec w) (setter : C → BitVec w → C) (c : C) (length : UInt32),
    getter c = v → 13 ≤ length.toNat → ∃ text n, (readWriteData toInt getter setter).read length 0 c = some (text, n) ∧
      ∀ (value : ℕ → UInt8) (written : UInt32) (c : C), written.toNat = n → bytes value written <+: text →
        (readWriteData toInt getter setter).write value written 0 c = some (setter c v, n)

end InterfaceFile

end OlliOS
