import OlliOS.Lib.Numerals
import OlliOS.Libk.Strings

/-!
# Formatted output

A format is the text before its NUL, and `target` has the bytes written so far. An argument of a type that the
conversion does not ask for, or a missing one, gives `none`, and so does a digit that has no place in the local
buffer of a number. `render` is what a format is for.
-/

namespace OlliOS.Printf

open Numerals

inductive Arg where
  | word (n : UInt32)
  | long (n : UInt64)
  | string (memory : List UInt8)

structure PrintfConfig where
  width : UInt32
  precision : UInt32
  hasPrecision : Bool
  isLong : Bool
  parsingCmd : Bool
  target : List UInt8
  written : UInt32

def write (p : PrintfConfig) (c : UInt8) : PrintfConfig :=
  { p with target := p.target ++ [c], written := p.written + 1 }

/-- The digits of a number, the last one first, in a buffer that has `room` places left. -/
def digits (base : ℕ) (digit : ℕ → UInt8) : ℕ → ℕ → Option (List UInt8)
  | 0, _ => none
  | room + 1, num =>
    if 0 < num / base then (digits base digit room (num / base)).map (digit (num % base) :: ·)
    else some [digit (num % base)]

def decimal (d : ℕ) : UInt8 := '0'.toUInt8 + UInt8.ofNat d

def hex (ten : UInt8) (d : ℕ) : UInt8 :=
  if d ≤ 9 then '0'.toUInt8 + UInt8.ofNat d else ten + UInt8.ofNat d - 0xA

def printNumber (base : ℕ) (digit : ℕ → UInt8) (room : ℕ) (p : PrintfConfig) (num : ℕ) : Option PrintfConfig := do
  let c ← digits base digit room num
  let zeros := (p.precision.toInt32.toInt - c.length).toNat
  return (List.replicate zeros '0'.toUInt8 ++ c.reverse).foldl write p

def printUnsigned (p : PrintfConfig) (num : UInt32) : Option PrintfConfig := printNumber 10 decimal 10 p num.toNat

def printUnsignedLong (p : PrintfConfig) (num : UInt64) : Option PrintfConfig := printNumber 10 decimal 20 p num.toNat

def printSigned (p : PrintfConfig) (num : UInt32) : Option PrintfConfig :=
  if num.toInt32 < 0 then printUnsigned (write p '-'.toUInt8) (-num) else printUnsigned p num

def printSignedLong (p : PrintfConfig) (num : UInt64) : Option PrintfConfig :=
  if num.toInt64 < 0 then printUnsignedLong (write p '-'.toUInt8) (-num) else printUnsignedLong p num

def printHexLower (p : PrintfConfig) (num : UInt32) : Option PrintfConfig :=
  printNumber 16 (hex 'a'.toUInt8) 8 p num.toNat

def printHexLowerLong (p : PrintfConfig) (num : UInt64) : Option PrintfConfig :=
  printNumber 16 (hex 'a'.toUInt8) 16 p num.toNat

def printHexUpper (p : PrintfConfig) (num : UInt32) : Option PrintfConfig :=
  printNumber 16 (hex 'A'.toUInt8) 8 p num.toNat

def printHexUpperLong (p : PrintfConfig) (num : UInt64) : Option PrintfConfig :=
  printNumber 16 (hex 'A'.toUInt8) 16 p num.toNat

/-- A conversion of an integer: `va_arg` takes the argument, the long one if there was an `l`. -/
def convert (short : PrintfConfig → UInt32 → Option PrintfConfig) (long : PrintfConfig → UInt64 → Option PrintfConfig) :
    PrintfConfig × List Arg → Option (PrintfConfig × List Arg)
  | (p, .word n :: argp) => if p.isLong then none else do return ({ ← short p n with parsingCmd := false }, argp)
  | (p, .long n :: argp) => if p.isLong then do return ({ ← long p n with parsingCmd := false }, argp) else none
  | _ => none

def convertChar : PrintfConfig × List Arg → Option (PrintfConfig × List Arg)
  | (p, .word n :: argp) => some ({ write p n.toUInt8 with parsingCmd := false }, argp)
  | _ => none

def convertString : PrintfConfig × List Arg → Option (PrintfConfig × List Arg)
  | (p, .string memory :: argp) =>
    (cstr memory).map fun text => ({ text.foldl write p with parsingCmd := false }, argp)
  | _ => none

/-- A character of the format. Inside of a command, one that has no case is skipped. -/
def next : PrintfConfig × List Arg → UInt8 → Option (PrintfConfig × List Arg)
  | (p, argp), c =>
    if c = '%'.toUInt8 then
      some ({ p with width := -1, precision := -1, hasPrecision := false, parsingCmd := true, isLong := false }, argp)
    else if !p.parsingCmd then some (write p c, argp)
    else if c = 'l'.toUInt8 then some ({ p with isLong := true }, argp)
    else if c = 'd'.toUInt8 ∨ c = 'i'.toUInt8 then convert printSigned printSignedLong (p, argp)
    else if c = 'u'.toUInt8 then convert printUnsigned printUnsignedLong (p, argp)
    else if c = 'x'.toUInt8 then convert printHexLower printHexLowerLong (p, argp)
    else if c = 'X'.toUInt8 then convert printHexUpper printHexUpperLong (p, argp)
    else if c = 'c'.toUInt8 then convertChar (p, argp)
    else if c = 's'.toUInt8 then convertString (p, argp)
    else if c = '.'.toUInt8 then some ({ p with hasPrecision := true, precision := 0 }, argp)
    else if '0'.toUInt8 ≤ c ∧ c ≤ '9'.toUInt8 then
      if p.hasPrecision then some ({ p with precision := p.precision * 10 + (c - '0'.toUInt8).toUInt32 }, argp)
      else some ({ p with width := p.width * 10 + (c - '0'.toUInt8).toUInt32 }, argp)
    else some (p, argp)

/-- What is in `target` afterwards, with the NUL, and the returned `int`. -/
def sprintf (format : List UInt8) (args : List Arg) : Option (List UInt8 × ℤ) := do
  let (p, _) ← format.foldlM next (⟨0, 0, false, false, false, [], 0⟩, args)
  return (p.target ++ [0], p.written.toInt32.toInt)

/-! ### Directives -/

inductive IntConversion where
  | d | i | u | x | X
  deriving DecidableEq

namespace IntConversion

def letter : IntConversion → UInt8
  | d => 'd'.toUInt8
  | i => 'i'.toUInt8
  | u => 'u'.toUInt8
  | x => 'x'.toUInt8
  | X => 'X'.toUInt8

def text {w : ℕ} (places : ℕ) (n : BitVec w) : IntConversion → List UInt8
  | d | i => (if n.toInt < 0 then ['-'.toUInt8] else []) ++ padded places '0'.toUInt8 (numeral 10 decimal n.toInt.natAbs)
  | u => padded places '0'.toUInt8 (numeral 10 decimal n.toNat)
  | x => padded places '0'.toUInt8 (numeral 16 (hex 'a'.toUInt8) n.toNat)
  | X => padded places '0'.toUInt8 (numeral 16 (hex 'A'.toUInt8) n.toNat)

end IntConversion

inductive Conversion where
  | integer (long : Bool) (k : IntConversion)
  | char
  | string

namespace Conversion

def letters : Conversion → List UInt8
  | integer long k => (if long then ['l'.toUInt8] else []) ++ [k.letter]
  | char => ['c'.toUInt8]
  | string => ['s'.toUInt8]

def text (places : ℕ) : Conversion → Arg → Option (List UInt8)
  | integer false k, .word n => some (k.text places n.toBitVec)
  | integer true k, .long n => some (k.text places n.toBitVec)
  | char, .word n => some [n.toUInt8]
  | string, .string memory => cstr memory
  | _, _ => none

end Conversion

inductive Directive where
  | ordinary (c : UInt8) (h : c ≠ '%'.toUInt8 ∧ c ≠ 0)
  | percent
  | conversion (precision : Option (List (Fin 10))) (k : Conversion)

namespace Directive

def places : Option (List (Fin 10)) → ℕ
  | none => 0
  | some ds => value (ds.map Fin.val)

def format : Directive → List UInt8
  | ordinary c _ => [c]
  | percent => ['%'.toUInt8, '%'.toUInt8]
  | conversion precision k =>
    '%'.toUInt8 :: ((precision.elim [] fun ds => '.'.toUInt8 :: (ds.map Fin.val).map decimal) ++ k.letters)

/-- What the directives say about the arguments, when `digits` is the precision of a number for that of
the format. -/
def renderWith (digits : ℕ → ℕ) : List Directive → List Arg → Option (List UInt8)
  | [], [] => some []
  | ordinary c _ :: ds, args => (renderWith digits ds args).map (c :: ·)
  | percent :: ds, args => (renderWith digits ds args).map ('%'.toUInt8 :: ·)
  | conversion precision k :: ds, arg :: args =>
    (k.text (digits (places precision)) arg).bind fun text => (renderWith digits ds args).map (text ++ ·)
  | _, _ => none

def render : List Directive → List Arg → Option (List UInt8) := renderWith id

end Directive

end OlliOS.Printf
