import OlliOS.VirtualKeys

/-!
# Decoding of scan codes

The decoder of the keyboard module collects up to three bytes. A table ends with entries that are 0; the entry
for 0xFF would be the byte behind the table, an argument of the calls. `pushed` has every event, also those for
which there was no place in the buffer. `expect` is what the decoder is for.
-/

namespace OlliOS.Keyboard

def scanset2Map1 : List VirtualKeycode :=
  [.invalid, .f9, .invalid, .f5, .f3, .f1, .f2, .f12, .invalid, .f10, .f8, .f6, .f4, .tab, .tilde, .invalid,
    .invalid, .lalt, .lshift, .invalid, .lctrl, .q, .t1, .invalid,
    .invalid, .invalid, .z, .s, .a, .w, .t2, .invalid,
    .invalid, .c, .x, .d, .e, .t4, .t3, .invalid,
    .invalid, .space, .v, .f, .t, .r, .t5, .invalid,
    .invalid, .n, .b, .h, .g, .y, .t6, .invalid,
    .invalid, .invalid, .m, .j, .u, .t7, .t8, .invalid,
    .invalid, .comma, .k, .i, .o, .t0, .t9, .invalid,
    .invalid, .dot, .slash, .l, .colon, .p, .t10, .invalid,
    .invalid, .invalid, .quote, .invalid, .openSquare, .t11, .invalid, .invalid,
    .capsLock, .rshift, .enter, .closeSquare, .invalid, .backslash, .invalid, .invalid,
    .invalid, .invalid, .invalid, .invalid, .invalid, .invalid, .backspace, .invalid,
    .invalid, .invalid, .invalid, .invalid, .invalid, .invalid, .invalid, .invalid,
    .invalid, .nDot, .invalid, .invalid, .invalid, .invalid, .escape, .numLock,
    .invalid, .invalid, .invalid, .nMinus, .invalid, .scrollLock, .invalid, .invalid,
    .invalid, .invalid, .invalid, .invalid, .invalid, .invalid, .invalid, .invalid,
    .invalid, .invalid, .invalid, .invalid, .invalid, .invalid, .invalid]

def scanset2Map2 : List VirtualKeycode :=
  [.invalid, .invalid, .invalid, .invalid, .invalid, .invalid, .invalid, .invalid,
    .invalid, .invalid, .invalid, .invalid, .invalid, .invalid, .invalid, .invalid,
    .invalid, .ralt, .invalid, .invalid, .rctrl, .invalid, .invalid, .invalid,
    .invalid, .invalid, .invalid, .invalid, .invalid, .invalid, .invalid, .invalid,
    .invalid, .invalid, .invalid, .invalid, .invalid, .invalid, .invalid, .invalid,
    .invalid, .invalid, .invalid, .invalid, .invalid, .invalid, .invalid, .invalid,
    .invalid, .invalid, .invalid, .invalid, .invalid, .invalid, .invalid, .invalid,
    .invalid, .invalid, .invalid, .invalid, .invalid, .invalid, .invalid, .invalid,
    .invalid, .invalid, .invalid, .invalid, .invalid, .invalid, .invalid, .invalid,
    .invalid, .invalid, .nSlash, .invalid, .invalid, .invalid, .invalid, .invalid,
    .invalid, .invalid, .invalid, .invalid, .invalid, .invalid, .invalid, .invalid,
    .invalid, .invalid, .nEnter, .invalid, .invalid, .invalid, .invalid, .invalid,
    .invalid, .invalid, .invalid, .invalid, .invalid, .invalid, .invalid, .invalid,
    .invalid, .end, .invalid, .lArrow, .home, .invalid, .invalid, .invalid,
    .insert, .delete, .dArrow, .invalid, .rArrow, .uArrow, .invalid, .invalid,
    .invalid, .pageDown, .invalid, .invalid, .pageUp, .invalid, .invalid, .invalid]

def entry (table : List VirtualKeycode) (behind code : UInt8) : UInt8 :=
  if code = 0xFF then behind else (table[code.toNat]?.getD .invalid).code

structure Scanset where
  map1 : UInt8 → UInt8
  map2 : UInt8 → UInt8

def scanset2 (behind1 behind2 : UInt8) : Scanset := ⟨entry scanset2Map1 behind1, entry scanset2Map2 behind2⟩

def inputBufferSize : ℕ := 16

structure KeyboardDriver where
  code1 : UInt8
  code2 : UInt8
  code3 : UInt8
  buffer : List VirtualKeyEvent
  status : UInt8
  pushed : List VirtualKeyEvent
  deriving DecidableEq

open VirtualKeycode in
def updateStatus (status : UInt8) (code : VirtualKeyEvent) : UInt8 :=
  if code.vkey = lshift.code ∨ code.vkey = rshift.code then
    status &&& 0b11111101 ||| (code.status &&& 0b00000001) <<< (1 : UInt8)
  else if code.vkey = lctrl.code ∨ code.vkey = rctrl.code then
    status &&& 0b11111011 ||| (code.status &&& 0b00000001) <<< (2 : UInt8)
  else if code.vkey = lalt.code ∨ code.vkey = ralt.code then
    status &&& 0b11110111 ||| (code.status &&& 0b00000001) <<< (3 : UInt8)
  else status

namespace KeyboardDriver

def init : KeyboardDriver := ⟨0, 0, 0, [], 0, []⟩

def clearCodes (d : KeyboardDriver) : KeyboardDriver := { d with code1 := 0, code2 := 0, code3 := 0 }

def addCode (d : KeyboardDriver) (code : UInt8) : KeyboardDriver :=
  if d.code1 = 0 then { d with code1 := code }
  else if d.code2 = 0 then { d with code2 := code }
  else if d.code3 = 0 then { d with code3 := code }
  else { d.clearCodes with code1 := code }

def pushBuffer (d : KeyboardDriver) (key : VirtualKeyEvent) : KeyboardDriver :=
  { d with
    buffer := if d.buffer.length < inputBufferSize then d.buffer ++ [key] else d.buffer
    pushed := d.pushed ++ [key] }

def convertMakeScancodeToKeycode (maps : Scanset) (d : KeyboardDriver) : UInt8 :=
  if d.code1 = 0xF0 ∨ d.code1 = 0xE0 ∧ d.code2 = 0xF0 then VirtualKeycode.invalid.code
  else if maps.map1 d.code1 = VirtualKeycode.invalid.code ∧ d.code2 ≠ 0 then maps.map2 d.code2
  else maps.map1 d.code1

def convertBreakScancodeToKeycode (maps : Scanset) (d : KeyboardDriver) : UInt8 :=
  if d.code1 = 0xF0 then maps.map1 d.code2
  else if d.code1 = 0xE0 ∧ d.code2 = 0xF0 then maps.map2 d.code3
  else VirtualKeycode.invalid.code

def emit (d : KeyboardDriver) (vkey make : UInt8) : KeyboardDriver :=
  let event : VirtualKeyEvent := ⟨vkey, d.status ||| make⟩
  let d := (d.pushBuffer event).clearCodes
  { d with status := updateStatus d.status event }

def write (maps : Scanset) (d : KeyboardDriver) (data : UInt8) : KeyboardDriver :=
  let d := d.addCode data
  if d.convertMakeScancodeToKeycode maps ≠ VirtualKeycode.invalid.code then
    d.emit (d.convertMakeScancodeToKeycode maps) 0b00000001
  else if d.convertBreakScancodeToKeycode maps ≠ VirtualKeycode.invalid.code then
    d.emit (d.convertBreakScancodeToKeycode maps) 0b00000000
  else d

def run (maps : Scanset) (d : KeyboardDriver) (stream : List UInt8) : KeyboardDriver :=
  stream.foldl (write maps) d

end KeyboardDriver

structure Sequence where
  pressed : Bool
  extended : Bool
  code : UInt8
  ok : code ≠ 0 ∧ code ≠ 0xE0 ∧ code ≠ 0xF0

namespace Sequence

def bytes (q : Sequence) : List UInt8 :=
  (if q.extended then [0xE0] else []) ++ (if q.pressed then [] else [0xF0]) ++ [q.code]

def table (q : Sequence) : List VirtualKeycode := if q.extended then scanset2Map2 else scanset2Map1

def key (q : Sequence) : Option VirtualKeycode :=
  if q.code = 0xFF then none else q.table[q.code.toNat]?.filter fun vkey => vkey ≠ .invalid

def make (q : Sequence) : UInt8 := if q.pressed then 1 else 0

end Sequence

def expect : UInt8 → List Sequence → List VirtualKeyEvent
  | _, [] => []
  | status, q :: qs =>
    match q.key with
    | none => expect status qs
    | some vkey =>
      ⟨vkey.code, status ||| q.make⟩ :: expect (updateStatus status ⟨vkey.code, status ||| q.make⟩) qs

def InStep (behind1 behind2 : UInt8) (qs : List Sequence) : Prop :=
  (KeyboardDriver.init.run (scanset2 behind1 behind2) (qs.flatMap Sequence.bytes)).pushed = expect 0 qs

/-- The key has an entry, or it is an extended one that is released; the decoder then has no place for a
fourth byte and starts again. -/
def Sequence.Harmless (behind2 : UInt8) (q : Sequence) : Prop :=
  q.key ≠ none ∨ q.pressed = false ∧ q.extended = true ∧ (q.code = 0xFF → behind2 = 0)

/-- The two keys of a modifier, and its bit of the status. -/
structure Modifier where
  left : VirtualKeycode
  right : VirtualKeycode
  bit : ℕ

def modifiers : List Modifier := [⟨.lshift, .rshift, 1⟩, ⟨.lctrl, .rctrl, 2⟩, ⟨.lalt, .ralt, 3⟩]

def held (k : VirtualKeycode) (qs : List Sequence) : Bool :=
  qs.foldl (fun h q => if q.key = some k then q.pressed else h) false

def Alternates (qs : List Sequence) : Prop :=
  ∀ i q k, qs[i]? = some q → q.key = some k → q.pressed = !held k (qs.take i)

/-- There is one event for each sequence, with the bits of the modifiers that are held before it. -/
def TracksModifiers (behind1 behind2 : UInt8) (qs : List Sequence) : Prop :=
  ∀ m ∈ modifiers, (KeyboardDriver.init.run (scanset2 behind1 behind2) (qs.flatMap Sequence.bytes)).pushed.map
        (fun event => event.status.toBitVec.getLsbD m.bit) =
      (List.range qs.length).map fun i => held m.left (qs.take i) || held m.right (qs.take i)

end OlliOS.Keyboard
