import OlliOS.InterfaceFile
import OlliOS.Lib.Screen

/-!
# The text mode driver

The screen is 25 lines of 80 cells of 16 bits, a character and its colours. `load` and `store` fail outside of
it. The driver has files in `/sys/vga` for its variables and for the cells, and `/dev/vga` for text. `typeByte`
is what a byte is to do on a terminal; `VgaCall` is what a process can do with the files.
-/

namespace OlliOS

structure TxtModeDriver where
  column : UInt16
  row : UInt16
  foregroundColor : UInt8
  backgroundColor : UInt8
  blinking : Bool
  cells : ℕ → BitVec 16
  location : UInt16

namespace TxtModeDriver

def load (d : TxtModeDriver) (i : ℕ) : Option (BitVec 16) := if i < 2000 then some (d.cells i) else none

def store (d : TxtModeDriver) (i : ℕ) (entry : BitVec 16) : Option TxtModeDriver :=
  if i < 2000 then some { d with cells := fun j => if j = i then entry else d.cells j } else none

/-- A `char` is signed. -/
def generateEntry (d : TxtModeDriver) (c : UInt8) : BitVec 16 :=
  c.toBitVec.signExtend 16 ||| d.foregroundColor.toBitVec.setWidth 16 <<< 8 |||
    d.backgroundColor.toBitVec.setWidth 16 <<< 12 ||| (BitVec.ofBool d.blinking).setWidth 16 <<< 15

def updateCursor (d : TxtModeDriver) : TxtModeDriver := { d with location := d.column + d.row * 80 }

def setChar (d : TxtModeDriver) (c : UInt8) : Option TxtModeDriver :=
  d.store (d.column.toNat + d.row.toNat * 80) (d.generateEntry c)

def setCharAt (d : TxtModeDriver) (c : UInt8) (x y : UInt16) : Option TxtModeDriver :=
  d.store (x.toNat + y.toNat * 80) (d.generateEntry c)

def char (entry : BitVec 16) : UInt8 := ⟨entry.setWidth 8⟩

def getChar (d : TxtModeDriver) (x y : UInt16) : Option UInt8 := (d.load (x.toNat + y.toNat * 80)).map char

def scrollDown (d : TxtModeDriver) : Option TxtModeDriver := do
  let d ← (List.range 80).foldlM (fun d x =>
    (List.range 24).foldlM (fun d y => do
      let c ← d.getChar (.ofNat x) (.ofNat (y + 1))
      d.setCharAt c (.ofNat x) (.ofNat y)) d) d
  let d ← (List.range 80).foldlM (fun d x => d.setCharAt ' '.toUInt8 (.ofNat x) 24) d
  return d.updateCursor

/-- A line is written before the next one is read from it, and the last line is not written. -/
def scrollUp (d : TxtModeDriver) : Option TxtModeDriver := do
  let d ← (List.range 80).foldlM (fun d x =>
    (List.range 23).foldlM (fun d y => do
      let c ← d.getChar (.ofNat x) (.ofNat y)
      d.setCharAt c (.ofNat x) (.ofNat (y + 1))) d) d
  let d ← (List.range 80).foldlM (fun d x => d.setCharAt ' '.toUInt8 (.ofNat x) 0) d
  return d.updateCursor

def advanceCharacter (d : TxtModeDriver) : Option TxtModeDriver :=
  let d := { d with column := d.column + 1 }
  if 80 ≤ d.column then
    let d := { d with column := 0, row := d.row + 1 }
    if 25 ≤ d.row then { d with row := d.row - 1 }.scrollDown else some d.updateCursor
  else some d.updateCursor

def writeChar (d : TxtModeDriver) (c : UInt8) : Option TxtModeDriver :=
  if c = '\n'.toUInt8 then
    let d := { d with row := d.row + 1, column := 0 }
    if 25 ≤ d.row then { d with row := d.row - 1 }.scrollDown else some d.updateCursor
  else if c = '\t'.toUInt8 then
    (List.range (4 - d.column.toNat % 4)).foldlM (fun d _ => do
      let d ← d.setChar ' '.toUInt8
      d.advanceCharacter) d
  else if c = '\r'.toUInt8 then some { d with column := 0 }.updateCursor
  else if c = 8 then
    if 0 < d.column then some { d with column := d.column - 1 }.updateCursor
    else if 0 < d.row then some { d with row := d.row - 1, column := 79 }.updateCursor
    else some d.updateCursor
  else do
    let d ← d.setChar c
    d.advanceCharacter

def write (d : TxtModeDriver) (data : List UInt8) : Option TxtModeDriver := data.foldlM writeChar d

/-! ### The files -/

def framebufferLength (length pos : UInt32) : UInt32 := if pos + length > 2000 then 2000 - pos else length

def framebufferSet (value : ℕ → UInt8) (length pos : UInt32) (d : TxtModeDriver) : Option (TxtModeDriver × ℤ) := do
  let length := framebufferLength length pos
  let d ← (List.range length.toNat).foldlM (fun d i =>
    d.setCharAt (value i) ((pos + .ofNat i) % 80).toUInt16 ((pos + .ofNat i) / 80).toUInt16) d
  return (d, toI32 length)

def framebufferGet (length pos : UInt32) (d : TxtModeDriver) : Option (List UInt8 × ℤ) := do
  let length := framebufferLength length pos
  let buffer ← (List.range length.toNat).foldlM (fun buffer i => do
    let entry ← d.load (pos + .ofNat i).toNat
    return buffer ++ [char entry]) []
  return (buffer, toI32 length)

end TxtModeDriver

inductive VgaFile
  | dev
  | width
  | height
  | foreground
  | background
  | blinking
  | column
  | row
  | framebuffer
  deriving DecidableEq

open InterfaceFile in
def VgaFile.file : VgaFile → InterfaceFile TxtModeDriver
  | .dev =>
    { setter value length _ d := (d.write (bytes value length)).map fun d => (d, toI32 length)
      getter _ _ _ := some ([], 0)
      positionIndependant := false }
  | .width => readOnlyData 80
  | .height => readOnlyData 25
  | .foreground => readWriteData (·.toInt) (·.foregroundColor.toBitVec) fun d v => { d with foregroundColor := ⟨v⟩ }
  | .background => readWriteData (·.toInt) (·.backgroundColor.toBitVec) fun d v => { d with backgroundColor := ⟨v⟩ }
  | .blinking =>
    readWriteData (w := 8) (·.toInt) (fun d => (BitVec.ofBool d.blinking).setWidth 8)
      fun d v => { d with blinking := v != 0 }
  | .column => readWriteData (fun v => (v.toNat : ℤ)) (·.column.toBitVec) fun d v => { d with column := ⟨v⟩ }
  | .row => readWriteData (fun v => (v.toNat : ℤ)) (·.row.toBitVec) fun d v => { d with row := ⟨v⟩ }
  | .framebuffer =>
    { setter := TxtModeDriver.framebufferSet
      getter := TxtModeDriver.framebufferGet
      positionIndependant := false }

inductive VgaCall
  | write (file : VgaFile) (value : ℕ → UInt8) (length pos : UInt32)
  | read (file : VgaFile) (length pos : UInt32)

namespace VgaCall

def file : VgaCall → VgaFile
  | write file _ _ _ => file
  | read file _ _ => file

def length : VgaCall → UInt32
  | write _ _ length _ => length
  | read _ length _ => length

end VgaCall

namespace TxtModeDriver

def perform (d : TxtModeDriver) : VgaCall → Option (TxtModeDriver × ℤ)
  | .write file value length pos => file.file.write value length pos d
  | .read file length pos => (file.file.read length pos d).map fun (_, n) => (d, n)

/-- No call leaves the screen, and the framebuffer reports no more bytes than it was asked for. -/
def Contained (d : TxtModeDriver) : List VgaCall → Prop
  | [] => True
  | call :: calls => ∃ d' n, d.perform call = some (d', n) ∧
    (call.file = .framebuffer → n ≤ call.length.toNat) ∧ d'.Contained calls

def run (d : TxtModeDriver) (calls : List VgaCall) : Option TxtModeDriver :=
  calls.foldlM (fun d call => (d.perform call).map Prod.fst) d

def CursorInside (d : TxtModeDriver) : Prop := d.column.toNat + d.row.toNat * 80 < 2000

instance (d : TxtModeDriver) : Decidable d.CursorInside := inferInstanceAs (Decidable (_ < _))

open InterfaceFile.Parser in
/-- The call moves the cursor to a cell, or it is for a place of the framebuffer. -/
def Good (d : TxtModeDriver) : VgaCall → Prop
  | .write .column value length pos =>
    pos = 0 → ∀ v : BitVec 16, parse value length = some v → v.toNat + d.row.toNat * 80 < 2000
  | .write .row value length pos =>
    pos = 0 → ∀ v : BitVec 16, parse value length = some v → d.column.toNat + v.toNat * 80 < 2000
  | .write .framebuffer _ length pos => pos.toNat ≤ 2000 ∧ pos.toNat + length.toNat < 4294967296
  | .read .framebuffer length pos => pos.toNat ≤ 2000 ∧ pos.toNat + length.toNat < 4294967296
  | _ => True

def GoodRun (d : TxtModeDriver) : List VgaCall → Prop
  | [] => True
  | call :: calls => d.Good call ∧ ∀ d' n, d.perform call = some (d', n) → d'.GoodRun calls

/-! ### The terminal -/

def OnScreen (d : TxtModeDriver) : Prop := d.row.toNat < 25 ∧ d.column.toNat < 80

def screen (d : TxtModeDriver) (h : d.OnScreen) : Screen 25 80 UInt8 where
  row := ⟨d.row.toNat, h.1⟩
  column := ⟨d.column.toNat, h.2⟩
  cell y x := char (d.cells (x.val + y.val * 80))

/-! ### Scrolling -/

/-- The lines of `t` are those of `d` one line up, with a blank line at the bottom. -/
def ScrolledDown (d t : TxtModeDriver) : Prop :=
  ∀ x < 80, (∀ y < 24, t.cells (x + y * 80) = d.cells (x + (y + 1) * 80)) ∧
    t.cells (x + 24 * 80) = d.generateEntry ' '.toUInt8

def ScrolledUp (d t : TxtModeDriver) : Prop :=
  ∀ x < 80, (∀ y < 24, t.cells (x + (y + 1) * 80) = d.cells (x + y * 80)) ∧ t.cells x = d.generateEntry ' '.toUInt8

def Current (d : TxtModeDriver) (entry : BitVec 16) : Prop := entry = d.generateEntry (char entry)

end TxtModeDriver

namespace Vga

def blank : UInt8 := ' '.toUInt8

def typeByte (s : Screen 25 80 UInt8) (c : UInt8) : Screen 25 80 UInt8 :=
  if c = '\n'.toUInt8 then s.nextLine blank
  else if c = '\t'.toUInt8 then s.tab blank 4
  else if c = '\r'.toUInt8 then s.carriageReturn
  else if c = 8 then s.backspace
  else s.put blank c

def typeBytes (s : Screen 25 80 UInt8) (data : List UInt8) : Screen 25 80 UInt8 := data.foldl typeByte s

end Vga

end OlliOS
