import OlliOS.Apps.LineEditor
import OlliOS.Kstd.Vector

/-!
# The input line of the kernel shell

`InputFormatter` has the lines that were entered, each with a NUL behind it, and the line that is edited as the
last one. A vector that would need a block of 2 ^ 30 bytes does not get it, so the arithmetic of `int` and
`size_t` is exact, but for `_input.size() - 2`, which wraps around when there is one line.

`LogEditor` is what the input line is for.
-/

namespace OlliOS.KernelShell

open Init (Command)

inductive Fault
  | outside
  | noMemory
  deriving DecidableEq

def pushBack {α : Type} (xs : List α) (x : α) : Except Fault (List α) :=
  if xs.length < 0x3FFFFFFF then .ok (xs ++ [x]) else .error .noMemory

structure InputFormatter where
  log : List (List UInt8)
  back : List UInt8
  lineReady : Bool
  logIndex : ℕ
  lineIndex : ℕ
  printed : List UInt8
  erased : List (ℕ × ℕ)

namespace InputFormatter

def init : InputFormatter := ⟨[], [], false, 0, 0, [], []⟩

def input (f : InputFormatter) : List (List UInt8) := f.log ++ [f.back]

def print (f : InputFormatter) (str : List UInt8) : InputFormatter := { f with printed := f.printed ++ str }

def backspaces (n : ℕ) : List UInt8 := List.replicate n 8

def addChar (f : InputFormatter) (c : UInt8) : Except Fault InputFormatter := do
  if f.back.length < f.lineIndex then throw .outside
  let _ ← pushBack f.back c
  let f := { f with back := Vector.insert f.back f.lineIndex c, lineIndex := f.lineIndex + 1 }
  let shown := f.back.drop (f.lineIndex - 1)
  return f.print (shown ++ backspaces (shown.length - 1))

def moveRight : ℕ → InputFormatter → Except Fault InputFormatter
  | 0, f => .ok f
  | n + 1, f =>
    match f.back[f.lineIndex]? with
    | some c => moveRight n { f.print [c] with lineIndex := f.lineIndex + 1 }
    | none => .error .outside

def moveCursorBy (f : InputFormatter) (amount : ℤ) : Except Fault InputFormatter :=
  let amount : ℤ :=
    if amount < 0 ∧ f.lineIndex ≤ -amount then -f.lineIndex
    else if f.lineIndex + amount > f.back.length then f.back.length - f.lineIndex
    else amount
  if amount < 0 then
    .ok { f.print (backspaces amount.natAbs) with lineIndex := f.lineIndex - amount.natAbs }
  else moveRight amount.toNat f

def moveCursorTo (f : InputFormatter) (position : ℤ) : Except Fault InputFormatter :=
  f.moveCursorBy (position - f.lineIndex)

def eraseTimes (position : ℕ) : ℕ → InputFormatter → InputFormatter
  | 0, f => f
  | num + 1, f =>
    eraseTimes position num { f with
      back := Vector.erase f.back position
      erased := f.erased ++ [(position, f.back.length)] }

def redraw (f : InputFormatter) (num : ℕ) : Except Fault InputFormatter :=
  let shown := f.back.drop f.lineIndex ++ List.replicate num ' '.toUInt8
  { f.print shown with lineIndex := f.lineIndex + shown.length }.moveCursorBy (-shown.length)

def removeChars (f : InputFormatter) (num : ℕ) : Except Fault InputFormatter :=
  if num ≤ f.back.length then
    if f.lineIndex = 0 then .ok f
    else do
      let f ← (eraseTimes (f.lineIndex - 1) num f).moveCursorBy (-num)
      f.redraw num
  else .ok f

def deleteChars (f : InputFormatter) (num : ℕ) : Except Fault InputFormatter :=
  if num ≤ f.back.length then
    if f.lineIndex = f.back.length then .ok f else (eraseTimes f.lineIndex num f).redraw num
  else .ok f

def gotoLine (f : InputFormatter) (linenum : ℕ) : Except Fault InputFormatter := do
  let f ← f.removeChars f.back.length
  let f := { f with back := [] }
  match f.input[linenum]? with
  | none => throw .outside
  | some line =>
    let back ← line.foldlM pushBack []
    match back.getLast?, cstr line with
    | some c, some str =>
      let back := if c = 0 then back.dropLast else back
      return { f.print str with back := back, logIndex := linenum, lineIndex := back.length }
    | _, _ => throw .outside

def enter (f : InputFormatter) : Except Fault InputFormatter := do
  let f := f.print ['\n'.toUInt8]
  let line ← pushBack f.back 0
  let log ← pushBack f.log line
  return { f with log := log, back := [], lineReady := true, logIndex := log.length, lineIndex := 0 }

/-- `_input.size() - 2`, of a `size_t`. -/
def newest (f : InputFormatter) : ℕ := (f.input.length + 0xFFFFFFFE) % 0x100000000

open VirtualKeycode in
def handleVirtualKeyEvent (f : InputFormatter) (event : VirtualKeyEvent) : Except Fault InputFormatter :=
  if event.isPressed = false then .ok f
  else if event.vkey = VirtualKeycode.enter.code then f.enter
  else if event.vkey = backspace.code then f.removeChars 1
  else match event.toChar with
  | some character => f.addChar character
  | none =>
    if event.vkey = uArrow.code then if 0 < f.logIndex then f.gotoLine (f.logIndex - 1) else .ok f
    else if event.vkey = dArrow.code then
      if f.logIndex < f.newest then f.gotoLine (f.logIndex + 1) else .ok f
    else if event.vkey = lArrow.code then f.moveCursorBy (-1)
    else if event.vkey = rArrow.code then f.moveCursorBy 1
    else if event.vkey = home.code then f.moveCursorTo 0
    else if event.vkey = VirtualKeycode.end.code then f.moveCursorTo f.back.length
    else if event.vkey = delete.code then f.deleteChars 1
    else .ok f

def getNextLine (f : InputFormatter) : Except Fault (InputFormatter × List UInt8) :=
  match f.input[f.newest]? with
  | some line => .ok ({ f with lineReady := false }, line)
  | none => .error .outside

def step (f : InputFormatter) (event : VirtualKeyEvent) : Except Fault InputFormatter := do
  let f ← f.handleVirtualKeyEvent event
  if f.lineReady then return (← f.getNextLine).1 else return f

def run (events : List VirtualKeyEvent) : Except Fault InputFormatter := events.foldlM step init

end InputFormatter

/-! ### The editor -/

structure LogEditor where
  line : Line UInt8
  history : List (List UInt8)
  /-- The number of the line that was recalled last, or of the next one. -/
  position : ℕ

namespace LogEditor

def init : LogEditor := ⟨.empty, [], 0⟩

def select (e : LogEditor) (i : ℕ) : LogEditor :=
  match e.history[i]? with
  | some text => { e with line := .ofText text, position := i }
  | none => e

def step (e : LogEditor) : Command → LogEditor
  | .insert c => { e with line := e.line.insert c }
  | .backspace => { e with line := e.line.backspace }
  | .delete => { e with line := e.line.delete }
  | .home => { e with line := e.line.home }
  | .toEnd => { e with line := e.line.toEnd }
  | .left => { e with line := e.line.moveLeft }
  | .right => { e with line := e.line.moveRight }
  | .up => if 0 < e.position then e.select (e.position - 1) else e
  | .down => e.select (e.position + 1)
  | .commit => ⟨.empty, e.history ++ [e.line.text], e.history.length + 1⟩

end LogEditor

open VirtualKeycode in
def commandOf (event : VirtualKeyEvent) : Option Command :=
  if event.isPressed = false then none
  else if event.vkey = enter.code then some .commit
  else if event.vkey = backspace.code then some .backspace
  else match event.toChar with
  | some character => some (.insert character)
  | none =>
    if event.vkey = uArrow.code then some .up
    else if event.vkey = dArrow.code then some .down
    else if event.vkey = lArrow.code then some .left
    else if event.vkey = rArrow.code then some .right
    else if event.vkey = home.code then some .home
    else if event.vkey = VirtualKeycode.end.code then some .toEnd
    else if event.vkey = delete.code then some .delete
    else none

namespace LogEditor

def handle (e : LogEditor) (event : VirtualKeyEvent) : LogEditor :=
  match commandOf event with
  | some command => e.step command
  | none => e

def run (events : List VirtualKeyEvent) : LogEditor := events.foldl handle init

/-- Down, before any line was entered. -/
def Early (e : LogEditor) (event : VirtualKeyEvent) : Prop := commandOf event = some .down ∧ e.history = []

/-- A line is recalled with two characters or more to the left of the cursor. -/
def Far (e : LogEditor) (event : VirtualKeyEvent) : Prop :=
  2 ≤ e.line.cursor ∧ (commandOf event = some .up ∧ 0 < e.position ∨
    commandOf event = some .down ∧ e.position + 1 < e.history.length)

end LogEditor

/-- No event of the run meets `bad`, as long as there is memory. -/
def Avoids (bad : LogEditor → VirtualKeyEvent → Prop) (events : List VirtualKeyEvent) : Prop :=
  ∀ before event after, events = before ++ event :: after →
    InputFormatter.run before ≠ .error .noMemory → ¬ bad (LogEditor.run before) event

structure Represents (f : InputFormatter) (e : LogEditor) : Prop where
  log : f.log = e.history.map (· ++ [0])
  back : f.back = e.line.text
  lineIndex : f.lineIndex = e.line.cursor
  logIndex : f.logIndex = e.position
  fetched : f.lineReady = false

def InputFormatter.Erases (f : InputFormatter) : Prop := ∀ x ∈ f.erased, x.1 < x.2

/-- The events leave the state of the editor, with the indices in their bounds and `P`, or there was no
memory for a line. -/
def Sound (P : InputFormatter → Prop) (events : List VirtualKeyEvent) : Prop :=
  (∃ f, InputFormatter.run events = .ok f ∧ Represents f (LogEditor.run events) ∧
    f.lineIndex ≤ f.back.length ∧ f.logIndex < f.input.length ∧ P f) ∨
  InputFormatter.run events = .error .noMemory ∧ 0x3FFFFFFF ≤ events.length + 1

end OlliOS.KernelShell
