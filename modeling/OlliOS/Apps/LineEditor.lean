import OlliOS.Apps.InputBuffer
import OlliOS.Lib.Line

/-!
# What the input line is for

`Editor` is a line with a cursor and the lines that were committed, newest first. The up arrow goes to the
next older line and the down arrow to the next newer one; with no line recalled both go to the newest, and
behind either end the line is empty again. `Terminal` is the row of the screen that the echo goes to.
-/

namespace OlliOS.Init

structure Editor where
  line : Line UInt8
  history : List (List UInt8)
  recalled : Option ℕ
  output : List UInt8

inductive Command
  | insert (c : UInt8)
  | backspace
  | delete
  | home
  | toEnd
  | left
  | right
  | up
  | down
  | commit

namespace Editor

def init : Editor := ⟨.empty, [], none, []⟩

/-- The line with the number `i` of the history, or an empty one. -/
def select (e : Editor) (i : Option ℕ) : Editor :=
  match i.bind (e.history[·]?) with
  | some text => { e with line := .ofText text, recalled := i }
  | none => { e with line := .empty, recalled := none }

def step (e : Editor) : Command → Editor
  | .insert c => { e with line := e.line.insert c }
  | .backspace => { e with line := e.line.backspace }
  | .delete => { e with line := e.line.delete }
  | .home => { e with line := e.line.home }
  | .toEnd => { e with line := e.line.toEnd }
  | .left => { e with line := e.line.moveLeft }
  | .right => { e with line := e.line.moveRight }
  | .up =>
    match e.recalled with
    | none => e.select (some 0)
    | some i => e.select (some (i + 1))
  | .down =>
    match e.recalled with
    | none => e.select (some 0)
    | some 0 => e.select none
    | some (i + 1) => e.select (some i)
  | .commit =>
    { line := .empty
      history := e.line.text :: e.history
      recalled := none
      output := e.output ++ e.line.text ++ ['\n'.toUInt8] }

end Editor

open VirtualKeycode in
def commandOf (event : VirtualKeyEvent) : Option Command :=
  if event.isPressed = false then none
  else if event.vkey = enter.code ∧ event.isShiftModifier = false then some .commit
  else if event.vkey = home.code then some .home
  else if event.vkey = VirtualKeycode.end.code then some .toEnd
  else if event.vkey = lArrow.code then some .left
  else if event.vkey = rArrow.code then some .right
  else if event.vkey = backspace.code then some .backspace
  else if event.vkey = delete.code then some .delete
  else if event.vkey = uArrow.code then some .up
  else if event.vkey = dArrow.code then some .down
  else (keyeventToChar event).map .insert

def Editor.handle (e : Editor) (event : VirtualKeyEvent) : Editor :=
  match commandOf event with
  | some command => e.step command
  | none => e

/-- The input buffer is in the state of the editor, but for what was written. The entry with the number
`k` is the line that was committed after `k` others; its links lead to the lines before and after it. -/
structure Represents (b : InputBuffer) (e : Editor) : Prop where
  text : cstr b.editBuffer = some e.line.text
  block : b.editBuffer.length = b.editBufferLength
  fits : e.line.text.length + 2 ≤ b.editBufferLength
  small : b.editBufferLength < 0x80000000
  cursor : b.cursorPos = e.line.cursor
  count : b.entries.length = e.history.length
  entry : ∀ k line, e.history.reverse[k]? = some line → line.length + 2 ≤ b.editBufferLength ∧
    ∃ value, cstr value = some line ∧ b.entries[k]? = some (InputLogEntry.mk value
      (if k = 0 then none else some (k - 1))
      (if k + 1 < e.history.length then some (k + 1) else none))
  log : b.log = if e.history = [] then none else some (e.history.length - 1)
  selected : b.selected = e.recalled.map (e.history.length - 1 - ·)
  recalled : ∀ i ∈ e.recalled, i < e.history.length

/-- `write` returns between 1 and as many bytes as it is given. -/
def WriteOk (returns : ℕ → ℕ → ℕ) : Prop := ∀ k n, 1 ≤ n → 1 ≤ returns k n ∧ returns k n ≤ n

def InputBuffer.run (returns : ℕ → ℕ → ℕ) (events : List VirtualKeyEvent) : Except Fault InputBuffer :=
  events.foldlM (InputBuffer.processEvent returns) .create

def Editor.run (events : List VirtualKeyEvent) : Editor := events.foldl Editor.handle .init

structure Terminal where
  row : ℕ → UInt8
  column : ℕ

namespace Terminal

def blank : Terminal := ⟨fun _ => ' '.toUInt8, 0⟩

/-- A byte on the screen. There is nothing left of column 0. -/
def feed (t : Terminal) : Echo → Option Terminal
  | .newline => some blank
  | .byte c =>
    if c = backChar then if t.column = 0 then none else some { t with column := t.column - 1 }
    else some ⟨Function.update t.row t.column c, t.column + 1⟩

def run (echo : List Echo) : Option Terminal := echo.foldlM feed blank

def Blank (c : UInt8) : Prop := c = 0 ∨ c = ' '.toUInt8

/-- The row has the text and behind it only blanks, and the cursor is at `cursor`. -/
structure Shows (t : Terminal) (text : List UInt8) (cursor : ℕ) : Prop where
  column : t.column = cursor
  cells : ∀ i c, text[i]? = some c → t.row i = c
  rest : ∀ i, text.length ≤ i → Blank (t.row i)

end Terminal

end OlliOS.Init
