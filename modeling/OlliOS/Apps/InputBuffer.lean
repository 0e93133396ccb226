import OlliOS.Libk.Strings
import OlliOS.VirtualKeys

/-!
# The input line of the init process

The address of a history entry is its place in the order of allocation. `write` returns any count, as the
argument of the calls says; `output` is what it has taken, and `echo` what went to the screen. `malloc`
refuses a request above `INT_MAX`, and the run ends at the null pointer.
-/

namespace OlliOS.Init

inductive Fault
  | outside
  | noMemory
  | endless
  deriving DecidableEq

structure InputLogEntry where
  value : List UInt8
  next : Option ℕ
  prev : Option ℕ
  deriving DecidableEq

/-- A byte on the screen. The newline of `commit_input` is told apart from one that is typed. -/
inductive Echo
  | byte (c : UInt8)
  | newline
  deriving DecidableEq

structure InputBuffer where
  cursorPos : ℕ
  editBuffer : List UInt8
  editBufferLength : ℕ
  entries : List InputLogEntry
  log : Option ℕ
  selected : Option ℕ
  echo : List Echo
  output : List UInt8
  writes : ℕ
  deriving DecidableEq

def backChar : UInt8 := 8

def malloc (size : ℕ) : Except Fault Unit := if size < 0x80000000 then .ok () else .error .noMemory

def strlen (str : List UInt8) : Except Fault ℕ :=
  match cstr str with
  | some s => .ok s.length
  | none => .error .outside

def strcpy (dest src : List UInt8) : Except Fault (List UInt8) :=
  match cstr src with
  | some s => if s.length < dest.length then .ok (s ++ 0 :: dest.drop (s.length + 1)) else .error .outside
  | none => .error .outside

namespace InputBuffer

def logChunkSize : ℕ := 32

def create : InputBuffer where
  cursorPos := 0
  editBuffer := List.replicate logChunkSize 0
  editBufferLength := logChunkSize
  entries := []
  log := none
  selected := none
  echo := []
  output := []
  writes := 0

def get (b : InputBuffer) (i : ℕ) : Except Fault UInt8 :=
  match b.editBuffer[i]? with
  | some c => .ok c
  | none => .error .outside

def set (b : InputBuffer) (i : ℕ) (c : UInt8) : Except Fault InputBuffer :=
  if i < b.editBuffer.length then .ok { b with editBuffer := b.editBuffer.set i c }
  else .error .outside

def putchar (b : InputBuffer) (c : UInt8) : InputBuffer := { b with echo := b.echo ++ [.byte c] }

def print (b : InputBuffer) (str : List UInt8) : InputBuffer :=
  { b with echo := b.echo ++ str.map .byte }

def forUp (body : ℕ → InputBuffer → Except Fault InputBuffer) : ℕ → ℕ → InputBuffer → Except Fault InputBuffer
  | 0, _, b => .ok b
  | n + 1, i, b => do forUp body n (i + 1) (← body i b)

def forDown (body : ℕ → InputBuffer → Except Fault InputBuffer) : ℕ → ℕ → InputBuffer → Except Fault InputBuffer
  | 0, _, b => .ok b
  | n + 1, i, b => do forDown body n (i - 1) (← body i b)

def putAt (i : ℕ) (b : InputBuffer) : Except Fault InputBuffer := return b.putchar (← b.get i)

def moveByte (dest src : ℕ) (b : InputBuffer) : Except Fault InputBuffer := do b.set dest (← b.get src)

def pullByte (dest src : ℕ) (b : InputBuffer) : Except Fault InputBuffer := do
  putAt dest (← moveByte dest src b)

def putBack (_ : ℕ) (b : InputBuffer) : Except Fault InputBuffer := return b.putchar backChar

def expandCharLog (b : InputBuffer) : Except Fault InputBuffer := do
  let b := { b with editBufferLength := b.editBufferLength * 2 }
  malloc b.editBufferLength
  return { b with editBuffer := ← strcpy (List.replicate b.editBufferLength 0) b.editBuffer }

def addCharToLog (b : InputBuffer) (c : UInt8) : Except Fault InputBuffer := do
  let lineLength ← strlen b.editBuffer
  let b ← if b.editBufferLength ≤ lineLength + 2 then b.expandCharLog else pure b
  let b ←
    if lineLength ≤ b.cursorPos then do
      let b ← b.set lineLength c
      let b ← b.set (lineLength + 1) 0
      pure (b.putchar c)
    else do
      let b ← forDown (fun i => moveByte i (i - 1)) (lineLength + 1 - b.cursorPos) (lineLength + 1) b
      let b ← b.set b.cursorPos c
      let b ← forUp putAt (lineLength + 1 - b.cursorPos) b.cursorPos b
      forUp putBack (lineLength - b.cursorPos) b.cursorPos b
  return { b with cursorPos := b.cursorPos + 1 }

def handleBackspace (b : InputBuffer) : Except Fault InputBuffer := do
  let lineLength ← strlen b.editBuffer
  if 0 < b.cursorPos then
    let b := b.putchar backChar
    let b ← forUp (fun i => pullByte (i - 1) i) (lineLength + 1 - b.cursorPos) b.cursorPos b
    let b ← forUp putBack (lineLength + 1 - b.cursorPos) b.cursorPos b
    return { b with cursorPos := b.cursorPos - 1 }
  else return b

def handleDelete (b : InputBuffer) : Except Fault InputBuffer := do
  let lineLength ← strlen b.editBuffer
  if b.cursorPos < lineLength then
    let b ← forUp (fun i => pullByte i (i + 1)) (lineLength - b.cursorPos) b.cursorPos b
    let b := b.putchar ' '.toUInt8
    forUp putBack (lineLength + 1 - b.cursorPos) b.cursorPos b
  else return b

def allocEntry (value : List UInt8) : Except Fault InputLogEntry := do
  let length ← strlen value
  malloc (length + 1)
  return ⟨← strcpy (List.replicate (length + 1) 0) value, none, none⟩

/-- `write(buffer->out, str, count)`, which takes as many bytes as it returns. -/
def write (returns : ℕ → ℕ → ℕ) (b : InputBuffer) (str : List UInt8) (count : ℕ) : Except Fault (ℕ × InputBuffer) :=
  let n := returns b.writes count
  if count ≤ str.length then
    .ok (n, { b with output := b.output ++ str.take n, writes := b.writes + 1 })
  else .error .outside

def writePass (returns : ℕ → ℕ → ℕ) (length : ℕ) : ℕ × InputBuffer → (ℕ × InputBuffer) ⊕ Except Fault InputBuffer
  | (written, b) =>
    if written < length then
      match b.write returns (b.editBuffer.drop written) (length - written) with
      | .error f => .inr (.error f)
      | .ok (n, b) => .inl ((written + n) % 0x100000000, b)
    else .inr (.ok b)

def loop {σ : Type} (body : σ → σ ⊕ Except Fault InputBuffer) (s : σ) : Except Fault InputBuffer :=
  (Loop.run body 0x100000000 s).getD (.error .endless)

def modifyEntry (b : InputBuffer) (p : ℕ) (f : InputLogEntry → InputLogEntry) : Except Fault InputBuffer :=
  if p < b.entries.length then .ok { b with entries := b.entries.modify p f } else .error .outside

def commitInput (returns : ℕ → ℕ → ℕ) (b : InputBuffer) : Except Fault InputBuffer := do
  let length ← strlen b.editBuffer
  let b ← loop (writePass returns length) (0, b)
  let b := { b with echo := b.echo ++ [Echo.newline] }
  let (_, b) ← b.write returns ['\n'.toUInt8] 1
  let entry := b.entries.length
  let b := { b with entries := b.entries ++ [← allocEntry b.editBuffer], selected := none }
  let b ←
    match b.log with
    | none => pure { b with log := some entry }
    | some log => do
      let b ← b.modifyEntry log fun e => { e with prev := some entry }
      let b ← b.modifyEntry entry fun e => { e with next := some log }
      pure { b with log := some entry }
  let b ← b.set 0 0
  return { b with cursorPos := 0 }

def switchToEntry (b : InputBuffer) (entry : Option ℕ) : Except Fault InputBuffer := do
  let b := { b with selected := entry }
  let length ← strlen b.editBuffer
  let b ← forUp putAt (length - b.cursorPos) b.cursorPos b
  let b ← forUp (fun _ b => return b.print [backChar, ' '.toUInt8, backChar]) length 0 b
  match entry with
  | none =>
    let b := { b with cursorPos := 0 }
    b.set 0 0
  | some p =>
    match b.entries[p]? with
    | none => .error .outside
    | some e =>
      let b := { b with editBuffer := ← strcpy b.editBuffer e.value }
      let b := { b with cursorPos := ← strlen b.editBuffer }
      match cstr b.editBuffer with
      | some str => return b.print str
      | none => .error .outside

def homePass (b : InputBuffer) : InputBuffer ⊕ Except Fault InputBuffer :=
  if 0 < b.cursorPos then .inl ({ b with cursorPos := b.cursorPos - 1 }.putchar backChar)
  else .inr (.ok b)

def goRight (b : InputBuffer) : Except Fault InputBuffer := do
  let b := b.putchar (← b.get b.cursorPos)
  return { b with cursorPos := b.cursorPos + 1 }

def endPass (b : InputBuffer) : InputBuffer ⊕ Except Fault InputBuffer :=
  match strlen b.editBuffer with
  | .error f => .inr (.error f)
  | .ok length =>
    if b.cursorPos < length then
      match b.goRight with
      | .error f => .inr (.error f)
      | .ok b => .inl b
    else .inr (.ok b)

def linked (b : InputBuffer) (link : InputLogEntry → Option ℕ) : Except Fault (Option ℕ) :=
  match b.selected with
  | none => .ok b.log
  | some p =>
    match b.entries[p]? with
    | some e => .ok (link e)
    | none => .error .outside

end InputBuffer

def keyeventToChar (event : VirtualKeyEvent) : Option UInt8 :=
  if event.isPressed = false then none
  else if event.vkey = VirtualKeycode.enter.code then some '\n'.toUInt8
  else event.toChar

open VirtualKeycode in
def InputBuffer.processEvent (returns : ℕ → ℕ → ℕ) (b : InputBuffer) (event : VirtualKeyEvent) :
    Except Fault InputBuffer := do
  if event.isPressed then
    if event.vkey = enter.code ∧ event.isShiftModifier = false then b.commitInput returns
    else if event.vkey = home.code then loop homePass b
    else if event.vkey = VirtualKeycode.end.code then loop endPass b
    else if event.vkey = lArrow.code then
      if 0 < b.cursorPos then return { b with cursorPos := b.cursorPos - 1 }.putchar backChar
      else return b
    else if event.vkey = rArrow.code then
      if b.cursorPos < (← strlen b.editBuffer) then b.goRight else return b
    else if event.vkey = backspace.code then b.handleBackspace
    else if event.vkey = delete.code then b.handleDelete
    else if event.vkey = uArrow.code then b.switchToEntry (← b.linked InputLogEntry.next)
    else if event.vkey = dArrow.code then b.switchToEntry (← b.linked InputLogEntry.prev)
    else
      match keyeventToChar event with
      | some parsed => b.addCharToLog parsed
      | none => return b
  else return b

end OlliOS.Init
