import OlliOS.Apps.Tokenizer

/-!
# The shell

`do_next_command` reads tokens and runs the commands they make up. `env` says which descriptors `pipe`
returns while others are open, and how a command ends after those that ran before it; `pipe` and `fork`
succeed. The tokens that were read and what the shell did are recorded, the latest first.
-/

namespace OlliOS.Shell

def cmdBufParts : ℕ := 64

inductive Event
  | pipe (read write : ℕ)
  | start (arguments : List CStr)
  | close (fd : ℕ)
  deriving DecidableEq

def Event.command : Event → Option (List CStr)
  | .start arguments => some arguments
  | _ => none

def openWriteEnds : List Event → List ℕ
  | [] => []
  | .pipe _ write :: events => write :: openWriteEnds events
  | .close fd :: events => (openWriteEnds events).filter fun x => decide (x ≠ fd)
  | .start _ :: events => openWriteEnds events

/-- Whenever a stage is started no write end is open, but for that of the pipe made for it. -/
def StagesApart : List Event → Prop
  | [] => True
  | .start _ :: .pipe _ _ :: events => openWriteEnds events = [] ∧ StagesApart events
  | .start _ :: events => openWriteEnds events = [] ∧ StagesApart events
  | .pipe _ _ :: events => StagesApart events
  | .close _ :: events => StagesApart events

structure Env where
  pipe : List ℕ → ℕ × ℕ
  exit : List (List CStr) → Int

/-- `pipe` returns two descriptors that were not open. -/
def Env.Fresh (env : Env) : Prop :=
  ∀ opened, (env.pipe opened).1 ∉ opened ∧ (env.pipe opened).2 ∉ opened ∧ (env.pipe opened).1 ≠ (env.pipe opened).2

structure State where
  tokenizer : Tokenizer
  argumentBuffer : List CStr
  opened : List ℕ
  seen : List Token
  events : List Event
  deriving DecidableEq

namespace State

variable (env : Env) (s : State)

def ran : List (List CStr) := s.events.filterMap Event.command

def pipe : (ℕ × ℕ) × State :=
  let (r, w) := env.pipe s.opened
  ((r, w), { s with opened := r :: w :: s.opened, events := .pipe r w :: s.events })

def close (fd : Int) : State :=
  { s with opened := s.opened.filter (fun x => decide (x ≠ fd.toNat)),
           events := .close fd.toNat :: s.events }

def closeIn (pipein : Int) : State := if pipein > 0 then s.close pipein else s

def start : State := { s with events := .start s.argumentBuffer :: s.events }

def addTokenToArgumentBuffer : Except Fault State := do
  let value ← s.tokenizer.getTokenValue
  if s.argumentBuffer.length < cmdBufParts then
    return { s with argumentBuffer := s.argumentBuffer ++ [value] }
  else throw .outside

def freeArgumentBuffer : State := { s with argumentBuffer := [] }

def read (token : Token) (tokenizer : Tokenizer) : State :=
  { s with tokenizer := tokenizer, seen := token :: s.seen }

end State

def exitName : CStr := chars ['e', 'x', 'i', 't']

def builtins : List CStr :=
  [exitName, chars ['c', 'd'], chars ['e', 'n', 'v'], chars ['e', 'x', 'p', 'o', 'r', 't'],
    chars ['u', 'n', 's', 'e', 't']]

/-- What the shell itself does; the child becomes the command. -/
def runCommand (env : Env) (pipein : Int) (blocking pipeOutput : Bool) (s : State) : Except Fault (Int × State) :=
  let (fd, s) := if pipeOutput then s.pipe env else ((0, 0), s)
  match s.argumentBuffer with
  -- `find_builtin` compares the name, a null pointer
  | [] => .error .outside
  | name :: _ =>
    if name ∈ builtins then
      if name = exitName then .error .exited
      else
        let s := s.start
        let (result, s) : Int × State :=
          if pipeOutput then (fd.1, s.close fd.2) else (env.exit s.ran, s)
        .ok (result, s.closeIn pipein)
    -- `execve` looks for the null pointer behind the arguments
    else if s.argumentBuffer.length < cmdBufParts then
      let s := s.start
      let s := s.closeIn pipein
      if pipeOutput then .ok (fd.1, s.close fd.2)
      else if blocking then .ok (env.exit s.ran, s)
      else .ok (0, s)
    else .error .outside

structure Locals where
  status : Int
  pipe : Int
  deriving DecidableEq

def commandPass (env : Env) (token : Token) (v : Locals) (s : State) :
    Except Fault ((Locals × State) ⊕ (Locals × State)) := do
  match token with
  | .string => return .inl (v, ← s.addTokenToArgumentBuffer)
  | .eol =>
    if s.argumentBuffer.length > 0 then
      let (status, s) ← runCommand env v.pipe true false s
      return .inr (⟨status, 0⟩, s.freeArgumentBuffer)
    else if v.pipe > 0 then return .inl (v, s)
    else return .inr (v, s)
  | .pipe =>
    let (pipe, s) ← runCommand env v.pipe false true s
    return .inl (⟨v.status, pipe⟩, s.freeArgumentBuffer)
  | .semicolon =>
    let (status, s) ← runCommand env v.pipe true false s
    return .inl (⟨status, 0⟩, s.freeArgumentBuffer)
  | .subprocess =>
    let (status, s) ← runCommand env v.pipe false false s
    return .inl (⟨status, 0⟩, s.freeArgumentBuffer)
  | .and =>
    if v.status = 0 then
      let (status, s) ← runCommand env v.pipe true false s
      return .inl (⟨status, 0⟩, s.freeArgumentBuffer)
    else return .inl (v, s.freeArgumentBuffer)
  | .or =>
    let (status2, s) ← runCommand env v.pipe true false s
    return .inl (⟨if v.status = 0 then status2 else v.status, 0⟩, s.freeArgumentBuffer)

def nextPass (env : Env) (n : ℕ) : Locals × State → (Locals × State) ⊕ Except Fault (Locals × State)
  | (v, s) =>
    match s.tokenizer.getNextToken n with
    | .error e => .inr (.error e)
    | .ok (token, tokenizer) =>
      match commandPass env token v (s.read token tokenizer) with
      | .error e => .inr (.error e)
      | .ok (.inl r) => .inl r
      | .ok (.inr r) => .inr (.ok r)

def doNextCommand (env : Env) (n : ℕ) (s : State) : Except Fault (Int × State) := do
  let (v, s) ← loop (nextPass env n) n (⟨0, 0⟩, s)
  return (v.status, if v.pipe ≠ 0 then s.close v.pipe else s)

end OlliOS.Shell
