import OlliOS.Apps.Lexer
import OlliOS.Apps.Shell

/-!
# The shell on its standard input

`main` calls `do_next_command` again and again, so that the shell reads a token in each pass until `exit` is
run.
-/

namespace OlliOS.Shell

def State.initial (input : List UInt8) : State := ⟨.start input, [], [0, 1, 2], [], []⟩

/-- A pass of the loop of `do_next_command`, which `main` calls again when it returns. -/
def mainPass (env : Env) (n : ℕ) (p : Locals × State) : (Locals × State) ⊕ Fault :=
  match nextPass env n p with
  | .inl p => .inl p
  | .inr (.ok (v, s)) => .inl (⟨0, 0⟩, if v.pipe ≠ 0 then s.close v.pipe else s)
  | .inr (.error e) => .inr e

def Reached (env : Env) (n : ℕ) (input : List UInt8) (p : Locals × State) : Prop :=
  ∃ k, Loop.after (mainPass env n) k (⟨0, 0⟩, .initial input) = some p

def RunsCommand (v : Locals) (arguments : List CStr) : Token → Prop
  | .string => False
  | .eol => 0 < arguments.length
  | .and => v.status = 0
  | .pipe | .semicolon | .subprocess | .or => True

/-- A word is put into `argument_buffer` with an element left behind it, and a command that is run has a
name. -/
structure Room (v : Locals) (arguments : List CStr) (token : Token) : Prop where
  word : token = .string → arguments.length < cmdBufParts - 1
  command : RunsCommand v arguments token → arguments ≠ []

/-- The call of `get_next_token` returns, what it has written to `token_buffer` is a string, and there is room
for the token. -/
def Safe (n : ℕ) (p : Locals × State) : Prop :=
  ∃ token t, p.2.tokenizer.getNextToken n = .ok (token, t) ∧ (∃ value, t.getTokenValue = .ok value) ∧
    Room p.1 p.2.argumentBuffer token

def Survives (env : Env) (input : List UInt8) : Prop :=
  ∃ N, ∀ n, N ≤ n → ∀ p, Reached env n input p → Safe n p

/-! ## What the tokens are -/

/-- What the tokens so far came to: the words of the command that is being read, how the last one ended,
whether the next one reads from a pipe, and the commands that were run, the latest first. -/
structure Parsing where
  words : List CStr
  status : Int
  piped : Bool
  ran : List (List CStr)

namespace Parsing

variable (env : Env) (p : Parsing)

def run (status : Int) (piped : Bool) : Parsing := ⟨[], status, piped, p.words :: p.ran⟩

def exitStatus : Int := env.exit (p.words :: p.ran)

def next : Token → CStr → Parsing
  | .string, w => { p with words := p.words ++ [w.takeWhile fun c => decide (c ≠ 0)] }
  | .eol, _ =>
    if p.words ≠ [] then p.run 0 false else if p.piped then p else { p with status := 0 }
  | .pipe, _ => p.run p.status true
  | .semicolon, _ => p.run (p.exitStatus env) false
  | .subprocess, _ => p.run (if builtins.contains (p.words.headD []) then p.exitStatus env else 0) false
  | .and, _ => if p.status = 0 then p.run (p.exitStatus env) false else { p with words := [] }
  | .or, _ => p.run (if p.status = 0 then p.exitStatus env else p.status) false

/-- The words are taken for a command when the token is read. -/
def Runs : Token → Prop
  | .string => False
  | .eol => p.words ≠ []
  | .and => p.status = 0
  | .pipe | .semicolon | .subprocess | .or => True

/-- The token leaves a NUL in `token_buffer`. A word comes behind at most 62 others, and an operator that
runs a command behind at least one. -/
structure Accepts (token : Token) (w : CStr) : Prop where
  length : w.length < cmdBufLength ∨ w.length = cmdBufLength ∧ 0 ∈ w
  word : token = .string → p.words.length ≤ 62
  command : p.Runs token → p.words ≠ []

end Parsing

/-- The tokens that are read off the input are accepted up to one that runs `exit`. -/
inductive Orderly (env : Env) : Parsing → List UInt8 → Prop
  | exit {p : Parsing} {input r : List UInt8} {token : Token} {w : CStr} (hlex : Lexer.lex input = some (token, w, r))
      (haccepts : p.Accepts token w) (hruns : p.Runs token) (hexit : p.words.head? = some exitName) :
      Orderly env p input
  | next {p : Parsing} {input r : List UInt8} {token : Token} {w : CStr} (hlex : Lexer.lex input = some (token, w, r))
      (haccepts : p.Accepts token w) (hgoes : Orderly env (p.next env token w) r) : Orderly env p input

end OlliOS.Shell
