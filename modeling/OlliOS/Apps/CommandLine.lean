import OlliOS.Apps.Shell

/-!
# Command lines

A list of tokens as it is written, and a line of simple commands with `&&`, `||` and `;` between them. Words
and commands fit in the buffers of the shell, and no command is `exit`, which does not return.
-/

namespace OlliOS.Shell

open Tokenizer

abbrev Blank := {c : UInt8 // c = ' '.toUInt8 ∨ c = '\t'.toUInt8}

def blanks (l : List Blank) : List UInt8 := l.map Subtype.val

/-- `literal` are the quotes around the word, if there are any. -/
structure Word where
  value : CStr
  literal : Option UInt8
  ne_nil : literal = none → value ≠ []
  no_nul : 0 ∉ value
  fits : value.length < cmdBufLength
  quote : ∀ q ∈ literal, q = '"'.toUInt8 ∨ q = '\''.toUInt8

/-- A word without quotes: a backslash before every byte that needs one. -/
def bareText (value : CStr) : List UInt8 :=
  value.flatMap fun c => if isPlain c then [c] else ['\\'.toUInt8, c]

def quotedText (q : UInt8) (value : CStr) : List UInt8 :=
  value.flatMap fun c => if c = q ∨ c = '\\'.toUInt8 then ['\\'.toUInt8, c] else [c]

def Word.text (w : Word) : List UInt8 :=
  match w.literal with
  | none => bareText w.value
  | some q => q :: (quotedText q w.value ++ [q])

inductive Item
  | word (w : Word)
  | operator (token : Token) (h : token ≠ .string)

namespace Item

def operatorText : Token → List UInt8
  | .string => []
  | .pipe => ['|'.toUInt8]
  | .semicolon => [';'.toUInt8]
  | .eol => ['\n'.toUInt8]
  | .subprocess => ['&'.toUInt8]
  | .and => ['&'.toUInt8, '&'.toUInt8]
  | .or => ['|'.toUInt8, '|'.toUInt8]

def text : Item → List UInt8
  | .word w => w.text
  | .operator token _ => operatorText token

def token : Item → Token × Option CStr
  | .word w => (.string, some w.value)
  | .operator token _ => (token, none)

end Item

/-- Tokens with blanks before them, at least one between two of them. -/
structure TokenList where
  items : List (List Blank × Item)
  after : List Blank
  spaced : ∀ p ∈ items.tail, p.1 ≠ []

def TokenList.text (l : TokenList) : List UInt8 :=
  (l.items.flatMap fun p => blanks p.1 ++ p.2.text) ++ blanks l.after

/-- The calls return these tokens, the words with their values, and no token behind them. -/
def Tokenizer.Reads : List (Token × Option CStr) → Tokenizer → Prop
  | [], t => ∀ n p, t.getNextToken n ≠ .ok p
  | (token, value) :: l, t => ∃ N, ∀ n, N ≤ n → ∃ t', t.getNextToken n = .ok (token, t') ∧
      (∀ v ∈ value, t'.getTokenValue = .ok v) ∧ Reads l t'

/-- The words after the first have blanks before them. -/
structure Command where
  before : List Blank
  first : Word
  more : List ((Blank × List Blank) × Word)
  after : List Blank
  fits : more.length + 1 < cmdBufParts
  returns : first.value ≠ exitName

namespace Command

def moreText (more : List ((Blank × List Blank) × Word)) : List UInt8 :=
  more.flatMap fun p => blanks (p.1.1 :: p.1.2) ++ p.2.text

def text (c : Command) : List UInt8 := blanks c.before ++ c.first.text ++ moreText c.more ++ blanks c.after

def arguments (c : Command) : List CStr := c.first.value :: c.more.map fun p => p.2.value

end Command

inductive Operator
  | and
  | or
  | semicolon
  deriving DecidableEq

namespace Operator

def text : Operator → List UInt8
  | .and => ['&'.toUInt8, '&'.toUInt8]
  | .or => ['|'.toUInt8, '|'.toUInt8]
  | .semicolon => [';'.toUInt8]

/-- The command after the operator is run when the status so far is this. -/
def Runs : Operator → Int → Prop
  | .and, status => status = 0
  | .or, status => status ≠ 0
  | .semicolon, _ => True

instance : ∀ (op : Operator) (status : Int), Decidable (op.Runs status)
  | .and, status => inferInstanceAs (Decidable (status = 0))
  | .or, status => inferInstanceAs (Decidable (status ≠ 0))
  | .semicolon, _ => inferInstanceAs (Decidable True)

end Operator

structure Line where
  first : Command
  rest : List (Operator × Command)

namespace Line

def textFrom : Command → List (Operator × Command) → List UInt8
  | c, [] => c.text ++ ['\n'.toUInt8]
  | c, (op, d) :: rest => c.text ++ op.text ++ textFrom d rest

def text (l : Line) : List UInt8 := textFrom l.first l.rest

/-- Evaluation from left to right: the last status, and the commands that ran, the latest first. -/
def evalFrom (exit : List (List CStr) → Int) :
    Int → List (List CStr) → List (Operator × Command) → Int × List (List CStr)
  | status, ran, [] => (status, ran)
  | status, ran, (op, c) :: rest =>
    if op.Runs status then
      evalFrom exit (exit (c.arguments :: ran)) (c.arguments :: ran) rest
    else evalFrom exit status ran rest

def eval (l : Line) (exit : List (List CStr) → Int) (ran : List (List CStr)) : Int × List (List CStr) :=
  evalFrom exit (exit (l.first.arguments :: ran)) (l.first.arguments :: ran) l.rest

/-- The shell runs the commands that the evaluation of the line runs, and returns its status. -/
def RunsIn (l : Line) (env : Env) (s : State) : Prop :=
  ∃ N, ∀ n, N ≤ n → ∃ s', doNextCommand env n s = .ok ((l.eval env.exit s.ran).1, s') ∧
    s'.ran = (l.eval env.exit s.ran).2

end Line

end OlliOS.Shell
