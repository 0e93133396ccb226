import OlliOS.Vfs

/-!
# The tokens of the shell

`input` are the bytes that `getchar` is still to return; behind them it returns EOF, which a `char`
holds as 0xFF. `n` bounds the passes of every loop.
-/

namespace OlliOS.Shell

inductive Fault
  | outside
  | exited
  | endless
  deriving DecidableEq

def loop {σ ρ : Type} (body : σ → σ ⊕ Except Fault ρ) (n : ℕ) (s : σ) : Except Fault ρ :=
  (Loop.run body n s).getD (.error .endless)

section Loops

variable {σ ρ α β : Type} {body : σ → σ ⊕ Except Fault ρ}

theorem bind_eq_ok {x : Except Fault α} {f : α → Except Fault β} {r : β} (h : x >>= f = .ok r) :
    ∃ a, x = .ok a ∧ f a = .ok r := by
  cases x with
  | error e => cases h
  | ok a => exact ⟨a, rfl, h⟩

theorem loop_of_invariant {I : σ → Prop} {Q : ρ → Prop} {n : ℕ} {s : σ} {r : ρ}
    (hgo : ∀ s t, I s → body s = .inl t → I t) (hleave : ∀ s r, I s → body s = .inr (.ok r) → Q r)
    (hs : I s) (h : loop body n s = .ok r) : Q r := by
  unfold loop at h
  rcases hrun : Loop.run body n s with _ | result
  · rw [hrun] at h
    cases h
  · rw [hrun] at h
    have hresult : result = .ok r := h
    refine Loop.run_of_invariant (Q := fun result => ∀ r, result = .ok r → Q r) hgo ?_ n s result hs hrun r hresult
    rintro s _ hI hbody r rfl
    exact hleave s r hI hbody

end Loops

inductive Token
  | string
  | pipe
  | semicolon
  | eol
  | subprocess
  | and
  | or
  deriving DecidableEq

def cmdBufLength : ℕ := 512

/-- `tokenBuffer` are the bytes written to `token_buffer`; the rest of it is zero. -/
structure Tokenizer where
  input : List UInt8
  lookAhead : UInt8
  hasLookedAhead : Bool
  tokenBuffer : List UInt8
  deriving DecidableEq

namespace Tokenizer

def getchar (t : Tokenizer) : UInt8 × Tokenizer :=
  match t.input with
  | [] => (0xFF, t)
  | c :: input => (c, { t with input := input })

def look (t : Tokenizer) : UInt8 × Tokenizer :=
  if ¬ t.hasLookedAhead then
    let (c, t) := t.getchar
    (c, { t with lookAhead := c, hasLookedAhead := true })
  else (t.lookAhead, t)

def nextChar (t : Tokenizer) : UInt8 × Tokenizer :=
  if t.hasLookedAhead then (t.lookAhead, { t with hasLookedAhead := false }) else t.getchar

def put (t : Tokenizer) (c : UInt8) : Except Fault Tokenizer :=
  if t.tokenBuffer.length < cmdBufLength then .ok { t with tokenBuffer := t.tokenBuffer ++ [c] }
  else .error .outside

def isPlain (c : UInt8) : Bool :=
  ('a'.toUInt8 ≤ c && c ≤ 'z'.toUInt8) || ('A'.toUInt8 ≤ c && c ≤ 'Z'.toUInt8) ||
    ('0'.toUInt8 ≤ c && c ≤ '9'.toUInt8) || c = '/'.toUInt8 || c = '.'.toUInt8 || c = '='.toUInt8

def isWord (c : UInt8) : Bool := isPlain c || c = '\\'.toUInt8

def wordPass : UInt8 × Tokenizer → (UInt8 × Tokenizer) ⊕ Except Fault (Token × Tokenizer)
  | (c, t) =>
    if c = '\\'.toUInt8 ∨ isPlain c then
      let (c, t) := if c = '\\'.toUInt8 then t.nextChar else (c, t)
      match t.put c with
      | .error e => .inr (.error e)
      | .ok t =>
        let (c, t) := t.look
        if ¬ isWord c then .inr (.ok (.string, t)) else .inl t.nextChar
    else .inr (.ok (.string, t))

def quotedPass (literal : UInt8) (t : Tokenizer) : Tokenizer ⊕ Except Fault (Token × Tokenizer) :=
  let (c, t) := t.nextChar
  if c = '\\'.toUInt8 then
    let (c, t) := t.nextChar
    match t.put c with
    | .error e => .inr (.error e)
    | .ok t => .inl t
  else if c = literal then .inr (.ok (.string, t))
  else
    match t.put c with
    | .error e => .inr (.error e)
    | .ok t => .inl t

def tokenPass (n : ℕ) (t : Tokenizer) : Tokenizer ⊕ Except Fault (Token × Tokenizer) :=
  let (c, t) := t.nextChar
  if c = '|'.toUInt8 then
    let (d, t) := t.look
    .inr (.ok (if d = '|'.toUInt8 then .or else .pipe, t))
  else if c = '&'.toUInt8 then
    let (d, t) := t.look
    .inr (.ok (if d = '&'.toUInt8 then .and else .subprocess, t))
  else if c = '\n'.toUInt8 then .inr (.ok (.eol, t))
  else if c = ';'.toUInt8 then .inr (.ok (.semicolon, t))
  else if c = ' '.toUInt8 ∨ c = '\t'.toUInt8 then .inl t
  else if isWord c then .inr (loop wordPass n (c, t))
  else if c = '"'.toUInt8 ∨ c = '\''.toUInt8 then .inr (loop (quotedPass c) n t)
  else .inl t

def getNextToken (n : ℕ) (t : Tokenizer) : Except Fault (Token × Tokenizer) :=
  loop (tokenPass n) n { t with tokenBuffer := [] }

def getTokenValue (t : Tokenizer) : Except Fault CStr :=
  if 0 ∈ t.tokenBuffer ∨ t.tokenBuffer.length < cmdBufLength then
    .ok (t.tokenBuffer.takeWhile fun c => decide (c ≠ 0))
  else .error .outside

def start (input : List UInt8) : Tokenizer := ⟨input, 0, false, []⟩

def rest (t : Tokenizer) : List UInt8 := if t.hasLookedAhead then t.lookAhead :: t.input else t.input

end Tokenizer

end OlliOS.Shell
