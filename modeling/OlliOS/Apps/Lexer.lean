import OlliOS.Apps.Tokenizer

/-!
# Reading a token off a list of bytes

What a call of `get_next_token` makes of the bytes that are left, without the state of the tokenizer.
-/

namespace OlliOS.Shell

namespace Lexer

open Tokenizer

/-- The bytes of a word without quotes, and what is left behind it. A backslash at the end takes EOF. -/
def bareWord : List UInt8 → CStr × List UInt8
  | [] => ([], [])
  | c :: r =>
    if c = '\\'.toUInt8 then
      match r with
      | [] => ([0xFF], [])
      | d :: r => (d :: (bareWord r).1, (bareWord r).2)
    else if isPlain c then (c :: (bareWord r).1, (bareWord r).2)
    else ([], c :: r)

/-- The bytes up to the quote `q`. Without one they go on with EOFs, of which `token_buffer` does not hold
this many. -/
def quotedWord (q : UInt8) : List UInt8 → CStr × List UInt8
  | [] => (List.replicate (cmdBufLength + 1) 0xFF, [])
  | c :: r =>
    if c = '\\'.toUInt8 then
      match r with
      | [] => (0xFF :: List.replicate (cmdBufLength + 1) 0xFF, [])
      | d :: r => (d :: (quotedWord q r).1, (quotedWord q r).2)
    else if c = q then ([], r)
    else (c :: (quotedWord q r).1, (quotedWord q r).2)

/-- The token, its bytes and what is left behind it; a byte that starts no token is skipped. -/
def lex : List UInt8 → Option (Token × CStr × List UInt8)
  | [] => none
  | c :: r =>
    if c = '|'.toUInt8 then some (if r.headD 0xFF = '|'.toUInt8 then .or else .pipe, [], r)
    else if c = '&'.toUInt8 then some (if r.headD 0xFF = '&'.toUInt8 then .and else .subprocess, [], r)
    else if c = '\n'.toUInt8 then some (.eol, [], r)
    else if c = ';'.toUInt8 then some (.semicolon, [], r)
    else if c = ' '.toUInt8 ∨ c = '\t'.toUInt8 then lex r
    else if isWord c then some (.string, bareWord (c :: r))
    else if c = '"'.toUInt8 ∨ c = '\''.toUInt8 then some (.string, quotedWord c r)
    else lex r

end Lexer

end OlliOS.Shell
