import Mathlib.Data.List.TakeWhile
import OlliOS.Apps.CommandLine
import OlliOS.Apps.Lexer

/-!
# What the tokenizer reads

A call of `get_next_token` returns what `lex` says of the bytes that are left, if the word fits in
`token_buffer`.
-/

namespace OlliOS.Shell

open List hiding lex

section Loops

variable {σ ρ : Type} {body : σ → σ ⊕ Except Fault ρ} {s t : σ} {n : ℕ} {r : Except Fault ρ}

lemma loop_inl (h : body s = .inl t) (hn : 0 < n) : loop body n s = loop body (n - 1) t := by
  obtain ⟨n, rfl⟩ : ∃ m, n = m + 1 := ⟨n - 1, by omega⟩
  unfold loop
  rw [Loop.run_succ, h]
  rfl

lemma loop_inr (h : body s = .inr r) (hn : 0 < n) : loop body n s = r := by
  obtain ⟨n, rfl⟩ : ∃ m, n = m + 1 := ⟨n - 1, by omega⟩
  unfold loop
  rw [Loop.run_succ, h]
  rfl

end Loops

open Lexer

namespace Tokenizer

variable {t t' : Tokenizer} {c q : UInt8} {r r' buffer : List UInt8} {n k : ℕ} {token : Token} {w : CStr}

/-- `next_char` is to return `r` and then EOFs, of which one may have been looked at. -/
def Ahead (t : Tokenizer) (r : List UInt8) : Prop := t.rest = r ∨ t.rest = r ++ [0xFF]

lemma ahead_rest (t : Tokenizer) : t.Ahead t.rest := .inl rfl

/-- The tokenizer with `r` to be read, and `buffer` in `token_buffer`. -/
def At (t : Tokenizer) (r buffer : List UInt8) : Prop := t.Ahead r ∧ t.tokenBuffer = buffer

lemma nextChar_eq (t : Tokenizer) : ∃ t', t.nextChar = (t.rest.headD 0xFF, t') ∧ t'.rest = t.rest.tail ∧
    t'.tokenBuffer = t.tokenBuffer := by
  obtain ⟨input, lookAhead, has, tokenBuffer⟩ := t
  cases has with
  | true => exact ⟨_, rfl, rfl, rfl⟩
  | false => cases input <;> exact ⟨_, rfl, rfl, rfl⟩

lemma look_eq (t : Tokenizer) : ∃ t', t.look = (t.rest.headD 0xFF, t') ∧
    t'.rest = t.rest.headD 0xFF :: t.rest.tail ∧ t'.tokenBuffer = t.tokenBuffer := by
  obtain ⟨input, lookAhead, has, tokenBuffer⟩ := t
  cases has with
  | true => exact ⟨_, rfl, rfl, rfl⟩
  | false => cases input <;> exact ⟨_, rfl, rfl, rfl⟩

lemma At.nextChar (h : t.At r buffer) : ∃ t', t.nextChar = (r.headD 0xFF, t') ∧ t'.At r.tail buffer := by
  obtain ⟨t', hnext, hrest, hbuffer⟩ := nextChar_eq t
  obtain ⟨hr | hr, rfl⟩ := h
  · exact ⟨t', hr ▸ hnext, .inl (hr ▸ hrest), hbuffer⟩
  · rw [hr] at hnext hrest
    cases r with
    | nil => exact ⟨t', hnext, .inl hrest, hbuffer⟩
    | cons c r => exact ⟨t', hnext, .inr hrest, hbuffer⟩

lemma At.look (h : t.At r buffer) : ∃ t', t.look = (r.headD 0xFF, t') ∧ t'.At r buffer := by
  obtain ⟨t', hlook, hrest, hbuffer⟩ := look_eq t
  obtain ⟨hr | hr, rfl⟩ := h
  · rw [hr] at hlook hrest
    cases r with
    | nil => exact ⟨t', hlook, .inr hrest, hbuffer⟩
    | cons c r => exact ⟨t', hlook, .inl hrest, hbuffer⟩
  · rw [hr] at hlook hrest
    cases r with
    | nil => exact ⟨t', hlook, .inr hrest, hbuffer⟩
    | cons c r => exact ⟨t', hlook, .inr hrest, hbuffer⟩

lemma At.put (h : t.At r buffer) (hlen : buffer.length < cmdBufLength) :
    ∃ t', t.put c = .ok t' ∧ t'.At r (buffer ++ [c]) := by
  obtain ⟨hrest, rfl⟩ := h
  unfold Tokenizer.put
  rw [if_pos hlen]
  exact ⟨_, rfl, hrest, rfl⟩

lemma At.put_outside (h : t.At r buffer) (hlen : ¬ buffer.length < cmdBufLength) : t.put c = .error .outside := by
  obtain ⟨-, rfl⟩ := h
  exact if_neg hlen

/-- What a call or a loop returns that is to have `w` in `token_buffer`: if `w` does not fit and `big`
holds, it writes outside. -/
def Returns (big : Prop) (x : Except Fault (Token × Tokenizer)) (token : Token) (w r : List UInt8) : Prop :=
  if w.length ≤ cmdBufLength then ∃ t', x = .ok (token, t') ∧ t'.At r w else big → x = .error .outside

lemma Returns.mono {big big' : Prop} {x : Except Fault (Token × Tokenizer)} (hbig : big' → big)
    (h : Returns big x token w r) : Returns big' x token w r := by
  unfold Returns at h ⊢
  split_ifs at h ⊢
  · exact h
  · exact fun hb => h (hbig hb)

section Words

lemma isWord_eof : isWord 0xFF = false := rfl

/-- The byte that a pass over a word takes, and what it leaves. -/
def taken (c : UInt8) (r : List UInt8) : UInt8 × List UInt8 :=
  if c = '\\'.toUInt8 then (r.headD 0xFF, r.tail) else (c, r)

lemma bareWord_cons (hc : isWord c = true) : bareWord (c :: r) =
    ((taken c r).1 :: (bareWord (taken c r).2).1, (bareWord (taken c r).2).2) := by
  unfold taken
  split_ifs with hback
  · rw [bareWord.eq_def]
    simp only [if_pos hback]
    cases r <;> rfl
  · have hplain : isPlain c = true := by simpa [isWord, hback] using hc
    rw [bareWord.eq_def]
    simp only [if_neg hback, if_pos hplain]

lemma bareWord_of_not_word (h : isWord (r.headD 0xFF) = false) : bareWord r = ([], r) := by
  cases r with
  | nil => rfl
  | cons c r =>
    obtain ⟨hplain, hback⟩ : isPlain c = false ∧ c ≠ '\\'.toUInt8 := by simpa [isWord] using h
    rw [bareWord.eq_def]
    simp [hback, hplain]

lemma length_taken_le : (taken c r).2.length ≤ r.length := by
  unfold taken
  split_ifs
  · simp
  · exact Nat.le_refl _

lemma wordPass_at (hc : isWord c = true) (ht : t.At r buffer) :
    if buffer.length < cmdBufLength then
      ∃ t', t'.At (taken c r).2 (buffer ++ [(taken c r).1]) ∧ wordPass (c, t) =
        if isWord ((taken c r).2.headD 0xFF) then .inl t'.nextChar else .inr (.ok (.string, t'))
    else wordPass (c, t) = .inr (.error .outside) := by
  have hcond : c = '\\'.toUInt8 ∨ isPlain c = true := by simpa [isWord, or_comm] using hc
  obtain ⟨t1, hread, ht1⟩ : ∃ t1, (if c = '\\'.toUInt8 then t.nextChar else (c, t)) = ((taken c r).1, t1) ∧
      t1.At (taken c r).2 buffer := by
    unfold taken
    split_ifs
    · exact ht.nextChar
    · exact ⟨t, rfl, ht⟩
  by_cases hlen : buffer.length < cmdBufLength
  · rw [if_pos hlen]
    obtain ⟨t2, hput, ht2⟩ := ht1.put hlen
    obtain ⟨t3, hlook, ht3⟩ := ht2.look
    refine ⟨t3, ht3, ?_⟩
    simp only [wordPass, if_pos hcond, hread, hput, hlook, ite_not]
  · rw [if_neg hlen]
    simp [wordPass, if_pos hcond, hread, ht1.put_outside hlen]

lemma loop_wordPass : ∀ (n : ℕ) {c : UInt8} {r buffer : List UInt8} {t : Tokenizer}, isWord c = true →
    t.At r buffer → r.length < n → Returns True (loop wordPass n (c, t)) .string
      (buffer ++ (bareWord (c :: r)).1) (bareWord (c :: r)).2
  | n + 1, c, r, buffer, t, hc, ht, hn => by
    have hpass := wordPass_at hc ht
    have hle := length_taken_le (c := c) (r := r)
    rw [bareWord_cons hc]
    by_cases hlen : buffer.length < cmdBufLength
    · rw [if_pos hlen] at hpass
      obtain ⟨t1, ht1, hpass⟩ := hpass
      split_ifs at hpass with hword
      · obtain ⟨t2, hnext, ht2⟩ := ht1.nextChar
        rw [hnext] at hpass
        rcases hrest : (taken c r).2 with _ | ⟨d, r1⟩
        · exact absurd hword (by simp [hrest, isWord_eof])
        · rw [hrest] at hword hpass ht2 hle
          rw [loop_inl hpass n.succ_pos]
          have ih := loop_wordPass n hword ht2 (by rw [tail_cons]; rw [length_cons] at hle; omega)
          rwa [append_assoc] at ih
      · rw [bareWord_of_not_word (by simpa using hword), loop_inr hpass n.succ_pos, Returns,
          if_pos (by simp only [length_append, length_singleton]; omega)]
        exact ⟨t1, rfl, ht1⟩
    · rw [if_neg hlen] at hpass
      rw [loop_inr hpass n.succ_pos, Returns, if_neg (by simp only [length_append, length_cons]; omega)]
      exact fun _ => rfl

lemma quotedWord_backslash : quotedWord q ('\\'.toUInt8 :: r) =
    (r.headD 0xFF :: (quotedWord q r.tail).1, (quotedWord q r.tail).2) := by
  cases r <;> rfl

lemma quotedWord_quote (hq : q ≠ '\\'.toUInt8) : quotedWord q (q :: r) = ([], r) := by
  rw [quotedWord.eq_def]
  simp [hq]

lemma quotedWord_cons (hback : c ≠ '\\'.toUInt8) (hc : c ≠ q) :
    quotedWord q (c :: r) = (c :: (quotedWord q r).1, (quotedWord q r).2) := by
  rw [quotedWord.eq_def]
  simp [hback, hc]

lemma Returns.put {body : Tokenizer → Tokenizer ⊕ Except Fault (Token × Tokenizer)} {big : Prop}
    (ht : t'.At r buffer)
    (hpass : body t = match t'.put c with | .error e => .inr (.error e) | .ok t => .inl t)
    (ih : ∀ t1, t1.At r (buffer ++ [c]) → (buffer ++ [c]).length ≤ cmdBufLength →
      Returns big (loop body n t1) token (buffer ++ [c] ++ w) r') :
    Returns big (loop body (n + 1) t) token (buffer ++ c :: w) r' := by
  by_cases hlen : buffer.length < cmdBufLength
  · obtain ⟨t1, hput, ht1⟩ := ht.put hlen
    rw [hput] at hpass
    rw [loop_inl hpass n.succ_pos, append_cons]
    exact ih t1 ht1 (by rw [length_append, length_singleton]; omega)
  · rw [ht.put_outside hlen] at hpass
    rw [loop_inr hpass n.succ_pos, Returns, if_neg (by simp only [length_append, length_cons]; omega)]
    exact fun _ => rfl

lemma quotedPass_put (hnext : t.nextChar = (c, t')) (hback : c ≠ '\\'.toUInt8) (hc : c ≠ q) :
    quotedPass q t = match t'.put c with | .error e => .inr (.error e) | .ok t => .inl t := by
  simp only [quotedPass, hnext, if_neg hback, if_neg hc] <;> rfl

lemma loop_quotedPass_eof (hq : q ≠ 0xFF) : ∀ (n : ℕ) {buffer : List UInt8} {t : Tokenizer}, t.At [] buffer →
    buffer.length ≤ cmdBufLength → cmdBufLength < n + buffer.length →
    loop (quotedPass q) n t = .error .outside
  | 0, _, _, _, hb, hn => by omega
  | n + 1, buffer, t, ht, hb, hn => by
    obtain ⟨t1, hnext, ht1⟩ := ht.nextChar
    have hpass := quotedPass_put hnext (by decide) hq.symm
    by_cases hlen : buffer.length < cmdBufLength
    · obtain ⟨t2, hput, ht2⟩ := ht1.put hlen
      rw [headD_nil, hput] at hpass
      rw [loop_inl hpass n.succ_pos]
      have hlength : (buffer ++ [0xFF]).length = buffer.length + 1 := length_append
      exact loop_quotedPass_eof hq n ht2 (by omega) (by omega)
    · rw [ht1.put_outside hlen] at hpass
      exact loop_inr hpass n.succ_pos

lemma loop_quotedPass (hback : q ≠ '\\'.toUInt8) (heof : q ≠ 0xFF) : ∀ (n : ℕ) {r buffer : List UInt8}
    {t : Tokenizer}, t.At r buffer → buffer.length ≤ cmdBufLength → r.length < n →
    Returns (r.length + cmdBufLength < n + buffer.length) (loop (quotedPass q) n t) .string
      (buffer ++ (quotedWord q r).1) (quotedWord q r).2
  | n, [], buffer, t, ht, hb, _ => by
    rw [Returns, if_neg (by simp only [quotedWord, length_append, length_replicate]; omega)]
    exact fun hn => loop_quotedPass_eof heof n ht hb (by rwa [length_nil, Nat.zero_add] at hn)
  | n + 1, c :: r, buffer, t, ht, hb, hn => by
    obtain ⟨t1, hnext, ht1⟩ : ∃ t1, t.nextChar = (c, t1) ∧ t1.At r buffer := ht.nextChar
    rw [length_cons] at hn
    by_cases hescape : c = '\\'.toUInt8
    · subst hescape
      obtain ⟨t2, hnext', ht2⟩ := ht1.nextChar
      have htail : r.tail.length ≤ r.length := by simp
      rw [quotedWord_backslash]
      refine Returns.put ht2 (by simp only [quotedPass, hnext, hnext']; rfl) fun t3 ht3 hb3 => ?_
      refine (loop_quotedPass hback heof n ht3 hb3 (by omega)).mono fun hbig => ?_
      simp only [length_append, length_cons] at hbig ⊢
      omega
    · by_cases hquote : c = q
      · subst hquote
        have hpass : quotedPass c t = .inr (.ok (.string, t1)) := by simp [quotedPass, hnext, if_neg hback]
        rw [quotedWord_quote hback, loop_inr hpass n.succ_pos, append_nil, Returns, if_pos hb]
        exact ⟨t1, rfl, ht1⟩
      · rw [quotedWord_cons hescape hquote]
        refine Returns.put ht1 (quotedPass_put hnext hescape hquote) fun t2 ht2 hb2 => ?_
        refine (loop_quotedPass hback heof n ht2 hb2 (by omega)).mono fun hbig => ?_
        simp only [length_append, length_cons] at hbig ⊢
        omega

end Words

lemma Returns.ok {big : Prop} (ht : t.At r []) : Returns big (.ok (token, t)) token [] r :=
  (if_pos (Nat.zero_le _)).mpr ⟨t, rfl, ht⟩

lemma tokenPass_at (n : ℕ) (ht : t.At (c :: r) []) :
    (∃ t', tokenPass n t = .inl t' ∧ t'.At r [] ∧ lex (c :: r) = lex r) ∨
    ∃ x token w, tokenPass n t = .inr x ∧ lex (c :: r) = some (token, w) ∧
      (r.length < n → Returns (r.length + cmdBufLength < n) x token w.1 w.2) := by
  obtain ⟨t1, hnext, ht1⟩ : ∃ t1, t.nextChar = (c, t1) ∧ t1.At r [] := ht.nextChar
  obtain ⟨t2, hlook, ht2⟩ := ht1.look
  rw [lex]
  simp only [tokenPass, hnext, hlook]
  split_ifs with hbar hor hamp hand heol hsemicolon hblank hword hquote
  · exact .inr ⟨_, _, _, rfl, rfl, fun _ => .ok ht2⟩
  · exact .inr ⟨_, _, _, rfl, rfl, fun _ => .ok ht2⟩
  · exact .inr ⟨_, _, _, rfl, rfl, fun _ => .ok ht2⟩
  · exact .inr ⟨_, _, _, rfl, rfl, fun _ => .ok ht2⟩
  · exact .inr ⟨_, _, _, rfl, rfl, fun _ => .ok ht1⟩
  · exact .inr ⟨_, _, _, rfl, rfl, fun _ => .ok ht1⟩
  · exact .inl ⟨t1, rfl, ht1, rfl⟩
  · exact .inr ⟨_, _, _, rfl, rfl, fun hn => (loop_wordPass n hword ht1 hn).mono fun _ => trivial⟩
  · have hback : c ≠ '\\'.toUInt8 := by rcases hquote with rfl | rfl <;> decide
    have heof : c ≠ 0xFF := by rcases hquote with rfl | rfl <;> decide
    exact .inr ⟨_, _, _, rfl, rfl, loop_quotedPass hback heof n ht1 (Nat.zero_le _)⟩
  · exact .inl ⟨t1, rfl, ht1, rfl⟩

lemma loop_tokenPass (n : ℕ) : ∀ (r : List UInt8) {t : Tokenizer} {k : ℕ}, t.At r [] → r.length ≤ k → r.length ≤ n →
    lex r = some (token, w, r') → Returns (r.length + cmdBufLength ≤ n) (loop (tokenPass n) k t) token w r'
  | c :: r, t, k, ht, hk, hn, hlex => by
    rw [length_cons] at hk hn
    rcases tokenPass_at n ht with ⟨t1, hpass, ht1, hskip⟩ | ⟨x, token', w', hpass, hsome, hx⟩
    · rw [loop_inl hpass (by omega)]
      refine (loop_tokenPass n r ht1 (by omega) (by omega) (hskip.symm.trans hlex)).mono fun hbig => ?_
      rw [length_cons] at hbig
      omega
    · obtain ⟨rfl, rfl⟩ : token' = token ∧ w' = (w, r') := by simpa using hsome.symm.trans hlex
      rw [loop_inr hpass (by omega)]
      refine (hx hn).mono fun hbig => ?_
      rw [length_cons] at hbig
      omega

lemma getNextToken_some (ht : t.Ahead r) (hn : r.length ≤ n) (hlex : lex r = some (token, w, r')) :
    Returns (r.length + cmdBufLength ≤ n) (t.getNextToken n) token w r' :=
  loop_tokenPass n r ⟨ht, rfl⟩ hn hn hlex

lemma getNextToken_none (ht : t.Ahead r) (hlex : lex r = none) (n : ℕ) : t.getNextToken n = .error .endless := by
  have hpass : ∀ t : Tokenizer, (∃ r, t.At r [] ∧ lex r = none) →
      ∃ t', tokenPass n t = .inl t' ∧ ∃ r, t'.At r [] ∧ lex r = none := by
    rintro t ⟨_ | ⟨c, r⟩, ht, hlex⟩
    · obtain ⟨t1, hnext, ht1⟩ := ht.nextChar
      exact ⟨t1, by simp only [tokenPass, hnext]; rfl, [], ht1, rfl⟩
    · rcases tokenPass_at n ht with ⟨t1, hpass, ht1, hskip⟩ | ⟨x, token, w, -, hsome, -⟩
      · exact ⟨t1, hpass, r, ht1, hskip.symm.trans hlex⟩
      · exact absurd (hsome.symm.trans hlex) (by simp)
  unfold getNextToken loop
  rw [Loop.run_eq_none hpass n { t with tokenBuffer := [] } ⟨r, ⟨ht, rfl⟩, hlex⟩]
  rfl

lemma getNextToken_fits (ht : t.Ahead r) (hn : r.length ≤ n) (hlex : lex r = some (token, w, r'))
    (hw : w.length ≤ cmdBufLength) : ∃ t', t.getNextToken n = .ok (token, t') ∧ t'.At r' w :=
  (if_pos hw).mp (getNextToken_some ht hn hlex)

lemma At.getTokenValue (w : Word) (h : t.At r w.value) : t.getTokenValue = .ok w.value := by
  unfold Tokenizer.getTokenValue
  rw [h.2, if_pos (.inr w.fits), takeWhile_eq_self_iff.2]
  intro c hc
  have hne : c ≠ 0 := by
    rintro rfl
    exact w.no_nul hc
  simpa using hne

end Tokenizer

namespace Lexer

open Tokenizer

variable {c q : UInt8} {r follow : List UInt8}

lemma isWord_blank (b : Blank) : isWord b.val = false := by obtain ⟨c, rfl | rfl⟩ := b <;> rfl

lemma blank_ne (b : Blank) : b.val ≠ '|'.toUInt8 ∧ b.val ≠ '&'.toUInt8 := by
  obtain ⟨c, rfl | rfl⟩ := b <;> decide

lemma not_word_blanks (b : List Blank) (h : isWord (follow.headD 0xFF) = false) :
    isWord ((blanks b ++ follow).headD 0xFF) = false := by
  cases b with
  | nil => exact h
  | cons x b => exact isWord_blank x

lemma lex_blanks : ∀ b : List Blank, lex (blanks b ++ r) = lex r
  | [] => rfl
  | ⟨c, hc⟩ :: b => by
    rw [← lex_blanks b]
    rcases hc with rfl | rfl <;> rfl

lemma lex_of_isWord (hc : isWord c = true) : lex (c :: r) = some (.string, bareWord (c :: r)) := by
  have hne : ∀ x : UInt8, isWord x = false → c ≠ x := by
    rintro x hx rfl
    exact absurd hc (by simp [hx])
  rw [lex, if_neg (hne _ rfl), if_neg (hne _ rfl), if_neg (hne _ rfl), if_neg (hne _ rfl),
    if_neg (not_or.2 ⟨hne _ rfl, hne _ rfl⟩), if_pos hc]

lemma bareText_cons (x : UInt8) (value : CStr) :
    bareText (x :: value) = (if isPlain x then [x] else ['\\'.toUInt8, x]) ++ bareText value := rfl

lemma isPlain_ne (h : isPlain c = true) : c ≠ '\\'.toUInt8 := by
  rintro rfl
  cases h

lemma bareWord_bareText (h : isWord (follow.headD 0xFF) = false) :
    ∀ value : CStr, bareWord (bareText value ++ follow) = (value, follow)
  | [] => bareWord_of_not_word h
  | x :: value => by
    rw [bareText_cons, append_assoc]
    split_ifs with hplain
    · rw [singleton_append, bareWord_cons (by simp [isWord, hplain]), taken, if_neg (isPlain_ne hplain),
        bareWord_bareText h value]
    · show bareWord ('\\'.toUInt8 :: x :: (bareText value ++ follow)) = _
      rw [bareWord_cons rfl, taken, if_pos rfl, headD_cons, tail_cons, bareWord_bareText h value]

lemma quotedWord_quotedText (hq : q ≠ '\\'.toUInt8) :
    ∀ value : CStr, quotedWord q (quotedText q value ++ q :: follow) = (value, follow)
  | [] => quotedWord_quote hq
  | x :: value => by
    have htext : quotedText q (x :: value) ++ q :: follow =
      (if x = q ∨ x = '\\'.toUInt8 then ['\\'.toUInt8, x] else [x]) ++ (quotedText q value ++ q :: follow) :=
        append_assoc ..
    rw [htext]
    split_ifs with hescape
    · show quotedWord q ('\\'.toUInt8 :: x :: (quotedText q value ++ q :: follow)) = _
      rw [quotedWord_backslash, headD_cons, tail_cons, quotedWord_quotedText hq value]
    · obtain ⟨hx, hback⟩ := not_or.1 hescape
      rw [singleton_append, quotedWord_cons hback hx, quotedWord_quotedText hq value]

lemma lex_word (w : Word) (h : isWord (follow.headD 0xFF) = false) :
    lex (w.text ++ follow) = some (.string, w.value, follow) := by
  unfold Word.text
  rcases hlit : w.literal with _ | q
  · have hword := bareWord_bareText h w.value
    obtain ⟨x, value, hvalue⟩ := exists_cons_of_ne_nil (w.ne_nil hlit)
    rw [hvalue, bareText_cons, append_assoc] at hword ⊢
    split_ifs at hword ⊢ with hplain
    · exact (lex_of_isWord (by simp [isWord, hplain])).trans (by rw [← hword]; rfl)
    · exact (lex_of_isWord rfl).trans (by rw [← hword]; rfl)
  · have hq := w.quote q hlit
    have hback : q ≠ '\\'.toUInt8 := by rcases hq with rfl | rfl <;> decide
    have hquote : ∀ r, lex (q :: r) = some (.string, quotedWord q r) := by rcases hq with rfl | rfl <;> intro r <;> rfl
    show lex (q :: (quotedText q w.value ++ [q] ++ follow)) = _
    rw [hquote, append_assoc, singleton_append, quotedWord_quotedText hback]

end Lexer

end OlliOS.Shell
