import OlliOS.Proofs.ShellDescriptors
import OlliOS.Proofs.Tokenizer

/-!
# Lists of commands

`&&` and `||` are read as two tokens each: the second has no words before it, and the shell compares the
null pointer in `argument_buffer` with the names of the builtins.
-/

namespace OlliOS.Shell

open Lexer Tokenizer Command
open List hiding lex

variable (env : Env) {s : State} {v : Locals} {n k : ℕ} {follow r r' : List UInt8} {token : Token} {w : CStr}

/-- The state between two tokens: what is to be read, the words so far and the commands that ran. -/
structure Between (s : State) (rest : List UInt8) (arguments : List CStr) (ran : List (List CStr)) : Prop where
  rest : s.tokenizer.Ahead rest
  arguments : s.argumentBuffer = arguments
  ran : s.ran = ran

variable {arguments : List CStr} {ran : List (List CStr)}

lemma nextPass_lex (v : Locals) (hs : s.tokenizer.Ahead r) (hn : r.length ≤ n) (hlex : lex r = some (token, w, r'))
    (hw : w.length ≤ cmdBufLength) : ∃ t, t.At r' w ∧ nextPass env n (v, s) =
      match commandPass env token v (s.read token t) with
      | .error e => .inr (.error e)
      | .ok (.inl r) => .inl r
      | .ok (.inr r) => .inr (.ok r) := by
  obtain ⟨t, htoken, ht⟩ := getNextToken_fits hs hn hlex hw
  refine ⟨t, ht, ?_⟩
  rcases hcommand : commandPass env token v (s.read token t) with e | r | r <;>
    simp only [nextPass, htoken, hcommand]

lemma addToken_of_value {value : CStr} (hvalue : s.tokenizer.getTokenValue = .ok value)
    (hargs : s.argumentBuffer.length < cmdBufParts) :
    s.addTokenToArgumentBuffer = .ok { s with argumentBuffer := s.argumentBuffer ++ [value] } := by
  unfold State.addTokenToArgumentBuffer
  rw [hvalue]
  exact if_pos hargs

lemma nextPass_word (b : List Blank) (w : Word) (hfollow : isWord (follow.headD 0xFF) = false)
    (hs : Between s (blanks b ++ (w.text ++ follow)) arguments ran)
    (hn : (blanks b ++ (w.text ++ follow)).length ≤ n) (hargs : arguments.length < cmdBufParts) :
    ∃ s', nextPass env n (v, s) = .inl (v, s') ∧ Between s' follow (arguments ++ [w.value]) ran := by
  obtain ⟨t, ht, hpass⟩ := nextPass_lex env v hs.rest hn ((lex_blanks b).trans (lex_word w hfollow))
    (Nat.le_of_lt w.fits)
  obtain ⟨-, rfl, hran⟩ := hs
  have hadd := addToken_of_value (s := s.read .string t) (ht.getTokenValue w) hargs
  refine ⟨{ s.read .string t with argumentBuffer := s.argumentBuffer ++ [w.value] }, ?_, ht.1, rfl, hran⟩
  rw [hpass]
  simp only [commandPass, hadd]
  rfl

lemma ran_start_closeIn (s : State) (pipein : Int) : (s.start.closeIn pipein).ran = s.argumentBuffer :: s.ran := by
  unfold State.closeIn
  split_ifs <;> rfl

lemma runCommand_of_command {pipein : Int} (c : Command) (hs : s.argumentBuffer = c.arguments) :
    runCommand env pipein true false s = .ok (env.exit (c.arguments :: s.ran), s.start.closeIn pipein) := by
  have hlength : s.argumentBuffer.length < cmdBufParts := by
    rw [hs]
    simpa [arguments] using c.fits
  have hran : s.start.ran = c.arguments :: s.ran := by
    rw [← hs]
    rfl
  unfold runCommand
  simp only [Bool.false_eq_true, if_false]
  split
  · rename_i hnil
    cases hs.symm.trans hnil
  rename_i name args hcons
  obtain rfl : name = c.first.value := (cons.inj (hcons.symm.trans hs)).1
  split_ifs with hbuiltin hexit
  · exact absurd hexit c.returns
  · rw [hran]
  · rw [ran_start_closeIn, hs]

@[simp] lemma tokenizer_closeIn (pipein : Int) : (s.closeIn pipein).tokenizer = s.tokenizer := by
  unfold State.closeIn
  split_ifs <;> rfl

lemma between_run (pipein : Int) (hr : s.tokenizer.Ahead r) (hs : s.argumentBuffer = arguments) :
    Between (s.start.closeIn pipein).freeArgumentBuffer r [] (arguments :: s.ran) :=
  ⟨(tokenizer_closeIn pipein).symm ▸ hr, rfl, hs ▸ ran_start_closeIn s pipein⟩

section Tokens

variable (c : Command) (b : List Blank)

lemma nextPass_semicolon (hs : Between s (blanks b ++ ';'.toUInt8 :: r) c.arguments ran)
    (hn : (blanks b ++ ';'.toUInt8 :: r).length ≤ n) :
    ∃ s', nextPass env n (v, s) = .inl (⟨env.exit (c.arguments :: ran), 0⟩, s') ∧
      Between s' r [] (c.arguments :: ran) := by
  obtain ⟨t, ht, hpass⟩ := nextPass_lex env v hs.rest hn ((lex_blanks b).trans rfl) (Nat.zero_le _)
  obtain ⟨-, hargs, rfl⟩ := hs
  have hrun : runCommand env v.pipe true false (s.read .semicolon t) = _ := runCommand_of_command env c hargs
  refine ⟨_, ?_, between_run (s := s.read .semicolon t) v.pipe ht.1 hargs⟩
  rw [hpass]
  simp only [commandPass, hrun]
  rfl

lemma nextPass_eol (hs : Between s (blanks b ++ '\n'.toUInt8 :: r) c.arguments ran)
    (hn : (blanks b ++ '\n'.toUInt8 :: r).length ≤ n) :
    ∃ s', nextPass env n (v, s) = .inr (.ok (⟨env.exit (c.arguments :: ran), 0⟩, s')) ∧
      Between s' r [] (c.arguments :: ran) := by
  obtain ⟨t, ht, hpass⟩ := nextPass_lex env v hs.rest hn ((lex_blanks b).trans rfl) (Nat.zero_le _)
  obtain ⟨-, hargs, rfl⟩ := hs
  have hrun : runCommand env v.pipe true false (s.read .eol t) = _ := runCommand_of_command env c hargs
  have hpos : (s.read .eol t).argumentBuffer.length > 0 := by
    change s.argumentBuffer.length > 0
    rw [hargs]
    exact Nat.succ_pos _
  refine ⟨_, ?_, between_run (s := s.read .eol t) v.pipe ht.1 hargs⟩
  rw [hpass]
  simp only [commandPass, if_pos hpos, hrun]
  rfl

lemma commandPass_and (v : Locals) (hargs : s.argumentBuffer = c.arguments) : ∃ v' s',
    commandPass env .and v s = .ok (.inl (v', s')) ∧ s'.tokenizer = s.tokenizer ∧ s'.argumentBuffer = [] := by
  by_cases hstatus : v.status = 0
  · refine ⟨⟨env.exit (c.arguments :: s.ran), 0⟩, (s.start.closeIn v.pipe).freeArgumentBuffer, ?_,
      tokenizer_closeIn v.pipe, rfl⟩
    simp only [commandPass, if_pos hstatus, runCommand_of_command env c hargs]
    rfl
  · exact ⟨v, s.freeArgumentBuffer, by simp only [commandPass, if_neg hstatus]; rfl, rfl, rfl⟩

lemma commandPass_or (v : Locals) (hargs : s.argumentBuffer = c.arguments) : ∃ v' s',
    commandPass env .or v s = .ok (.inl (v', s')) ∧ s'.tokenizer = s.tokenizer ∧ s'.argumentBuffer = [] := by
  refine ⟨⟨if v.status = 0 then env.exit (c.arguments :: s.ran) else v.status, 0⟩,
    (s.start.closeIn v.pipe).freeArgumentBuffer, ?_, tokenizer_closeIn v.pipe, rfl⟩
  simp only [commandPass, runCommand_of_command env c hargs]
  rfl

end Tokens

lemma runCommand_nil {pipein : Int} {blocking pipeOutput : Bool} (hs : s.argumentBuffer = []) :
    runCommand env pipein blocking pipeOutput s = .error .outside := by
  cases pipeOutput <;> simp [runCommand, State.pipe, hs]

section Words

lemma not_word_moreText (more : List ((Blank × List Blank) × Word)) (h : isWord (follow.headD 0xFF) = false) :
    isWord ((moreText more ++ follow).headD 0xFF) = false := by
  rcases more with _ | ⟨⟨⟨b, bs⟩, w⟩, more⟩
  · exact h
  · exact isWord_blank b

lemma length_moreText_le : ∀ more : List ((Blank × List Blank) × Word), more.length ≤ (moreText more).length
  | [] => Nat.le_refl 0
  | ⟨⟨b, bs⟩, w⟩ :: more => by
    have := length_moreText_le more
    simp only [moreText, flatMap_cons, length_append, length_cons, blanks, map_cons] at this ⊢
    omega

lemma loop_moreWords (hfollow : isWord (follow.headD 0xFF) = false) :
    ∀ (more : List ((Blank × List Blank) × Word)) {s : State} {arguments : List CStr} {k : ℕ},
    Between s (moreText more ++ follow) arguments ran → (moreText more ++ follow).length ≤ n →
    arguments.length + more.length < cmdBufParts → more.length ≤ k →
    ∃ s', loop (nextPass env n) k (v, s) = loop (nextPass env n) (k - more.length) (v, s') ∧
      Between s' follow (arguments ++ more.map fun p => p.2.value) ran
  | [], s, arguments, k, hs, _, _, _ => ⟨s, rfl, by simpa [moreText] using hs⟩
  | ⟨⟨b, bs⟩, w⟩ :: more, s, arguments, k, hs, hn, hargs, hk => by
    have htext : moreText (⟨⟨b, bs⟩, w⟩ :: more) ++ follow =
        blanks (b :: bs) ++ (w.text ++ (moreText more ++ follow)) := by
      simp [moreText]
    rw [htext] at hs hn
    rw [length_cons] at hargs hk
    obtain ⟨s1, hpass, hs1⟩ := nextPass_word env (b :: bs) w (not_word_moreText more hfollow) hs hn
      (by omega)
    rw [length_append, length_append] at hn
    obtain ⟨s', hloop, hs'⟩ := loop_moreWords hfollow more (k := k - 1) hs1 (by omega)
      (by rw [length_append, length_singleton]; omega) (by omega)
    refine ⟨s', (loop_inl hpass (by omega)).trans (hloop.trans ?_), ?_⟩
    · rw [length_cons, Nat.sub_sub, Nat.add_comm]
    · rwa [append_assoc, singleton_append] at hs'

lemma length_text_pos (w : Word) : 0 < w.text.length := by
  unfold Word.text
  rcases hlit : w.literal with _ | q
  · obtain ⟨x, value, hvalue⟩ := exists_cons_of_ne_nil (w.ne_nil hlit)
    rw [hvalue, bareText_cons]
    split_ifs <;> exact Nat.succ_pos _
  · exact Nat.succ_pos _

lemma length_after_le (c : Command) : (blanks c.after).length ≤ c.text.length := by
  unfold text
  rw [length_append]
  exact Nat.le_add_left _ _

lemma loop_command (c : Command) (hfollow : isWord (follow.headD 0xFF) = false)
    (hs : Between s (c.text ++ follow) [] ran) (hn : (c.text ++ follow).length ≤ n) (hk : c.text.length ≤ k) :
    ∃ s' k', loop (nextPass env n) k (v, s) = loop (nextPass env n) k' (v, s') ∧
      k ≤ k' + c.text.length ∧ Between s' (blanks c.after ++ follow) c.arguments ran := by
  have hafter := not_word_blanks c.after hfollow
  have hfits := c.fits
  have hpos := length_text_pos c.first
  have hmore := length_moreText_le c.more
  have htext : c.text ++ follow =
      blanks c.before ++ (c.first.text ++ (moreText c.more ++ (blanks c.after ++ follow))) := by
    simp [text]
  have hlen : c.text.length = (blanks c.before).length + c.first.text.length + (moreText c.more).length +
      (blanks c.after).length := by
    simp only [text, length_append]
  rw [htext] at hs hn
  obtain ⟨s1, hpass, hs1⟩ := nextPass_word env c.before c.first (not_word_moreText c.more hafter) hs hn
    (by decide)
  rw [length_append, length_append] at hn
  obtain ⟨s', hloop, hs'⟩ := loop_moreWords env (n := n) hafter c.more (k := k - 1) hs1 (by omega)
    (by rw [length_append, length_singleton, length_nil]; omega) (by omega)
  exact ⟨s', _, (loop_inl hpass (by omega)).trans hloop, by omega, hs'⟩

end Words

section Lines

variable (after : List UInt8)

lemma head_word_ne (w : Word) (r : List UInt8) :
    (w.text ++ r).headD 0xFF ≠ '&'.toUInt8 ∧ (w.text ++ r).headD 0xFF ≠ '|'.toUInt8 := by
  unfold Word.text
  rcases hlit : w.literal with _ | q
  · obtain ⟨x, value, hvalue⟩ := exists_cons_of_ne_nil (w.ne_nil hlit)
    rw [hvalue, bareText_cons]
    split_ifs with hplain
    · refine ⟨?_, ?_⟩
      · rintro rfl
        cases hplain
      · rintro rfl
        cases hplain
    · exact ⟨(by decide : '\\'.toUInt8 ≠ '&'.toUInt8), (by decide : '\\'.toUInt8 ≠ '|'.toUInt8)⟩
  · show q ≠ _ ∧ q ≠ _
    rcases w.quote q hlit with rfl | rfl <;> decide

lemma head_line_ne (c : Command) (rest : List (Operator × Command)) :
    (Line.textFrom c rest ++ after).headD 0xFF ≠ '&'.toUInt8 ∧
      (Line.textFrom c rest ++ after).headD 0xFF ≠ '|'.toUInt8 := by
  obtain ⟨r, hr⟩ : ∃ r, Line.textFrom c rest ++ after = blanks c.before ++ (c.first.text ++ r) := by
    rcases rest with _ | ⟨⟨op, d⟩, rest⟩ <;> simp [Line.textFrom, text]
  rw [hr]
  rcases c.before with _ | ⟨b, bs⟩
  · exact head_word_ne c.first r
  · exact (blank_ne b).symm

lemma loop_double {x : UInt8} {first second : Token} (c : Command) (hx : isWord x = false)
    (hlex : ∀ r, lex (x :: r) = some (if r.headD 0xFF = x then first else second, [], r))
    (hne : follow.headD 0xFF ≠ x)
    (hfirst : ∀ s : State, s.argumentBuffer = c.arguments → ∃ v' s',
      commandPass env first v s = .ok (.inl (v', s')) ∧ s'.tokenizer = s.tokenizer ∧ s'.argumentBuffer = [])
    (hsecond : ∀ (v : Locals) (s : State), s.argumentBuffer = [] → commandPass env second v s = .error .outside)
    (hs : Between s (c.text ++ x :: x :: follow) [] ran) (hn : (c.text ++ x :: x :: follow).length ≤ n)
    (hk : c.text.length + 2 ≤ k) : loop (nextPass env n) k (v, s) = .error .outside := by
  have hhead : isWord ((x :: x :: follow).headD 0xFF) = false := hx
  obtain ⟨s1, k1, hloop, hk1, hs1⟩ := loop_command env c hhead hs hn (k := k) (by omega)
  have hafter := length_after_le c
  rw [length_append, length_cons, length_cons] at hn
  have hdouble : lex (blanks c.after ++ x :: x :: follow) = some (first, [], x :: follow) := by
    rw [lex_blanks, hlex, headD_cons, if_pos rfl]
  obtain ⟨t1, ht1, hpass1⟩ := nextPass_lex env (n := n) v hs1.rest
    (by rw [length_append, length_cons, length_cons]; omega) hdouble (Nat.zero_le _)
  obtain ⟨v2, s2, hcommand, htokenizer, hargs⟩ := hfirst (s1.read first t1) hs1.arguments
  rw [hcommand] at hpass1
  have hs2 : s2.tokenizer.Ahead (x :: follow) := htokenizer ▸ ht1.1
  have hsingle : lex (x :: follow) = some (second, [], follow) := by rw [hlex, if_neg hne]
  obtain ⟨t2, -, hpass2⟩ := nextPass_lex env (n := n) v2 hs2 (by rw [length_cons]; omega) hsingle (Nat.zero_le _)
  rw [hsecond v2 (s2.read second t2) hargs] at hpass2
  rw [hloop, loop_inl hpass1 (by omega), loop_inr hpass2 (by omega)]

lemma loop_line : ∀ (rest : List (Operator × Command)) (c : Command) {s : State} {v : Locals} {k : ℕ}
    {ran : List (List CStr)}, Between s (Line.textFrom c rest ++ after) [] ran →
    (Line.textFrom c rest ++ after).length ≤ n → (Line.textFrom c rest).length < k →
    ((∀ p ∈ rest, p.1 = .semicolon) → ∃ status s', loop (nextPass env n) k (v, s) = .ok (⟨status, 0⟩, s') ∧
        (status, s'.ran) = Line.evalFrom env.exit (env.exit (c.arguments :: ran)) (c.arguments :: ran) rest) ∧
    ((∃ p ∈ rest, p.1 ≠ .semicolon) → loop (nextPass env n) k (v, s) = .error .outside)
  | [], c, s, v, k, ran, hs, hn, hk => by
    simp only [Line.textFrom, length_append, length_cons, length_nil, append_assoc, singleton_append] at hs hn hk
    obtain ⟨s1, k1, hloop, hk1, hs1⟩ := loop_command env (n := n) c rfl hs
      (by rw [length_append, length_cons]; omega) (k := k) (by omega)
    have hafter := length_after_le c
    obtain ⟨s2, hpass, hs2⟩ := nextPass_eol env (n := n) c c.after hs1
      (by rw [length_append, length_cons]; omega)
    refine ⟨fun _ => ⟨_, s2, hloop.trans (loop_inr hpass (by omega)), ?_⟩, fun ⟨p, hp, _⟩ => ?_⟩
    · rw [hs2.ran]
      rfl
    · cases hp
  | (.semicolon, d) :: rest, c, s, v, k, ran, hs, hn, hk => by
    simp only [Line.textFrom, Operator.text, length_append, length_cons,
      append_assoc, cons_append, nil_append] at hs hn hk
    obtain ⟨s1, k1, hloop, hk1, hs1⟩ := loop_command env c rfl hs
      (by simp only [length_append, length_cons]; omega) (k := k) (by omega)
    have hafter := length_after_le c
    obtain ⟨s2, hpass, hs2⟩ := nextPass_semicolon env (n := n) c c.after hs1
      (by simp only [length_append, length_cons]; omega)
    obtain ⟨hgood, hbad⟩ := loop_line rest d (k := k1 - 1) (v := ⟨env.exit (c.arguments :: ran), 0⟩) hs2
      (by rw [length_append]; omega) (by omega)
    rw [hloop, loop_inl hpass (by omega)]
    refine ⟨fun hall => ?_, fun ⟨p, hp, hne⟩ => ?_⟩
    · exact hgood fun p hp => hall p (mem_cons_of_mem _ hp)
    · rcases mem_cons.1 hp with rfl | hp
      · exact absurd rfl hne
      · exact hbad ⟨p, hp, hne⟩
  | (.and, d) :: rest, c, s, v, k, ran, hs, hn, hk => by
    simp only [Line.textFrom, Operator.text, append_assoc, cons_append, nil_append] at hs hn hk
    simp only [length_append, length_cons] at hk
    refine ⟨fun hall => absurd (hall _ (mem_cons_self ..)) (by simp), fun _ => ?_⟩
    exact loop_double env c rfl (fun _ => rfl) (head_line_ne after d rest).1 (fun s => commandPass_and env c v)
      (fun v s hargs => by simp only [commandPass, runCommand_nil env hargs]; rfl) hs hn (by omega)
  | (.or, d) :: rest, c, s, v, k, ran, hs, hn, hk => by
    simp only [Line.textFrom, Operator.text, append_assoc, cons_append, nil_append] at hs hn hk
    simp only [length_append, length_cons] at hk
    refine ⟨fun hall => absurd (hall _ (mem_cons_self ..)) (by simp), fun _ => ?_⟩
    exact loop_double env c rfl (fun _ => rfl) (head_line_ne after d rest).2 (fun s => commandPass_or env c v)
      (fun v s hargs => by simp only [commandPass, runCommand_nil env hargs]; rfl) hs hn (by omega)

lemma doNextCommand_line (l : Line) (hargs : s.argumentBuffer = [])
    (hrest : s.tokenizer.rest = l.text ++ after) (hn : (l.text ++ after).length < n) :
    ((∀ p ∈ l.rest, p.1 = .semicolon) → ∃ s', doNextCommand env n s = .ok ((l.eval env.exit s.ran).1, s') ∧
      s'.ran = (l.eval env.exit s.ran).2) ∧
    ((∃ p ∈ l.rest, p.1 ≠ .semicolon) → doNextCommand env n s = .error .outside) := by
  obtain ⟨hgood, hbad⟩ := loop_line env after l.rest l.first
    (⟨hrest ▸ ahead_rest _, hargs, rfl⟩ : Between s (l.text ++ after) [] s.ran) (Nat.le_of_lt hn)
    (by rw [length_append] at hn; exact Nat.lt_of_le_of_lt (Nat.le_add_right _ _) hn)
  unfold doNextCommand
  refine ⟨fun hall => ?_, fun hother => ?_⟩
  · obtain ⟨status, s', hrun, heq⟩ := hgood hall
    have heval : (status, s'.ran) = l.eval env.exit s.ran := heq
    rw [hrun, ← heval]
    exact ⟨s', rfl, rfl⟩
  · rw [hbad hother]
    rfl

/-- A line is run as it is to be evaluated just when it has no other operator than `;`. -/
theorem line_runs_iff (l : Line) (hargs : s.argumentBuffer = []) (hrest : s.tokenizer.rest = l.text ++ after) :
    l.RunsIn env s ↔ ∀ p ∈ l.rest, p.1 = .semicolon := by
  constructor
  · rintro ⟨N, hN⟩
    by_contra hall
    push Not at hall
    have hbad := (doNextCommand_line env after (n := N + (l.text ++ after).length + 1) l hargs hrest (by omega)).2 hall
    obtain ⟨s', hrun, -⟩ := hN (N + (l.text ++ after).length + 1) (by omega)
    cases hbad.symm.trans hrun
  · intro hall
    refine ⟨(l.text ++ after).length + 1, fun n hn => ?_⟩
    exact (doNextCommand_line env after l hargs hrest (by omega)).1 hall

def letter (c : UInt8) (hc : c ≠ 0) : Command where
  before := []
  first := ⟨[c], none, by simp, by simpa using hc.symm, by simp [cmdBufLength], by simp⟩
  more := []
  after := []
  fits := by decide
  returns := by simp [exitName, chars]

def letters (op : Operator) : Line := ⟨letter 97 (by decide), [(op, letter 98 (by decide))]⟩

def beforeLetters (op : Operator) : State := ⟨⟨(letters op).text, 0, false, []⟩, [], [0, 1, 2], [], []⟩

theorem line_runs_iff_letters : (letters .semicolon).RunsIn plainEnv (beforeLetters .semicolon) :=
  (line_runs_iff plainEnv [] (letters .semicolon) rfl (append_nil _).symm).2 (by
    simp [letters])

/-- `a&&b`, with commands that end with 0. -/
theorem and_list_faults : ¬ (letters .and).RunsIn plainEnv (beforeLetters .and) ∧
    ∀ n, (letters .and).text.length < n → doNextCommand plainEnv n (beforeLetters .and) = .error .outside := by
  have hfault : ∀ n, (letters .and).text.length < n →
      doNextCommand plainEnv n (beforeLetters .and) = .error .outside := fun n hn =>
    (doNextCommand_line plainEnv [] (letters .and) rfl (append_nil _).symm (by rwa [append_nil])).2
      ⟨_, mem_singleton_self _, by decide⟩
  refine ⟨?_, hfault⟩
  rintro ⟨N, hN⟩
  obtain ⟨s', hrun, -⟩ := hN (N + (letters .and).text.length + 1) (by omega)
  cases hrun

end Lines

end OlliOS.Shell
