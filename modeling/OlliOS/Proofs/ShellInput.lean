import OlliOS.Apps.ShellInput
import OlliOS.Proofs.ShellLists

/-!
# Inputs that the shell survives

Each call of `get_next_token` takes bytes from the input, and at its end no call returns.
-/

namespace OlliOS.Shell

open Lexer Tokenizer
open List hiding lex

variable {env : Env} {n m : ℕ} {v : Locals} {s : State} {t t' : Tokenizer} {r r' w input : List UInt8}
  {token : Token} {p : Locals × State} {blocking pipeOutput : Bool} {pipein : Int}

section Length

lemma length_bareWord_le : ∀ (m : ℕ) {r : List UInt8}, r.length ≤ m → (bareWord r).2.length ≤ r.length
  | _, [], _ => Nat.le_refl 0
  | m + 1, c :: r, h => by
    rw [length_cons] at h ⊢
    cases hc : isWord c with
    | true =>
      have htaken := length_taken_le (c := c) (r := r)
      rw [bareWord_cons hc]
      exact Nat.le_succ_of_le ((length_bareWord_le m (by omega)).trans htaken)
    | false =>
      rw [bareWord_of_not_word (r := c :: r) hc]
      exact Nat.le_refl _

lemma length_quotedWord_le (q : UInt8) : ∀ (m : ℕ) {r : List UInt8}, r.length ≤ m →
    (quotedWord q r).2.length ≤ r.length
  | _, [], _ => Nat.le_refl 0
  | m + 1, c :: r, h => by
    rw [length_cons] at h ⊢
    by_cases hback : c = '\\'.toUInt8
    · have htail : r.tail.length ≤ r.length := by simp
      rw [hback, quotedWord_backslash]
      exact Nat.le_succ_of_le ((length_quotedWord_le q m (by omega)).trans htail)
    · by_cases hquote : c = q
      · rw [hquote, quotedWord_quote (hquote ▸ hback)]
        exact Nat.le_succ _
      · rw [quotedWord_cons hback hquote]
        exact Nat.le_succ_of_le (length_quotedWord_le q m (by omega))

lemma length_lex_lt : ∀ {r : List UInt8}, lex r = some (token, w, r') → r'.length < r.length
  | c :: r, h => by
    rw [lex] at h
    split_ifs at h with hbar hor hamp hand heol hsemicolon hblank hword
    -- a byte is taken for an operator
    any_goals
      cases h
      exact Nat.lt_succ_self _
    · exact Nat.lt_succ_of_lt (length_lex_lt h)
    · rw [bareWord_cons hword] at h
      cases h
      exact Nat.lt_succ_of_le ((length_bareWord_le _ (Nat.le_refl _)).trans length_taken_le)
    · have hle := length_quotedWord_le c _ (Nat.le_refl r.length)
      rw [(Prod.mk.inj (Option.some.inj h)).2] at hle
      exact Nat.lt_succ_of_le hle
    · exact Nat.lt_succ_of_lt (length_lex_lt h)

end Length

lemma ran_closeIn : (s.closeIn pipein).ran = s.ran := by
  unfold State.closeIn
  split_ifs <;> rfl

lemma runCommand_exit (hs : s.argumentBuffer.head? = some exitName) :
    runCommand env pipein blocking pipeOutput s = .error .exited := by
  obtain ⟨args, hargs⟩ : ∃ args, s.argumentBuffer = exitName :: args := by
    rcases hbuffer : s.argumentBuffer with _ | ⟨name, args⟩
    · simp [hbuffer] at hs
    · rw [hbuffer] at hs
      cases hs
      exact ⟨args, rfl⟩
  have hbuiltin : exitName ∈ builtins := by decide
  cases pipeOutput <;> simp [runCommand, State.pipe, hargs, hbuiltin]

/-- The command that is run is recorded, and its status is what `env` says, unless it is not waited for. -/
lemma runCommand_ok (hpipe : ∀ opened, 0 < (env.pipe opened).1) (hne : s.argumentBuffer ≠ [])
    (hexit : s.argumentBuffer.head? ≠ some exitName) (hargs : s.argumentBuffer.length < cmdBufParts) :
    ∃ result s', runCommand env pipein blocking pipeOutput s = .ok (result, s') ∧
      s'.tokenizer = s.tokenizer ∧ s'.ran = s.argumentBuffer :: s.ran ∧
      if pipeOutput then 0 < result
      else result = if blocking ∨ s.argumentBuffer.headD [] ∈ builtins
        then env.exit (s.argumentBuffer :: s.ran) else 0 := by
  -- the pipe leaves the tokenizer, the arguments and the commands that ran as they are
  obtain ⟨x, hx, hbuffer, htokenizer, hran, hread⟩ : ∃ x, (if pipeOutput then s.pipe env else ((0, 0), s)) = x ∧
      x.2.argumentBuffer = s.argumentBuffer ∧ x.2.tokenizer = s.tokenizer ∧ x.2.ran = s.ran ∧
      (pipeOutput = true → 0 < x.1.1) := by
    cases pipeOutput with
    | false => exact ⟨_, rfl, rfl, rfl, rfl, nofun⟩
    | true => exact ⟨_, rfl, rfl, rfl, rfl, fun _ => hpipe _⟩
  rw [← hbuffer] at hne hexit hargs ⊢
  rw [← htokenizer, ← hran]
  obtain ⟨name, args, hcons⟩ := exists_cons_of_ne_nil hne
  have hname : name ≠ exitName := by simpa [hcons] using hexit
  have hstart : x.2.start.ran = (name :: args) :: x.2.ran := congrArg (· :: x.2.ran) hcons
  unfold runCommand
  simp only [hx, hcons]
  by_cases hbuiltin : name ∈ builtins
  · rw [if_pos hbuiltin, if_neg hname]
    cases pipeOutput with
    | true => exact ⟨_, _, rfl, tokenizer_closeIn pipein, ran_closeIn.trans hstart, by simpa using hread rfl⟩
    | false =>
      refine ⟨_, _, rfl, tokenizer_closeIn pipein, ran_closeIn.trans hstart, ?_⟩
      exact (congrArg env.exit hstart).trans (if_pos (.inr hbuiltin)).symm
  · rw [if_neg hbuiltin, if_pos (hcons ▸ hargs)]
    cases pipeOutput with
    | true => exact ⟨_, _, rfl, tokenizer_closeIn pipein, ran_closeIn.trans hstart, by simpa using hread rfl⟩
    | false =>
      cases blocking with
      | true =>
        refine ⟨_, _, rfl, tokenizer_closeIn pipein, ran_closeIn.trans hstart, ?_⟩
        exact (congrArg env.exit (ran_closeIn.trans hstart)).trans (if_pos (.inl rfl)).symm
      | false =>
        refine ⟨_, _, rfl, tokenizer_closeIn pipein, ran_closeIn.trans hstart, ?_⟩
        exact (if_neg fun h => h.elim nofun hbuiltin).symm

/-- The shell is where the tokens so far lead to, with `r` to read. -/
structure Sim (p : Parsing) (q : Locals × State) (r : List UInt8) : Prop where
  ahead : q.2.tokenizer.Ahead r
  words : q.2.argumentBuffer = p.words
  status : q.1.status = p.status
  piped : 0 < q.1.pipe ↔ p.piped = true
  ran : q.2.ran = p.ran
  few : p.words.length < cmdBufParts

variable {p : Parsing} {q : Locals × State}

lemma Sim.runs_iff (h : Sim p q r) : RunsCommand q.1 q.2.argumentBuffer token ↔ p.Runs token := by
  cases token with
  | eol => rw [RunsCommand, Parsing.Runs, h.words, length_pos_iff]
  | and => rw [RunsCommand, Parsing.Runs, h.status]
  | _ => exact Iff.rfl

lemma Sim.safe (h : Sim p q r) (hn : r.length ≤ n) (hlex : lex r = some (token, w, r')) (hp : p.Accepts token w) :
    Safe n q := by
  obtain ⟨t, htoken, ht⟩ := getNextToken_fits h.ahead hn hlex (hp.length.elim Nat.le_of_lt fun hw => hw.1.le)
  refine ⟨token, t, htoken, ⟨_, if_pos ?_⟩, fun hword => ?_, fun hruns => ?_⟩
  · rw [ht.2]
    exact hp.length.symm.imp_left And.right
  · have hle := hp.word hword
    rw [h.words]
    change _ < 63
    omega
  · rw [h.words]
    exact hp.command (h.runs_iff.1 hruns)

lemma Sim.accepts (h : Sim p q r) (hn : r.length + cmdBufLength ≤ n) (hsafe : Safe n q) :
    ∃ token w r', lex r = some (token, w, r') ∧ p.Accepts token w := by
  obtain ⟨token, t, htoken, ⟨value, hvalue⟩, hroom⟩ := hsafe
  rcases hlex : lex r with _ | ⟨token', w, r'⟩
  · cases (getNextToken_none h.ahead hlex n).symm.trans htoken
  have hreturns := getNextToken_some (n := n) h.ahead (by omega) hlex
  unfold Returns at hreturns
  split_ifs at hreturns with hw
  · obtain ⟨t', hok, hat⟩ := hreturns
    cases hok.symm.trans htoken
    refine ⟨token, w, r', rfl, ?_, fun hword => ?_, fun hruns => ?_⟩
    · unfold getTokenValue at hvalue
      rw [hat.2] at hvalue
      split_ifs at hvalue with hnul
      rcases Nat.lt_or_ge w.length cmdBufLength with hlt | hge
      · exact .inl hlt
      · exact .inr ⟨Nat.le_antisymm hw hge, hnul.resolve_right (Nat.not_lt.2 hge)⟩
    · have hlt := hroom.word hword
      rw [h.words] at hlt
      exact Nat.le_of_lt_succ hlt
    · rw [← h.words]
      exact hroom.command (h.runs_iff.2 hruns)
  · cases (hreturns hn).symm.trans htoken

/-- What `main` makes of a pass of the loop of `do_next_command`. -/
def turn : Except Fault ((Locals × State) ⊕ (Locals × State)) → (Locals × State) ⊕ Fault
  | .error e => .inr e
  | .ok (.inl q) => .inl q
  | .ok (.inr (v, s)) => .inl (⟨0, 0⟩, if v.pipe ≠ 0 then s.close v.pipe else s)

lemma mainPass_read (htoken : s.tokenizer.getNextToken n = .ok (token, t)) :
    mainPass env n (v, s) = turn (commandPass env token v (s.read token t)) := by
  simp only [mainPass, nextPass, htoken]
  rcases commandPass env token v (s.read token t) with _ | (_ | _) <;> rfl

/-- A command that a token runs is `exit`, or its words are taken. -/
lemma Sim.command {f : Int × State → Except Fault ((Locals × State) ⊕ (Locals × State))}
    (hpipe : ∀ opened, 0 < (env.pipe opened).1) (h : Sim p (v, s) r) (ht : t.Ahead r')
    (hruns : p.Runs token) (hne : p.words ≠ [])
    (hcommand : commandPass env token v (s.read token t) =
      runCommand env v.pipe blocking pipeOutput (s.read token t) >>= f)
    (hf : ∀ result s', (if pipeOutput then 0 < result else result =
        if blocking ∨ p.words.headD [] ∈ builtins then p.exitStatus env else 0) →
      ∃ v' piped, turn (f (result, s')) = .inl (v', s'.freeArgumentBuffer) ∧ (0 < v'.pipe ↔ piped = true) ∧
        p.next env token w = p.run v'.status piped) :
    (p.Runs token ∧ p.words.head? = some exitName) ∧
      turn (commandPass env token v (s.read token t)) = .inr .exited ∨
    ¬ (p.Runs token ∧ p.words.head? = some exitName) ∧
      ∃ q', turn (commandPass env token v (s.read token t)) = .inl q' ∧ Sim (p.next env token w) q' r' := by
  have hread : (s.read token t).argumentBuffer = p.words := h.words
  rw [hcommand]
  by_cases hexit : p.words.head? = some exitName
  · rw [runCommand_exit (by rwa [hread])]
    exact .inl ⟨⟨hruns, hexit⟩, rfl⟩
  obtain ⟨result, s', hrun, htokenizer, hran, hresult⟩ := runCommand_ok hpipe
    (hread ▸ hne) (hread ▸ hexit) (hread ▸ h.few)
  rw [hread, show (s.read token t).ran = p.ran from h.ran] at hresult
  obtain ⟨v', piped, hturn, hv, hnext⟩ := hf result s' hresult
  refine .inr ⟨fun h => hexit h.2, (v', s'.freeArgumentBuffer), by rw [hrun]; exact hturn, ?_⟩
  rw [hnext]
  refine ⟨?_, rfl, rfl, hv, hran.trans (congrArg₂ _ h.words h.ran), Nat.succ_pos 63⟩
  change s'.tokenizer.Ahead r'
  rwa [htokenizer]

lemma Sim.pass (hpipe : ∀ opened, 0 < (env.pipe opened).1) (h : Sim p q r) (hn : r.length ≤ n)
    (hlex : lex r = some (token, w, r')) (hp : p.Accepts token w) :
    (p.Runs token ∧ p.words.head? = some exitName) ∧ mainPass env n q = .inr .exited ∨
    ¬ (p.Runs token ∧ p.words.head? = some exitName) ∧
      ∃ q', mainPass env n q = .inl q' ∧ Sim (p.next env token w) q' r' := by
  obtain ⟨t, htoken, ht⟩ := getNextToken_fits h.ahead hn hlex (hp.length.elim Nat.le_of_lt fun hw => hw.1.le)
  obtain ⟨v, s⟩ := q
  rw [mainPass_read htoken]
  have hzero : 0 < (0 : ℤ) ↔ false = true := iff_of_false (Int.lt_irrefl 0) nofun
  have hread : (s.read token t).argumentBuffer = p.words := h.words
  cases token with
  | string =>
    have hvalue : t.getTokenValue = .ok (w.takeWhile fun c => decide (c ≠ 0)) := by
      unfold getTokenValue
      rw [ht.2, if_pos (hp.length.symm.imp_left And.right)]
    have hadd := addToken_of_value hvalue (hread ▸ h.few)
    have hle := hp.word rfl
    refine .inr ⟨fun hruns => hruns.1, (v, { s.read .string t with argumentBuffer := _ }), ?_, ht.1,
      congrArg (· ++ [_]) h.words, h.status, h.piped, h.ran, ?_⟩
    · simp only [commandPass, hadd]
      rfl
    · rw [Parsing.next, length_append]
      change _ + 1 < 64
      omega
  | eol =>
    by_cases hwords : p.words = []
    · have hempty : ¬ (s.read .eol t).argumentBuffer.length > 0 := by simp [hread, hwords]
      refine .inr ⟨fun hruns => hruns.1 hwords, ?_⟩
      simp only [commandPass, if_neg hempty, Parsing.next, if_neg (not_not.2 hwords)]
      by_cases hpiped : v.pipe > 0
      · rw [if_pos hpiped, if_pos (h.piped.1 hpiped)]
        exact ⟨_, rfl, ht.1, h.words, h.status, h.piped, h.ran, h.few⟩
      rw [if_neg hpiped, if_neg (mt h.piped.2 hpiped)]
      refine ⟨_, rfl, ?_⟩
      have hnot : (0 : ℤ) < 0 ↔ p.piped = true := iff_of_false (Int.lt_irrefl 0) (mt h.piped.2 hpiped)
      split_ifs
      · exact ⟨ht.1, h.words, rfl, hnot, h.ran, h.few⟩
      · exact ⟨ht.1, h.words, rfl, hnot, h.ran, h.few⟩
    · refine h.command hpipe ht.1 hwords hwords (if_pos ?_) fun result s' _ =>
        ⟨⟨0, 0⟩, false, rfl, hzero, if_pos hwords⟩
      rwa [hread, gt_iff_lt, length_pos_iff]
  | pipe =>
    exact h.command hpipe ht.1 trivial (hp.command trivial) rfl fun result s' hresult =>
      ⟨⟨v.status, result⟩, true, rfl, iff_of_true hresult rfl, congrArg (p.run · true) h.status.symm⟩
  | semicolon =>
    exact h.command hpipe ht.1 trivial (hp.command trivial) rfl fun result s' hresult =>
      ⟨⟨result, 0⟩, false, rfl, hzero, congrArg (p.run · false) (hresult.trans (if_pos (.inl rfl))).symm⟩
  | subprocess =>
    refine h.command hpipe ht.1 trivial (hp.command trivial) rfl fun result s' hresult =>
      ⟨⟨result, 0⟩, false, rfl, hzero, ?_⟩
    have hstatus : result = if builtins.contains (p.words.headD []) then p.exitStatus env else 0 := by
      simpa using hresult
    rw [hstatus]
    rfl
  | and =>
    by_cases hstatus : v.status = 0
    · refine h.command hpipe ht.1 (h.status.symm.trans hstatus) (hp.command (h.status.symm.trans hstatus))
        (if_pos hstatus) fun result s' hresult => ⟨⟨result, 0⟩, false, rfl, hzero, ?_⟩
      rw [Parsing.next, if_pos (h.status.symm.trans hstatus), hresult, if_pos (.inl rfl)]
    · refine .inr ⟨fun hruns => hstatus (h.status.trans hruns.1), (v, (s.read .and t).freeArgumentBuffer), ?_, ?_⟩
      · rw [commandPass, if_neg hstatus]
        rfl
      · rw [Parsing.next, if_neg fun hno => hstatus (h.status.trans hno)]
        exact ⟨ht.1, rfl, h.status, h.piped, h.ran, Nat.succ_pos 63⟩
  | or =>
    refine h.command hpipe ht.1 trivial (hp.command trivial) rfl fun result s' hresult =>
      ⟨⟨if v.status = 0 then result else v.status, 0⟩, false, rfl, hzero, ?_⟩
    have hstatus : v.status = p.status := h.status
    have hexit : result = p.exitStatus env := hresult.trans (if_pos (.inl rfl))
    rw [hstatus, hexit]
    rfl

/-- The shell survives an input if and only if its tokens are in order and make the shell exit. A pipe is
not read from the descriptor 0, which is in use. -/
theorem survives_iff_orderly (hpipe : ∀ opened, 0 < (env.pipe opened).1) (input : List UInt8) :
    Survives env input ↔ Orderly env ⟨[], 0, false, []⟩ input := by
  have hinit : Sim ⟨[], 0, false, []⟩ (⟨0, 0⟩, .initial input) input :=
    ⟨.inl rfl, rfl, rfl, iff_of_false (Int.lt_irrefl 0) nofun, rfl, Nat.succ_pos 63⟩
  constructor
  · rintro ⟨N, hN⟩
    have hsafe := hN (max N (input.length + cmdBufLength)) (Nat.le_max_left ..)
    have hn := Nat.le_max_right N (input.length + cmdBufLength)
    generalize max N (input.length + cmdBufLength) = n at hsafe hn
    -- each pass leaves fewer bytes to read
    have hall : ∀ (m : ℕ) {p : Parsing} {q : Locals × State} {r : List UInt8}, r.length < m →
        r.length ≤ input.length → Sim p q r → Reached env n input q → Orderly env p r := by
      intro m
      induction m with
      | zero => exact fun hm => absurd hm (Nat.not_lt_zero _)
      | succ m ih =>
        intro p q r hm hr hsim hq
        obtain ⟨token, w, r', hlex, hp⟩ := hsim.accepts (by omega) (hsafe q hq)
        have hless := length_lex_lt hlex
        rcases hsim.pass (n := n) hpipe (by omega) hlex hp with ⟨⟨hruns, hexit⟩, -⟩ | ⟨-, q', hpass, hsim'⟩
        · exact .exit hlex hp hruns hexit
        · obtain ⟨k, hk⟩ := hq
          exact .next hlex hp (ih (by omega) (by omega) hsim' ⟨k + 1, Loop.after_succ.2 ⟨q, hk, hpass⟩⟩)
    exact hall _ (Nat.lt_succ_self _) le_rfl hinit ⟨0, rfl⟩
  · intro horderly
    refine ⟨input.length, fun n hn q ⟨k, hk⟩ => ?_⟩
    have hstep : ∀ q q', (∃ p r, r.length ≤ n ∧ Sim p q r ∧ Orderly env p r) → mainPass env n q = .inl q' →
        ∃ p r, r.length ≤ n ∧ Sim p q' r ∧ Orderly env p r := by
      rintro q q' ⟨p, r, hr, hsim, hp⟩ hgo
      cases hp with
      | exit hlex haccepts hruns hexit =>
        rcases hsim.pass hpipe hr hlex haccepts with ⟨-, hend⟩ | ⟨hno, -⟩
        · cases hend.symm.trans hgo
        · exact absurd ⟨hruns, hexit⟩ hno
      | next hlex haccepts hnext =>
        have hless := length_lex_lt hlex
        rcases hsim.pass hpipe hr hlex haccepts with ⟨-, hend⟩ | ⟨-, _, hpass, hsim'⟩
        · cases hend.symm.trans hgo
        · cases hpass.symm.trans hgo
          exact ⟨_, _, by omega, hsim', hnext⟩
    obtain ⟨p, r, hr, hsim, hp⟩ := Loop.after_of_invariant hstep ⟨_, input, hn, hinit, horderly⟩ k hk
    cases hp with
    | exit hlex haccepts => exact hsim.safe hr hlex haccepts
    | next hlex haccepts => exact hsim.safe hr hlex haccepts

theorem survives_exit : Survives plainEnv (chars ['e', 'x', 'i', 't', '\n']) := by
  refine (survives_iff_orderly (fun _ => Nat.succ_pos _) _).2
    (.next rfl ⟨.inl (by decide), fun _ => by decide, nofun⟩ ?_)
  exact .exit rfl ⟨.inl (by decide), nofun, fun _ => by decide⟩ (List.cons_ne_nil _ _) rfl

/-- An input of no bytes, which is to be read forever. -/
theorem empty_input_endless : (∀ n, (start []).getNextToken n = .error .endless) ∧ ∀ env, ¬ Survives env [] := by
  have hnone := getNextToken_none (ahead_rest (start [])) rfl
  refine ⟨hnone, fun env ⟨N, hN⟩ => ?_⟩
  obtain ⟨token, t, htoken, -⟩ := hN N (Nat.le_refl N) _ ⟨0, rfl⟩
  cases (hnone N).symm.trans htoken

end OlliOS.Shell
