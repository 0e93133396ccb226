import OlliOS.Proofs.Tokenizer

/-!
# Lists of tokens

A list of tokens is read back, but for `||` and `&&`, behind which their second byte is read as a token of
its own.
-/

namespace OlliOS.Shell

open Lexer Tokenizer
open List hiding lex

variable {t : Tokenizer} {r r' follow : List UInt8} {token : Token} {value : Option CStr} {w : CStr}
  {l l' : List (Token × Option CStr)}

lemma reads_of_lex (ht : t.Ahead r) (hlex : lex r = some (token, w, r')) (hw : w.length ≤ cmdBufLength)
    (hvalue : ∀ v ∈ value, ∀ t', At t' r' w → t'.getTokenValue = .ok v) (hl : ∀ t', Ahead t' r' → t'.Reads l) :
    t.Reads ((token, value) :: l) := by
  refine ⟨r.length, fun n hn => ?_⟩
  obtain ⟨t', htoken, ht'⟩ := getNextToken_fits ht hn hlex hw
  exact ⟨t', htoken, fun v hv => hvalue v hv t' ht', hl t' ht'.1⟩

lemma reads_operator (ht : t.Ahead r) (hlex : lex r = some (token, [], r')) (hl : ∀ t', Ahead t' r' → t'.Reads l) :
    t.Reads ((token, none) :: l) :=
  reads_of_lex ht hlex (Nat.zero_le _) nofun hl

lemma Tokenizer.Reads.length_eq : ∀ {l l' : List (Token × Option CStr)} {t : Tokenizer}, t.Reads l → t.Reads l' →
    l.length = l'.length
  | [], [], _, _, _ => rfl
  | [], _ :: _, _, h, h' => by
    obtain ⟨N, h'⟩ := h'
    obtain ⟨t', htoken, -⟩ := h' N (Nat.le_refl N)
    exact absurd htoken (h N _)
  | _ :: _, [], _, h, h' => by
    obtain ⟨N, h⟩ := h
    obtain ⟨t', htoken, -⟩ := h N (Nat.le_refl N)
    exact absurd htoken (h' N _)
  | _ :: l, _ :: l', _, ⟨N, h⟩, ⟨N', h'⟩ => by
    obtain ⟨t1, htoken, -, hl⟩ := h (max N N') (Nat.le_max_left N N')
    obtain ⟨t2, htoken', -, hl'⟩ := h' (max N N') (Nat.le_max_right N N')
    obtain ⟨-, rfl⟩ : _ ∧ t1 = t2 := by simpa [htoken] using htoken'
    rw [length_cons, length_cons, hl.length_eq hl']

def Item.read : Item → List (Token × Option CStr)
  | .operator .or _ => [(.or, none), (.pipe, none)]
  | .operator .and _ => [(.and, none), (.subprocess, none)]
  | item => [item.token]

/-- What follows does not belong to the token before it. -/
structure Apart (follow : List UInt8) : Prop where
  word : isWord (follow.headD 0xFF) = false
  bar : follow.headD 0xFF ≠ '|'.toUInt8
  ampersand : follow.headD 0xFF ≠ '&'.toUInt8

lemma apart_nil : Apart [] := ⟨rfl, by decide, by decide⟩

lemma apart_blanks (b : List Blank) (h : b = [] → Apart follow) : Apart (blanks b ++ follow) := by
  rcases b with _ | ⟨c, b⟩
  · exact h rfl
  · exact ⟨isWord_blank c, (blank_ne c).1, (blank_ne c).2⟩

lemma reads_item (b : List Blank) (item : Item) (hfollow : Apart follow)
    (ht : t.Ahead (blanks b ++ (item.text ++ follow))) (hl : ∀ t', Ahead t' follow → t'.Reads l) :
    t.Reads (item.read ++ l) := by
  cases item with
  | word w =>
    refine reads_of_lex ht ((lex_blanks b).trans (lex_word w hfollow.word)) (Nat.le_of_lt w.fits) (fun v hv t' ht' => ?_) hl
    cases hv
    exact ht'.getTokenValue w
  | operator token h =>
    have hbar : lex ('|'.toUInt8 :: follow) = some (.pipe, [], follow) := by rw [lex, if_pos rfl, if_neg hfollow.bar]
    have hampersand : lex ('&'.toUInt8 :: follow) = some (.subprocess, [], follow) := by
      rw [lex, if_neg (by decide), if_pos rfl, if_neg hfollow.ampersand]
    cases token with
    | string => exact absurd rfl h
    | pipe => exact reads_operator ht ((lex_blanks b).trans hbar) hl
    | semicolon => exact reads_operator ht ((lex_blanks b).trans rfl) hl
    | eol => exact reads_operator ht ((lex_blanks b).trans rfl) hl
    | subprocess => exact reads_operator ht ((lex_blanks b).trans hampersand) hl
    | and => exact reads_operator ht ((lex_blanks b).trans rfl) fun t' ht' => reads_operator ht' hampersand hl
    | or => exact reads_operator ht ((lex_blanks b).trans rfl) fun t' ht' => reads_operator ht' hbar hl

lemma reads_items (after : List Blank) : ∀ (items : List (List Blank × Item)) {t : Tokenizer},
    (∀ p ∈ items.tail, p.1 ≠ []) → t.Ahead ((items.flatMap fun p => blanks p.1 ++ p.2.text) ++ blanks after) →
    t.Reads (items.flatMap fun p => p.2.read)
  | [], t, _, ht => fun n p h => by
    have hnone : lex (blanks after) = none := by rw [← append_nil (blanks after), lex_blanks, lex]
    rw [getNextToken_none ht hnone] at h
    cases h
  | (b, item) :: items, t, hspaced, ht => by
    rw [flatMap_cons, append_assoc, append_assoc] at ht
    refine reads_item b item ?_ ht fun t' ht' => reads_items after items (fun p hp => hspaced p (mem_of_mem_tail hp)) ht'
    cases items with
    | nil => simpa using apart_blanks after fun _ => apart_nil
    | cons p items =>
      rw [flatMap_cons, append_assoc, append_assoc]
      exact apart_blanks p.1 fun hnil => absurd hnil (hspaced p (mem_cons_self ..))

lemma read_eq {item : Item} (h : item.token.1 ≠ .or ∧ item.token.1 ≠ .and) : item.read = [item.token] := by
  rcases item with w | ⟨_ | _ | _ | _ | _ | _ | _, _⟩
  all_goals first | rfl | exact absurd rfl h.1 | exact absurd rfl h.2

lemma length_read_pos (item : Item) : 1 ≤ item.read.length := by
  rcases item with w | ⟨_ | _ | _ | _ | _ | _ | _, _⟩
  all_goals simp [Item.read]

lemma length_read (item : Item) (h : item.token.1 = .or ∨ item.token.1 = .and) : item.read.length = 2 := by
  rcases item with w | ⟨token, _⟩
  · rcases h with h | h <;> cases h
  · rcases h with rfl | rfl <;> rfl

lemma length_le_read : ∀ items : List (List Blank × Item), items.length ≤ (items.flatMap fun p => p.2.read).length
  | [] => Nat.le_refl 0
  | p :: items => by
    have := length_read_pos p.2
    have := length_le_read items
    rw [flatMap_cons, length_append, length_cons]
    omega

/-- The tokens are read as they are written if and only if none of them is `||` or `&&`. -/
theorem reads_iff_single (l : TokenList) : (start l.text).Reads (l.items.map fun p => p.2.token) ↔
    ∀ p ∈ l.items, p.2.token.1 ≠ .or ∧ p.2.token.1 ≠ .and := by
  have hreads := reads_items l.after l.items l.spaced (ahead_rest (start l.text))
  constructor
  · intro h p hp
    by_contra hdouble
    have hlength := h.length_eq hreads
    obtain ⟨before, behind, hitems⟩ := append_of_mem hp
    have := length_read p.2 (by tauto)
    have := length_le_read before
    have := length_le_read behind
    rw [length_map, hitems, flatMap_append, flatMap_cons] at hlength
    simp only [length_append, length_cons] at hlength
    omega
  · intro h
    have hread : (l.items.flatMap fun p => p.2.read) = l.items.map fun p => p.2.token := by
      rw [map_eq_flatMap]
      exact flatMap_congr fun p hp => read_eq (h p hp)
    rwa [hread] at hreads

/-- `||` alone is read as two tokens. -/
theorem or_read_twice : ¬ (start ['|'.toUInt8, '|'.toUInt8]).Reads [(.or, none)] ∧
    (start ['|'.toUInt8, '|'.toUInt8]).Reads [(.or, none), (.pipe, none)] := by
  have hreads := reads_items [] [([], .operator .or nofun)] nofun (ahead_rest (start ['|'.toUInt8, '|'.toUInt8]))
  exact ⟨fun h => absurd (h.length_eq hreads) (by decide), hreads⟩

end OlliOS.Shell
