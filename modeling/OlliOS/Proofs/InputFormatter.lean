import OlliOS.Modules.InputFormatter

/-!
# The kernel shell's input line refines the editor

`At f l` says that the formatter shows the line `l`, and `f.edited l printed erased` is what is left when
only the line was edited.
-/

namespace OlliOS.KernelShell

open List Option Line Except OlliOS.Vector VirtualKeyEvent

open Init (Command)

namespace InputFormatter

variable {f : InputFormatter} {l : Line UInt8} {left right : List UInt8} {c : UInt8} {p : List UInt8}
  {er : List (ℕ × ℕ)}

structure At (f : InputFormatter) (l : Line UInt8) : Prop where
  back : f.back = l.text
  lineIndex : f.lineIndex = l.cursor

def edited (f : InputFormatter) (l : Line UInt8) (printed : List UInt8) (erased : List (ℕ × ℕ)) : InputFormatter :=
  { f with back := l.text, lineIndex := l.cursor, printed, erased }

lemma edited_at : (f.edited l p er).At l := ⟨rfl, rfl⟩

lemma At.eq_edited (h : f.At l) : f.edited l f.printed f.erased = f := by
  rw [edited, ← h.back, ← h.lineIndex]

lemma At.lineIndex_le (h : f.At l) : f.lineIndex ≤ f.back.length := by
  rw [h.lineIndex, h.back, length_text]
  exact Nat.le_add_right _ _

lemma At.at_end (h : f.At ⟨left, []⟩) : f.lineIndex = f.back.length := by
  rw [h.lineIndex, h.back, length_text]
  rfl

/-! ### The cursor -/

lemma moveRight_edited (f : InputFormatter) (right : List UInt8) (er : List (ℕ × ℕ)) :
    ∀ middle left p : List UInt8, ∃ p', moveRight middle.length (f.edited ⟨left, middle ++ right⟩ p er) =
      .ok (f.edited ⟨middle.reverse ++ left, right⟩ p' er)
  | [], left, p => ⟨p, rfl⟩
  | c :: middle, left, p => by
    have hget : (f.edited ⟨left, c :: middle ++ right⟩ p er).back[left.length]? = some c := by simp [edited, text]
    have hnext : { (f.edited ⟨left, c :: middle ++ right⟩ p er).print [c] with lineIndex := left.length + 1 } =
        f.edited ⟨c :: left, middle ++ right⟩ (p ++ [c]) er := by simp [edited, print, text, cursor]
    obtain ⟨p', hp'⟩ := moveRight_edited f right er middle (c :: left) (p ++ [c])
    refine ⟨p', ?_⟩
    rw [length_cons, moveRight, show (f.edited _ p er).lineIndex = left.length from rfl, hget]
    exact (congrArg (moveRight middle.length) hnext).trans (by simpa using hp')

lemma moveCursorBy_right (middle : List UInt8) (h : f.At ⟨left, middle ++ right⟩) :
    ∃ p, f.moveCursorBy middle.length = .ok (f.edited ⟨middle.reverse ++ left, right⟩ p f.erased) := by
  have hlength : f.back.length = f.lineIndex + (middle.length + right.length) := by
    rw [h.back, h.lineIndex, length_text, length_append]
    rfl
  have hcase : ¬ ((middle.length : ℤ) < 0 ∧ (f.lineIndex : ℤ) ≤ -middle.length) := by omega
  have hfits : ¬ ((f.lineIndex : ℤ) + middle.length > f.back.length) := by omega
  have hcut : f.moveCursorBy middle.length = moveRight middle.length f := by
    rw [moveCursorBy, if_neg hcase, if_neg hfits]
    exact if_neg (by omega)
  obtain ⟨p, hp⟩ := moveRight_edited f right f.erased middle left f.printed
  rw [h.eq_edited] at hp
  exact ⟨p, hcut.trans hp⟩

lemma moveCursorBy_left {n : ℕ} (hend : f.lineIndex ≤ f.back.length + n) :
    ∃ p, f.moveCursorBy (-n) = .ok { f with printed := p, lineIndex := f.lineIndex - n } := by
  have hcut : (if -(n : ℤ) < 0 ∧ (f.lineIndex : ℤ) ≤ -(-(n : ℤ)) then -(f.lineIndex : ℤ)
      else if (f.lineIndex : ℤ) + -n > f.back.length then f.back.length - f.lineIndex
      else -(n : ℤ)) = -((min n f.lineIndex : ℕ) : ℤ) := by split_ifs <;> omega
  have hindex : f.lineIndex - min n f.lineIndex = f.lineIndex - n := by omega
  simp only [moveCursorBy, hcut, Int.natAbs_neg, Int.natAbs_natCast, hindex]
  split_ifs with hzero
  · exact ⟨_, rfl⟩
  · have hstay : min n f.lineIndex = 0 := by omega
    refine ⟨f.printed, ?_⟩
    rw [← hindex, hstay]
    rfl

/-! ### Characters -/

lemma pushBack_of_lt {α : Type} {xs : List α} {x : α} (h : xs.length < 0x3FFFFFFF) : pushBack xs x = .ok (xs ++ [x]) :=
  if_pos h

lemma pushBack_of_not_lt {α : Type} {xs : List α} {x : α} (h : ¬ xs.length < 0x3FFFFFFF) :
    pushBack xs x = .error .noMemory :=
  if_neg h

lemma addChar_at (h : f.At l) (hroom : l.text.length < 0x3FFFFFFF) :
    ∃ p, f.addChar c = .ok (f.edited (l.insert c) p f.erased) := by
  have hinsert : insert f.back f.lineIndex c = (l.insert c).text := by
    rw [h.back, h.lineIndex, text, cursor, ← length_reverse, insert_eq, text, Line.insert, reverse_cons, append_assoc]
    rfl
  simp only [addChar, if_neg (Nat.not_lt.2 h.lineIndex_le), pushBack_of_lt (h.back ▸ hroom), hinsert]
  unfold edited
  rw [show (l.insert c).cursor = f.lineIndex + 1 by rw [h.lineIndex]; rfl]
  exact ⟨_, rfl⟩

lemma addChar_noMemory (h : f.At l) (hroom : ¬ l.text.length < 0x3FFFFFFF) : f.addChar c = .error .noMemory := by
  simp only [addChar, if_neg (Nat.not_lt.2 h.lineIndex_le), pushBack_of_not_lt (h.back ▸ hroom)]
  rfl

lemma redraw_at (h : f.At l) (num : ℕ) : ∃ p, f.redraw num = .ok (f.edited l p f.erased) := by
  have hle := h.lineIndex_le
  unfold redraw
  generalize f.back.drop f.lineIndex ++ replicate num ' '.toUInt8 = shown
  obtain ⟨p, hp⟩ := moveCursorBy_left (f := { f.print shown with lineIndex := f.lineIndex + shown.length })
    (n := shown.length) (Nat.add_le_add_right hle _)
  refine ⟨p, hp.trans ?_⟩
  rw [edited, ← h.back, ← h.lineIndex]
  simp [print]

lemma moveCursorBy_redraw (num : ℕ) {n : ℕ} (hback : f.back = l.text) (hindex : f.lineIndex - n = l.cursor)
    (hend : f.lineIndex ≤ f.back.length + n) :
    ∃ p, (f.moveCursorBy (-n) >>= (·.redraw num)) = .ok (f.edited l p f.erased) := by
  obtain ⟨p, hp⟩ := moveCursorBy_left hend
  obtain ⟨p', hp'⟩ := redraw_at (f := { f with printed := p, lineIndex := f.lineIndex - n }) ⟨hback, hindex⟩ num
  rw [hp]
  exact ⟨p', hp'⟩

lemma erase_text {xs : List UInt8} (h : xs = left.reverse ++ c :: right) :
    erase xs left.length = (⟨left, right⟩ : Line UInt8).text := by
  rw [h, ← length_reverse, erase_eq]
  rfl

lemma removeChars_at (h : f.At ⟨c :: left, right⟩) :
    ∃ p, f.removeChars 1 = .ok (f.edited ⟨left, right⟩ p (f.erased ++ [(left.length, f.back.length)])) := by
  have hindex : f.lineIndex - 1 = left.length := by rw [h.lineIndex]; rfl
  have hle := h.lineIndex_le
  have hpos : f.lineIndex ≠ 0 := by rw [h.lineIndex]; exact nofun
  have herase : erase f.back left.length = (⟨left, right⟩ : Line UInt8).text := erase_text (c := c) (by
    simp [h.back, text])
  rw [removeChars, if_pos (by omega), if_neg hpos, hindex]
  refine moveCursorBy_redraw 1 (f := eraseTimes left.length 1 f) herase hindex ?_
  show f.lineIndex ≤ (erase f.back left.length).length + 1
  rw [herase, length_text]
  change f.lineIndex ≤ left.length + right.length + 1
  omega

lemma deleteChars_at (h : f.At ⟨left, c :: right⟩) :
    ∃ p, f.deleteChars 1 = .ok (f.edited ⟨left, right⟩ p (f.erased ++ [(left.length, f.back.length)])) := by
  have hindex : f.lineIndex = left.length := h.lineIndex
  have hlength : f.back.length = left.length + (right.length + 1) := by
    rw [h.back, length_text]
    rfl
  rw [deleteChars, if_pos (by omega), if_neg (by omega), hindex]
  exact redraw_at (f := eraseTimes left.length 1 f) ⟨erase_text h.back, hindex⟩ 1

/-! ### Recalled lines -/

lemma length_bubble : ∀ (n i : ℕ) (xs : List UInt8), (bubble n i xs).length = xs.length
  | 0, _, _ => rfl
  | n + 1, i, xs => by
    rw [bubble, length_bubble, moveDown]
    split
    · exact length_set
    · rfl

lemma length_erase (xs : List UInt8) (position : ℕ) : (erase xs position).length = xs.length - 1 := by
  rw [erase, length_dropLast, length_bubble]

lemma eraseTimes_all (position : ℕ) : ∀ (n : ℕ) {f : InputFormatter}, f.back.length = n →
    ∃ er, eraseTimes position n f = { f with back := [], erased := er } ∧
      ((∀ x ∈ er, x.1 < x.2) ↔ f.Erases ∧ (0 < n → position = 0))
  | 0, f, h => by
    refine ⟨f.erased, ?_, by simp [Erases]⟩
    rw [← eq_nil_of_length_eq_zero h]
    rfl
  | n + 1, f, h => by
    have hlength : (erase f.back position).length = n := by rw [length_erase, h]; rfl
    obtain ⟨er, her, hiff⟩ := eraseTimes_all position n
      (f := { f with back := erase f.back position, erased := f.erased ++ [(position, f.back.length)] }) hlength
    refine ⟨er, her, hiff.trans ?_⟩
    simp only [Erases, mem_append, mem_singleton, or_imp, forall_and, forall_eq, h, and_assoc]
    refine and_congr_right fun _ => ?_
    constructor
    · rintro ⟨hlt, hzero⟩ -
      by_cases hn : 0 < n
      · exact hzero hn
      · omega
    · intro hzero
      have hposition := hzero (Nat.succ_pos n)
      exact ⟨by omega, fun _ => hposition⟩

lemma removeChars_all (h : f.lineIndex ≤ f.back.length) :
    ∃ l p er, f.removeChars f.back.length = .ok (f.edited l p er) ∧
      ((∀ x ∈ er, x.1 < x.2) ↔ f.Erases ∧ f.lineIndex ≤ 1) := by
  rw [removeChars, if_pos (Nat.le_refl _)]
  by_cases hzero : f.lineIndex = 0
  · rw [if_pos hzero, ← At.eq_edited (f := f) (l := ⟨[], f.back⟩) ⟨rfl, hzero⟩]
    exact ⟨_, _, _, rfl, by simp [Erases, edited, cursor]⟩
  obtain ⟨er, her, hiff⟩ := eraseTimes_all (f.lineIndex - 1) f.back.length rfl
  obtain ⟨p, hp⟩ := moveCursorBy_redraw f.back.length (f := { f with back := [], erased := er })
    (l := .empty) rfl (Nat.sub_eq_zero_of_le h) (Nat.le_add_left_of_le h)
  rw [if_neg hzero, her]
  refine ⟨.empty, p, er, hp, hiff.trans (and_congr_right fun _ => ?_)⟩
  constructor <;> omega

lemma foldlM_pushBack : ∀ (line before : List UInt8), (before ++ line).length ≤ 0x3FFFFFFF →
    line.foldlM pushBack before = .ok (before ++ line)
  | [], before, _ => by
    rw [List.append_nil]
    rfl
  | c :: line, before, h => by
    have hroom : before.length < 0x3FFFFFFF := by
      rw [length_append, length_cons] at h
      omega
    have hrest := foldlM_pushBack line (before ++ [c]) (by simpa using h)
    rw [foldlM_cons, pushBack_of_lt hroom]
    exact hrest.trans (by simp)

lemma gotoLine_spec {linenum : ℕ} {text : List UInt8} (h : f.lineIndex ≤ f.back.length)
    (hline : f.log[linenum]? = some (text ++ [0])) (hfits : text.length + 1 ≤ 0x3FFFFFFF) (hclean : 0 ∉ text) :
    ∃ p er, f.gotoLine linenum = .ok { f.edited (.ofText text) p er with logIndex := linenum } ∧
      ((∀ x ∈ er, x.1 < x.2) ↔ f.Erases ∧ f.lineIndex ≤ 1) := by
  obtain ⟨l, p, er, hg, herases⟩ := removeChars_all h
  have hget : ({ f.edited l p er with back := [] } : InputFormatter).input[linenum]? = some (text ++ [0]) := by
    show (f.log ++ [[]])[linenum]? = _
    rw [getElem?_append_left (List.getElem?_eq_some_iff.1 hline).1, hline]
  have hcopy : (text ++ [0]).foldlM pushBack ([] : List UInt8) = .ok (text ++ [0]) :=
    foldlM_pushBack (text ++ [0]) [] (by simpa using hfits)
  have hlast : (text ++ [(0 : UInt8)]).getLast? = some 0 := by simp
  simp only [gotoLine, hg, bind, Except.bind, hget, hcopy, hlast, cstr_append hclean, dropLast_concat]
  refine ⟨p ++ text, er, ?_, herases⟩
  simp [edited, print, pure, Except.pure, ofText, cursor, Line.text]

lemma gotoLine_outside {linenum : ℕ} (h : f.lineIndex ≤ f.back.length) (hline : f.log.length < linenum) :
    f.gotoLine linenum = .error .outside := by
  obtain ⟨l, p, er, hg, -⟩ := removeChars_all h
  have hget : ({ f.edited l p er with back := [] } : InputFormatter).input[linenum]? = none := by
    show (f.log ++ [[]])[linenum]? = _
    rwa [List.getElem?_eq_none_iff, length_append]
  simp only [gotoLine, hg, bind, Except.bind, hget]
  rfl

/-! ### Commands -/

def perform (f : InputFormatter) : Command → Except Fault InputFormatter
  | .insert c => f.addChar c
  | .backspace => f.removeChars 1
  | .delete => f.deleteChars 1
  | .home => f.moveCursorTo 0
  | .toEnd => f.moveCursorTo f.back.length
  | .left => f.moveCursorBy (-1)
  | .right => f.moveCursorBy 1
  | .up => if 0 < f.logIndex then f.gotoLine (f.logIndex - 1) else .ok f
  | .down => if f.logIndex < f.newest then f.gotoLine (f.logIndex + 1) else .ok f
  | .commit => f.enter

lemma handleVirtualKeyEvent_eq (event : VirtualKeyEvent) :
    f.handleVirtualKeyEvent event = (commandOf event).elim (.ok f) f.perform := by
  rcases hpressed : event.isPressed with _ | _
  · simp only [handleVirtualKeyEvent, commandOf, hpressed]
    rfl
  rw [handleVirtualKeyEvent, commandOf, hpressed, if_neg Bool.true_eq_false.mp, if_neg Bool.true_eq_false.mp]
  symm
  iterate 2 refine elim_ite rfl ?_
  rcases event.toChar with _ | character
  · iterate 7 refine elim_ite rfl ?_
    rfl
  · rfl

end InputFormatter

open InputFormatter

variable {f f' : InputFormatter} {e : LogEditor} {line : Line UInt8} {i n : ℕ} {text p : List UInt8}
  {er : List (ℕ × ℕ)} {command : Command} {c : UInt8} {event : VirtualKeyEvent}
  {bad : LogEditor → VirtualKeyEvent → Prop} {events : List VirtualKeyEvent}

/-- The states of the formatter, with the editor. A vector has less than 2 ^ 30 elements. -/
structure Inv (f : InputFormatter) (e : LogEditor) : Prop where
  represents : Represents f e
  position : e.position ≤ e.history.length
  clean : 0 ∉ e.line.text
  history_clean : ∀ text ∈ e.history, 0 ∉ text
  fits : e.line.text.length ≤ 0x3FFFFFFF
  history_fits : ∀ text ∈ e.history, text.length + 1 ≤ 0x3FFFFFFF
  count : e.history.length ≤ 0x3FFFFFFF

namespace Inv

variable (h : Inv f e)

include h

lemma at_line : f.At e.line := ⟨h.represents.back, h.represents.lineIndex⟩

lemma logIndex_lt : f.logIndex < f.input.length := by
  have hposition := h.position
  rw [h.represents.logIndex, input, length_append, h.represents.log, length_map, length_singleton]
  omega

lemma edit (hclean : 0 ∉ line.text) (hfits : line.text.length ≤ 0x3FFFFFFF) :
    Inv (f.edited line p er) { e with line := line } :=
  { h with
    represents := { h.represents with back := rfl, lineIndex := rfl }
    clean := hclean
    fits := hfits }

lemma select (hi : e.history[i]? = some text) :
    Inv { f.edited (.ofText text) p er with logIndex := i } (e.select i) := by
  have hmem := mem_of_getElem? hi
  have hfits := h.history_fits text hmem
  rw [LogEditor.select, hi]
  have hedit : Inv (f.edited (.ofText text) p er) { e with line := .ofText text } :=
    h.edit (by rw [text_ofText]; exact h.history_clean text hmem) (by rw [text_ofText]; omega)
  exact { hedit with
    represents := { hedit.represents with logIndex := rfl }
    position := Nat.le_of_lt (List.getElem?_eq_some_iff.1 hi).1 }

lemma log_get (hi : e.history[i]? = some text) : f.log[i]? = some (text ++ [0]) := by
  rw [h.represents.log, getElem?_map, hi]
  rfl

lemma newest_eq (hne : e.history ≠ []) : f.newest = e.history.length - 1 := by
  have hpos := length_pos_iff.2 hne
  have hcount := h.count
  rw [newest, input, length_append, h.represents.log, length_map, length_singleton]
  omega

end Inv

/-- The command recalls a line with two characters or more to the left of the cursor. -/
def LogEditor.FarCommand (e : LogEditor) (command : Command) : Prop :=
  2 ≤ e.line.cursor ∧ (command = .up ∧ 0 < e.position ∨ command = .down ∧ e.position + 1 < e.history.length)

def Follows (f f' : InputFormatter) (e : LogEditor) (command : Command) : Prop :=
  Inv f' (e.step command) ∧ (f'.Erases ↔ f.Erases ∧ ¬ e.FarCommand command)

lemma not_far (hup : command ≠ .up) (hdown : command ≠ .down) : ¬ e.FarCommand command :=
  fun hfar => hfar.2.elim (fun hcase => hup hcase.1) fun hcase => hdown hcase.1

section Commands

variable (h : Inv f e)

include h

lemma follows_edit (hstep : e.step command = { e with line := line }) (hnear : ¬ e.FarCommand command)
    (herases : (∀ x ∈ er, x.1 < x.2) ↔ f.Erases) (hclean : 0 ∉ line.text) (hfits : line.text.length ≤ 0x3FFFFFFF) :
    Follows f (f.edited line p er) e command := by
  refine ⟨?_, herases.trans (and_iff_left hnear).symm⟩
  rw [hstep]
  exact h.edit hclean hfits

lemma insert_follows (hc : c ≠ 0) : (∃ f', f.perform (.insert c) = .ok f' ∧ Follows f f' e (.insert c)) ∨
    f.perform (.insert c) = .error .noMemory ∧ 0x3FFFFFFF ≤ e.line.text.length := by
  by_cases hroom : e.line.text.length < 0x3FFFFFFF
  · obtain ⟨p, hp⟩ := addChar_at h.at_line hroom
    refine .inl ⟨_, hp, follows_edit h rfl (not_far nofun nofun) .rfl ?_ ?_⟩
    · rw [mem_insert, not_or]
      exact ⟨hc.symm, h.clean⟩
    · rwa [length_insert]
  · exact .inr ⟨addChar_noMemory h.at_line hroom, Nat.le_of_not_lt hroom⟩

lemma stays_follows (hstep : e.step command = e) (hnear : ¬ e.FarCommand command) : Follows f f e command := by
  refine ⟨?_, (and_iff_left hnear).symm⟩
  rwa [hstep]

lemma move_follows (hstep : e.step command = { e with line := line }) (hnear : ¬ e.FarCommand command)
    (htext : line.text = e.line.text) : Follows f (f.edited line p f.erased) e command :=
  follows_edit h hstep hnear .rfl (htext ▸ h.clean) (htext ▸ h.fits)

lemma erase_follows {position : ℕ} (hstep : e.step command = { e with line := line })
    (hnear : ¬ e.FarCommand command) (hsub : line.text.Sublist e.line.text) (hlt : position < f.back.length) :
    Follows f (f.edited line p (f.erased ++ [(position, f.back.length)])) e command :=
  follows_edit h hstep hnear (by simp [Erases, or_imp, forall_and, hlt]) (fun hmem => h.clean (hsub.subset hmem))
    (Nat.le_trans hsub.length_le h.fits)

lemma backspace_follows : ∃ f', f.perform .backspace = .ok f' ∧ Follows f f' e .backspace := by
  have hat := h.at_line
  have hnear : ¬ e.FarCommand .backspace := not_far nofun nofun
  obtain ⟨⟨left, right⟩, history, position⟩ := e
  rcases left with _ | ⟨c, left⟩
  · have hzero : f.lineIndex = 0 := hat.lineIndex
    refine ⟨f, ?_, stays_follows h rfl hnear⟩
    rw [perform, removeChars, if_pos hzero, ite_self]
  · obtain ⟨p, hp⟩ := removeChars_at hat
    exact ⟨_, hp, erase_follows h rfl hnear (backspace_sublist ⟨c :: left, right⟩)
      (Nat.le_trans (Nat.le_of_eq hat.lineIndex.symm) hat.lineIndex_le)⟩

lemma delete_follows : ∃ f', f.perform .delete = .ok f' ∧ Follows f f' e .delete := by
  have hat := h.at_line
  have hnear : ¬ e.FarCommand .delete := not_far nofun nofun
  obtain ⟨⟨left, right⟩, history, position⟩ := e
  rcases right with _ | ⟨c, right⟩
  · refine ⟨f, ?_, stays_follows h rfl hnear⟩
    rw [perform, deleteChars, if_pos hat.at_end, ite_self]
  · obtain ⟨p, hp⟩ := deleteChars_at hat
    refine ⟨_, hp, erase_follows h rfl hnear (delete_sublist ⟨left, c :: right⟩) ?_⟩
    rw [hat.back, length_text]
    exact Nat.lt_add_of_pos_right (Nat.succ_pos _)

lemma home_follows : ∃ f', f.perform .home = .ok f' ∧ Follows f f' e .home := by
  obtain ⟨p, hp⟩ := moveCursorBy_left (f := f) (n := f.lineIndex) (by omega)
  refine ⟨f.edited e.line.home p f.erased, ?_, move_follows h rfl (not_far nofun nofun) (text_home e.line)⟩
  rw [perform, moveCursorTo, Int.zero_sub, hp, Nat.sub_self, edited, text_home, ← h.represents.back]
  rfl

lemma toEnd_follows : ∃ f', f.perform .toEnd = .ok f' ∧ Follows f f' e .toEnd := by
  have hat := h.at_line
  have hdistance : (f.back.length : ℤ) - f.lineIndex = e.line.right.length := by
    rw [hat.back, hat.lineIndex, length_text, cursor]
    omega
  have hall : f.At ⟨e.line.left, e.line.right ++ []⟩ := by rwa [append_nil]
  obtain ⟨p, hp⟩ := moveCursorBy_right _ hall
  rw [← reverse_reverse e.line.left, ← reverse_append] at hp
  refine ⟨_, ?_, move_follows h (p := p) rfl (not_far nofun nofun) (text_toEnd e.line)⟩
  rwa [perform, moveCursorTo, hdistance]

lemma left_follows : ∃ f', f.perform .left = .ok f' ∧ Follows f f' e .left := by
  have hle := h.at_line.lineIndex_le
  obtain ⟨p, hp⟩ := moveCursorBy_left (f := f) (n := 1) (by omega)
  have hcursor : e.line.moveLeft.cursor = f.lineIndex - 1 := by
    rw [h.represents.lineIndex]
    rcases e.line with ⟨_ | ⟨c, left⟩, right⟩ <;> rfl
  refine ⟨f.edited e.line.moveLeft p f.erased, ?_, move_follows h rfl (not_far nofun nofun) (text_moveLeft e.line)⟩
  rwa [edited, text_moveLeft, ← h.represents.back, hcursor]

lemma right_follows : ∃ f', f.perform .right = .ok f' ∧ Follows f f' e .right := by
  have hat := h.at_line
  have hnear : ¬ e.FarCommand .right := not_far nofun nofun
  obtain ⟨⟨left, right⟩, history, position⟩ := e
  rcases right with _ | ⟨c, right⟩
  · have hend := hat.at_end
    refine ⟨f, ?_, stays_follows h rfl hnear⟩
    -- the amount is cut to zero
    have hcut : (f.lineIndex : ℤ) + 1 > f.back.length := by omega
    rw [perform, moveCursorBy, if_neg (by omega), if_pos hcut, hend, Int.sub_self]
    rfl
  · obtain ⟨p, hp⟩ := moveCursorBy_right [c] hat
    exact ⟨_, hp, move_follows h rfl hnear (text_moveRight ⟨left, c :: right⟩)⟩

lemma gotoLine_follows (hi : e.history[i]? = some text) (hstep : e.step command = e.select i)
    (hfar : e.FarCommand command ↔ 2 ≤ e.line.cursor) :
    ∃ f', f.gotoLine i = .ok f' ∧ Follows f f' e command := by
  have hmem := mem_of_getElem? hi
  obtain ⟨p, er, hp, herases⟩ := gotoLine_spec h.at_line.lineIndex_le (h.log_get hi)
    (h.history_fits text hmem) (h.history_clean text hmem)
  refine ⟨_, hp, ?_, herases.trans ?_⟩
  · rw [hstep]
    exact h.select hi
  · rw [hfar, h.represents.lineIndex, Nat.not_le, Nat.lt_succ_iff]

lemma up_follows : ∃ f', f.perform .up = .ok f' ∧ Follows f f' e .up := by
  rw [perform, h.represents.logIndex]
  by_cases hpos : 0 < e.position
  · have hposition := h.position
    obtain ⟨text, hi⟩ : ∃ text, e.history[e.position - 1]? = some text := ⟨_, getElem?_eq_getElem (by omega)⟩
    rw [if_pos hpos]
    refine gotoLine_follows h hi (if_pos hpos) ⟨fun hfar => hfar.1, fun hcursor => ⟨hcursor, .inl ⟨rfl, hpos⟩⟩⟩
  · rw [if_neg hpos]
    refine ⟨f, rfl, stays_follows h (if_neg hpos) fun hfar => hfar.2.elim (fun hcase => hpos hcase.2) ?_⟩
    rintro ⟨hcase, -⟩
    cases hcase

lemma down_follows (hne : e.history ≠ []) : ∃ f', f.perform .down = .ok f' ∧ Follows f f' e .down := by
  rw [perform, h.represents.logIndex, h.newest_eq hne]
  by_cases hlt : e.position + 1 < e.history.length
  · rw [if_pos (by omega)]
    exact gotoLine_follows h (getElem?_eq_getElem hlt) rfl
      ⟨fun hfar => hfar.1, fun hcursor => ⟨hcursor, .inr ⟨rfl, hlt⟩⟩⟩
  · have hstep : e.step .down = e := by
      rw [LogEditor.step, LogEditor.select, List.getElem?_eq_none_iff.2 (Nat.le_of_not_lt hlt)]
    rw [if_neg (by omega)]
    refine ⟨f, rfl, stays_follows h hstep fun hfar => hfar.2.elim ?_ fun hcase => hlt hcase.2⟩
    rintro ⟨hcase, -⟩
    cases hcase

lemma down_outside (hnil : e.history = []) : f.perform .down = .error .outside := by
  have hlog : f.log = [] := by rw [h.represents.log, hnil, List.map_nil]
  have hposition := h.position
  have hindex : f.logIndex = 0 := by
    rw [h.represents.logIndex]
    rw [hnil] at hposition
    exact Nat.le_zero.1 hposition
  have hnewest : f.newest = 0xFFFFFFFF := by rw [newest, input, hlog, nil_append, length_singleton]
  rw [perform, hindex, hnewest, if_pos (by omega)]
  exact gotoLine_outside h.at_line.lineIndex_le (by rw [hlog]; exact Nat.zero_lt_one)

omit h in
lemma enter_ok {line : List UInt8} (hline : pushBack f.back 0 = .ok line)
    (hlog : pushBack f.log line = .ok (f.log ++ [line])) :
    f.enter = .ok ⟨f.log ++ [line], [], true, (f.log ++ [line]).length, 0, f.printed ++ ['\n'.toUInt8], f.erased⟩ := by
  simp only [enter, print, hline, hlog, bind, Except.bind, pure, Except.pure]

lemma commit_inv (hroom : e.line.text.length < 0x3FFFFFFF) (hcount : e.history.length < 0x3FFFFFFF)
    (printed : List UInt8) (erased : List (ℕ × ℕ)) :
    Inv ⟨f.log ++ [e.line.text ++ [0]], [], false, (f.log ++ [e.line.text ++ [0]]).length, 0, printed, erased⟩
      (e.step .commit) := by
  have hmem : ∀ text ∈ (e.step .commit).history, text ∈ e.history ∨ text = e.line.text := fun text ht =>
    (mem_append.1 ht).imp_right mem_singleton.1
  refine ⟨⟨?_, rfl, rfl, ?_, rfl⟩, ?_, not_mem_nil, fun text ht => ?_, Nat.zero_le _, fun text ht => ?_, ?_⟩
  · rw [LogEditor.step, map_append, ← h.represents.log]
    rfl
  · rw [length_append, h.represents.log, length_map]
    rfl
  · rw [LogEditor.step, length_append]
    exact Nat.le_refl _
  · rcases hmem text ht with hold | rfl
    · exact h.history_clean text hold
    · exact h.clean
  · rcases hmem text ht with hold | rfl
    · exact h.history_fits text hold
    · exact hroom
  · rwa [LogEditor.step, length_append]

lemma enter_follows : (∃ g f', f.enter = .ok g ∧ g.lineReady = true ∧ g.getNextLine = .ok (f', e.line.text ++ [0]) ∧
      Follows f f' e .commit) ∨
    f.enter = .error .noMemory ∧ (0x3FFFFFFF ≤ e.line.text.length ∨ 0x3FFFFFFF ≤ e.history.length) := by
  have hlength : f.log.length = e.history.length := by rw [h.represents.log, length_map]
  by_cases hroom : e.line.text.length < 0x3FFFFFFF
  swap
  · have hfull : pushBack f.back 0 = .error .noMemory := if_neg (by rw [h.represents.back]; exact hroom)
    refine .inr ⟨?_, .inl (Nat.le_of_not_lt hroom)⟩
    simp [enter, print, hfull, bind, Except.bind]
  have hline : pushBack f.back 0 = .ok (e.line.text ++ [0]) := by
    rw [h.represents.back]
    exact if_pos hroom
  by_cases hcount : e.history.length < 0x3FFFFFFF
  swap
  · have hfull : pushBack f.log (e.line.text ++ [0]) = .error .noMemory :=
      if_neg (by rw [hlength]; exact hcount)
    refine .inr ⟨?_, .inr (Nat.le_of_not_lt hcount)⟩
    simp [enter, print, hline, hfull, bind, Except.bind]
  have hlog : pushBack f.log (e.line.text ++ [0]) = .ok (f.log ++ [e.line.text ++ [0]]) :=
    if_pos (by rw [hlength]; exact hcount)
  refine .inl ⟨_, _, enter_ok hline hlog, rfl, ?_, commit_inv h hroom hcount
    (f.printed ++ ['\n'.toUInt8]) f.erased, (and_iff_left ?_).symm⟩
  · have hnewest : (f.log ++ [e.line.text ++ [0]] ++ [[]] : List (List UInt8))[
        ((f.log ++ [e.line.text ++ [0]] ++ [[]]).length + 0xFFFFFFFE) % 0x100000000]? = some (e.line.text ++ [0]) := by
      have hindex : ((f.log ++ [e.line.text ++ [0]] ++ [[]]).length + 0xFFFFFFFE) % 0x100000000 = f.log.length := by
        simp only [length_append, length_singleton]
        omega
      rw [hindex, append_assoc, getElem?_append_right (Nat.le_refl _), Nat.sub_self]
      rfl
    simp only [getNextLine, newest, input, hnewest]
  · exact not_far nofun nofun

end Commands

/-! ### Runs -/

lemma insert_of_commandOf (h : commandOf event = some (.insert c)) : c ≠ 0 := by
  have hchar : event.toChar = some c := by
    iterate 3 replace h := of_ite_eq_some h nofun
    rcases htoChar : event.toChar with _ | character
    · rw [htoChar] at h
      iterate 7 replace h := of_ite_eq_some h nofun
      cases h
    · rw [htoChar] at h
      cases h
      rfl
  rcases toChar_visible c hchar with rfl | hvisible
  · exact nofun
  · rintro rfl
    cases hvisible

lemma perform_follows (h : Inv f e) (hcommit : command ≠ .commit)
    (hinsert : ∀ c, command = .insert c → c ≠ 0) (hdown : ¬ (command = .down ∧ e.history = [])) :
    (∃ f', f.perform command = .ok f' ∧ Follows f f' e command) ∨
    f.perform command = .error .noMemory ∧ 0x3FFFFFFF ≤ e.line.text.length := by
  cases command with
  | insert c => exact insert_follows h (hinsert c rfl)
  | backspace => exact .inl (backspace_follows h)
  | delete => exact .inl (delete_follows h)
  | home => exact .inl (home_follows h)
  | toEnd => exact .inl (toEnd_follows h)
  | left => exact .inl (left_follows h)
  | right => exact .inl (right_follows h)
  | up => exact .inl (up_follows h)
  | down => exact .inl (down_follows h fun hnil => hdown ⟨rfl, hnil⟩)
  | commit => exact absurd rfl hcommit

lemma far_iff (h : commandOf event = some command) : e.Far event ↔ e.FarCommand command := by
  rw [LogEditor.Far, LogEditor.FarCommand, h, some.injEq, some.injEq]

lemma step_eq (event : VirtualKeyEvent) : f.step event = ((commandOf event).elim (.ok f) f.perform).bind fun f =>
      if f.lineReady then f.getNextLine.bind fun r => .ok r.1 else .ok f := by
  rw [step, handleVirtualKeyEvent_eq]
  rfl

lemma step_of_perform (hcommand : commandOf event = some command) (hf' : f.perform command = .ok f')
    (hready : f'.lineReady = false) : f.step event = .ok f' := by
  rw [step_eq, hcommand, elim_some, hf']
  show (if f'.lineReady then _ else ok f') = _
  rw [hready]
  rfl

lemma step_follows (h : Inv f e) (hearly : ¬ e.Early event) :
    (∃ f', f.step event = .ok f' ∧ Inv f' (e.handle event) ∧ (f'.Erases ↔ f.Erases ∧ ¬ e.Far event)) ∨
    f.step event = .error .noMemory ∧ (0x3FFFFFFF ≤ e.line.text.length ∨ 0x3FFFFFFF ≤ e.history.length) := by
  rw [LogEditor.handle]
  rcases hcommand : commandOf event with _ | command
  · refine .inl ⟨f, ?_, h, (and_iff_left fun hfar => ?_).symm⟩
    · rw [step_eq, hcommand]
      show (if f.lineReady then _ else ok f) = _
      rw [h.represents.fetched]
      rfl
    · rcases hfar.2 with ⟨hup, -⟩ | ⟨hdown, -⟩
      · cases hcommand.symm.trans hup
      · cases hcommand.symm.trans hdown
  rw [far_iff hcommand]
  by_cases hcommit : command = .commit
  · subst hcommit
    rw [step_eq, hcommand]
    rcases enter_follows h with ⟨g, f', hg, hready, hnext, hfollows⟩ | ⟨hfull, hbound⟩
    · refine .inl ⟨f', ?_, hfollows⟩
      show f.enter.bind _ = _
      rw [hg]
      show (if g.lineReady then _ else _) = _
      rw [hready, if_pos rfl, hnext]
      rfl
    · refine .inr ⟨?_, hbound⟩
      show f.enter.bind _ = _
      rw [hfull]
      rfl
  · have hdown : ¬ (command = .down ∧ e.history = []) := by
      rintro ⟨rfl, hnil⟩
      exact hearly ⟨hcommand, hnil⟩
    have hinsert : ∀ c, command = .insert c → c ≠ 0 := by
      rintro c rfl
      exact insert_of_commandOf hcommand
    rcases perform_follows h hcommit hinsert hdown with ⟨f', hf', hfollows⟩ | ⟨hfull, hbound⟩
    · exact .inl ⟨f', step_of_perform hcommand hf' hfollows.1.represents.fetched, hfollows⟩
    · refine .inr ⟨?_, .inl hbound⟩
      rw [step_eq, hcommand, elim_some, hfull]
      rfl

lemma step_early (h : Inv f e) (hearly : e.Early event) : f.step event = .error .outside := by
  rw [step_eq, hearly.1, elim_some, down_outside h hearly.2]
  rfl

lemma step_of_far (h : Inv f e) (hfar : e.Far event) : ∃ f', f.step event = .ok f' := by
  obtain ⟨command, hcommand, f', hf', hfollows⟩ :
      ∃ command, commandOf event = some command ∧ ∃ f', f.perform command = .ok f' ∧ Follows f f' e command := by
    rcases hfar.2 with ⟨hup, -⟩ | ⟨hdown, hlt⟩
    · exact ⟨_, hup, up_follows h⟩
    · refine ⟨_, hdown, down_follows h ?_⟩
      rintro hnil
      rw [hnil] at hlt
      exact absurd hlt (Nat.not_lt_zero _)
  exact ⟨f', step_of_perform hcommand hf' hfollows.1.represents.fetched⟩

lemma run_append (events : List VirtualKeyEvent) (event : VirtualKeyEvent) :
    InputFormatter.run (events ++ [event]) = InputFormatter.run events >>= (InputFormatter.step · event) := by
  simp [InputFormatter.run]

lemma LogEditor.run_append (events : List VirtualKeyEvent) (event : VirtualKeyEvent) :
    LogEditor.run (events ++ [event]) = (LogEditor.run events).handle event := by
  rw [LogEditor.run, foldl_append]
  rfl

structure LogEditor.Bounded (e : LogEditor) (n : ℕ) : Prop where
  line : e.line.text.length ≤ n
  count : e.history.length ≤ n
  history : ∀ text ∈ e.history, text.length ≤ n

lemma LogEditor.Bounded.select (h : e.Bounded n) (i : ℕ) : (e.select i).Bounded n := by
  unfold LogEditor.select
  split
  next text hi =>
    refine ⟨?_, h.count, h.history⟩
    rw [text_ofText]
    exact h.history text (mem_of_getElem? hi)
  next => exact h

lemma LogEditor.Bounded.succ (h : e.Bounded n) : e.Bounded (n + 1) :=
  ⟨Nat.le_succ_of_le h.line, Nat.le_succ_of_le h.count, fun text ht => Nat.le_succ_of_le (h.history text ht)⟩

lemma LogEditor.Bounded.edit (h : e.Bounded n) (hline : line.text.length ≤ n + 1) :
    ({ e with line := line } : LogEditor).Bounded (n + 1) :=
  ⟨hline, h.succ.count, h.succ.history⟩

lemma LogEditor.Bounded.step (h : e.Bounded n) (command : Command) : (e.step command).Bounded (n + 1) := by
  cases command with
  | insert c => exact h.edit (by rw [length_insert]; exact Nat.succ_le_succ h.line)
  | backspace => exact h.edit (Nat.le_trans (backspace_sublist e.line).length_le h.succ.line)
  | delete => exact h.edit (Nat.le_trans (delete_sublist e.line).length_le h.succ.line)
  | home => exact h.edit (by exact h.succ.line)
  | toEnd => exact h.edit (by rw [text_toEnd]; exact h.succ.line)
  | left => exact h.edit (by rw [text_moveLeft]; exact h.succ.line)
  | right => exact h.edit (by rw [text_moveRight]; exact h.succ.line)
  | up =>
    rw [LogEditor.step]
    split
    · exact (h.select _).succ
    · exact h.succ
  | down => exact (h.select _).succ
  | commit =>
    refine ⟨Nat.zero_le _, ?_, fun text ht => ?_⟩
    · rw [LogEditor.step, length_append]
      exact Nat.succ_le_succ h.count
    · rcases mem_append.1 ht with hold | hnew
      · exact h.succ.history text hold
      · rw [mem_singleton.1 hnew]
        exact h.succ.line

lemma bounded_run (events : List VirtualKeyEvent) : (LogEditor.run events).Bounded events.length := by
  induction events using List.reverseRecOn with
  | nil => exact ⟨Nat.le_refl _, Nat.le_refl _, nofun⟩
  | append_singleton events event ih =>
    rw [LogEditor.run_append, length_append, length_singleton, LogEditor.handle]
    rcases commandOf event with _ | command
    · exact ih.succ
    · exact ih.step command

lemma init_inv : Inv .init .init where
  represents := ⟨rfl, rfl, rfl, rfl, rfl⟩
  position := Nat.le_refl _
  clean := not_mem_nil
  history_clean _ ht := absurd ht not_mem_nil
  fits := Nat.zero_le _
  history_fits _ ht := absurd ht not_mem_nil
  count := Nat.zero_le _

lemma avoids_append : Avoids bad (events ++ [event]) ↔
      Avoids bad events ∧ (InputFormatter.run events ≠ .error .noMemory → ¬ bad (LogEditor.run events) event) := by
  constructor
  · intro h
    refine ⟨?_, h events event [] rfl⟩
    rintro before event' after rfl
    exact h before event' (after ++ [event]) (by simp)
  · rintro ⟨hbefore, hlast⟩ before event' after heq
    rcases eq_nil_or_concat after with rfl | ⟨after, last, rfl⟩
    · obtain ⟨rfl, hsingle⟩ := append_inj' heq rfl
      rwa [← singleton_inj.1 hsingle]
    · have hsplit : events ++ [event] = (before ++ event' :: after) ++ [last] := by simp [heq]
      exact hbefore before event' after (append_inj_left' hsplit rfl)

lemma run_inv (events : List VirtualKeyEvent) (hearly : Avoids LogEditor.Early events) :
    (∃ f, InputFormatter.run events = .ok f ∧ Inv f (LogEditor.run events) ∧ (f.Erases ↔ Avoids LogEditor.Far events)) ∨
    InputFormatter.run events = .error .noMemory ∧ 0x3FFFFFFF ≤ events.length + 1 := by
  induction events using List.reverseRecOn with
  | nil =>
    refine .inl ⟨.init, rfl, init_inv, fun _ before event after hnil => ?_, fun _ x hx => ?_⟩
    · simp at hnil
    · cases hx
  | append_singleton events event ih =>
    rw [run_append, LogEditor.run_append, length_append, length_singleton]
    obtain ⟨hbefore, hnow⟩ := avoids_append.1 hearly
    rcases ih hbefore with ⟨f, hf, hinv, herases⟩ | ⟨hfull, hlarge⟩
    · have hlast : InputFormatter.run events ≠ .error .noMemory := by
        rw [hf]
        exact nofun
      rw [hf]
      rcases step_follows hinv (hnow hlast) with ⟨f', hf', hinv', herases'⟩ | ⟨hfull, hlarge⟩
      · refine .inl ⟨f', hf', hinv', herases'.trans ?_⟩
        rw [herases, avoids_append]
        exact and_congr_right fun _ => ⟨fun hnear _ => hnear, fun hnear => hnear hlast⟩
      · have hbounded := bounded_run events
        refine .inr ⟨hfull, ?_⟩
        rcases hlarge with hline | hcount
        · have := hbounded.line
          omega
        · have := hbounded.count
          omega
    · rw [hfull]
      exact .inr ⟨rfl, by omega⟩

lemma sound_of_inv {P : InputFormatter → Prop} (hf : InputFormatter.run events = .ok f)
    (hinv : Inv f (LogEditor.run events)) (hP : P f) : Sound P events :=
  .inl ⟨f, hf, hinv.represents, hinv.at_line.lineIndex_le, hinv.logIndex_lt, hP⟩

lemma avoids_of_sound (events : List VirtualKeyEvent)
    (h : ∀ n, Sound (fun _ => True) (events.take n)) : Avoids LogEditor.Early events := by
  induction events using List.reverseRecOn with
  | nil =>
    intro before event after hnil
    simp at hnil
  | append_singleton events event ih =>
    have hbefore : Avoids LogEditor.Early events := by
      refine ih fun n => ?_
      have hn := h (min n events.length)
      rwa [take_append_of_le_length (Nat.min_le_right ..), ← take_take, take_length] at hn
    refine avoids_append.2 ⟨hbefore, fun hmemory hearly => ?_⟩
    rcases run_inv events hbefore with ⟨f, hf, hinv, -⟩ | ⟨hfull, -⟩
    · have hrun : InputFormatter.run (events ++ [event]) = .error .outside := by
        rw [run_append, hf]
        exact step_early hinv hearly
      have hlast := h (events ++ [event]).length
      rw [take_length] at hlast
      rcases hlast with ⟨f', hf', -⟩ | ⟨hfull, -⟩
      · cases hrun.symm.trans hf'
      · cases hrun.symm.trans hfull
    · exact hmemory hfull

lemma avoids_take (h : Avoids bad events) (n : ℕ) : Avoids bad (events.take n) := by
  intro before event after heq
  refine h before event (after ++ events.drop n) ?_
  rw [← cons_append, ← append_assoc, ← heq, take_append_drop]

/-- The line and its cursor are those of the editor if and only if the first line is entered before the down
arrow is pressed. The positions that `erase` is given are in the line, too, if and only if no line is
recalled with two characters or more to the left of the cursor. -/
theorem formatter_sound_iff (events : List VirtualKeyEvent) :
    ((∀ n, Sound (fun _ => True) (events.take n)) ↔ Avoids LogEditor.Early events) ∧
    ((∀ n, Sound Erases (events.take n)) ↔ Avoids LogEditor.Early events ∧ Avoids LogEditor.Far events) := by
  refine ⟨⟨avoids_of_sound events, fun hearly n => ?_⟩, fun hsound => ?_, fun ⟨hearly, hfar⟩ n => ?_⟩
  · rcases run_inv _ (avoids_take hearly n) with ⟨f, hf, hinv, -⟩ | hfull
    · exact sound_of_inv hf hinv trivial
    · exact .inr hfull
  · have hearly : Avoids LogEditor.Early events := avoids_of_sound events fun n =>
      (hsound n).imp_left fun ⟨f, hf, hrep, hline, hlog, _⟩ => ⟨f, hf, hrep, hline, hlog, trivial⟩
    refine ⟨hearly, ?_⟩
    rintro before event after rfl hmemory hfar
    have htake : (before ++ event :: after).take (before.length + 1) = before ++ [event] := by
      rw [append_cons]
      exact take_left' length_append
    have hnow : Avoids LogEditor.Early (before ++ [event]) := htake ▸ avoids_take hearly (before.length + 1)
    have hlast := hsound (before.length + 1)
    rw [htake] at hlast
    rcases run_inv _ hnow with ⟨f, hf, hinv, herases⟩ | ⟨hfull, -⟩
    · rcases hlast with ⟨f', hf', -, -, -, herased⟩ | ⟨hfull, -⟩
      · obtain rfl := ok.inj (hf.symm.trans hf')
        exact (avoids_append.1 (herases.1 herased)).2 hmemory hfar
      · cases hf.symm.trans hfull
    · rcases run_inv before (avoids_append.1 hnow).1 with ⟨f, hf, hinv, -⟩ | ⟨hfull', -⟩
      · obtain ⟨f', hf'⟩ := step_of_far hinv hfar
        have hboth : ok f' = error Fault.noMemory := by
          rw [← hf', ← hfull, run_append, hf]
          rfl
        cases hboth
      · exact hmemory hfull'
  · rcases run_inv _ (avoids_take hearly n) with ⟨f, hf, hinv, herases⟩ | hfull
    · exact sound_of_inv hf hinv (herases.2 (avoids_take hfar n))
    · exact .inr hfull

/-- Down, on a fresh formatter. -/
theorem formatter_outside : InputFormatter.run [⟨VirtualKeycode.dArrow.code, 1⟩] = .error .outside ∧
    ¬ Sound (fun _ => True) [⟨VirtualKeycode.dArrow.code, 1⟩] := by
  have hrun : InputFormatter.run [⟨VirtualKeycode.dArrow.code, 1⟩] = .error .outside := rfl
  refine ⟨hrun, ?_⟩
  rintro (⟨f, hf, -⟩ | ⟨hfull, -⟩)
  · cases hf
  · cases hfull

end OlliOS.KernelShell
