import OlliOS.Proofs.LineEditor

/-!
# The screen shows the line

A byte replaces what is under the cursor (`Shows.write`), a backspace only moves it (`Shows.back`), and
blanks behind the text may be left out of it (`Shows.trim`).
-/

namespace OlliOS.Init

open List Editor InputBuffer Line

variable {t t' t'' : Terminal} {xs ys : List Echo} {text left right : List UInt8} {c : UInt8} {cursor : ℕ}
  {b : InputBuffer} {e : Editor} {returns : ℕ → ℕ → ℕ} {command : Command}

namespace Terminal

def Feeds (t : Terminal) (echo : List Echo) (t' : Terminal) : Prop := echo.foldlM feed t = some t'

lemma Feeds.refl : Feeds t [] t := rfl

lemma Feeds.append (h : Feeds t xs t') (h' : Feeds t' ys t'') : Feeds t (xs ++ ys) t'' := by
  rwa [Feeds, foldlM_append, h]

lemma Feeds.single {x : Echo} (h : t.feed x = some t') : Feeds t [x] t' := by
  rw [Feeds, foldlM_cons, h]
  rfl

namespace Shows

lemma put (h : Shows t (left ++ right) left.length) (hc : c ≠ backChar) :
    ∃ t', Feeds t [.byte c] t' ∧ Shows t' (left ++ c :: right.tail) (left.length + 1) := by
  have hself : Function.update t.row t.column c left.length = c := by rw [← h.column, Function.update_self]
  have hother : ∀ i, i ≠ left.length → Function.update t.row t.column c i = t.row i := fun i hi =>
    Function.update_of_ne (by rwa [h.column]) _ _
  refine ⟨⟨Function.update t.row t.column c, t.column + 1⟩, .single (if_neg hc), ?_, ?_, ?_⟩
  · rw [← h.column]
  · intro i x hx
    rcases Nat.lt_trichotomy i left.length with hlt | rfl | hgt
    · rw [getElem?_append_left hlt] at hx
      exact (hother i (by omega)).trans (h.cells i x (by rw [getElem?_append_left hlt, hx]))
    · rw [getElem?_append_right (Nat.le_refl _), Nat.sub_self] at hx
      exact hself.trans (Option.some.inj hx)
    · refine (hother i (by omega)).trans (h.cells i x ?_)
      obtain ⟨k, rfl⟩ := Nat.exists_eq_add_of_lt hgt
      have hk : left.length + k + 1 - left.length = k + 1 := by omega
      rw [getElem?_append_right (by omega), hk, getElem?_cons_succ, getElem?_tail] at hx
      rw [getElem?_append_right (by omega), hk, hx]
  · intro i hi
    simp only [length_append, length_cons, length_tail] at hi
    have hrest := h.rest i (by rw [length_append]; omega)
    rwa [← hother i (by omega)] at hrest

lemma write : ∀ (xs left right : List UInt8) {t : Terminal}, backChar ∉ xs → Shows t (left ++ right) left.length →
    ∃ t', Feeds t (xs.map .byte) t' ∧ Shows t' (left ++ xs ++ right.drop xs.length) (left.length + xs.length)
  | [], left, right, t, _, h => ⟨t, .refl, by simpa using h⟩
  | x :: xs, left, right, t, hclean, h => by
    simp only [mem_cons, not_or] at hclean
    obtain ⟨t1, hput, h1⟩ := h.put (Ne.symm hclean.1)
    obtain ⟨t2, hwrite, h2⟩ := write xs (left ++ [x]) right.tail hclean.2 (by simpa using h1)
    refine ⟨t2, hput.append hwrite, ?_⟩
    simpa [Nat.add_assoc, Nat.add_comm 1] using h2

lemma back : ∀ (n : ℕ) {t : Terminal} {cursor : ℕ}, Shows t text (cursor + n) →
    ∃ t', Feeds t ((List.replicate n backChar).map .byte) t' ∧ Shows t' text cursor
  | 0, t, _, h => ⟨t, .refl, h⟩
  | n + 1, t, cursor, h => by
    have hcolumn : t.column = cursor + n + 1 := h.column
    have hfeed : t.feed (.byte backChar) = some { t with column := t.column - 1 } := by
      rw [feed, if_pos rfl, if_neg (by omega)]
    have hmoved : Shows { t with column := t.column - 1 } text (cursor + n) :=
      ⟨by dsimp only; omega, h.cells, h.rest⟩
    obtain ⟨t', hback, h'⟩ := back n hmoved
    exact ⟨t', (Feeds.single hfeed).append hback, h'⟩

lemma trim {blanks : List UInt8} (h : Shows t (text ++ blanks) cursor)
    (hblank : ∀ x ∈ blanks, Blank x) : Shows t text cursor where
  column := h.column
  cells i x hx := h.cells i x (by
    rw [getElem?_append_left (List.getElem?_eq_some_iff.1 hx).1, hx])
  rest i hi := by
    rcases Nat.lt_or_ge i (text ++ blanks).length with hlt | hge
    · have hget := getElem?_eq_getElem hlt
      rw [h.cells i _ hget]
      rw [getElem?_append_right hi] at hget
      exact hblank _ (mem_of_getElem? hget)
    · exact h.rest i hge

lemma erase : ∀ (text : List UInt8) {t : Terminal}, Shows t text text.length →
    ∃ t', Feeds t ((erase text).map .byte) t' ∧ Shows t' [] 0 := by
  intro text
  induction text using List.reverseRecOn with
  | nil => exact fun h => ⟨_, .refl, h⟩
  | append_singleton text x ih =>
    intro t h
    rw [length_append, length_singleton] at h
    obtain ⟨t1, hback, h1⟩ := h.back 1
    obtain ⟨t2, hspace, h2⟩ := h1.put (c := ' '.toUInt8) (by decide)
    obtain ⟨t3, hback', h3⟩ := (h2.trim (by simp [Blank])).back 1
    obtain ⟨t4, herase, h4⟩ := ih h3
    refine ⟨t4, ?_, h4⟩
    have hsplit : InputBuffer.erase (text ++ [x]) =
        [backChar] ++ ([' '.toUInt8] ++ ([backChar] ++ InputBuffer.erase text)) := by
      simp [InputBuffer.erase, replicate_succ]
    rw [hsplit, map_append, map_append, map_append]
    exact hback.append (hspace.append (hback'.append herase))

end Shows

end Terminal

open Terminal

structure Editor.Clean (e : Editor) : Prop where
  left : backChar ∉ e.line.left
  right : backChar ∉ e.line.right
  history : ∀ line ∈ e.history, backChar ∉ line

lemma Editor.Clean.select (h : e.Clean) (i : Option ℕ) : (e.select i).Clean := by
  rcases hline : i.bind (e.history[·]?) with _ | line
  · rw [Editor.select, hline]
    exact ⟨not_mem_nil, not_mem_nil, h.history⟩
  · obtain ⟨i, rfl, hi⟩ := Option.bind_eq_some_iff.1 hline
    rw [Editor.select, hline]
    refine ⟨?_, not_mem_nil, h.history⟩
    show backChar ∉ line.reverse
    rw [mem_reverse]
    exact h.history line (mem_of_getElem? hi)

lemma Editor.Clean.step (h : e.Clean) (hc : ∀ c, command = .insert c → c ≠ backChar) : (e.step command).Clean := by
  obtain ⟨⟨left, right⟩, history, recalled, output⟩ := e
  have hleft : backChar ∉ left := h.left
  have hright : backChar ∉ right := h.right
  have htext : backChar ∉ left.reverse ++ right := by
    rw [mem_append, mem_reverse, not_or]
    exact ⟨hleft, hright⟩
  rcases command with c | _ | _ | _ | _ | _ | _ | _ | _ | _
  · exact ⟨not_mem_cons_of_ne_of_not_mem (hc c rfl).symm hleft, hright, h.history⟩
  · exact ⟨fun hmem => hleft (mem_of_mem_tail hmem), hright, h.history⟩
  · exact ⟨hleft, fun hmem => hright (mem_of_mem_tail hmem), h.history⟩
  · exact ⟨not_mem_nil, htext, h.history⟩
  · refine ⟨?_, not_mem_nil, h.history⟩
    show backChar ∉ (left.reverse ++ right).reverse
    rwa [mem_reverse]
  · rcases left with _ | ⟨x, left⟩
    · exact h
    · rw [mem_cons, not_or] at hleft
      exact ⟨hleft.2, not_mem_cons_of_ne_of_not_mem hleft.1 hright, h.history⟩
  · rcases right with _ | ⟨x, right⟩
    · exact h
    · rw [mem_cons, not_or] at hright
      exact ⟨not_mem_cons_of_ne_of_not_mem hright.1 hleft, hright.2, h.history⟩
  · rcases recalled with _ | i
    · exact h.select (some 0)
    · exact h.select (some (i + 1))
  · rcases recalled with _ | _ | i
    · exact h.select (some 0)
    · exact h.select none
    · exact h.select (some i)
  · refine ⟨not_mem_nil, not_mem_nil, fun line hline => ?_⟩
    rcases mem_cons.1 hline with rfl | hmem
    · exact htext
    · exact h.history line hmem

lemma shows_recall (h : Shows t e.line.text e.line.cursor) (hclean : e.Clean) (i : Option ℕ) :
    ∃ t', Feeds t ((e.line.right ++ erase e.line.text ++ (e.select i).line.text).map .byte) t' ∧
      Shows t' (e.select i).line.text (e.select i).line.cursor := by
  have hcursor : (e.select i).line.cursor = (e.select i).line.text.length := by
    unfold select
    split <;> simp [cursor, ofText, text, empty]
  have hrecall := hclean.select i
  have htext : backChar ∉ (e.select i).line.text := by
    rw [mem_text, not_or]
    exact ⟨hrecall.left, hrecall.right⟩
  have hlen : e.line.left.reverse.length = e.line.cursor := length_reverse
  rw [← hlen] at h
  obtain ⟨t1, hwrite, h1⟩ := h.write _ _ _ hclean.right
  rw [drop_length, append_nil, ← length_append] at h1
  obtain ⟨t2, herase, h2⟩ := h1.erase _
  obtain ⟨t3, hprint, h3⟩ := Shows.write _ [] [] htext h2
  refine ⟨t3, ?_, ?_⟩
  · rw [map_append, map_append]
    exact (hwrite.append herase).append hprint
  · rw [hcursor]
    simpa using h3

lemma shows_step (hshows : Shows t e.line.text e.line.cursor) (hclean : e.Clean)
    (hc : ∀ c, command = .insert c → c ≠ backChar) :
    ∃ t', Feeds t (e.echo command) t' ∧ Shows t' (e.step command).line.text (e.step command).line.cursor := by
  obtain ⟨⟨left, right⟩, history, recalled, output⟩ := e
  have hright : backChar ∉ right := hclean.right
  have h : Shows t (left.reverse ++ right) left.reverse.length := by
    rwa [length_reverse]
  rcases command with c | _ | _ | _ | _ | _ | _ | _ | _ | _
  · -- the character and the rest of the line, and back behind the character
    obtain ⟨t1, hwrite, h1⟩ := h.write (c :: right) _ _ (not_mem_cons_of_ne_of_not_mem (hc c rfl).symm hright)
    rw [drop_of_length_le (by simp), append_nil, length_cons, Nat.add_comm right.length, ← Nat.add_assoc] at h1
    obtain ⟨t2, hback, h2⟩ := h1.back right.length
    refine ⟨t2, ?_, ?_⟩
    · rw [Editor.echo, ← cons_append, map_append]
      exact hwrite.append hback
    · simpa [Editor.step, Line.insert, Line.text, Line.cursor] using h2
  · rcases left with _ | ⟨x, left⟩
    · exact ⟨t, .refl, hshows⟩
    -- the rest of the line moves over the character, and a blank over its last place
    rw [reverse_cons, length_append, length_singleton] at h
    obtain ⟨t1, hback, h1⟩ := h.back 1
    rw [append_assoc] at h1
    obtain ⟨t2, hwrite, h2⟩ := h1.write (right ++ [0]) _ _ (by
      simp only [mem_append, not_or]
      exact ⟨hright, by decide⟩)
    rw [drop_of_length_le (by simp), append_nil, ← append_assoc, length_append, length_singleton] at h2
    obtain ⟨t3, hback', h3⟩ := (h2.trim (by simp [Blank])).back (right.length + 1)
    refine ⟨t3, ?_, ?_⟩
    · have hsplit : backChar :: (right ++ 0 :: List.replicate (right.length + 1) backChar) =
          [backChar] ++ ((right ++ [0]) ++ List.replicate (right.length + 1) backChar) := by simp
      rw [Editor.echo, hsplit, map_append, map_append]
      exact hback.append (hwrite.append hback')
    · rwa [length_reverse] at h3
  · rcases right with _ | ⟨x, right⟩
    · exact ⟨t, .refl, hshows⟩
    rw [mem_cons, not_or] at hright
    obtain ⟨t1, hwrite, h1⟩ := h.write (right ++ [0, ' '.toUInt8]) _ _ (by
      simp only [mem_append, not_or]
      exact ⟨hright.2, by decide⟩)
    rw [drop_of_length_le (by simp), append_nil, ← append_assoc, length_append] at h1
    obtain ⟨t2, hback, h2⟩ := (h1.trim (by simp [Blank])).back (right.length + 2)
    refine ⟨t2, ?_, ?_⟩
    · have hsplit : right ++ 0 :: ' '.toUInt8 :: List.replicate (right.length + 2) backChar =
          (right ++ [0, ' '.toUInt8]) ++ List.replicate (right.length + 2) backChar := by simp
      show Feeds t ((right ++ 0 :: ' '.toUInt8 :: List.replicate (right.length + 2) backChar).map .byte) t2
      rw [hsplit, map_append]
      exact hwrite.append hback
    · rwa [length_reverse] at h2
  · rw [length_reverse, ← Nat.zero_add left.length] at h
    exact h.back left.length
  · obtain ⟨t1, hwrite, h1⟩ := h.write right _ _ hright
    refine ⟨t1, hwrite, ?_⟩
    simpa [step, toEnd, ofText, text, cursor, Nat.add_comm] using h1
  · rcases left with _ | ⟨x, left⟩
    · exact ⟨t, .refl, hshows⟩
    · rw [length_reverse, length_cons] at h
      obtain ⟨t1, hback, h1⟩ := h.back 1
      exact ⟨t1, hback, by simpa [step, moveLeft, text, cursor] using h1⟩
  · rcases right with _ | ⟨x, right⟩
    · exact ⟨t, .refl, hshows⟩
    · rw [mem_cons, not_or] at hright
      obtain ⟨t1, hput, h1⟩ := h.put (Ne.symm hright.1)
      exact ⟨t1, hput, by simpa [step, moveRight, text, cursor] using h1⟩
  · rcases recalled with _ | i
    · exact shows_recall hshows hclean (some 0)
    · exact shows_recall hshows hclean (some (i + 1))
  · rcases recalled with _ | _ | i
    · exact shows_recall hshows hclean (some 0)
    · exact shows_recall hshows hclean none
    · exact shows_recall hshows hclean (some i)
  · exact ⟨blank, .single rfl, ⟨rfl, fun i c hc => by simp [step] at hc, fun i _ => Or.inr rfl⟩⟩

lemma exists_shows (events : List VirtualKeyEvent) (h : run returns events = .ok b) :
    Represents b (run events) ∧ (run events).Clean ∧
    ∃ t, Feeds blank b.echo t ∧ Shows t (run events).line.text (run events).line.cursor := by
  induction events using List.reverseRecOn generalizing b with
  | nil =>
    obtain rfl := Except.ok.inj h
    refine ⟨create_represents, ⟨not_mem_nil, not_mem_nil, nofun⟩,
      blank, .refl, rfl, fun i c hc => ?_, fun i _ => Or.inr rfl⟩
    simp [Editor.run, Editor.init] at hc
  | append_singleton events event ih =>
    rw [InputBuffer.run_append] at h
    rcases hrun : run returns events with f | b0
    · rw [hrun] at h
      cases h
    rw [hrun] at h
    obtain ⟨hrep, hclean, t, hfeeds, hshows⟩ := ih hrun
    rw [Editor.run_append]
    generalize run events = e at hrep hclean hshows
    replace h : b0.processEvent returns event = .ok b := h
    rw [processEvent_eq] at h
    rw [handle]
    rcases hcommand : commandOf event with _ | command
    · rw [hcommand] at h
      obtain rfl := Except.ok.inj h
      exact ⟨hrep, hclean, t, hfeeds, hshows⟩
    rw [hcommand] at h
    replace h : b0.perform returns command = .ok b := h
    have hchar : ∀ c, command = .insert c → c ≠ 0 ∧ c ≠ backChar := by
      rintro c rfl
      exact keyeventToChar_ne (char_of_commandOf hcommand)
    have hnext : Represents b (e.step command) ∧ b.echo = b0.echo ++ e.echo command := by
      by_cases hcommit : command = .commit
      · subst hcommit
        exact commitInput_frame hrep h
      rcases perform_spec hrep hcommit fun c hc => (hchar c hc).1 with ⟨b', heq, hrep', hecho, -⟩ | ⟨herror, -⟩
      · obtain rfl := Except.ok.inj (h.symm.trans heq)
        exact ⟨hrep', hecho⟩
      · cases herror.symm.trans h
    obtain ⟨t', hfeeds', hshows'⟩ := shows_step hshows hclean fun c hc => (hchar c hc).2
    refine ⟨hnext.1, hclean.step fun c hc => (hchar c hc).2, t', ?_, hshows'⟩
    rw [hnext.2]
    exact hfeeds.append hfeeds'

/-- After any events the screen shows the text of the edit buffer with the cursor at its place, and no
backspace was printed in column 0. -/
theorem echo_mirrors (returns : ℕ → ℕ → ℕ) (events : List VirtualKeyEvent) (b : InputBuffer)
    (h : run returns events = .ok b) :
    ∃ text t, cstr b.editBuffer = some text ∧ Terminal.run b.echo = some t ∧ t.Shows text b.cursorPos := by
  obtain ⟨hrep, -, t, hfeeds, hshows⟩ := exists_shows events h
  refine ⟨_, t, hrep.text, hfeeds, ?_⟩
  rwa [hrep.cursor]

theorem echo_mirrors_insert : ∃ b, run (fun _ n => n)
      [⟨1, 1⟩, ⟨VirtualKeycode.lArrow.code, 1⟩, ⟨2, 1⟩] = .ok b ∧ b.cursorPos = 1 ∧
    ∃ text t, cstr b.editBuffer = some text ∧ Terminal.run b.echo = some t ∧ t.Shows text b.cursorPos := by
  have hrun : ∃ b, run (fun _ n => n) [⟨1, 1⟩, ⟨VirtualKeycode.lArrow.code, 1⟩, ⟨2, 1⟩] = .ok b ∧
      b.cursorPos = 1 := ⟨_, rfl, rfl⟩
  obtain ⟨b, heq, hcursor⟩ := hrun
  exact ⟨b, heq, hcursor, echo_mirrors _ _ b heq⟩

end OlliOS.Init
