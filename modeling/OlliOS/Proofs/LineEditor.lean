import OlliOS.Proofs.InputBuffer

/-!
# The input line refines the line editor

Each command takes a buffer that represents an editor to one that represents the editor after it. Only an
insertion may fail.
-/

namespace OlliOS.Init

open InputBuffer List Option Editor Line VirtualKeycode VirtualKeyEvent Except InputLogEntry

variable {b b' : InputBuffer} {e : Editor} {c : UInt8} {rest : List UInt8} {returns : ℕ → ℕ → ℕ}
  {command : Command} {event : VirtualKeyEvent} {n : ℕ}

def InputBuffer.perform (returns : ℕ → ℕ → ℕ) (b : InputBuffer) : Command → Except Fault InputBuffer
  | .insert c => b.addCharToLog c
  | .backspace => b.handleBackspace
  | .delete => b.handleDelete
  | .home => loop homePass b
  | .toEnd => loop endPass b
  | .left =>
    if 0 < b.cursorPos then .ok ({ b with cursorPos := b.cursorPos - 1 }.putchar backChar) else .ok b
  | .right => do if b.cursorPos < (← strlen b.editBuffer) then b.goRight else return b
  | .up => do b.switchToEntry (← b.linked next)
  | .down => do b.switchToEntry (← b.linked prev)
  | .commit => b.commitInput returns

lemma processEvent_eq (event : VirtualKeyEvent) :
    b.processEvent returns event = (commandOf event).elim (.ok b) (b.perform returns) := by
  rcases hpressed : event.isPressed with _ | _
  · simp only [InputBuffer.processEvent, commandOf, hpressed]
    rfl
  rw [InputBuffer.processEvent, commandOf, hpressed, if_pos rfl, if_neg Bool.true_eq_false.mp]
  symm
  iterate 9 refine elim_ite rfl ?_
  rcases keyeventToChar event with _ | parsed <;> rfl

def Editor.echo (e : Editor) : Command → List Echo
  | .insert c => (c :: (e.line.right ++ List.replicate e.line.right.length backChar)).map .byte
  | .backspace =>
    match e.line.left with
    | [] => []
    | _ :: _ =>
      (backChar :: (e.line.right ++ 0 :: List.replicate (e.line.right.length + 1) backChar)).map .byte
  | .delete =>
    match e.line.right with
    | [] => []
    | _ :: right => (right ++ 0 :: ' '.toUInt8 :: List.replicate (right.length + 2) backChar).map .byte
  | .home => (List.replicate e.line.left.length backChar).map .byte
  | .toEnd => e.line.right.map .byte
  | .left => ((e.line.left.take 1).map fun _ => backChar).map .byte
  | .right => (e.line.right.take 1).map .byte
  | .up => (e.line.right ++ erase e.line.text ++ (e.step .up).line.text).map .byte
  | .down => (e.line.right ++ erase e.line.text ++ (e.step .down).line.text).map .byte
  | .commit => [.newline]

namespace Represents

lemma exists_at (h : Represents b e) : ∃ rest, At b e.line.left.reverse e.line.right rest := by
  obtain ⟨rest, hbuffer, hclean⟩ := exists_of_cstr h.text
  exact ⟨rest, hbuffer, by rw [h.cursor, length_reverse]; rfl, hclean⟩

lemma fits' (h : Represents b e) : e.line.left.reverse.length + e.line.right.length + 2 ≤ b.editBufferLength := by
  have hfits := h.fits
  rwa [length_text, ← length_reverse] at hfits

lemma edit (h : Represents b e) (line : Line UInt8) {recalled : Option ℕ} (rest : List UInt8)
    (hat : At b' line.left.reverse line.right rest)
    (hblock : b'.editBuffer.length = b'.editBufferLength)
    (hfits : line.text.length + 2 ≤ b'.editBufferLength)
    (hgrow : b.editBufferLength ≤ b'.editBufferLength) (hsmall : b'.editBufferLength < 0x80000000)
    (hentries : b'.entries = b.entries) (hlog : b'.log = b.log)
    (hselected : b'.selected = recalled.map (e.history.length - 1 - ·))
    (hrecalled : ∀ i ∈ recalled, i < e.history.length) :
    Represents b' { e with line, recalled } where
  text := by
    rw [hat.buffer, cstr_append hat.clean]
    rfl
  block := hblock
  fits := hfits
  small := hsmall
  cursor := by
    rw [hat.cursor, length_reverse]
    rfl
  count := by rw [hentries, h.count]
  entry k text hk := by
    obtain ⟨hle, hvalue⟩ := h.entry k text hk
    rw [hentries]
    exact ⟨Nat.le_trans hle hgrow, hvalue⟩
  log := by rw [hlog, h.log]
  selected := hselected
  recalled := hrecalled

end Represents

def Performs (b : InputBuffer) (e : Editor) (command : Command) (r : Except Fault InputBuffer) : Prop :=
  ∃ b', r = .ok b' ∧ Represents b' (e.step command) ∧ b'.echo = b.echo ++ e.echo command ∧ b'.output = b.output

section

variable (h : Represents b e)

include h

lemma perform_insert (c : UInt8) (hc : c ≠ 0) : Performs b e (.insert c) (b.addCharToLog c) ∨
    b.addCharToLog c = .error .noMemory ∧ 0x40000000 ≤ e.line.text.length + 2 := by
  obtain ⟨rest, hat⟩ := h.exists_at
  rcases addCharToLog_spec hat h.block h.fits' h.small with
    ⟨rest', length, heq, hgrow, hsmall, hfits, hblock⟩ | ⟨heq, hlarge⟩
  · refine .inl ⟨_, heq, h.edit _ rest' ⟨?_, ?_, ?_⟩ hblock ?_ hgrow hsmall rfl rfl h.selected h.recalled, rfl, rfl⟩
    · simp [InputBuffer.print, Line.insert]
    · simp [InputBuffer.print, Line.insert]
    · exact (mem_insert e.line).not.2 (not_or.2 ⟨hc.symm, hat.clean⟩)
    · rw [length_insert, length_text, ← length_reverse]
      exact Nat.le_trans (by omega) hfits
  · refine .inr ⟨heq, ?_⟩
    rwa [length_text, ← length_reverse]

lemma perform_backspace : Performs b e .backspace b.handleBackspace := by
  obtain ⟨rest, hat⟩ := h.exists_at
  obtain ⟨⟨left, right⟩, history, recalled, output⟩ := e
  rcases left with _ | ⟨x, left⟩
  · exact ⟨b, handleBackspace_nil hat, h, by simp [Editor.echo], rfl⟩
  · have hclean := hat.clean
    rw [reverse_cons] at hat
    obtain ⟨z, heq⟩ := handleBackspace_snoc hat
    have hfits := h.fits
    have hlen := h.block
    rw [hat.buffer] at hlen
    refine ⟨_, heq, h.edit ⟨left, right⟩ (z :: rest) ⟨rfl, rfl, ?_⟩ ?_ ?_ (Nat.le_refl _) h.small rfl
      rfl h.selected h.recalled, rfl, rfl⟩
    · exact fun hmem => hclean ((backspace_sublist ⟨x :: left, right⟩).subset hmem)
    · rw [← hlen]
      simp only [InputBuffer.print, length_append, length_cons, length_nil]
      omega
    · simp only [length_text, length_cons, InputBuffer.print] at hfits ⊢
      omega

lemma perform_delete : Performs b e .delete b.handleDelete := by
  obtain ⟨rest, hat⟩ := h.exists_at
  obtain ⟨⟨left, right⟩, history, recalled, output⟩ := e
  rcases right with _ | ⟨x, right⟩
  · exact ⟨b, handleDelete_nil hat, h, by simp [Editor.echo], rfl⟩
  · obtain ⟨z, heq⟩ := handleDelete_cons hat
    have hfits := h.fits
    have hlen := h.block
    rw [hat.buffer] at hlen
    refine ⟨_, heq, h.edit ⟨left, right⟩ (z :: rest) ⟨rfl, hat.cursor, ?_⟩ ?_ ?_ (Nat.le_refl _) h.small
      rfl rfl h.selected h.recalled, rfl, rfl⟩
    · exact fun hmem => hat.clean ((delete_sublist ⟨left, x :: right⟩).subset hmem)
    · rw [← hlen]
      simp only [InputBuffer.print, length_append, length_cons]
      omega
    · simp only [length_text, length_cons, InputBuffer.print] at hfits ⊢
      omega

lemma Represents.move (line : Line UInt8) (htext : line.text = e.line.text) (bytes : List UInt8) :
    Represents ({ b with cursorPos := line.cursor }.print bytes) { e with line } := by
  obtain ⟨rest, hat⟩ := h.exists_at
  have hline : line.left.reverse ++ line.right = e.line.left.reverse ++ e.line.right := htext
  refine h.edit line rest ⟨?_, ?_, ?_⟩ h.block ?_ (Nat.le_refl _) h.small rfl rfl h.selected h.recalled
  · rw [hline]
    exact hat.buffer
  · rw [length_reverse]
    rfl
  · rw [hline]
    exact hat.clean
  · rw [htext]
    exact h.fits

lemma perform_home : Performs b e .home (loop homePass b) := by
  have hlt : b.cursorPos < 0x100000000 := by
    have hfits := h.fits
    have hsmall := h.small
    have hcursor := h.cursor
    rw [length_text] at hfits
    rw [cursor] at hcursor
    omega
  refine ⟨_, by rw [loop, run_homePass _ _ rfl hlt]; rfl, h.move _ (text_home _) _, ?_, rfl⟩
  rw [h.cursor]
  rfl

lemma perform_toEnd : Performs b e .toEnd (loop endPass b) := by
  obtain ⟨rest, hat⟩ := h.exists_at
  have hlt : e.line.right.length < 0x100000000 := by
    have hfits := h.fits
    have hsmall := h.small
    rw [length_text] at hfits
    omega
  have hcursor : e.line.left.reverse.length + e.line.right.length = e.line.toEnd.cursor := by
    simp [toEnd, ofText, cursor, length_text]
  refine ⟨_, by rw [loop, run_endPass _ _ hat hlt, hcursor]; rfl, h.move _ (text_toEnd _) _, rfl, rfl⟩

lemma perform_left : Performs b e .left (b.perform returns .left) := by
  have hcursor := h.cursor
  obtain ⟨⟨left, right⟩, history, recalled, output⟩ := e
  rcases left with _ | ⟨x, left⟩
  · refine ⟨b, ?_, h, by simp [Editor.echo], rfl⟩
    rw [perform, if_neg (by rw [hcursor]; exact Nat.lt_irrefl 0)]
  · refine ⟨_, ?_, h.move ⟨left, x :: right⟩ (by simp [text]) [backChar], rfl, rfl⟩
    rw [perform, if_pos (by rw [hcursor]; exact Nat.succ_pos _), hcursor]
    rfl

lemma perform_right : Performs b e .right (b.perform returns .right) := by
  obtain ⟨rest, hat⟩ := h.exists_at
  obtain ⟨⟨left, right⟩, history, recalled, output⟩ := e
  rcases right with _ | ⟨x, right⟩
  · refine ⟨b, ?_, h, by simp [Editor.echo], rfl⟩
    simp only [perform, hat.strlen_eq, hat.cursor, bind, Except.bind, length_nil, Nat.add_zero, Nat.lt_irrefl]
    rfl
  · refine ⟨_, ?_, h.move ⟨x :: left, right⟩ (by simp [Line.text]) [x], rfl, rfl⟩
    have hlt : left.reverse.length < left.reverse.length + (x :: right).length := by simp
    have hcursor : left.reverse.length + 1 = (⟨x :: left, right⟩ : Line UInt8).cursor := by simp [Line.cursor]
    simp only [perform, hat.strlen_eq, hat.cursor, bind, Except.bind, hlt, if_true, goRight_cons hat]
    rw [hcursor]

end

/-- What `commit_input` leaves. -/
def InputBuffer.committed (b : InputBuffer) (entries : List InputLogEntry) (output : List UInt8) (writes : ℕ) :
    InputBuffer :=
  { b with
    cursorPos := 0
    editBuffer := 0 :: b.editBuffer.tail
    entries
    log := some b.entries.length
    selected := none
    echo := b.echo ++ [.newline]
    output
    writes }

def Editor.address (e : Editor) (i : Option ℕ) : Option ℕ :=
  i.bind fun i => if i < e.history.length then some (e.history.length - 1 - i) else none

section

variable (h : Represents b e)

include h

lemma Represents.select (i : Option ℕ) : ∃ b', b.switchToEntry (e.address i) = .ok b' ∧ Represents b' (e.select i) ∧
      b'.echo = b.echo ++ (e.line.right ++ erase e.line.text ++ (e.select i).line.text).map .byte ∧
      b'.output = b.output := by
  obtain ⟨rest, hat⟩ := h.exists_at
  have hfits := h.fits
  rcases hline : i.bind (e.history[·]?) with _ | line
  · have haddress : e.address i = none := by
      rcases i with _ | i
      · rfl
      · have hge : e.history.length ≤ i := List.getElem?_eq_none_iff.1 hline
        exact if_neg (Nat.not_lt.2 hge)
    have hrecall : e.select i = { e with line := .empty, recalled := none } := by rw [Editor.select, hline]
    rw [haddress, hrecall]
    refine ⟨_, switchToEntry_none hat, h.edit .empty b.editBuffer.tail
      ⟨rfl, rfl, not_mem_nil⟩ ?_ ?_ (Nat.le_refl _) h.small rfl rfl rfl ?_, ?_, rfl⟩
    · show b.editBuffer.tail.length + 1 = b.editBufferLength
      rw [length_tail, h.block]
      omega
    · show 0 + 2 ≤ b.editBufferLength
      omega
    · simp
    · simp [InputBuffer.print, Line.text, Line.empty]
  · obtain ⟨i, rfl, hi⟩ := bind_eq_some_iff.1 hline
    have hlt : i < e.history.length := (List.getElem?_eq_some_iff.1 hi).1
    have haddress : e.address (some i) = some (e.history.length - 1 - i) := if_pos hlt
    have hrecall : e.select (some i) = { e with line := .ofText line, recalled := some i } := by
      rw [Editor.select, hline]
    have hrev : e.history.reverse[e.history.length - 1 - i]? = some line := by
      rw [getElem?_reverse (by omega), ← hi]
      congr 1
      omega
    obtain ⟨hle, value, hvalue, hentry⟩ := h.entry _ _ hrev
    obtain ⟨-, -, hclean⟩ := exists_of_cstr hvalue
    have hroom : line.length < b.editBuffer.length := by
      rw [h.block]
      omega
    rw [haddress, hrecall]
    refine ⟨_, switchToEntry_some hat hentry hvalue hroom, h.edit (.ofText line) (b.editBuffer.drop (line.length + 1))
      ⟨?_, ?_, ?_⟩ ?_ ?_ (Nat.le_refl _) h.small rfl rfl rfl ?_, ?_, rfl⟩
    · simp [InputBuffer.print, ofText]
    · simp [InputBuffer.print, ofText]
    · simpa [ofText] using hclean
    · show (line ++ 0 :: b.editBuffer.drop (line.length + 1)).length = b.editBufferLength
      rw [length_append, length_cons, length_drop, ← h.block]
      omega
    · rwa [text_ofText]
    · simpa using hlt
    · simp [InputBuffer.print, Line.text, Line.ofText]

lemma Represents.log_eq : b.log = e.address (some 0) := by
  rw [h.log]
  rcases hhistory : e.history with _ | ⟨line, history⟩ <;> simp [address, hhistory]

lemma Represents.recalled_entry {i : ℕ} (hi : e.recalled = some i) :
    i < e.history.length ∧ b.selected = some (e.history.length - 1 - i) ∧
    ∃ value, b.entries[e.history.length - 1 - i]? = some (InputLogEntry.mk value
      (e.address (some (i + 1))) (e.address (if i = 0 then none else some (i - 1)))) := by
  have hlt := h.recalled i hi
  have hselected := h.selected
  rw [hi] at hselected
  have hrev : e.history.length - 1 - i < e.history.reverse.length := by
    rw [length_reverse]
    omega
  obtain ⟨-, value, -, hentry⟩ := h.entry _ _ (getElem?_eq_getElem hrev)
  refine ⟨hlt, hselected, value, hentry.trans ?_⟩
  congr 2
  · rcases Nat.lt_or_ge (i + 1) e.history.length with hsucc | hlast
    · rw [if_neg (by omega), address, bind_some, if_pos hsucc]
      congr 1
    · rw [if_pos (by omega), address, bind_some, if_neg (by omega)]
  · rcases i with _ | i
    · rw [if_neg (by omega)]
      rfl
    · rw [if_pos (by omega), if_neg (by omega), address, bind_some, Nat.add_sub_cancel, if_pos (by omega)]
      congr 1
      omega

lemma perform_up : Performs b e .up (b.perform returns .up) := by
  rcases hrecalled : e.recalled with _ | i
  · have hselected := h.selected
    rw [hrecalled] at hselected
    have hstep : e.step .up = e.select (some 0) := by rw [Editor.step, hrecalled]
    have hperform : b.perform returns .up = b.switchToEntry (e.address (some 0)) := by
      simp [perform, linked, hselected, bind, Except.bind, h.log_eq]
    rw [Performs, hperform, Editor.echo, hstep]
    exact h.select (some 0)
  · obtain ⟨-, hselected, value, hentry⟩ := h.recalled_entry hrecalled
    have hstep : e.step .up = e.select (some (i + 1)) := by rw [Editor.step, hrecalled]
    have hperform : b.perform returns .up = b.switchToEntry (e.address (some (i + 1))) := by
      simp [perform, linked, hselected, hentry, bind, Except.bind]
    rw [Performs, hperform, Editor.echo, hstep]
    exact h.select (some (i + 1))

lemma perform_down : Performs b e .down (b.perform returns .down) := by
  rcases hrecalled : e.recalled with _ | i
  · have hselected := h.selected
    rw [hrecalled] at hselected
    have hstep : e.step .down = e.select (some 0) := by rw [Editor.step, hrecalled]
    have hperform : b.perform returns .down = b.switchToEntry (e.address (some 0)) := by
      simp [perform, linked, hselected, bind, Except.bind, h.log_eq]
    rw [Performs, hperform, Editor.echo, hstep]
    exact h.select (some 0)
  · obtain ⟨-, hselected, value, hentry⟩ := h.recalled_entry hrecalled
    have hstep : e.step .down = e.select (if i = 0 then none else some (i - 1)) := by
      rcases i with _ | i <;> rw [Editor.step, hrecalled] <;> rfl
    have hperform : b.perform returns .down = b.switchToEntry (e.address (if i = 0 then none else some (i - 1))) := by
      simp [perform, linked, hselected, hentry, bind, Except.bind]
    rw [Performs, hperform, Editor.echo, hstep]
    exact h.select _

lemma Represents.commit (entries : List InputLogEntry) {output : List UInt8} (writes : ℕ)
    (hcount : entries.length = b.entries.length + 1)
    (hold : ∀ k < b.entries.length, entries[k]? = b.entries[k]?.map fun entry => { entry with prev := some (k + 1) })
    (hnew : ∃ value, cstr value = some e.line.text ∧ entries[b.entries.length]? = some
      (InputLogEntry.mk value (if b.entries.length = 0 then none else some (b.entries.length - 1)) none)) :
    Represents (b.committed entries output writes) (e.step .commit) where
  text := cstr_append not_mem_nil
  block := by
    have hfits := h.fits
    change b.editBuffer.tail.length + 1 = b.editBufferLength
    rw [length_tail, h.block]
    omega
  fits := Nat.le_trans (Nat.le_add_left 2 _) h.fits
  small := h.small
  cursor := rfl
  count := by
    rw [committed, hcount, h.count]
    rfl
  entry k line hk := by
    have hreverse : (e.step .commit).history.reverse = e.history.reverse ++ [e.line.text] := by simp [step]
    have hlen : (e.step .commit).history.length = e.history.length + 1 := rfl
    rw [hreverse] at hk
    rw [committed, hlen, ← h.count]
    rcases Nat.lt_or_ge k e.history.length with hlt | hge
    · rw [getElem?_append_left (by simpa using hlt)] at hk
      obtain ⟨hle, value, hvalue, hentry⟩ := h.entry k line hk
      refine ⟨hle, value, hvalue, ?_⟩
      have hnext : k + 1 < b.entries.length + 1 := by
        rw [h.count]
        omega
      rw [hold k (by rw [h.count]; exact hlt), hentry, if_pos hnext]
      rfl
    · rw [getElem?_append_right (by simpa using hge), length_reverse, getElem?_singleton] at hk
      split_ifs at hk with hzero
      cases hk
      obtain rfl : k = b.entries.length := by
        rw [h.count]
        omega
      obtain ⟨value, hvalue, hentry⟩ := hnew
      exact ⟨h.fits, value, hvalue, by rw [hentry, if_neg (Nat.lt_irrefl _)]⟩
  log := by
    rw [committed, h.count]
    rfl
  selected := rfl
  recalled i hi := by cases hi

lemma allocEntry_eq : allocEntry b.editBuffer = .ok ⟨e.line.text ++ [0], none, none⟩ := by
  have hfits := h.fits
  have hsmall := h.small
  have hlength : strlen b.editBuffer = .ok e.line.text.length := by rw [strlen, h.text]
  have hmalloc : malloc (e.line.text.length + 1) = .ok () := if_pos (by omega)
  have hlt : e.line.text.length < (List.replicate (e.line.text.length + 1) (0 : UInt8)).length := by simp
  have hcopy := strcpy_of_cstr h.text hlt
  rw [drop_replicate, Nat.sub_self, replicate_zero] at hcopy
  simp only [allocEntry, hlength, hmalloc, hcopy, bind, Except.bind]
  rfl

lemma commitInput_of_loop {output : List UInt8} {writes : ℕ}
    (hloop : loop (writePass returns e.line.text.length) (0, b) = .ok { b with output, writes }) :
    ∃ b', b.commitInput returns = .ok b' ∧ Represents b' (e.step .commit) ∧
      b'.echo = b.echo ++ [.newline] ∧ b'.output = output ++ ['\n'.toUInt8].take (returns writes 1) := by
  have hlength : strlen b.editBuffer = .ok e.line.text.length := by rw [strlen, h.text]
  have hcount := h.count
  have hlog := h.log
  have hcons : ∃ x, b.editBuffer = x :: b.editBuffer.tail := by
    obtain ⟨rest, hat⟩ := h.exists_at
    rw [hat.buffer]
    rcases e.line.left.reverse ++ e.line.right with _ | ⟨x, xs⟩
    · exact ⟨0, rfl⟩
    · exact ⟨x, rfl⟩
  obtain ⟨x, hcons⟩ := hcons
  have hpos : 0 < b.editBuffer.length := by
    rw [hcons]
    exact Nat.succ_pos _
  have hset : b.editBuffer.set 0 0 = 0 :: b.editBuffer.tail := by
    rw [hcons]
    rfl
  have hone : (1 : ℕ) ≤ ['\n'.toUInt8].length := Nat.le_refl _
  have hvalue : cstr (e.line.text ++ [0]) = some e.line.text := by
    obtain ⟨-, -, hclean⟩ := exists_of_cstr h.text
    exact cstr_append hclean
  rcases hhistory : e.history with _ | ⟨line, history⟩
  · rw [hhistory] at hcount hlog
    have hnone : b.log = none := hlog
    have hempty : b.entries.length = 0 := hcount
    refine ⟨_, ?_, h.commit (b.entries ++ [⟨e.line.text ++ [0], none, none⟩]) (writes + 1) ?_ ?_ ?_, rfl, rfl⟩
    · simp only [commitInput, hlength, hloop, bind, Except.bind, write, hone, if_true, allocEntry_eq h, hnone,
        pure, Except.pure, InputBuffer.set, hpos, hset]
      rfl
    · simp
    · omega
    · exact ⟨_, hvalue, by simp [hempty]⟩
  · have hn : b.entries.length = history.length + 1 := by rw [hcount, hhistory, length_cons]
    have hsome : b.log = some history.length := by
      rw [hlog, hhistory, if_neg (cons_ne_nil _ _), length_cons, Nat.add_sub_cancel]
    have hlt : history.length < b.entries.length + 1 := by omega
    have hlt' : b.entries.length < b.entries.length + 1 := Nat.lt_succ_self _
    refine ⟨_, ?_, h.commit
      (((b.entries ++ [InputLogEntry.mk (e.line.text ++ [0]) none none]).modify history.length
          fun entry => { entry with prev := some b.entries.length }).modify b.entries.length
          fun entry => { entry with next := some history.length }) (writes + 1) ?_ ?_ ?_, rfl, rfl⟩
    · simp only [commitInput, hlength, hloop, bind, Except.bind, write, if_true, allocEntry_eq h, hsome,
        pure, Except.pure, InputBuffer.set, hpos, hset, modifyEntry, length_append, length_singleton, Nat.le_refl,
        length_modify, hlt, hlt']
      rfl
    · simp
    · intro k hk
      rw [getElem?_modify_ne _ _ (by omega), getElem?_modify, getElem?_append_left hk]
      obtain ⟨value, next, prev, hentry, hprev⟩ : ∃ value next prev,
          b.entries[k]? = some (InputLogEntry.mk value next prev) ∧ (k + 1 < b.entries.length → prev = some (k + 1)) := by
        have hlt : k < e.history.reverse.length := by
          rwa [length_reverse, ← h.count]
        obtain ⟨-, value, -, hentry⟩ := h.entry k _ (getElem?_eq_getElem hlt)
        exact ⟨value, _, _, hentry, fun hlt => if_pos (by rw [← h.count]; exact hlt)⟩
      rw [hentry]
      rcases eq_or_ne history.length k with rfl | hne
      · simp [hn]
      · simp [hne, hprev (by omega)]
    · refine ⟨_, hvalue, ?_⟩
      rw [getElem?_modify_eq, getElem?_modify_ne _ _ (by omega), getElem?_concat_length, if_neg (by omega), hn,
        Nat.add_sub_cancel]
      rfl

end

lemma keyeventToChar_ne (h : keyeventToChar event = some c) : c ≠ 0 ∧ c ≠ backChar := by
  have hvisible : c = '\n'.toUInt8 ∨ c = '\t'.toUInt8 ∨ ' '.toUInt8 ≤ c := by
    rw [keyeventToChar] at h
    rcases hpressed : event.isPressed with _ | _
    · rw [if_pos hpressed] at h
      cases h
    rw [if_neg (by simp [hpressed])] at h
    by_cases hkey : event.vkey = enter.code
    · rw [if_pos hkey] at h
      exact .inl (some.inj h).symm
    · rw [if_neg hkey] at h
      exact .inr (toChar_visible c h)
  constructor
  · rintro rfl
    revert hvisible
    decide
  · rintro rfl
    revert hvisible
    decide

lemma char_of_commandOf (h : commandOf event = some (.insert c)) : keyeventToChar event = some c := by
  iterate 10 replace h := of_ite_eq_some h nofun
  obtain ⟨c', hc', heq⟩ := map_eq_some_iff.1 h
  cases heq
  exact hc'

lemma perform_spec (h : Represents b e) (hcommit : command ≠ .commit) (hchar : ∀ c, command = .insert c → c ≠ 0) :
    Performs b e command (b.perform returns command) ∨
    b.perform returns command = .error .noMemory ∧ 0x40000000 ≤ e.line.text.length + 2 := by
  rcases command with c | _ | _ | _ | _ | _ | _ | _ | _ | _
  · exact perform_insert h c (hchar c rfl)
  · exact .inl (perform_backspace h)
  · exact .inl (perform_delete h)
  · exact .inl (perform_home h)
  · exact .inl (perform_toEnd h)
  · exact .inl (perform_left h)
  · exact .inl (perform_right h)
  · exact .inl (perform_up h)
  · exact .inl (perform_down h)
  · exact absurd rfl hcommit

lemma commitInput_spec (hwrite : WriteOk returns) (h : Represents b e) :
    ∃ b', b.commitInput returns = .ok b' ∧ Represents b' (e.step .commit) ∧
      b'.output = b.output ++ e.line.text ++ ['\n'.toUInt8] := by
  obtain ⟨rest, hbuffer, -⟩ := exists_of_cstr h.text
  have hsmall : e.line.text.length < 0x80000000 := by
    have hfits := h.fits
    have hsmall := h.small
    omega
  obtain ⟨writes, hloop⟩ := loop_writePass hwrite hbuffer hsmall
  obtain ⟨b', heq, hrep, -, houtput⟩ := commitInput_of_loop h hloop
  obtain ⟨hpos, hle⟩ := hwrite writes 1 (Nat.le_refl 1)
  have hone : returns writes 1 = 1 := Nat.le_antisymm hle hpos
  rw [hone] at houtput
  exact ⟨b', heq, hrep, houtput⟩

lemma commitInput_frame (h : Represents b e) (heq : b.commitInput returns = .ok b') :
    Represents b' (e.step .commit) ∧ b'.echo = b.echo ++ [.newline] := by
  have hlength : strlen b.editBuffer = .ok e.line.text.length := by rw [strlen, h.text]
  rcases hloop : loop (writePass returns e.line.text.length) (0, b) with f | s
  · simp only [commitInput, hlength, hloop, bind, Except.bind] at heq
    cases heq
  obtain ⟨output, writes, rfl⟩ := loop_writePass_frame hloop
  obtain ⟨s, hs, hrep, hecho, -⟩ := commitInput_of_loop h hloop
  obtain rfl := ok.inj (heq.symm.trans hs)
  exact ⟨hrep, hecho⟩

lemma create_represents : Represents .create .init where
  text := rfl
  block := rfl
  fits := by decide
  small := by decide
  cursor := rfl
  count := rfl
  entry k line h := by cases h
  log := rfl
  selected := rfl
  recalled i h := by cases h

structure Editor.Bounded (e : Editor) (n : ℕ) : Prop where
  line : e.line.text.length ≤ n
  history : ∀ line ∈ e.history, line.length ≤ n

lemma Editor.Bounded.select (h : e.Bounded n) (i : Option ℕ) : (e.select i).Bounded n := by
  rcases hline : i.bind (e.history[·]?) with _ | line
  · rw [Editor.select, hline]
    exact ⟨Nat.zero_le _, h.history⟩
  · obtain ⟨i, rfl, hi⟩ := bind_eq_some_iff.1 hline
    rw [Editor.select, hline]
    exact ⟨by rw [text_ofText]; exact h.history line (mem_of_getElem? hi), h.history⟩

lemma Editor.Bounded.step (h : e.Bounded n) (command : Command) : (e.step command).Bounded (n + 1) := by
  have hmono : ∀ {e : Editor}, e.Bounded n → e.Bounded (n + 1) := fun h =>
    ⟨Nat.le_succ_of_le h.line, fun line hmem => Nat.le_succ_of_le (h.history line hmem)⟩
  rcases command with c | _ | _ | _ | _ | _ | _ | _ | _ | _
  · exact ⟨by rw [Editor.step, length_insert]; exact Nat.succ_le_succ h.line, (hmono h).history⟩
  · exact hmono ⟨Nat.le_trans (backspace_sublist e.line).length_le h.line, h.history⟩
  · exact hmono ⟨Nat.le_trans (delete_sublist e.line).length_le h.line, h.history⟩
  · exact hmono ⟨by simpa [Editor.step] using h.line, h.history⟩
  · exact hmono ⟨by simpa [Editor.step] using h.line, h.history⟩
  · exact hmono ⟨by simpa [Editor.step] using h.line, h.history⟩
  · exact hmono ⟨by simpa [Editor.step] using h.line, h.history⟩
  · rcases hrecalled : e.recalled with _ | i <;> rw [Editor.step, hrecalled] <;> exact hmono (h.select _)
  · rcases hrecalled : e.recalled with _ | _ | i <;> rw [Editor.step, hrecalled] <;>
      exact hmono (h.select _)
  · refine hmono ⟨Nat.zero_le _, ?_⟩
    simp only [Editor.step, mem_cons, forall_eq_or_imp]
    exact ⟨h.line, h.history⟩

lemma Editor.run_append (events : List VirtualKeyEvent) (event : VirtualKeyEvent) :
    run (events ++ [event]) = (run events).handle event := by simp [run]

lemma InputBuffer.run_append (events : List VirtualKeyEvent) (event : VirtualKeyEvent) :
    InputBuffer.run returns (events ++ [event]) =
      InputBuffer.run returns events >>= (InputBuffer.processEvent returns · event) := by
  simp [InputBuffer.run]

lemma bounded_run (events : List VirtualKeyEvent) : (run events).Bounded events.length := by
  induction events using List.reverseRecOn with
  | nil => exact ⟨Nat.zero_le _, nofun⟩
  | append_singleton events event ih =>
    rw [Editor.run_append, length_append, length_singleton, Editor.handle]
    rcases commandOf event with _ | command
    · exact ⟨Nat.le_succ_of_le ih.line, fun line hmem => Nat.le_succ_of_le (ih.history line hmem)⟩
    · exact ih.step command

lemma Editor.output_step (h : command ≠ .commit) : (e.step command).output = e.output := by
  have hrecall : ∀ i, (e.select i).output = e.output := by
    intro i
    unfold select
    split <;> rfl
  rcases command with c | _ | _ | _ | _ | _ | _ | _ | _ | _ <;> try rfl
  · rcases hrecalled : e.recalled with _ | i <;> rw [step, hrecalled] <;> exact hrecall _
  · rcases hrecalled : e.recalled with _ | _ | i <;> rw [step, hrecalled] <;> exact hrecall _
  · exact absurd rfl h

lemma processEvent_spec (hwrite : WriteOk returns) (h : Represents b e) (houtput : b.output = e.output)
    (event : VirtualKeyEvent) :
    (∃ b', b.processEvent returns event = .ok b' ∧ Represents b' (e.handle event) ∧
      b'.output = (e.handle event).output) ∨
    b.processEvent returns event = .error .noMemory ∧ 0x40000000 ≤ e.line.text.length + 2 := by
  rw [processEvent_eq, handle]
  rcases hcommand : commandOf event with _ | command
  · exact .inl ⟨b, rfl, h, houtput⟩
  by_cases hcommit : command = .commit
  · subst hcommit
    obtain ⟨b', heq, hrep, hwritten⟩ := commitInput_spec hwrite h
    exact .inl ⟨b', heq, hrep, by rw [hwritten, houtput]; rfl⟩
  have hchar : ∀ c, command = .insert c → c ≠ 0 := by
    rintro c rfl
    exact (keyeventToChar_ne (char_of_commandOf hcommand)).1
  rcases perform_spec h hcommit hchar with ⟨b', heq, hrep, -, hsame⟩ | herror
  · refine .inl ⟨b', heq, hrep, ?_⟩
    rw [hsame, houtput, output_step hcommit]
  · exact .inr herror

/-- After any events the input buffer is a line editor. The run ends early only when a line of 2 ^ 30
characters would need a larger block than `malloc` gives. -/
theorem run_refines (returns : ℕ → ℕ → ℕ) (hwrite : WriteOk returns) (events : List VirtualKeyEvent) :
    (∃ b, InputBuffer.run returns events = .ok b ∧ Represents b (run events) ∧
      b.cursorPos ≤ (run events).line.text.length ∧ b.output = (run events).output) ∨
    InputBuffer.run returns events = .error .noMemory ∧ 0x40000000 ≤ events.length + 2 := by
  induction events using List.reverseRecOn with
  | nil => exact .inl ⟨.create, rfl, create_represents, Nat.zero_le _, rfl⟩
  | append_singleton events event ih =>
    rw [InputBuffer.run_append, Editor.run_append, length_append, length_singleton]
    rcases ih with ⟨b, heq, hrep, -, houtput⟩ | ⟨heq, hlarge⟩
    · rw [heq]
      rcases processEvent_spec hwrite hrep houtput event with ⟨b', heq', hrep', houtput'⟩ | ⟨herror, hlarge⟩
      · refine .inl ⟨b', heq', hrep', ?_, houtput'⟩
        rw [hrep'.cursor, length_text]
        exact Nat.le_add_right _ _
      · have hline := (bounded_run events).line
        exact .inr ⟨herror, by omega⟩
    · rw [heq]
      exact .inr ⟨rfl, by omega⟩

theorem run_refines_recall : WriteOk (fun _ n => n) ∧ ∃ b, InputBuffer.run (fun _ n => n)
      [⟨1, 1⟩, ⟨2, 3⟩, ⟨lArrow.code, 1⟩, ⟨backspace.code, 1⟩, ⟨enter.code, 1⟩, ⟨uArrow.code, 1⟩] = .ok b ∧
      Represents b ⟨.ofText ['B'.toUInt8], [['B'.toUInt8]], some 0, ['B'.toUInt8, '\n'.toUInt8]⟩ ∧
      b.output = ['B'.toUInt8, '\n'.toUInt8] := by
  have hwrite : WriteOk (fun _ n => n) := fun _ n hn => ⟨hn, Nat.le_refl n⟩
  refine ⟨hwrite, ?_⟩
  rcases run_refines (fun _ n => n) hwrite [⟨1, 1⟩, ⟨2, 3⟩, ⟨lArrow.code, 1⟩, ⟨backspace.code, 1⟩,
      ⟨enter.code, 1⟩, ⟨uArrow.code, 1⟩] with
    ⟨b, heq, hrep, -, houtput⟩ | ⟨-, hlarge⟩
  · exact ⟨b, heq, hrep, houtput⟩
  · exact absurd hlarge (by decide)

end OlliOS.Init
