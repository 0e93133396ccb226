import Mathlib.Data.List.Induction
import OlliOS.Apps.LineEditor

/-!
# The input line is a line editor

Each function is proved equal to a change of the text around the cursor (`At`), with the bytes it echoes.
-/

namespace OlliOS.Init

open InputBuffer List

variable {b : InputBuffer} {c : UInt8} {pre post left right rest : List UInt8}

lemma strlen_of_append (h : 0 ∉ left) : strlen (left ++ 0 :: rest) = .ok left.length := by
  rw [strlen, cstr_append h]

lemma strcpy_of_cstr {src dest text : List UInt8} (h : cstr src = some text) (hlt : text.length < dest.length) :
    strcpy dest src = .ok (text ++ 0 :: dest.drop (text.length + 1)) := by
  rw [strcpy, h]
  exact if_pos hlt

namespace InputBuffer

lemma get_of_append (pre post : List UInt8) (h : b.editBuffer = pre ++ c :: post) : b.get pre.length = .ok c := by
  rw [get, h, getElem?_append_right (Nat.le_refl _), Nat.sub_self]
  rfl

variable {x y : UInt8} {returns : ℕ → ℕ → ℕ}

lemma set_of_append (pre post : List UInt8) (h : b.editBuffer = pre ++ x :: post) :
    b.set pre.length c = .ok { b with editBuffer := pre ++ c :: post } := by
  rw [set, if_pos (by rw [h, length_append, length_cons]; omega), h, set_append_right _ _ (Nat.le_refl _), Nat.sub_self]
  rfl

lemma print_nil : b.print [] = b := by simp [print]

lemma print_cons (xs : List UInt8) : (b.putchar c).print xs = b.print (c :: xs) := by simp [print, putchar]

lemma print_print (xs ys : List UInt8) : (b.print xs).print ys = b.print (xs ++ ys) := by simp [print]

lemma forUp_putAt (post : List UInt8) : ∀ (xs pre : List UInt8) {b : InputBuffer}, b.editBuffer = pre ++ xs ++ post →
    forUp putAt xs.length pre.length b = .ok (b.print xs)
  | [], pre, b, _ => by rw [print_nil]; rfl
  | x :: xs, pre, b, h => by
    have hget : b.get pre.length = .ok x := get_of_append pre (xs ++ post) (by simp [h])
    have ih := forUp_putAt post xs (pre ++ [x]) (b := b.putchar x) (by simp [putchar, h])
    rw [length_append, length_singleton] at ih
    have hput : putAt pre.length b = .ok (b.putchar x) := by
      simp only [putAt, hget]
      rfl
    rwa [length_cons, forUp, hput, ← print_cons]

lemma forUp_putBack : ∀ (n i : ℕ) {b : InputBuffer}, forUp putBack n i b = .ok (b.print (List.replicate n backChar))
  | 0, i, b => by rw [replicate_zero, print_nil]; rfl
  | n + 1, i, b => by
    rw [forUp, replicate_succ, ← print_cons]
    exact forUp_putBack n (i + 1)

lemma forDown_shift (pre : List UInt8) : ∀ (xs : List UInt8) (y : UInt8) (post : List UInt8) {b : InputBuffer},
    b.editBuffer = pre ++ xs ++ y :: post → ∃ z,
    forDown (fun i => moveByte i (i - 1)) xs.length (pre.length + xs.length) b =
      .ok { b with editBuffer := pre ++ z :: (xs ++ post) } := by
  intro xs
  induction xs using List.reverseRecOn with
  | nil =>
    intro y post b h
    refine ⟨y, ?_⟩
    simp only [append_nil] at h
    simp [forDown, ← h]
  | append_singleton xs x ih =>
    intro y post b h
    have hget : b.get (pre.length + xs.length) = .ok x := by
      have := get_of_append (b := b) (c := x) (pre ++ xs) (y :: post) (by simp [h])
      rwa [length_append] at this
    have hset : b.set (pre.length + xs.length + 1) x = .ok { b with editBuffer := pre ++ xs ++ x :: (x :: post) } := by
      have := set_of_append (b := b) (c := x) (x := y) (pre ++ xs ++ [x]) post (by simp [h])
      simpa [Nat.add_assoc] using this
    obtain ⟨z, hz⟩ := ih x (x :: post) (b := { b with editBuffer := pre ++ xs ++ x :: (x :: post) }) rfl
    simp only [length_append, length_singleton, forDown, moveByte, ← Nat.add_assoc, Nat.add_sub_cancel, hget, hset,
      bind, Except.bind] at hz ⊢
    rw [hz]
    simp

lemma pullByte_of_append (h : b.editBuffer = pre ++ y :: x :: post) : pullByte pre.length (pre.length + 1) b =
      .ok ({ b with editBuffer := pre ++ x :: x :: post }.putchar x) := by
  have hget : b.get (pre.length + 1) = .ok x := by
    have := get_of_append (b := b) (c := x) (pre ++ [y]) post (by simp [h])
    simpa using this
  have hset := set_of_append pre (x :: post) (c := x) h
  have hput := get_of_append pre (x :: post) (b := { b with editBuffer := pre ++ x :: x :: post }) rfl
  simp only [pullByte, moveByte, putAt, hget, hset, hput, bind, Except.bind]
  rfl

lemma forUp_pull (post : List UInt8) : ∀ (xs : List UInt8) (pre : List UInt8) (y : UInt8) {b : InputBuffer},
    b.editBuffer = pre ++ y :: (xs ++ post) → ∃ z,
    forUp (fun i => pullByte i (i + 1)) xs.length pre.length b =
      .ok ({ b with editBuffer := pre ++ xs ++ z :: post }.print xs)
  | [], pre, y, b, h => ⟨y, by
    rw [print_nil, append_nil]
    simp only [nil_append] at h
    simp only [length_nil, forUp, ← h]⟩
  | x :: xs, pre, y, b, h => by
    obtain ⟨z, hz⟩ := forUp_pull post xs (pre ++ [x]) x
      (b := { b with editBuffer := pre ++ x :: x :: (xs ++ post) }.putchar x) (by simp [putchar])
    rw [cons_append] at h
    rw [length_append, length_singleton] at hz
    simp only [length_cons, forUp, pullByte_of_append h, bind, Except.bind]
    rw [hz]
    simp [putchar, print]

lemma forUp_pull_pred : ∀ (n i : ℕ) {b : InputBuffer},
    forUp (fun i => pullByte (i - 1) i) n (i + 1) b = forUp (fun i => pullByte i (i + 1)) n i b
  | 0, _, _ => rfl
  | n + 1, i, b => by
    simp only [forUp, Nat.add_sub_cancel]
    rcases pullByte i (i + 1) b with f | b'
    · rfl
    · exact forUp_pull_pred n (i + 1)

structure At (b : InputBuffer) (left right rest : List UInt8) : Prop where
  buffer : b.editBuffer = left ++ right ++ 0 :: rest
  cursor : b.cursorPos = left.length
  clean : 0 ∉ left ++ right

lemma At.strlen_eq (h : At b left right rest) : strlen b.editBuffer = .ok (left.length + right.length) := by
  rw [h.buffer, strlen_of_append h.clean, length_append]

lemma handleBackspace_nil (h : At b [] right rest) : b.handleBackspace = .ok b := by
  simp only [handleBackspace, h.strlen_eq, h.cursor]
  rfl

lemma handleBackspace_snoc (h : At b (left ++ [x]) right rest) : ∃ z, b.handleBackspace = .ok
      ({ b with editBuffer := left ++ right ++ 0 :: z :: rest, cursorPos := left.length }.print
        (backChar :: (right ++ 0 :: List.replicate (right.length + 1) backChar))) := by
  obtain ⟨z, hz⟩ := forUp_pull rest (right ++ [0]) left x (b := b.putchar backChar) (by simp [putchar, h.buffer])
  have hcursor : b.cursorPos = left.length + 1 := by simp [h.cursor]
  have hrounds : left.length + 1 + right.length + 1 - (left.length + 1) = right.length + 1 := by omega
  simp only [handleBackspace, h.strlen_eq, bind, Except.bind, putchar, hcursor, length_append, length_singleton, hrounds, forUp_pull_pred] at hz ⊢
  rw [hz]
  simp only [forUp_putBack, print, hrounds]
  simp [pure, Except.pure]

lemma handleDelete_nil (h : At b left [] rest) : b.handleDelete = .ok b := by
  simp only [handleDelete, h.strlen_eq, h.cursor, bind, Except.bind, length_nil, Nat.add_zero, Nat.lt_irrefl]
  rfl

lemma handleDelete_cons (h : At b left (x :: right) rest) : ∃ z, b.handleDelete = .ok
      ({ b with editBuffer := left ++ right ++ 0 :: z :: rest }.print
        (right ++ 0 :: ' '.toUInt8 :: List.replicate (right.length + 2) backChar)) := by
  obtain ⟨z, hz⟩ := forUp_pull rest (right ++ [0]) left x (b := b) (by simp [h.buffer])
  have hrounds : left.length + (right.length + 1) - left.length = right.length + 1 := by omega
  have hback : left.length + (right.length + 1) + 1 - left.length = right.length + 2 := by omega
  rw [length_append, length_singleton] at hz
  simp only [handleDelete, h.strlen_eq, bind, Except.bind, h.cursor, length_cons, hrounds, hz]
  simp only [forUp_putBack, print, putchar, hback]
  simp

lemma addCharToLog_of_room (h : At b left right (y :: rest))
    (hroom : left.length + right.length + 2 < b.editBufferLength) :
    b.addCharToLog c = .ok
      ({ b with editBuffer := left ++ c :: (right ++ 0 :: rest), cursorPos := left.length + 1 }.print
        (c :: (right ++ List.replicate right.length backChar))) := by
  obtain ⟨cursorPos, editBuffer, editBufferLength, entries, log, selected, echo, output, writes⟩ := b
  obtain rfl : editBuffer = left ++ right ++ 0 :: y :: rest := h.buffer
  obtain rfl : cursorPos = left.length := h.cursor
  have hnot : ¬ editBufferLength ≤ left.length + right.length + 2 := by simpa using hroom
  simp only [addCharToLog, h.strlen_eq, bind, Except.bind, hnot, pure, Except.pure]
  rcases right with _ | ⟨x, right⟩
  · simp only [append_nil, length_nil, Nat.add_zero]
    rw [set_of_append left (y :: rest) rfl]
    have hset := set_of_append (b := ⟨left.length, left ++ c :: y :: rest, editBufferLength, entries, log, selected,
      echo, output, writes⟩) (c := 0) (x := y) (left ++ [c]) rest (by simp)
    rw [length_append, length_singleton] at hset
    simp [hset, putchar, print]
  · obtain ⟨z, hz⟩ := forDown_shift left (x :: right ++ [0]) y rest (b := ⟨left.length,
      left ++ x :: right ++ 0 :: y :: rest, editBufferLength, entries, log, selected, echo, output, writes⟩) (by simp)
    have hprint := forUp_putAt (0 :: rest) (c :: x :: right) left (b := ⟨left.length,
      left ++ c :: (x :: right ++ [0] ++ rest), editBufferLength, entries, log, selected, echo, output, writes⟩)
      (by simp)
    have hrounds : left.length + (right.length + 1) + 1 - left.length = right.length + 1 + 1 := by omega
    have hlen : (x :: right ++ [0]).length = right.length + 1 + 1 := by simp
    rw [hlen, ← Nat.add_assoc] at hz
    simp only [length_cons] at hprint
    simp only [length_cons, hrounds]
    rw [hz]
    dsimp only
    rw [set_of_append left _ rfl]
    dsimp only
    rw [hrounds, hprint]
    simp [forUp_putBack, print]

lemma expandCharLog_eq (h : At b left right rest) (hblock : b.editBuffer.length = b.editBufferLength)
    (hlt : b.editBufferLength * 2 < 0x80000000) :
    b.expandCharLog = .ok { b with
      editBuffer := left ++ right ++ 0 :: List.replicate (b.editBufferLength * 2 - (left.length + right.length + 1)) 0
      editBufferLength := b.editBufferLength * 2 } := by
  have hbuffer := h.buffer
  have hlen : (left ++ right).length < (List.replicate (b.editBufferLength * 2) (0 : UInt8)).length := by
    rw [hbuffer] at hblock
    simp only [length_append, length_cons, length_replicate] at hblock ⊢
    omega
  have htext : cstr (left ++ right ++ 0 :: rest) = some (left ++ right) := cstr_append h.clean
  have hcopy := strcpy_of_cstr htext hlen
  rw [drop_replicate, length_append] at hcopy
  simp only [expandCharLog, malloc]
  rw [if_pos hlt]
  rw [hbuffer, hcopy]
  rfl

lemma expandCharLog_error (hlarge : 0x80000000 ≤ b.editBufferLength * 2) : b.expandCharLog = .error .noMemory := by
  simp only [expandCharLog, malloc, bind, Except.bind]
  rw [if_neg (Nat.not_lt.2 hlarge)]

lemma addCharToLog_spec (h : At b left right rest) (hblock : b.editBuffer.length = b.editBufferLength)
    (hfits : left.length + right.length + 2 ≤ b.editBufferLength)
    (hsmall : b.editBufferLength < 0x80000000) :
    (∃ rest' length, b.addCharToLog c = .ok ({ b with
        editBuffer := left ++ c :: (right ++ 0 :: rest')
        editBufferLength := length
        cursorPos := left.length + 1 }.print (c :: (right ++ List.replicate right.length backChar))) ∧
      b.editBufferLength ≤ length ∧ length < 0x80000000 ∧ left.length + right.length + 3 ≤ length ∧
      (left ++ c :: (right ++ 0 :: rest')).length = length) ∨
    b.addCharToLog c = .error .noMemory ∧ 0x40000000 ≤ left.length + right.length + 2 := by
  have hlen : left.length + right.length + 1 + rest.length = b.editBufferLength := by
    rw [← hblock, h.buffer]
    simp only [length_append, length_cons]
    omega
  rcases Nat.lt_or_ge (left.length + right.length + 2) b.editBufferLength with hroom | hfull
  · obtain ⟨y, rest, rfl⟩ : ∃ y rest', rest = y :: rest' := by
      rcases rest with _ | ⟨y, rest'⟩
      · simp only [length_nil] at hlen
        omega
      · exact ⟨y, rest', rfl⟩
    refine .inl ⟨rest, b.editBufferLength, addCharToLog_of_room h hroom, Nat.le_refl _, hsmall, hroom, ?_⟩
    simp only [length_append, length_cons] at hlen ⊢
    omega
  · rcases Nat.lt_or_ge (b.editBufferLength * 2) 0x80000000 with hlt | hlarge
    · obtain ⟨n, hn⟩ : ∃ n, b.editBufferLength * 2 - (left.length + right.length + 1) = n + 1 :=
        Nat.exists_eq_add_one.2 (by omega)
      have hexpand := expandCharLog_eq h hblock hlt
      rw [hn, replicate_succ] at hexpand
      generalize hb' : ({ b with
        editBuffer := left ++ right ++ 0 :: 0 :: List.replicate n 0
        editBufferLength := b.editBufferLength * 2 } : InputBuffer) = b' at hexpand
      have hat : At b' left right (0 :: List.replicate n 0) := by
        subst hb'
        exact ⟨rfl, h.cursor, h.clean⟩
      have hroom : left.length + right.length + 2 < b'.editBufferLength := by
        subst hb'
        show _ < b.editBufferLength * 2
        omega
      have hsame : b.addCharToLog c = b'.addCharToLog c := by
        simp only [addCharToLog, h.strlen_eq, hat.strlen_eq, bind, Except.bind, hfull, if_true, hexpand,
          Nat.not_le.2 hroom, if_false]
        rfl
      refine .inl ⟨List.replicate n 0, b.editBufferLength * 2, ?_, by omega, hlt, by omega, ?_⟩
      · rw [hsame, addCharToLog_of_room hat hroom]
        subst hb'
        rfl
      · simp only [length_append, length_cons, length_replicate]
        omega
    · refine .inr ⟨?_, by omega⟩
      simp only [addCharToLog, h.strlen_eq, bind, Except.bind, hfull, if_true, expandCharLog_error hlarge]

lemma run_homePass : ∀ (n k : ℕ) {b : InputBuffer}, b.cursorPos = k → k < n →
    Loop.run homePass n b = some (.ok ({ b with cursorPos := 0 }.print (List.replicate k backChar)))
  | n + 1, 0, b, hk, _ => by
    simp only [Loop.run_succ, homePass, hk, Nat.lt_irrefl, if_false, replicate_zero, print_nil]
    rw [← hk]
  | n + 1, k + 1, b, hk, hlt => by
    have ih := run_homePass n k (b := { b with cursorPos := k }.putchar backChar) rfl (Nat.lt_of_succ_lt_succ hlt)
    simp only [Loop.run_succ, homePass, hk, Nat.succ_pos, if_true, Nat.add_sub_cancel]
    rw [ih, replicate_succ, ← print_cons]
    rfl

lemma goRight_cons (h : At b left (x :: right) rest) :
    b.goRight = .ok ({ b with cursorPos := left.length + 1 }.print [x]) := by
  have hget : b.get left.length = .ok x := get_of_append left (right ++ 0 :: rest) (by simp [h.buffer])
  simp only [goRight, h.cursor, hget, putchar]
  rfl

lemma run_endPass : ∀ (right : List UInt8) {left : List UInt8} {b : InputBuffer} (n : ℕ),
    At b left right rest → right.length < n →
    Loop.run endPass n b = some (.ok ({ b with cursorPos := left.length + right.length }.print right))
  | [], left, b, n + 1, h, _ => by
    have hcursor := h.cursor
    simp only [Loop.run_succ, endPass, h.strlen_eq, hcursor, length_nil, Nat.add_zero, Nat.lt_irrefl,
      if_false, print_nil]
    rw [← hcursor]
  | x :: right, left, b, n + 1, h, hn => by
    have hnext : At ({ b with cursorPos := left.length + 1 }.print [x]) (left ++ [x]) right rest :=
      ⟨by simp [print, h.buffer], by simp [print], by simpa using h.clean⟩
    have ih := run_endPass right n hnext (Nat.lt_of_succ_lt_succ hn)
    have hlt : left.length < left.length + (x :: right).length := by simp
    simp only [Loop.run_succ, endPass, h.strlen_eq, h.cursor, hlt, if_true, goRight_cons h]
    have hcursor : (left ++ [x]).length + right.length = left.length + (x :: right).length := by
      simp only [length_append, length_cons, length_nil]
      omega
    rw [ih, hcursor]
    simp [print]

lemma loop_writePass_frame {length : ℕ} {b' : InputBuffer} (h : loop (writePass returns length) (0, b) = .ok b') :
    ∃ output writes, b' = { b with output, writes } := by
  rcases hrun : Loop.run (writePass returns length) 0x100000000 (0, b) with _ | r
  · rw [loop, hrun] at h
    cases h
  have hr : r = .ok b' := by
    rwa [loop, hrun] at h
  refine Loop.run_of_invariant
    (I := fun s : ℕ × InputBuffer => ∃ output writes, s.2 = { b with output := output, writes := writes })
    (Q := fun r => ∀ b', r = .ok b' → ∃ output writes, b' = { b with output := output, writes := writes })
    ?_ ?_ _ _ r ⟨b.output, b.writes, rfl⟩ hrun b' hr
  · rintro ⟨written, s⟩ ⟨written', s'⟩ ⟨output, writes, rfl⟩ hpass
    simp only [writePass, write] at hpass
    split_ifs at hpass
    obtain ⟨-, rfl⟩ := Prod.mk.inj (Sum.inl.inj hpass)
    exact ⟨_, _, rfl⟩
  · rintro ⟨written, s⟩ r ⟨output, writes, rfl⟩ hpass b' rfl
    simp only [writePass, write] at hpass
    split_ifs at hpass
    · cases hpass
    · obtain rfl := Except.ok.inj (Sum.inr.inj hpass)
      exact ⟨output, writes, rfl⟩

/-- When `write` keeps its contract, the loop of `commit_input` ends and has written the line. -/
theorem loop_writePass {text : List UInt8} (hwrite : WriteOk returns)
    (htext : b.editBuffer = text ++ rest) (hsmall : text.length < 0x80000000) :
    ∃ writes, loop (writePass returns text.length) (0, b) = .ok { b with output := b.output ++ text, writes } := by
  have hpass : ∀ s : ℕ × InputBuffer,
      (s.1 ≤ text.length ∧ ∃ writes, s.2 = { b with output := b.output ++ text.take s.1, writes }) →
      (∃ t, writePass returns text.length s = .inl t ∧
        (t.1 ≤ text.length ∧ ∃ writes, t.2 = { b with output := b.output ++ text.take t.1, writes }) ∧
        text.length - t.1 < text.length - s.1) ∨
      ∃ r, writePass returns text.length s = .inr r ∧
        ∃ writes, r = .ok { b with output := b.output ++ text, writes } := by
    rintro ⟨written, s⟩ ⟨hle, writes, hs⟩
    dsimp only at hle hs
    subst hs
    rcases Nat.lt_or_ge written text.length with hlt | hge
    · obtain ⟨hpos, hmost⟩ := hwrite writes (text.length - written) (by omega)
      generalize hn : returns writes (text.length - written) = n at hpos hmost
      have hcount : text.length - written ≤ (b.editBuffer.drop written).length := by
        rw [htext, length_drop, length_append]
        omega
      have hwrap : (written + n) % 0x100000000 = written + n := Nat.mod_eq_of_lt (by omega)
      have htake : text.take written ++ (b.editBuffer.drop written).take n = text.take (written + n) := by
        rw [htext, drop_append_of_le_length hle, take_append_of_le_length (by simp; omega), take_add]
      refine .inl ⟨(written + n, { b with output := b.output ++ text.take (written + n), writes := writes + 1 }),
        ?_, ⟨by omega, writes + 1, rfl⟩, by omega⟩
      simp only [writePass, write, hlt, if_true, hcount, hn, hwrap, append_assoc, htake]
    · refine .inr ⟨.ok { b with output := b.output ++ text.take written, writes }, ?_, writes, ?_⟩
      · simp [writePass, Nat.not_lt.2 hge]
      · rw [take_of_length_le hge]
  obtain ⟨hall, hex⟩ := Loop.run_of_variant (fun s => text.length - s.1) hpass 0x100000000 (0, b)
    ⟨Nat.zero_le _, b.writes, by simp⟩
  obtain ⟨r, hr⟩ := hex (by omega)
  obtain ⟨writes, rfl⟩ := hall r hr
  exact ⟨writes, by rw [loop, hr]; rfl⟩

lemma forUp_erase : ∀ (n i : ℕ) {b : InputBuffer},
    forUp (fun _ b => return b.print [backChar, ' '.toUInt8, backChar]) n i b =
      .ok (b.print (List.replicate n [backChar, ' '.toUInt8, backChar]).flatten)
  | 0, i, b => by
    rw [replicate_zero, flatten_nil, print_nil]
    rfl
  | n + 1, i, b => by
    rw [forUp, replicate_succ, flatten_cons, ← print_print]
    exact forUp_erase n (i + 1)

def erase (text : List UInt8) : List UInt8 :=
  (List.replicate text.length [backChar, ' '.toUInt8, backChar]).flatten

lemma switchToEntry_none (h : At b left right rest) : b.switchToEntry none = .ok
      ({ b with selected := none, cursorPos := 0, editBuffer := 0 :: b.editBuffer.tail }.print
        (right ++ erase (left ++ right))) := by
  have hputs := forUp_putAt (0 :: rest) right left (b := { b with selected := none }) h.buffer
  rw [← h.cursor] at hputs
  have hrounds : left.length + right.length - b.cursorPos = right.length := by
    rw [h.cursor, Nat.add_sub_cancel_left]
  have hcons : b.editBuffer = b.editBuffer.headI :: b.editBuffer.tail := by
    rw [h.buffer]
    rcases left ++ right with _ | ⟨x, xs⟩ <;> rfl
  have hset : b.editBuffer.set 0 0 = 0 :: b.editBuffer.tail := by
    rw [hcons]
    rfl
  have hpos : 0 < b.editBuffer.length := by
    rw [hcons]
    exact Nat.succ_pos _
  simp only [switchToEntry, bind, Except.bind, h.strlen_eq, hrounds, hputs, forUp_erase, print_print, set]
  rw [← length_append]
  simp only [print, hpos, hset]
  rfl

lemma switchToEntry_some (h : At b left right rest) {p : ℕ} {entry : InputLogEntry}
    {line : List UInt8} (hentry : b.entries[p]? = some entry) (hvalue : cstr entry.value = some line)
    (hlt : line.length < b.editBuffer.length) :
    b.switchToEntry (some p) = .ok ({ b with
        selected := some p
        cursorPos := line.length
        editBuffer := line ++ 0 :: b.editBuffer.drop (line.length + 1) }.print
        (right ++ erase (left ++ right) ++ line)) := by
  have hputs := forUp_putAt (0 :: rest) right left (b := { b with selected := some p }) h.buffer
  rw [← h.cursor] at hputs
  have hrounds : left.length + right.length - b.cursorPos = right.length := by
    rw [h.cursor, Nat.add_sub_cancel_left]
  obtain ⟨-, -, hclean⟩ := exists_of_cstr hvalue
  simp only [switchToEntry, bind, Except.bind, h.strlen_eq, hrounds, hputs, forUp_erase]
  rw [← length_append]
  simp only [print, hentry, strcpy_of_cstr hvalue hlt, strlen_of_append hclean, cstr_append hclean,
    append_assoc, map_append]
  rfl

end InputBuffer

end OlliOS.Init
