import OlliOS.Proofs.Numbers
import OlliOS.Proofs.Vga

/-!
# The files of the text mode driver

Text stays on the screen when it starts at a cell of it (`write_inside`).
-/

namespace OlliOS.TxtModeDriver

open Vga InterfaceFile Option UInt32 VgaFile

variable {d : TxtModeDriver}

/-! ### Text -/

lemma row_lt (h : d.CursorInside) : d.row.toNat < 25 := by
  unfold CursorInside at h
  omega

lemma cursorInside_of_lt (hrow : d.row.toNat < 25) (hcolumn : d.column.toNat < 80) : d.CursorInside := by
  unfold CursorInside
  omega

lemma nextLine_inside (h : d.row.toNat < 25) :
    ∃ t, (if 25 ≤ d.row + 1 then { d with row := d.row + 1 - 1, column := 0 }.scrollDown
      else some { d with row := d.row + 1, column := 0 }.updateCursor) = some t ∧ t.CursorInside := by
  by_cases hlast : 25 ≤ d.row + 1
  · rw [if_pos hlast]
    refine ⟨_, scrollDown_eq _, cursorInside_of_lt ?_ (Nat.zero_lt_succ 79)⟩
    rwa [← UInt16.add_sub_cancel d.row 1] at h
  · rw [if_neg hlast]
    refine ⟨_, rfl, cursorInside_of_lt ?_ (Nat.zero_lt_succ 79)⟩
    exact UInt16.lt_iff_toNat_lt.1 (UInt16.not_le.1 hlast)

lemma advanceCharacter_inside (h : d.row.toNat < 25) : ∃ t, d.advanceCharacter = some t ∧ t.CursorInside := by
  unfold advanceCharacter
  by_cases hend : 80 ≤ d.column + 1
  · simp only [if_pos hend]
    exact nextLine_inside h
  · simp only [if_neg hend]
    exact ⟨_, rfl, cursorInside_of_lt h (UInt16.lt_iff_toNat_lt.1 (UInt16.not_le.1 hend))⟩

lemma put_inside (h : d.CursorInside) (c : UInt8) : ∃ t, (do
    let d ← d.setChar c
    d.advanceCharacter) = some t ∧ t.CursorInside := by
  have hcell : d.column.toNat + d.row.toNat * 80 < 2000 := h
  rw [setChar, store, if_pos hcell]
  exact advanceCharacter_inside (row_lt h)

lemma backspace_inside (h : d.CursorInside) :
    ∃ t, (if 0 < d.column then some { d with column := d.column - 1 }.updateCursor
      else if 0 < d.row then some { d with row := d.row - 1, column := 79 }.updateCursor
      else some d.updateCursor) = some t ∧ t.CursorInside := by
  unfold CursorInside at h
  split_ifs with hleft hup
  · refine ⟨_, rfl, ?_⟩
    have hprev : (d.column - 1).toNat = d.column.toNat - 1 :=
      UInt16.toNat_sub_of_le _ _ (UInt16.le_iff_toNat_le.2 (UInt16.lt_iff_toNat_lt.1 hleft))
    show (d.column - 1).toNat + d.row.toNat * 80 < 2000
    omega
  · refine ⟨_, rfl, cursorInside_of_lt ?_ (Nat.lt_succ_self 79)⟩
    have hprev : (d.row - 1).toNat = d.row.toNat - 1 :=
      UInt16.toNat_sub_of_le _ _ (UInt16.le_iff_toNat_le.2 (UInt16.lt_iff_toNat_lt.1 hup))
    show (d.row - 1).toNat < 25
    omega
  · exact ⟨_, rfl, h⟩

lemma writeChar_inside (h : d.CursorInside) (c : UInt8) : ∃ t, d.writeChar c = some t ∧ t.CursorInside := by
  unfold writeChar
  by_cases hnewline : c = '\n'.toUInt8
  · rw [if_pos hnewline]
    exact nextLine_inside (row_lt h)
  rw [if_neg hnewline]
  by_cases htab : c = '\t'.toUInt8
  · rw [if_pos htab]
    exact Loop.foldlM_range (P := fun _ (t : TxtModeDriver) => t.CursorInside) h _
      fun _ _ t ht => put_inside ht blank
  rw [if_neg htab]
  by_cases hreturn : c = '\r'.toUInt8
  · rw [if_pos hreturn]
    exact ⟨_, rfl, cursorInside_of_lt (row_lt (d := d) h) (Nat.zero_lt_succ 79)⟩
  rw [if_neg hreturn]
  by_cases hback : c = 8
  · rw [if_pos hback]
    exact backspace_inside h
  rw [if_neg hback]
  exact put_inside h c

lemma write_inside : ∀ (data : List UInt8) {d : TxtModeDriver}, d.CursorInside →
    ∃ t, d.write data = some t ∧ t.CursorInside
  | [], d, h => ⟨d, rfl, h⟩
  | c :: data, d, h => by
    obtain ⟨t, ht, hinside⟩ := writeChar_inside h c
    rw [write_cons, ht]
    exact write_inside data hinside

/-! ### The framebuffer -/

section Framebuffer

variable {length pos : UInt32}

lemma framebufferLength_inside (hpos : pos.toNat ≤ 2000) (hlength : pos.toNat + length.toNat < 4294967296) :
    (framebufferLength length pos).toNat = min length.toNat (2000 - pos.toNat) := by
  have hsum : (pos + length).toNat = pos.toNat + length.toNat := by
    rw [UInt32.toNat_add]
    omega
  have hrest : (2000 - pos).toNat = 2000 - pos.toNat := UInt32.toNat_sub_of_le _ _ (UInt32.le_iff_toNat_le.2 hpos)
  unfold framebufferLength
  by_cases hlong : pos + length > 2000
  · have hlt : 2000 < (pos + length).toNat := lt_iff_toNat_lt.1 hlong
    rw [if_pos hlong, hrest]
    omega
  · have hle : (pos + length).toNat ≤ 2000 := UInt32.le_iff_toNat_le.1 (UInt32.not_lt.1 hlong)
    rw [if_neg hlong]
    omega

lemma framebufferLength_outside (h : ¬ (pos.toNat ≤ 2000 ∧ pos.toNat + length.toNat < 4294967296)) :
    4294967296 ≤ pos.toNat + (framebufferLength length pos).toNat := by
  have hsum := UInt32.toNat_add pos length
  have hrest := UInt32.toNat_sub 2000 pos
  have h2000 : (2000 : UInt32).toNat = 2000 := rfl
  have hlenlt := length.toNat_lt
  unfold framebufferLength
  by_cases hlong : pos + length > 2000
  · have hlt : 2000 < (pos + length).toNat := lt_iff_toNat_lt.1 hlong
    rw [if_pos hlong]
    omega
  · have hle : (pos + length).toNat ≤ 2000 := UInt32.le_iff_toNat_le.1 (UInt32.not_lt.1 hlong)
    rw [if_neg hlong]
    omega

lemma toNat_place {i : ℕ} (h : pos.toNat + i < 4294967296) : (pos + UInt32.ofNat i).toNat = pos.toNat + i := by
  rw [UInt32.toNat_add, UInt32.toNat_ofNat']
  omega

lemma place_last (hlt : pos.toNat < 4294967296) : pos + UInt32.ofNat (4294967295 - pos.toNat) = 0xFFFFFFFF := by
  refine UInt32.toNat_inj.1 ((toNat_place (by omega)).trans ?_)
  show _ = 4294967295
  omega

lemma toI32_of_le {n : UInt32} (h : n.toNat ≤ 2000) : toI32 n = n.toNat :=
  BitVec.toInt_eq_toNat_of_lt (by show 2 * n.toNat < 2 ^ 32; omega)

lemma reported_le (hpos : pos.toNat ≤ 2000) (hlength : pos.toNat + length.toNat < 4294967296) :
    toI32 (framebufferLength length pos) ≤ length.toNat := by
  have hmin := framebufferLength_inside hpos hlength
  rw [toI32_of_le (by omega)]
  omega

lemma setCharAt_place {t : TxtModeDriver} {p : UInt32} (h : p.toNat < 2000) (c : UInt8) :
    ∃ u, t.setCharAt c (p % 80).toUInt16 (p / 80).toUInt16 = some u ∧ u.row = t.row ∧ u.column = t.column := by
  have hx : (p % 80).toUInt16.toNat = p.toNat % 80 := by
    show p.toNat % 80 % 65536 = _
    omega
  have hy : (p / 80).toUInt16.toNat = p.toNat / 80 := by
    show p.toNat / 80 % 65536 = _
    omega
  rw [setCharAt, hx, hy, store, if_pos (by omega)]
  exact ⟨_, rfl, rfl, rfl⟩

lemma framebufferSet_inside (value : ℕ → UInt8) (hpos : pos.toNat ≤ 2000)
    (hlength : pos.toNat + length.toNat < 4294967296) :
    ∃ t, framebufferSet value length pos d = some (t, toI32 (framebufferLength length pos)) ∧
      t.row = d.row ∧ t.column = d.column := by
  have hmin := framebufferLength_inside hpos hlength
  obtain ⟨t, ht, hsame⟩ := Loop.foldlM_range (P := fun _ (t : TxtModeDriver) => t.row = d.row ∧ t.column = d.column)
    ⟨rfl, rfl⟩ (framebufferLength length pos).toNat fun i hi t ⟨hrow, hcolumn⟩ => by
      obtain ⟨u, hu, hrow', hcolumn'⟩ := setCharAt_place (p := pos + .ofNat i)
        (by rw [toNat_place (by omega)]; omega) (value i)
      exact ⟨u, hu, hrow'.trans hrow, hcolumn'.trans hcolumn⟩
  refine ⟨t, ?_, hsame⟩
  rw [framebufferSet, ht]
  rfl

lemma framebufferSet_outside (value : ℕ → UInt8)
    (h : ¬ (pos.toNat ≤ 2000 ∧ pos.toNat + length.toNat < 4294967296)) :
    framebufferSet value length pos d = none := by
  have hposlt := pos.toNat_lt
  have hlong := framebufferLength_outside h
  refine eq_none_iff_forall_ne_some.2 fun r hr => ?_
  obtain ⟨t, ht, -⟩ := bind_eq_some_iff.1 hr
  obtain ⟨u, v, huv⟩ := Loop.exists_pass ht (4294967295 - pos.toNat) (by omega)
  rw [place_last (by omega), setCharAt, store, if_neg (by decide)] at huv
  cases huv

lemma framebufferGet_inside (hpos : pos.toNat ≤ 2000) (hlength : pos.toNat + length.toNat < 4294967296) :
    ∃ buffer, framebufferGet length pos d = some (buffer, toI32 (framebufferLength length pos)) := by
  have hmin := framebufferLength_inside hpos hlength
  obtain ⟨buffer, hbuffer, -⟩ := Loop.foldlM_range (P := fun _ _ => True) (f := fun buffer i => do
      let entry ← d.load (pos + .ofNat i).toNat
      return buffer ++ [char entry]) trivial (framebufferLength length pos).toNat fun i hi t _ => by
      rw [toNat_place (by omega), load, if_pos (by omega)]
      exact ⟨_, rfl, trivial⟩
  refine ⟨buffer, ?_⟩
  rw [framebufferGet, hbuffer]
  rfl

lemma framebufferGet_outside (h : ¬ (pos.toNat ≤ 2000 ∧ pos.toNat + length.toNat < 4294967296)) :
    framebufferGet length pos d = none := by
  have hposlt := pos.toNat_lt
  have hlong := framebufferLength_outside h
  refine eq_none_iff_forall_ne_some.2 fun r hr => ?_
  obtain ⟨t, ht, -⟩ := bind_eq_some_iff.1 hr
  obtain ⟨u, v, huv⟩ := Loop.exists_pass ht (4294967295 - pos.toNat) (by omega)
  rw [place_last (by omega), load, if_neg (by decide)] at huv
  cases huv

end Framebuffer

/-! ### The files of one number -/

section Numbers

variable {w : ℕ} {toInt : BitVec w → ℤ} {get : TxtModeDriver → BitVec w}
  {set : TxtModeDriver → BitVec w → TxtModeDriver} {value : ℕ → UInt8} {length pos : UInt32}

lemma write_number_inside (h : d.CursorInside)
    (hset : pos = 0 → ∀ v, Parser.parse value length = some v → (set d v).CursorInside) :
    ∃ d' n, (readWriteData toInt get set).write value length pos d = some (d', n) ∧ d'.CursorInside := by
  rw [write_readWriteData]
  by_cases hpos : pos = 0
  · rw [if_pos hpos]
    rcases hparse : Parser.parse value length with _ | v
    · exact ⟨d, 0, rfl, h⟩
    · exact ⟨set d v, toI32 length, rfl, hset hpos v hparse⟩
  · rw [if_neg hpos]
    exact ⟨d, 0, rfl, h⟩

lemma read_readWriteData (hlow : -10 ^ 9 < toInt (get d)) (hhigh : toInt (get d) < 2 ^ 31) :
    ∃ r, (readWriteData toInt get set).read length pos d = some r := by
  unfold InterfaceFile.read
  split_ifs
  · exact print_isSome (by omega) hhigh hlow length
  · exact ⟨_, rfl⟩

lemma write_readOnlyData {data : ℤ} :
    (readOnlyData data : InterfaceFile TxtModeDriver).write value length pos d = some (d, 0) := ite_self _

lemma read_readOnlyData {data : ℤ} (hlow : -10 ^ 9 < data) (hhigh : data < 2 ^ 31) :
    ∃ r, (readOnlyData data : InterfaceFile TxtModeDriver).read length pos d = some r := by
  unfold InterfaceFile.read
  split_ifs
  · exact print_isSome (by omega) hhigh hlow length
  · exact ⟨_, rfl⟩

end Numbers

/-! ### The calls -/

section Calls

variable {call : VgaCall} {calls : List VgaCall}

lemma write_file_inside {file : VgaFile} {value : ℕ → UInt8} {length pos : UInt32} (h : d.CursorInside)
    (hgood : d.Good (.write file value length pos)) (hfile : file ≠ .framebuffer) :
    ∃ d' n, file.file.write value length pos d = some (d', n) ∧ d'.CursorInside := by
  cases file with
  | dev =>
    obtain ⟨t, ht, hinside⟩ := write_inside (bytes value length) h
    refine ⟨t, toI32 length, ?_, hinside⟩
    rw [InterfaceFile.write, if_pos (.inr rfl)]
    exact congrArg (Option.map fun d => (d, toI32 length)) ht
  | width | height => exact ⟨d, 0, write_readOnlyData, h⟩
  | foreground | background | blinking => exact write_number_inside h fun _ _ _ => h
  | column | row =>
    rw [file]
    exact write_number_inside h hgood
  | framebuffer => exact absurd rfl hfile

lemma read_file (file : VgaFile) (length pos : UInt32) (hfile : file ≠ .framebuffer) :
    ∃ r, file.file.read length pos d = some r := by
  have hsigned (v : BitVec 8) : -10 ^ 9 < v.toInt ∧ v.toInt < 2 ^ 31 := by
    have hlow := v.le_toInt
    have hhigh := v.toInt_lt
    omega
  have hunsigned (v : BitVec 16) : -10 ^ 9 < (v.toNat : ℤ) ∧ (v.toNat : ℤ) < 2 ^ 31 := by omega
  cases file with
  | dev => exact ⟨_, if_pos (.inr rfl)⟩
  | width | height => exact read_readOnlyData (by omega) (by omega)
  | foreground | background | blinking => exact read_readWriteData (hsigned _).1 (hsigned _).2
  | column | row =>
    rw [file]
    exact read_readWriteData (hunsigned _).1 (hunsigned _).2
  | framebuffer => exact absurd rfl hfile

lemma perform_write (file : VgaFile) (value : ℕ → UInt8) (length pos : UInt32) :
    d.perform (.write file value length pos) = file.file.write value length pos d := rfl

lemma perform_read (file : VgaFile) (length pos : UInt32) :
    d.perform (.read file length pos) = (file.file.read length pos d).map fun r => (d, r.2) := rfl

lemma perform_write_framebuffer (value : ℕ → UInt8) (length pos : UInt32) :
    d.perform (.write .framebuffer value length pos) = framebufferSet value length pos d := if_pos (.inr rfl)

lemma perform_read_framebuffer (length pos : UInt32) : d.perform (.read .framebuffer length pos) =
    (framebufferGet length pos d).map fun r => (d, r.2) := by
  rw [perform_read, InterfaceFile.read, if_pos (.inr rfl)]
  rfl

lemma perform_inside (h : d.CursorInside) (hgood : d.Good call) :
    ∃ d' n, d.perform call = some (d', n) ∧ (call.file = .framebuffer → n ≤ call.length.toNat) ∧ d'.CursorInside := by
  rcases call with ⟨file, value, length, pos⟩ | ⟨file, length, pos⟩
  · by_cases hfile : file = .framebuffer
    · subst hfile
      obtain ⟨hpos, hlength⟩ := hgood
      obtain ⟨t, ht, hrow, hcolumn⟩ := framebufferSet_inside value hpos hlength
      refine ⟨t, _, (perform_write_framebuffer ..).trans ht, fun _ => reported_le hpos hlength, ?_⟩
      rwa [CursorInside, hrow, hcolumn]
    · obtain ⟨t, n, ht, hinside⟩ := write_file_inside h hgood hfile
      exact ⟨t, n, ht, fun heq => absurd heq hfile, hinside⟩
  · by_cases hfile : file = .framebuffer
    · subst hfile
      obtain ⟨hpos, hlength⟩ := hgood
      obtain ⟨buffer, hbuffer⟩ := framebufferGet_inside hpos hlength
      refine ⟨d, _, ?_, fun _ => reported_le hpos hlength, h⟩
      rw [perform_read_framebuffer, hbuffer]
      rfl
    · obtain ⟨⟨text, n⟩, hread⟩ := read_file file length pos hfile
      refine ⟨d, n, ?_, fun heq => absurd heq hfile, h⟩
      rw [perform_read, hread]
      rfl

lemma run_cons : d.run (call :: calls) = (d.perform call).bind fun (d', _) => d'.run calls := by
  rw [run, List.foldlM_cons]
  rcases d.perform call with _ | ⟨d', n⟩
  · rfl
  · rfl

lemma run_inside : ∀ (calls : List VgaCall) {d : TxtModeDriver}, d.CursorInside → d.GoodRun calls →
    d.Contained calls ∧ ∃ d', d.run calls = some d' ∧ d'.CursorInside
  | [], d, h, _ => ⟨trivial, d, rfl, h⟩
  | call :: calls, d, h, hgood => by
    obtain ⟨t, n, ht, hreport, hinside⟩ := perform_inside h hgood.1
    obtain ⟨hcontained, u, hu, hlast⟩ := run_inside calls hinside (hgood.2 t n ht)
    refine ⟨⟨t, n, ht, hreport, hcontained⟩, u, ?_, hlast⟩
    rwa [run_cons, ht]

def letter : VgaCall := .write .dev (fun _ => 0x41) 1 0

lemma inside_of_letter {r : TxtModeDriver × ℤ} (h : d.perform letter = some r) : d.CursorInside := by
  have hwrite : (d.write [0x41]).map (fun d => (d, toI32 1)) = some r := h
  obtain ⟨t, ht, -⟩ := map_eq_some_iff.1 hwrite
  obtain ⟨u, hu, -⟩ := bind_eq_some_iff.1 ht
  have hput : ((d.setChar 0x41).bind fun d => d.advanceCharacter) = some u := hu
  obtain ⟨v, hv, -⟩ := bind_eq_some_iff.1 hput
  rw [setChar, store] at hv
  split_ifs at hv with hcell
  exact hcell

lemma good_of_contained (h : ∀ more, (∀ d' n, d.perform call = some (d', n) → d'.GoodRun more) →
    d.Contained (call :: more)) : d.Good call := by
  have hletter : ∀ d' n, d.perform call = some (d', n) → d'.CursorInside := by
    intro d' n hperform
    obtain ⟨t, m, ht, -, u, k, hu, -⟩ := h [letter] fun _ _ _ => ⟨trivial, fun _ _ _ => trivial⟩
    cases some.inj (hperform.symm.trans ht)
    exact inside_of_letter hu
  obtain ⟨t, n, ht, -⟩ := h [] fun _ _ _ => trivial
  rcases call with ⟨file, value, length, pos⟩ | ⟨file, length, pos⟩
  · cases file with
    | column =>
      rintro rfl v hparse
      refine hletter { d with column := ⟨v⟩ } (toI32 length) ?_
      rw [perform_write, file, write_readWriteData, if_pos rfl, hparse]
      rfl
    | row =>
      rintro rfl v hparse
      refine hletter { d with row := ⟨v⟩ } (toI32 length) ?_
      rw [perform_write, file, write_readWriteData, if_pos rfl, hparse]
      rfl
    | framebuffer =>
      refine of_not_not fun hbad => ?_
      rw [perform_write_framebuffer, framebufferSet_outside value hbad] at ht
      cases ht
    | _ => trivial
  · cases file with
    | framebuffer =>
      refine of_not_not fun hbad => ?_
      rw [perform_read_framebuffer, framebufferGet_outside hbad] at ht
      cases ht
    | _ => trivial

end Calls

/-- Good calls stay on the screen, and a call that they lead to keeps all the good ones behind it on the
screen if and only if it is good, too. -/
theorem vga_contained (d : TxtModeDriver) (h : d.CursorInside) (calls : List VgaCall) (hgood : d.GoodRun calls) :
    d.Contained calls ∧ ∃ d', d.run calls = some d' ∧ ∀ call,
      (∀ more, (∀ d'' n, d'.perform call = some (d'', n) → d''.GoodRun more) → d'.Contained (call :: more)) ↔
        d'.Good call := by
  obtain ⟨hcontained, d', hrun, hinside⟩ := run_inside calls h hgood
  refine ⟨hcontained, d', hrun, fun call => ⟨good_of_contained, fun hcall more hmore => ?_⟩⟩
  exact (run_inside (call :: more) hinside ⟨hcall, hmore⟩).1

def emptyScreen : TxtModeDriver := ⟨0, 0, 7, 0, false, fun _ => 0x0720, 0⟩

/-- The row is set to the number `2c`, for a digit `c`. -/
def setRow (c : UInt8) : VgaCall := .write .row (fun i => if i = 0 then 0x32 else c) 2 0

theorem vga_contained_lastLine : emptyScreen.Contained [setRow 0x34, letter, .read .framebuffer 80 0] := by
  have hparse : Parser.parse (w := 16) (fun i => if i = 0 then 0x32 else 0x34) 2 = some 24 := by decide
  have hrow : emptyScreen.Good (setRow 0x34) := by
    intro _ v hv
    cases hparse.symm.trans hv
    decide
  have hgood : emptyScreen.GoodRun [setRow 0x34, letter, .read .framebuffer 80 0] :=
    ⟨hrow, fun _ _ _ => ⟨trivial, fun _ _ _ => ⟨⟨by decide, by decide⟩, fun _ _ _ => trivial⟩⟩⟩
  exact (vga_contained emptyScreen (by decide) _ hgood).1

/-- A letter is written behind the last line, and a byte behind the last place is read. -/
theorem vga_escaped : ¬ emptyScreen.Contained [setRow 0x35, letter] ∧
    ¬ emptyScreen.Contained [.read .framebuffer 1 2001] := by
  constructor
  · rintro ⟨d', n, hrow, -, d'', m, hletter, -⟩
    obtain ⟨rfl, -⟩ := Prod.mk.inj (some.inj hrow)
    exact absurd (inside_of_letter hletter) (by decide)
  · rintro ⟨d', n, hread, -⟩
    rw [perform_read_framebuffer, framebufferGet_outside (by decide)] at hread
    cases hread

end OlliOS.TxtModeDriver
