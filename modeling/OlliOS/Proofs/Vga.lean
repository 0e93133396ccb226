import OlliOS.Modules.Vga

/-!
# Text on the screen

`Shows d s` says that what can be seen is `s`. Each byte does on the screen what it does on a terminal.
-/

namespace OlliOS.TxtModeDriver

open Function UInt16 Screen

open Vga

variable {d : TxtModeDriver} {s : Screen 25 80 UInt8} {c : UInt8} {x y : ℕ}

lemma char_generateEntry (d : TxtModeDriver) (c : UInt8) : char (d.generateEntry c) = c := by
  unfold char generateEntry
  have hbits : (c.toBitVec.signExtend 16 ||| d.foregroundColor.toBitVec.setWidth 16 <<< 8 |||
      d.backgroundColor.toBitVec.setWidth 16 <<< 12 |||
      (BitVec.ofBool d.blinking).setWidth 16 <<< 15).setWidth 8 = c.toBitVec := by
    ext i hi
    have h8 : i < 8 := hi
    simp [BitVec.getElem_signExtend, h8, show i < 16 by omega]
  rw [hbits]

/-! ### Scrolling -/

lemma toNat_ofNat_coordinate {n : ℕ} (h : n < 80) : (ofNat n).toNat = n := by
  rw [toNat_ofNat']
  omega

lemma setCharAt_cells (cells : ℕ → BitVec 16) (c : UInt8) (hx : x < 80) (hy : y < 25) :
    { d with cells := cells }.setCharAt c (.ofNat x) (.ofNat y) =
      some { d with cells := update cells (x + y * 80) (d.generateEntry c) } := by
  rw [setCharAt, toNat_ofNat_coordinate hx, toNat_ofNat_coordinate (by omega), store, if_pos (by omega)]
  congr 2
  funext i
  rw [update_apply]
  rfl

lemma getChar_cells (cells : ℕ → BitVec 16) (hx : x < 80) (hy : y < 25) :
    { d with cells := cells }.getChar (.ofNat x) (.ofNat y) = some (char (cells (x + y * 80))) := by
  rw [getChar, toNat_ofNat_coordinate hx, toNat_ofNat_coordinate (by omega), load, if_pos (by omega), Option.map_some]

/-- The cells when the lines from `lo` to `hi` are those of `g` in the first `k` columns, and the lines
up to `j` in the next column. -/
def moved (lo hi : ℕ) (g f : ℕ → BitVec 16) (k j i : ℕ) : BitVec 16 :=
  if lo ≤ i / 80 ∧ (i % 80 < k ∧ i / 80 < hi ∨ i % 80 = k ∧ i / 80 < j) then g i else f i

variable {lo hi : ℕ} {f g : ℕ → BitVec 16}

lemma moved_step {k j : ℕ} (hk : k < 80) (hj : lo ≤ j) :
    update (moved lo hi g f k j) (k + j * 80) (g (k + j * 80)) = moved lo hi g f k (j + 1) := by
  funext i
  by_cases hi : i = k + j * 80
  · subst hi
    rw [update_self, moved, if_pos (by omega)]
  · rw [update_of_ne hi, moved, moved]
    exact if_congr (by omega) rfl rfl

lemma moved_column (k : ℕ) : moved lo hi g f k hi = moved lo hi g f (k + 1) lo := by
  funext i
  exact if_congr (by omega) rfl rfl

lemma moved_zero : moved lo hi g f 0 lo = f := by
  funext i
  exact if_neg (by omega)

/-- The cells of each column are written from the top to the bottom, each from a cell of its column. -/
theorem foldlM_columns (lo n : ℕ) (g : ℕ → BitVec 16) (source : ℕ → ℕ) (hn : n + lo ≤ 25) (hsource : ∀ y < n, source y < 25)
    (hg : ∀ x < 80, ∀ y < n, g (x + (y + lo) * 80) =
      d.generateEntry (char (moved lo (n + lo) g d.cells x (y + lo) (x + source y * 80)))) :
    (List.range 80).foldlM (fun d x => (List.range n).foldlM (fun d y => do
      let c ← d.getChar (.ofNat x) (.ofNat (source y))
      d.setCharAt c (.ofNat x) (.ofNat (y + lo))) d) d =
    some { d with cells := moved lo (n + lo) g d.cells 80 lo } := by
  obtain ⟨t, ht, rfl⟩ := Loop.foldlM_range
    (P := fun x t => t = { d with cells := moved lo (n + lo) g d.cells x lo }) (s := d)
    (by rw [moved_zero]) 80 fun x hx t ht => by
    obtain ⟨u, hu, rfl⟩ := Loop.foldlM_range
      (P := fun y t => t = { d with cells := moved lo (n + lo) g d.cells x (y + lo) }) (s := t)
      (f := fun d y => do
        let c ← d.getChar (.ofNat x) (.ofNat (source y))
        d.setCharAt c (.ofNat x) (.ofNat (y + lo))) (by rw [ht, Nat.zero_add]) n fun y hy t ht => by
      refine ⟨_, ?_, rfl⟩
      rw [ht, getChar_cells _ hx (hsource y hy), Option.bind_eq_bind, Option.bind_some,
        setCharAt_cells _ _ hx (by omega), ← hg x hx y hy, moved_step hx (by omega), Nat.add_right_comm]
    exact ⟨_, hu, by rw [moved_column]⟩
  exact ht

lemma foldlM_blank (hy : y < 25) :
    (List.range 80).foldlM (fun d x => d.setCharAt ' '.toUInt8 (.ofNat x) (.ofNat y)) d =
      some { d with cells := moved y (y + 1) (fun _ => d.generateEntry ' '.toUInt8) d.cells 80 y } := by
  obtain ⟨t, ht, rfl⟩ := Loop.foldlM_range
    (P := fun x t => t = { d with cells := moved y (y + 1) (fun _ => d.generateEntry ' '.toUInt8) d.cells x y })
    (f := fun d x => d.setCharAt ' '.toUInt8 (.ofNat x) (.ofNat y)) (by rw [moved_zero]) 80 fun x hx t ht =>
      ⟨_, by rw [ht, setCharAt_cells _ _ hx hy, moved_step hx le_rfl, moved_column], rfl⟩
  exact ht

/-- The cells after scrolling down: every character has moved, in the current colours. -/
def below (d : TxtModeDriver) (i : ℕ) : BitVec 16 := d.generateEntry (char (d.cells (i + 80)))

/-- The cells after scrolling up: the line at the top was read for each line. -/
def top (d : TxtModeDriver) (i : ℕ) : BitVec 16 := d.generateEntry (char (d.cells (i % 80)))

lemma scrollDown_eq (d : TxtModeDriver) : d.scrollDown = some (updateCursor { d with
    cells := moved 24 25 (fun _ => d.generateEntry ' '.toUInt8) (moved 0 24 d.below d.cells 80 0) 80 24 }) := by
  have hcolumns := foldlM_columns 0 24 d.below (fun y => y + 1) (by omega) (by omega)
    fun x hx y hy => by
      rw [moved, if_neg (by omega), below]
      congr 3
      omega
  simp only [Nat.add_zero] at hcolumns
  rw [scrollDown, hcolumns, Option.bind_eq_bind, Option.bind_some, show (24 : UInt16) = .ofNat 24 from rfl,
    foldlM_blank (by omega)]
  rfl

lemma scrollUp_eq (d : TxtModeDriver) : d.scrollUp = some (updateCursor { d with
    cells := moved 0 1 (fun _ => d.generateEntry ' '.toUInt8) (moved 1 24 d.top d.cells 80 1) 80 0 }) := by
  have hcolumns := foldlM_columns 1 23 d.top (fun y => y) (by omega) (by omega)
    fun x hx y hy => by
      have hcolumn : ∀ y, (x + y * 80) % 80 = x := by omega
      have hread : char (moved 1 24 d.top d.cells x (y + 1) (x + y * 80)) = char (d.cells x) := by
        unfold moved
        split_ifs with hwritten
        · rw [top, char_generateEntry, hcolumn]
        · rw [show y = 0 by omega, Nat.zero_mul, Nat.add_zero]
      rw [top, hcolumn]
      exact congrArg _ hread.symm
  rw [scrollUp, hcolumns, Option.bind_eq_bind, Option.bind_some, show (0 : UInt16) = .ofNat 0 from rfl,
    foldlM_blank (by omega)]
  rfl

lemma moved_down (hx : x < 80) (hy : y < 24) :
    moved 24 25 (fun _ => d.generateEntry ' '.toUInt8) (moved 0 24 d.below d.cells 80 0) 80 24 (x + y * 80) =
      d.generateEntry (char (d.cells (x + (y + 1) * 80))) := by
  rw [moved, if_neg (by omega), moved, if_pos (by omega), below, Nat.succ_mul, Nat.add_assoc]

/-- Scrolling down moves whole cells when they have the current colours. Scrolling up does so when all lines
but the last two are the top line, in the current colours, and the last two are the same. -/
theorem scroll_cells_iff (d : TxtModeDriver) : ∃ down up, d.scrollDown = some down ∧ d.scrollUp = some up ∧
    (d.ScrolledDown down ↔ ∀ x < 80, ∀ y < 24, d.Current (d.cells (x + (y + 1) * 80))) ∧
    (d.ScrolledUp up ↔ ∀ x < 80, (∀ y < 23, d.cells (x + y * 80) = d.generateEntry (char (d.cells x))) ∧
      d.cells (x + 24 * 80) = d.cells (x + 23 * 80)) := by
  refine ⟨_, _, scrollDown_eq d, scrollUp_eq d, ?_, ?_⟩
  · refine forall₂_congr fun x hx => ?_
    have hlast : moved 24 25 (fun _ => d.generateEntry ' '.toUInt8) (moved 0 24 d.below d.cells 80 0) 80 24
        (x + 24 * 80) = d.generateEntry ' '.toUInt8 := if_pos (by omega)
    refine (and_iff_left hlast).trans (forall₂_congr fun y hy => ?_)
    exact (iff_of_eq (congrArg (· = _) (moved_down hx hy))).trans eq_comm
  · refine forall₂_congr fun x hx => ?_
    have hfirst : moved 0 1 (fun _ => d.generateEntry ' '.toUInt8) (moved 1 24 d.top d.cells 80 1) 80 0 x =
        d.generateEntry ' '.toUInt8 := if_pos (by omega)
    refine (and_iff_left hfirst).trans ?_
    have hcell : ∀ y < 23, moved 0 1 (fun _ => d.generateEntry ' '.toUInt8) (moved 1 24 d.top d.cells 80 1) 80 0
        (x + (y + 1) * 80) = d.generateEntry (char (d.cells x)) := by
      intro y hy
      rw [moved, if_neg (by omega), moved, if_pos (by omega), top, show (x + (y + 1) * 80) % 80 = x by omega]
    have hlast : moved 0 1 (fun _ => d.generateEntry ' '.toUInt8) (moved 1 24 d.top d.cells 80 1) 80 0
        (x + 24 * 80) = d.cells (x + 24 * 80) := by
      rw [moved, if_neg (by omega), moved, if_neg (by omega)]
    constructor
    · intro h
      exact ⟨fun y hy => (h y (by omega)).symm.trans (hcell y hy), hlast.symm.trans (h 23 (by omega))⟩
    · rintro ⟨hsame, h⟩ y hy
      rcases Nat.lt_succ_iff_lt_or_eq.1 hy with hy | rfl
      · exact (hcell y hy).trans (hsame y hy).symm
      · exact hlast.trans h

def coloured : TxtModeDriver := ⟨0, 0, 7, 0, false, fun _ => 0x1720, 0⟩

/-- A line of `A` above blank lines, all in the current colours. -/
def lettered : TxtModeDriver := ⟨0, 0, 7, 0, false, fun i => if i < 80 then 0x0741 else 0x0720, 0⟩

theorem scroll_loses_cells : (∃ t, coloured.scrollDown = some t ∧ ¬ coloured.ScrolledDown t) ∧
    ∃ t, lettered.scrollUp = some t ∧ ¬ lettered.ScrolledUp t := by
  refine ⟨⟨_, scrollDown_eq _, fun h => ?_⟩, _, scrollUp_eq _, fun h => ?_⟩
  · exact absurd ((h 0 (by simp)).1 0 (by simp)) (by decide)
  · exact absurd ((h 0 (by simp)).1 1 (by simp)) (by decide)

/-- The display has its cursor where the driver has it. -/
def Settled (d : TxtModeDriver) : Prop := d.location = d.column + d.row * 80

/-! ### What can be seen -/

structure Shows (d : TxtModeDriver) (s : Screen 25 80 UInt8) : Prop where
  row : d.row.toNat = s.row
  column : d.column.toNat = s.column
  cell : ∀ y x, char (d.cells (x.val + y.val * 80)) = s.cell y x

lemma shows_screen (h : d.OnScreen) : d.Shows (d.screen h) := ⟨rfl, rfl, fun _ _ => rfl⟩

section

variable (h : d.Shows s)

include h

lemma Shows.exists_screen : ∃ hd : d.OnScreen, d.screen hd = s := by
  obtain ⟨row, column, cell⟩ := s
  have hrow : d.row.toNat = row := h.row
  have hcolumn : d.column.toNat = column := h.column
  refine ⟨⟨hrow ▸ row.isLt, hcolumn ▸ column.isLt⟩, ?_⟩
  exact (Screen.mk.injEq ..).mpr ⟨Fin.ext hrow, Fin.ext hcolumn, funext fun y => funext fun x => h.cell y x⟩

lemma Shows.updateCursor : d.updateCursor.Shows s := ⟨h.row, h.column, h.cell⟩

lemma scrollDown_shows : ∃ t, d.scrollDown = some t ∧ t.Shows (s.scroll blank) ∧ t.Settled := by
  refine ⟨_, scrollDown_eq d, ⟨h.row, h.column, fun y x => ?_⟩, rfl⟩
  have hscroll : (s.scroll blank).cell y x =
      if h : y.val + 1 < 25 then s.cell ⟨y + 1, h⟩ x else blank := rfl
  rw [hscroll]
  show char (moved _ _ _ _ _ _ _) = _
  by_cases hlast : y.val + 1 < 25
  · have hbelow : char (d.cells (x.val + (y.val + 1) * 80)) = s.cell ⟨y + 1, hlast⟩ x := h.cell ⟨y + 1, hlast⟩ x
    rw [moved_down (by omega) (by omega), char_generateEntry, dif_pos hlast, hbelow]
  · rw [moved, if_pos (by omega), char_generateEntry, dif_neg hlast]
    rfl

lemma nextLine_shows : ∃ t, (if 25 ≤ d.row + 1 then { d with row := d.row + 1 - 1, column := 0 }.scrollDown
      else some { d with row := d.row + 1, column := 0 }.updateCursor) = some t ∧
      t.Shows (s.nextLine blank) ∧ t.Settled := by
  have hrow := h.row
  have hnext : (d.row + 1).toNat = d.row.toNat + 1 := by
    rw [UInt16.toNat_add, UInt16.toNat_one]
    omega
  have hreturn : { d with column := 0 }.Shows s.carriageReturn := ⟨h.row, rfl, h.cell⟩
  by_cases hlast : s.row.val + 1 < 25
  · have hle : ¬ (25 : UInt16) ≤ d.row + 1 := by
      rw [le_iff_toNat_le, hnext]
      show ¬ 25 ≤ _
      omega
    rw [if_neg hle, nextLine, dif_pos hlast]
    exact ⟨_, rfl, ⟨hnext.trans (by rw [hrow]), rfl, h.cell⟩, rfl⟩
  · have hle : (25 : UInt16) ≤ d.row + 1 := by
      rw [le_iff_toNat_le, hnext]
      show 25 ≤ _
      omega
    have hback : d.row + 1 - 1 = d.row := by rw [UInt16.add_sub_cancel]
    rw [if_pos hle, hback, nextLine, dif_neg hlast]
    exact scrollDown_shows hreturn

lemma advanceCharacter_shows :
    ∃ t, d.advanceCharacter = some t ∧ t.Shows (s.moveTo blank (s.column + 1)) ∧ t.Settled := by
  have hcolumn := h.column
  have hnext : (d.column + 1).toNat = d.column.toNat + 1 := by
    rw [UInt16.toNat_add, UInt16.toNat_one]
    omega
  have hle : 80 ≤ d.column + 1 ↔ ¬ s.column.val + 1 < 80 := by
    rw [le_iff_toNat_le, hnext, hcolumn]
    show 80 ≤ _ ↔ _
    omega
  unfold advanceCharacter
  by_cases hend : s.column.val + 1 < 80
  · simp only [if_neg (mt hle.1 (not_not_intro hend))]
    rw [moveTo, dif_pos hend]
    exact ⟨_, rfl, ⟨h.row, hnext.trans (by rw [hcolumn]), h.cell⟩, rfl⟩
  · simp only [if_pos (hle.2 hend)]
    rw [moveTo, dif_neg hend]
    exact nextLine_shows h

lemma setChar_shows (c : UInt8) : ∃ t, d.setChar c = some t ∧
    t.Shows { s with cell := fun y x => if y = s.row ∧ x = s.column then c else s.cell y x } := by
  rw [setChar, h.row, h.column, store, if_pos (by omega)]
  refine ⟨_, rfl, h.row, h.column, fun y x => ?_⟩
  by_cases hcell : y = s.row ∧ x = s.column
  · obtain ⟨rfl, rfl⟩ := hcell
    simp only [if_true]
    exact char_generateEntry d c
  · have hne : ¬ x.val + y.val * 80 = s.column.val + s.row.val * 80 := by
      intro heq
      exact hcell ⟨Fin.ext (by omega), Fin.ext (by omega)⟩
    simp only [if_neg hcell, if_neg hne]
    exact h.cell y x

lemma put_shows (c : UInt8) : ∃ t, (do
    let d ← d.setChar c
    d.advanceCharacter) = some t ∧ t.Shows (s.put blank c) ∧ t.Settled := by
  obtain ⟨t, ht, hcell⟩ := setChar_shows h c
  rw [ht]
  exact advanceCharacter_shows hcell

lemma backspace_shows : ∃ t, (if 0 < d.column then some { d with column := d.column - 1 }.updateCursor
      else if 0 < d.row then some { d with row := d.row - 1, column := 79 }.updateCursor
      else some d.updateCursor) = some t ∧ t.Shows s.backspace ∧ t.Settled := by
  have hrow := h.row
  have hcolumn := h.column
  rw [backspace]
  by_cases hleft : 0 < s.column.val
  · have hpos : 0 < d.column := lt_iff_toNat_lt.2 (by rw [hcolumn]; exact hleft)
    have hprev : (d.column - 1).toNat = d.column.toNat - 1 :=
      UInt16.toNat_sub_of_le _ _ (UInt16.le_iff_toNat_le.2 (by rw [hcolumn]; exact hleft))
    rw [if_pos hpos, if_pos hleft]
    exact ⟨_, rfl, ⟨hrow, hprev.trans (by rw [hcolumn]), h.cell⟩, rfl⟩
  · have hpos : ¬ 0 < d.column := fun hlt => hleft (hcolumn ▸ lt_iff_toNat_lt.1 hlt)
    rw [if_neg hpos, if_neg hleft]
    by_cases hup : 0 < s.row.val
    · have hpos : 0 < d.row := lt_iff_toNat_lt.2 (by rw [hrow]; exact hup)
      have hprev : (d.row - 1).toNat = d.row.toNat - 1 :=
        UInt16.toNat_sub_of_le _ _ (UInt16.le_iff_toNat_le.2 (by rw [hrow]; exact hup))
      rw [if_pos hpos, if_pos hup]
      exact ⟨_, rfl, ⟨hprev.trans (by rw [hrow]), rfl, h.cell⟩, rfl⟩
    · have hpos : ¬ 0 < d.row := fun hlt => hup (hrow ▸ lt_iff_toNat_lt.1 hlt)
      rw [if_neg hpos, if_neg hup]
      exact ⟨_, rfl, h.updateCursor, rfl⟩

lemma tab_shows : ∃ t, (List.range (4 - d.column.toNat % 4)).foldlM (fun d _ => do
      let d ← d.setChar ' '.toUInt8
      d.advanceCharacter) d = some t ∧ t.Shows (s.tab blank 4) ∧ t.Settled := by
  rw [tab_eq_iterate (by omega) (by omega), ← h.column]
  obtain ⟨t, ht, hshows, hsettled⟩ := Loop.foldlM_range
    (P := fun i (t : TxtModeDriver) => t.Shows ((put blank blank)^[i] s) ∧ (0 < i → t.Settled))
    ⟨h, fun hlt => absurd hlt (Nat.lt_irrefl 0)⟩ (4 - d.column.toNat % 4)
    fun i _ t ⟨hshows, _⟩ => by
      rw [Function.iterate_succ_apply']
      obtain ⟨u, hu, hput, hsettled⟩ := put_shows hshows blank
      exact ⟨u, hu, hput, fun _ => hsettled⟩
  exact ⟨t, ht, hshows, hsettled (by omega)⟩

lemma writeChar_shows (c : UInt8) : ∃ t, d.writeChar c = some t ∧ t.Shows (typeByte s c) ∧ t.Settled := by
  unfold writeChar typeByte
  by_cases hnewline : c = '\n'.toUInt8
  · rw [if_pos hnewline, if_pos hnewline]
    exact nextLine_shows h
  rw [if_neg hnewline, if_neg hnewline]
  by_cases htab : c = '\t'.toUInt8
  · rw [if_pos htab, if_pos htab]
    exact tab_shows h
  rw [if_neg htab, if_neg htab]
  by_cases hreturn : c = '\r'.toUInt8
  · rw [if_pos hreturn, if_pos hreturn]
    exact ⟨_, rfl, ⟨h.row, rfl, h.cell⟩, rfl⟩
  rw [if_neg hreturn, if_neg hreturn]
  by_cases hback : c = 8
  · rw [if_pos hback, if_pos hback]
    exact backspace_shows h
  rw [if_neg hback, if_neg hback]
  exact put_shows h c

end

lemma write_cons (d : TxtModeDriver) (c : UInt8) (data : List UInt8) :
    d.write (c :: data) = (d.writeChar c).bind (·.write data) := List.foldlM_cons ..

lemma write_append (d : TxtModeDriver) (data more : List UInt8) :
    d.write (data ++ more) = (d.write data).bind (·.write more) := List.foldlM_append

lemma write_shows : ∀ (data : List UInt8) {d : TxtModeDriver} {s : Screen 25 80 UInt8}, d.Shows s →
    ∃ t, d.write data = some t ∧ t.Shows (typeBytes s data) ∧ (data ≠ [] → t.Settled)
  | [], d, _, h => ⟨d, rfl, h, fun hne => absurd rfl hne⟩
  | c :: data, d, s, h => by
    obtain ⟨t, ht, hshows, hsettled⟩ := writeChar_shows h c
    obtain ⟨u, hu, hshows', hsettled'⟩ := write_shows data hshows
    refine ⟨u, by rw [write_cons, ht]; exact hu, hshows', fun _ => ?_⟩
    rcases data with _ | ⟨c', data⟩
    · cases hu
      exact hsettled
    · exact hsettled' (List.cons_ne_nil c' data)

/-- After each byte of a text the screen and the cursor are those of a terminal. -/
theorem write_refines_terminal (d : TxtModeDriver) (h : d.OnScreen) (data : List UInt8) (n : ℕ) :
    ∃ t, ∃ ht : t.OnScreen, d.write (data.take n) = some t ∧ d.write data = t.write (data.drop n) ∧
      t.screen ht = typeBytes (d.screen h) (data.take n) ∧ (data.take n ≠ [] → t.Settled) := by
  obtain ⟨t, ht, hshows, hsettled⟩ := write_shows (data.take n) (shows_screen h)
  obtain ⟨honscreen, hscreen⟩ := hshows.exists_screen
  have hrest : d.write data = t.write (data.drop n) := by
    have happend := write_append d (data.take n) (data.drop n)
    rwa [List.take_append_drop, ht] at happend
  exact ⟨t, honscreen, ht, hrest, hscreen, hsettled⟩

def lastCell : TxtModeDriver := ⟨79, 24, 7, 0, false, fun _ => 0x0720, 0⟩

lemma lastCell_onScreen : lastCell.OnScreen := ⟨by decide, by decide⟩

theorem write_refines_terminal_scroll : (∃ t, ∃ ht : t.OnScreen, lastCell.write [0x61, 0x09, 0x08] = some t ∧
      t.screen ht = typeBytes (lastCell.screen lastCell_onScreen) [0x61, 0x09, 0x08] ∧ t.Settled) ∧
    (typeBytes (lastCell.screen lastCell_onScreen) [0x61, 0x09, 0x08]).cell 23 79 = 0x61 := by
  obtain ⟨t, ht, hwrite, -, hscreen, hsettled⟩ :=
    write_refines_terminal lastCell lastCell_onScreen [0x61, 0x09, 0x08] 3
  exact ⟨⟨t, ht, hwrite, hscreen, hsettled (List.cons_ne_nil _ _)⟩, by decide⟩

end OlliOS.TxtModeDriver
