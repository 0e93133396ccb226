import OlliOS.InterfaceFile
import OlliOS.Proofs.Printf

/-!
# Numbers that are printed and read again

The text of a number is a sign and digits that stand for its absolute value (`text_spelled`), and the
functions that read numbers add a digit in the same way.
-/

namespace OlliOS

open Numerals Option List InterfaceFile Parser
open Printf hiding next

variable {w : ℕ} {neg : Bool} {ds : List ℕ} {s : List UInt8}

lemma text_spelled (n : ℕ) (num : BitVec w) : ∃ neg ds, ds ≠ [] ∧ (∀ d ∈ ds, d < 10) ∧ denoted neg ds = num.toInt ∧
    IntConversion.d.text n num = (if neg then ['-'.toUInt8] else []) ++ ds.map decimal := by
  have hvalue : value (padded n 0 (numeral 10 id num.toInt.natAbs)) = num.toInt.natAbs := by
    rw [value_padded, value_numeral]
  refine ⟨decide (num.toInt < 0), padded n 0 (numeral 10 id num.toInt.natAbs), ?_, fun d hd => ?_, ?_, ?_⟩
  · exact append_ne_nil_of_right_ne_nil _ (numeral_ne_nil _ _ _)
  · rcases mem_append.1 hd with hd | hd
    · rw [eq_of_mem_replicate hd]
      omega
    · obtain ⟨e, he, rfl⟩ := mem_numeral (by omega) hd
      exact he
  · rw [denoted, hvalue]
    split_ifs with h <;> simp only [decide_eq_true_eq] at h <;> omega
  · rw [map_padded, map_numeral]
    simp only [decide_eq_true_eq]
    rfl

lemma ofInt_denoted : BitVec.ofInt w (denoted neg ds) =
    if neg then -BitVec.ofNat w (value ds) else BitVec.ofNat w (value ds) := by
  unfold denoted
  split_ifs
  · rw [BitVec.ofInt_neg, BitVec.ofInt_natCast]
  · rw [BitVec.ofInt_natCast]

lemma decimal_spec : ∀ d < 10, (decimal d - '0'.toUInt8).toNat = d ∧ isspace (decimal d) = false ∧
    decimal d ≠ 0 ∧ decimal d ≠ '-'.toUInt8 ∧ decimal d ≠ '+'.toUInt8 ∧ ¬ Blank (decimal d) ∧
    '0'.toUInt8 ≤ decimal d ∧ decimal d ≤ '9'.toUInt8 ∧
    (decimal d).toInt8.toInt32.toUInt32 - 48 = UInt32.ofNat d := by
  unfold Blank
  decide

lemma exists_decimal {c : UInt8} (h : '0'.toUInt8 ≤ c ∧ c ≤ '9'.toUInt8) : ∃ d < 10, decimal d = c := by
  refine ⟨(c - '0'.toUInt8).toNat, ?_, ?_⟩
  · have hle : c.toNat ≤ 57 := UInt8.le_iff_toNat_le.1 h.2
    rw [UInt8.toNat_sub_of_le _ _ h.1]
    show c.toNat - 48 < 10
    omega
  · rw [decimal, UInt8.ofNat_toNat, UInt8.add_comm, UInt8.sub_add_cancel]

/-! ### `strtol` and `atoi` -/

lemma read_digits {β : Type*} {f : UInt32 → List UInt8 → β}
    (hf : ∀ r d str, d < 10 → f r (decimal d :: str) = f (r * 10 + .ofNat d) str) (str : List UInt8) :
    ∀ (ds : List ℕ) (v : ℕ), (∀ d ∈ ds, d < 10) →
      f (.ofNat v) (ds.map decimal ++ str) = f (.ofNat (ds.foldl (fun n d => n * 10 + d) v)) str
  | [], _, _ => rfl
  | d :: ds, v, h => by
    obtain ⟨hd, hds⟩ := forall_mem_cons.1 h
    have hnext : UInt32.ofNat v * 10 + .ofNat d = .ofNat (v * 10 + d) := by
      rw [UInt32.ofNat_add, UInt32.ofNat_mul]
      rfl
    rw [map_cons, cons_append, hf _ _ _ hd, hnext]
    exact read_digits hf str ds (v * 10 + d) hds

lemma sign_spelled (hne : ds ≠ []) (hds : ∀ d ∈ ds, d < 10) {blanks : List UInt8} (hblanks : ∀ c ∈ blanks, isspace c = true)
    (str : List UInt8) :
    Strtol.sign ((blanks ++ (((if neg then ['-'.toUInt8] else []) ++ ds.map decimal) ++ str)).dropWhile isspace) =
      some (!neg, ds.map decimal ++ str) := by
  rw [dropWhile_append_of_pos hblanks]
  cases neg with
  | true => rfl
  | false =>
    obtain ⟨d, ds, rfl⟩ := exists_cons_of_ne_nil hne
    obtain ⟨-, hspace, -, hminus, hplus, -⟩ := decimal_spec d (hds d mem_cons_self)
    simp [Strtol.sign, hspace, hminus, hplus]

/-- `strtol` and `atoi` get the number back that was printed with any precision, behind any white space. -/
theorem strtol_atoi_sprintf (n : UInt32) (precision : List (Fin 10)) (blanks rest : List UInt8)
    (hblanks : ∀ c ∈ blanks, isspace c = true) : ∃ text r,
      sprintf (Directive.conversion (some precision) (.integer false .d)).format [.word n] = some (text ++ [0], r) ∧
      strtol (blanks ++ (text ++ 0 :: rest)) 10 = some (n, 0 :: rest) ∧
      atoi (blanks ++ (text ++ 0 :: rest)) = some n := by
  obtain ⟨neg, ds, hne, hds, hdenoted, htext⟩ :=
    text_spelled (effective (Directive.places (some precision))) n.toBitVec
  have hrender : Directive.renderWith effective [.conversion (some precision) (.integer false .d)] [.word n] =
      some ((if neg then ['-'.toUInt8] else []) ++ ds.map decimal) := by
    simp [Directive.renderWith, Conversion.text, htext]
  have hnum : (if (!neg) = true then UInt32.ofNat (value ds) else -UInt32.ofNat (value ds)) = n := by
    have h := @ofInt_denoted 32 neg ds
    rw [hdenoted, BitVec.ofInt_toInt] at h
    refine UInt32.toBitVec_inj.1 (Eq.trans ?_ h.symm)
    cases neg <;> rfl
  have hprint := sprintf_plain (by simp) hrender
  rw [flatMap_singleton] at hprint
  refine ⟨_, _, hprint, ?_, ?_⟩
  · have hloop := read_digits (f := Strtol.digits 10 '9'.toUInt8) (fun r d str hd => ?_) (0 :: rest) ds 0 hds
    · rw [strtol, sign_spelled hne hds hblanks]
      show (Strtol.digits 10 '9'.toUInt8 (.ofNat 0) _).bind _ = _
      rw [hloop]
      exact congrArg some (Prod.ext hnum rfl)
    · obtain ⟨hsub, -, -, -, -, -, hlow, hhigh, -⟩ := decimal_spec d hd
      rw [Strtol.digits, if_pos ⟨hlow, hhigh⟩, ← UInt32.ofNat_uInt8ToNat, hsub]
  · have hloop := read_digits (f := Atoi.digits) (fun r d str hd => ?_) (0 :: rest) ds 0 hds
    · rw [atoi, sign_spelled hne hds hblanks]
      show (Atoi.digits (.ofNat 0) _).bind _ = _
      rw [hloop]
      exact congrArg some hnum
    · obtain ⟨-, -, hzero, -, -, -, -, -, hsub⟩ := decimal_spec d hd
      rw [Atoi.digits, if_pos hzero, hsub]

theorem strtol_atoi_sprintf_least : ∃ text r,
    sprintf (Directive.conversion (some [1, 0]) (.integer false .d)).format [.word 0x80000000] = some (text ++ [0], r) ∧
    strtol ([9, 32] ++ (text ++ [0])) 10 = some (0x80000000, [0]) ∧ atoi ([9, 32] ++ (text ++ [0])) = some 0x80000000 :=
  strtol_atoi_sprintf _ _ _ _ (by simp; decide)

/-! ### The parser of a number file -/

namespace InterfaceFile

variable {p p' : Parser w} {v : BitVec w} {c : UInt8}

lemma next_blank (hc : Blank c) : p.next c = some { p with finished := p.finished || p.parsedAnything } := by
  have hminus : c ≠ '-'.toUInt8 := by
    rintro rfl
    revert hc
    unfold Blank
    decide
  unfold Blank at hc
  rw [Parser.next, if_neg hminus, if_pos hc]
  obtain ⟨_, anything, _, _⟩ := p
  cases anything <;> simp

lemma next_decimal {d : ℕ} (hd : d < 10) (hp : p.finished = false) :
    p.next (decimal d) = some { p with parsedAnything := true, parsed := p.parsed * 10 + BitVec.ofNat w d } := by
  obtain ⟨hsub, -, -, hminus, -, hblank, hlow, hhigh, -⟩ := decimal_spec d hd
  unfold Blank at hblank
  rw [Parser.next, if_neg hminus, if_neg hblank, if_pos ⟨hlow, hhigh⟩, hp, hsub]
  rfl

lemma run_blanks : ∀ {s : List UInt8} {p : Parser w}, (∀ c ∈ s, Blank c) →
    ∃ p', s.foldlM next p = some p' ∧ p'.parsed = p.parsed ∧ p'.isMin = p.isMin ∧ (p.parsedAnything = false → p' = p)
  | [], p, _ => ⟨p, rfl, rfl, rfl, fun _ => rfl⟩
  | c :: s, p, h => by
    obtain ⟨hc, hs⟩ := forall_mem_cons.1 h
    obtain ⟨p', hrun, hparsed, hmin, hsame⟩ :=
      run_blanks (p := { p with finished := p.finished || p.parsedAnything }) hs
    refine ⟨p', ?_, hparsed, hmin, fun hp => ?_⟩
    · rwa [foldlM_cons, next_blank hc]
    · obtain ⟨_, _, _, _⟩ := p
      obtain rfl : _ = false := hp
      rw [hsame rfl, Bool.or_false]

lemma run_digits : ∀ {ds : List ℕ} {p : Parser w} {v : ℕ}, (∀ d ∈ ds, d < 10) → p.finished = false →
    p.parsed = BitVec.ofNat w v → ∃ p', (ds.map decimal).foldlM next p = some p' ∧ p'.isMin = p.isMin ∧
      p'.parsed = BitVec.ofNat w (ds.foldl (fun n d => n * 10 + d) v)
  | [], p, v, _, _, hv => ⟨p, rfl, rfl, hv⟩
  | d :: ds, p, v, h, hp, hv => by
    obtain ⟨hd, hds⟩ := forall_mem_cons.1 h
    obtain ⟨p', hrun, hmin, hparsed⟩ := run_digits (v := v * 10 + d)
      (p := { p with parsedAnything := true, parsed := p.parsed * 10 + BitVec.ofNat w d }) hds hp
      (by rw [hv, BitVec.ofNat_add, BitVec.ofNat_mul]; rfl)
    refine ⟨p', ?_, hmin, hparsed⟩
    rwa [map_cons, foldlM_cons, next_decimal hd hp]

lemma Spells.run (h : Spells s neg ds) :
    ∃ p : Parser w, s.foldlM next init = some p ∧ p.isMin = neg ∧ p.parsed = BitVec.ofNat w (value ds) := by
  obtain ⟨before, after, hbefore, hafter, rfl⟩ := h.text
  obtain ⟨p, hblanks, -, -, hinit⟩ := run_blanks (w := w) (p := init) hbefore
  obtain rfl := hinit rfl
  have hsign : (if neg then ['-'.toUInt8] else []).foldlM next (init) =
      some { (init : Parser w) with parsedAnything := neg, isMin := neg } := by
    cases neg <;> rfl
  obtain ⟨p, hdigits, hmin, hparsed⟩ := run_digits
    (p := { (init : Parser w) with parsedAnything := neg, isMin := neg }) h.digits rfl rfl
  obtain ⟨q, hlast, hparsed', hmin', -⟩ := run_blanks hafter
  refine ⟨q, ?_, hmin'.trans hmin, hparsed'.trans hparsed⟩
  simp [hblanks, hsign, hdigits, hlast]

/-- What the parser has made of a text: how far it has come in the number is what its flags say. -/
structure ParsedTo (s : List UInt8) (p : Parser w) (before : List UInt8) (ds : List ℕ) (after : List UInt8) : Prop where
  digits : ∀ d ∈ ds, d < 10
  before_blank : ∀ c ∈ before, Blank c
  after_blank : ∀ c ∈ after, Blank c
  text : s = before ++ ((if p.isMin then ['-'.toUInt8] else []) ++ (ds.map decimal ++ after))
  anything : p.parsedAnything = false → p.isMin = false ∧ ds = [] ∧ after = []
  finished : p.finished = false → after = []

lemma ParsedTo.next {before after : List UInt8} (h : ParsedTo s p before ds after) (hc : p.next c = some p') :
    ∃ before ds after, ParsedTo (s ++ [c]) p' before ds after := by
  have htext := h.text
  unfold Parser.next at hc
  split_ifs at hc with hminus hany hblank hany hdigit hfin
  · obtain ⟨hmin, rfl, rfl⟩ := h.anything (by simpa using hany)
    cases hc
    refine ⟨before, [], [], by simp, h.before_blank, by simp, ?_, by simp, fun _ => rfl⟩
    simp [htext, hmin, hminus]
  · cases hc
    refine ⟨before, ds, after ++ [c], h.digits, h.before_blank, ?_, ?_, by simp [hany], by simp⟩
    · exact forall_mem_append.2 ⟨h.after_blank, forall_mem_singleton.2 hblank⟩
    · simp [htext]
  · obtain ⟨hmin, rfl, rfl⟩ := h.anything (by simpa using hany)
    cases hc
    refine ⟨before ++ [c], [], [], by simp, ?_, by simp, ?_, h.anything, fun _ => rfl⟩
    · exact forall_mem_append.2 ⟨h.before_blank, forall_mem_singleton.2 hblank⟩
    · simp [htext, hmin]
  · cases hc
    obtain ⟨d, hd, rfl⟩ := exists_decimal hdigit
    obtain rfl := h.finished (by simpa using hfin)
    refine ⟨before, ds ++ [d], [], ?_, h.before_blank, by simp, ?_, by simp, fun _ => rfl⟩
    · exact forall_mem_append.2 ⟨h.digits, forall_mem_singleton.2 hd⟩
    · simp [htext]

lemma exists_parsedTo : ∀ (s : List UInt8) {p : Parser w}, s.foldlM next init = some p →
    ∃ before ds after, ParsedTo s p before ds after := by
  intro s
  induction s using List.reverseRecOn with
  | nil =>
    intro p hp
    cases hp
    exact ⟨[], [], [], by simp, by simp, by simp, rfl, fun _ => ⟨rfl, rfl, rfl⟩, fun _ => rfl⟩
  | append_singleton s c ih =>
    intro p hp
    rw [foldlM_append] at hp
    obtain ⟨q, hq, hp⟩ := bind_eq_some_iff.1 hp
    obtain ⟨before, ds, after, h⟩ := ih hq
    exact h.next ((bind_pure _).symm.trans hp)

variable {value : ℕ → UInt8} {length : UInt32}

lemma parse_eq_some_iff : parse value length = some v ↔
    ∃ neg ds, Spells (bytes value length) neg ds ∧ v = BitVec.ofInt w (denoted neg ds) := by
  have hvalue {neg : Bool} {ds : List ℕ} {p : Parser w} (hmin : p.isMin = neg)
      (hparsed : p.parsed = BitVec.ofNat w (Numerals.value ds)) :
      (if p.isMin then -p.parsed else p.parsed) = BitVec.ofInt w (denoted neg ds) := by
    rw [ofInt_denoted, hmin, hparsed]
  constructor
  · intro h
    obtain ⟨p, hp, hv⟩ := bind_eq_some_iff.1 h
    obtain ⟨before, ds, after, hto⟩ := exists_parsedTo _ hp
    have hspells : Spells (bytes value length) p.isMin ds :=
      ⟨hto.digits, before, after, hto.before_blank, hto.after_blank, hto.text⟩
    obtain ⟨q, hq, hmin, hparsed⟩ := hspells.run
    cases hp.symm.trans hq
    exact ⟨_, ds, hspells, (some.inj hv).symm.trans (hvalue hmin hparsed)⟩
  · rintro ⟨neg, ds, h, rfl⟩
    obtain ⟨p, hp, hmin, hparsed⟩ := h.run
    rw [parse, hp]
    exact congrArg some (hvalue hmin hparsed)

lemma Spells.no_digits (h : Spells s neg []) (h' : Spells s neg' ds) : ds = [] := by
  obtain ⟨before, after, hbefore, hafter, htext⟩ := h.text
  obtain ⟨before', after', -, -, htext'⟩ := h'.text
  by_contra hne
  obtain ⟨d, ds, rfl⟩ := exists_cons_of_ne_nil hne
  obtain ⟨-, -, -, hminus, -, hblank, -⟩ := decimal_spec d (h'.digits d mem_cons_self)
  have hmem : decimal d ∈ s := by simp [htext']
  rw [htext] at hmem
  simp only [map_nil, nil_append, mem_append] at hmem
  rcases hmem with hmem | hmem | hmem
  · exact hblank (hbefore _ hmem)
  · cases neg
    · simp at hmem
    · exact hminus (mem_singleton.1 hmem)
  · exact hblank (hafter _ hmem)

section Files

variable {C : Type} {toInt : BitVec w → ℤ} {get : C → BitVec w} {set : C → BitVec w → C} {c : C} {pos : UInt32}

lemma write_readWriteData : (readWriteData toInt get set).write value length pos c =
    if pos = 0 then (parse value length).elim (some (c, 0)) fun v => some (set c v, toI32 length)
    else some (c, 0) := by
  unfold InterfaceFile.write
  by_cases hpos : pos = 0
  · rw [if_pos (.inl hpos), if_pos hpos]
    rcases hparse : parse value length with _ | v <;>
      simp only [readWriteData, hparse, elim_none, elim_some]
  · rw [if_neg hpos]
    exact if_neg fun h => h.elim hpos nofun

lemma Spells.write (h : Spells (bytes value length) neg ds) : (readWriteData toInt get set).write value length 0 c =
    some (set c (BitVec.ofInt w (denoted neg ds)), toI32 length) := by
  rw [write_readWriteData, if_pos rfl, parse_eq_some_iff.2 ⟨neg, ds, h, rfl⟩]
  rfl

end Files

/-- Exactly the numbers are accepted, but for the texts without a digit, which are taken for 0. -/
theorem number_file_accepts_iff (w : ℕ) (value : ℕ → UInt8) (length : UInt32) :
    AcceptsNumbers w value length ↔ ¬ ∃ neg, Spells (bytes value length) neg [] := by
  constructor
  · rintro h ⟨neg, hempty⟩
    have hrejected := (h Bool (fun _ => 0) (fun _ => 0) (fun c _ => !c) false).2
      fun ⟨_, _, hspells, hne⟩ => hne (hempty.no_digits hspells)
    rw [hempty.write] at hrejected
    exact absurd (congrArg Prod.fst (some.inj hrejected)) (by simp)
  · intro hdigits C toInt get set c
    refine ⟨fun neg ds hspells _ => hspells.write, fun hno => ?_⟩
    rcases hparse : parse value length with _ | v
    · rw [write_readWriteData, if_pos rfl, hparse]
      rfl
    · obtain ⟨neg, ds, hspells, -⟩ := parse_eq_some_iff.1 hparse
      rcases eq_or_ne ds [] with rfl | hne
      · exact absurd ⟨neg, hspells⟩ hdigits
      · exact absurd ⟨neg, ds, hspells, hne⟩ hno

/-- Nothing and a lone `-` are taken for 0. -/
theorem number_file_accepts_no_digits : ¬ AcceptsNumbers 16 (fun _ => '-'.toUInt8) 0 ∧
    ¬ AcceptsNumbers 16 (fun _ => '-'.toUInt8) 1 := by
  have hempty {length : UInt32} (neg : Bool) (hspells : Spells (bytes (fun _ => '-'.toUInt8) length) neg []) :
      ¬ AcceptsNumbers 16 (fun _ => '-'.toUInt8) length := by
    intro h
    have hrejected := (h Bool (fun _ => 0) (fun _ => 0) (fun c _ => !c) false).2
      fun ⟨_, _, hspells', hne⟩ => hne (hspells.no_digits hspells')
    rw [hspells.write] at hrejected
    exact absurd (congrArg Prod.fst (some.inj hrejected)) (by simp)
  exact ⟨hempty false ⟨by simp, [], [], by simp, by simp, rfl⟩, hempty true ⟨by simp, [], [], by simp, by simp, rfl⟩⟩

/-! ### The text of a number file -/

section Print

variable {n : ℤ} (hlow : -2 ^ 31 ≤ n) (hhigh : n < 2 ^ 31)
include hlow hhigh

/-- The text does not fit in the local buffer if it has a sign and ten digits. -/
theorem print_eq (length : UInt32) : ∃ neg ds, (∀ d ∈ ds, d < 10) ∧ denoted neg ds = n ∧
    ∃ text, text = (if neg then ['-'.toUInt8] else []) ++ (ds.map decimal ++ ['\n'.toUInt8]) ∧
      (12 < text.length + 1 ↔ n ≤ -10 ^ 9) ∧ print n length = if 12 < text.length + 1 then none
        else some (if length.toNat ≤ text.length then ([], 0) else (text ++ [0], (text.length : ℤ))) := by
  have hn : (BitVec.ofInt 32 n).toInt = n := BitVec.toInt_ofInt_eq_self (by omega) hlow hhigh
  obtain ⟨neg, ds, -, hds, hdenoted, htext⟩ := text_spelled 0 (BitVec.ofInt 32 n)
  have hrender : Directive.renderWith effective [.conversion none (.integer false .d), .ordinary '\n'.toUInt8 (by decide)]
      [.word ⟨BitVec.ofInt 32 n⟩] = some ((if neg then ['-'.toUInt8] else []) ++ (ds.map decimal ++ ['\n'.toUInt8])) := by
    simp [Directive.renderWith, Conversion.text, Directive.places, effective, htext]
  have hprint := sprintf_plain (by simp) hrender
  have hzero : 0 ∉ (if neg then ['-'.toUInt8] else []) ++ (ds.map decimal ++ ['\n'.toUInt8]) := by
    intro hmem
    rcases mem_append.1 hmem with hmem | hmem
    · cases neg <;> revert hmem <;> decide
    rcases mem_append.1 hmem with hmem | hmem
    · obtain ⟨d, hd, hzero⟩ := mem_map.1 hmem
      exact (decimal_spec d (hds d hd)).2.2.1 hzero
    · revert hmem
      decide
  refine ⟨neg, ds, hds, hdenoted.trans hn, _, rfl, ?_, ?_⟩
  · have hlength := congrArg List.length htext
    have hnine := length_numeral_le_iff (n := n.natAbs) (k := 9) decimal (by omega : 1 < 10) (by omega)
    have hten := length_numeral_le_iff (n := n.natAbs) (k := 10) decimal (by omega : 1 < 10) (by omega)
    simp only [IntConversion.text, hn, length_append, length_padded, length_map] at hlength
    simp only [length_append, length_map, length_singleton]
    split_ifs at hlength ⊢ <;> simp only [length_cons, length_nil] at hlength ⊢ <;> omega
  · show (sprintf ([.conversion none (.integer false .d), .ordinary '\n'.toUInt8 (by decide)].flatMap Directive.format)
      [.word ⟨BitVec.ofInt 32 n⟩]).bind _ = _
    rw [hprint]
    generalize (if neg then ['-'.toUInt8] else []) ++ (ds.map decimal ++ ['\n'.toUInt8]) = text at hzero ⊢
    show (if 12 < (text ++ [0]).length then none else (cstr (text ++ [0])).bind _) = _
    rw [length_append, cstr_append hzero]
    rfl

lemma print_isSome (h : -10 ^ 9 < n) (length : UInt32) : ∃ r, print n length = some r := by
  obtain ⟨_, _, _, _, text, -, hfits, hprint⟩ := print_eq hlow hhigh length
  exact ⟨_, hprint.trans (if_neg fun hlong => absurd (hfits.1 hlong) (by omega))⟩

lemma print_eq_none (h : n ≤ -10 ^ 9) (length : UInt32) : print n length = none := by
  obtain ⟨_, _, _, _, text, -, hfits, hprint⟩ := print_eq hlow hhigh length
  rw [hprint, if_pos (hfits.2 h)]

end Print

lemma roundTrips_iff {toInt : BitVec w → ℤ} (hlow : -2 ^ 31 ≤ toInt v) (hhigh : toInt v < 2 ^ 31)
    (hv : BitVec.ofInt w (toInt v) = v) : RoundTrips toInt v ↔ -10 ^ 9 < toInt v := by
  constructor
  · intro h
    by_contra hlong
    obtain ⟨text, n, hread, -⟩ := h (BitVec w) id (fun _ v => v) v 13 rfl (by decide)
    have hnone : (readWriteData toInt id fun _ v => v).read 13 0 v = none :=
      (if_pos (.inl rfl)).trans (print_eq_none hlow hhigh (by omega) 13)
    cases hnone.symm.trans hread
  · rintro h C get set c length rfl hlength
    obtain ⟨neg, ds, hds, hdenoted, text, htext, hfits, hprint⟩ := print_eq hlow hhigh length
    have hshort : ¬ 12 < text.length + 1 := fun hlong => absurd (hfits.1 hlong) (by omega)
    rw [if_neg hshort, if_neg (by omega)] at hprint
    refine ⟨_, _, (if_pos (.inl rfl)).trans hprint, fun value written c' hwritten hbytes => ?_⟩
    have hsame : bytes value written = text := by
      have hlen : (bytes value written).length = text.length := by
        rw [bytes, length_map, length_range]
        omega
      exact (prefix_of_prefix_length_le hbytes (prefix_append _ _) hlen.le).eq_of_length hlen
    have hspells : Spells (bytes value written) neg ds :=
      ⟨hds, [], ['\n'.toUInt8], by simp, by simp [Blank], hsame.trans htext⟩
    have hreturn : toI32 written = text.length := by
      rw [toI32, BitVec.toInt_eq_toNat_of_lt]
      · exact hwritten
      · show 2 * written.toNat < _
        omega
    rw [hspells.write, hdenoted, hv, hreturn]

/-- Every number comes back, but those that do not fit in the local buffer. -/
theorem number_file_round_trips (i : BitVec 8) (u : BitVec 16) (v : BitVec 32) : RoundTrips BitVec.toInt i ∧
    RoundTrips (fun u => (u.toNat : ℤ)) u ∧ (RoundTrips BitVec.toInt v ↔ -10 ^ 9 < v.toInt) := by
  refine ⟨?_, ?_, ?_⟩
  · have hlow := i.le_toInt
    have hhigh := i.toInt_lt
    exact (roundTrips_iff (by omega) (by omega) BitVec.ofInt_toInt).2 (by omega)
  · refine (roundTrips_iff (by omega) (by omega) ?_).2 (by omega)
    rw [BitVec.ofInt_natCast, BitVec.ofNat_toNat, BitVec.setWidth_eq]
  · exact roundTrips_iff v.le_toInt v.toInt_lt BitVec.ofInt_toInt

/-- `-1000000000` is printed with 13 bytes. -/
theorem number_file_overrun : ¬ RoundTrips BitVec.toInt (BitVec.ofInt 32 (-1000000000)) := by
  intro h
  have htoInt : (BitVec.ofInt 32 (-1000000000)).toInt = -1000000000 := rfl
  exact absurd ((roundTrips_iff (by omega) (by omega) BitVec.ofInt_toInt).1 h) (by omega)

end InterfaceFile

end OlliOS
