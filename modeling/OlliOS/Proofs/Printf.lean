import Mathlib.Tactic.FinCases
import OlliOS.Libk.Printf

/-!
# Formatted output means what the format says

A conversion starts with its own `%`, which resets the interpreter (`run_conversion`).
-/

namespace OlliOS.Printf

open Numerals Option List UInt32

variable {p : PrintfConfig} {k : Conversion} {ds : List Directive} {c : UInt8} {base w : ℕ}
  {digit : ℕ → UInt8} {f : ℕ → ℕ}

namespace PrintfConfig

def emit (p : PrintfConfig) (text : List UInt8) : PrintfConfig :=
  { p with target := p.target ++ text, written := p.written + UInt32.ofNat text.length }

lemma emit_emit (a b : List UInt8) : (p.emit a).emit b = p.emit (a ++ b) := by simp [emit, UInt32.add_assoc]

end PrintfConfig

lemma foldl_write : ∀ (text : List UInt8) (p : PrintfConfig), text.foldl write p = p.emit text
  | [], p => by simp [PrintfConfig.emit]
  | c :: text, p => by
    rw [foldl_cons, foldl_write text]
    exact p.emit_emit [c] text

/-! ### Numbers -/

lemma digits_eq (hbase : 1 < base) : ∀ {room num : ℕ}, 0 < room → num < base ^ room →
      digits base digit room num = some (numeral base digit num).reverse
  | room + 1, num, _, h => by
    rw [digits]
    rcases Nat.lt_or_ge num base with hlt | hle
    · rw [Nat.div_eq_of_lt hlt, if_neg (Nat.lt_irrefl 0), numeral_of_lt digit hlt, Nat.mod_eq_of_lt hlt]
      rfl
    have hdiv : num / base < base ^ room := by
      rwa [Nat.div_lt_iff_lt_mul (by omega), ← Nat.pow_succ]
    have hpos : 0 < num / base := Nat.div_pos hle (by omega)
    have hroom : 0 < room := by
      rcases Nat.eq_zero_or_pos room with rfl | hroom
      · rw [Nat.pow_zero] at hdiv
        omega
      · exact hroom
    rw [if_pos hpos, digits_eq hbase hroom hdiv, numeral_of_base_le digit hbase hle]
    simp

def effective (n : ℕ) : ℕ := (ofNat n).toInt32.toInt.toNat

lemma toInt_ofNat (n : ℕ) : (ofNat n).toInt32.toInt = Int.bmod n (2 ^ 32) := BitVec.toInt_ofNat' n

lemma toInt_ofNat_of_lt (h : n < 2 ^ 31) : (ofNat n).toInt32.toInt = n := by
  rw [toInt_ofNat, Int.bmod_def]
  split <;> omega

lemma effective_le (n : ℕ) : effective n ≤ n := by
  rw [effective, toInt_ofNat, Int.bmod_def]
  split <;> omega

lemma effective_of_lt (h : n < 2 ^ 31) : effective n = n := by
  rw [effective, toInt_ofNat_of_lt h, Int.toNat_natCast]

lemma printNumber_eq {room num : ℕ} (hbase : 1 < base) (hroom : 0 < room)
    (h : num < base ^ room) (hn : p.precision.toInt32.toInt.toNat = n) :
    printNumber base digit room p num = some (p.emit (padded n '0'.toUInt8 (numeral base digit num))) := by
  have hzeros (k : ℕ) : (p.precision.toInt32.toInt - k).toNat = n - k := by omega
  rw [printNumber, digits_eq hbase hroom h]
  simp only [Option.bind_eq_bind, Option.bind_some, length_reverse, reverse_reverse, foldl_write, hzeros]
  rfl

lemma text_signed (n : ℕ) (num : BitVec w) : IntConversion.d.text n num =
    if num.toInt < 0 then '-'.toUInt8 :: IntConversion.u.text n (-num) else IntConversion.u.text n num := by
  have hneg := num.toNat_neg
  have hint := num.toInt_eq_toNat_cond
  unfold IntConversion.text
  split at hint
  · have hnonneg : ¬ num.toInt < 0 := by omega
    have habs : num.toInt.natAbs = num.toNat := by omega
    rw [if_neg hnonneg, if_neg hnonneg, habs]
    rfl
  · have hlt : num.toInt < 0 := by omega
    rw [Nat.mod_eq_of_lt (by omega)] at hneg
    have habs : num.toInt.natAbs = (-num).toNat := by omega
    rw [if_pos hlt, if_pos hlt, habs]
    rfl

def Conversion.isLong : Conversion → Bool
  | integer long _ => long
  | _ => false

def IntConversion.short : IntConversion → PrintfConfig → UInt32 → Option PrintfConfig
  | d | i => printSigned
  | u => printUnsigned
  | x => printHexLower
  | X => printHexUpper

def IntConversion.long : IntConversion → PrintfConfig → UInt64 → Option PrintfConfig
  | d | i => printSignedLong
  | u => printUnsignedLong
  | x => printHexLowerLong
  | X => printHexUpperLong

variable {n : ℕ} (hn : p.precision.toInt32.toInt.toNat = n)
include hn

lemma printUnsigned_eq (num : UInt32) : printUnsigned p num = some (p.emit (IntConversion.u.text n num.toBitVec)) :=
  printNumber_eq (by omega) (by omega) (by have := num.toNat_lt; omega) hn

lemma printUnsignedLong_eq (num : UInt64) :
    printUnsignedLong p num = some (p.emit (IntConversion.u.text n num.toBitVec)) :=
  printNumber_eq (by omega) (by omega) (by have := num.toNat_lt; omega) hn

lemma printSigned_eq (num : UInt32) : printSigned p num = some (p.emit (IntConversion.d.text n num.toBitVec)) := by
  have hsign : num.toInt32 < 0 ↔ num.toBitVec.toInt < 0 := Int32.lt_iff_toInt_lt
  rw [printSigned, text_signed, printUnsigned_eq (p := write p _) hn, printUnsigned_eq hn]
  simp only [hsign]
  split_ifs
  · exact congrArg some (p.emit_emit ['-'.toUInt8] _)
  · rfl

lemma printSignedLong_eq (num : UInt64) :
    printSignedLong p num = some (p.emit (IntConversion.d.text n num.toBitVec)) := by
  have hsign : num.toInt64 < 0 ↔ num.toBitVec.toInt < 0 := Int64.lt_iff_toInt_lt
  rw [printSignedLong, text_signed, printUnsignedLong_eq (p := write p _) hn, printUnsignedLong_eq hn]
  simp only [hsign]
  split_ifs
  · exact congrArg some (p.emit_emit ['-'.toUInt8] _)
  · rfl

lemma short_eq (k : IntConversion) (num : UInt32) : k.short p num = some (p.emit (k.text n num.toBitVec)) := by
  have hnum : num.toNat < 16 ^ 8 := num.toNat_lt
  cases k with
  | d | i => exact printSigned_eq hn num
  | u => exact printUnsigned_eq hn num
  | x | X => exact printNumber_eq (by omega) (by omega) hnum hn

lemma long_eq (k : IntConversion) (num : UInt64) : k.long p num = some (p.emit (k.text n num.toBitVec)) := by
  have hnum : num.toNat < 16 ^ 16 := num.toNat_lt
  cases k with
  | d | i => exact printSignedLong_eq hn num
  | u => exact printUnsignedLong_eq hn num
  | x | X => exact printNumber_eq (by omega) (by omega) hnum hn

omit hn

/-! ### Directives -/

open Directive

variable {argp : List Arg}

lemma next_integer (hcmd : p.parsingCmd = true) (k : IntConversion) :
    next (p, argp) k.letter = convert k.short k.long (p, argp) := by
  cases k <;> simp [next, hcmd, IntConversion.letter] <;> rfl

lemma next_digit (hcmd : p.parsingCmd = true) (hprec : p.hasPrecision = true) (d : Fin 10) :
    next (p, argp) (decimal d) = some ({ p with precision := p.precision * 10 + ofNat d }, argp) := by
  fin_cases d <;> simp [next, hcmd, hprec, decimal] <;> rfl

lemma foldlM_digits : ∀ (ds : List (Fin 10)) {p : PrintfConfig} (n : ℕ), p.parsingCmd = true → p.hasPrecision = true →
    p.precision = ofNat n → ((ds.map Fin.val).map decimal).foldlM next (p, argp) =
      some ({ p with precision := ofNat ((ds.map Fin.val).foldl (fun n d => n * 10 + d) n) }, argp)
  | [], p, n, _, _, hn => by
    rw [map_nil, map_nil, foldl_nil, ← hn]
    rfl
  | d :: ds, p, n, hcmd, hprec, hn => by
    have hnext : p.precision * 10 + ofNat d = ofNat (n * 10 + d) := by
      rw [hn, ofNat_add, ofNat_mul]
      rfl
    rw [map_cons, map_cons, foldlM_cons, next_digit hcmd hprec, hnext]
    exact foldlM_digits ds (n * 10 + d) hcmd hprec rfl

def PrintfConfig.command (p : PrintfConfig) (precision : Option (List (Fin 10))) (long cmd : Bool) : PrintfConfig :=
  { p with
    width := -1, precision := precision.elim (-1) fun _ => ofNat (places precision)
    hasPrecision := precision.isSome, isLong := long, parsingCmd := cmd }

lemma effective_places (p : PrintfConfig) (precision : Option (List (Fin 10))) (long cmd : Bool) :
    (p.command precision long cmd).precision.toInt32.toInt.toNat = effective (places precision) := by
  cases precision with
  | none => rfl
  | some ds => rfl

lemma run_command (precision : Option (List (Fin 10))) :
    ('%'.toUInt8 :: precision.elim [] fun ds => '.'.toUInt8 :: (ds.map Fin.val).map decimal).foldlM next (p, argp) =
      some (p.command precision false true, argp) := by
  cases precision with
  | none => rfl
  | some ds =>
    exact foldlM_digits ds 0 rfl rfl rfl

lemma run_conversion (precision : Option (List (Fin 10))) (k : Conversion) :
    (conversion precision k).format.foldlM next (p, argp) = argp.head?.bind fun arg =>
      (k.text (effective (places precision)) arg).map fun text =>
        ((p.command precision k.isLong false).emit text, argp.tail) := by
  have hshort (long : Bool) := short_eq (effective_places p precision long true)
  have hlong (long : Bool) := long_eq (effective_places p precision long true)
  have hformat : (conversion precision k).format =
    ('%'.toUInt8 :: precision.elim [] fun ds => '.'.toUInt8 :: (ds.map Fin.val).map decimal) ++ k.letters := rfl
  rw [hformat, foldlM_append, run_command]
  cases k with
  | integer long k =>
    have hletters : (Conversion.integer long k).letters.foldlM next (p.command precision false true, argp) =
        convert k.short k.long (p.command precision long true, argp) := by
      cases long
      · exact (bind_pure _).trans (next_integer rfl k)
      · exact (bind_pure _).trans (next_integer rfl k)
    show (Conversion.integer long k).letters.foldlM next (p.command precision false true, argp) = _
    rw [hletters]
    rcases argp with _ | ⟨arg, argp⟩
    · rfl
    · cases long <;> cases arg <;> simp only [convert, hshort, hlong] <;> rfl
  | char => rcases argp with _ | ⟨_ | _ | _, argp⟩ <;> rfl
  | string =>
    rcases argp with _ | ⟨_ | _ | memory, argp⟩
    · rfl
    · rfl
    · rfl
    · show ((cstr memory).map fun text => _) >>= pure = (cstr memory).map _
      simp only [bind_pure, foldl_write]
      rfl

lemma next_cases {r : PrintfConfig × List Arg} (h : next (p, argp) c = some r) :
    r.2.length < argp.length ∨ r.2 = argp ∧ r.1.target.length ≤ p.target.length + 1 := by
  have hconvert {short : PrintfConfig → UInt32 → Option PrintfConfig} {long : PrintfConfig → UInt64 → Option PrintfConfig}
      (h : convert short long (p, argp) = some r) : r.2.length < argp.length := by
    rcases argp with _ | ⟨_ | _ | _, argp⟩ <;> simp only [convert, reduceCtorEq] at h
    all_goals
      split_ifs at h
      obtain ⟨q, -, h⟩ := Option.bind_eq_some_iff.1 h
      exact some.inj h ▸ Nat.lt_succ_self _
  have hsame {q : PrintfConfig} (h : some (q, argp) = some r) (hq : q.target = p.target) :
      r.2.length < argp.length ∨ r.2 = argp ∧ r.1.target.length ≤ p.target.length + 1 := by
    cases h
    exact .inr ⟨rfl, hq ▸ Nat.le_succ _⟩
  rcases ite_eq_iff.1 h with ⟨-, h⟩ | ⟨-, h⟩
  · exact hsame h rfl
  rcases ite_eq_iff.1 h with ⟨-, h⟩ | ⟨-, h⟩
  · cases h
    exact .inr ⟨rfl, by simp [write]⟩
  rcases ite_eq_iff.1 h with ⟨-, h⟩ | ⟨-, h⟩
  · exact hsame h rfl
  iterate 4
    rcases ite_eq_iff.1 h with ⟨-, h⟩ | ⟨-, h⟩
    · exact .inl (hconvert h)
  rcases ite_eq_iff.1 h with ⟨-, h⟩ | ⟨-, h⟩
  · rcases argp with _ | ⟨_ | _ | _, argp⟩ <;> simp only [convertChar, some.injEq, reduceCtorEq] at h
    exact .inl (h ▸ Nat.lt_succ_self _)
  rcases ite_eq_iff.1 h with ⟨-, h⟩ | ⟨-, h⟩
  · rcases argp with _ | ⟨_ | _ | _, argp⟩ <;> simp only [convertString, map_eq_some_iff, reduceCtorEq] at h
    obtain ⟨text, -, rfl⟩ := h
    exact .inl (Nat.lt_succ_self _)
  rcases ite_eq_iff.1 h with ⟨-, h⟩ | ⟨-, h⟩
  · exact hsame h rfl
  rcases ite_eq_iff.1 h with ⟨-, h⟩ | ⟨-, h⟩
  · rcases ite_eq_iff.1 h with ⟨-, h⟩ | ⟨-, h⟩ <;> exact hsame h rfl
  · exact hsame h rfl

/-! ### Formats -/

lemma length_le_of_foldlM_next : ∀ (cs : List UInt8) {s r : PrintfConfig × List Arg},
    cs.foldlM next s = some r → r.2.length ≤ s.2.length
  | [], s, r, h => by rw [some.inj h]
  | c :: cs, s, r, h => by
    obtain ⟨t, ht, h⟩ := Option.bind_eq_some_iff.1 h
    have hrest := length_le_of_foldlM_next cs h
    rcases next_cases ht with hlt | ⟨heq, -⟩
    · omega
    · rwa [heq] at hrest

lemma foldlM_ordinary {hc : c ≠ '%'.toUInt8 ∧ c ≠ 0} (s : PrintfConfig × List Arg) :
    (ordinary c hc).format.foldlM next s = next s c :=
  bind_pure _

def arity : List Directive → ℕ
  | [] => 0
  | conversion _ _ :: ds => arity ds + 1
  | _ :: ds => arity ds

lemma arity_le : ∀ (ds : List Directive) {s r : PrintfConfig × List Arg},
    (ds.flatMap Directive.format).foldlM next s = some r → arity ds ≤ s.2.length
  | [], _, _, _ => Nat.zero_le _
  | d :: ds, (p, argp), r, h => by
    rw [flatMap_cons, foldlM_append] at h
    obtain ⟨t, ht, h⟩ := Option.bind_eq_some_iff.1 h
    have hrest := arity_le ds h
    cases d with
    | conversion precision k =>
      rw [run_conversion] at ht
      obtain ⟨arg, harg, ht⟩ := Option.bind_eq_some_iff.1 ht
      obtain ⟨text, -, rfl⟩ := map_eq_some_iff.1 ht
      obtain ⟨argp, rfl⟩ := head?_eq_some_iff.1 harg
      exact Nat.succ_le_succ hrest
    | ordinary _ _ | percent => exact hrest.trans (length_le_of_foldlM_next _ ht)

variable {out : List UInt8}

lemma renderWith_conversion {precision : Option (List (Fin 10))} :
    renderWith f (conversion precision k :: ds) argp = some out ↔ ∃ arg argp' text rest, argp = arg :: argp' ∧
      k.text (f (places precision)) arg = some text ∧ renderWith f ds argp' = some rest ∧ out = text ++ rest := by
  rcases argp with _ | ⟨arg, argp⟩
  · simp [renderWith]
  rw [renderWith, Option.bind_eq_some_iff]
  constructor
  · rintro ⟨text, htext, h⟩
    obtain ⟨rest, hrest, rfl⟩ := map_eq_some_iff.1 h
    exact ⟨arg, argp, text, rest, rfl, htext, hrest, rfl⟩
  · rintro ⟨_, _, text, rest, ⟨⟩, htext, hrest, rfl⟩
    exact ⟨text, htext, map_eq_some_iff.2 ⟨rest, hrest, rfl⟩⟩

lemma length_of_render : ∀ {ds : List Directive} {argp : List Arg} {out : List UInt8},
    renderWith f ds argp = some out → argp.length = arity ds
  | [], [], _, _ => rfl
  | .ordinary _ _ :: _, _, _, h | .percent :: _, _, _, h => by
    obtain ⟨_, hrest, -⟩ := map_eq_some_iff.1 h
    have hlength := length_of_render hrest
    exact hlength
  | conversion _ _ :: _, _, _, h => by
    obtain ⟨_, _, _, _, rfl, -, h, -⟩ := renderWith_conversion.1 h
    exact congrArg (· + 1) (length_of_render h)

lemma length_target_le : ∀ (ds : List Directive) {p : PrintfConfig} {argp : List Arg} {out : List UInt8}
    {r : PrintfConfig × List Arg}, renderWith effective ds argp = some out →
      (ds.flatMap Directive.format).foldlM next (p, argp) = some r →
      r.1.target.length ≤ p.target.length + out.length ∧
        (.percent ∈ ds → r.1.target.length < p.target.length + out.length)
  | [], p, argp, out, r, _, h => by
    cases h
    exact ⟨Nat.le_add_right _ _, fun h => by simp at h⟩
  | d :: ds, p, argp, out, r, hout, h => by
    rw [flatMap_cons, foldlM_append] at h
    obtain ⟨⟨q, argq⟩, ht, hrun⟩ := Option.bind_eq_some_iff.1 h
    cases d with
    | ordinary c _ =>
      obtain ⟨rest, hrest, rfl⟩ := map_eq_some_iff.1 hout
      rw [foldlM_ordinary] at ht
      rcases next_cases ht with hlt | ⟨rfl, hle⟩
      · have harity : arity ds ≤ argq.length := arity_le ds hrun
        have hlength := length_of_render hrest
        simp only at hlt
        omega
      · obtain ⟨hall, hpercent⟩ := length_target_le ds hrest hrun
        simp only [length_cons, mem_cons, reduceCtorEq, false_or] at hle ⊢
        exact ⟨by omega, fun hmem => by have := hpercent hmem; omega⟩
    | percent =>
      obtain ⟨rest, hrest, rfl⟩ := map_eq_some_iff.1 hout
      cases ht
      obtain ⟨hall, -⟩ := length_target_le ds hrest hrun
      have hlt : r.1.target.length < p.target.length + ('%'.toUInt8 :: rest).length := Nat.lt_succ_of_le hall
      exact ⟨hlt.le, fun _ => hlt⟩
    | conversion precision k =>
      obtain ⟨arg, argp, text, rest, rfl, htext, hrest, rfl⟩ := renderWith_conversion.1 hout
      rw [run_conversion] at ht
      simp only [head?_cons, bind_some, htext] at ht
      obtain ⟨rfl, rfl⟩ := ht
      obtain ⟨hall, hpercent⟩ := length_target_le ds hrest hrun
      have htarget : ((p.command precision k.isLong false).emit text).target.length =
        p.target.length + text.length := length_append
      simp only [length_append, mem_cons, reduceCtorEq, false_or] at hall hpercent ⊢
      exact ⟨by omega, fun hmem => by have := hpercent hmem; omega⟩

lemma run_plain : ∀ (ds : List Directive) {p : PrintfConfig} {argp : List Arg} {out : List UInt8},
    .percent ∉ ds → p.parsingCmd = false → renderWith effective ds argp = some out →
      ∃ q, (ds.flatMap Directive.format).foldlM next (p, argp) = some (q, []) ∧ q.target = p.target ++ out ∧
        q.written = p.written + ofNat out.length
  | [], p, [], out, _, _, hout => by
    cases hout
    exact ⟨p, rfl, by simp, by simp⟩
  | d :: ds, p, argp, out, hmem, hcmd, hout => by
    obtain ⟨hne, hds⟩ := not_or.1 (mt mem_cons.2 hmem)
    rw [flatMap_cons, foldlM_append]
    cases d with
    | ordinary c hc =>
      obtain ⟨rest, hrest, rfl⟩ := map_eq_some_iff.1 hout
      have hnext : next (p, argp) c = some (write p c, argp) := by
        rw [next, if_neg hc.1, hcmd]
        rfl
      obtain ⟨q, hq, htarget, hwritten⟩ := run_plain ds (p := write p c) hds hcmd hrest
      rw [foldlM_ordinary, hnext]
      refine ⟨q, hq, by simp [htarget, write], ?_⟩
      rw [hwritten, length_cons, Nat.add_comm, UInt32.ofNat_add, ← UInt32.add_assoc]
      rfl
    | percent => exact absurd rfl hne
    | conversion precision k =>
      obtain ⟨arg, argp, text, rest, rfl, htext, hrest, rfl⟩ := renderWith_conversion.1 hout
      obtain ⟨q, hq, htarget, hwritten⟩ :=
        run_plain ds (p := (p.command precision k.isLong false).emit text) hds rfl hrest
      rw [run_conversion]
      simp only [head?_cons, bind_some, htext]
      refine ⟨q, hq, ?_, ?_⟩
      · rw [htarget]
        exact append_assoc _ _ _
      · rw [hwritten, length_append, UInt32.ofNat_add, ← UInt32.add_assoc]
        rfl

lemma places_le_length (n : ℕ) (num : BitVec w) (k : IntConversion) : n ≤ (k.text n num).length := by
  cases k <;> simp only [IntConversion.text, length_append, length_padded] <;> omega

lemma length_text_mono {m : ℕ} (h : m ≤ n) (num : BitVec w) (k : IntConversion) :
    (k.text m num).length ≤ (k.text n num).length := by
  cases k <;> simp only [IntConversion.text, length_append, length_padded] <;> omega

lemma text_effective {arg : Arg} {text : List UInt8} (h : k.text n arg = some text) :
    ∃ short, k.text (effective n) arg = some short ∧ short.length ≤ text.length ∧
      (text.length < 2 ^ 31 → short = text) := by
  have hint {w : ℕ} (num : BitVec w) (k : IntConversion) (h : k.text n num = text) :
      (k.text (effective n) num).length ≤ text.length ∧ (text.length < 2 ^ 31 → k.text (effective n) num = text) := by
    subst h
    refine ⟨length_text_mono (effective_le n) num k, fun hlt => ?_⟩
    rw [effective_of_lt ((places_le_length n num k).trans_lt hlt)]
  rcases k with ⟨_ | _, k⟩ | _ | _ <;> rcases arg with num | num | memory <;>
    simp only [Conversion.text, some.injEq, reduceCtorEq] at h ⊢
  · exact ⟨_, rfl, hint _ k h⟩
  · exact ⟨_, rfl, hint _ k h⟩
  · exact ⟨text, h, le_refl _, fun _ => rfl⟩
  · exact ⟨text, h, le_refl _, fun _ => rfl⟩

lemma render_effective : ∀ {ds : List Directive} {argp : List Arg} {out : List UInt8}, render ds argp = some out →
    ∃ short, renderWith effective ds argp = some short ∧ short.length ≤ out.length ∧ (out.length < 2 ^ 31 → short = out)
  | [], [], out, h => ⟨out, h, le_refl _, fun _ => rfl⟩
  | .ordinary c _ :: ds, argp, out, h => by
    obtain ⟨rest, hrest, rfl⟩ := map_eq_some_iff.1 h
    obtain ⟨short, hshort, hle, heq⟩ := render_effective hrest
    refine ⟨c :: short, map_eq_some_iff.2 ⟨short, hshort, rfl⟩, Nat.succ_le_succ hle, fun hlt => ?_⟩
    rw [heq (Nat.lt_of_succ_lt hlt)]
  | .percent :: ds, argp, out, h => by
    obtain ⟨rest, hrest, rfl⟩ := map_eq_some_iff.1 h
    obtain ⟨short, hshort, hle, heq⟩ := render_effective hrest
    refine ⟨_ :: short, map_eq_some_iff.2 ⟨short, hshort, rfl⟩, Nat.succ_le_succ hle, fun hlt => ?_⟩
    rw [heq (Nat.lt_of_succ_lt hlt)]
  | conversion precision k :: ds, argp, out, h => by
    obtain ⟨arg, argp, text, rest, rfl, htext, hrest, rfl⟩ := renderWith_conversion.1 h
    obtain ⟨short, hshort, hle, heq⟩ := render_effective hrest
    obtain ⟨shortText, hshortText, hle', heq'⟩ := text_effective htext
    rw [length_append]
    refine ⟨shortText ++ short, renderWith_conversion.2 ⟨arg, argp, _, _, rfl, hshortText, hshort, rfl⟩, ?_, fun hlt => ?_⟩
    · rw [length_append]
      omega
    · rw [heq (by omega), heq' (by omega)]

lemma sprintf_plain (hpercent : .percent ∉ ds) (h : renderWith effective ds argp = some out) :
    sprintf (ds.flatMap Directive.format) argp = some (out ++ [0], (ofNat out.length).toInt32.toInt) := by
  obtain ⟨q, hq, htarget, hwritten⟩ := run_plain ds (p := ⟨0, 0, false, false, false, [], 0⟩) hpercent rfl h
  rw [sprintf, hq]
  show some (q.target ++ [0], q.written.toInt32.toInt) = _
  rw [htarget, hwritten, UInt32.zero_add]
  rfl

/-- The output is that of the directives if and only if no `%%` is among them and it has less than 2 GiB.
The buffers for the digits hold every number. -/
theorem sprintf_formats_iff (ds : List Directive) (argp : List Arg) (out : List UInt8) (h : render ds argp = some out) :
    (sprintf (ds.flatMap Directive.format) argp = some (out ++ [0], (out.length : ℤ)) ↔
      .percent ∉ ds ∧ out.length < 2 ^ 31) ∧
    (∀ p (num : UInt32), ∀ f ∈ [printUnsigned, printSigned, printHexLower, printHexUpper], (f p num).isSome) ∧
    ∀ p (num : UInt64), ∀ f ∈ [printUnsignedLong, printSignedLong, printHexLowerLong, printHexUpperLong],
      (f p num).isSome := by
  refine ⟨⟨fun hrun => ?_, fun ⟨hpercent, hlt⟩ => ?_⟩, fun p num f hf => ?_, fun p num f hf => ?_⟩
  · obtain ⟨short, hshort, hle, -⟩ := render_effective h
    obtain ⟨⟨p, rest⟩, hp, hout⟩ := Option.bind_eq_some_iff.1 hrun
    obtain ⟨hout, hwritten⟩ := Prod.mk.inj (some.inj hout)
    have htarget : p.target = out := append_cancel_right hout
    obtain ⟨-, hlt⟩ := length_target_le ds hshort hp
    refine ⟨fun hmem => ?_, ?_⟩
    · have := hlt hmem
      simp only [htarget, length_nil] at this
      omega
    · have := p.written.toInt32.toInt_lt
      omega
  · obtain ⟨short, hshort, -, heq⟩ := render_effective h
    obtain rfl := heq hlt
    rw [sprintf_plain hpercent hshort, toInt_ofNat_of_lt hlt]
  · have hshort (k : IntConversion) : (k.short p num).isSome := by rw [short_eq rfl, isSome_some]
    simp only [mem_cons, not_mem_nil, or_false] at hf
    obtain rfl | rfl | rfl | rfl := hf
    · exact hshort .u
    · exact hshort .d
    · exact hshort .x
    · exact hshort .X
  · have hlong (k : IntConversion) : (k.long p num).isSome := by rw [long_eq rfl, isSome_some]
    simp only [mem_cons, not_mem_nil, or_false] at hf
    obtain rfl | rfl | rfl | rfl := hf
    · exact hlong .u
    · exact hlong .d
    · exact hlong .x
    · exact hlong .X

theorem sprintf_formats_padded : render [.conversion (some [3]) (.integer false .d), .conversion none .char]
    [.word (-7), .word 37] = some (['-', '0', '0', '7', '%'].map Char.toUInt8) ∧
    sprintf (['%', '.', '3', 'd', '%', 'c'].map Char.toUInt8) [.word (-7), .word 37] =
      some (['-', '0', '0', '7', '%', '\x00'].map Char.toUInt8, 5) := by
  have h : render [.conversion (some [3]) (.integer false .d), .conversion none .char] [.word (-7), .word 37] =
      some (['-', '0', '0', '7', '%'].map Char.toUInt8) := by
    simp [render, renderWith, Conversion.text, IntConversion.text, numeral, padded, places, value]
    exact ⟨rfl, rfl⟩
  exact ⟨h, (sprintf_formats_iff _ _ _ h).1.2 ⟨by simp, by simp⟩⟩

/-- `%%` prints nothing. -/
theorem percent_lost : render [.percent] [] = some ['%'.toUInt8] ∧
    sprintf Directive.percent.format [] = some ([0], 0) :=
  ⟨rfl, rfl⟩

end OlliOS.Printf
