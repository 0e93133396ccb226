import Mathlib.Tactic.IntervalCases
import OlliOS.Modules.Keyboard

/-!
# When the decoder keeps in step

From an empty decoder every sequence leaves an empty one and an event, or it leaves its bytes (`run_bytes`).
-/

namespace OlliOS.Keyboard

open List Option KeyboardDriver Sequence Modifier

variable {maps : Scanset} {d : KeyboardDriver} {q : Sequence} {qs : List Sequence} {behind1 behind2 : UInt8}

structure Scanset.Ok (maps : Scanset) : Prop where
  map1_zero : maps.map1 0 = 0
  map1_extended : maps.map1 0xE0 = 0
  map2_zero : maps.map2 0 = 0

def Sequence.found (maps : Scanset) (q : Sequence) : UInt8 :=
  if q.extended then maps.map2 q.code else maps.map1 q.code

namespace KeyboardDriver

def Clear (d : KeyboardDriver) : Prop := d.code1 = 0 ∧ d.code2 = 0 ∧ d.code3 = 0

def withBytes (d : KeyboardDriver) (q : Sequence) : KeyboardDriver :=
  match q.extended, q.pressed with
  | false, true => { d with code1 := q.code }
  | true, true => { d with code1 := 0xE0, code2 := q.code }
  | false, false => { d with code1 := 0xF0, code2 := q.code }
  | true, false => { d with code1 := 0xE0, code2 := 0xF0, code3 := q.code }

lemma run_cons (b : UInt8) (bs : List UInt8) : d.run maps (b :: bs) = (d.write maps b).run maps bs := rfl

lemma run_append (xs ys : List UInt8) : d.run maps (xs ++ ys) = (d.run maps xs).run maps ys := foldl_append

lemma run_bytes (hok : maps.Ok) (hd : d.Clear) : d.run maps q.bytes =
    if q.found maps = 0 then d.withBytes q else d.emit (q.found maps) q.make := by
  obtain ⟨code1, code2, code3, buffer, status, pushed⟩ := d
  obtain ⟨rfl, rfl, rfl⟩ := hd
  obtain ⟨pressed, extended, code, hzero, hE0, hF0⟩ := q
  have hzero' : VirtualKeycode.invalid.code = 0 := rfl
  rcases extended with _ | _ <;> rcases pressed with _ | _
  · by_cases hfound : maps.map1 code = 0 <;>
      simp [bytes, found, make, run, write, addCode, withBytes, hzero', hok.map1_zero, convertMakeScancodeToKeycode, convertBreakScancodeToKeycode, emit, pushBuffer, clearCodes]
  · by_cases hfound : maps.map1 code = 0 <;>
      simp [bytes, found, make, run, write, addCode, withBytes, hzero', hF0, convertMakeScancodeToKeycode, convertBreakScancodeToKeycode, hfound, emit, pushBuffer, clearCodes]
  · by_cases hfound : maps.map2 code = 0 <;>
      simp [bytes, found, make, run, write, addCode, withBytes, hzero', hok.map1_extended, hok.map2_zero, convertMakeScancodeToKeycode, convertBreakScancodeToKeycode, emit, pushBuffer, clearCodes]
  · by_cases hfound : maps.map2 code = 0 <;>
      simp [bytes, found, make, run, write, addCode, withBytes, hzero', hzero, hF0, hok.map1_extended,
        convertMakeScancodeToKeycode, convertBreakScancodeToKeycode, hfound, emit, pushBuffer, clearCodes]

def Ready (d : KeyboardDriver) : Prop := d.Clear ∨ d.code1 ≠ 0 ∧ d.code2 ≠ 0 ∧ d.code3 ≠ 0

lemma write_of_ready (hd : d.Ready) (b : UInt8) : d.write maps b = d.clearCodes.write maps b := by
  have hadd : d.addCode b = d.clearCodes.addCode b := by
    rcases hd with ⟨h1, h2, h3⟩ | ⟨h1, h2, h3⟩
    · have hsame : d.clearCodes = d := by
        obtain ⟨code1, code2, code3, buffer, status, pushed⟩ := d
        obtain ⟨rfl, rfl, rfl⟩ : code1 = 0 ∧ code2 = 0 ∧ code3 = 0 := ⟨h1, h2, h3⟩
        rfl
      rw [hsame]
    · simp [addCode, h1, h2, h3, clearCodes]
  rw [write, write, hadd]

lemma clear_clearCodes : d.clearCodes.Clear := ⟨rfl, rfl, rfl⟩

lemma emit_clearCodes {vkey make : UInt8} : d.clearCodes.emit vkey make = d.emit vkey make := rfl

lemma ready_emit {vkey make : UInt8} : (d.emit vkey make).Ready := .inl ⟨rfl, rfl, rfl⟩

lemma run_bytes_of_ready (hok : maps.Ok) (hd : d.Ready) (q : Sequence) : d.run maps q.bytes =
    if q.found maps = 0 then d.clearCodes.withBytes q else d.emit (q.found maps) q.make := by
  have hcons : ∃ b bs, q.bytes = b :: bs := exists_cons_of_ne_nil (by simp [bytes])
  have hclear := run_bytes (q := q) hok (clear_clearCodes (d := d))
  obtain ⟨b, bs, hbytes⟩ := hcons
  rwa [hbytes, run_cons, ← write_of_ready hd, ← run_cons, ← hbytes, emit_clearCodes] at hclear

end KeyboardDriver

section Tables

lemma code_ne_zero {vkey : VirtualKeycode} (h : vkey ≠ .invalid) : vkey.code ≠ 0 := by
  intro hcode
  refine h ?_
  rcases vkey
  · rfl
  all_goals cases hcode

lemma scanset2_ok (behind1 behind2 : UInt8) : (scanset2 behind1 behind2).Ok := ⟨rfl, rfl, rfl⟩

namespace Sequence

lemma found_of_key (behind1 behind2 : UInt8) {vkey : VirtualKeycode} (h : q.key = some vkey) :
    q.found (scanset2 behind1 behind2) = vkey.code ∧ vkey.code ≠ 0 := by
  unfold key at h
  split_ifs at h with hlast
  obtain ⟨htable, hne⟩ := filter_eq_some_iff.1 h
  refine ⟨?_, code_ne_zero (of_decide_eq_true hne)⟩
  unfold table at htable
  unfold found scanset2 entry
  rcases hext : q.extended with _ | _ <;> rw [hext] at htable
  · have hget : scanset2Map1[q.code.toNat]? = some vkey := htable
    simp [if_neg hlast, hget]
  · have hget : scanset2Map2[q.code.toNat]? = some vkey := htable
    simp [if_neg hlast, hget]

lemma found_of_none (h : q.key = none) (hlast : q.code ≠ 0xFF) : q.found (scanset2 behind1 behind2) = 0 := by
  rw [key, if_neg hlast, filter_eq_none_iff] at h
  have hentry : (q.table[q.code.toNat]?.getD .invalid).code = 0 := by
    rcases htable : q.table[q.code.toNat]? with _ | vkey
    · rfl
    · have hinvalid : vkey = .invalid := by simpa using h vkey htable
      rw [hinvalid]
      rfl
  unfold table at hentry
  unfold found scanset2 entry
  rcases hext : q.extended with _ | _ <;> rw [hext] at hentry
  · simp only [if_neg hlast] at hentry ⊢
    exact hentry
  · simp only [if_neg hlast] at hentry ⊢
    exact hentry

end Sequence

end Tables

section Expect

lemma expect_cons (status : UInt8) (q : Sequence) (qs : List Sequence) : expect status (q :: qs) = match q.key with
      | none => expect status qs
      | some vkey =>
        ⟨vkey.code, status ||| q.make⟩ :: expect (updateStatus status ⟨vkey.code, status ||| q.make⟩) qs := rfl

end Expect

section Step

lemma run_harmless (behind1 : UInt8) (h : q.Harmless behind2) (hd : d.Ready) :
    (d.run (scanset2 behind1 behind2) q.bytes).Ready ∧ ∃ events,
      (d.run (scanset2 behind1 behind2) q.bytes).pushed = d.pushed ++ events ∧
      ∀ qs, expect d.status (q :: qs) = events ++ expect (d.run (scanset2 behind1 behind2) q.bytes).status qs := by
  rw [run_bytes_of_ready (scanset2_ok behind1 behind2) hd q]
  rcases hkey : q.key with _ | vkey
  · obtain ⟨hpressed, hextended, hlast⟩ := h.resolve_left fun hne => hne hkey
    have hfound : q.found (scanset2 behind1 behind2) = 0 := by
      by_cases hcode : q.code = 0xFF
      · rw [found, hextended, if_pos rfl, scanset2]
        exact (if_pos hcode).trans (hlast hcode)
      · exact found_of_none hkey hcode
    rw [if_pos hfound]
    have hbytes : d.clearCodes.withBytes q = { d with code1 := 0xE0, code2 := 0xF0, code3 := q.code } := by
      rw [withBytes, hextended, hpressed]
      rfl
    rw [hbytes]
    have hE0 : (0xE0 : UInt8) ≠ 0 := by decide
    have hF0 : (0xF0 : UInt8) ≠ 0 := by decide
    refine ⟨.inr ⟨hE0, hF0, q.ok.1⟩, [], by simp, fun qs => ?_⟩
    rw [expect_cons, hkey]
    rfl
  · obtain ⟨hfound, hne⟩ := found_of_key behind1 behind2 hkey
    rw [hfound, if_neg hne]
    refine ⟨ready_emit, [⟨vkey.code, d.status ||| q.make⟩], rfl, fun qs => ?_⟩
    rw [expect_cons, hkey]
    rfl

lemma run_harmless_list (behind1 : UInt8) : ∀ (qs : List Sequence) {d : KeyboardDriver},
    (∀ q ∈ qs, q.Harmless behind2) → d.Ready →
    (d.run (scanset2 behind1 behind2) (qs.flatMap bytes)).Ready ∧ ∃ events,
      (d.run (scanset2 behind1 behind2) (qs.flatMap bytes)).pushed = d.pushed ++ events ∧
      ∀ more, expect d.status (qs ++ more) = events ++
        expect (d.run (scanset2 behind1 behind2) (qs.flatMap bytes)).status more
  | [], d, _, hd => ⟨hd, [], by simp [run], fun _ => rfl⟩
  | q :: qs, d, h, hd => by
    obtain ⟨hready, first, hpushed, hexpect⟩ := run_harmless behind1 (h q mem_cons_self) hd
    obtain ⟨hready', rest, hpushed', hexpect'⟩ :=
      run_harmless_list behind1 qs (fun q' hq' => h q' (mem_cons_of_mem q hq')) hready
    rw [flatMap_cons, run_append]
    refine ⟨hready', first ++ rest, by rw [hpushed', hpushed, append_assoc], fun more => ?_⟩
    rw [cons_append, hexpect, hexpect', append_assoc]

def keyA : Sequence := ⟨true, false, 0x1C, by decide⟩

/-- Behind a sequence that was not understood, and that left a place, the key A is lost. -/
theorem keyA_lost (hfound : q.found (scanset2 behind1 behind2) = 0)
    (hkind : ¬ (q.pressed = false ∧ q.extended = true)) :
    ((d.clearCodes.withBytes q).run (scanset2 behind1 behind2) keyA.bytes).pushed = d.pushed := by
  obtain ⟨pressed, extended, code, hzero, hE0, hF0⟩ := q
  have hinvalid : VirtualKeycode.invalid.code = 0 := rfl
  have hA : (scanset2 behind1 behind2).map2 0x1C = 0 := rfl
  have hext : (scanset2 behind1 behind2).map1 0xE0 = 0 := rfl
  rcases extended with _ | _ <;> rcases pressed with _ | _
  · have hcode : (scanset2 behind1 behind2).map1 code = 0 := hfound
    simp [keyA, bytes, run, write, addCode, withBytes, clearCodes, convertMakeScancodeToKeycode,
      convertBreakScancodeToKeycode, hinvalid, hzero, hcode]
  · have hcode : (scanset2 behind1 behind2).map1 code = 0 := hfound
    simp [keyA, bytes, run, write, addCode, withBytes, clearCodes, convertMakeScancodeToKeycode, convertBreakScancodeToKeycode, hinvalid, hzero, hF0, hcode, hA]
  · exact absurd ⟨rfl, rfl⟩ hkind
  · have hcode : (scanset2 behind1 behind2).map2 code = 0 := hfound
    simp [keyA, bytes, run, write, addCode, withBytes, clearCodes, convertMakeScancodeToKeycode,
      convertBreakScancodeToKeycode, hinvalid, hzero, hF0, hcode, hext]

lemma harmless_of_run (behind1 : UInt8) (hd : d.Ready) (h : ∀ more, (∀ q' ∈ more, q'.Harmless behind2) →
      (d.run (scanset2 behind1 behind2) ((q :: more).flatMap bytes)).pushed =
        d.pushed ++ expect d.status (q :: more)) : q.Harmless behind2 := by
  rcases hkey : q.key with _ | vkey
  swap
  · exact .inl (by rw [hkey]; exact some_ne_none vkey)
  have hbytes := run_bytes_of_ready (scanset2_ok behind1 behind2) hd q
  by_cases hfound : q.found (scanset2 behind1 behind2) = 0
  · by_cases hkind : q.pressed = false ∧ q.extended = true
    · refine .inr ⟨hkind.1, hkind.2, fun hcode => ?_⟩
      rw [found, hkind.2, if_pos rfl, scanset2] at hfound
      exact (if_pos hcode).symm.trans hfound
    have hlost := h [keyA] fun q' hq' => by
      obtain rfl := mem_singleton.1 hq'
      exact .inl (some_ne_none VirtualKeycode.a)
    have hexpect : expect d.status [q, keyA] = expect d.status [keyA] := by rw [expect_cons, hkey]
    rw [flatMap_cons, flatMap_singleton, run_append, hbytes, if_pos hfound, keyA_lost hfound hkind, hexpect] at hlost
    have hlen := congrArg List.length hlost
    rw [length_append] at hlen
    have hone : (expect d.status [keyA]).length = 1 := rfl
    omega
  · -- the byte behind a table was taken for a key
    have hextra := h [] fun q' hq' => absurd hq' not_mem_nil
    have hexpect : expect d.status [q] = [] := by
      rw [expect_cons, hkey]
      rfl
    rw [flatMap_singleton, hbytes, if_neg hfound, hexpect] at hextra
    have hlen := congrArg List.length hextra
    simp [emit, pushBuffer, clearCodes] at hlen

end Step

lemma inStep_of_harmless (h : ∀ q ∈ qs, q.Harmless behind2) : InStep behind1 behind2 qs := by
  obtain ⟨-, events, hpushed, hexpect⟩ := run_harmless_list (d := init) behind1 qs h (.inl ⟨rfl, rfl, rfl⟩)
  have hend := hexpect []
  rw [append_nil] at hend
  rw [InStep, hpushed]
  exact (hend.trans (append_nil events)).symm

/-- Streams of harmless sequences are decoded, and a sequence leaves the decoding of all of them behind it
as it is if and only if it is harmless, too. -/
theorem keyboard_in_step (behind1 behind2 : UInt8) (qs : List Sequence) (h : ∀ q ∈ qs, q.Harmless behind2) :
    InStep behind1 behind2 qs ∧
    ∀ q, (∀ more, (∀ q' ∈ more, q'.Harmless behind2) → InStep behind1 behind2 (qs ++ q :: more)) ↔
      q.Harmless behind2 := by
  refine ⟨inStep_of_harmless h, fun q => ⟨fun hmore => ?_, fun hq more hmore => inStep_of_harmless fun q' hq' => ?_⟩⟩
  · obtain ⟨hready, events, hpushed, hexpect⟩ := run_harmless_list (d := init) behind1 qs h (.inl ⟨rfl, rfl, rfl⟩)
    refine harmless_of_run behind1 hready fun more hharmless => ?_
    have hrun := hmore more hharmless
    rw [InStep, flatMap_append, run_append] at hrun
    rw [hrun, hpushed]
    exact hexpect (q :: more)
  · rcases mem_append.1 hq' with hq' | hq'
    · exact h q' hq'
    · rcases mem_cons.1 hq' with rfl | hq'
      · exact hq
      · exact hmore q' hq'

theorem keyboard_in_step_shift : InStep 0 0
    [⟨true, false, 0x12, by decide⟩, ⟨true, false, 0x1C, by decide⟩, ⟨false, true, 0x21, by decide⟩,
      ⟨false, false, 0x12, by decide⟩] ∧
    expect 0 [⟨true, false, 0x12, by decide⟩, ⟨true, false, 0x1C, by decide⟩, ⟨false, true, 0x21, by decide⟩,
      ⟨false, false, 0x12, by decide⟩] =
      [⟨VirtualKeycode.lshift.code, 1⟩, ⟨VirtualKeycode.a.code, 3⟩, ⟨VirtualKeycode.lshift.code, 2⟩] := by
  refine ⟨(keyboard_in_step 0 0 _ fun q hq => ?_).1, rfl⟩
  simp only [mem_cons, not_mem_nil, or_false] at hq
  rcases hq with rfl | rfl | rfl | rfl
  · exact .inl (some_ne_none VirtualKeycode.lshift)
  · exact .inl (some_ne_none VirtualKeycode.a)
  · exact .inr ⟨rfl, rfl, nofun⟩
  · exact .inl (some_ne_none VirtualKeycode.lshift)

/-- F7 is pressed, which has no entry, and then `a`, which is lost. -/
theorem keyboard_out_of_step : ¬ InStep 0 0 [⟨true, false, 0x83, by decide⟩, ⟨true, false, 0x1C, by decide⟩] := by
  intro h
  have hlen := congrArg List.length h
  revert hlen
  decide

/-! ### Modifiers -/

section Modifiers

variable {m : Modifier}

lemma code_inj {vkey vkey' : VirtualKeycode} : vkey.code = vkey'.code ↔ vkey = vkey' := by
  refine ⟨fun h => ?_, congrArg _⟩
  have hlt (vkey : VirtualKeycode) : vkey.ctorIdx < 256 := by cases vkey <;> decide
  have hidx := congrArg UInt8.toNat h
  rw [VirtualKeycode.code, VirtualKeycode.code, UInt8.toNat_ofNat_of_lt' (hlt vkey),
    UInt8.toNat_ofNat_of_lt' (hlt vkey')] at hidx
  rw [← VirtualKeycode.ofNat_ctorIdx vkey, hidx, VirtualKeycode.ofNat_ctorIdx]

def Modifier.next (m : Modifier) (h : Bool) (q : Sequence) : Bool :=
  if q.key = some m.left ∨ q.key = some m.right then q.pressed else h

lemma bit_updateStatus (hm : m ∈ modifiers) {status : UInt8} (hzero : status.toBitVec.getLsbD 0 = false)
    {vkey : VirtualKeycode} (hkey : q.key = some vkey) :
    (status ||| q.make).toBitVec.getLsbD m.bit = status.toBitVec.getLsbD m.bit ∧
    (updateStatus status ⟨vkey.code, status ||| q.make⟩).toBitVec.getLsbD 0 = false ∧
    (updateStatus status ⟨vkey.code, status ||| q.make⟩).toBitVec.getLsbD m.bit =
      m.next (status.toBitVec.getLsbD m.bit) q := by
  simp only [modifiers, mem_cons, not_mem_nil, or_false] at hm
  unfold Modifier.next updateStatus make
  simp only [code_inj]
  obtain rfl | rfl | rfl | rfl | rfl | rfl | ⟨h1, h2, h3, h4, h5, h6⟩ : vkey = .lshift ∨ vkey = .rshift ∨ vkey = .lctrl ∨
      vkey = .rctrl ∨ vkey = .lalt ∨ vkey = .ralt ∨ vkey ≠ .lshift ∧ vkey ≠ .rshift ∧ vkey ≠ .lctrl ∧
      vkey ≠ .rctrl ∧ vkey ≠ .lalt ∧ vkey ≠ .ralt := by
    tauto
  all_goals rcases hm with rfl | rfl | rfl <;> cases q.pressed <;> simp_all

lemma bits_expect (hm : m ∈ modifiers) : ∀ (qs : List Sequence) {status : UInt8}, (∀ q ∈ qs, q.key ≠ none) →
    status.toBitVec.getLsbD 0 = false →
    (expect status qs).map (fun event => event.status.toBitVec.getLsbD m.bit) =
      (List.range qs.length).map fun i => (qs.take i).foldl m.next (status.toBitVec.getLsbD m.bit)
  | [], _, _, _ => rfl
  | q :: qs, status, h, hzero => by
    obtain ⟨hq, hqs⟩ := forall_mem_cons.1 h
    obtain ⟨vkey, hkey⟩ := ne_none_iff_exists'.1 hq
    obtain ⟨hbit, hzero', hnext⟩ := bit_updateStatus hm hzero hkey
    rw [expect_cons, hkey, map_cons, bits_expect hm qs hqs hzero', length_cons, range_succ_eq_map, map_cons,
      List.map_map, hbit, hnext]
    rfl

lemma held_append (vkey : VirtualKeycode) (qs : List Sequence) (q : Sequence) :
    held vkey (qs ++ [q]) = if q.key = some vkey then q.pressed else held vkey qs := by
  rw [held, foldl_append]
  rfl

lemma left_ne_right (hm : m ∈ modifiers) : m.left ≠ m.right := by
  simp only [modifiers, mem_cons, not_mem_nil, or_false] at hm
  rcases hm with rfl | rfl | rfl <;> simp

/-- The bits of the modifiers are right if and only if no key of a modifier is released, but for the last
sequence, while the other one is held. -/
theorem modifiers_tracked_iff (behind1 behind2 : UInt8) (qs : List Sequence) (h : ∀ q ∈ qs, q.key ≠ none) :
    TracksModifiers behind1 behind2 qs ↔ ∀ m ∈ modifiers, ∀ i q, qs[i]? = some q → i + 1 < qs.length → q.pressed = false →
      (q.key = some m.left → held m.right (qs.take i) = false) ∧
      (q.key = some m.right → held m.left (qs.take i) = false) := by
  have hstep : InStep behind1 behind2 qs := inStep_of_harmless fun q hq => .inl (h q hq)
  have htake {i : ℕ} {q : Sequence} (hi : qs[i]? = some q) : qs.take (i + 1) = qs.take i ++ [q] := by
    rw [take_add_one, hi]
    rfl
  refine forall₂_congr fun m hm => ?_
  rw [hstep, bits_expect hm qs h rfl, map_inj_left]
  have hne := left_ne_right hm
  constructor
  · intro hbits i q hi hlt hpressed
    have hbit := hbits (i + 1) (mem_range.2 hlt)
    rw [htake hi, foldl_append, held_append, held_append] at hbit
    constructor <;> intro hkey
    · simpa [Modifier.next, hkey, hpressed, hne] using hbit
    · simpa [Modifier.next, hkey, hpressed, hne.symm] using hbit
  · intro hgood i hi
    induction i with
    | zero => simp [held]
    | succ i ih =>
      have hlt : i + 1 < qs.length := mem_range.1 hi
      have hget : qs[i]? = some qs[i] := getElem?_eq_getElem (by omega)
      have hrelease := hgood i qs[i] hget hlt
      have hsame := ih (mem_range.2 (by omega))
      rw [htake hget, foldl_append, held_append, held_append, foldl_cons, foldl_nil, hsame]
      by_cases hleft : qs[i].key = some m.left
      · cases hpressed : qs[i].pressed
        · simp [Modifier.next, hleft, hpressed, hne, (hrelease hpressed).1 hleft]
        · simp [Modifier.next, hleft, hpressed]
      · by_cases hright : qs[i].key = some m.right
        · cases hpressed : qs[i].pressed
          · simp [Modifier.next, hright, hpressed, hne.symm, (hrelease hpressed).2 hright]
          · simp [Modifier.next, hright, hpressed]
        · simp [Modifier.next, hleft, hright]

theorem modifiers_tracked_shifts : TracksModifiers 0 0
    [⟨true, false, 0x12, by decide⟩, ⟨false, false, 0x12, by decide⟩, ⟨true, false, 0x59, by decide⟩] := by
  refine (modifiers_tracked_iff 0 0 _ (by decide)).2 fun m hm i q hi hlt _ => ?_
  simp only [modifiers, mem_cons, not_mem_nil, or_false] at hm
  have hi2 : i < 2 := Nat.lt_of_succ_lt_succ hlt
  interval_cases i <;> obtain rfl := some.inj hi <;> rcases hm with rfl | rfl | rfl <;> decide

/-- Both shift keys are pressed and one of them is released, and `a` comes without the bit. -/
theorem modifiers_lost : ∃ qs, Alternates qs ∧ (∀ q ∈ qs, q.key ≠ none) ∧ ¬ TracksModifiers 0 0 qs := by
  refine ⟨[⟨true, false, 0x12, by decide⟩, ⟨true, false, 0x59, by decide⟩, ⟨false, false, 0x12, by decide⟩, keyA],
    fun i q vkey hi hkey => ?_, by decide, fun h => ?_⟩
  · have hlt : i < 4 := (List.getElem?_eq_some_iff.1 hi).1
    interval_cases i <;> obtain rfl := some.inj hi <;> obtain rfl := some.inj hkey <;> rfl
  · have hbits := h ⟨.lshift, .rshift, 1⟩ mem_cons_self
    revert hbits
    decide

end Modifiers

end OlliOS.Keyboard
