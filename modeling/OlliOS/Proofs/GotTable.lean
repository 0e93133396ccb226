import OlliOS.GotTable
import OlliOS.Proofs.Relocation

/-!
# Slots and symbols

Slots are taken in order and written once, so a slot has the value of the first symbol of its name.
-/

namespace OlliOS.Elf

open Words List UInt32

variable {header got : UInt32}

section Slots

variable {k k' x : UInt32} {m : Memory}

lemma toNat_slot (hk : k < 4096) : (4 * k).toNat = 4 * k.toNat := by
  have hlt : k.toNat < 4096 := UInt32.lt_iff_toNat_lt.1 hk
  change 4 * k.toNat % _ = _
  omega

lemma inGot_of_slot (hk : k < 4096) (hx : InBytes (got + 4 * k) 4 x) : InGot got x := by
  have hlt : k.toNat < 4096 := lt_iff_toNat_lt.1 hk
  refine hx.of_part ?_
  rw [toNat_slot hk]
  omega

lemma slots_apart (hk : k < 4096) (hk' : k' < 4096) (hne : k ≠ k') (hx : InBytes (got + 4 * k) 4 x) :
    ¬ InBytes (got + 4 * k') 4 x := by
  intro hx'
  have hlt : k.toNat < 4096 := lt_iff_toNat_lt.1 hk
  have hlt' : k'.toNat < 4096 := lt_iff_toNat_lt.1 hk'
  have hne' : k.toNat ≠ k'.toNat := fun h => hne (UInt32.toNat_inj.1 h)
  have hfour := toNat_slot hk
  have hfour' := toNat_slot hk'
  rw [inBytes_add_iff (by omega)] at hx hx'
  omega

end Slots

namespace GotImage

variable {image : GotImage header got} {map : SymbolMap} {s : Linker} {e e' : image.GotEntry}
  {x k : UInt32} {m : Memory}
variable {name : CStr} {S S' ref v : UInt32}

namespace GotEntry

lemma type_ne_gotpc (e : image.GotEntry) : e.toEntry.type header image.mem ≠ some .gotpc := by
  rw [e.type]
  simp

lemma isReadable (e : image.GotEntry) : e.toEntry.Readable header image.mem :=
  image.readable e.toEntry e.isIn e.type

lemma not_inGot (e : image.GotEntry) (hx : InBytes e.target 4 x) : ¬ InGot got x :=
  (image.apart e.toEntry e.isIn e.type x hx).2

lemma Symbol.unique (hS : e.Symbol map S) (hS' : e.Symbol map S') : S = S' :=
  Entry.Symbol.unique e.isReadable e.type_ne_gotpc hS hS'

lemma Named.unique {name' : CStr} (h : e.Named name) (h' : e.Named name') : name = name' := by
  have hself : Agrees header image.mem image.mem := fun _ _ => rfl
  exact Option.some.inj ((hself.getSymbolName_eq e.isReadable h).symm.trans (hself.getSymbolName_eq e.isReadable h'))

lemma relocate_cases (map : SymbolMap) (e : image.GotEntry) (h : Agrees header image.mem s.mem) :
    (e.Missing header map image.mem ∧ e.relocate map s = some (-1, s)) ∨
    ∃ S name, e.Symbol map S ∧ e.Named name ∧ e.relocate map s =
      if s.gotCount + 1 ≥ 4096 then some (-1, s) else some (0, relocateGot32 got s e.target S name) := by
  have htype : RelocationType.ofByte (e.info header image.mem % 0x100) = some .got32 := e.type
  have htable : getSectionHeader header s.mem (linkIndex s.mem (e.section_ header image.mem)) =
      symbolTable header image.mem e.table := h.symbolTable_eq e.isIn.table
  obtain ⟨name, hname⟩ := image.named e.toEntry e.isIn e.type
  unfold relocate relocateEntry
  simp only [h.target_eq e.isReadable, if_pos e.isReadable.nonzero, htype, htable]
  by_cases hmiss : e.Missing header map image.mem
  · left
    rw [h.getSymbolValue_of_missing e.isReadable hmiss]
    exact ⟨hmiss, rfl⟩
  · obtain ⟨S, hS⟩ := Entry.exists_symbol e.type_ne_gotpc (fun _ => ⟨name, hname⟩) hmiss
    refine .inr ⟨S, name, hS, hname, ?_⟩
    rw [h.getSymbolValue_of_symbol e.isReadable e.type_ne_gotpc hS, h.getSymbolName_eq e.isReadable hname]
    rfl

lemma relocate_of_symbol (h : Agrees header image.mem s.mem) (hS : e.Symbol map S) (hname : e.Named name)
    (hroom : s.gotCount + 1 < 4096) :
    e.relocate map s = some (0, relocateGot32 got s e.target S name) := by
  rcases e.relocate_cases map h with ⟨hmiss, -⟩ | ⟨S', name', hS', hname', hrun⟩
  · exact absurd hmiss (Entry.Symbol.not_missing e.isReadable hS)
  · rw [hrun, if_neg (UInt32.not_le.2 hroom), hS.unique hS', hname.unique hname']

variable (h : e'.SameSymbol e)

include h

lemma SameSymbol.symbol_eq : e'.toEntry.symbol header image.mem = e.toEntry.symbol header image.mem := by
  unfold Entry.symbol
  rw [h.table, h.index]

lemma SameSymbol.stringTable_eq : stringTable header image.mem e'.table = stringTable header image.mem e.table := by
  unfold stringTable
  rw [h.table]

lemma SameSymbol.named (hname : e'.Named name) : e.Named name := by
  obtain ⟨hstring, hinside⟩ := hname
  rw [h.symbol_eq, h.stringTable_eq] at hstring hinside
  exact ⟨hstring, hinside⟩

lemma SameSymbol.symbol (hS : e'.Symbol map S) : e.Symbol map S := by
  have hindex : e'.sectionIndex header image.mem = e.sectionIndex header image.mem := by
    unfold Entry.sectionIndex
    rw [h.symbol_eq]
  rcases hS with ⟨hzero, name, hname, hfind⟩ | ⟨hne, hS⟩
  · exact .inl ⟨hindex ▸ hzero, name, h.named hname, hfind⟩
  · rw [hindex] at hne hS
    rw [h.symbol_eq] at hS
    exact .inr ⟨hne, hS⟩

end GotEntry

section Got32

lemma relocateGot32_old (h : s.gotIndex name ≠ 0) :
    relocateGot32 got s ref S name = s.put ref (4 * s.gotIndex name + load s.mem ref) := by
  rw [relocateGot32, if_neg h, UInt32.mul_comm]

lemma relocateGot32_new (h : s.gotIndex name = 0) (href : ∀ x, InBytes ref 4 x → ¬ InGot got x)
    (hroom : s.gotCount + 1 < 4096) :
    (relocateGot32 got s ref S name).mem =
      store (store s.mem (got + 4 * (s.gotCount + 1)) S) ref (4 * (s.gotCount + 1) + load s.mem ref) := by
  have hload : load (store s.mem (got + 4 * (s.gotCount + 1)) S) ref = load s.mem ref :=
    load_congr_inBytes fun x hx => store_of_not_inBytes fun hslot => href x hx (inGot_of_slot hroom hslot)
  rw [relocateGot32, if_pos h]
  simp [Linker.put, UInt32.mul_comm _ 4, hload]

lemma load_slot_store (href : ∀ x, InBytes ref 4 x → ¬ InGot got x) (hk : k < 4096) :
    load (store m ref v) (got + 4 * k) = load m (got + 4 * k) :=
  load_congr_inBytes fun x hx => store_of_not_inBytes fun h => href x h (inGot_of_slot hk hx)

lemma load_slot_store_slot {k' : UInt32} (hk : k < 4096) (hk' : k' < 4096) (hne : k ≠ k') :
    load (store m (got + 4 * k') v) (got + 4 * k) = load m (got + 4 * k) :=
  load_congr_inBytes fun _ hx => store_of_not_inBytes (slots_apart hk hk' hne hx)

end Got32

namespace Run

variable {s : image.Run} {result : Int} {linker : Linker}

/-- The slots that are taken are those of the names of the entries that succeeded, with the values of
their symbols. -/
structure Inv (map : SymbolMap) (s : image.Run) : Prop where
  agrees : Agrees header image.mem s.linker.mem
  count : s.linker.gotCount < 4096
  index : ∀ name, s.linker.gotIndex name ≤ s.linker.gotCount
  named : ∀ name, s.linker.gotIndex name ≠ 0 → ∃ e ∈ s.served, e.Named name
  served : ∀ e ∈ s.served, ∃ name S, e.Named name ∧ e.Symbol map S ∧ s.linker.gotIndex name ≠ 0 ∧
    load s.linker.mem (got + 4 * s.linker.gotIndex name) = S

lemma inv_start (areas : List UInt32) : (start image areas).Inv map where
  agrees _ _ := rfl
  count := show (0 : UInt32) < 4096 by decide
  index _ := le_refl 0
  named _ h := absurd rfl h
  served e he := absurd he not_mem_nil

lemma agrees_store {a : UInt32} (h : Agrees header image.mem m)
    (ha : ∀ x, InBytes a 4 x → ¬ InTables header image.mem x) :
    Agrees header image.mem (store m a v) :=
  fun x hx => (store_of_not_inBytes fun hin => ha x hin hx).trans (h x hx)

variable (hs : s.Inv map)

include hs

lemma Inv.index_lt (name : CStr) : s.linker.gotIndex name < 4096 :=
  UInt32.lt_of_le_of_lt (hs.index name) hs.count

omit hs in
lemma one_le_of_ne_zero (h : k ≠ 0) : 1 ≤ k := by
  have h' : k.toNat ≠ 0 := fun h0 => h (UInt32.toNat_inj.1 h0)
  exact le_iff_toNat_le.2 (Nat.one_le_iff_ne_zero.2 h')

lemma Inv.slot_of_served (he : e' ∈ s.served) (hname : e'.Named name)
    (hS : e'.Symbol map S) : s.linker.gotIndex name ≠ 0 ∧ load s.linker.mem (got + 4 * s.linker.gotIndex name) = S := by
  obtain ⟨name', S', hname', hS', hindex, hload⟩ := hs.served e' he
  obtain rfl := hname.unique hname'
  exact ⟨hindex, hload.trans (hS'.unique hS)⟩

omit hs in
lemma applied_failed : s.Applied map e (-1) s.linker ↔ ¬ s.HasSlot e := by
  constructor
  · exact fun h hslot => absurd (h.again hslot) (by decide)
  · exact fun h => ⟨fun h0 => absurd h0 (by decide), fun _ _ _ => rfl, fun hslot => absurd hslot h⟩

lemma Inv.not_hasSlot_of_missing (hmiss : e.Missing header map image.mem) : ¬ s.HasSlot e := by
  rintro ⟨e', he', hsame⟩
  obtain ⟨-, S, -, hS, -⟩ := hs.served e' he'
  exact Entry.Symbol.not_missing e.isReadable (hsame.symbol hS) hmiss

lemma Inv.clear_of_missing (hmiss : e.Missing header map image.mem) : s.Clear map e where
  value _ _ _ _ _ _ _ _ hS _ := absurd hmiss (Entry.Symbol.not_missing e.isReadable hS)
  room h := absurd h (hs.not_hasSlot_of_missing hmiss)

omit hs in
lemma clear_full (hfull : ¬ s.HasRoom) : s.Clear map e ↔ ¬ s.HasSlot e :=
  ⟨fun h hslot => hfull (h.room hslot), fun h => ⟨fun hroom => absurd hroom hfull, fun hslot => absurd hslot h⟩⟩

lemma Inv.clear_new (hroom : s.HasRoom) (hname : e.Named name)
    (hindex : s.linker.gotIndex name = 0) : s.Clear map e where
  value _ e' he' name' hname' he'name S S' _ hS' := by
    obtain rfl := hname.unique hname'
    exact absurd hindex (hs.slot_of_served he' he'name hS').1
  room _ := hroom

lemma Inv.lt_next (hk : k ≤ s.linker.gotCount) : k < 4096 ∧ k ≠ s.linker.gotCount + 1 := by
  have hcount : s.linker.gotCount.toNat < 4096 := lt_iff_toNat_lt.1 hs.count
  have hle := le_iff_toNat_le.1 hk
  refine ⟨UInt32.lt_of_le_of_lt hk hs.count, fun h => ?_⟩
  have hnat := congrArg toNat h
  rw [UInt32.toNat_add] at hnat
  change _ = (_ + 1) % _ at hnat
  omega

lemma Inv.le_next : s.linker.gotCount ≤ s.linker.gotCount + 1 ∧ 1 ≤ s.linker.gotCount + 1 := by
  have hcount : s.linker.gotCount.toNat < 4096 := lt_iff_toNat_lt.1 hs.count
  have hsum : (s.linker.gotCount + 1).toNat = s.linker.gotCount.toNat + 1 := by
    rw [UInt32.toNat_add]
    change (_ + 1) % _ = _
    omega
  refine ⟨le_iff_toNat_le.2 (by omega), le_iff_toNat_le.2 ?_⟩
  rw [hsum]
  exact Nat.le_add_left 1 _

lemma Inv.new_kept (hroom : s.HasRoom) (hindex : s.linker.gotIndex name = 0) (hk : k ≤ s.linker.gotCount) :
    load (relocateGot32 got s.linker e.target S name).mem (got + 4 * k) = load s.linker.mem (got + 4 * k) := by
  obtain ⟨hlt, hne⟩ := hs.lt_next hk
  rw [relocateGot32_new hindex (fun _ hx => e.not_inGot hx) hroom,
    load_slot_store (fun _ hx => e.not_inGot hx) hlt, load_slot_store_slot hlt hroom hne]

omit hs in
lemma new_slot (hroom : s.HasRoom) (hindex : s.linker.gotIndex name = 0) :
    load (relocateGot32 got s.linker e.target S name).mem (got + 4 * (s.linker.gotCount + 1)) = S := by
  rw [relocateGot32_new hindex (fun _ hx => e.not_inGot hx) hroom,
    load_slot_store (fun _ hx => e.not_inGot hx) hroom, load_store]

lemma Inv.applied_new (hroom : s.HasRoom) (hS : e.Symbol map S) (hindex : s.linker.gotIndex name = 0) :
    s.Applied map e 0 (relocateGot32 got s.linker e.target S name) where
  slot _ := by
    refine ⟨s.linker.gotCount + 1, hs.le_next.2, hroom, ?_, fun S' hS' => ?_⟩
    · rw [relocateGot32_new hindex (fun _ hx => e.not_inGot hx) hroom, load_store]
    · rw [new_slot hroom hindex]
      exact hS.unique hS'
  kept _ _ hk := hs.new_kept hroom hindex hk
  again _ := rfl

lemma Inv.next_new (hroom : s.HasRoom) (hname : e.Named name) (hS : e.Symbol map S)
    (hindex : s.linker.gotIndex name = 0) :
    (s.next e 0 (relocateGot32 got s.linker e.target S name)).Inv map := by
  have hcount : (relocateGot32 got s.linker e.target S name).gotCount = s.linker.gotCount + 1 := by
    rw [relocateGot32, if_pos hindex]
  have hnames : ∀ n, (relocateGot32 got s.linker e.target S name).gotIndex n =
      if n = name then s.linker.gotCount + 1 else s.linker.gotIndex n := by
    intro n
    rw [relocateGot32, if_pos hindex]
    rfl
  refine ⟨?_, ?_, fun n => ?_, fun n hn => ?_, fun e' he' => ?_⟩
  · change Agrees header image.mem (relocateGot32 got s.linker e.target S name).mem
    rw [relocateGot32_new hindex (fun _ hx => e.not_inGot hx) hroom]
    refine agrees_store (agrees_store hs.agrees fun x hx => ?_) fun x hx => ?_
    · exact image.table x (inGot_of_slot hroom hx)
    · exact (image.apart e.toEntry e.isIn e.type x hx).1
  · change (relocateGot32 got s.linker e.target S name).gotCount < 4096
    rwa [hcount]
  · change (relocateGot32 got s.linker e.target S name).gotIndex n ≤ (relocateGot32 got s.linker e.target S name).gotCount
    rw [hnames, hcount]
    split_ifs
    · exact UInt32.le_refl _
    · exact UInt32.le_trans (hs.index n) hs.le_next.1
  · change (relocateGot32 got s.linker e.target S name).gotIndex n ≠ 0 at hn
    rw [hnames] at hn
    by_cases hn' : n = name
    · subst hn'
      exact ⟨e, mem_cons_self, hname⟩
    · rw [if_neg hn'] at hn
      obtain ⟨e', he', hname'⟩ := hs.named n hn
      exact ⟨e', mem_cons_of_mem _ he', hname'⟩
  · change ∃ n T, e'.Named n ∧ e'.Symbol map T ∧ (relocateGot32 got s.linker e.target S name).gotIndex n ≠ 0 ∧
      load (relocateGot32 got s.linker e.target S name).mem
        (got + 4 * (relocateGot32 got s.linker e.target S name).gotIndex n) = T
    rcases mem_cons.1 he' with rfl | hold
    · refine ⟨name, S, hname, hS, ?_, ?_⟩
      · rw [hnames, if_pos rfl]
        exact fun h0 => absurd hs.le_next.2 (by rw [h0]; decide)
      · rw [hnames, if_pos rfl, new_slot hroom hindex]
    · obtain ⟨n, T, hn, hT, hne, hload⟩ := hs.served e' hold
      have hother : n ≠ name := fun h => hne (h ▸ hindex)
      refine ⟨n, T, hn, hT, ?_, ?_⟩
      · rwa [hnames, if_neg hother]
      · rw [hnames, if_neg hother, hs.new_kept hroom hindex (hs.index n), hload]

lemma Inv.applied_old (hS : e.Symbol map S) (hindex : s.linker.gotIndex name ≠ 0) :
    s.Applied map e 0 (relocateGot32 got s.linker e.target S name) ↔
      load s.linker.mem (got + 4 * s.linker.gotIndex name) = S := by
  rw [relocateGot32_old hindex]
  have hkept : ∀ {k : UInt32} {v}, k < 4096 →
      load (s.linker.put e.target v).mem (got + 4 * k) = load s.linker.mem (got + 4 * k) :=
    fun hk => load_slot_store (fun _ hx => e.not_inGot hx) hk
  constructor
  · intro h
    obtain ⟨k, -, hlt, hword, hvalue⟩ := h.slot rfl
    -- the word tells which slot it is
    have hk : k = s.linker.gotIndex name := by
      have hlt' := hs.index_lt name
      rw [Linker.put, load_store] at hword
      have hsame := congrArg UInt32.toNat ((UInt32.add_left_inj _).1 hword)
      rw [toNat_slot hlt, toNat_slot hlt'] at hsame
      exact UInt32.toNat_inj.1 (by omega)
    rw [← hvalue S hS, hk, hkept (hs.index_lt name)]
  · intro h
    refine ⟨fun _ => ⟨s.linker.gotIndex name, one_le_of_ne_zero hindex, hs.index_lt name, ?_, fun S' hS' => ?_⟩,
      fun k _ hk => hkept (hs.lt_next hk).1, fun _ => rfl⟩
    · rw [Linker.put, load_store]
    · rw [hkept (hs.index_lt name), h]
      exact hS.unique hS'

lemma Inv.clear_old (hroom : s.HasRoom) (hname : e.Named name) (hS : e.Symbol map S)
    (hindex : s.linker.gotIndex name ≠ 0) :
    s.Clear map e ↔ load s.linker.mem (got + 4 * s.linker.gotIndex name) = S := by
  constructor
  · intro h
    obtain ⟨e', he', hname'⟩ := hs.named name hindex
    obtain ⟨-, S', -, hS', -⟩ := hs.served e' he'
    rw [(hs.slot_of_served he' hname' hS').2]
    exact (h.value hroom e' he' name hname hname' S S' hS hS').symm
  · intro h
    refine ⟨fun _ e' he' n hn hn' T T' hT hT' => ?_, fun _ => hroom⟩
    obtain rfl := hname.unique hn
    exact (hT.unique hS).trans (h.symm.trans (hs.slot_of_served he' hn' hT').2)

lemma Inv.next_old (hname : e.Named name) (hS : e.Symbol map S) (hindex : s.linker.gotIndex name ≠ 0)
    (hslot : load s.linker.mem (got + 4 * s.linker.gotIndex name) = S) :
    (s.next e 0 (relocateGot32 got s.linker e.target S name)).Inv map := by
  rw [relocateGot32_old hindex]
  have hkept : ∀ n v, load (s.linker.put e.target v).mem (got + 4 * s.linker.gotIndex n) =
      load s.linker.mem (got + 4 * s.linker.gotIndex n) :=
    fun n v => load_slot_store (fun _ hx => e.not_inGot hx) (hs.index_lt n)
  refine ⟨?_, hs.count, hs.index, fun n hn => ?_, fun e' he' => ?_⟩
  · exact agrees_store hs.agrees fun x hx => (image.apart e.toEntry e.isIn e.type x hx).1
  · obtain ⟨e', he', hname'⟩ := hs.named n hn
    exact ⟨e', mem_cons_of_mem _ he', hname'⟩
  · rcases mem_cons.1 he' with rfl | hold
    · exact ⟨name, S, hname, hS, hindex, (hkept name _).trans hslot⟩
    · obtain ⟨n, T, hn, hT, hne, hload⟩ := hs.served e' hold
      exact ⟨n, T, hn, hT, hne, (hkept n _).trans hload⟩

lemma Inv.step (e : image.GotEntry) : ∃ result linker,
    e.relocate map s.linker = some (result, linker) ∧ (s.Applied map e result linker ↔ s.Clear map e) ∧
      (s.Clear map e → (s.next e result linker).Inv map) := by
  rcases e.relocate_cases map hs.agrees with ⟨hmiss, hrun⟩ | ⟨S, name, hS, hname, hrun⟩
  · refine ⟨-1, s.linker, hrun, ?_, fun _ => hs⟩
    rw [applied_failed]
    exact iff_of_true (hs.not_hasSlot_of_missing hmiss) (hs.clear_of_missing hmiss)
  by_cases hroom : s.HasRoom
  · rw [if_neg (UInt32.not_le.2 hroom)] at hrun
    refine ⟨0, _, hrun, ?_⟩
    by_cases hindex : s.linker.gotIndex name = 0
    · refine ⟨iff_of_true (hs.applied_new hroom hS hindex) (hs.clear_new hroom hname hindex), fun _ => ?_⟩
      exact hs.next_new hroom hname hS hindex
    · rw [hs.applied_old hS hindex, hs.clear_old hroom hname hS hindex]
      exact ⟨Iff.rfl, hs.next_old hname hS hindex⟩
  · rw [if_pos (UInt32.not_lt.1 hroom)] at hrun
    refine ⟨-1, s.linker, hrun, ?_, fun _ => hs⟩
    rw [applied_failed, clear_full hroom]

lemma Inv.applies_iff : ∀ es : List image.GotEntry, s.Applies map es ↔ s.AllClear map es := by
  intro es
  induction es generalizing s with
  | nil => exact Iff.rfl
  | cons e es ih =>
    obtain ⟨result, linker, hrun, happlied, hnext⟩ := hs.step e
    constructor
    · rintro ⟨result', linker', hrun', h, hes⟩
      cases Option.some.inj (hrun.symm.trans hrun')
      have hclear := happlied.1 h
      refine ⟨hclear, fun r l hrl => ?_⟩
      cases Option.some.inj (hrun.symm.trans hrl)
      exact (ih (hnext hclear)).1 hes
    · rintro ⟨hclear, hes⟩
      exact ⟨result, linker, hrun, happlied.2 hclear, (ih (hnext hclear)).2 (hes result linker hrun)⟩

end Run

/-- Every entry of a sequence that succeeds leads to a slot with the value of its symbol, no slot changes,
and no entry whose symbol has a slot fails, if and only if the symbols of one name have one value and the
table does not get full before a symbol comes again. -/
theorem got_slots_iff (image : GotImage header got) (map : SymbolMap) (areas : List UInt32)
    (es : List image.GotEntry) :
    (Run.start image areas).Applies map es ↔ (Run.start image areas).AllClear map es :=
  (Run.inv_start areas).applies_iff es

def localsFile : List (UInt32 × UInt32) :=
  [(32, 52), (48, 5),
    -- `.text`, `.rel.text`, `.symtab` and `.strtab`
    (96, 1), (108, 252), (112, 8),
    (136, 9), (148, 260), (152, 16), (156, 3), (160, 1),
    (176, 2), (188, 276), (192, 48), (196, 4),
    (216, 3), (228, 324), (232, 4),
    -- the relocations of the code, and the symbols at its two words
    (260, 0), (264, 0x103), (268, 4), (272, 0x203),
    (304, 0x10000), (312, 4), (320, 0x10000)]

def localsLoaded : Memory := fun x =>
  UInt8.ofNat (((localsFile.lookup (x - 0x10000 - x % 4)).getD 0).toNat / 0x100 ^ (x % 4).toNat)

lemma localsLoaded_isTable {i : UInt32} (h : IsTable 0x10000 localsLoaded i) : i = 2 := by
  have htype := h.type
  have hfive : i < 5 := h.lt.trans_eq (by decide)
  have hsix : i < 6 := UInt32.lt_trans hfive (by decide)
  rcases eq_of_lt_six hsix with rfl | rfl | rfl | rfl | rfl | rfl
  case inr.inr.inl => rfl
  all_goals cases htype

lemma localsLoaded_isIn {e : Entry} (h : e.IsIn 0x10000 localsLoaded) : e = ⟨2, 0⟩ ∨ e = ⟨2, 1⟩ :=
  eq_of_two localsLoaded_isTable (by decide) h

lemma localsLoaded_inTables (h : InTables 0x10000 localsLoaded x) :
    (x - 0x10000).toNat < 252 ∨ 260 ≤ (x - 0x10000).toNat ∧ (x - 0x10000).toNat < 328 := by
  rcases h with h | h | ⟨i, hi, h⟩ | ⟨i, hi, h⟩ | ⟨i, hi, h⟩
  · unfold InBytes at h
    omega
  · have := inFile 52 200 h (by decide)
    omega
  all_goals
    obtain rfl := localsLoaded_isTable hi
  · have := inFile 260 16 h (by decide)
    omega
  · have := inFile 276 48 h (by decide)
    omega
  · have := inFile 324 4 h (by decide)
    omega

lemma localsLoaded_target {e : Entry} (he : e.IsIn 0x10000 localsLoaded)
    (hx : InBytes (e.target 0x10000 localsLoaded) 4 x) :
    252 ≤ (x - 0x10000).toNat ∧ (x - 0x10000).toNat < 260 := by
  rcases localsLoaded_isIn he with rfl | rfl
  · have := inFile 252 4 hx (by decide)
    omega
  · have := inFile 256 4 hx (by decide)
    omega

lemma inGot_locals (hx : InGot 0x30000 x) : 0x20000 ≤ (x - 0x10000).toNat :=
  (inFile 0x20000 (4 * 4096) hx (by decide)).1

def locals : GotImage 0x10000 0x30000 where
  mem := localsLoaded
  readable e he _ := by
    rcases localsLoaded_isIn he with rfl | rfl
    · exact ⟨he, by decide, by decide, by decide, by decide, by decide, fun _ => by decide⟩
    · exact ⟨he, by decide, by decide, by decide, by decide, by decide, fun _ => by decide⟩
  named e he _ := by
    rcases localsLoaded_isIn he with rfl | rfl
    · exact ⟨[], by decide, by decide⟩
    · exact ⟨[], by decide, by decide⟩
  apart e he _ x hx := by
    have hword := localsLoaded_target he hx
    refine ⟨fun h => ?_, fun h => ?_⟩
    · have := localsLoaded_inTables h
      omega
    · have := inGot_locals h
      omega
  table x hx h := by
    have := inGot_locals hx
    have := localsLoaded_inTables h
    omega

def first : locals.GotEntry where
  toEntry := ⟨2, 0⟩
  isIn := ⟨⟨by decide, by decide⟩, by decide⟩
  type := by decide

def second : locals.GotEntry where
  toEntry := ⟨2, 1⟩
  isIn := ⟨⟨by decide, by decide⟩, by decide⟩
  type := by decide

lemma first_symbol : first.Symbol abMap 0x100FC := .inr ⟨by decide, by decide⟩

lemma second_symbol : second.Symbol abMap 0x10100 := .inr ⟨by decide, by decide⟩

lemma first_named : first.Named [] := ⟨by decide, by decide⟩

lemma second_named : second.Named [] := ⟨by decide, by decide⟩

/-- The second symbol gets the slot of the first, since neither has a name. -/
theorem unnamed_symbols_share_slot : (∃ s₁ s₂, first.relocate abMap (Run.start locals []).linker = some (0, s₁) ∧
      second.relocate abMap s₁ = some (0, s₂) ∧
      load s₂.mem second.target = 4 * 1 + load s₁.mem second.target ∧
      load s₂.mem (0x30000 + 4 * 1) = 0x100FC ∧ second.Symbol abMap 0x10100) ∧
    ¬ (Run.start locals []).Applies abMap [first, second] := by
  have hinv : (Run.start locals []).Inv abMap := Run.inv_start []
  have hroom : (Run.start locals []).HasRoom := show (0 : UInt32) + 1 < 4096 by decide
  have hrun := first.relocate_of_symbol hinv.agrees first_symbol first_named hroom
  have hinv' := hinv.next_new hroom first_named first_symbol rfl
  have hroom' : (relocateGot32 0x30000 (Run.start locals []).linker first.target 0x100FC []).gotCount + 1 < 4096 := by
    decide
  have hrun' := second.relocate_of_symbol hinv'.agrees second_symbol second_named hroom'
  refine ⟨⟨_, _, hrun, hrun', ?_, ?_, second_symbol⟩, fun h => ?_⟩
  · exact load_store
  · rw [relocateGot32_old (by decide), Linker.put, load_slot_store (fun _ hx => second.not_inGot hx) (by decide)]
    exact Run.new_slot hroom rfl
  · obtain ⟨-, hclear⟩ := (hinv.applies_iff _).1 h
    have hsecond := (hclear 0 _ hrun).1.value hroom' first mem_cons_self [] second_named first_named
      0x10100 0x100FC second_symbol first_symbol
    cases hsecond

end GotImage

end OlliOS.Elf
