import OlliOS.Proofs.UserImage
import OlliOS.Sbrk

/-!
# The program break

Binding a page for the user keeps which pages the user has or can be given (`bind_grants`).
-/

namespace OlliOS

open PageTableItem Stepping Words List Elf Program Machine
open Option hiding or_assoc

variable {U : ℕ → Prop} {s s' : Machine} {page q t : ℕ}

lemma grantable_of_present (h : s.mapping q ≠ none) : s.Grantable q ↔ UserPage s s.cr3 q :=
  or_iff_left fun hno => h hno.1

lemma grantable_of_absent (h : s.mapping q = none) : s.Grantable q ↔ s.SlotUser (q / 1024) :=
  (or_iff_right (not_userPage h)).trans (and_iff_right h)

/-! ## Binding -/

lemma PageTree.bindPage_user (h : PageTree U s) (hpage : page < window)
    (ht : tableFrame s.mem s.cr3 (page / 1024) = some t) (hs : s.bindPage page .user = some s') :
    s'.mem s.cr3 = s.mem s.cr3 ∧ (s.mapping page = none →
      ∃ v, s'.mapping page = some (s.mem s.cr3 (page / 1024), v) ∧ v.getFlag user = true) := by
  rcases h.bindPage_cases hpage ht hs with ⟨hsome, rfl⟩ | ⟨-, f, hf, -, rfl⟩
  · exact ⟨rfl, fun hno => absurd hno hsome⟩
  · refine ⟨attach_frame_of_ne (h.ne_directory hf) (h.table _ (slot_lt hpage) t ht).symm,
      fun _ => ⟨_, h.mapping_attach hpage hf ht ?_ _, user_enableFlag⟩⟩
    exact present_enableFlag UserMode.user.flags_present

/-- The page is the user's afterwards exactly if it could be given to the user. -/
lemma PageTree.bind_grants (h : PageTree U s) (hpage : page < window) (hU : U (page / 1024))
    (hs : s.bindVirtualPage page .user = some s') :
    PageTree U s' ∧ (UserPage s' s'.cr3 page ↔ s.Grantable page) ∧
      (∀ q < window, q ≠ page → (UserPage s' s'.cr3 q ↔ UserPage s s.cr3 q)) ∧
      ∀ q < window, (s'.Grantable q ↔ s.Grantable q) := by
  have hbinds := h.bindVirtualPage hpage hU hs
  rw [bindVirtualPage_eq h.self] at hs
  obtain ⟨s1, hs1, hs⟩ := bind_eq_some_iff.1 hs
  have hprep := h.prepared (slot_lt hpage) hs1
  obtain ⟨t, ht⟩ := hprep.table
  obtain ⟨hdir, huser⟩ := hprep.tree.bindPage_user hpage ht hs
  have hcr3 : s'.cr3 = s1.cr3 := hbinds.only.cr3.trans hprep.cr3.symm
  have hprepared := h.slotUser_prepared (slot_lt hpage) hs1
  have hslots : ∀ j, s'.SlotUser j ↔ s.SlotUser j := fun j =>
    (slotUser_congr hcr3 (congrFun hdir j)).trans (hprepared j)
  have hself : UserPage s' s'.cr3 page ↔ s.Grantable page := by
    by_cases hno : s.mapping page = none
    · obtain ⟨v, hv, hvu⟩ := huser ((hprep.mapping page hpage).trans hno)
      rw [grantable_of_absent hno, ← hprepared, slotUser_of_table ht]
      exact userPage_of_mapping hv hvu
    · rw [grantable_of_present hno, userPage_congr (hbinds.kept hno)]
  have hothers : ∀ q < window, q ≠ page → (UserPage s' s'.cr3 q ↔ UserPage s s.cr3 q) :=
    fun q hq hne => userPage_congr (hbinds.only.others q hq hne)
  refine ⟨hbinds.only.tree, hself, hothers, fun q hq => ?_⟩
  rcases eq_or_ne q page with rfl | hne
  · have hpresent : s'.mapping q ≠ none := by
      by_cases hno : s.mapping q = none
      · obtain ⟨e, v, hv, -⟩ := hbinds.bound hno
        rw [hv]
        exact some_ne_none _
      · rwa [hbinds.kept hno]
    rw [grantable_of_present hpresent, hself]
  · rw [Grantable, Grantable, hothers q hq hne, hbinds.only.others q hq hne, hslots]

lemma PageTree.bind_behind (h : PageTree U s) {a : ℕ} : ∀ (n : ℕ) {s' : Machine},
    (0 < n → a + n < window) → (∀ q, a < q → q ≤ a + n → U (q / 1024)) →
    (List.range' a n).foldlM (fun s i => s.bindVirtualPage (i + 1) .user) s = some s' →
    PageTree U s' ∧ (∀ q < window, (s'.Grantable q ↔ s.Grantable q)) ∧ ∀ q < window,
      (a < q ∧ q ≤ a + n → (UserPage s' s'.cr3 q ↔ s.Grantable q)) ∧
      (¬ (a < q ∧ q ≤ a + n) → (UserPage s' s'.cr3 q ↔ UserPage s s.cr3 q))
  | 0, s', _, _, hs => by
    cases hs
    exact ⟨h, fun _ _ => Iff.rfl, fun q _ => ⟨fun hq => by omega, fun _ => Iff.rfl⟩⟩
  | n + 1, s', hn, hU, hs => by
    rw [range'_1_concat, foldlM_append] at hs
    obtain ⟨s1, hs1, hs⟩ := bind_eq_some_iff.1 hs
    simp only [foldlM_cons, foldlM_nil, bind_pure] at hs
    obtain ⟨h1, hgrant, huser⟩ := h.bind_behind n (by omega)
      (fun q hlow hhigh => hU q hlow (by omega)) hs1
    obtain ⟨h', hself, hothers, hgrant'⟩ := h1.bind_grants (hn n.succ_pos)
      (hU (a + n + 1) (by omega) (by omega)) hs
    refine ⟨h', fun q hq => (hgrant' q hq).trans (hgrant q hq),
      fun q hq => ⟨fun hin => ?_, fun hout => ?_⟩⟩
    · rcases eq_or_ne q (a + n + 1) with rfl | hne
      · exact hself.trans (hgrant _ hq)
      · exact (hothers q hq hne).trans ((huser q hq).1 (by omega))
    · exact (hothers q hq (by omega)).trans ((huser q hq).2 (by omega))

/-! ## `sbrk` -/

namespace Program

variable {s s' : Program} {inc : Int32} {p : UInt32}

lemma sbrk_spec (h : PageTree U s.machine) (hlow : 0 ≤ (s.programBreak.toNat : ℤ) + inc.toInt)
    (hhigh : (s.programBreak.toNat : ℤ) + inc.toInt < 0xFFC00000) (hU : s.Within U inc)
    (hs : s.sbrk inc = some (s', p)) :
    p = s.programBreak ∧ (s'.programBreak.toNat : ℤ) = s.programBreak.toNat + inc.toInt ∧
      PageTree U s'.machine ∧ ∀ q < window,
        (s.programBreak.toNat / 0x1000 < q ∧ q ≤ s'.programBreak.toNat / 0x1000 →
          (UserPage s'.machine s'.machine.cr3 q ↔ s.machine.Grantable q)) ∧
        (¬ (s.programBreak.toNat / 0x1000 < q ∧ q ≤ s'.programBreak.toNat / 0x1000) →
          (UserPage s'.machine s'.machine.cr3 q ↔ UserPage s.machine s.machine.cr3 q)) := by
  unfold sbrk at hs
  split_ifs at hs with hzero
  · cases hs
    subst hzero
    exact ⟨rfl, (add_zero _).symm, h, fun q _ => ⟨fun hq => by omega, fun _ => Iff.rfl⟩⟩
  obtain ⟨machine, hbind, hs⟩ := bind_eq_some_iff.1 hs
  cases hs
  have hnew := Words.toNat_add_signed hlow (by omega)
  have hcur : (s.programBreak / 0x1000).toNat = s.programBreak.toNat / 0x1000 :=
    UInt32.toNat_div _ _
  have hpage : ((s.programBreak + inc.toUInt32) / 0x1000).toNat =
      (s.programBreak + inc.toUInt32).toNat / 0x1000 := UInt32.toNat_div _ _
  obtain ⟨htree, -, huser⟩ := h.bind_behind _ (by unfold window; omega)
    (fun q hlow hhigh => hU q (by omega) (by omega)) hbind
  refine ⟨rfl, hnew, htree, fun q hq => ?_⟩
  dsimp only
  exact ⟨fun hin => (huser q hq).1 (by omega), fun hout => (huser q hq).2 (by omega)⟩

lemma usable_iff (h : PageTree U s.machine) (hinc : 0 < inc.toInt)
    (hhigh : (s.programBreak.toNat : ℤ) + inc.toInt < 0xFFC00000) (hU : s.Within U inc)
    (hs : s.sbrk inc = some (s', p)) : s'.Usable p inc ↔ s.Grows inc := by
  obtain ⟨rfl, hnew, -, huser⟩ := sbrk_spec h (by omega) hhigh hU hs
  constructor
  · rintro ⟨-, hpages⟩
    refine ⟨by omega, hhigh, fun _ => ?_, fun _ page hlow hpage => ?_⟩
    · exact ((huser _ (by unfold window; omega)).2 (by omega)).1 (hpages _ (by omega) (by omega))
    · exact ((huser page (by unfold window; omega)).1 (by omega)).1 (hpages page (by omega) hpage)
  · intro hgrows
    refine ⟨hnew, fun page hlow hpage => ?_⟩
    rcases Nat.eq_or_lt_of_le (show s.programBreak.toNat / 0x1000 ≤ page by omega) with rfl | hlt
    · exact ((huser _ (by unfold window; omega)).2 (by omega)).2 (hgrows.first hinc)
    · exact ((huser page (by unfold window; omega)).1 (by omega)).2 (hgrows.rest hinc page hlt hpage)

lemma tree_step (s : Program) (inc : Int32) (s' : Program) (h : PageTree U s.machine)
    (hgrows : s.Grows inc ∧ s.Within U inc) (hs : s.step inc = some s') : PageTree U s'.machine := by
  obtain ⟨⟨t, p⟩, hcall, rfl⟩ := map_eq_some_iff.1 hs
  exact (sbrk_spec h hgrows.1.low hgrows.1.high hgrows.2 hcall).2.2.1

end Program

/-! ## The initial break -/

lemma le_foldl_break (e : ℕ) (he : 0 < e) : ∀ (breaks : List UInt32) (brk : UInt32),
    e ≤ (breaks.foldl (fun brk b => if b > brk then b else brk) brk).toNat ↔
      e ≤ brk.toNat ∨ ∃ b ∈ breaks, e ≤ b.toNat
  | [], brk => by simp
  | b :: breaks, brk => by
    rw [foldl_cons, le_foldl_break e he breaks]
    simp only [mem_cons, exists_eq_or_imp, ← or_assoc]
    refine or_congr_left ?_
    split_ifs with hgt
    · rw [gt_iff_lt, UInt32.lt_iff_toNat_lt] at hgt
      omega
    · rw [gt_iff_lt, UInt32.lt_iff_toNat_lt] at hgt
      omega

lemma le_getProgramBreak (m : Memory) (header : UInt32) {e : ℕ} (he : 0 < e) :
    e ≤ (getProgramBreak m header).toNat ↔ ∃ b ∈ sectionBreaks m header, e ≤ b.toNat := by
  rw [getProgramBreak, le_foldl_break e he]
  refine or_iff_right fun hle => ?_
  change e ≤ 0 at hle
  omega

def Elf.ProgramHeader.finish (h : Elf.ProgramHeader) : ℕ :=
  h.virtualAddress.toNat + h.memorySize.toNat

/-- The break is not below a segment exactly if each segment ends at or before the end of a section, and a
call that stays below the window is usable exactly if it lets the break grow as it should. The slots `U`
are those of the pages that the calls bind, or more. -/
theorem sbrk_usable_iff (m : Memory) (header : UInt32) {U : ℕ → Prop} {s₀ : Machine} {init : Program}
    (hinit : load m header s₀ = some init) (htree : PageTree U init.machine) :
    ((∀ h ∈ segments m header, h.finish ≤ init.programBreak.toNat) ↔
      ∀ h ∈ segments m header, h.finish = 0 ∨ ∃ b ∈ sectionBreaks m header, h.finish ≤ b.toNat) ∧
    ∀ s, Reaches step (fun s inc => s.Grows inc ∧ s.Within U inc) init s → ∀ inc s' p,
      0 < inc.toInt → s.sbrk inc = some (s', p) →
      (s.programBreak.toNat : ℤ) + inc.toInt < 0xFFC00000 → s.Within U inc →
      (s'.Usable p inc ↔ s.Grows inc) := by
  constructor
  · obtain ⟨machine, -, rfl⟩ := map_eq_some_iff.1 hinit
    refine forall₂_congr fun h _ => ?_
    rcases Nat.eq_zero_or_pos h.finish with hzero | hpos
    · exact iff_of_true (by omega) (.inl hzero)
    · rw [or_iff_right (by omega)]
      exact le_getProgramBreak m header hpos
  · intro s hrun inc s' p hinc hcall hhigh hU
    exact usable_iff (hrun.invariant htree tree_step) hinc hhigh hU hcall

/-- A file with one segment at `0x400000` of `high` times 256 bytes, and the given number of sections, at
most one; the section is that of the segment. -/
def pageFile (high sections : UInt8) : Memory := fun a =>
  (List.replicate 28 0 ++ [52, 0, 0, 0, 84, 0, 0, 0] ++ List.replicate 8 0 ++
    [1, 0, 0, 0, sections, 0, 0, 0] ++
    [1, 0, 0, 0, 0, 0, 0, 0, 0, 0, 0x40, 0, 0, 0, 0, 0, 0, 0, 0, 0, 0, high, 0, 0] ++
    List.replicate 20 0 ++ [0, 0, 0x40, 0, 0, 0, 0, 0, 0, high, 0, 0] ++
    List.replicate 16 0).getD a.toNat 0

def pageSegment (size : UInt32) : Elf.ProgramHeader := ⟨1, 0, 0x400000, 0, size⟩

section PageFile

variable {size : UInt32} (hpos : 0 < size.toNat) (hle : size.toNat ≤ 0x1000)

include hle in
lemma pageSegment_inRange {x : ℕ} (hx : Elf.InRange (pageSegment size) x) : x / 0x1000 = 0x400 := by
  obtain ⟨hlow, hhigh⟩ := hx
  change 0x400000 ≤ x at hlow
  change x < 0x400000 + size.toNat at hhigh
  omega

include hpos hle in
/-- The page of the segment is bound for the user, and the one behind it is not there. -/
lemma load_pageFile {m : Memory} {header : UInt32}
    (hm : segments m header = [pageSegment size]) :
    ∃ s, load m header bareMachine = some ⟨s, getProgramBreak m header⟩ ∧ AddressSpace (· < 768) s ∧
      UserPage s s.cr3 0x400 ∧ s.mapping 0x401 = none ∧ s.SlotUser 1 ∧ 2 ≤ s.bitmap.freeCount := by
  have hempty : Holding (· < 768) bareMachine bareMachine (Elf.Touched []) (imageByte m header []) :=
    ⟨bareMachine_space, fun _ => Iff.rfl, fun q ⟨g, hg, _⟩ => absurd hg not_mem_nil,
      fun y ⟨g, hg, _⟩ => absurd hg not_mem_nil, fun _ _ _ => rfl⟩
  have hcount := bareMachine_freeCount
  have hpages : (pageCount (pageSegment size)).toNat = 1 := by
    rw [pageCount_toNat]
    change (size.toNat + 0xfff) / 0x1000 = 1
    omega
  have hslot : bareMachine.SlotUser 1 := .inl (bareMachine_table (by decide))
  obtain ⟨s, hs, hheld, hcount'⟩ := loadSegment_spec hempty (h := pageSegment size) rfl
    (by change 0x400000 + size.toNat ≤ _; omega)
    (fun g hg => by rw [mem_singleton.1 hg]; exact Nat.zero_le _)
    (fun x hx => by rw [pageSegment_inRange hle hx]; decide)
    (fun x hx => by rw [pageSegment_inRange hle hx]; exact bareMachine_mapping (by decide))
    (.inl (by decide : 0x400000 % 0x1000 = 0)) (by omega)
  refine ⟨s, ?_, hheld.space, ?_, ?_, (hheld.slots 1).2 hslot, by omega⟩
  · have hlink : linkInUserspace m header bareMachine = some s := by
      refine (foldlM_segments _ _).trans ?_
      rw [← segments, hm, foldlM_cons, hs]
      rfl
    rw [Program.load, hlink]
    rfl
  · refine (hheld.held 0x400 ⟨_, mem_singleton_self _, 0x400000, ⟨le_rfl, ?_⟩, rfl⟩).2.2 hslot
    change 0x400000 < 0x400000 + size.toNat
    omega
  · refine (hheld.rest 0x401 (by decide) ?_).trans (bareMachine_mapping (by decide))
    rintro ⟨g, hg, y, hy, hpage⟩
    rw [mem_singleton.1 hg] at hy
    exact absurd ((pageSegment_inRange hle hy).symm.trans hpage) (by decide)

end PageFile

/-- The break is in the middle of a page, and a whole page is asked for. -/
theorem sbrk_usable_iff_first : ∃ init s' p, load (pageFile 8 1) 0 bareMachine = some init ∧
    init.sbrk 0x1000 = some (s', p) ∧ s'.Usable p 0x1000 := by
  have hbreak : getProgramBreak (pageFile 8 1) 0 = 0x400800 := by decide
  have hsegments : segments (pageFile 8 1) 0 = [pageSegment 0x800] := by decide
  obtain ⟨s, hload, hspace, huser, hnone, hslot, hcount⟩ :=
    load_pageFile (by decide) (by decide) hsegments
  rw [hbreak] at hload
  obtain ⟨s', hs'⟩ := hspace.exists_bindVirtualPage (by decide : 0x401 < window) .user hcount
  have hbrk : (0x400800 : UInt32).toNat = 0x400800 := rfl
  have hinc : (0x1000 : Int32).toInt = 0x1000 := by decide
  have hcall : (mk s 0x400800).sbrk 0x1000 = some (⟨s', 0x401800⟩, 0x400800) := by
    have hcur : ((0x400800 : UInt32) / 0x1000).toNat = 0x400 := by decide
    have hnew : ((0x401800 : UInt32) / 0x1000).toNat = 0x401 := by decide
    have hsum : (0x400800 + (0x1000 : Int32).toUInt32 : UInt32) = 0x401800 := by decide
    simp only [sbrk, if_neg (by decide : ¬ (0x1000 : Int32) = 0), hsum, hcur, hnew]
    rw [show List.range' 0x400 (0x401 - 0x400) = [0x400] from rfl, foldlM_cons, hs']
    rfl
  have hU : (mk s 0x400800).Within (· < 768) 0x1000 := fun page _ hpage => by
    simp only [hbrk, hinc] at hpage
    omega
  have hgrows : (mk s 0x400800).Grows 0x1000 := by
    refine ⟨?_, ?_, fun _ => ?_, fun _ page hlow hpage => .inr ?_⟩
    · simp only [hbrk, hinc]
      decide
    · simp only [hbrk, hinc]
      decide
    · simp only [hbrk]
      exact huser
    · simp only [hbrk, hinc] at hlow hpage
      obtain rfl : page = 0x401 := by omega
      exact ⟨hnone, hslot⟩
  exact ⟨_, _, _, hload, hcall, ((sbrk_usable_iff _ _ hload hspace.toPageTree).2 _ (.refl _) _ _ _
    (by decide) hcall hgrows.high hU).2 hgrows⟩

/-- The segment and the section end with a page: the next byte is on a page that is not bound. Without a
section the break is 0. -/
theorem sbrk_not_usable : (∃ init s', load (pageFile 0x10 1) 0 bareMachine = some init ∧
      init.sbrk 1 = some (s', 0x401000) ∧ s'.machine.translate 0x401 = none ∧
      ¬ s'.Usable 0x401000 1) ∧
    ∃ init, load (pageFile 0x10 0) 0 bareMachine = some init ∧
      ∃ h ∈ segments (pageFile 0x10 0) 0, init.programBreak.toNat < h.finish := by
  constructor
  · have hbreak : getProgramBreak (pageFile 0x10 1) 0 = 0x401000 := by decide
    have hsegments : segments (pageFile 0x10 1) 0 = [pageSegment 0x1000] := by decide
    obtain ⟨s, hs, -, -, hnone, -⟩ := load_pageFile (by decide) (by decide) hsegments
    have hcall : (mk s 0x401000).sbrk 1 = some (⟨s, 0x401001⟩, 0x401000) := by
      simp only [sbrk]
      rfl
    refine ⟨_, ⟨s, 0x401001⟩, hs, hcall, mapping_eq_none_iff.1 hnone, fun husable => ?_⟩
    exact not_userPage hnone (husable.2 0x401 (by decide) (by decide))
  · have hbreak : getProgramBreak (pageFile 0x10 0) 0 = 0 := by decide
    have hsegments : segments (pageFile 0x10 0) 0 = [pageSegment 0x1000] := by decide
    obtain ⟨s, hs, -⟩ := load_pageFile (by decide) (by decide) hsegments
    exact ⟨_, hs, pageSegment 0x1000, by exact mem_singleton_self _,
      (by decide : (0 : UInt32).toNat < (pageSegment 0x1000).finish)⟩

end OlliOS
