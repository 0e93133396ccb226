import OlliOS.Proofs.Paging

/-!
# The clone of an address space

The invariant of the loops (`Copied`) names the frame that each table and page of the clone has been given
so far.
-/

namespace OlliOS

open Function Machine List Option PageTableItem

section Clone

variable {s s' : Machine} {d : ℕ} {v kernelEnd dir e : ℕ}

lemma Current.pageUnused (h : Current s d) {i : ℕ} (hlo : 768 ≤ i / 1024) (hhi : i / 1024 < 1023) :
    s.pageUnused i = some (pageFrame s.mem d (i / 1024) (i % 1024)).isNone := by
  obtain ⟨t, ht, -⟩ := h.kernel _ hlo hhi
  have ht' : tableFrame s.mem s.cr3 (i / 1024) = some t := by rw [h.cr3]; exact ht
  simp only [Machine.pageUnused, read_entry h.selfMapped, read_table h.selfMapped
    (by omega : i / 1024 < 1024) ht', (tableFrame_eq_some.1 ht').1, bind_eq_bind,
    bind_some, Option.pure_def, Bool.not_true, Bool.false_eq_true, if_false, pageFrame, ht]
  unfold tableFrame
  cases hf : (s.mem t (i % 1024)).getFlag present <;> simp [hf]

lemma Current.firstUnused (h : Current s d) (hv : v < 1023 * 1024)
    (hnone : pageFrame s.mem d (v / 1024) (v % 1024) = none) :
    ∀ n i, 768 * 1024 ≤ i → i ≤ v → v < i + n → ∃ j, s.firstUnused 1 n i = some (some j) ∧
      i ≤ j ∧ j ≤ v ∧ pageFrame s.mem d (j / 1024) (j % 1024) = none
  | 0, i, _, hi, hn => by omega
  | n + 1, i, hlo, hi, hn => by
    have hall : ((List.range 1).allM fun _ => s.pageUnused i) =
        some (pageFrame s.mem d (i / 1024) (i % 1024)).isNone := by
      simp only [h.pageUnused (i := i) (by omega) (by omega)]
      cases (pageFrame s.mem d (i / 1024) (i % 1024)).isNone <;> rfl
    simp only [Machine.firstUnused, hall]
    rcases hp : pageFrame s.mem d (i / 1024) (i % 1024) with _ | f
    · exact ⟨i, rfl, le_refl i, hi, hp⟩
    · have hne : i ≠ v := by
        rintro rfl
        cases hp.symm.trans hnone
      obtain ⟨j, hj, hij, hjv, hjn⟩ := h.firstUnused hv hnone n (i + 1) (by omega) (by omega) (by omega)
      exact ⟨j, hj, by omega, hjv, hjn⟩

lemma Current.allocatePageDirectory (h : Current s d)
    (hk : 768 * 1024 ≤ kernelEnd) (hkv : kernelEnd ≤ v) (hv : v < 1023 * 1024)
    (hnone : pageFrame s.mem d (v / 1024) (v % 1024) = none) (hfree : 0 < s.bitmap.freeCount) :
    ∃ s' dir e, s.allocatePageDirectory kernelEnd = some (s', dir) ∧ KernelBinds s s' d 1 ∧
      768 ≤ dir / 1024 ∧ dir / 1024 < 1023 ∧
      pageFrame s'.mem d (dir / 1024) (dir % 1024) = some e ∧
      s.bitmap.Free e ∧ ¬ s'.bitmap.Free e := by
  obtain ⟨dir, hdir, hlo, hhi, hunused⟩ := h.firstUnused hv hnone
    (1024 * 1024 - 1 + 1 - kernelEnd) kernelEnd hk hkv (by omega)
  obtain ⟨s', hbind, hbinds, e, he, hfresh⟩ := h.bindVirtualPage dir (by omega) (by omega) hfree .supervisor
  obtain ⟨hef, heu, hzero⟩ := hfresh hunused
  have htr : s'.translate dir = some e := by
    rwa [Machine.translate, hbinds.ready.cr3]
  refine ⟨s', dir, e, ?_, hbinds, by omega, by omega, he, hef, heu⟩
  have hsame : s'.fill e (fun _ => 0) = s' := by rw [← hzero, fill, update_eq_self]
  simp only [Machine.allocatePageDirectory, Machine.bindFirstFreeVirtualPages, hdir,
    bind_eq_bind, bind_some, range'_one, foldlM_cons, foldlM_nil,
    hbind, Option.pure_def, writePage_eq htr, hsame]

def cloned (entries : Page) (e : ℕ) : Page := fun i =>
  if i < 768 then (entries i).disableFlag owned
  else if i = 1023 then
    ((entries 1023).setAddress (ofFrame e)).enableFlag (rw ||| present)
  else entries i

lemma cloned_eq (entries : Page) (e : ℕ) : (fun i =>
    if i < 256 * 3 then (update entries 1023 (((entries 1023).setAddress
      (ofFrame e)).enableFlag (rw ||| present))
      i).disableFlag owned
    else update entries 1023 (((entries 1023).setAddress (ofFrame e)).enableFlag (rw ||| present)) i) =
    cloned entries e := by
  funext i
  unfold cloned
  by_cases hi : i < 768
  · rw [if_pos hi, if_pos (by omega), update_of_ne (by omega)]
  · rw [if_neg hi, if_neg (by omega)]
    by_cases hlast : i = 1023
    · rw [if_pos hlast, hlast, update_self]
    · rw [if_neg hlast, update_of_ne hlast]

lemma Current.translate_fill (h : Current s d) (hlo : 768 ≤ dir / 1024)
    (hhi : dir / 1024 < 1023) (he : pageFrame s.mem d (dir / 1024) (dir % 1024) = some e)
    (hed : e ≠ d) (hek : ¬ KernelTable s.mem d e) (content : Page) :
    (s.fill e content).translate dir = some e := by
  obtain ⟨t, ht, hk⟩ := pageFrame_eq_some.1 he
  have hte : t ≠ e := fun heq => hek (heq ▸ ⟨_, hlo, hhi, ht⟩)
  have hcr3 : (s.fill e content).cr3 = d := h.cr3
  rw [Machine.translate, hcr3]
  refine pageFrame_eq_some.2 ⟨t, ?_, ?_⟩
  · exact (tableFrame_congr (by rw [fill_of_ne hed.symm])).trans ht
  · exact (tableFrame_congr (by rw [fill_of_ne hte])).trans hk

lemma disown_spec (htr : ∀ content, (s.fill e content).translate dir = some e) (content : Page) (n : ℕ) :
    (List.range n).foldlM (fun s i => s.modify dir i (·.disableFlag owned)) (s.fill e content) =
      some (s.fill e fun i =>
        if i < n then (content i).disableFlag owned else content i) := by
  induction n with
  | zero => simp
  | succ n ih =>
    rw [range_succ, foldlM_append, ih, bind_eq_bind, bind_some,
      foldlM_cons, modify_eq (htr _), bind_eq_bind, bind_some, foldlM_nil,
      Option.pure_def, poke_fill, fill_self]
    congr 2
    funext i
    rcases Nat.lt_trichotomy i n with hi | rfl | hi
    · rw [update_of_ne (by omega), if_pos hi, if_pos (by omega)]
    · rw [update_self, if_neg (by omega), if_pos (by omega)]
    · rw [update_of_ne (by omega), if_neg (by omega), if_neg (by omega)]

lemma Current.clone (h : Current s d) {this : ℕ} (hk : 768 * 1024 ≤ kernelEnd)
    (hkv : kernelEnd ≤ v) (hv : v < 1023 * 1024)
    (hnone : pageFrame s.mem d (v / 1024) (v % 1024) = none) (hfree : 0 < s.bitmap.freeCount)
    (htlo : 768 ≤ this / 1024) (hthi : this / 1024 < 1023)
    (hthis : pageFrame s.mem d (this / 1024) (this % 1024) = some d) :
    ∃ s' dir e, s.clone kernelEnd this = some (s', dir) ∧ KernelBinds s s' d 1 ∧
      768 ≤ dir / 1024 ∧ dir / 1024 < 1023 ∧
      pageFrame s'.mem d (dir / 1024) (dir % 1024) = some e ∧
      s.bitmap.Free e ∧ ¬ s'.bitmap.Free e ∧ s'.mem e = cloned (s.mem d) e := by
  obtain ⟨s1, dir, e, halloc, hbinds, hlo, hhi, he, hef, heu⟩ := h.allocatePageDirectory hk hkv hv hnone hfree
  have hed : e ≠ d := fun heq => h.not_free (heq ▸ hef)
  have hek : ¬ KernelTable s1.mem d e := fun hkt => h.used e ((hbinds.kernelTable_iff e).1 hkt).reachable hef
  have htr := hbinds.ready.translate_fill hlo hhi he hed hek
  have hcur : ∀ content, Current (s1.fill e content) d := fun content => (hbinds.fill h hef content).ready
  have hread : s1.readPage this = some (s.mem d) := by
    rw [readPage, Machine.translate, hbinds.ready.cr3, hbinds.pageFrame_eq htlo hthi hthis]
    simp [hbinds.dir]
  have hdir : s1.translate dir = some e := by
    rwa [Machine.translate, hbinds.ready.cr3]
  have hlast : ∀ v, ((s1.fill e (s.mem d)).poke e 1023 v).translate dir = some e := by
    intro v
    rw [poke_fill]
    exact htr _
  have hclone := disown_spec htr (update (s.mem d) 1023 (((s.mem d 1023).setAddress (ofFrame e)).enableFlag
      (rw ||| present))) (256 * 3)
  rw [cloned_eq] at hclone
  refine ⟨s1.fill e (cloned (s.mem d) e), dir, e, ?_, hbinds.fill h hef _, hlo, hhi, ?_, hef, heu, fill_self⟩
  · simp only [Machine.clone, halloc, bind_eq_bind, bind_some, hread,
      writePage_eq hdir, getPhysicalAddress_eq (hcur _).selfMapped (by omega : dir / 1024 < 1024)
        (htr _), modify_modify (htr _) hlast, poke_fill, fill_self, hclone, Option.pure_def]
  · have hfinal := htr (cloned (s.mem d) e)
    rwa [Machine.translate, (hcur _).cr3] at hfinal

lemma Current.bindAll {heap : List ℕ} (hheap : ∀ v ∈ heap, 768 ≤ v / 1024 ∧ v / 1024 < 1023)
    (h : Current s d) (hcount : heap.length ≤ s.bitmap.freeCount) :
    ∃ s', heap.foldlM (fun s page => s.bindVirtualPage page .supervisor) s = some s' ∧
      KernelBinds s s' d heap.length := by
  induction heap generalizing s with
  | nil => exact ⟨s, rfl, .refl h 0⟩
  | cons v vs ih =>
    simp only [length_cons] at hcount
    obtain ⟨hlo, hhi⟩ := hheap v (by simp)
    obtain ⟨s1, hs1, hb1, -⟩ := h.bindVirtualPage v hlo hhi (by omega) .supervisor
    have := hb1.count
    obtain ⟨s2, hs2, hb2⟩ := ih (fun w hw => hheap w (by simp [hw])) hb1.ready (by omega)
    refine ⟨s2, ?_, ?_⟩
    · rw [foldlM_cons, hs1, bind_eq_bind, bind_some, hs2]
    · rw [length_cons, Nat.add_comm]
      exact hb1.trans hb2

end Clone

structure CopyBase (b : Machine) (e : ℕ) : Prop where
  cr3 : b.cr3 = e
  self : tableFrame b.mem e 1023 = some e
  dir : ¬ b.bitmap.Free e
  tables : ∀ i t, 1 ≤ i → i < 768 → tableFrame b.mem e i = some t → ¬ b.bitmap.Free t ∧ t ≠ e
  pages : ∀ i t k p, 1 ≤ i → i < 768 → tableFrame b.mem e i = some t → k < 1024 →
    tableFrame b.mem t k = some p → ¬ b.bitmap.Free p ∧ p ≠ e

/-- `g (i, none)` is the frame that table `i` of the clone has been given since the loops began, and
`g (i, some k)` the frame that its page `k` has been given. -/
structure Copied (b s : Machine) (e : ℕ) (g : ℕ × Option ℕ → Option ℕ) : Prop where
  cr3 : s.cr3 = e
  old : ∀ f, ¬ b.bitmap.Free f → f ≠ e → s.mem f = b.mem f
  free : ∀ f, s.bitmap.Free f → b.bitmap.Free f
  fresh : ∀ l f, g l = some f → b.bitmap.Free f ∧ ¬ s.bitmap.Free f
  inj : ∀ l l' f, g l = some f → g l' = some f → l = l'
  range : ∀ l f, g l = some f → 1 ≤ l.1 ∧ l.1 < 768
  owner : ∀ i k, g (i, none) = none → g (i, some k) = none
  entry : ∀ i, g (i, none) = none → s.mem e i = b.mem e i
  table : ∀ i f, g (i, none) = some f → tableFrame s.mem e i = some f ∧
    ∃ t, tableFrame b.mem e i = some t ∧ ∀ k, (g (i, some k) = none → s.mem f k = b.mem t k) ∧
      ∀ f', g (i, some k) = some f' → tableFrame s.mem f k = some f' ∧
        ∃ p, tableFrame b.mem t k = some p ∧ s.mem f' = b.mem p

namespace Copied

variable {b s s' : Machine} {e i k f t p : ℕ} {g : ℕ × Option ℕ → Option ℕ}
  {flags : PageTableItem} {l : ℕ × Option ℕ} {x : ℕ}

lemma start (h : CopyBase b e) : Copied b b e fun _ => none where
  cr3 := h.cr3
  old _ _ _ := rfl
  free _ h := h
  fresh _ _ h := nomatch h
  inj _ _ _ h := nomatch h
  range _ _ h := nomatch h
  owner _ _ _ := rfl
  entry _ _ := rfl
  table _ _ h := nomatch h

section

variable (h : Copied b s e g) {f' : ℕ}

include h

lemma ne_new (hl : g l = some f') (hf : s.bitmap.Free f) : f' ≠ f :=
  fun heq => (h.fresh l f' hl).2 (heq ▸ hf)

lemma ne_old (hl : g l = some f') (hf : ¬ b.bitmap.Free f) : f' ≠ f :=
  fun heq => hf (heq ▸ (h.fresh l f' hl).1)

lemma fresh_update (hfree : s.bitmap.Free f) (l0 : ℕ × Option ℕ)
    (l : ℕ × Option ℕ) (x : ℕ) (hl : update g l0 (some f) l = some x) :
    b.bitmap.Free x ∧ ¬ (s.bitmap.mark f).Free x := by
  rw [update_apply] at hl
  rw [Bitmap.free_mark]
  split_ifs at hl with heq
  · cases hl
    exact ⟨h.free f hfree, fun hx => hx.1 rfl⟩
  · exact ⟨(h.fresh l x hl).1, fun hx => (h.fresh l x hl).2 hx.2⟩

lemma inj_update (hfree : s.bitmap.Free f) (l0 : ℕ × Option ℕ)
    (l l' : ℕ × Option ℕ) (x : ℕ) (hl : update g l0 (some f) l = some x)
    (hl' : update g l0 (some f) l' = some x) : l = l' := by
  rw [update_apply] at hl hl'
  split_ifs at hl hl' with heq heq' heq'
  · rw [heq, heq']
  · exact absurd (some.inj hl).symm (h.ne_new hl' hfree)
  · exact absurd (some.inj hl').symm (h.ne_new hl hfree)
  · exact h.inj l l' x hl hl'

lemma range_update {l0 : ℕ × Option ℕ} (hl0 : 1 ≤ l0.1 ∧ l0.1 < 768)
    (l : ℕ × Option ℕ) (x : ℕ) (hl : update g l0 (some f) l = some x) :
    1 ≤ l.1 ∧ l.1 < 768 := by
  rw [update_apply] at hl
  split_ifs at hl with heq
  · rwa [heq]
  · exact h.range l x hl

end

lemma attach_entry (hb : CopyBase b e) (h : Copied b s e g) (hi : 1 ≤ i ∧ i < 768)
    (ht : tableFrame b.mem e i = some t) (ht' : ¬ b.bitmap.Free t ∧ t ≠ e)
    (hg : g (i, none) = none) (v : PageTableItem) (hp : flags.getLsbD 0 = true)
    (hz : flags >>> 12 = 0#32) (ha : s.allocate = some (f, s')) :
    Copied b (s.attach e i ((v.setAddress (ofFrame f)).enableFlag flags) f (s.mem t))
      e (update g (i, none) (some f)) := by
  obtain ⟨hfree, hlt, -, -⟩ := allocate_eq_some ha
  have hef : e ≠ f := fun heq => hb.dir (h.free e (heq ▸ hfree))
  refine ⟨h.cr3, fun x hx hxe => ?_, fun x hx => h.free x (attach_free.1 hx).2,
    h.fresh_update hfree _, h.inj_update hfree _, h.range_update hi, fun j k hj => ?_,
    fun j hj => ?_, fun j x hj => ?_⟩
  · have hxf : x ≠ f := fun heq => hx (h.free x (heq ▸ hfree))
    rw [attach_frame_of_ne hxf hxe, h.old x hx hxe]
  · rw [update_of_ne (by simp)]
    rw [update_apply] at hj
    split_ifs at hj
    exact h.owner j k hj
  · rw [update_apply] at hj
    split_ifs at hj with heq
    rw [attach_of_ne hef (.inr fun hji => heq (by rw [hji])), h.entry j hj]
  · rw [update_apply] at hj
    split_ifs at hj with heq
    · cases hj
      obtain rfl : j = i := congrArg Prod.fst heq
      refine ⟨tableFrame_attach hef hlt hp hz, t, ht, fun k => ⟨fun _ => ?_, fun x hx => ?_⟩⟩
      · rw [attach_new, h.old t ht'.1 ht'.2]
      · rw [update_of_ne (by simp), h.owner j k hg] at hx
        cases hx
    · obtain ⟨hx, t', ht', hpages⟩ := h.table j x hj
      have hxe : x ≠ e := h.ne_old hj hb.dir
      have hji : j ≠ i := fun hji => heq (by rw [hji])
      refine ⟨?_, t', ht', fun k => ⟨fun hk => ?_, fun y hy => ?_⟩⟩
      · rwa [tableFrame_congr (attach_of_ne hef (.inr hji))]
      · rw [update_of_ne (by simp)] at hk
        rw [attach_frame_of_ne (h.ne_new hj hfree) hxe]
        exact (hpages k).1 hk
      · rw [update_of_ne (by simp)] at hy
        rw [attach_frame_of_ne (h.ne_new hy hfree) (h.ne_old hy hb.dir),
          tableFrame_congr (attach_of_ne (h.ne_new hj hfree) (.inl hxe))]
        exact (hpages k).2 y hy

lemma attach_page (hb : CopyBase b e) (h : Copied b s e g) (hx : g (i, none) = some x)
    (ht : tableFrame b.mem e i = some t) (hpage : tableFrame b.mem t k = some p)
    (hp' : ¬ b.bitmap.Free p ∧ p ≠ e) (v : PageTableItem) (hp : flags.getLsbD 0 = true)
    (hz : flags >>> 12 = 0#32) (ha : s.allocate = some (f, s')) :
    Copied b (s.attach x k ((v.setAddress (ofFrame f)).enableFlag flags) f (s.mem p))
      e (update g (i, some k) (some f)) := by
  obtain ⟨hfree, hlt, -, -⟩ := allocate_eq_some ha
  have hef : e ≠ f := fun heq => hb.dir (h.free e (heq ▸ hfree))
  have hxf := h.ne_new hx hfree
  have hex : e ≠ x := (h.ne_old hx hb.dir).symm
  refine ⟨h.cr3, fun y hy hye => ?_, fun y hy => h.free y (attach_free.1 hy).2,
    h.fresh_update hfree _, h.inj_update hfree _, h.range_update (by exact h.range (i, none) x hx),
    fun j k' hj => ?_, fun j hj => ?_, fun j y hj => ?_⟩
  · have hyf : y ≠ f := fun heq => hy (h.free y (heq ▸ hfree))
    rw [attach_frame_of_ne hyf (h.ne_old hx hy).symm, h.old y hy hye]
  · rw [update_of_ne (by simp)] at hj
    have hji : j ≠ i := by
      rintro rfl
      cases hx.symm.trans hj
    rw [update_of_ne (fun heq => hji (congrArg Prod.fst heq))]
    exact h.owner j k' hj
  · rw [update_of_ne (by simp)] at hj
    rw [attach_frame_of_ne hef hex, h.entry j hj]
  · rw [update_of_ne (by simp)] at hj
    obtain ⟨hy, t', ht', hpages⟩ := h.table j y hj
    have hyf := h.ne_new hj hfree
    have hword : ∀ k', (j, some k') ≠ (i, some k) → y ≠ x ∨ k' ≠ k := by
      intro k' hne
      by_contra hno
      obtain ⟨rfl, rfl⟩ := not_or.1 hno |>.imp not_not.1 not_not.1
      exact hne (by rw [(Prod.mk.inj (h.inj _ _ y hj hx)).1])
    refine ⟨?_, t', ht', fun k' => ⟨fun hk => ?_, fun z hz' => ?_⟩⟩
    · rwa [tableFrame_congr (congrFun (attach_frame_of_ne hef hex) j)]
    · rw [update_apply] at hk
      split_ifs at hk with heq
      rw [attach_of_ne hyf (hword k' heq), (hpages k').1 hk]
    · rw [update_apply] at hz'
      split_ifs at hz' with heq
      · cases hz'
        obtain ⟨rfl, hkk⟩ := Prod.mk.inj heq
        cases hkk
        cases hj.symm.trans hx
        cases ht'.symm.trans ht
        refine ⟨tableFrame_attach hxf hlt hp hz, p, hpage, ?_⟩
        rw [attach_new, h.old p hp'.1 hp'.2]
      · have hzx : z ≠ x := by
          rintro rfl
          cases h.inj _ _ z hz' hx
        rw [attach_frame_of_ne (h.ne_new hz' hfree) hzx, tableFrame_congr (attach_of_ne hyf (hword k' heq))]
        exact (hpages k').2 z hz'

lemma entry_of_ge (h : Copied b s e g) (hi : 768 ≤ i) : s.mem e i = b.mem e i := by
  refine h.entry i ?_
  by_contra hno
  obtain ⟨f, hf⟩ := ne_none_iff_exists'.1 hno
  have hlt := (h.range _ f hf).2
  exact absurd hi (Nat.not_le.2 hlt)

lemma selfMapped (hb : CopyBase b e) (h : Copied b s e g) : s.SelfMapped := by
  unfold SelfMapped
  rw [h.cr3, tableFrame_congr (h.entry_of_ge (by omega : 768 ≤ 1023))]
  exact hb.self

lemma clonePage (hb : CopyBase b e) (h : Copied b s e g) (hi : 1 ≤ i ∧ i < 768)
    (hx : g (i, none) = some x) (ht : tableFrame b.mem e i = some t) (hk : k < 1024)
    (hg : g (i, some k) = none) (hcount : (tableFrame b.mem t k).isSome → 0 < s.bitmap.freeCount) :
    ∃ s' g', clonePage i s k = some s' ∧ Copied b s' e g' ∧ (∀ l, l ≠ (i, some k) → g' l = g l) ∧
      ((tableFrame b.mem t k).isSome → g' (i, some k) ≠ none) ∧
      s.bitmap.freeCount ≤ s'.bitmap.freeCount + if (tableFrame b.mem t k).isSome then 1 else 0 := by
  obtain ⟨hentry, t', ht', hpages⟩ := h.table i x hx
  obtain rfl := some.inj (ht'.symm.trans ht)
  have hself := h.selfMapped hb
  have hxe : tableFrame s.mem s.cr3 i = some x := by rw [h.cr3]; exact hentry
  have hword : tableFrame s.mem x k = tableFrame b.mem t' k := tableFrame_congr ((hpages k).1 hg)
  have hdiv : (i * 1024 + k) / 1024 = i := by omega
  have hmod : (i * 1024 + k) % 1024 = k := by omega
  unfold Machine.clonePage
  rw [read_table hself (by omega) hxe, bind_eq_bind, bind_some]
  rcases hp : tableFrame b.mem t' k with _ | p
  · rw [hp] at hword
    have habs : (s.mem x k).getFlag present = false := by
      by_contra hno
      simp [tableFrame, hno] at hword
    rw [if_neg (by simp [habs])]
    exact ⟨s, g, rfl, h, fun _ _ => rfl, fun hno => by simp at hno, by omega⟩
  · rw [hp] at hword
    obtain ⟨hpf, hpe⟩ := hb.pages i t' k p hi.1 hi.2 ht hk hp
    obtain ⟨f, s1, ha⟩ := exists_allocate (hcount (by simp [hp]))
    have hread : s.readPage (i * 1024 + k) = some (s.mem p) := by
      rw [readPage, translate_mul_add hk, pageFrame_eq_some.2 ⟨x, hxe, hword⟩]
      rfl
    have hcopy := attach_table (i * 1024 + k) (s.mem p) (rw ||| present)
      hself (by omega) (by rwa [hdiv]) (h.cr3 ▸ h.ne_old hx hb.dir) (by decide) (by decide) ha
    rw [hdiv, hmod] at hcopy
    rw [if_pos (tableFrame_eq_some.1 hword).1]
    simp only [hread, ha]
    refine ⟨_, _, hcopy, h.attach_page hb hx ht hp ⟨hpf, hpe⟩ _ (by decide) (by decide) ha,
      fun l hl => update_of_ne hl _ _, fun _ => ?_, ?_⟩
    · simp
    · obtain ⟨-, -, rfl, hc⟩ := allocate_eq_some ha
      exact Nat.le_of_eq hc

lemma clonePages (hb : CopyBase b e) (hi : 1 ≤ i ∧ i < 768) (ht : tableFrame b.mem e i = some t) :
    ∀ (ks : List ℕ) {s : Machine}
    {g : ℕ × Option ℕ → Option ℕ}, Copied b s e g → g (i, none) = some x → ks.Nodup →
    (∀ k ∈ ks, k < 1024 ∧ g (i, some k) = none) →
    ks.countP (fun k => (tableFrame b.mem t k).isSome) ≤ s.bitmap.freeCount →
    ∃ s' g', ks.foldlM (Machine.clonePage i) s = some s' ∧ Copied b s' e g' ∧
      (∀ l, (∀ k ∈ ks, l ≠ (i, some k)) → g' l = g l) ∧
      (∀ k ∈ ks, (tableFrame b.mem t k).isSome → g' (i, some k) ≠ none) ∧
      s.bitmap.freeCount ≤ s'.bitmap.freeCount + ks.countP (fun k => (tableFrame b.mem t k).isSome)
  | [], s, g, h, _, _, _, _ => ⟨s, g, rfl, h, fun _ _ => rfl, by simp, by simp⟩
  | k :: ks, s, g, h, hx, hnodup, hks, hcount => by
    obtain ⟨hk, hg⟩ := hks k (by simp)
    obtain ⟨hnotin, hnodup⟩ := nodup_cons.1 hnodup
    rw [countP_cons] at hcount
    obtain ⟨s1, g1, hs1, h1, hsame1, hdone1, hc1⟩ := h.clonePage hb hi hx ht hk hg
      fun hsome => by rw [if_pos hsome] at hcount; omega
    have hks1 : ∀ k' ∈ ks, k' < 1024 ∧ g1 (i, some k') = none := by
      intro k' hk'
      rw [hsame1 _ fun heq => hnotin (by rwa [← some.inj (congrArg Prod.snd heq)])]
      exact hks k' (by simp [hk'])
    obtain ⟨s2, g2, hs2, h2, hsame2, hdone2, hc2⟩ := clonePages hb hi ht ks h1
      ((hsame1 _ (by simp)).trans hx) hnodup hks1 (by omega)
    refine ⟨s2, g2, ?_, h2, fun l hl => ?_, fun k' hk' hsome => ?_, ?_⟩
    · rw [foldlM_cons, hs1, bind_eq_bind, bind_some, hs2]
    · rw [hsame2 l fun k' hk' => hl k' (by simp [hk']), hsame1 l (hl k (by simp))]
    · rcases mem_cons.1 hk' with rfl | hk'
      · rw [hsame2 _ fun k'' hk'' heq => hnotin (by rwa [some.inj (congrArg Prod.snd heq)])]
        exact hdone1 hsome
      · exact hdone2 k' hk' hsome
    · rw [countP_cons]
      omega

lemma cloneEntry (hb : CopyBase b e) (h : Copied b s e g) (hi : 1 ≤ i ∧ i < 768)
    (hg : g (i, none) = none) (hcount : framesBehind b.mem e i ≤ s.bitmap.freeCount) :
    ∃ s' g', s.cloneEntry i = some s' ∧ Copied b s' e g' ∧ (∀ l, l.1 ≠ i → g' l = g l) ∧
      (∀ t, tableFrame b.mem e i = some t → g' (i, none) ≠ none ∧
        ∀ k < 1024, (tableFrame b.mem t k).isSome → g' (i, some k) ≠ none) ∧
      s.bitmap.freeCount ≤ s'.bitmap.freeCount + framesBehind b.mem e i := by
  have hself := h.selfMapped hb
  have hword : tableFrame s.mem e i = tableFrame b.mem e i := tableFrame_congr (h.entry i hg)
  unfold Machine.cloneEntry Machine.cloneTable
  rw [read_entry hself, bind_eq_bind, bind_some]
  unfold framesBehind at hcount ⊢
  rcases ht : tableFrame b.mem e i with _ | t
  · rw [ht] at hword
    have habs : (s.mem s.cr3 i).getFlag present = false := by
      rw [h.cr3]
      by_contra hno
      simp [tableFrame, hno] at hword
    rw [if_neg (by simp [habs])]
    exact ⟨s, g, rfl, h, fun _ _ => rfl, fun t ht => by simp at ht, by omega⟩
  · rw [ht] at hword hcount
    simp only at hcount ⊢
    have hword' : tableFrame s.mem s.cr3 i = some t := by rw [h.cr3]; exact hword
    obtain ⟨f, s1, ha⟩ := exists_allocate (by omega : 0 < s.bitmap.freeCount)
    obtain ⟨-, -, hs1, hc1⟩ := allocate_eq_some ha
    have hread : s.readPage (tablePage i) = some (s.mem t) := by
      rw [readPage, translate_tablePage hself (by omega), hword']
      rfl
    have hcopy := Machine.attach_entry (s.mem t) (owned ||| present)
      hself (by omega : i < 1023) (by decide) (by decide) ha
    have h1 := h.attach_entry hb hi ht (hb.tables i t hi.1 hi.2 ht) hg (s.mem e i)
      (by decide : (owned ||| present).getLsbD 0 = true) (by decide) ha
    rw [h.cr3] at hcopy
    rw [if_pos (tableFrame_eq_some.1 hword').1]
    simp only [hread, ha, bind_eq_bind, bind_some, hcopy]
    have hc2 : s.bitmap.freeCount = (s.bitmap.mark f).freeCount + 1 := by rw [hc1, hs1]
    obtain ⟨s2, g2, hs2, h2, hsame2, hdone2, hc3⟩ := clonePages hb hi ht (List.range 1024) h1
      (update_self ..) nodup_range (fun k hk => ⟨mem_range.1 hk, by
        rw [update_of_ne (by simp)]
        exact h.owner i k hg⟩) (by show _ ≤ (s.bitmap.mark f).freeCount; omega)
    refine ⟨s2, g2, hs2, h2, fun l hl => ?_, fun t' ht' => ?_, ?_⟩
    · rw [hsame2 l fun k _ heq => hl (by rw [heq]), update_of_ne fun heq => hl (by rw [heq])]
    · cases ht'
      refine ⟨?_, fun k hk => hdone2 k (mem_range.2 hk)⟩
      rw [hsame2 _ (by simp), update_self]
      simp
    · have hc4 : (s.bitmap.mark f).freeCount ≤ s2.bitmap.freeCount + (List.range 1024).countP
          (fun k => (tableFrame b.mem t k).isSome) := hc3
      omega

lemma cloneEntries (hb : CopyBase b e) : ∀ (is : List ℕ) {s : Machine}
    {g : ℕ × Option ℕ → Option ℕ}, Copied b s e g → is.Nodup →
    (∀ i ∈ is, (1 ≤ i ∧ i < 768) ∧ g (i, none) = none) →
    (is.map (framesBehind b.mem e)).sum ≤ s.bitmap.freeCount →
    ∃ s' g', is.foldlM Machine.cloneEntry s = some s' ∧ Copied b s' e g' ∧ (∀ l, l.1 ∉ is → g' l = g l) ∧
      ∀ i ∈ is, ∀ t, tableFrame b.mem e i = some t → g' (i, none) ≠ none ∧
        ∀ k < 1024, (tableFrame b.mem t k).isSome → g' (i, some k) ≠ none
  | [], s, g, h, _, _, _ => ⟨s, g, rfl, h, fun _ _ => rfl, by simp⟩
  | i :: is, s, g, h, hnodup, his, hcount => by
    obtain ⟨hi, hg⟩ := his i (by simp)
    obtain ⟨hnotin, hnodup⟩ := nodup_cons.1 hnodup
    rw [map_cons, sum_cons] at hcount
    obtain ⟨s1, g1, hs1, h1, hsame1, hdone1, hc1⟩ := h.cloneEntry hb hi hg (by omega)
    have hne : ∀ j ∈ is, j ≠ i := fun j hj heq => hnotin (heq ▸ hj)
    obtain ⟨s2, g2, hs2, h2, hsame2, hdone2⟩ := cloneEntries hb is h1 hnodup
      (fun j hj => ⟨(his j (by simp [hj])).1, by
        rw [hsame1 _ (hne j hj)]
        exact (his j (by simp [hj])).2⟩) (by omega)
    refine ⟨s2, g2, ?_, h2, fun l hl => ?_, fun j hj t ht => ?_⟩
    · rw [foldlM_cons, hs1, bind_eq_bind, bind_some, hs2]
    · rw [mem_cons, not_or] at hl
      rw [hsame2 l hl.2, hsame1 l hl.1]
    · rcases mem_cons.1 hj with rfl | hj
      · obtain ⟨htab, hpages⟩ := hdone1 t ht
        refine ⟨?_, fun k hk hsome => ?_⟩
        · rwa [hsame2 _ hnotin]
        · rw [hsame2 _ hnotin]
          exact hpages k hk hsome
      · exact hdone2 j hj t ht

section Done

variable (h : Copied b s e g)
  (hdone : ∀ i, 1 ≤ i → i < 768 → ∀ t, tableFrame b.mem e i = some t → g (i, none) ≠ none ∧
    ∀ k < 1024, (tableFrame b.mem t k).isSome → g (i, some k) ≠ none)

include h hdone

lemma tableFrame_done (hi : 1 ≤ i) (hi' : i < 768) : tableFrame s.mem e i = g (i, none) := by
  rcases hg : g (i, none) with _ | f
  · rw [tableFrame_congr (h.entry i hg)]
    by_contra hno
    obtain ⟨t, ht⟩ := ne_none_iff_exists'.1 hno
    exact (hdone i hi hi' t ht).1 hg
  · exact (h.table i f hg).1

lemma pageFrame_done (hi : 1 ≤ i) (hi' : i < 768) (hk : k < 1024) : pageFrame s.mem e i k = g (i, some k) := by
  unfold pageFrame
  rw [h.tableFrame_done hdone hi hi']
  rcases hg : g (i, none) with _ | f
  · exact (h.owner i k hg).symm
  obtain ⟨-, t, ht, hpages⟩ := h.table i f hg
  rw [bind_some]
  rcases hgk : g (i, some k) with _ | f'
  · rw [tableFrame_congr ((hpages k).1 hgk)]
    by_contra hno
    exact (hdone i hi hi' t ht).2 k hk (isSome_iff_ne_none.2 hno) hgk
  · exact ((hpages k).2 f' hgk).1

lemma page_done (hi : 1 ≤ i) (hi' : i < 768) (hk : k < 1024) :
    ((g (i, some k)).isSome ↔ (pageFrame b.mem e i k).isSome) ∧
      ∀ f p, g (i, some k) = some f → pageFrame b.mem e i k = some p → s.mem f = b.mem p := by
  refine ⟨⟨fun hsome => ?_, fun hsome => ?_⟩, fun f p hf hp => ?_⟩
  · obtain ⟨f, hf⟩ := isSome_iff_exists.1 hsome
    have hx : g (i, none) ≠ none := fun hno => by
      rw [h.owner i k hno] at hf
      cases hf
    obtain ⟨x, hx⟩ := ne_none_iff_exists'.1 hx
    obtain ⟨-, t, ht, hpages⟩ := h.table i x hx
    obtain ⟨-, p, hp, -⟩ := (hpages k).2 f hf
    rw [pageFrame_eq_some.2 ⟨t, ht, hp⟩]
    rfl
  · obtain ⟨p, hp⟩ := isSome_iff_exists.1 hsome
    obtain ⟨t, ht, hp⟩ := pageFrame_eq_some.1 hp
    exact isSome_iff_ne_none.2 ((hdone i hi hi' t ht).2 k hk (by simp [hp]))
  · obtain ⟨t, ht, hp⟩ := pageFrame_eq_some.1 hp
    obtain ⟨x, hx⟩ := ne_none_iff_exists'.1 (hdone i hi hi' t ht).1
    obtain ⟨-, t', ht', hpages⟩ := h.table i x hx
    obtain ⟨-, p', hp', hmem⟩ := (hpages k).2 f hf
    cases ht'.symm.trans ht
    cases hp'.symm.trans hp
    exact hmem

lemma placeFrame_done (hl : UserPlace l) : placeFrame s.mem e l = g l := by
  obtain ⟨⟨hi, hi'⟩, hk⟩ := hl
  rcases l with ⟨i, _ | k⟩
  · exact h.tableFrame_done hdone hi hi'
  · exact h.pageFrame_done hdone hi hi' (hk k rfl)

end Done

end Copied

section Fork

variable {s s2 : Machine} {d e n : ℕ} {kernelEnd : ℕ} {heap : List ℕ} {f : ℕ}

lemma tableFrame_cloned {mem mem' : ℕ → Page} {i : ℕ} (h : mem' e = cloned (mem d) e)
    (hi : i < 1023) : tableFrame mem' e i = tableFrame mem d i := by
  by_cases hi' : i < 768
  · unfold tableFrame
    rw [h, cloned]
    simp [hi', present_disableFlag_owned, frame_disableFlag_owned]
  · refine tableFrame_congr ?_
    rw [h, cloned, if_neg hi', if_neg (by omega)]

lemma UserPlace.reachable {mem : ℕ → Page} {l : ℕ × Option ℕ} (hl : UserPlace l)
    (hf : placeFrame mem d l = some f) : Reachable mem d f := by
  obtain ⟨⟨hi, hi'⟩, hk⟩ := hl
  rcases l with ⟨i, _ | k⟩
  · exact .table (by omega) hf
  · exact .inr ⟨i, by omega, .inr ⟨k, hk k rfl, hf⟩⟩

lemma ForkReady.table_eq {this : ℕ} (h : ForkReady s d kernelEnd this heap)
    (hb : KernelBinds s s2 d n) {i t : ℕ} (hi : 1 ≤ i) (hi' : i < 768)
    (ht : tableFrame s.mem d i = some t) : s2.mem t = s.mem t :=
  hb.frames t (h.current.used t (.table (by omega) ht)) (h.apart i t hi hi' ht)

lemma ForkReady.copyBase {this : ℕ} (h : ForkReady s d kernelEnd this heap)
    (hb : KernelBinds s s2 d n) (he : s.bitmap.Free e) (he' : ¬ s2.bitmap.Free e) (hlt : e < 2 ^ 20)
    (hmem : s2.mem e = cloned (s.mem d) e) :
    CopyBase (s2.use e) e := by
  have hused : ∀ f, Reachable s.mem d f → ¬ s2.bitmap.Free f ∧ f ≠ e := fun f hf =>
    ⟨fun hfree => h.current.used f hf (hb.free f hfree), fun heq => h.current.used f hf (heq ▸ he)⟩
  refine ⟨rfl, ?_, he', fun i t hi hi' ht => ?_, fun i t k p hi hi' ht hk hp => ?_⟩
  · have hlast : s2.mem e 1023 = ((s.mem d 1023).setAddress (ofFrame e)).enableFlag
        (rw ||| present) := congrFun hmem 1023
    exact tableFrame_of_set hlt hlast (by decide) (by decide)
  · have ht' : tableFrame s.mem d i = some t := (tableFrame_cloned hmem (by omega)).symm.trans ht
    exact hused t (.table (by omega) ht')
  · have ht' : tableFrame s.mem d i = some t := (tableFrame_cloned hmem (by omega)).symm.trans ht
    have hp' : tableFrame s.mem t k = some p :=
      (tableFrame_congr (congrFun (h.table_eq hb hi hi' ht') k)).symm.trans hp
    exact hused p (.page (by omega) hk ht' hp')

lemma ForkReady.framesBehind_eq {this : ℕ} (h : ForkReady s d kernelEnd this heap)
    (hb : KernelBinds s s2 d n) (hmem : s2.mem e = cloned (s.mem d) e) {i : ℕ} (hi : 1 ≤ i)
    (hi' : i < 768) :
    framesBehind s2.mem e i = framesBehind s.mem d i := by
  unfold framesBehind
  rw [tableFrame_cloned hmem (by omega)]
  rcases ht : tableFrame s.mem d i with _ | t
  · rfl
  · simp only
    congr 2
    funext k
    rw [tableFrame_congr (congrFun (h.table_eq hb hi hi' ht) k)]

variable {s3 : Machine} {g : ℕ × Option ℕ → Option ℕ}

lemma Copied.pageFrame_dir (hs : Current s d) (hb : KernelBinds s s2 d n) (he : s.bitmap.Free e)
    (h : Copied (s2.use e) s3 e g) :
    s3.mem d = s2.mem d ∧ (∀ i t, i < 1024 → tableFrame s2.mem d i = some t → s3.mem t = s2.mem t) ∧
      ∀ i k, i < 1024 → pageFrame s3.mem d i k = pageFrame s2.mem d i k := by
  have hd : s3.mem d = s2.mem d := h.old d hb.ready.not_free fun heq => hs.not_free (heq ▸ he)
  have htab : ∀ i t, i < 1024 → tableFrame s2.mem d i = some t → s3.mem t = s2.mem t := by
    intro i t hi ht
    refine h.old t (hb.ready.used t (.table hi ht)) fun heq => ?_
    have ht' : tableFrame s.mem d i = some t := (tableFrame_congr (congrFun hb.dir i)).symm.trans ht
    exact hs.used t (.table hi ht') (heq ▸ he)
  refine ⟨hd, htab, fun i k hi => ?_⟩
  unfold pageFrame
  rw [tableFrame_congr (congrFun hd i)]
  rcases ht : tableFrame s2.mem d i with _ | t
  · rfl
  · exact tableFrame_congr (congrFun (htab i t hi ht) k)

lemma Copied.reachable (hs : Current s d) (hb : KernelBinds s s2 d n) (he : s.bitmap.Free e)
    (h : Copied (s2.use e) s3 e g) (hf : Reachable s3.mem d f) : Reachable s2.mem d f := by
  obtain ⟨hd, -, hpages⟩ := h.pageFrame_dir hs hb he
  rcases hf with rfl | ⟨i, hi, hf | ⟨k, hk, hf⟩⟩
  · exact .inl rfl
  · exact .table hi ((tableFrame_congr (congrFun hd i)).symm.trans hf)
  · exact .inr ⟨i, hi, .inr ⟨k, hk, (hpages i k hi).symm.trans hf⟩⟩

lemma Copied.forked {this : ℕ} (h : ForkReady s d kernelEnd this heap) (hb : KernelBinds s s2 d n)
    (he : s.bitmap.Free e) (hmem : s2.mem e = cloned (s.mem d) e) (hc : Copied (s2.use e) s3 e g)
    (hdone : ∀ i, 1 ≤ i → i < 768 → ∀ t, tableFrame s2.mem e i = some t → g (i, none) ≠ none ∧
      ∀ k < 1024, (tableFrame s2.mem t k).isSome → g (i, some k) ≠ none) :
    Forked s (s3.use d) d e := by
  obtain ⟨hd, htab, hpages⟩ := hc.pageFrame_dir h.current hb he
  have hsame : ∀ i, i < 1023 → tableFrame s2.mem e i = tableFrame s2.mem d i := fun i hi =>
    (tableFrame_cloned hmem hi).trans (tableFrame_congr (congrFun hb.dir i)).symm
  have hpage : ∀ i k, i < 1023 → pageFrame s2.mem e i k = pageFrame s2.mem d i k := fun i k hi => by
    unfold pageFrame
    rw [hsame i hi]
  have hold : ∀ f, Reachable s.mem d f → s3.mem f = s2.mem f := fun f hf =>
    hc.old f (fun hfree => h.current.used f hf (hb.free f hfree)) (fun heq => h.current.used f hf (heq ▸ he))
  refine ⟨fun i k hi hi' hk => ?_, fun l f hl hf => ?_, fun l l' f hl hl' hf hf' => ?_,
    hd.trans hb.dir, fun l f hl hf hk => ?_, fun i t hi hi' ht => ?_, fun i hi hi' => ?_⟩
  · obtain ⟨hiff, hcopy⟩ := hc.page_done hdone hi hi' hk
    show ((pageFrame s3.mem e i k).isSome ↔ (pageFrame s3.mem d i k).isSome) ∧
      ∀ f f', pageFrame s3.mem d i k = some f → pageFrame s3.mem e i k = some f' → s3.mem f' = s3.mem f
    rw [hc.pageFrame_done hdone hi hi' hk, hpages i k (by omega), ← hpage i k (by omega)]
    refine ⟨hiff, fun f f' hf hf' => ?_⟩
    rw [hcopy f' f hf' hf]
    obtain ⟨t, ht, hf⟩ := pageFrame_eq_some.1 hf
    have ht' : tableFrame s.mem d i = some t := (tableFrame_cloned hmem (by omega)).symm.trans ht
    rw [tableFrame_congr (congrFun (h.table_eq hb hi hi' ht') k)] at hf
    exact (hold f (.page (by omega) hk ht' hf)).symm
  · have hg : g l = some f := (hc.placeFrame_done hdone hl).symm.trans hf
    have hfree : s2.bitmap.Free f := (hc.fresh l f hg).1
    have hfree' := hb.free f hfree
    exact ⟨hfree', fun hr => h.current.used f hr hfree',
      fun hr => hb.ready.used f (hc.reachable h.current hb he hr) hfree⟩
  · exact hc.inj l l' f ((hc.placeFrame_done hdone hl).symm.trans hf) ((hc.placeFrame_done hdone hl').symm.trans hf')
  · have hr := hl.reachable hf
    exact (hold f hr).trans (hb.frames f (h.current.used f hr) hk)
  · exact (hold t (.table (by omega) ht)).trans (h.table_eq hb hi hi' ht)
  · show s3.mem e i = s3.mem d i
    rw [hc.entry_of_ge hi, hd, hb.dir]
    show s2.mem e i = s.mem d i
    rw [hmem, cloned, if_neg (by omega), if_neg (by omega)]

/-- The copy made by `deep_clone` is complete and shares nothing with the original. -/
theorem fork_isolated {kernelEnd this : ℕ} {heap : List ℕ} (h : ForkReady s d kernelEnd this heap) :
    ∃ s' dir e, s.deepClone kernelEnd this heap = some (s', dir) ∧ s'.cr3 = d ∧
      s'.translate dir = some e ∧ Forked s s' d e := by
  obtain ⟨hk, v, hkv, hv, hnone⟩ := h.room
  obtain ⟨htlo, hthi, hthis⟩ := h.mapped
  have hcount := h.frames
  -- the new directory, and the pages of the heap
  obtain ⟨s1, dir, e, hclone, hb1, hlo, hhi, hdir, he, he1, hmem1⟩ :=
    h.current.clone hk hkv hv hnone (by omega) htlo hthi hthis
  have hc1 := hb1.count
  obtain ⟨s2, hheap, hb2⟩ := hb1.ready.bindAll h.growth (by omega)
  have hb := hb1.trans hb2
  have hc2 := hb.count
  have hek : ¬ KernelTable s1.mem d e := fun hkt =>
    h.current.used e ((hb1.kernelTable_iff e).1 hkt).reachable he
  have hmem : s2.mem e = cloned (s.mem d) e := (hb2.frames e he1 hek).trans hmem1
  have hdir2 : pageFrame s2.mem d (dir / 1024) (dir % 1024) = some e := hb2.pageFrame_eq hlo hhi hdir
  have hlt : e < 2 ^ 20 := by
    obtain ⟨t, -, ht⟩ := pageFrame_eq_some.1 hdir
    exact tableFrame_lt ht
  -- the loops, with the new directory in use
  have hbase := h.copyBase hb he (fun hfree => he1 (hb2.free e hfree)) hlt hmem
  have hneed : (List.range' 1 (256 * 3 - 1)).map (framesBehind (s2.use e).mem e) =
      (List.range' 1 (256 * 3 - 1)).map (framesBehind s.mem d) := by
    refine map_congr_left fun i hi => ?_
    rw [mem_range'_1] at hi
    exact h.framesBehind_eq hb hmem hi.1 (by omega)
  obtain ⟨s3, g, hloop, hc, -, hdone⟩ := Copied.cloneEntries hbase (List.range' 1 (256 * 3 - 1))
    (Copied.start hbase) nodup_range'
    (fun i hi => ⟨by rw [mem_range'_1] at hi; omega, rfl⟩)
    (by rw [hneed]; show _ ≤ s2.bitmap.freeCount; omega)
  -- the way back
  obtain ⟨hd, htab, hpages⟩ := hc.pageFrame_dir h.current hb he
  have hthis3 : s3.translate this = some d := by
    obtain ⟨t, ht, htd⟩ := pageFrame_eq_some.1 (hb.pageFrame_eq htlo hthi hthis)
    rw [Machine.translate, hc.cr3]
    refine pageFrame_eq_some.2 ⟨t, ?_, ?_⟩
    · rw [tableFrame_congr (hc.entry_of_ge htlo), ← ht, ← tableFrame_congr (congrFun hb.dir _).symm]
      exact tableFrame_cloned hmem hthi
    · rw [tableFrame_congr (congrFun (htab _ t (by omega) ht) _), htd]
  have htr2 : s2.translate dir = some e := by
    rwa [Machine.translate, hb.ready.cr3]
  refine ⟨s3.use d, dir, e, ?_, rfl, ?_, ?_⟩
  · simp only [Machine.deepClone, hclone, hheap, bind_eq_bind, bind_some,
      getPhysicalAddress_eq hb.ready.selfMapped (by omega : dir / 1024 < 1024) htr2, hloop,
      getPhysicalAddress_eq (hc.selfMapped hbase) (by omega : this / 1024 < 1024) hthis3,
      Option.pure_def]
  · show pageFrame s3.mem d (dir / 1024) (dir % 1024) = some e
    rw [hpages _ _ (by omega), hdir2]
  · refine Copied.forked h hb he hmem hc fun i hi hi' t ht => hdone i ?_ t ht
    rw [mem_range'_1]
    omega

end Fork

section Small

/-- Frame 1 is a directory with one table, in frame 3, that has one page, in frame 4. All tables of
the kernel are in frame 2, whose first page is the directory. The frames from 1 MiB on are free. -/
def smallMachine : Machine where
  mem f w :=
    if f = 1 ∧ w = 1 then 0x3003
    else if f = 1 ∧ 768 ≤ w ∧ w < 1023 then 0x2003
    else if f = 1 ∧ w = 1023 ∨ f = 2 ∧ w = 0 then 0x1003
    else if f = 3 ∧ w = 5 then 0x4003
    else if f = 4 then 42
    else 0
  bitmap i := if i < 0x20 then 0xFF else 0
  cr3 := 1

lemma smallMachine_frame {d i f : ℕ} (h : tableFrame smallMachine.mem d i = some f) : f < 5 := by
  obtain ⟨hp, rfl⟩ := tableFrame_eq_some.1 h
  simp only [smallMachine] at hp ⊢
  split_ifs at hp ⊢ <;> revert hp <;> decide

lemma smallMachine_ready : ForkReady smallMachine 1 (768 * 1024 + 1) (768 * 1024) [768 * 1024 + 7] := by
  have hkernel : ∀ i, 768 ≤ i → i < 1023 → tableFrame smallMachine.mem 1 i = some 2 := by
    intro i hlo hhi
    have hword : smallMachine.mem 1 i = 0x2003 := by
      simp only [smallMachine, hlo, hhi, true_and, if_neg (by omega : ¬ i = 1), and_self, if_true]
    rw [tableFrame_eq_some, hword]
    decide
  refine ⟨⟨rfl, by decide, fun i hlo hhi => ⟨2, hkernel i hlo hhi, by decide⟩, fun f hf => ?_⟩,
    fun i t hi hi' ht hkt => ?_, by decide, ⟨by decide, 768 * 1024 + 1, by decide⟩, by decide, ?_⟩
  · refine Bitmap.fromMegabyte_free.not.2 ?_
    rcases hf with rfl | ⟨i, -, hf | ⟨k, -, hf⟩⟩
    · decide
    · have := smallMachine_frame hf
      omega
    · obtain ⟨t, -, hf⟩ := pageFrame_eq_some.1 hf
      have := smallMachine_frame hf
      omega
  · obtain ⟨j, hlo, hhi, hj⟩ := hkt
    rw [hkernel j hlo hhi] at hj
    cases hj
    rcases eq_or_ne i 1 with rfl | hne
    · cases ht
    have hword : smallMachine.mem 1 i = 0 := by
      simp only [smallMachine, hne, true_and]
      rw [if_neg (by decide), if_neg (by omega), if_neg (by omega), if_neg (by omega)]
      rfl
    rw [tableFrame_eq_some, hword] at ht
    exact absurd ht (by decide)
  · have hsum : ((List.range' 1 (256 * 3 - 1)).map (framesBehind smallMachine.mem 1)).sum = 2 := by
      decide +kernel
    have : 4 ≤ smallMachine.bitmap.freeCount := Bitmap.fromMegabyte_freeCount
    simp only [length_singleton]
    omega

theorem fork_isolated_small : ∃ s' dir e,
    smallMachine.deepClone (768 * 1024 + 1) (768 * 1024) [768 * 1024 + 7] = some (s', dir) ∧
      Forked smallMachine s' 1 e := by
  obtain ⟨s', dir, e, hrun, -, -, hfork⟩ := fork_isolated smallMachine_ready
  exact ⟨s', dir, e, hrun, hfork⟩

end Small

end OlliOS
