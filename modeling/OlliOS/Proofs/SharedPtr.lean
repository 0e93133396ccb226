import OlliOS.Kstd.SharedPtr

/-!
# The counts of shared pointers

The counts of each object are right on their own (`Tallied`). Every operation leaves the number of
holders of each object alone, or is a `reset` or a `share`, or makes a fresh object.
-/

namespace OlliOS.PtrState

open Function Stepping Option Fibre PtrState SharedPtr

variable {ι : Type*} [DecidableEq ι] {s t : PtrState ι} {i j : ι} {p q : SharedPtr} {o : ℕ} {c : Int}
  {log : List ℕ} {x : Option SharedPtr} {n : ℕ}

structure Tallied (s : PtrState ι) (o n : ℕ) : Prop where
  known : s.next ≤ o → n = 0 ∧ s.deleted.count o = 0 ∧ s.freed.count o = 0
  block : o < s.next → s.blocks o = ⟨n, n⟩
  deleted : o < s.next → s.deleted.count o = if n = 0 then 1 else 0
  freed : o < s.next → s.freed.count o = if n = 0 then 1 else 0

structure PtrInv (s : PtrState ι) : Prop where
  paired : ∀ i p, s.ptr i = some p → p.count = p.data
  finite : ∀ o, (s.holders o).Finite
  tallied : ∀ o, s.Tallied o (s.holders o).ncard
  fault : s.fault = false

omit [DecidableEq ι] in
lemma Tallied.congr (h : s.Tallied o n) (hnext : o < t.next ↔ o < s.next) (hb : t.blocks o = s.blocks o)
    (hd : t.deleted.count o = s.deleted.count o) (hf : t.freed.count o = s.freed.count o) : t.Tallied o n := by
  refine ⟨fun hge => ?_, fun hlt => hb.trans (h.block (hnext.1 hlt)), fun hlt => hd.trans (h.deleted (hnext.1 hlt)),
    fun hlt => hf.trans (h.freed (hnext.1 hlt))⟩
  rw [hd, hf]
  exact h.known (by omega)

omit [DecidableEq ι] in
lemma PtrInv.exact (h : PtrInv s) : s.Exact :=
  ⟨fun o hlt => by rw [(h.tallied o).block hlt], fun o => (h.tallied o).deleted, fun o => (h.tallied o).freed, h.fault⟩

lemma held_update {ptr : ι → Option SharedPtr} :
    (fun j => (update ptr i x j).bind data) = update (fun j => (ptr j).bind data) i (x.bind data) := by
  funext j
  rcases eq_or_ne j i with rfl | hne
  · simp
  · simp [hne]

lemma holders_update (ht : t.ptr = update s.ptr i x) :
    t.holders o = fibre (update s.held i (x.bind data)) (some o) := by
  unfold holders held
  rw [ht, held_update]

omit [DecidableEq ι] in
lemma ne_some_of_none {x : Option ℕ} (h : x = none) : x ≠ some o := by
  rw [h]
  exact (some_ne_none o).symm

omit [DecidableEq ι] in
lemma held_of_ptr (hi : s.ptr i = some p) : s.held i = p.data := by
  rw [held, hi]
  rfl

lemma paired_update (h : ∀ i p, s.ptr i = some p → p.count = p.data)
    (ht : t.ptr = update s.ptr i x) (hx : ∀ p, x = some p → p.count = p.data) :
    ∀ j p, t.ptr j = some p → p.count = p.data := by
  intro j p hj
  rw [ht] at hj
  rcases eq_or_ne j i with rfl | hne
  · rw [update_self] at hj
    exact hx p hj
  · rw [update_of_ne hne] at hj
    exact h j p hj

namespace PtrInv

omit [DecidableEq ι] in
lemma holders_pos (h : PtrInv s) (hi : s.held i = some o) : 0 < (s.holders o).ncard :=
  (Set.ncard_pos (h.finite o)).2 ⟨i, hi⟩

omit [DecidableEq ι] in
lemma holder_lt (h : PtrInv s) (hi : s.held i = some o) : o < s.next := by
  by_contra hge
  have hzero := ((h.tallied o).known (Nat.not_lt.1 hge)).1
  have hpos := h.holders_pos hi
  omega

omit [DecidableEq ι] in
lemma not_freed (h : PtrInv s) (hi : s.held i = some o) : o ∉ s.freed := by
  have hcount := (h.tallied o).freed (h.holder_lt hi)
  rw [if_neg (Nat.pos_iff_ne_zero.1 (h.holders_pos hi))] at hcount
  exact List.count_eq_zero.1 hcount

/-- A step that changes one variable and the counts of one object. -/
lemma changed (h : PtrInv s) (o₀ : ℕ) (hptr : t.ptr = update s.ptr i x)
    (hx : ∀ p, x = some p → p.count = p.data) (hfault : t.fault = false)
    (hold : ∀ o ≠ o₀, s.held i ≠ some o ∧ x.bind data ≠ some o)
    (hsame : ∀ o ≠ o₀, (o < t.next ↔ o < s.next) ∧ t.blocks o = s.blocks o ∧
      t.deleted.count o = s.deleted.count o ∧ t.freed.count o = s.freed.count o)
    (hself : t.Tallied o₀ (fibre (update s.held i (x.bind data)) (some o₀)).ncard) : PtrInv t := by
  refine ⟨paired_update h.paired hptr hx, fun o => ?_, fun o => ?_, hfault⟩
  · rw [holders_update hptr]
    exact finite_update (h.finite o)
  · rw [holders_update hptr]
    rcases eq_or_ne o o₀ with rfl | hne
    · exact hself
    obtain ⟨hnext, hb, hd, hf⟩ := hsame o hne
    rw [fibre_update_other (hold o hne).1 (hold o hne).2]
    exact (h.tallied o).congr hnext hb hd hf

lemma of_empty (h : PtrInv s) (hi : s.held i = none) {x : Option SharedPtr}
    (hx : x = none ∨ x = some .null) : PtrInv { s with ptr := update s.ptr i x } := by
  have hdata : x.bind data = none := by rcases hx with rfl | rfl <;> rfl
  refine h.changed 0 rfl ?_ h.fault (fun o _ => ⟨ne_some_of_none hi, ne_some_of_none hdata⟩)
    (fun o _ => ⟨.rfl, rfl, rfl, rfl⟩) ?_
  · rintro p rfl
    rcases hx with hx | hx <;> cases hx
    rfl
  · rw [fibre_update_other (ne_some_of_none hi) (ne_some_of_none hdata)]
    exact (h.tallied 0).congr .rfl rfl rfl rfl

lemma move (h : PtrInv s) (hi : s.held i = none) (hj : s.ptr j = some q) (hne : i ≠ j) :
    PtrInv ((s.set i q).set j .null) := by
  have hheld : s.held j = q.data := held_of_ptr hj
  have hpaired := paired_update (t := s.set i q) h.paired rfl fun p hp => by
    cases hp
    exact h.paired j q hj
  have hholders : ∀ o, (((s.set i q).set j .null).holders o).Finite ∧
      (((s.set i q).set j .null).holders o).ncard = (s.holders o).ncard := by
    intro o
    have hset : (s.set i q).held = update s.held i q.data := held_update
    have hfin : (fibre (update s.held i q.data) (some o)).Finite := finite_update (h.finite o)
    rw [holders_update rfl, hset]
    refine ⟨finite_update hfin, ?_⟩
    change (fibre (update (update s.held i q.data) j none) (some o)).ncard = (fibre s.held (some o)).ncard
    by_cases ho : q.data = some o
    · rw [ho] at hfin ⊢
      have hlose := ncard_update_lose (i := j) (x := none) hfin
        (by rw [update_of_ne hne.symm, hheld, ho]) (ne_some_of_none rfl)
      have hgain := ncard_update_gain (h.finite o) (ne_some_of_none hi)
      omega
    · rw [fibre_update_other _ (ne_some_of_none rfl), fibre_update_other (ne_some_of_none hi) ho]
      rwa [update_of_ne hne.symm, hheld]
  refine ⟨paired_update hpaired rfl fun p hp => ?_, fun o => (hholders o).1, fun o => ?_, h.fault⟩
  · cases hp
    rfl
  · rw [(hholders o).2]
    exact (h.tallied o).congr .rfl rfl rfl rfl

end PtrInv

omit [DecidableEq ι] in
lemma modify_some {f : InfoBlock → InfoBlock} : s.modify (some o) f = { s with
    blocks := update s.blocks o (f (s.blocks o))
    fault := s.fault || decide (o ∈ s.freed) } := rfl

lemma reset_some : s.reset i ⟨some o, some o⟩ =
    { ptr := update s.ptr i (some .null)
      blocks := update s.blocks o ⟨(s.blocks o).weakCount - 1, (s.blocks o).strongCount - 1⟩
      next := s.next
      deleted := if (s.blocks o).strongCount - 1 = 0 then s.deleted ++ [o] else s.deleted
      freed := if (s.blocks o).weakCount - 1 = 0 then s.freed ++ [o] else s.freed
      fault := s.fault || decide (o ∈ s.freed) } := by
  by_cases hstrong : (s.blocks o).strongCount - 1 = 0
  · by_cases hweak : (s.blocks o).weakCount - 1 = 0 <;>
      simp [reset, modify_some, hstrong, hweak, set]
  · by_cases hweak : (s.blocks o).weakCount - 1 = 0 <;>
      simp [reset, modify_some, hstrong, hweak, set]

omit [DecidableEq ι] in
lemma share_some : s.share ⟨some o, some o⟩ = { s with
    blocks := update s.blocks o ⟨(s.blocks o).weakCount + 1, (s.blocks o).strongCount + 1⟩
    fault := s.fault || decide (o ∈ s.freed) } := by
  simp [share, modify_some]

lemma count_log (hn : 0 < n) (hc : c = n)
    (hlog : log.count o = if n = 0 then 1 else 0) :
    (if c - 1 = 0 then log ++ [o] else log).count o = if n - 1 = 0 then 1 else 0 := by
  rw [if_neg (by omega)] at hlog
  by_cases hlast : n = 1
  · rw [if_pos (by omega), if_pos (by omega), List.count_append, hlog, List.count_singleton_self]
  · rw [if_neg (by omega), if_neg (by omega), hlog]

lemma count_log_of_ne {o' : ℕ} (hne : o' ≠ o) : (if c - 1 = 0 then log ++ [o] else log).count o' = log.count o' := by
  split_ifs
  · simp [hne.symm]
  · rfl

namespace PtrInv

lemma reset (h : PtrInv s) (hi : s.ptr i = some p) :
    PtrInv (s.reset i p) ∧ (s.reset i p).held i = none ∧
    (∀ j, j ≠ i → (s.reset i p).ptr j = s.ptr j) := by
  have hheld := held_of_ptr hi
  obtain ⟨data, count⟩ := p
  obtain rfl : count = data := h.paired i _ hi
  rcases count with _ | o
  · exact ⟨h, hheld, fun j _ => rfl⟩
  have hlt := h.holder_lt hheld
  have hpos := h.holders_pos hheld
  have hfault := h.not_freed hheld
  obtain ⟨-, hblock, hdeleted, hfreed⟩ := h.tallied o
  have hlose : (fibre (update s.held i none) (some o)).ncard = (s.holders o).ncard - 1 :=
    Nat.eq_sub_of_add_eq (ncard_update_lose (h.finite o) hheld (ne_some_of_none rfl))
  rw [reset_some, hblock hlt]
  refine ⟨h.changed o rfl ?_ ?_ (fun o' hne => ⟨?_, ne_some_of_none rfl⟩) (fun o' hne => ?_) ?_, ?_,
    fun j hj => update_of_ne hj _ _⟩
  · rintro p ⟨⟩
    rfl
  · simp [h.fault, hfault]
  · rw [hheld]
    simpa using hne.symm
  · exact ⟨.rfl, update_of_ne hne _ _, count_log_of_ne hne, count_log_of_ne hne⟩
  · rw [bind_some, show null.data = none from rfl, hlose]
    refine ⟨fun hge => absurd hlt (Nat.not_lt.2 hge), fun _ => ?_, fun _ => count_log hpos rfl (hdeleted hlt),
      fun _ => count_log hpos rfl (hfreed hlt)⟩
    rw [Int.natCast_pred_of_pos hpos]
    exact update_self _ _ _
  · simp [held, null]

lemma share (h : PtrInv s) (hi : s.held i = none) (hj : s.ptr j = some q) :
    PtrInv (if q.data ≠ none then (s.set i q).share q else s.set i q) := by
  have hheld := held_of_ptr hj
  obtain ⟨data, count⟩ := q
  obtain rfl : count = data := h.paired j _ hj
  rcases count with _ | o
  · exact h.of_empty hi (.inr rfl)
  rw [if_pos (some_ne_none o), share_some]
  have hlt := h.holder_lt hheld
  have hpos := h.holders_pos hheld
  obtain ⟨-, hblock, hdeleted, hfreed⟩ := h.tallied o
  rw [if_neg (Nat.pos_iff_ne_zero.1 hpos)] at hdeleted hfreed
  refine h.changed o rfl ?_ ?_ (fun o' hne => ⟨ne_some_of_none hi, ?_⟩)
    (fun o' hne => ⟨.rfl, update_of_ne hne _ _, rfl, rfl⟩) ?_
  · rintro p ⟨⟩
    rfl
  · simp [set, h.fault, h.not_freed hheld]
  · simpa using hne.symm
  · rw [bind_some, ncard_update_gain (h.finite o) (ne_some_of_none hi)]
    refine ⟨fun hge => absurd hlt (Nat.not_lt.2 hge), fun _ => ?_, hdeleted, hfreed⟩
    refine (update_self _ _ _).trans ?_
    rw [set, hblock hlt]
    rfl

lemma fresh (h : PtrInv s) (hi : s.held i = none) : PtrInv (s.fresh i) := by
  obtain ⟨hzero, hdeleted, hfreed⟩ := (h.tallied s.next).known (Nat.le_refl _)
  refine h.changed s.next rfl ?_ h.fault (fun o hne => ⟨ne_some_of_none hi, ?_⟩) (fun o hne => ?_) ?_
  · rintro p ⟨⟩
    rfl
  · simpa using hne.symm
  · exact ⟨show o < s.next + 1 ↔ _ by omega, update_of_ne hne _ _, rfl, rfl⟩
  · rw [bind_some, ncard_update_gain (h.finite _) (ne_some_of_none hi), show (fibre s.held _).ncard = 0 from hzero]
    exact ⟨fun hge => absurd hge (Nat.not_succ_le_self _), fun _ => update_self _ _ _, fun _ => hdeleted,
      fun _ => hfreed⟩

omit [DecidableEq ι] in
lemma holders_init : (PtrState.init : PtrState ι).holders o = ∅ := by
  ext i
  simp [holders, held, PtrState.init]

omit [DecidableEq ι] in
lemma init : PtrInv (init : PtrState ι) where
  paired i p h := by cases h
  finite o := by
    rw [holders_init]
    exact Set.finite_empty
  tallied o := by
    rw [holders_init, Set.ncard_empty]
    exact ⟨fun _ => ⟨rfl, rfl, rfl⟩, nofun, nofun, nofun⟩
  fault := rfl

variable {a : PtrAct ι}

lemma step (h : PtrInv s) (ha : s.Apart a) (hstep : s.step a = some t) : PtrInv t := by
  have hempty : ∀ {i}, s.ptr i = none → s.held i = none := fun hi => by rw [held, hi]; rfl
  rcases a with i | i | ⟨i, j⟩ | ⟨i, j⟩ | ⟨i, j⟩ | ⟨i, j⟩ | i | i | i
  · simp only [PtrState.step] at hstep
    split_ifs at hstep with hi
    cases hstep
    exact h.of_empty (hempty hi) (.inr rfl)
  · simp only [PtrState.step] at hstep
    split_ifs at hstep with hi
    cases hstep
    exact h.fresh (hempty hi)
  · simp only [PtrState.step] at hstep
    split_ifs at hstep with hi
    obtain ⟨q, hj, rfl⟩ := map_eq_some_iff.1 hstep
    rw [h.paired j q hj]
    exact h.share (hempty hi) hj
  · simp only [PtrState.step] at hstep
    split_ifs at hstep with hi
    obtain ⟨q, hj, rfl⟩ := map_eq_some_iff.1 hstep
    refine h.move (hempty hi) hj ?_
    rintro rfl
    cases hi.symm.trans hj
  · obtain ⟨p, hi, hstep⟩ := bind_eq_some_iff.1 hstep
    obtain ⟨q, hj, rfl⟩ := map_eq_some_iff.1 hstep
    by_cases hdata : p.data = q.data
    · rwa [if_pos hdata]
    have hne : j ≠ i := by
      rintro rfl
      cases hi.symm.trans hj
      exact hdata rfl
    obtain ⟨hreset, hheld, hother⟩ := h.reset hi
    rw [if_neg hdata]
    exact hreset.share hheld (by rw [hother j hne, hj])
  · obtain ⟨p, hi, hstep⟩ := bind_eq_some_iff.1 hstep
    obtain ⟨q, hj, rfl⟩ := map_eq_some_iff.1 hstep
    split_ifs with hdata
    · have hheld : s.held i = s.held j := by rw [held_of_ptr hi, held_of_ptr hj, hdata]
      exact h.of_empty (hheld ▸ ha hheld) (.inr rfl)
    have hne : j ≠ i := by
      rintro rfl
      cases hi.symm.trans hj
      exact hdata rfl
    obtain ⟨hreset, hheld, hother⟩ := h.reset hi
    exact hreset.move hheld (by rw [hother j hne, hj]) hne.symm
  · obtain ⟨p, hi, rfl⟩ := map_eq_some_iff.1 hstep
    exact (h.reset hi).1
  · obtain ⟨p, hi, rfl⟩ := map_eq_some_iff.1 hstep
    obtain ⟨hreset, hheld, -⟩ := h.reset hi
    exact hreset.fresh hheld
  · obtain ⟨p, hi, rfl⟩ := map_eq_some_iff.1 hstep
    obtain ⟨hreset, hheld, -⟩ := h.reset hi
    exact hreset.of_empty hheld (.inl rfl)

lemma not_exact (h : PtrInv s) (ha : ¬ s.Apart a) (hstep : s.step a = some t) : ¬ t.Exact := by
  rcases a with i | i | ⟨i, j⟩ | ⟨i, j⟩ | ⟨i, j⟩ | ⟨i, j⟩ | i | i | i <;> try exact absurd trivial ha
  obtain ⟨p, hi, hstep⟩ := bind_eq_some_iff.1 hstep
  obtain ⟨q, hj, rfl⟩ := map_eq_some_iff.1 hstep
  obtain ⟨hsame, hsome⟩ := Classical.not_imp.1 ha
  obtain ⟨o, ho⟩ := ne_none_iff_exists'.1 hsome
  have hjo : s.held j = some o := hsame ▸ ho
  have hdata : p.data = q.data := by rw [← held_of_ptr hi, ← held_of_ptr hj, hsame]
  rw [if_pos hdata]
  intro hexact
  have hlt := h.holder_lt ho
  have hafter := hexact.strongCount o hlt
  have hbefore := (h.exact).strongCount o hlt
  have hlose := ncard_update_lose (i := j) (x := none) (h.finite o) hjo (ne_some_of_none rfl)
  have hptr : (s.set j .null).ptr = update s.ptr j (some .null) := rfl
  rw [holders_update hptr] at hafter
  change (s.blocks o).strongCount = (fibre (update s.held j none) (some o)).ncard at hafter
  unfold holders at hbefore
  omega

end PtrInv

/-- In every run whose move assignments are all between variables that do not hold the same object, the
counts are right in every state that is reached, and from there a step keeps them right if and only if
it is such a step again. -/
theorem counts_exact (s : PtrState ι) (hs : Reaches step Apart init s) :
    s.Exact ∧ ∀ a t, s.step a = some t → (t.Exact ↔ s.Apart a) := by
  have h : PtrInv s := hs.invariant PtrInv.init fun _ _ _ h ha hstep => h.step ha hstep
  refine ⟨h.exact, fun a t hstep => ⟨fun ht => ?_, fun ha => (h.step ha hstep).exact⟩⟩
  by_contra ha
  exact h.not_exact ha hstep ht

theorem counts_exact_shared : ∃ s : PtrState (Fin 3), s.deleted = [0] ∧ s.freed = [0] ∧ s.next = 2 ∧ s.Exact := by
  obtain ⟨s, hs, hdeleted, hfreed, hnext⟩ : ∃ s : PtrState (Fin 3), Reaches step Apart init s ∧
      s.deleted = [0] ∧ s.freed = [0] ∧ s.next = 2 :=
    exists_of_run [.construct 0, .copyConstruct 1 0, .construct 2, .moveAssign 1 2, .destroy 0] (by decide)
  exact ⟨s, hdeleted, hfreed, hnext, (counts_exact s hs).1⟩

/-- After a move assignment between variables that share an object the count is too high, and the object
is still there when all variables are gone. -/
theorem reference_lost : ∃ s : PtrState (Fin 2), Reaches step Any init s ∧
    (∀ i, s.ptr i = none) ∧ s.next = 1 ∧ (s.blocks 0).strongCount = 1 ∧ s.deleted = [] ∧ ¬ s.Exact := by
  obtain ⟨s, hs, hptr, hnext, hstrong, hdeleted⟩ : ∃ s : PtrState (Fin 2), Reaches step Any init s ∧
      (∀ i, s.ptr i = none) ∧ s.next = 1 ∧ (s.blocks 0).strongCount = 1 ∧ s.deleted = [] :=
    exists_of_run [.construct 0, .copyConstruct 1 0, .moveAssign 0 1, .destroy 0, .destroy 1] (by decide)
  refine ⟨s, hs, hptr, hnext, hstrong, hdeleted, fun hexact => ?_⟩
  have hempty : s.holders 0 = ∅ := by
    ext i
    simp [holders, held, hptr i]
  have hcount := hexact.strongCount 0 (by rw [hnext]; exact Nat.one_pos)
  rw [hstrong, hempty, Set.ncard_empty] at hcount
  cases hcount

end OlliOS.PtrState
