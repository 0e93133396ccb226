import Mathlib.Algebra.Group.Nat.Defs

/-!
# Loops

A loop is its body: from a state, one pass either goes on with another state or leaves the loop with a result.
`run` bounds the number of passes.

`run_of_rank` and `run_of_variant` prove what a loop returns and that it does return, and `run_eq_none` that
it goes on forever. `run_stride` makes a loop with a machine word a fold over `List.range`.
-/

namespace Loop

open UInt32 List

variable {σ ρ : Type*} {body : σ → σ ⊕ ρ} {Q : ρ → Prop} {I : σ → Prop} {s : σ}

def run (body : σ → σ ⊕ ρ) : ℕ → σ → Option ρ
  | 0, _ => none
  | n + 1, s =>
    match body s with
    | .inl t => run body n t
    | .inr r => some r

theorem run_succ (n : ℕ) (s : σ) : run body (n + 1) s =
    match body s with
    | .inl t => run body n t
    | .inr r => some r := rfl

/-- A pass keeps `I` at a smaller rank, or leaves with a result that meets `Q`. The rank need not be
read off the state. -/
theorem run_of_rank (body : σ → σ ⊕ ρ) {I : ℕ → σ → Prop}
    (hpass : ∀ k s, I k s → (∃ t k', body s = .inl t ∧ I k' t ∧ k' < k) ∨ ∃ r, body s = .inr r ∧ Q r) :
    ∀ (n k : ℕ) (s : σ), I k s → (∀ r, run body n s = some r → Q r) ∧ (k < n → ∃ r, run body n s = some r)
  | 0, _, s, _ => ⟨fun r h => by simp [run] at h, fun h => absurd h (Nat.not_lt_zero _)⟩
  | n + 1, k, s, hs => by
    rw [run_succ]
    rcases hpass k s hs with ⟨t, k', ht, hI, hk⟩ | ⟨r, hr, hQ⟩
    · obtain ⟨hall, hex⟩ := run_of_rank body hpass n k' t hI
      rw [ht]
      exact ⟨hall, fun h => hex (by omega)⟩
    · rw [hr]
      refine ⟨fun r' h => ?_, fun _ => ⟨r, rfl⟩⟩
      cases h
      exact hQ

/-- A pass keeps `I` and makes the variant smaller, or leaves with a result that meets `Q`. -/
theorem run_of_variant (m : σ → ℕ)
    (hpass : ∀ s, I s → (∃ t, body s = .inl t ∧ I t ∧ m t < m s) ∨ ∃ r, body s = .inr r ∧ Q r) (n : ℕ)
    (s : σ) (hs : I s) :
    (∀ r, run body n s = some r → Q r) ∧ (m s < n → ∃ r, run body n s = some r) := by
  refine run_of_rank body (I := fun k s => I s ∧ m s = k) ?_ n (m s) s ⟨hs, rfl⟩
  rintro k s ⟨hI, rfl⟩
  rcases hpass s hI with ⟨t, ht, hI', hm⟩ | hr
  · exact .inl ⟨t, m t, ht, ⟨hI', rfl⟩, hm⟩
  · exact .inr hr

theorem run_of_invariant (hgo : ∀ s t, I s → body s = .inl t → I t) (hleave : ∀ s r, I s → body s = .inr r → Q r) :
    ∀ (n : ℕ) (s : σ) (r : ρ), I s → run body n s = some r → Q r
  | n + 1, s, r, hs, h => by
    rw [run_succ] at h
    rcases hbody : body s with t | r'
    · rw [hbody] at h
      exact run_of_invariant hgo hleave n t r (hgo s t hs hbody) h
    · rw [hbody] at h
      obtain rfl := Option.some.inj h
      exact hleave s r' hs hbody

theorem run_eq_none (hpass : ∀ s, I s → ∃ t, body s = .inl t ∧ I t) : ∀ (n : ℕ) (s : σ), I s → run body n s = none
  | 0, _, _ => rfl
  | n + 1, s, hs => by
    obtain ⟨t, ht, hI⟩ := hpass s hs
    rw [run_succ, ht]
    exact run_eq_none hpass n t hI

theorem run_mono : ∀ {n m : ℕ} {s : σ} {r : ρ}, run body n s = some r → n ≤ m → run body m s = some r
  | n + 1, m + 1, s, r, h, hle => by
    rw [run_succ] at h ⊢
    rcases hbody : body s with t | r'
    · rw [hbody] at h
      exact run_mono h (by omega)
    · rw [hbody] at h
      exact h

def after (body : σ → σ ⊕ ρ) : ℕ → σ → Option σ
  | 0, s => some s
  | n + 1, s => (after body n s).bind fun t => (body t).getLeft?

theorem after_succ {n : ℕ} {u : σ} :
    after body (n + 1) s = some u ↔ ∃ t, after body n s = some t ∧ body t = .inl u := by
  simp [after, Option.bind_eq_some_iff]

theorem after_of_invariant (hgo : ∀ s t, I s → body s = .inl t → I t) (hs : I s) :
    ∀ (n : ℕ) {t : σ}, after body n s = some t → I t
  | 0, _, h => Option.some.inj h ▸ hs
  | n + 1, t, h => by
    obtain ⟨u, hu, hbody⟩ := after_succ.1 h
    exact hgo u t (after_of_invariant hgo hs n hu) hbody

section Counted

variable {f : σ → ℕ → Option σ}

/-- A loop over `0, …, n - 1` each of whose passes takes `P i` to `P (i + 1)` gets through. -/
theorem foldlM_range {P : ℕ → σ → Prop} (h0 : P 0 s) : ∀ n : ℕ,
    (∀ i < n, ∀ t, P i t → ∃ u, f t i = some u ∧ P (i + 1) u) →
    ∃ t, (range n).foldlM f s = some t ∧ P n t
  | 0, _ => ⟨s, rfl, h0⟩
  | n + 1, hpass => by
    obtain ⟨t, hrun, ht⟩ := foldlM_range h0 n fun i hi => hpass i (by omega)
    obtain ⟨u, hu, hP⟩ := hpass n (by omega) t ht
    have hlast : [n].foldlM f t = some u := by
      rw [foldlM_cons, hu]
      rfl
    refine ⟨u, ?_, hP⟩
    rw [range_succ, foldlM_append, hrun]
    exact hlast

theorem exists_pass {s' : σ} : ∀ {n : ℕ}, (range n).foldlM f s = some s' → ∀ i < n, ∃ t u, f t i = some u
  | n + 1, hrun, i, hi => by
    rw [range_succ, foldlM_append] at hrun
    obtain ⟨t, hfirst, hlast⟩ := Option.bind_eq_some_iff.1 hrun
    rcases Nat.lt_or_ge i n with hlt | hge
    · exact exists_pass hfirst i hlt
    · obtain rfl : i = n := by omega
      obtain ⟨u, hu, -⟩ := Option.bind_eq_some_iff.1 hlast
      exact ⟨t, u, hu⟩

end Counted

section Stride

variable {f : UInt32 → σ → Option σ} {bound step : UInt32} {w N : ℕ}

/-- The body of a loop with a counter of 32 bits that is raised by `step` while it is below `bound`. A
pass may fail. -/
def stride (bound step : UInt32) (f : UInt32 → σ → Option σ) : UInt32 × σ → (UInt32 × σ) ⊕ Option σ :=
  fun (i, s) =>
    if i < bound then
      match f i s with
      | some t => .inl (i + step, t)
      | none => .inr none
    else .inr (some s)

theorem run_stride_from (hstep : step.toNat = w) (hN : ∀ j, w * j < bound.toNat ↔ j < N) (hwrap : w * N < 2 ^ 32) :
    ∀ (n : ℕ) {fuel j : ℕ} (s : σ), j + n = N → n < fuel → run (stride bound step f) fuel (ofNat (w * j), s) =
        some ((range' j n).foldlM (fun s j => f (ofNat (w * j)) s) s) := by
  intro n
  induction n with
  | zero =>
    intro fuel j s hj hfuel
    obtain ⟨fuel, rfl⟩ : ∃ k, fuel = k + 1 := ⟨fuel - 1, by omega⟩
    obtain rfl : j = N := by omega
    have hto : (ofNat (w * j)).toNat = w * j := toNat_ofNat_of_lt' hwrap
    have hlt : ¬ ofNat (w * j) < bound := by
      rw [lt_iff_toNat_lt, hto, hN]
      omega
    rw [run_succ, stride]
    simp only [if_neg hlt]
    rfl
  | succ n ih =>
    intro fuel j s hj hfuel
    obtain ⟨fuel, rfl⟩ : ∃ k, fuel = k + 1 := ⟨fuel - 1, by omega⟩
    have hmul : w * j + w ≤ w * N := by
      rw [← Nat.mul_succ]
      exact Nat.mul_le_mul_left w (by omega)
    have hto : (ofNat (w * j)).toNat = w * j := toNat_ofNat_of_lt' (by rw [size]; omega)
    have hlt : ofNat (w * j) < bound := by
      rw [lt_iff_toNat_lt, hto, hN]
      omega
    have hnext : ofNat (w * j) + step = ofNat (w * (j + 1)) := by
      rw [← UInt32.toNat_inj, UInt32.toNat_add, hto, hstep, Nat.mul_succ,
        toNat_ofNat_of_lt' (by rw [size]; omega), Nat.mod_eq_of_lt (by omega)]
    rw [run_succ, stride, range'_succ, foldlM_cons]
    simp only [if_pos hlt]
    rcases f (ofNat (w * j)) s with _ | t
    · rfl
    · rw [hnext]
      exact ih t (by omega) (by omega)

theorem run_stride (hstep : step.toNat = w) (hN : ∀ j, w * j < bound.toNat ↔ j < N) (hwrap : w * N < 2 ^ 32)
    {fuel : ℕ} (hfuel : N < fuel) (s : σ) : run (stride bound step f) fuel (0, s) =
      some ((range N).foldlM (fun s j => f (ofNat (w * j)) s) s) := by
  rw [range_eq_range']
  exact run_stride_from hstep hN hwrap N s (Nat.zero_add N) hfuel

end Stride

end Loop
