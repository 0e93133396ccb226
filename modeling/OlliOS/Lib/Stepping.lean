import Mathlib.Logic.Relation
import Mathlib.Data.List.Basic

/-!
# Machines that take labelled steps

A machine is a partial step function: `step s a = some t` when the label `a` is enabled in `s` and leads to
`t`. `Reaches step ok s t` says that a run leads from `s` to `t` with every step meeting `ok` in the state it
is taken from. An invariant is proved once per step (`Reaches.invariant`), and a concrete run is evaluated by
`run`.
-/

namespace Stepping

variable {σ ι : Type*} {step : σ → ι → Option σ}

def Any : σ → ι → Prop := fun _ _ => True

instance (s : σ) (a : ι) : Decidable (Any s a) := inferInstanceAs (Decidable True)

def Next (step : σ → ι → Option σ) (ok : σ → ι → Prop) (s t : σ) : Prop := ∃ a, ok s a ∧ step s a = some t

def Reaches (step : σ → ι → Option σ) (ok : σ → ι → Prop) : σ → σ → Prop :=
  Relation.ReflTransGen (Next step ok)

/-- The state a list of labels leads to, if each is allowed and enabled in its turn. -/
def run (step : σ → ι → Option σ) (ok : σ → ι → Prop) [∀ s a, Decidable (ok s a)] (s : σ)
    (as : List ι) : Option σ :=
  as.foldlM (fun s a => if ok s a then step s a else none) s

namespace Reaches

variable {ok : σ → ι → Prop} {s t u : σ}

theorem refl (s : σ) : Reaches step ok s s := Relation.ReflTransGen.refl

theorem tail {a : ι} (h : Reaches step ok s t) (ha : ok t a) (ht : step t a = some u) : Reaches step ok s u :=
  Relation.ReflTransGen.tail h ⟨a, ha, ht⟩

theorem trans (h : Reaches step ok s t) (h' : Reaches step ok t u) : Reaches step ok s u :=
  Relation.ReflTransGen.trans h h'

/-- What holds at the start and is kept by every allowed step holds in every state reached. -/
theorem invariant {I : σ → Prop} (h : Reaches step ok s t) (h0 : I s)
    (hstep : ∀ s a t, I s → ok s a → step s a = some t → I t) : I t := by
  induction h with
  | refl => exact h0
  | tail _ hlast ih =>
    obtain ⟨a, ha, ht⟩ := hlast
    exact hstep _ a _ ih ha ht

end Reaches

section Run

variable {ok : σ → ι → Prop} [∀ s a, Decidable (ok s a)]

theorem reaches_of_run : ∀ (as : List ι) {s t : σ}, run step ok s as = some t → Reaches step ok s t
  | [], s, t, h => by
    simp only [run, List.foldlM_nil, Option.pure_def, Option.some.injEq] at h
    subst h
    exact Reaches.refl s
  | a :: as, s, t, h => by
    simp only [run, List.foldlM_cons, Option.bind_eq_bind, Option.bind_eq_some_iff] at h
    obtain ⟨u, hu, ht⟩ := h
    split_ifs at hu with ha
    exact Relation.ReflTransGen.head ⟨a, ha, hu⟩ (reaches_of_run as ht)

theorem exists_of_run {s : σ} {p : σ → Prop} [DecidablePred p] (as : List ι)
    (h : (run step ok s as).any (fun t => decide (p t)) = true) :
    ∃ t, Reaches step ok s t ∧ p t := by
  obtain ⟨t, ht, hp⟩ := (Option.any_eq_true ..).1 h
  exact ⟨t, reaches_of_run as ht, of_decide_eq_true hp⟩

end Run

end Stepping
