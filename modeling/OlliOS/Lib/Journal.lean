import Mathlib.Data.List.Basic

/-!
# Computations that keep a log

A computation of type `Journal σ ω ε α` works on a state `σ`, logs values of type `ω` and may be ended by
an error. The state and the log that it leaves are there in either case.
-/

namespace Journal

structure Outcome (σ ω ε α : Type) where
  state : σ
  log : List ω
  result : Except ε α

def Outcome.after {σ ω ε α : Type} (o : Outcome σ ω ε α) (l : List ω) : Outcome σ ω ε α :=
  { o with log := l ++ o.log }

end Journal

structure Journal (σ ω ε α : Type) where
  run : σ → Journal.Outcome σ ω ε α

namespace Journal

variable {σ ω ε α β : Type}

instance : Monad (Journal σ ω ε) where
  pure a := ⟨fun s => ⟨s, [], .ok a⟩⟩
  bind p f := ⟨fun s =>
    match (p.run s).result with
    | .error e => ⟨(p.run s).state, (p.run s).log, .error e⟩
    | .ok a => ((f a).run (p.run s).state).after (p.run s).log⟩

def get : Journal σ ω ε σ := ⟨fun s => ⟨s, [], .ok s⟩⟩

def modify (f : σ → σ) : Journal σ ω ε Unit := ⟨fun s => ⟨f s, [], .ok ()⟩⟩

def emit (w : ω) : Journal σ ω ε Unit := ⟨fun s => ⟨s, [w], .ok ()⟩⟩

def stop (e : ε) : Journal σ ω ε α := ⟨fun s => ⟨s, [], .error e⟩⟩

variable {s : σ} {a : α} {p : Journal σ ω ε α} {f : α → Journal σ ω ε β} {l : List ω} {t : σ} {w : ω}

@[simp] theorem run_pure : (pure a : Journal σ ω ε α).run s = ⟨s, [], .ok a⟩ := rfl

@[simp] theorem run_get : (get : Journal σ ω ε σ).run s = ⟨s, [], .ok s⟩ := rfl

@[simp] theorem run_modify (g : σ → σ) : (modify g : Journal σ ω ε Unit).run s = ⟨g s, [], .ok ()⟩ := rfl

@[simp] theorem run_emit : (emit w : Journal σ ω ε Unit).run s = ⟨s, [w], .ok ()⟩ := rfl

@[simp] theorem run_stop (e : ε) : (stop e : Journal σ ω ε α).run s = ⟨s, [], .error e⟩ := rfl

theorem run_bind : (p >>= f).run s =
    match (p.run s).result with
    | .error e => ⟨(p.run s).state, (p.run s).log, .error e⟩
    | .ok a => ((f a).run (p.run s).state).after (p.run s).log := rfl

theorem run_bind_ok (h : p.run s = ⟨t, l, .ok a⟩) : (p >>= f).run s = ((f a).run t).after l := by
  rw [run_bind, h]

theorem run_bind_error {e : ε} (h : p.run s = ⟨t, l, .error e⟩) : (p >>= f).run s = ⟨t, l, .error e⟩ := by
  rw [run_bind, h]

theorem mem_log_bind (h : w ∈ (p.run s).log) : w ∈ ((p >>= f).run s).log := by
  rcases hp : p.run s with ⟨t, l, e | a⟩
  · rw [run_bind_error hp]
    simpa [hp] using h
  · rw [run_bind_ok hp]
    simp only [hp] at h
    exact List.mem_append_left _ h

@[simp] theorem Outcome.after_state (o : Outcome σ ω ε α) : (o.after l).state = o.state := rfl

@[simp] theorem Outcome.after_log (o : Outcome σ ω ε α) : (o.after l).log = l ++ o.log := rfl

@[simp] theorem Outcome.after_result (o : Outcome σ ω ε α) : (o.after l).result = o.result := rfl

theorem run_bind_pure (g : α → β) : (do return g (← p) : Journal σ ω ε β).run s =
      ⟨(p.run s).state, (p.run s).log, (p.run s).result.map g⟩ := by
  rcases hp : p.run s with ⟨t, l, e | a⟩
  · rw [run_bind_error hp]
    rfl
  · rw [run_bind_ok hp, Outcome.after, run_pure, List.append_nil]
    rfl

section Rules

variable {Q : ω → Prop} {u : σ} {b : β}

/-- The computation takes `s` to `t` and ends with `a`, and what it logs satisfies `Q`. -/
def Leads (Q : ω → Prop) (p : Journal σ ω ε α) (s t : σ) (a : α) : Prop :=
  ∃ l, (∀ w ∈ l, Q w) ∧ p.run s = ⟨t, l, .ok a⟩

theorem Leads.pure (a : α) : Leads Q (pure a : Journal σ ω ε α) s s a := ⟨[], by simp, rfl⟩

theorem Leads.get : Leads Q (get : Journal σ ω ε σ) s s s := ⟨[], by simp, rfl⟩

theorem Leads.modify (g : σ → σ) : Leads Q (modify g : Journal σ ω ε Unit) s (g s) () := ⟨[], by simp, rfl⟩

theorem Leads.bind (hp : Leads Q p s t a) (hf : Leads Q (f a) t u b) : Leads Q (p >>= f) s u b := by
  obtain ⟨l, hl, hrun⟩ := hp
  obtain ⟨l', hl', hrun'⟩ := hf
  refine ⟨l ++ l', ?_, ?_⟩
  · intro w hw
    rcases List.mem_append.1 hw with hw | hw
    · exact hl w hw
    · exact hl' w hw
  · rw [run_bind_ok hrun, hrun']
    rfl

/-- What the computation logs satisfies `Q`, and the error `e` does not end it. -/
def Avoids (Q : ω → Prop) (e : ε) (p : Journal σ ω ε α) (s : σ) : Prop :=
  (∀ w ∈ (p.run s).log, Q w) ∧ (p.run s).result ≠ .error e

variable {e : ε}

theorem Leads.avoids (h : Leads Q p s t a) : Avoids Q e p s := by
  obtain ⟨l, hl, hrun⟩ := h
  rw [Avoids, hrun]
  exact ⟨hl, nofun⟩

theorem Avoids.bind (hp : Avoids Q e p s)
    (hf : ∀ a, (p.run s).result = .ok a → Avoids Q e (f a) (p.run s).state) : Avoids Q e (p >>= f) s := by
  obtain ⟨hlog, hne⟩ := hp
  rcases hrun : p.run s with ⟨t, l, e' | a⟩
  · rw [hrun] at hlog hne
    rw [Avoids, run_bind_error hrun]
    exact ⟨hlog, fun h => hne (congrArg Except.error (Except.error.inj h))⟩
  rw [hrun] at hlog
  obtain ⟨hlog', hne'⟩ := hf a (by rw [hrun])
  rw [hrun] at hlog' hne'
  rw [Avoids, run_bind_ok hrun]
  refine ⟨?_, hne'⟩
  intro w hw
  rcases List.mem_append.1 hw with hw | hw
  · exact hlog w hw
  · exact hlog' w hw

/-- After a part that ends well, the rest decides. -/
theorem Leads.avoids_bind_iff (h : Leads Q p s t a) : Avoids Q e (p >>= f) s ↔ Avoids Q e (f a) t := by
  obtain ⟨l, hl, hrun⟩ := h
  unfold Avoids
  rw [run_bind_ok hrun, Outcome.after_log, Outcome.after_result]
  constructor
  · rintro ⟨hlog, hne⟩
    exact ⟨fun w hw => hlog w (List.mem_append_right _ hw), hne⟩
  rintro ⟨hlog, hne⟩
  refine ⟨?_, hne⟩
  intro w hw
  rcases List.mem_append.1 hw with hw | hw
  · exact hl w hw
  · exact hlog w hw

theorem avoids_map_iff (g : α → β) : Avoids Q e (do return g (← p)) s ↔ Avoids Q e p s := by
  unfold Avoids
  rw [run_bind_pure]
  cases (p.run s).result <;> simp [Except.map]

end Rules

end Journal
