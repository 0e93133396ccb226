import OlliOS.SchedulerLock

/-!
# Where the lock of the scheduler is taken with interrupts enabled

The lock is taken by at most one point of the active stack and by none of a saved one.
-/

namespace OlliOS

open Function Stepping List Option CoreState Frame

variable {T : Type*} {s s' : CoreState T} {t : T} {f : Frame T} {k : List (Frame T)} {a : CoreAct T}
  {ps : List (Frame T)}

namespace Frame

/-- The point is in `Scheduler::enter`, up to its `CLI`. -/
def entering : Frame T → Bool
  | .enter | .enterCli => true
  | _ => false

/-- The point is one that a handler gets to. -/
def light : Frame T → Bool
  | .handler | .schedule _ | .tryCli _ | .tryLock _ _ | .retry _ _ | .spinCli _ | .spin _ _
  | .push _ _ | .release _ | .sti _ | .exitCli | .exit _ => true
  | _ => false

/-- The point comes after a `CLI` and before the `STI` that goes with it, next to the lock. -/
def critical : Frame T → Bool
  | .tryLock _ _ | .spin _ _ | .push _ _ | .release _ | .pop _ => true
  | _ => false

/-- A point of a handler that came before the `CLI` of `enter`, with its `eflag`. -/
def inHandler : Frame T → Bool
  | .schedule _ | .spinCli _ | .spin _ false | .exitCli | .exit false | .sti false => true
  | _ => false

end Frame

def Calm (k : List (Frame T)) : Prop := ∀ f ∈ k, f.entering = false

/-- Only handlers are above `enter` up to its `CLI`. -/
def Ordered (k : List (Frame T)) : Prop := k.Pairwise fun f g => g.entering = true → f.light = true

lemma Calm.ordered : ∀ {k : List (Frame T)}, Calm k → Ordered k
  | [], _ => .nil
  | f :: k, h => by
    obtain ⟨-, hk⟩ := forall_mem_cons.1 h
    exact .cons (fun g hg hent => absurd hent (by simp [hk g hg])) (Calm.ordered hk)

lemma Ordered.calm_tail (h : Ordered (f :: k)) (hf : f.light = false) : Calm k := by
  intro g hg
  by_contra hent
  have hlight := (pairwise_cons.1 h).1 g hg (by simpa using hent)
  simp [hf] at hlight

lemma Ordered.replace (h : Ordered (f :: k)) {ns : List (Frame T)}
    (hns : ∀ g ∈ ns, g.entering = false ∧ (f.light = true → g.light = true)) : Ordered (ns ++ k) := by
  rcases hf : f.light with _ | _
  · have hcalm : Calm (ns ++ k) :=
      forall_mem_append.2 ⟨fun g hg => (hns g hg).1, h.calm_tail hf⟩
    exact hcalm.ordered
  · have hcalm : Calm ns := fun g hg => (hns g hg).1
    exact pairwise_append.2 ⟨hcalm.ordered, (pairwise_cons.1 h).2, fun g hg _ _ _ => (hns g hg).2 hf⟩

/-- No point of the stack is next to the lock. -/
def Frees (k : List (Frame T)) : Prop := ∀ f ∈ k, f.critical = false ∧ f ≠ .enterCli

lemma frees_cons : Frees (f :: k) ↔ (f.critical = false ∧ f ≠ .enterCli) ∧ Frees k := forall_mem_cons

lemma frees_of_entering (ns : List (Frame T)) (hent : ∀ g ∈ ns, g.entering = false)
    (hcrit : ∀ g ∈ ns, g.critical = false) (hk : Frees k) : Frees (ns ++ k) := by
  refine forall_mem_append.2 ⟨fun g hg => ⟨hcrit g hg, ?_⟩, hk⟩
  rintro rfl
  simpa [entering] using hent _ hg

/-- What a step does to the stacks. With no point next to the lock, the lock stays as it is and no such
point is put on the stack, unless the step comes to take it. -/
inductive Moves [DecidableEq T] (s s' : CoreState T) : Prop
  | edit {f : Frame T} {k : List (Frame T)} (ns : List (Frame T)) (hst : s.stack = f :: k)
      (hst' : s'.stack = ns ++ k) (hp : s'.parent = s.parent) (hs : s'.saved = s.saved)
      (hr : s'.running ≠ none → s.running ≠ none ∨ f.light = false)
      (hent : ∀ g ∈ ns, g.entering = false) (hlight : f.light = true → ∀ g ∈ ns, g.light = true)
      (hfree : f.critical = false → f ≠ .enterCli → s'.lock = s.lock ∧
        ((∀ g ∈ ns, g.critical = false) ∨ ∃ g, ns = [g] ∧ g.wants = true ∧ s'.iflag = false))
  | push (f : Frame T) (hs : ∃ b, s' = { s with iflag := b, stack := f :: s.stack })
      (hent : f.entering = false) (hlight : f.light = true) (hcrit : f.critical = false)
  | call {k : List (Frame T)} (hst : s.stack = .code :: k) (hr : s.running = none)
      (hs : s' = { s with stack := .enter :: s.stack })
  | lock {k : List (Frame T)} (hst : s.stack = .enter :: k)
      (hs : s' = { s with lock := true, stack := .enterCli :: k })
  | leave {f : Frame T} {t : T} {k : List (Frame T)} (k' : List (Frame T)) (hst : s.stack = f :: k)
      (hr : s.running = some t)
      (hk' : ∀ g ∈ k', (g.entering = false ∧ g.critical = false) ∨ g ∈ k) (hs : s' = s.leave t k')
  | switch {t : T} {k : List (Frame T)} (hst : s.stack = .threadSwitch t :: k) (hs : s' = { s with
      parent := ⟨.threadLeft t :: k, s.iflag⟩
      stack := (s.saved t).stack
      iflag := (s.saved t).iflag })

namespace Moves

variable [DecidableEq T]

lemma one {g : Frame T} (hst : s.stack = f :: k) (hst' : s'.stack = g :: k)
    (hp : s'.parent = s.parent) (hs : s'.saved = s.saved) (hr : s'.running = s.running)
    (hent : g.entering = false) (hlight : f.light = true → g.light = true)
    (hfree : f.critical = false → f ≠ .enterCli → s'.lock = s.lock ∧
      (g.critical = false ∨ g.wants = true ∧ s'.iflag = false)) : Moves s s' := by
  refine .edit [g] hst hst' hp hs (fun h => .inl (hr ▸ h)) (by simpa using hent) (by simpa using hlight) ?_
  intro hcrit hne
  obtain ⟨hl, hg⟩ := hfree hcrit hne
  exact ⟨hl, hg.imp (by simp) fun hg => ⟨g, rfl, hg⟩⟩

lemma of_run (hs : s.run = some s') : Moves s s' := by
  rcases hst : s.stack with _ | ⟨f, k⟩
  · simp [CoreState.run, hst] at hs
  cases f with simp only [CoreState.run, hst, reduceCtorEq] at hs
  | schedule t =>
    cases hs
    refine .one hst rfl rfl rfl rfl ?_ ?_ fun _ _ => ⟨rfl, .inl ?_⟩ <;> split_ifs <;> intros <;> rfl
  | tryCli t | spinCli t =>
    cases hs
    exact .one hst rfl rfl rfl rfl rfl (fun _ => rfl) fun _ _ => ⟨rfl, .inr ⟨rfl, rfl⟩⟩
  | push t e | release e | enterCli =>
    cases hs
    exact .one hst rfl rfl rfl rfl rfl (by simp [light]) (by simp [critical])
  | exitCli =>
    cases hs
    exact .one hst rfl rfl rfl rfl rfl (fun _ => rfl) fun _ _ => ⟨rfl, .inl rfl⟩
  | tryLock t e =>
    cases hs
    split_ifs <;> exact .one hst rfl rfl rfl rfl rfl (fun _ => rfl) (by simp [critical])
  | retry t e =>
    cases hs
    exact .edit [.exitCli, .tryCli t] hst rfl rfl rfl .inl (by simp [entering]) (by simp [light]) (by simp [critical])
  | spin t e =>
    split_ifs at hs
    cases hs
    exact .one hst rfl rfl rfl rfl rfl (fun _ => rfl) (by simp [critical])
  | sti e =>
    cases hs
    exact .edit [] hst rfl rfl rfl .inl (by simp) (by simp) (by simp)
  | exit e =>
    cases hs
    cases hr : s.running with
    | none => exact .one hst rfl rfl rfl hr.symm rfl (fun _ => rfl) fun _ _ => ⟨rfl, .inl rfl⟩
    | some t =>
      refine .leave (.sti e :: k) hst hr (fun g hg => ?_) rfl
      exact (mem_cons.1 hg).imp (fun hg => by simp [hg, entering, critical]) id
  | enter =>
    split_ifs at hs
    exact .lock hst (some.inj hs).symm
  | pop e =>
    cases hs
    cases s.threads with
    | nil => exact .one hst rfl rfl rfl rfl rfl (fun _ => rfl) (by simp [critical])
    | cons t ts =>
      exact .edit [.release e, .threadEnter t] hst rfl rfl rfl .inl (by simp [entering])
        (by simp [light]) (by simp [critical])
  | threadSwitch t => exact .switch hst (some.inj hs).symm
  | threadLeft t =>
    cases hs
    exact .edit [.entered t] hst rfl rfl rfl (fun h => absurd rfl h) (by simp [entering])
      (by simp [light]) (by simp [critical])

lemma of_schedules (ts : List T) (ns : List (Frame T)) (hst : s.stack = f :: k)
    (hst' : s'.stack = ts.map .schedule ++ (ns ++ k)) (hp : s'.parent = s.parent)
    (hs : s'.saved = s.saved) (hl : s'.lock = s.lock) (hlight : f.light = false)
    (hns : ∀ g ∈ ns, g.entering = false ∧ g.critical = false) : Moves s s' := by
  have hg : ∀ g ∈ ts.map .schedule ++ ns, g.entering = false ∧ g.critical = false := by
    refine forall_mem_append.2 ⟨fun g hg => ?_, hns⟩
    obtain ⟨t, -, rfl⟩ := List.mem_map.1 hg
    exact ⟨rfl, rfl⟩
  exact .edit (ts.map .schedule ++ ns) hst (by simp [hst']) hp hs (fun _ => .inr hlight)
    (fun g h => (hg g h).1) (by simp [hlight]) fun _ _ => ⟨hl, .inl fun g h => (hg g h).2⟩

lemma of_step (hs : s.step a = some s') : Moves s s' := by
  cases a with simp only [step] at hs
  | run => exact .of_run hs
  | schedule t | exit | irq =>
    split_ifs at hs
    exact .push _ ⟨_, (some.inj hs).symm⟩ rfl rfl rfl
  | enter =>
    split_ifs at hs with hc
    obtain ⟨k, hst⟩ := head?_eq_some_iff.1 hc.1
    exact .call hst hc.2 (some.inj hs).symm
  | setIflag b =>
    split_ifs at hs with hc
    obtain ⟨k, hst⟩ := head?_eq_some_iff.1 hc
    cases hs
    exact .one hst hst rfl rfl rfl rfl id fun _ _ => ⟨rfl, .inl rfl⟩
  | finish =>
    split at hs
    case h_1 hst hr => exact .leave [] hst hr (by simp) (some.inj hs).symm
    case h_2 => simp at hs
  | iret =>
    split at hs
    case h_1 hst =>
      cases hs
      exact .edit [] hst rfl rfl rfl .inl (by simp) (by simp) (by simp)
    case h_2 => simp at hs
  | preempt =>
    split at hs
    case h_1 k t hst hr =>
      refine .leave (.handler :: k) hst hr (fun g hg => ?_) (some.inj hs).symm
      exact (mem_cons.1 hg).imp (fun hg => by simp [hg, entering, critical]) id
    case h_2 => simp at hs
  | threadEnter ts =>
    split at hs
    case h_1 t k hst =>
      split_ifs at hs
      cases hs
      exact .of_schedules ts [.threadSwitch t] hst rfl rfl rfl rfl rfl (by simp [entering, critical])
    case h_2 => simp at hs
  | finished =>
    split at hs
    case h_1 t k hst =>
      cases hs
      exact .one hst rfl rfl rfl rfl rfl (by simp [light]) fun _ _ => ⟨rfl, .inl rfl⟩
    case h_2 => simp at hs
  | giveUp ts =>
    split at hs
    case h_1 t k hst =>
      split_ifs at hs
      cases hs
      exact .of_schedules ts [.sti true, .entered t] hst rfl rfl rfl rfl rfl (by simp [entering, critical])
    case h_2 => simp at hs
  | entered ts =>
    split at hs
    case h_1 t k hst =>
      cases hs
      exact .of_schedules ts [] hst rfl rfl rfl rfl rfl (by simp)
    case h_2 => simp at hs

end Moves

structure EnterInv (s : CoreState T) : Prop where
  parent : Calm s.parent.stack
  saved : ∀ t, Calm (s.saved t).stack
  order : Ordered s.stack
  calm : s.running ≠ none → Calm s.stack

namespace EnterInv

lemma init : EnterInv (init : CoreState T) := by
  have hcalm : Calm [(.code : Frame T)] := by simp [Calm, entering]
  exact ⟨by simp [Calm, CoreState.init], fun t => by simp [Calm, CoreState.init, Frame.entering],
    hcalm.ordered, fun _ => hcalm⟩

lemma running_eq_none (h : EnterInv s) (hmem : f ∈ s.stack) (hf : f.entering = true) : s.running = none := by
  by_contra hne
  simpa [hf] using h.calm hne f hmem

lemma calm_tail (h : EnterInv s) (hst : s.stack = f :: k) (hf : s.running ≠ none ∨ f.light = false) : Calm k := by
  rcases hf with hr | hf
  · exact (forall_mem_cons.1 (hst ▸ h.calm hr)).2
  · exact (hst ▸ h.order : Ordered (f :: k)).calm_tail hf

lemma enter (h : EnterInv s) (hr : s.running = none) (hk : Calm k) (g : Frame T) {b : Bool} :
    EnterInv { s with lock := b, stack := g :: k } :=
  ⟨h.parent, h.saved, .cons (fun c hc hent => absurd hent (by simp [hk c hc])) hk.ordered, fun hne => absurd hr hne⟩

variable [DecidableEq T]

lemma step (h : EnterInv s) (hs : s.step a = some s') : EnterInv s' := by
  rcases Moves.of_step hs with ⟨ns, hst, hst', hp, hsv, hr, hent, hlight, -⟩ | ⟨f, ⟨b, rfl⟩, hent, hlight, -⟩ |
    ⟨hst, hr, rfl⟩ | ⟨hst, rfl⟩ | ⟨k', hst, hr, hk', rfl⟩ | ⟨hst, rfl⟩
  · refine ⟨hp ▸ h.parent, hsv ▸ h.saved, ?_, fun hrun => ?_⟩ <;> rw [hst']
    · exact (hst ▸ h.order : Ordered _).replace fun g hg => ⟨hent g hg, fun hf => hlight hf g hg⟩
    · exact forall_mem_append.2 ⟨hent, h.calm_tail hst (hr hrun)⟩
  · exact ⟨h.parent, h.saved, .cons (fun _ _ _ => hlight) h.order, fun hr => forall_mem_cons.2 ⟨hent, h.calm hr⟩⟩
  · have hcalm : Calm s.stack := hst ▸ forall_mem_cons.2 ⟨rfl, h.calm_tail hst (.inr rfl)⟩
    exact h.enter hr hcalm .enter
  · exact h.enter (h.running_eq_none (f := .enter) (by simp [hst]) rfl) (h.calm_tail hst (.inr rfl)) .enterCli
  · have hk : Calm k' := fun g hg => (hk' g hg).elim And.left (h.calm_tail hst (.inl (by simp [hr])) g)
    refine ⟨h.parent, fun u => ?_, h.parent.ordered, fun _ => h.parent⟩
    exact forall_update_iff s.saved (p := fun _ c => Calm c.stack) |>.2 ⟨hk, fun u _ => h.saved u⟩ u
  · exact ⟨forall_mem_cons.2 ⟨rfl, h.calm_tail hst (.inr rfl)⟩, h.saved, (h.saved _).ordered, fun _ => h.saved _⟩

end EnterInv

inductive LockHeld (s : CoreState T) : Prop
  | free (hlock : s.lock = false) (hk : Frees s.stack)
  | wanted {f : Frame T} {k : List (Frame T)} (hlock : s.lock = false) (hst : s.stack = f :: k)
      (hf : f.wants = true) (hk : Frees k) (hiflag : s.iflag = false)
  | masked {f : Frame T} {k : List (Frame T)} (hlock : s.lock = true) (hst : s.stack = f :: k)
      (hf : f.critical = true) (hf' : f.wants = false) (hk : Frees k) (hiflag : s.iflag = false)
  | entering {k : List (Frame T)} (hlock : s.lock = true) (hst : s.stack = .enterCli :: k) (hk : Frees k)
  | interrupted (ps : List (Frame T)) {k : List (Frame T)} (hlock : s.lock = true)
      (hst : s.stack = ps ++ .handler :: .enterCli :: k) (hps : ∀ f ∈ ps, f.inHandler = true)
      (hk : Frees k) (hiflag : s.iflag = false)

structure LockInv (s : CoreState T) : Prop where
  parent : Frees s.parent.stack
  saved : ∀ t, Frees (s.saved t).stack
  active : LockHeld s

namespace LockInv

lemma init : LockInv (init : CoreState T) := by
  refine ⟨by simp [Frees, CoreState.init], fun t => ?_, .free rfl ?_⟩
  · simp [Frees, CoreState.init, Frame.critical]
  · simp [Frees, CoreState.init, Frame.critical]

variable (h : LockInv s)

include h

lemma keep (hp : s'.parent = s.parent) (hs : s'.saved = s.saved) (ha : LockHeld s') : LockInv s' :=
  ⟨hp ▸ h.parent, hs ▸ h.saved, ha⟩

variable [DecidableEq T]

lemma run_wanted (hlock : s.lock = false) (hst : s.stack = f :: k)
    (hf : f.wants = true) (hk : Frees k) (hiflag : s.iflag = false) (hs : s.run = some s') :
    LockInv s' := by
  cases f with
  | tryLock t e | spin t e =>
    simp only [CoreState.run, hst, hlock] at hs
    cases hs
    exact h.keep rfl rfl (.masked rfl rfl rfl rfl hk hiflag)
  | _ => simp [wants] at hf

lemma run_masked (hlock : s.lock = true) (hst : s.stack = f :: k)
    (hf : f.critical = true) (hf' : f.wants = false) (hk : Frees k) (hiflag : s.iflag = false)
    (hs : s.run = some s') : LockInv s' := by
  cases f with
  | push t e =>
    simp only [CoreState.run, hst] at hs
    cases hs
    exact h.keep rfl rfl (.masked hlock rfl rfl rfl hk hiflag)
  | release e =>
    simp only [CoreState.run, hst] at hs
    cases hs
    exact h.keep rfl rfl (.free rfl (frees_cons.2 ⟨⟨rfl, by simp⟩, hk⟩))
  | pop e =>
    simp only [CoreState.run, hst] at hs
    cases hs
    cases s.threads with
    | nil => exact h.keep rfl rfl (.masked hlock rfl rfl rfl hk hiflag)
    | cons t ts => exact h.keep rfl rfl (.masked hlock rfl rfl rfl (frees_cons.2 ⟨⟨rfl, by simp⟩, hk⟩) hiflag)
  | tryLock _ _ | spin _ _ => simp [wants] at hf'
  | _ => simp [critical] at hf

lemma run_interrupted (hrun : s.running = none) (hlock : s.lock = true)
    (hst : s.stack = ps ++ .handler :: .enterCli :: k) (hps : ∀ f ∈ ps, f.inHandler = true)
    (hk : Frees k) (hiflag : s.iflag = false) (hs : s.run = some s') : LockInv s' := by
  rcases ps with _ | ⟨f, ps⟩
  · simp [CoreState.run, hst] at hs
  obtain ⟨hf, hps'⟩ := forall_mem_cons.1 hps
  -- what takes the place of the first point is again a point of the handler
  have next : ∀ {g : Frame T} {s'' : CoreState T}, g.inHandler = true → s''.parent = s.parent →
      s''.saved = s.saved → s''.lock = s.lock → s''.iflag = false →
      s''.stack = g :: (ps ++ .handler :: .enterCli :: k) → LockInv s'' := by
    intro g s'' hg hp hsv hl hi hst''
    exact h.keep hp hsv (.interrupted (g :: ps) (hl.trans hlock) hst'' (forall_mem_cons.2 ⟨hg, hps'⟩) hk hi)
  cases f with
  | schedule t =>
    simp only [CoreState.run, hst, cons_append, hrun] at hs
    cases hs
    exact next rfl rfl rfl rfl hiflag rfl
  | spinCli t =>
    simp only [CoreState.run, hst, cons_append, hiflag] at hs
    cases hs
    exact next rfl rfl rfl rfl rfl rfl
  | spin t e => simp [CoreState.run, hst, hlock] at hs
  | exitCli =>
    simp only [CoreState.run, hst, hiflag] at hs
    cases hs
    exact next rfl rfl rfl rfl rfl rfl
  | exit e =>
    simp only [CoreState.run, hst, hrun] at hs
    cases hs
    cases e with
    | false => exact next rfl rfl rfl rfl hiflag rfl
    | true => simp [inHandler] at hf
  | sti e =>
    simp only [CoreState.run, hst] at hs
    cases hs
    cases e with
    | false => exact h.keep rfl rfl (.interrupted ps hlock rfl hps' hk (by simp [hiflag]))
    | true => simp [inHandler] at hf
  | _ => simp [inHandler] at hf

lemma step_free (hlock : s.lock = false) (hfree : Frees s.stack) (hs : s.step a = some s') : LockInv s' := by
  rcases Moves.of_step hs with @⟨f, k, ns, hst, hst', hp, hsv, -, hent, -, hns⟩ | ⟨f, ⟨b, rfl⟩, hent, -, hcrit⟩ |
    ⟨hst, hr, rfl⟩ | ⟨hst, rfl⟩ | ⟨k', hst, hr, hk', rfl⟩ | ⟨hst, rfl⟩
  · obtain ⟨hf, hk⟩ := frees_cons.1 (hst ▸ hfree)
    obtain ⟨hl, hns | ⟨g, rfl, hg, hi⟩⟩ := hns hf.1 hf.2
    · exact h.keep hp hsv (.free (hl.trans hlock) (hst' ▸ frees_of_entering _ hent hns hk))
    · exact h.keep hp hsv (.wanted (hl.trans hlock) hst' hg hk hi)
  · exact h.keep rfl rfl (.free hlock (frees_of_entering [f] (by simpa using hent) (by simpa using hcrit) hfree))
  · exact h.keep rfl rfl (.free hlock (frees_cons.2 ⟨⟨rfl, by simp⟩, hfree⟩))
  · exact h.keep rfl rfl (.entering rfl rfl (frees_cons.1 (hst ▸ hfree)).2)
  · have hk := (frees_cons.1 (hst ▸ hfree)).2
    have hk' : Frees k' := by
      intro g hg
      rcases hk' g hg with ⟨hent, hcrit⟩ | hg
      · exact ⟨hcrit, by rintro rfl; simp [entering] at hent⟩
      · exact hk g hg
    refine ⟨h.parent, fun u => ?_, .free hlock h.parent⟩
    exact forall_update_iff s.saved (p := fun _ c => Frees c.stack) |>.2 ⟨hk', fun u _ => h.saved u⟩ u
  · obtain ⟨-, hk⟩ := frees_cons.1 (hst ▸ hfree)
    exact ⟨frees_cons.2 ⟨⟨rfl, by simp⟩, hk⟩, h.saved, .free hlock (h.saved _)⟩

end LockInv

lemma step_eq_run [DecidableEq T] (hst : s.stack = f :: k)
    (hf : f.critical = true ∨ f = .enterCli ∨ f.inHandler = true) (hs : s.step a = some s') :
    s.run = some s' ∨ (s.iflag = true ∧ s' = { s with iflag := false, stack := .handler :: s.stack }) := by
  cases a with
  | run => exact .inl hs
  | irq =>
    simp only [step] at hs
    split_ifs at hs with hi
    exact .inr ⟨hi, (some.inj hs).symm⟩
  | _ => cases f <;> simp [step, CoreState.Calls, hst, critical, inHandler] at hs hf

namespace LockInv

variable [DecidableEq T]

lemma step_interrupted (h : LockInv s) (hrun : s.running = none) (hlock : s.lock = true)
    (hst : s.stack = ps ++ .handler :: .enterCli :: k) (hps : ∀ f ∈ ps, f.inHandler = true)
    (hk : Frees k) (hi : s.iflag = false) (hs : s.step a = some s') : LockInv s' := by
  rcases ps with _ | ⟨f, ps⟩
  · cases a with
    | run => exact h.run_interrupted hrun hlock hst hps hk hi hs
    | schedule t =>
      simp only [step] at hs
      split_ifs at hs
      cases hs
      exact h.keep rfl rfl (.interrupted [.schedule t] hlock (by simp [hst]) (by simp [inHandler]) hk hi)
    | exit =>
      simp only [step] at hs
      split_ifs at hs
      cases hs
      exact h.keep rfl rfl (.interrupted [.exitCli] hlock (by simp [hst]) (by simp [inHandler]) hk hi)
    | iret =>
      simp only [step, hst] at hs
      cases hs
      exact h.keep rfl rfl (.entering hlock rfl hk)
    | _ => simp [step, hst, hrun, hi] at hs
  · rcases step_eq_run hst (.inr (.inr (hps f (by simp)))) hs with hs | ⟨hi', -⟩
    · exact h.run_interrupted hrun hlock hst hps hk hi hs
    · simp [hi] at hi'

lemma step (h : LockInv s) (he : EnterInv s) (hs : s.step a = some s') : LockInv s' := by
  rcases h.active with ⟨hlock, hk⟩ | @⟨f, k, hlock, hst, hf, hk, hi⟩ |
    ⟨hlock, hst, hf, hf', hk, hi⟩ | ⟨hlock, hst, hk⟩ | ⟨ps, hlock, hst, hps, hk, hi⟩
  · exact h.step_free hlock hk hs
  · have hcrit : f.critical = true := by
      cases f <;> simp [wants] at hf <;> rfl
    rcases step_eq_run hst (.inl hcrit) hs with hs | ⟨hi', -⟩
    · exact h.run_wanted hlock hst hf hk hi hs
    · simp [hi] at hi'
  · rcases step_eq_run hst (.inl hf) hs with hs | ⟨hi', -⟩
    · exact h.run_masked hlock hst hf hf' hk hi hs
    · simp [hi] at hi'
  · rcases step_eq_run hst (.inr (.inl rfl)) hs with hs | ⟨-, rfl⟩
    · simp only [CoreState.run, hst] at hs
      cases hs
      exact h.keep rfl rfl (.masked hlock rfl rfl rfl hk rfl)
    · exact h.keep rfl rfl (.interrupted [] hlock (by simp [hst]) (by simp) hk rfl)
  · exact h.step_interrupted (he.running_eq_none (f := .enterCli) (by simp [hst]) rfl) hlock hst hps hk hi hs

omit [DecidableEq T] in
lemma lockMasked_of_notMem (hmem : .enterCli ∉ s.stack) (h : s.LockMasked) : s.LockMasked ↔ ¬ s.EnterOpen := by
  refine iff_of_true h ?_
  rintro (⟨hhead, -⟩ | ⟨hin, -⟩)
  · exact hmem (mem_of_mem_head? hhead)
  · exact hmem hin

omit [DecidableEq T] in
lemma handlerWants_cons (hst : s.stack = f :: k) (h : s.HandlerWants) : f.wants = true := by
  have hwants := h.1
  rwa [hst] at hwants

omit [DecidableEq T] in
lemma lockMasked_iff (h : LockInv s) : s.LockMasked ↔ ¬ s.EnterOpen := by
  rcases h.active with ⟨hlock, hk⟩ | @⟨f, k, hlock, hst, hf, hk, hi⟩ |
    @⟨f, k, hlock, hst, hf, hf', hk, hi⟩ | ⟨hlock, hst, hk⟩ | ⟨ps, hlock, hst, hps, hk, hi⟩
  · exact lockMasked_of_notMem (fun hmem => (hk _ hmem).2 rfl) ⟨by simp [hlock], fun _ => hlock⟩
  · refine lockMasked_of_notMem (fun hmem => ?_) ⟨by simp [hlock], fun _ => hlock⟩
    rcases mem_cons.1 (hst ▸ hmem) with rfl | hmem
    · simp [wants] at hf
    · exact (hk _ hmem).2 rfl
  · refine lockMasked_of_notMem (fun hmem => ?_) ⟨fun _ => hi, fun hw => ?_⟩
    · rcases mem_cons.1 (hst ▸ hmem) with rfl | hmem
      · simp [critical] at hf
      · exact (hk _ hmem).2 rfl
    · have := handlerWants_cons hst hw
      simp [hf'] at this
  · -- `enter` has taken the lock: only the flag counts, since no handler is next
    have hwants : ¬ s.HandlerWants := fun hw => by simpa [wants] using handlerWants_cons hst hw
    simp [CoreState.LockMasked, CoreState.EnterOpen, hlock, hwants, hst]
  · have hmem : .enterCli ∈ s.stack := by simp [hst]
    simp [CoreState.LockMasked, CoreState.EnterOpen, hlock, hi, hmem]

end LockInv

/-- The lock of the scheduler is taken with interrupts disabled, in every state of every run except
where `Scheduler::enter` has taken it and not come to its `CLI` yet. -/
theorem schedulerLock_masked [DecidableEq T] (hs : Reaches step Any init s) : s.LockMasked ↔ ¬ s.EnterOpen := by
  have h : EnterInv s ∧ LockInv s := by
    refine hs.invariant (I := fun s => EnterInv s ∧ LockInv s) ⟨.init, .init⟩ ?_
    intro s a s' h _ hstep
    exact ⟨h.1.step hstep, h.2.step h.1 hstep⟩
  exact h.2.lockMasked_iff

theorem schedulerLock_masked_switches : ∃ s : CoreState (Fin 2),
    (s.HandlerWants ∧ s.threads = [0] ∧ ¬ s.EnterOpen) ∧ (s.LockMasked ↔ ¬ s.EnterOpen) := by
  obtain ⟨s, hs, hstate⟩ : ∃ s : CoreState (Fin 2), Reaches step Any init s ∧
      s.HandlerWants ∧ s.threads = [0] ∧ ¬ s.EnterOpen :=
    exists_of_run [.schedule 0, .run, .run, .run, .run, .run, .run, .setIflag true, .enter, .run, .run,
      .run, .run, .run, .threadEnter [], .run, .run, .irq, .preempt, .run, .entered [0], .run, .run,
      .run, .run, .run, .run, .irq, .schedule 1, .run, .run] (by decide)
  exact ⟨s, hstate, schedulerLock_masked hs⟩

/-- `Scheduler::enter` is interrupted between its lock and its `CLI`, and the handler spins on the lock
forever. -/
theorem schedulerLock_taken_unmasked : (∃ s : CoreState (Fin 1), Reaches step Any init s ∧
      s.lock = true ∧ s.iflag = true) ∧
    ∃ s : CoreState (Fin 1), Reaches step Any init s ∧
      s.HandlerWants ∧ s.lock = true ∧ s.iflag = false ∧ s.run = none := by
  constructor
  · exact exists_of_run [.setIflag true, .enter, .run] (by decide)
  obtain ⟨s, hs, hst, hlock, hi⟩ : ∃ s : CoreState (Fin 1), Reaches step Any init s ∧
      s.stack = [.spin 0 false, .handler, .enterCli, .code] ∧ s.lock = true ∧ s.iflag = false :=
    exists_of_run [.setIflag true, .enter, .run, .irq, .schedule 0, .run, .run] (by decide)
  refine ⟨s, hs, ?_, hlock, hi, ?_⟩
  · simp [CoreState.HandlerWants, hst, wants]
  · simp [CoreState.run, hst, hlock]

end OlliOS
