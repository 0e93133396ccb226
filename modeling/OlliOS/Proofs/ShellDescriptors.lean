import OlliOS.Apps.Shell

/-!
# The shell leaks no descriptors

Between two tokens the shell has open what it had open before the line, and the read end of the last pipe.
-/

namespace OlliOS.Shell

open List State

variable {env : Env} {initial : List ℕ} {s s' : State} {pipe : Int} {n : ℕ} {fd : ℕ} {result : Int}
  {blocking : Bool} {pipein : Int}

namespace State

lemma mem_opened_close {x : Int} : fd ∈ (s.close x).opened ↔ fd ∈ s.opened ∧ fd ≠ x.toNat := by simp [close]

lemma mem_opened_closeIn : fd ∈ (s.closeIn pipe).opened ↔ fd ∈ s.opened ∧ ¬ (0 < pipe ∧ fd = pipe.toNat) := by
  unfold closeIn
  split_ifs with hpos
  · rw [mem_opened_close, and_iff_right hpos]
  · exact (and_iff_left fun h => hpos h.1).symm

lemma mem_opened_pipe : fd ∈ (s.pipe env).2.start.opened ↔
    fd = (env.pipe s.opened).1 ∨ fd = (env.pipe s.opened).2 ∨ fd ∈ s.opened := by
  simp [start, pipe]

lemma mem_openWriteEnds_closeIn (h : fd ∈ openWriteEnds (s.closeIn pipe).events) : fd ∈ openWriteEnds s.events := by
  unfold closeIn at h
  split_ifs at h
  · exact (mem_filter.1 h).1
  · exact h

lemma closeIn_closed (h : openWriteEnds s.events = []) : openWriteEnds (s.closeIn pipe).events = [] :=
  eq_nil_iff_forall_not_mem.2 fun fd hfd => by simpa [h] using mem_openWriteEnds_closeIn hfd

lemma closeIn_apart (h : StagesApart s.events) : StagesApart (s.closeIn pipe).events := by
  unfold closeIn
  split_ifs
  · exact h
  · exact h

end State

lemma StagesApart.start {events : List Event} {arguments : List CStr} (h : StagesApart events)
    (hclosed : openWriteEnds events = []) : StagesApart (.start arguments :: events) := by
  rcases events with _ | ⟨_ | _ | _, events⟩
  · exact ⟨rfl, trivial⟩
  · exact absurd hclosed (by simp [openWriteEnds])
  · exact ⟨hclosed, h⟩
  · exact ⟨hclosed, h⟩

/-- The shell between two tokens, with a pipe whose read end is `pipe` if that is not 0. -/
structure Tidy (initial : List ℕ) (pipe : Int) (s : State) : Prop where
  nonneg : 0 ≤ pipe
  new : 0 < pipe → pipe.toNat ∉ initial
  opened : ∀ fd, fd ∈ s.opened ↔ fd ∈ initial ∨ 0 < pipe ∧ fd = pipe.toNat
  closed : openWriteEnds s.events = []
  apart : StagesApart s.events

lemma runCommand_single (hr : runCommand env pipein blocking false s = .ok (result, s')) :
    s' = s.start.closeIn pipein := by
  simp only [runCommand, Bool.false_eq_true, if_false] at hr
  split at hr
  · cases hr
  · split_ifs at hr <;> cases hr <;> rfl

lemma runCommand_piped (hr : runCommand env pipein blocking true s = .ok (result, s')) :
    result = (env.pipe s.opened).1 ∧ (s' = ((s.pipe env).2.start.close (env.pipe s.opened).2).closeIn pipein ∨
        s' = ((s.pipe env).2.start.closeIn pipein).close (env.pipe s.opened).2) := by
  simp only [runCommand] at hr
  split at hr
  · cases hr
  · split_ifs at hr
    · cases hr
      exact ⟨rfl, .inl rfl⟩
    · cases hr
      exact ⟨rfl, .inr rfl⟩

namespace Tidy

lemma single (h : Tidy initial pipe s) : Tidy initial 0 (s.start.closeIn pipe) where
  nonneg := Int.le_refl 0
  new h0 := absurd h0 (Int.lt_irrefl 0)
  opened fd := by
    have hmem : fd ∈ s.start.opened ↔ fd ∈ initial ∨ 0 < pipe ∧ fd = pipe.toNat := h.opened fd
    rw [mem_opened_closeIn, hmem]
    constructor
    · rintro ⟨hfd | hfd, hne⟩
      · exact .inl hfd
      · exact absurd hfd hne
    · rintro (hfd | ⟨h0, -⟩)
      · refine ⟨.inl hfd, ?_⟩
        rintro ⟨hpos, rfl⟩
        exact h.new hpos hfd
      · exact absurd h0 (Int.lt_irrefl 0)
  closed := closeIn_closed h.closed
  apart := closeIn_apart (h.apart.start h.closed)

variable (henv : env.Fresh) {pipeOutput : Bool} {v v' : Locals}

include henv

section

variable (h0 : 0 ∈ initial)

include h0

lemma piped (h : Tidy initial pipe s)
    (hopened : ∀ fd, fd ∈ s'.opened ↔ (fd ∈ (s.pipe env).2.start.opened ∧
      fd ≠ (env.pipe s.opened).2) ∧ ¬ (0 < pipe ∧ fd = pipe.toNat))
    (hclosed : openWriteEnds s'.events = []) (hapart : StagesApart s'.events) :
    Tidy initial (env.pipe s.opened).1 s' := by
  obtain ⟨hread, hwrite, hne⟩ := henv s.opened
  have hsub : ∀ fd, fd ∈ initial → fd ∈ s.opened := fun fd hfd => (h.opened fd).2 (.inl hfd)
  have hpos : 0 < (env.pipe s.opened).1 := by
    refine Nat.pos_of_ne_zero fun hzero => ?_
    rw [hzero] at hread
    exact hread (hsub 0 h0)
  refine ⟨Int.natCast_nonneg _, fun _ hmem => hread (hsub _ hmem), fun fd => ?_, hclosed, hapart⟩
  rw [hopened, mem_opened_pipe, h.opened, Int.toNat_natCast]
  constructor
  · rintro ⟨⟨rfl | rfl | hfd | hfd, hw⟩, hp⟩
    · exact .inr ⟨Int.natCast_pos.2 hpos, rfl⟩
    · exact absurd rfl hw
    · exact .inl hfd
    · exact absurd hfd hp
  · rintro (hfd | ⟨-, rfl⟩)
    · refine ⟨⟨.inr (.inr (.inl hfd)), ?_⟩, ?_⟩
      · rintro rfl
        exact hwrite (hsub _ hfd)
      · rintro ⟨hpipe, rfl⟩
        exact h.new hpipe hfd
    · refine ⟨⟨.inl rfl, hne⟩, ?_⟩
      rintro ⟨hpipe, heq⟩
      exact hread ((h.opened _).2 (.inr ⟨hpipe, heq⟩))

lemma runCommand_spec
    (h : Tidy initial pipe s) (hr : runCommand env pipe blocking pipeOutput s = .ok (result, s')) :
    Tidy initial (if pipeOutput then result else 0) s' := by
  cases pipeOutput with
  | false =>
    rw [runCommand_single hr]
    exact h.single
  | true =>
    -- the write end is closed before the end that was given, or after it
    obtain ⟨rfl, rfl | rfl⟩ := runCommand_piped hr
    · refine h.piped henv h0 (fun fd => ?_) (closeIn_closed ?_) (closeIn_apart ?_)
      · rw [mem_opened_closeIn, mem_opened_close, Int.toNat_natCast]
      · simp [State.close, State.start, State.pipe, openWriteEnds, h.closed]
      · exact ⟨h.closed, h.apart⟩
    · refine h.piped henv h0 (fun fd => ?_) ?_ ?_
      · rw [mem_opened_close, mem_opened_closeIn, Int.toNat_natCast, and_right_comm]
      · refine filter_eq_nil_iff.2 fun fd hfd => ?_
        have hmem := mem_openWriteEnds_closeIn hfd
        simpa [State.start, State.pipe, openWriteEnds, h.closed] using hmem
      · exact closeIn_apart ⟨h.closed, h.apart⟩

lemma run_free (h : Tidy initial pipe s)
    (hr : runCommand env pipe blocking pipeOutput s = .ok (result, s')) :
    Tidy initial (if pipeOutput then result else 0) s'.freeArgumentBuffer :=
  { h.runCommand_spec henv h0 hr with }

lemma commandPass_spec {token : Token} (h : Tidy initial v.pipe s) :
    (commandPass env token v s = .ok (.inl (v', s')) → Tidy initial v'.pipe s') ∧
    (commandPass env token v s = .ok (.inr (v', s')) → v'.pipe = 0 ∧ Tidy initial 0 s') := by
  cases token with
  | string =>
    refine ⟨fun hr => ?_, fun hr => ?_⟩
    · obtain ⟨s1, hadd, heq⟩ := bind_eq_ok hr
      obtain ⟨value, -, hadd⟩ := bind_eq_ok hadd
      cases heq
      split_ifs at hadd
      cases hadd
      exact { h with }
    · obtain ⟨s1, -, heq⟩ := bind_eq_ok hr
      cases heq
  | eol =>
    simp only [commandPass]
    split_ifs with hargs hpipe
    · refine ⟨fun hr => ?_, fun hr => ?_⟩
      · obtain ⟨⟨status, s1⟩, -, heq⟩ := bind_eq_ok hr
        cases heq
      · obtain ⟨⟨status, s1⟩, hrun, heq⟩ := bind_eq_ok hr
        cases heq
        exact ⟨rfl, h.run_free henv h0 hrun⟩
    · refine ⟨fun hr => ?_, fun hr => (by cases hr)⟩
      cases hr
      exact h
    · refine ⟨fun hr => (by cases hr), fun hr => ?_⟩
      cases hr
      have hzero : v.pipe = 0 := Int.le_antisymm (Int.not_lt.1 hpipe) h.nonneg
      exact ⟨hzero, hzero ▸ h⟩
  | pipe | semicolon | subprocess | or =>
    refine ⟨fun hr => ?_, fun hr => ?_⟩
    · obtain ⟨⟨result, s1⟩, hrun, heq⟩ := bind_eq_ok hr
      cases heq
      exact h.run_free henv h0 hrun
    · obtain ⟨⟨result, s1⟩, hrun, heq⟩ := bind_eq_ok hr
      cases heq
  | and =>
    simp only [commandPass]
    split_ifs with hstatus
    · refine ⟨fun hr => ?_, fun hr => ?_⟩
      · obtain ⟨⟨result, s1⟩, hrun, heq⟩ := bind_eq_ok hr
        cases heq
        exact h.run_free henv h0 hrun
      · obtain ⟨⟨result, s1⟩, hrun, heq⟩ := bind_eq_ok hr
        cases heq
    · refine ⟨fun hr => ?_, fun hr => (by cases hr)⟩
      cases hr
      exact { h with }

lemma nextPass_spec (h : Tidy initial v.pipe s) :
    (nextPass env n (v, s) = .inl (v', s') → Tidy initial v'.pipe s') ∧
    (nextPass env n (v, s) = .inr (.ok (v', s')) → v'.pipe = 0 ∧ Tidy initial 0 s') := by
  simp only [nextPass]
  rcases htoken : s.tokenizer.getNextToken n with e | ⟨token, tokenizer⟩
  · exact ⟨fun hr => (by cases hr), fun hr => (by cases hr)⟩
  have hread : Tidy initial v.pipe (s.read token tokenizer) := { h with }
  simp only
  rcases hpass : commandPass env token v (s.read token tokenizer) with e | ⟨v1, s1⟩ | ⟨v1, s1⟩
  · exact ⟨fun hr => (by cases hr), fun hr => (by cases hr)⟩
  · refine ⟨fun hr => ?_, fun hr => (by cases hr)⟩
    cases hr
    exact (hread.commandPass_spec henv h0).1 hpass
  · refine ⟨fun hr => (by cases hr), fun hr => ?_⟩
    cases hr
    exact (hread.commandPass_spec henv h0).2 hpass

end

end Tidy

/-- When `do_next_command` returns, the shell has the descriptors open that it had open before, and it
has closed the write end of every pipe before the stage after the one the pipe was made for. -/
theorem no_descriptor_leaked {status : Int} (henv : env.Fresh) (h0 : 0 ∈ s.opened)
    (hstart : s.events = []) (hr : doNextCommand env n s = .ok (status, s')) :
    (∀ fd, fd ∈ s'.opened ↔ fd ∈ s.opened) ∧ openWriteEnds s'.events = [] ∧ StagesApart s'.events := by
  obtain ⟨⟨v, s1⟩, hloop, heq⟩ := bind_eq_ok hr
  have hbefore : Tidy s.opened 0 s := by
    refine ⟨Int.le_refl 0, fun h => absurd h (Int.lt_irrefl 0), fun fd => ?_, ?_, ?_⟩
    · simp
    · rw [hstart]
      rfl
    · rw [hstart]
      trivial
  have hafter : v.pipe = 0 ∧ Tidy s.opened 0 s1 := by
    refine loop_of_invariant (I := fun p : Locals × State => Tidy s.opened p.1.pipe p.2)
      (Q := fun p => p.1.pipe = 0 ∧ Tidy s.opened 0 p.2) (fun p t h hpass => ?_) (fun p t h hpass => ?_)
      hbefore hloop
    · exact (h.nextPass_spec henv h0).1 hpass
    · exact (h.nextPass_spec henv h0).2 hpass
  obtain ⟨hpipe, htidy⟩ := hafter
  cases heq
  rw [if_neg (fun h => h hpipe)]
  exact ⟨fun fd => by simpa using htidy.opened fd, htidy.closed, htidy.apart⟩

/-- Descriptors above all that are open, and commands that end with 0. -/
def plainEnv : Env := ⟨fun opened => (opened.foldr max 0 + 1, opened.foldr max 0 + 2), fun _ => 0⟩

lemma plainEnv_fresh : plainEnv.Fresh := by
  have hle : ∀ (l : List ℕ) (x : ℕ), x ∈ l → x ≤ l.foldr max 0 := by
    intro l
    induction l with
    | nil => simp
    | cons y l ih =>
      intro x hx
      rcases mem_cons.1 hx with rfl | hx
      · exact Nat.le_max_left _ _
      · exact Nat.le_trans (ih x hx) (Nat.le_max_right _ _)
  refine fun opened => ⟨fun h => ?_, fun h => ?_, fun h => ?_⟩
  · exact absurd (hle opened _ h) (by simp [plainEnv])
  · exact absurd (hle opened _ h) (by simp [plainEnv])
  · simp [plainEnv] at h

/-- A shell with a line `a|cd|b;c&d e`. -/
def pipeline : State where
  tokenizer := ⟨chars ['a', '|', 'c', 'd', '|', 'b', ';', 'c', '&', 'd', ' ', 'e', '\n'], 0, false, []⟩
  argumentBuffer := []
  opened := [0, 1, 2]
  seen := []
  events := []

theorem no_descriptor_leaked_pipeline : ∃ s', doNextCommand plainEnv 40 pipeline = .ok (0, s') ∧
    s'.ran.length = 5 ∧ (∀ fd, fd ∈ s'.opened ↔ fd ∈ pipeline.opened) ∧ StagesApart s'.events := by
  have hresult : (doNextCommand plainEnv 40 pipeline).toOption.map (fun p => (p.1, p.2.ran.length)) =
      some (0, 5) := by decide
  rcases hr : doNextCommand plainEnv 40 pipeline with e | ⟨status, s'⟩
  · rw [hr] at hresult
    cases hresult
  · rw [hr] at hresult
    obtain ⟨rfl, hran⟩ := Prod.mk.inj (Option.some.inj hresult)
    obtain ⟨hopened, -, hapart⟩ := no_descriptor_leaked plainEnv_fresh (by decide) rfl hr
    exact ⟨s', rfl, hran, hopened, hapart⟩

end OlliOS.Shell
