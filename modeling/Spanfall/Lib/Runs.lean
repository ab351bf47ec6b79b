/-
`Runs.lean` -- runs of a partial deterministic step function.

A system is a function `step : σ → ε → Option σ`: `none` is a step that
crashes. A run feeds a list of events to it. Everything nondeterministic in a
modelled program (an arrival order, a clock, the order a hash table happens to
be walked in) is data of the event, so "every run" is "every list of events".

The rules a safety proof needs are here once: a run can be cut at any point
([`exec_append`]), an invariant of single steps is an invariant of runs
([`exec_invariant`]), and a *ghost* -- a value computed along the run that the
program itself does not keep, such as the history of an entry -- moves by one
step when the run does ([`ghost_snoc`]). [`Can`] is reachability by some events
only: it composes ([`Can.trans`]), and an invariant refutes it
([`not_can_of_invariant`]). A measure that every allowed event lowers bounds the
length of the runs ([`length_le_of_measure`]).
-/
import Mathlib.Data.List.Basic
import Mathlib.Data.List.Induction

set_option autoImplicit false

namespace Lib.Runs

variable {σ ε γ : Type*}

/-- Feeds the events to `step` from the left; a crash ends the run. -/
def exec (step : σ → ε → Option σ) : List ε → σ → Option σ
  | [], s => some s
  | e :: es, s => (step s e).bind (exec step es)

/-- Folds `after` along the run. `after g s e s'` sees the state on both sides
of the event. -/
def ghost (step : σ → ε → Option σ) (after : γ → σ → ε → σ → γ) : List ε → σ → γ → γ
  | [], _, g => g
  | e :: es, s, g =>
    match step s e with
    | some s' => ghost step after es s' (after g s e s')
    | none => g

variable {step : σ → ε → Option σ}

@[simp] theorem exec_nil (s : σ) : exec step [] s = some s := rfl

@[simp] theorem exec_cons (e : ε) (es : List ε) (s : σ) :
    exec step (e :: es) s = (step s e).bind (exec step es) := rfl

theorem exec_append (es fs : List ε) (s : σ) :
    exec step (es ++ fs) s = (exec step es s).bind (exec step fs) := by
  induction es generalizing s with
  | nil => rfl
  | cons e es ih =>
    simp only [List.cons_append, exec_cons]
    cases step s e with
    | none => rfl
    | some s' => exact ih s'

theorem exec_snoc (es : List ε) (e : ε) (s : σ) :
    exec step (es ++ [e]) s = (exec step es s).bind (step · e) := by
  rw [exec_append]
  cases exec step es s with
  | none => rfl
  | some s' => simp [exec]

/-- One run behind the other. -/
theorem exec_trans {es fs : List ε} {s s₁ s₂ : σ} (h₁ : exec step es s = some s₁)
    (h₂ : exec step fs s₁ = some s₂) : exec step (es ++ fs) s = some s₂ := by
  rw [exec_append, h₁]
  exact h₂

/-- One step behind a run. -/
theorem exec_tail {es : List ε} {e : ε} {s s₁ s₂ : σ} (h : exec step es s = some s₁)
    (he : step s₁ e = some s₂) : exec step (es ++ [e]) s = some s₂ := by
  rw [exec_snoc, h]
  exact he

/-- A run that ends ends at every cut. -/
theorem exec_append_some {es fs : List ε} {s s₂ : σ} (h : exec step (es ++ fs) s = some s₂) :
    ∃ s₁, exec step es s = some s₁ ∧ exec step fs s₁ = some s₂ := by
  rw [exec_append] at h
  exact Option.bind_eq_some_iff.mp h

/-- The last step of a run. -/
theorem exec_snoc_some {es : List ε} {e : ε} {s s₂ : σ} (h : exec step (es ++ [e]) s = some s₂) :
    ∃ s₁, exec step es s = some s₁ ∧ step s₁ e = some s₂ := by
  rw [exec_snoc] at h
  exact Option.bind_eq_some_iff.mp h

/-- **Induction over runs, from the right.** `P` may speak about the events so
far as well as about the state they led to. -/
theorem exec_induction {P : List ε → σ → Prop} {s₀ : σ} (h₀ : P [] s₀)
    (hstep : ∀ es s e s', exec step es s₀ = some s → P es s → step s e = some s' →
      P (es ++ [e]) s') :
    ∀ {es : List ε} {s : σ}, exec step es s₀ = some s → P es s := by
  intro es
  induction es using List.reverseRecOn with
  | nil =>
    intro s h
    rw [exec_nil, Option.some.injEq] at h
    exact h ▸ h₀
  | append_singleton es e ih =>
    intro s h
    obtain ⟨s₁, h₁, hs⟩ := exec_snoc_some h
    exact hstep es s₁ e s h₁ (ih h₁) hs

/-- **The invariant rule.** What every step keeps, every run keeps. -/
theorem exec_invariant {I : σ → Prop} (hstep : ∀ s e s', I s → step s e = some s' → I s')
    {es : List ε} {s s' : σ} (h₀ : I s) (h : exec step es s = some s') : I s' :=
  exec_induction (P := fun _ s => I s) h₀ (fun _ s e s' _ hi hs => hstep s e s' hi hs) h

variable {after : γ → σ → ε → σ → γ}

@[simp] theorem ghost_nil (s : σ) (g : γ) : ghost step after [] s g = g := rfl

theorem ghost_append {es fs : List ε} {s s₁ : σ} (h : exec step es s = some s₁) (g : γ) :
    ghost step after (es ++ fs) s g = ghost step after fs s₁ (ghost step after es s g) := by
  induction es generalizing s g with
  | nil =>
    rw [exec_nil, Option.some.injEq] at h
    rw [h]
    rfl
  | cons e es ih =>
    rw [exec_cons, Option.bind_eq_some_iff] at h
    obtain ⟨s', hs, h'⟩ := h
    simp only [List.cons_append, ghost, hs]
    exact ih h' _

/-- One more event moves the ghost by one `after`. -/
theorem ghost_snoc {es : List ε} {e : ε} {s s₁ s₂ : σ} (h : exec step es s = some s₁)
    (hs : step s₁ e = some s₂) (g : γ) :
    ghost step after (es ++ [e]) s g = after (ghost step after es s g) s₁ e s₂ := by
  rw [ghost_append h]
  simp [ghost, hs]

/-- A list that every step only extends is extended by a run. -/
theorem prefix_ghost {β : Type*} {after : List β → σ → ε → σ → List β}
    (h : ∀ g s e s', g <+: after g s e s') (es : List ε) (s : σ) (g : List β) :
    g <+: ghost step after es s g := by
  induction es generalizing s g with
  | nil => exact List.prefix_refl g
  | cons e es ih =>
    rw [ghost]
    cases step s e with
    | none => exact List.prefix_refl g
    | some s' => exact (h g s e s').trans (ih s' _)

/-! ## What can still be reached -/

/-- `P` is reached from `s` by some run of allowed events. -/
def Can (step : σ → ε → Option σ) (allowed : ε → Prop) (P : σ → Prop) (s : σ) : Prop :=
  ∃ es s', (∀ e ∈ es, allowed e) ∧ exec step es s = some s' ∧ P s'

section Can

variable {allowed : ε → Prop} {P Q : σ → Prop} {s s' : σ}

theorem Can.here (h : P s) : Can step allowed P s :=
  ⟨[], s, fun _ he => absurd he List.not_mem_nil, rfl, h⟩

theorem Can.cons {e : ε} (he : allowed e) (hs : step s e = some s') (h : Can step allowed P s') :
    Can step allowed P s := by
  obtain ⟨es, s₂, hes, hrun, hp⟩ := h
  refine ⟨e :: es, s₂, fun e' he' => ?_, ?_, hp⟩
  · rcases List.mem_cons.mp he' with rfl | he'
    · exact he
    · exact hes e' he'
  · rw [exec_cons, hs]
    exact hrun

theorem Can.trans (h : Can step allowed P s) (hPQ : ∀ s, P s → Can step allowed Q s) :
    Can step allowed Q s := by
  obtain ⟨es, s₁, hes, hrun, hp⟩ := h
  obtain ⟨fs, s₂, hfs, hrun', hq⟩ := hPQ s₁ hp
  refine ⟨es ++ fs, s₂, fun e he => ?_, exec_trans hrun hrun', hq⟩
  rcases List.mem_append.mp he with he | he
  · exact hes e he
  · exact hfs e he

/-- **The invariant rule**, for runs of allowed events. -/
theorem invariant_of_allowed {I : σ → Prop}
    (hstep : ∀ s e s', I s → allowed e → step s e = some s' → I s') {es : List ε}
    (hes : ∀ e ∈ es, allowed e) (hs : I s) (hrun : exec step es s = some s') : I s' := by
  induction es generalizing s with
  | nil => exact Option.some.inj hrun ▸ hs
  | cons e es ih =>
    rw [exec_cons, Option.bind_eq_some_iff] at hrun
    obtain ⟨s₁, h₁, hrun⟩ := hrun
    exact ih (fun e' he' => hes e' (List.mem_cons_of_mem _ he'))
      (hstep s e s₁ hs (hes e List.mem_cons_self) h₁) hrun

/-- **Termination by a measure.** A run of allowed events is no longer than what
there was to do. -/
theorem length_le_of_measure {I : σ → Prop} (μ : σ → ℕ)
    (hstep : ∀ s e s', I s → allowed e → step s e = some s' → I s' ∧ μ s' < μ s)
    {es : List ε} (hes : ∀ e ∈ es, allowed e) (hs : I s) (hrun : exec step es s = some s') :
    es.length + μ s' ≤ μ s := by
  induction es generalizing s with
  | nil =>
    rw [Option.some.inj hrun]
    exact Nat.le_of_eq (Nat.zero_add _)
  | cons e es ih =>
    rw [exec_cons, Option.bind_eq_some_iff] at hrun
    obtain ⟨s₁, h₁, hrun⟩ := hrun
    obtain ⟨hi, hlt⟩ := hstep s e s₁ hs (hes e List.mem_cons_self) h₁
    have hrest := ih (fun e' he' => hes e' (List.mem_cons_of_mem _ he')) hi hrun
    rw [List.length_cons]
    omega

/-- What an invariant of the allowed steps excludes is never reached. -/
theorem not_can_of_invariant {I : σ → Prop}
    (hstep : ∀ s e s', I s → allowed e → step s e = some s' → I s') (hP : ∀ s, I s → ¬P s)
    (hs : I s) : ¬Can step allowed P s := by
  rintro ⟨es, s₁, hes, hrun, hp⟩
  exact hP s₁ (invariant_of_allowed hstep hes hs hrun) hp

end Can

end Lib.Runs
