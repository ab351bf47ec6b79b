/-
`Requests.lean` -- a client that asks one thing after another of a server that
does not wait for it.

The client is a program ([`Prog`]): it has ended, or it asks and goes on with
the answer. A [`Session`] runs it beside a server, whose own steps fall between
the requests in any order. Two rules are all that is needed of it. What every
answer keeps holds of the program in every run ([`session_invariant`]), and as
long as the server has an answer to everything the program comes to its end
([`can_finish`]): the induction is on the program, so there is no measure to
find.
-/
import Spanfall.Lib.Runs

set_option autoImplicit false

namespace Lib.Requests

open Lib.Runs

/-- A program that asks `Q`s, is answered `R`s, and ends in an `α`. -/
inductive Prog (Q R α : Type) where
  | ret (a : α)
  | ask (q : Q) (k : R → Prog Q R α)

variable {Q R α β : Type}

namespace Prog

/-- One program behind the other. -/
def bind : Prog Q R α → (α → Prog Q R β) → Prog Q R β
  | ret a, f => f a
  | ask q k, f => ask q fun r => (k r).bind f

instance : Monad (Prog Q R) where
  pure := ret
  bind := bind

theorem bind_ret (p : Prog Q R α) : p.bind ret = p := by
  induction p with
  | ret a => rfl
  | ask q k ih => exact congrArg (ask q) (funext ih)

theorem bind_assoc {γ : Type} (p : Prog Q R α) (f : α → Prog Q R β) (g : β → Prog Q R γ) :
    (p.bind f).bind g = p.bind fun a => (f a).bind g := by
  induction p with
  | ret a => rfl
  | ask q k ih => exact congrArg (ask q) (funext ih)

instance : LawfulMonad (Prog Q R) :=
  LawfulMonad.mk' _ bind_ret (fun _ _ => rfl) fun p f g => bind_assoc p f g

end Prog

section Attempt

variable {E γ : Type}

/-- Asks, and gives up where the answer cannot be read. -/
def attempt (q : Q) (read : R → Except E β) : ExceptT E (Prog Q R) β :=
  ExceptT.mk (.ask q fun r => .ret (read r))

/-- Goes on with what was read, if it was. -/
def resume (f : β → ExceptT E (Prog Q R) γ) : Except E β → Prog Q R (Except E γ)
  | .error e => .ret (.error e)
  | .ok b => (f b).run

/-- What comes behind an attempt goes on with what was read. -/
theorem run_attempt_bind (q : Q) (read : R → Except E β) (f : β → ExceptT E (Prog Q R) γ) :
    (attempt q read >>= f).run = .ask q fun r => resume f (read r) := by
  refine congrArg (Prog.ask q) (funext fun r => ?_)
  change Prog.bind (.ret (read r)) _ = _
  cases read r with
  | error e => rfl
  | ok b => rfl

end Attempt

/-- A program on its way, and the server. -/
structure Session (σ Q R α : Type) where
  server : σ
  program : Prog Q R α
  /-- What has been asked, and the state that answered. -/
  asked : List (Q × σ)

/-- The server moves by itself, or answers. -/
inductive SessionEvent (ε ν : Type) where
  | server (e : ε)
  | answer (n : ν)

variable {σ ε ν : Type}

/-- Before the first request. -/
def Session.start (server : σ) (program : Prog Q R α) : Session σ Q R α :=
  { server, program, asked := [] }

/-- One step. Whatever an answer depends on besides the state is the `ν`. -/
def Session.step (step : σ → ε → Option σ) (answer : σ → ν → Q → Option R) (s : Session σ Q R α) :
    SessionEvent ε ν → Option (Session σ Q R α)
  | .server e => (step s.server e).map fun server => { s with server }
  | .answer n =>
    match s.program with
    | .ask q k => (answer s.server n q).map fun r =>
      { s with program := k r, asked := s.asked ++ [(q, s.server)] }
    | .ret _ => none

/-- The program has come to its end. -/
def Session.finished (s : Session σ Q R α) : Prop := ∃ a, s.program = .ret a

instance (s : Session σ Q R α) : Decidable s.finished :=
  match h : s.program with
  | .ret a => isTrue ⟨a, h⟩
  | .ask q k => isFalse fun ⟨_, ha⟩ => by
    rw [h] at ha
    cases ha

section Rules

variable {step : σ → ε → Option σ} {answer : σ → ν → Q → Option R} {s s' : Session σ Q R α}

/-- What one step is. -/
theorem session_step_cases {e : SessionEvent ε ν} (h : s.step step answer e = some s') :
    (∃ e' server, e = .server e' ∧ step s.server e' = some server ∧ s' = { s with server })
      ∨ ∃ n q k r, e = .answer n ∧ s.program = .ask q k ∧ answer s.server n q = some r
          ∧ s' = { s with program := k r, asked := s.asked ++ [(q, s.server)] } := by
  cases e with
  | server e =>
    obtain ⟨server, hserver, rfl⟩ := Option.map_eq_some_iff.mp h
    exact Or.inl ⟨e, server, rfl, hserver, rfl⟩
  | answer n =>
    right
    rw [Session.step] at h
    cases hprogram : s.program with
    | ret a =>
      rw [hprogram] at h
      cases h
    | ask q k =>
      rw [hprogram] at h
      obtain ⟨r, hr, rfl⟩ := Option.map_eq_some_iff.mp h
      exact ⟨n, q, k, r, rfl, rfl, hr, rfl⟩

/-- Beside a session the server runs as it would alone. -/
theorem server_of_session {es : List (SessionEvent ε ν)}
    (h : exec (Session.step step answer) es s = some s') :
    ∃ es', exec step es' s.server = some s'.server := by
  refine exec_induction (P := fun _ s' => ∃ es', exec step es' s.server = some s'.server)
    ⟨[], rfl⟩ ?_ h
  rintro _ s₁ e s₂ _ ⟨es', hes'⟩ hs
  obtain ⟨e', server, _, hserver, rfl⟩ | ⟨_, _, _, _, _, _, _, rfl⟩ := session_step_cases hs
  · exact ⟨es' ++ [e'], exec_tail hes' hserver⟩
  · exact ⟨es', hes'⟩

/-- **The invariant rule**, for what a program is up to and what it has
asked. -/
theorem session_invariant {P : Prog Q R α → List (Q × σ) → Prop} {server : σ}
    {program : Prog Q R α} (h₀ : P program [])
    (hanswer : ∀ q k asked server n r, P (.ask q k) asked → answer server n q = some r →
      P (k r) (asked ++ [(q, server)]))
    {es : List (SessionEvent ε ν)}
    (h : exec (Session.step step answer) es (Session.start server program) = some s) :
    P s.program s.asked := by
  refine exec_invariant (I := fun s => P s.program s.asked) (fun s₁ e s₂ hp hs => ?_) h₀ h
  obtain ⟨_, _, _, _, rfl⟩ | ⟨n, q, k, r, _, hprogram, hr, rfl⟩ := session_step_cases hs
  · exact hp
  · rw [hprogram] at hp
    exact hanswer q k _ _ n r hp hr

/-- **A program that is answered ends.** -/
theorem can_finish (h : ∀ q, ∃ n r, answer s.server n q = some r) :
    Can (Session.step step answer) (fun e => ∃ n, e = .answer n) Session.finished s := by
  obtain ⟨server, program, asked⟩ := s
  induction program generalizing asked with
  | ret a => exact Can.here ⟨a, rfl⟩
  | ask q k ih =>
    obtain ⟨n, r, hr⟩ := h q
    refine Can.cons ⟨n, rfl⟩ ?_ (ih r (asked ++ [(q, server)]) h)
    rw [Session.step]
    dsimp only
    rw [hr]
    rfl

end Rules

end Lib.Requests
