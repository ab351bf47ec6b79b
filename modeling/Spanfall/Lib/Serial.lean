/-
`Serial.lean` -- reads that fall between the writes of one writer.

A writer applies one entry after the other, and every read is answered in
between. What a reader can have seen is then said without the system: there is
the log of the entries, every read has a position in it and saw the state after
that many entries, and a later read stands no earlier ([`Serialized`]). Two reads
are therefore connected by the entries between them ([`Serialized.between`]).
-/
import Spanfall.Lib.Runs

set_option autoImplicit false

namespace Lib.Serial

open Lib.Runs

variable {σ β : Type*}

/-- A read: how many entries had been applied by then, and what it saw. -/
structure Read (σ : Type*) where
  position : ℕ
  state : σ

/-- The reads, in the order in which they were answered, are reads between the
entries of `log`. -/
structure Serialized (apply : σ → β → Option σ) (s₀ : σ) (log : List β) (reads : List (Read σ)) :
    Prop where
  ordered : reads.Pairwise fun r r' => r.position ≤ r'.position
  bounded : ∀ r ∈ reads, r.position ≤ log.length
  shows : ∀ r ∈ reads, exec apply (log.take r.position) s₀ = some r.state

variable {apply : σ → β → Option σ} {s₀ s : σ} {log : List β} {reads : List (Read σ)}

theorem Serialized.start (s₀ : σ) : Serialized apply s₀ [] [] where
  ordered := List.Pairwise.nil
  bounded _ h := absurd h List.not_mem_nil
  shows _ h := absurd h List.not_mem_nil

/-- One entry more changes nothing about the reads so far. -/
theorem Serialized.write (h : Serialized apply s₀ log reads) (b : β) :
    Serialized apply s₀ (log ++ [b]) reads where
  ordered := h.ordered
  bounded r hr := by
    rw [List.length_append]
    exact Nat.le_add_right_of_le (h.bounded r hr)
  shows r hr := by
    rw [List.take_append_of_le_length (h.bounded r hr)]
    exact h.shows r hr

/-- One read more, of the state behind the whole log. -/
theorem Serialized.read (h : Serialized apply s₀ log reads) (hs : exec apply log s₀ = some s) :
    Serialized apply s₀ log (reads ++ [⟨log.length, s⟩]) where
  ordered := by
    rw [List.pairwise_append]
    refine ⟨h.ordered, List.pairwise_singleton _ _, fun r hr r' hr' => ?_⟩
    rw [List.mem_singleton.mp hr']
    exact h.bounded r hr
  bounded r hr := by
    rcases List.mem_append.mp hr with hr | hr
    · exact h.bounded r hr
    · exact Nat.le_of_eq (congrArg Read.position (List.mem_singleton.mp hr))
  shows r hr := by
    rcases List.mem_append.mp hr with hr | hr
    · exact h.shows r hr
    · rw [List.mem_singleton.mp hr, List.take_length]
      exact hs

/-- **A later read continues an earlier one**: it is behind the entries that
were applied in between. -/
theorem Serialized.between (h : Serialized apply s₀ log reads) {r r' : Read σ} (hr : r ∈ reads)
    (hr' : r' ∈ reads) (hle : r.position ≤ r'.position) :
    log.take r'.position = log.take r.position ++ (log.take r'.position).drop r.position
      ∧ exec apply ((log.take r'.position).drop r.position) r.state = some r'.state := by
  have hcut : log.take r'.position
      = log.take r.position ++ (log.take r'.position).drop r.position := by
    conv_lhs => rw [← List.take_append_drop r.position (log.take r'.position)]
    rw [List.take_take, Nat.min_eq_left hle]
  refine ⟨hcut, ?_⟩
  have hall := h.shows r' hr'
  rw [hcut, exec_append, h.shows r hr] at hall
  exact hall

end Lib.Serial
