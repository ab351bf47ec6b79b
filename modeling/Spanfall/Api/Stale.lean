/-
`Stale.lean` -- requests by index against a payload read earlier.

A client reads a trace's payload and later names spans by their index in it.
Between the two requests the writer runs. The index still means the same span
as long as the trace is not evicted ([`stale_index_safe`]). An eviction and a
late span in between give the id a new trace with indices of its own, and the
answer says nothing about it: only the payload carries the generation.
-/
import Spanfall.Api.Attributes
import Spanfall.Api.Filter
import Spanfall.Store.Generation
import Spanfall.Store.Hex
import Spanfall.Store.Writer

set_option autoImplicit false

namespace Spanfall

open Lib.Runs

/-- The requests that name spans by index, or answer with indices. -/
inductive IndexRequest where
  | attributes (idx : ℕ)
  | filter (q : Option String)

/-- What they are answered with. -/
inductive IndexBody where
  | attributes (entries : List AttributeEntry)
  | filter (response : FilterResponse)
  deriving DecidableEq

namespace Response

variable {α : Type}

def is_error : Response α → Bool
  | bad_request _ => true
  | not_found => true
  | ok _ => false

end Response

/-- The indices an answer is about. -/
def IndexRequest.indices : IndexRequest → IndexBody → List ℕ
  | attributes idx, _ => [idx]
  | filter _, .filter response => response.indices
  | filter _, .attributes _ => []

namespace Store

/-- The handler of a request by index. -/
def answer (s : Store) (id : String) : IndexRequest → Option (Response IndexBody)
  | .attributes idx => (s.get_attributes id idx).map (Response.map .attributes)
  | .filter q => (s.get_filter id q).map (Response.map .filter)

/-- An answer that could not have come if the trace had stayed: no run that
shows the payload `p`, and does not evict the trace afterwards, gives it. -/
def Tells (id : String) (p : TracePayload) (req : IndexRequest) (body : IndexBody) : Prop :=
  ∀ m es fs s₁ s₂ trace_id, TraceId.from_hex id = some trace_id →
    exec step es (new m) = some s₁ → s₁.get_trace id = some (.ok p) →
    exec step fs s₁ = some s₂ →
    evictions (es ++ fs) (new m) trace_id = evictions es (new m) trace_id →
    s₂.answer id req ≠ some (.ok body)

/-- The span an index of a resident trace denotes. -/
def span_at (s : Store) (trace_id : TraceId) (idx : ℕ) : Option SpanId :=
  (s.trace trace_id).bind (·.span_id idx)

/-- The client that holds the payload `p`, read in `s₁`, is not misled by the
answer it gets in `s₂`. -/
def NotMisled (s₁ s₂ : Store) (trace_id : TraceId) (id : String) (p : TracePayload)
    (req : IndexRequest) : Prop :=
  ∀ r, s₂.answer id req = some r → r.is_error = true ∨ ∃ body, r = .ok body
    ∧ (Tells id p req body
      ∨ ∀ i ∈ req.indices body, ∀ span_id, s₁.span_at trace_id i = some span_id →
        s₂.span_at trace_id i = some span_id)

/-- A request for a trace that is not resident is refused. -/
theorem answer_absent {s : Store} {id : String} {trace_id : TraceId}
    (hid : TraceId.from_hex id = some trace_id) (h : s.trace trace_id = none)
    (req : IndexRequest) : s.answer id req = some .not_found := by
  cases req with
  | attributes idx =>
    rw [answer, get_attributes, hid]
    dsimp only
    rw [h]
    rfl
  | filter q =>
    rw [answer, get_filter, hid]
    dsimp only
    rw [h]
    rfl

/-- A payload is read of a resident trace. -/
theorem resident_of_get_trace {s : Store} {id : String} {trace_id : TraceId} {p : TracePayload}
    (hid : TraceId.from_hex id = some trace_id) (h : s.get_trace id = some (.ok p)) :
    ∃ t, s.trace trace_id = some t := by
  rw [get_trace, hid] at h
  dsimp only at h
  cases ht : s.trace trace_id with
  | some t => exact ⟨t, rfl⟩
  | none =>
    rw [ht] at h
    cases h

/-- **An index stays good while its trace stays**: in every run in which the
trace, if it is resident at the second request, has not been evicted since the
first, no request by index misleads the client. -/
theorem stale_index_safe {m : ℕ} {es fs : List Event} {s₁ s₂ : Store} {id : String}
    {trace_id : TraceId} {p : TracePayload} (hid : TraceId.from_hex id = some trace_id)
    (h₁ : exec step es (new m) = some s₁) (hp : s₁.get_trace id = some (.ok p))
    (h₂ : exec step fs s₁ = some s₂)
    (hstay : (s₂.trace trace_id).isSome →
      evictions (es ++ fs) (new m) trace_id = evictions es (new m) trace_id) :
    ∀ req, NotMisled s₁ s₂ trace_id id p req := by
  intro req r hr
  cases ht₂ : s₂.trace trace_id with
  | none =>
    rw [answer_absent hid ht₂, Option.some.injEq] at hr
    exact Or.inl (hr ▸ rfl)
  | some t₂ =>
    -- not evicted in between, so the trace only grew behind the indices that were read
    obtain ⟨t₁, ht₁⟩ := resident_of_get_trace hid hp
    obtain ⟨t, ht, _, ⟨rest, hrest⟩⟩ := span_ids_kept h₁ h₂ ht₁ (hstay (by rw [ht₂]; rfl))
    obtain rfl := Option.some.inj (ht.symm.trans ht₂)
    have hsame : ∀ i span_id, s₁.span_at trace_id i = some span_id →
        s₂.span_at trace_id i = some span_id := fun i span_id hi => by
      rw [span_at, ht₁, Option.bind_some, Trace.span_id] at hi
      rw [span_at, ht₂, Option.bind_some, Trace.span_id, ← hrest,
        List.getElem?_append_left (List.getElem?_eq_some_iff.mp hi).1]
      exact hi
    cases r with
    | bad_request _ => exact Or.inl rfl
    | not_found => exact Or.inl rfl
    | ok body => exact Or.inr ⟨body, rfl, Or.inr fun i _ span_id hi => hsame i span_id hi⟩

/-! ## A trace that comes back -/

/-- The first trace is sent one span. -/
def first_batch : List Event :=
  (SpanBatch.of_span (tid 1) (Trace.span 1 none "a")).events 0 TraceOrder.by_id

/-- The span is sent again, with an attribute. -/
def resent_batch : List Event :=
  (SpanBatch.of_span (tid 1)
    { Trace.span 1 none "a" with attributes := [("k", .bool true)] }).events 1 TraceOrder.by_id

/-- A second trace evicts the first, which a late span brings back. -/
def evicting_batches : List Event :=
  (SpanBatch.of_span (tid 2) (Trace.span 2 none "b")).events 1 TraceOrder.by_id
    ++ (SpanBatch.of_span (tid 1)
      { Trace.span 3 none "c" with attributes := [("k", .bool true)] }).events 2 TraceOrder.by_id

/-- What the client reads after the first batch. -/
def first_payload : TracePayload where
  trace_id := (tid 1).to_hex
  generation := 0
  string_table := ["a", ""]
  name_idx := [0]
  parent_idx := [none]
  start_time_unix_nano := [100]
  end_time_unix_nano := [200]
  status_message_idx := [1]
  status_code := [0]
  orphan := [false]
  unknown_service := [false]
  service_idx := [none]

theorem first_batch_runs : (exec step first_batch (new 80)).isSome := by decide +kernel

theorem first_payload_read :
    (Option.get _ first_batch_runs).get_trace (tid 1).to_hex = some (.ok first_payload) := by
  decide +kernel

theorem resent_batch_runs : (exec step resent_batch (Option.get _ first_batch_runs)).isSome := by
  decide +kernel

theorem evicting_batches_run :
    (exec step evicting_batches (Option.get _ first_batch_runs)).isSome := by
  decide +kernel

theorem stale_index_safe_resent :
    ∃ s₁ s₂, exec step first_batch (new 80) = some s₁
      ∧ s₁.get_trace (tid 1).to_hex = some (.ok first_payload)
      ∧ exec step resent_batch s₁ = some s₂
      ∧ ∀ req, NotMisled s₁ s₂ (tid 1) (tid 1).to_hex first_payload req := by
  have h₁ := (Option.some_get first_batch_runs).symm
  have h₂ := (Option.some_get resent_batch_runs).symm
  exact ⟨_, _, h₁, first_payload_read, h₂,
    stale_index_safe (tid 1).from_hex_to_hex h₁ first_payload_read h₂ fun _ => by decide +kernel⟩

/-- After the eviction index 0 is another span, and neither answer differs from
one that the first trace could have given. -/
theorem resurrected_trace_misleads :
    ∃ s₁ s₂, exec step first_batch (new 80) = some s₁
      ∧ s₁.get_trace (tid 1).to_hex = some (.ok first_payload)
      ∧ exec step evicting_batches s₁ = some s₂
      ∧ ¬NotMisled s₁ s₂ (tid 1) (tid 1).to_hex first_payload (.attributes 0)
      ∧ ¬NotMisled s₁ s₂ (tid 1) (tid 1).to_hex first_payload (.filter none) := by
  have h₁ := (Option.some_get first_batch_runs).symm
  have h₂ := (Option.some_get evicting_batches_run).symm
  have hresent := (Option.some_get resent_batch_runs).symm
  -- a run without eviction that answers `body` as well
  have honest : ∀ req body, (Option.get _ resent_batch_runs).answer (tid 1).to_hex req
      = some (.ok body) → ¬Tells (tid 1).to_hex first_payload req body :=
    fun req body hbody htells => htells 80 first_batch resent_batch _ _ (tid 1)
      (tid 1).from_hex_to_hex h₁ first_payload_read hresent (by decide +kernel) hbody
  -- a client that is not told takes the span at index 0 for another one
  have misled : ∀ req body, (Option.get _ evicting_batches_run).answer (tid 1).to_hex req
      = some (.ok body) → 0 ∈ req.indices body → ¬Tells (tid 1).to_hex first_payload req body →
      ¬NotMisled (Option.get _ first_batch_runs) (Option.get _ evicting_batches_run) (tid 1)
        (tid 1).to_hex first_payload req := by
    intro req body hbody hidx htells hsafe
    obtain herror | ⟨body', hok, htold | hsame⟩ := hsafe _ hbody
    · cases herror
    · cases hok
      exact htells htold
    · cases hok
      exact absurd (hsame 0 hidx (sid 1) (by decide +kernel)) (by decide +kernel)
  refine ⟨_, _, h₁, first_payload_read, h₂, ?_, ?_⟩
  · refine misled _ (.attributes [⟨"k", .bool true⟩]) ?_ (List.mem_singleton_self 0)
      (honest _ _ ?_) <;> decide +kernel
  · refine misled _ (.filter ⟨[0], []⟩) ?_ (List.mem_singleton_self 0) (honest _ _ ?_)
      <;> decide +kernel

end Store

end Spanfall
