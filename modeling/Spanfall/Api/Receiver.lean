/-
`Receiver.lean` -- `src/api/receiver.rs` while the server runs.

The panel shows numbers of two origins: the store's counters, and the receiver's
arrivals and rejects. The handler reads them under two locks, one after the other,
so a response need not be of any one moment. Nevertheless the panel never goes
back: a call that is made when another has been answered shows no smaller number,
and the rejects of that other one followed by later ones
([`receiver_never_goes_back`]).
-/
import Spanfall.Api.Server
import Spanfall.Lib.Ring
import Spanfall.Store.CapHits

set_option autoImplicit false

namespace Spanfall

open Lib.Ring Lib.Runs Lib.Vec

/-! ## What only grows -/

/-- No counter is smaller. -/
structure Counters.Le (c c' : Counters) : Prop where
  duplicate_span : c.duplicate_span ≤ c'.duplicate_span
  attribute_key_cap_hit : c.attribute_key_cap_hit ≤ c'.attribute_key_cap_hit
  late_span_after_eviction : c.late_span_after_eviction ≤ c'.late_span_after_eviction
  evicted_traces : c.evicted_traces ≤ c'.evicted_traces
  malformed_span : c.malformed_span ≤ c'.malformed_span

theorem Counters.Le.refl (c : Counters) : c.Le c :=
  ⟨Nat.le_refl _, Nat.le_refl _, Nat.le_refl _, Nat.le_refl _, Nat.le_refl _⟩

theorem Counters.Le.trans {c c' c'' : Counters} (h : c.Le c') (h' : c'.Le c'') : c.Le c'' where
  duplicate_span := h.duplicate_span.trans h'.duplicate_span
  attribute_key_cap_hit := h.attribute_key_cap_hit.trans h'.attribute_key_cap_hit
  late_span_after_eviction := h.late_span_after_eviction.trans h'.late_span_after_eviction
  evicted_traces := h.evicted_traces.trans h'.evicted_traces
  malformed_span := h.malformed_span.trans h'.malformed_span

/-- The counts are no smaller, and the ring is behind the other one. -/
structure ReceiverState.Grows (r r' : ReceiverState) : Prop where
  arrivals : ∀ transport, r.arrivals.of transport ≤ r'.arrivals.of transport
  rejects : ∃ more, r'.rejects.ring = (r.rejects.ring ++ more).rtake REJECT_RING_CAPACITY

theorem ReceiverState.Grows.refl {r : ReceiverState}
    (hring : r.rejects.ring.length ≤ REJECT_RING_CAPACITY) : r.Grows r where
  arrivals _ := Nat.le_refl _
  rejects := ⟨[], by rw [List.append_nil, rtake_of_length_le hring]⟩

theorem ReceiverState.Grows.trans {r r' r'' : ReceiverState} (h : r.Grows r') (h' : r'.Grows r'') :
    r.Grows r'' := by
  refine ⟨fun transport => (h.arrivals transport).trans (h'.arrivals transport), ?_⟩
  obtain ⟨more, hmore⟩ := h.rejects
  obtain ⟨more', hmore'⟩ := h'.rejects
  refine ⟨more ++ more', ?_⟩
  rw [hmore', hmore, rtake_append_rtake (by decide), List.append_assoc]

/-- The receiver's half of the response. -/
def ReceiverResponse.receiver (self : ReceiverResponse) : ReceiverState where
  rejects := { ring := self.recent_rejects }
  arrivals := self.arrivals

/-- The response could have been shown later. -/
structure ReceiverResponse.Follows (new old : ReceiverResponse) : Prop where
  counters : old.counters.Le new.counters
  receiver : old.receiver.Grows new.receiver

/-! ## The store's counters -/

namespace Store

variable {m : ℕ} {es fs : List Event} {s s' : Store}

theorem counters_le_of_step (h : exec step es (new m) = some s) {e : Event}
    (hs : s.step e = some s') : s.counters.Le s'.counters := by
  cases e with
  | insert trace_id span now =>
    obtain ⟨⟨s₁, out⟩, hinsert, rfl⟩ := Option.map_eq_some_iff.mp hs
    obtain ⟨t, o, _, _, _, _, _, hcounters, _, _⟩ := insert_cases hinsert
    -- the cap hits are those of the interner, which counts what is lost
    have hhits : s.counters.attribute_key_cap_hit ≤ s₁.counters.attribute_key_cap_hit := by
      obtain ⟨hshown, hlost⟩ := shown_of_run h
      obtain ⟨hshown', hlost'⟩ := shown_of_run (exec_tail h hs)
      rw [hshown, hlost, hshown', hlost', pairs_lost, pairs_lost, ghost_snoc h hs]
      exact Nat.le_add_right _ _
    rw [hcounters] at hhits ⊢
    exact ⟨Nat.le_add_right _ _, hhits, Nat.le_add_right _ _, Nat.le_refl _, Nat.le_refl _⟩
  | malformed count =>
    rw [← Option.some.inj hs]
    exact { Counters.Le.refl s.counters with malformed_span := Nat.le_add_right _ _ }
  | sweep order =>
    have hsweep := sweep_of_evict hs
    rw [hsweep.swept.counters]
    exact { Counters.Le.refl s.counters with evicted_traces := hsweep.evicted_traces_le }

/-- **No counter of the store goes back.** -/
theorem counters_le_of_run (h : exec step es (new m) = some s) (h' : exec step fs s = some s') :
    s.counters.Le s'.counters := by
  refine exec_induction (P := fun _ s' => s.counters.Le s'.counters) (Counters.Le.refl _) ?_ h'
  intro fs s₁ e s₂ hfs ih he
  exact ih.trans (counters_le_of_step (exec_trans h hfs) he)

end Store

/-! ## One action -/

namespace Server

variable {decoders : Decoders} {cfg : IngestConfig} {m : ℕ} {seed : List Event} {store : Store}
  {s s' : Server}

/-- The ring never holds more than it may. -/
theorem ring_of_run {actions : List IngestAction} {i : Ingest}
    (h : exec (Ingest.step cfg) actions (Ingest.start store) = some i) :
    i.receiver.rejects.ring.length ≤ REJECT_RING_CAPACITY := by
  refine exec_invariant (I := fun i : Ingest =>
    i.receiver.rejects.ring.length ≤ REJECT_RING_CAPACITY) ?_ (Nat.zero_le _) h
  intro i action i' hring hs
  cases Ingest.acts_of_step hs with
  | record_reject =>
    rw [RejectLog.push, List.length_append, List.length_singleton]
    by_cases hfull : i.receiver.rejects.ring.length = REJECT_RING_CAPACITY
    · rw [if_pos hfull, List.length_drop, hfull]
      decide
    · rw [if_neg hfull]
      exact Nat.lt_of_le_of_ne hring hfull
  | _ => exact hring

/-- What an action of the ingest does to the receiver. -/
theorem grows_of_step {i i' : Ingest} {action : IngestAction}
    (hring : i.receiver.rejects.ring.length ≤ REJECT_RING_CAPACITY)
    (hs : i.step cfg action = some i') : i.receiver.Grows i'.receiver := by
  cases Ingest.acts_of_step hs with
  | @record_reject j now call reason error hcall hstate =>
    refine ⟨fun _ => Nat.le_refl _, [{ reason, at_unix_nano := now }], ?_⟩
    rw [← push_rtake (by decide), rtake_of_length_le hring]
    rfl
  | record_arrival =>
    refine ⟨fun transport => ?_, (ReceiverState.Grows.refl hring).rejects⟩
    rw [ArrivalCounts.of_record]
    exact Nat.le_add_right _ _
  | _ => exact ReceiverState.Grows.refl hring

/-- The store of a server that runs is a run behind the seed. -/
theorem stored (hseed : exec Store.step seed (Store.new m) = some store)
    {actions : List ServerAction} (h : exec (step decoders cfg) actions (start store) = some s) :
    ∃ es, exec Store.step es (Store.new m) = some s.exports.ingest.store := by
  obtain ⟨es, hes⟩ := run_of_batches (turns_behind h).1
  exact ⟨seed ++ es, exec_trans hseed hes⟩

/-- **What an action does to what the panel shows.** -/
theorem shown_of_step (hseed : exec Store.step seed (Store.new m) = some store)
    {actions : List ServerAction} (h : exec (step decoders cfg) actions (start store) = some s)
    {action : ServerAction} (hs : s.step decoders cfg action = some s') :
    s.exports.ingest.store.counters.Le s'.exports.ingest.store.counters
      ∧ s.exports.ingest.receiver.Grows s'.exports.ingest.receiver := by
  have hring := ring_of_run (inner_run h)
  have same : s'.exports.ingest = s.exports.ingest →
      s.exports.ingest.store.counters.Le s'.exports.ingest.store.counters
        ∧ s.exports.ingest.receiver.Grows s'.exports.ingest.receiver := by
    intro hsame
    rw [hsame]
    exact ⟨Counters.Le.refl _, ReceiverState.Grows.refl hring⟩
  cases acts_of_step hs with
  | ingest hexports =>
    obtain ⟨act, _, hact⟩ | ⟨_, hsame⟩ := inner_step hexports
    · refine ⟨?_, grows_of_step hring hact⟩
      obtain ⟨a, ha, _⟩ | ⟨hstore, _⟩ := Ingest.turn_cases hact
      · obtain ⟨es, hes⟩ := stored hseed h
        rw [AppliedBatch.apply, Store.apply_batch_eq_exec] at ha
        exact Store.counters_le_of_run hes ha
      · dsimp only
        rw [hstore]
        exact Counters.Le.refl _
    · exact same hsame
  | request | read | read_receiver => exact same rfl

/-! ## A run -/

end Server

/-- What the call has got was shown before the panel showed this. -/
def ApiCallState.Before (counters : Counters) (receiver : ReceiverState) : ApiCallState → Prop
  | counted c => c.Le counters
  | answered (.receiver response) =>
    response.counters.Le counters ∧ response.receiver.Grows receiver
  | _ => True

/-- What the call has got is shown after the panel has shown this. -/
def ApiCallState.After (counters : Counters) (receiver : ReceiverState) : ApiCallState → Prop
  | counted c => counters.Le c
  | answered (.receiver response) =>
    counters.Le response.counters ∧ receiver.Grows response.receiver
  | _ => True

namespace Server

variable {decoders : Decoders} {cfg : IngestConfig} {m : ℕ} {seed : List Event} {store : Store}
  {s s' : Server}

/-- A handler takes from the store its counters and nothing else of the panel. -/
theorem serve_cases (store : Store) (order : TraceOrder) (request : ApiRequest) :
    store.serve order request = .counted store.counters
      ∨ ∀ counters receiver, (store.serve order request).Before counters receiver
          ∧ (store.serve order request).After counters receiver := by
  have outcome : ∀ {α : Type} (result : Option α) (f : α → ApiAnswer),
      (∀ a response, f a ≠ .receiver response) → ∀ counters receiver,
      (result.elim ApiCallState.panicked fun a => .answered (f a)).Before counters receiver
        ∧ (result.elim ApiCallState.panicked fun a => .answered (f a)).After counters receiver := by
    intro α result f hf counters receiver
    cases result with
    | none => exact ⟨trivial, trivial⟩
    | some a =>
      dsimp only [Option.elim_some]
      cases ha : f a with
      | receiver response => exact absurd ha (hf a response)
      | _ => exact ⟨trivial, trivial⟩
  cases request with
  | list_traces => exact Or.inr (outcome (store.list_traces order) .traces nofun)
  | get_trace id => exact Or.inr (outcome (store.get_trace id) .trace nofun)
  | get_attributes id idx => exact Or.inr (outcome (store.get_attributes id idx) .attributes nofun)
  | get_filter id q => exact Or.inr (outcome (store.get_filter id q) .filter nofun)
  | get_receiver => exact Or.inl rfl
  | get_lint => exact Or.inr fun _ _ => ⟨trivial, trivial⟩

theorem begin_cases (request : ApiRequest) (counters : Counters) (receiver : ReceiverState) :
    request.begin.Before counters receiver ∧ request.begin.After counters receiver := by
  cases request <;> exact ⟨trivial, trivial⟩

/-- No call has got more than the panel shows. -/
theorem before_of_run (hseed : exec Store.step seed (Store.new m) = some store)
    {actions : List ServerAction} (h : exec (step decoders cfg) actions (start store) = some s) :
    ∀ call ∈ s.requests,
      call.state.Before s.exports.ingest.store.counters s.exports.ingest.receiver := by
  refine exec_induction (P := fun _ s => ∀ call ∈ s.requests,
    call.state.Before s.exports.ingest.store.counters s.exports.ingest.receiver)
    (fun _ hc => absurd hc List.not_mem_nil) ?_ h
  intro actions s action s' hrun ih hs
  obtain ⟨hcounters, hreceiver⟩ := shown_of_step hseed hrun hs
  have hring := ring_of_run (inner_run hrun)
  -- what was shown before is shown before still
  have kept : ∀ call ∈ s.requests,
      call.state.Before s'.exports.ingest.store.counters s'.exports.ingest.receiver := by
    intro call hc
    have hbefore := ih call hc
    cases hstate : call.state with
    | counted c =>
      rw [hstate] at hbefore
      exact Counters.Le.trans hbefore hcounters
    | answered answer =>
      rw [hstate] at hbefore
      cases answer with
      | receiver response => exact ⟨hbefore.1.trans hcounters, hbefore.2.trans hreceiver⟩
      | _ => trivial
    | _ => trivial
  cases acts_of_step hs with
  | ingest hexports => exact kept
  | @request request =>
    intro call hc
    rcases List.mem_append.mp hc with hc | hc
    · exact kept call hc
    · rw [List.mem_singleton.mp hc]
      exact (begin_cases request _ _).1
  | @read i order call hcall hstate hwriter =>
    intro c hc
    rcases List.mem_or_eq_of_mem_set hc with hc | rfl
    · exact kept c hc
    · rcases serve_cases s.exports.ingest.store order call.request with hserve | hserve
      · dsimp only
        rw [hserve]
        exact Counters.Le.refl _
      · exact (hserve _ _).1
  | @read_receiver i call counters hcall hstate =>
    intro c hc
    rcases List.mem_or_eq_of_mem_set hc with hc | rfl
    · exact kept c hc
    · have hbefore := ih call (List.mem_of_getElem? hcall)
      rw [hstate] at hbefore
      exact ⟨hbefore, ReceiverState.Grows.refl hring⟩

/-- A call that is made later gets no less than the panel showed. -/
theorem after_of_run (hseed : exec Store.step seed (Store.new m) = some store)
    {earlier later : List ServerAction}
    (h : exec (step decoders cfg) earlier (start store) = some s)
    (h' : exec (step decoders cfg) later s = some s') :
    ∀ (j : ℕ) (call : ApiCall), s.requests.length ≤ j → s'.requests[j]? = some call →
      call.state.After s.exports.ingest.store.counters s.exports.ingest.receiver := by
  have hall : (s.exports.ingest.store.counters.Le s'.exports.ingest.store.counters
      ∧ s.exports.ingest.receiver.Grows s'.exports.ingest.receiver)
      ∧ ∀ (j : ℕ) (call : ApiCall), s.requests.length ≤ j → s'.requests[j]? = some call →
        call.state.After s.exports.ingest.store.counters s.exports.ingest.receiver := by
    refine exec_induction (P := fun _ s' =>
      (s.exports.ingest.store.counters.Le s'.exports.ingest.store.counters
        ∧ s.exports.ingest.receiver.Grows s'.exports.ingest.receiver)
      ∧ ∀ (j : ℕ) (call : ApiCall), s.requests.length ≤ j → s'.requests[j]? = some call →
        call.state.After s.exports.ingest.store.counters s.exports.ingest.receiver) ?_ ?_ h'
    · refine ⟨⟨Counters.Le.refl _, ReceiverState.Grows.refl (ring_of_run (inner_run h))⟩, ?_⟩
      intro j call hj hcall
      rw [List.getElem?_eq_none hj] at hcall
      cases hcall
    · rintro later s₁ action s₂ hlater ⟨⟨hcounters, hreceiver⟩, ih⟩ hs
      have hrun := exec_trans h hlater
      obtain ⟨hcounters', hreceiver'⟩ := shown_of_step hseed hrun hs
      refine ⟨⟨hcounters.trans hcounters', hreceiver.trans hreceiver'⟩, fun j c hj hc => ?_⟩
      cases acts_of_step hs with
      | ingest hexports => exact ih j c hj hc
      | @request request =>
        rcases getElem?_snoc.mp hc with hc | ⟨_, rfl⟩
        · exact ih j c hj hc
        · exact (begin_cases request _ _).2
      | @read i order call hcall hstate hwriter =>
        rw [Server.move, List.getElem?_set] at hc
        obtain ⟨hi, -⟩ := List.getElem?_eq_some_iff.mp hcall
        by_cases hij : i = j
        · rw [if_pos hij, if_pos (hij ▸ hi)] at hc
          rw [← Option.some.inj hc]
          rcases serve_cases s₁.exports.ingest.store order call.request with hserve | hserve
          · dsimp only
            rw [hserve]
            exact hcounters
          · exact (hserve _ _).2
        · rw [if_neg hij] at hc
          exact ih j c hj hc
      | @read_receiver i call counters hcall hstate =>
        rw [Server.move, List.getElem?_set] at hc
        obtain ⟨hi, -⟩ := List.getElem?_eq_some_iff.mp hcall
        by_cases hij : i = j
        · rw [if_pos hij, if_pos (hij ▸ hi)] at hc
          rw [← Option.some.inj hc]
          have hcounted := ih i call (hij ▸ hj) hcall
          rw [hstate] at hcounted
          exact ⟨hcounted, hreceiver⟩
        · rw [if_neg hij] at hc
          exact ih j c hj hc
  exact hall.2

/-- **The panel never goes back.** A call of `get_receiver` that is made when
another one has been answered shows no smaller number than that one, and the
rejects it showed followed by later ones, as far as the ring reaches. -/
theorem receiver_never_goes_back (hseed : exec Store.step seed (Store.new m) = some store)
    {earlier later : List ServerAction}
    (h : exec (step decoders cfg) earlier (start store) = some s)
    (h' : exec (step decoders cfg) later s = some s') {i j : ℕ} {call call' : ApiCall}
    {old new : ReceiverResponse} (hi : s.requests[i]? = some call)
    (hold : call.state = .answered (.receiver old)) (hj : s'.requests[j]? = some call')
    (hnew : call'.state = .answered (.receiver new)) (hafter : s.requests.length ≤ j) :
    new.Follows old := by
  have hbefore := before_of_run hseed h call (List.mem_of_getElem? hi)
  have hlater := after_of_run hseed h h' j call' hafter hj
  rw [hold] at hbefore
  rw [hnew] at hlater
  exact ⟨hbefore.1.trans hlater.1, hbefore.2.trans hlater.2⟩

/-- The panel is asked once, -/
def panel_once : List ServerAction :=
  [.request .get_receiver, .ingest (.request (.http none [])), .ingest (.proceed (.convert 0)),
    .read 0 TraceOrder.by_id, .read_receiver 0]

/-- and again, and between the two locks of the second call a reject and a batch
with a malformed span come in. -/
def panel_again : List ServerAction :=
  [wire_message [Ingest.wire_span 16, Ingest.wire_span 15],
    .request .get_receiver, .ingest (.proceed (.convert 1)), .ingest (.proceed (.send 1)),
    .read 1 TraceOrder.by_id, .ingest (.proceed (.record_reject 0 5)),
    .ingest (.proceed .recv), .ingest (.proceed (.apply 7 TraceOrder.by_id)),
    .ingest (.proceed (.record_arrival 1)), .read_receiver 1]

theorem panel_once_run : (exec (step Exports.two_bodies Ingest.small_channel) panel_once
    (start (Store.new 1000))).isSome := by
  decide +kernel

theorem panel_again_run : (exec (step Exports.two_bodies Ingest.small_channel) panel_again
    (Option.get _ panel_once_run)).isSome := by
  decide +kernel

/-- What a call of `get_receiver` was answered. -/
def panel_of (s : Server) (i : ℕ) : Option ReceiverResponse :=
  s.requests[i]?.bind fun call =>
    match call.state with
    | .answered (.receiver response) => some response
    | _ => none

theorem panel_of_eq_some {i : ℕ} {response : ReceiverResponse} (h : s.panel_of i = some response) :
    ∃ call, s.requests[i]? = some call ∧ call.state = .answered (.receiver response) := by
  obtain ⟨call, hcall, h⟩ := Option.bind_eq_some_iff.mp h
  refine ⟨call, hcall, ?_⟩
  split at h
  · rw [← Option.some.inj h]
    assumption
  · cases h

theorem panel_once_answered : ((Option.get _ panel_once_run).panel_of 0).isSome := by
  decide +kernel

theorem panel_again_answered : ((Option.get _ panel_again_run).panel_of 1).isSome := by
  decide +kernel

theorem receiver_never_goes_back_panel :
    (Option.get _ panel_again_answered).Follows (Option.get _ panel_once_answered)
      ∧ (Option.get _ panel_again_answered).counters.malformed_span = 0
      ∧ (Option.get _ panel_again_answered).arrivals.of .grpc_v4317 = 1
      ∧ (Option.get _ panel_again_answered).recent_rejects.length = 1 := by
  obtain ⟨_, hi, hold⟩ := panel_of_eq_some (Option.some_get panel_once_answered).symm
  obtain ⟨_, hj, hnew⟩ := panel_of_eq_some (Option.some_get panel_again_answered).symm
  have hseed : exec Store.step [] (Store.new 1000) = some (Store.new 1000) := rfl
  refine ⟨?_, by decide +kernel, by decide +kernel, by decide +kernel⟩
  exact receiver_never_goes_back hseed (Option.some_get panel_once_run).symm
    (Option.some_get panel_again_run).symm hi hold hj hnew (by decide +kernel)

end Server

end Spanfall
