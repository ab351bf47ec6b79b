/-
`Growth.lean` -- what a later answer of `get_trace` may change.

While a trace stays resident its rows only become more. A row keeps its place, and
its link only ever gets resolved: a parent that has been shown is shown for good, a
root stays a root, and an orphan may find its parent but no row becomes an orphan
([`Row.Follows`]). Of its other columns it keeps all if its span is not sent again.
Two answers with one generation are related so ([`rows_only_grow`]).
-/
import Spanfall.Api.Overview
import Spanfall.Api.Receiver

set_option autoImplicit false

namespace Spanfall

open Lib.LastWrite Lib.Runs Lib.Serial Lib.Vec

/-! ## Rows -/

/-- What becomes of the link of a row. -/
structure Row.Follows (new old : Row) : Prop where
  parent : ∀ p, old.parent_idx = some p → new.parent_idx = some p
  root : old.parent_idx = none → old.orphan = false → new.parent_idx = none ∧ new.orphan = false
  orphan : new.orphan = true → old.orphan = true

section Rows

variable {κ : Type} [DecidableEq κ]

/-- The keys of the rows, in their order. -/
def shown_keys (spans : List (Sighting κ)) : List κ := (spans.map Sighting.key).eraseDups

/-- A row of which more keys are there. -/
theorem Sighting.row_follows {known known' : String → Bool} {keys keys' : List κ}
    (hnodup : keys'.Nodup) (hkeys : keys <+: keys') (last last' first : Sighting κ) :
    (Sighting.row known' keys' last' first).Follows (Sighting.row known keys last first) := by
  have hnodup' : keys.Nodup := hkeys.sublist.nodup hnodup
  have hmem : ∀ q, q ∈ keys → q ∈ keys' := fun q hq => hkeys.subset hq
  have hindex : ∀ q p, keys.idxOf? q = some p → keys'.idxOf? q = some p := by
    intro q p hp
    rw [idxOf?_of_nodup hnodup'] at hp
    rw [idxOf?_of_nodup hnodup]
    obtain ⟨rest, rfl⟩ := hkeys
    exact List.getElem?_append_left (List.getElem?_eq_some_iff.mp hp).1 ▸ hp
  constructor
  · intro p hp
    obtain ⟨q, hq, hp⟩ := Option.bind_eq_some_iff.mp hp
    exact Option.bind_eq_some_iff.mpr ⟨q, hq, hindex q p hp⟩
  · intro hnone horphan
    rw [Sighting.row] at hnone horphan ⊢
    dsimp only at hnone horphan ⊢
    cases hparent : first.parent with
    | none => exact ⟨rfl, rfl⟩
    | some q =>
      rw [hparent, Option.bind_some] at hnone
      rw [hparent, Option.any_some, decide_eq_false_iff_not, not_not] at horphan
      exact absurd horphan (List.idxOf?_eq_none_iff.mp hnone)
  · intro horphan
    rw [Sighting.row] at horphan ⊢
    dsimp only at horphan ⊢
    cases hparent : first.parent with
    | none =>
      rw [hparent] at horphan
      cases horphan
    | some q =>
      rw [hparent, Option.any_some, decide_eq_true_iff] at horphan
      rw [Option.any_some, decide_eq_true_iff]
      exact fun hq => horphan (hmem q hq)

/-- **Rows only grow.** -/
theorem show_rows_grow {known known' : String → Bool} {spans : List (Sighting κ)} {k : ℕ}
    {row : Row} (h : (show_rows known spans)[k]? = some row) (more : List (Sighting κ)) :
    ∃ row', (show_rows known' (spans ++ more))[k]? = some row' ∧ row'.Follows row
      ∧ ((∀ x ∈ spans, ∀ name, x.service = some name → known' name = known name) →
        (∀ key, (shown_keys spans)[k]? = some key → key ∉ more.map Sighting.key) →
          row' = { row with parent_idx := row'.parent_idx, orphan := row'.orphan }) := by
  rw [show_rows, List.getElem?_zipWith_eq_some] at h
  obtain ⟨last, first, hlast, hfirst, rfl⟩ := h
  obtain ⟨last', hlast', hsame⟩ := lastWrites_key_kept hlast more
  have hfirst' : (firstWrites Sighting.key (spans ++ more))[k]? = some first := by
    obtain ⟨rest, hrest⟩ : firstWrites Sighting.key spans
      <+: firstWrites Sighting.key (spans ++ more) := firstWrites_initial spans more
    rw [← hrest, List.getElem?_append_left (List.getElem?_eq_some_iff.mp hfirst).1]
    exact hfirst
  have hkeys : (spans.map Sighting.key).eraseDups
      <+: ((spans ++ more).map Sighting.key).eraseDups := by
    rw [List.map_append]
    exact eraseDups_initial _ _
  refine ⟨Sighting.row known' ((spans ++ more).map Sighting.key).eraseDups last' first, ?_,
    Sighting.row_follows (nodup_eraseDups _) hkeys last last' first, ?_⟩
  · rw [show_rows, List.getElem?_zipWith_eq_some]
    exact ⟨last', first, hlast', hfirst', rfl⟩
  · intro hservices hagain
    have hkey : (shown_keys spans)[k]? = some last.key := by
      rw [shown_keys, ← lastWrites_keys, List.getElem?_map, hlast, Option.map_some]
    obtain rfl : last' = last :=
      Option.some.inj (hlast'.symm.trans (lastWrites_kept hlast (hagain _ hkey)))
    have hservice : last'.service.filter known' = last'.service.filter known := by
      cases hname : last'.service with
      | none => rfl
      | some name =>
        have hmem := mem_of_mem_lastWrites (List.mem_of_getElem? hlast)
        rw [Option.filter_some, Option.filter_some, hservices _ hmem name hname]
    rw [Sighting.row, Sighting.row, hservice]

end Rows

/-! ## One incarnation -/

namespace Store

variable {m : ℕ} {es fs : List Event} {s s₁ s₂ : Store} {id : TraceId} {text : String}

/-- An eviction is counted. -/
theorem counted_of_gone {e : Event} (he : s.step e = some s₁) (hin : (s.trace id).isSome)
    (hout : (s₁.trace id).isNone) : s.counters.evicted_traces < s₁.counters.evicted_traces := by
  cases e with
  | insert trace_id span now =>
    obtain ⟨t', htrace, _⟩ := step_insert he
    rw [htrace] at hout
    by_cases hid : id = trace_id
    · rw [if_pos hid] at hout
      cases hout
    · rw [if_neg hid, Option.isNone_iff_eq_none] at hout
      rw [hout] at hin
      cases hin
  | malformed count =>
    obtain rfl := Option.some.inj he
    have hnone : s.trace id = none := Option.isNone_iff_eq_none.mp hout
    rw [hnone] at hin
    cases hin
  | sweep order =>
    have hsweep := sweep_of_evict he
    refine lt_of_le_of_ne hsweep.evicted_traces_le fun hsame => ?_
    rw [hsweep.eq_of_evicted_traces hsame.symm, Option.isNone_iff_eq_none] at hout
    rw [hout] at hin
    cases hin

/-- No trace is evicted more often than evictions were counted. -/
theorem evictions_le_counter (hs : exec step es (new m) = some s) (id : TraceId) :
    evictions es (new m) id ≤ s.counters.evicted_traces := by
  refine exec_induction (P := fun es s => evictions es (new m) id ≤ s.counters.evicted_traces)
    (Nat.le_refl _) (fun es s e s' hrun ih he => ?_) hs
  rw [evictions_snoc hrun he]
  by_cases hgone : (s.trace id).isSome ∧ (s'.trace id).isNone
  · rw [if_pos hgone]
    exact Nat.succ_le_of_lt (ih.trans_lt (counted_of_gone he hgone.1 hgone.2))
  · rw [if_neg hgone]
    exact ih.trans (counters_le_of_step hrun he).evicted_traces

/-- While a trace stays resident, what is sent to it arrives. -/
theorem arrivals_grow (h₁ : exec step es (new m) = some s₁) (h₂ : exec step fs s₁ = some s₂)
    (hin : (s₁.trace id).isSome)
    (hsame : evictions (es ++ fs) (new m) id = evictions es (new m) id) :
    arrivals (es ++ fs) (new m) id = arrivals es (new m) id ++ sent_to fs id := by
  suffices h : (s₂.trace id).isSome
      ∧ arrivals (es ++ fs) (new m) id = arrivals es (new m) id ++ sent_to fs id from h.2
  revert hsame
  refine exec_induction (P := fun fs s₂ =>
    evictions (es ++ fs) (new m) id = evictions es (new m) id → (s₂.trace id).isSome
      ∧ arrivals (es ++ fs) (new m) id = arrivals es (new m) id ++ sent_to fs id) ?_ ?_ h₂
  · intro _
    rw [List.append_nil]
    exact ⟨hin, (List.append_nil _).symm⟩
  · intro fs s e s' hrun ih he hsame
    have hall := exec_trans h₁ hrun
    have hmono := evictions_mono h₁ hrun id
    rw [← List.append_assoc, evictions_snoc hall he] at hsame
    by_cases hgone : (s.trace id).isSome ∧ (s'.trace id).isNone
    · rw [if_pos hgone] at hsame
      omega
    · obtain ⟨hold, harrived⟩ := ih (by rw [if_neg hgone] at hsame; omega)
      have hnew : (s'.trace id).isSome := by
        by_contra hnone
        exact hgone ⟨hold, Option.isNone_iff_eq_none.mpr (Option.not_isSome_iff_eq_none.mp hnone)⟩
      refine ⟨hnew, ?_⟩
      rw [sent_to_snoc, ← List.append_assoc, arrivals, ghost_snoc hall he]
      rw [arrivals] at harrived
      cases e with
      | insert trace_id span now =>
        by_cases hid : id = trace_id
        · subst hid
          simp [arrive, Event.sent, harrived]
        · simp [arrive, Event.sent, hid, Ne.symm hid, harrived]
      | malformed count => simp [arrive, Event.sent, harrived]
      | sweep order => simp [arrive, Event.sent, harrived, hnew]

/-- The generation shown is that of the trace. -/
theorem generation_of_get_trace (hid : TraceId.from_hex text = some id) {payload : TracePayload}
    (h : s.get_trace text = some (.ok payload)) :
    ∃ t, s.trace id = some t ∧ payload.generation = t.generation := by
  rw [get_trace, hid] at h
  dsimp only at h
  cases ht : s.trace id with
  | none =>
    rw [ht] at h
    cases h
  | some t =>
    rw [ht] at h
    obtain ⟨payload', hpayload, hsame⟩ := Option.map_eq_some_iff.mp h
    obtain rfl := Response.ok.inj hsame
    obtain ⟨rows, hrows⟩ := rows_of_payload hpayload
    rw [trace_payload_eq, hrows, Option.map_some, Option.some.injEq] at hpayload
    refine ⟨t, rfl, ?_⟩
    rw [← hpayload]
    exact (pushes_head _ _).2

/-- Two states that show a trace in one generation, of which fewer than all have been
used, are of one incarnation. -/
theorem evictions_same (h₁ : exec step es (new m) = some s₁) (h₂ : exec step fs s₁ = some s₂)
    {t₁ t₂ : Trace} (ht₁ : s₁.trace id = some t₁) (ht₂ : s₂.trace id = some t₂)
    (hgen : t₂.generation = t₁.generation) (hfew : s₂.counters.evicted_traces < 2 ^ 32) :
    evictions (es ++ fs) (new m) id = evictions es (new m) id := by
  have h₁₂ := exec_trans h₁ h₂
  have hbound := (evictions_le_counter h₁₂ id).trans_lt hfew
  have hmono := evictions_mono h₁ h₂ id
  have hcount₁ := (generations_of_run h₁ id).1 t₁ ht₁
  have hcount₂ := (generations_of_run h₁₂ id).1 t₂ ht₂
  have hword : UInt32.ofNat (evictions (es ++ fs) (new m) id)
      = UInt32.ofNat (evictions es (new m) id) := by
    rw [← hcount₂, hgen, hcount₁]
  have hnat := congrArg UInt32.toNat hword
  rwa [UInt32.toNat_ofNat', UInt32.toNat_ofNat', Nat.mod_eq_of_lt hbound,
    Nat.mod_eq_of_lt (hmono.trans_lt hbound)] at hnat

/-- Of two answers with one generation the later one has what was sent in between
behind what the earlier one had. -/
theorem get_trace_grows (h₁ : exec step es (new m) = some s₁) (h₂ : exec step fs s₁ = some s₂)
    (hfew : s₂.counters.evicted_traces < 2 ^ 32) {text' : String}
    (hid : TraceId.from_hex text = some id) (hid' : TraceId.from_hex text' = some id)
    {old new : TracePayload} (hold : s₁.get_trace text = some (.ok old))
    (hnew : s₂.get_trace text' = some (.ok new)) (hgen : new.generation = old.generation) :
    ∃ lost ≤ (sent_to es id).length,
      Encodes id (show_rows (interned (services_shown es))
          (((sent_to es id).drop lost).map NewSpan.sighting)) (.ok old)
        ∧ Encodes id (show_rows (interned (services_shown (es ++ fs)))
          (((sent_to es id).drop lost ++ sent_to fs id).map NewSpan.sighting)) (.ok new) := by
  obtain ⟨t₁, ht₁, hgen₁⟩ := generation_of_get_trace hid hold
  obtain ⟨t₂, ht₂, hgen₂⟩ := generation_of_get_trace hid' hnew
  have hsame := evictions_same h₁ h₂ ht₁ ht₂ (by rw [← hgen₁, ← hgen₂, hgen]) hfew
  obtain ⟨before, hbefore⟩ := arrivals_suffix h₁ id
  refine ⟨before.length, ?_, ?_, ?_⟩
  · rw [← hbefore, List.length_append]
    exact Nat.le_add_right _ _
  · rw [← hbefore, List.drop_left]
    exact get_trace_as_arrived h₁ hid hold
  · rw [← hbefore, List.drop_left,
      ← arrivals_grow h₁ h₂ (Option.isSome_of_eq_some ht₁) hsame]
    exact get_trace_as_arrived (exec_trans h₁ h₂) hid' hnew

end Store

/-! ## The answers -/

namespace Server

variable {decoders : Decoders} {cfg : IngestConfig} {m : ℕ} {actions : List ServerAction}
  {s : Server} {i j : ℕ} {r r' : Read Store}

/-- Of two reads the later one saw the same turns and others behind them. -/
theorem read_after (h : exec (step decoders cfg) actions (start (Store.new m)) = some s)
    (hr : (i, r) ∈ reads decoders cfg actions (start (Store.new m)))
    (hr' : (j, r') ∈ reads decoders cfg actions (start (Store.new m)))
    (hle : r.position ≤ r'.position) :
    ∃ es fs more, exec Store.step es (Store.new m) = some r.state
      ∧ exec Store.step fs r.state = some r'.state
      ∧ wire_at decoders cfg actions (Store.new m) s r'
        = wire_at decoders cfg actions (Store.new m) s r ++ more
      ∧ Converts (wire_at decoders cfg actions (Store.new m) s r) (Store.sent es)
      ∧ Converts (wire_at decoders cfg actions (Store.new m) s r ++ more)
          (Store.sent (es ++ fs)) := by
  have hserial := reads_serialized h
  have hmem : r ∈ (reads decoders cfg actions (start (Store.new m))).map Prod.snd :=
    List.mem_map_of_mem hr
  have hmem' : r' ∈ (reads decoders cfg actions (start (Store.new m))).map Prod.snd :=
    List.mem_map_of_mem hr'
  obtain ⟨hcut, hbetween⟩ := hserial.between hmem hmem' hle
  have hconverts := Ingest.turns_convert (inner_run h) (hserial.bounded r hmem)
  have hconverts' := Ingest.turns_convert (inner_run h) (hserial.bounded r' hmem')
  obtain ⟨more, hmore⟩ : ∃ more, wire_at decoders cfg actions (Store.new m) s r'
      = wire_at decoders cfg actions (Store.new m) s r ++ more := by
    have htake : (send_order decoders cfg actions (Store.new m)).take r.position
        <+: (send_order decoders cfg actions (Store.new m)).take r'.position :=
      List.take_prefix_take_left hle
    obtain ⟨rest, hrest⟩ := htake
    exact ⟨s.exports.ingest.wire_of rest, by
      rw [wire_at, wire_at, ← hrest, Ingest.wire_of, List.flatMap_append]
      rfl⟩
  refine ⟨_, _, more, Ingest.exec_turn_events (hserial.shows r hmem),
    Ingest.exec_turn_events hbetween, hmore, ?_, ?_⟩
  · rw [Ingest.sent_turns]
    exact hconverts
  · rw [← hmore, ← Ingest.turn_events_append, ← hcut, Ingest.sent_turns]
    exact hconverts'

/-- The services that a trace's spans name are decided by the time they are shown. -/
theorem interned_kept {sent more : List (ResourceSpans × PbSpan)} {id : TraceId} {lost : ℕ}
    {x : Sighting (List UInt8)} (hx : x ∈ ((of_trace id sent).drop lost).map wire_sighting)
    {name : String} (hname : x.service = some name) :
    interned (services_of (sent ++ more)) name = interned (services_of sent) name := by
  obtain ⟨w, hw, rfl⟩ := List.mem_map.mp hx
  have hin : name ∈ services_of sent := by
    rw [services_of, List.mem_flatMap]
    exact ⟨w, List.mem_of_mem_filter (List.mem_of_mem_drop hw), Option.mem_toList.mpr hname⟩
  rw [services_of, List.flatMap_append]
  exact decide_eq_decide.mpr (mem_accepted_append hin _)

/-- **An answer of `get_trace` only grows.** Of two answers about a trace that carry
one generation, of which the later read saw at most `2 ^ 32 - 1` evictions, the
second is of what the first is of and of `more` behind it. A row keeps its place; a
parent that was shown stays, a root stays one and no row becomes an orphan; and if
the row's span is not sent again, all its other columns stay. -/
theorem rows_only_grow (h : exec (step decoders cfg) actions (start (Store.new m)) = some s)
    {call call' : ApiCall} {text text' : String} {id : TraceId} {old new : TracePayload}
    (hi : s.requests[i]? = some call) (hrequest : call.request = .get_trace text)
    (hid : TraceId.from_hex text = some id) (hold : call.state = .answered (.trace (.ok old)))
    (hj : s.requests[j]? = some call') (hrequest' : call'.request = .get_trace text')
    (hid' : TraceId.from_hex text' = some id) (hnew : call'.state = .answered (.trace (.ok new)))
    (hr : (i, r) ∈ reads decoders cfg actions (start (Store.new m)))
    (hr' : (j, r') ∈ reads decoders cfg actions (start (Store.new m)))
    (hle : r.position ≤ r'.position) (hgen : new.generation = old.generation)
    (hfew : r'.state.counters.evicted_traces < 2 ^ 32) :
    let sent := wire_at decoders cfg actions (Store.new m) s r
    ∃ more lost, wire_at decoders cfg actions (Store.new m) s r' = sent ++ more ∧
      let spans := ((of_trace id sent).drop lost).map wire_sighting
      let added := (of_trace id more).map wire_sighting
      let rows := show_rows (interned (services_of sent)) spans
      let rows' := show_rows (interned (services_of (sent ++ more))) (spans ++ added)
      Encodes id rows (.ok old) ∧ Encodes id rows' (.ok new)
        ∧ ∀ (k : ℕ) row, rows[k]? = some row → ∃ row', rows'[k]? = some row' ∧ row'.Follows row
          ∧ ((∀ key, (shown_keys spans)[k]? = some key → key ∉ added.map Sighting.key) →
            row' = { row with parent_idx := row'.parent_idx, orphan := row'.orphan }) := by
  obtain ⟨es, fs, more, hes, hfs, hmore, hconverts, hconverts'⟩ := read_after h hr hr' hle
  have answered : ∀ {k : ℕ} {call : ApiCall} {q : Read Store} {text : String}
      {payload : TracePayload}, s.requests[k]? = some call → call.request = .get_trace text →
      call.state = .answered (.trace (.ok payload)) →
      (k, q) ∈ reads decoders cfg actions (start (Store.new m)) →
      q.state.get_trace text = some (.ok payload) := by
    intro k call q text payload hk hrequest hstate hq
    obtain ⟨call', hcall', hfrom⟩ := (served_of_run h).read k q hq
    obtain rfl := Option.some.inj (hcall'.symm.trans hk)
    rw [ApiCall.ReadFrom, hstate] at hfrom
    obtain ⟨order, hserve⟩ := hfrom
    rw [hrequest] at hserve
    obtain ⟨response, hget, hsame⟩ := answered_of_elim hserve
    rw [hget, ← ApiAnswer.trace.inj hsame]
  obtain ⟨lost, hlost, hencodes, hencodes'⟩ := Store.get_trace_grows hes hfs hfew hid hid'
    (answered hi hrequest hold hr) (answered hj hrequest' hnew hr') hgen
  refine ⟨more, lost, hmore, ?_, ?_, fun k row hrow => ?_⟩
  · rw [services_agree hconverts, sightings_agree hconverts, show_rows_rename bytes_injective]
    exact hencodes
  · have hspans := sightings_agree hconverts id lost
    have hall := sightings_agree hconverts' id lost
    have hlength := congrArg List.length (sightings_agree hconverts id 0)
    rw [List.drop_zero, List.drop_zero, List.length_map, List.length_map, List.length_map]
      at hlength
    have hadded : (of_trace id (wire_at decoders cfg actions (Store.new m) s r ++ more)).drop lost
        = (of_trace id (wire_at decoders cfg actions (Store.new m) s r)).drop lost
          ++ of_trace id more := by
      rw [of_trace, List.filter_append]
      exact List.drop_append_of_le_length (hlength ▸ hlost)
    rw [← List.map_append, ← hadded, services_agree hconverts', hall,
      show_rows_rename bytes_injective]
    have hsent : (Store.sent_to (es ++ fs) id).drop lost
        = (Store.sent_to es id).drop lost ++ Store.sent_to fs id := by
      rw [Store.sent_to_append]
      exact List.drop_append_of_le_length hlost
    rw [hsent]
    exact hencodes'
  · obtain ⟨row', hrow', hfollows, hkept⟩ := 
      show_rows_grow hrow ((of_trace id more).map wire_sighting)
    exact ⟨row', hrow', hfollows, hkept fun x hx name hname => interned_kept hx hname⟩

/-- A child is shown before its parent has come, and again when it has. -/
def child_shown_twice : List ServerAction :=
  [wire_message [{ Ingest.wire_span 16 with parent_span_id := List.replicate 8 4 }],
    wire_message [{ Ingest.wire_span 16 with span_id := List.replicate 8 4, name := "root" }],
    .ingest (.proceed (.convert 0)), .ingest (.proceed (.convert 1)),
    .ingest (.proceed (.send 0)), .ingest (.proceed .recv), .ingest (.proceed (.send 1)),
    .ingest (.proceed (.apply 7 TraceOrder.by_id)), .request (.get_trace (tid 1).to_hex),
    .request (.get_trace (tid 1).to_hex), .read 0 TraceOrder.by_id, .ingest (.proceed .bump),
    .ingest (.proceed .recv), .ingest (.proceed (.apply 8 TraceOrder.by_id)),
    .read 1 TraceOrder.by_id]

theorem child_shown_twice_run : (exec (step Exports.two_bodies Ingest.small_channel)
    child_shown_twice (start (Store.new 1000))).isSome := by
  decide +kernel

/-- Where it ends. -/
def child_shown_end : Server := Option.get _ child_shown_twice_run

/-- The payload that a call of `get_trace` was answered with. -/
def payload_of (s : Server) (i : ℕ) : Option TracePayload :=
  match s.answer_of i with
  | some (.trace (.ok payload)) => some payload
  | _ => none

theorem payload_of_eq_some {payload : TracePayload} (h : s.payload_of i = some payload) :
    ∃ call, s.requests[i]? = some call ∧ call.state = .answered (.trace (.ok payload)) := by
  rw [payload_of] at h
  split at h
  · rename_i hanswer
    rw [← Option.some.inj h]
    exact answer_of_eq_some hanswer
  · cases h

theorem rows_only_grow_child :
    ∃ old new, child_shown_end.payload_of 0 = some old ∧ child_shown_end.payload_of 1 = some new
      ∧ old.orphan = [true] ∧ new.orphan = [false, false]
      ∧ ∃ rows rows', Encodes (tid 1) rows (.ok old) ∧ Encodes (tid 1) rows' (.ok new)
        ∧ ∀ (k : ℕ) row, rows[k]? = some row → ∃ row', rows'[k]? = some row' ∧ row'.Follows row := by
  have hshown : (child_shown_end.payload_of 0).map (fun p => (p.orphan, p.generation))
        = some ([true], 0)
      ∧ (child_shown_end.payload_of 1).map (fun p => (p.orphan, p.generation))
        = some ([false, false], 0) := by
    decide +kernel
  obtain ⟨⟨old, hold, hfirst⟩, ⟨new, hnew, hsecond⟩⟩ :=
    hshown.imp Option.map_eq_some_iff.mp Option.map_eq_some_iff.mp
  obtain ⟨horphan, hgen⟩ := Prod.mk.inj hfirst
  obtain ⟨horphan', hgen'⟩ := Prod.mk.inj hsecond
  obtain ⟨call, hcall, hstate⟩ := payload_of_eq_some hold
  obtain ⟨call', hcall', hstate'⟩ := payload_of_eq_some hnew
  have hrequest : child_shown_end.requests[0]?.map (·.request)
      = some (.get_trace (tid 1).to_hex) := by decide +kernel
  have hrequest' : child_shown_end.requests[1]?.map (·.request)
      = some (.get_trace (tid 1).to_hex) := by decide +kernel
  rw [hcall, Option.map_some, Option.some.injEq] at hrequest
  rw [hcall', Option.map_some, Option.some.injEq] at hrequest'
  have hreads : (reads Exports.two_bodies Ingest.small_channel child_shown_twice
      (start (Store.new 1000))).map (fun p => (p.1, p.2.position, p.2.state.counters.evicted_traces))
        = [(0, 1, 0), (1, 2, 0)] := by decide +kernel
  have hread : ∀ p ∈ [(0, 1, 0), (1, 2, 0)], ∃ r, (p.1, r) ∈ reads Exports.two_bodies
      Ingest.small_channel child_shown_twice (start (Store.new 1000))
        ∧ r.position = p.2.1 ∧ r.state.counters.evicted_traces = p.2.2 := by
    intro p hp
    rw [← hreads] at hp
    obtain ⟨⟨i, r⟩, hr, rfl⟩ := List.mem_map.mp hp
    exact ⟨r, hr, rfl, rfl⟩
  obtain ⟨r, hr, hposition, -⟩ := hread (0, 1, 0) (by simp)
  obtain ⟨r', hr', hposition', hkept⟩ := hread (1, 2, 0) (by simp)
  obtain ⟨more, lost, -, hencodes, hencodes', hrows⟩ := rows_only_grow
    (Option.some_get child_shown_twice_run).symm hcall hrequest (TraceId.from_hex_to_hex _) hstate
    hcall' hrequest' (TraceId.from_hex_to_hex _) hstate' hr hr'
    (by rw [hposition, hposition']; decide) (by rw [hgen, hgen'])
    (by rw [hkept]; exact Nat.two_pow_pos 32)
  refine ⟨old, new, hold, hnew, horphan, horphan', _, _, hencodes, hencodes', fun k row hrow => ?_⟩
  obtain ⟨row', hrow', hfollows, -⟩ := hrows k row hrow
  exact ⟨row', hrow', hfollows⟩

end Server

end Spanfall
