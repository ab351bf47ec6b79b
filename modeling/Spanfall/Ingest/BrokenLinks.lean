/-
`BrokenLinks.lean` -- which broken parent links are visible.

A parent id travels as bytes of any length. The conversion takes eight bytes as
an id and anything else as no parent at all; the store links the ids it can and
flags the others. So a link that breaks in the store is flagged, and one that
breaks in the conversion is not: a span with an unusable parent id arrives as a
root ([`broken_links_visible_iff`]).
-/
import Mathlib.Data.List.Perm.Subperm
import Spanfall.Ingest.Wire
import Spanfall.Store.Parents

set_option autoImplicit false

namespace Spanfall

open Lib.LastWrite Lib.Runs Trace

/-- The spans that `convert` makes of the requests. -/
def converted (requests : List ExportTraceServiceRequest) : List (TraceId × NewSpan) :=
  requests.flatMap fun request =>
    match convert false request with
    | some (.ok batch) => batch.spans
    | _ => []

/-- The span ids are distinct within each trace. -/
def DistinctSpans (spans : List (TraceId × NewSpan)) : Prop :=
  (spans.map fun p => (p.1, p.2.span_id)).Nodup

instance (spans : List (TraceId × NewSpan)) : Decidable (DistinctSpans spans) :=
  inferInstanceAs (Decidable (List.Nodup _))

/-- What the link columns should say of span `i`, whose parent id on the wire is
`parent`: a parent that was named is linked or missed, and a root that is not
flagged named none. -/
def Trace.LinkVisible (t : Trace) (i : ℕ) (parent : List UInt8) : Prop :=
  (parent ≠ [] →
      (∃ j q, q.bytes.toList = parent ∧ t.span_id j = some q ∧ t.parent_idx i = some (some j))
        ∨ t.is_orphan i = some true)
    ∧ (t.parent_idx i = some none → t.is_orphan i = some false → parent = [])

/-- Every resident span's link is visible, against the wire span it came from. -/
def Store.LinksVisible (s : Store) (requests : List ExportTraceServiceRequest) : Prop :=
  ∀ w ∈ requests.flatMap wire_spans, ∀ trace_id t i span_id,
    trace_id.bytes.toList = w.2.trace_id → span_id.bytes.toList = w.2.span_id →
    s.trace trace_id = some t → t.span_id i = some span_id →
    t.LinkVisible i w.2.parent_span_id

/-- Whatever has been applied of the requests, in whatever order and with
whatever sweeps in between, the links are visible. -/
def BrokenLinksVisible (requests : List ExportTraceServiceRequest) : Prop :=
  ∀ m es s, (Store.sent es).Subperm (converted requests) →
    exec Store.step es (Store.new m) = some s → s.LinksVisible requests

/-- Every parent id is absent or usable, as far as its span is kept. -/
def ParentIdsUsable (requests : List ExportTraceServiceRequest) : Prop :=
  ∀ w ∈ requests.flatMap wire_spans, w.2.WellFormed →
    w.2.parent_span_id = [] ∨ w.2.parent_span_id.length = 8

variable {requests : List ExportTraceServiceRequest}

theorem converted_eq (requests : List ExportTraceServiceRequest) :
    converted requests = (requests.flatMap wire_spans).filterMap converted_span := by
  rw [converted, List.filterMap_flatMap]
  refine congrArg (requests.flatMap ·) (funext fun request => ?_)
  rw [convert_eq]
  by_cases hnil : wire_spans request = []
  · rw [if_pos hnil, hnil]
    rfl
  · rw [if_neg hnil]

theorem mem_converted {p : TraceId × NewSpan} :
    p ∈ converted requests ↔ ∃ w ∈ requests.flatMap wire_spans, converted_span w = some p := by
  rw [converted_eq, List.mem_filterMap]

/-- The parent id of a converted span is that of its wire span, if it is one. -/
theorem converted_parent {w : ResourceSpans × PbSpan} {p : TraceId × NewSpan}
    (h : converted_span w = some p) : p.2.parent_span_id = span_id_of w.2.parent_span_id := by
  rw [converted_span] at h
  obtain ⟨_, _, h⟩ := Option.bind_eq_some_iff.mp h
  obtain ⟨_, _, h⟩ := Option.bind_eq_some_iff.mp h
  obtain rfl := Option.some.inj h
  rfl

/-- With distinct ids a span that was sent is the conversion of every wire span
that has its ids. -/
theorem converted_unique (hdistinct : DistinctSpans (converted requests))
    {w : ResourceSpans × PbSpan} (hw : w ∈ requests.flatMap wire_spans) {p : TraceId × NewSpan}
    (hp : p ∈ converted requests) (htrace : p.1.bytes.toList = w.2.trace_id)
    (hspan : p.2.span_id.bytes.toList = w.2.span_id) : converted_span w = some p := by
  have hgood : w.2.WellFormed := by
    rw [PbSpan.WellFormed, ← htrace, ← hspan]
    simp
  obtain ⟨p', hp'⟩ := Option.isSome_iff_exists.mp ((converted_span_isSome w).mpr hgood)
  have hcarries := converted_span_carries hp'
  have hids : (p'.1, p'.2.span_id) = (p.1, p.2.span_id) := by
    have hid : p'.1 = p.1 := by
      have hbytes := Vector.toList_inj.mp (hcarries.trace_id.trans htrace.symm)
      exact congrArg TraceId.mk hbytes
    have hid' : p'.2.span_id = p.2.span_id := by
      have hbytes := Vector.toList_inj.mp (hcarries.span_id.trans hspan.symm)
      exact congrArg SpanId.mk hbytes
    rw [hid, hid']
  have hmem : p' ∈ converted requests := mem_converted.mpr ⟨w, hw, hp'⟩
  rw [hp', List.inj_on_of_nodup_map hdistinct hmem hp hids]

/-- What a link says when the parent id is usable, or absent. -/
theorem link_visible_of_usable {t : Trace} {i : ℕ} {parent : List UInt8}
    (hhang : t.HangsUnder i (span_id_of parent)) (husable : parent = [] ∨ parent.length = 8) :
    t.LinkVisible i parent := by
  rcases husable with rfl | hlen
  · exact ⟨fun hne => absurd rfl hne, fun _ _ => rfl⟩
  · obtain ⟨v, hv⟩ := Option.isSome_iff_exists.mp (try_from_isSome.mpr hlen)
    have hbytes := try_from_eq_some.mp hv
    have hq : span_id_of parent = some ⟨v⟩ := by
      rw [span_id_of, hv]
      rfl
    rw [hq] at hhang
    obtain ⟨hlinked, hmissed⟩ := hhang
    by_cases hres : ∃ j, t.span_id j = some ⟨v⟩
    · obtain ⟨j, hj⟩ := hres
      obtain ⟨hlink, _⟩ := hlinked j hj
      refine ⟨fun _ => Or.inl ⟨j, ⟨v⟩, hbytes, hj, hlink⟩, fun hroot => ?_⟩
      rw [hlink] at hroot
      cases hroot
    · obtain ⟨_, horphan⟩ := hmissed (not_exists.mp hres)
      refine ⟨fun _ => Or.inr horphan, fun _ hflag => ?_⟩
      rw [horphan] at hflag
      cases hflag

/-- An unusable parent id leaves the span a root without a flag. -/
theorem usable_of_link_visible {t : Trace} {i : ℕ} {parent : List UInt8}
    (hhang : t.HangsUnder i (span_id_of parent)) (hvisible : t.LinkVisible i parent) :
    parent = [] ∨ parent.length = 8 := by
  by_cases hlen : parent.length = 8
  · exact Or.inr hlen
  · have hnone : span_id_of parent = none := by
      rw [span_id_of, Option.map_eq_none_iff, ← Option.not_isSome_iff_eq_none, try_from_isSome]
      exact hlen
    rw [hnone] at hhang
    exact Or.inl (hvisible.2 hhang.1 hhang.2)

namespace Store

/-- One span sent to a fresh store. It is never refused, however large. -/
theorem single_insert (m : ℕ) (trace_id : TraceId) (span : NewSpan) :
    ∃ s t, exec step [.insert trace_id span 0] (new m) = some s ∧ s.trace trace_id = some t
      ∧ Links t [span] := by
  have hfresh : Links ((new m).entry trace_id 0).1 (firsts []) :=
    (Links.new trace_id 0).congr_fields rfl rfl rfl rfl rfl
  obtain ⟨t, I', hins⟩ := hfresh.insert_new
    (intern_service (new m).service_interner span.service_name).1 (new m).key_interner 0
    (show span.span_id ∉ [] from List.not_mem_nil)
  obtain ⟨s, out, hs⟩ := insert_isSome (Option.isSome_of_eq_some hins)
  obtain ⟨t', o, hins', htraces, _⟩ := insert_cases hs
  have hlinks := hfresh.insert hins'
  refine ⟨s, t', ?_, ?_, ?_⟩
  · rw [exec_cons, step, hs]
    rfl
  · rw [trace_insert htraces, if_pos rfl]
  · rw [firsts_snoc, if_neg (by simp)] at hlinks
    exact hlinks

end Store

/-- **Broken links are visible exactly when every parent id is absent or eight
bytes long.** -/
theorem broken_links_visible_iff (hdistinct : DistinctSpans (converted requests)) :
    BrokenLinksVisible requests ↔ ParentIdsUsable requests := by
  constructor
  · -- the span alone in its trace shows what became of its parent id
    intro hvisible w hw hgood
    obtain ⟨p, hp⟩ := Option.isSome_iff_exists.mp ((converted_span_isSome w).mpr hgood)
    have hcarries := converted_span_carries hp
    obtain ⟨s, t, hs, ht, hl⟩ := Store.single_insert 0 p.1 p.2
    have hhang := hl.hangs_under (i := 0) (r := p.2) rfl
    rw [converted_parent hp] at hhang
    have hid : t.span_id 0 = some p.2.span_id := by
      rw [Trace.span_id, hl.span_ids]
      rfl
    have hsent : (Store.sent [.insert p.1 p.2 0]).Subperm (converted requests) :=
      List.singleton_subperm_iff.mpr (mem_converted.mpr ⟨w, hw, hp⟩)
    exact usable_of_link_visible hhang
      (hvisible 0 _ s hsent hs w hw p.1 t 0 _ hcarries.trace_id hcarries.span_id ht hid)
  · intro husable m es s hsent hs w hw trace_id t i span_id htrace hspan ht hi
    obtain ⟨arrived, harrived, hl⟩ := Store.links_of_run hs trace_id t ht
    obtain ⟨r, hr, hid⟩ := hl.row_of_span_id hi
    have hmem : (trace_id, r) ∈ converted requests := by
      apply hsent.subset
      exact harrived r (mem_of_mem_firstWrites (List.mem_of_getElem? hr))
    have hw' := converted_unique hdistinct hw hmem htrace (by rw [hid]; exact hspan)
    have hhang := hl.hangs_under hr
    rw [converted_parent hw'] at hhang
    have hgood : w.2.WellFormed :=
      (converted_span_isSome w).mp (Option.isSome_of_eq_some hw')
    exact link_visible_of_usable hhang (husable w hw hgood)

/-- A request with one span, whose parent id is `parent`. -/
def request_of (parent : List UInt8) : ExportTraceServiceRequest :=
  { resource_spans := [{
      resource := none
      scope_spans := [{ spans := [{
        trace_id := List.replicate 16 1, span_id := List.replicate 8 2, parent_span_id := parent,
        name := "child", start_time_unix_nano := 100, end_time_unix_nano := 200,
        attributes := [], status := none }] }] }] }

theorem broken_links_visible_iff_usable :
    BrokenLinksVisible [request_of (List.replicate 8 1)]
      ↔ ParentIdsUsable [request_of (List.replicate 8 1)] :=
  broken_links_visible_iff (by decide +kernel)

/-- The span of the request as it arrives. -/
def child_of (parent : List UInt8) : NewSpan :=
  { Trace.span 2 none "child" with
    parent_span_id := span_id_of parent, unknown_service := true }

theorem short_parent_runs :
    (exec Store.step [.insert (tid 1) (child_of [7]) 0] (Store.new 0)).isSome := by
  decide +kernel

/-- A parent id of one byte: the span is a root, and not flagged. -/
theorem short_parent_invisible :
    ∃ s, Store.sent [.insert (tid 1) (child_of [7]) 0] = converted [request_of [7]]
      ∧ DistinctSpans (converted [request_of [7]])
      ∧ exec Store.step [.insert (tid 1) (child_of [7]) 0] (Store.new 0) = some s
      ∧ ¬s.LinksVisible [request_of [7]] := by
  refine ⟨Option.get _ short_parent_runs, by decide +kernel, by decide +kernel,
    (Option.some_get _).symm, fun hvisible => ?_⟩
  have ht := (Option.some_get (x := (Option.get _ short_parent_runs).trace (tid 1))
    (by decide +kernel)).symm
  have hlink := (hvisible _ (List.mem_singleton_self _) (tid 1) _ 0 (sid 2) (by decide +kernel)
    (by decide +kernel) ht (by decide +kernel)).2
  exact absurd (hlink (by decide +kernel) (by decide +kernel)) (by decide +kernel)

end Spanfall
