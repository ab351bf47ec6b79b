/-
`Demo.lean` -- `src/demo.rs`: the traces of `--demo`, and what becomes of them.

The spans are inserted one by one, stamped by a clock that counts them, and swept
once. So no two traces have one stamp, and what the seeding leaves does not depend
on the order in which the sweep walks the map ([`seed_leaves`]). The stamps are
also older than any reading of the real clock, so the demo makes way: as long as a
demo trace without new spans is left, nothing of what has arrived since has been
evicted ([`live_outlasts_demo`]).
-/
import Spanfall.Lib.Utf8
import Spanfall.Store.Bookkeeping
import Spanfall.Store.Retention

set_option autoImplicit false

namespace Spanfall

open Lib.HashMap Lib.Runs

namespace Demo

/-- The bytes of `*b"..."`. -/
def span_id (text : String) : SpanId :=
  ⟨Vector.ofFn fun i => (text.toList.map Lib.Utf8.byte_of).getD i 0⟩

/-- `span`. -/
def span (span_id : SpanId) (parent : Option SpanId) (name : String) (start finish : UInt64)
    (service : Option String) : NewSpan where
  span_id := span_id
  parent_span_id := parent
  name := name
  start_time_unix_nano := start
  end_time_unix_nano := finish
  status_message := ""
  status_code := 0
  unknown_service := service.isNone
  service_name := service
  attributes := []

/-- `checkout-flow-01` -/
def checkout : TraceId :=
  ⟨#v[99, 104, 101, 99, 107, 111, 117, 116, 45, 102, 108, 111, 119, 45, 48, 49]⟩

/-- `missing-svc-name` -/
def anon : TraceId :=
  ⟨#v[109, 105, 115, 115, 105, 110, 103, 45, 115, 118, 99, 45, 110, 97, 109, 101]⟩

/-- `broken-propagatn` -/
def broken : TraceId :=
  ⟨#v[98, 114, 111, 107, 101, 110, 45, 112, 114, 111, 112, 97, 103, 97, 116, 110]⟩

/-- `attribute-drift1` -/
def drift : TraceId :=
  ⟨#v[97, 116, 116, 114, 105, 98, 117, 116, 101, 45, 100, 114, 105, 102, 116, 49]⟩

/-- `slow-leaf-span01` -/
def slow : TraceId :=
  ⟨#v[115, 108, 111, 119, 45, 108, 101, 97, 102, 45, 115, 112, 97, 110, 48, 49]⟩

/-- `high-cardinality` -/
def search : TraceId :=
  ⟨#v[104, 105, 103, 104, 45, 99, 97, 114, 100, 105, 110, 97, 108, 105, 116, 121]⟩

/-- The id of a leaf of `search`: `srch` and the bytes of `i`, the highest first. -/
def leaf_id (i : UInt32) : SpanId :=
  ⟨#v[115, 114, 99, 104, (i >>> 24).toUInt8, (i >>> 16).toUInt8, (i >>> 8).toUInt8, i.toUInt8]⟩

def leaf (i : ℕ) : TraceId × NewSpan :=
  (search, span (leaf_id i.toUInt32) (some (span_id "searchrt")) ("query:" ++ toString i)
    1000000 2000000 (some "search"))

/-- What `seed` inserts, in its order. -/
def spans : List (TraceId × NewSpan) :=
  [(checkout, span (span_id "root-001") none "POST /checkout" 0 300000000 (some "checkout")),
    (checkout, span (span_id "charge01") (some (span_id "root-001")) "charge-card"
      10000000 180000000 (some "payments")),
    (checkout, span (span_id "reserve1") (some (span_id "root-001")) "reserve-inventory"
      10000000 90000000 (some "inventory")),
    (anon, span (span_id "anon0001") none "GET /health" 0 5000000 none),
    (broken, span (span_id "gateway1") none "gateway" 0 200000000 (some "gateway")),
    (broken, span (span_id "authchld") (some (span_id "neverprt")) "validate-token"
      5000000 40000000 (some "auth")),
    (drift, { span (span_id "drift001") none "GET /orders" 0 50000000 (some "orders") with
      attributes := [("http.status_code", .int 200)] }),
    (drift, { span (span_id "drift002") none "GET /invoice" 0 60000000 (some "billing") with
      attributes := [("http.status_code", .str "200")] }),
    (slow, span (span_id "slowroot") none "batch-export" 0 3000000000 (some "reporting")),
    (slow, span (span_id "slowleaf") (some (span_id "slowroot")) "render-pdf" 0 2000000000
      (some "reporting")),
    (search, span (span_id "searchrt") none "search-request" 0 500000000 (some "search"))]
  ++ (List.range 200).map leaf

/-- The demo traces, in the order of their last spans. -/
def traces : List TraceId := [checkout, anon, broken, drift, slow, search]

end Demo

namespace Store

/-- The closure `insert` of `seed`, called for one span after the other; `now` counts
the calls. -/
def insert_counted : List (TraceId × NewSpan) → UInt64 → Store → Option Store
  | [], _, self => some self
  | p :: rest, now, self => do
    let (self, _) ← self.insert_span_no_evict p.1 p.2 now
    insert_counted rest (now + 1) self

/-- `seed`, of any spans. -/
def seed_spans (self : Store) (spans : List (TraceId × NewSpan)) (order : TraceOrder) :
    Option Store := do
  let self ← insert_counted spans 0 self
  self.evict_over_budget order

/-- `seed`. -/
def seed (self : Store) (order : TraceOrder) : Option Store := self.seed_spans Demo.spans order

/-! ## The seeding as a run -/

/-- The calls of `insert`, as events. -/
def counted : List (TraceId × NewSpan) → UInt64 → List Event
  | [], _ => []
  | p :: rest, now => .insert p.1 p.2 now :: counted rest (now + 1)

def seed_events (spans : List (TraceId × NewSpan)) (order : TraceOrder) : List Event :=
  counted spans 0 ++ [.sweep order]

variable {s s' s₁ s₂ : Store} {order order' : TraceOrder} {spans : List (TraceId × NewSpan)}
  {l : List TraceId} {n : ℕ} {id : TraceId} {t : Trace}

theorem insert_counted_eq_exec (spans : List (TraceId × NewSpan)) (now : UInt64) (s : Store) :
    insert_counted spans now s = exec step (counted spans now) s := by
  induction spans generalizing now s with
  | nil => rfl
  | cons p rest ih =>
    rw [insert_counted, counted, exec_cons, step]
    cases s.insert_span_no_evict p.1 p.2 now with
    | none => rfl
    | some r => exact ih _ _

theorem seed_eq_exec (s : Store) (spans : List (TraceId × NewSpan)) (order : TraceOrder) :
    s.seed_spans spans order = exec step (seed_events spans order) s := by
  rw [seed_spans, insert_counted_eq_exec, seed_events, exec_snoc]
  rfl

/-! ## Traces lined up by their stamps -/

/-- The resident traces stand in a line, and each is stamped later than those
before it. -/
structure Lined (s : Store) (n : ℕ) (l : List TraceId) : Prop where
  resident : ∀ id, id ∈ l ↔ (s.trace id).isSome
  stamped : l.Pairwise fun a b => ∀ t u, s.trace a = some t → s.trace b = some u →
    t.last_activity_unix_nano.toNat < u.last_activity_unix_nano.toNat
  below : ∀ id t, s.trace id = some t → t.last_activity_unix_nano.toNat < n

/-- A trace that gets a span goes to the end of the line. -/
def to_end (l : List TraceId) (id : TraceId) : List TraceId :=
  l.filter (fun a => decide (a ≠ id)) ++ [id]

/-- The line after the seeding. -/
def line (spans : List (TraceId × NewSpan)) : List TraceId :=
  (spans.map Prod.fst).foldl to_end []

theorem new_lined (m n : ℕ) : (new m).Lined n [] where
  resident id := by simp [new_trace]
  stamped := List.Pairwise.nil
  below id t ht := by simp [new_trace] at ht

theorem Lined.insert {now : UInt64} {span : NewSpan} (h : s.Lined now.toNat l)
    (hs : s.step (.insert id span now) = some s') : s'.Lined (now.toNat + 1) (to_end l id) := by
  obtain ⟨t', htrace, hlast, -⟩ := step_insert hs
  have hold : ∀ a t, a ≠ id → s'.trace a = some t → s.trace a = some t := by
    intro a t ha ht
    rw [htrace, if_neg ha] at ht
    exact ht
  have hself : s'.trace id = some t' := by rw [htrace, if_pos rfl]
  refine ⟨fun a => ?_, List.pairwise_append.mpr ⟨?_, List.pairwise_singleton _ _, ?_⟩, ?_⟩
  · by_cases ha : a = id
    · simp [to_end, ha, hself]
    · simp [to_end, ha, htrace, h.resident a]
  · refine (h.stamped.sublist List.filter_sublist).imp_of_mem fun {a b} ha hb hab t u ht hu => ?_
    have hane : a ≠ id := of_decide_eq_true (List.mem_filter.mp ha).2
    have hbne : b ≠ id := of_decide_eq_true (List.mem_filter.mp hb).2
    exact hab t u (hold a t hane ht) (hold b u hbne hu)
  · intro a ha b hb t u ht hu
    have hane : a ≠ id := of_decide_eq_true (List.mem_filter.mp ha).2
    rw [List.mem_singleton.mp hb, hself, Option.some.injEq] at hu
    have hbelow := h.below a t (hold a t hane ht)
    rw [← hu, hlast]
    exact hbelow
  · intro a t ht
    by_cases ha : a = id
    · rw [ha, hself, Option.some.injEq] at ht
      rw [← ht, hlast]
      exact Nat.lt_succ_self _
    · exact Nat.lt_succ_of_lt (h.below a t (hold a t ha ht))

/-- **The spans that have been counted.** -/
theorem lined_of_counted {now : UInt64} (hs : exec step (counted spans now) s = some s')
    (h : s.Lined now.toNat l) (hsize : now.toNat + spans.length < 2 ^ 64) :
    s'.Lined (now.toNat + spans.length) ((spans.map Prod.fst).foldl to_end l) := by
  induction spans generalizing now s l with
  | nil =>
    obtain rfl := Option.some.inj hs
    exact h
  | cons p rest ih =>
    rw [List.length_cons] at hsize
    obtain ⟨s₁, hs₁, hrest⟩ := Option.bind_eq_some_iff.mp hs
    have hone : (1 : UInt64).toNat = 1 := rfl
    have hnow : (now + 1).toNat = now.toNat + 1 := by
      rw [UInt64.toNat_add, hone, Nat.mod_eq_of_lt (by omega)]
    have h₁ := h.insert hs₁
    rw [← hnow] at h₁
    have hlined := ih hrest h₁ (by omega)
    rw [hnow, Nat.add_right_comm] at hlined
    exact hlined

/-- The trace that a sweep picks is the head of the line. -/
theorem Lined.head (h : s.Lined n l) (hid : s.trace id = some t)
    (hold : ∀ id' t', s.trace id' = some t' →
      t.last_activity_unix_nano.toNat ≤ t'.last_activity_unix_nano.toNat) :
    ∃ rest, l = id :: rest ∧ (s.evict id).Lined n rest := by
  have hmem : id ∈ l := (h.resident id).mpr (Option.isSome_of_eq_some hid)
  cases l with
  | nil => cases hmem
  | cons a rest =>
    obtain ⟨hlater, hrest⟩ := List.pairwise_cons.mp h.stamped
    obtain rfl : id = a := by
      by_contra hne
      have hlater := hlater id ((List.mem_cons.mp hmem).resolve_left hne)
      obtain ⟨u, hu⟩ := Option.isSome_iff_exists.mp ((h.resident a).mp List.mem_cons_self)
      have hlt := hlater u t hu hid
      have hle := hold a u hu
      omega
    have hnot : id ∉ rest := fun hin => Nat.lt_irrefl _ (hlater id hin t t hid hid)
    have hkept := (Swept.evict hid).kept
    refine ⟨rest, rfl, fun a => ?_, ?_, fun a u hu => h.below a u (hkept a u hu)⟩
    · rw [trace_evict hid]
      by_cases ha : a = id
      · rw [if_pos ha, ha]
        exact iff_of_false hnot Bool.false_ne_true
      · rw [if_neg ha, ← h.resident a, List.mem_cons]
        exact (or_iff_right ha).symm
    · exact hrest.imp fun hab u v hu hv => hab u v (hkept _ u hu) (hkept _ v hv)

/-- What the trace of an id is charged. -/
def charged (s : Store) (id : TraceId) : ℕ := ((s.trace id).map charge).getD 0

/-- A trace that an eviction leaves is charged as before. -/
theorem charged_evict {a : TraceId} (ht : s.trace a = some t)
    (hin : ((s.evict a).trace id).isSome) : (s.evict a).charged id = s.charged id := by
  rw [trace_evict ht] at hin
  by_cases hid : id = a
  · rw [if_pos hid] at hin
    cases hin
  · rw [charged, charged, trace_evict ht, if_neg hid]

/-- The estimate of the whole store, along the line. -/
theorem Lined.total_eq (h : s.Lined n l) :
    total (fun _ t => charge t) s.traces = (l.map s.charged).sum := by
  induction l generalizing s with
  | nil =>
    have hempty : s.traces = ∅ := Finmap.ext_lookup fun id => by
      rw [Finmap.lookup_empty, ← Option.not_isSome_iff_eq_none]
      exact fun hsome => List.not_mem_nil ((h.resident id).mpr hsome)
    rw [hempty]
    rfl
  | cons a rest ih =>
    obtain ⟨t, ht⟩ := Option.isSome_iff_exists.mp ((h.resident a).mp List.mem_cons_self)
    obtain ⟨hlater, -⟩ := List.pairwise_cons.mp h.stamped
    obtain ⟨rest', hrest, hlined⟩ := h.head ht fun id u hu => by
      rcases List.mem_cons.mp ((h.resident id).mpr (Option.isSome_of_eq_some hu)) with rfl | hin
      · rw [Option.some.inj (ht.symm.trans hu)]
      · exact Nat.le_of_lt (hlater id hin t u ht hu)
    obtain rfl := (List.cons.inj hrest).2
    have hsum := ih hlined
    rw [List.map_congr_left fun id hin => charged_evict ht ((hlined.resident id).mp hin),
      evict_eq ht] at hsum
    rw [← total_erase (fun _ t => charge t) ht, hsum, List.map_cons, List.sum_cons, charged, ht]
    rfl

/-- A sweep takes the line from its head, no more of it than it must, and leaves one
trace at least. -/
theorem Sweep.lined (h : Sweep order s s') (hl : s.Lined n l) (hne : l ≠ []) :
    ∃ k < l.length, s'.Lined n (l.drop k)
      ∧ s'.counters.evicted_traces = s.counters.evicted_traces + k
      ∧ ∀ j < k, s.max_memory_bytes < ((l.drop j).map s.charged).sum := by
  induction h generalizing l with
  | done => exact ⟨0, List.length_pos_of_ne_nil hne, hl, rfl, fun j hj => absurd hj (Nat.not_lt_zero j)⟩
  | @turn s s' n id t htotal hover hcount hid hold hrest ih =>
    obtain ⟨rest, rfl, hlined⟩ := hl.head hid hold
    have hnonempty : rest ≠ [] := by
      -- two traces at least, so one is left
      have hone := evict_count hid
      obtain ⟨id', hid'⟩ : ∃ id', (s.evict id).oldest order = some id' := oldest_isSome (by omega)
      obtain ⟨t', ht', -⟩ := oldest_spec hid'
      exact List.ne_nil_of_mem ((hlined.resident id').mpr (Option.isSome_of_eq_some ht'))
    obtain ⟨k, hk, hdrop, hcounter, hneeded⟩ := ih hlined hnonempty
    refine ⟨k + 1, Nat.succ_lt_succ hk, hdrop, ?_, fun j hj => ?_⟩
    · rw [hcounter, evict_eq hid]
      exact Nat.add_right_comm _ _ _
    · cases j with
      | zero =>
        rw [(total_approx_bytes_eq_some.mp htotal).2, hl.total_eq] at hover
        exact hover
      | succ j =>
        have hbefore := hneeded j (Nat.lt_of_succ_lt_succ hj)
        rwa [List.map_congr_left fun id' hin => charged_evict hid
          ((hlined.resident id').mp (List.mem_of_mem_drop hin)), evict_eq hid] at hbefore

/-- **The walking order does not matter** to a sweep of traces with different
stamps. -/
theorem Sweep.unique (h : Sweep order s s₁) (h' : Sweep order' s s₂) (hl : s.Lined n l) :
    s₁ = s₂ := by
  have total_unique : ∀ {s : Store} {a b : ℕ}, s.total_approx_bytes order = some a →
      s.total_approx_bytes order' = some b → a = b := fun ha hb =>
    (total_approx_bytes_eq_some.mp ha).2.trans (total_approx_bytes_eq_some.mp hb).2.symm
  induction h generalizing l with
  | done htotal hfits =>
    cases h' with
    | done => rfl
    | turn htotal' hover' hcount' =>
      have hsame := total_unique htotal htotal'
      omega
  | turn htotal hover hcount hid hold hrest ih =>
    cases h' with
    | done htotal' hfits' =>
      have hsame := total_unique htotal htotal'
      omega
    | turn htotal' hover' hcount' hid' hold' hrest' =>
      obtain ⟨rest, rfl, hlined⟩ := hl.head hid hold
      obtain ⟨rest', hhead, -⟩ := hl.head hid' hold'
      obtain ⟨rfl, -⟩ := List.cons.inj hhead
      exact ih hrest' hlined

/-! ## What the seeding leaves -/

theorem ghost_counted {now : UInt64} (h : exec step (counted spans now) s = some s')
    (g : TraceId → List NewSpan) (id : TraceId) :
    ghost step arrive (counted spans now) s g id
      = g id ++ (spans.filter fun p => decide (p.1 = id)).map Prod.snd := by
  induction spans generalizing now s g with
  | nil => exact (List.append_nil _).symm
  | cons p spans ih =>
    obtain ⟨s₁, h₁, h⟩ := Option.bind_eq_some_iff.mp h
    rw [counted, ghost, h₁]
    dsimp only
    rw [ih h, arrive, List.filter_cons]
    dsimp only
    by_cases hp : p.1 = id
    · rw [if_pos hp.symm, if_pos (by simpa using hp), List.map_cons, List.append_assoc]
      rfl
    · rw [if_neg (Ne.symm hp), if_neg (by simpa using hp)]

/-- Only a sweep evicts. -/
theorem evicted_of_counted {now : UInt64} (h : exec step (counted spans now) s = some s') :
    s'.counters.evicted_traces = s.counters.evicted_traces := by
  induction spans generalizing now s with
  | nil => rw [Option.some.inj h]
  | cons p spans ih =>
    obtain ⟨s₁, h₁, h⟩ := Option.bind_eq_some_iff.mp h
    obtain ⟨⟨u, out⟩, hins, rfl⟩ := Option.map_eq_some_iff.mp h₁
    obtain ⟨_, _, _, _, _, _, _, hcounters, _⟩ := insert_cases hins
    rw [ih h, hcounters]

/-- A seeding is its inserts and a sweep. -/
theorem seed_cases {m : ℕ} (h : (new m).seed_spans spans order = some s') :
    ∃ s, exec step (counted spans 0) (new m) = some s ∧ Sweep order s s' := by
  rw [seed_eq_exec, seed_events] at h
  obtain ⟨s, hs, hsweep⟩ := exec_snoc_some h
  exact ⟨s, hs, sweep_of_evict hsweep⟩

/-- What the seeding leaves of a trace is all of it. -/
theorem arrivals_seeded {m : ℕ} (h : (new m).seed_spans spans order = some s)
    (hin : (s.trace id).isSome) : arrivals (seed_events spans order) (new m) id
      = (spans.filter fun p => decide (p.1 = id)).map Prod.snd := by
  rw [seed_eq_exec, seed_events] at h
  obtain ⟨s₁, hs₁, hsweep⟩ := exec_snoc_some h
  rw [arrivals, seed_events, ghost_snoc hs₁ hsweep, arrive]
  dsimp only
  rw [if_pos hin, ghost_counted hs₁, List.nil_append]

/-- A trace that is at the end of the line stays there. -/
theorem to_end_replicate (l : List TraceId) (id : TraceId) (n : ℕ) :
    (List.replicate (n + 1) id).foldl to_end l = to_end l id := by
  induction n with
  | zero => rfl
  | succ n ih =>
    rw [List.replicate_succ', List.foldl_append, ih]
    simp [to_end]

theorem line_demo : line Demo.spans = Demo.traces := by
  have hleaves : ((List.range 200).map Demo.leaf).map Prod.fst
      = List.replicate 200 Demo.search := by
    simp [Demo.leaf, Function.comp_def]
  have hfront : to_end [Demo.checkout, Demo.anon, Demo.broken, Demo.drift, Demo.slow, Demo.search]
      Demo.search = Demo.traces := by decide +kernel
  rw [line, Demo.spans, List.map_append, hleaves, List.foldl_append, to_end_replicate, ← hfront]
  refine congrArg (to_end · Demo.search) ?_
  decide +kernel

theorem keys_shown_counted (spans : List (TraceId × NewSpan)) (now : UInt64) :
    keys_shown (counted spans now) = spans.flatMap fun p => p.2.attributes.map Prod.fst := by
  induction spans generalizing now with
  | nil => rfl
  | cons p spans ih =>
    rw [counted, List.flatMap_cons, ← ih (now + 1)]
    rfl

theorem attrs_sent_demo (order : TraceOrder) : attrs_sent (seed_events Demo.spans order) = 2 := by
  have hleaves : (((List.range 200).map Demo.leaf).flatMap fun p => p.2.attributes.map Prod.fst)
      = [] := by
    simp [List.flatMap_map, Demo.leaf, Demo.span]
  rw [attrs_sent, seed_events, keys_shown_snoc, Event.keys, List.append_nil, keys_shown_counted,
    Demo.spans, List.flatMap_append, hleaves]
  rfl

theorem length_demo : Demo.spans.length = 211 := by
  rw [Demo.spans, List.length_append, List.length_map, List.length_range]
  rfl

/-- **What `--demo` starts with.** The seeding ends, in whatever order its sweep walks
the map, and always in the same store. The sweep has taken the `k` demo traces whose
last spans are the oldest, and no more of them than it had to: what is left fits or is
one trace, and before each of the evictions it did not fit. A trace that is left has all
its spans. -/
theorem seed_leaves (m : ℕ) :
    ∃ s filled, ∃ k < Demo.traces.length, (∀ order, (new m).seed order = some s)
      ∧ (∀ id, (s.trace id).isSome ↔ id ∈ Demo.traces.drop k)
      ∧ s.counters.evicted_traces = k
      ∧ (∀ order, ∃ n, s.total_approx_bytes order = some n ∧ (n ≤ m ∨ s.trace_count ≤ 1))
      ∧ insert_counted Demo.spans 0 (new m) = some filled
      ∧ (∀ j < k, m < ((Demo.traces.drop j).map filled.charged).sum)
      ∧ ∀ id ∈ Demo.traces.drop k, ∀ order, arrivals (seed_events Demo.spans order) (new m) id
          = (Demo.spans.filter fun p => decide (p.1 = id)).map Prod.snd := by
  have hends : ∀ order, ∃ s, (new m).seed order = some s := fun order => by
    obtain ⟨s, hs, -⟩ := run_holds m (seed_events Demo.spans order)
      (AttrsBelow.of_sent (by rw [attrs_sent_demo]; decide))
    exact ⟨s, by rw [seed, seed_eq_exec]; exact hs⟩
  obtain ⟨s, hs⟩ := hends .by_id
  obtain ⟨u, hu, hsweep⟩ := seed_cases hs
  have hlined := lined_of_counted hu (new_lined m _) (by rw [length_demo]; decide)
  have hline : (Demo.spans.map Prod.fst).foldl to_end [] = Demo.traces := line_demo
  rw [hline] at hlined
  obtain ⟨k, hk, hdrop, hcounter, hneeded⟩ := hsweep.lined hlined (List.cons_ne_nil _ _)
  have hsame : ∀ order, (new m).seed order = some s := fun order => by
    obtain ⟨s', hs'⟩ := hends order
    obtain ⟨u', hu', hsweep'⟩ := seed_cases hs'
    obtain rfl := Option.some.inj (hu.symm.trans hu')
    rw [hs', hsweep.unique hsweep' hlined]
  have hbudget : s.max_memory_bytes = m := budget_of_run (by rw [← seed_eq_exec]; exact hs)
  refine ⟨s, u, k, hk, hsame, fun id => (hdrop.resident id).symm, ?_, fun order => ?_, ?_,
    fun j hj => ?_, fun id hid order => ?_⟩
  · rw [hcounter, evicted_of_counted hu]
    exact Nat.zero_add k
  · obtain ⟨u', hu', hsweep'⟩ := seed_cases (hsame order)
    obtain ⟨n, hn, hfits⟩ := hsweep'.fits
    exact ⟨n, hn, hbudget ▸ hfits⟩
  · rw [insert_counted_eq_exec]
    exact hu
  · have hover := hneeded j hj
    rwa [budget_of_run hu] at hover
  · exact arrivals_seeded (hsame order) ((hdrop.resident id).mp hid)

/-! ## The demo makes way -/

/-- What has happened to a seeded store. -/
def turn_events (ws : List WriterTurn) : List Event :=
  ws.flatMap fun w => w.batch.events w.now_unix_nano w.order

theorem spans_of_eq_nil {batch : SpanBatch} (h : ¬batch.Receives id) : batch.spans_of id = [] := by
  rw [SpanBatch.spans_of, List.map_eq_nil_iff, List.filter_eq_nil_iff]
  intro p hp hpid
  exact h ⟨p, hp, of_decide_eq_true hpid⟩

/-- What a turn has no span for is as it was, if it is left. -/
theorem kept_of_quiet {w : WriterTurn} (hw : s.write w = some s') (hquiet : ¬w.batch.Receives id)
    (ht : s'.trace id = some t) : s.trace id = some t := by
  obtain ⟨u, hu, hsweep⟩ := apply_batch_cases hw
  have hut : u.trace id = some t := hsweep.swept.kept id t ht
  rw [← (inserts_trace hu id).1 fun p hp hpid => hquiet ⟨p, hp, hpid⟩]
  exact hut

/-- **One turn.** A trace that is stamped at `now` or later outlives one that is
stamped before it. -/
theorem live_of_write {w : WriterTurn} (hw : s.write w = some s') {now : UInt64}
    (hclock : now.toNat ≤ w.now_unix_nano.toNat) {left : TraceId} (hleft : s'.trace left = some t)
    (hold : t.last_activity_unix_nano.toNat < now.toNat)
    (hlive : w.batch.Receives id
      ∨ ∃ u, s.trace id = some u ∧ now.toNat ≤ u.last_activity_unix_nano.toNat) :
    ∃ u, s'.trace id = some u ∧ now.toNat ≤ u.last_activity_unix_nano.toNat := by
  obtain ⟨s₁, hs₁, hsweep⟩ := apply_batch_cases hw
  have hlive₁ : ∃ u, s₁.trace id = some u ∧ now.toNat ≤ u.last_activity_unix_nano.toNat := by
    by_cases hid : w.batch.Receives id
    · obtain ⟨u, hu, hlast⟩ := (inserts_trace hs₁ id).2.1 hid
      exact ⟨u, hu, by rw [hlast]; exact hclock⟩
    · obtain ⟨u, hu, hrecent⟩ := hlive.resolve_left hid
      have hsame := (inserts_trace hs₁ id).1 fun p hp hpid => hid ⟨p, hp, hpid⟩
      exact ⟨u, hsame.trans hu, hrecent⟩
  obtain ⟨u, hu, hrecent⟩ := hlive₁
  have hleft₁ : s₁.trace left = some t := hsweep.swept.kept left t hleft
  cases hgone : s'.trace id with
  | none =>
    -- then the older trace would have gone before it
    have hnone := hsweep.older_first hu hrecent hgone hleft₁ hold
    rw [hleft] at hnone
    cases hnone
  | some u' =>
    have hu' : s₁.trace id = some u' := hsweep.swept.kept id u' hgone
    obtain rfl := Option.some.inj (hu.symm.trans hu')
    exact ⟨u, rfl, hrecent⟩

/-- Where a store stands after its seeding with `n` spans and the turns `ws`: if `left` is
resident, and no batch has had a span for it, then it is stamped before `n`, and what
the batches have brought for `id` is there. -/
structure VouchedFor (m n : ℕ) (seeding : List Event) (left id : TraceId) (ws : List WriterTurn)
    (s : Store) : Prop where
  run : exec step (seeding ++ turn_events ws) (new m) = some s
  old : (∀ w ∈ ws, ¬w.batch.Receives left) →
    ∀ t, s.trace left = some t → t.last_activity_unix_nano.toNat < n
  live : (∀ w ∈ ws, ¬w.batch.Receives left) → (s.trace left).isSome →
    (∃ w ∈ ws, w.batch.Receives id) →
      ∃ u, s.trace id = some u ∧ n ≤ u.last_activity_unix_nano.toNat
  whole : (∀ w ∈ ws, ¬w.batch.Receives left) → (s.trace left).isSome →
    (ws.flatMap fun w => w.batch.spans_of id)
      <:+ arrivals (seeding ++ turn_events ws) (new m) id

theorem vouched_for_seeded {m : ℕ} (hsize : spans.length < 2 ^ 64)
    (hseed : (new m).seed_spans spans order = some s) (left id : TraceId) :
    VouchedFor m spans.length (seed_events spans order) left id [] s where
  run := by
    rw [turn_events, List.flatMap_nil, List.append_nil, ← seed_eq_exec]
    exact hseed
  old _ t ht := by
    obtain ⟨u, hu, hsweep⟩ := seed_cases hseed
    have hlined := lined_of_counted hu (new_lined m _) (by simpa using hsize)
    have hbelow := hlined.below left t (hsweep.swept.kept left t ht)
    simpa using hbelow
  live _ _ h := by
    obtain ⟨w, hw, -⟩ := h
    cases hw
  whole _ _ := List.nil_suffix

/-- **One turn more.** -/
theorem VouchedFor.write {m : ℕ} {now : UInt64} {seeding : List Event} {left : TraceId}
    {ws : List WriterTurn} (h : VouchedFor m now.toNat seeding left id ws s) {w : WriterTurn}
    (hw : s.write w = some s') (hclock : now.toNat ≤ w.now_unix_nano.toNat) :
    VouchedFor m now.toNat seeding left id (ws ++ [w]) s' := by
  have hevents : turn_events (ws ++ [w])
      = turn_events ws ++ w.batch.events w.now_unix_nano w.order := by
    simp [turn_events]
  have hlast : w ∈ ws ++ [w] := List.mem_append_right _ (List.mem_singleton_self w)
  have hquiet : (∀ v ∈ ws ++ [w], ¬v.batch.Receives left) →
      ∀ v ∈ ws, ¬v.batch.Receives left := fun hq v hv => hq v (List.mem_append_left _ hv)
  have hkept : (∀ v ∈ ws ++ [w], ¬v.batch.Receives left) → ∀ t, s'.trace left = some t →
      s.trace left = some t := fun hq t ht => kept_of_quiet hw (hq w hlast) ht
  have hlive : (∀ v ∈ ws ++ [w], ¬v.batch.Receives left) → (s'.trace left).isSome →
      (∃ v ∈ ws ++ [w], v.batch.Receives id) →
        ∃ u, s'.trace id = some u ∧ now.toNat ≤ u.last_activity_unix_nano.toNat := by
    rintro hq hleft ⟨v, hv, hvid⟩
    obtain ⟨t, ht⟩ := Option.isSome_iff_exists.mp hleft
    have hbefore := hkept hq t ht
    refine live_of_write hw hclock ht (h.old (hquiet hq) t hbefore) ?_
    rcases List.mem_append.mp hv with hv | hv
    · exact Or.inr (h.live (hquiet hq) (Option.isSome_of_eq_some hbefore) ⟨v, hv, hvid⟩)
    · rw [List.mem_singleton.mp hv] at hvid
      exact Or.inl hvid
  refine ⟨?_, fun hq t ht => h.old (hquiet hq) t (hkept hq t ht), hlive, fun hq hleft => ?_⟩
  · rw [hevents, ← List.append_assoc]
    exact exec_batch h.run hw
  cases hin : s'.trace id with
  | none =>
    -- no batch has had a span for it
    have hnil : ((ws ++ [w]).flatMap fun w => w.batch.spans_of id) = [] := by
      refine List.flatMap_eq_nil_iff.mpr fun v hv => spans_of_eq_nil fun hvid => ?_
      obtain ⟨u, hu, -⟩ := hlive hq hleft ⟨v, hv, hvid⟩
      rw [hin] at hu
      cases hu
    rw [hnil]
    exact List.nil_suffix
  | some u =>
    obtain ⟨t, ht⟩ := Option.isSome_iff_exists.mp hleft
    obtain ⟨earlier, hearlier⟩ :=
      h.whole (hquiet hq) (Option.isSome_of_eq_some (hkept hq t ht))
    rw [hevents, ← List.append_assoc, arrivals_batch h.run hw (Option.isSome_of_eq_some hin),
      ← hearlier, List.flatMap_append, List.flatMap_singleton, List.append_assoc]
    exact List.suffix_append _ _

/-- **Live traces outlast the demo.** A store is seeded as `seed` does it, with any
spans, and batches follow whose clock readings are not among the counted stamps. As
long as some trace is left for which no batch has had a span, every trace for which
one had is resident, and what the batches have brought for it since the seeding is
there to the last span. -/
theorem live_outlasts_demo {m : ℕ} {s₀ : Store} (hsize : spans.length < 2 ^ 64)
    (hseed : (new m).seed_spans spans order = some s₀) {ws : List WriterTurn}
    (h : exec write ws s₀ = some s) (hclock : ∀ w ∈ ws, spans.length ≤ w.now_unix_nano.toNat)
    {left : TraceId} (hleft : (s.trace left).isSome)
    (hquiet : ∀ w ∈ ws, ¬w.batch.Receives left) (id : TraceId) :
    ((∃ w ∈ ws, w.batch.Receives id) → (s.trace id).isSome)
      ∧ (ws.flatMap fun w => w.batch.spans_of id)
        <:+ arrivals (seed_events spans order ++ turn_events ws) (new m) id := by
  have hnow : (UInt64.ofNat spans.length).toNat = spans.length := UInt64.toNat_ofNat_of_lt' hsize
  have hvouched : (∀ w ∈ ws, spans.length ≤ w.now_unix_nano.toNat) →
      VouchedFor m spans.length (seed_events spans order) left id ws s := by
    refine exec_induction (P := fun ws s => (∀ w ∈ ws, spans.length ≤ w.now_unix_nano.toNat) →
      VouchedFor m spans.length (seed_events spans order) left id ws s)
      (fun _ => vouched_for_seeded hsize hseed left id) (fun ws s w s' _ ih hw hclock => ?_) h
    have hlast := hclock w (List.mem_append_right _ (List.mem_singleton_self w))
    have hbefore := ih fun v hv => hclock v (List.mem_append_left _ hv)
    rw [← hnow] at hlast hbefore ⊢
    exact hbefore.write hw hlast
  have hends := hvouched hclock
  refine ⟨fun hid => ?_, hends.whole hquiet hleft⟩
  obtain ⟨u, hu, -⟩ := hends.live hquiet hleft hid
  exact Option.isSome_of_eq_some hu

/-- A seeded trace and room for two. -/
def one_seeded : List (TraceId × NewSpan) := [(tid 1, Trace.span 1 none "a")]

theorem one_seeded_ends : ((new 140).seed_spans one_seeded .by_id).isSome := by decide +kernel

theorem one_seeded_goes_on :
    (exec write [busy_turn 5, busy_turn 6] (Option.get _ one_seeded_ends)).isSome := by
  decide +kernel

theorem live_outlasts_demo_busy :
    ∃ s₀ s, (new 140).seed_spans one_seeded .by_id = some s₀
      ∧ exec write [busy_turn 5, busy_turn 6] s₀ = some s ∧ (s.trace (tid 2)).isSome
      ∧ [Trace.span 2 none "b", Trace.span 2 none "b"] <:+ arrivals
          (seed_events one_seeded .by_id ++ turn_events [busy_turn 5, busy_turn 6]) (new 140)
          (tid 2) := by
  have hseed := (Option.some_get one_seeded_ends).symm
  have hrun := (Option.some_get one_seeded_goes_on).symm
  have hleft : ((Option.get _ one_seeded_goes_on).trace (tid 1)).isSome := by decide +kernel
  obtain ⟨hlive, hwhole⟩ := live_outlasts_demo (by decide) hseed hrun (by decide) hleft
    (by simp [busy_turn, single_span, SpanBatch.Receives, SpanBatch.of_span, tid]) (tid 2)
  exact ⟨_, _, hseed, hrun, hlive ⟨busy_turn 5, List.mem_cons_self, _, List.mem_cons_self, rfl⟩,
    hwhole⟩

end Store

end Spanfall
