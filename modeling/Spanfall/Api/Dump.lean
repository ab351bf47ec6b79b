/-
`Dump.lean` -- `fetch_dump` against a server that is being written to.

The client lists the traces and then fetches them one by one, and no lock is
held in between: batches and sweeps fall wherever they like. A listed trace
that has been evicted when its turn comes is answered with a `404`, and that
ends the whole dump. So the dump succeeds exactly when every trace that it asks
for is there ([`dump_survives_iff`]), and then its document holds them all.
-/
import Spanfall.Api.Client
import Spanfall.Api.Discipline
import Spanfall.Api.Events

set_option autoImplicit false

namespace Spanfall

open Lib Lib.Requests Lib.Runs Lib.Vec Store

/-- A dump on its way, beside the server with its writer. -/
abbrev Dump : Type := Session Feed Route (Response Json) (Except String Json)

namespace Dump

/-- A request is answered from the store while no batch is being written. The
walking order and the receiver's state are whatever they are by then. -/
def answer (feed : Feed) (n : TraceOrder × ReceiverState) (route : Route) :
    Option (Response Json) :=
  if feed.writer.locked then none else feed.store.respond n.1 n.2 route

def step : Dump → SessionEvent FeedEvent (TraceOrder × ReceiverState) → Option Dump :=
  Session.step Feed.step answer

/-- `fetch_dump` is called. -/
def start (store : Store) : Dump := Session.start (Feed.start store) fetch_dump.run

/-! ## What is left of the program -/

/-- `fetch_dump` from the `for` on. -/
def fetching (rows full_traces : List Json) : Client Json := do
  let full_traces ← fetch_traces rows full_traces
  let receiver ← get_json .receiver
  return document full_traces receiver

/-- `fetch_dump` with the answer to its first request. -/
def listed (body : Json) : Client Json :=
  match body.as_array with
  | none => throw unexpected_shape
  | some rows => fetching rows []

theorem fetch_dump_run :
    fetch_dump.run = .ask .traces fun response =>
      resume listed (read_json Route.traces.path response) := by
  have hlisted : fetch_dump = get_json .traces >>= listed := by
    rw [fetch_dump, traces, bind_assoc]
    refine congrArg _ (funext fun body => ?_)
    rw [listed]
    cases body.as_array with
    | none => rfl
    | some rows => rfl
  rw [hlisted, get_json, run_attempt_bind]

theorem fetching_nil (full_traces : List Json) :
    (fetching [] full_traces).run = .ask .receiver fun response =>
      resume (fun receiver => pure (document full_traces receiver))
        (read_json Route.receiver.path response) := by
  rw [fetching, fetch_traces, pure_bind, get_json, run_attempt_bind]

theorem fetching_cons {row : Json} {trace_id : String}
    (h : (row.get "trace_id").as_str = some trace_id) (rows full_traces : List Json) :
    (fetching (row :: rows) full_traces).run = .ask (.trace trace_id) fun response =>
      resume (fun trace => fetching rows (full_traces ++ [trace]))
        (read_json (Route.trace trace_id).path response) := by
  rw [fetching, fetch_traces]
  simp only [h]
  rw [bind_assoc, get_json, run_attempt_bind]
  rfl

/-- What `fetching` asks next: the rows name the ids that are left. -/
theorem fetching_cases {rows : List Json} {ids : List TraceId}
    (hrows : rows.map (fun row => (row.get "trace_id").as_str) = ids.map fun id => some id.to_hex)
    (full_traces : List Json) :
    (ids = [] ∧ (fetching rows full_traces).run = .ask .receiver fun response =>
        resume (fun receiver => pure (document full_traces receiver))
          (read_json Route.receiver.path response))
      ∨ ∃ id ids' rows', ids = id :: ids'
          ∧ rows'.map (fun row => (row.get "trace_id").as_str) = ids'.map (fun id => some id.to_hex)
          ∧ (fetching rows full_traces).run = .ask (.trace id.to_hex) fun response =>
              resume (fun trace => fetching rows' (full_traces ++ [trace]))
                (read_json (Route.trace id.to_hex).path response) := by
  cases rows with
  | nil =>
    left
    have hids : ids = [] := List.map_eq_nil_iff.mp hrows.symm
    exact ⟨hids, fetching_nil full_traces⟩
  | cons row rows =>
    right
    cases ids with
    | nil => cases hrows
    | cons id ids =>
      obtain ⟨hid, hrest⟩ := List.cons.inj hrows
      exact ⟨id, ids, rows, rfl, hrest, fetching_cons hid rows full_traces⟩

/-! ## What the requests have shown -/

/-- A trace that has been fetched, and when. -/
structure Fetched where
  id : TraceId
  feed : Feed
  payload : TracePayload

namespace Fetched

def request (self : Fetched) : Route × Feed := (.trace self.id.to_hex, self.feed)

def to_json (self : Fetched) : Json := self.payload.to_json

/-- It was resident, and this is its payload. -/
def Valid (self : Fetched) : Prop :=
  ∃ t, self.feed.store.trace self.id = some t
    ∧ self.feed.store.trace_payload t = some self.payload

end Fetched

/-- The dump has listed the traces, has fetched some of them, and `ids` are
those that are left. -/
structure Shown (asked : List (Route × Feed)) (listing : Feed) (done : List Fetched)
    (ids : List TraceId) : Prop where
  asked : asked = (.traces, listing) :: done.map Fetched.request
  listed : ∃ order : TraceOrder,
    (order.iter listing.store.traces).map Sigma.fst = done.map (·.id) ++ ids
  valid : ∀ d ∈ done, d.Valid

/-- The error of a trace that is not there. -/
def missing_text (id : TraceId) : String :=
  (Route.trace id.to_hex).path ++ " returned `" ++ "HTTP/1.1 404 Not Found" ++ "`"

/-- Where a dump can be. -/
inductive Stage (program : Prog Route (Response Json) (Except String Json))
    (asked : List (Route × Feed)) : Prop
  | listing (hprogram : program = fetch_dump.run) (hasked : asked = [])
  | fetching {listing : Feed} {done : List Fetched} {ids : List TraceId} {rows : List Json}
      (hprogram : program = (fetching rows (done.map Fetched.to_json)).run)
      (hrows : rows.map (fun row => (row.get "trace_id").as_str)
        = ids.map fun id => some id.to_hex)
      (hshown : Shown asked listing done ids)
  | missing {listing feed : Feed} {done : List Fetched} {id : TraceId} {ids : List TraceId}
      {earlier : List (Route × Feed)} (hprogram : program = .ret (.error (missing_text id)))
      (habsent : feed.store.trace id = none) (hshown : Shown earlier listing done (id :: ids))
      (hasked : asked = earlier ++ [(.trace id.to_hex, feed)])
  | complete {listing feed : Feed} {done : List Fetched} {receiver : Json}
      {earlier : List (Route × Feed)}
      (hprogram : program = .ret (.ok (document (done.map Fetched.to_json) receiver)))
      (hshown : Shown earlier listing done []) (hasked : asked = earlier ++ [(.receiver, feed)])

/-- An answered request was answered from the store. -/
theorem answer_eq_some {feed : Feed} {n : TraceOrder × ReceiverState} {route : Route}
    {response : Response Json} (h : answer feed n route = some response) :
    feed.writer.locked = false ∧ feed.store.respond n.1 n.2 route = some response := by
  rw [answer] at h
  cases hlock : feed.writer.locked with
  | true =>
    rw [hlock, if_pos rfl] at h
    cases h
  | false =>
    rw [hlock, if_neg Bool.false_ne_true] at h
    exact ⟨rfl, h⟩

/-- `get_trace` of an id that it has printed. -/
theorem respond_trace {store : Store} {n : TraceOrder × ReceiverState} {id : TraceId}
    {response : Response Json}
    (h : store.respond n.1 n.2 (.trace id.to_hex) = some response) :
    (store.trace id = none ∧ response = .not_found)
      ∨ ∃ t payload, store.trace id = some t ∧ store.trace_payload t = some payload
          ∧ response = .ok payload.to_json := by
  obtain ⟨answered, hanswered, rfl⟩ := Option.map_eq_some_iff.mp h
  rw [get_trace, TraceId.from_hex_to_hex] at hanswered
  dsimp only at hanswered
  cases ht : store.trace id with
  | none =>
    rw [ht] at hanswered
    exact Or.inl ⟨rfl, congrArg _ (Option.some.inj hanswered).symm⟩
  | some t =>
    rw [ht] at hanswered
    obtain ⟨payload, hpayload, rfl⟩ := Option.map_eq_some_iff.mp hanswered
    exact Or.inr ⟨t, payload, rfl, hpayload, rfl⟩

/-- One trace more. -/
theorem Shown.fetch {asked : List (Route × Feed)} {listing : Feed} {done : List Fetched}
    {id : TraceId} {ids : List TraceId} (h : Shown asked listing done (id :: ids)) {d : Fetched}
    (hid : d.id = id) (hd : d.Valid) :
    Shown (asked ++ [(.trace id.to_hex, d.feed)]) listing (done ++ [d]) ids := by
  refine ⟨?_, ?_, ?_⟩
  · rw [h.asked, List.map_append, List.map_singleton, Fetched.request, hid]
    rfl
  · obtain ⟨order, hlisted⟩ := h.listed
    refine ⟨order, ?_⟩
    rw [hlisted, List.map_append, List.map_singleton, hid, List.append_assoc]
    rfl
  · intro d' hd'
    rcases List.mem_append.mp hd' with hd' | hd'
    · exact h.valid d' hd'
    · rw [List.mem_singleton.mp hd']
      exact hd

/-- **One answer more.** The cases are those of the program: the listing, the
receiver behind the last trace, and the next trace, which is there or is
not. -/
theorem Stage.answered {route : Route}
    {k : Response Json → Prog Route (Response Json) (Except String Json)}
    {asked : List (Route × Feed)} {feed : Feed} {n : TraceOrder × ReceiverState}
    {response : Response Json} (h : Stage (.ask route k) asked)
    (hresponse : answer feed n route = some response) :
    Stage (k response) (asked ++ [(route, feed)]) := by
  obtain ⟨_, hresponse⟩ := answer_eq_some hresponse
  cases h with
  | listing hprogram hasked =>
    rw [fetch_dump_run] at hprogram
    obtain ⟨rfl, rfl⟩ := Prog.ask.inj hprogram
    obtain ⟨rows, hrows, rfl⟩ := Option.map_eq_some_iff.mp hresponse
    have hshown : Shown (asked ++ [(.traces, feed)]) feed []
        ((n.1.iter feed.store.traces).map Sigma.fst) :=
      ⟨by rw [hasked]; rfl, ⟨n.1, rfl⟩, fun d hd => absurd hd List.not_mem_nil⟩
    have hids : (rows.map TraceSummary.to_json).map (fun row => (row.get "trace_id").as_str)
        = ((n.1.iter feed.store.traces).map Sigma.fst).map fun id => some id.to_hex := by
      have hnamed := congrArg (List.map some) (list_traces_ids hrows)
      rw [List.map_map, List.map_map] at hnamed
      rw [List.map_map, List.map_map]
      exact hnamed
    exact .fetching rfl hids hshown
  | @fetching listing done ids rows hprogram hrows hshown =>
    obtain ⟨rfl, hrun⟩ | ⟨id, ids, rows, rfl, hrest, hrun⟩ :=
      fetching_cases hrows (done.map Fetched.to_json)
    · rw [hrun] at hprogram
      obtain ⟨rfl, rfl⟩ := Prog.ask.inj hprogram
      obtain rfl := Option.some.inj hresponse
      exact .complete rfl hshown rfl
    · rw [hrun] at hprogram
      obtain ⟨rfl, rfl⟩ := Prog.ask.inj hprogram
      obtain ⟨habsent, rfl⟩ | ⟨t, payload, ht, hpayload, rfl⟩ := respond_trace hresponse
      · exact .missing rfl habsent hshown rfl
      · have hvalid : (Fetched.mk id feed payload).Valid := ⟨t, ht, hpayload⟩
        refine .fetching ?_ hrest (hshown.fetch rfl hvalid)
        rw [List.map_append]
        rfl
  | missing hprogram => cases hprogram
  | complete hprogram => cases hprogram

/-! ## The end of a dump -/

end Dump

/-- The trace that a request names is there. -/
def Route.served (store : Store) : Route → Bool
  | traces => true
  | trace text => ((TraceId.from_hex text).bind store.trace).isSome
  | receiver => true

namespace Dump

variable {m : ℕ} {es₀ : List Event} {s₀ : Store} {s : Dump}
  {es : List (SessionEvent FeedEvent (TraceOrder × ReceiverState))}

/-- Every trace that the dump has asked for was resident when the request was
answered. -/
def Served (s : Dump) : Prop := ∀ r ∈ s.asked, r.1.served r.2.store = true

instance (s : Dump) : Decidable (Served s) :=
  inferInstanceAs (Decidable (∀ r ∈ s.asked, r.1.served r.2.store = true))

/-- The dump has succeeded, and every trace that was resident from the first
request to the last is in its document. -/
def Survives (s : Dump) (result : Except String Json) : Prop :=
  ∃ doc traces, result = .ok doc ∧ (doc.get "traces").as_array = some traces
    ∧ ∀ id, (∀ r ∈ s.asked, (r.2.store.trace id).isSome) →
        ∃ feed t payload, (.trace id.to_hex, feed) ∈ s.asked ∧ feed.store.trace id = some t
          ∧ feed.store.trace_payload t = some payload ∧ payload.to_json ∈ traces

theorem stage_of_run (h : exec step es (start s₀) = some s) : Stage s.program s.asked :=
  session_invariant (P := Stage) (.listing rfl rfl)
    (fun _ _ _ _ _ _ hstage hresponse => hstage.answered hresponse) h

theorem document_traces (full_traces : List Json) (receiver : Json) :
    ((document full_traces receiver).get "traces").as_array = some full_traces := by
  rw [document, Json.get_head]
  rfl

/-- A request that finds the lock free is answered. -/
theorem answered_of_run (h₀ : exec Store.step es₀ (Store.new m) = some s₀)
    (h : exec step es (start s₀) = some s) (hlock : s.server.writer.locked = false)
    (route : Route) : ∃ n response, answer s.server n route = some response := by
  obtain ⟨es', hfeed⟩ := server_of_session h
  obtain ⟨hwritten, _⟩ := Feed.followed_of_run hfeed
  obtain ⟨es₁, hstore⟩ := run_of_batches (hwritten.unlocked hlock)
  obtain ⟨htrace, hlist⟩ := traces_answered (exec_trans h₀ hstore)
  refine ⟨(.by_id, .default), ?_⟩
  rw [← Option.isSome_iff_exists, answer, hlock, if_neg Bool.false_ne_true]
  cases route with
  | traces => rw [respond, Option.isSome_map]; exact hlist _
  | trace text => rw [respond, Option.isSome_map]; exact htrace text
  | receiver => rfl

/-- What has been shown was served. -/
theorem Shown.served {asked : List (Route × Feed)} {listing : Feed} {done : List Fetched}
    {ids : List TraceId} (h : Shown asked listing done ids) :
    ∀ r ∈ asked, r.1.served r.2.store = true := by
  rw [h.asked]
  intro r hr
  rcases List.mem_cons.mp hr with rfl | hr
  · rfl
  · obtain ⟨d, hd, rfl⟩ := List.mem_map.mp hr
    obtain ⟨t, ht, _⟩ := h.valid d hd
    rw [Fetched.request, Route.served, TraceId.from_hex_to_hex, Option.bind_some, ht]
    rfl

/-- A trace of the listing that is not left has been fetched. -/
theorem Shown.fetched {asked : List (Route × Feed)} {listing : Feed} {done : List Fetched}
    (h : Shown asked listing done []) {id : TraceId} (hid : (listing.store.trace id).isSome) :
    ∃ d ∈ done, d.id = id := by
  obtain ⟨order, hlisted⟩ := h.listed
  obtain ⟨t, ht⟩ := Option.isSome_iff_exists.mp hid
  rw [List.append_nil] at hlisted
  have hmem : id ∈ (order.iter listing.store.traces).map Sigma.fst :=
    List.mem_map.mpr ⟨⟨id, t⟩, order.mem_iter_lookup.mpr ht, rfl⟩
  rw [hlisted] at hmem
  exact List.mem_map.mp hmem

/-- The error of a trace that is gone: its request was not served. -/
theorem not_served_of_absent {earlier : List (Route × Feed)} {id : TraceId} {feed : Feed}
    (hasked : s.asked = earlier ++ [(.trace id.to_hex, feed)])
    (habsent : feed.store.trace id = none) : ¬Served s := by
  intro hserved
  have hmem : (Route.trace id.to_hex, feed) ∈ s.asked := by
    rw [hasked]
    exact List.mem_append_right _ (List.mem_singleton_self _)
  have hlast := hserved _ hmem
  rw [Route.served, TraceId.from_hex_to_hex, Option.bind_some, habsent] at hlast
  cases hlast

section Complete

variable {earlier : List (Route × Feed)} {listing feed : Feed} {done : List Fetched}

theorem Shown.served_to_end (h : Shown earlier listing done [])
    (hasked : s.asked = earlier ++ [(.receiver, feed)]) : Served s := by
  intro r hr
  rw [hasked] at hr
  rcases List.mem_append.mp hr with hr | hr
  · exact h.served r hr
  · rw [List.mem_singleton.mp hr]
    rfl

/-- What is resident throughout is listed, so it has been fetched. -/
theorem Shown.survives (h : Shown earlier listing done [])
    (hasked : s.asked = earlier ++ [(.receiver, feed)]) (receiver : Json) :
    Survives s (.ok (document (done.map Fetched.to_json) receiver)) := by
  refine ⟨_, _, rfl, document_traces _ _, fun id hresident => ?_⟩
  have hlisting : (Route.traces, listing) ∈ s.asked := by
    rw [hasked, h.asked]
    exact List.mem_append_left _ List.mem_cons_self
  obtain ⟨d, hd, rfl⟩ := h.fetched (hresident _ hlisting)
  obtain ⟨t, ht, hpayload⟩ := h.valid d hd
  refine ⟨d.feed, t, d.payload, ?_, ht, hpayload, List.mem_map_of_mem hd⟩
  rw [hasked, h.asked]
  exact List.mem_append_left _ (List.mem_cons_of_mem _ (List.mem_map_of_mem hd))

end Complete

/-- **A dump survives exactly if every trace that it asks for is still there.**
In every run of the server, its writer and the dump: whenever the lock is free
the dump can go on to its end, and where it has ended it has succeeded, with
every trace resident throughout in its document, if and only if each trace of
the listing was resident when its own request was answered. -/
theorem dump_survives_iff (h₀ : exec Store.step es₀ (Store.new m) = some s₀)
    (h : exec step es (start s₀) = some s) :
    (s.server.writer.locked = false →
        Can step (fun e => ∃ n, e = .answer n) Session.finished s)
      ∧ ∀ result, s.program = .ret result → (Survives s result ↔ Served s) := by
  refine ⟨fun hlock => can_finish (answered_of_run h₀ h hlock), fun result hresult => ?_⟩
  cases stage_of_run h with
  | listing hprogram =>
    rw [hresult, fetch_dump_run] at hprogram
    cases hprogram
  | @fetching listing done ids rows hprogram hrows =>
    obtain ⟨_, hrun⟩ | ⟨_, _, _, _, _, hrun⟩ := fetching_cases hrows (done.map Fetched.to_json)
    all_goals
      rw [hresult, hrun] at hprogram
      cases hprogram
  | missing hprogram habsent hshown hasked =>
    rw [hresult] at hprogram
    obtain rfl := Prog.ret.inj hprogram
    refine iff_of_false ?_ (not_served_of_absent hasked habsent)
    rintro ⟨_, _, hdoc, _⟩
    cases hdoc
  | complete hprogram hshown hasked =>
    rw [hresult] at hprogram
    obtain rfl := Prog.ret.inj hprogram
    exact iff_of_true (hshown.survives hasked _) (hshown.served_to_end hasked)

/-- A batch of one span, from its arrival to the announcement. -/
def one_span (n : UInt8) (now_unix_nano : UInt64) :
    List (SessionEvent FeedEvent (TraceOrder × ReceiverState)) :=
  [.server (.recv (.of_span (tid n) (Trace.span 1 none "a"))), .server (.lock now_unix_nano),
    .server .insert, .server (.sweep .by_id), .server .unlock, .server .bump]

/-- The store of [`late`] and [`early`] has room for two traces. -/
def room_for_two : Store := Store.new 140

/-- The third trace evicts the first one, which has just been fetched. -/
def late : List (SessionEvent FeedEvent (TraceOrder × ReceiverState)) :=
  let next := SessionEvent.answer (TraceOrder.by_id, ReceiverState.default)
  one_span 1 1 ++ one_span 2 2 ++ [next, next] ++ one_span 3 3 ++ [next, next]

theorem late_runs : (exec step late (start room_for_two)).isSome := by decide +kernel

theorem dump_survives_iff_late :
    ∃ s result, exec step late (start room_for_two) = some s ∧ s.program = .ret result
      ∧ s.server.store.trace (tid 1) = none ∧ Survives s result := by
  have hrun := (Option.some_get late_runs).symm
  have hfinished : (Option.get _ late_runs).finished := by decide +kernel
  obtain ⟨result, hresult⟩ := hfinished
  have hempty : exec Store.step [] (Store.new 140) = some room_for_two := rfl
  exact ⟨_, result, hrun, hresult, by decide +kernel,
    ((dump_survives_iff hempty hrun).2 result hresult).mpr (by decide +kernel)⟩

/-- The third trace evicts the first one between the listing and its fetch. -/
def early : List (SessionEvent FeedEvent (TraceOrder × ReceiverState)) :=
  let next := SessionEvent.answer (TraceOrder.by_id, ReceiverState.default)
  one_span 1 1 ++ one_span 2 2 ++ [next] ++ one_span 3 3 ++ [next]

theorem early_runs : (exec step early (start room_for_two)).isSome := by decide +kernel

/-- The text with which a program has failed. -/
def failure : Prog Route (Response Json) (Except String Json) → Option String
  | .ret (.error text) => some text
  | _ => none

theorem failure_eq_some {program : Prog Route (Response Json) (Except String Json)} {text : String}
    (h : failure program = some text) : program = .ret (.error text) := by
  cases program with
  | ask q k => cases h
  | ret result =>
    cases result with
    | ok doc => cases h
    | error e => exact congrArg _ (congrArg _ (Option.some.inj h))

/-- The dump fails, although the second trace is there from the first request to
the last. -/
theorem evicted_trace_fails_dump :
    ∃ s text, exec step early (start room_for_two) = some s
      ∧ text = "/api/traces/01010101010101010101010101010101 returned `HTTP/1.1 404 Not Found`"
      ∧ s.program = .ret (.error text)
      ∧ (∀ r ∈ s.asked, (r.2.store.trace (tid 2)).isSome) ∧ ¬Survives s (.error text) := by
  have hrun := (Option.some_get early_runs).symm
  refine ⟨_, _, hrun, rfl, failure_eq_some (by decide +kernel), by decide +kernel, ?_⟩
  rintro ⟨_, _, hdoc, _⟩
  cases hdoc

end Dump

end Spanfall
