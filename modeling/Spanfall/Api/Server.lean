/-
`Server.lean` -- `src/main.rs` and `src/api/mod.rs`: the Read API beside the two
ingest ports, over one store and one receiver state.

A handler of the Read API takes the store's read lock once, and the writer holds
the write lock for a whole batch, so a read falls between two turns of the writer.
`get_receiver` takes a second lock after the first, and anything may happen in
between. Which calls there are, when each of them goes on and what the exports
and the writer do meanwhile is up to the actions. What a writer that panics leaves
in the store is not modelled, so nothing reads it.

[`answers_serial`]: whatever the interleaving, the answers are those of handlers
that read between the turns, one behind the other.
-/
import Spanfall.Api.Attributes
import Spanfall.Api.Client
import Spanfall.Ingest.Rejects
import Spanfall.Ingest.Turns
import Spanfall.Lib.Serial

set_option autoImplicit false

namespace Spanfall

open Lib Lib.Runs Lib.Serial Lib.Vec

/-! ## The calls of the Read API -/

/-- A request, by its route in `router`. -/
inductive ApiRequest where
  | list_traces
  | get_trace (id : String)
  | get_attributes (id : String) (idx : ℕ)
  | get_filter (id : String) (q : Option String)
  | get_receiver
  | get_lint
  deriving DecidableEq

/-- `LintResponse`. -/
structure LintResponse where
  findings : List Json

/-- `get_lint`. -/
def get_lint : LintResponse := { findings := [] }

/-- What a handler answers. -/
inductive ApiAnswer where
  | traces (rows : List TraceSummary)
  | trace (response : Response TracePayload)
  | attributes (response : Response (List AttributeEntry))
  | filter (response : Response FilterResponse)
  | receiver (response : ReceiverResponse)
  | lint (response : LintResponse)

/-- Where a handler is. -/
inductive ApiCallState where
  /-- Before it takes the store's lock. -/
  | asked
  /-- In `get_receiver`, between the two locks. -/
  | counted (counters : Counters)
  | answered (answer : ApiAnswer)
  | panicked

/-- One call of the Read API. -/
structure ApiCall where
  request : ApiRequest
  state : ApiCallState

/-- Where the handler begins: `get_lint` asks nobody. -/
def ApiRequest.begin : ApiRequest → ApiCallState
  | get_lint => .answered (.lint Spanfall.get_lint)
  | _ => .asked

/-- What the handler does with the store while it has the lock. -/
def Store.serve (self : Store) (order : TraceOrder) : ApiRequest → ApiCallState
  | .list_traces => (self.list_traces order).elim .panicked fun rows => .answered (.traces rows)
  | .get_trace id => (self.get_trace id).elim .panicked fun response => .answered (.trace response)
  | .get_attributes id idx =>
    (self.get_attributes id idx).elim .panicked fun response => .answered (.attributes response)
  | .get_filter id q =>
    (self.get_filter id q).elim .panicked fun response => .answered (.filter response)
  | .get_receiver => .counted self.counters
  | .get_lint => .answered (.lint Spanfall.get_lint)

/-- What the call has got, it has got from `store`. -/
def ApiCall.ReadFrom (call : ApiCall) (store : Store) : Prop :=
  match call.state with
  | .asked => False
  | .counted counters => call.request = .get_receiver ∧ counters = store.counters
  | .answered (.receiver response) =>
    call.request = .get_receiver ∧ ∃ receiver, response = store.get_receiver receiver
  | state => ∃ order, state = store.serve order call.request

/-! ## The server -/

/-- The ports of the ingest with all behind them, and the calls of the Read API. -/
structure Server where
  exports : Exports
  requests : List ApiCall

inductive ServerAction where
  /-- Something happens at the ports of the ingest, or behind them. -/
  | ingest (action : ExportAction)
  | request (request : ApiRequest)
  /-- The handler takes the store's read lock and releases it again. -/
  | read (call : ℕ) (order : TraceOrder)
  /-- `get_receiver` takes the receiver's read lock. -/
  | read_receiver (call : ℕ)

/-- What the action does behind the ports. -/
def ExportAction.inner (decoders : Decoders) (cfg : IngestConfig) :
    ExportAction → Option IngestAction
  | request incoming =>
    match incoming.receive decoders cfg.printable with
    | .ok (decoded, transport) => some (.accept decoded transport)
    | .error _ => none
  | proceed action => some action

def ServerAction.inner (decoders : Decoders) (cfg : IngestConfig) :
    ServerAction → Option IngestAction
  | .ingest action => action.inner decoders cfg
  | _ => none

/-- The turns of the writer so far. -/
def Ingest.turn_count (s : Ingest) : ℕ := s.seq + s.writer.owed

namespace Server

/-- `run_server` before the first request, with the store that was seeded. -/
def start (store : Store) : Server where
  exports := Exports.start store
  requests := []

/-- A call of the Read API moves to another state. -/
def move (self : Server) (i : ℕ) (call : ApiCall) (state : ApiCallState) : Server :=
  { self with requests := self.requests.set i { call with state } }

def step (decoders : Decoders) (cfg : IngestConfig) (self : Server) :
    ServerAction → Option Server
  | .ingest action => (self.exports.step decoders cfg action).map fun exports =>
      { self with exports }
  | .request request =>
    some { self with requests := self.requests ++ [{ request, state := request.begin }] }
  | .read i order => do
    let call ← self.requests[i]?
    match call.state with
    | .asked =>
      if self.exports.ingest.writer = .panicked then none
      else some (self.move i call (self.exports.ingest.store.serve order call.request))
    | _ => none
  | .read_receiver i => do
    let call ← self.requests[i]?
    match call.state with
    | .counted counters =>
      let receiver := self.exports.ingest.receiver
      some (self.move i call (.answered (.receiver
        { arrivals := receiver.arrivals, counters, recent_rejects := receiver.rejects.ring })))
    | _ => none

/-! ## The actions one by one -/

/-- What each action needs and what it does. -/
inductive Acts (decoders : Decoders) (cfg : IngestConfig) (s : Server) :
    ServerAction → Server → Prop
  | ingest {action : ExportAction} {exports : Exports}
      (hexports : s.exports.step decoders cfg action = some exports) :
      Acts decoders cfg s (.ingest action) { s with exports }
  | request {request : ApiRequest} : Acts decoders cfg s (.request request)
      { s with requests := s.requests ++ [{ request, state := request.begin }] }
  | read {i : ℕ} {order : TraceOrder} {call : ApiCall} (hcall : s.requests[i]? = some call)
      (hstate : call.state = .asked) (hwriter : s.exports.ingest.writer ≠ .panicked) :
      Acts decoders cfg s (.read i order)
        (s.move i call (s.exports.ingest.store.serve order call.request))
  | read_receiver {i : ℕ} {call : ApiCall} {counters : Counters}
      (hcall : s.requests[i]? = some call) (hstate : call.state = .counted counters) :
      Acts decoders cfg s (.read_receiver i) (s.move i call (.answered (.receiver
        { arrivals := s.exports.ingest.receiver.arrivals, counters,
          recent_rejects := s.exports.ingest.receiver.rejects.ring })))

variable {decoders : Decoders} {cfg : IngestConfig} {s s' : Server}

theorem acts_of_step {action : ServerAction} (h : s.step decoders cfg action = some s') :
    Acts decoders cfg s action s' := by
  cases action with
  | ingest action =>
    obtain ⟨exports, hexports, rfl⟩ := Option.map_eq_some_iff.mp h
    exact .ingest hexports
  | request request => exact Option.some.inj h ▸ .request
  | read i order =>
    obtain ⟨call, hcall, h⟩ := Option.bind_eq_some_iff.mp h
    cases hstate : call.state with
    | asked =>
      rw [hstate] at h
      dsimp only at h
      by_cases hwriter : s.exports.ingest.writer = .panicked
      · rw [if_pos hwriter] at h
        cases h
      · rw [if_neg hwriter] at h
        exact Option.some.inj h ▸ .read hcall hstate hwriter
    | _ => rw [hstate] at h; cases h
  | read_receiver i =>
    obtain ⟨call, hcall, h⟩ := Option.bind_eq_some_iff.mp h
    cases hstate : call.state with
    | counted counters =>
      rw [hstate] at h
      exact Option.some.inj h ▸ .read_receiver hcall hstate
    | _ => rw [hstate] at h; cases h

/-! ## The ingest in it -/

/-- What an export does behind the ports is one action there, or nothing. -/
theorem inner_step {e e' : Exports} {action : ExportAction}
    (h : e.step decoders cfg action = some e') :
    (∃ inner, action.inner decoders cfg = some inner ∧ e.ingest.step cfg inner = some e'.ingest)
      ∨ (action.inner decoders cfg = none ∧ e'.ingest = e.ingest) := by
  cases action with
  | request request =>
    obtain ⟨decoded, transport, hreceive, hingest, _⟩ | ⟨refusal, hreceive, rfl⟩ :=
      Exports.request_step h
    · exact Or.inl ⟨_, by rw [ExportAction.inner, hreceive], hingest⟩
    · exact Or.inr ⟨by rw [ExportAction.inner, hreceive], rfl⟩
  | proceed action => exact Or.inl ⟨action, rfl, (Exports.proceed_step h).1⟩

/-- The actions of the ingest in those of the server. -/
def inner (decoders : Decoders) (cfg : IngestConfig) (actions : List ServerAction) :
    List IngestAction :=
  actions.filterMap (ServerAction.inner decoders cfg)

theorem inner_append (actions more : List ServerAction) :
    inner decoders cfg (actions ++ more) = inner decoders cfg actions ++ inner decoders cfg more :=
  List.filterMap_append

/-- **Behind the server the ingest runs as it does alone.** -/
theorem inner_run {actions : List ServerAction}
    (h : exec (step decoders cfg) actions s = some s') :
    exec (Ingest.step cfg) (inner decoders cfg actions) s.exports.ingest
      = some s'.exports.ingest := by
  refine exec_induction (P := fun actions s' => exec (Ingest.step cfg) (inner decoders cfg actions)
    s.exports.ingest = some s'.exports.ingest) rfl ?_ h
  intro actions s₁ action s₂ _ ih hs
  have idle : action.inner decoders cfg = none → s₂.exports.ingest = s₁.exports.ingest →
      exec (Ingest.step cfg) (inner decoders cfg (actions ++ [action])) s.exports.ingest
        = some s₂.exports.ingest := by
    intro hnone hsame
    rw [inner_append, inner, inner, List.filterMap_cons, hnone, List.filterMap_nil,
      List.append_nil, hsame]
    exact ih
  cases acts_of_step hs with
  | @ingest action exports hexports =>
    obtain ⟨act, hact, hstep⟩ | ⟨hnone, hsame⟩ := inner_step hexports
    · have hlast : inner decoders cfg [.ingest action] = [act] := by
        rw [inner, List.filterMap_cons, ServerAction.inner, hact]
        rfl
      rw [inner_append, hlast]
      exact exec_tail ih hstep
    · exact idle hnone hsame
  | request | read | read_receiver => exact idle rfl rfl

/-! ## What the handlers read -/

/-- The reads of the store so far, after one more action: which call read, after
how many turns of the writer, and what. -/
def log_read (reads : List (ℕ × Read Store)) (s : Server) (action : ServerAction) (_ : Server) :
    List (ℕ × Read Store) :=
  match action with
  | .read i _ => reads ++ [(i, { position := s.exports.ingest.turn_count,
                                 state := s.exports.ingest.store })]
  | _ => reads

/-- The reads of the store along a run, in order. -/
def reads (decoders : Decoders) (cfg : IngestConfig) (actions : List ServerAction) (s : Server) :
    List (ℕ × Read Store) :=
  ghost (step decoders cfg) log_read actions s []

/-- Where the calls of the Read API are, against what has been read. -/
structure Served (reads : List (ℕ × Read Store)) (requests : List ApiCall) : Prop where
  once : (reads.map Prod.fst).Nodup
  unread : ∀ (i : ℕ) (call : ApiCall), requests[i]? = some call → call.state = .asked →
    i ∉ reads.map Prod.fst
  read : ∀ i r, (i, r) ∈ reads → ∃ call, requests[i]? = some call ∧ call.ReadFrom r.state
  answered : ∀ (i : ℕ) (call : ApiCall), requests[i]? = some call → call.state ≠ .asked →
    call.request ≠ .get_lint → i ∈ reads.map Prod.fst

/-- No handler asks the store twice. -/
theorem serve_ne_asked (store : Store) (order : TraceOrder) (request : ApiRequest) :
    store.serve order request ≠ .asked := by
  have outcome : ∀ {α : Type} (result : Option α) (f : α → ApiAnswer),
      result.elim ApiCallState.panicked (fun a => .answered (f a)) ≠ .asked := by
    intro α result f
    cases result <;> nofun
  cases request with
  | list_traces => exact outcome (store.list_traces order) .traces
  | get_trace id => exact outcome (store.get_trace id) .trace
  | get_attributes id idx => exact outcome (store.get_attributes id idx) .attributes
  | get_filter id q => exact outcome (store.get_filter id q) .filter
  | get_receiver => nofun
  | get_lint => nofun

theorem serve_readFrom (store : Store) (order : TraceOrder) (request : ApiRequest) :
    ApiCall.ReadFrom { request, state := store.serve order request } store := by
  have outcome : ∀ {α : Type} (result : Option α) (f : α → ApiAnswer),
      (∀ a response, f a ≠ .receiver response) →
      store.serve order request
        = result.elim ApiCallState.panicked (fun a => .answered (f a)) →
      ApiCall.ReadFrom { request, state := store.serve order request } store := by
    intro α result f hf hserve
    rw [ApiCall.ReadFrom, hserve]
    cases result with
    | none => exact ⟨order, hserve.symm⟩
    | some a =>
      dsimp only [Option.elim_some]
      cases ha : f a with
      | receiver response => exact absurd ha (hf a response)
      | _ => exact ⟨order, by rw [hserve, Option.elim_some, ha]⟩
  cases request with
  | list_traces => exact outcome (store.list_traces order) .traces nofun rfl
  | get_trace id => exact outcome (store.get_trace id) .trace nofun rfl
  | get_attributes id idx => exact outcome (store.get_attributes id idx) .attributes nofun rfl
  | get_filter id q => exact outcome (store.get_filter id q) .filter nofun rfl
  | get_receiver => exact ⟨rfl, rfl⟩
  | get_lint => exact ⟨order, rfl⟩

section Step

variable {reads : List (ℕ × Read Store)}

/-- A call that moves and reads the store. -/
theorem Served.read_by (h : Served reads s.requests) {i : ℕ} {call : ApiCall}
    (hcall : s.requests[i]? = some call) (hstate : call.state = .asked) {r : Read Store}
    {state : ApiCallState} (hmoved : state ≠ .asked)
    (hread : ApiCall.ReadFrom { call with state } r.state) :
    Served (reads ++ [(i, r)]) (s.requests.set i { call with state }) := by
  obtain ⟨hi, -⟩ := List.getElem?_eq_some_iff.mp hcall
  have hnew := h.unread i call hcall hstate
  refine ⟨?_, fun j c hc hasked => ?_, fun j r' hr => ?_, fun j c hc hmovedj hlint => ?_⟩
  · rw [List.map_append, List.nodup_append]
    refine ⟨h.once, List.nodup_singleton i, fun j hj k hk => ?_⟩
    rintro rfl
    have hji : j = i := List.mem_singleton.mp hk
    exact hnew (hji ▸ hj)
  · rw [List.getElem?_set] at hc
    rw [List.map_append, List.mem_append, List.map_singleton, List.mem_singleton]
    by_cases hij : i = j
    · rw [if_pos hij, if_pos (hij ▸ hi)] at hc
      rw [← Option.some.inj hc] at hasked
      exact absurd hasked hmoved
    · rw [if_neg hij] at hc
      rintro (hj | rfl)
      · exact h.unread j c hc hasked hj
      · exact hij rfl
  · rw [List.getElem?_set]
    rcases List.mem_append.mp hr with hr | hr
    · obtain ⟨c, hc, hfrom⟩ := h.read j r' hr
      have hij : i ≠ j := fun heq => hnew (heq ▸ List.mem_map_of_mem (f := Prod.fst) hr)
      exact ⟨c, by rw [if_neg hij]; exact hc, hfrom⟩
    · obtain ⟨rfl, rfl⟩ := Prod.mk.inj (List.mem_singleton.mp hr)
      exact ⟨_, by rw [if_pos rfl, if_pos hi], hread⟩
  · rw [List.getElem?_set] at hc
    rw [List.map_append, List.mem_append, List.map_singleton, List.mem_singleton]
    by_cases hij : i = j
    · exact Or.inr hij.symm
    · rw [if_neg hij] at hc
      exact Or.inl (h.answered j c hc hmovedj hlint)

/-- **The step lemma.** -/
theorem Served.step (h : Served reads s.requests) {action : ServerAction}
    (hs : s.step decoders cfg action = some s') :
    Served (log_read reads s action s') s'.requests := by
  cases acts_of_step hs with
  | ingest hexports => exact h
  | @request request =>
    refine ⟨h.once, fun i call hcall hasked hi => ?_, fun i r hr => ?_,
      fun i call hcall hmoved hlint => ?_⟩
    · rcases getElem?_snoc.mp hcall with hcall | ⟨rfl, rfl⟩
      · exact h.unread i call hcall hasked hi
      · -- nobody has read for a call that was not there
        obtain ⟨⟨j, r⟩, hr, hj⟩ := List.mem_map.mp hi
        obtain ⟨c, hc, _⟩ := h.read j r hr
        obtain ⟨hlt, -⟩ := List.getElem?_eq_some_iff.mp hc
        exact absurd (hj ▸ hlt) (Nat.lt_irrefl _)
    · obtain ⟨c, hc, hfrom⟩ := h.read i r hr
      exact ⟨c, getElem?_snoc.mpr (Or.inl hc), hfrom⟩
    · rcases getElem?_snoc.mp hcall with hcall | ⟨rfl, rfl⟩
      · exact h.answered i call hcall hmoved hlint
      · cases request with
        | get_lint => exact absurd rfl hlint
        | _ => exact absurd rfl hmoved
  | @read i order call hcall hstate hwriter =>
    exact h.read_by hcall hstate (serve_ne_asked _ _ _) (serve_readFrom _ _ _)
  | @read_receiver i call counters hcall hstate =>
    -- its counters have been read before
    obtain ⟨hi, -⟩ := List.getElem?_eq_some_iff.mp hcall
    refine ⟨h.once, fun j c hc hasked => ?_, fun j r hr => ?_, fun j c hc hmoved hlint => ?_⟩
    · rw [Server.move, List.getElem?_set] at hc
      by_cases hij : i = j
      · rw [if_pos hij, if_pos (hij ▸ hi)] at hc
        rw [← Option.some.inj hc] at hasked
        cases hasked
      · rw [if_neg hij] at hc
        exact h.unread j c hc hasked
    · rw [Server.move, List.getElem?_set]
      obtain ⟨c, hc, hfrom⟩ := h.read j r hr
      by_cases hij : i = j
      · subst hij
        obtain rfl := Option.some.inj (hcall.symm.trans hc)
        rw [ApiCall.ReadFrom, hstate] at hfrom
        obtain ⟨hrequest, rfl⟩ := hfrom
        refine ⟨_, by rw [if_pos rfl, if_pos hi], ?_⟩
        exact ⟨hrequest, s.exports.ingest.receiver, rfl⟩
      · exact ⟨c, by rw [if_neg hij]; exact hc, hfrom⟩
    · rw [Server.move, List.getElem?_set] at hc
      by_cases hij : i = j
      · subst hij
        refine h.answered i call hcall (by rw [hstate]; nofun) ?_
        rw [if_pos rfl, if_pos hi] at hc
        rwa [← Option.some.inj hc] at hlint
      · rw [if_neg hij] at hc
        exact h.answered j c hc hmoved hlint

end Step

theorem served_of_run {store : Store} {actions : List ServerAction}
    (h : exec (step decoders cfg) actions (start store) = some s) :
    Served (reads decoders cfg actions (start store)) s.requests := by
  refine exec_induction (P := fun actions s =>
    Served (reads decoders cfg actions (start store)) s.requests) ?_ ?_ h
  · exact ⟨List.nodup_nil, fun _ _ _ _ => List.not_mem_nil, fun _ _ hr => absurd hr List.not_mem_nil,
      fun _ _ hc => by cases hc⟩
  · intro actions s action s' hrun ih hs
    rw [reads, ghost_snoc hrun hs]
    exact ih.step hs

/-! ## The order of the reads -/

/-- The turns of the writer along a run. -/
def turns (decoders : Decoders) (cfg : IngestConfig) (actions : List ServerAction)
    (store : Store) : List AppliedBatch :=
  Ingest.turns cfg (inner decoders cfg actions) (Ingest.start store)

/-- The turns are those behind the store, and they are counted. -/
theorem turns_behind {store : Store} {actions : List ServerAction}
    (h : exec (step decoders cfg) actions (start store) = some s) :
    after_batches store (turns decoders cfg actions store) = some s.exports.ingest.store
      ∧ s.exports.ingest.turn_count = (turns decoders cfg actions store).length := by
  have hrun := inner_run h
  obtain ⟨hmap, hafter⟩ := Ingest.store_of_turns hrun
  refine ⟨hafter, ?_⟩
  rw [Ingest.turn_count, (Ingest.accounts_of_run hrun).seq]
  exact (congrArg List.length hmap).symm.trans (List.length_map ..)

/-- One action more: at most one turn more. -/
theorem turns_snoc {store : Store} {actions : List ServerAction} {action : ServerAction}
    (h : exec (step decoders cfg) actions (start store) = some s)
    (hs : s.step decoders cfg action = some s') :
    turns decoders cfg (actions ++ [action]) store = turns decoders cfg actions store
      ∨ ∃ a, turns decoders cfg (actions ++ [action]) store
        = turns decoders cfg actions store ++ [a] := by
  rw [turns, turns, inner_append]
  cases hinner : action.inner decoders cfg with
  | none =>
    refine Or.inl ?_
    rw [inner, inner, List.filterMap_cons, hinner, List.filterMap_nil, List.append_nil]
  | some act =>
    have hlast : inner decoders cfg [action] = [act] := by
      rw [inner, List.filterMap_cons, hinner]
      rfl
    have hact : s.exports.ingest.step cfg act = some s'.exports.ingest := by
      cases acts_of_step hs with
      | ingest hexports =>
        obtain ⟨act', hact', hstep⟩ | ⟨hnone, _⟩ := inner_step hexports
        · obtain rfl := Option.some.inj (hact'.symm.trans hinner)
          exact hstep
        · rw [ServerAction.inner, hnone] at hinner
          cases hinner
      | request | read | read_receiver => cases hinner
    have hsnoc : Ingest.turns cfg (inner decoders cfg actions ++ [act]) (Ingest.start store)
        = Ingest.log_turn (Ingest.turns cfg (inner decoders cfg actions) (Ingest.start store))
            s.exports.ingest act s'.exports.ingest := ghost_snoc (inner_run h) hact _
    rw [hlast, hsnoc]
    obtain ⟨a, _, _, _, _, hturn⟩ | ⟨_, _, hturn⟩ := Ingest.turn_cases hact
    · exact Or.inr ⟨a, hturn _⟩
    · exact Or.inl (hturn _)

/-- **The reads stand between the turns of the writer.** -/
theorem reads_serialized {store : Store} {actions : List ServerAction}
    (h : exec (step decoders cfg) actions (start store) = some s) :
    Serialized AppliedBatch.apply store (turns decoders cfg actions store)
      ((reads decoders cfg actions (start store)).map Prod.snd) := by
  refine exec_induction (P := fun actions _ => Serialized AppliedBatch.apply store
    (turns decoders cfg actions store) ((reads decoders cfg actions (start store)).map Prod.snd))
    (Serialized.start store) ?_ h
  intro actions s action s' hrun ih hs
  have hread : reads decoders cfg (actions ++ [action]) (start store)
      = log_read (reads decoders cfg actions (start store)) s action s' := ghost_snoc hrun hs _
  rw [hread]
  have unread : log_read (reads decoders cfg actions (start store)) s action s'
      = reads decoders cfg actions (start store) →
      Serialized AppliedBatch.apply store (turns decoders cfg (actions ++ [action]) store)
        ((log_read (reads decoders cfg actions (start store)) s action s').map Prod.snd) := by
    intro hsame
    rw [hsame]
    rcases turns_snoc hrun hs with hturns | ⟨a, hturns⟩
    · rw [hturns]
      exact ih
    · rw [hturns]
      exact ih.write a
  cases action with
  | read i order =>
    obtain ⟨hbehind, hcount⟩ := turns_behind hrun
    have hturns : turns decoders cfg (actions ++ [.read i order]) store
        = turns decoders cfg actions store := by
      rw [turns, turns, inner_append]
      exact congrArg (Ingest.turns cfg · _) (List.append_nil _)
    rw [hturns, log_read, List.map_append, hcount]
    exact ih.read hbehind
  | _ => exact unread rfl

/-- A read behind `s` sees all the turns that were behind `s`. -/
theorem read_behind {store : Store} {earlier later : List ServerAction}
    (h : exec (step decoders cfg) earlier (start store) = some s)
    (h' : exec (step decoders cfg) later s = some s') :
    ∀ p ∈ reads decoders cfg (earlier ++ later) (start store),
      p ∈ reads decoders cfg earlier (start store)
        ∨ s.exports.ingest.turn_count ≤ p.2.position := by
  have hall : s.exports.ingest.turn_count ≤ s'.exports.ingest.turn_count
      ∧ ∀ p ∈ reads decoders cfg (earlier ++ later) (start store),
        p ∈ reads decoders cfg earlier (start store)
          ∨ s.exports.ingest.turn_count ≤ p.2.position := by
    refine exec_induction (P := fun later s' =>
      s.exports.ingest.turn_count ≤ s'.exports.ingest.turn_count
      ∧ ∀ p ∈ reads decoders cfg (earlier ++ later) (start store),
        p ∈ reads decoders cfg earlier (start store)
          ∨ s.exports.ingest.turn_count ≤ p.2.position) ?_ ?_ h'
    · rw [List.append_nil]
      exact ⟨Nat.le_refl _, fun _ hp => Or.inl hp⟩
    · rintro later s₁ action s₂ hlater ⟨hcount, ih⟩ hs
      have hrun := exec_trans h hlater
      refine ⟨hcount.trans ?_, fun p hp => ?_⟩
      · rw [(turns_behind hrun).2, (turns_behind (exec_tail hrun hs)).2]
        rcases turns_snoc hrun hs with hturns | ⟨a, hturns⟩
        · rw [hturns]
        · rw [hturns, List.length_append]
          exact Nat.le_add_right _ _
      · rw [← List.append_assoc, reads, ghost_snoc hrun hs] at hp
        cases action with
        | read i order =>
          rcases List.mem_append.mp hp with hp | hp
          · exact ih p hp
          · rw [List.mem_singleton.mp hp]
            exact Or.inr hcount
        | _ => exact ih p hp
  exact hall.2

/-- **Every answer is that of a handler between two turns of the writer.** The
reads, one for each call that has got further, are serial: each has seen the store
after a beginning of the turns, and a later one no less than an earlier. A call
reads all that had been announced when it was made, and no less than any call that
had read by then. -/
theorem answers_serial {store : Store} {actions : List ServerAction}
    (h : exec (step decoders cfg) actions (start store) = some s) :
    let seen := reads decoders cfg actions (start store)
    Serialized AppliedBatch.apply store (turns decoders cfg actions store) (seen.map Prod.snd)
      ∧ Served seen s.requests
      ∧ ∀ earlier later s₁, actions = earlier ++ later →
          exec (step decoders cfg) earlier (start store) = some s₁ →
          ∀ j r, (j, r) ∈ seen → s₁.requests.length ≤ j →
            s₁.exports.ingest.seq ≤ r.position
              ∧ ∀ i r', (i, r') ∈ reads decoders cfg earlier (start store) →
                  r'.position ≤ r.position := by
  refine ⟨reads_serialized h, served_of_run h, ?_⟩
  rintro earlier later s₁ rfl h₁ j r hr hj
  obtain ⟨s₂, h₂, hlater⟩ := exec_append_some h
  obtain rfl := Option.some.inj (h₂.symm.trans h₁)
  have hnew : (j, r) ∉ reads decoders cfg earlier (start store) := fun hold => by
    obtain ⟨call, hcall, _⟩ := (served_of_run h₁).read j r hold
    rw [List.getElem?_eq_none hj] at hcall
    cases hcall
  have hbehind := (read_behind h₁ hlater (j, r) hr).resolve_left hnew
  refine ⟨(Nat.le_add_right _ _).trans hbehind, fun i r' hr' => ?_⟩
  refine ((reads_serialized h₁).bounded r' (List.mem_map_of_mem hr')).trans ?_
  rw [← (turns_behind h₁).2]
  exact hbehind

/-- A gRPC message with these spans, well under the limit. -/
def wire_message (spans : List PbSpan) : ServerAction :=
  .ingest (.request (.grpc
    { length := 100 * spans.length, decoded := .ok (Ingest.wire_request spans) }))

/-- One span is exported, and three calls of the Read API are made: before the
writer applies it, between that and the announcement, and after. The first one
reads last. -/
def three_reads : List ServerAction :=
  [wire_message [Ingest.wire_span 16], .ingest (.proceed (.convert 0)),
    .ingest (.proceed (.send 0)), .request .get_receiver, .ingest (.proceed .recv),
    .ingest (.proceed (.apply 7 TraceOrder.by_id)), .request (.get_attributes "00" 0),
    .read 1 TraceOrder.by_id, .ingest (.proceed .bump), .request (.list_traces),
    .read 2 TraceOrder.by_id, .read 0 TraceOrder.by_id, .ingest (.proceed (.record_arrival 0)),
    .read_receiver 0]

theorem three_reads_run : (exec (step Exports.two_bodies Ingest.small_channel) three_reads
    (start (Store.new 1000))).isSome := by
  decide +kernel

theorem answers_serial_three :
    ∃ s, exec (step Exports.two_bodies Ingest.small_channel) three_reads (start (Store.new 1000))
        = some s
      ∧ Served (reads Exports.two_bodies Ingest.small_channel three_reads (start (Store.new 1000)))
        s.requests
      ∧ ((reads Exports.two_bodies Ingest.small_channel three_reads (start (Store.new 1000))).map
          fun p => (p.1, p.2.position)) = [(1, 1), (2, 1), (0, 1)] := by
  have hrun := (Option.some_get three_reads_run).symm
  exact ⟨_, hrun, (answers_serial hrun).2.1, by decide +kernel⟩

end Server

end Spanfall
