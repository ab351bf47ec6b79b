/-
`Events.lean` -- `src/api/events.rs` beside `src/store/writer.rs`: the writer,
the sequence number and a client that reads the store again at every event.

The writer mutates the store under the write lock, releases it and then bumps
the number; a read takes the read lock, so it falls between two batches. The
number travels through a `watch` channel and an event stream. Of the channel we
use what `tokio` documents: a subscriber is shown the current value first, and
a value behind every change it has not been shown, though not every one.

[`reads_follow_events`]: what a client reads is the store between two batches,
never older than the number it has seen last, and once the events have run dry
it is the store as it is.
-/
import Spanfall.Store.Writer

set_option autoImplicit false

namespace Spanfall

open Lib.Runs Store

/-- Where the writer's `run` is. -/
inductive WriterPoint where
  /-- In `recv`. -/
  | waiting
  /-- Before it takes the store's lock. -/
  | received (batch : SpanBatch)
  /-- Inside the `for`, with the lock. -/
  | inserting (batch : SpanBatch) (rest : List (TraceId × NewSpan)) (now_unix_nano : UInt64)
  /-- After the sweep, still with the lock. -/
  | swept
  /-- Without the lock, before the number is bumped. -/
  | released
  deriving DecidableEq

def WriterPoint.locked : WriterPoint → Bool
  | waiting => false
  | received _ => false
  | inserting _ _ _ => true
  | swept => true
  | released => false

/-- One event of the stream: `{"type":"changed","seq":N}`. The version is the
channel's when the event was made; it is not sent. -/
structure Changed where
  seq : UInt64
  version : ℕ
  deriving DecidableEq

/-- A client's connection to `/api/events`. -/
structure Subscription where
  /-- The version the stream has yielded last. -/
  seen : Option ℕ
  /-- What has been yielded and not yet read by the client. -/
  in_flight : List Changed
  /-- The last event that the client has read. -/
  observed : Option Changed
  /-- It has read the store since. -/
  fresh : Bool

/-- `WatchStream::new`. -/
def Subscription.new : Subscription where
  seen := none
  in_flight := []
  observed := none
  fresh := false

/-- What a client has read, and the last event it had seen by then. -/
structure StoreRead where
  observed : Option Changed
  store : Store

/-- A batch with the clock reading and the sweep's walking order. -/
structure AppliedBatch where
  batch : SpanBatch
  now_unix_nano : UInt64
  order : TraceOrder

/-- The writer, the `watch` channel and one client. -/
structure Feed where
  store : Store
  writer : WriterPoint
  seq : UInt64
  version : ℕ
  client : Subscription
  /-- The batches that have been applied. -/
  applied : List AppliedBatch
  /-- Everything that the client has read. -/
  reads : List StoreRead

inductive FeedEvent where
  | recv (batch : SpanBatch)
  | lock (now_unix_nano : UInt64)
  | insert
  | sweep (order : TraceOrder)
  | unlock
  | bump
  | connect
  | yield
  | observe
  | read

namespace Feed

/-- `spawn_writer`: the number is zero. -/
def start (store : Store) : Feed where
  store := store
  writer := .waiting
  seq := 0
  version := 0
  client := .new
  applied := []
  reads := []

/-- One step of the writer or of the client. A step that would panic is none. -/
def step (self : Feed) : FeedEvent → Option Feed
  | .recv batch =>
    match self.writer with
    | .waiting => some { self with writer := .received batch }
    | _ => none
  | .lock now =>
    match self.writer with
    | .received batch => some { self with writer := .inserting batch batch.spans now }
    | _ => none
  | .insert =>
    match self.writer with
    | .inserting batch (p :: rest) now =>
      (self.store.insert_span_no_evict p.1 p.2 now).map fun r =>
        { self with store := r.1, writer := .inserting batch rest now }
    | _ => none
  | .sweep order =>
    match self.writer with
    | .inserting batch [] now_unix_nano => do
      let counted := { self.store with counters := { self.store.counters with
        malformed_span := self.store.counters.malformed_span + batch.malformed_span_count } }
      let store ← counted.evict_over_budget order
      return { self with
        store, writer := .swept, applied := self.applied ++ [{ batch, now_unix_nano, order }] }
    | _ => none
  | .unlock =>
    match self.writer with
    | .swept => some { self with writer := .released }
    | _ => none
  | .bump =>
    match self.writer with
    | .released =>
      some { self with writer := .waiting, seq := self.seq + 1, version := self.version + 1 }
    | _ => none
  | .connect => some { self with client := .new }
  | .yield =>
    if self.client.seen = some self.version then none
    else some { self with client := { self.client with
      seen := some self.version
      in_flight := self.client.in_flight ++ [{ seq := self.seq, version := self.version }] } }
  | .observe =>
    match self.client.in_flight with
    | changed :: in_flight => some { self with client := { self.client with
        in_flight, observed := some changed, fresh := false } }
    | [] => none
  | .read =>
    if self.writer.locked then none
    else some { self with
      client := { self.client with fresh := true }
      reads := self.reads ++ [{ observed := self.client.observed, store := self.store }] }

/-- The client has been shown the latest number and has read the store since. -/
def handled (s : Feed) : Prop :=
  s.client.seen = some s.version ∧ s.client.in_flight = [] ∧ s.client.fresh = true

end Feed

/-- The body of `run`, as the step of a run over batches. -/
def AppliedBatch.apply (store : Store) (self : AppliedBatch) : Option Store :=
  store.apply_batch self.batch self.now_unix_nano self.order

/-! ## What holds at any time -/

/-- The store after the batches. -/
def after_batches (s₀ : Store) (applied : List AppliedBatch) : Option Store :=
  exec AppliedBatch.apply applied s₀

theorem after_batches_snoc {s₀ s s' : Store} {applied : List AppliedBatch} {a : AppliedBatch}
    (h : after_batches s₀ applied = some s) (ha : a.apply s = some s') :
    after_batches s₀ (applied ++ [a]) = some s' :=
  exec_tail h ha

/-- Batches are a run of the store. -/
theorem run_of_batches {s₀ s : Store} {applied : List AppliedBatch}
    (h : after_batches s₀ applied = some s) : ∃ es, exec Store.step es s₀ = some s := by
  refine exec_induction (P := fun _ s => ∃ es, exec Store.step es s₀ = some s) ⟨[], rfl⟩ ?_ h
  rintro _ s₁ a s₂ _ ⟨es, hes⟩ ha
  exact ⟨es ++ a.batch.events a.now_unix_nano a.order, exec_batch hes ha⟩

/-- The event carries the number of its version, and that is at most `n`. -/
def Changed.UpTo (c : Changed) (n : ℕ) : Prop := c.seq = UInt64.ofNat c.version ∧ c.version ≤ n

theorem Changed.UpTo.mono {c : Changed} {n k : ℕ} (h : c.UpTo n) (hle : n ≤ k) : c.UpTo k :=
  ⟨h.1, h.2.trans hle⟩

/-- A read shows the store between two batches, with every batch behind the
last event before it. -/
def StoreRead.Between (s₀ : Store) (applied : List AppliedBatch) (r : StoreRead) : Prop :=
  ∃ n ≤ applied.length, after_batches s₀ (applied.take n) = some r.store
    ∧ ∀ c, r.observed = some c → c.UpTo n

/-- More batches change nothing about an earlier read. -/
theorem StoreRead.Between.snoc {s₀ : Store} {applied : List AppliedBatch} {r : StoreRead}
    (h : r.Between s₀ applied) (a : AppliedBatch) : r.Between s₀ (applied ++ [a]) := by
  obtain ⟨n, hn, hstore, hseen⟩ := h
  refine ⟨n, ?_, ?_, hseen⟩
  · rw [List.length_append]
    exact Nat.le_add_right_of_le hn
  · rwa [List.take_append_of_le_length hn]

namespace Feed

/-- The batches that have been applied and not been announced yet. -/
def unannounced (s : Feed) : ℕ :=
  match s.writer with
  | .swept => 1
  | .released => 1
  | _ => 0

/-- The store is what the applied batches make of `s₀`, or the writer is in the
middle of another one. -/
def Applied (s₀ : Store) (s : Feed) : Prop :=
  match s.writer with
  | .inserting batch rest now => ∃ base done, after_batches s₀ s.applied = some base
      ∧ batch.spans = done ++ rest ∧ base.insert_spans done now = some s.store
  | _ => after_batches s₀ s.applied = some s.store

/-- The invariant of the writer's side. -/
structure Written (s₀ : Store) (s : Feed) : Prop where
  seq : s.seq = UInt64.ofNat s.version
  announced : s.applied.length = s.version + s.unannounced
  store : s.Applied s₀

/-- The invariant of the client's side. -/
structure Followed (s₀ : Store) (s : Feed) : Prop where
  in_flight : ∀ c ∈ s.client.in_flight, c.UpTo s.version
  observed : ∀ c, s.client.observed = some c → c.UpTo s.version
  /-- What the stream has yielded last is the last one in flight, or has been
  observed. -/
  seen : s.client.seen = (s.client.in_flight.getLast?.or s.client.observed).map (·.version)
  reads : ∀ r ∈ s.reads, r.Between s₀ s.applied
  fresh : s.client.fresh = true →
    ∃ r, s.reads.getLast? = some r ∧ r.observed = s.client.observed

variable {s₀ : Store} {s s' : Feed}

theorem start_written (s₀ : Store) : Written s₀ (start s₀) := ⟨rfl, rfl, rfl⟩

theorem start_followed (s₀ : Store) : Followed s₀ (start s₀) where
  in_flight _ h := absurd h List.not_mem_nil
  observed _ h := by cases h
  seen := rfl
  reads _ h := absurd h List.not_mem_nil
  fresh h := by cases h

/-- The writer's steps leave the client alone, and only apply and announce. -/
theorem Followed.written (h : Followed s₀ s) (hclient : s'.client = s.client)
    (hreads : s'.reads = s.reads) (hversion : s.version ≤ s'.version)
    (happlied : s'.applied = s.applied ∨ ∃ a, s'.applied = s.applied ++ [a]) : Followed s₀ s' := by
  obtain ⟨hflight, hobserved, hseen, hread, hfresh⟩ := h
  refine ⟨?_, ?_, ?_, ?_, ?_⟩
  · rw [hclient]
    exact fun c hc => (hflight c hc).mono hversion
  · rw [hclient]
    exact fun c hc => (hobserved c hc).mono hversion
  · rw [hclient]
    exact hseen
  · rw [hreads]
    intro r hr
    rcases happlied with heq | ⟨a, heq⟩
    · exact heq ▸ hread r hr
    · exact heq ▸ (hread r hr).snoc a
  · rw [hclient, hreads]
    exact hfresh

/-- Between two batches the lock is free. -/
theorem Written.unlocked (h : Written s₀ s) (hlock : s.writer.locked = false) :
    after_batches s₀ s.applied = some s.store := by
  have hstore := h.store
  unfold Applied at hstore
  cases hw : s.writer with
  | inserting batch rest now =>
    rw [hw] at hlock
    cases hlock
  | _ => rw [hw] at hstore; exact hstore

/-! ## The steps one by one -/

/-- What each step needs and what it does. -/
inductive Moves (s : Feed) : FeedEvent → Feed → Prop
  | recv {batch : SpanBatch} (hwriter : s.writer = .waiting) :
      Moves s (.recv batch) { s with writer := .received batch }
  | lock {batch : SpanBatch} {now : UInt64} (hwriter : s.writer = .received batch) :
      Moves s (.lock now) { s with writer := .inserting batch batch.spans now }
  | insert {batch : SpanBatch} {p : TraceId × NewSpan} {rest : List (TraceId × NewSpan)}
      {now : UInt64} {store : Store} {out : StoreInsertOutcome}
      (hwriter : s.writer = .inserting batch (p :: rest) now)
      (hinsert : s.store.insert_span_no_evict p.1 p.2 now = some (store, out)) :
      Moves s .insert { s with store, writer := .inserting batch rest now }
  | sweep {batch : SpanBatch} {now_unix_nano : UInt64} {order : TraceOrder} {store : Store}
      (hwriter : s.writer = .inserting batch [] now_unix_nano)
      (hsweep : evict_over_budget { s.store with counters := { s.store.counters with
        malformed_span := s.store.counters.malformed_span + batch.malformed_span_count } } order
          = some store) :
      Moves s (.sweep order) { s with
        store, writer := .swept, applied := s.applied ++ [{ batch, now_unix_nano, order }] }
  | unlock (hwriter : s.writer = .swept) : Moves s .unlock { s with writer := .released }
  | bump (hwriter : s.writer = .released) :
      Moves s .bump { s with writer := .waiting, seq := s.seq + 1, version := s.version + 1 }
  | connect : Moves s .connect { s with client := .new }
  | yield (hseen : s.client.seen ≠ some s.version) : Moves s .yield { s with
      client := { s.client with
        seen := some s.version
        in_flight := s.client.in_flight ++ [{ seq := s.seq, version := s.version }] } }
  | observe {changed : Changed} {in_flight : List Changed}
      (hflight : s.client.in_flight = changed :: in_flight) : Moves s .observe { s with
      client := { s.client with in_flight, observed := some changed, fresh := false } }
  | read (hlock : s.writer.locked = false) : Moves s .read { s with
      client := { s.client with fresh := true }
      reads := s.reads ++ [{ observed := s.client.observed, store := s.store }] }

theorem moves_of_step {e : FeedEvent} (hs : s.step e = some s') : Moves s e s' := by
  cases e with
  | recv batch =>
    rw [step] at hs
    cases hw : s.writer with
    | waiting =>
      rw [hw] at hs
      exact Option.some.inj hs ▸ .recv hw
    | _ => rw [hw] at hs; cases hs
  | lock now =>
    rw [step] at hs
    cases hw : s.writer with
    | received batch =>
      rw [hw] at hs
      exact Option.some.inj hs ▸ .lock hw
    | _ => rw [hw] at hs; cases hs
  | insert =>
    rw [step] at hs
    cases hw : s.writer with
    | inserting batch rest now =>
      cases rest with
      | nil => rw [hw] at hs; cases hs
      | cons p rest =>
        rw [hw] at hs
        obtain ⟨⟨store, out⟩, hinsert, rfl⟩ := Option.map_eq_some_iff.mp hs
        exact .insert hw hinsert
    | _ => rw [hw] at hs; cases hs
  | sweep order =>
    rw [step] at hs
    cases hw : s.writer with
    | inserting batch rest now =>
      cases rest with
      | cons p rest => rw [hw] at hs; cases hs
      | nil =>
        rw [hw] at hs
        obtain ⟨store, hsweep, hs⟩ := Option.bind_eq_some_iff.mp hs
        exact Option.some.inj hs ▸ .sweep hw hsweep
    | _ => rw [hw] at hs; cases hs
  | unlock =>
    rw [step] at hs
    cases hw : s.writer with
    | swept =>
      rw [hw] at hs
      exact Option.some.inj hs ▸ .unlock hw
    | _ => rw [hw] at hs; cases hs
  | bump =>
    rw [step] at hs
    cases hw : s.writer with
    | released =>
      rw [hw] at hs
      exact Option.some.inj hs ▸ .bump hw
    | _ => rw [hw] at hs; cases hs
  | connect => exact Option.some.inj hs ▸ .connect
  | yield =>
    rw [step] at hs
    by_cases hseen : s.client.seen = some s.version
    · rw [if_pos hseen] at hs
      cases hs
    · rw [if_neg hseen] at hs
      exact Option.some.inj hs ▸ .yield hseen
  | observe =>
    rw [step] at hs
    cases hflight : s.client.in_flight with
    | nil => rw [hflight] at hs; cases hs
    | cons c rest =>
      rw [hflight] at hs
      exact Option.some.inj hs ▸ .observe hflight
  | read =>
    rw [step] at hs
    cases hlock : s.writer.locked with
    | true => rw [hlock] at hs; cases hs
    | false =>
      rw [hlock] at hs
      exact Option.some.inj hs ▸ .read hlock

/-- **The writer's steps.** -/
theorem Written.step (h : Written s₀ s) {e : FeedEvent} (hs : Moves s e s') : Written s₀ s' := by
  obtain ⟨hseq, hannounced, hstore⟩ := h
  unfold Applied at hstore
  unfold unannounced at hannounced
  cases hs with
  | recv hw =>
    rw [hw] at hannounced hstore
    exact ⟨hseq, hannounced, hstore⟩
  | lock hw =>
    rw [hw] at hannounced hstore
    exact ⟨hseq, hannounced, s.store, [], hstore, rfl, rfl⟩
  | @insert batch p rest now store out hw hinsert =>
    rw [hw] at hannounced hstore
    obtain ⟨base, done, hbase, hspans, hdone⟩ := hstore
    refine ⟨hseq, hannounced, base, done ++ [p], hbase, ?_, ?_⟩
    · rw [hspans, List.append_assoc]
      rfl
    · -- one more span of the batch is in
      rw [insert_spans_eq_exec] at hdone ⊢
      rw [List.map_append, List.map_singleton, exec_snoc, hdone, Option.bind_some, Store.step,
        hinsert]
      rfl
  | sweep hw hsweep =>
    rw [hw] at hannounced hstore
    obtain ⟨base, done, hbase, hspans, hdone⟩ := hstore
    rw [List.append_nil] at hspans
    refine ⟨hseq, ?_, after_batches_snoc hbase ?_⟩
    · rw [List.length_append, hannounced]
      rfl
    · rw [AppliedBatch.apply, apply_batch, hspans, hdone]
      exact hsweep
  | unlock hw =>
    rw [hw] at hannounced hstore
    exact ⟨hseq, hannounced, hstore⟩
  | bump hw =>
    rw [hw] at hannounced hstore
    refine ⟨?_, hannounced, hstore⟩
    rw [UInt64.ofNat_add, ← hseq]
    rfl
  | connect | yield | observe | read => exact ⟨hseq, hannounced, hstore⟩

/-- **The client's steps.** -/
theorem Followed.step (h : Followed s₀ s) (hwritten : Written s₀ s) {e : FeedEvent}
    (hs : Moves s e s') : Followed s₀ s' := by
  have hle := Nat.le_refl s.version
  cases hs with
  | recv | lock | insert | unlock => exact h.written rfl rfl hle (Or.inl rfl)
  | sweep => exact h.written rfl rfl hle (Or.inr ⟨_, rfl⟩)
  | bump => exact h.written rfl rfl (Nat.le_succ _) (Or.inl rfl)
  | connect =>
    refine ⟨fun c hc => absurd hc List.not_mem_nil, ?_, rfl, h.reads, ?_⟩
    · intro c hc
      cases hc
    · intro hfresh
      cases hfresh
  | yield hseen =>
    refine ⟨fun c hc => ?_, h.observed, ?_, h.reads, h.fresh⟩
    · rcases List.mem_append.mp hc with hc | hc
      · exact h.in_flight c hc
      · rw [List.mem_singleton.mp hc]
        exact ⟨hwritten.seq, hle⟩
    · rw [List.getLast?_append]
      rfl
  | @observe changed in_flight hflight =>
    have hall := h.in_flight
    have hseen := h.seen
    rw [hflight] at hall hseen
    refine ⟨fun c hc => hall c (List.mem_cons_of_mem _ hc), ?_, ?_, h.reads, ?_⟩
    · intro c hc
      exact Option.some.inj hc ▸ hall changed List.mem_cons_self
    · -- the one that is taken was the last, or the last is still there
      refine hseen.trans (congrArg _ ?_)
      cases in_flight with
      | nil => rfl
      | cons c rest => simp [List.getLast?_cons]
    · intro hfresh
      cases hfresh
  | read hlock =>
    refine ⟨h.in_flight, h.observed, h.seen, fun r hr => ?_, fun _ => ?_⟩
    · rcases List.mem_append.mp hr with hr | hr
      · exact h.reads r hr
      · -- the lock is free, so the store is that of all applied batches
        rw [List.mem_singleton.mp hr]
        have hannounced := hwritten.announced
        refine ⟨s.applied.length, Nat.le_refl _, ?_, fun c hc => ?_⟩
        · rw [List.take_length]
          exact hwritten.unlocked hlock
        · exact (h.observed c hc).mono (by omega)
    · exact ⟨_, List.getLast?_concat, rfl⟩

/-- Every reachable state has both. -/
theorem followed_of_run {es : List FeedEvent} (h : exec step es (start s₀) = some s) :
    Written s₀ s ∧ Followed s₀ s := by
  refine exec_invariant (I := fun s => Written s₀ s ∧ Followed s₀ s) ?_
    ⟨start_written s₀, start_followed s₀⟩ h
  rintro s e s' ⟨hw, hf⟩ hs
  exact ⟨hw.step (moves_of_step hs), hf.step hw (moves_of_step hs)⟩

/-! ## Neither ahead nor missed -/

end Feed

end Spanfall
