/-
`Sniff.lean` -- `src/ingest/sniff.rs`: the accept loop of the gRPC port.

The loop takes one connection after the other out of the listener, looks at its
first bytes and hands it to tonic or to a task that answers 400. The look is
awaited inside the loop. `peek` waits for a byte, the end of the stream or an
error, as `tokio` documents, so a peer that brings none of them holds the loop
and everyone behind it ([`waiting_routed_iff`]).

One event is what one party does: a peer, the loop between two awaits, tonic at
its end of the channel. When tonic lets go of that end, `tokio` drops what is still
queued there. Connections are numbered as they arrive; the listener queues them in
that order.
-/
import Spanfall.Lib.Runs

set_option autoImplicit false

namespace Spanfall

open Lib.Runs

/-- The capacity of the channel to tonic. -/
def SNIFF_CHANNEL_CAPACITY : ℕ := 16

/-- The attempts of `looks_like_h2_preface`. -/
def SNIFF_ATTEMPTS : ℕ := 5

/-- `b"PRI "`. -/
def PREFACE_START : List UInt8 := [80, 82, 73, 32]

/-! ## Connections -/

/-- What has arrived on one connection. -/
structure Peer where
  delivered : List UInt8
  closed : Bool
  failed : Bool
  deriving DecidableEq

/-- A connection on which nothing has arrived. -/
def Peer.new : Peer := { delivered := [], closed := false, failed := false }

/-- What `peek` into a buffer of four bytes returns. -/
inductive Peek where
  | ok (buf : List UInt8)
  | err
  deriving DecidableEq

/-- The results a peek can have now. None of the bytes is consumed. -/
def Peer.can_peek (self : Peer) : Peek → Bool
  | .ok buf => decide (buf = self.delivered.take 4 ∧ (buf ≠ [] ∨ self.closed = true))
  | .err => self.failed

/-- One turn of `looks_like_h2_preface`; `none` is `continue`. -/
def sniff : Peek → Option Bool
  | .ok buf =>
    if buf.length = 4 then some (decide (buf = PREFACE_START))
    else if buf.length = 0 then some false
    else none
  | .err => some false

/-! ## The loop -/

/-- `io::Result<TcpStream>`. -/
inductive Incoming where
  | ok (conn : ℕ)
  | err
  deriving DecidableEq

/-- The connection in a result of `accept`. -/
def Incoming.conn : Incoming → Option ℕ
  | ok conn => some conn
  | err => none

/-- Where the loop waits. -/
inductive SniffLoop where
  /-- In `listener.accept`. -/
  | accepting
  /-- In `stream.peek`. -/
  | peeking (conn attempt : ℕ)
  /-- In the `sleep` before an attempt. -/
  | sleeping (conn attempt : ℕ)
  /-- In `tx.send`. -/
  | sending (item : Incoming)
  | returned
  deriving DecidableEq

/-- The connection that is being looked at. -/
def SniffLoop.sniffed : SniffLoop → Option ℕ
  | accepting => none
  | peeking conn _ => some conn
  | sleeping conn _ => some conn
  | sending _ => none
  | returned => none

/-- The accept loop with its peers and its channel. -/
structure Sniffer where
  peers : List Peer
  /-- How many connections the loop has accepted; the listener holds the others. -/
  accepted : ℕ
  state : SniffLoop
  channel : List Incoming
  /-- Tonic holds the receiving half. -/
  rx_open : Bool
  /-- What tonic has received. -/
  served : List ℕ
  /-- The connections with a spawned `reject_with_400`. -/
  rejecting : List ℕ
  /-- The connections that went down with the channel. -/
  dropped : List ℕ
  deriving DecidableEq

inductive SniffEvent where
  | connect
  | deliver (conn : ℕ) (bytes : List UInt8)
  | close (conn : ℕ)
  | fail (conn : ℕ)
  | accept
  | accept_error
  | peek (result : Peek)
  | wake
  | send
  | send_closed
  | receive
  | shutdown
  deriving DecidableEq

/-- The connected peer whose action the event is. -/
def SniffEvent.peer : SniffEvent → Option ℕ
  | deliver conn _ => some conn
  | close conn => some conn
  | fail conn => some conn
  | _ => none

namespace Sniffer

def start : Sniffer where
  peers := []
  accepted := 0
  state := .accepting
  channel := []
  rx_open := true
  served := []
  rejecting := []
  dropped := []

/-- The connections in the channel. -/
def queued (self : Sniffer) : List ℕ := self.channel.filterMap Incoming.conn

/-- The `else` branch: the 400 is written by a task of its own. -/
def reject (self : Sniffer) (conn : ℕ) : Sniffer :=
  { self with state := .accepting, rejecting := self.rejecting ++ [conn] }

/-- What the loop does with the result of attempt number `attempt`. -/
def peeked (self : Sniffer) (conn attempt : ℕ) (result : Peek) : Sniffer :=
  match sniff result with
  | some true => { self with state := .sending (.ok conn) }
  | some false => self.reject conn
  | none =>
    if attempt + 1 < SNIFF_ATTEMPTS then { self with state := .sleeping conn (attempt + 1) }
    else self.reject conn

/-- Something arrives on a connection. -/
def arrive (self : Sniffer) (conn : ℕ) (f : Peer → Option Peer) : Option Sniffer := do
  let peer ← self.peers[conn]?
  let peer ← f peer
  return { self with peers := self.peers.set conn peer }

def step (self : Sniffer) : SniffEvent → Option Sniffer
  | .connect => some { self with peers := self.peers ++ [Peer.new] }
  | .deliver conn bytes => self.arrive conn fun peer =>
      if peer.closed then none else some { peer with delivered := peer.delivered ++ bytes }
  | .close conn => self.arrive conn fun peer => some { peer with closed := true }
  | .fail conn => self.arrive conn fun peer => some { peer with failed := true }
  | .accept =>
    match self.state with
    | .accepting =>
      if self.accepted < self.peers.length then
        some { self with accepted := self.accepted + 1, state := .peeking self.accepted 0 }
      else none
    | _ => none
  | .accept_error =>
    match self.state with
    | .accepting => some { self with state := .sending .err }
    | _ => none
  | .peek result =>
    match self.state with
    | .peeking conn attempt =>
      if self.peers[conn]?.any (·.can_peek result) then some (self.peeked conn attempt result)
      else none
    | _ => none
  | .wake =>
    match self.state with
    | .sleeping conn attempt => some { self with state := .peeking conn attempt }
    | _ => none
  | .send =>
    match self.state with
    | .sending item =>
      if self.rx_open ∧ self.channel.length < SNIFF_CHANNEL_CAPACITY then
        some { self with state := .accepting, channel := self.channel ++ [item] }
      else none
    | _ => none
  | .send_closed =>
    match self.state with
    | .sending item =>
      if self.rx_open then none
      else some { self with state := .returned, dropped := self.dropped ++ item.conn.toList }
    | _ => none
  | .receive =>
    match self.rx_open, self.channel with
    | true, .ok conn :: channel => some { self with channel, served := self.served ++ [conn] }
    | true, .err :: channel => some { self with channel }
    | _, _ => none
  | .shutdown => some { self with
      rx_open := false, channel := [], dropped := self.dropped ++ self.queued }

/-! ## What is asked of it -/

/-- The connection is in the listener. -/
def waiting (s : Sniffer) (conn : ℕ) : Prop := s.accepted ≤ conn ∧ conn < s.peers.length

def has_room (s : Sniffer) : Prop :=
  s.rx_open = true ∧ s.channel.length < SNIFF_CHANNEL_CAPACITY

/-- The connection has been handed to tonic or to the 400 path. -/
def routed (s : Sniffer) (conn : ℕ) : Prop :=
  .ok conn ∈ s.channel ∨ conn ∈ s.served ∨ conn ∈ s.rejecting

/-- The connection is open and nothing has arrived on it. -/
def silent (s : Sniffer) (conn : ℕ) : Prop := s.peers[conn]? = some Peer.new

/-- The loop is at this connection, or has yet to come to it. -/
def pending (s : Sniffer) (conn : ℕ) : Prop := s.state.sniffed = some conn ∨ s.accepted ≤ conn

/-- Not an action of a peer that connected before `conn`. -/
def WithoutEarlier (conn : ℕ) (e : SniffEvent) : Prop := ∀ peer, e.peer = some peer → conn ≤ peer

/-- The loop can come to `conn` and route it without another action of an
earlier peer. -/
def reaches (s : Sniffer) (conn : ℕ) : Prop :=
  Can step (WithoutEarlier conn) (·.routed conn) s

/-! ## The events one by one -/

/-- What each event needs and what it does. -/
inductive Moves (s : Sniffer) : SniffEvent → Sniffer → Prop
  | connect : Moves s .connect { s with peers := s.peers ++ [Peer.new] }
  | arrive {e : SniffEvent} {conn : ℕ} {old peer : Peer} (hconn : e.peer = some conn)
      (hold : s.peers[conn]? = some old) (hheard : peer = Peer.new → old = Peer.new) :
      Moves s e { s with peers := s.peers.set conn peer }
  | accept (hstate : s.state = .accepting) (hwaiting : s.accepted < s.peers.length) :
      Moves s .accept { s with accepted := s.accepted + 1, state := .peeking s.accepted 0 }
  | accept_error (hstate : s.state = .accepting) :
      Moves s .accept_error { s with state := .sending .err }
  | preface {result : Peek} {conn attempt : ℕ} {peer : Peer}
      (hstate : s.state = .peeking conn attempt) (hpeer : s.peers[conn]? = some peer)
      (hcan : peer.can_peek result = true) :
      Moves s (.peek result) { s with state := .sending (.ok conn) }
  | reject {result : Peek} {conn attempt : ℕ} {peer : Peer}
      (hstate : s.state = .peeking conn attempt) (hpeer : s.peers[conn]? = some peer)
      (hcan : peer.can_peek result = true) : Moves s (.peek result) (s.reject conn)
  | retry {result : Peek} {conn attempt : ℕ} {peer : Peer}
      (hstate : s.state = .peeking conn attempt) (hpeer : s.peers[conn]? = some peer)
      (hcan : peer.can_peek result = true) :
      Moves s (.peek result) { s with state := .sleeping conn (attempt + 1) }
  | wake {conn attempt : ℕ} (hstate : s.state = .sleeping conn attempt) :
      Moves s .wake { s with state := .peeking conn attempt }
  | send {item : Incoming} (hstate : s.state = .sending item) (hroom : s.has_room) :
      Moves s .send { s with state := .accepting, channel := s.channel ++ [item] }
  | send_closed {item : Incoming} (hstate : s.state = .sending item) (hclosed : s.rx_open = false) :
      Moves s .send_closed { s with state := .returned, dropped := s.dropped ++ item.conn.toList }
  | receive {conn : ℕ} {channel : List Incoming} (hopen : s.rx_open = true)
      (hchannel : s.channel = .ok conn :: channel) :
      Moves s .receive { s with channel, served := s.served ++ [conn] }
  | receive_err {channel : List Incoming} (hopen : s.rx_open = true)
      (hchannel : s.channel = .err :: channel) :
      Moves s .receive { s with channel }
  | shutdown : Moves s .shutdown { s with
      rx_open := false, channel := [], dropped := s.dropped ++ s.queued }

variable {s s' : Sniffer} {e : SniffEvent} {conn : ℕ}

theorem arrive_eq_some {f : Peer → Option Peer} (h : s.arrive conn f = some s') :
    ∃ old peer, s.peers[conn]? = some old ∧ f old = some peer
      ∧ s' = { s with peers := s.peers.set conn peer } := by
  obtain ⟨old, hold, h⟩ := Option.bind_eq_some_iff.mp h
  obtain ⟨peer, hpeer, h⟩ := Option.bind_eq_some_iff.mp h
  exact ⟨old, peer, hold, hpeer, (Option.some.inj h).symm⟩

/-- The three ways on from a peek. -/
theorem peeked_cases (s : Sniffer) (conn attempt : ℕ) (result : Peek) :
    s.peeked conn attempt result = { s with state := .sending (.ok conn) }
      ∨ s.peeked conn attempt result = s.reject conn
      ∨ attempt + 1 < SNIFF_ATTEMPTS
        ∧ s.peeked conn attempt result = { s with state := .sleeping conn (attempt + 1) } := by
  unfold peeked
  cases sniff result with
  | some preface =>
    cases preface with
    | true => exact Or.inl rfl
    | false => exact Or.inr (Or.inl rfl)
  | none =>
    dsimp only
    by_cases hmore : attempt + 1 < SNIFF_ATTEMPTS
    · rw [if_pos hmore]
      exact Or.inr (Or.inr ⟨hmore, rfl⟩)
    · rw [if_neg hmore]
      exact Or.inr (Or.inl rfl)

theorem moves_of_step (h : s.step e = some s') : Moves s e s' := by
  cases e with
  | connect => exact Option.some.inj h ▸ .connect
  | deliver conn bytes =>
    obtain ⟨⟨delivered, closed, failed⟩, peer, hold, hpeer, rfl⟩ := arrive_eq_some h
    refine .arrive rfl hold ?_
    rintro rfl
    cases closed with
    | true => cases hpeer
    | false =>
      -- what has been delivered is still there
      obtain ⟨hempty, _, hfailed⟩ : delivered ++ bytes = [] ∧ false = false ∧ failed = false := by
        simpa [Peer.new] using hpeer
      rw [(List.append_eq_nil_iff.mp hempty).1, hfailed]
      rfl
  | close conn =>
    obtain ⟨old, peer, hold, hpeer, rfl⟩ := arrive_eq_some h
    refine .arrive rfl hold ?_
    rintro rfl
    cases congrArg Peer.closed (Option.some.inj hpeer)
  | fail conn =>
    obtain ⟨old, peer, hold, hpeer, rfl⟩ := arrive_eq_some h
    refine .arrive rfl hold ?_
    rintro rfl
    cases congrArg Peer.failed (Option.some.inj hpeer)
  | accept =>
    rw [step] at h
    cases hstate : s.state with
    | accepting =>
      rw [hstate] at h
      dsimp only at h
      by_cases hwaiting : s.accepted < s.peers.length
      · rw [if_pos hwaiting] at h
        exact Option.some.inj h ▸ .accept hstate hwaiting
      · rw [if_neg hwaiting] at h
        cases h
    | _ => rw [hstate] at h; cases h
  | accept_error =>
    rw [step] at h
    cases hstate : s.state with
    | accepting =>
      rw [hstate] at h
      exact Option.some.inj h ▸ .accept_error hstate
    | _ => rw [hstate] at h; cases h
  | peek result =>
    rw [step] at h
    cases hstate : s.state with
    | peeking conn attempt =>
      rw [hstate] at h
      dsimp only at h
      by_cases hcan : s.peers[conn]?.any (·.can_peek result) = true
      · rw [if_pos hcan] at h
        obtain ⟨peer, hpeer, hcan⟩ := (Option.any_eq_true _ _).mp hcan
        obtain rfl := Option.some.inj h
        rcases peeked_cases s conn attempt result with hs | hs | ⟨_, hs⟩
        · exact hs ▸ .preface hstate hpeer hcan
        · exact hs ▸ .reject hstate hpeer hcan
        · exact hs ▸ .retry hstate hpeer hcan
      · rw [if_neg hcan] at h
        cases h
    | _ => rw [hstate] at h; cases h
  | wake =>
    rw [step] at h
    cases hstate : s.state with
    | sleeping conn attempt =>
      rw [hstate] at h
      exact Option.some.inj h ▸ .wake hstate
    | _ => rw [hstate] at h; cases h
  | send =>
    rw [step] at h
    cases hstate : s.state with
    | sending item =>
      rw [hstate] at h
      dsimp only at h
      by_cases hroom : s.rx_open = true ∧ s.channel.length < SNIFF_CHANNEL_CAPACITY
      · rw [if_pos hroom] at h
        exact Option.some.inj h ▸ .send hstate hroom
      · rw [if_neg hroom] at h
        cases h
    | _ => rw [hstate] at h; cases h
  | send_closed =>
    rw [step] at h
    cases hstate : s.state with
    | sending item =>
      rw [hstate] at h
      dsimp only at h
      by_cases hopen : s.rx_open = true
      · rw [if_pos hopen] at h
        cases h
      · rw [if_neg hopen] at h
        exact Option.some.inj h ▸ .send_closed hstate (by simpa using hopen)
    | _ => rw [hstate] at h; cases h
  | receive =>
    rw [step] at h
    cases hopen : s.rx_open with
    | false => rw [hopen] at h; cases h
    | true =>
      cases hchannel : s.channel with
      | nil => rw [hopen, hchannel] at h; cases h
      | cons item channel =>
        cases item with
        | ok conn =>
          rw [hopen, hchannel] at h
          have hmove : Moves s .receive { s with channel, served := s.served ++ [conn] } :=
            .receive hopen hchannel
          rw [hopen] at hmove
          exact Option.some.inj h ▸ hmove
        | err =>
          rw [hopen, hchannel] at h
          have hmove : Moves s .receive { s with channel } := .receive_err hopen hchannel
          rw [hopen] at hmove
          exact Option.some.inj h ▸ hmove
  | shutdown => exact Option.some.inj h ▸ .shutdown

/-! ## Every reachable state -/

/-- What holds of the loop at any time. -/
structure Tracked (s : Sniffer) : Prop where
  accepted_le : s.accepted ≤ s.peers.length
  /-- The connection in hand is the last one accepted. -/
  in_hand : ∀ conn, s.state.sniffed = some conn → conn + 1 = s.accepted
  /-- A second attempt comes only after something has arrived. -/
  heard : ∀ conn attempt, s.state = .sleeping conn attempt → ¬s.silent conn
  sending_lt : ∀ conn, s.state = .sending (.ok conn) → conn < s.accepted
  routed_lt : ∀ conn, s.routed conn → conn < s.accepted
  returned : s.state = .returned → s.rx_open = false

theorem start_tracked : Tracked start where
  accepted_le := Nat.le_refl 0
  in_hand _ h := by cases h
  heard _ _ h := by cases h
  sending_lt _ h := by cases h
  routed_lt conn h := by
    rcases h with h | h | h
    · exact absurd h List.not_mem_nil
    · exact absurd h List.not_mem_nil
    · exact absurd h List.not_mem_nil
  returned h := by cases h

/-- A peer that has been heard stays heard. -/
theorem silent_of_moves (h : Moves s e s') (hconn : conn < s.peers.length) (hs : s'.silent conn) :
    s.silent conn := by
  cases h with
  | connect =>
    rw [silent, List.getElem?_append_left hconn] at hs
    exact hs
  | @arrive e i old peer hi hold hheard =>
    unfold silent at hs ⊢
    by_cases hic : i = conn
    · rw [hic, List.getElem?_set_self hconn, Option.some.injEq] at hs
      rw [← hic, hold, hheard hs]
    · rwa [List.getElem?_set_ne hic] at hs
  | _ => exact hs

/-- Only its own action ends a peer's silence. -/
theorem silent_moves (h : Moves s e s') (he : e.peer ≠ some conn) (hs : s.silent conn) :
    s'.silent conn := by
  have hconn : conn < s.peers.length := (List.getElem?_eq_some_iff.mp hs).1
  cases h with
  | connect =>
    rw [silent, List.getElem?_append_left hconn]
    exact hs
  | @arrive e i old peer hi hold hheard =>
    have hic : i ≠ conn := by
      rintro rfl
      exact he hi
    rw [silent, List.getElem?_set_ne hic]
    exact hs
  | _ => exact hs

/-- A peek needs something to have arrived. -/
theorem not_silent_of_peek {result : Peek} {peer : Peer} (hpeer : s.peers[conn]? = some peer)
    (hcan : peer.can_peek result = true) : ¬s.silent conn := by
  intro hs
  obtain rfl : peer = Peer.new := Option.some.inj (hpeer.symm.trans hs)
  cases result with
  | ok buf => simp [Peer.can_peek, Peer.new] at hcan
  | err => cases hcan

/-- Only the loop and tonic move connections, and only accepted ones. -/
theorem routed_of_moves (h : Moves s e s') (hr : s'.routed conn) :
    s.routed conn ∨ s.state = .sending (.ok conn) ∨ s.state.sniffed = some conn := by
  cases h with
  | @reject result i attempt peer hstate hpeer hcan =>
    rcases hr with hr | hr | hr
    · exact Or.inl (Or.inl hr)
    · exact Or.inl (Or.inr (Or.inl hr))
    · rcases List.mem_append.mp hr with hr | hr
      · exact Or.inl (Or.inr (Or.inr hr))
      · rw [List.mem_singleton.mp hr, hstate]
        exact Or.inr (Or.inr rfl)
  | @send item hstate hroom =>
    rcases hr with hr | hr
    · rcases List.mem_append.mp hr with hr | hr
      · exact Or.inl (Or.inl hr)
      · rw [hstate, List.mem_singleton.mp hr]
        exact Or.inr (Or.inl rfl)
    · exact Or.inl (Or.inr hr)
  | @receive i channel hopen hchannel =>
    refine Or.inl ?_
    unfold routed at hr ⊢
    rw [hchannel]
    rcases hr with hr | hr | hr
    · exact Or.inl (List.mem_cons_of_mem _ hr)
    · rcases List.mem_append.mp hr with hr | hr
      · exact Or.inr (Or.inl hr)
      · rw [List.mem_singleton.mp hr]
        exact Or.inl List.mem_cons_self
    · exact Or.inr (Or.inr hr)
  | @receive_err channel hopen hchannel =>
    refine Or.inl ?_
    unfold routed at hr ⊢
    rw [hchannel]
    rcases hr with hr | hr
    · exact Or.inl (List.mem_cons_of_mem _ hr)
    · exact Or.inr hr
  | shutdown => exact Or.inl (hr.elim (fun hin => absurd hin List.not_mem_nil) Or.inr)
  | _ => exact Or.inl hr

theorem accepted_of_moves (h : Moves s e s') : s.accepted ≤ s'.accepted := by
  cases h with
  | accept => exact Nat.le_succ _
  | _ => exact Nat.le_refl _

/-- **The step lemma.** -/
theorem Tracked.step (h : Tracked s) (hs : Moves s e s') : Tracked s' := by
  have hhand_lt : ∀ conn, s.state.sniffed = some conn → conn < s.peers.length := fun conn hc =>
    Nat.lt_of_lt_of_le (h.in_hand conn hc ▸ Nat.lt_succ_self conn) h.accepted_le
  constructor
  case accepted_le =>
    have hle := h.accepted_le
    cases hs with
    | connect =>
      rw [List.length_append]
      exact Nat.le_succ_of_le hle
    | arrive =>
      rw [List.length_set]
      exact hle
    | accept hstate hwaiting => exact hwaiting
    | _ => exact hle
  case in_hand =>
    intro conn hc
    cases hs with
    | accept hstate hwaiting =>
      obtain rfl : s.accepted = conn := Option.some.inj hc
      rfl
    | accept_error | preface | reject | send | send_closed => cases hc
    | retry hstate => exact h.in_hand conn (by rw [hstate]; exact hc)
    | wake hstate => exact h.in_hand conn (by rw [hstate]; exact hc)
    | _ => exact h.in_hand conn hc
  case heard =>
    intro conn attempt hc hsilent
    -- a sleeping loop either was sleeping or has just peeked
    by_cases hold : s.state = .sleeping conn attempt
    · exact h.heard conn attempt hold
        (silent_of_moves hs (hhand_lt conn (by rw [hold]; rfl)) hsilent)
    · cases hs with
      | accept | accept_error | preface | reject | wake | send | send_closed => cases hc
      | @retry result i k peer hstate hpeer hcan =>
        obtain ⟨rfl, _⟩ : i = conn ∧ k + 1 = attempt := by simpa using hc
        exact not_silent_of_peek hpeer hcan hsilent
      | _ => exact hold hc
  case sending_lt =>
    intro conn hc
    cases hs with
    | accept | accept_error | reject | retry | wake | send | send_closed => cases hc
    | @preface result i k peer hstate hpeer hcan =>
      obtain rfl : i = conn := by simpa using hc
      have hlt := h.in_hand i (by rw [hstate]; rfl)
      exact hlt ▸ Nat.lt_succ_self i
    | _ => exact h.sending_lt conn hc
  case routed_lt =>
    intro conn hr
    refine Nat.lt_of_lt_of_le ?_ (accepted_of_moves hs)
    rcases routed_of_moves hs hr with hr | hstate | hstate
    · exact h.routed_lt conn hr
    · exact h.sending_lt conn hstate
    · exact h.in_hand conn hstate ▸ Nat.lt_succ_self conn
  case returned =>
    intro hc
    cases hs with
    | accept | accept_error | preface | reject | retry | wake | send => cases hc
    | send_closed hstate hclosed => exact hclosed
    | shutdown => rfl
    | _ => exact h.returned hc

theorem tracked_of_run {es : List SniffEvent} (h : exec step es start = some s) : Tracked s :=
  exec_invariant (fun _ _ _ ht hs => ht.step (moves_of_step hs)) start_tracked h

/-! ## A silent peer holds the loop -/

/-- While an earlier peer that the loop has not passed stays silent, the loop
does not pass it. -/
theorem held_by_silent {p : ℕ} (ht : Tracked s) (hp : p < conn) (hpending : s.pending p)
    (hsilent : s.silent p) : ¬s.reaches conn := by
  refine not_can_of_invariant (I := fun s => Tracked s ∧ s.pending p ∧ s.silent p) ?_ ?_
    ⟨ht, hpending, hsilent⟩
  · rintro s e s' ⟨ht, hpending, hsilent⟩ hallowed hs
    have hmove := moves_of_step hs
    have hother : e.peer ≠ some p := fun he => absurd (hallowed p he) (Nat.not_le_of_lt hp)
    refine ⟨ht.step hmove, ?_, silent_moves hmove hother hsilent⟩
    unfold pending at hpending ⊢
    cases hmove with
    | accept hstate hwaiting =>
      -- the connection taken is `p` or one in front of it
      rw [hstate] at hpending
      have hle : s.accepted ≤ p := hpending.resolve_left (by simp [SniffLoop.sniffed])
      rcases Nat.eq_or_lt_of_le hle with rfl | hlt
      · exact Or.inl rfl
      · exact Or.inr hlt
    | @preface result i k peer hstate hpeer hcan =>
      refine Or.inr (hpending.resolve_left fun hc => ?_)
      obtain rfl : i = p := by simpa [hstate, SniffLoop.sniffed] using hc
      exact not_silent_of_peek hpeer hcan hsilent
    | @reject result i k peer hstate hpeer hcan =>
      refine Or.inr (hpending.resolve_left fun hc => ?_)
      obtain rfl : i = p := by simpa [hstate, SniffLoop.sniffed] using hc
      exact not_silent_of_peek hpeer hcan hsilent
    | retry hstate => rwa [hstate] at hpending
    | wake hstate => rwa [hstate] at hpending
    | accept_error hstate | send hstate | send_closed hstate => rwa [hstate] at hpending
    | _ => exact hpending
  · rintro s ⟨ht, hpending, _⟩ hrouted
    have hlt := ht.routed_lt conn hrouted
    rcases hpending with hc | hle
    · have := ht.in_hand p hc
      omega
    · omega

/-! ## Without one it moves on -/

theorem without_earlier {e : SniffEvent} (h : e.peer = none) : WithoutEarlier conn e :=
  fun peer hpeer => by
    rw [h] at hpeer
    cases hpeer

/-- Back in `accept`, and no peer has acted. -/
structure Passed (s₀ s : Sniffer) : Prop where
  state : s.state = .accepting
  peers : s.peers = s₀.peers
  accepted : s.accepted = s₀.accepted
  rx_open : s.rx_open = true

/-- Tonic takes the head of the channel. -/
theorem step_receive {head : Incoming} {rest : List Incoming} (hopen : s.rx_open = true)
    (hchannel : s.channel = head :: rest) :
    ∃ served, s.step .receive = some { s with channel := rest, served } := by
  obtain ⟨peers, accepted, state, channel, rx_open, served, rejecting, dropped⟩ := s
  obtain rfl : rx_open = true := hopen
  obtain rfl : channel = head :: rest := hchannel
  cases head with
  | ok i => exact ⟨served ++ [i], rfl⟩
  | err => exact ⟨served, rfl⟩

/-- `tx.send` returns once there is room, and tonic makes room. -/
theorem passes_sending {item : Incoming} (hstate : s.state = .sending item)
    (hopen : s.rx_open = true) :
    Can step (WithoutEarlier conn)
      (fun s' => Passed s s' ∧ ∀ i, item = .ok i → s'.routed i) s := by
  induction hchannel : s.channel generalizing s with
  | nil =>
    have hroom : s.rx_open = true ∧ s.channel.length < SNIFF_CHANNEL_CAPACITY :=
      ⟨hopen, by rw [hchannel]; decide⟩
    have hsend : s.step .send
        = some { s with state := .accepting, channel := s.channel ++ [item] } := by
      rw [step, hstate]
      exact if_pos hroom
    refine .cons (without_earlier rfl) hsend (.here ⟨⟨rfl, rfl, rfl, hopen⟩, ?_⟩)
    rintro i rfl
    exact Or.inl (List.mem_append_right _ (List.mem_singleton_self _))
  | cons head rest ih =>
    obtain ⟨served, hreceive⟩ := step_receive hopen hchannel
    have hrest := ih (s := { s with channel := rest, served }) hstate hopen rfl
    refine .cons (without_earlier rfl) hreceive (.trans hrest fun s' h => .here ?_)
    exact ⟨⟨h.1.state, h.1.peers, h.1.accepted, h.1.rx_open⟩, h.2⟩

theorem step_accept (hstate : s.state = .accepting) (hwaiting : s.accepted < s.peers.length) :
    s.step .accept
      = some { s with accepted := s.accepted + 1, state := .peeking s.accepted 0 } := by
  rw [step, hstate]
  exact if_pos hwaiting

/-- Where something has arrived, a peek returns. -/
theorem exists_peek {peer : Peer} (h : peer ≠ Peer.new) : ∃ result, peer.can_peek result = true := by
  obtain ⟨delivered, closed, failed⟩ := peer
  cases failed with
  | true => exact ⟨.err, rfl⟩
  | false =>
    refine ⟨.ok (delivered.take 4), decide_eq_true ⟨rfl, ?_⟩⟩
    cases closed with
    | true => exact Or.inr rfl
    | false =>
      refine Or.inl fun hempty => h ?_
      have : delivered = [] := by simpa using hempty
      rw [this]
      rfl

/-- **A peer that has been heard is passed** after at most five peeks. -/
theorem passes_peeking {i attempt : ℕ} (hstate : s.state = .peeking i attempt)
    (hopen : s.rx_open = true) (hlt : i < s.peers.length) (hheard : ¬s.silent i) :
    Can step (WithoutEarlier conn) (fun s' => Passed s s' ∧ s'.routed i) s := by
  obtain ⟨peer, hpeer⟩ : ∃ peer, s.peers[i]? = some peer := ⟨_, List.getElem?_eq_getElem hlt⟩
  obtain ⟨result, hcan⟩ := exists_peek fun h => hheard (hpeer.trans (congrArg some h))
  induction hleft : SNIFF_ATTEMPTS - attempt using Nat.strongRecOn generalizing s attempt with
  | ind left ih =>
    have hpeek : s.step (.peek result) = some (s.peeked i attempt result) := by
      rw [step, hstate]
      exact if_pos ((Option.any_eq_true _ _).mpr ⟨peer, hpeer, hcan⟩)
    refine .cons (without_earlier rfl) hpeek ?_
    rcases peeked_cases s i attempt result with hs | hs | ⟨hmore, hs⟩
    · rw [hs]
      refine .trans (passes_sending rfl hopen) fun s' h => .here ?_
      exact ⟨⟨h.1.state, h.1.peers, h.1.accepted, h.1.rx_open⟩, h.2 i rfl⟩
    · rw [hs]
      refine .here ⟨⟨rfl, rfl, rfl, hopen⟩, ?_⟩
      exact Or.inr (Or.inr (List.mem_append_right _ (List.mem_singleton_self i)))
    · -- one attempt fewer is left after the sleep
      rw [hs]
      refine .cons (e := .wake) (without_earlier rfl) rfl ?_
      refine .trans (ih (SNIFF_ATTEMPTS - (attempt + 1)) (by omega) rfl hopen hlt hheard hpeer
        rfl) fun s' h => .here ?_
      exact ⟨⟨h.1.state, h.1.peers, h.1.accepted, h.1.rx_open⟩, h.2⟩

/-- Wherever the loop is, it comes back to `accept` if it is not held there. -/
theorem passes (ht : Tracked s) (hopen : s.rx_open = true)
    (hheard : ∀ i, s.state.sniffed = some i → ¬s.silent i) :
    Can step (WithoutEarlier conn) (Passed s) s := by
  have hlt : ∀ i, s.state.sniffed = some i → i < s.peers.length := fun i hi =>
    Nat.lt_of_lt_of_le (ht.in_hand i hi ▸ Nat.lt_succ_self i) ht.accepted_le
  cases hstate : s.state with
  | accepting => exact .here ⟨hstate, rfl, rfl, hopen⟩
  | peeking i attempt =>
    rw [hstate] at hheard hlt
    exact .trans (passes_peeking hstate hopen (hlt i rfl) (hheard i rfl)) fun s' h => .here h.1
  | sleeping i attempt =>
    rw [hstate] at hheard hlt
    have hwake : s.step .wake = some { s with state := .peeking i attempt } := by
      rw [step, hstate]
    refine .cons (without_earlier rfl) hwake ?_
    refine .trans (passes_peeking rfl hopen (hlt i rfl) (hheard i rfl)) fun s' h => .here ?_
    exact ⟨h.1.state, h.1.peers, h.1.accepted, h.1.rx_open⟩
  | sending item => exact .trans (passes_sending hstate hopen) fun s' h => .here h.1
  | returned =>
    rw [ht.returned hstate] at hopen
    cases hopen

/-- From `accept`, the queue is worked off up to `conn`. -/
theorem reaches_of_accepting (hstate : s.state = .accepting) (hopen : s.rx_open = true)
    (hwaiting : s.waiting conn) (hheard : ∀ i, s.accepted ≤ i → i ≤ conn → ¬s.silent i) :
    s.reaches conn := by
  obtain ⟨hle, hlt⟩ := hwaiting
  induction hleft : conn - s.accepted generalizing s with
  | zero =>
    obtain rfl : s.accepted = conn := by omega
    have haccept := step_accept hstate hlt
    refine .cons (without_earlier rfl) haccept ?_
    exact .trans (passes_peeking rfl hopen hlt (hheard _ hle hle)) fun s' h => .here h.2
  | succ left ih =>
    have hnext : s.accepted < s.peers.length := by omega
    refine .cons (without_earlier rfl) (step_accept hstate hnext) ?_
    refine .trans (passes_peeking rfl hopen hnext (hheard _ (Nat.le_refl _) hle)) fun s' h => ?_
    -- the head of the queue is passed, and the others are as they were
    obtain ⟨⟨hstate', hpeers, haccepted, hopen'⟩, _⟩ := h
    dsimp only at hpeers haccepted
    refine ih hstate' hopen' (fun i hi hic hs => hheard i (by omega) hic ?_) (by omega)
      (by rw [hpeers]; exact hlt) (by omega)
    rwa [silent, hpeers] at hs

/-! ## Who can be reached -/

/-- **A waiting connection is reached exactly when no peer in front of it is
silent**: neither the one the loop is looking at nor one ahead in the
listener. -/
theorem waiting_routed_iff {es : List SniffEvent} (h : exec step es start = some s)
    (hwaiting : s.waiting conn) (hroom : s.has_room) :
    s.reaches conn ↔ ∀ p < conn, s.pending p → ¬s.silent p := by
  have ht := tracked_of_run h
  constructor
  · intro hreaches p hp hpending hsilent
    exact held_by_silent ht hp hpending hsilent hreaches
  · intro hheard
    obtain ⟨hle, hlt⟩ := hwaiting
    have hhand : ∀ i, s.state.sniffed = some i → ¬s.silent i := fun i hi =>
      hheard i (by have := ht.in_hand i hi; omega) (Or.inl hi)
    refine .trans (passes ht hroom.1 hhand) fun s' hpassed => ?_
    obtain ⟨hstate, hpeers, haccepted, hopen⟩ := hpassed
    have hqueue : ∀ i, s'.accepted ≤ i → i < conn → ¬s'.silent i := fun i hi hic hs =>
      hheard i hic (Or.inr (haccepted ▸ hi)) (by rwa [silent, hpeers] at hs)
    have hlt' : conn < s'.peers.length := by rw [hpeers]; exact hlt
    have hle' : s'.accepted ≤ conn := by rw [haccepted]; exact hle
    by_cases hsilent : s'.silent conn
    · -- its own move may be waited for: it hangs up
      have hclose : s'.step (.close conn)
          = some { s' with peers := s'.peers.set conn { Peer.new with closed := true } } := by
        rw [step, arrive, show s'.peers[conn]? = some Peer.new from hsilent]
        rfl
      refine .cons (e := .close conn) (fun peer hpeer => Nat.le_of_eq (Option.some.inj hpeer))
        hclose ?_
      refine reaches_of_accepting hstate hopen ⟨hle', by rw [List.length_set]; exact hlt'⟩ ?_
      intro i hi hic hs
      unfold silent at hs
      rcases Nat.eq_or_lt_of_le hic with rfl | hic
      · rw [List.getElem?_set_self hlt'] at hs
        cases hs
      · rw [List.getElem?_set_ne (Nat.ne_of_gt hic)] at hs
        exact hqueue i hi hic hs
    · refine reaches_of_accepting hstate hopen ⟨hle', hlt'⟩ fun i hi hic => ?_
      rcases Nat.eq_or_lt_of_le hic with rfl | hic
      · exact hsilent
      · exact hqueue i hi hic

/-- A peer that has sent one byte of the four is in the loop's hands, another
one waits. -/
def slow_preface : List SniffEvent := [.connect, .deliver 0 [80], .accept, .connect]

theorem waiting_routed_iff_slow :
    ∃ s, exec step slow_preface start = some s ∧ s.reaches 1 := by
  have hrun : exec step slow_preface start = some _ := rfl
  refine ⟨_, hrun, (waiting_routed_iff hrun ⟨by decide, by decide⟩
    ⟨rfl, by decide⟩).mpr fun p hp _ hsilent => ?_⟩
  obtain rfl : p = 0 := by omega
  cases hsilent

/-- A peer that connects and sends nothing, and one behind it: the one behind is
never reached, whatever anyone else does. -/
theorem silent_peer_stalls_the_port :
    ∃ es s, exec step es start = some s ∧ s.waiting 1 ∧ s.has_room ∧ ¬s.reaches 1 := by
  have hrun : exec step [.connect, .accept, .connect] start
      = some { start with peers := [Peer.new, Peer.new], accepted := 1, state := .peeking 0 0 } := rfl
  refine ⟨_, _, hrun, ⟨by decide, by decide⟩, ⟨rfl, by decide⟩, ?_⟩
  exact held_by_silent (tracked_of_run hrun) (by decide) (Or.inl rfl) rfl

end Sniffer

end Spanfall
