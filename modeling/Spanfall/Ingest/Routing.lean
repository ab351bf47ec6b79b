/-
`Routing.lean` -- where the connections of the gRPC port end up.

The accept loop has one connection in hand at a time, so what it has accepted is
with tonic, in the channel to it, in its hand or with a task that answers 400, each
connection in one of these places. Tonic gets its connections in the order in which
they were accepted, and only such as begin with the four bytes that the loop looks
for; and one that did so before the loop came to it gets there, unless the socket
failed. As long as tonic holds its end of the channel no connection is dropped; when
it lets go, those in the channel are, and the one that the loop has for it
([`connections_routed`]).
-/
import Spanfall.Ingest.Sniff

set_option autoImplicit false

namespace Spanfall

open Lib.Runs

/-- The connection that the loop has in hand. -/
def SniffLoop.in_hand : SniffLoop → List ℕ
  | accepting => []
  | peeking conn _ => [conn]
  | sleeping conn _ => [conn]
  | sending item => item.conn.toList
  | returned => []

namespace Sniffer

/-- The connections that the loop has let go of for tonic, in that order: those that
tonic has, those that were dropped, and those in the channel. -/
def handed (s : Sniffer) : List ℕ := s.served ++ s.dropped ++ s.queued

/-- The connection has begun with `PRI `, as the HTTP/2 preface does. -/
def prefaced (s : Sniffer) (conn : ℕ) : Prop :=
  ∃ peer, s.peers[conn]? = some peer ∧ PREFACE_START <+: peer.delivered

/-- The socket has failed. -/
def failed (s : Sniffer) (conn : ℕ) : Prop :=
  ∃ peer, s.peers[conn]? = some peer ∧ peer.failed = true

variable {s s' : Sniffer} {e : SniffEvent} {conn : ℕ}

/-! ## One event -/

/-- What has arrived stays. -/
theorem peer_kept (h : s.step e = some s') {peer : Peer} (hpeer : s.peers[conn]? = some peer) :
    ∃ peer', s'.peers[conn]? = some peer' ∧ peer.delivered <+: peer'.delivered
      ∧ (peer.failed = true → peer'.failed = true) := by
  have same : s'.peers = s.peers → ∃ peer', s'.peers[conn]? = some peer'
      ∧ peer.delivered <+: peer'.delivered ∧ (peer.failed = true → peer'.failed = true) := fun hp => by
    rw [hp]
    exact ⟨peer, hpeer, List.prefix_refl _, id⟩
  have arrives : ∀ {c : ℕ} {f : Peer → Option Peer}, s.arrive c f = some s' →
      (∀ old new, f old = some new → old.delivered <+: new.delivered
        ∧ (old.failed = true → new.failed = true)) → ∃ peer', s'.peers[conn]? = some peer'
      ∧ peer.delivered <+: peer'.delivered ∧ (peer.failed = true → peer'.failed = true) := by
    intro c f harrive hf
    obtain ⟨old, new, hold, hnew, rfl⟩ := arrive_eq_some harrive
    by_cases hc : c = conn
    · subst hc
      obtain rfl := Option.some.inj (hold.symm.trans hpeer)
      obtain ⟨hlt, -⟩ := List.getElem?_eq_some_iff.mp hold
      exact ⟨new, by rw [List.getElem?_set_self hlt], hf _ _ hnew⟩
    · exact ⟨peer, by rw [List.getElem?_set_ne hc]; exact hpeer, List.prefix_refl _, id⟩
  cases e with
  | deliver c bytes =>
    refine arrives h fun old new hnew => ?_
    by_cases hclosed : old.closed = true
    · rw [if_pos hclosed] at hnew
      cases hnew
    · rw [if_neg hclosed] at hnew
      rw [← Option.some.inj hnew]
      exact ⟨List.prefix_append _ _, id⟩
  | close c =>
    refine arrives h fun old new hnew => ?_
    rw [← Option.some.inj hnew]
    exact ⟨List.prefix_refl _, id⟩
  | fail c =>
    refine arrives h fun old new hnew => ?_
    rw [← Option.some.inj hnew]
    exact ⟨List.prefix_refl _, fun _ => rfl⟩
  | connect =>
    obtain ⟨hlt, -⟩ := List.getElem?_eq_some_iff.mp hpeer
    rw [← Option.some.inj h]
    exact ⟨peer, by rw [List.getElem?_append_left hlt]; exact hpeer, List.prefix_refl _, id⟩
  | _ =>
    refine same ?_
    cases moves_of_step h with
    | arrive hconn => cases hconn
    | _ => rfl

theorem prefaced_kept (h : s.step e = some s') (hprefaced : s.prefaced conn) :
    s'.prefaced conn := by
  obtain ⟨peer, hpeer, hprefix⟩ := hprefaced
  obtain ⟨peer', hpeer', hgrown, -⟩ := peer_kept h hpeer
  exact ⟨peer', hpeer', hprefix.trans hgrown⟩

theorem failed_kept (h : s.step e = some s') (hfailed : s.failed conn) : s'.failed conn := by
  obtain ⟨peer, hpeer, hfail⟩ := hfailed
  obtain ⟨peer', hpeer', -, hgrown⟩ := peer_kept h hpeer
  exact ⟨peer', hpeer', hgrown hfail⟩

/-- What a look at the connection says about it. -/
theorem sniff_exact {peer : Peer} {result : Peek} (hcan : peer.can_peek result = true) :
    (sniff result = some true → PREFACE_START <+: peer.delivered)
      ∧ (PREFACE_START <+: peer.delivered → sniff result = some true ∨ peer.failed = true) := by
  cases result with
  | err =>
    refine ⟨fun h => ?_, fun _ => Or.inr hcan⟩
    cases h
  | ok buf =>
    obtain ⟨rfl, -⟩ := of_decide_eq_true hcan
    constructor
    · intro h
      rw [sniff] at h
      by_cases hlength : (peer.delivered.take 4).length = 4
      · rw [if_pos hlength, Option.some.injEq, decide_eq_true_iff] at h
        exact h ▸ List.take_prefix _ _
      · rw [if_neg hlength] at h
        split at h <;> cases h
    · intro hprefix
      left
      have htake : peer.delivered.take 4 = PREFACE_START :=
        (List.prefix_iff_eq_take.mp hprefix).symm
      rw [sniff, htake]
      rfl

/-- One look of the loop. -/
theorem peek_step {result : Peek} (h : s.step (.peek result) = some s') :
    ∃ conn attempt peer, s.state = .peeking conn attempt ∧ s.peers[conn]? = some peer
      ∧ peer.can_peek result = true ∧ s' = s.peeked conn attempt result := by
  rw [step] at h
  cases hstate : s.state with
  | peeking conn attempt =>
    rw [hstate] at h
    dsimp only at h
    by_cases hcan : s.peers[conn]?.any (·.can_peek result) = true
    · rw [if_pos hcan, Option.some.injEq] at h
      obtain ⟨peer, hpeer, hpeek⟩ := (Option.any_eq_true _ _).mp hcan
      exact ⟨conn, attempt, peer, rfl, hpeer, hpeek, h.symm⟩
    · rw [if_neg hcan] at h
      cases h
  | _ =>
    rw [hstate] at h
    cases h

/-! ## The channel -/

/-- The channel never holds more than its capacity. Nothing is dropped as long as
tonic holds its end, and nothing is left in the channel when it does not. -/
structure Bounded (s : Sniffer) : Prop where
  room : s.channel.length ≤ SNIFF_CHANNEL_CAPACITY
  kept : s.rx_open = true → s.dropped = []
  emptied : s.rx_open = false → s.channel = []
  dropped_le : s.dropped.length ≤ SNIFF_CHANNEL_CAPACITY + 1
  /-- The last one is dropped by the loop, which returns. -/
  dropped_lt : s.state ≠ .returned → s.dropped.length ≤ SNIFF_CHANNEL_CAPACITY

theorem start_bounded : Bounded start where
  room := Nat.zero_le _
  kept _ := rfl
  emptied _ := rfl
  dropped_le := Nat.zero_le _
  dropped_lt _ := Nat.zero_le _

theorem queued_length_le (s : Sniffer) : s.queued.length ≤ s.channel.length :=
  List.length_filterMap_le _ _

theorem Bounded.step (h : s.Bounded) (hs : Moves s e s') : s'.Bounded := by
  obtain ⟨room, kept, emptied, dropped_le, dropped_lt⟩ := h
  cases hs with
  | connect | arrive => exact ⟨room, kept, emptied, dropped_le, dropped_lt⟩
  | accept hstate | accept_error hstate | preface hstate | reject hstate | retry hstate
  | wake hstate =>
    exact ⟨room, kept, emptied, dropped_le, fun _ => dropped_lt (by simp [hstate])⟩
  | send hstate hroom =>
    refine ⟨?_, kept, fun hclosed => ?_, dropped_le, fun _ => dropped_lt (by simp [hstate])⟩
    · rw [List.length_append]
      exact hroom.2
    · rw [hroom.1] at hclosed
      cases hclosed
  | @send_closed item hstate hclosed =>
    have hle := dropped_lt (by simp [hstate])
    refine ⟨room, fun hopen => ?_, emptied, ?_, fun hreturned => absurd rfl hreturned⟩
    · rw [hclosed] at hopen
      cases hopen
    · have hone : item.conn.toList.length ≤ 1 := by cases item <;> simp [Incoming.conn]
      rw [List.length_append]
      omega
  | receive hopen hchannel | receive_err hopen hchannel =>
    rw [hchannel, List.length_cons] at room
    refine ⟨Nat.le_of_succ_le room, kept, fun hclosed => ?_, dropped_le, dropped_lt⟩
    rw [hopen] at hclosed
    cases hclosed
  | shutdown =>
    -- what is queued is dropped, once
    have hle : (s.dropped ++ s.queued).length ≤ SNIFF_CHANNEL_CAPACITY
        ∨ s.dropped ++ s.queued = s.dropped := by
      cases hopen : s.rx_open with
      | true =>
        rw [kept hopen, List.nil_append]
        exact Or.inl (Nat.le_trans (queued_length_le s) room)
      | false =>
        rw [queued, emptied hopen, List.filterMap_nil, List.append_nil]
        exact Or.inr rfl
    refine ⟨Nat.zero_le _, fun hopen => absurd hopen Bool.false_ne_true, fun _ => rfl, ?_,
      fun hreturned => ?_⟩
    · rcases hle with hle | hsame
      · exact Nat.le_succ_of_le hle
      · rw [hsame]
        exact dropped_le
    · rcases hle with hle | hsame
      · exact hle
      · rw [hsame]
        exact dropped_lt hreturned

/-! ## Every reachable state -/

/-- Where the accepted connections are. -/
structure Routes (s : Sniffer) : Prop where
  places : (s.handed ++ s.state.in_hand ++ s.rejecting).Perm (List.range s.accepted)
  in_order : (s.handed ++ s.state.in_hand).Pairwise (· < ·)
  rejected : (s.rejecting ++ s.state.in_hand).Pairwise (· < ·)
  preface : ∀ conn, conn ∈ s.handed ∨ s.state = .sending (.ok conn) → s.prefaced conn

theorem start_routes : Routes start where
  places := List.Perm.refl _
  in_order := List.Pairwise.nil
  rejected := List.Pairwise.nil
  preface conn h := by
    rcases h with h | h
    · cases h
    · cases h

/-- A number as large as the bound may follow. -/
theorem pairwise_snoc {places : List ℕ} {n : ℕ} (h : places.Pairwise (· < ·))
    (hlt : ∀ x ∈ places, x < n) : (places ++ [n]).Pairwise (· < ·) := by
  refine List.pairwise_append.mpr ⟨h, List.pairwise_singleton _ _, fun x hx y hy => ?_⟩
  rw [List.mem_singleton.mp hy]
  exact hlt x hx

/-- Nothing that has been accepted moves. -/
theorem Routes.same (h : s.Routes) (hs : s.step e = some s') (hhanded : s'.handed = s.handed)
    (hin : s'.state.in_hand = s.state.in_hand) (hrejecting : s'.rejecting = s.rejecting)
    (haccepted : s'.accepted = s.accepted)
    (hpreface : ∀ conn, s'.state = .sending (.ok conn) → s'.prefaced conn) : s'.Routes where
  places := by
    rw [hhanded, hin, hrejecting, haccepted]
    exact h.places
  in_order := by
    rw [hhanded, hin]
    exact h.in_order
  rejected := by
    rw [hrejecting, hin]
    exact h.rejected
  preface conn hconn := by
    rcases hconn with hconn | hconn
    · rw [hhanded] at hconn
      exact prefaced_kept hs (h.preface conn (Or.inl hconn))
    · exact hpreface conn hconn

/-- One look: the connection stays in hand, or the task that answers 400 gets it. -/
theorem Routes.peek (h : s.Routes) {result : Peek} (hs : s.step (.peek result) = some s') :
    s'.Routes := by
  obtain ⟨conn, attempt, peer, hstate, hpeer, hcan, hnext⟩ := peek_step hs
  have hhand : s.state.in_hand = [conn] := by rw [hstate]; rfl
  have hrejected : s.peeked conn attempt result = s.reject conn → s'.Routes := by
    intro hreject
    rw [hreject] at hnext
    obtain ⟨hplaces, hin_order, hrejected, hpreface⟩ := h
    rw [hhand] at hplaces hin_order hrejected
    subst hnext
    refine ⟨?_, ?_, ?_, fun c hc => ?_⟩
    · refine List.Perm.trans ?_ hplaces
      simp only [handed, queued, reject, SniffLoop.in_hand, List.append_nil, List.append_assoc]
      refine List.Perm.append_left _ (List.Perm.append_left _ (List.Perm.append_left _ ?_))
      exact List.perm_append_comm
    · rw [reject, SniffLoop.in_hand, List.append_nil]
      exact (List.pairwise_append.mp hin_order).1
    · rw [reject, SniffLoop.in_hand, List.append_nil]
      exact hrejected
    · rcases hc with hc | hc
      · exact prefaced_kept hs (hpreface c (Or.inl hc))
      · cases hc
  unfold peeked at hnext hrejected
  cases hsniff : sniff result with
  | none =>
    rw [hsniff] at hnext hrejected
    dsimp only at hnext hrejected
    by_cases hmore : attempt + 1 < SNIFF_ATTEMPTS
    · rw [if_pos hmore] at hnext
      refine h.same hs ?_ ?_ ?_ ?_ fun c hc => ?_
      · rw [hnext]; rfl
      · rw [hnext, hhand]; rfl
      · rw [hnext]
      · rw [hnext]
      · rw [hnext] at hc
        cases hc
    · exact hrejected (if_neg hmore)
  | some preface =>
    rw [hsniff] at hnext hrejected
    cases preface with
    | false => exact hrejected rfl
    | true =>
      dsimp only at hnext
      refine h.same hs ?_ ?_ ?_ ?_ fun c hc => ?_
      · rw [hnext]; rfl
      · rw [hnext, hhand]; rfl
      · rw [hnext]
      · rw [hnext]
      · rw [hnext] at hc
        obtain rfl := Incoming.ok.inj (SniffLoop.sending.inj hc)
        exact prefaced_kept hs ⟨peer, hpeer, (sniff_exact hcan).1 hsniff⟩

/-- The loop takes the next connection. -/
theorem Routes.accept (h : s.Routes) (hstate : s.state = .accepting)
    (hs : s.step .accept = some s')
    (hnext : s' = { s with accepted := s.accepted + 1, state := .peeking s.accepted 0 }) :
    s'.Routes := by
  have hhand : s.state.in_hand = [] := by rw [hstate]; rfl
  have hlt : ∀ c ∈ s.handed ++ s.rejecting, c < s.accepted := by
    intro c hc
    refine List.mem_range.mp (h.places.subset ?_)
    rwa [hhand, List.append_nil]
  obtain ⟨hplaces, hin_order, hrejected, hpreface⟩ := h
  rw [hhand, List.append_nil] at hplaces hin_order hrejected
  subst hnext
  refine ⟨?_, ?_, ?_, fun c hc => ?_⟩
  · rw [List.range_succ]
    refine List.Perm.trans ?_ (hplaces.append_right [s.accepted])
    simp only [handed, queued, SniffLoop.in_hand, List.append_assoc]
    refine List.Perm.append_left _ (List.Perm.append_left _ (List.Perm.append_left _ ?_))
    exact List.perm_append_comm
  · exact pairwise_snoc hin_order fun c hc => hlt c (List.mem_append_left _ hc)
  · exact pairwise_snoc hrejected fun c hc => hlt c (List.mem_append_right _ hc)
  · rcases hc with hc | hc
    · exact prefaced_kept hs (hpreface c (Or.inl hc))
    · cases hc

/-- The connection in hand goes to tonic, or down with the channel. -/
theorem Routes.hand (h : s.Routes) {item : Incoming} (hstate : s.state = .sending item)
    (hs : s.step e = some s') (hhanded : s'.handed = s.handed ++ item.conn.toList)
    (hdone : s'.state.in_hand = []) (hrejecting : s'.rejecting = s.rejecting)
    (haccepted : s'.accepted = s.accepted) (hnone : ∀ conn, s'.state ≠ .sending (.ok conn)) :
    s'.Routes := by
  have hhand : s.state.in_hand = item.conn.toList := by rw [hstate]; rfl
  obtain ⟨hplaces, hin_order, hrejected, hpreface⟩ := h
  rw [hhand, ← hhanded] at hplaces hin_order
  refine ⟨?_, ?_, ?_, fun c hc => ?_⟩
  · rw [hdone, List.append_nil, hrejecting, haccepted]
    exact hplaces
  · rw [hdone, List.append_nil]
    exact hin_order
  · rw [hdone, List.append_nil, hrejecting]
    exact (List.pairwise_append.mp hrejected).1
  · rcases hc with hc | hc
    · rw [hhanded] at hc
      refine prefaced_kept hs (hpreface c ?_)
      rcases List.mem_append.mp hc with hold | hnew
      · exact Or.inl hold
      · right
        cases item with
        | err => cases hnew
        | ok conn => rw [hstate, List.mem_singleton.mp hnew]
    · exact absurd hc (hnone c)

/-- **One event.** -/
theorem Routes.step (h : s.Routes) (hbounded : s.Bounded) (hs : s.step e = some s') :
    s'.Routes := by
  cases e with
  | peek result => exact h.peek hs
  | accept =>
    cases moves_of_step hs with
    | arrive hconn => cases hconn
    | accept hstate hwaiting => exact h.accept hstate hs rfl
  | accept_error =>
    cases moves_of_step hs with
    | arrive hconn => cases hconn
    | accept_error hstate =>
      exact h.same hs rfl (by rw [hstate]; rfl) rfl rfl fun c hc => by cases hc
  | wake =>
    cases moves_of_step hs with
    | arrive hconn => cases hconn
    | wake hstate => exact h.same hs rfl (by rw [hstate]; rfl) rfl rfl fun c hc => by cases hc
  | send =>
    cases moves_of_step hs with
    | arrive hconn => cases hconn
    | @send item hstate hroom =>
      refine h.hand hstate hs ?_ rfl rfl rfl fun c hc => by cases hc
      rw [handed, handed, queued, queued, List.filterMap_append, ← List.append_assoc]
      cases item <;> rfl
  | send_closed =>
    cases moves_of_step hs with
    | arrive hconn => cases hconn
    | @send_closed item hstate hclosed =>
      refine h.hand hstate hs ?_ rfl rfl rfl fun c hc => by cases hc
      have hempty : s.queued = [] := by rw [queued, hbounded.emptied hclosed, List.filterMap_nil]
      change s.served ++ (s.dropped ++ item.conn.toList) ++ s.queued
        = s.served ++ s.dropped ++ s.queued ++ item.conn.toList
      rw [hempty, List.append_nil, List.append_nil, List.append_assoc]
  | receive =>
    cases moves_of_step hs with
    | arrive hconn => cases hconn
    | @receive conn channel hopen hchannel =>
      have hhanded : s.served ++ [conn] ++ s.dropped ++ channel.filterMap Incoming.conn
          = s.handed := by
        rw [handed, queued, hchannel, hbounded.kept hopen]
        simp [Incoming.conn]
      exact h.same hs hhanded rfl rfl rfl fun c hc => prefaced_kept hs (h.preface c (Or.inr hc))
    | @receive_err channel hopen hchannel =>
      have hhanded : s.served ++ s.dropped ++ channel.filterMap Incoming.conn = s.handed := by
        rw [handed, queued, hchannel, List.filterMap_cons_none rfl]
      exact h.same hs hhanded rfl rfl rfl fun c hc => prefaced_kept hs (h.preface c (Or.inr hc))
  | shutdown =>
    cases moves_of_step hs with
    | arrive hconn => cases hconn
    | shutdown =>
      refine h.same hs ?_ rfl rfl rfl fun c hc => prefaced_kept hs (h.preface c (Or.inr hc))
      change s.served ++ (s.dropped ++ s.queued) ++ [] = s.served ++ s.dropped ++ s.queued
      rw [List.append_nil, List.append_assoc]
  | connect | deliver | close | fail =>
    have hkept : s'.handed = s.handed ∧ s'.state = s.state ∧ s'.rejecting = s.rejecting
        ∧ s'.accepted = s.accepted := by
      cases moves_of_step hs <;> exact ⟨rfl, rfl, rfl, rfl⟩
    obtain ⟨hhanded, hstate, hrejecting, haccepted⟩ := hkept
    refine h.same hs hhanded (by rw [hstate]) hrejecting haccepted
      fun c hc => prefaced_kept hs (h.preface c (Or.inr (hstate ▸ hc)))

theorem routes_of_run {es : List SniffEvent} (h : exec Sniffer.step es start = some s) :
    s.Routes ∧ s.Bounded :=
  exec_invariant (I := fun s => Routes s ∧ Bounded s)
    (fun _ _ _ hi hs => ⟨hi.1.step hi.2 hs, hi.2.step (moves_of_step hs)⟩)
    ⟨start_routes, start_bounded⟩ h

/-! ## What has begun like the preface -/

/-- A connection that has begun like the preface is not rejected, unless it fails. -/
def Spared (conn : ℕ) (s : Sniffer) : Prop :=
  s.prefaced conn ∧ (s.failed conn ∨ conn ∉ s.rejecting)

theorem Spared.step (h : s.Spared conn) (hs : s.step e = some s') : s'.Spared conn := by
  refine ⟨prefaced_kept hs h.1, ?_⟩
  rcases h.2 with hfailed | hnot
  · exact Or.inl (failed_kept hs hfailed)
  have same : s'.rejecting = s.rejecting → s'.failed conn ∨ conn ∉ s'.rejecting := fun hr => by
    rw [hr]
    exact Or.inr hnot
  cases e with
  | peek result =>
    obtain ⟨c, attempt, peer, hstate, hpeer, hcan, hnext⟩ := peek_step hs
    by_cases hc : c = conn
    · -- a look at it sees how it begins
      subst hc
      obtain ⟨peer', hpeer', hprefix⟩ := h.1
      obtain rfl := Option.some.inj (hpeer'.symm.trans hpeer)
      rcases (sniff_exact hcan).2 hprefix with hsniff | hfail
      · refine same ?_
        rw [hnext, peeked, hsniff]
      · exact Or.inl (failed_kept hs ⟨peer', hpeer, hfail⟩)
    · rcases peeked_cases s c attempt result with hp | hp | ⟨-, hp⟩
      · exact same (by rw [hnext, hp])
      · right
        rw [hnext, hp, reject]
        simpa [Ne.symm hc] using hnot
      · exact same (by rw [hnext, hp])
  | _ =>
    refine same ?_
    cases moves_of_step hs <;> rfl

/-- **Where the connections end up.** What the loop has accepted is with tonic, in the
channel, in the loop's hand, dropped or rejected, each connection in one place. None
is dropped as long as tonic holds its end of the channel, and at most the channel's
capacity and one more when it has let go. Tonic gets its connections in the order of
the accepts, ahead of all that are dropped, as the tasks that reject get theirs, and
only such as have begun with `PRI `. And one that had begun so while it was waiting is
not rejected, unless its socket fails. -/
theorem connections_routed {es fs : List SniffEvent} (h : exec Sniffer.step es start = some s)
    (h' : exec Sniffer.step fs s = some s') :
    (s'.served ++ s'.dropped ++ s'.queued ++ s'.state.in_hand ++ s'.rejecting).Perm
        (List.range s'.accepted)
      ∧ (s'.rx_open = true → s'.dropped = [])
      ∧ s'.dropped.length ≤ SNIFF_CHANNEL_CAPACITY + 1
      ∧ (s'.served ++ s'.dropped ++ s'.queued ++ s'.state.in_hand).Pairwise (· < ·)
      ∧ (s'.rejecting ++ s'.state.in_hand).Pairwise (· < ·)
      ∧ (∀ conn ∈ s'.served ++ s'.dropped ++ s'.queued, s'.prefaced conn)
      ∧ ∀ conn, s.waiting conn → s.prefaced conn → s'.failed conn ∨ conn ∉ s'.rejecting := by
  obtain ⟨hroutes, hbounded⟩ := routes_of_run (exec_trans h h')
  refine ⟨hroutes.places, hbounded.kept, hbounded.dropped_le, hroutes.in_order, hroutes.rejected,
    fun conn hconn => hroutes.preface conn (Or.inl hconn), fun conn hwaiting hprefaced => ?_⟩
  obtain ⟨hbefore, -⟩ := routes_of_run h
  have hnot : conn ∉ s.rejecting := fun hin => by
    have hlt := List.mem_range.mp (hbefore.places.subset (List.mem_append_right _ hin))
    exact absurd hwaiting.1 (Nat.not_le_of_lt hlt)
  have hspared : s'.Spared conn := exec_invariant (I := Spared conn)
    (fun _ _ _ hi hs => hi.step hs) ⟨hprefaced, Or.inr hnot⟩ h'
  exact hspared.2

/-- Three peers: an HTTP/1.1 exporter on the wrong port, a slow HTTP/2 client and a
prompt one that has said who it is before the loop gets to it. -/
def three_peers : List SniffEvent :=
  [.connect, .connect, .connect, .deliver 0 [80, 79, 83, 84], .accept,
    .deliver 2 [80, 82, 73, 32, 42], .deliver 1 [80, 82]]

/-- The slow one needs a second look; the prompt one is in the channel when tonic lets
go of it. -/
def three_peers_later : List SniffEvent :=
  [.peek (.ok [80, 79, 83, 84]), .accept, .peek (.ok [80, 82]), .deliver 1 [73, 32], .wake,
    .peek (.ok [80, 82, 73, 32]), .send, .accept, .receive, .peek (.ok [80, 82, 73, 32]), .send,
    .shutdown]

theorem three_peers_run : (exec Sniffer.step three_peers start).isSome := by decide +kernel

theorem three_peers_later_run :
    (exec Sniffer.step three_peers_later (Option.get _ three_peers_run)).isSome := by
  decide +kernel

theorem connections_routed_three :
    ∃ s', exec Sniffer.step (three_peers ++ three_peers_later) start = some s'
      ∧ s'.served = [1] ∧ s'.dropped = [2] ∧ s'.rejecting = [0]
      ∧ (∀ conn ∈ [1, 2], s'.prefaced conn) ∧ (s'.failed 2 ∨ 2 ∉ s'.rejecting) := by
  have h := (Option.some_get three_peers_run).symm
  have h' := (Option.some_get three_peers_later_run).symm
  obtain ⟨-, -, -, -, -, hprefaced, hspared⟩ := connections_routed h h'
  have hended : (Option.get _ three_peers_later_run).served = [1]
      ∧ (Option.get _ three_peers_later_run).dropped = [2]
      ∧ (Option.get _ three_peers_later_run).queued = []
      ∧ (Option.get _ three_peers_later_run).rejecting = [0] := by decide +kernel
  obtain ⟨hserved, hdropped, hqueued, hrejecting⟩ := hended
  rw [hserved, hdropped, hqueued] at hprefaced
  refine ⟨_, exec_trans h h', hserved, hdropped, hrejecting, hprefaced, hspared 2 ?_ ?_⟩
  · exact ⟨by decide +kernel, by decide +kernel⟩
  · exact ⟨{ delivered := [80, 82, 73, 32, 42], closed := false, failed := false },
      by decide +kernel, by decide⟩

end Sniffer

end Spanfall
