/-
`Memory.lean` -- what the memory cap bounds.

The estimate charges a span for its name and its attribute count. It does not
read the status message, nor the text of a string attribute. So the budget
bounds what the resident spans occupy as far as these uncharged strings are
bounded by something else, and not otherwise ([`content_bounded_iff`]).
-/
import Mathlib.Data.ENat.Basic
import Spanfall.Store.Bookkeeping

set_option autoImplicit false

namespace Spanfall

open Lib.HashMap Lib.Runs

/-- A span whose uncharged strings have at most `limit` bytes. Fewer than
`2 ^ 32` attributes fit in a message. -/
structure NewSpan.Within (limit : ℕ∞) (span : NewSpan) : Prop where
  attributes : span.attributes.length < 2 ^ 32
  message : (span.status_message.utf8ByteSize : ℕ∞) ≤ limit
  values : ∀ kv ∈ span.attributes, (kv.2.str_bytes : ℕ∞) ≤ limit

namespace Store

/-- What the resident traces occupy. -/
def content (s : Store) : ℕ := total (fun _ t => t.content) s.traces

/-- `K` times the budget bounds the contents after every sweep that leaves more
than one trace, whatever was sent of the spans `Sent`. -/
def ContentBounded (K : ℕ) (Sent : NewSpan → Prop) : Prop :=
  ∀ m es order s s', (∀ id span now, .insert id span now ∈ es → Sent span) →
    exec step es (new m) = some s → s.evict_over_budget order = some s' → 1 < s'.trace_count →
    s'.content ≤ K * m

/-- The meter runs on every resident trace. -/
theorem metered_of_run {m limit : ℕ} {es : List Event} {s : Store}
    (hsent : ∀ id span now, .insert id span now ∈ es → span.Within limit)
    (h : exec step es (new m) = some s) {id : TraceId} {t : Trace} (ht : s.trace id = some t) :
    ∃ rows, t.Metered limit rows := by
  refine traces_of_run (I := fun t => ∃ rows, t.Metered limit rows)
    (J := fun t => ∃ rows, t.Metered limit rows) (fun trace_id now generation => ?_)
    (fun _ hJ => hJ) (fun hI hspan hins => ?_) hsent h id t ht
  · exact ⟨[], { Trace.Metered.new trace_id now limit with }⟩
  · obtain ⟨rows, hmeter⟩ := hI
    exact hmeter.insert hins hspan.attributes (Nat.cast_le.mp hspan.message)
      fun kv hkv => Nat.cast_le.mp (hspan.values kv hkv)

/-- Bounded strings are enough: each trace's contents are within a factor of
its charge, and the charges are within the budget. -/
theorem content_bounded (limit : ℕ) : ContentBounded (limit + 1) (NewSpan.Within limit) := by
  intro m es order s s' hsent hs hs' hcount
  obtain ⟨n, hn, hfits⟩ := (sweep_of_evict hs').fits
  obtain ⟨hall, rfl⟩ := total_approx_bytes_eq_some.mp hn
  have hswept := (sweep_of_evict hs').swept
  have hbudget : s'.max_memory_bytes = m := hswept.max_memory_bytes.trans (budget_of_run hs)
  calc s'.content
      ≤ total (fun _ t => (limit + 1) * charge t) s'.traces := by
        refine total_le_total fun e he => ?_
        have ht : s'.trace e.1 = some e.2 := mem_entries.mp he
        obtain ⟨rows, hmeter⟩ := metered_of_run hsent hs (hswept.kept _ _ ht)
        obtain ⟨b, hb⟩ := Option.isSome_iff_exists.mp (hall e.1 e.2 ht)
        rw [charge, hb, Option.getD_some]
        exact content_le hmeter hb
    _ = (limit + 1) * total (fun _ t => charge t) s'.traces := total_mul _ _ _
    _ ≤ (limit + 1) * m := Nat.mul_le_mul_left _ (by omega)

/-! ## Messages without a bound -/

/-- A span without a name, its status message `n` bytes long. -/
def messenger (n : ℕ) : NewSpan :=
  { Trace.span 1 none "" with status_message := String.pushn "" 'a' n }

theorem messenger_bytes (n : ℕ) : (messenger n).status_message.utf8ByteSize = n := by
  rw [messenger]
  dsimp only
  induction n with
  | zero => rfl
  | succ n ih =>
    rw [show String.pushn "" 'a' (n + 1) = (String.pushn "" 'a' n).push 'a' from rfl,
      String.utf8ByteSize_push, ih]
    rfl

theorem messenger_within (n : ℕ) : (messenger n).Within ⊤ where
  attributes := Nat.two_pow_pos 32
  message := le_top
  values _ h := absurd h List.not_mem_nil

/-- Two such spans are charged 128 bytes, however long their messages are. -/
theorem messages_exceed (K : ℕ) : ¬ContentBounded K (NewSpan.Within ⊤) := by
  intro hbound
  obtain ⟨s, s', hs, hs', hcount⟩ := spread_swept (messenger (K * 128 + 1)) rfl rfl
    [tid 1, tid 2] (by decide) TraceOrder.by_id
  have hle := hbound 128 _ _ s s' (fun id r now he => ?_) hs hs' hcount
  · -- one trace that is left already holds more than the bound
    obtain ⟨id, hid⟩ : ∃ id, id ∈ s'.traces.keys :=
      Finset.card_pos.mp (Nat.zero_lt_of_lt hcount)
    obtain ⟨t, ht⟩ := Option.isSome_iff_exists.mp (mem_keys.mp hid)
    obtain ⟨s₁, hs₁, _, htraces⟩ := spread_run (messenger (K * 128 + 1)) rfl 128
      [tid 1, tid 2]
    obtain rfl := Option.some.inj (hs₁.symm.trans hs)
    obtain ⟨hmessages, _⟩ := htraces id t ((sweep_of_evict hs').swept.kept id t ht)
    have htrace : K * 128 + 1 ≤ t.content := by
      rw [Trace.content, hmessages, List.map_singleton, List.sum_singleton, messenger_bytes]
      omega
    have htotal : t.content ≤ s'.content := le_total (fun _ t => t.content) ht
    omega
  · obtain ⟨p, hp, he⟩ := List.mem_map.mp he
    obtain ⟨_, _, rfl⟩ := List.mem_map.mp hp
    obtain ⟨_, rfl, _⟩ := Event.insert.injEq .. ▸ he
    exact messenger_within _

/-- **The cap bounds what spans occupy exactly where it bounds the strings it
does not charge.** -/
theorem content_bounded_iff (limit : ℕ∞) :
    (∃ K, ContentBounded K (NewSpan.Within limit)) ↔ limit ≠ ⊤ := by
  constructor
  · rintro ⟨K, hK⟩ rfl
    exact messages_exceed K hK
  · intro hlimit
    obtain ⟨n, rfl⟩ := ENat.ne_top_iff_exists.mp hlimit
    exact ⟨n + 1, content_bounded n⟩

/-- The messages clients send have no bound, so neither has the memory. -/
theorem cap_misses_messages : ¬∃ K, ContentBounded K (NewSpan.Within ⊤) := by
  rintro ⟨K, hK⟩
  exact messages_exceed K hK

end Store

end Spanfall
