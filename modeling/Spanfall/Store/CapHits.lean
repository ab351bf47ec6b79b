/-
`CapHits.lean` -- what is lost to a full interner, and what the Receiver shows
of it.

An insert presents its service name to one interner and its attribute keys to
another, and drops what is refused. The exposed counter is copied from the
interner of the keys, so it counts every pair that was ever dropped
([`shown_of_run`]); the names are counted by the other interner
([`names_of_run`]), whose count nothing reads. The counter is therefore right
as long as no name is refused ([`cap_hits_shown_iff`]).
-/
import Spanfall.Store.Hex
import Spanfall.Store.Bookkeeping
import Spanfall.Store.Refusals

set_option autoImplicit false

namespace Spanfall

open Lib.Runs Lib.LastWrite

/-- Every pair is kept or counted. -/
theorem Trace.intern_attrs_counted (I : Interner) (attrs : List (String × AttrValue)) :
    (intern_attrs I attrs).1.length + (intern_attrs I attrs).2.cap_hit_count
      = attrs.length + I.cap_hit_count := by
  induction attrs generalizing I with
  | nil => rfl
  | cons kv rest ih =>
    have hrest := ih (I.intern kv.1).2
    have hcount := I.cap_hit_count_intern kv.1
    rw [intern_attrs]
    dsimp only
    cases hid : (I.intern kv.1).1 with
    | none =>
      rw [hid, Option.isNone_none, if_pos rfl] at hcount
      dsimp only
      rw [List.length_cons]
      omega
    | some id =>
      rw [hid, Option.isNone_some, if_neg Bool.false_ne_true] at hcount
      dsimp only
      rw [List.length_cons, List.length_cons]
      omega

/-- The interner is left as the calls for the keys leave it. -/
theorem Trace.intern_attrs_present (I : Interner) (attrs : List (String × AttrValue)) :
    (intern_attrs I attrs).2 = I.present (attrs.map Prod.fst) := by
  induction attrs generalizing I with
  | nil => rfl
  | cons kv rest ih =>
    have hrest := ih (I.intern kv.1).2
    rw [intern_attrs]
    dsimp only
    cases (I.intern kv.1).1 with
    | none => exact hrest
    | some id => exact hrest

namespace Store

/-! ## What an event discards -/

/-- The attribute pairs of a span that `Trace::insert` does not keep. -/
def discarded_pairs (s : Store) : Event → ℕ
  | .insert _ span _ =>
    span.attributes.length - (Trace.intern_attrs s.key_interner span.attributes).1.length
  | .malformed _ => 0
  | .sweep _ => 0

/-- A span's service name, if it has one and is left without an id. -/
def discarded_names (s : Store) : Event → ℕ
  | .insert _ span _ =>
    if span.service_name.isSome ∧ (intern_service s.service_interner span.service_name).1 = none
    then 1 else 0
  | .malformed _ => 0
  | .sweep _ => 0

/-- The pairs discarded in a run. -/
def pairs_lost (es : List Event) (s : Store) : ℕ :=
  ghost step (fun n s e _ => n + s.discarded_pairs e) es s 0

/-- The service names discarded in a run. -/
def names_lost (es : List Event) (s : Store) : ℕ :=
  ghost step (fun n s e _ => n + s.discarded_names e) es s 0

/-- The items discarded in a run because a global interner was full. -/
def discarded (es : List Event) (s : Store) : ℕ := pairs_lost es s + names_lost es s

/-! ## What is counted -/

section Run

variable {m : ℕ} {es : List Event} {s : Store}

/-- **The pairs are shown**: the exposed counter is the number of pairs
discarded. -/
theorem shown_of_run (h : exec step es (new m) = some s) :
    s.counters.attribute_key_cap_hit = s.key_interner.cap_hit_count
      ∧ s.key_interner.cap_hit_count = pairs_lost es (new m) := by
  refine exec_induction (P := fun es s =>
    s.counters.attribute_key_cap_hit = s.key_interner.cap_hit_count
      ∧ s.key_interner.cap_hit_count = pairs_lost es (new m)) ⟨rfl, rfl⟩ ?_ h
  rintro es s e s' hrun ⟨hshown, hlost⟩ hs
  rw [pairs_lost, ghost_snoc hrun hs, ← pairs_lost, ← hlost]
  cases e with
  | insert trace_id span now =>
    obtain ⟨⟨s₁, out⟩, hins, rfl⟩ := Option.map_eq_some_iff.mp hs
    obtain ⟨t, o, hcall, _, _, _, _, hcounters, _⟩ := insert_cases hins
    obtain ⟨hkey, _⟩ := Trace.insert_cases hcall
    have hcounted := Trace.intern_attrs_counted s.key_interner span.attributes
    have hkept := Trace.intern_attrs_length_le s.key_interner span.attributes
    refine ⟨by rw [hcounters], ?_⟩
    rw [hkey, discarded_pairs]
    omega
  | malformed count =>
    obtain rfl := Option.some.inj hs
    exact ⟨hshown, rfl⟩
  | sweep order =>
    have hswept := (sweep_of_evict hs).swept
    rw [hswept.counters, hswept.key_interner]
    exact ⟨hshown, rfl⟩

/-- No more pairs are lost than are sent. -/
theorem pairs_lost_le (h : exec step es (new m) = some s) :
    pairs_lost es (new m) ≤ attrs_sent es := by
  refine exec_induction (P := fun es _ => pairs_lost es (new m) ≤ attrs_sent es)
    (Nat.le_refl 0) (fun es s e s' hrun ih hs => ?_) h
  have hone : s.discarded_pairs e ≤ e.keys.length := by
    cases e with
    | insert trace_id span now =>
      rw [discarded_pairs, Event.keys, List.length_map]
      exact Nat.sub_le _ _
    | malformed count => exact Nat.le_refl 0
    | sweep order => exact Nat.le_refl 0
  rw [pairs_lost, ghost_snoc hrun hs, ← pairs_lost, attrs_sent, keys_shown_snoc, List.length_append]
  exact Nat.add_le_add ih hone

/-- The service names of a run are presented to one interner, in order. -/
theorem service_interner_of_run (h : exec step es (new m) = some s) :
    s.service_interner = (Interner.new GLOBAL_INTERNER_CAP).present (services_shown es) := by
  refine exec_induction (P := fun es s =>
    s.service_interner = (Interner.new GLOBAL_INTERNER_CAP).present (services_shown es)) rfl ?_ h
  rintro es s e s' _ ih hs
  rw [services_shown_snoc]
  cases e with
  | insert trace_id span now =>
    obtain ⟨⟨s₁, out⟩, hins, rfl⟩ := Option.map_eq_some_iff.mp hs
    obtain ⟨t, o, _, _, hsvc, _⟩ := insert_cases hins
    rw [hsvc, ih, Event.services]
    cases span.service_name with
    | none =>
      rw [Option.toList_none, List.append_nil]
      rfl
    | some name =>
      rw [Option.toList_some, Interner.present_snoc]
      rfl
  | malformed count =>
    obtain rfl := Option.some.inj hs
    rw [ih, Event.services, List.append_nil]
  | sweep order =>
    rw [(sweep_of_evict hs).swept.service_interner, ih, Event.services, List.append_nil]

/-- The keys of a run are presented to the other one. -/
theorem key_interner_of_run (h : exec step es (new m) = some s) :
    s.key_interner = (Interner.new GLOBAL_INTERNER_CAP).present (keys_shown es) := by
  refine exec_induction (P := fun es s =>
    s.key_interner = (Interner.new GLOBAL_INTERNER_CAP).present (keys_shown es)) rfl ?_ h
  rintro es s e s' _ ih hs
  rw [keys_shown_snoc, Interner.present_append, ← ih]
  cases e with
  | insert trace_id span now =>
    obtain ⟨⟨s₁, out⟩, hins, rfl⟩ := Option.map_eq_some_iff.mp hs
    obtain ⟨t, o, hcall, _⟩ := insert_cases hins
    rw [(Trace.insert_cases hcall).1, Trace.intern_attrs_present]
    rfl
  | malformed count =>
    obtain rfl := Option.some.inj hs
    rfl
  | sweep order =>
    rw [(sweep_of_evict hs).swept.key_interner]
    rfl

/-- The names are counted where nobody looks. -/
theorem names_of_run (h : exec step es (new m) = some s) :
    s.service_interner.cap_hit_count = names_lost es (new m) := by
  refine exec_induction (P := fun es s =>
    s.service_interner.cap_hit_count = names_lost es (new m)) rfl ?_ h
  rintro es s e s' hrun hcount hs
  rw [names_lost, ghost_snoc hrun hs, ← names_lost, ← hcount]
  cases e with
  | insert trace_id span now =>
    obtain ⟨⟨s₁, out⟩, hins, rfl⟩ := Option.map_eq_some_iff.mp hs
    obtain ⟨t, o, _, _, hsvc, _⟩ := insert_cases hins
    rw [hsvc, discarded_names]
    cases span.service_name with
    | none => rfl
    | some name =>
      rw [intern_service, Interner.cap_hit_count_intern]
      simp [Option.isNone_iff_eq_none]
  | malformed count =>
    obtain rfl := Option.some.inj hs
    rfl
  | sweep order =>
    rw [(sweep_of_evict hs).swept.service_interner]
    rfl

/-- Lost are the names that are not among the first ones. -/
theorem names_lost_of_run (h : exec step es (new m) = some s) :
    names_lost es (new m) = refused GLOBAL_INTERNER_CAP (services_shown es) := by
  rw [← names_of_run h, service_interner_of_run h]
  exact Interner.cap_hit_count_present (by decide) _

/-- **The Receiver shows all that is lost** to a full interner exactly as long
as the service names fit. -/
theorem cap_hits_shown_iff (h : exec step es (new m) = some s) :
    s.counters.attribute_key_cap_hit = discarded es (new m)
      ↔ (services_shown es).eraseDups.length ≤ GLOBAL_INTERNER_CAP := by
  obtain ⟨hshown, hpairs⟩ := shown_of_run h
  rw [← refused_eq_zero_iff, ← names_lost_of_run h, discarded, hshown, hpairs]
  omega

end Run

/-! ## One name too many -/

/-- The same span, resent under one service name after another. -/
def renamed_spans (N : ℕ) : List Event :=
  (List.range N).map fun n =>
    .insert (tid 1) { Trace.span 1 none "a" with service_name := some (nth_id n).to_hex } 0

theorem renamed_services (N : ℕ) :
    services_shown (renamed_spans N) = (List.range N).map fun n => (nth_id n).to_hex := by
  rw [services_shown, renamed_spans, List.flatMap_map]
  exact List.flatMap_pure_eq_map _ _

theorem renamed_nodup {N : ℕ} (hN : N ≤ 2 ^ 128) :
    ((List.range N).map fun n => (nth_id n).to_hex).Nodup := by
  apply List.Nodup.map_on _ List.nodup_range
  intro n hn k hk hsame
  have hn' := List.mem_range.mp hn
  have hk' := List.mem_range.mp hk
  exact nth_id_injective (by omega) (by omega) (TraceId.to_hex_injective hsame)

theorem renamed_attrs (N : ℕ) : attrs_sent (renamed_spans N) = 0 := by
  rw [attrs_sent, keys_shown, renamed_spans, List.flatMap_map]
  simp [Event.keys, Trace.span]

theorem renamed_runs (N m : ℕ) : ∃ s, exec step (renamed_spans N) (new m) = some s := by
  have hbelow : AttrsBelow (new m) (renamed_spans N) := by
    apply AttrsBelow.of_sent
    rw [renamed_attrs]
    decide
  obtain ⟨s, hs, _⟩ := run_holds m _ hbelow
  exact ⟨s, hs⟩

/-- With as many names as the cap nothing is lost. -/
theorem cap_hits_shown_at_cap :
    ∃ s, exec step (renamed_spans GLOBAL_INTERNER_CAP) (new 0) = some s
      ∧ s.counters.attribute_key_cap_hit = discarded (renamed_spans GLOBAL_INTERNER_CAP) (new 0) := by
  obtain ⟨s, hs⟩ := renamed_runs GLOBAL_INTERNER_CAP 0
  refine ⟨s, hs, (cap_hits_shown_iff hs).mpr ?_⟩
  rw [renamed_services, eraseDups_of_nodup (renamed_nodup (by decide)), List.length_map,
    List.length_range]

/-- **With one name more a name is lost**, and the counter stays at zero. -/
theorem lost_name_not_shown :
    ∃ s, exec step (renamed_spans (GLOBAL_INTERNER_CAP + 1)) (new 0) = some s
      ∧ s.counters.attribute_key_cap_hit = 0
      ∧ discarded (renamed_spans (GLOBAL_INTERNER_CAP + 1)) (new 0) = 1 := by
  obtain ⟨s, hs⟩ := renamed_runs (GLOBAL_INTERNER_CAP + 1) 0
  obtain ⟨hshown, hpairs⟩ := shown_of_run hs
  have hnames := names_lost_of_run hs
  have hzero : s.counters.attribute_key_cap_hit = 0 := by
    have hle := pairs_lost_le hs
    rw [renamed_attrs] at hle
    rw [hshown, hpairs]
    exact Nat.le_zero.mp hle
  refine ⟨s, hs, hzero, ?_⟩
  rw [discarded, ← hpairs, ← hshown, hzero, hnames, renamed_services,
    refused_of_nodup _ (renamed_nodup (by decide)), List.length_map, List.length_range]
  omega

end Store

end Spanfall
