/-
`Complement.lean` -- a term and its negation.

`KEY=VALUE` and `KEY!=VALUE` are matched by separate branches. For a service
and a status they are each other's negation. For an attribute both are looked
up and both walk the values of the key, so they are each other's negation when
the key is known and the values of the span agree on the answer
([`complementary_iff`]). A key that no span has brought yet makes both false,
where the comment beside the walk has absence satisfy `!=`, and a span that
carries the key twice, with the value and with another one, makes both true.
-/
import Spanfall.Api.Discipline
import Spanfall.Api.Isolation

set_option autoImplicit false

namespace Spanfall

open Lib.Runs Lib.Vec

/-- The values that span `idx` carries under a key. -/
def Trace.values_under (self : Trace) (key_id : UInt32) (idx : ℕ) : Option (List AttrValue) := do
  let keys ← self.attribute_keys idx
  let attrs ← self.attributes idx
  return (keys.zip attrs).filterMap fun kv => if kv.1 = key_id then some kv.2 else none

/-- One of the two terms hits the span, and the other does not. -/
def Complementary (eq ne : Term) (t : Trace) (s : Store) (i : ℕ) : Prop :=
  ∃ hit, eq.matches t s i = some hit ∧ ne.matches t s i = some (!hit)

/-- Equality with the value holds of all the values or of none. -/
def Agree (values : List AttrValue) (v : String) : Prop :=
  (∀ x ∈ values, attr_matches .eq x v = true) ∨ ∀ x ∈ values, attr_matches .eq x v = false

/-! ## One key -/

section Terms

variable {s : Store} {t : Trace} {i : ℕ}

/-- The values of a key, as the scan walks them. -/
theorem matches_values (op : Op) (key_id : UInt32) (v : String) :
    (Term.attr op (some key_id) v).matches t s i
      = (t.values_under key_id i).map fun values =>
          if values = [] then decide (op = .ne) else values.any fun x => attr_matches op x v := by
  unfold Term.matches Trace.values_under
  cases t.attribute_keys i with
  | none => rfl
  | some keys =>
    cases t.attributes i with
    | none => rfl
    | some attrs => rfl

/-- `!=` is decided value by value. -/
theorem attr_matches_ne (x : AttrValue) (v : String) :
    attr_matches .ne x v = !attr_matches .eq x v := by
  simp [attr_matches]

/-- Of a list that is not empty, some entry fails exactly when none succeeds, if
and only if all entries are alike. -/
theorem any_not_iff {α : Type} {p : α → Bool} {l : List α} (h : l ≠ []) :
    (l.any fun x => !p x) = !l.any p ↔ (∀ x ∈ l, p x = true) ∨ ∀ x ∈ l, p x = false := by
  by_cases hnone : ∀ x ∈ l, p x = false
  · obtain ⟨x, hx⟩ := List.exists_mem_of_ne_nil l h
    have hany : l.any p = false := List.any_eq_false.mpr fun x hx => by simp [hnone x hx]
    have hnot : (l.any fun x => !p x) = true := List.any_eq_true.mpr ⟨x, hx, by simp [hnone x hx]⟩
    rw [hany, hnot]
    exact iff_of_true rfl (Or.inr hnone)
  · have hany : l.any p = true := by
      simp only [Classical.not_forall, Bool.not_eq_false] at hnone
      obtain ⟨x, hx, hp⟩ := hnone
      exact List.any_eq_true.mpr ⟨x, hx, hp⟩
    rw [hany, Bool.not_true, List.any_eq_false]
    simp only [Bool.not_eq_true', Bool.not_eq_false]
    exact ⟨Or.inl, fun hor => hor.resolve_right hnone⟩

/-- **One span's values**: the two walks answer differently if and only if the
values agree. -/
theorem values_complementary (values : List AttrValue) (v : String) :
    (if values = [] then decide (Op.ne = .ne) else values.any fun x => attr_matches .ne x v)
        = (!if values = [] then decide (Op.eq = .ne) else values.any fun x => attr_matches .eq x v)
      ↔ Agree values v := by
  by_cases hnil : values = []
  · subst hnil
    simp [Agree]
  · rw [if_neg hnil, if_neg hnil]
    simp only [attr_matches_ne]
    exact any_not_iff hnil

/-- An attribute key, known or not. -/
theorem attr_complementary_iff (key_id : Option UInt32) (v : String) :
    Complementary (.attr .eq key_id v) (.attr .ne key_id v) t s i
      ↔ ∃ id values, key_id = some id ∧ t.values_under id i = some values ∧ Agree values v := by
  cases key_id with
  | none =>
    refine iff_of_false ?_ ?_
    · rintro ⟨hit, heq, hne⟩
      obtain rfl : false = hit := Option.some.inj heq
      cases hne
    · rintro ⟨_, _, h, _⟩
      cases h
  | some id =>
    rw [Complementary, matches_values, matches_values]
    cases hvalues : t.values_under id i with
    | none =>
      refine iff_of_false ?_ ?_
      · rintro ⟨_, h, _⟩
        cases h
      · rintro ⟨_, _, hid, h, _⟩
        rw [← Option.some.inj hid, hvalues] at h
        cases h
    | some values =>
      have hwalks := values_complementary values v
      constructor
      · rintro ⟨hit, heq, hne⟩
        obtain rfl := Option.some.inj heq
        exact ⟨id, values, rfl, hvalues, hwalks.mp (Option.some.inj hne)⟩
      · rintro ⟨id', values', hid, hvalues', hagree⟩
        rw [← Option.some.inj hid, hvalues] at hvalues'
        obtain rfl := Option.some.inj hvalues'
        exact ⟨_, rfl, congrArg some (hwalks.mpr hagree)⟩

/-- A status is parsed alike behind `=` and behind `!=`. -/
theorem parse_status {text text' v : String} {eq ne : Term}
    (heq : parse_key_term s text "status" .eq v = .ok eq)
    (hne : parse_key_term s text' "status" .ne v = .ok ne) :
    ∃ want, eq = .status .eq want ∧ ne = .status .ne want := by
  have hkey : "status" ≠ "service" := by decide
  simp only [parse_key_term, hkey, false_and, true_and, true_or, or_true, if_true, if_false]
    at heq hne
  by_cases hunset : v = "unset"
  · rw [if_pos hunset] at heq hne
    exact ⟨0, (Except.ok.inj heq).symm, (Except.ok.inj hne).symm⟩
  rw [if_neg hunset] at heq hne
  by_cases hok : v = "ok"
  · rw [if_pos hok] at heq hne
    exact ⟨1, (Except.ok.inj heq).symm, (Except.ok.inj hne).symm⟩
  rw [if_neg hok] at heq hne
  by_cases herror : v = "error"
  · rw [if_pos herror] at heq hne
    exact ⟨2, (Except.ok.inj heq).symm, (Except.ok.inj hne).symm⟩
  rw [if_neg herror] at heq
  cases heq

end Terms

namespace Store

variable {m : ℕ} {es : List Event} {s : Store} {id : TraceId} {t : Trace} {i : ℕ}

/-- A span's service and status can be read, below the attribute limit or past
it. -/
theorem span_readable (hs : exec step es (new m) = some s) (ht : s.trace id = some t)
    (hi : i < t.span_count) :
    (∃ service_id service, t.service_name_id i = some service_id
        ∧ service_id.mapM s.service_name = some service)
      ∧ ∃ code, t.status_code i = some code := by
  obtain ⟨u, hu, hin⟩ := bare_in_range hs ht
  have hi' : i < u.span_count := by
    rw [show u.span_count = t.span_count from congrArg (·.span_ids.length) hu]
    exact hi
  have hservices : t.service_name_ids = u.service_name_ids := congrArg (·.service_name_ids) hu.symm
  have hcodes : t.status_codes = u.status_codes := congrArg (·.status_codes) hu.symm
  refine ⟨?_, ?_⟩
  · obtain ⟨service_id, hid, hname⟩ := hin.service_isSome hi'
    obtain ⟨service, hservice⟩ := Option.isSome_iff_exists.mp hname
    refine ⟨service_id, service, ?_, hservice⟩
    rw [Trace.service_name_id, hservices]
    exact hid
  · have hlt : i < t.status_codes.length := by
      rw [hcodes, hin.status_codes]
      exact hi'
    exact ⟨_, List.getElem?_eq_getElem hlt⟩

/-- **Equality and inequality complement each other** on a span of a reachable
store exactly when the key is `service` or `status`, or it is known and its
values on the span agree on the value. -/
theorem complementary_iff (hs : exec step es (new m) = some s) (ht : s.trace id = some t)
    (hi : i < t.span_count) {key : String} (hkey : key ∈ ["service", "status"] ∨ GrammarKey key)
    {v : String} {eq ne : Term}
    (heq : parse_term (key ++ Op.eq.literal ++ v) false s = .ok eq)
    (hne : parse_term (key ++ Op.ne.literal ++ v) false s = .ok ne) :
    Complementary eq ne t s i
      ↔ key ∈ ["service", "status"] ∨ ∃ key_id values, s.attribute_key_id key = some key_id
          ∧ t.values_under key_id i = some values ∧ Agree values v := by
  obtain ⟨⟨service_id, service, hid, hservice⟩, code, hcode⟩ := span_readable hs ht hi
  rcases hkey with hkey | ⟨hform, hattr⟩
  · refine iff_of_true ?_ (Or.inl hkey)
    have hform : KeyForm key := by
      rcases List.mem_pair.mp hkey with rfl | rfl
      · exact ⟨'s', "ervice".toList, by decide, by decide, List.all_eq_true.mp (by decide)⟩
      · exact ⟨'s', "tatus".toList, by decide, by decide, List.all_eq_true.mp (by decide)⟩
    rw [parse_comparison hform (fun h => absurd h (by decide))] at heq
    rw [parse_comparison hform (fun h => absurd h (by decide))] at hne
    rcases List.mem_pair.mp hkey with rfl | rfl
    · -- a service that is absent satisfies only `!=`
      simp only [parse_key_term, true_and, true_or, or_true, if_true, Except.ok.injEq] at heq hne
      subst heq hne
      simp only [Complementary, Term.matches, hid, hservice, Option.bind_eq_bind, Option.bind_some,
        Option.pure_def, Option.some.injEq, exists_eq_left']
      cases service with
      | none => rfl
      | some name => simp
    · obtain ⟨want, rfl, rfl⟩ := parse_status heq hne
      simp only [Complementary, Term.matches, hcode, Option.bind_eq_bind, Option.bind_some,
        Option.pure_def, Option.some.injEq, exists_eq_left', decide_not]
  · rw [parse_attr_comparison ⟨hform, hattr⟩ (fun h => absurd h (by decide)), Except.ok.injEq]
      at heq hne
    subst heq hne
    rw [attr_complementary_iff]
    have hclaimed : key ∉ ["service", "status"] := fun h => hattr (by
      rcases List.mem_pair.mp h with rfl | rfl <;> decide)
    rw [or_iff_right hclaimed]

/-- A span that carries one key twice. -/
def twice_run : List Event :=
  [.insert (tid 1)
    { Trace.span 1 none "a" with attributes := [("k", .int 1), ("k", .int 2)] } 0]

theorem twice_runs : (exec step twice_run (new 10000)).isSome := by decide +kernel

theorem twice_resident : ((Option.get _ twice_runs).trace (tid 1)).isSome := by decide +kernel

/-- `k=3` and `k!=3`: no value equals. -/
theorem complementary_iff_twice :
    ∃ s t, exec step twice_run (new 10000) = some s ∧ s.trace (tid 1) = some t
      ∧ Complementary (.attr .eq (some 0) "3") (.attr .ne (some 0) "3") t s 0 := by
  have hrun := (Option.some_get twice_runs).symm
  have htrace := (Option.some_get twice_resident).symm
  have hkey : GrammarKey "k" := ⟨⟨'k', [], by decide, by decide, nofun⟩, by decide⟩
  have heq : parse_term ("k" ++ Op.eq.literal ++ "3") false (Option.get _ twice_runs)
      = .ok (.attr .eq (some 0) "3") := by decide +kernel
  have hne : parse_term ("k" ++ Op.ne.literal ++ "3") false (Option.get _ twice_runs)
      = .ok (.attr .ne (some 0) "3") := by decide +kernel
  refine ⟨_, _, hrun, htrace, ?_⟩
  refine (complementary_iff (i := 0) hrun htrace (by decide +kernel) (Or.inr hkey) heq hne).mpr ?_
  exact Or.inr ⟨0, [.int 1, .int 2], by decide +kernel, by decide +kernel, Or.inr (by decide +kernel)⟩

/-- **Neither and both**: `nope=x` and `nope!=x` miss the span, `k=1` and
`k!=1` both hit it. -/
theorem not_complementary :
    ∃ s t, exec step twice_run (new 10000) = some s ∧ s.trace (tid 1) = some t
      ∧ GrammarKey "nope" ∧ GrammarKey "k"
      ∧ (∃ eq ne, parse_term "nope=x" false s = .ok eq ∧ parse_term "nope!=x" false s = .ok ne
          ∧ eq.matches t s 0 = some false ∧ ne.matches t s 0 = some false)
      ∧ ∃ eq ne, parse_term "k=1" false s = .ok eq ∧ parse_term "k!=1" false s = .ok ne
          ∧ eq.matches t s 0 = some true ∧ ne.matches t s 0 = some true := by
  refine ⟨_, _, (Option.some_get twice_runs).symm, (Option.some_get twice_resident).symm, ?_, ?_,
    ⟨.attr .eq none "x", .attr .ne none "x", ?_, ?_, rfl, rfl⟩,
    ⟨.attr .eq (some 0) "1", .attr .ne (some 0) "1", ?_, ?_, ?_, ?_⟩⟩
  · exact ⟨⟨'n', "ope".toList, by decide, by decide, List.all_eq_true.mp (by decide)⟩, by decide⟩
  · exact ⟨⟨'k', [], by decide, by decide, nofun⟩, by decide⟩
  all_goals decide +kernel

end Store

end Spanfall
