/-
`Renumber.lean` -- one trace in two stores.

The interners are shared by all traces, so the same trace may be stored under
other ids in another run. Two traces have the same rows ([`SameRows`]) when
they agree in every column that holds no ids, and their ids resolve to the same
names, each in its own store. What the two stores do to other traces does not
matter as long as the interners refuse nothing and the trace is not evicted:
runs that send one trace the same spans leave it with the same rows
([`same_trace_of_runs`]). Nothing is assumed of the number of attributes.
-/
import Mathlib.Data.List.Forall2
import Spanfall.Store.Bookkeeping

set_option autoImplicit false

namespace Spanfall

open Lib.Vec Lib.HashMap Lib.Runs

/-! ## Interners that have refused nothing -/

namespace Interner

/-- One string more without a refusal: there was none before, and the string
has an id. -/
theorem intern_unrefused {I : Interner} {s : String} (h : (I.intern s).2.cap_hit_count = 0) :
    I.cap_hit_count = 0 ∧ ((I.intern s).2.lookup s).isSome := by
  unfold intern at h ⊢
  cases hs : I.map.lookup s with
  | some id =>
    rw [hs] at h
    refine ⟨h, ?_⟩
    change (I.map.lookup s).isSome
    rw [hs]
    rfl
  | none =>
    rw [hs] at h
    dsimp only at h ⊢
    by_cases hfull : I.values.length ≥ I.cap
    · rw [if_pos hfull] at h
      cases h
    · rw [if_neg hfull] at h ⊢
      refine ⟨h, ?_⟩
      change ((I.map.insert s _).lookup s).isSome
      rw [Finmap.lookup_insert]
      rfl

end Interner

theorem Trace.intern_attrs_unrefused {I : Interner} {ks : List String} (hI : I.Holds ks)
    {attrs : List (String × AttrValue)} (h : (intern_attrs I attrs).2.cap_hit_count = 0) :
    I.cap_hit_count = 0
      ∧ ∀ kv ∈ attrs, ((intern_attrs I attrs).2.lookup kv.1).isSome := by
  induction attrs generalizing I ks with
  | nil => exact ⟨h, fun kv hkv => absurd hkv List.not_mem_nil⟩
  | cons kv attrs ih =>
    obtain ⟨hI₁, hcap₁, _⟩ := Interner.intern_holds hI kv.1
    have hlast : (intern_attrs I (kv :: attrs)).2 = (intern_attrs (I.intern kv.1).2 attrs).2 := by
      rw [intern_attrs]
      dsimp only
      cases (I.intern kv.1).1 <;> rfl
    rw [hlast] at h ⊢
    obtain ⟨hfirst, hrest⟩ := ih hI₁ h
    obtain ⟨hzero, hhead⟩ := Interner.intern_unrefused hfirst
    refine ⟨hzero, fun kv' hkv' => ?_⟩
    rcases List.mem_cons.mp hkv' with rfl | hkv'
    · -- the first key's answer stands when the others have been interned
      obtain ⟨hI₂, hcap₂, _⟩ := intern_attrs_spec hI₁ attrs
      rw [hI₁.lookup_stable hI₂ hcap₂ (by simp)]
      exact hhead
    · exact hrest kv' hkv'

namespace Store

theorem intern_service_unrefused {I : Interner} {n : Option String}
    (h : (intern_service I n).2.cap_hit_count = 0) :
    I.cap_hit_count = 0 ∧ ∀ name, n = some name → ((intern_service I n).2.lookup name).isSome := by
  cases n with
  | none =>
    refine ⟨h, fun name hname => ?_⟩
    cases hname
  | some name =>
    obtain ⟨hzero, hlookup⟩ := Interner.intern_unrefused h
    refine ⟨hzero, ?_⟩
    rintro _ ⟨⟩
    exact hlookup

/-- No interner of the store has refused a string. -/
structure Unrefused (s : Store) : Prop where
  keys : s.key_interner.cap_hit_count = 0
  services : s.service_interner.cap_hit_count = 0

variable {s s' : Store}

/-- What an insert without a refusal interns. -/
theorem Unrefused.insert {ks : List String} (hkey : s.key_interner.Holds ks)
    {trace_id : TraceId} {span : NewSpan} {now : UInt64} {out : StoreInsertOutcome}
    (hins : s.insert_span_no_evict trace_id span now = some (s', out)) (h : s'.Unrefused) :
    s.Unrefused
      ∧ (∀ kv ∈ span.attributes, (s'.key_interner.lookup kv.1).isSome)
      ∧ ∀ name, span.service_name = some name → (s'.service_interner.lookup name).isSome := by
  obtain ⟨t, o, hcall, _, hsvc, _⟩ := insert_cases hins
  obtain ⟨hkey', _⟩ := Trace.insert_cases hcall
  obtain ⟨hkeys, hservices⟩ := h
  rw [hkey'] at hkeys ⊢
  rw [hsvc] at hservices ⊢
  obtain ⟨hzero, hattrs⟩ := Trace.intern_attrs_unrefused hkey hkeys
  obtain ⟨hzero', hname⟩ := intern_service_unrefused hservices
  exact ⟨⟨hzero, hzero'⟩, hattrs, hname⟩

end Store

/-! ## Rows up to ids -/

section Rel

variable {α β : Type} {R : α → β → Prop} {o : Option α} {o' : Option β}

theorem rel_imp {R' : α → β → Prop} (h : Option.Rel R o o') (hR : ∀ a b, R a b → R' a b) :
    Option.Rel R' o o' := by
  cases h with
  | some h => exact Option.Rel.some (hR _ _ h)
  | none => exact Option.Rel.none

theorem rel_flip {R' : β → α → Prop} (h : Option.Rel R o o') (hR : ∀ a b, R a b → R' b a) :
    Option.Rel R' o' o := by
  cases h with
  | some h => exact Option.Rel.some (hR _ _ h)
  | none => exact Option.Rel.none

end Rel

/-- The two ids resolve to one name, each in its own table. -/
def SameName (get get' : UInt32 → Option String) (id id' : UInt32) : Prop :=
  ∃ name, get id = some name ∧ get' id' = some name

theorem SameName.symm {get get' : UInt32 → Option String} {id id' : UInt32}
    (h : SameName get get' id id') : SameName get' get id' id := by
  obtain ⟨name, hname, hname'⟩ := h
  exact ⟨name, hname', hname⟩

theorem SameName.grow {get get' get₁ : UInt32 → Option String} {id id' : UInt32}
    (h : SameName get get' id id') (hget : ∀ id k, get id = some k → get₁ id = some k) :
    SameName get₁ get' id id' := by
  obtain ⟨name, hname, hname'⟩ := h
  exact ⟨name, hget id name hname, hname'⟩

/-- `t` in `s` and `t'` in `s'` have the same rows, as far as the filter and
the next insert read them. -/
structure SameRows (s s' : Store) (t t' : Trace) : Prop where
  span_ids : t'.span_ids = t.span_ids
  span_index : t'.span_index = t.span_index
  names : t'.names = t.names
  start_times : t'.start_times_unix_nano = t.start_times_unix_nano
  end_times : t'.end_times_unix_nano = t.end_times_unix_nano
  status_codes : t'.status_codes = t.status_codes
  attr_values : t'.attr_values = t.attr_values
  attr_offsets : t'.attr_offsets = t.attr_offsets
  attr_keys : List.Forall₂ (SameName s.attribute_key s'.attribute_key) t.attr_keys t'.attr_keys
  service_name_ids : List.Forall₂ (Option.Rel (SameName s.service_name s'.service_name))
    t.service_name_ids t'.service_name_ids

/-- What one insert writes as attributes, in the two stores. -/
def SameAttrs (s s' : Store) (attrs attrs' : List (UInt32 × AttrValue)) : Prop :=
  List.Forall₂ (fun p p' => SameName s.attribute_key s'.attribute_key p.1 p'.1 ∧ p'.2 = p.2)
    attrs attrs'

section SameRows

variable {s s' : Store} {t t' u u' : Trace} {attrs attrs' : List (UInt32 × AttrValue)}
  {svc svc' : Option UInt32} {span : NewSpan}

theorem SameAttrs.keys (h : SameAttrs s s' attrs attrs') :
    List.Forall₂ (SameName s.attribute_key s'.attribute_key) (attrs.map Prod.fst)
      (attrs'.map Prod.fst) := by
  rw [List.forall₂_map_left_iff, List.forall₂_map_right_iff]
  exact h.imp fun _ _ hp => hp.1

theorem SameAttrs.values (h : SameAttrs s s' attrs attrs') :
    attrs'.map Prod.snd = attrs.map Prod.snd := by
  induction h with
  | nil => rfl
  | cons hp _ ih => rw [List.map_cons, List.map_cons, hp.2, ih]

theorem SameRows.symm (h : SameRows s s' t t') : SameRows s' s t' t where
  span_ids := h.span_ids.symm
  span_index := h.span_index.symm
  names := h.names.symm
  start_times := h.start_times.symm
  end_times := h.end_times.symm
  status_codes := h.status_codes.symm
  attr_values := h.attr_values.symm
  attr_offsets := h.attr_offsets.symm
  attr_keys := List.Forall₂.flip (h.attr_keys.imp fun _ _ => SameName.symm)
  service_name_ids := List.Forall₂.flip
    (h.service_name_ids.imp fun _ _ ho => rel_flip ho fun _ _ => SameName.symm)

/-- A table that only grows keeps the rows. -/
theorem SameRows.grow {s₁ : Store} (h : SameRows s s' t t')
    (hkey : ∀ id k, s.attribute_key id = some k → s₁.attribute_key id = some k)
    (hsvc : ∀ id k, s.service_name id = some k → s₁.service_name id = some k) :
    SameRows s₁ s' t t' where
  span_ids := h.span_ids
  span_index := h.span_index
  names := h.names
  start_times := h.start_times
  end_times := h.end_times
  status_codes := h.status_codes
  attr_values := h.attr_values
  attr_offsets := h.attr_offsets
  attr_keys := h.attr_keys.imp fun _ _ hname => hname.grow hkey
  service_name_ids := h.service_name_ids.imp fun _ _ ho => rel_imp ho fun _ _ hname =>
    hname.grow hsvc

theorem SameRows.new (trace_id : TraceId) (now now' : UInt64) (generation generation' : UInt32) :
    SameRows s s' { Trace.new trace_id now with generation }
      { Trace.new trace_id now' with generation := generation' } :=
  ⟨rfl, rfl, rfl, rfl, rfl, rfl, rfl, rfl, .nil, .nil⟩

/-- **An overwrite** splices the same ranges in both. -/
theorem SameRows.overwrite (h : SameRows s s' u u') (ha : SameAttrs s s' attrs attrs')
    (hsvc : Option.Rel (SameName s.service_name s'.service_name) svc svc') {idx : ℕ}
    (ho : u.overwrite_at idx span svc attrs = some t)
    (ho' : u'.overwrite_at idx span svc' attrs' = some t') : SameRows s s' t t' := by
  obtain ⟨start, stop, keys, values, _, hstart, hstop, hkeys, hvalues, rfl⟩ :=
    Trace.overwrite_at_cases ho
  obtain ⟨start', stop', keys', values', _, hstart', hstop', hkeys', hvalues', rfl⟩ :=
    Trace.overwrite_at_cases ho'
  rw [h.attr_offsets] at hstart' hstop'
  obtain rfl : start = start' := Option.some.inj (hstart.symm.trans hstart')
  obtain rfl : stop = stop' := Option.some.inj (hstop.symm.trans hstop')
  rw [h.attr_values, ha.values] at hvalues'
  obtain rfl : values = values' := Option.some.inj (hvalues.symm.trans hvalues')
  obtain ⟨_, rfl⟩ := splice_eq_some.mp hkeys
  obtain ⟨_, rfl⟩ := splice_eq_some.mp hkeys'
  have hlen : attrs'.length = attrs.length := (List.Forall₂.length_eq ha).symm
  exact { span_ids := h.span_ids, span_index := h.span_index,
          names := by rw [h.names], start_times := by rw [h.start_times],
          end_times := by rw [h.end_times], status_codes := by rw [h.status_codes],
          attr_values := rfl, attr_offsets := by rw [h.attr_offsets, hlen],
          attr_keys := List.rel_append (List.rel_append (List.forall₂_take _ h.attr_keys) ha.keys)
            (List.forall₂_drop _ h.attr_keys),
          service_name_ids := forall₂_set h.service_name_ids hsvc idx }

/-- **A new span** is pushed onto the same columns in both. -/
theorem SameRows.push (h : SameRows s s' u u') (ha : SameAttrs s s' attrs attrs')
    (hsvc : Option.Rel (SameName s.service_name s'.service_name) svc svc') {id : SpanId}
    {idx idx' : ℕ} (hp : (u.push_span span svc attrs).patch_children id idx = some t)
    (hp' : (u'.push_span span svc' attrs').patch_children id idx' = some t') :
    SameRows s s' t t' := by
  obtain ⟨_, _, rfl⟩ := Trace.patch_children_frame hp
  obtain ⟨_, _, rfl⟩ := Trace.patch_children_frame hp'
  obtain ⟨_, _, _, hframe⟩ := Trace.push_parent_frame (u.push_columns span svc) u.span_ids.length
    span.parent_span_id
  obtain ⟨_, _, _, hframe'⟩ := Trace.push_parent_frame (u'.push_columns span svc')
    u'.span_ids.length span.parent_span_id
  have hlen : (u'.attr_keys ++ attrs'.map Prod.fst).length
      = (u.attr_keys ++ attrs.map Prod.fst).length :=
    (List.Forall₂.length_eq (List.rel_append h.attr_keys ha.keys)).symm
  -- patching and the parent write links alone, so every column is as pushed
  simp only [Trace.push_span, hframe, hframe']
  constructor
  all_goals simp only [Trace.push_attrs, Trace.push_columns]
  · rw [h.span_ids]
  · rw [h.span_index, h.span_ids]
  · rw [h.names]
  · rw [h.start_times]
  · rw [h.end_times]
  · rw [h.status_codes]
  · rw [h.attr_values, ha.values]
  · rw [h.attr_offsets, hlen]
  · exact List.rel_append h.attr_keys ha.keys
  · exact List.rel_append h.service_name_ids (.cons hsvc .nil)

theorem SameRows.touch (h : SameRows s s' u u') (now now' : UInt64) :
    SameRows s s' { u with last_activity_unix_nano := now }
      { u' with last_activity_unix_nano := now' } :=
  ⟨h.span_ids, h.span_index, h.names, h.start_times, h.end_times, h.status_codes, h.attr_values,
    h.attr_offsets, h.attr_keys, h.service_name_ids⟩

/-- **One insert of one span in both** takes the same path in both. -/
theorem SameRows.insert (h : SameRows s s' u u') {I I' J J' : Interner} {now now' : UInt64}
    {out out' : InsertOutcome} (hi : u.insert span svc I now = some (t, I', out))
    (hi' : u'.insert span svc' J now' = some (t', J', out'))
    (ha : SameAttrs s s' (Trace.intern_attrs I span.attributes).1
      (Trace.intern_attrs J span.attributes).1)
    (hsvc : Option.Rel (SameName s.service_name s'.service_name) svc svc') :
    SameRows s s' t t' := by
  obtain ⟨_, hpath⟩ := Trace.insert_cases hi
  obtain ⟨_, hpath'⟩ := Trace.insert_cases hi'
  -- one index of ids, so one path
  rcases hpath with ⟨idx, hl, _, ho⟩ | ⟨hl, _, hp⟩
  · rcases hpath' with ⟨idx', hl', _, ho'⟩ | ⟨hl', _⟩
    · rw [h.span_index] at hl'
      obtain rfl : idx = idx' := Option.some.inj (hl.symm.trans hl')
      exact (h.touch now now').overwrite ha hsvc ho ho'
    · rw [h.span_index, hl] at hl'
      cases hl'
  · rcases hpath' with ⟨idx', hl', _⟩ | ⟨_, _, hp'⟩
    · rw [h.span_index, hl] at hl'
      cases hl'
    · exact (h.touch now now').push ha hsvc hp hp'

/-- Attributes that are all kept are the same in both stores. -/
theorem sameAttrs_kept {ks ks' : List String} (hkey : s.key_interner.Holds ks)
    (hkey' : s'.key_interner.Holds ks') {pairs : List (String × AttrValue)}
    (h : ∀ kv ∈ pairs, (s.key_interner.lookup kv.1).isSome)
    (h' : ∀ kv ∈ pairs, (s'.key_interner.lookup kv.1).isSome) :
    SameAttrs s s' (kept_attrs s.key_interner pairs) (kept_attrs s'.key_interner pairs) := by
  unfold SameAttrs kept_attrs
  induction pairs with
  | nil => exact .nil
  | cons kv pairs ih =>
    obtain ⟨id, hid⟩ := Option.isSome_iff_exists.mp (h kv List.mem_cons_self)
    obtain ⟨id', hid'⟩ := Option.isSome_iff_exists.mp (h' kv List.mem_cons_self)
    simp only [List.filterMap_cons, hid, hid', Option.map_some]
    refine .cons ⟨⟨kv.1, hkey.get_of_lookup hid, hkey'.get_of_lookup hid'⟩, rfl⟩ ?_
    exact ih (fun kv hkv => h kv (List.mem_cons_of_mem _ hkv))
      fun kv hkv => h' kv (List.mem_cons_of_mem _ hkv)

theorem sameName_service {ss ss' : List String} (hsvc : s.service_interner.Holds ss)
    (hsvc' : s'.service_interner.Holds ss') {n : Option String}
    (h : ∀ name, n = some name → (s.service_interner.lookup name).isSome)
    (h' : ∀ name, n = some name → (s'.service_interner.lookup name).isSome) :
    Option.Rel (SameName s.service_name s'.service_name) (n.bind s.service_interner.lookup)
      (n.bind s'.service_interner.lookup) := by
  cases n with
  | none => exact Option.Rel.none
  | some name =>
    obtain ⟨id, hid⟩ := Option.isSome_iff_exists.mp (h name rfl)
    obtain ⟨id', hid'⟩ := Option.isSome_iff_exists.mp (h' name rfl)
    rw [Option.bind_some, Option.bind_some, hid, hid']
    exact Option.Rel.some ⟨name, hsvc.get_of_lookup hid, hsvc'.get_of_lookup hid'⟩

end SameRows

namespace Store

/-! ## Two runs -/

/-- The spans sent to one trace, in order. -/
def sent_to (es : List Event) (id : TraceId) : List NewSpan :=
  (sent es).filterMap fun p => if p.1 = id then some p.2 else none

theorem sent_to_append (es fs : List Event) (id : TraceId) :
    sent_to (es ++ fs) id = sent_to es id ++ sent_to fs id := by
  rw [sent_to, sent, List.flatMap_append, List.filterMap_append]
  rfl

theorem sent_to_snoc (es : List Event) (e : Event) (id : TraceId) :
    sent_to (es ++ [e]) id
      = sent_to es id ++ e.sent.filterMap fun p => if p.1 = id then some p.2 else none := by
  rw [sent_to, sent_snoc, List.filterMap_append]
  rfl

/-- A run in which no interner refuses a string and the trace `id` is never
evicted. -/
structure Undisturbed (m : ℕ) (id : TraceId) (es : List Event) (s : Store) : Prop where
  run : exec step es (new m) = some s
  kept : evictions es (new m) id = 0
  unrefused : s.Unrefused

/-- The tables of `s` are those of `s'` or shorter. -/
structure Grows (s s' : Store) : Prop where
  keys : ∀ id k, s.attribute_key id = some k → s'.attribute_key id = some k
  services : ∀ id k, s.service_name id = some k → s'.service_name id = some k

variable {m : ℕ} {id : TraceId} {es : List Event} {e : Event} {s s' : Store}

theorem grows_of_step (hs : exec step es (new m) = some s) (he : s.step e = some s') :
    Grows s s' := by
  have hs' := exec_tail hs he
  obtain ⟨⟨hkey, hkcap⟩, hsvc, hscap⟩ := interners_of_run hs
  obtain ⟨⟨hkey', hkcap'⟩, hsvc', hscap'⟩ := interners_of_run hs'
  rw [keys_shown_snoc] at hkey'
  rw [services_shown_snoc] at hsvc'
  exact ⟨fun _ _ h => hkey.get_stable hkey' (hkcap'.trans hkcap.symm) h,
    fun _ _ h => hsvc.get_stable hsvc' (hscap'.trans hscap.symm) h⟩

/-- Refusals are counted, so there was none one event before. -/
theorem Unrefused.of_step (h : s'.Unrefused) (hs : exec step es (new m) = some s)
    (he : s.step e = some s') : s.Unrefused := by
  cases e with
  | insert trace_id span now =>
    obtain ⟨⟨s₂, out⟩, hins, rfl⟩ := Option.map_eq_some_iff.mp he
    exact (Unrefused.insert (interners_of_run hs).1.1 hins h).1
  | malformed count =>
    obtain rfl := Option.some.inj he
    exact ⟨h.keys, h.services⟩
  | sweep order =>
    have hswept := (sweep_of_evict he).swept
    obtain ⟨hkeys, hservices⟩ := h
    rw [hswept.key_interner] at hkeys
    rw [hswept.service_interner] at hservices
    exact ⟨hkeys, hservices⟩

/-- **Where nothing is refused everything is known**: the strings shown to the
two tables all have ids. -/
theorem Unrefused.known (h : s.Unrefused) (hs : exec step es (new m) = some s) :
    (∀ k ∈ keys_shown es, (s.key_interner.lookup k).isSome)
      ∧ ∀ n ∈ services_shown es, (s.service_interner.lookup n).isSome := by
  induction es using List.reverseRecOn generalizing s with
  | nil => exact ⟨fun k hk => absurd hk List.not_mem_nil, fun n hn => absurd hn List.not_mem_nil⟩
  | append_singleton es e ih =>
    obtain ⟨s₀, hs₀, he⟩ := exec_snoc_some hs
    obtain ⟨hkeys, hservices⟩ := ih (h.of_step hs₀ he) hs₀
    obtain ⟨⟨hkey₀, hkcap₀⟩, hsvc₀, hscap₀⟩ := interners_of_run hs₀
    obtain ⟨⟨hkey, hkcap⟩, hsvc, hscap⟩ := interners_of_run hs
    rw [keys_shown_snoc] at hkey ⊢
    rw [services_shown_snoc] at hsvc ⊢
    -- what the last event shows is known as it was not refused
    have hlast : (∀ k ∈ e.keys, (s.key_interner.lookup k).isSome)
        ∧ ∀ n ∈ e.services, (s.service_interner.lookup n).isSome := by
      cases e with
      | insert trace_id span now =>
        obtain ⟨⟨s₂, out⟩, hins, rfl⟩ := Option.map_eq_some_iff.mp he
        obtain ⟨_, hattrs, hname⟩ := Unrefused.insert hkey₀ hins h
        constructor
        · intro k hk
          obtain ⟨kv, hkv, rfl⟩ := List.mem_map.mp hk
          exact hattrs kv hkv
        · intro n hn
          exact hname n (Option.mem_toList.mp hn)
      | malformed count =>
        exact ⟨fun k hk => absurd hk List.not_mem_nil, fun n hn => absurd hn List.not_mem_nil⟩
      | sweep order =>
        exact ⟨fun k hk => absurd hk List.not_mem_nil, fun n hn => absurd hn List.not_mem_nil⟩
    constructor
    · intro k hk
      rcases List.mem_append.mp hk with hk | hk
      · rw [hkey₀.lookup_stable hkey (hkcap.trans hkcap₀.symm) hk]
        exact hkeys k hk
      · exact hlast.1 k hk
    · intro n hn
      rcases List.mem_append.mp hn with hn | hn
      · rw [hsvc₀.lookup_stable hsvc (hscap.trans hscap₀.symm) hn]
        exact hservices n hn
      · exact hlast.2 n hn

/-- An undisturbed run was undisturbed one event before. -/
theorem Undisturbed.init (h : Undisturbed m id (es ++ [e]) s') :
    ∃ s, Undisturbed m id es s ∧ s.step e = some s'
      ∧ ((s.trace id).isSome → (s'.trace id).isSome) := by
  obtain ⟨hrun, hkept, hunrefused⟩ := h
  obtain ⟨s, hs, he⟩ := exec_snoc_some hrun
  rw [evictions_snoc hs he, Nat.add_eq_zero_iff] at hkept
  obtain ⟨hkept, hlast⟩ := hkept
  refine ⟨s, ⟨hs, hkept, hunrefused.of_step hs he⟩, he, fun hres => ?_⟩
  by_contra hgone
  rw [if_pos ⟨hres, by simpa using hgone⟩] at hlast
  cases hlast

/-- An event that sends the trace nothing leaves it as it is. -/
theorem trace_frame (he : s.step e = some s')
    (hother : (e.sent.filterMap fun p => if p.1 = id then some p.2 else none) = [])
    (hkept : (s.trace id).isSome → (s'.trace id).isSome) : s'.trace id = s.trace id := by
  cases e with
  | insert trace_id span now =>
    obtain ⟨t', htrace, _⟩ := step_insert he
    rw [htrace, if_neg]
    rintro rfl
    simp [Event.sent] at hother
  | malformed count =>
    obtain rfl := Option.some.inj he
    rfl
  | sweep order =>
    have hswept := (sweep_of_evict he).swept
    cases ht : s'.trace id with
    | some t => exact (hswept.kept id t ht).symm
    | none =>
      rw [ht] at hkept
      exact (Option.not_isSome_iff_eq_none.mp fun h => Bool.false_ne_true (hkept h)).symm

/-- The trace `id` is absent from both stores, or in both with the same rows. -/
def SameTrace (id : TraceId) (s s' : Store) : Prop :=
  Option.Rel (SameRows s s') (s.trace id) (s'.trace id)

theorem SameTrace.symm (h : SameTrace id s s') : SameTrace id s' s :=
  rel_flip h fun _ _ => SameRows.symm

/-- An event that leaves the trace as it is and only grows the tables keeps it
the same as in any other store. -/
theorem SameTrace.frame {s₁ : Store} (h : SameTrace id s s') (htrace : s₁.trace id = s.trace id)
    (hgrows : Grows s s₁) : SameTrace id s₁ s' := by
  unfold SameTrace at h ⊢
  rw [htrace]
  exact rel_imp h fun _ _ hrows => hrows.grow hgrows.keys hgrows.services

/-- What an insert without a refusal does to its trace, under the tables it
leaves behind. -/
theorem insert_resolved {span : NewSpan} {now : UInt64} (hs : exec step es (new m) = some s)
    (he : s.step (.insert id span now) = some s') (hunrefused : s'.Unrefused) :
    ∃ t svc I out, (s.entry id now).1.insert span svc I now = some (t, s'.key_interner, out)
      ∧ s'.trace id = some t
      ∧ svc = span.service_name.bind s'.service_interner.lookup
      ∧ (Trace.intern_attrs I span.attributes).1 = kept_attrs s'.key_interner span.attributes
      ∧ (∀ kv ∈ span.attributes, (s'.key_interner.lookup kv.1).isSome)
      ∧ ∀ name, span.service_name = some name → (s'.service_interner.lookup name).isSome := by
  obtain ⟨⟨hkey, _⟩, hsvc, _⟩ := interners_of_run hs
  obtain ⟨⟨s₁, out⟩, hins, rfl⟩ := Option.map_eq_some_iff.mp he
  obtain ⟨_, hattrs, hname⟩ := Unrefused.insert hkey hins hunrefused
  obtain ⟨t, o, hcall, htraces, hsvc', _⟩ := insert_cases hins
  obtain ⟨hkey', _⟩ := Trace.insert_cases hcall
  obtain ⟨_, _, hid⟩ := intern_service_spec hsvc span.service_name
  obtain ⟨_, _, hkept⟩ := intern_attrs_spec hkey span.attributes
  rw [← hsvc'] at hid
  rw [← hkey'] at hkept
  exact ⟨t, _, _, o, hcall, by rw [trace_insert htraces, if_pos rfl], hid, hkept, hattrs, hname⟩

/-- **The step lemma of two runs**: one span, sent to the trace in both. -/
theorem SameTrace.insert {m' : ℕ} {es' : List Event} {s₁ s₁' : Store} {span : NewSpan}
    {now now' : UInt64} (h : SameTrace id s s') (hs : exec step es (new m) = some s)
    (hs' : exec step es' (new m') = some s') (he : s.step (.insert id span now) = some s₁)
    (he' : s'.step (.insert id span now') = some s₁') (hunrefused : s₁.Unrefused)
    (hunrefused' : s₁'.Unrefused) : SameTrace id s₁ s₁' := by
  obtain ⟨t, svc, I, out, hcall, ht, hid, hattrs, hkeys, hname⟩ :=
    insert_resolved hs he hunrefused
  obtain ⟨t', svc', I', out', hcall', ht', hid', hattrs', hkeys', hname'⟩ :=
    insert_resolved hs' he' hunrefused'
  have hgrows := grows_of_step hs he
  have hgrows' := grows_of_step hs' he'
  obtain ⟨⟨hkey, _⟩, hsvc, _⟩ := interners_of_run (exec_tail hs he)
  obtain ⟨⟨hkey', _⟩, hsvc', _⟩ := interners_of_run (exec_tail hs' he')
  -- the trace that is written to: new in both, or there in both with the same rows
  have hentry : SameRows s₁ s₁' (s.entry id now).1 (s'.entry id now').1 := by
    unfold SameTrace at h
    cases hu : s.trace id with
    | none =>
      cases hu' : s'.trace id with
      | none =>
        rw [entry_of_none hu, entry_of_none hu']
        exact SameRows.new _ _ _ _ _
      | some u' =>
        rw [hu, hu'] at h
        cases h
    | some u =>
      cases hu' : s'.trace id with
      | none =>
        rw [hu, hu'] at h
        cases h
      | some u' =>
        rw [hu, hu'] at h
        cases h with
        | some hrows =>
          rw [entry_of_some hu, entry_of_some hu']
          have hleft := hrows.grow hgrows.keys hgrows.services
          exact (hleft.symm.grow hgrows'.keys hgrows'.services).symm
  -- what is written resolves to what was sent, under either store's tables
  unfold SameTrace
  rw [ht, ht']
  refine Option.Rel.some (hentry.insert hcall hcall' ?_ ?_)
  · rw [hattrs, hattrs']
    exact sameAttrs_kept hkey hkey' hkeys hkeys'
  · rw [hid, hid']
    exact sameName_service hsvc hsvc' hname hname'

/-- An undisturbed run that ends in an event that sends the trace nothing. -/
theorem Undisturbed.drop (h : Undisturbed m id (es ++ [e]) s')
    (hother : (e.sent.filterMap fun p => if p.1 = id then some p.2 else none) = []) :
    ∃ s, Undisturbed m id es s ∧ sent_to (es ++ [e]) id = sent_to es id
      ∧ ∀ s₂, SameTrace id s s₂ → SameTrace id s' s₂ := by
  obtain ⟨s, hu, he, hkept⟩ := h.init
  refine ⟨s, hu, ?_, fun s₂ hsame => ?_⟩
  · rw [sent_to_snoc, hother, List.append_nil]
  · exact hsame.frame (trace_frame he hother hkept) (grows_of_step hu.run he)

/-- An event sends the trace nothing, or is one insert into it. -/
theorem sent_cases (e : Event) (id : TraceId) :
    (e.sent.filterMap fun p => if p.1 = id then some p.2 else none) = []
      ∨ ∃ span now, e = .insert id span now := by
  cases e with
  | insert trace_id span now =>
    by_cases hid : trace_id = id
    · exact Or.inr ⟨span, now, by rw [hid]⟩
    · exact Or.inl (by simp [Event.sent, hid])
  | malformed count => exact Or.inl rfl
  | sweep order => exact Or.inl rfl

/-- **Runs that send one trace the same spans leave it with the same rows**,
whatever they send to other traces. The induction is on both runs: an event
that does not concern the trace is dropped from its run alone, an insert into
it from both at once. -/
theorem same_trace_of_runs {m' : ℕ} {es' : List Event} (h : Undisturbed m id es s)
    (h' : Undisturbed m' id es' s') (hsent : sent_to es id = sent_to es' id) :
    SameTrace id s s' := by
  induction es using List.reverseRecOn generalizing s s' es' with
  | nil =>
    induction es' using List.reverseRecOn generalizing s' with
    | nil =>
      obtain rfl := Option.some.inj h.run
      obtain rfl := Option.some.inj h'.run
      unfold SameTrace
      rw [new_trace, new_trace]
      exact Option.Rel.none
    | append_singleton es' e' ih =>
      rcases sent_cases e' id with hother | ⟨span, now, rfl⟩
      · obtain ⟨s₀', hu', hsame, hframe⟩ := h'.drop hother
        exact (hframe s (ih hu' (hsent.trans hsame)).symm).symm
      · rw [sent_to_snoc] at hsent
        simp [sent_to, sent, Event.sent] at hsent
  | append_singleton es e ih =>
    rcases sent_cases e id with hother | ⟨span, now, rfl⟩
    · obtain ⟨s₀, hu, hsame, hframe⟩ := h.drop hother
      exact hframe s' (ih hu h' (hsame.symm.trans hsent))
    · -- the run on the left ends in an insert: peel the one on the right down to its own
      induction es' using List.reverseRecOn generalizing s' with
      | nil =>
        rw [sent_to_snoc] at hsent
        simp [sent_to, sent, Event.sent] at hsent
      | append_singleton es' e' ih' =>
        rcases sent_cases e' id with hother | ⟨span', now', rfl⟩
        · obtain ⟨s₀', hu', hsame, hframe⟩ := h'.drop hother
          exact (hframe s (ih' hu' (hsent.trans hsame)).symm).symm
        · obtain ⟨s₀, hu, he, _⟩ := h.init
          obtain ⟨s₀', hu', he', _⟩ := h'.init
          have hlast : sent_to es id ++ [span] = sent_to es' id ++ [span'] := by
            rw [sent_to_snoc, sent_to_snoc] at hsent
            simpa [Event.sent] using hsent
          obtain ⟨hinit, hspan⟩ := List.append_inj' hlast rfl
          obtain rfl : span = span' := List.singleton_inj.mp hspan
          exact (ih hu hu' hinit).insert hu.run hu'.run he he' h.unrefused h'.unrefused

end Store

end Spanfall
