import StackExpr.Proofs.Construction
import StackExpr.Proofs.Equalities

/-! Nulls in records of primitive values.

A value that is boxed on its way into a record is never `null`, and a `null` that is written there
is refused. A value that is a reference already is put as it is. -/
namespace StackExpr

/-- A property whose value is put into a record of primitives without being boxed: no literal, and
of the wrapper's type or of the type of `null`. -/
def Property.PutsReference (scope : Scope) (k : Kind) : Property → Prop
  | .keyed _ value _ => value.narrowed? (.boxed k) = none ∧
    ∃ t, Check.expr scope (.of (.boxed k)) value = .ok t ∧ (t.type = .boxed k ∨ t.type = .null)
  | .shorthand name span =>
    ∃ t, scope.read name span = .ok t ∧ (t.type = .boxed k ∨ t.type = .null)
  | .spread .. | .member .. => False

/-- A property whose value is the literal `null`. -/
def Property.writesNull : Property → Bool
  | .keyed _ value _ =>
    match value.bare with
    | .null _ => true
    | _ => false
  | _ => false

/-- Where the nulls come from that a property brings into a record of primitives. -/
structure Property.Explains (scope : Scope) (k : Kind) (p : Property) (c : Contribution) :
    Prop where
  unwritten : p.writesNull = false
  nulls : ∀ pair ∈ c.pairs, pair.2 = .null →
    p.PutsReference scope k ∨ ∃ b pairs, c = .copied b pairs

namespace Typed

variable {e e' : Typed} {k : Kind} {st st' : EvalState} {v : Value}

/-- A conversion whose last step boxes. -/
def IsBoxing (k : Kind) (e : Typed) : Prop := ∃ inner tag, e = convert inner (.box k) tag

theorem IsBoxing.ne_null (h : e.IsBoxing k) (hv : e.eval st = .ok (v, st')) : v ≠ .null := by
  obtain ⟨inner, tag, rfl⟩ := h
  rw [eval] at hv
  obtain ⟨w, st₁, -, hv⟩ := Eval.ok_of_bind hv
  obtain ⟨s, st₂, -, hv⟩ := Eval.ok_of_bind hv
  obtain ⟨hbox, -⟩ := Eval.ok_of_lift hv
  simp only [Conversion.convert, Value.box] at hbox
  split at hbox <;> cases hbox
  exact Value.noConfusion

/-- The implicit steps to a wrapper end in boxing, unless there are none. -/
theorem isBoxing_of_assignTo (h : e.assignTo? (.boxed k) = some e') :
    e'.IsBoxing k ∨ e' = e ∧ (e.type = .boxed k ∨ e.type = .null) := by
  obtain ⟨steps, hs, rfl⟩ := Option.map_eq_some_iff.mp h
  cases ht : e.type with
  | prim j =>
    rw [ht, Ty.assign?] at hs
    split_ifs at hs with hj
    · subst hj
      cases hs
      exact .inl ⟨_, _, rfl⟩
    · cases hs
      exact .inl ⟨_, _, rfl⟩
  | boxed j =>
    rw [ht] at hs
    simp only [Ty.assign?, Ty.isSubtype, Ty.storesInto, beq_iff_eq,
      Option.ite_none_right_eq_some, Option.some.injEq] at hs
    obtain ⟨rfl, rfl⟩ := hs
    exact .inr ⟨rfl, .inl rfl⟩
  | null =>
    rw [ht] at hs
    cases hs
    exact .inr ⟨rfl, .inr rfl⟩
  | _ =>
    rw [ht] at hs
    cases hs

theorem isBoxing_of_narrowed {e : Expr} {t : Typed} (h : e.narrowed? (.boxed k) = some t) :
    t.IsBoxing k := by
  simp only [Expr.narrowed?, Ty.kind?, bind, Option.bind_eq_some_iff, pure, Option.some.injEq] at h
  obtain ⟨_, rfl, c, -, rfl⟩ := h
  exact ⟨_, _, rfl⟩

end Typed

namespace Entry

variable {e : Entry} {value : Typed} {c : Contribution} {st st' : EvalState}

/-- The tree whose value an entry puts. -/
def value? : Entry → Option Typed
  | fixed _ _ value _ | computed _ value _ => some value
  | spread _ _ => none

theorem contribution_of_value? (hv : e.value? = some value)
    (h : e.contribution st = .ok (c, st')) :
    ∃ key v st₁, value.eval st₁ = .ok (v, st') ∧ c = .single key v := by
  cases e with
  | fixed d stored w tag =>
    cases hv
    obtain ⟨-, key, v, -, -, he, rfl⟩ := contribution_fixed_eq_ok h
    exact ⟨key, v, st, he, rfl⟩
  | computed d w tag =>
    cases hv
    obtain ⟨-, v, key, st₁, -, he, -, rfl⟩ := contribution_computed_eq_ok h
    exact ⟨key, v, st₁, he, rfl⟩
  | spread source tag => cases hv

end Entry

namespace Check

variable {scope : Scope} {e : Expr} {label : String} {k : Kind} {key : Ty} {t : Typed}
  {checked : Except CheckError Typed} {p : Property} {entry : Entry} {order : Nat}
  {st st' : EvalState} {c : Contribution}

/-- What is put into a record of primitives is boxed for it, or is a reference to begin with. -/
theorem fitValue_prim (h : fitValue e label (.prim k) checked = .ok t) :
    t.IsBoxing k ∨ e.narrowed? (.boxed k) = none ∧ checked = .ok t ∧
      (t.type = .boxed k ∨ t.type = .null) := by
  rcases fitValue_eq_ok h with hfit | ⟨_, _, _, _, _, hdeclared, -⟩
  · rcases fit_eq_ok hfit with hn | ⟨hn, t₀, hchecked, ha⟩
    · exact .inl (Typed.isBoxing_of_narrowed hn)
    · rcases Typed.isBoxing_of_assignTo ha with hbox | ⟨rfl, htype⟩
      · exact .inl hbox
      · exact .inr ⟨hn, hchecked, htype⟩
  · cases hdeclared

theorem fitValue_null {s : Span} (h : e.bare = .null s) :
    fitValue e label (.prim k) checked = .error (.valueMismatch label (.prim k) .null e.span) := by
  simp only [fitValue, h]

/-- The value of a keyed property is fitted to the declared one, whatever its key. -/
theorem fitValue_of_keyed {name : Key} {value : Expr} {span : Span}
    (h : property scope (some ⟨key, .prim k⟩) order (.keyed name value span) = .ok entry) :
    ∃ t, entry.value? = some t ∧
      fitValue value name.label (.prim k) (expr scope (.of (.boxed k)) value) = .ok t := by
  cases name with
  | computed source keySpan =>
    obtain ⟨_, t, -, hfit, rfl⟩ := computed_eq_ok h
    exact ⟨t, rfl, hfit⟩
  | _ =>
    obtain ⟨_, t, -, hfit, rfl⟩ := keyed_eq_ok h fun _ _ => Key.noConfusion
    exact ⟨t, rfl, hfit⟩

theorem isBoxing_or_putsReference
    (h : property scope (some ⟨key, .prim k⟩) order p = .ok entry) (hv : entry.value? = some t) :
    t.IsBoxing k ∨ p.PutsReference scope k := by
  cases p with
  | keyed name value span =>
    obtain ⟨t', hv', hfit⟩ := fitValue_of_keyed h
    obtain rfl := Option.some.inj (hv'.symm.trans hv)
    rcases fitValue_prim hfit with hbox | ⟨hn, hchecked, htype⟩
    · exact .inl hbox
    · exact .inr ⟨hn, t', hchecked, htype⟩
  | shorthand name span =>
    obtain ⟨_, v, -, hfit, rfl⟩ := shorthand_eq_ok h
    cases hv
    have hfit : fitValue (.var name span) name (.prim k) (scope.read name span) = .ok t := hfit
    rcases fitValue_prim hfit with hbox | ⟨-, hread, htype⟩
    · exact .inl hbox
    · exact .inr ⟨t, hread, htype⟩
  | spread source span =>
    obtain ⟨_, _, _, -, -, rfl⟩ := spread_eq_ok h
    cases hv
  | member form name span => cases h

theorem writesNull_eq_false (h : property scope (some ⟨key, .prim k⟩) order p = .ok entry) :
    p.writesNull = false := by
  cases p with
  | keyed name value span =>
    obtain ⟨t, -, hfit⟩ := fitValue_of_keyed h
    rw [Property.writesNull]
    split
    · next s hbare =>
      rw [fitValue_null hbare] at hfit
      cases hfit
    · rfl
  | _ => rfl

theorem explains_contribution (h : property scope (some ⟨key, .prim k⟩) order p = .ok entry)
    (hc : entry.contribution st = .ok (c, st')) : p.Explains scope k c := by
  refine ⟨writesNull_eq_false h, fun pair hp hnull => ?_⟩
  cases hv : entry.value? with
  | some t =>
    obtain ⟨key, v, st₁, he, rfl⟩ := Entry.contribution_of_value? hv hc
    obtain rfl := List.mem_singleton.mp hp
    rcases isBoxing_or_putsReference h hv with hbox | hputs
    · exact absurd hnull (hbox.ne_null he)
    · exact .inl hputs
  | none =>
    cases entry with
    | spread source tag =>
      obtain ⟨b, -, rfl⟩ := Entry.contribution_spread_eq_ok hc
      exact .inr ⟨b, _, rfl⟩
    | _ => cases hv

/-- The properties of a literal and what they bring, side by side. -/
theorem explains_contributions {props : List Property} {entries : List Entry}
    {cs : List Contribution}
    (h : List.Forall₂ (fun p e => ∃ order, property scope (some ⟨key, .prim k⟩) order p = .ok e)
      props entries)
    (hc : Entry.contributions entries st = .ok (cs, st')) :
    List.Forall₂ (Property.Explains scope k) props cs := by
  induction h generalizing st cs with
  | nil =>
    cases hc
    exact .nil
  | cons hp _ ih =>
    obtain ⟨order, hp⟩ := hp
    obtain ⟨c, cs', st₁, hhead, htail, rfl⟩ := Entry.contributions_cons_eq_ok hc
    exact .cons (explains_contribution hp hhead) (ih htail)

end Check

theorem Contribution.ne_null_of_explains {scope : Scope} {k : Kind} {props : List Property}
    {cs : List Contribution} (h : List.Forall₂ (Property.Explains scope k) props cs)
    (hvalues : ∀ p ∈ props, ¬p.PutsReference scope k)
    (hcopies : ∀ b pairs, .copied b pairs ∈ cs → ∀ pair ∈ pairs, pair.2 ≠ .null) :
    ∀ pair ∈ allPairs cs, pair.2 ≠ .null := by
  induction h with
  | nil => nofun
  | @cons p c props cs hp _ ih =>
    obtain ⟨hvalue, hvalues⟩ := List.forall_mem_cons.mp hvalues
    rw [allPairs_cons, List.forall_mem_append]
    refine ⟨fun pair hpair hnull => ?_, ih hvalues fun b pairs hb => ?_⟩
    · rcases hp.nulls pair hpair hnull with hputs | ⟨b, pairs, rfl⟩
      · exact hvalue hputs
      · exact hcopies b pairs List.mem_cons_self pair hpair hnull
    · exact hcopies b pairs (List.mem_cons_of_mem c hb)

/-- Putting makes no values. -/
theorem MapEntries.exists_of_mem_putAll {m ps : MapEntries} {e : MapKey × Value}
    (h : e ∈ m.putAll ps) : e ∈ m ∨ ∃ p ∈ ps, p.2 = e.2 := by
  induction ps generalizing m with
  | nil => exact .inl h
  | cons p rest ih =>
    rw [putAll_cons] at h
    rcases ih h with hput | ⟨q, hq, he⟩
    · rcases (Store.mem_put hput).2 with he | hm
      · exact .inr ⟨p, List.mem_cons_self, he.symm⟩
      · exact .inl hm
    · exact .inr ⟨q, List.mem_cons_of_mem p hq, he⟩

/-- A literal for a record of primitives refuses a `null` that is written as a value. The record
holds one only if a property put a reference that was `null`, or copied it from a map that holds
it. -/
theorem nulls_of_primitive_record {scope : Scope} {hint : Hint} {props : List Property}
    {extent span : Span} {typed : Typed} {key : Ty} {k : Kind} {u : Unfinished}
    {st st' : EvalState} {v : Value} (hr : hint.record? = some ⟨key, .prim k⟩)
    (h : Check.expr scope hint (.object props extent span) = .ok typed)
    (hn : (scope.vars.map (·.name)).Nodup) (hst : st.Sound false scope.vars u)
    (hv : typed.eval st = .ok (v, st')) :
    typed.Executes scope.vars st v st' ∧ ∃ a cs, v = .map a ∧ st.Built st' a cs ∧
      List.Forall₂ (Property.Explains scope k) props cs ∧
      ((∀ p ∈ props, ¬p.PutsReference scope k) →
        (∀ b pairs, .copied b pairs ∈ cs → ∀ pair ∈ pairs, pair.2 ≠ .null) →
        ∀ pair ∈ st'.store.entries a, pair.2 ≠ .null) := by
  have hw : Typed.WellTyped false scope.vars typed := Check.wellTyped_expr _ hint nofun h
  refine ⟨Typed.executes_of_eval hw (fun _ => hst) hv, ?_⟩
  obtain ⟨plan, entries, tag, rfl, hprops⟩ := Check.expr_object h
  rw [hr] at hprops
  obtain ⟨cs, st₁, hcs, rfl, rfl⟩ := Typed.eval_record_eq_ok hn hw.1 hst hv
  have hbuilt := Entry.built_contributions hn hw.1 hst hcs
  have hexplains := Check.explains_contributions hprops hcs
  refine ⟨_, cs, rfl, hbuilt, hexplains, fun hvalues hcopies pair hpair hnull => ?_⟩
  rw [hbuilt.entries] at hpair
  rcases MapEntries.exists_of_mem_putAll hpair with hpair | ⟨q, hq, he⟩
  · cases hpair
  · exact Contribution.ne_null_of_explains hexplains hvalues hcopies q hq (he.trans hnull)

/-- `{a: 1, x, ...{b: x}}` is put together from numbers. -/
theorem nulls_of_numbers :
    let o := Span.origin
    let scope := Scope.empty.push "x" (.prim .int) o
    let props : List Property := [.ofKeyed (.name "a" o) (.int 1 o), .shorthand "x" o,
      .ofSpread (.ofObject [.ofKeyed (.name "b" o) (.var "x" o)])]
    ∃ typed st', Check.expr scope (.of (.record .string (.prim .int))) (.ofObject props) =
        .ok typed ∧ typed.eval ⟨[("x", .int 7)], .empty⟩ = .ok (.map 0, st') ∧
      (st'.store.entries 0).length = 3 ∧ ∀ pair ∈ st'.store.entries 0, pair.2 ≠ .null := by
  intro o scope props
  have he : ∃ typed st', Check.expr scope (.of (.record .string (.prim .int))) (.ofObject props) =
      .ok typed ∧ typed.eval ⟨[("x", .int 7)], .empty⟩ = .ok (.map 0, st') ∧
      (st'.store.entries 0).length = 3 ∧
      st'.store.maps.tail = [[(.string "b", .boxed (.int 7))]] := ⟨_, _, rfl, rfl, rfl, rfl⟩
  obtain ⟨typed, st', h, hv, hlength, hmaps⟩ := he
  obtain ⟨-, a, cs, ha, hbuilt, -, hall⟩ := nulls_of_primitive_record (k := .int) rfl h
    (List.nodup_singleton "x") (EvalState.sound_int "x" 7) hv
  cases ha
  refine ⟨typed, st', h, hv, hlength, hall ?_ ?_⟩
  · simp only [props, List.forall_mem_cons]
    refine ⟨?_, ?_, id, nofun⟩
    · rintro ⟨hn, -⟩
      cases hn
    · rintro ⟨t, ht, htype⟩
      cases ht
      rcases htype with htype | htype <;> cases htype
  · intro b pairs hb pair hpair
    obtain ⟨hne, rfl⟩ := hbuilt.sources b pairs hb
    obtain ⟨n, rfl⟩ := Nat.exists_eq_succ_of_ne_zero hne
    rw [Store.entries, ← List.getElem?_tail, hmaps] at hpair
    cases n with
    | zero =>
      obtain rfl := List.mem_singleton.mp hpair
      exact Value.noConfusion
    | succ n => cases hpair

/-- `{a: null as Integer}`, to be a record of `int`. -/
def nullPut : SourceUnit :=
  let o := Span.origin
  ⟨"nullPut", [], .ofObject [.ofKeyed (.name "a" o) (.ofCast (.null o) (.simple "Integer" o))],
    some (.generic "Record" [.simple "String" o, .simple "int" o] o)⟩

theorem nullPut_holds_null :
    ∃ c x, compile .default nullPut = .ok c ∧ c.resultType = .record .string (.prim .int) ∧
      c.sequence.Answers (.ok x) ∧ x.result = .map 0 ∧
      x.store.entries 0 = [(.string "a", .null)] := by
  have he : ∃ t st, Check.unit nullPut = .ok t ∧ t.resultType = .record .string (.prim .int) ∧
      t.eval = .ok (.map 0, st) ∧ st.store.entries 0 = [(.string "a", .null)] :=
    ⟨_, _, rfl, rfl, rfl, rfl⟩
  obtain ⟨t, st, ht, htype, he, hentries⟩ := he
  have hrun := TypedUnit.answers_sequence Options.known_default (Check.wellTyped_unit nofun ht)
  rw [he] at hrun
  obtain ⟨store, hanswers, halike⟩ := hrun
  exact ⟨_, _, compile_of_check ht, htype, hanswers, rfl, (halike.entries 0).trans hentries⟩

end StackExpr
