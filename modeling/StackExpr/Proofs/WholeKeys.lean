import StackExpr.Proofs.Construction
import StackExpr.Proofs.IntegralOperators
import StackExpr.Proofs.Narrowing
import StackExpr.Proofs.Strictness

/-! Whole numbers as keys.

A whole number can be written as a key or computed as one. A written key finds its width by itself;
a computed one is narrowed, boxed or made a string as any other expression is. Both come to the same
key, and where one of them is refused the other is too. -/
namespace StackExpr

section constants

variable {k : Kind} {n : Int64} {d : Constant} {st : EvalState}

/-- A number in the range of an integral kind is a constant of it. -/
theorem Constant.exists_ofWhole? (hk : k.isIntegral = true) (hn : k.fits n.toInt = true) :
    ∃ d, ofWhole? k n = some d := by
  simp [ofWhole?, hk, hn]

theorem Constant.isStringConstant_ofWhole? (h : ofWhole? k n = some d) (tag : Tag) :
    (Typed.constant d tag).isStringConstant = false := by
  obtain ⟨-, -, rfl⟩ := ofWhole?_eq_some h
  split <;> rfl

/-- An `Integer` or a `Long` reads as the digits of its number. -/
theorem Store.text_ofWhole {n : Int} (store : Store) (hk : k = .int ∨ k = .long)
    (hn : k.fits n = true) : (store.read (.ofWhole (.boxed k) n)).text = toString n := by
  rcases hk with rfl | rfl
  · obtain ⟨hl, hh⟩ := (Kind.fits_iff rfl).mp hn
    change toString (Int32.ofInt n).toInt = _
    rw [Int32.toInt_ofInt_of_le hl (by omega)]
  · obtain ⟨hl, hh⟩ := (Kind.fits_iff rfl).mp hn
    change toString (Int64.ofInt n).toInt = _
    rw [Int64.toInt_ofInt_of_le hl (by omega)]

theorem Typed.eval_constant_box (h : Constant.ofWhole? k n = some d) (tag : Tag) :
    ((constant d tag).step (.box k)).eval st = .ok (.ofWhole (.boxed k) n.toInt, st) := by
  have heval : (constant d tag).eval st = .ok (d.value, st) := rfl
  have hbox : d.value.box k = .ok (.ofWhole (.boxed k) n.toInt) := Constant.kept_ofWhole? h
  rw [eval_step heval, Conversion.convert, hbox]
  rfl

/-- The kind of a whole number that nothing is asked of. -/
def Kind.ofWhole (n : Int64) : Kind := if Kind.int.fits n.toInt then .int else .long

namespace Kind

theorem ofWhole_eq (n : Int64) : ofWhole n = .int ∨ ofWhole n = .long := by
  unfold ofWhole
  split
  · exact .inl rfl
  · exact .inr rfl

/-- Of all integral kinds only `long` is wider than `int`. -/
theorem eq_long_of_widensTo {j : Kind} (hj : j = .int ∨ j = .long) (hk : k.isIntegral = true)
    (hne : j ≠ k) (h : j.widensTo k = true) : k = .long := by
  rcases hj with rfl | rfl <;> cases k <;> cases hk <;> first | rfl | exact absurd rfl hne | cases h

theorem fits_long (n : Int64) : Kind.long.fits n.toInt = true :=
  (fits_iff rfl).mpr ⟨n.le_toInt, Int.le_sub_one_of_lt n.toInt_lt⟩

theorem fits_ofWhole (n : Int64) : (ofWhole n).fits n.toInt = true := by
  unfold ofWhole
  split
  · assumption
  · exact fits_long n

end Kind

theorem Typed.ofWhole_eq (n : Int64) (s : Span) :
    ∃ d, Constant.ofWhole? (Kind.ofWhole n) n = some d ∧
      ofWhole n s = constant d ⟨.prim (Kind.ofWhole n), s⟩ := by
  unfold Kind.ofWhole ofWhole
  split_ifs with hn
  · exact ⟨_, if_pos hn, rfl⟩
  · exact ⟨_, if_pos (Kind.fits_long n), rfl⟩

end constants

/-- The kind of a whole key: the declared one, or under `Number` the one the key has by itself. -/
def RecordTy.keyKind (c : RecordTy) (n : Int64) : Kind := c.key.kind?.getD (Kind.ofWhole n)

/-- The key that a whole number is kept as: its digits where nothing is declared, else the wrapper
of its kind. -/
def Value.wholeKey (constraint : Option RecordTy) (n : Int64) : Value :=
  match constraint with
  | none => .string (toString n.toInt)
  | some c => .ofWhole (.boxed (c.keyKind n)) n.toInt

theorem Value.exists_key (constraint : Option RecordTy) (n : Int64) :
    ∃ key, (wholeKey constraint n).key? = some key := by
  cases constraint with
  | none => exact ⟨_, rfl⟩
  | some c =>
    rw [wholeKey]
    cases c.keyKind n <;> exact ⟨_, rfl⟩

namespace Check

variable {constraint : Option RecordTy} {c : RecordTy} {k : Kind} {n : Int64} {s : Span}
  {label : String}

/-- A written key passes and is kept as the key of the number. -/
def Writes (constraint : Option RecordTy) (n : Int64) (s : Span) : Prop :=
  ∃ d stored, (Key.int n s).constant (declaredKey constraint) = .ok (d, stored) ∧
    d.kept stored = .ok (.wholeKey constraint n)

/-- A computed key passes and its evaluation leaves the key of the number. -/
def Computes (constraint : Option RecordTy) (n : Int64) (s : Span) : Prop :=
  ∀ label, ∃ t, fitPropertyKey constraint label (.int n s) (.ok (.ofWhole n s)) = .ok t ∧
    ∀ st, t.eval st = .ok (.wholeKey constraint n, st)

theorem writes_free (n : Int64) (s : Span) : Writes none n s := ⟨_, _, rfl, rfl⟩

theorem computes_free (n : Int64) (s : Span) : Computes none n s := by
  intro label
  obtain ⟨d, hd, he⟩ := Typed.ofWhole_eq n s
  have hstring : (Typed.ofWhole n s).stringified =
      ((Typed.constant d ⟨.prim (Kind.ofWhole n), s⟩).step (.box (Kind.ofWhole n))).step
        .stringify := by
    rw [he, Typed.stringified, Constant.isStringConstant_ofWhole? hd]
    rfl
  refine ⟨_, congrArg Except.ok hstring, fun st => ?_⟩
  rw [Typed.eval_step (Typed.eval_constant_box hd _), Conversion.convert,
    Store.text_ofWhole _ (Kind.ofWhole_eq n) (Kind.fits_ofWhole n)]
  rfl

theorem isIntegral_keyKind (hc : c.key = .number ∨ c.key.isIntegral = true) (n : Int64) :
    (c.keyKind n).isIntegral = true := by
  rcases hc with hc | hc
  · rw [RecordTy.keyKind, hc]
    exact Kind.isIntegral_of_int_or_long (Kind.ofWhole_eq n)
  · obtain ⟨k, hk, hi⟩ := Ty.exists_kind_of_isIntegral hc
    rw [RecordTy.keyKind, hk]
    exact hi

theorem isIntegral_of_key (hc : c.key = .number ∨ c.key.isIntegral = true)
    (hk : c.key.kind? = some k) : k.isIntegral = true := by
  simpa [RecordTy.keyKind, hk] using isIntegral_keyKind hc 0

/-- A number fits the kind it is kept at if it fits the declared one. -/
theorem fits_keyKind (hn : ∀ k ∈ c.key.kind?, k.fits n.toInt = true) :
    (c.keyKind n).fits n.toInt = true := by
  rw [RecordTy.keyKind]
  cases hk : c.key.kind? with
  | none => exact Kind.fits_ofWhole n
  | some k => exact hn k hk

/-- A written key is a constant of its kind if it fits. -/
theorem constant_whole (hc : c.key = .number ∨ c.key.isIntegral = true) (n : Int64) (s : Span) :
    (Key.int n s).constant c.key =
      match Constant.ofWhole? (c.keyKind n) n with
      | some d => .ok (d, .boxed (c.keyKind n))
      | none => .error (.keyMismatch (toString n.toInt) c.key (Literal.wholeType n) s) := by
  have hnumber : (c.key.isNumeric || c.key.isNumber) = true := by
    rcases hc with hc | hc
    · rw [hc]
      rfl
    · obtain ⟨k, hk, hi⟩ := Ty.exists_kind_of_isIntegral hc
      rw [Ty.isNumeric_of_kind? hk hi, Bool.true_or]
  have hkind : (Literal.whole n).keyKind c.key = c.keyKind n := by
    rw [Literal.keyKind, RecordTy.keyKind]
    cases c.key.kind? <;> rfl
  have hconstant : (Literal.whole n).keyConstant? (c.keyKind n) =
      Constant.ofWhole? (c.keyKind n) n := by
    have hi := isIntegral_keyKind hc n
    generalize c.keyKind n = k at hi
    cases k <;> first | rfl | cases hi
  simp only [Key.constant, Key.literal?, hnumber, hkind, hconstant]
  rfl

/-- A written number that fits is kept in the wrapper of its kind. -/
theorem writes_wrapped (hc : c.key = .number ∨ c.key.isIntegral = true) {d : Constant}
    (hd : Constant.ofWhole? (c.keyKind n) n = some d) : Writes (some c) n s := by
  refine ⟨d, .boxed (c.keyKind n), ?_, Constant.kept_ofWhole? hd⟩
  rw [declaredKey, constant_whole hc, hd]

theorem storage_key (hk : c.key.kind? = some k) : c.key.storage = .boxed k := by
  rcases Ty.kind?_eq_some hk with h | h <;> rw [h] <;> rfl

theorem narrowed?_whole (hk : c.key.kind? = some k) (hi : k.isIntegral = true) (n : Int64)
    (s : Span) :
    (Expr.int n s).narrowed? c.key.storage = (Constant.ofWhole? k n).map fun d =>
      (Typed.constant d ⟨.prim k, s⟩).step (.box k) := by
  have hconstant : (Expr.int n s).constantAt? k = Constant.ofWhole? k n := by
    cases k <;> first | rfl | cases hi
  simp only [Expr.narrowed?, storage_key hk, Ty.kind?, hconstant, bind, Option.bind_some]
  cases Constant.ofWhole? k n <;> rfl

/-- To a `Number` a whole number is boxed as it is. -/
theorem assignTo?_number (n : Int64) (s : Span) :
    (Typed.ofWhole n s).assignTo? .number =
      some ((Typed.ofWhole n s).step (.box (Kind.ofWhole n))) := by
  obtain ⟨d, -, he⟩ := Typed.ofWhole_eq n s
  have hassign : (Ty.prim (Kind.ofWhole n)).assign? .number = some [.box (Kind.ofWhole n)] := by
    apply Ty.assign?_of_boxed_isSubtype
    rcases Kind.ofWhole_eq n with hk | hk <;> rw [hk] <;> rfl
  rw [he]
  exact congrArg (Option.map _) hassign

/-- A computed key that fits is boxed at the same kind. -/
theorem fit_whole (hc : c.key = .number ∨ c.key.isIntegral = true) {d : Constant}
    (hd : Constant.ofWhole? (c.keyKind n) n = some d) (site : Site) :
    fit (.int n s) c.key.storage site (.ok (.ofWhole n s)) =
      .ok ((Typed.constant d ⟨.prim (c.keyKind n), s⟩).step (.box (c.keyKind n))) := by
  rcases hc with hc | hc
  · have hkind : c.keyKind n = Kind.ofWhole n := by
      rw [RecordTy.keyKind, hc]
      rfl
    rw [hkind] at hd ⊢
    obtain ⟨d', hd', he⟩ := Typed.ofWhole_eq n s
    obtain rfl : d' = d := Option.some.inj (hd'.symm.trans hd)
    have hnone : (Expr.int n s).narrowed? Ty.number.storage = none := rfl
    have hassign : (Typed.ofWhole n s).assignTo? Ty.number.storage = _ := assignTo?_number n s
    rw [hc, fit, hnone, ← he]
    simp only [bind, Except.bind, hassign]
    rfl
  · obtain ⟨k, hk, hi⟩ := Ty.exists_kind_of_isIntegral hc
    have hkind : c.keyKind n = k := by rw [RecordTy.keyKind, hk, Option.getD_some]
    rw [hkind] at hd ⊢
    rw [fit, narrowed?_whole hk hi, hd, Option.map_some]

theorem computes_wrapped (hc : c.key = .number ∨ c.key.isIntegral = true) {d : Constant}
    (hd : Constant.ofWhole? (c.keyKind n) n = some d) : Computes (some c) n s := by
  intro label
  refine ⟨(Typed.constant d ⟨.prim (c.keyKind n), s⟩).step (.box (c.keyKind n)), ?_, fun st => ?_⟩
  · rw [fitPropertyKey, fitKey, fit_whole hc hd]
    rfl
  · exact Typed.eval_constant_box hd _

/-- Numbers that fit pass either way. -/
theorem passes_whole (hkey : ∀ c ∈ constraint, c.key = .number ∨ c.key.isIntegral = true)
    (hn : ∀ c ∈ constraint, ∀ k ∈ c.key.kind?, k.fits n.toInt = true) :
    Writes constraint n s ∧ Computes constraint n s := by
  cases constraint with
  | none => exact ⟨writes_free n s, computes_free n s⟩
  | some c =>
    have hc := hkey c rfl
    obtain ⟨d, hd⟩ := Constant.exists_ofWhole? (isIntegral_keyKind hc n) (fits_keyKind (hn c rfl))
    exact ⟨writes_wrapped hc hd, computes_wrapped hc hd⟩

/-- A whole number that does not fit a kind does not widen to it either. -/
theorem assignTo?_whole (hi : k.isIntegral = true) (hn : k.fits n.toInt = false) :
    (Typed.ofWhole n s).assignTo? (.boxed k) = none := by
  obtain ⟨d, -, he⟩ := Typed.ofWhole_eq n s
  have hfits := Kind.fits_ofWhole n
  have hkind := Kind.ofWhole_eq n
  rw [he, Typed.assignTo?, Option.map_eq_none_iff]
  change (Ty.prim (Kind.ofWhole n)).assign? (.boxed k) = none
  cases h : (Ty.prim (Kind.ofWhole n)).assign? (.boxed k) with
  | none => rfl
  | some steps =>
    exfalso
    generalize Kind.ofWhole n = j at *
    cases Ty.assigns_of_assign? h with
    | same hs => cases hs
    | box hs =>
      obtain rfl : j = k := eq_of_beq hs
      rw [hfits] at hn
      cases hn
    | widenAndBox hne hw =>
      obtain rfl := Kind.eq_long_of_widensTo hkind hi hne hw
      rw [Kind.fits_long] at hn
      cases hn

/-- A computed key that does not fit is refused. -/
theorem refuses_computed (hk : c.key.kind? = some k) (hi : k.isIntegral = true)
    (hn : k.fits n.toInt = false) (label : String) :
    ∃ e, fitPropertyKey (some c) label (.int n s) (.ok (.ofWhole n s)) = .error e ∧
      e.kind = .keyTypeMismatch := by
  have hnone : Constant.ofWhole? k n = none := by simp [Constant.ofWhole?, hn]
  refine ⟨.keyMismatch label c.key (Typed.ofWhole n s).type (Typed.ofWhole n s).span, ?_, rfl⟩
  rw [fitPropertyKey, fitKey, fit, narrowed?_whole hk hi, hnone, storage_key hk]
  simp only [Option.map_none, bind, Except.bind, assignTo?_whole hi hn]
  rfl

/-- A written key that does not fit is refused as a mismatch of key types. -/
theorem refuses_written (hk : c.key.kind? = some k) (hi : k.isIntegral = true)
    (hn : k.fits n.toInt = false) :
    ∃ e, (Key.int n s).constant c.key = .error e ∧ e.kind = .keyTypeMismatch := by
  have hc : c.key.isIntegral = true := (Ty.isIntegral_of_kind? hk hi).1
  have hnone : Constant.ofWhole? (c.keyKind n) n = none := by
    simp [Constant.ofWhole?, RecordTy.keyKind, hk, hn]
  rw [constant_whole (.inr hc), hnone]
  exact ⟨_, rfl, rfl⟩

/-- Labels are for messages only. -/
theorem fitPropertyValue_label {scope : Scope} {v : Expr} {label' : String} {value : Typed}
    (h : fitPropertyValue constraint label v (expr scope (valueHint constraint label) v) =
      .ok value) :
    fitPropertyValue constraint label' v (expr scope (valueHint constraint label') v) =
      .ok value := by
  -- both agree with the value whose equalities are made loose
  have hloose (l : String) :
      Agrees id (fitPropertyValue constraint l v (expr scope (valueHint constraint l) v))
        (fitPropertyValue constraint label v.loose
          (expr scope (valueHint constraint label) v.loose)) :=
    fitPropertyValue_loose constraint (expr_loose v (.valueHint constraint l label))
  have hshared := (hloose label).ok_left h
  obtain ⟨value', h'⟩ := (hloose label').exists_ok.mpr ⟨_, hshared⟩
  rw [h']
  exact hshared ▸ ((hloose label').ok_left h').symm

end Check

/-- An entry that brings one key, whatever the state, and the value of a tree. -/
def Entry.BringsPair (e : Entry) (key : MapKey) (value : Typed) : Prop :=
  ∀ st, e.contribution st = (value.eval st).map fun p => (.single key p.1, p.2)

namespace Entry

variable {d : Constant} {stored : Ty} {key : MapKey} {w : Value} {value t : Typed}

theorem contribution_value (hw : w.key? = some key) (st : EvalState) :
    (do let v ← value.eval
        return .single (← Eval.key w) v : Eval Contribution) st =
      (value.eval st).map fun p => (.single key p.1, p.2) := by
  simp only [Eval.key, hw]
  cases h : value.eval st with
  | ok p => exact Eval.bind_of_ok h
  | error k => exact Eval.bind_of_error h

theorem bringsPair_fixed (hk : d.kept stored = .ok w) (hw : w.key? = some key) (tag : EntryTag) :
    (fixed d stored value tag).BringsPair key value := by
  intro st
  have hlift : Eval.lift (d.kept stored) st = .ok (w, st) := by
    rw [hk]
    rfl
  rw [contribution, Eval.bind_of_ok hlift]
  exact contribution_value hw st

theorem bringsPair_computed (hk : ∀ st, t.eval st = .ok (w, st)) (hw : w.key? = some key)
    (tag : EntryTag) : (computed t value tag).BringsPair key value := by
  intro st
  rw [contribution, Eval.bind_of_ok (hk st)]
  exact contribution_value hw st

end Entry

/-- The code of a literal makes a new map and puts one pair into it. -/
def Typed.BuildsPair (vars : List Local) (literal : Typed) (key : MapKey) (value : Typed) : Prop :=
  ∀ (o : Options) (s : Sequence) (free : Nat) (es : EmitState) (σ : List Value) (u : Unfinished)
    (st : EvalState), o.Known → s.Hosts vars free → free ≤ es.nextLocal →
    (Emit.expr o literal es).2.Within s → st.Sound false vars u →
      s.Runs vars (Emit.expr o literal es).1 σ st
        ((value.eval st.newMap).map fun p =>
          (.map st.store.maps.length, p.2.fill st.store.maps.length [(key, p.1)])) (· :: σ)

theorem Typed.buildsPair {vars : List Local} {plan : PlanTag} {e : Entry} {tag : Tag}
    {key : MapKey} {value : Typed} (hw : (record plan [e] tag).WellTyped false vars)
    (he : e.BringsPair key value) :
    (record plan [e] tag).BuildsPair vars key value := by
  intro o s free es σ u st ho hs hfree hwithin hst
  have hruns := compiles_tree ho hs _ hw es u σ st hfree hwithin hst
  rw [eval_record hs.names hw.1 hst] at hruns
  have hentry := he st.newMap
  cases hv : value.eval st.newMap with
  | ok p =>
    rw [hv] at hentry
    rw [Entry.contributions, Eval.bind_of_ok hentry] at hruns
    exact hruns
  | error k =>
    rw [hv] at hentry
    rw [Entry.contributions, Eval.bind_of_error hentry] at hruns
    exact hruns

namespace Check

variable {scope : Scope} {hint : Hint} {p : Property} {e : Entry} {extent span outer : Span}

/-- The type of a literal that spreads nothing is the declared one, or that of free literals. -/
theorem expr_single (hm : rejectMembers [p] = .ok ()) (hp : property scope hint.record? 0 p = .ok e)
    (he : hasStringKeys e = true) (extent span : Span) :
    ∃ plan, expr scope hint (.object [p] extent span) =
      .ok (.record plan [e] ⟨(hint.record?.getD .free).toTy, extent⟩) := by
  have htype : recordType hint.record? [e] = hint.record?.getD .free := by
    cases hint.record? <;> simp [recordType, he]
  refine ⟨⟨hint.record?.getD .free, hint.record?.isSome, extent⟩, ?_⟩
  rw [expr, hm]
  simp only [properties, hp, bind, Except.bind, pure, Except.pure, htype]

theorem expr_single_error {err : CheckError} (hm : rejectMembers [p] = .ok ())
    (hp : property scope hint.record? 0 p = .error err) (extent span : Span) :
    expr scope hint (.object [p] extent span) = .error err := by
  rw [expr, hm]
  simp only [properties, hp, bind, Except.bind]

section pairs

variable {n : Int64} {v : Expr} {label : String} {value : Typed} {key : MapKey}
  {keySpan bracket : Span}

/-- A literal with a written number for its key builds a map of one pair. -/
theorem builds_written (hw : Writes hint.record? n keySpan)
    (hkey : (Value.wholeKey hint.record? n).key? = some key)
    (hvalue : fitPropertyValue hint.record? label v
      (expr scope (valueHint hint.record? label) v) = .ok value) :
    ∃ t, expr scope hint (.object [.keyed (.int n keySpan) v span] extent outer) = .ok t ∧
      t.type = (hint.record?.getD .free).toTy ∧ t.BuildsPair scope.vars key value := by
  obtain ⟨d, stored, hconstant, hkept⟩ := hw
  have hp : property scope hint.record? 0 (.keyed (.int n keySpan) v span) =
      .ok (fixedEntry (d, stored) value 0 .literal span) := by
    rw [property, hconstant]
    · simp only [bind, Except.bind, fitPropertyValue_label hvalue]
      rfl
    · exact fun _ _ => Key.noConfusion
  obtain ⟨plan, ht⟩ := expr_single rfl hp rfl extent outer
  exact ⟨_, ht, rfl, Typed.buildsPair (wellTyped_expr _ hint nofun ht)
    (Entry.bringsPair_fixed hkept hkey _)⟩

theorem builds_computed (hc : Computes hint.record? n keySpan)
    (hkey : (Value.wholeKey hint.record? n).key? = some key)
    (hvalue : fitPropertyValue hint.record? label v
      (expr scope (valueHint hint.record? label) v) = .ok value) :
    ∃ t, expr scope hint
        (.object [.keyed (.computed (.int n keySpan) bracket) v span] extent outer) = .ok t ∧
      t.type = (hint.record?.getD .free).toTy ∧ t.BuildsPair scope.vars key value := by
  obtain ⟨k, hk, heval⟩ := hc (Key.computed (.int n keySpan) bracket).label
  have hp : property scope hint.record? 0 (.keyed (.computed (.int n keySpan) bracket) v span) =
      .ok (.computed k value ⟨0, .computed, k.type, value.type, span⟩) := by
    rw [property, expr, hk]
    simp only [bind, Except.bind, fitPropertyValue_label hvalue]
    rfl
  obtain ⟨plan, ht⟩ := expr_single rfl hp rfl extent outer
  exact ⟨_, ht, rfl, Typed.buildsPair (wellTyped_expr _ hint nofun ht)
    (Entry.bringsPair_computed heval hkey _)⟩

end pairs

end Check

/-- A number as a key, written `{n: v}` or computed `{[n]: v}`, beside a value that can stand there.
If a kind is declared that the number does not fit, both literals are refused for their key.
Otherwise both pass, at one type, and build a map of the one pair: the key is the decimal digits if
nothing is declared, an `Integer` or else a `Long` under `Number`, and the declared wrapper under a
kind. -/
theorem whole_keys_coincide {scope : Scope} {hint : Hint} {n : Int64} {v : Expr} {label : String}
    {value : Typed} {keySpan bracket span span' extent extent' outer outer' : Span}
    (hkey : ∀ c ∈ hint.record?, c.key = .number ∨ c.key.isIntegral = true)
    (hvalue : Check.fitPropertyValue hint.record? label v
      (Check.expr scope (Check.valueHint hint.record? label) v) = .ok value) :
    let written := Check.expr scope hint (.object [.keyed (.int n keySpan) v span] extent outer)
    let computed := Check.expr scope hint
      (.object [.keyed (.computed (.int n keySpan) bracket) v span'] extent' outer')
    ((∃ c ∈ hint.record?, ∃ k ∈ c.key.kind?, k.fits n.toInt = false) →
      ∃ e e', written = .error e ∧ computed = .error e' ∧ e.kind = .keyTypeMismatch ∧
        e'.kind = .keyTypeMismatch) ∧
    ((∀ c ∈ hint.record?, ∀ k ∈ c.key.kind?, k.fits n.toInt = true) →
      ∃ t t' key, written = .ok t ∧ computed = .ok t' ∧ t.type = t'.type ∧
        (Value.wholeKey hint.record? n).key? = some key ∧ t.BuildsPair scope.vars key value ∧
        t'.BuildsPair scope.vars key value) := by
  intro written computed
  refine ⟨?_, fun hfits => ?_⟩
  · rintro ⟨c, hc, k, hk, hn⟩
    have hi := Check.isIntegral_of_key (hkey c hc) hk
    obtain ⟨e, he, hkind⟩ := Check.refuses_written (s := keySpan) hk hi hn
    obtain ⟨e', he', hkind'⟩ := Check.refuses_computed (s := keySpan) hk hi hn
      (Key.computed (.int n keySpan) bracket).label
    refine ⟨e, e', Check.expr_single_error rfl ?_ _ _, Check.expr_single_error rfl ?_ _ _, hkind,
      hkind'⟩
    · rw [Check.property, hc, Check.declaredKey, he]
      · rfl
      · exact fun _ _ => Key.noConfusion
    · rw [Check.property, hc, Check.expr, he']
      rfl
  · obtain ⟨hwrites, hcomputes⟩ := Check.passes_whole (s := keySpan) hkey hfits
    obtain ⟨key, hk⟩ := Value.exists_key hint.record? n
    obtain ⟨t, ht, htype, hbuilds⟩ := Check.builds_written hwrites hk hvalue
    obtain ⟨t', ht', htype', hbuilds'⟩ := Check.builds_computed hcomputes hk hvalue
    exact ⟨t, t', key, ht, ht', htype.trans htype'.symm, hk, hbuilds, hbuilds'⟩

/-- Under `char` keys 65535 is the last `Character`, and 65536 is none. -/
theorem char_keys_coincide :
    let o := Span.origin
    let hint := Hint.of (.record (.prim .char) .string)
    let written (n : Int64) := Check.expr .empty hint (.object [.keyed (.int n o) (.null o) o] o o)
    let computed (n : Int64) :=
      Check.expr .empty hint (.object [.keyed (.computed (.int n o) o) (.null o) o] o o)
    let value := Typed.constant .null ⟨.null, o⟩
    (∃ t t', written 65535 = .ok t ∧ computed 65535 = .ok t' ∧ t.type = t'.type ∧
      t.BuildsPair [] (.boxed (.char 65535)) value ∧
      t'.BuildsPair [] (.boxed (.char 65535)) value) ∧
    ∃ e e', written 65536 = .error e ∧ computed 65536 = .error e' ∧
      e.kind = .keyTypeMismatch ∧ e'.kind = .keyTypeMismatch := by
  intro o hint written computed value
  have hkey : ∀ c ∈ hint.record?, c.key = .number ∨ c.key.isIntegral = true := by
    rintro c ⟨⟩
    exact .inr rfl
  have hvalue : Check.fitPropertyValue hint.record? "" (.null o)
      (Check.expr .empty (Check.valueHint hint.record? "") (.null o)) = .ok value := rfl
  have hcoincide (n : Int64) :=
    @whole_keys_coincide .empty hint n (.null o) "" value o o o o o o o o hkey hvalue
  refine ⟨?_, (hcoincide 65536).1 ⟨_, rfl, .char, rfl, by decide⟩⟩
  obtain ⟨t, t', key, ht, ht', htype, hk, hbuilds⟩ := (hcoincide 65535).2 (by
    rintro c ⟨⟩ k ⟨⟩
    decide)
  cases hk
  exact ⟨t, t', ht, ht', htype, hbuilds⟩

end StackExpr
