import StackExpr.Check.Unit
import StackExpr.Proofs.Coercions
import StackExpr.Proofs.Values

/-! Whatever passes the check is well typed.

Casts to container types look at the container and not into it, so without them the typing holds
for the contents as well. -/
namespace StackExpr

def TypeExpr.isContainer (t : TypeExpr) : Bool :=
  match t.resolve with
  | .ok type => type.isContainer
  | .error _ => false

mutual

/-- Whether a cast to a record or array type stands anywhere in an expression. -/
def Expr.castsToContainer : Expr → Bool
  | .binary _ left right _ _ => left.castsToContainer || right.castsToContainer
  | .unary _ operand _ _ => operand.castsToContainer
  | .update _ _ target _ _ => target.castsToContainer
  | .assign _ target value _ _ => target.castsToContainer || value.castsToContainer
  | .conditional test yes no _ _ =>
    test.castsToContainer || yes.castsToContainer || no.castsToContainer
  | .cast operand target _ _ => target.isContainer || operand.castsToContainer
  | .object properties _ _ => Property.castToContainer properties
  | .array items _ _ => Expr.castToContainer items
  | .paren inner _ => inner.castsToContainer
  | _ => false

def Expr.castToContainer : List Expr → Bool
  | [] => false
  | e :: rest => e.castsToContainer || Expr.castToContainer rest

def Property.castsToContainer : Property → Bool
  | .keyed key value _ => key.castsToContainer || value.castsToContainer
  | .shorthand _ _ => false
  | .spread source _ => source.castsToContainer
  | .member _ key _ => key.castsToContainer

def Property.castToContainer : List Property → Bool
  | [] => false
  | p :: rest => p.castsToContainer || Property.castToContainer rest

def Key.castsToContainer : Key → Bool
  | .computed source _ => source.castsToContainer
  | _ => false

end

def SourceUnit.castsToContainer (u : SourceUnit) : Bool :=
  u.declarations.any (fun d => d.initializer.any Expr.castsToContainer) || u.body.castsToContainer

/-- The locals that an expression may name. -/
def Scope.vars (scope : Scope) : List Local := scope.locals.map (·.toLocal)

variable {deep : Bool} {vars : List Local} {t t' : Ty} {k : Kind} {e : Expr} {typed : Typed}

theorem Constant.holds_ofWhole? {n : Int64} {c : Constant} (h : ofWhole? k n = some c) :
    k.Holds c.value := by
  unfold ofWhole? at h
  split at h
  · next hk =>
    simp only [Bool.and_eq_true] at hk
    obtain ⟨hint, hfits⟩ := hk
    split at h
    · next he =>
      cases h
      rw [he]
      trivial
    · next hne =>
      cases h
      have hto : n.toInt32.toInt = n.toInt := by
        rw [Int64.toInt_toInt32]
        refine Int.bmod_eq_of_le ?_ ?_ <;> cases k <;>
          simp_all [Kind.fits, Kind.range?, Kind.isIntegral] <;> omega
      cases k <;> simp_all [Kind.Holds, Constant.value, Kind.stackKind, Kind.isIntegral]
  · cases h

theorem singleUnit?_fits {s : String} {n : Int32} (h : singleUnit? s = some n) :
    Kind.char.Holds (.int n) := by
  unfold singleUnit? at h
  split at h
  · next c _ =>
    split at h
    · next hc =>
      cases h
      refine ⟨rfl, ?_⟩
      rw [Int32.toInt_ofNat_of_lt (by omega)]
      simp only [Kind.fits, Kind.range?, Bool.and_eq_true, decide_eq_true_eq]
      omega
    · cases h
  · cases h

/-- A literal of a kind is a constant with a value of that kind. -/
theorem Expr.holds_constantAt? {c : Constant} (h : e.constantAt? k = some c) :
    k.Holds c.value := by
  unfold constantAt? at h
  split at h
  · split at h
    · cases h; trivial
    · cases h; trivial
    · exact Constant.holds_ofWhole? h
  · split at h
    · cases h; trivial
    · cases h; trivial
    · cases h
  · split at h
    · split at h
      · next hk =>
        obtain ⟨n, hn, rfl⟩ := Option.map_eq_some_iff.mp h
        exact hk ▸ singleUnit?_fits hn
      · cases h
    · cases h

/-- A literal made for a declared type fits it. -/
theorem wellTyped_narrowed? (h : e.narrowed? t = some typed) :
    typed.WellTyped deep vars ∧ typed.type.Fits deep t := by
  obtain ⟨k, c, hc, h⟩ := Expr.narrowed?_eq_some h
  have hw : (Typed.constant c ⟨.prim k, e.span⟩).WellTyped deep vars := fun _ =>
    Expr.holds_constantAt? hc
  rcases h with ⟨rfl, rfl⟩ | ⟨rfl, rfl⟩
  · exact ⟨hw, .refl _⟩
  · exact ⟨⟨hw, rfl, .refl _⟩, .refl _⟩

theorem wellTyped_ofWhole (n : Int64) (span : Span) :
    (Typed.ofWhole n span).WellTyped deep vars := by
  rw [Typed.ofWhole]
  split
  · exact fun _ => Kind.holds_int _
  · exact fun _ => trivial

theorem Literal.keyed_keyConstant? {l : Literal} {c : Constant} (h : l.keyConstant? k = some c) :
    c.Keyed (.boxed k) := by
  unfold keyConstant? at h
  split at h
  · cases h
    exact .inl ⟨_, rfl, trivial, rfl, nofun⟩
  · cases h
    exact .inl ⟨_, rfl, trivial, rfl, nofun⟩
  · obtain ⟨n, -, hn⟩ := Option.bind_eq_some_iff.mp h
    have hk : k.isIntegral = true ∧ ∀ b, c ≠ .boolean b := by
      rw [Constant.ofWhole?] at hn
      split at hn
      · next hfits =>
        cases hn
        refine ⟨(Bool.and_eq_true_iff.mp hfits).1, fun b => ?_⟩
        split <;> nofun
      · cases hn
    refine .inl ⟨k, rfl, Constant.holds_ofWhole? hn, ?_, hk.2⟩
    cases k <;> first | rfl | cases hk.1

theorem Literal.fits_keyKind {l : Literal} (h : t.isNumeric = true ∨ t.isNumber = true) :
    (Ty.boxed (l.keyKind t)).Fits deep t.storage := by
  rcases h with h | h
  · obtain ⟨k, hk, -⟩ := Ty.exists_kind_of_isNumeric h
    rw [keyKind, hk]
    rcases Ty.kind?_eq_some hk with rfl | rfl <;> exact .refl _
  · obtain rfl : t = .number := by simpa [Ty.isNumber] using h
    refine Ty.Fits.of_isSubtype ?_
    simp only [keyKind, Ty.kind?, Ty.number]
    split
    · split <;> rfl
    · rfl

/-- A written key is kept at a type that fits the declared one. -/
theorem Key.keyed_constant {key : Key} {c : Constant} {stored : Ty}
    (h : key.constant t = .ok (c, stored)) :
    c.Keyed stored ∧ stored.Fits deep t.storage := by
  unfold Key.constant at h
  split at h
  · next hn _ =>
    split at h
    · next hc =>
      cases h
      exact ⟨Literal.keyed_keyConstant? hc,
        Literal.fits_keyKind (by simpa using hn)⟩
    · cases h
  · split at h
    · next hs =>
      cases h
      refine ⟨.inr ⟨rfl, _, rfl⟩, ?_⟩
      simp only [Bool.or_eq_true, Ty.isString, beq_iff_eq] at hs
      rcases hs with rfl | rfl
      · exact .refl _
      · exact Ty.fits_any rfl
    · cases h

namespace Check

variable {scope : Scope} {checked : Except CheckError Typed} {site : Site} {label : String}

/-- What is fitted to a place fits its type. -/
theorem wellTyped_fit (hc : ∀ typed, checked = .ok typed → typed.WellTyped deep vars)
    (h : fit e t site checked = .ok typed) :
    typed.WellTyped deep vars ∧ typed.type.Fits deep t := by
  rcases fit_eq_ok h with hn | ⟨-, first, hf, ha⟩
  · exact wellTyped_narrowed? hn
  · obtain ⟨steps, hs, rfl⟩ := Option.map_eq_some_iff.mp ha
    exact (Ty.reaches_assign? hs).through (hc first hf)

/-- A list literal has the type that is wished for, with its elements as they are stored. -/
theorem type_of_array {hint : Hint} {element : Ty} (hh : hint.type = some (.array element))
    (e : Expr) (typed : Typed) (hb : ∃ items extent span, e.bare = .array items extent span)
    (h : expr scope hint e = .ok typed) : typed.type = .array element.storage := by
  cases e with
  | array items extent span =>
    rcases array_eq_ok h with ⟨declared, es, hd, -, rfl⟩ | ⟨hd, -⟩
    · cases hh.symm.trans hd
      rfl
    · exact absurd hh (hd element)
  | paren inner span =>
    obtain ⟨first, hi, rfl⟩ := paren_eq_ok h
    rw [Typed.type_moveTo]
    exact type_of_array hh inner first hb hi
  | _ =>
    obtain ⟨_, _, _, hb⟩ := hb
    cases hb

theorem wellTyped_fitValue {hint : Hint}
    (hh : ∀ element, t = .array element → hint.type = some (.array element))
    (hc : ∀ typed, expr scope hint e = .ok typed → typed.WellTyped deep vars)
    (h : fitValue e label t (expr scope hint e) = .ok typed) :
    typed.WellTyped deep vars ∧ typed.type.Fits deep t.storage := by
  rcases fitValue_eq_ok h with hf | ⟨element, items, extent, span, first, rfl, hb, hi, rfl⟩
  · exact wellTyped_fit hc hf
  · refine ⟨(hc first hi).moveTo extent, ?_⟩
    rw [Typed.type_moveTo, type_of_array (hh element rfl) e first ⟨_, _, _, hb⟩ hi]
    exact .array (Ty.storesInto_of_storage element)

/-- What an entry of a literal under a constraint, or a free one, is good for. -/
def Admits (deep : Bool) (vars : List Local) : Option RecordTy → Entry → Prop
  | some c, entry => entry.WellTyped deep vars c
  | none, entry => entry.WellTyped deep vars ⟨.any, .any⟩ ∧
    (hasStringKeys entry = true → entry.WellTyped deep vars .free)

variable {constraint : Option RecordTy}

theorem allWellTyped_entries {r : RecordTy} {entries : List Entry}
    (h : ∀ entry ∈ entries, entry.WellTyped deep vars r) :
    Entry.AllWellTyped deep vars r entries := by
  induction entries with
  | nil => trivial
  | cons entry rest ih =>
    exact ⟨h entry List.mem_cons_self, ih fun other ho => h other (List.mem_cons_of_mem _ ho)⟩

theorem allWellTyped_recordType {entries : List Entry}
    (h : ∀ entry ∈ entries, Admits deep vars constraint entry) :
    Entry.AllWellTyped deep vars (recordType constraint entries) entries := by
  cases constraint with
  | some c => exact allWellTyped_entries h
  | none =>
    rw [recordType]
    split
    · next hs => exact allWellTyped_entries fun entry he =>
        (h entry he).2 (List.all_eq_true.mp hs entry he)
    · exact allWellTyped_entries fun entry he => (h entry he).1

/-- Where a property value goes. -/
def valuePlace : Option RecordTy → Ty
  | some c => c.value.storage
  | none => .any

/-- Where a property key goes. -/
def keyPlace : Option RecordTy → Ty
  | some c => c.key.storage
  | none => .string

/-- A property value fits the declared values, or is boxed where none are declared. -/
theorem wellTyped_fitPropertyValue
    (hc : ∀ typed, expr scope (valueHint constraint label) e = .ok typed →
      typed.WellTyped deep vars)
    (h : fitPropertyValue constraint label e (expr scope (valueHint constraint label) e) =
      .ok typed) :
    typed.WellTyped deep vars ∧ typed.type.Fits deep (valuePlace constraint) := by
  cases constraint with
  | some c =>
    refine wellTyped_fitValue (fun element he => ?_) hc h
    rw [valueHint, he]
    rfl
  | none =>
    obtain ⟨first, hf, h⟩ := ok_of_bind h
    cases h
    obtain ⟨hw, ht⟩ := Typed.wellTyped_boxed (hc first hf)
    exact ⟨hw, ht ▸ Ty.fits_any (Ty.isPrimitive_storage _)⟩

/-- A computed key yields the declared keys, or a string where none are declared. -/
theorem wellTyped_fitPropertyKey (hc : ∀ typed, checked = .ok typed → typed.WellTyped deep vars)
    (h : fitPropertyKey constraint label e checked = .ok typed) :
    typed.WellTyped deep vars ∧ typed.Yields deep (keyPlace constraint) := by
  cases constraint with
  | some c =>
    obtain ⟨hw, hf⟩ := wellTyped_fit hc (fitKey_eq_ok h)
    exact ⟨hw, .inl hf⟩
  | none =>
    obtain ⟨first, hf, h⟩ := ok_of_bind h
    cases h
    exact Typed.wellTyped_stringified (hc first hf)

theorem keyed_declaredKey {key : Key} {c : Constant} {stored : Ty}
    (h : key.constant (declaredKey constraint) = .ok (c, stored)) :
    c.Keyed stored ∧ stored.Fits deep (keyPlace constraint) := by
  cases constraint with
  | some _ => exact Key.keyed_constant h
  | none => exact Key.keyed_constant h

theorem string_fits_any : Ty.string.Fits deep .any := Ty.fits_any rfl

theorem admits_fixed {c : Constant} {stored : Ty} {order : Nat} {form : EntryForm} {span : Span}
    (hk : c.Keyed stored ∧ stored.Fits deep (keyPlace constraint))
    (hv : typed.WellTyped deep vars ∧ typed.type.Fits deep (valuePlace constraint)) :
    Admits deep vars constraint (fixedEntry (c, stored) typed order form span) := by
  cases constraint with
  | some _ => exact ⟨hk.1, hk.2, hv.1, hv.2⟩
  | none =>
    exact ⟨⟨hk.1, hk.2.trans string_fits_any, hv.1, hv.2⟩, fun _ => ⟨hk.1, hk.2, hv.1, hv.2⟩⟩

theorem admits_computed {key : Typed} {tag : EntryTag}
    (hk : key.WellTyped deep vars ∧ key.Yields deep (keyPlace constraint))
    (hv : typed.WellTyped deep vars ∧ typed.type.Fits deep (valuePlace constraint)) :
    Admits deep vars constraint (.computed key typed tag) := by
  cases constraint with
  | some _ => exact ⟨hk.1, hk.2, hv.1, hv.2⟩
  | none =>
    have hany : key.Yields deep .any := by
      rcases hk.2 with hf | ⟨hc, hf⟩
      · exact .inl (hf.trans string_fits_any)
      · exact .inr ⟨hc, string_fits_any⟩
    exact ⟨⟨hk.1, hany, hv.1, hv.2⟩, fun _ => ⟨hk.1, hk.2, hv.1, hv.2⟩⟩

/-- A spread map may stand in a literal if its keys and values fit those of the literal. -/
theorem admits_spread {types : RecordTy} {sourceSpan span : Span} {tag : EntryTag}
    (hw : typed.WellTyped deep vars) (ht : tag.keyType = types.key)
    (h : spreadTypes constraint typed.type sourceSpan span = .ok types) :
    Admits deep vars constraint (.spread typed tag) := by
  unfold spreadTypes at h
  split at h
  · next k v c ht =>
    split_ifs at h with hk hv
    simp only [Bool.not_eq_true', Bool.not_eq_false] at hk hv
    exact ⟨hw, .inl ⟨k, v, ht, .of_storesInto hk, .of_storesInto hv⟩⟩
  · next k v htype =>
    cases h
    refine ⟨⟨hw, .inl ⟨k, v, htype, Ty.fits_any (Ty.isPrimitive_storage _),
      Ty.fits_any (Ty.isPrimitive_storage _)⟩⟩, fun hs => ?_⟩
    have hkey : k.storage = .string := by
      rw [hasStringKeys, ht] at hs
      simpa [Ty.isString] using hs
    exact ⟨hw, .inl ⟨k, v, htype, hkey ▸ .refl _, Ty.fits_any (Ty.isPrimitive_storage _)⟩⟩
  · cases h
  · next htype =>
    cases h
    refine ⟨⟨hw, .inr ⟨htype, rfl⟩⟩, fun hs => ?_⟩
    rw [hasStringKeys, ht] at hs
    cases hs
  · cases h

/-- The common type of items is one that all of them fit. -/
theorem allWellTyped_commonType {items : List Typed}
    (h : ∀ item ∈ items, item.WellTyped deep vars ∧ ∃ t : Ty, item.type = t.storage) :
    Typed.AllWellTyped deep vars (Typed.commonType items) items := by
  have all (t : Ty) : ∀ items : List Typed, (∀ item ∈ items, item.WellTyped deep vars ∧
      item.type.Fits deep t.storage) → Typed.AllWellTyped deep vars t items := by
    intro items hi
    induction items with
    | nil => trivial
    | cons item rest ih =>
      obtain ⟨hw, hf⟩ := hi item List.mem_cons_self
      exact ⟨hw, hf, ih fun other ho => hi other (List.mem_cons_of_mem _ ho)⟩
  refine all _ items fun item hi => ⟨(h item hi).1, ?_⟩
  obtain ⟨t, ht⟩ := (h item hi).2
  have hstored : item.type.storage = item.type := by
    rw [ht]
    cases t <;> rfl
  cases items with
  | nil => cases hi
  | cons first rest =>
    rw [Typed.commonType]
    split
    · next hall =>
      rcases List.mem_cons.mp hi with rfl | hr
      · rw [hstored]
        exact .refl _
      · have he : item.type = first.type := by simpa using List.all_eq_true.mp hall item hr
        rw [← he, hstored]
        exact .refl _
    · exact Ty.fits_any (ht ▸ Ty.isPrimitive_storage t)

end Check

theorem Scope.mem_of_find? {scope : Scope} {name : String} {found : LocalDecl}
    (h : scope.find? name = some found) : found.toLocal ∈ scope.vars :=
  List.mem_map_of_mem (List.mem_of_find?_eq_some h)

theorem Scope.mem_of_target {scope : Scope} {x : Local} (h : scope.target e = .ok x) :
    x ∈ scope.vars := by
  obtain ⟨name, place, found, -, hf, rfl⟩ := Check.target_eq_ok h
  exact mem_of_find? hf

/-- A variable is read at the type it was declared with. -/
theorem Scope.wellTyped_read {scope : Scope} {name : String} {span : Span}
    (h : scope.read name span = .ok typed) : typed.WellTyped deep scope.vars := by
  obtain ⟨found, hf, rfl⟩ := Check.read_eq_ok h
  exact ⟨mem_of_find? hf, .refl _⟩

/-- No type can be written that only `null` has. -/
theorem TypeExpr.resolve_ne_null {written : TypeExpr} (h : written.resolve = .ok t) :
    t ≠ .null := by
  rintro rfl
  unfold resolve resolveAt at h
  split at h
  · simp only [Except.ok.injEq] at h
    unfold resolveName at h
    split at h
    · cases h
    · cases h
    · simp only [reduceCtorEq, if_false] at h
      split at h <;> cases h
  · split at h
    · obtain ⟨_, -, h⟩ := ok_of_bind h
      obtain ⟨_, -, h⟩ := ok_of_bind h
      cases h
    · cases h
  · split at h
    · obtain ⟨_, -, h⟩ := ok_of_bind h
      cases h
    · cases h
  · cases h

mutual

/-- What an expression is checked to is well typed. -/
theorem Check.wellTyped_expr {scope : Scope} (e : Expr) (hint : Hint) {typed : Typed}
    (hd : deep = true → e.castsToContainer = false) (h : Check.expr scope hint e = .ok typed) :
    typed.WellTyped deep scope.vars := by
  cases e with
  | int value span =>
    cases h
    exact wellTyped_ofWhole ..
  | float value span =>
    cases h
    exact fun _ => trivial
  | string value span =>
    cases h
    exact fun _ => .inr ⟨value, rfl⟩
  | boolean value span =>
    cases h
    exact fun _ => Kind.holds_ofBool value
  | null span =>
    cases h
    exact fun _ => rfl
  | var name span => exact Scope.wellTyped_read h
  | binary op left right extent span =>
    simp only [Expr.castsToContainer, Bool.or_eq_false_iff] at hd
    obtain ⟨-, l, r, hl, hr, h⟩ := Check.binary_eq_ok h
    exact Typed.wellTyped_ofBinary
      (Check.wellTyped_expr left .none (fun hdeep => (hd hdeep).1) hl)
      (Check.wellTyped_expr right .none (fun hdeep => (hd hdeep).2) hr) h
  | unary op operand extent span =>
    obtain ⟨-, e, he, h⟩ := Check.unary_eq_ok h
    exact Typed.wellTyped_ofUnary (Check.wellTyped_expr operand .none hd he) h
  | update op before target extent span =>
    obtain ⟨x, hx, h⟩ := Check.update_eq_ok h
    exact Typed.wellTyped_ofUpdate (Scope.mem_of_target hx) h
  | assign op target value extent span =>
    simp only [Expr.castsToContainer, Bool.or_eq_false_iff] at hd
    obtain ⟨x, hx, h⟩ := Check.assign_eq_ok h
    have hx := Scope.mem_of_target hx
    rcases h with ⟨-, v, hv, rfl⟩ | ⟨-, binary, v, -, hv, h⟩
    · obtain ⟨hw, hf⟩ := Check.wellTyped_fit (fun _ hv =>
        Check.wellTyped_expr value (.of x.type) (fun hdeep => (hd hdeep).2) hv) hv
      exact ⟨hx, hw, hf, .refl _⟩
    · exact Typed.wellTyped_ofCompound hx
        (Check.wellTyped_expr value .none (fun hdeep => (hd hdeep).2) hv) h
  | conditional test yes no extent span =>
    simp only [Expr.castsToContainer, Bool.or_eq_false_iff] at hd
    obtain ⟨first, t, y, n, hfirst, ht, hy, hn, h⟩ := Check.conditional_eq_ok h
    obtain ⟨hwt, htt⟩ := Typed.wellTyped_ofTest
      (Check.wellTyped_expr test .none (fun hdeep => (hd hdeep).1.1) hfirst) ht
    exact Typed.wellTyped_ofBranches hwt htt
      (Check.wellTyped_expr yes hint.branch (fun hdeep => (hd hdeep).1.2) hy)
      (Check.wellTyped_expr no hint.branch (fun hdeep => (hd hdeep).2) hn) h
  | cast operand target extent span =>
    simp only [Expr.castsToContainer, Bool.or_eq_false_iff] at hd
    obtain ⟨type, e, ht, he, h⟩ := Check.cast_eq_ok h
    refine Typed.wellTyped_ofCast
      (Check.wellTyped_expr operand (.of type) (fun hdeep => (hd hdeep).2) he)
      (TypeExpr.resolve_ne_null ht) (fun hdeep => ?_) h
    have := (hd hdeep).1
    rwa [TypeExpr.isContainer, ht] at this
  | object props extent span =>
    obtain ⟨entries, he, rfl⟩ := Check.object_eq_ok h
    exact ⟨Check.allWellTyped_recordType (Check.admits_properties props hint.record? 0 hd he),
      .refl _⟩
  | array items extent span =>
    rcases Check.array_eq_ok h with ⟨declared, es, -, he, rfl⟩ | ⟨-, es, he, rfl⟩
    · exact ⟨declared, Check.wellTyped_elements items declared hint.elements hd he,
        .array (Ty.storesInto_storage declared)⟩
    · exact ⟨_, Check.allWellTyped_commonType (Check.wellTyped_freeElements items hd he), .refl _⟩
  | symbol description extent span => cases h
  | paren inner span =>
    obtain ⟨first, hi, rfl⟩ := Check.paren_eq_ok h
    exact (Check.wellTyped_expr inner hint hd hi).moveTo span

theorem Check.wellTyped_elements {scope : Scope} (items : List Expr) (declared : Ty) (site : Site)
    {es : List Typed} (hd : deep = true → Expr.castToContainer items = false)
    (h : Check.elements scope declared site items = .ok es) :
    Typed.AllWellTyped deep scope.vars declared es := by
  cases items with
  | nil =>
    cases h
    trivial
  | cons e rest =>
    simp only [Expr.castToContainer, Bool.or_eq_false_iff] at hd
    obtain ⟨first, others, rfl, hf, ho⟩ := Check.elements_eq_ok h
    obtain ⟨hw, hfits⟩ := Check.wellTyped_fit (fun _ he =>
      Check.wellTyped_expr e (.of declared.storage) (fun hdeep => (hd hdeep).1) he)
      (Check.fitElement_eq_ok hf)
    exact ⟨hw, hfits, Check.wellTyped_elements rest declared site (fun hdeep => (hd hdeep).2) ho⟩

theorem Check.wellTyped_freeElements {scope : Scope} (items : List Expr) {es : List Typed}
    (hd : deep = true → Expr.castToContainer items = false)
    (h : Check.freeElements scope items = .ok es) :
    ∀ item ∈ es, item.WellTyped deep scope.vars ∧ ∃ t : Ty, item.type = t.storage := by
  cases items with
  | nil =>
    cases h
    nofun
  | cons e rest =>
    simp only [Expr.castToContainer, Bool.or_eq_false_iff] at hd
    obtain ⟨first, others, rfl, hf, ho⟩ := Check.freeElements_eq_ok h
    obtain ⟨hw, ht⟩ := Typed.wellTyped_boxed
      (Check.wellTyped_expr e .none (fun hdeep => (hd hdeep).1) hf)
    refine List.forall_mem_cons.mpr ⟨⟨hw, _, ht⟩, ?_⟩
    exact Check.wellTyped_freeElements rest (fun hdeep => (hd hdeep).2) ho

/-- An accepted property is good for the literal it stands in. -/
theorem Check.admits_property {scope : Scope} (p : Property) (constraint : Option RecordTy)
    (order : Nat) {entry : Entry} (hd : deep = true → p.castsToContainer = false)
    (h : Check.property scope constraint order p = .ok entry) :
    Check.Admits deep scope.vars constraint entry := by
  cases p with
  | keyed key value span =>
    simp only [Property.castsToContainer, Bool.or_eq_false_iff] at hd
    have hvalue label {v} (hv : Check.fitPropertyValue constraint label value
        (Check.expr scope (Check.valueHint constraint label) value) = .ok v) :=
      Check.wellTyped_fitPropertyValue (fun _ he =>
        Check.wellTyped_expr value (Check.valueHint constraint label)
          (fun hdeep => (hd hdeep).2) he) hv
    cases key with
    | computed source keySpan =>
      obtain ⟨k, v, hk, hv, rfl⟩ := Check.computed_eq_ok h
      exact Check.admits_computed (Check.wellTyped_fitPropertyKey (fun _ he =>
        Check.wellTyped_expr source (Check.keyHint constraint)
          (fun hdeep => (hd hdeep).1) he) hk) (hvalue _ hv)
    | _ =>
      obtain ⟨k, v, hk, hv, rfl⟩ := Check.keyed_eq_ok h fun _ _ => Key.noConfusion
      exact Check.admits_fixed (Check.keyed_declaredKey hk) (hvalue _ hv)
  | shorthand name span =>
    obtain ⟨k, v, hk, hv, rfl⟩ := Check.shorthand_eq_ok h
    exact Check.admits_fixed (Check.keyed_declaredKey hk)
      (Check.wellTyped_fitPropertyValue (e := .var name span)
        (fun _ he => Scope.wellTyped_read he) hv)
  | spread source span =>
    obtain ⟨first, place, types, hf, ht, rfl⟩ := Check.spread_eq_ok h
    have hw := Check.wellTyped_expr source (Check.spreadHint constraint source) hd hf
    exact Check.admits_spread (hw.moveTo place) rfl ht
  | member form key span => cases h

theorem Check.admits_properties {scope : Scope} (props : List Property)
    (constraint : Option RecordTy) (order : Nat) {entries : List Entry}
    (hd : deep = true → Property.castToContainer props = false)
    (h : Check.properties scope constraint order props = .ok entries) :
    ∀ entry ∈ entries, Check.Admits deep scope.vars constraint entry := by
  cases props with
  | nil =>
    cases h
    nofun
  | cons p rest =>
    simp only [Property.castToContainer, Bool.or_eq_false_iff] at hd
    obtain ⟨first, others, rfl, hf, ho⟩ := Check.properties_eq_ok h
    exact List.forall_mem_cons.mpr
      ⟨Check.admits_property p constraint order (fun hdeep => (hd hdeep).1) hf,
        Check.admits_properties rest constraint (order + 1) (fun hdeep => (hd hdeep).2) ho⟩

end

/-- A variable without an initializer starts with a value of its type. -/
theorem Constant.conforms_zero (t : Ty) (s : Store) : (zero t).value.Conforms deep s t := by
  cases t with
  | prim k =>
    cases k with
    | long | float | double => trivial
    | boolean => exact .inl rfl
    | _ => exact ⟨rfl, by decide⟩
  | _ => exact Value.kept_null ..

namespace Check

variable {scope scope' : Scope} {d : Declaration} {u : SourceUnit}

theorem wellTyped_declarationValue
    (hd : deep = true → d.initializer.any Expr.castsToContainer = false)
    (h : declarationValue scope d = .ok (t, typed)) :
    typed.WellTyped deep scope.vars ∧ typed.type.Fits deep t := by
  unfold declarationValue at h
  split at h
  · cases h
  · next e _ hi =>
    rw [hi] at hd
    obtain ⟨value, hv, h⟩ := ok_of_bind h
    split at h
    · cases h
    · cases h
      exact ⟨wellTyped_expr e .none hd hv, .refl _⟩
  · split at h
    · cases h
    · split at h
      · next e hi =>
        rw [hi] at hd
        obtain ⟨value, hv, h⟩ := ok_of_bind h
        cases h
        exact wellTyped_fit (fun _ he => wellTyped_expr e _ hd he) hv
      · cases h
        exact ⟨Constant.conforms_zero t, .refl _⟩

/-- A declaration adds one local, whose slot is the next free one and whose value fits it. -/
theorem declaration_eq_ok {i : Initializer}
    (hd : deep = true → d.initializer.any Expr.castsToContainer = false)
    (h : declaration scope d = .ok (i, scope')) :
    i.value.WellTyped deep scope.vars ∧ i.value.type.Fits deep i.target.type ∧
      i.target.name ∉ scope.vars.map (·.name) ∧ scope'.vars = scope.vars ++ [i.target] ∧
      i.target.slot = scope.nextSlot ∧
      scope'.nextSlot = scope.nextSlot + i.target.type.stackKind.size := by
  obtain ⟨⟨type, value⟩, hv, h⟩ := ok_of_bind h
  obtain ⟨⟨x, pushed⟩, hs, h⟩ := ok_of_bind h
  cases h
  obtain ⟨hw, hf⟩ := wellTyped_declarationValue hd hv
  unfold Scope.declare at hs
  split at hs
  · cases hs
  · next hn =>
    cases hs
    refine ⟨hw, hf, ?_, by simp [Scope.vars, Scope.push], rfl, rfl⟩
    simpa [Scope.vars, Scope.find?] using hn

/-- Each declaration extends the scope of those after it by its local. -/
theorem declarations_eq_ok {ds : List Declaration} {is : List Initializer}
    (hd : deep = true → ds.any (fun d => d.initializer.any Expr.castsToContainer) = false)
    (h : declarations scope ds = .ok (is, scope')) :
    Initializer.AllWellTyped deep scope.vars is ∧ scope'.vars = scope.vars ++ is.map (·.target) ∧
      Local.Laid scope.nextSlot (is.map (·.target)) scope'.nextSlot := by
  induction ds generalizing scope is with
  | nil =>
    cases h
    exact ⟨trivial, by simp, rfl⟩
  | cons d rest ih =>
    simp only [List.any_cons, Bool.or_eq_false_iff] at hd
    obtain ⟨⟨first, after⟩, hf, h⟩ := ok_of_bind h
    obtain ⟨⟨others, last⟩, ho, h⟩ := ok_of_bind h
    cases h
    obtain ⟨hw, hfits, hnew, hvars, hslot, hnext⟩ :=
      declaration_eq_ok (fun hdeep => (hd hdeep).1) hf
    obtain ⟨hall, hvars', hlaid⟩ := ih (fun hdeep => (hd hdeep).2) ho
    refine ⟨⟨hw, hfits, hnew, hvars ▸ hall⟩, ?_, hslot, hnext ▸ hlaid⟩
    rw [hvars', hvars, List.append_assoc]
    rfl

theorem wellTyped_body {returns : Option TypeExpr} (hd : deep = true → e.castsToContainer = false)
    (h : body scope e returns = .ok (typed, t)) :
    typed.WellTyped deep scope.vars ∧ typed.type.Fits deep t := by
  unfold body at h
  split at h
  · obtain ⟨value, hv, h⟩ := ok_of_bind h
    cases h
    exact ⟨wellTyped_expr e .none hd hv, .refl _⟩
  · split at h
    · cases h
    · obtain ⟨value, hv, h⟩ := ok_of_bind h
      cases h
      exact wellTyped_fit (fun _ he => wellTyped_expr e _ hd he) hv

/-- A unit that passes the check is well typed, and down to the contents of containers if no cast
claims anything about those. -/
theorem wellTyped_unit {unit : TypedUnit} (hd : deep = true → u.castsToContainer = false)
    (h : Check.unit u = .ok unit) : unit.WellTyped deep := by
  simp only [SourceUnit.castsToContainer, Bool.or_eq_false_iff] at hd
  obtain ⟨⟨is, scope⟩, hi, h⟩ := ok_of_bind h
  obtain ⟨⟨typed, t⟩, hb, h⟩ := ok_of_bind h
  cases h
  obtain ⟨hall, hvars, hlaid⟩ := declarations_eq_ok (fun hdeep => (hd hdeep).1) hi
  obtain ⟨hbody, hresult⟩ := wellTyped_body (fun hdeep => (hd hdeep).2) hb
  have hvars : scope.vars = is.map (·.target) := hvars
  exact ⟨hall, hvars, hlaid, hvars ▸ hbody, hresult⟩

/-- The locals are those declared, in their order. -/
theorem names_declarations {ds : List Declaration} {is : List Initializer}
    (h : declarations scope ds = .ok (is, scope')) :
    scope'.locals.map (·.name) = scope.locals.map (·.name) ++ ds.map (·.name) := by
  induction ds generalizing scope is with
  | nil =>
    cases h
    simp
  | cons d rest ih =>
    obtain ⟨⟨first, after⟩, hf, h⟩ := ok_of_bind h
    obtain ⟨⟨others, last⟩, ho, h⟩ := ok_of_bind h
    cases h
    obtain ⟨⟨type, value⟩, -, hf⟩ := ok_of_bind hf
    obtain ⟨⟨x, pushed⟩, hs, hf⟩ := ok_of_bind hf
    cases hf
    unfold Scope.declare at hs
    split at hs
    · cases hs
    · cases hs
      rw [ih ho]
      simp [Scope.push]

theorem names_unit {unit : TypedUnit} (h : Check.unit u = .ok unit) :
    unit.locals.map (·.name) = u.declarations.map (·.name) := by
  obtain ⟨⟨is, scope⟩, hi, h⟩ := ok_of_bind h
  obtain ⟨⟨typed, t⟩, -, h⟩ := ok_of_bind h
  cases h
  exact names_declarations hi

end Check

end StackExpr
