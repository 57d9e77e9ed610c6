import StackExpr.Proofs.Acceptance
import StackExpr.Proofs.Conversions

/-! Lists of conversion steps lead from type to type.

Every list that the rules for assignments, casts, branches and operators give starts at the type of
the operand and ends in a type that fits the one asked for. -/
namespace StackExpr

/-- Steps that can be made one after the other. -/
def Conversion.Chain (deep : Bool) : Ty → List Conversion → Ty → Prop
  | t, [], t' => t = t'
  | t, c :: rest, t' => c.Takes deep t ∧ Chain deep c.result rest t'

variable {deep : Bool} {vars : List Local} {t t' m : Ty} {steps : List Conversion} {k j p : Kind}

namespace Conversion.Chain

/-- Steps that end where others start make one list. -/
theorem append {more : List Conversion} (h : Chain deep t steps m) (h' : Chain deep m more t') :
    Chain deep t (steps ++ more) t' := by
  induction steps generalizing t with
  | nil =>
    cases h
    exact h'
  | cons c rest ih => exact ⟨h.1, ih h.2⟩

theorem through {e : Typed} (h : e.WellTyped deep vars) (hc : Chain deep e.type steps t) :
    (e.through steps).WellTyped deep vars ∧ (e.through steps).type = t := by
  induction steps generalizing e with
  | nil => exact ⟨h, hc⟩
  | cons c rest ih => exact ih (e := e.step c) ⟨h, hc.1, .refl _⟩ hc.2

end Conversion.Chain

namespace Conversion

/-- Apart from casts a step is made for the same types at any depth. -/
theorem Takes.of_appliesTo {c : Conversion} (h : c.appliesTo false t = true) : c.Takes deep t := by
  cases c with
  | unbox k | box k => exact eq_of_beq h
  | change j k =>
    obtain ⟨⟨ht, hj⟩, hk⟩ : (t = .prim j ∧ _) ∧ _ := by simpa [appliesTo] using h
    exact ⟨ht, hj, hk⟩
  | numberValue | checkCast | stringify => cases h

theorem Chain.of_via? (h : t.via? false steps = some m) : Chain deep t steps m := by
  induction steps generalizing t with
  | nil => exact Option.some.inj h
  | cons c rest ih =>
    obtain ⟨hc, hrest⟩ := Option.ite_none_right_eq_some.mp h
    exact ⟨.of_appliesTo hc, ih hrest⟩

end Conversion

open Conversion (Chain)

/-- Steps that lead to a type that fits. -/
def Ty.Reaches (deep : Bool) (t : Ty) (steps : List Conversion) (t' : Ty) : Prop :=
  ∃ m, Chain deep t steps m ∧ m.Fits deep t'

/-- A tree that takes steps to a type fits it. -/
theorem Ty.Reaches.through {e : Typed} (h : e.WellTyped deep vars)
    (hr : e.type.Reaches deep steps t) :
    (e.through steps).WellTyped deep vars ∧ (e.through steps).type.Fits deep t := by
  obtain ⟨m, hc, hf⟩ := hr
  obtain ⟨hw, ht⟩ := hc.through h
  exact ⟨hw, ht ▸ hf⟩

namespace Ty

theorem fits_any (h : t.isPrimitive = false) : t.Fits deep .any := by
  intro s v hv
  exact ((Value.conforms_of_not_prim h).mp hv).stackKind

theorem Arrives.reaches (h : t.Arrives false steps t') : t.Reaches deep steps t' := by
  obtain ⟨m, hvia, hm⟩ := h
  exact ⟨m, .of_via? hvia, .of_isSubtype hm⟩

/-- The steps of an assignment lead to the type assigned to. -/
theorem reaches_assign? (h : t.assign? t' = some steps) : t.Reaches deep steps t' :=
  (assigns_of_assign? h).arrives.reaches

/-- Records differ in nothing that can be seen from outside. -/
theorem fits_record (k v k' v' : Ty) : (record k v).Fits false (record k' v') := by
  rintro s x (rfl | ⟨a, rfl, -⟩)
  · exact .inl rfl
  · exact .inr ⟨a, rfl, nofun⟩

/-- A check is made below `Object`, for a box of a `Number`, or between lists. -/
theorem takes_checkCast (hne : t ≠ t') (ht : t.isPrimitive = false) (ht' : t'.isPrimitive = false)
    (h : t'.isSubtype t = true) (hr : ∀ k v k' v', t = record k v → t' ≠ record k' v')
    (hn : t' ≠ .null) (hd : deep = true → t'.isContainer = false) :
    (Conversion.checkCast t').Takes deep t := by
  refine ⟨ht', hn, hd, ?_⟩
  cases t with
  | any => exact .inl rfl
  | prim j => cases ht
  | record k v =>
    cases t' with
    | record k' v' => exact absurd rfl (hr k v k' v' rfl)
    | null => exact absurd rfl hn
    | _ => cases h
  | array x =>
    cases t' with
    | array y => exact .inr (.inr ⟨x, y, rfl, rfl⟩)
    | null => exact absurd rfl hn
    | _ => cases h
  | boxed j =>
    cases t' with
    | boxed k => exact absurd (congrArg boxed (eq_of_beq h).symm) hne
    | null => exact absurd rfl hn
    | _ => cases h
  | named name =>
    cases t' with
    | boxed k =>
      obtain ⟨rfl, -⟩ : name = "Number" ∧ k.isNumeric = true := by
        simpa [isSubtype, storesInto] using h
      exact .inr (.inl ⟨rfl, k, rfl⟩)
    | named other => exact absurd (congrArg named (eq_of_beq h).symm) hne
    | null => exact absurd rfl hn
    | _ => cases h
  | null =>
    cases t' with
    | null => exact absurd rfl hn
    | _ => cases h

/-- The steps of a cast lead to its type, if it is not a container whose contents are asked about.
-/
theorem reaches_cast? (h : t.cast? t' = some steps) (hn : t' ≠ .null)
    (hd : deep = true → t'.isContainer = false) : t.Reaches deep steps t' := by
  cases casts_of_cast? h with
  | assign ha => exact ha.arrives.reaches
  | byKind hj hk hjk hc => exact (Arrives.of_via? (via?_castByKind? hc hj hk hjk)).reaches
  | value hk => exact ⟨_, ⟨⟨rfl, hk⟩, rfl⟩, .refl _⟩
  | check hne ht ht' hs hr => exact ⟨_, ⟨takes_checkCast hne ht ht' hs hr hn hd, rfl⟩, .refl _⟩
  | @records r r' =>
    cases deep with
    | true => cases hd rfl
    | false => exact ⟨_, rfl, fits_record r.key r.value r'.key r'.value⟩

end Ty

/-- The types that the operands of a category have once they are converted. -/
def Coercion.Operands (c : Coercion) (l r : Ty) : Prop :=
  match c.category with
  | .arithmetic => ∃ k, c.mode = .numeric k ∧ k.isPromoted = true ∧ l = .prim k ∧ r = .prim k ∧
    c.result = .prim k
  | .shift => ∃ k, c.mode = .numeric k ∧ (k = .int ∨ k = .long) ∧ l = .prim k ∧
    r = .prim .int ∧ c.result = .prim k
  | .bitwise => ∃ k, c.mode.kind = k ∧ (k = .int ∨ k = .long ∨ k = .boolean) ∧ l = .prim k ∧
    r = .prim k ∧ c.result = .prim k
  | .relational | .looseEquality | .strictEquality => c.mode.Takes l r ∧ c.result = .prim .boolean
  | .logical => l = .prim .boolean ∧ r = .prim .boolean ∧ c.result = .prim .boolean

namespace Coercion

variable {category : Category} {l r : Ty} {c : Coercion} {result : Kind → Ty}

/-- Operands that are compared are compared at what their steps end in. -/
theorem Composes.takes (h : c.Composes category l r) (hc : category ≠ .shift) :
    ∃ l' r', l.via? false c.left = some l' ∧ r.via? false c.right = some r' ∧ c.mode.Takes l' r' := by
  obtain ⟨_, mode, _, left, right⟩ := c
  cases mode with
  | numeric k =>
    obtain ⟨hk, hl, hr⟩ := h
    rw [if_neg hc] at hr
    exact ⟨_, _, hl, hr, Kind.isPromoted_iff.mpr hk, rfl, rfl⟩
  | boolean => exact ⟨_, _, h.1, h.2, rfl, rfl⟩
  | reference =>
    obtain ⟨l', r', hl, hr, hp⟩ := h
    exact ⟨l', r', hl, hr, hp⟩
  | nullCheck =>
    obtain ⟨rfl, rfl, -, hp⟩ := h
    exact ⟨l, r, rfl, rfl, hp⟩

/-- The steps that a family of operators asks for bring its operands to types it takes. -/
theorem operands_coerce? (h : category.coerce? l r = some c) :
    ∃ l' r', l.via? false c.left = some l' ∧ r.via? false c.right = some r' ∧
      c.Operands l' r' ∧ c.category = category := by
  unfold Category.coerce? at h
  split at h
  · obtain ⟨k, hc, hp, hl, hr, -⟩ := numeric?_eq_some h
    rw [hc]
    exact ⟨_, _, hl, hr, ⟨k, rfl, hp, rfl, rfl, rfl⟩, rfl⟩
  · obtain ⟨k, hc, hp, hl, hr, -⟩ := numeric?_eq_some h
    rw [hc]
    exact ⟨_, _, hl, hr, ⟨⟨hp, rfl, rfl⟩, rfl⟩, rfl⟩
  · obtain ⟨k, hc, hk, hl, hr⟩ := shift?_eq_some h
    rw [hc]
    exact ⟨_, _, hl, hr, ⟨k, rfl, hk, rfl, rfl, rfl⟩, rfl⟩
  · split at h
    · next hb =>
      simp only [Bool.and_eq_true] at hb
      obtain ⟨hc, hl, hr⟩ := boolean?_eq_some h hb.1 hb.2
      rw [hc]
      exact ⟨_, _, hl, hr, ⟨.boolean, rfl, .inr (.inr rfl), rfl, rfl, rfl⟩, rfl⟩
    · split at h
      · next hi =>
        simp only [Bool.and_eq_true] at hi
        obtain ⟨k, hc, -, hl, hr, hk⟩ := numeric?_eq_some h
        rw [hc]
        refine ⟨_, _, hl, hr, ⟨k, rfl, ?_, rfl, rfl, rfl⟩, rfl⟩
        exact (hk hi.1 hi.2).imp_right .inl
      · cases h
  · obtain ⟨l', r', hl, hr, hm⟩ := (composes_equality? h nofun).takes nofun
    obtain ⟨hc, hres⟩ := equality?_eq_some h
    exact ⟨l', r', hl, hr, by rw [Operands, hc]; exact ⟨hm, hres⟩, hc⟩
  · obtain ⟨l', r', hl, hr, hm⟩ := (composes_equality? h nofun).takes nofun
    obtain ⟨hc, hres⟩ := equality?_eq_some h
    exact ⟨l', r', hl, hr, by rw [Operands, hc]; exact ⟨hm, hres⟩, hc⟩
  · split at h
    · next hb =>
      simp only [Bool.and_eq_true] at hb
      obtain ⟨hc, hl, hr⟩ := boolean?_eq_some h hb.1 hb.2
      rw [hc]
      exact ⟨_, _, hl, hr, ⟨rfl, rfl, rfl⟩, rfl⟩
    · cases h

end Coercion

namespace BinaryOp

variable {op : BinaryOp}

/-- Arithmetic is done on promoted numbers, of which it takes every kind. -/
theorem arith_of_arithmetic (h : op.category? = some .arithmetic) (hop : op ≠ .power)
    (hk : k.isPromoted = true) : op.arith.isShift = false ∧ op.arith.admits k = true := by
  cases op <;> cases k <;> simp_all [category?, arith, ArithOp.isShift, ArithOp.admits,
    Kind.isPromoted]

theorem arith_of_shift (h : op.category? = some .shift) : op.arith.isShift = true := by
  cases op <;> simp_all [category?, arith, ArithOp.isShift]

theorem arith_of_bitwise (h : op.category? = some .bitwise)
    (hk : k = .int ∨ k = .long ∨ k = .boolean) :
    op.arith.isShift = false ∧ op.arith.admits k = true := by
  rcases hk with rfl | rfl | rfl <;> cases op <;>
    simp_all [category?, arith, ArithOp.isShift, ArithOp.admits]

end BinaryOp

theorem ArithOp.admits_of_integral (op : ArithOp) (hk : k = .int ∨ k = .long) :
    op.admits k = true := by
  rcases hk with rfl | rfl <;> cases op <;> rfl

namespace Typed

variable {op : BinaryOp} {l r e typed : Typed} {span : Span}

theorem wellTyped_ofCoercion {c : Coercion} (hc : op.category? = some c.category)
    (hop : op ≠ .power) (hl : l.WellTyped deep vars) (hr : r.WellTyped deep vars)
    (h : c.Operands l.type r.type) : (ofCoercion op c l r span).WellTyped deep vars := by
  obtain ⟨category, mode, result, left, right⟩ := c
  cases category with
  | arithmetic =>
    obtain ⟨k, rfl, hk, hlt, hrt, rfl⟩ := h
    obtain ⟨hs, ha⟩ := BinaryOp.arith_of_arithmetic hc hop hk
    exact ⟨hl, hr, hlt, by rw [hs]; exact hrt, ha, .refl _⟩
  | shift =>
    obtain ⟨k, rfl, hk, hlt, hrt, rfl⟩ := h
    have hs := BinaryOp.arith_of_shift hc
    exact ⟨hl, hr, hlt, by rw [hs]; exact hrt, ArithOp.admits_of_integral _ hk, .refl _⟩
  | bitwise =>
    obtain ⟨_, rfl, hk, hlt, hrt, hres⟩ := h
    change result = .prim mode.kind at hres
    subst hres
    obtain ⟨hs, ha⟩ := BinaryOp.arith_of_bitwise hc hk
    exact ⟨hl, hr, hlt, by rw [hs]; exact hrt, ha, .refl _⟩
  | relational | looseEquality | strictEquality =>
    obtain ⟨hm, rfl⟩ := h
    exact ⟨hl, hr, hm, .refl _⟩
  | logical =>
    obtain ⟨hlt, hrt, rfl⟩ := h
    exact ⟨hl, hr, hlt, hrt, .refl _⟩

theorem wellTyped_through (h : e.WellTyped deep vars) (hvia : e.type.via? false steps = some t) :
    (e.through steps).WellTyped deep vars ∧ (e.through steps).type = t :=
  (Chain.of_via? hvia).through h

theorem wellTyped_stringified (h : e.WellTyped deep vars) :
    e.stringified.WellTyped deep vars ∧ e.stringified.Yields deep .string := by
  rw [stringified]
  split
  · next hc => exact ⟨h, .inr ⟨hc, .refl _⟩⟩
  · have hchain : Chain deep e.type (e.type.boxing ++ [.stringify]) .string :=
      (Chain.of_via? (Ty.via?_boxing e.type)).append ⟨Ty.isPrimitive_storage _, rfl⟩
    obtain ⟨hw, ht⟩ := hchain.through h
    exact ⟨hw, .inl (ht ▸ .refl _)⟩

theorem wellTyped_boxed (h : e.WellTyped deep vars) :
    e.boxed.WellTyped deep vars ∧ e.boxed.type = e.type.storage :=
  wellTyped_through h (Ty.via?_boxing e.type)

theorem wellTyped_ofPower (hl : l.WellTyped deep vars) (hr : r.WellTyped deep vars)
    (h : ofPower l r span = .ok typed) : typed.WellTyped deep vars := by
  obtain ⟨left, right, hnl, hnr, hleft, hright, rfl⟩ := ofPower_eq_ok h
  obtain ⟨i, hi, hni⟩ := Ty.exists_kind_of_isNumeric hnl
  obtain ⟨j, hj, hnj⟩ := Ty.exists_kind_of_isNumeric hnr
  obtain ⟨hl, hlt⟩ := wellTyped_through hl (Ty.via?_toPrimitive? hleft hi (.inr ⟨hni, rfl⟩))
  obtain ⟨hr, hrt⟩ := wellTyped_through hr (Ty.via?_toPrimitive? hright hj (.inr ⟨hnj, rfl⟩))
  exact ⟨hl, hr, hlt, hrt, .refl _⟩

/-- An operator on well-typed operands is well typed. -/
theorem wellTyped_ofBinary (hl : l.WellTyped deep vars) (hr : r.WellTyped deep vars)
    (h : ofBinary op l r span = .ok typed) : typed.WellTyped deep vars := by
  rcases ofBinary_eq_ok h with ⟨-, rfl⟩ | ⟨-, h⟩ | ⟨hpow, category, c, hcat, hc, rfl⟩
  · obtain ⟨hl, hyl⟩ := wellTyped_stringified hl
    obtain ⟨hr, hyr⟩ := wellTyped_stringified hr
    exact ⟨hl, hr, hyl, hyr, .refl _⟩
  · exact wellTyped_ofPower hl hr h
  · obtain ⟨l', r', hcl, hcr, ho, rfl⟩ := Coercion.operands_coerce? hc
    obtain ⟨hl, rfl⟩ := wellTyped_through hl hcl
    obtain ⟨hr, rfl⟩ := wellTyped_through hr hcr
    exact wellTyped_ofCoercion hcat hpow hl hr ho

/-- A promoted operand is at least an `int`, and no more than a `long` where integers are asked for.
-/
theorem promoted?_eq_some {admits : Kind → Bool} {steps : List Conversion} {k : Kind}
    (h : promoted? admits t = some (k, steps)) :
    t.via? false steps = some (.prim k) ∧ k.isPromoted = true ∧
      ((∀ j, admits j = true → j.isIntegral = true) → k = .int ∨ k = .long) := by
  simp only [promoted?, bind, Option.bind_eq_some_iff] at h
  obtain ⟨j, hj, h⟩ := h
  split at h
  · next hadm =>
    simp only [Option.bind_eq_some_iff, pure, Option.some.injEq, Prod.mk.injEq] at h
    obtain ⟨p, hp, steps', hs, rfl, rfl⟩ := h
    obtain ⟨hnj, -, hpp, hint⟩ := Kind.binaryPromote?_eq_some hp
    exact ⟨Ty.via?_toPrimitive? hs hj (.inr ⟨hnj, Kind.isNumeric_of_isPromoted hpp⟩), hpp,
      fun hi => hint (hi j hadm) (hi j hadm)⟩
  · cases h

theorem wellTyped_ofUnary {op : UnaryOp} (he : e.WellTyped deep vars)
    (h : ofUnary op e span = .ok typed) : typed.WellTyped deep vars := by
  rcases ofUnary_eq_ok h with ⟨-, steps, hb, hs, rfl⟩ | ⟨-, k, steps, hp, rfl⟩ |
    ⟨-, k, steps, hp, rfl⟩ | ⟨-, k, steps, hp, rfl⟩
  · obtain ⟨hw, ht⟩ := wellTyped_through he
      (Ty.via?_toPrimitive? hs (Ty.kind?_of_isBoolean hb) (.inl rfl))
    exact ⟨hw, ht, .refl _⟩
  · exact (wellTyped_through he (promoted?_eq_some hp).1).1.moveTo span
  · obtain ⟨hc, hk, -⟩ := promoted?_eq_some hp
    obtain ⟨hw, ht⟩ := wellTyped_through he hc
    exact ⟨hw, ht, hk, .refl _⟩
  · obtain ⟨hc, -, hk⟩ := promoted?_eq_some hp
    obtain ⟨hw, ht⟩ := wellTyped_through he hc
    exact ⟨hw, ht, hk fun _ => id, .refl _⟩

theorem wellTyped_ofUpdate {op : UpdateOp} {before : Bool} {x : Local} (hx : x ∈ vars)
    (h : ofUpdate op before x span = .ok typed) : typed.WellTyped deep vars := by
  obtain ⟨hn, rfl⟩ := ofUpdate_eq_ok h
  exact ⟨hx, hn, by cases op <;> simp [UpdateOp.delta], .refl _⟩

/-- A compound assignment converts what it computes back to the variable's type. -/
theorem reaches_compoundSteps? {steps : List Conversion}
    (h : compoundSteps? t t' = some steps) : t.Reaches deep steps t' := by
  unfold compoundSteps? at h
  split at h
  · next ha =>
    cases h
    exact Ty.reaches_assign? ha
  · split at h
    · next hn =>
      simp only [Bool.and_eq_true] at hn
      refine Ty.reaches_cast? h ?_ ?_
      · rintro rfl
        cases hn.2
      · cases t' with
        | record | array => cases hn.2
        | _ => exact fun _ => rfl
    · cases h

theorem wellTyped_ofCompound {op : AssignOp} {binary : BinaryOp} {x : Local} {readAt : Span}
    (hx : x ∈ vars) (he : e.WellTyped deep vars)
    (h : ofCompound op binary x readAt e span = .ok typed) : typed.WellTyped deep vars := by
  obtain ⟨combined, steps, hb, hs, rfl⟩ := ofCompound_eq_ok h
  have hread : (read x ⟨x.type, readAt⟩).WellTyped deep vars := ⟨hx, .refl _⟩
  obtain ⟨hw, hf⟩ := (reaches_compoundSteps? hs).through (wellTyped_ofBinary hread he hb)
  exact ⟨hx, hw, hf, .refl _⟩

theorem wellTyped_ofTest (he : e.WellTyped deep vars) (h : ofTest e = .ok typed) :
    typed.WellTyped deep vars ∧ typed.type = .prim .boolean := by
  obtain ⟨hb, rfl⟩ := ofTest_eq_ok h
  have hk := Ty.kind?_of_isBoolean hb
  obtain ⟨steps, hs⟩ := Ty.exists_toPrimitive? hk .boolean
  rw [hs]
  exact wellTyped_through he (Ty.via?_toPrimitive? hs hk (.inl rfl))

theorem wellTyped_ofBranches {test : Typed} (ht : test.WellTyped deep vars)
    (htt : test.type = .prim .boolean) (hl : l.WellTyped deep vars) (hr : r.WellTyped deep vars)
    (h : ofBranches test l r span = .ok typed) : typed.WellTyped deep vars := by
  obtain ⟨type, left, right, hu, rfl⟩ := ofBranches_eq_ok h
  obtain ⟨hal, har⟩ := Ty.arrives_unify? hu
  obtain ⟨hwl, hfl⟩ := hal.reaches.through hl
  obtain ⟨hwr, hfr⟩ := har.reaches.through hr
  exact ⟨ht, hwl, hwr, htt, hfl, hfr⟩

theorem wellTyped_ofCast (he : e.WellTyped deep vars) (hn : t ≠ .null)
    (hd : deep = true → t.isContainer = false) (h : ofCast e t span = .ok typed) :
    typed.WellTyped deep vars := by
  obtain ⟨steps, hc, rfl⟩ := ofCast_eq_ok h
  obtain ⟨hw, hf⟩ := (Ty.reaches_cast? hc hn hd).through he
  exact hw.withTag hf

end Typed

end StackExpr
