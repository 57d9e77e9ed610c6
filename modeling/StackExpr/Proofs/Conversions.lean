import StackExpr.Proofs.Typing

/-! Lists of conversion steps fit together.

Each step of a list is made for the type that the step before it ends in. A list for an assignment
ends in a subtype of the declared type and loses nothing, a list for an operand ends in the type
that the operator works on, and a cast makes the steps of an assignment where there are any. -/
namespace StackExpr

/-- The types a step is made for. Only casts ask a `Number` for its value or check a class, and no
list asks for a string. -/
def Conversion.appliesTo (cast : Bool) : Conversion → Ty → Bool
  | unbox k, t => t == .boxed k
  | box k, t => t == .prim k
  | change j k, t => t == .prim j && j.isNumeric && k.isNumeric
  | numberValue k, t => cast && t.isNumber && k.isNumeric
  | checkCast t', t => cast && !t.isPrimitive && !t'.isPrimitive
  | stringify, _ => false

/-- The type that steps end in, if each of them is made for the type it is applied to. -/
def Ty.via? (cast : Bool) : Ty → List Conversion → Option Ty
  | t, [] => some t
  | t, c :: rest => if c.appliesTo cast t then c.result.via? cast rest else none

/-- Steps that fit together and end in a subtype. -/
def Ty.Arrives (cast : Bool) (t : Ty) (steps : List Conversion) (t' : Ty) : Prop :=
  ∃ m, t.via? cast steps = some m ∧ m.isSubtype t' = true

variable {cast : Bool} {t t' m : Ty} {steps : List Conversion} {k j p : Kind}

namespace Ty

theorem via?_cons {c : Conversion} (hc : c.appliesTo cast t = true) :
    t.via? cast (c :: steps) = c.result.via? cast steps := if_pos hc

/-- One list of steps after another starts where the first one ends. -/
theorem via?_append {more : List Conversion} (h : t.via? cast steps = some m) :
    t.via? cast (steps ++ more) = m.via? cast more := by
  induction steps generalizing t with
  | nil =>
    cases h
    rfl
  | cons c rest ih =>
    obtain ⟨hc, hrest⟩ := Option.ite_none_right_eq_some.mp h
    rw [List.cons_append, via?_cons hc, ih hrest]

theorem Arrives.of_via? (h : t.via? cast steps = some t') : t.Arrives cast steps t' :=
  ⟨t', h, isSubtype_refl t'⟩

end Ty

/-- A tree is tagged with the types that its steps end in. -/
theorem Typed.type_through {e : Typed} (h : e.type.via? cast steps = some m) :
    (e.through steps).type = m := by
  induction steps generalizing e with
  | nil => exact Option.some.inj h
  | cons c rest ih =>
    obtain ⟨-, hrest⟩ := Option.ite_none_right_eq_some.mp h
    exact ih (e := e.step c) hrest

theorem Kind.isNumeric_of_widensTo (h : j.widensTo k = true) :
    j.isNumeric = true ∧ k.isNumeric = true := by
  cases j <;> cases k <;> first | exact ⟨rfl, rfl⟩ | cases h

/-- Only numbers are promoted, and integers to `int` or `long`. -/
theorem Kind.binaryPromote?_eq_some (h : j.binaryPromote? k = some p) :
    j.isNumeric = true ∧ k.isNumeric = true ∧ p.isPromoted = true ∧
      (j.isIntegral = true → k.isIntegral = true → p = .int ∨ p = .long) := by
  cases j <;> cases k <;> cases h <;> simp [isNumeric, isPromoted, isIntegral]

theorem Kind.exists_binaryPromote? (hj : j.isNumeric = true) (hk : k.isNumeric = true) :
    ∃ p, j.binaryPromote? k = some p := by
  cases j <;> cases hj <;> cases k <;> cases hk <;> exact ⟨_, rfl⟩

theorem Kind.isNumeric_of_isPromoted (h : k.isPromoted = true) : k.isNumeric = true := by
  cases k <;> first | rfl | cases h

theorem Kind.isPromoted_iff : k.isPromoted = true ↔ k ∈ [int, long, float, double] := by
  cases k <;> decide

namespace Ty

theorem kind?_eq_some (h : t.kind? = some k) : t = .prim k ∨ t = .boxed k := by
  cases t <;> simp_all [kind?]

theorem exists_kind_of_isNumeric (h : t.isNumeric = true) :
    ∃ k, t.kind? = some k ∧ k.isNumeric = true := by
  rw [isNumeric] at h
  cases hk : t.kind? with
  | none => simp [hk] at h
  | some k => exact ⟨k, rfl, by simpa [hk] using h⟩

theorem exists_kind_of_isIntegral (h : t.isIntegral = true) :
    ∃ k, t.kind? = some k ∧ k.isIntegral = true := by
  rw [isIntegral] at h
  cases hk : t.kind? with
  | none => simp [hk] at h
  | some k => exact ⟨k, rfl, by simpa [hk] using h⟩

theorem kind?_of_isBoolean (h : t.isBoolean = true) : t.kind? = some .boolean := by
  simpa [isBoolean] using h

/-- From every type with a kind there is a way to every primitive. -/
theorem exists_toPrimitive? (h : t.kind? = some j) (k : Kind) :
    ∃ steps, t.toPrimitive? k = some steps := by
  rcases kind?_eq_some h with rfl | rfl <;> exact ⟨_, rfl⟩

theorem isPrimitive_storage (t : Ty) : t.storage.isPrimitive = false := by cases t <;> rfl

theorem appliesTo_change (hn : j.isNumeric = true ∧ k.isNumeric = true) :
    (Conversion.change j k).appliesTo cast (prim j) = true := by
  simp [Conversion.appliesTo, hn]

/-- To a primitive from a number, or from the same kind. -/
theorem via?_toPrimitive? (h : t.toPrimitive? k = some steps) (hj : t.kind? = some j)
    (hn : j = k ∨ j.isNumeric = true ∧ k.isNumeric = true) :
    t.via? cast steps = some (.prim k) := by
  have hstep : (prim j).via? cast (if j = k then [] else [.change j k]) = some (.prim k) := by
    split
    · next he => rw [he, via?]
    · next hne => exact via?_cons (appliesTo_change (hn.resolve_left hne))
  rcases kind?_eq_some hj with rfl | rfl
  · cases h
    exact hstep
  · cases h
    exact (via?_cons (beq_self_eq_true _)).trans hstep

/-- A primitive is boxed to its storage type; what is a reference stays as it is. -/
theorem via?_boxing (t : Ty) : t.via? cast t.boxing = some t.storage := by
  cases t with
  | prim k => exact via?_cons (beq_self_eq_true _)
  | _ => rfl

/-- How a value of the first type is made fit for the second: not at all, or boxed, widened, taken
out of its box. -/
inductive Assigns : Ty → Ty → List Conversion → Prop
  | same {t t' : Ty} (h : t.isSubtype t' = true) : Assigns t t' []
  | box {j : Kind} {t : Ty} (h : (boxed j).isSubtype t = true) : Assigns (prim j) t [.box j]
  | widen {j k : Kind} (hne : j ≠ k) (h : j.widensTo k = true) :
    Assigns (prim j) (prim k) [.change j k]
  | widenAndBox {j k : Kind} (hne : j ≠ k) (h : j.widensTo k = true) :
    Assigns (prim j) (boxed k) [.change j k, .box k]
  | unbox (k : Kind) : Assigns (boxed k) (prim k) [.unbox k]
  | unboxAndWiden {j k : Kind} (hne : j ≠ k) (h : j.widensTo k = true) :
    Assigns (boxed j) (prim k) [.unbox j, .change j k]

/-- Assignments go these ways and no others. -/
theorem assigns_of_assign? (h : t.assign? t' = some steps) : Assigns t t' steps := by
  unfold assign? at h
  split at h
  · next j k =>
    split_ifs at h with he hw
    · subst he
      cases h
      exact .same (isSubtype_refl _)
    · cases h
      exact .widen he hw
  · next j k =>
    split_ifs at h with he hw
    · subst he
      cases h
      exact .box (isSubtype_refl _)
    · cases h
      exact .widenAndBox he hw
  · next j k =>
    split_ifs at h with hw
    by_cases he : j = k
    · subst he
      simp only [toPrimitive?, if_true, Option.some.injEq] at h
      subst h
      exact .unbox j
    · simp only [toPrimitive?, if_neg he, Option.some.injEq] at h
      subst h
      exact .unboxAndWiden he (hw.resolve_left he)
  · split_ifs at h with hs
    cases h
    exact .box hs
  · split_ifs at h with hs
    cases h
    exact .same hs

theorem assign?_of_isSubtype (h : t.isSubtype t' = true) : t.assign? t' = some [] := by
  cases t with
  | prim j =>
    cases t' with
    | prim k => exact if_pos (eq_of_beq h)
    | _ => cases h
  | _ =>
    cases t' with
    | prim k => cases h
    | _ => simp [assign?, h]

theorem assign?_of_boxed_isSubtype (h : (boxed k).isSubtype t = true) :
    (prim k).assign? t = some [.box k] := by
  cases t with
  | prim j => cases h
  | boxed j => exact if_pos (eq_of_beq h)
  | _ => simp [assign?, h]

/-- The steps of an assignment fit together and end in a subtype of the declared type. -/
theorem Assigns.arrives (h : Assigns t t' steps) : t.Arrives cast steps t' := by
  cases h with
  | same hs => exact ⟨t, rfl, hs⟩
  | box hs => exact ⟨_, via?_cons (beq_self_eq_true _), hs⟩
  | widen _ hw => exact .of_via? (via?_cons (appliesTo_change (Kind.isNumeric_of_widensTo hw)))
  | widenAndBox _ hw =>
    refine .of_via? ((via?_cons (appliesTo_change (Kind.isNumeric_of_widensTo hw))).trans ?_)
    exact via?_cons (beq_self_eq_true _)
  | unbox k => exact .of_via? (via?_cons (beq_self_eq_true _))
  | unboxAndWiden _ hw =>
    refine .of_via? ((via?_cons (beq_self_eq_true _)).trans ?_)
    exact via?_cons (appliesTo_change (Kind.isNumeric_of_widensTo hw))

/-- No step of an assignment can lose anything. -/
theorem Assigns.isNarrowing (h : Assigns t t' steps) : ∀ c ∈ steps, c.isNarrowing = false := by
  cases h <;> simp [Conversion.isNarrowing, *]

theorem via?_castByKind? (h : t.castByKind? t' = some steps) (hj : t.kind? = some j)
    (hk : t'.kind? = some k) (hjk : j = k ∨ j.isNumeric = true ∧ k.isNumeric = true) :
    t.via? cast steps = some t' := by
  simp only [castByKind?, hk, bind, Option.bind_some, Option.bind_eq_some_iff] at h
  obtain ⟨opening, ho, h⟩ := h
  have hvia : t.via? cast opening = some (.prim k) := via?_toPrimitive? ho hj hjk
  rcases kind?_eq_some hk with rfl | rfl
  · cases h
    exact hvia
  · cases h
    exact (via?_append hvia).trans (via?_cons (beq_self_eq_true _))

/-- How a cast goes: as an assignment does, between kinds, out of a `Number`, down to a subtype with
a check, or between record types of which one is below the other. -/
inductive Casts : Ty → Ty → List Conversion → Prop
  | assign {t t' : Ty} {steps : List Conversion} (h : Assigns t t' steps) : Casts t t' steps
  | byKind {t t' : Ty} {steps : List Conversion} {j k : Kind} (hj : t.kind? = some j)
    (hk : t'.kind? = some k) (hjk : j = k ∨ j.isNumeric = true ∧ k.isNumeric = true)
    (h : t.castByKind? t' = some steps) : Casts t t' steps
  | value {k : Kind} (h : k.isNumeric = true) : Casts number (prim k) [.numberValue k]
  | check {t t' : Ty} (hne : t ≠ t') (ht : t.isPrimitive = false) (ht' : t'.isPrimitive = false)
    (h : t'.isSubtype t = true) (hr : ∀ k v k' v', t = record k v → t' ≠ record k' v') :
    Casts t t' [.checkCast t']
  | records {r r' : RecordTy} (h : r'.isSubtype r = true) : Casts r.toTy r'.toTy []

theorem isPrimitive_of_downcast? (h : t.downcast? t' = some steps) :
    t.isPrimitive = false ∧ t'.isPrimitive = false := by
  cases t' with
  | prim k => cases t <;> cases h
  | _ =>
    cases t with
    | prim j => cases h
    | _ => exact ⟨rfl, rfl⟩

theorem casts_of_downcast? (h : t.downcast? t' = some steps) (hne : t ≠ t') :
    Casts t t' steps := by
  obtain ⟨ht, ht'⟩ := isPrimitive_of_downcast? h
  unfold downcast? at h
  split at h
  · cases h
  · cases h
  · next k v k' v' =>
    split_ifs at h with hs
    cases h
    exact @Casts.records ⟨k, v⟩ ⟨k', v'⟩ hs
  · cases h
    exact .check hne ht ht' (isSubtype_any_iff.mpr ht') nofun
  · next hr =>
    split_ifs at h with hs
    cases h
    exact .check hne ht ht' hs hr

/-- Casts go these ways and no others. -/
theorem casts_of_cast? (h : t.cast? t' = some steps) : Casts t t' steps := by
  unfold cast? at h
  split_ifs at h with he hk hnum
  · cases h
    exact .assign (.same (he ▸ isSubtype_refl t))
  · simp only [Bool.or_eq_true, Bool.and_eq_true] at hk
    rcases hk with ⟨h₁, h₂⟩ | ⟨h₁, h₂⟩
    · obtain ⟨j, hj, hnj⟩ := exists_kind_of_isNumeric h₁
      obtain ⟨k, hk, hnk⟩ := exists_kind_of_isNumeric h₂
      exact .byKind hj hk (.inr ⟨hnj, hnk⟩) h
    · exact .byKind (kind?_of_isBoolean h₁) (kind?_of_isBoolean h₂) (.inl rfl) h
  · obtain rfl : t = .number := by simpa [isNumber] using hnum
    split at h
    · split_ifs at h with hk
      · cases h
        exact .value hk
      · exact .assign (assigns_of_assign? h)
    · split_ifs at h with hk
      · cases h
        exact .check he rfl rfl hk nofun
      · exact .assign (assigns_of_assign? h)
    · exact .assign (assigns_of_assign? h)
  · split at h
    · next ha =>
      cases h
      exact .assign (assigns_of_assign? ha)
    · exact casts_of_downcast? h he

/-- A cast between record types looks at nothing, so it may go down without a step. -/
theorem Casts.arrives (h : Casts t t' steps) :
    t.Arrives true steps t' ∨
      steps = [] ∧ ∃ r r' : RecordTy, t = r.toTy ∧ t' = r'.toTy ∧ r'.isSubtype r = true := by
  cases h with
  | assign ha => exact .inl ha.arrives
  | byKind hj hk hjk hc => exact .inl (.of_via? (via?_castByKind? hc hj hk hjk))
  | value hk => exact .inl (.of_via? (via?_cons (by simp [Conversion.appliesTo, isNumber, hk])))
  | check _ ht ht' _ _ =>
    exact .inl (.of_via? (via?_cons (by simp [Conversion.appliesTo, ht, ht'])))
  | @records r r' hs => exact .inr ⟨rfl, r, r', rfl, rfl, hs⟩

/-- Between kinds a cast goes by way of the target's primitive. -/
theorem cast?_of_kind? (hj : t.kind? = some j) (hk : t'.kind? = some k)
    (hjk : j = k ∨ j.isNumeric = true ∧ k.isNumeric = true) (hne : t ≠ t') :
    t.cast? t' = t.castByKind? t' := by
  have hcond : (t.isNumeric && t'.isNumeric || t.isBoolean && t'.isBoolean) = true := by
    simp only [isNumeric, isBoolean, hj, hk, Option.any_some]
    rcases hjk with rfl | ⟨hnj, hnk⟩
    · cases j <;> rfl
    · rw [hnj, hnk]
      rfl
  unfold cast?
  rw [if_neg hne, if_pos hcond]

/-- Where no kinds are involved an assignment is tried first. -/
theorem cast?_of_kind?_eq_none (hk : t.kind? = none ∨ t'.kind? = none)
    (ha : t.assign? t' = some steps) : t.cast? t' = some steps := by
  unfold cast?
  split_ifs with he hcond hn
  · subst he
    rw [← ha, assign?_of_isSubtype (isSubtype_refl t)]
  · rcases hk with hk | hk <;> simp [isNumeric, isBoolean, hk] at hcond
  · obtain rfl : t = .number := by simpa [isNumber] using hn
    cases t' with
    | prim k | boxed k => cases ha
    | _ => exact ha
  · rw [ha]

/-- Between kinds the steps of an assignment are those by way of the target's primitive. -/
theorem Assigns.castByKind? (h : Assigns t t' steps) (hne : t ≠ t') (hj : t.kind? = some j)
    (hk : t'.kind? = some k) :
    (j = k ∨ j.isNumeric = true ∧ k.isNumeric = true) ∧ t.castByKind? t' = some steps := by
  cases h with
  | same hs =>
    rcases kind?_eq_some hj with rfl | rfl <;> rcases kind?_eq_some hk with rfl | rfl <;>
      first | cases hs | exact absurd (congrArg _ (eq_of_beq hs)) hne
  | box hs =>
    cases hj
    rcases kind?_eq_some hk with rfl | rfl
    · cases hs
    · obtain rfl : j = k := eq_of_beq hs
      simp [Ty.castByKind?, toPrimitive?, kind?]
  | widen he hw | widenAndBox he hw | unboxAndWiden he hw =>
    cases hj
    cases hk
    refine ⟨.inr (Kind.isNumeric_of_widensTo hw), ?_⟩
    simp [Ty.castByKind?, toPrimitive?, kind?, he]
  | unbox =>
    cases hj
    cases hk
    simp [Ty.castByKind?, toPrimitive?, kind?]

/-- A cast makes the steps of an assignment where there are any. -/
theorem cast?_of_assign? (h : t.assign? t' = some steps) : t.cast? t' = some steps := by
  by_cases hkinds : t.kind? = none ∨ t'.kind? = none
  · exact cast?_of_kind?_eq_none hkinds h
  · obtain ⟨hj, hk⟩ := not_or.mp hkinds
    obtain ⟨j, hj⟩ := Option.ne_none_iff_exists'.mp hj
    obtain ⟨k, hk⟩ := Option.ne_none_iff_exists'.mp hk
    by_cases he : t = t'
    · subst he
      rw [assign?_of_isSubtype (isSubtype_refl t)] at h
      exact (if_pos rfl).trans h
    · obtain ⟨hjk, hc⟩ := (assigns_of_assign? h).castByKind? he hj hk
      rw [cast?_of_kind? hj hk hjk he, hc]

/-- Both branches arrive at the common type. -/
theorem arrives_unify? {a b : Ty} {left right : List Conversion}
    (h : a.unify? b = some (t, left, right)) :
    a.Arrives false left t ∧ b.Arrives false right t := by
  unfold unify? at h
  split_ifs at h with he hn hb hna hnb
  · cases h
    exact ⟨.of_via? rfl, .of_via? (by rw [he, via?])⟩
  all_goals
    simp only [bind, Option.bind_eq_some_iff, pure, Option.some.injEq, Prod.mk.injEq] at h
  · obtain ⟨i, hi, j, hj, k, hk, l, hl, r, hr, rfl, rfl, rfl⟩ := h
    obtain ⟨hni, hnj, hp, -⟩ := Kind.binaryPromote?_eq_some hk
    have hnk := Kind.isNumeric_of_isPromoted hp
    exact ⟨.of_via? (via?_toPrimitive? hl hi (.inr ⟨hni, hnk⟩)),
      .of_via? (via?_toPrimitive? hr hj (.inr ⟨hnj, hnk⟩))⟩
  · obtain ⟨hba, hbb⟩ := Bool.and_eq_true_iff.mp hb
    obtain ⟨l, hl, r, hr, rfl, rfl, rfl⟩ := h
    exact ⟨.of_via? (via?_toPrimitive? hl (kind?_of_isBoolean hba) (.inl rfl)),
      .of_via? (via?_toPrimitive? hr (kind?_of_isBoolean hbb) (.inl rfl))⟩
  · obtain rfl : a = .null := by simpa [isNull] using hna
    obtain ⟨r, hr, rfl, rfl, rfl⟩ := h
    exact ⟨⟨_, rfl, null_isSubtype_iff.mpr (isPrimitive_storage b)⟩,
      (assigns_of_assign? hr).arrives⟩
  · obtain rfl : b = .null := by simpa [isNull] using hnb
    obtain ⟨l, hl, rfl, rfl, rfl⟩ := h
    exact ⟨(assigns_of_assign? hl).arrives,
      ⟨_, rfl, null_isSubtype_iff.mpr (isPrimitive_storage a)⟩⟩
  -- whichever the joined type is, both branches are assigned to it
  all_goals
    obtain ⟨l, hl, r, hr, rfl, rfl, rfl⟩ := h
    exact ⟨(assigns_of_assign? hl).arrives, (assigns_of_assign? hr).arrives⟩

end Ty

namespace Coercion

variable {category : Category} {l r : Ty} {c : Coercion} {result : Kind → Ty}

/-- Two numbers are brought to their promoted kind. -/
theorem numeric?_eq_some (h : numeric? category l r result = some c) :
    ∃ k, c = ⟨category, .numeric k, result k, c.left, c.right⟩ ∧ k.isPromoted = true ∧
      l.via? false c.left = some (.prim k) ∧ r.via? false c.right = some (.prim k) ∧
      (l.isIntegral = true → r.isIntegral = true → k = .int ∨ k = .long) := by
  simp only [numeric?, bind, Option.bind_eq_some_iff, pure, Option.some.injEq] at h
  obtain ⟨i, hi, j, hj, k, hk, left, hl, right, hr, rfl⟩ := h
  obtain ⟨hni, hnj, hp, hint⟩ := Kind.binaryPromote?_eq_some hk
  have hnk := Kind.isNumeric_of_isPromoted hp
  refine ⟨k, rfl, hp, Ty.via?_toPrimitive? hl hi (.inr ⟨hni, hnk⟩),
    Ty.via?_toPrimitive? hr hj (.inr ⟨hnj, hnk⟩), fun h₁ h₂ => hint ?_ ?_⟩
  · simpa [Ty.isIntegral, hi] using h₁
  · simpa [Ty.isIntegral, hj] using h₂

theorem boolean?_eq_some (h : boolean? category l r = some c) (hl : l.isBoolean = true)
    (hr : r.isBoolean = true) :
    c = ⟨category, .boolean, .prim .boolean, c.left, c.right⟩ ∧
      l.via? false c.left = some (.prim .boolean) ∧
      r.via? false c.right = some (.prim .boolean) := by
  simp only [boolean?, bind, Option.bind_eq_some_iff, pure, Option.some.injEq] at h
  obtain ⟨left, hleft, right, hright, rfl⟩ := h
  exact ⟨rfl, Ty.via?_toPrimitive? hleft (Ty.kind?_of_isBoolean hl) (.inl rfl),
    Ty.via?_toPrimitive? hright (Ty.kind?_of_isBoolean hr) (.inl rfl)⟩

theorem shift?_eq_some (h : shift? l r = some c) :
    ∃ k, c = ⟨.shift, .numeric k, .prim k, c.left, c.right⟩ ∧ (k = .int ∨ k = .long) ∧
      l.via? false c.left = some (.prim k) ∧ r.via? false c.right = some (.prim .int) := by
  unfold shift? at h
  split at h
  · next hint =>
    simp only [Bool.and_eq_true] at hint
    simp only [bind, Option.bind_eq_some_iff, pure, Option.some.injEq] at h
    obtain ⟨i, hi, k, hk, left, hl, right, hr, rfl⟩ := h
    obtain ⟨j, hj, hij⟩ := Ty.exists_kind_of_isIntegral hint.2
    obtain ⟨hni, -, hp, hlong⟩ := Kind.binaryPromote?_eq_some hk
    have hii : i.isIntegral = true := by simpa [Ty.isIntegral, hi] using hint.1
    have hnj : j.isNumeric = true := by cases j <;> first | rfl | cases hij
    exact ⟨k, rfl, hlong hii hii,
      Ty.via?_toPrimitive? hl hi (.inr ⟨hni, Kind.isNumeric_of_isPromoted hp⟩),
      Ty.via?_toPrimitive? hr hj (.inr ⟨hnj, rfl⟩)⟩
  · cases h

/-- What the steps of the operands of a category end in. -/
def Composes (c : Coercion) (category : Category) (l r : Ty) : Prop :=
  match c.mode with
  | .numeric k => k ∈ [Kind.int, .long, .float, .double] ∧ l.via? false c.left = some (.prim k) ∧
    r.via? false c.right = some (.prim (if category = .shift then .int else k))
  | .boolean => l.via? false c.left = some (.prim .boolean) ∧
    r.via? false c.right = some (.prim .boolean)
  | .reference => ∃ l' r', l.via? false c.left = some l' ∧ r.via? false c.right = some r' ∧
    l'.isPrimitive = false ∧ r'.isPrimitive = false
  | .nullCheck => c.left = [] ∧ c.right = [] ∧ (l = .null ∨ r = .null) ∧
    l.isPrimitive = false ∧ r.isPrimitive = false

theorem composes_numeric? (h : numeric? category l r result = some c) (hc : category ≠ .shift) :
    c.Composes category l r := by
  obtain ⟨k, hform, hp, hl, hr, -⟩ := numeric?_eq_some h
  rw [hform]
  exact ⟨Kind.isPromoted_iff.mp hp, hl, by rw [hr, if_neg hc]⟩

theorem composes_boolean? (h : boolean? category l r = some c) (hl : l.isBoolean = true)
    (hr : r.isBoolean = true) : c.Composes category l r := by
  obtain ⟨hform, hl, hr⟩ := boolean?_eq_some h hl hr
  rw [hform]
  exact ⟨hl, hr⟩

theorem composes_shift? (h : shift? l r = some c) : c.Composes .shift l r := by
  obtain ⟨k, hform, hk, hl, hr⟩ := shift?_eq_some h
  rw [hform]
  refine ⟨?_, hl, hr⟩
  rcases hk with rfl | rfl <;> decide

theorem composes_equality? (h : equality? category l r = some c) (hc : category ≠ .shift) :
    c.Composes category l r := by
  unfold equality? at h
  split_ifs at h with hn hb hnull hl hp hp hs
  · exact composes_numeric? h hc
  · obtain ⟨hl, hr⟩ := Bool.and_eq_true_iff.mp hb
    exact composes_boolean? h hl hr
  · cases h
    obtain rfl : l = .null := by simpa [Ty.isNull] using hl
    exact ⟨rfl, rfl, .inl rfl, rfl, Bool.eq_false_iff.mpr hp⟩
  · cases h
    have hr : r.isNull = true := (Bool.or_eq_true_iff.mp hnull).resolve_left hl
    obtain rfl : r = .null := by simpa [Ty.isNull] using hr
    exact ⟨rfl, rfl, .inr rfl, Bool.eq_false_iff.mpr hp, rfl⟩
  · cases h
    exact ⟨_, _, Ty.via?_boxing l, Ty.via?_boxing r, Ty.isPrimitive_storage l,
      Ty.isPrimitive_storage r⟩

theorem equality?_eq_some (h : equality? category l r = some c) :
    c.category = category ∧ c.result = .prim .boolean := by
  unfold equality? at h
  split_ifs at h with hn hb
  · obtain ⟨k, hform, -⟩ := numeric?_eq_some h
    rw [hform]
    exact ⟨rfl, rfl⟩
  · simp only [boolean?, bind, Option.bind_eq_some_iff, pure, Option.some.injEq] at h
    obtain ⟨_, -, _, -, rfl⟩ := h
    exact ⟨rfl, rfl⟩
  all_goals
    cases h
    exact ⟨rfl, rfl⟩

/-- The steps of operands fit together, whichever family the operator is of. -/
theorem composes_coerce? (h : category.coerce? l r = some c) : c.Composes category l r := by
  unfold Category.coerce? at h
  split at h
  · exact composes_numeric? h nofun
  · exact composes_numeric? h nofun
  · exact composes_shift? h
  · split_ifs at h with hb hi
    · obtain ⟨hl, hr⟩ := Bool.and_eq_true_iff.mp hb
      exact composes_boolean? h hl hr
    · exact composes_numeric? h nofun
  · exact composes_equality? h nofun
  · exact composes_equality? h nofun
  · split_ifs at h with hb
    obtain ⟨hl, hr⟩ := Bool.and_eq_true_iff.mp hb
    exact composes_boolean? h hl hr

end Coercion

/-- Steps for an assignment fit together, lose nothing and end in the declared type or below it, and
a cast makes the same ones. Steps for a cast fit together too, or it goes down from record to record
with none. Steps for operands end in the types that the operator works on. A converted tree has the
type its steps end in. -/
theorem Ty.conversions_compose (s t : Ty) :
    (∀ steps, s.assign? t = some steps → s.Arrives false steps t ∧
      (∀ c ∈ steps, c.isNarrowing = false) ∧ s.cast? t = some steps) ∧
    (∀ steps, s.cast? t = some steps → s.Arrives true steps t ∨
      steps = [] ∧ ∃ r r' : RecordTy, s = r.toTy ∧ t = r'.toTy ∧ r'.isSubtype r = true) ∧
    (∀ (category : Category) c, category.coerce? s t = some c → c.Composes category s t) ∧
    ∀ cast steps m, s.via? cast steps = some m →
      ∀ e : Typed, e.type = s → (e.through steps).type = m := by
  refine ⟨fun steps h => ?_, fun steps h => (casts_of_cast? h).arrives,
    fun category c h => Coercion.composes_coerce? h, ?_⟩
  · have ha := assigns_of_assign? h
    exact ⟨ha.arrives, ha.isNarrowing, cast?_of_assign? h⟩
  · rintro cast steps m h e rfl
    exact Typed.type_through h

/-- A `Character` becomes a `long` by way of `char` and is shifted as an `int`, by a `long` cut down
to one. A record of objects may be cast to one of strings. -/
theorem Ty.conversions_of_characters :
    (boxed .char).Arrives false [.unbox .char, .change .char .long] (prim .long) ∧
    (boxed .char).cast? (prim .long) = some [.unbox .char, .change .char .long] ∧
    (Coercion.mk .shift (.numeric .int) (prim .int) [.unbox .char, .change .char .int]
      [.change .long .int]).Composes .shift (boxed .char) (prim .long) ∧
    ((record string any).Arrives true [] (record string string) ∨
      [] = ([] : List Conversion) ∧ ∃ r r' : RecordTy, record string any = r.toTy ∧
        record string string = r'.toTy ∧ r'.isSubtype r = true) := by
  have hchar := conversions_compose (boxed .char) (prim .long)
  exact ⟨(hchar.1 _ rfl).1, (hchar.1 _ rfl).2.2, hchar.2.2.1 .shift _ rfl,
    (conversions_compose (record string any) (record string string)).2.1 _ (by decide)⟩

end StackExpr
