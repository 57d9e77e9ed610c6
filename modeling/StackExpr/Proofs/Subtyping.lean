import Mathlib.Tactic.Common
import StackExpr.Type.Basic

/-! The order of types.

Subtyping is a preorder with `null` below all references and `Object` above them. Containers keep
primitives boxed, so two types are below each other if they are one type once the primitives inside
their containers are boxed. -/
namespace StackExpr.Ty

variable {a b c t : Ty}

/-- The type with every primitive boxed that is a key, a value or an element, at every depth. -/
def boxedInside : Ty → Ty
  | record k v => record k.boxedInside.storage v.boxedInside.storage
  | array t => array t.boxedInside.storage
  | t => t

/-- Everything can be stored as an `Object`. -/
theorem storesInto_any (t : Ty) : t.storesInto any = true := by cases t <;> rfl

theorem storesInto_refl (t : Ty) : t.storesInto t = true := by
  induction t with
  | prim k | boxed k | named k => exact beq_self_eq_true k
  | any | null => rfl
  | record k v ihk ihv => exact Bool.and_eq_true_iff.mpr ⟨ihk, ihv⟩
  | array t ih => exact ih

theorem eq_any_of_storesInto (h : any.storesInto t = true) : t = any := by
  cases t <;> first | rfl | cases h

/-- Only `null` is below `null`. -/
theorem eq_null_of_storesInto (h : t.storesInto null = true) : t = null := by
  cases t <;> first | rfl | cases h

/-- The induction follows the first comparison; what the middle type is below decides the rest. -/
theorem storesInto_trans (h : a.storesInto b = true) (h' : b.storesInto c = true) :
    a.storesInto c = true := by
  fun_induction storesInto a b generalizing c with
  | case1 a =>
    cases eq_any_of_storesInto h'
    exact storesInto_any a
  | case2 b _ => cases c <;> rfl
  | case3 j k | case4 j k | case5 j k | case6 j k =>
    obtain rfl := eq_of_beq h
    cases c <;> exact h'
  | case7 j name | case8 j name =>
    obtain ⟨rfl, hj⟩ : name = "Number" ∧ j.isNumeric = true := by simpa using h
    cases c with
    | named other =>
      obtain rfl : "Number" = other := eq_of_beq h'
      exact h
    | any => rfl
    | _ => cases h'
  | case9 a b =>
    obtain rfl := eq_of_beq h
    exact h'
  | case10 k v k' v' ihk ihv =>
    obtain ⟨hk, hv⟩ := Bool.and_eq_true_iff.mp h
    cases c with
    | record k'' v'' =>
      obtain ⟨hk', hv'⟩ := Bool.and_eq_true_iff.mp h'
      exact Bool.and_eq_true_iff.mpr ⟨ihk hk hk', ihv hv hv'⟩
    | any => rfl
    | _ => cases h'
  | case11 t t' ih =>
    cases c with
    | array t'' => exact ih h h'
    | any => rfl
    | _ => cases h'
  | case12 => cases h

theorem storesInto_storage (t : Ty) : t.storesInto t.storage = true := by
  cases t with
  | prim k => exact beq_self_eq_true k
  | _ => exact storesInto_refl _

theorem storesInto_of_storage (t : Ty) : t.storage.storesInto t = true := by
  cases t with
  | prim k => exact beq_self_eq_true k
  | _ => exact storesInto_refl _

/-- Boxing what is inside changes nothing that a comparison sees. -/
theorem storesInto_boxedInside (t : Ty) :
    t.storesInto t.boxedInside.storage = true ∧ t.boxedInside.storage.storesInto t = true := by
  induction t with
  | record k v ihk ihv =>
    exact ⟨Bool.and_eq_true_iff.mpr ⟨ihk.1, ihv.1⟩, Bool.and_eq_true_iff.mpr ⟨ihk.2, ihv.2⟩⟩
  | array t ih => exact ih
  | _ => exact ⟨storesInto_storage _, storesInto_of_storage _⟩

theorem boxedInside_eq_of_storesInto (h : a.storesInto b = true) (h' : b.storesInto a = true) :
    a.boxedInside.storage = b.boxedInside.storage := by
  fun_induction storesInto a b with
  | case1 a => rw [eq_any_of_storesInto h']
  | case2 b _ => rw [eq_null_of_storesInto h']
  | case3 j k | case4 j k | case5 j k | case6 j k | case9 j k =>
    obtain rfl := eq_of_beq h
    rfl
  | case7 | case8 => cases h'
  | case10 k v k' v' ihk ihv =>
    obtain ⟨hk, hv⟩ := Bool.and_eq_true_iff.mp h
    obtain ⟨hk', hv'⟩ := Bool.and_eq_true_iff.mp h'
    exact congrArg₂ record (ihk hk hk') (ihv hv hv')
  | case11 t t' ih => exact congrArg array (ih h h')
  | case12 => cases h

/-- Contents can be exchanged if they are alike once they are boxed. -/
theorem storesInto_both_iff : a.storesInto b = true ∧ b.storesInto a = true ↔
    a.boxedInside.storage = b.boxedInside.storage := by
  constructor
  · rintro ⟨h, h'⟩
    exact boxedInside_eq_of_storesInto h h'
  · intro h
    obtain ⟨ha, ha'⟩ := storesInto_boxedInside a
    obtain ⟨hb, hb'⟩ := storesInto_boxedInside b
    rw [← h] at hb hb'
    exact ⟨storesInto_trans ha hb', storesInto_trans hb ha'⟩

theorem isSubtype_of_reference (ha : a.isPrimitive = false) (hb : b.isPrimitive = false) :
    a.isSubtype b = a.storesInto b := by
  cases a with
  | prim j => cases ha
  | _ =>
    cases b with
    | prim k => cases hb
    | _ => rfl

/-- A primitive is below itself alone, and references compare as contents do. -/
theorem isSubtype_iff : a.isSubtype b = true ↔
    (∃ k, a = prim k ∧ b = prim k) ∨
      a.isPrimitive = false ∧ b.isPrimitive = false ∧ a.storesInto b = true := by
  constructor
  · intro h
    cases a with
    | prim j =>
      cases b with
      | prim k =>
        obtain rfl : j = k := eq_of_beq h
        exact .inl ⟨j, rfl, rfl⟩
      | _ => cases h
    | _ =>
      cases b with
      | prim k => cases h
      | _ => exact .inr ⟨rfl, rfl, h⟩
  · rintro (⟨k, rfl, rfl⟩ | ⟨ha, hb, h⟩)
    · exact beq_self_eq_true k
    · rwa [isSubtype_of_reference ha hb]

theorem isSubtype_refl (t : Ty) : t.isSubtype t = true := by
  cases t with
  | prim k => exact beq_self_eq_true k
  | _ => exact storesInto_refl _

/-- The order of contents carries over to types. -/
theorem isSubtype_trans (h : a.isSubtype b = true) (h' : b.isSubtype c = true) :
    a.isSubtype c = true := by
  rcases isSubtype_iff.mp h with ⟨k, rfl, rfl⟩ | ⟨ha, hb, hab⟩
  · exact h'
  · rcases isSubtype_iff.mp h' with ⟨k, rfl, rfl⟩ | ⟨-, hc, hbc⟩
    · exact h
    · exact isSubtype_iff.mpr (.inr ⟨ha, hc, storesInto_trans hab hbc⟩)

theorem null_isSubtype_iff : null.isSubtype t = true ↔ t.isPrimitive = false := by
  cases t with
  | prim k => exact iff_of_false Bool.noConfusion Bool.noConfusion
  | _ => exact iff_of_true rfl rfl

theorem isSubtype_any_iff : t.isSubtype any = true ↔ t.isPrimitive = false := by
  cases t with
  | prim k => exact iff_of_false Bool.noConfusion Bool.noConfusion
  | _ => exact iff_of_true rfl rfl

theorem storage_boxedInside (h : t.isPrimitive = false) :
    t.boxedInside.storage = t.boxedInside := by
  cases t with
  | prim k => cases h
  | _ => rfl

theorem isPrimitive_boxedInside (t : Ty) : t.boxedInside.isPrimitive = t.isPrimitive := by
  cases t <;> rfl

/-- Two types are below each other if they are one type with all contents boxed. -/
theorem isSubtype_both_iff : a.isSubtype b = true ∧ b.isSubtype a = true ↔
    a.boxedInside = b.boxedInside := by
  constructor
  · rintro ⟨h, h'⟩
    rcases isSubtype_iff.mp h with ⟨k, rfl, rfl⟩ | ⟨ha, hb, hab⟩
    · rfl
    · rw [isSubtype_of_reference hb ha] at h'
      rw [← storage_boxedInside ha, ← storage_boxedInside hb]
      exact storesInto_both_iff.mp ⟨hab, h'⟩
  · intro h
    cases hp : a.isPrimitive with
    | false =>
      have hb : b.isPrimitive = false := by
        rw [← isPrimitive_boxedInside, ← h, isPrimitive_boxedInside, hp]
      rw [isSubtype_of_reference hp hb, isSubtype_of_reference hb hp, storesInto_both_iff, h]
    | true =>
      cases a with
      | prim k =>
        cases b with
        | prim j =>
          cases h
          exact ⟨isSubtype_refl _, isSubtype_refl _⟩
        | _ => cases h
      | _ => cases hp

/-- Subtyping is a preorder, with `null` below and `Object` above the references. Two types are
below each other if and only if they differ in nothing but the boxing of what their containers
hold. -/
theorem subtyping_is_preorder :
    (∀ t : Ty, t.isSubtype t = true) ∧
    (∀ a b c : Ty, a.isSubtype b = true → b.isSubtype c = true → a.isSubtype c = true) ∧
    (∀ t : Ty, (null.isSubtype t = true ↔ t.isPrimitive = false) ∧
      (t.isSubtype any = true ↔ t.isPrimitive = false)) ∧
    ∀ a b : Ty, a.isSubtype b = true ∧ b.isSubtype a = true ↔ a.boxedInside = b.boxedInside :=
  ⟨isSubtype_refl, fun _ _ _ => isSubtype_trans,
    fun _ => ⟨null_isSubtype_iff, isSubtype_any_iff⟩, fun _ _ => isSubtype_both_iff⟩

/-- Lists of records of `int` lists are lists of records of `Integer` lists, and below those of
`Number` lists. -/
theorem subtyping_of_int_lists :
    let lists (t : Ty) := array (record string (array t))
    (lists (prim .int)).isSubtype (lists (boxed .int)) = true ∧
    (lists (boxed .int)).isSubtype (lists (prim .int)) = true ∧
    (lists (prim .int)).isSubtype (lists number) = true ∧
    (lists number).isSubtype (lists (prim .int)) = false := by
  intro lists
  obtain ⟨-, htrans, -, hboth⟩ := subtyping_is_preorder
  have hboxed : (lists (boxed .int)).isSubtype (lists number) = true := by decide
  obtain ⟨h, h'⟩ := (hboth (lists (prim .int)) (lists (boxed .int))).mpr rfl
  exact ⟨h, h', htrans _ _ _ h hboxed, by decide⟩

end StackExpr.Ty
