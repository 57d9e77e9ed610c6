import StackExpr.Proofs.Conformance
import StackExpr.Proofs.Evaluation

/-! Typing rules of typed trees.

A type fits another if all its values are values of the other. A node's tag may say any type that
the node's own type fits, so a tree can be relabelled without losing its typing. -/
namespace StackExpr

/-- Every value of the first type is one of the second, whatever is in the store. -/
def Ty.Fits (deep : Bool) (t t' : Ty) : Prop :=
  ∀ (s : Store) (v : Value), v.Conforms deep s t → v.Conforms deep s t'

def Ty.isContainer : Ty → Bool
  | record _ _ | array _ => true
  | _ => false

/-- Kinds that arithmetic is done in. -/
def Kind.isPromoted : Kind → Bool
  | int | long | float | double => true
  | _ => false

/-- Shifts and bitwise operators have no floating form, and booleans have only the latter. -/
def ArithOp.admits : ArithOp → Kind → Bool
  | _, .int | _, .long => true
  | .add, .float | .subtract, .float | .multiply, .float | .divide, .float | .remainder, .float
  | .add, .double | .subtract, .double | .multiply, .double | .divide, .double
  | .remainder, .double => true
  | .and, .boolean | .or, .boolean | .xor, .boolean => true
  | _, _ => false

/-- The types a conversion step is made for. -/
def Conversion.Takes (deep : Bool) : Conversion → Ty → Prop
  | unbox k, t => t = .boxed k
  | box k, t => t = .prim k
  | change j k, t => t = .prim j ∧ j.isNumeric = true ∧ k.isNumeric = true
  | numberValue k, t => t = .number ∧ k.isNumeric = true
  | checkCast t', t => t'.isPrimitive = false ∧ t' ≠ .null ∧
    (deep = true → t'.isContainer = false) ∧
    (t = .any ∨ (t = .number ∧ ∃ k, t' = .boxed k) ∨ ∃ x y, t = .array x ∧ t' = .array y)
  | stringify, t => t.isPrimitive = false

/-- The types that operands are compared at. -/
def OperandMode.Takes : OperandMode → Ty → Ty → Prop
  | numeric k, l, r => k.isPromoted = true ∧ l = .prim k ∧ r = .prim k
  | boolean, l, r => l = .prim .boolean ∧ r = .prim .boolean
  | reference, l, r | nullCheck, l, r => l.isPrimitive = false ∧ r.isPrimitive = false

/-- A string constant yields a string whatever its tag says. -/
def Typed.Yields (deep : Bool) (t : Ty) (e : Typed) : Prop :=
  e.type.Fits deep t ∨ e.isStringConstant = true ∧ Ty.string.Fits deep t

/-- A literal key and the type it is kept at: numbers are boxed. -/
def Constant.Keyed (c : Constant) (stored : Ty) : Prop :=
  (∃ k, stored = .boxed k ∧ k.Holds c.value ∧ k.isNumeric = true ∧ ∀ b, c ≠ .boolean b) ∨
    stored = .string ∧ ∃ text, c = .string text

mutual

def Typed.WellTyped (deep : Bool) (vars : List Local) : Typed → Prop
  | .constant c tag => ∀ s, c.value.Conforms deep s tag.type
  | .read v tag => v ∈ vars ∧ v.type.Fits deep tag.type
  | .convert e step tag =>
    e.WellTyped deep vars ∧ step.Takes deep e.type ∧ step.result.Fits deep tag.type
  | .arith op k l r tag => l.WellTyped deep vars ∧ r.WellTyped deep vars ∧ l.type = .prim k ∧
    r.type = .prim (if op.isShift then .int else k) ∧ op.admits k = true ∧
    (Ty.prim k).Fits deep tag.type
  | .power l r tag => l.WellTyped deep vars ∧ r.WellTyped deep vars ∧ l.type = .prim .double ∧
    r.type = .prim .double ∧ (Ty.prim .double).Fits deep tag.type
  | .negate k e tag => e.WellTyped deep vars ∧ e.type = .prim k ∧ k.isPromoted = true ∧
    (Ty.prim k).Fits deep tag.type
  | .complement k e tag => e.WellTyped deep vars ∧ e.type = .prim k ∧ (k = .int ∨ k = .long) ∧
    (Ty.prim k).Fits deep tag.type
  | .not e tag => e.WellTyped deep vars ∧ e.type = .prim .boolean ∧
    (Ty.prim .boolean).Fits deep tag.type
  | .compare _ mode l r tag => l.WellTyped deep vars ∧ r.WellTyped deep vars ∧
    mode.Takes l.type r.type ∧ (Ty.prim .boolean).Fits deep tag.type
  | .logical _ l r tag => l.WellTyped deep vars ∧ r.WellTyped deep vars ∧
    l.type = .prim .boolean ∧ r.type = .prim .boolean ∧ (Ty.prim .boolean).Fits deep tag.type
  | .concat l r tag => l.WellTyped deep vars ∧ r.WellTyped deep vars ∧ l.Yields deep .string ∧
    r.Yields deep .string ∧ Ty.string.Fits deep tag.type
  | .update v delta _ tag => v ∈ vars ∧ v.type.isNumeric = true ∧ (delta = 1 ∨ delta = -1) ∧
    v.type.Fits deep tag.type
  | .assign v e tag => v ∈ vars ∧ e.WellTyped deep vars ∧ e.type.Fits deep v.type ∧
    v.type.Fits deep tag.type
  | .conditional t y n tag => t.WellTyped deep vars ∧ y.WellTyped deep vars ∧
    n.WellTyped deep vars ∧ t.type = .prim .boolean ∧ y.type.Fits deep tag.type ∧
    n.type.Fits deep tag.type
  | .record plan entries tag => Entry.AllWellTyped deep vars plan.type entries ∧
    plan.type.toTy.Fits deep tag.type
  | .list items tag => ∃ t, Typed.AllWellTyped deep vars t items ∧ (Ty.array t).Fits deep tag.type

/-- What an entry puts fits the record's keys and values as they are stored. -/
def Entry.WellTyped (deep : Bool) (vars : List Local) (r : RecordTy) : Entry → Prop
  | .fixed key stored value _ => key.Keyed stored ∧ stored.Fits deep r.key.storage ∧
    value.WellTyped deep vars ∧ value.type.Fits deep r.value.storage
  | .computed key value _ => key.WellTyped deep vars ∧ key.Yields deep r.key.storage ∧
    value.WellTyped deep vars ∧ value.type.Fits deep r.value.storage
  | .spread source _ => source.WellTyped deep vars ∧
    ((∃ k v, source.type = .record k v ∧ k.storage.Fits deep r.key.storage ∧
      v.storage.Fits deep r.value.storage) ∨ source.type = .any ∧ r = ⟨.any, .any⟩)

def Entry.AllWellTyped (deep : Bool) (vars : List Local) (r : RecordTy) : List Entry → Prop
  | [] => True
  | e :: rest => e.WellTyped deep vars r ∧ Entry.AllWellTyped deep vars r rest

/-- Items fit the element type as it is stored. -/
def Typed.AllWellTyped (deep : Bool) (vars : List Local) (t : Ty) : List Typed → Prop
  | [] => True
  | e :: rest => e.WellTyped deep vars ∧ e.type.Fits deep t.storage ∧
    Typed.AllWellTyped deep vars t rest

end

/-- Each initializer may use the locals declared before it, and declares a new name. -/
def Initializer.AllWellTyped (deep : Bool) (vars : List Local) : List Initializer → Prop
  | [] => True
  | i :: rest => i.value.WellTyped deep vars ∧ i.value.type.Fits deep i.target.type ∧
    i.target.name ∉ vars.map (·.name) ∧ AllWellTyped deep (vars ++ [i.target]) rest

/-- Locals that take the slots from one number up to another, each right after the one before. -/
def Local.Laid : Nat → List Local → Nat → Prop
  | first, [], free => first = free
  | first, x :: rest, free => x.slot = first ∧ Laid (first + x.type.stackKind.size) rest free

structure TypedUnit.WellTyped (deep : Bool) (u : TypedUnit) : Prop where
  initializers : Initializer.AllWellTyped deep [] u.initializers
  locals : u.locals.map (·.toLocal) = u.initializers.map (·.target)
  slots : Local.Laid 0 (u.initializers.map (·.target)) u.freeSlot
  body : u.body.WellTyped deep (u.initializers.map (·.target))
  result : u.body.type.Fits deep u.resultType

namespace Ty.Fits

variable {deep : Bool} {t t' t'' : Ty}

theorem refl (t : Ty) : t.Fits deep t := fun _ _ h => h

theorem trans (h : t.Fits deep t') (h' : t'.Fits deep t'') : t.Fits deep t'' :=
  fun s v hv => h' s v (h s v hv)

/-- A subtype fits: its values are values of the type above. -/
theorem of_isSubtype (h : t.isSubtype t' = true) : t.Fits deep t' :=
  fun _ _ hv => hv.of_isSubtype h

theorem array (h : t.storesInto t' = true) : (Ty.array t).Fits deep (.array t') :=
  of_isSubtype (show (Ty.array t).isSubtype (.array t') = true from h)

/-- What can be stored fits in its storage type. -/
theorem of_storesInto (h : t.storesInto t' = true) : t.storage.Fits deep t'.storage := by
  intro s v hv
  rw [Value.conforms_storage] at hv ⊢
  exact hv.of_storesInto h

/-- Every type has a value, and all values of a type travel alike. -/
theorem stackKind_eq (h : t.Fits deep t') : t.stackKind = t'.stackKind := by
  obtain ⟨v, hv⟩ : ∃ v : Value, v.Conforms deep .empty t := by
    cases t with
    | prim k =>
      cases k with
      | long => exact ⟨.long 0, trivial⟩
      | float => exact ⟨.float 0, trivial⟩
      | double => exact ⟨.double 0, trivial⟩
      | boolean => exact ⟨.int 0, .inl rfl⟩
      | _ => exact ⟨.int 0, rfl, by decide⟩
    | _ => exact ⟨.null, Value.kept_null ..⟩
  rw [← hv.stackKind, (h _ _ hv).stackKind]

end Ty.Fits

namespace Typed

variable {deep : Bool} {vars : List Local} {e : Typed} {t : Ty} {tag : Tag}

@[simp] theorem tag_withTag (tag : Tag) (e : Typed) : (e.withTag tag).tag = tag := by cases e <;> rfl

@[simp] theorem type_withTag (tag : Tag) (e : Typed) : (e.withTag tag).type = tag.type := by
  rw [type, tag_withTag]

@[simp] theorem type_moveTo (s : Span) (e : Typed) : (e.moveTo s).type = e.type :=
  type_withTag ..

namespace WellTyped

/-- A tree may be relabelled with any type that its own type fits. -/
theorem withTag (h : e.WellTyped deep vars) (hf : e.type.Fits deep tag.type) :
    (e.withTag tag).WellTyped deep vars := by
  cases e with
  | constant c tag' => exact fun s => hf s _ (h s)
  | read v tag' => exact ⟨h.1, h.2.trans hf⟩
  | convert e step tag' => exact ⟨h.1, h.2.1, h.2.2.trans hf⟩
  | arith op k l r tag' =>
    obtain ⟨h₁, h₂, h₃, h₄, h₅, h₆⟩ := h
    exact ⟨h₁, h₂, h₃, h₄, h₅, h₆.trans hf⟩
  | power l r tag' =>
    obtain ⟨h₁, h₂, h₃, h₄, h₅⟩ := h
    exact ⟨h₁, h₂, h₃, h₄, h₅.trans hf⟩
  | negate k e tag' =>
    obtain ⟨h₁, h₂, h₃, h₄⟩ := h
    exact ⟨h₁, h₂, h₃, h₄.trans hf⟩
  | complement k e tag' =>
    obtain ⟨h₁, h₂, h₃, h₄⟩ := h
    exact ⟨h₁, h₂, h₃, h₄.trans hf⟩
  | not e tag' => exact ⟨h.1, h.2.1, h.2.2.trans hf⟩
  | compare op mode l r tag' =>
    obtain ⟨h₁, h₂, h₃, h₄⟩ := h
    exact ⟨h₁, h₂, h₃, h₄.trans hf⟩
  | logical op l r tag' =>
    obtain ⟨h₁, h₂, h₃, h₄, h₅⟩ := h
    exact ⟨h₁, h₂, h₃, h₄, h₅.trans hf⟩
  | concat l r tag' =>
    obtain ⟨h₁, h₂, h₃, h₄, h₅⟩ := h
    exact ⟨h₁, h₂, h₃, h₄, h₅.trans hf⟩
  | update v delta before tag' =>
    obtain ⟨h₁, h₂, h₃, h₄⟩ := h
    exact ⟨h₁, h₂, h₃, h₄.trans hf⟩
  | assign v e tag' =>
    obtain ⟨h₁, h₂, h₃, h₄⟩ := h
    exact ⟨h₁, h₂, h₃, h₄.trans hf⟩
  | conditional t y n tag' =>
    obtain ⟨h₁, h₂, h₃, h₄, h₅, h₆⟩ := h
    exact ⟨h₁, h₂, h₃, h₄, h₅.trans hf, h₆.trans hf⟩
  | record plan entries tag' => exact ⟨h.1, h.2.trans hf⟩
  | list items tag' =>
    obtain ⟨t, h₁, h₂⟩ := h
    exact ⟨t, h₁, h₂.trans hf⟩

theorem moveTo (h : e.WellTyped deep vars) (s : Span) : (e.moveTo s).WellTyped deep vars :=
  h.withTag (.refl _)

end WellTyped

end Typed

end StackExpr
