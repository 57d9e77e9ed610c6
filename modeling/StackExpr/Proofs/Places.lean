import StackExpr.Compile

/-! Where the nodes of a typed tree stand has no part in what becomes of them.

Places go into error messages. With all of them taken back to the origin, an operator still answers
with the same node or an error of the same kind, and emission gives the same code. -/
namespace StackExpr

def Tag.unplaced (tag : Tag) : Tag := { tag with span := .origin }

def EntryTag.unplaced (tag : EntryTag) : EntryTag := { tag with span := .origin }

def PlanTag.unplaced (tag : PlanTag) : PlanTag := { tag with span := .origin }

mutual

def Typed.unplaced : Typed → Typed
  | .constant value tag => .constant value tag.unplaced
  | .read x tag => .read x tag.unplaced
  | .convert e c tag => .convert e.unplaced c tag.unplaced
  | .arith op k l r tag => .arith op k l.unplaced r.unplaced tag.unplaced
  | .power l r tag => .power l.unplaced r.unplaced tag.unplaced
  | .negate k e tag => .negate k e.unplaced tag.unplaced
  | .complement k e tag => .complement k e.unplaced tag.unplaced
  | .not e tag => .not e.unplaced tag.unplaced
  | .compare op mode l r tag => .compare op mode l.unplaced r.unplaced tag.unplaced
  | .logical op l r tag => .logical op l.unplaced r.unplaced tag.unplaced
  | .concat l r tag => .concat l.unplaced r.unplaced tag.unplaced
  | .update x delta before tag => .update x delta before tag.unplaced
  | .assign x e tag => .assign x e.unplaced tag.unplaced
  | .conditional test yes no tag =>
    .conditional test.unplaced yes.unplaced no.unplaced tag.unplaced
  | .record plan entries tag => .record plan.unplaced (Entry.allUnplaced entries) tag.unplaced
  | .list items tag => .list (Typed.allUnplaced items) tag.unplaced

def Typed.allUnplaced : List Typed → List Typed
  | [] => []
  | e :: rest => e.unplaced :: Typed.allUnplaced rest

def Entry.unplaced : Entry → Entry
  | .fixed key stored value tag => .fixed key stored value.unplaced tag.unplaced
  | .computed key value tag => .computed key.unplaced value.unplaced tag.unplaced
  | .spread source tag => .spread source.unplaced tag.unplaced

def Entry.allUnplaced : List Entry → List Entry
  | [] => []
  | e :: rest => e.unplaced :: Entry.allUnplaced rest

end

namespace Typed

@[simp] theorem tag_unplaced (e : Typed) : e.unplaced.tag = e.tag.unplaced := by cases e <;> rfl

@[simp] theorem type_unplaced (e : Typed) : e.unplaced.type = e.type := by
  rw [type, tag_unplaced]
  rfl

@[simp] theorem span_unplaced (e : Typed) : e.unplaced.span = .origin := by
  rw [span, tag_unplaced]
  rfl

@[simp] theorem unplaced_withTag (tag : Tag) (e : Typed) :
    (e.withTag tag).unplaced = e.unplaced.withTag tag.unplaced := by cases e <;> rfl

/-- Moved trees are the same but for their place. -/
@[simp] theorem unplaced_moveTo (s : Span) (e : Typed) : (e.moveTo s).unplaced = e.unplaced := by
  cases e <;> rfl

@[simp] theorem moveTo_unplaced (e : Typed) : e.unplaced.moveTo .origin = e.unplaced := by
  cases e <;> rfl

@[simp] theorem unplaced_step (e : Typed) (c : Conversion) :
    (e.step c).unplaced = e.unplaced.step c := by
  rw [step, step, span_unplaced]
  rfl

/-- Conversions are made for types and take no account of places. -/
@[simp] theorem unplaced_through (e : Typed) (steps : List Conversion) :
    (e.through steps).unplaced = e.unplaced.through steps := by
  induction steps generalizing e with
  | nil => rfl
  | cons c rest ih =>
    change ((e.step c).through rest).unplaced = (e.unplaced.step c).through rest
    rw [ih, unplaced_step]

@[simp] theorem unplaced_boxed (e : Typed) : e.boxed.unplaced = e.unplaced.boxed := by
  rw [boxed, boxed, unplaced_through, type_unplaced]

@[simp] theorem isStringConstant_unplaced (e : Typed) :
    e.unplaced.isStringConstant = e.isStringConstant := by
  cases e with
  | constant value tag => cases value <;> rfl
  | _ => rfl

@[simp] theorem unplaced_stringified (e : Typed) :
    e.stringified.unplaced = e.unplaced.stringified := by
  rw [stringified, stringified, isStringConstant_unplaced, type_unplaced]
  split
  · rfl
  · exact unplaced_through ..

@[simp] theorem innermost?_unplaced (e : Typed) : e.unplaced.innermost? = e.innermost? := by
  cases e with
  | convert operand c tag => exact innermost?_unplaced operand
  | _ => rfl

/-- What can be assigned can be assigned from any place. -/
theorem assignTo?_unplaced (target : Ty) (e : Typed) :
    e.unplaced.assignTo? target = (e.assignTo? target).map unplaced := by
  rw [assignTo?, assignTo?, type_unplaced, Option.map_map]
  congr 1
  funext steps
  exact (unplaced_through e steps).symm

theorem unplaced_ofWhole (value : Int64) (s : Span) :
    (ofWhole value s).unplaced = ofWhole value .origin := by
  rw [ofWhole, ofWhole]
  split <;> rfl

/-- Items have the same type in common, wherever they stand. -/
theorem commonType_unplaced (es : List Typed) :
    commonType (allUnplaced es) = commonType es := by
  have hall : ∀ (t : Ty) (rest : List Typed),
      (allUnplaced rest).all (·.type == t) = rest.all (·.type == t) := by
    intro t rest
    induction rest with
    | nil => rfl
    | cons e rest ih => rw [allUnplaced, List.all_cons, List.all_cons, type_unplaced, ih]
  cases es with
  | nil => rfl
  | cons e rest => rw [allUnplaced, commonType, commonType, type_unplaced, hall]

end Typed

namespace Check

/-- The second answer is the first one seen through `f`, or both are errors of one kind. -/
inductive Agrees {α β : Type} (f : α → β) :
    Except CheckError α → Except CheckError β → Prop
  | ok {a : α} {b : β} (h : f a = b) : Agrees f (.ok a) (.ok b)
  | error {e e' : CheckError} (h : e.kind = e'.kind) : Agrees f (.error e) (.error e')

namespace Agrees

variable {α β γ δ : Type} {f : α → β} {g : γ → δ} {x : Except CheckError α}
  {y : Except CheckError β} {k : α → Except CheckError γ} {l : β → Except CheckError δ}

/-- Answers that agree lead to answers that agree. -/
theorem bind (h : Agrees f x y) (hk : ∀ a, Agrees g (k a) (l (f a))) :
    Agrees g (x >>= k) (y >>= l) := by
  cases h with
  | ok h =>
    subst h
    exact hk _
  | error h => exact .error h

theorem ok_left {a : α} (h : Agrees f x y) (hx : x = .ok a) : y = .ok (f a) := by
  cases h with
  | ok h =>
    cases hx
    rw [h]
  | error => cases hx

/-- Of two answers that agree either both are accepted or neither is. -/
theorem exists_ok (h : Agrees f x y) : (∃ a, x = .ok a) ↔ ∃ b, y = .ok b := by
  cases h <;> simp

end Agrees

end Check

namespace Typed

open Check (Agrees)

theorem agrees_ofPower (l r : Typed) (s : Span) :
    Agrees unplaced (ofPower l r s) (ofPower l.unplaced r.unplaced .origin) := by
  simp only [ofPower, type_unplaced]
  split
  · apply Agrees.ok
    simp [unplaced, Tag.unplaced]
  · exact .error rfl

theorem unplaced_ofCoercion (op : BinaryOp) (c : Coercion) (l r : Typed) (s : Span) :
    (ofCoercion op c l r s).unplaced = ofCoercion op c l.unplaced r.unplaced .origin := by
  unfold ofCoercion
  split <;> rfl

/-- An operator answers alike for operands at any place. There is one lemma for each of the
checker's operators. -/
theorem agrees_ofBinary (op : BinaryOp) (l r : Typed) (s : Span) :
    Agrees unplaced (ofBinary op l r s) (ofBinary op l.unplaced r.unplaced .origin) := by
  unfold ofBinary
  simp only [type_unplaced]
  cases op.category? with
  | none => exact .error rfl
  | some category =>
    dsimp only
    split
    · apply Agrees.ok
      simp [unplaced, Tag.unplaced]
    split
    · exact agrees_ofPower l r s
    cases category.coerce? l.type r.type with
    | none => exact .error rfl
    | some c =>
      apply Agrees.ok
      rw [unplaced_ofCoercion, unplaced_through, unplaced_through]

theorem agrees_ofUnary (op : UnaryOp) (e : Typed) (s : Span) :
    Agrees unplaced (ofUnary op e s) (ofUnary op e.unplaced .origin) := by
  unfold ofUnary
  simp only [type_unplaced]
  cases op with
  | typeOf | void | delete => exact .error rfl
  | not =>
    dsimp only
    split
    · apply Agrees.ok
      simp [unplaced, Tag.unplaced]
    · exact .error rfl
  | plus =>
    dsimp only
    cases promoted? Kind.isNumeric e.type with
    | none => exact .error rfl
    | some p =>
      apply Agrees.ok
      rw [unplaced_moveTo, unplaced_through, ← unplaced_through, moveTo_unplaced]
  | minus =>
    dsimp only
    cases promoted? Kind.isNumeric e.type with
    | none => exact .error rfl
    | some p =>
      apply Agrees.ok
      simp [unplaced, Tag.unplaced]
  | complement =>
    dsimp only
    cases promoted? Kind.isIntegral e.type with
    | none => exact .error rfl
    | some p =>
      apply Agrees.ok
      simp [unplaced, Tag.unplaced]

theorem agrees_ofUpdate (op : UpdateOp) (before : Bool) (x : Local) (s : Span) :
    Agrees unplaced (ofUpdate op before x s) (ofUpdate op before x .origin) := by
  unfold ofUpdate
  split
  · exact .ok rfl
  · exact .error rfl

theorem agrees_ofCompound (op : AssignOp) (binary : BinaryOp) (x : Local) (readAt : Span)
    (value : Typed) (s : Span) :
    Agrees unplaced (ofCompound op binary x readAt value s)
      (ofCompound op binary x .origin value.unplaced .origin) := by
  apply (agrees_ofBinary binary (read x ⟨x.type, readAt⟩) value s).bind
  intro combined
  simp only [type_unplaced]
  cases compoundSteps? combined.type x.type with
  | none => exact .error rfl
  | some steps =>
    apply Agrees.ok
    simp [unplaced, Tag.unplaced]

theorem agrees_ofTest (test : Typed) : Agrees unplaced (ofTest test) (ofTest test.unplaced) := by
  simp only [ofTest, type_unplaced]
  split
  · exact .ok (unplaced_through ..)
  · exact .error rfl

theorem agrees_ofBranches (test yes no : Typed) (s : Span) :
    Agrees unplaced (ofBranches test yes no s)
      (ofBranches test.unplaced yes.unplaced no.unplaced .origin) := by
  simp only [ofBranches, type_unplaced]
  cases yes.type.unify? no.type with
  | none => exact .error rfl
  | some found =>
    apply Agrees.ok
    simp [unplaced, Tag.unplaced]

theorem agrees_ofCast (e : Typed) (target : Ty) (s : Span) :
    Agrees unplaced (ofCast e target s) (ofCast e.unplaced target .origin) := by
  simp only [ofCast, type_unplaced]
  cases e.type.cast? target with
  | none => exact .error rfl
  | some steps =>
    apply Agrees.ok
    rw [unplaced_withTag, unplaced_through]
    rfl

end Typed

namespace Emit

mutual

/-- Emission gives the same code for a tree without places. -/
theorem expr_unplaced (o : Options) (e : Typed) : expr o e.unplaced = expr o e := by
  cases e with
  | constant | read | update => rfl
  | convert operand c tag =>
    rw [Typed.unplaced, expr, expr, expr_unplaced o operand, Typed.type_unplaced]
  | negate k operand tag | complement k operand tag | not operand tag | assign x operand tag =>
    rw [Typed.unplaced, expr, expr, expr_unplaced o operand]
  | arith op k left right tag | power left right tag | logical op left right tag
  | concat left right tag =>
    rw [Typed.unplaced, expr, expr, expr_unplaced o left, expr_unplaced o right]
  | compare op mode left right tag =>
    rw [Typed.unplaced, expr, expr, expr_unplaced o left, expr_unplaced o right,
      Typed.type_unplaced]
  | conditional test yes no tag =>
    rw [Typed.unplaced, expr, expr, expr_unplaced o test, expr_unplaced o yes, expr_unplaced o no]
  | record tags entries tag => rw [Typed.unplaced, expr, expr, plan_unplaced o entries]
  | list items tag => rw [Typed.unplaced, expr, expr, elements_unplaced o items]

theorem elements_unplaced (o : Options) (items : List Typed) :
    elements o (Typed.allUnplaced items) = elements o items := by
  cases items with
  | nil => rfl
  | cons e rest =>
    rw [Typed.allUnplaced, elements, elements, expr_unplaced o e, elements_unplaced o rest]

theorem planEntry_unplaced (o : Options) (e : Entry) : planEntry o e.unplaced = planEntry o e := by
  cases e with
  | fixed key stored value tag =>
    rw [Entry.unplaced, planEntry, planEntry, expr_unplaced o value]
  | computed key value tag =>
    rw [Entry.unplaced, planEntry, planEntry, expr_unplaced o key, expr_unplaced o value]
  | spread source tag =>
    rw [Entry.unplaced, planEntry, planEntry, expr_unplaced o source, Typed.type_unplaced]

theorem plan_unplaced (o : Options) (entries : List Entry) :
    plan o (Entry.allUnplaced entries) = plan o entries := by
  cases entries with
  | nil => rfl
  | cons e rest =>
    rw [Entry.allUnplaced, plan, plan, planEntry_unplaced o e, plan_unplaced o rest]

end

end Emit

def LocalDecl.unplaced (x : LocalDecl) : LocalDecl := { x with span := .origin }

def Initializer.unplaced (i : Initializer) : Initializer := { i with value := i.value.unplaced }

def TypedUnit.unplaced (u : TypedUnit) : TypedUnit :=
  { u with
    locals := u.locals.map LocalDecl.unplaced
    initializers := u.initializers.map Initializer.unplaced
    body := u.body.unplaced }

namespace Emit

theorem initializers_unplaced (o : Options) (is : List Initializer) :
    initializers o (is.map Initializer.unplaced) = initializers o is := by
  induction is with
  | nil => rfl
  | cons i rest ih =>
    have hvalue : expr o i.unplaced.value = expr o i.value := expr_unplaced o i.value
    rw [List.map_cons, initializers, initializers, ih, hvalue]
    rfl

theorem unitCode_unplaced (o : Options) (u : TypedUnit) : unitCode o u.unplaced = unitCode o u := by
  unfold unitCode TypedUnit.unplaced
  dsimp only
  rw [initializers_unplaced, expr_unplaced]

/-- The place that a fault of the heights names is all that depends on the places of the tree. -/
theorem unit_unplaced (o : Options) (u : TypedUnit) :
    (unit o u.unplaced).mapError (fun f => (f.position, f.problem)) =
      (unit o u).mapError fun f => (f.position, f.problem) := by
  have hbody : u.unplaced.body.type = u.body.type := Typed.type_unplaced u.body
  have hlocals : u.unplaced.locals.map (·.toLocal) = u.locals.map (·.toLocal) := by
    simp [TypedUnit.unplaced, LocalDecl.unplaced]
  have hfree : u.unplaced.freeSlot = u.freeSlot := rfl
  have hresult : u.unplaced.resultType = u.resultType := rfl
  rcases hran : (unitCode o u).run (.start u.freeSlot) with ⟨code, s⟩
  simp only [unit, unitCode_unplaced, hbody, hlocals, hfree, hresult, hran]
  cases o.verify with
  | false => rfl
  | true => cases (measureHeights code s.pool u.body.type.stackKind.size).problem <;> rfl

end Emit
end StackExpr
