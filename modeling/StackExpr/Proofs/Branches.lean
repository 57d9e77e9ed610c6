import StackExpr.Compile
import StackExpr.Proofs.Conversions

/-! Two branches always have a type in common.

It is the same type, or one that the same values have, whichever branch comes first. So a
conditional is never refused for its branches, however deep it stands in a unit. -/
namespace StackExpr

/-- Promotion does not ask which operand comes first. -/
theorem Kind.binaryPromote?_swap (j k : Kind) : j.binaryPromote? k = k.binaryPromote? j := by
  cases j <;> cases k <;> rfl

namespace Ty

variable {a b t : Ty} {j k : Kind}

/-- The greater of two references, or `Object` if neither is. -/
def join (a b : Ty) : Ty :=
  if a.storage.isSubtype b.storage then b.storage
  else if b.storage.isSubtype a.storage then a.storage
  else any

/-- The kind that two numbers are promoted to. -/
def promotion? (a b : Ty) : Option Kind := do (← a.kind?).binaryPromote? (← b.kind?)

/-- Numbers meet in their promotion, booleans in the primitive, and all else in the greater
reference. -/
def common (a b : Ty) : Ty :=
  if a = b then a
  else
    match a.promotion? b with
    | some k => prim k
    | none => if a.isBoolean && b.isBoolean then prim .boolean else a.join b

/-- Either type is below the common reference. -/
theorem storage_isSubtype_join_left (a b : Ty) : a.storage.isSubtype (a.join b) = true := by
  unfold join
  split_ifs with hab hba
  · exact hab
  · exact isSubtype_refl _
  · exact isSubtype_any_iff.mpr (isPrimitive_storage a)

theorem storage_isSubtype_join_right (a b : Ty) : b.storage.isSubtype (a.join b) = true := by
  unfold join
  split_ifs with hab hba
  · exact isSubtype_refl _
  · exact hba
  · exact isSubtype_any_iff.mpr (isPrimitive_storage b)

/-- Of types below each other the one or the other is taken. -/
theorem join_isSubtype_swap (a b : Ty) : (a.join b).isSubtype (b.join a) = true := by
  unfold join
  split_ifs with hab hba hba
  · exact hba
  all_goals exact isSubtype_refl _

/-- Next to `null` the other branch decides. -/
theorem join_null_left (b : Ty) : null.join b = b.storage :=
  if_pos (null_isSubtype_iff.mpr (isPrimitive_storage b))

theorem join_null_right (a : Ty) : a.join null = a.storage := by
  unfold join
  split_ifs with ha hnull
  · cases a <;> first | rfl | cases ha
  · rfl
  · exact absurd (null_isSubtype_iff.mpr (isPrimitive_storage a)) hnull

theorem promotion?_swap (a b : Ty) : a.promotion? b = b.promotion? a := by
  simp only [promotion?]
  cases a.kind? with
  | none => cases b.kind? <;> rfl
  | some j =>
    cases b.kind? with
    | none => rfl
    | some k => exact j.binaryPromote?_swap k

theorem promotion?_eq_none (h : ¬(a.isNumeric && b.isNumeric) = true) : a.promotion? b = none := by
  cases hp : a.promotion? b with
  | none => rfl
  | some k =>
    simp only [promotion?, bind, Option.bind_eq_some_iff] at hp
    obtain ⟨i, hi, j, hj, hk⟩ := hp
    obtain ⟨hni, hnj, -⟩ := Kind.binaryPromote?_eq_some hk
    simp [isNumeric, hi, hj, hni, hnj] at h

/-- Turned around, branches have a common type that the same values have. -/
theorem common_isSubtype_swap (a b : Ty) : (a.common b).isSubtype (b.common a) = true := by
  by_cases hab : a = b
  · subst hab
    exact isSubtype_refl _
  rw [common, common, if_neg hab, if_neg (Ne.symm hab), promotion?_swap b a,
    Bool.and_comm b.isBoolean]
  cases a.promotion? b with
  | some k => exact isSubtype_refl _
  | none =>
    dsimp only
    split_ifs
    · exact isSubtype_refl _
    · exact join_isSubtype_swap a b

example : (array (prim .int)).common (array (boxed .int)) = array (boxed .int) ∧
    (array (boxed .int)).common (array (prim .int)) = array (prim .int) := by decide

/-- What is stored below a type can be assigned to it. -/
theorem exists_assign? (h : a.storage.isSubtype t = true) : ∃ steps, a.assign? t = some steps := by
  cases a with
  | prim k => exact ⟨_, assign?_of_boxed_isSubtype h⟩
  | _ => exact ⟨_, assign?_of_isSubtype h⟩

/-- What is neither two numbers nor two booleans meets in the greater reference, `null` included. -/
theorem exists_unify?_join (hab : a ≠ b) (hn : ¬(a.isNumeric && b.isNumeric) = true)
    (hb : ¬(a.isBoolean && b.isBoolean) = true) :
    ∃ left right, a.unify? b = some (a.join b, left, right) := by
  obtain ⟨left, hl⟩ := exists_assign? (storage_isSubtype_join_left a b)
  obtain ⟨right, hr⟩ := exists_assign? (storage_isSubtype_join_right a b)
  unfold unify?
  rw [if_neg hab, if_neg hn, if_neg hb]
  by_cases hna : a.isNull = true
  · obtain rfl : a = .null := by simpa [isNull] using hna
    rw [join_null_left] at hr ⊢
    exact ⟨[], right, by simp [hna, hr]⟩
  by_cases hnb : b.isNull = true
  · obtain rfl : b = .null := by simpa [isNull] using hnb
    rw [join_null_right] at hl ⊢
    exact ⟨left, [], by simp [hna, hnb, hl]⟩
  rw [if_neg hna, if_neg hnb]
  refine ⟨left, right, ?_⟩
  change (do return (a.join b, ← a.assign? (a.join b), ← b.assign? (a.join b))) = _
  rw [hl, hr]
  rfl

/-- No step on the way to the common type can fail. -/
theorem exists_unify? (a b : Ty) : ∃ left right, a.unify? b = some (a.common b, left, right) := by
  by_cases hab : a = b
  · exact ⟨[], [], by rw [unify?, common, if_pos hab, if_pos hab]⟩
  by_cases hn : (a.isNumeric && b.isNumeric) = true
  · obtain ⟨hna, hnb⟩ := Bool.and_eq_true_iff.mp hn
    obtain ⟨i, hi, hni⟩ := exists_kind_of_isNumeric hna
    obtain ⟨j, hj, hnj⟩ := exists_kind_of_isNumeric hnb
    obtain ⟨k, hk⟩ := Kind.exists_binaryPromote? hni hnj
    obtain ⟨left, hl⟩ := exists_toPrimitive? hi k
    obtain ⟨right, hr⟩ := exists_toPrimitive? hj k
    exact ⟨left, right, by simp [unify?, common, promotion?, hab, hn, hi, hj, hk, hl, hr]⟩
  rw [common, if_neg hab, promotion?_eq_none hn]
  by_cases hb : (a.isBoolean && b.isBoolean) = true
  · obtain ⟨hba, hbb⟩ := Bool.and_eq_true_iff.mp hb
    obtain ⟨left, hl⟩ := exists_toPrimitive? (kind?_of_isBoolean hba) .boolean
    obtain ⟨right, hr⟩ := exists_toPrimitive? (kind?_of_isBoolean hbb) .boolean
    exact ⟨left, right, by simp [unify?, hab, hn, hb, hl, hr]⟩
  · rw [if_neg hb]
    exact exists_unify?_join hab hn hb

end Ty

def CheckError.isBranches : CheckError → Bool
  | typeMismatch .branches _ _ _ => true
  | _ => false

def Site.isBranches : Site → Bool
  | place .branches => true
  | _ => false

/-- Accepted, or refused for something other than the branches of a conditional. -/
inductive Check.SparesBranches {α : Type} : Except CheckError α → Prop
  | ok (a : α) : SparesBranches (.ok a)
  | error {e : CheckError} (h : e.isBranches = false) : SparesBranches (.error e)

namespace Check.SparesBranches

variable {α β : Type} {x : Except CheckError α} {f : α → Except CheckError β}

/-- Two steps are refused for no branches if neither of them is. -/
theorem bind (h : SparesBranches x) (hf : ∀ a, SparesBranches (f a)) :
    SparesBranches (x >>= f) := by
  cases h with
  | ok a => exact hf a
  | error he => exact .error he

/-- What is made of an accepted part is accepted. -/
theorem map (h : SparesBranches x) (g : α → β) : SparesBranches (do return g (← x)) :=
  h.bind fun a => .ok (g a)

end Check.SparesBranches

open Check (SparesBranches)

namespace Typed

variable (e l r : Typed) (s : Span)

theorem spares_ofBinary (op : BinaryOp) : SparesBranches (ofBinary op l r s) := by
  unfold ofBinary ofPower
  split
  · exact .error rfl
  split_ifs
  · exact .ok _
  all_goals
    split
    · exact .ok _
    · exact .error rfl

theorem spares_ofUnary (op : UnaryOp) : SparesBranches (ofUnary op e s) := by
  cases op with
  | typeOf | void | delete => exact .error rfl
  | not | plus | minus | complement =>
    simp only [ofUnary]
    split
    · exact .ok _
    · exact .error rfl

theorem spares_ofUpdate (op : UpdateOp) (before : Bool) (x : Local) :
    SparesBranches (ofUpdate op before x s) := by
  unfold ofUpdate
  split
  · exact .ok _
  · exact .error rfl

theorem spares_ofCompound (op : AssignOp) (binary : BinaryOp) (x : Local) (readAt : Span) :
    SparesBranches (ofCompound op binary x readAt e s) := by
  refine (spares_ofBinary _ e s binary).bind fun combined => ?_
  split
  · exact .ok _
  · exact .error rfl

theorem spares_ofTest : SparesBranches (ofTest e) := by
  unfold ofTest
  split
  · exact .ok _
  · exact .error rfl

/-- Branches always have a type in common, so the check of them never fails. -/
theorem spares_ofBranches (test : Typed) : SparesBranches (ofBranches test l r s) := by
  obtain ⟨left, right, hu⟩ := Ty.exists_unify? l.type r.type
  simp only [ofBranches, hu]
  exact .ok _

theorem spares_ofCast (target : Ty) : SparesBranches (ofCast e target s) := by
  unfold ofCast
  split
  · exact .ok _
  · exact .error rfl

end Typed

namespace Scope

theorem spares_read (scope : Scope) (name : String) (s : Span) :
    SparesBranches (scope.read name s) := by
  unfold read lookup
  cases scope.find? name with
  | none => exact .error rfl
  | some found => exact .ok _

theorem spares_target (scope : Scope) (e : Expr) : SparesBranches (scope.target e) := by
  unfold target lookup
  split
  · next name _ _ =>
    cases scope.find? name with
    | none => exact .error rfl
    | some found => exact .ok _
  · exact .error rfl

theorem spares_declare (scope : Scope) (name : String) (t : Ty) (s : Span) :
    SparesBranches (scope.declare name t s) := by
  unfold declare
  split
  · exact .error rfl
  · exact .ok _

end Scope

theorem Key.spares_constant (key : Key) (declared : Ty) :
    SparesBranches (key.constant declared) := by
  unfold Key.constant
  split
  · split
    · exact .ok _
    · exact .error rfl
  · split_ifs
    · exact .ok _
    · exact .error rfl

namespace Check

variable {scope : Scope} {e : Expr} {checked : Except CheckError Typed}

/-- A mismatch is one of branches only if it is reported at their place. -/
theorem isBranches_mismatch (site : Site) (expected found : Ty) (s : Span) :
    (site.mismatch expected found s).isBranches = site.isBranches := by
  cases site with
  | place p => cases p <;> rfl
  | key | value => rfl

/-- Fitting a value to a place other than a branch reports that place. -/
theorem spares_fit (target : Ty) (site : Site) (hs : site.isBranches = false)
    (h : SparesBranches checked) :
    SparesBranches (fit e target site checked) := by
  unfold fit
  split
  · exact .ok _
  · refine h.bind fun typed => ?_
    split
    · exact .ok _
    · exact .error ((isBranches_mismatch ..).trans hs)

theorem spares_fitElement (declared : Ty) (site : Site) (hs : site.isBranches = false)
    (h : SparesBranches checked) : SparesBranches (fitElement e declared site checked) := by
  refine (spares_fit _ site hs h).bind fun typed => ?_
  split
  · exact .error ((isBranches_mismatch ..).trans hs)
  · exact .ok _

theorem spares_fitPropertyKey (constraint : Option RecordTy) (label : String)
    (h : SparesBranches checked) :
    SparesBranches (fitPropertyKey constraint label e checked) := by
  cases constraint with
  | none => exact h.map _
  | some c =>
    refine (spares_fit _ (.key label c.key) rfl h).bind fun typed => ?_
    split
    · exact .error rfl
    · exact .ok _

theorem spares_fitPropertyValue (constraint : Option RecordTy) (label : String)
    (h : SparesBranches checked) :
    SparesBranches (fitPropertyValue constraint label e checked) := by
  cases constraint with
  | none => exact h.map _
  | some c =>
    unfold fitPropertyValue fitValue
    dsimp only
    split
    · exact .error rfl
    · exact h.map _
    · exact spares_fit _ (.value label c.value) rfl h

theorem spares_rejectMembers (ps : List Property) : SparesBranches (rejectMembers ps) := by
  fun_induction rejectMembers ps with
  | case1 => exact .ok _
  | case2 | case3 => exact .error rfl
  | case4 _ _ _ _ _ _ ih => exact ih
  | case5 _ _ _ _ ih => exact ih

theorem spares_spreadTypes (constraint : Option RecordTy) (t : Ty) (sourceSpan s : Span) :
    SparesBranches (spreadTypes constraint t sourceSpan s) := by
  unfold spreadTypes
  split
  · split_ifs
    · exact .error rfl
    · exact .error rfl
    · exact .ok _
  · exact .ok _
  · exact .error rfl
  · exact .ok _
  · exact .error rfl

theorem isBranches_valueHint (constraint : Option RecordTy) (label : String) :
    (valueHint constraint label).elements.isBranches = false := by
  cases constraint with
  | none => rfl
  | some c =>
    rcases c with ⟨_, value⟩
    cases value <;> rfl

theorem isBranches_keyHint (constraint : Option RecordTy) :
    (keyHint constraint).elements.isBranches = false := by
  cases constraint <;> rfl

theorem isBranches_spreadHint (constraint : Option RecordTy) (e : Expr) :
    (spreadHint constraint e).elements.isBranches = false := by
  cases constraint with
  | none => rfl
  | some c =>
    unfold spreadHint
    cases isObject e <;> rfl

mutual

/-- No expression is refused for the branches of a conditional. The elements of a list answer to the
place the hint names, which is never that of branches. -/
theorem spares_expr (e : Expr) (hint : Hint) (hh : hint.elements.isBranches = false) :
    SparesBranches (expr scope hint e) := by
  cases e with
  | int value s =>
    unfold expr
    exact .ok _
  | float | string | boolean | null => exact .ok _
  | symbol => exact .error rfl
  | var name s => exact scope.spares_read name s
  | binary op left right extent _ =>
    unfold expr
    split
    · exact .error rfl
    · refine (spares_expr left .none rfl).bind fun l => ?_
      exact (spares_expr right .none rfl).bind fun r => l.spares_ofBinary r extent op
  | unary op operand extent _ =>
    unfold expr
    split
    · exact .error rfl
    · exact .error rfl
    · exact .error rfl
    · exact (spares_expr operand .none rfl).bind fun typed => typed.spares_ofUnary extent op
  | update op before target extent _ =>
    exact (scope.spares_target target).bind fun x => Typed.spares_ofUpdate extent op before x
  | assign op target value extent _ =>
    refine (scope.spares_target target).bind fun x => ?_
    split
    · have hvalue := spares_expr value (.of x.type) rfl
      exact (spares_fit x.type (.place (.assignment x.name)) rfl hvalue).map _
    · refine (spares_expr value .none rfl).bind fun v => ?_
      exact v.spares_ofCompound extent op _ x target.span
  | conditional test yes no extent _ =>
    refine (spares_expr test .none rfl).bind fun typed => typed.spares_ofTest.bind fun t => ?_
    refine (spares_expr yes hint.branch rfl).bind fun y => ?_
    refine (spares_expr no hint.branch rfl).bind fun n => ?_
    exact Typed.spares_ofBranches y n extent t
  | cast operand target extent _ =>
    unfold expr
    split
    · exact .error rfl
    · exact (spares_expr operand (.of _) rfl).bind fun typed => typed.spares_ofCast extent _
  | object ps extent _ =>
    refine (spares_rejectMembers ps).bind fun _ => ?_
    exact (spares_properties hint.record? 0 ps).map _
  | array items extent _ =>
    unfold expr
    split
    · exact (spares_elements _ _ hh items).map _
    · exact (spares_freeElements items).map _
  | paren inner s => exact (spares_expr inner hint hh).map _

theorem spares_elements (declared : Ty) (site : Site) (hs : site.isBranches = false)
    (items : List Expr) : SparesBranches (elements scope declared site items) := by
  cases items with
  | nil => exact .ok _
  | cons e rest =>
    refine (spares_fitElement declared site hs (spares_expr e (.of _) rfl)).bind fun typed => ?_
    exact (spares_elements declared site hs rest).map _

theorem spares_freeElements (items : List Expr) :
    SparesBranches (freeElements scope items) := by
  cases items with
  | nil => exact .ok _
  | cons e rest =>
    exact (spares_expr e .none rfl).bind fun typed => (spares_freeElements rest).map _

theorem spares_property (constraint : Option RecordTy) (order : Nat) (p : Property) :
    SparesBranches (property scope constraint order p) := by
  cases p with
  | keyed key value s =>
    have hvalue : ∀ label, SparesBranches (fitPropertyValue constraint label value
        (expr scope (valueHint constraint label) value)) := fun label =>
      spares_fitPropertyValue _ _ (spares_expr value _ (isBranches_valueHint constraint label))
    cases key with
    | computed source keySpan =>
      refine (spares_fitPropertyKey _ _ (spares_expr source _ (isBranches_keyHint constraint))).bind
        fun k => ?_
      exact (hvalue _).map _
    | _ => exact (Key.spares_constant ..).bind fun k => (hvalue _).map _
  | shorthand name s =>
    refine (Key.spares_constant ..).bind fun k => ?_
    exact (spares_fitPropertyValue _ _ (scope.spares_read name s)).map _
  | spread source s =>
    refine (spares_expr source _ (isBranches_spreadHint constraint source)).bind fun typed => ?_
    exact (spares_spreadTypes ..).map _
  | member => exact .error rfl

theorem spares_properties (constraint : Option RecordTy) (order : Nat) (ps : List Property) :
    SparesBranches (properties scope constraint order ps) := by
  cases ps with
  | nil => exact .ok _
  | cons p rest =>
    exact (spares_property constraint order p).bind fun entry =>
      (spares_properties constraint (order + 1) rest).map _

end

theorem spares_declarationValue (d : Declaration) : SparesBranches (declarationValue scope d) := by
  unfold declarationValue
  split
  · exact .error rfl
  · refine (spares_expr _ .none rfl).bind fun value => ?_
    split
    · exact .error rfl
    · exact .ok _
  · split
    · exact .error rfl
    · split
      · exact (spares_fit _ (.place (.initializer d.name)) rfl (spares_expr _ (.of _) rfl)).map _
      · exact .ok _

/-- Declarations and bodies are refused for no branches since no expression is. -/
theorem spares_declarations (ds : List Declaration) :
    SparesBranches (declarations scope ds) := by
  induction ds generalizing scope with
  | nil => exact .ok _
  | cons d rest ih =>
    refine SparesBranches.bind ?_ fun first => ih.map _
    exact (spares_declarationValue d).bind fun value => (scope.spares_declare ..).map _

theorem spares_body (e : Expr) (returns : Option TypeExpr) :
    SparesBranches (body scope e returns) := by
  unfold body
  split
  · exact (spares_expr e .none rfl).map _
  · split
    · exact .error rfl
    · exact (spares_fit _ (.place .result) rfl (spares_expr e (.of _) rfl)).map _

theorem spares_unit (u : SourceUnit) : SparesBranches (unit u) :=
  (spares_declarations u.declarations).bind fun _ => (spares_body u.body u.returns).map _

end Check

/-- The steps of each branch lead from its type to the common type or below it. The order of the
branches changes nothing but the choice between types that are below each other. There is no pair of
branches without a common type, so no unit is refused for one. -/
theorem branches_unify :
    (∀ a b : Ty, ∃ left right left' right',
      a.unify? b = some (a.common b, left, right) ∧
      a.Arrives false left (a.common b) ∧ b.Arrives false right (a.common b) ∧
      b.unify? a = some (b.common a, left', right') ∧
      (a.common b).isSubtype (b.common a) = true ∧ (b.common a).isSubtype (a.common b) = true) ∧
    ∀ o u expected found span,
      compile o u ≠ .error (.check (.typeMismatch .branches expected found span)) := by
  refine ⟨fun a b => ?_, fun o u expected found span h => ?_⟩
  · obtain ⟨left, right, h⟩ := Ty.exists_unify? a b
    obtain ⟨left', right', h'⟩ := Ty.exists_unify? b a
    obtain ⟨hl, hr⟩ := Ty.arrives_unify? h
    exact ⟨left, right, left', right', h, hl, hr, h', Ty.common_isSubtype_swap a b,
      Ty.common_isSubtype_swap b a⟩
  · unfold compile at h
    split at h
    · next e he =>
      cases h
      have hspared := Check.spares_unit u
      rw [he] at hspared
      cases hspared with
      | error hne => cases hne
    · split at h <;> cases h

end StackExpr
