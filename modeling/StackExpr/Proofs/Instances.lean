import StackExpr.Proofs.Execution

/-! Classes of the values that typed trees evaluate to.

A value of a reference type is an instance of the type's class, with one exception: `Character` is
a subtype of `Number`, but no instance of its class. What is said of classes here holds of every
name, where conformance knows only the types that are built in. -/
namespace StackExpr

namespace Value

def isCharacter : Value → Bool
  | boxed w => w.kind == .char
  | _ => false

/-- An instance of the class of a type, or a `Character` that is taken for a number. -/
def Belongs (v : Value) : Ty → Prop
  | .prim _ => True
  | .null => v = null
  | t => v.isInstance t.className = true ∨ t = .number ∧ v.isCharacter = true

variable {v w : Value} {t t' : Ty} {k : Kind}

theorem isInstance_object (v : Value) : v.isInstance ClassName.object = true := by
  cases v <;> rfl

theorem belongs_of_isPrimitive (h : t.isPrimitive = true) : v.Belongs t := by
  cases t with
  | prim k => trivial
  | _ => cases h

/-- The value `null` belongs to every type. -/
theorem belongs_null (t : Ty) : null.Belongs t := by
  cases t with
  | prim k => trivial
  | null => rfl
  | _ => exact .inl rfl

theorem belongs_of_isInstance (hn : t ≠ .null) (h : v.isInstance t.className = true) :
    v.Belongs t := by
  cases t with
  | prim k => trivial
  | null => exact absurd rfl hn
  | _ => exact .inl h

theorem belongs_any (v : Value) : v.Belongs .any := .inl v.isInstance_object

/-- Only `null` and the wrappers of its kind belong to a wrapper type. -/
theorem Belongs.eq_boxed (h : v.Belongs (.boxed k)) :
    v = null ∨ ∃ w, v = boxed w ∧ w.kind = k := by
  rcases h with h | ⟨h, -⟩
  · exact eq_boxed_of_isInstance h
  · cases h

theorem belongs_boxed {w : Wrapper} : (boxed w).Belongs (.boxed w.kind) := by
  refine .inl ?_
  cases w <;> rfl

/-- Whether a wrapper counts as a number turns on its kind alone. -/
theorem belongs_number {w : Wrapper} (h : w.kind.isNumeric = true) : (boxed w).Belongs .number := by
  cases w with
  | char c => exact .inr ⟨rfl, rfl⟩
  | boolean b => cases h
  | _ => exact .inl rfl

/-- All records are of one class, whatever their keys and values. -/
theorem Belongs.record {key value key' value' : Ty} (h : v.Belongs (.record key value)) :
    v.Belongs (.record key' value') := by
  rcases h with h | ⟨h, -⟩
  · exact .inl h
  · cases h

theorem Belongs.array {element element' : Ty} (h : v.Belongs (.array element)) :
    v.Belongs (.array element') := by
  rcases h with h | ⟨h, -⟩
  · exact .inl h
  · cases h

/-- What belongs to a type belongs to the types above it. -/
theorem Belongs.of_isSubtype (hv : v.Belongs t) (h : t.isSubtype t' = true) : v.Belongs t' := by
  cases t with
  | prim j =>
    cases t' with
    | prim k => trivial
    | _ => cases h
  | null =>
    subst hv
    exact belongs_null t'
  | any =>
    cases t' with
    | any => exact hv
    | _ => cases h
  | boxed j =>
    rcases hv.eq_boxed with rfl | ⟨w, rfl, rfl⟩
    · exact belongs_null t'
    · cases t' with
      | any => exact belongs_any _
      | boxed k =>
        obtain rfl : w.kind = k := by simpa [Ty.isSubtype, Ty.storesInto] using h
        exact hv
      | named name =>
        obtain ⟨rfl, hw⟩ : name = "Number" ∧ w.kind.isNumeric = true := by
          simpa [Ty.isSubtype, Ty.storesInto] using h
        exact belongs_number hw
      | _ => cases h
  | named name =>
    cases t' with
    | any => exact belongs_any _
    | named name' =>
      obtain rfl : name = name' := by simpa [Ty.isSubtype, Ty.storesInto] using h
      exact hv
    | _ => cases h
  | record key value =>
    cases t' with
    | any => exact belongs_any _
    | record key' value' => exact hv.record
    | _ => cases h
  | array element =>
    cases t' with
    | any => exact belongs_any _
    | array element' => exact hv.array
    | _ => cases h

/-- What is boxed belongs to the wrapper. -/
theorem belongs_box (h : v.box k = .ok w) : w.Belongs (.boxed k) := by
  unfold box at h
  split at h
  · next x hx =>
    cases h
    obtain rfl : x.kind = k := by cases k <;> cases v <;> cases hx <;> rfl
    exact belongs_boxed
  · cases h

end Value

/-- Every value that belongs to the first type belongs to the second. -/
def Ty.Passes (t t' : Ty) : Prop := ∀ v : Value, v.Belongs t → v.Belongs t'

namespace Ty.Passes

variable {t t' : Ty}

theorem refl (t : Ty) : t.Passes t := fun _ h => h

/-- Values pass to the types above their own. -/
theorem of_isSubtype (h : t.isSubtype t' = true) : t.Passes t' := fun _ hv => hv.of_isSubtype h

end Ty.Passes

/-- A step yields a value of the type it is said to end in. -/
theorem Conversion.belongs_convert {s : Store} {v w : Value} {step : Conversion}
    (hn : step.result ≠ .null) (h : step.convert s v = .ok w) : w.Belongs step.result := by
  cases step with
  | box k => exact Value.belongs_box h
  | checkCast t =>
    simp only [convert] at h
    split at h
    · next hi =>
      cases h
      exact Value.belongs_of_isInstance hn hi
    · cases h
  | stringify =>
    cases h
    exact .inl rfl
  | _ => trivial

/-- Every variable holds a value that belongs to its type. -/
structure EvalState.Holds (vars : List Local) (st : EvalState) : Prop where
  unique : (vars.map (·.name)).Nodup
  names : st.bindings.map (·.1) = vars.map (·.name)
  values : ∀ x ∈ vars, ∀ v, st.bindings.lookup x.name = some v → v.Belongs x.type

/-- From a state whose variables hold what belongs to them to another such state. -/
def Eval.Ensures {α : Type} (vars : List Local) (x : Eval α) (P : α → Prop) : Prop :=
  ∀ st a st', st.Holds vars → x st = .ok (a, st') → P a ∧ st'.Holds vars

namespace Eval

variable {α β : Type} {vars : List Local} {x : Eval α} {f : α → Eval β} {P : α → Prop}
  {Q : β → Prop} {v : Local} {r : Except FaultKind α}

/-- What one evaluation ensures the next may start from. -/
theorem Ensures.bind (hx : Ensures vars x P) (hf : ∀ a, P a → Ensures vars (f a) Q) :
    Ensures vars (x >>= f) Q := by
  intro st b st' hst h
  obtain ⟨a, st₁, ha, hb⟩ := ok_of_bind h
  obtain ⟨hpa, hst₁⟩ := hx st a st₁ hst ha
  exact hf a hpa st₁ b st' hst₁ hb

theorem Ensures.mono {P' : α → Prop} (h : Ensures vars x P) (hp : ∀ a, P a → P' a) :
    Ensures vars x P' := by
  intro st a st' hst ha
  obtain ⟨hpa, hst'⟩ := h st a st' hst ha
  exact ⟨hp a hpa, hst'⟩

theorem ensures_pure {a : α} (h : P a) : Ensures vars (pure a) P := by
  intro st b st' hst hb
  cases hb
  exact ⟨h, hst⟩

theorem ensures_lift (h : ∀ a, r = .ok a → P a) : Ensures vars (lift r) P := by
  intro st a st' hst ha
  obtain ⟨hr, rfl⟩ := ok_of_lift ha
  exact ⟨h a hr, hst⟩

theorem keeps_lift : Ensures vars (lift r) fun _ => True := ensures_lift fun _ _ => trivial

theorem ensures_fail {k : FaultKind} : Ensures vars (fail k) P := by
  intro st a st' hst h
  cases h

theorem ensures_getStore : Ensures vars getStore fun _ => True := by
  intro st a st' hst h
  cases h
  exact ⟨trivial, hst⟩

theorem ensures_setStore {s : Store} : Ensures vars (setStore s) fun _ => True := by
  intro st a st' hst h
  cases h
  exact ⟨trivial, hst.unique, hst.names, hst.values⟩

theorem ensures_allocate {g : Store → Address × Store} :
    Ensures vars (allocate g) fun _ => True := by
  intro st a st' hst h
  cases h
  exact ⟨trivial, hst.unique, hst.names, hst.values⟩

/-- A variable that is read yields what belongs to its type. -/
theorem ensures_lookup (hv : v ∈ vars) : Ensures vars (lookup v.name) (·.Belongs v.type) := by
  intro st a st' hst h
  unfold lookup at h
  split at h
  · next hl =>
    cases h
    exact ⟨hst.values v hv a hl, hst⟩
  · cases h

end Eval

theorem Bindings.eq_of_lookup_set {b : Bindings} {name : String} {v w : Value}
    (h : (b.set name v).lookup name = some w) : w = v := by
  induction b with
  | nil => cases h
  | cons x rest ih =>
    obtain ⟨n, x⟩ := x
    rw [set] at h
    split at h
    · next hn =>
      subst hn
      rw [List.lookup_cons_self] at h
      exact (Option.some.inj h).symm
    · next hn =>
      rw [List.lookup_cons, beq_false_of_ne (Ne.symm hn)] at h
      exact ih h

namespace Eval

variable {vars : List Local} {v : Local}

/-- A variable may be given what belongs to its type. -/
theorem ensures_assign {a : Value} (hv : v ∈ vars) (ha : a.Belongs v.type) :
    Ensures vars (assign v.name a) fun _ => True := by
  intro st _ st' hst h
  cases h
  refine ⟨trivial, hst.unique, (Bindings.map_fst_set ..).trans hst.names, fun x hx w hl => ?_⟩
  by_cases he : x.name = v.name
  · obtain rfl := List.inj_on_of_nodup_map hst.unique hx hv he
    rwa [Bindings.eq_of_lookup_set hl]
  · exact hst.values x hx w ((Bindings.lookup_set_ne he).symm.trans hl)

theorem ensures_put {a : Address} {key value : Value} :
    Ensures vars (put a key value) fun _ => True := by
  unfold put
  split
  · exact ensures_getStore.bind fun _ _ => ensures_setStore
  · exact ensures_fail

theorem ensures_append {a : Address} {item : Value} :
    Ensures vars (append a item) fun _ => True :=
  ensures_getStore.bind fun _ _ => ensures_setStore

theorem ensures_spread {a : Address} {source : Value} :
    Ensures vars (spread a source) fun _ => True := by
  unfold spread
  split
  · exact ensures_getStore.bind fun _ _ => ensures_setStore
  · exact ensures_fail
  · exact ensures_fail

/-- A counter keeps its type. -/
theorem belongs_bumped {t : Ty} {delta : Int8} {a b : Value} (h : bumped t delta a = .ok b) :
    b.Belongs t := by
  cases t with
  | prim k => trivial
  | boxed k =>
    obtain ⟨_, -, h⟩ := StackExpr.ok_of_bind h
    obtain ⟨_, -, h⟩ := StackExpr.ok_of_bind h
    exact Value.belongs_box h
  | _ => cases h

end Eval

namespace Conversion

/-- Steps from a type that end, if they do, in a value of another. -/
def Ends : Ty → List Conversion → Ty → Prop
  | s, [], t => s.Passes t
  | _, c :: rest, t => c.result ≠ .null ∧ Ends c.result rest t

/-- One step more ends in what the step yields. -/
theorem Ends.append {s m t : Ty} {c : Conversion} {steps : List Conversion} (h : Ends s steps m)
    (hn : c.result ≠ .null) (ht : c.result.Passes t) : Ends s (steps ++ [c]) t := by
  induction steps generalizing s with
  | nil => exact ⟨hn, ht⟩
  | cons first rest ih => exact ⟨h.1, ih h.2⟩

theorem result_ne_null {s : Ty} {c : Conversion} (h : c.appliesTo false s = true) :
    c.result ≠ .null := by
  cases c with
  | checkCast => cases h
  | _ => exact Ty.noConfusion

end Conversion

namespace Ty

open Conversion (Ends)

variable {s t : Ty} {steps : List Conversion}

/-- Steps that arrive at a type end in values of it. -/
theorem Arrives.ends (h : s.Arrives false steps t) : Ends s steps t := by
  obtain ⟨m, hvia, hm⟩ := h
  induction steps generalizing s with
  | nil =>
    cases hvia
    exact .of_isSubtype hm
  | cons c rest ih =>
    obtain ⟨hc, hrest⟩ := Option.ite_none_right_eq_some.mp hvia
    exact ⟨Conversion.result_ne_null hc, ih hrest⟩

theorem ends_boxing (s : Ty) : Ends s s.boxing s.storage := (Arrives.of_via? (via?_boxing s)).ends

theorem ends_assign? (h : s.assign? t = some steps) : Ends s steps t :=
  (assigns_of_assign? h).arrives.ends

/-- The steps of a cast end in values of its type, whatever class it names. -/
theorem ends_cast? (hn : t ≠ .null) (h : s.cast? t = some steps) : Ends s steps t := by
  cases casts_of_cast? h with
  | assign ha => exact ha.arrives.ends
  | byKind hj hk hjk hc => exact (Arrives.of_via? (via?_castByKind? hc hj hk hjk)).ends
  | value => exact ⟨Ty.noConfusion, .refl _⟩
  | check => exact ⟨hn, .refl _⟩
  | records => exact fun _ hv => hv.record

end Ty

theorem Typed.ends_compoundSteps? {s t : Ty} {steps : List Conversion}
    (h : compoundSteps? s t = some steps) : Conversion.Ends s steps t := by
  unfold compoundSteps? at h
  split at h
  · next ha =>
    cases h
    exact Ty.ends_assign? ha
  · split_ifs at h with hn
    refine Ty.ends_cast? ?_ h
    rintro rfl
    simp [Ty.isNumeric, Ty.kind?] at hn

theorem Typed.ends_promoted? {s : Ty} {admits : Kind → Bool} {k : Kind} {steps : List Conversion}
    (h : promoted? admits s = some (k, steps)) : Conversion.Ends s steps (.prim k) :=
  (Ty.Arrives.of_via? (promoted?_eq_some h).1).ends

/-- All operators but concatenation yield primitives. -/
theorem Coercion.isPrimitive_coerce? {category : Category} {l r : Ty} {c : Coercion}
    (h : category.coerce? l r = some c) : c.result.isPrimitive = true := by
  obtain ⟨l', r', -, -, ho, -⟩ := operands_coerce? h
  unfold Operands at ho
  split at ho
  case h_1 | h_2 | h_3 =>
    obtain ⟨k, -, -, -, -, ht⟩ := ho
    rw [ht]
    rfl
  case h_4 | h_5 | h_6 =>
    rw [ho.2]
    rfl
  case h_7 =>
    rw [ho.2.2]
    rfl

/-- Evaluation leaves in every variable what belongs there. -/
def Typed.Keeps (vars : List Local) (e : Typed) : Prop := Eval.Ensures vars e.eval fun _ => True

/-- Evaluation yields a value that belongs to the type of the tree. -/
def Typed.Delivers (vars : List Local) (e : Typed) : Prop :=
  Eval.Ensures vars e.eval (·.Belongs e.type)

/-- Adding the entry to a record leaves in every variable what belongs there. -/
def Entry.Keeps (vars : List Local) (e : Entry) : Prop :=
  ∀ a, Eval.Ensures vars (e.eval a) fun _ => True

namespace Typed

open Eval

variable {vars : List Local} {e left right test yes no : Typed} {steps : List Conversion}
  {tag : Tag} {span : Span} {t : Ty} {x : Local}

theorem Delivers.keeps (h : e.Delivers vars) : e.Keeps vars := h.mono fun _ _ => trivial

/-- Nothing is said of the classes of primitives. -/
theorem Keeps.delivers (h : e.Keeps vars) (ht : e.type.isPrimitive = true) : e.Delivers vars :=
  h.mono fun _ _ => Value.belongs_of_isPrimitive ht

/-- A tree may be tagged with a type that its values pass to. -/
theorem Delivers.withTag (h : e.Delivers vars) (ht : e.type.Passes tag.type) :
    (e.withTag tag).Delivers vars := by
  unfold Delivers
  rw [eval_withTag, type_withTag]
  exact h.mono ht

theorem Delivers.moveTo (h : e.Delivers vars) (span : Span) : (e.moveTo span).Delivers vars :=
  h.withTag (.refl _)

theorem Keeps.step (h : e.Keeps vars) (c : Conversion) : (e.step c).Keeps vars :=
  Ensures.bind h fun _ _ => ensures_getStore.bind fun _ _ => keeps_lift

theorem Keeps.through (h : e.Keeps vars) (steps : List Conversion) :
    (e.through steps).Keeps vars := by
  induction steps generalizing e with
  | nil => exact h
  | cons c rest ih => exact ih (h.step c)

theorem Keeps.delivers_step {c : Conversion} (h : e.Keeps vars) (hc : c.result ≠ .null) :
    (e.step c).Delivers vars :=
  Ensures.bind h fun _ _ => ensures_getStore.bind fun _ _ => ensures_lift fun _ ha =>
    c.belongs_convert hc ha

/-- Steps deliver a value of the type they end in. -/
theorem Delivers.through (h : e.Delivers vars) (hs : Conversion.Ends e.type steps t) :
    (e.through steps).Delivers vars ∧ (e.through steps).type.Passes t := by
  induction steps generalizing e with
  | nil => exact ⟨h, hs⟩
  | cons c rest ih => exact ih (h.keeps.delivers_step hs.1) hs.2

theorem Delivers.boxed (h : e.Delivers vars) : e.boxed.Delivers vars :=
  (h.through (Ty.ends_boxing e.type)).1

theorem Delivers.stringified (h : e.Delivers vars) : e.stringified.Delivers vars := by
  unfold Typed.stringified
  split
  · exact h
  · exact (h.through ((Ty.ends_boxing e.type).append Ty.noConfusion (.refl _))).1

/-- An assigned value belongs to the type it is assigned to. -/
theorem Delivers.assignTo? {converted : Typed} (h : e.Delivers vars)
    (ha : e.assignTo? t = some converted) :
    converted.Delivers vars ∧ converted.type.Passes t := by
  obtain ⟨steps, hs, rfl⟩ := Option.map_eq_some_iff.mp ha
  exact h.through (Ty.ends_assign? hs)

/-- Two operands are evaluated and then combined, and neither spoils a variable. -/
theorem Keeps.combine {f : Value → Value → Except FaultKind Value} (hl : left.Keeps vars)
    (hr : right.Keeps vars) {P : Value → Prop} (h : ∀ a b c, f a b = .ok c → P c) :
    Ensures vars (do let a ← left.eval; let b ← right.eval; lift (f a b)) P :=
  Ensures.bind hl fun a _ => Ensures.bind hr fun b _ => ensures_lift (h a b)

theorem keeps_compare {op : Comparison} {mode : OperandMode} (hl : left.Keeps vars)
    (hr : right.Keeps vars) : (compare op mode left right tag).Keeps vars := by
  cases mode with
  | reference =>
    exact Ensures.bind hl fun _ _ => Ensures.bind hr fun _ _ =>
      ensures_getStore.bind fun _ _ => ensures_pure trivial
  | nullCheck =>
    unfold Keeps
    rw [eval]
    split
    · exact Ensures.bind hr fun _ _ => ensures_pure trivial
    · exact Ensures.bind hl fun _ _ => ensures_pure trivial
  | _ => exact hl.combine hr fun _ _ _ _ => trivial

theorem keeps_logical {op : LogicalOp} (hl : left.Keeps vars) (hr : right.Keeps vars) :
    (logical op left right tag).Keeps vars := by
  unfold Keeps
  rw [eval]
  refine Ensures.bind hl fun v _ => keeps_lift.bind fun a _ => ?_
  split
  · exact ensures_pure trivial
  · exact Ensures.bind hr fun w _ =>
      keeps_lift.bind fun _ _ => ensures_pure trivial

theorem belongs_concat {a b c : Value} (h : a.concat b = .ok c) : c.Belongs .string := by
  unfold Value.concat at h
  split at h <;> cases h
  exact .inl rfl

theorem delivers_constant {c : Constant} (h : c.value.Belongs tag.type) :
    (constant c tag).Delivers vars := ensures_pure h

theorem delivers_ofWhole (n : Int64) (span : Span) : (ofWhole n span).Delivers vars := by
  rw [ofWhole]
  split
  · exact delivers_constant trivial
  · exact delivers_constant trivial

/-- A variable delivers what it holds. There is one lemma for each node that can yield a reference.
-/
theorem delivers_read (hx : x ∈ vars) : (read x ⟨x.type, span⟩).Delivers vars := ensures_lookup hx

theorem delivers_update {delta : Int8} {before : Bool} (hx : x ∈ vars) :
    (update x delta before ⟨x.type, span⟩).Delivers vars := by
  refine (ensures_lookup hx).bind fun old hold =>
    (ensures_lift fun _ h => belongs_bumped h).bind fun new hnew =>
      (ensures_assign hx hnew).bind fun _ _ => ensures_pure ?_
  split
  · exact hnew
  · exact hold

theorem delivers_assign (hx : x ∈ vars) (he : e.Delivers vars) (hp : e.type.Passes x.type) :
    (assign x e ⟨x.type, span⟩).Delivers vars :=
  Ensures.bind he fun v hv => (ensures_assign hx (hp v hv)).bind fun _ _ => ensures_pure (hp v hv)

/-- Either branch delivers a value of the common type. -/
theorem delivers_conditional (ht : test.Keeps vars) (hy : yes.Delivers vars)
    (hpy : yes.type.Passes tag.type) (hn : no.Delivers vars) (hpn : no.type.Passes tag.type) :
    (conditional test yes no tag).Delivers vars := by
  refine Ensures.bind ht fun v _ => keeps_lift.bind fun b _ => ?_
  split
  · exact hy.mono hpy
  · exact hn.mono hpn

theorem ensures_evalAll {a : Address} {entries : List Entry} (h : ∀ e ∈ entries, e.Keeps vars) :
    Ensures vars (Entry.evalAll a entries) fun _ => True := by
  induction entries with
  | nil => exact ensures_pure trivial
  | cons e rest ih =>
    obtain ⟨he, hr⟩ := List.forall_mem_cons.mp h
    exact (he a).bind fun _ _ => ih hr

theorem ensures_evalItems {a : Address} {items : List Typed} (h : ∀ e ∈ items, e.Keeps vars) :
    Ensures vars (evalItems a items) fun _ => True := by
  induction items with
  | nil => exact ensures_pure trivial
  | cons e rest ih =>
    obtain ⟨he, hr⟩ := List.forall_mem_cons.mp h
    exact Ensures.bind he fun _ _ => ensures_append.bind fun _ _ => ih hr

/-- A record literal delivers a map and a list literal a list, whatever is in them. -/
theorem delivers_record {plan : PlanTag} {r : RecordTy} {entries : List Entry}
    (h : ∀ e ∈ entries, e.Keeps vars) : (record plan entries ⟨r.toTy, span⟩).Delivers vars :=
  ensures_allocate.bind fun _ _ => (ensures_evalAll h).bind fun _ _ => ensures_pure (.inl rfl)

theorem delivers_list {items : List Typed} (h : ∀ e ∈ items, e.Keeps vars) :
    (list items ⟨.array t, span⟩).Delivers vars :=
  ensures_allocate.bind fun _ _ => (ensures_evalItems h).bind fun _ _ => ensures_pure (.inl rfl)

end Typed

namespace Entry

open Eval

variable {vars : List Local} {key value source : Typed} {tag : EntryTag}

theorem keeps_fixed {c : Constant} {stored : Ty} (hv : value.Keeps vars) :
    (fixed c stored value tag).Keeps vars :=
  fun _ => keeps_lift.bind fun _ _ => Ensures.bind hv fun _ _ => ensures_put

theorem keeps_computed (hk : key.Keeps vars) (hv : value.Keeps vars) :
    (computed key value tag).Keeps vars :=
  fun _ => Ensures.bind hk fun _ _ => Ensures.bind hv fun _ _ => ensures_put

/-- Entries spoil no variable as long as what they evaluate does not. -/
theorem keeps_spread (hs : source.Keeps vars) : (spread source tag).Keeps vars :=
  fun _ => Ensures.bind hs fun _ _ => ensures_spread

end Entry

namespace Typed

open Eval

variable {vars : List Local} {e left right test yes no : Typed} {span : Span} {t : Ty} {x : Local}

theorem delivers_ofPower (hl : left.Delivers vars) (hr : right.Delivers vars)
    (h : ofPower left right span = .ok e) : e.Delivers vars := by
  obtain ⟨_, _, -, -, -, -, rfl⟩ := ofPower_eq_ok h
  exact (hl.keeps.through _).combine (hr.keeps.through _) fun _ _ _ _ => trivial

theorem delivers_ofCoercion {op : BinaryOp} {category : Category} {s : Ty} {c : Coercion}
    (hc : category.coerce? s t = some c) (hl : left.Keeps vars) (hr : right.Keeps vars) :
    (ofCoercion op c left right span).Delivers vars := by
  have ht := Coercion.isPrimitive_coerce? hc
  unfold ofCoercion
  split
  case h_1 | h_2 | h_3 =>
    exact Keeps.delivers (hl.combine hr fun _ _ _ _ => trivial) ht
  case h_4 | h_5 | h_6 => exact (keeps_compare hl hr).delivers ht
  case h_7 => exact (keeps_logical hl hr).delivers ht

/-- An operator delivers a string or a primitive. -/
theorem delivers_ofBinary {op : BinaryOp} (hl : left.Delivers vars) (hr : right.Delivers vars)
    (h : ofBinary op left right span = .ok e) : e.Delivers vars := by
  rcases ofBinary_eq_ok h with ⟨-, rfl⟩ | ⟨-, h⟩ | ⟨-, category, c, -, hc, rfl⟩
  · exact hl.stringified.keeps.combine hr.stringified.keeps fun _ _ _ => belongs_concat
  · exact delivers_ofPower hl hr h
  · exact delivers_ofCoercion hc (hl.keeps.through _) (hr.keeps.through _)

theorem delivers_ofUnary {op : UnaryOp} {operand : Typed} (ho : operand.Delivers vars)
    (h : ofUnary op operand span = .ok e) : e.Delivers vars := by
  have hlift {f : Value → Except FaultKind Value} (steps : List Conversion) :
      Ensures vars (do let v ← (operand.through steps).eval; lift (f v)) fun _ => True :=
    Ensures.bind (ho.keeps.through steps) fun _ _ => keeps_lift
  rcases ofUnary_eq_ok h with ⟨-, steps, -, -, rfl⟩ | ⟨-, k, steps, hp, rfl⟩ |
    ⟨-, k, steps, -, rfl⟩ | ⟨-, k, steps, -, rfl⟩
  · exact hlift steps
  · exact (ho.through (ends_promoted? hp)).1.moveTo span
  · exact hlift steps
  · exact hlift steps

theorem delivers_ofUpdate {op : UpdateOp} {before : Bool} (hx : x ∈ vars)
    (h : ofUpdate op before x span = .ok e) : e.Delivers vars := by
  obtain ⟨-, rfl⟩ := ofUpdate_eq_ok h
  exact delivers_update hx

/-- A compound assignment delivers a value of the variable's type. -/
theorem delivers_ofCompound {op : AssignOp} {binary : BinaryOp} {readAt : Span} {value : Typed}
    (hx : x ∈ vars) (hv : value.Delivers vars)
    (h : ofCompound op binary x readAt value span = .ok e) : e.Delivers vars := by
  obtain ⟨combined, steps, hb, hs, rfl⟩ := ofCompound_eq_ok h
  obtain ⟨hd, hp⟩ := (delivers_ofBinary (delivers_read hx) hv hb).through (ends_compoundSteps? hs)
  exact delivers_assign hx hd hp

theorem keeps_ofTest (ht : test.Delivers vars) (h : ofTest test = .ok e) : e.Keeps vars := by
  obtain ⟨-, rfl⟩ := ofTest_eq_ok h
  exact ht.keeps.through _

theorem delivers_ofBranches (ht : test.Keeps vars) (hy : yes.Delivers vars)
    (hn : no.Delivers vars) (h : ofBranches test yes no span = .ok e) : e.Delivers vars := by
  obtain ⟨type, left, right, hu, rfl⟩ := ofBranches_eq_ok h
  obtain ⟨hl, hr⟩ := Ty.arrives_unify? hu
  obtain ⟨hdy, hpy⟩ := hy.through hl.ends
  obtain ⟨hdn, hpn⟩ := hn.through hr.ends
  exact delivers_conditional ht hdy hpy hdn hpn

/-- A cast delivers a value of its type. -/
theorem delivers_ofCast {operand : Typed} (ho : operand.Delivers vars) (hn : t ≠ .null)
    (h : ofCast operand t span = .ok e) : e.Delivers vars := by
  obtain ⟨steps, hc, rfl⟩ := ofCast_eq_ok h
  obtain ⟨hd, hp⟩ := ho.through (Ty.ends_cast? hn hc)
  exact hd.withTag hp

end Typed

end StackExpr
