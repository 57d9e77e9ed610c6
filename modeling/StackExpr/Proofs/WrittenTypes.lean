import Mathlib.Data.Option.Defs
import StackExpr.Check.Error
import StackExpr.Proofs.Coercions

/-! Which written types mean a type, and which one.

A path leads to a part of a written type, and to the part of its type at the same place: it gives
the number of an argument at each step. -/
namespace StackExpr

namespace Ty

def parts : Ty → List Ty
  | record key value => [key, value]
  | array element => [element]
  | _ => []

/-- The part that a path leads to. -/
def part? (t : Ty) : (path : List Nat) → Option Ty
  | [] => some t
  | i :: path => t.parts[i]?.bind (·.part? path)

end Ty

namespace TypeExpr

variable {t : TypeExpr} {ty : Ty} {place : TypePlace} {path : List Nat} {key : Prop}

mutual

/-- All parts, each before its arguments and these from left to right. -/
def nodes : TypeExpr → List TypeExpr
  | simple name span => [simple name span]
  | generic name args span => generic name args span :: nodesOf args

def nodesOf : List TypeExpr → List TypeExpr
  | [] => []
  | t :: rest => t.nodes ++ nodesOf rest

end

def args : TypeExpr → List TypeExpr
  | simple _ _ => []
  | generic _ args _ => args

/-- The part that a path leads to. -/
def part? (t : TypeExpr) : (path : List Nat) → Option TypeExpr
  | [] => some t
  | i :: path => t.args[i]?.bind (·.part? path)

/-- Records and maps have two arguments and arrays have one; nothing else is generic. -/
def isSupported : TypeExpr → Bool
  | simple _ _ => true
  | generic name args _ =>
    (name == "Record" || name == "Map") && args.length == 2 || name == "Array" && args.length == 1

/-- The part at the path is the first argument of a record. -/
def IsKey (t : TypeExpr) (path : List Nat) : Prop :=
  ∃ above name args span, path = above ++ [0] ∧ t.part? above = some (.generic name args span) ∧
    name ∈ ["Record", "Map"]

theorem find?_nodes_of_not_isSupported (h : t.isSupported = false) :
    t.nodes.find? (!·.isSupported) = some t := by
  cases t with
  | simple name span => cases h
  | generic name args span => rw [nodes, List.find?_cons, h]; rfl

theorem find?_nodes_of_isSupported {name : String} {args : List TypeExpr} {span : Span}
    (h : (generic name args span).isSupported = true) :
    (generic name args span).nodes.find? (!·.isSupported) =
      (nodesOf args).find? (!·.isSupported) := by
  rw [nodes, List.find?_cons, h]
  rfl

/-- The search in order of the parts ends where resolution does. -/
theorem find?_nodes (place : TypePlace) (t : TypeExpr) :
    t.nodes.find? (!·.isSupported) =
      match t.resolveAt place with
      | .ok _ => none
      | .error bad => some bad.written := by
  fun_induction resolveAt place t with
  | case1 => rfl
  | case2 place name key value span hname ihk ihv =>
    rw [find?_nodes_of_isSupported (by simpa [isSupported] using hname), nodesOf, nodesOf, nodesOf,
      List.append_nil, List.find?_append, ihk, ihv]
    cases key.resolveAt .recordKey with
    | error bad => rfl
    | ok k => cases value.resolveAt .value <;> rfl
  | case3 place name key value span hname =>
    exact find?_nodes_of_not_isSupported (by simpa [isSupported] using hname)
  | case4 place element span ih =>
    rw [find?_nodes_of_isSupported rfl, nodesOf, nodesOf, List.append_nil, ih]
    cases element.resolveAt .value <;> rfl
  | case5 place name element span hname =>
    exact find?_nodes_of_not_isSupported (by simpa [isSupported] using hname)
  | case6 place name args span htwo hone =>
    refine find?_nodes_of_not_isSupported ?_
    match args with
    | [] | _ :: _ :: _ :: _ => simp [isSupported]
    | [element] => exact (hone element rfl).elim
    | [key, value] => exact (htwo key value rfl).elim

/-- A written type resolves if every part of it is supported. -/
theorem resolve_eq_ok_iff : (∃ ty, t.resolve = .ok ty) ↔ ∀ n ∈ t.nodes, n.isSupported = true := by
  have h := find?_nodes .value t
  rw [resolve]
  cases hr : t.resolveAt .value with
  | ok ty =>
    rw [hr] at h
    simpa using h
  | error bad =>
    rw [hr] at h
    have hmem := List.mem_of_find?_eq_some h
    have hbad := List.find?_some h
    refine iff_of_false (fun ⟨ty, h⟩ => nomatch h) fun hall => ?_
    rw [hall _ hmem] at hbad
    cases hbad

/-- The names that mean a type of their own. -/
def reserved : List String :=
  Kind.all.map Kind.text ++ Kind.all.map Kind.wrapper ++
    ["number", "Number", "string", "String", "Object", "any", "unknown"]

/-- What a name means, as a key of a record or elsewhere. -/
inductive Denotes (key : Prop) : String → Ty → Prop
  | prim (k : Kind) : Denotes key k.text (.prim k)
  | boxed (k : Kind) : Denotes key k.wrapper (.boxed k)
  | numberKey (h : key) : Denotes key "number" .number
  | numberValue (h : ¬ key) : Denotes key "number" (.prim .double)
  | number : Denotes key "Number" .number
  | string {name : String} (h : name ∈ ["string", "String"]) : Denotes key name .string
  | any {name : String} (h : name ∈ ["Object", "any", "unknown"]) : Denotes key name .any
  | named {name : String} (h : name ∉ reserved) : Denotes key name (.named name)

/-- What kind of type a part is; its arguments are parts of their own. -/
inductive Means (key : Prop) : TypeExpr → Ty → Prop
  | simple {name : String} {span : Span} {ty : Ty} (h : Denotes key name ty) :
    Means key (.simple name span) ty
  | record {name : String} {args : List TypeExpr} {span : Span} {k v : Ty}
    (h : name ∈ ["Record", "Map"]) : Means key (.generic name args span) (.record k v)
  | array {args : List TypeExpr} {span : Span} {e : Ty} :
    Means key (.generic "Array" args span) (.array e)

theorem denotes_resolveName (hkey : key ↔ place = .recordKey) (name : String) :
    Denotes key name (resolveName place name) := by
  unfold resolveName
  cases hk : Kind.ofText? name with
  | some k =>
    obtain rfl : k.text = name := by simpa using List.find?_some hk
    exact .prim k
  | none =>
    cases hw : Kind.ofWrapper? name with
    | some k =>
      obtain rfl : k.wrapper = name := by simpa using List.find?_some hw
      exact .boxed k
    | none =>
      simp only
      split
      · split
        · next h => exact .numberKey (hkey.mpr h)
        · next h => exact .numberValue fun hk => h (hkey.mp hk)
      · exact .number
      · exact .string (by decide)
      · exact .string (by decide)
      · exact .any (by decide)
      · exact .any (by decide)
      · exact .any (by decide)
      · next h₁ h₂ h₃ h₄ h₅ h₆ h₇ =>
        refine .named fun hr => ?_
        simp only [Kind.ofText?, Kind.ofWrapper?, List.find?_eq_none, beq_iff_eq] at hk hw
        simp only [reserved, List.mem_append, List.mem_map] at hr
        rcases hr with (⟨k, hmem, he⟩ | ⟨k, hmem, he⟩) | hr
        · exact hk k hmem he
        · exact hw k hmem he
        · simp_all

theorem Denotes.parts_eq_nil {name : String} (h : Denotes key name ty) : ty.parts = [] := by
  cases h <;> rfl

theorem denotes_number (h : Denotes key "number" ty) :
    (ty = .number ↔ key) ∧ (ty = .prim .double ↔ ¬ key) := by
  generalize hn : "number" = name at h
  cases h with
  | prim k => cases k <;> simp [Kind.text] at hn
  | boxed k => cases k <;> simp [Kind.wrapper] at hn
  | numberKey h => simp [h, Ty.number]
  | numberValue h => simp [h, Ty.number]
  | number => simp at hn
  | string h => subst hn; simp at h
  | any h => subst hn; simp at h
  | named h => subst hn; exact (h (by decide)).elim

theorem isKey_nil : ¬ t.IsKey [] := by
  rintro ⟨above, -, -, -, h, -⟩
  simp at h

/-- A key further down is a key below the argument, or the argument is the key itself. -/
theorem isKey_cons {name : String} {args : List TypeExpr} {span : Span} {i : Nat} {arg : TypeExpr}
    (harg : args[i]? = some arg) :
    (generic name args span).IsKey (i :: path) ↔
      path = [] ∧ i = 0 ∧ name ∈ ["Record", "Map"] ∨ arg.IsKey path := by
  constructor
  · rintro ⟨above, name', args', span', hpath, hpart, hname⟩
    cases above with
    | nil =>
      cases hpart
      cases hpath
      exact .inl ⟨rfl, rfl, hname⟩
    | cons j above =>
      cases hpath
      rw [part?, TypeExpr.args, harg] at hpart
      exact .inr ⟨above, name', args', span', rfl, hpart, hname⟩
  · rintro (⟨rfl, rfl, hname⟩ | ⟨above, name', args', span', rfl, hpart, hname⟩)
    · exact ⟨[], name, args, span, rfl, rfl, hname⟩
    · refine ⟨i :: above, name', args', span', rfl, ?_, hname⟩
      rw [part?, TypeExpr.args, harg]
      exact hpart

/-- At every path the type has the part that the written type has, and nothing more. -/
theorem means_part? (h : t.resolveAt place = .ok ty) (path : List Nat)
    (hkey : key ↔ path = [] ∧ place = .recordKey ∨ t.IsKey path) :
    Option.Rel (Means key) (t.part? path) (ty.part? path) := by
  fun_induction resolveAt place t generalizing ty path with
  | case1 place name span =>
    cases h
    cases path with
    | nil =>
      refine .some (.simple (denotes_resolveName ?_ name))
      simpa [isKey_nil] using hkey
    | cons i path =>
      rw [Ty.part?, (denotes_resolveName Iff.rfl name).parts_eq_nil]
      exact .none
  | case2 place name k v span hname ihk ihv =>
    obtain ⟨kty, hk, h⟩ := ok_of_bind h
    obtain ⟨vty, hv, h⟩ := ok_of_bind h
    cases h
    match path with
    | [] => exact .some (.record (by simpa using hname))
    -- Only the part that is the key itself resolves as one, not what is inside it.
    | 0 :: path =>
      refine ihk hk path ?_
      rw [hkey, isKey_cons rfl]
      simp [hname]
    | 1 :: path =>
      refine ihv hv path ?_
      rw [hkey, isKey_cons rfl]
      simp
    | (i + 2) :: path => exact .none
  | case3 => cases h
  | case4 place element span ih =>
    obtain ⟨ety, he, h⟩ := ok_of_bind h
    cases h
    match path with
    | [] => exact .some .array
    | 0 :: path =>
      refine ih he path ?_
      rw [hkey, isKey_cons rfl]
      simp
    | (i + 1) :: path => exact .none
  | case5 => cases h
  | case6 => cases h

theorem means_number {span : Span} (hpart : t.part? path = some (.simple "number" span))
    (h : Option.Rel (Means key) (t.part? path) (ty.part? path)) :
    (ty.part? path = some .number ↔ key) ∧ (ty.part? path = some (.prim .double) ↔ ¬ key) := by
  rw [hpart] at h
  generalize ty.part? path = part at h
  cases h with
  | some h =>
    cases h with
    | simple h => simpa using denotes_number h

/-- A written type resolves if and only if every generic part of it is supported. If some are not,
the first of them is reported, with its text and span. If all are, the type has the shape of what
was written, part by part, and `number` is the class `Number` where it is itself the key of a record
and `double` elsewhere. -/
theorem resolution_follows_shape (t : TypeExpr) :
    ((∃ ty, t.resolve = .ok ty) ↔ ∀ n ∈ t.nodes, n.isSupported = true) ∧
    (∀ bad, t.resolve = .error bad → ∃ n, t.nodes.find? (!·.isSupported) = some n ∧
      (CheckError.invalidType bad).message =
        s!"Invalid type annotation {n.text}: {bad.fault.text}" ∧
      (CheckError.invalidType bad).span = n.span) ∧
    ∀ ty, t.resolve = .ok ty → ∀ path,
      Option.Rel (Means (t.IsKey path)) (t.part? path) (ty.part? path) ∧
      ∀ span, t.part? path = some (.simple "number" span) →
        (ty.part? path = some .number ↔ t.IsKey path) ∧
        (ty.part? path = some (.prim .double) ↔ ¬ t.IsKey path) := by
  refine ⟨resolve_eq_ok_iff, fun bad h => ?_, fun ty h path => ?_⟩
  · have hfind := find?_nodes .value t
    rw [resolve] at h
    rw [h] at hfind
    exact ⟨bad.written, hfind, rfl, rfl⟩
  · have hmeans : Option.Rel (Means (t.IsKey path)) (t.part? path) (ty.part? path) :=
      means_part? h path (by simp)
    exact ⟨hmeans, fun span hpart => means_number hpart hmeans⟩

/-- `Record<Array<number>, Map<number, number>>` and `Record<Map<int>, Set<Array>>`. -/
theorem resolution_follows_nested :
    let number := TypeExpr.simple "number" ⟨0, 6⟩
    let nested := TypeExpr.generic "Record" [.generic "Array" [number] ⟨7, 20⟩,
      .generic "Map" [number, number] ⟨22, 41⟩] ⟨0, 42⟩
    let faulty := TypeExpr.generic "Record" [.generic "Map" [.simple "int" ⟨11, 14⟩] ⟨7, 15⟩,
      .generic "Set" [.generic "Array" [] ⟨21, 26⟩] ⟨17, 27⟩] ⟨0, 28⟩
    (∃ ty, nested.resolve = .ok ty ∧ ty.part? [0, 0] = some (.prim .double) ∧
      ty.part? [1, 0] = some .number ∧ ty.part? [1, 1] = some (.prim .double)) ∧
    ∃ bad, faulty.resolve = .error bad ∧ (CheckError.invalidType bad).span = ⟨7, 15⟩ ∧
      (CheckError.invalidType bad).message =
        "Invalid type annotation Map<int>: Map takes exactly two type arguments" := by
  intro number nested faulty
  have helement : ¬ nested.IsKey [0, 0] := by
    rw [isKey_cons rfl, isKey_cons rfl]
    simp [isKey_nil]
  have hkey : nested.IsKey [1, 0] := ⟨[1], _, _, _, rfl, rfl, by decide⟩
  have hvalue : ¬ nested.IsKey [1, 1] := by
    rw [isKey_cons rfl, isKey_cons rfl]
    simp [isKey_nil]
  obtain ⟨-, -, hshape⟩ := resolution_follows_shape nested
  obtain ⟨-, hfault, -⟩ := resolution_follows_shape faulty
  refine ⟨⟨_, rfl, ?_, ?_, ?_⟩, _, rfl, ?_, ?_⟩
  · exact (((hshape _ rfl [0, 0]).2 _ rfl).2).mpr helement
  · exact (((hshape _ rfl [1, 0]).2 _ rfl).1).mpr hkey
  · exact (((hshape _ rfl [1, 1]).2 _ rfl).2).mpr hvalue
  · obtain ⟨n, hn, -, hspan⟩ := hfault _ rfl
    cases hn
    exact hspan
  · obtain ⟨n, hn, hmessage, -⟩ := hfault _ rfl
    cases hn
    exact hmessage

end TypeExpr
end StackExpr
