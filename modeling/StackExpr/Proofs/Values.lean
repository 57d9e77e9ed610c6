import StackExpr.Proofs.Numbers
import StackExpr.Proofs.Slots
import StackExpr.Proofs.Typing

/-! Operations on values of the right types: what comes out is of the right type again, or the
operation meets one of four faults. -/
namespace StackExpr

/-- The faults that well-typed code can meet. -/
def FaultKind.isExpected : FaultKind → Bool
  | arithmetic | nullPointer | classCast | unhashableKey => true
  | _ => false

/-- There are four faults that well-typed code can meet. -/
theorem FaultKind.mem_of_isExpected {k : FaultKind} (h : k.isExpected = true) :
    k ∈ [arithmetic, nullPointer, classCast, unhashableKey] := by
  cases k <;> first | decide | cases h

/-- An outcome that is as it should be, or an expected fault. -/
def Safe {α : Type} (r : Except FaultKind α) (P : α → Prop) : Prop :=
  match r with
  | .ok a => P a
  | .error k => k.isExpected = true

theorem Safe.mono {α : Type} {r : Except FaultKind α} {P Q : α → Prop} (h : Safe r P)
    (hpq : ∀ a, P a → Q a) : Safe r Q := by
  cases r with
  | ok a => exact hpq a h
  | error k => exact h

namespace Kind

variable {k j : Kind} {v a b : Value} {op : ArithOp}

theorem holds_ofBool (b : Bool) : boolean.Holds (.ofBool b) := by cases b <;> simp [Holds, Value.ofBool]

theorem holds_int (n : Int32) : int.Holds (.int n) := ⟨rfl, fits_int n⟩

/-- A boolean is 0 or 1. -/
theorem Holds.eq_ofBool (h : boolean.Holds v) : ∃ b, v = .ofBool b ∧ v.truth = .ok b := by
  cases v with
  | int n =>
    rcases h with rfl | rfl
    · exact ⟨false, rfl, rfl⟩
    · exact ⟨true, rfl, rfl⟩
  | _ => exact h.elim

/-- A number that travels as an `int` is one. -/
theorem Holds.eq_int (h : k.Holds v) (hk : k.stackKind = .int) : ∃ n, v = .int n := by
  have hs := h.stackKind
  rw [hk] at hs
  cases v with
  | int n => exact ⟨n, rfl⟩
  | _ => cases hs

theorem Holds.eq_long (h : long.Holds v) : ∃ n, v = .long n := by
  cases v with
  | long n => exact ⟨n, rfl⟩
  | _ => cases h.stackKind

theorem Holds.eq_float (h : float.Holds v) : ∃ x, v = .float x := by
  cases v with
  | float x => exact ⟨x, rfl⟩
  | _ => cases h.stackKind

theorem Holds.eq_double (h : double.Holds v) : ∃ x, v = .double x := by
  cases v with
  | double x => exact ⟨x, rfl⟩
  | _ => cases h.stackKind

/-- A number can be had at every kind of number. -/
theorem exists_toKind? (hk : k.isNumeric = true) (hv : v.stackKind ≠ .reference) :
    ∃ w, v.toKind? k = some w ∧ k.Holds w := by
  obtain ⟨⟨i, hi⟩, ⟨l, hl⟩, ⟨x, hx⟩, ⟨y, hy⟩⟩ : (∃ n, v.toInt? = some n) ∧
      (∃ n, v.toLong? = some n) ∧ (∃ x, v.toFloat? = some x) ∧ ∃ x, v.toDouble? = some x := by
    cases v with
    | int | long | float | double => exact ⟨⟨_, rfl⟩, ⟨_, rfl⟩, ⟨_, rfl⟩, ⟨_, rfl⟩⟩
    | _ => exact absurd rfl hv
  cases k with
  | byte => exact ⟨.int i.toInt8.toInt32, by simp [Value.toKind?, hi], rfl, fits_byte _⟩
  | short => exact ⟨.int i.toInt16.toInt32, by simp [Value.toKind?, hi], rfl, fits_short _⟩
  | char => exact ⟨.int (intOfChar (charOfInt i)), by simp [Value.toKind?, hi], rfl, fits_char _⟩
  | int => exact ⟨.int i, by simp [Value.toKind?, hi], holds_int i⟩
  | long => exact ⟨.long l, by simp [Value.toKind?, hl], trivial⟩
  | float => exact ⟨.float x, by simp [Value.toKind?, hx], trivial⟩
  | double => exact ⟨.double y, by simp [Value.toKind?, hy], trivial⟩
  | boolean => cases hk

/-- A number that has a kind keeps its value at it. -/
theorem Holds.toKind? (h : k.Holds v) (hk : k.isNumeric = true) : v.toKind? k = some v := by
  cases k with
  | byte =>
    obtain ⟨n, rfl⟩ := h.eq_int rfl
    simp [Value.toKind?, Value.toInt?, toInt8_of_fits h.2]
  | short =>
    obtain ⟨n, rfl⟩ := h.eq_int rfl
    simp [Value.toKind?, Value.toInt?, toInt16_of_fits h.2]
  | char =>
    obtain ⟨n, rfl⟩ := h.eq_int rfl
    simp [Value.toKind?, Value.toInt?, intOfChar_of_fits h.2]
  | int => obtain ⟨n, rfl⟩ := h.eq_int rfl; rfl
  | long => obtain ⟨n, rfl⟩ := h.eq_long; rfl
  | float => obtain ⟨x, rfl⟩ := h.eq_float; rfl
  | double => obtain ⟨x, rfl⟩ := h.eq_double; rfl
  | boolean => cases hk

/-- Only a division by zero goes wrong. -/
theorem safe_arith (ha : k.Holds a) (hb : (if op.isShift then Kind.int else k).Holds b)
    (hop : op.admits k = true) : Safe (a.arith op k.stackKind b) k.Holds := by
  cases k with
  | int =>
    obtain ⟨m, rfl⟩ := ha.eq_int rfl
    obtain ⟨n, rfl⟩ := hb.eq_int (by split <;> rfl)
    simp only [stackKind, Value.arith]
    cases h : intArith op m n with
    | ok r => exact holds_int r
    | error f => rw [Action.intArith_eq_error h]; rfl
  | long =>
    obtain ⟨m, rfl⟩ := ha.eq_long
    cases hs : op.isShift with
    | true =>
      rw [hs, if_pos rfl] at hb
      obtain ⟨n, rfl⟩ := hb.eq_int rfl
      simp only [stackKind, Value.arith, hs, if_true]
      cases h : longArith op m n.toInt64 with
      | ok r => trivial
      | error f => rw [Action.longArith_eq_error h]; rfl
    | false =>
      rw [hs, if_neg Bool.false_ne_true] at hb
      obtain ⟨n, rfl⟩ := hb.eq_long
      simp only [stackKind, Value.arith, hs, Bool.false_eq_true, if_false]
      cases h : longArith op m n with
      | ok r => trivial
      | error f => rw [Action.longArith_eq_error h]; rfl
  | float =>
    obtain ⟨x, rfl⟩ := ha.eq_float
    cases op with
    | add | subtract | multiply | divide | remainder =>
      obtain ⟨y, rfl⟩ := Holds.eq_float hb
      trivial
    | _ => cases hop
  | double =>
    obtain ⟨x, rfl⟩ := ha.eq_double
    cases op with
    | add | subtract | multiply | divide | remainder =>
      obtain ⟨y, rfl⟩ := Holds.eq_double hb
      trivial
    | _ => cases hop
  | boolean =>
    obtain ⟨x, rfl, -⟩ := ha.eq_ofBool
    cases op with
    | and | or | xor =>
      obtain ⟨y, rfl, -⟩ := Holds.eq_ofBool hb
      change (_ : Int32) = 0 ∨ (_ : Int32) = 1
      cases x <;> cases y <;> decide
    | _ => cases hop
  | byte | short | char => cases op <;> cases hop

/-- Signs can be changed at every kind that arithmetic is done in. -/
theorem safe_negate (h : k.Holds v) (hk : k.isPromoted = true) : Safe v.negate k.Holds := by
  cases k with
  | int => obtain ⟨n, rfl⟩ := h.eq_int rfl; exact holds_int _
  | long => obtain ⟨n, rfl⟩ := h.eq_long; trivial
  | float => obtain ⟨x, rfl⟩ := h.eq_float; trivial
  | double => obtain ⟨x, rfl⟩ := h.eq_double; trivial
  | _ => cases hk

theorem safe_complement (h : k.Holds v) (hk : k = .int ∨ k = .long) :
    Safe v.complement k.Holds := by
  rcases hk with rfl | rfl
  · obtain ⟨n, rfl⟩ := h.eq_int rfl
    exact holds_int _
  · obtain ⟨n, rfl⟩ := h.eq_long
    trivial

theorem safe_raise (ha : double.Holds a) (hb : double.Holds b) : Safe (a.raise b) double.Holds := by
  obtain ⟨x, rfl⟩ := ha.eq_double
  obtain ⟨y, rfl⟩ := hb.eq_double
  trivial

/-- Numbers of one kind, and booleans, can be compared. -/
theorem exists_order (ha : k.Holds a) (hb : k.Holds b) : ∃ o, a.order b = .ok o := by
  cases k with
  | long =>
    obtain ⟨m, rfl⟩ := ha.eq_long
    obtain ⟨n, rfl⟩ := hb.eq_long
    exact ⟨_, rfl⟩
  | float =>
    obtain ⟨x, rfl⟩ := ha.eq_float
    obtain ⟨y, rfl⟩ := hb.eq_float
    exact ⟨_, rfl⟩
  | double =>
    obtain ⟨x, rfl⟩ := ha.eq_double
    obtain ⟨y, rfl⟩ := hb.eq_double
    exact ⟨_, rfl⟩
  | _ =>
    obtain ⟨m, rfl⟩ := ha.eq_int rfl
    obtain ⟨n, rfl⟩ := hb.eq_int rfl
    exact ⟨_, rfl⟩

/-- Counting up and down never goes wrong. -/
theorem exists_bump (h : k.Holds v) (hk : k.isNumeric = true) (delta : Int8) :
    ∃ w, v.bump k delta = .ok w ∧ k.Holds w := by
  obtain ⟨w, hw, hs⟩ : ∃ w, v.arith (if delta > 0 then .add else .subtract) k.stackKind
      (.one k.stackKind) = .ok w ∧ w.stackKind ≠ .reference := by
    cases k with
    | long => obtain ⟨n, rfl⟩ := h.eq_long; split <;> exact ⟨_, rfl, nofun⟩
    | float => obtain ⟨x, rfl⟩ := h.eq_float; split <;> exact ⟨_, rfl, nofun⟩
    | double => obtain ⟨x, rfl⟩ := h.eq_double; split <;> exact ⟨_, rfl, nofun⟩
    | _ => obtain ⟨n, rfl⟩ := h.eq_int rfl; split <;> exact ⟨_, rfl, nofun⟩
  obtain ⟨w', hw', hh⟩ := exists_toKind? hk hs
  exact ⟨w', by simp only [Value.bump, hw, bind, Except.bind, hw']; rfl, hh⟩

/-- A number can always be boxed at its own kind. -/
theorem exists_box (h : k.Holds v) : ∃ w, v.box k = .ok (.boxed w) ∧ w.kind = k := by
  cases k with
  | long => obtain ⟨n, rfl⟩ := h.eq_long; exact ⟨_, rfl, rfl⟩
  | float => obtain ⟨x, rfl⟩ := h.eq_float; exact ⟨_, rfl, rfl⟩
  | double => obtain ⟨x, rfl⟩ := h.eq_double; exact ⟨_, rfl, rfl⟩
  | _ => obtain ⟨n, rfl⟩ := h.eq_int rfl; exact ⟨_, rfl, rfl⟩

/-- A wrapper can be read at its own kind, and a number at every kind of number. -/
theorem exists_unwrap? {w : Wrapper}
    (h : w.kind = k ∨ w.kind.isNumeric = true ∧ k.isNumeric = true) :
    ∃ v, w.unwrap? k = some v ∧ k.Holds v := by
  cases w with
  | boolean b =>
    rcases h with rfl | ⟨h, -⟩
    · exact ⟨_, rfl, holds_ofBool b⟩
    · cases h
  | _ =>
    cases k with
    | boolean => rcases h with h | ⟨-, h⟩ <;> cases h
    | byte => exact ⟨_, rfl, rfl, fits_byte _⟩
    | short => exact ⟨_, rfl, rfl, fits_short _⟩
    | char => exact ⟨_, rfl, rfl, fits_char _⟩
    | int => exact ⟨_, rfl, holds_int _⟩
    | _ => exact ⟨_, rfl, trivial⟩

end Kind

section conversions

variable {deep : Bool} {u : Unfinished} {s : Store} {t t' : Ty} {v w : Value} {k : Kind} {n : Nat}

theorem Store.grounded_of_holds (h : k.Holds v) : s.Grounded u n v := by
  cases v <;> cases n <;> first | trivial | cases k <;> exact h.elim

theorem Store.grounded_boxed (w : Wrapper) : s.Grounded u n (.boxed w) := by cases n <;> trivial

theorem Store.grounded_string (text : String) : s.Grounded u n (.string text) := by
  cases n <;> trivial

theorem Store.grounded_null : s.Grounded u n .null := by cases n <;> trivial

theorem Value.good_of_holds (h : k.Holds v) : v.Good deep u s (.prim k) :=
  ⟨h, Store.grounded_of_holds h⟩

/-- A wrapper is a finished value of its type. -/
theorem Value.good_boxed {w : Wrapper} (h : w.kind = k) : (Value.boxed w).Good deep u s (.boxed k) :=
  ⟨.inr ⟨w, rfl, h⟩, Store.grounded_boxed w⟩

theorem Value.good_string (text : String) : (Value.string text).Good deep u s .string :=
  ⟨.inr ⟨text, rfl⟩, Store.grounded_string text⟩

/-- No wrapper shares its class with anything else. -/
theorem Kind.wrapperClass_not_mem (k : Kind) : k.wrapperClass ∉ [ClassName.object,
    ClassName.number, ClassName.string, ClassName.map, ClassName.list, ClassName.set,
    ClassName.iterator, ClassName.entry] ++ ClassName.maps ++ ClassName.lists := by
  cases k <;> decide +kernel

theorem Kind.eq_of_wrapperClass {j : Kind} (h : j.wrapperClass = k.wrapperClass) : j = k := by
  cases j <;> cases k <;> first | rfl | exact absurd h (by decide +kernel)

theorem Value.eq_boxed_of_isInstance (h : v.isInstance k.wrapperClass = true) :
    v = .null ∨ ∃ w, v = .boxed w ∧ w.kind = k := by
  have hk := k.wrapperClass_not_mem
  cases v with
  | null => exact .inl rfl
  | boxed w =>
    refine .inr ⟨w, rfl, (Kind.eq_of_wrapperClass ?_).symm⟩
    simp_all [isInstance]
  | _ => simp_all [isInstance]

theorem Value.eq_string_of_isInstance (h : v.isInstance ClassName.string = true) :
    v = .null ∨ ∃ text, v = .string text := by
  cases v with
  | null => exact .inl rfl
  | string text => exact .inr ⟨text, rfl⟩
  | boxed w => cases w <;> cases (show false = true from h)
  | _ => cases (show false = true from h)

theorem Value.eq_number_of_isInstance (h : v.isInstance ClassName.number = true) :
    v = .null ∨ ∃ w, v = .boxed w ∧ w.kind.isNumeric = true := by
  cases v with
  | null => exact .inl rfl
  | boxed w =>
    refine .inr ⟨w, rfl, ?_⟩
    cases w with
    | boolean => cases (show false = true from h)
    | _ => rfl
  | _ => cases (show false = true from h)

theorem Value.eq_map_of_isInstance {key value : Ty}
    (h : v.isInstance (Ty.record key value).className = true) : v = .null ∨ ∃ a, v = .map a := by
  cases v with
  | null => exact .inl rfl
  | map a => exact .inr ⟨a, rfl⟩
  | boxed w => cases w <;> cases (show false = true from h)
  | _ => cases (show false = true from h)

theorem Value.eq_list_of_isInstance {element : Ty}
    (h : v.isInstance (Ty.array element).className = true) : v = .null ∨ ∃ a, v = .list a := by
  cases v with
  | null => exact .inl rfl
  | list a => exact .inr ⟨a, rfl⟩
  | boxed w => cases w <;> cases (show false = true from h)
  | _ => cases (show false = true from h)

/-- What passes the check of a cast is of the type that is checked for. -/
theorem Value.conforms_of_isInstance (hp : t.isPrimitive = false) (hn : t ≠ .null)
    (hd : deep = true → t.isContainer = false) (hv : v.stackKind = .reference)
    (h : v.isInstance t.className = true) : v.Conforms deep s t := by
  cases t with
  | prim k => cases hp
  | null => exact absurd rfl hn
  | any => exact hv
  | boxed k => exact eq_boxed_of_isInstance h
  | named name =>
    simp only [Conforms, Kept]
    by_cases hs : name = "String"
    · subst hs
      simpa using eq_string_of_isInstance h
    · by_cases hn : name = "Number"
      · subst hn
        simpa using eq_number_of_isInstance h
      · simp [hs, hn, hv]
  | record key value =>
    rcases eq_map_of_isInstance h with rfl | ⟨a, rfl⟩
    · exact .inl rfl
    · exact .inr ⟨a, rfl, fun h' => by cases hd h'⟩
  | array element =>
    rcases eq_list_of_isInstance h with rfl | ⟨a, rfl⟩
    · exact .inl rfl
    · exact .inr ⟨a, rfl, fun h' => by cases hd h'⟩

/-- Opening a wrapper fails on `null` only. -/
theorem Value.safe_unbox (h : v.Conforms deep s (.boxed k)) : Safe (v.unbox k) k.Holds := by
  rcases h with rfl | ⟨w, rfl, rfl⟩
  · rfl
  · obtain ⟨x, hx, hh⟩ := Kind.exists_unwrap? (w := w) (.inl rfl)
    simp only [unbox, access, hx, if_true]
    exact hh

/-- A step that is made for the type of a value yields a value of its result, or meets an expected
fault. -/
theorem Conversion.safe_convert {step : Conversion} (ht : step.Takes deep t)
    (hv : v.Good deep u s t) : Safe (step.convert s v) (Value.Good deep u s step.result) := by
  cases step with
  | unbox k =>
    subst ht
    exact (Value.safe_unbox hv.conforms).mono fun _ => Value.good_of_holds
  | box k =>
    subst ht
    obtain ⟨w, hw, hk⟩ := Kind.exists_box hv.conforms
    simp only [convert, hw]
    exact Value.good_boxed hk
  | change j k =>
    obtain ⟨rfl, hj, hk⟩ := ht
    have hn : v.stackKind ≠ .reference := by
      rw [hv.conforms.stackKind]
      cases j <;> nofun
    obtain ⟨w, hw, hh⟩ := Kind.exists_toKind? hk hn
    simp only [convert, hw]
    exact Value.good_of_holds hh
  | numberValue k =>
    obtain ⟨rfl, hk⟩ := ht
    rcases hv.conforms with rfl | h
    · rfl
    · obtain ⟨w, rfl, hw⟩ : ∃ w, v = .boxed w ∧ w.kind.isNumeric = true := by simpa using h
      obtain ⟨x, hx, hh⟩ := Kind.exists_unwrap? (.inr ⟨hw, hk⟩)
      simp only [convert, Value.access, hx]
      exact Value.good_of_holds hh
  | checkCast t' =>
    obtain ⟨hp, hn, hd, hs⟩ := ht
    have hr : v.stackKind = .reference := by
      rw [hv.conforms.stackKind]
      rcases hs with rfl | ⟨rfl, -⟩ | ⟨x, -, rfl, -⟩ <;> rfl
    simp only [convert]
    split
    · exact ⟨Value.conforms_of_isInstance hp hn hd hr ‹_›, hv.grounded⟩
    · rfl
  | stringify => exact Value.good_string _

theorem Value.safe_concat (hv : v.Conforms deep s .string) (hw : w.Conforms deep s .string) :
    Safe (v.concat w) (Value.Good deep u s .string) := by
  rcases hv with rfl | hv
  · rfl
  · obtain ⟨a, rfl⟩ : ∃ text, v = .string text := by simpa using hv
    rcases hw with rfl | hw
    · rfl
    · obtain ⟨b, rfl⟩ : ∃ text, w = .string text := by simpa using hw
      exact good_string _

end conversions

namespace Store

variable {deep : Bool} {u : Unfinished} {s s' : Store} {r : RecordTy} {a : Address}
  {e : MapKey × Value} {v : Value}

/-- An entry that a map of a record type may have. -/
structure Admits (deep : Bool) (u : Unfinished) (s : Store) (r : RecordTy) (e : MapKey × Value) :
    Prop where
  reference : e.2.stackKind = .reference
  grounded : s.Grounded u (s.rank u) e.2
  key : deep = true → (Value.ofKey e.1).Kept deep s r.key
  value : deep = true → e.2.Kept deep s r.value

theorem Admits.of_keeps (h : s.Admits deep u r e) (hk : s.Keeps u s') :
    s'.Admits deep u r e where
  reference := h.reference
  grounded := (h.grounded.of_keeps hk).mono hk.rank_le
  key hd := (h.key hd).of_keeps (s.grounded_ofKey u 0 _) hk
  value hd := (h.value hd).of_keeps h.grounded hk

/-- An unfinished map whose entries so far are those of a record type. -/
structure Filling (deep : Bool) (u : Unfinished) (s : Store) (r : RecordTy) (a : Address) :
    Prop where
  valid : a < s.maps.length
  unfinished : a ∈ u.maps
  entries : ∀ e ∈ s.entries a, s.Admits deep u r e

theorem Filling.of_keeps (h : s.Filling deep u r a) (hk : s.Keeps .none s') :
    s'.Filling deep u r a where
  valid := Nat.lt_of_lt_of_le h.valid hk.mapCount
  unfinished := h.unfinished
  entries e he := by
    rw [hk.entries a h.valid (List.not_mem_nil)] at he
    exact (h.entries e he).of_keeps hk.of_none

/-- A new map has no entries, so it may be filled as a record of any type. -/
theorem filling_newMap (s : Store) (r : RecordTy) :
    (s.newMap []).2.Filling deep (u.addMap s.maps.length) r s.maps.length :=
  ⟨by simp [Store.newMap], List.mem_cons_self, by simp [Store.entries, Store.newMap]⟩

theorem mem_put {es : MapEntries} {key : MapKey} (h : e ∈ es.put key v) :
    (e.1 = key ∨ ∃ e' ∈ es, e'.1 = e.1) ∧ (e.2 = v ∨ e ∈ es) := by
  induction es with
  | nil =>
    cases List.mem_singleton.mp h
    exact ⟨.inl rfl, .inl rfl⟩
  | cons x rest ih =>
    obtain ⟨k, w⟩ := x
    rw [MapEntries.put] at h
    split at h
    · rcases List.mem_cons.mp h with rfl | h
      · exact ⟨.inr ⟨(k, w), List.mem_cons_self, rfl⟩, .inl rfl⟩
      · exact ⟨.inr ⟨e, List.mem_cons_of_mem _ h, rfl⟩, .inr (List.mem_cons_of_mem _ h)⟩
    · rcases List.mem_cons.mp h with rfl | h
      · exact ⟨.inr ⟨(k, w), List.mem_cons_self, rfl⟩, .inr List.mem_cons_self⟩
      · obtain ⟨h₁, h₂⟩ := ih h
        refine ⟨?_, h₂.imp_right (List.mem_cons_of_mem _)⟩
        rcases h₁ with h₁ | ⟨e', he', hk⟩
        · exact .inl h₁
        · exact .inr ⟨e', List.mem_cons_of_mem _ he', hk⟩

theorem entries_put (s : Store) {key : MapKey} (h : a < s.maps.length) :
    (s.put a key v).entries a = (s.entries a).put key v := by
  simp [Store.entries, Store.put, h]

/-- What is put into the map is of the record's type, so the map stays so. -/
theorem Filling.put (h : s.Filling deep u r a) (he : s.Admits deep u r e) :
    (s.put a e.1 e.2).Filling deep u r a where
  valid := by simpa [Store.put] using h.valid
  unfinished := h.unfinished
  entries x hx := by
    rw [s.entries_put h.valid] at hx
    obtain ⟨hkey, hvalue⟩ := mem_put hx
    refine Admits.of_keeps ?_ (.put h.unfinished)
    have hk : deep = true → (Value.ofKey x.1).Kept deep s r.key := by
      rcases hkey with hkey | ⟨e', he', hkey⟩
      · exact hkey ▸ he.key
      · exact hkey ▸ (h.entries e' he').key
    rcases hvalue with hvalue | hx
    · exact ⟨hvalue ▸ he.reference, hvalue ▸ he.grounded, hk, hvalue ▸ he.value⟩
    · exact ⟨(h.entries x hx).reference, (h.entries x hx).grounded, hk, (h.entries x hx).value⟩

/-- All the entries of another map may be put if each of them may. -/
theorem Filling.foldl_put {es : MapEntries} (h : s.Filling deep u r a)
    (he : ∀ e ∈ es, s.Admits deep u r e) :
    (es.foldl (fun s e => s.put a e.1 e.2) s).Filling deep u r a := by
  induction es generalizing s with
  | nil => exact h
  | cons e rest ih =>
    refine ih (h.put (he e List.mem_cons_self)) fun e' he' => ?_
    exact (he e' (List.mem_cons_of_mem _ he')).of_keeps (.put h.unfinished)

theorem Keeps.foldl_put {es : MapEntries} (ha : a ∈ u.maps) :
    s.Keeps u (es.foldl (fun s e => s.put a e.1 e.2) s) := by
  induction es generalizing s with
  | nil => exact .refl u s
  | cons e rest ih => exact (Keeps.put ha).trans ih

/-- A map that is filled leads one step further than its contents. -/
theorem Filling.finish (h : s.Filling deep (u.addMap a) r a) (ha : a ∉ u.maps)
    (hu : (u.addMap a).count ≤ s.containers) : (Value.map a).Good deep u s r.toTy where
  conforms := .inr ⟨a, rfl, fun hd e he => ⟨(h.entries e he).key hd, (h.entries e he).value hd⟩⟩
  grounded := by
    have hr : s.rank u = s.rank (u.addMap a) + 1 := by
      simp only [rank, Unfinished.count, Unfinished.addMap, List.length_cons] at hu ⊢
      omega
    rw [hr]
    refine ⟨h.valid, ha, fun e he => ⟨(h.entries e he).reference, ?_⟩⟩
    exact (h.entries e he).grounded.of_subset (List.subset_cons_self _ _) (List.Subset.refl _)

/-- An unfinished list whose items so far are of a type. -/
structure Listing (deep : Bool) (u : Unfinished) (s : Store) (t : Ty) (a : Address) : Prop where
  valid : a < s.lists.length
  unfinished : a ∈ u.lists
  items : ∀ x ∈ s.items a, x.Good deep u s t.storage

theorem listing_newList (s : Store) (t : Ty) :
    (s.newList []).2.Listing deep (u.addList s.lists.length) t s.lists.length :=
  ⟨by simp [Store.newList], List.mem_cons_self, by simp [Store.items, Store.newList]⟩

namespace Listing

variable {t : Ty}

theorem of_keeps (h : s.Listing deep u t a) (hk : s.Keeps .none s') : s'.Listing deep u t a where
  valid := Nat.lt_of_lt_of_le h.valid hk.listCount
  unfinished := h.unfinished
  items x hx := by
    rw [hk.items a h.valid (List.not_mem_nil)] at hx
    exact (h.items x hx).of_keeps hk.of_none

theorem append (h : s.Listing deep u t a) (hv : v.Good deep u s t.storage) :
    (s.append a v).Listing deep u t a where
  valid := by simpa [Store.append] using h.valid
  unfinished := h.unfinished
  items x hx := by
    have hi : (s.append a v).items a = s.items a ++ [v] := by
      simp [Store.items, Store.append, h.valid]
    refine Value.Good.of_keeps ?_ (.append h.unfinished)
    rw [hi] at hx
    rcases List.mem_append.mp hx with hx | hx
    · exact h.items x hx
    · cases List.mem_singleton.mp hx
      exact hv

/-- A list that is filled is a finished value of its type. -/
theorem finish (h : s.Listing deep (u.addList a) t a) (ha : a ∉ u.lists)
    (hu : (u.addList a).count ≤ s.containers) : (Value.list a).Good deep u s (.array t) where
  conforms := .inr ⟨a, rfl, fun _ x hx => Value.conforms_storage.mp (h.items x hx).conforms⟩
  grounded := by
    have hr : s.rank u = s.rank (u.addList a) + 1 := by
      simp only [rank, Unfinished.count, Unfinished.addList, List.length_cons] at hu ⊢
      omega
    rw [hr]
    refine ⟨h.valid, ha, fun x hx => ⟨?_, ?_⟩⟩
    · exact (Value.conforms_storage.mp (h.items x hx).conforms).stackKind
    · exact (h.items x hx).grounded.of_subset (List.Subset.refl _) (List.subset_cons_self _ _)

end Listing

end Store

end StackExpr
