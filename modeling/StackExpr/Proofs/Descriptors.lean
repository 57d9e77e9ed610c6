import Mathlib
import StackExpr.Code.Descriptor
import StackExpr.Type.Kind

/-! The grammar of method descriptors.

A descriptor lists the types of the arguments between parentheses, then the type of the result.
Counting reads a descriptor as its grammar does, and nothing that follows it. -/
namespace StackExpr.Descriptor

/-- The name of a class in a descriptor, where the first semicolon ends it. -/
structure ClassText where
  letters : List Char
  unclosed : ';' ∉ letters

/-- The type of an argument or of a result. -/
inductive FieldType where
  | prim (kind : Kind)
  | object (name : ClassText)
  | array (element : FieldType)

namespace FieldType

/-- The type as it is spelled in a descriptor. -/
def letters : FieldType → List Char
  | prim k => k.descriptor.toList
  | object name => 'L' :: (name.letters ++ [';'])
  | array element => '[' :: element.letters

/-- The name of the class that occurs in the type, if one does. -/
def className : FieldType → List Char
  | prim _ => []
  | object name => name.letters
  | array element => element.className

/-- An array is a reference, whatever its elements. -/
def slots : FieldType → Nat
  | prim .long | prim .double => 2
  | _ => 1

end FieldType

/-- A method without a result is marked as such, and its result takes no slot. -/
def resultLetters (result : Option FieldType) : List Char := result.elim ['V'] (·.letters)

def resultSlots (result : Option FieldType) : Nat := result.elim 0 (·.slots)

/-- The types of the arguments of a method and, if it has one, of its result. -/
structure MethodType where
  arguments : List FieldType
  result : Option FieldType

namespace MethodType

def argumentLetters (m : MethodType) : List Char := m.arguments.flatMap (·.letters)

/-- No name among the arguments has a parenthesis that they could be taken to end at. -/
def Separable (m : MethodType) : Prop := ∀ t ∈ m.arguments, ')' ∉ t.className

/-- The descriptor of a method of the type. -/
def text (m : MethodType) : String :=
  .ofList ('(' :: (m.argumentLetters ++ ')' :: resultLetters m.result))

/-- The slots of the arguments together, and those of the result. -/
def slots (m : MethodType) : Nat × Nat :=
  ((m.arguments.map (·.slots)).sum, resultSlots m.result)

end MethodType

/-- A descriptor and nothing more. -/
def WellFormed (d : String) : Prop := ∃ m : MethodType, d = m.text

variable {t t' : FieldType} {ts ts' : List FieldType} {m m' : MethodType} {n fuel : Nat}
  {cs x y rest : List Char}

theorem afterSemicolon?_append (h : ';' ∉ cs) :
    afterSemicolon? (cs ++ ';' :: rest) = some rest := by
  induction cs with
  | nil => rfl
  | cons c cs ih =>
    rw [List.mem_cons, not_or] at h
    rw [List.cons_append, afterSemicolon?, if_neg (Ne.symm h.1), ih h.2]

theorem afterSemicolon?_eq_some (h : afterSemicolon? cs = some rest) :
    ∃ name : ClassText, cs = name.letters ++ ';' :: rest := by
  induction cs with
  | nil => cases h
  | cons c cs ih =>
    rw [afterSemicolon?] at h
    split at h
    · next hc =>
      cases h
      exact ⟨⟨[], List.not_mem_nil⟩, by rw [hc]; rfl⟩
    · next hc =>
      obtain ⟨name, rfl⟩ := ih h
      have hname : ';' ∉ c :: name.letters := by simp [Ne.symm hc, name.unclosed]
      exact ⟨⟨c :: name.letters, hname⟩, rfl⟩

/-- A type is read to its end and no further. -/
theorem field?_letters (t : FieldType) (rest : List Char) :
    field? (t.letters ++ rest) = some (t.slots, rest) := by
  induction t with
  | prim k => cases k <;> rfl
  | object name =>
    rw [FieldType.letters, List.cons_append, List.append_assoc]
    exact congrArg (Option.map _) (afterSemicolon?_append name.unclosed)
  | array element ih => exact congrArg (Option.map _) ih

theorem field?_eq_some (h : field? cs = some (n, rest)) :
    ∃ t : FieldType, cs = t.letters ++ rest ∧ n = t.slots := by
  fun_induction field? cs generalizing n with
  | case1 => cases h
  | case2 => cases h; exact ⟨.prim .long, rfl, rfl⟩
  | case3 => cases h; exact ⟨.prim .double, rfl, rfl⟩
  | case4 => cases h; exact ⟨.prim .byte, rfl, rfl⟩
  | case5 => cases h; exact ⟨.prim .char, rfl, rfl⟩
  | case6 => cases h; exact ⟨.prim .float, rfl, rfl⟩
  | case7 => cases h; exact ⟨.prim .int, rfl, rfl⟩
  | case8 => cases h; exact ⟨.prim .short, rfl, rfl⟩
  | case9 => cases h; exact ⟨.prim .boolean, rfl, rfl⟩
  | case10 cs =>
    obtain ⟨r, hr, he⟩ := Option.map_eq_some_iff.mp h
    cases he
    obtain ⟨name, rfl⟩ := afterSemicolon?_eq_some hr
    exact ⟨.object name, by simp [FieldType.letters], rfl⟩
  | case11 cs ih =>
    obtain ⟨r, hr, he⟩ := Option.map_eq_some_iff.mp h
    cases he
    obtain ⟨t, rfl, -⟩ := ih hr
    exact ⟨.array t, rfl, rfl⟩
  | case12 => cases h

/-- What no type can be read from starts with no type. -/
theorem letters_append_ne (h : field? cs = none) : t.letters ++ rest ≠ cs := by
  rintro rfl
  rw [field?_letters] at h
  cases h

/-- No type is spelled as the beginning of another. -/
theorem letters_append_right (h : t.letters ++ x = t'.letters ++ y) : x = y := by
  have hx := field?_letters t x
  rw [h, field?_letters, Option.some.injEq] at hx
  exact (congrArg Prod.snd hx).symm

theorem fields?_letters (hf : (ts.flatMap (·.letters)).length ≤ fuel) :
    fields? fuel (ts.flatMap (·.letters)) = some (ts.map (·.slots)).sum := by
  induction ts generalizing fuel with
  | nil => cases fuel <;> rfl
  | cons t ts ih =>
    -- Every type has a letter, so there is fuel for it and less needed after it.
    have hpos : 0 < t.letters.length := by
      have hne : t.letters ++ [] ≠ [] := letters_append_ne rfl
      rwa [List.append_nil, ← List.length_pos_iff] at hne
    rw [List.flatMap_cons, List.length_append] at hf
    obtain ⟨fuel, rfl⟩ := Nat.exists_eq_succ_of_ne_zero (by omega : fuel ≠ 0)
    have hrest : (ts.flatMap (·.letters)).length ≤ fuel := by omega
    rw [List.flatMap_cons, fields?, field?_letters]
    · simp [ih hrest]
    · exact letters_append_ne rfl

/-- Whatever is counted as arguments is a list of types, and their slots are what is counted. -/
theorem fields?_eq_some (h : fields? fuel cs = some n) :
    ∃ ts : List FieldType, cs = ts.flatMap (·.letters) ∧ n = (ts.map (·.slots)).sum := by
  fun_induction fields? fuel cs generalizing n with
  | case1 => cases h; exact ⟨[], rfl, rfl⟩
  | case2 => cases h
  | case3 fuel cs hne ih =>
    obtain ⟨⟨slots, rest⟩, hfield, h⟩ := Option.bind_eq_some_iff.mp h
    obtain ⟨k, hk, h⟩ := Option.bind_eq_some_iff.mp h
    cases h
    obtain ⟨t, rfl, rfl⟩ := field?_eq_some hfield
    obtain ⟨ts, rfl, rfl⟩ := ih rest hk
    exact ⟨t :: ts, rfl, rfl⟩

/-- The arguments end at one parenthesis only, though names may have others. -/
theorem arguments_append_right
    (h : ts.flatMap (·.letters) ++ ')' :: x = ts'.flatMap (·.letters) ++ ')' :: y) : x = y := by
  induction ts generalizing ts' with
  | nil =>
    cases ts' with
    | nil => exact List.tail_eq_of_cons_eq h
    | cons t' ts' =>
      -- No type starts with a parenthesis, so neither list can end before the other.
      rw [List.flatMap_cons, List.append_assoc] at h
      exact (letters_append_ne rfl h.symm).elim
  | cons t ts ih =>
    rw [List.flatMap_cons, List.append_assoc] at h
    cases ts' with
    | nil => exact (letters_append_ne rfl h).elim
    | cons t' ts' =>
      rw [List.flatMap_cons, List.append_assoc] at h
      exact ih (letters_append_right h)

theorem result?_letters (r : Option FieldType) (rest : List Char) :
    result? (resultLetters r ++ rest) = some (resultSlots r) := by
  cases r with
  | none => rfl
  | some t =>
    have hfield := field?_letters t rest
    unfold result?
    split
    · next h => exact (letters_append_ne rfl h).elim
    · next h => exact (letters_append_ne rfl h).elim
    · exact congrArg (Option.map _) hfield

/-- The result is a type or the mark that there is none; what follows it is not looked at. -/
theorem result?_eq_some (h : result? cs = some n) :
    ∃ r rest, cs = resultLetters r ++ rest ∧ n = resultSlots r := by
  unfold result? at h
  split at h
  · cases h
  · cases h
    exact ⟨none, _, rfl, rfl⟩
  · obtain ⟨⟨slots, rest⟩, hfield, rfl⟩ := Option.map_eq_some_iff.mp h
    obtain ⟨t, rfl, rfl⟩ := field?_eq_some hfield
    exact ⟨some t, rest, rfl, rfl⟩

theorem resultLetters_append_right {r r' : Option FieldType}
    (h : resultLetters r ++ x = resultLetters r' ++ y) : x = y := by
  cases r with
  | none =>
    cases r' with
    | none => exact List.tail_eq_of_cons_eq h
    | some t => exact (letters_append_ne rfl h.symm).elim
  | some t =>
    cases r' with
    | none => exact (letters_append_ne rfl h).elim
    | some t' => exact letters_append_right h

theorem toList_text (m : MethodType) :
    m.text.toList = '(' :: (m.argumentLetters ++ ')' :: resultLetters m.result) :=
  String.toList_ofList

/-- What follows a descriptor in a text is determined. -/
theorem text_append_right {r r' : String} (h : m.text ++ r = m'.text ++ r') : r = r' := by
  have hl := congrArg String.toList h
  simp only [String.toList_append, toList_text, List.cons_append, List.append_assoc,
    List.cons.injEq, true_and] at hl
  exact String.toList_inj.mp (resultLetters_append_right (arguments_append_right hl))

theorem parenthesis_mem_letters (t : FieldType) : ')' ∈ t.letters ↔ ')' ∈ t.className := by
  induction t with
  | prim k => cases k <;> decide
  | object name => simp [FieldType.letters, FieldType.className]
  | array element ih => simpa [FieldType.letters, FieldType.className] using ih

theorem separable_iff : m.Separable ↔ ')' ∉ m.argumentLetters := by
  simp [MethodType.Separable, MethodType.argumentLetters, parenthesis_mem_letters]

theorem span_parenthesis (h : ')' ∉ cs) :
    (cs ++ ')' :: rest).span (· != ')') = (cs, ')' :: rest) := by
  have hcs : ∀ c ∈ cs, (c != ')') = true := by
    intro c hc
    rw [bne_iff_ne]
    rintro rfl
    exact h hc
  rw [List.span_eq_takeWhile_dropWhile, List.takeWhile_append_of_pos hcs,
    List.dropWhile_append_of_pos hcs]
  simp

theorem eq_of_span {c : Char} (h : cs.span (· != ')') = (x, c :: y)) :
    ')' ∉ x ∧ cs = x ++ ')' :: y := by
  rw [List.span_eq_takeWhile_dropWhile, Prod.mk.injEq] at h
  obtain ⟨rfl, hdrop⟩ := h
  have hc : c = ')' := by
    have := List.head?_dropWhile_not (· != ')') cs
    rw [hdrop] at this
    simpa using this
  subst hc
  refine ⟨fun hmem => ?_, ?_⟩
  · simpa using List.mem_takeWhile_imp hmem
  · rw [← hdrop, List.takeWhile_append_dropWhile]

/-- What comes after a descriptor is not read. -/
theorem slots?_text_append (h : m.Separable) (rest : String) :
    slots? (m.text ++ rest) = some m.slots := by
  have hl : (m.text ++ rest).toList =
      '(' :: (m.argumentLetters ++ ')' :: (resultLetters m.result ++ rest.toList)) := by
    simp [toList_text]
  unfold slots?
  rw [hl]
  simp only [span_parenthesis (separable_iff.mp h), result?_letters]
  rw [MethodType.argumentLetters, fields?_letters (Nat.le_refl _)]
  rfl

theorem slots?_eq_some {d : String} {p : Nat × Nat} (h : slots? d = some p) :
    ∃ (m : MethodType) (rest : String), m.Separable ∧ d = m.text ++ rest ∧ p = m.slots := by
  unfold slots? at h
  split at h
  · next cs hd =>
    split at h
    · next arguments c result hspan =>
      obtain ⟨a, ha, h⟩ := Option.bind_eq_some_iff.mp h
      obtain ⟨r, hr, h⟩ := Option.bind_eq_some_iff.mp h
      cases h
      obtain ⟨ts, rfl, rfl⟩ := fields?_eq_some ha
      obtain ⟨t, rest, rfl, rfl⟩ := result?_eq_some hr
      obtain ⟨hne, rfl⟩ := eq_of_span hspan
      refine ⟨⟨ts, t⟩, .ofList rest, separable_iff.mpr hne, ?_, rfl⟩
      rw [← String.toList_inj, hd]
      simp [toList_text, MethodType.argumentLetters]
    · cases h
  · cases h

/-- A text that starts with a descriptor is one if and only if nothing follows. -/
theorem wellFormed_append_iff {rest : String} : WellFormed (m.text ++ rest) ↔ rest = "" := by
  constructor
  · rintro ⟨m', h⟩
    exact text_append_right (h.trans m'.text.append_empty.symm)
  · rintro rfl
    exact ⟨m, m.text.append_empty⟩

/-- Slots are counted in the texts that start with a descriptor, and they are the slots of that
descriptor. Such a text is a descriptor if and only if nothing follows. -/
theorem counted_from_descriptor (d : String) (p : Nat × Nat) :
    slots? d = some p ↔ ∃ (m : MethodType) (rest : String), m.Separable ∧ d = m.text ++ rest ∧
      p = m.slots ∧ (WellFormed d ↔ rest = "") := by
  constructor
  · intro h
    obtain ⟨m, rest, hm, rfl, hp⟩ := slots?_eq_some h
    exact ⟨m, rest, hm, rfl, hp, wellFormed_append_iff⟩
  · rintro ⟨m, rest, hm, rfl, rfl, -⟩
    exact slots?_text_append hm rest

/-- A second result is not noticed. -/
theorem counted_with_rest : slots? "()VV" = some (0, 0) ∧ ¬ WellFormed "()VV" := by
  refine ⟨by decide +kernel, ?_⟩
  have htext : "()VV" = (⟨[], none⟩ : MethodType).text ++ "V" := by decide +kernel
  rw [htext, wellFormed_append_iff]
  decide

/-- Each argument counts, and so does the result: two slots for `long` and `double`, one for every
other type. -/
theorem descriptor_slots_counted (m : MethodType) (h : ∀ t ∈ m.arguments, ')' ∉ t.className) :
    slots? m.text = some m.slots := by
  have hm := slots?_text_append h ""
  rwa [String.append_empty] at hm

/-- `([[JJLD;[D)D` has a `long` among references to arrays and to a class that is called `D`. -/
theorem nested_slots_counted : slots? "([[JJLD;[D)D" = some (5, 2) := by
  let m : MethodType := ⟨[.array (.array (.prim .long)), .prim .long, .object ⟨['D'], by decide⟩,
    .array (.prim .double)], some (.prim .double)⟩
  have hm : ∀ t ∈ m.arguments, ')' ∉ t.className := by decide
  exact descriptor_slots_counted m hm

end StackExpr.Descriptor
