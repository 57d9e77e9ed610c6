import Mathlib.Logic.Relation
import StackExpr.Machine.Step

/-! Runs of a sequence as chains of single steps, code found at a position, and where labels are. -/
namespace StackExpr

/-- The machine as an instruction finds it: it already points at the next one. -/
def Machine.advance (m : Machine) : Machine := { m with next := m.next + 1 }

/-- The label an instruction places. -/
def Instr.placed? : Instr → Option Label
  | label l => some l
  | _ => none

namespace Sequence

variable {s : Sequence} {m m' : Machine} {f : Fault} {r : Except Failure Execution}
  {p : Nat} {l : Label} {i : Instr} {a b code : List Instr}

def Next (s : Sequence) (m m' : Machine) : Prop :=
  ∃ i, s.code[m.next]? = some i ∧ s.step i m.advance = .ok () m'

def Fails (s : Sequence) (m : Machine) (f : Fault) : Prop :=
  ∃ i m', s.code[m.next]? = some i ∧ s.step i m.advance = .error f m'

def Reaches (s : Sequence) : Machine → Machine → Prop := Relation.ReflTransGen s.Next

/-- What a run answers once it is given steps enough. -/
def Answers (s : Sequence) (r : Except Failure Execution) : Prop :=
  ∃ enough, ∀ steps, enough ≤ steps → s.run steps = some r

theorem runFrom_succ_of_next (h : s.Next m m') (steps : Nat) :
    s.runFrom (steps + 1) m = s.runFrom steps m' := by
  obtain ⟨i, hi, hs⟩ := h
  have hs' : s.step i { m with next := m.next + 1 } = .ok () m' := hs
  simp [runFrom, hi, hs']

theorem runFrom_succ_of_fails (h : s.Fails m f) (steps : Nat) :
    s.runFrom (steps + 1) m = some (.error ⟨f, m.next⟩) := by
  obtain ⟨i, m', hi, hs⟩ := h
  have hs' : s.step i { m with next := m.next + 1 } = .error f m' := hs
  simp [runFrom, hi, hs']

theorem runFrom_succ_of_end (h : s.code.length ≤ m.next) (steps : Nat) :
    s.runFrom (steps + 1) m = some (s.finish m) := by
  simp [runFrom, List.getElem?_eq_none h]

/-- A chain of steps only uses up steps. -/
theorem runFrom_of_reaches (h : s.Reaches m m') :
    ∃ n, ∀ steps, s.runFrom (n + steps) m = s.runFrom steps m' := by
  induction h using Relation.ReflTransGen.head_induction_on with
  | refl => exact ⟨0, fun steps => by rw [Nat.zero_add]⟩
  | head hs _ ih =>
    obtain ⟨n, hn⟩ := ih
    refine ⟨n + 1, fun steps => ?_⟩
    rw [show n + 1 + steps = n + steps + 1 by omega, runFrom_succ_of_next hs, hn]

/-- A run answers what it answers from a machine it reaches. -/
theorem answers_of_runFrom (hd : danglingLabel? s.code = none)
    (h : s.Reaches (.start s.maxLocals) m) (hm : ∀ steps, s.runFrom (steps + 1) m = some r) :
    s.Answers r := by
  obtain ⟨n, hn⟩ := runFrom_of_reaches h
  refine ⟨n + 1, fun steps hle => ?_⟩
  have he : steps = n + (steps - n - 1 + 1) := by omega
  rw [run, hd, he]
  exact (hn _).trans (hm _)

theorem answers_of_reaches_end (hd : danglingLabel? s.code = none)
    (h : s.Reaches (.start s.maxLocals) m) (he : s.code.length ≤ m.next) :
    s.Answers (s.finish m) :=
  answers_of_runFrom hd h (runFrom_succ_of_end he)

theorem answers_of_reaches_fails (hd : danglingLabel? s.code = none)
    (h : s.Reaches (.start s.maxLocals) m) (hf : s.Fails m f) :
    s.Answers (.error ⟨f, m.next⟩) :=
  answers_of_runFrom hd h (runFrom_succ_of_fails hf)

/-- A machine goes on, meets a fault or has reached the end. -/
theorem next_or_fails (s : Sequence) (m : Machine) (h : m.next < s.code.length) :
    (∃ m', s.Next m m') ∨ ∃ f, s.Fails m f := by
  have hi : s.code[m.next]? = some s.code[m.next] := List.getElem?_eq_getElem h
  cases hs : s.step s.code[m.next] m.advance with
  | ok u m' => exact .inl ⟨m', _, hi, hs⟩
  | error f m' => exact .inr ⟨f, _, m', hi, hs⟩

/-- Whatever a run answers, it got there by single steps. -/
theorem reaches_of_runFrom {n : Nat} (h : s.runFrom n m = some r) :
    ∃ m', s.Reaches m m' ∧ (s.code.length ≤ m'.next ∧ r = s.finish m' ∨
      ∃ f, s.Fails m' f ∧ r = .error ⟨f, m'.next⟩) := by
  induction n generalizing m with
  | zero => simp [runFrom] at h
  | succ n ih =>
    by_cases hlt : m.next < s.code.length
    · obtain ⟨m', hn⟩ | ⟨f, hf⟩ := next_or_fails s m hlt
      · rw [runFrom_succ_of_next hn] at h
        obtain ⟨m'', hr, ho⟩ := ih h
        exact ⟨m'', .head hn hr, ho⟩
      · rw [runFrom_succ_of_fails hf] at h
        exact ⟨m, .refl, .inr ⟨f, hf, (Option.some.inj h).symm⟩⟩
    · rw [runFrom_succ_of_end (by omega)] at h
      exact ⟨m, .refl, .inl ⟨by omega, (Option.some.inj h).symm⟩⟩

/-- A run that was given steps enough answers the same with more. -/
theorem answers_of_run {n : Nat} (h : s.run n = some r) : s.Answers r := by
  cases hd : danglingLabel? s.code with
  | some l =>
    rw [run, hd] at h
    exact ⟨0, fun steps _ => by rw [run, hd]; exact h⟩
  | none =>
    rw [run, hd] at h
    obtain ⟨m', hr, ⟨he, rfl⟩ | ⟨f, hf, rfl⟩⟩ := reaches_of_runFrom h
    · exact answers_of_reaches_end hd hr he
    · exact answers_of_reaches_fails hd hr hf

/-- A run has one answer. -/
theorem Answers.unique {r' : Except Failure Execution} (h : s.Answers r) (h' : s.Answers r') :
    r = r' := by
  obtain ⟨n, hn⟩ := h
  obtain ⟨n', hn'⟩ := h'
  have he := (hn (n + n') (by omega)).symm.trans (hn' (n + n') (by omega))
  exact Option.some.inj he

/-- The sequence has this code from a position on. -/
def HasCode (s : Sequence) (p : Nat) (code : List Instr) : Prop := code <+: s.code.drop p

theorem hasCode_self (s : Sequence) : s.HasCode 0 s.code := List.prefix_rfl

theorem HasCode.left (h : s.HasCode p (a ++ b)) : s.HasCode p a := (List.prefix_append a b).trans h

/-- Code after other code stands further on by the length of that. -/
theorem HasCode.right (h : s.HasCode p (a ++ b)) : s.HasCode (p + a.length) b := by
  obtain ⟨rest, hr⟩ := h
  refine ⟨rest, ?_⟩
  rw [← List.drop_drop, ← hr, List.append_assoc, List.drop_left]

theorem HasCode.head (h : s.HasCode p (i :: b)) : s.code[p]? = some i := by
  obtain ⟨rest, hr⟩ := h
  have := congrArg (·[0]?) hr
  simpa using this.symm

end Sequence

section labels

variable {l : Label} {code : List Instr} {p : Nat}

theorem getElem?_of_labelPosition? (h : labelPosition? l code = some p) :
    code[p]? = some (.label l) := by
  induction code generalizing p with
  | nil => simp [labelPosition?] at h
  | cons i rest ih =>
    unfold labelPosition? at h
    split at h
    · next q hq =>
      cases h
      simpa using ih hq
    · split at h
      · next he => cases h; simp [he]
      · simp at h
    · simp at h

theorem labelPosition?_ne_none (h : code[p]? = some (.label l)) : labelPosition? l code ≠ none := by
  induction code generalizing p with
  | nil => simp at h
  | cons i rest ih =>
    cases p with
    | zero =>
      simp only [List.getElem?_cons_zero, Option.some.injEq] at h
      subst h
      unfold labelPosition?
      split <;> simp_all
    | succ p =>
      have := ih (by simpa using h)
      unfold labelPosition?
      split <;> simp_all

/-- Where no label is placed twice, each is found where it stands. -/
theorem labelPosition?_eq (hn : (code.filterMap Instr.placed?).Nodup)
    (h : code[p]? = some (.label l)) : labelPosition? l code = some p := by
  obtain ⟨q, hq⟩ := Option.ne_none_iff_exists'.mp (labelPosition?_ne_none h)
  rw [hq]
  have hl := getElem?_of_labelPosition? hq
  clear hq
  congr 1
  induction code generalizing p q with
  | nil => simp at h
  | cons i rest ih =>
    cases p with
    | zero =>
      cases q with
      | zero => rfl
      | succ q =>
        simp only [List.getElem?_cons_zero, Option.some.injEq] at h
        subst h
        have hm := List.mem_of_getElem? (by simpa using hl : rest[q]? = _)
        simp only [List.filterMap_cons, Instr.placed?, List.nodup_cons] at hn
        exact (hn.1 (List.mem_filterMap.mpr ⟨_, hm, rfl⟩)).elim
    | succ p =>
      cases q with
      | zero =>
        simp only [List.getElem?_cons_zero, Option.some.injEq] at hl
        subst hl
        have hm := List.mem_of_getElem? (by simpa using h : rest[p]? = _)
        simp only [List.filterMap_cons, Instr.placed?, List.nodup_cons] at hn
        exact (hn.1 (List.mem_filterMap.mpr ⟨_, hm, rfl⟩)).elim
      | succ q =>
        have hr : (rest.filterMap Instr.placed?).Nodup := by
          simp only [List.filterMap_cons] at hn
          split at hn
          · exact hn
          · exact (List.nodup_cons.mp hn).2
        rw [ih hr (by simpa using h) q (by simpa using hl)]

/-- If every jump has its label, none dangles. -/
theorem danglingLabel?_eq_none
    (h : ∀ i ∈ code, ∀ l, i.target? = some l → ∃ p : Nat, code[p]? = some (Instr.label l)) :
    danglingLabel? code = none := by
  rw [danglingLabel?, List.find?_eq_none]
  intro l hl
  obtain ⟨i, hi, ht⟩ := List.mem_filterMap.mp hl
  obtain ⟨p, hp⟩ := h i hi l ht
  have := labelPosition?_ne_none hp
  simpa [Option.isNone_iff_eq_none] using this

end labels

end StackExpr
