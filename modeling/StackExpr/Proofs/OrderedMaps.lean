import Mathlib
import StackExpr.Machine.Store

/-! Maps as lists of pairs.

A map is what putting pairs one after the other leaves: each key once, where it came first, with the
value that came last. -/
namespace StackExpr

/-- A kind and its bits determine a wrapper. -/
theorem Wrapper.identity_injective : Function.Injective identity := by
  intro a b h
  have hbits := congrArg Prod.snd h
  cases a <;> cases b <;> cases congrArg Prod.fst h
  · rw [Int8.toInt_inj.mp hbits]
  · rw [Int16.toInt_inj.mp hbits]
  · rw [UInt16.toNat_inj.mp (Int.ofNat_inj.mp hbits)]
  · rw [Int32.toInt_inj.mp hbits]
  · rw [Int64.toInt_inj.mp hbits]
  · rw [Float32.toBits_inj.mp (UInt32.toNat_inj.mp (Int.ofNat_inj.mp hbits))]
  · rw [Float.toBits_inj.mp (UInt64.toNat_inj.mp (Int.ofNat_inj.mp hbits))]
  · next v w => cases v <;> cases w <;> first | rfl | cases hbits

instance : LawfulBEq Wrapper where
  rfl {a} := beq_self_eq_true a.identity
  eq_of_beq h := Wrapper.identity_injective (eq_of_beq (α := Kind × Int) h)

instance : LawfulBEq MapKey where
  rfl {a} := by
    cases a with
    | null => rfl
    | string s => exact beq_self_eq_true s
    | boxed w => exact beq_self_eq_true w
  eq_of_beq {a b} h := by
    cases a <;> cases b <;> first | cases h | skip
    · rfl
    · rw [eq_of_beq (α := String) h]
    · rw [eq_of_beq (α := Wrapper) h]

instance : DecidableEq MapKey := instDecidableEqOfLawfulBEq

namespace MapEntries

variable {m n ps : MapEntries} {k k' : MapKey} {v w : Value} {p : MapKey × Value}

/-- Puts pairs in their order. -/
def putAll (m ps : MapEntries) : MapEntries := ps.foldl (fun m p => m.put p.1 p.2) m

/-- Whether a map has a key. -/
def has (m : MapEntries) (k : MapKey) : Bool := m.any (·.1 == k)

/-- No key occurs twice. -/
def Distinct (m : MapEntries) : Prop := (m.map (·.1)).Nodup

theorem putAll_cons : m.putAll (p :: ps) = (m.put p.1 p.2).putAll ps := rfl

/-- To put pairs one after the other is to put the first of them, then the rest. -/
theorem putAll_append : m.putAll (ps ++ n) = (m.putAll ps).putAll n := List.foldl_append

theorem has_cons : has (p :: m) k = (p.1 == k || m.has k) := rfl

theorem has_iff : m.has k = true ↔ k ∈ m.map (·.1) := by
  simp only [has, List.any_eq_true, beq_iff_eq, List.mem_map]

theorem distinct_nil : Distinct [] := List.nodup_nil

theorem distinct_cons : Distinct (p :: m) ↔ m.has p.1 = false ∧ m.Distinct := by
  rw [Distinct, List.map_cons, List.nodup_cons, ← has_iff, Bool.not_eq_true, Distinct]

theorem put_cons_of_eq (h : p.1 = k) : put k v (p :: m) = (k, v) :: m := by
  rw [put, if_pos (beq_iff_eq.mpr h), h]

theorem put_cons_of_ne (h : p.1 ≠ k) : put k v (p :: m) = p :: m.put k v :=
  if_neg (mt beq_iff_eq.mp h)

/-- A key that the map has keeps its place, and a new one comes last. -/
theorem keys_put : (m.put k v).map (·.1) = if m.has k then m.map (·.1) else m.map (·.1) ++ [k] := by
  induction m with
  | nil => rfl
  | cons p rest ih =>
    by_cases h : p.1 = k
    · simp [put_cons_of_eq h, has_cons, h]
    · simp only [put_cons_of_ne h, has_cons, beq_false_of_ne h, List.map_cons, ih, Bool.false_or]
      split <;> rfl

theorem has_put : (m.put k v).has k' = (k == k' || m.has k') := by
  induction m with
  | nil => rfl
  | cons p rest ih =>
    by_cases h : p.1 = k
    · simp [put_cons_of_eq h, has_cons, h]
    · rw [put_cons_of_ne h, has_cons, has_cons, ih]
      exact Bool.or_left_comm ..

theorem Distinct.put (h : m.Distinct) : (m.put k v).Distinct := by
  rw [Distinct, keys_put]
  split
  · exact h
  · next hk => exact h.append (List.nodup_singleton k) (by simpa [has_iff] using hk)

/-- The last value that was put under a key is the one it has. -/
theorem get?_put : (m.put k v).get? k' = if k == k' then some v else m.get? k' := by
  induction m with
  | nil => cases h : k == k' <;> simp [put, get?, h]
  | cons p rest ih =>
    simp only [get?] at ih ⊢
    by_cases h : p.1 = k
    · rw [put_cons_of_eq h, List.find?_cons, List.find?_cons, h]
      cases k == k' <;> rfl
    · rw [put_cons_of_ne h, List.find?_cons, List.find?_cons]
      by_cases h' : p.1 = k'
      · rw [beq_false_of_ne (fun hk => h (h'.trans hk.symm)), beq_iff_eq.mpr h']
        rfl
      · rw [beq_false_of_ne h']
        exact ih

/-- The value that a key had does not matter to a later one. -/
theorem put_put : (m.put k v).put k w = m.put k w := by
  induction m with
  | nil => exact put_cons_of_eq rfl
  | cons p rest ih =>
    by_cases hk : p.1 = k
    · rw [put_cons_of_eq hk, put_cons_of_eq hk]
      exact put_cons_of_eq rfl
    · rw [put_cons_of_ne hk, put_cons_of_ne hk, put_cons_of_ne hk, ih]

/-- A key that has its place may take its value earlier. -/
theorem put_put_comm (hk : m.has k = true) (h : k ≠ k') :
    (m.put k' w).put k v = (m.put k v).put k' w := by
  induction m with
  | nil => cases hk
  | cons p rest ih =>
    by_cases hp : p.1 = k
    · have hp' : p.1 ≠ k' := hp ▸ h
      rw [put_cons_of_ne hp', put_cons_of_eq hp, put_cons_of_eq hp]
      exact (put_cons_of_ne h).symm
    · rw [has_cons, beq_false_of_ne hp, Bool.false_or] at hk
      rw [put_cons_of_ne hp]
      by_cases hp' : p.1 = k'
      · rw [put_cons_of_eq hp', put_cons_of_eq hp']
        exact put_cons_of_ne h.symm
      · rw [put_cons_of_ne hp', put_cons_of_ne hp', put_cons_of_ne hp, ih hk]

theorem Distinct.putAll (h : m.Distinct) : (m.putAll ps).Distinct := by
  induction ps generalizing m with
  | nil => exact h
  | cons p rest ih => exact ih h.put

theorem has_putAll : (m.putAll ps).has k = (m.has k || ps.has k) := by
  induction ps generalizing m with
  | nil => exact (Bool.or_false _).symm
  | cons p rest ih =>
    rw [putAll_cons, ih, has_put, has_cons]
    cases p.1 == k <;> simp

/-- Of many pairs with one key the last one counts. -/
theorem get?_putAll : (m.putAll ps).get? k = (get? ps.reverse k).or (m.get? k) := by
  induction ps generalizing m with
  | nil => rfl
  | cons p rest ih =>
    rw [putAll_cons, ih, get?_put]
    simp only [get?, List.reverse_cons, List.find?_append, Option.map_or, Option.or_assoc]
    cases h : p.1 == k <;> simp [h]

/-- A new key comes after the old ones, where it occurs first. -/
theorem keys_putAll : (m.putAll ps).map (·.1) =
    m.map (·.1) ++ ((ps.map (·.1)).filter fun k => !m.has k).eraseDups := by
  induction ps generalizing m with
  | nil => simp [putAll]
  | cons p rest ih =>
    rw [putAll_cons, ih, keys_put, List.map_cons, List.filter_cons]
    cases h : m.has p.1 with
    | true =>
      have hf : (fun k => !(m.put p.1 p.2).has k) = fun k => !m.has k := by
        funext k
        rw [has_put]
        by_cases hk : p.1 = k
        · rw [← hk, h, Bool.or_true]
        · rw [beq_false_of_ne hk, Bool.false_or]
      simp only [hf, if_true, Bool.not_true, Bool.false_eq_true, if_false]
    | false =>
      have hf : (fun k => !(m.put p.1 p.2).has k) = fun k => (!k == p.1) && !m.has k := by
        funext k
        rw [has_put, Bool.not_or, BEq.comm]
      simp only [hf, Bool.not_false, if_true, Bool.false_eq_true, if_false, List.append_assoc,
        List.eraseDups_cons, List.filter_filter]
      rfl

theorem putAll_put_comm (hk : m.has k = true) (h : ps.has k = false) :
    (m.putAll ps).put k v = (m.put k v).putAll ps := by
  induction ps generalizing m with
  | nil => rfl
  | cons p rest ih =>
    obtain ⟨hp, hrest⟩ := Bool.or_eq_false_iff.mp (has_cons ▸ h)
    rw [putAll_cons, putAll_cons, ih (by rw [has_put, hk, Bool.or_true]) hrest,
      put_put_comm hk (ne_of_beq_false hp).symm]

/-- To change a value of a map before it is copied or in the copy is the same. -/
theorem putAll_put (hn : n.Distinct) : m.putAll (n.put k v) = (m.putAll n).put k v := by
  induction n generalizing m with
  | nil => rfl
  | cons p rest ih =>
    obtain ⟨hp, hrest⟩ := distinct_cons.mp hn
    by_cases hk : p.1 = k
    · subst hk
      have hhas : (m.put p.1 p.2).has p.1 = true := by rw [has_put, BEq.rfl, Bool.true_or]
      rw [put_cons_of_eq rfl, putAll_cons, putAll_cons, putAll_put_comm hhas hp, put_put]
    · rw [put_cons_of_ne hk, putAll_cons, putAll_cons, ih hrest]

/-- To put pairs into a map and to copy it are to put them into the copy. -/
theorem putAll_putAll (hn : n.Distinct) : m.putAll (n.putAll ps) = (m.putAll n).putAll ps := by
  induction ps generalizing n with
  | nil => rfl
  | cons p rest ih => rw [putAll_cons, ih hn.put, putAll_put hn, putAll_cons]

/-- A map holds each key that occurs among some pairs once, in the order of their first
occurrences, with its last value. -/
structure Records (m ps : MapEntries) : Prop where
  once : m.Distinct
  order : m.map (·.1) = (ps.map (·.1)).eraseDups
  last : ∀ k, m.get? k = get? ps.reverse k

/-- Putting pairs into an empty map leaves just what they record. -/
theorem records_putAll (ps : MapEntries) : Records (putAll [] ps) ps where
  once := distinct_nil.putAll
  order := by
    have hall : (ps.map (·.1)).filter (fun k => !has [] k) = ps.map (·.1) :=
      List.filter_eq_self.mpr fun _ _ => rfl
    rw [keys_putAll, hall]
    rfl
  last k := by
    rw [get?_putAll]
    exact Option.or_none

end MapEntries

end StackExpr
