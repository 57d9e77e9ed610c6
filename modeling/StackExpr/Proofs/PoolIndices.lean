import Mathlib.Data.Finset.Card
import StackExpr.Proofs.Emission

/-! The indices of a pool.

An index leads to the entry it was handed out for, at that moment and at every later one. Entries
have one index each, counted from one in the order in which they were first added. -/
namespace StackExpr.Pool

variable {p : Pool} {e e' : PoolEntry} {i j : Nat} {es : List PoolEntry}
  {given : List (PoolEntry × Nat)}

/-- Entries that are added one after the other, each with the index that its addition returns. -/
def handedOut (p : Pool) : List PoolEntry → List (PoolEntry × Nat)
  | [] => []
  | e :: es => (e, (p.add e).1) :: (p.add e).2.handedOut es

theorem map_fst_handedOut (p : Pool) (es : List PoolEntry) :
    (p.handedOut es).map Prod.fst = es := by
  induction es generalizing p with
  | nil => rfl
  | cons e es ih => rw [handedOut, List.map_cons, ih]

/-- What was handed out does not depend on what is added later. -/
theorem take_handedOut (p : Pool) (es : List PoolEntry) (n : Nat) :
    (p.handedOut es).take n = p.handedOut (es.take n) := by
  induction es generalizing p n with
  | nil => simp [handedOut]
  | cons e es ih =>
    cases n with
    | zero => rfl
    | succ n => rw [handedOut, List.take_succ_cons, List.take_succ_cons, handedOut, ih]

theorem mem_of_get? (h : p.get? i = some e) : e ∈ p.entries := by
  cases i with
  | zero => cases h
  | succ i => exact List.mem_of_getElem? h

/-- The indices in use go from one to the size. -/
theorem exists_get?_iff : (∃ e, p.get? i = some e) ↔ 1 ≤ i ∧ i ≤ p.size := by
  cases i with
  | zero => simp [get?]
  | succ i =>
    have hlt : (∃ e, p.entries[i]? = some e) ↔ i < p.entries.length := by
      simp [List.getElem?_eq_some_iff]
    exact hlt.trans ⟨fun h => ⟨Nat.le_add_left .., h⟩, And.right⟩

/-- In a pool without repetition an entry has one index. -/
theorem get?_inj (hp : p.entries.Nodup) (hi : p.get? i = some e) (hj : p.get? j = some e) :
    i = j := by
  cases i with
  | zero => cases hi
  | succ i =>
    cases j with
    | zero => cases hj
    | succ j =>
      have hlt : i < p.entries.length := (List.getElem?_eq_some_iff.mp hi).1
      rw [(List.getElem?_inj hlt hp).mp (hi.trans hj.symm)]

/-- The listing has each entry beside its index. -/
theorem mem_toList : (i, e) ∈ p.toList ↔ p.get? i = some e := by
  cases i with
  | zero => simp [toList, get?, List.mem_mapIdx]
  | succ i => simp [toList, get?, List.mem_mapIdx, List.getElem?_eq_some_iff]

theorem map_fst_toList (p : Pool) : p.toList.map Prod.fst = List.range' 1 p.size := by
  apply List.ext_getElem
  · simp [toList, size]
  · intro k hk hk'
    simp [toList, Nat.add_comm]

theorem map_snd_toList (p : Pool) : p.toList.map Prod.snd = p.entries := by
  apply List.ext_getElem
  · simp [toList]
  · intro k hk hk'
    simp [toList]

/-- The pool holds what was added, under the indices that were handed out, and in the order in which
it was first added. -/
structure Keeps (p : Pool) (given : List (PoolEntry × Nat)) : Prop where
  found : ∀ a ∈ given, p.get? a.2 = some a.1
  added : ∀ e ∈ p.entries, e ∈ given.map Prod.fst
  ordered : p.entries.Pairwise fun e e' =>
    (given.map Prod.fst).idxOf e < (given.map Prod.fst).idxOf e'

theorem keeps_empty : Keeps empty [] where
  found := by simp
  added := by simp [empty]
  ordered := .nil

namespace Keeps

theorem mem_iff (h : Keeps p given) : e ∈ p.entries ↔ e ∈ given.map Prod.fst := by
  refine ⟨h.added e, fun he => ?_⟩
  obtain ⟨a, ha, rfl⟩ := List.mem_map.mp he
  exact mem_of_get? (h.found a ha)

theorem nodup (h : Keeps p given) : p.entries.Nodup :=
  h.ordered.imp fun hlt heq => by
    subst heq
    exact Nat.lt_irrefl _ hlt

/-- The order of what is there is the same when more is added behind it. -/
theorem ordered_append (h : Keeps p given) (more : List PoolEntry) :
    p.entries.Pairwise fun e e' =>
      (given.map Prod.fst ++ more).idxOf e < (given.map Prod.fst ++ more).idxOf e' := by
  refine h.ordered.imp_of_mem fun ha hb hlt => ?_
  rwa [List.idxOf_append_of_mem (h.added _ ha), List.idxOf_append_of_mem (h.added _ hb)]

/-- An addition finds the entry in the pool or puts it last, and every other entry keeps its index.
-/
theorem add (h : Keeps p given) (e : PoolEntry) :
    Keeps (p.add e).2 (given ++ [(e, (p.add e).1)]) where
  found := by
    intro a ha
    obtain ha | ha := List.mem_append.mp ha
    · exact get?_of_prefix (prefix_add p e) (h.found a ha)
    · obtain rfl := List.mem_singleton.mp ha
      exact get?_add p e
  added := by
    intro x hx
    rw [List.map_append, List.mem_append]
    rw [Pool.add] at hx
    split at hx
    · exact .inl (h.added x hx)
    · exact (List.mem_append.mp hx).imp_left (h.added x)
  ordered := by
    rw [List.map_append, Pool.add]
    split
    · exact h.ordered_append _
    · next hnew =>
      -- A new entry is behind all others in the pool as it is among the additions.
      refine List.pairwise_append.mpr ⟨h.ordered_append _, List.pairwise_singleton .., ?_⟩
      intro x hx y hy
      obtain rfl := List.mem_singleton.mp hy
      have hx' := h.added x hx
      rw [List.idxOf_append_of_mem hx', List.idxOf_append_of_notMem (mt h.mem_iff.mpr hnew)]
      exact Nat.lt_add_right _ (List.idxOf_lt_length_of_mem hx')

theorem addAll (h : Keeps p given) (es : List PoolEntry) :
    Keeps (es.foldl (fun p e => (p.add e).2) p) (given ++ p.handedOut es) := by
  induction es generalizing p given with
  | nil => simpa [handedOut] using h
  | cons e es ih => simpa [handedOut] using ih (h.add e)

/-- An index leads to an entry if and only if it was handed out for it. -/
theorem given_iff (h : Keeps p given) : (e, i) ∈ given ↔ p.get? i = some e := by
  refine ⟨h.found _, fun hi => ?_⟩
  obtain ⟨⟨x, j⟩, hx, rfl⟩ := List.mem_map.mp (h.added e (mem_of_get? hi))
  rwa [get?_inj h.nodup hi (h.found _ hx)]

theorem same_index_iff (h : Keeps p given) (hi : (e, i) ∈ given) (hj : (e', j) ∈ given) :
    i = j ↔ e = e' := by
  have hi' := h.found _ hi
  have hj' := h.found _ hj
  constructor
  · rintro rfl
    exact Option.some.inj (hi'.symm.trans hj')
  · rintro rfl
    exact get?_inj h.nodup hi' hj'

theorem used_iff (h : Keeps p given) : i ∈ given.map Prod.snd ↔ 1 ≤ i ∧ i ≤ p.size := by
  rw [← exists_get?_iff]
  simp [← h.given_iff]

/-- A pool is no larger than the number of different entries that were to be added. -/
theorem size_le (h : Keeps p given) (hsub : given.map Prod.fst ⊆ es) :
    p.size ≤ es.toFinset.card := by
  rw [size, ← List.toFinset_card_of_nodup h.nodup]
  apply Finset.card_le_card
  intro e he
  rw [List.mem_toFinset] at he ⊢
  exact hsub (h.added e he)

end Keeps

theorem keeps_ofList (es : List PoolEntry) : Keeps (ofList es) (empty.handedOut es) :=
  keeps_empty.addAll es

/-- After any number of additions to an empty pool, an index leads to an entry if and only if it was
handed out for that entry. Two additions returned one index if and only if they were of one entry.
The indices in use are those from one to the size; each fits in sixteen bits. The listing has every
entry once, with its index, in the order of first additions. -/
theorem handed_out_indices_stand (requests : List PoolEntry)
    (hfew : requests.toFinset.card ≤ 65535) (now : Nat) :
    let given := (empty.handedOut requests).take now
    let p := ofList (requests.take now)
    (∀ e i, (e, i) ∈ given ↔ p.get? i = some e) ∧
    (∀ a ∈ given, ∀ b ∈ given, a.2 = b.2 ↔ a.1 = b.1) ∧
    (∀ i, i ∈ given.map Prod.snd ↔ 1 ≤ i ∧ i ≤ p.size) ∧
    (∀ i ∈ given.map Prod.snd, (UInt16.ofNat i).toNat = i) ∧
    (∀ e i, (i, e) ∈ p.toList ↔ (e, i) ∈ given) ∧
    p.toList.map Prod.fst = List.range' 1 p.size ∧
    p.toList.Pairwise fun a b => requests.idxOf a.2 < requests.idxOf b.2 := by
  intro given p
  have hgiven : given = empty.handedOut (requests.take now) := take_handedOut ..
  have hfst : given.map Prod.fst = requests.take now := by rw [hgiven, map_fst_handedOut]
  have h : Keeps p given := hgiven ▸ keeps_ofList _
  have hsize : p.size ≤ 65535 := (h.size_le (hfst ▸ List.take_subset ..)).trans hfew
  refine ⟨fun e i => h.given_iff, fun a ha b hb => h.same_index_iff ha hb, fun i => h.used_iff,
    fun i hi => ?_, fun e i => mem_toList.trans h.given_iff.symm, map_fst_toList p, ?_⟩
  · have hi' := (h.used_iff.mp hi).2.trans hsize
    exact UInt16.toNat_ofNat_of_lt (Nat.lt_succ_of_le hi')
  · have hord := h.ordered_append (requests.drop now)
    rwa [hfst, List.take_append_drop, ← map_snd_toList, List.pairwise_map] at hord

/-- The two zeros differ in one bit, and a class differs from a text that is spelled as its name. -/
theorem zeros_stay_apart :
    let requests : List PoolEntry :=
      [.double 0, .classRef "a", .double 0x8000000000000000, .string "a", .double 0]
    requests.toFinset.card ≤ 65535 ∧
      (empty.handedOut requests).map Prod.snd = [1, 2, 3, 4, 1] ∧
      (ofList requests).get? 3 = some (.double 0x8000000000000000) := by
  intro requests
  have hfew : requests.toFinset.card ≤ 65535 := by decide
  refine ⟨hfew, by decide, ?_⟩
  exact ((handed_out_indices_stand requests hfew 5).1 _ 3).mp (by decide)

end StackExpr.Pool
