import Mathlib.Tactic.Common
import StackExpr.Conversion.Basic
import StackExpr.Machine.Library
import StackExpr.Proofs.Subtyping

/-! Values of a type, and what of it survives while the store grows.

A container that is still being filled is unfinished: nothing that a finished value leads to is
unfinished, so what is put into such a container changes no finished value. -/
namespace StackExpr

/-- Values of a primitive kind. -/
def Kind.Holds : Kind → Value → Prop
  | .boolean, .int n => n = 0 ∨ n = 1
  | .long, .long _ | .float, .float _ | .double, .double _ => True
  | k, .int n => k.stackKind = .int ∧ k.fits n.toInt = true
  | _, _ => False

namespace Value

/-- Values of a type as containers keep them; the contents of containers count only if `deep`. -/
def Kept (deep : Bool) (s : Store) : Ty → Value → Prop
  | .prim k, v | .boxed k, v => v = .null ∨ ∃ w, v = .boxed w ∧ w.kind = k
  | .named name, v => v = .null ∨
    if name = "String" then ∃ text, v = .string text
    else if name = "Number" then ∃ w, v = .boxed w ∧ w.kind.isNumeric = true
    else v.stackKind = .reference
  | .record key value, v => v = .null ∨ ∃ a, v = .map a ∧
    (deep = true → ∀ e ∈ s.entries a, Kept deep s key (.ofKey e.1) ∧ Kept deep s value e.2)
  | .array element, v => v = .null ∨ ∃ a, v = .list a ∧
    (deep = true → ∀ x ∈ s.items a, Kept deep s element x)
  | .null, v => v = .null
  | .any, v => v.stackKind = .reference

/-- Values of a type. -/
def Conforms (deep : Bool) (s : Store) (t : Ty) (v : Value) : Prop :=
  match t with
  | .prim k => k.Holds v
  | t => v.Kept deep s t

end Value

variable {deep : Bool} {s s' : Store} {t t' : Ty} {v w : Value} {k : Kind}

/-- A value of a kind is of the machine's kind for it. -/
theorem Kind.Holds.stackKind (h : k.Holds v) : v.stackKind = k.stackKind := by
  cases k <;> cases v <;> simp_all [Kind.Holds, Value.stackKind, Kind.stackKind]

namespace Value

theorem kept_null (deep : Bool) (s : Store) (t : Ty) : Kept deep s t .null := by
  cases t <;> simp [Kept, stackKind]

theorem Kept.stackKind (h : v.Kept deep s t) : v.stackKind = .reference := by
  cases t with
  | any => exact h
  | null => rw [Kept] at h; rw [h]; rfl
  | named name =>
    rcases h with rfl | h
    · rfl
    · split_ifs at h
      · obtain ⟨text, rfl⟩ := h; rfl
      · obtain ⟨w, rfl, -⟩ := h; rfl
      · exact h
  | prim k | boxed k => rcases h with rfl | ⟨w, rfl, -⟩ <;> rfl
  | record key value => rcases h with rfl | ⟨a, rfl, -⟩ <;> rfl
  | array element => rcases h with rfl | ⟨a, rfl, -⟩ <;> rfl

theorem Conforms.stackKind (h : v.Conforms deep s t) : v.stackKind = t.stackKind := by
  cases t with
  | prim k => exact Kind.Holds.stackKind h
  | _ => exact Kept.stackKind h

/-- In its storage type a value is as containers keep it. -/
theorem conforms_storage : v.Conforms deep s t.storage ↔ v.Kept deep s t := by cases t <;> rfl

theorem conforms_of_not_prim (h : t.isPrimitive = false) :
    v.Conforms deep s t ↔ v.Kept deep s t := by
  cases t <;> first | rfl | cases h

/-- Types of values that fit another type. -/
theorem Kept.of_storesInto (hs : t.storesInto t' = true) (h : v.Kept deep s t) :
    v.Kept deep s t' := by
  fun_induction Ty.storesInto t t' generalizing v with
  | case1 t => exact h.stackKind
  | case2 t _ => rw [h]; exact kept_null ..
  | case3 j k | case4 j k | case5 j k | case6 j k => cases eq_of_beq hs; exact h
  | case7 j name | case8 j name =>
    simp only [Bool.and_eq_true, beq_iff_eq] at hs
    obtain ⟨rfl, hj⟩ := hs
    rcases h with rfl | ⟨w, rfl, rfl⟩
    · exact kept_null ..
    · exact .inr (by simpa using hj)
  | case9 a b => cases eq_of_beq hs; exact h
  | case10 key value key' value' ih₁ ih₂ =>
    simp only [Bool.and_eq_true] at hs
    rcases h with rfl | ⟨a, rfl, h⟩
    · exact kept_null ..
    · exact .inr ⟨a, rfl, fun hd e he => ⟨ih₁ hs.1 (h hd e he).1, ih₂ hs.2 (h hd e he).2⟩⟩
  | case11 element element' ih =>
    rcases h with rfl | ⟨a, rfl, h⟩
    · exact kept_null ..
    · exact .inr ⟨a, rfl, fun hd x hx => ih hs (h hd x hx)⟩
  | case12 => cases hs

/-- A value of a type is one of every type above it. -/
theorem Conforms.of_isSubtype (hs : t.isSubtype t' = true) (h : v.Conforms deep s t) :
    v.Conforms deep s t' := by
  cases t with
  | prim j =>
    cases t' with
    | prim k => cases eq_of_beq (show (j == k) = true from hs); exact h
    | _ => cases hs
  | _ =>
    cases t' with
    | prim k => cases hs
    | _ => exact Kept.of_storesInto hs h

end Value

/-- The containers that are still being filled. -/
structure Unfinished where
  maps : List Address
  lists : List Address

namespace Unfinished

def none : Unfinished := ⟨[], []⟩

def addMap (u : Unfinished) (a : Address) : Unfinished := ⟨a :: u.maps, u.lists⟩

def addList (u : Unfinished) (a : Address) : Unfinished := ⟨u.maps, a :: u.lists⟩

def count (u : Unfinished) : Nat := u.maps.length + u.lists.length

end Unfinished

namespace Store

variable {u u' : Unfinished} {n m : Nat} {a : Address}

def containers (s : Store) : Nat := s.maps.length + s.lists.length

/-- A finished value leads to finished containers only, along paths of bounded length, and takes
no part in a walk over a map. -/
def Grounded (s : Store) (u : Unfinished) : Nat → Value → Prop
  | _, .entrySet _ | _, .iterator _ | _, .entry _ _ | 0, .map _ | 0, .list _ => False
  | n + 1, .map a => a < s.maps.length ∧ a ∉ u.maps ∧
    ∀ e ∈ s.entries a, e.2.stackKind = .reference ∧ Grounded s u n e.2
  | n + 1, .list a => a < s.lists.length ∧ a ∉ u.lists ∧
    ∀ x ∈ s.items a, x.stackKind = .reference ∧ Grounded s u n x
  | _, _ => True

/-- The length that no path of a finished value exceeds: one for each finished container. -/
def rank (s : Store) (u : Unfinished) : Nat := s.containers - u.count

/-- Every container of the first store is in the second, and those that are finished are as they
were. -/
structure Keeps (u : Unfinished) (s s' : Store) : Prop where
  mapCount : s.maps.length ≤ s'.maps.length
  listCount : s.lists.length ≤ s'.lists.length
  entries : ∀ a, a < s.maps.length → a ∉ u.maps → s'.entries a = s.entries a
  items : ∀ a, a < s.lists.length → a ∉ u.lists → s'.items a = s.items a

theorem Grounded.mono (h : s.Grounded u n v) (hn : n ≤ m) : s.Grounded u m v := by
  induction n generalizing v m with
  | zero => cases v <;> cases m <;> simp_all [Grounded]
  | succ n ih =>
    obtain ⟨m, rfl⟩ := Nat.exists_eq_succ_of_ne_zero (by omega : m ≠ 0)
    cases v with
    | map a =>
      obtain ⟨ha, hu, he⟩ := h
      exact ⟨ha, hu, fun e hm => ⟨(he e hm).1, ih (he e hm).2 (by omega)⟩⟩
    | list a =>
      obtain ⟨ha, hu, hx⟩ := h
      exact ⟨ha, hu, fun x hm => ⟨(hx x hm).1, ih (hx x hm).2 (by omega)⟩⟩
    | entrySet | iterator | entry => exact h
    | _ => trivial

/-- Finished containers stay as they are, and what becomes unfinished was not there before. -/
theorem Grounded.transfer (h : s.Grounded u n v) (hk : s.Keeps u s')
    (hm : ∀ a ∈ u'.maps, a ∈ u.maps ∨ s.maps.length ≤ a)
    (hl : ∀ a ∈ u'.lists, a ∈ u.lists ∨ s.lists.length ≤ a) : s'.Grounded u' n v := by
  induction n generalizing v with
  | zero => cases v <;> simp_all [Grounded]
  | succ n ih =>
    cases v with
    | map a =>
      obtain ⟨ha, hu, he⟩ := h
      refine ⟨Nat.lt_of_lt_of_le ha hk.mapCount, fun ha' => ?_, ?_⟩
      · exact (hm a ha').elim hu fun h => absurd ha (Nat.not_lt.mpr h)
      · rw [hk.entries a ha hu]
        exact fun e hx => ⟨(he e hx).1, ih (he e hx).2⟩
    | list a =>
      obtain ⟨ha, hu, hx⟩ := h
      refine ⟨Nat.lt_of_lt_of_le ha hk.listCount, fun ha' => ?_, ?_⟩
      · exact (hl a ha').elim hu fun h => absurd ha (Nat.not_lt.mpr h)
      · rw [hk.items a ha hu]
        exact fun x hx' => ⟨(hx x hx').1, ih (hx x hx').2⟩
    | entrySet | iterator | entry => exact h
    | _ => trivial

/-- A finished value stays finished while unfinished containers are filled. -/
theorem Grounded.of_keeps (h : s.Grounded u n v) (hk : s.Keeps u s') : s'.Grounded u n v :=
  h.transfer hk (fun _ => .inl) fun _ => .inl

theorem Keeps.refl (u : Unfinished) (s : Store) : s.Keeps u s :=
  ⟨Nat.le_refl _, Nat.le_refl _, fun _ _ _ => rfl, fun _ _ _ => rfl⟩

/-- What is finished while more is unfinished is finished. -/
theorem Grounded.of_subset (h : s.Grounded u n v) (hm : u'.maps ⊆ u.maps)
    (hl : u'.lists ⊆ u.lists) : s.Grounded u' n v :=
  h.transfer (.refl u s) (fun _ ha => .inl (hm ha)) fun _ ha => .inl (hl ha)

/-- What is in a finished map is finished. -/
theorem Grounded.entries (h : s.Grounded u n (.map a)) :
    ∀ e ∈ s.entries a, e.2.stackKind = .reference ∧ s.Grounded u n e.2 := by
  cases n with
  | zero => exact h.elim
  | succ n => exact fun e he => ⟨(h.2.2 e he).1, (h.2.2 e he).2.mono (Nat.le_succ n)⟩

theorem grounded_ofKey (s : Store) (u : Unfinished) (n : Nat) (k : MapKey) :
    s.Grounded u n (.ofKey k) := by
  cases k <;> cases n <;> trivial

namespace Keeps

/-- One after the other, steps that keep what is finished keep it. -/
theorem trans {s'' : Store} (h : s.Keeps u s') (h' : s'.Keeps u s'') : s.Keeps u s'' where
  mapCount := Nat.le_trans h.mapCount h'.mapCount
  listCount := Nat.le_trans h.listCount h'.listCount
  entries a ha hu :=
    (h'.entries a (Nat.lt_of_lt_of_le ha h.mapCount) hu).trans (h.entries a ha hu)
  items a ha hu :=
    (h'.items a (Nat.lt_of_lt_of_le ha h.listCount) hu).trans (h.items a ha hu)

theorem mono (h : s.Keeps u s') (hm : u.maps ⊆ u'.maps) (hl : u.lists ⊆ u'.lists) :
    s.Keeps u' s' where
  mapCount := h.mapCount
  listCount := h.listCount
  entries a ha hu := h.entries a ha fun h' => hu (hm h')
  items a ha hu := h.items a ha fun h' => hu (hl h')

/-- Nothing is unfinished for a step that leaves every container as it was. -/
theorem of_none (h : s.Keeps .none s') : s.Keeps u s' :=
  h.mono (List.nil_subset _) (List.nil_subset _)

/-- A map that the first store did not have may be filled freely. -/
theorem forget_map (h : s.Keeps ⟨[a], []⟩ s') (ha : s.maps.length ≤ a) : s.Keeps .none s' where
  mapCount := h.mapCount
  listCount := h.listCount
  entries b hb _ := h.entries b hb (by simp; omega)
  items := h.items

theorem forget_list (h : s.Keeps ⟨[], [a]⟩ s') (ha : s.lists.length ≤ a) : s.Keeps .none s' where
  mapCount := h.mapCount
  listCount := h.listCount
  entries := h.entries
  items b hb _ := h.items b hb (by simp; omega)

theorem containers_le (h : s.Keeps u s') : s.containers ≤ s'.containers :=
  Nat.add_le_add h.mapCount h.listCount

theorem rank_le (h : s.Keeps u' s') : s.rank u ≤ s'.rank u :=
  Nat.sub_le_sub_right h.containers_le _

theorem newMap (s : Store) (es : MapEntries) : s.Keeps u (s.newMap es).2 where
  mapCount := by simp [Store.newMap]
  listCount := Nat.le_refl _
  entries a ha _ := by simp [Store.entries, Store.newMap, List.getElem?_append_left ha]
  items _ _ _ := rfl

theorem newList (s : Store) (xs : List Value) : s.Keeps u (s.newList xs).2 where
  mapCount := Nat.le_refl _
  listCount := by simp [Store.newList]
  entries _ _ _ := rfl
  items a ha _ := by simp [Store.items, Store.newList, List.getElem?_append_left ha]

/-- To put into an unfinished map changes nothing that is finished. -/
theorem put {key : MapKey} (ha : a ∈ u.maps) : s.Keeps u (s.put a key v) where
  mapCount := by simp [Store.put]
  listCount := Nat.le_refl _
  entries b _ hu := by
    have hne : a ≠ b := fun h => hu (h ▸ ha)
    simp [Store.entries, Store.put, List.getElem?_set_ne hne]
  items _ _ _ := rfl

theorem append (ha : a ∈ u.lists) : s.Keeps u (s.append a v) where
  mapCount := Nat.le_refl _
  listCount := by simp [Store.append]
  entries _ _ _ := rfl
  items b _ hu := by
    have hne : a ≠ b := fun h => hu (h ▸ ha)
    simp [Store.items, Store.append, List.getElem?_set_ne hne]

end Keeps

end Store

/-- A finished value keeps its type while unfinished containers are filled. -/
theorem Value.Kept.of_keeps {u : Unfinished} {n : Nat} (h : v.Kept deep s t)
    (hg : s.Grounded u n v) (hk : s.Keeps u s') : v.Kept deep s' t := by
  induction t generalizing v n with
  | record key value ihk ihv =>
    rcases h with rfl | ⟨a, rfl, h⟩
    · exact .inl rfl
    · refine .inr ⟨a, rfl, fun hd e he => ?_⟩
      cases n with
      | zero => exact hg.elim
      | succ n =>
        obtain ⟨ha, hu, hs⟩ := hg
        rw [hk.entries a ha hu] at he
        exact ⟨ihk (h hd e he).1 (Store.grounded_ofKey s u 0 _), ihv (h hd e he).2 (hs e he).2⟩
  | array element ih =>
    rcases h with rfl | ⟨a, rfl, h⟩
    · exact .inl rfl
    · refine .inr ⟨a, rfl, fun hd x hx => ?_⟩
      cases n with
      | zero => exact hg.elim
      | succ n =>
        obtain ⟨ha, hu, hs⟩ := hg
        rw [hk.items a ha hu] at hx
        exact ih (h hd x hx) (hs x hx).2
  | _ => exact h

/-- A finished value of a type, in a store where some containers are unfinished. -/
structure Value.Good (deep : Bool) (u : Unfinished) (s : Store) (t : Ty) (v : Value) : Prop where
  conforms : v.Conforms deep s t
  grounded : s.Grounded u (s.rank u) v

namespace Value.Good

variable {u : Unfinished}

theorem of_keeps (h : v.Good deep u s t) (hk : s.Keeps u s') : v.Good deep u s' t where
  conforms := by
    cases t with
    | prim k => exact h.conforms
    | _ => exact Kept.of_keeps h.conforms h.grounded hk
  grounded := (h.grounded.of_keeps hk).mono hk.rank_le

end Value.Good

namespace Store

variable {u : Unfinished}

/-- The unfinished containers are in the store. -/
structure Houses (u : Unfinished) (s : Store) : Prop where
  maps : ∀ a ∈ u.maps, a < s.maps.length
  lists : ∀ a ∈ u.lists, a < s.lists.length
  room : u.count ≤ s.containers

namespace Houses

theorem of_keeps {u' : Unfinished} (h : s.Houses u) (hk : s.Keeps u' s') : s'.Houses u where
  maps a ha := Nat.lt_of_lt_of_le (h.maps a ha) hk.mapCount
  lists a ha := Nat.lt_of_lt_of_le (h.lists a ha) hk.listCount
  room := Nat.le_trans h.room hk.containers_le

/-- A new map is unfinished from its start, and in the store. -/
theorem newMap (h : s.Houses u) : (s.newMap []).2.Houses (u.addMap s.maps.length) where
  maps a ha := by
    rcases List.mem_cons.mp ha with rfl | ha
    · simp [Store.newMap]
    · exact Nat.lt_of_lt_of_le (h.maps a ha) (by simp [Store.newMap])
  lists := h.lists
  room := by
    have := h.room
    simp [Unfinished.count, Unfinished.addMap, containers, Store.newMap] at this ⊢
    omega

theorem newList (h : s.Houses u) : (s.newList []).2.Houses (u.addList s.lists.length) where
  maps := h.maps
  lists a ha := by
    rcases List.mem_cons.mp ha with rfl | ha
    · simp [Store.newList]
    · exact Nat.lt_of_lt_of_le (h.lists a ha) (by simp [Store.newList])
  room := by
    have := h.room
    simp [Unfinished.count, Unfinished.addList, containers, Store.newList] at this ⊢
    omega

theorem ofMap {a : Address} (h : s.Houses (u.addMap a)) : s.Houses u where
  maps b hb := h.maps b (List.mem_cons_of_mem _ hb)
  lists := h.lists
  room := by
    have := h.room
    simp only [Unfinished.count, Unfinished.addMap, List.length_cons] at this ⊢
    omega

theorem ofList {a : Address} (h : s.Houses (u.addList a)) : s.Houses u where
  maps := h.maps
  lists b hb := h.lists b (List.mem_cons_of_mem _ hb)
  room := by
    have := h.room
    simp only [Unfinished.count, Unfinished.addList, List.length_cons] at this ⊢
    omega

end Houses

end Store

namespace Value.Good

variable {u : Unfinished}

/-- A good value stays good while the store grows and containers are started. -/
theorem transfer {u' : Unfinished} (h : v.Good deep u s t) (hk : s.Keeps u s')
    (hm : ∀ a ∈ u'.maps, a ∈ u.maps ∨ s.maps.length ≤ a)
    (hl : ∀ a ∈ u'.lists, a ∈ u.lists ∨ s.lists.length ≤ a) (hr : s.rank u ≤ s'.rank u') :
    v.Good deep u' s' t :=
  ⟨(h.of_keeps hk).conforms, (h.grounded.transfer hk hm hl).mono hr⟩

theorem newMap (h : v.Good deep u s t) :
    v.Good deep (u.addMap s.maps.length) (s.newMap []).2 t := by
  refine h.transfer (.newMap s []) (fun a ha => ?_) (fun a => .inl) ?_
  · exact (List.mem_cons.mp ha).symm.imp_right fun h => Nat.le_of_eq h.symm
  · simp [Store.rank, Store.containers, Store.newMap, Unfinished.count, Unfinished.addMap]
    omega

theorem newList (h : v.Good deep u s t) :
    v.Good deep (u.addList s.lists.length) (s.newList []).2 t := by
  refine h.transfer (.newList s []) (fun a => .inl) (fun a ha => ?_) ?_
  · exact (List.mem_cons.mp ha).symm.imp_right fun h => Nat.le_of_eq h.symm
  · simp [Store.rank, Store.containers, Store.newList, Unfinished.count, Unfinished.addList]
    omega

/-- What was built while a container was unfinished is finished with it. -/
theorem ofMap {a : Address} (h : v.Good deep (u.addMap a) s t) : v.Good deep u s t where
  conforms := h.conforms
  grounded := by
    have hg : s.Grounded u _ v :=
      h.grounded.of_subset (List.subset_cons_self _ _) (List.Subset.refl _)
    refine hg.mono ?_
    simp only [Store.rank, Unfinished.count, Unfinished.addMap, List.length_cons]
    omega

theorem ofList {a : Address} (h : v.Good deep (u.addList a) s t) : v.Good deep u s t where
  conforms := h.conforms
  grounded := by
    have hg : s.Grounded u _ v :=
      h.grounded.of_subset (List.Subset.refl _) (List.subset_cons_self _ _)
    refine hg.mono ?_
    simp only [Store.rank, Unfinished.count, Unfinished.addList, List.length_cons]
    omega

end Value.Good

namespace Store

variable {u : Unfinished} {n d d' : Nat}

theorem foldr_count_le {α : Type} (f : α → Nat) (xs : List α) :
    xs.length ≤ xs.foldr (fun x n => f x + 1 + n) 0 := by
  induction xs with
  | nil => exact Nat.le_refl _
  | cons x xs ih => simp only [List.length_cons, List.foldr_cons]; omega

/-- The depth that a value is followed to exceeds every path of a finished one. -/
theorem rank_lt_depth (s : Store) (u : Unfinished) (v : Value) : s.rank u < s.depth v := by
  have hm := foldr_count_le Value.entriesHeight s.maps
  have hl := foldr_count_le (fun xs : List Value => xs.foldr (fun v k => v.height + k) 0) s.lists
  simp only [rank, containers, depth, weight]
  omega

theorem readTo_eq (hk : s.Keeps u s') (h : s.Grounded u n v) (hd : n < d) (hd' : n < d') :
    s'.readTo d' v = s.readTo d v := by
  obtain ⟨d, rfl⟩ := Nat.exists_eq_succ_of_ne_zero (by omega : d ≠ 0)
  obtain ⟨d', rfl⟩ := Nat.exists_eq_succ_of_ne_zero (by omega : d' ≠ 0)
  induction n generalizing v d d' with
  | zero => cases v <;> simp_all [Grounded, readTo]
  | succ n ih =>
    obtain ⟨d, rfl⟩ := Nat.exists_eq_succ_of_ne_zero (by omega : d ≠ 0)
    obtain ⟨d', rfl⟩ := Nat.exists_eq_succ_of_ne_zero (by omega : d' ≠ 0)
    cases v with
    | map a =>
      obtain ⟨ha, hu, he⟩ := h
      simp only [readTo, hk.entries a ha hu, Datum.map.injEq]
      refine List.map_congr_left fun e hx => ?_
      rw [ih (he e hx).2 d (by omega) d' (by omega)]
    | list a =>
      obtain ⟨ha, hu, hx⟩ := h
      simp only [readTo, hk.items a ha hu, Datum.list.injEq]
      exact List.map_congr_left fun x hm => ih (hx x hm).2 d (by omega) d' (by omega)
    | entrySet | iterator | entry => exact h.elim
    | _ => rfl

/-- Reading a finished value follows references to a depth that the whole store bounds, so what the
store has besides makes no difference. -/
theorem read_eq (hk : s.Keeps u s') (h : s.Grounded u (s.rank u) v) : s'.read v = s.read v :=
  readTo_eq hk h (s.rank_lt_depth u v) (Nat.lt_of_le_of_lt hk.rank_le (s'.rank_lt_depth u v))

theorem mem_of_get? {es : MapEntries} {key : MapKey} (h : es.get? key = some v) :
    ∃ e ∈ es, e.2 = v := by
  obtain ⟨e, he, rfl⟩ := Option.map_eq_some_iff.mp h
  exact ⟨e, List.mem_of_find?_eq_some he, rfl⟩

theorem all_congr_of_mem {α : Type} {xs : List α} {p q : α → Bool}
    (h : ∀ x ∈ xs, p x = q x) : xs.all p = xs.all q := by
  rw [Bool.eq_iff_iff, List.all_eq_true, List.all_eq_true]
  exact forall₂_congr fun x hx => by rw [h x hx]

theorem equalTo_eq (hk : s.Keeps u s') (hv : s.Grounded u n v) (hw : s.Grounded u n w) (hd : n < d)
    (hd' : n < d') : s'.equalTo d' v w = s.equalTo d v w := by
  obtain ⟨d, rfl⟩ := Nat.exists_eq_succ_of_ne_zero (by omega : d ≠ 0)
  obtain ⟨d', rfl⟩ := Nat.exists_eq_succ_of_ne_zero (by omega : d' ≠ 0)
  induction n generalizing v w d d' with
  | zero =>
    cases v with
    | map | list | entrySet | iterator | entry => exact hv.elim
    | _ => cases w <;> rfl
  | succ n ih =>
    obtain ⟨d, rfl⟩ := Nat.exists_eq_succ_of_ne_zero (by omega : d ≠ 0)
    obtain ⟨d', rfl⟩ := Nat.exists_eq_succ_of_ne_zero (by omega : d' ≠ 0)
    cases v with
    | map a =>
      cases w with
      | map b =>
        simp only [equalTo, hk.entries a hv.1 hv.2.1, hk.entries b hw.1 hw.2.1]
        congr 2
        refine all_congr_of_mem fun e hx => ?_
        cases hg : (s.entries b).get? e.1 with
        | none => rfl
        | some w =>
          obtain ⟨e', hx', rfl⟩ := mem_of_get? hg
          exact ih (hv.2.2 e hx).2 (hw.2.2 e' hx').2 d (by omega) d' (by omega)
      | _ => rfl
    | list a =>
      cases w with
      | list b =>
        simp only [equalTo, hk.items a hv.1 hv.2.1, hk.items b hw.1 hw.2.1]
        congr 2
        refine all_congr_of_mem fun x hx => ?_
        obtain ⟨hx₁, hx₂⟩ := List.of_mem_zip hx
        exact ih (hv.2.2 _ hx₁).2 (hw.2.2 _ hx₂).2 d (by omega) d' (by omega)
      | _ => rfl
    | entrySet | iterator | entry => exact hv.elim
    | _ => cases w <;> rfl

/-- What the store has besides makes no difference to comparing finished values either. -/
theorem equal_eq (hk : s.Keeps u s') (hv : s.Grounded u (s.rank u) v)
    (hw : s.Grounded u (s.rank u) w) : s'.equal v w = s.equal v w :=
  equalTo_eq hk hv hw (s.rank_lt_depth u v)
    (Nat.lt_of_le_of_lt hk.rank_le (s'.rank_lt_depth u v))

end Store

end StackExpr
