import StackExpr.Proofs.Conformance
import StackExpr.Proofs.OrderedMaps

/-! Equality of values.

Values are equal if their contents are. Which container holds them makes no difference, and in a map
the order of the entries makes none either. -/
namespace StackExpr

namespace MapEntries

variable {m n : MapEntries} {k : MapKey} {v w : Value} {e : MapKey × Value}
  {R : Value → Value → Prop} {f : Value → Value → Bool}

/-- Two maps have the same keys, and values at each of them that are related. -/
structure Agree (R : Value → Value → Prop) (m n : MapEntries) : Prop where
  keys : ∀ k, m.has k = n.has k
  values : ∀ k v w, m.get? k = some v → n.get? k = some w → R v w

theorem get?_cons : get? (e :: m) k = if e.1 == k then some e.2 else m.get? k := by
  rw [get?, List.find?_cons]
  cases e.1 == k <;> rfl

theorem mem_of_get?_eq_some (h : m.get? k = some v) : (k, v) ∈ m := by
  obtain ⟨e, he, rfl⟩ := Option.map_eq_some_iff.mp h
  obtain rfl : e.1 = k := by simpa using List.find?_some he
  exact List.mem_of_find?_eq_some he

/-- Where no key occurs twice, each entry is found under its key. -/
theorem get?_of_mem (hm : m.Distinct) (he : e ∈ m) : m.get? e.1 = some e.2 := by
  induction m with
  | nil => cases he
  | cons p rest ih =>
    obtain ⟨hp, hrest⟩ := distinct_cons.mp hm
    rw [get?_cons]
    rcases List.mem_cons.mp he with rfl | he
    · rw [beq_self_eq_true, if_pos rfl]
    · have hhas : has rest e.1 = true := has_iff.mpr (List.mem_map_of_mem he)
      have hne : p.1 ≠ e.1 := by
        intro h
        rw [h, hhas] at hp
        cases hp
      rw [beq_false_of_ne hne]
      exact ih hrest he

theorem has_eq_isSome : m.has k = (m.get? k).isSome := by
  rw [Bool.eq_iff_iff, has, get?, Option.isSome_map, List.find?_isSome, List.any_eq_true]

/-- As many keys, none twice, and each of them among the others: the same keys. -/
theorem has_eq_of_subset (hm : m.Distinct) (hlen : m.length = n.length)
    (h : ∀ e ∈ m, n.has e.1 = true) (k : MapKey) : m.has k = n.has k := by
  have hsub : m.map (·.1) ⊆ n.map (·.1) := by
    intro k hk
    obtain ⟨e, he, rfl⟩ := List.mem_map.mp hk
    exact has_iff.mp (h e he)
  have hperm : (m.map (·.1)).Perm (n.map (·.1)) :=
    (hm.subperm hsub).perm_of_length_le (by simp [hlen])
  rw [Bool.eq_iff_iff, has_iff, has_iff, hperm.mem_iff]

theorem length_eq_of_has_eq (hm : m.Distinct) (hn : n.Distinct) (h : ∀ k, m.has k = n.has k) :
    m.length = n.length := by
  have hperm : (m.map (·.1)).Perm (n.map (·.1)) :=
    (List.perm_ext_iff_of_nodup hm hn).mpr fun k => by rw [← has_iff, ← has_iff, h]
  simpa using hperm.length_eq

/-- To look up the entries of one map in the other is enough if the maps have the same length. -/
theorem agree_iff (hm : m.Distinct) (hn : n.Distinct) :
    Agree R m n ↔ m.length = n.length ∧ ∀ e ∈ m, ∃ w, n.get? e.1 = some w ∧ R e.2 w := by
  constructor
  · intro h
    refine ⟨length_eq_of_has_eq hm hn h.keys, fun e he => ?_⟩
    have hget := get?_of_mem hm he
    have hhas := h.keys e.1
    rw [has_eq_isSome, has_eq_isSome, hget] at hhas
    obtain ⟨w, hw⟩ := Option.isSome_iff_exists.mp hhas.symm
    exact ⟨w, hw, h.values e.1 e.2 w hget hw⟩
  · rintro ⟨hlen, h⟩
    refine ⟨has_eq_of_subset hm hlen fun e he => ?_, fun k v w hv hw => ?_⟩
    · obtain ⟨w, hw, -⟩ := h e he
      rw [has_eq_isSome, hw, Option.isSome_some]
    · obtain ⟨w', hw', hr⟩ := h (k, v) (mem_of_get?_eq_some hv)
      cases hw.symm.trans hw'
      exact hr

theorem lookup_all_iff (hm : m.Distinct) (hn : n.Distinct) :
    (m.length == n.length && m.all fun (k, v) =>
      match n.get? k with
      | some w => f v w
      | none => false) = true ↔ Agree (f · · = true) m n := by
  rw [agree_iff hm hn, Bool.and_eq_true, beq_iff_eq, List.all_eq_true]
  refine and_congr_right fun _ => forall₂_congr fun e _ => ?_
  cases hw : n.get? e.1 <;> simp [hw]

/-- In what order the entries come does not matter. -/
theorem agree_of_perm (hm : m.Distinct) (h : m.Perm n) (hr : ∀ e ∈ m, R e.2 e.2) : Agree R m n where
  keys k := by rw [Bool.eq_iff_iff, has_iff, has_iff, (h.map (·.1)).mem_iff]
  values k v w hv hw := by
    have hmem : (k, w) ∈ m := h.mem_iff.mpr (mem_of_get?_eq_some hw)
    cases hv.symm.trans (get?_of_mem hm hmem)
    exact hr _ hmem

end MapEntries

namespace Store

variable {s : Store} {u : Unfinished} {v w x y : Value} {n d k : Nat}

/-- Some part of a value has paths that are shorter by no more than one step. -/
theorem exists_part_at_level (h : s.Grounded u (n + 2) v) (hn : ¬ s.Grounded u (n + 1) v) :
    ∃ w, s.Grounded u (n + 1) w ∧ ¬ s.Grounded u n w := by
  cases v with
  | map a =>
    obtain ⟨ha, hu, he⟩ := h
    simp only [Grounded, ha, hu, not_false_eq_true, true_and, not_forall] at hn
    obtain ⟨e, hmem, hn⟩ := hn
    exact ⟨e.2, (he e hmem).2, fun h => hn ⟨(he e hmem).1, h⟩⟩
  | list a =>
    obtain ⟨ha, hu, hx⟩ := h
    simp only [Grounded, ha, hu, not_false_eq_true, true_and, not_forall] at hn
    obtain ⟨x, hmem, hn⟩ := hn
    exact ⟨x, (hx x hmem).2, fun h => hn ⟨(hx x hmem).1, h⟩⟩
  | entrySet | iterator | entry => exact h.elim
  | _ => exact (hn trivial).elim

/-- A value of some depth has parts of every smaller depth. -/
theorem exists_at_level (h : s.Grounded u (n + 1) v) (hn : ¬ s.Grounded u n v) (hk : k ≤ n) :
    ∃ w, s.Grounded u (k + 1) w ∧ ¬ s.Grounded u k w := by
  induction n generalizing v with
  | zero =>
    cases Nat.le_zero.mp hk
    exact ⟨v, h, hn⟩
  | succ n ih =>
    rcases Nat.lt_or_eq_of_le hk with hk | rfl
    · obtain ⟨w, hw, hwn⟩ := exists_part_at_level h hn
      exact ih hw hwn (Nat.le_of_lt_succ hk)
    · exact ⟨v, h, hn⟩

/-- The value that refers to a container. -/
def reference (s : Store) : Fin s.maps.length ⊕ Fin s.lists.length → Value
  | .inl a => .map a
  | .inr a => .list a

theorem exists_reference (h : s.Grounded u (n + 1) v) (hn : ¬ s.Grounded u n v) :
    ∃ c, s.reference c = v := by
  cases v with
  | map a => exact ⟨.inl ⟨a, h.1⟩, rfl⟩
  | list a => exact ⟨.inr ⟨a, h.1⟩, rfl⟩
  | entrySet | iterator | entry => exact h.elim
  | _ => cases n <;> exact (hn trivial).elim

/-- There is a container at each level up to that of a value, and none is at two levels. -/
theorem level_le_containers (h : s.Grounded u (n + 1) v) (hn : ¬ s.Grounded u n v) :
    n + 1 ≤ s.containers := by
  have hlevel (k : Fin (n + 1)) :
      ∃ c, s.Grounded u (k + 1) (s.reference c) ∧ ¬ s.Grounded u k (s.reference c) := by
    obtain ⟨w, hw, hwn⟩ := exists_at_level h hn (Nat.le_of_lt_succ k.isLt)
    obtain ⟨c, rfl⟩ := exists_reference hw hwn
    exact ⟨c, hw, hwn⟩
  choose f hf hfn using hlevel
  -- At the higher of two levels a container is not bounded by the lower one.
  have hinj : Function.Injective f := by
    intro i j hij
    by_contra hne
    rcases Nat.lt_or_gt_of_ne (Fin.val_ne_of_ne hne) with hlt | hlt
    · exact hfn j (hij ▸ (hf i).mono hlt)
    · exact hfn i (hij ▸ (hf j).mono hlt)
  simpa [containers] using Fintype.card_le_of_injective f hinj

/-- Whatever bounds the paths of a value, the number of containers does. -/
theorem Grounded.shorten (h : s.Grounded u n v) : s.Grounded u s.containers v := by
  induction n with
  | zero => exact h.mono (Nat.zero_le _)
  | succ n ih =>
    by_cases hn : s.Grounded u n v
    · exact ih hn
    · exact h.mono (level_le_containers h hn)

/-- Values that are made from `null`, wrappers and strings by lists and by maps in which no key
occurs twice. -/
inductive Built (s : Store) : Value → Prop
  | null : Built s .null
  | boxed (w : Wrapper) : Built s (.boxed w)
  | string (text : String) : Built s (.string text)
  | map {a : Address} (ha : a < s.maps.length) (hd : (s.entries a).Distinct)
    (h : ∀ e ∈ s.entries a, Built s e.2) : Built s (.map a)
  | list {a : Address} (ha : a < s.lists.length) (h : ∀ x ∈ s.items a, Built s x) :
    Built s (.list a)

theorem Built.stackKind (h : s.Built v) : v.stackKind = .reference := by
  cases h <;> rfl

theorem Built.depth_eq (h : s.Built v) : s.depth v = s.weight + 1 := by
  cases h <;> rfl

/-- Finitely many values that are bounded each have a bound in common. -/
theorem exists_common_bound {α : Type} {f : α → Value} {xs : List α}
    (h : ∀ x ∈ xs, ∃ n, s.Grounded u n (f x)) : ∃ n, ∀ x ∈ xs, s.Grounded u n (f x) := by
  induction xs with
  | nil => exact ⟨0, nofun⟩
  | cons x xs ih =>
    obtain ⟨n, hn⟩ := h x List.mem_cons_self
    obtain ⟨k, hk⟩ := ih fun y hy => h y (List.mem_cons_of_mem x hy)
    refine ⟨max n k, fun y hy => ?_⟩
    rcases List.mem_cons.mp hy with rfl | hy
    · exact hn.mono (Nat.le_max_left n k)
    · exact (hk y hy).mono (Nat.le_max_right n k)

/-- Values that are built have paths no longer than there are containers. -/
theorem Built.grounded (h : s.Built v) : s.Grounded .none s.containers v := by
  have hbound : ∃ n, s.Grounded .none n v := by
    induction h with
    | null | boxed | string => exact ⟨0, trivial⟩
    | map ha hd h ih =>
      obtain ⟨n, hn⟩ := exists_common_bound ih
      exact ⟨n + 1, ha, List.not_mem_nil, fun e he => ⟨(h e he).stackKind, hn e he⟩⟩
    | list ha h ih =>
      obtain ⟨n, hn⟩ := exists_common_bound ih
      exact ⟨n + 1, ha, List.not_mem_nil, fun x hx => ⟨(h x hx).stackKind, hn x hx⟩⟩
  obtain ⟨n, hn⟩ := hbound
  exact hn.shorten

/-- What a container holds at a key or at an index. -/
def part? (s : Store) : Value → MapKey ⊕ Nat → Option Value
  | .map a, .inl k => (s.entries a).get? k
  | .list a, .inr i => (s.items a)[i]?
  | _, _ => none

/-- What a value is apart from its contents. -/
def form : Value → Value
  | .map _ => .map 0
  | .list _ => .list 0
  | v => v

/-- Values of the same form, with related contents at the same places. -/
structure Matches (s : Store) (R : Value → Value → Prop) (v w : Value) : Prop where
  form : form v = form w
  places : ∀ p, (s.part? v p).isSome = (s.part? w p).isSome
  parts : ∀ p x y, s.part? v p = some x → s.part? w p = some y → R x y

/-- Compares contents by a given comparison, without a look at which containers hold them. -/
def contentsEqual (s : Store) (f : Value → Value → Bool) : Value → Value → Bool
  | .null, .null => true
  | .boxed a, .boxed b => a == b
  | .string a, .string b => a == b
  | .int a, .int b => a == b
  | .long a, .long b => a == b
  | .map a, .map b =>
    (s.entries a).length == (s.entries b).length && (s.entries a).all fun (k, v) =>
      match (s.entries b).get? k with
      | some w => f v w
      | none => false
  | .list a, .list b =>
    (s.items a).length == (s.items b).length &&
      ((s.items a).zip (s.items b)).all fun (v, w) => f v w
  | .entry j v, .entry k w => j == k && f v w
  | _, _ => false

/-- Compares contents at every level, to a given depth. -/
def alikeTo (s : Store) : (depth : Nat) → Value → Value → Bool
  | 0, _, _ => false
  | n + 1, v, w => s.contentsEqual (s.alikeTo n) v w

/-- Two references to one container. -/
def sameContainer : Value → Value → Bool
  | .map a, .map b | .list a, .list b => a == b
  | _, _ => false

variable {p : MapKey ⊕ Nat} {R R' S T : Value → Value → Prop}

theorem Built.part (h : s.Built v) (hx : s.part? v p = some x) : s.Built x := by
  cases h with
  | null | boxed | string => cases hx
  | map ha hd h =>
    cases p with
    | inl k => exact h _ (MapEntries.mem_of_get?_eq_some hx)
    | inr i => cases hx
  | list ha h =>
    cases p with
    | inl k => cases hx
    | inr i => exact h x (List.mem_of_getElem? hx)

theorem Grounded.part (h : s.Grounded u n v) (hx : s.part? v p = some x) :
    ∃ k < n, s.Grounded u k x := by
  cases n with
  | zero =>
    cases v with
    | map | list => exact h.elim
    | _ => cases hx
  | succ n =>
    refine ⟨n, Nat.lt_succ_self n, ?_⟩
    cases v with
    | map a =>
      cases p with
      | inl k => exact (h.2.2 _ (MapEntries.mem_of_get?_eq_some hx)).2
      | inr i => cases hx
    | list a =>
      cases p with
      | inl k => cases hx
      | inr i => exact (h.2.2 x (List.mem_of_getElem? hx)).2
    | _ => cases hx

namespace Matches

theorem imp (h : s.Matches R v w)
    (hr : ∀ p x y, s.part? v p = some x → s.part? w p = some y → R x y → R' x y) :
    s.Matches R' v w where
  form := h.form
  places := h.places
  parts p x y hx hy := hr p x y hx hy (h.parts p x y hx hy)

theorem flip (h : s.Matches R v w)
    (hr : ∀ p x y, s.part? v p = some x → s.part? w p = some y → R x y → R' y x) :
    s.Matches R' w v where
  form := h.form.symm
  places p := (h.places p).symm
  parts p y x hy hx := hr p x y hx hy (h.parts p x y hx hy)

theorem comp (h : s.Matches R v w) (h' : s.Matches S w x)
    (hr : ∀ p a b c, s.part? v p = some a → s.part? w p = some b → s.part? x p = some c →
      R a b → S b c → T a c) : s.Matches T v x where
  form := h.form.trans h'.form
  places p := (h.places p).trans (h'.places p)
  parts p a c ha hc := by
    have hplace := h.places p
    rw [ha] at hplace
    obtain ⟨b, hb⟩ := Option.isSome_iff_exists.mp hplace.symm
    exact hr p a b c ha hb hc (h.parts p a b ha hb) (h'.parts p b c hb hc)

theorem refl (hr : ∀ p x, s.part? v p = some x → R x x) : s.Matches R v v where
  form := rfl
  places _ := rfl
  parts p x y hx hy := by
    cases hx.symm.trans hy
    exact hr p x hx

end Matches

theorem matches_map {a b : Address} :
    s.Matches R (.map a) (.map b) ↔ (s.entries a).Agree R (s.entries b) := by
  constructor
  · intro h
    refine ⟨fun k => ?_, fun k => h.parts (.inl k)⟩
    rw [MapEntries.has_eq_isSome, MapEntries.has_eq_isSome]
    exact h.places (.inl k)
  · intro h
    refine ⟨rfl, fun p => ?_, fun p => ?_⟩
    · cases p with
      | inl k =>
        have hk := h.keys k
        rwa [MapEntries.has_eq_isSome, MapEntries.has_eq_isSome] at hk
      | inr i => rfl
    · cases p with
      | inl k => exact h.values k
      | inr i => nofun

theorem matches_list {a b : Address} : s.Matches R (.list a) (.list b) ↔
    (s.items a).length = (s.items b).length ∧
      ∀ (i : Nat) x y, (s.items a)[i]? = some x → (s.items b)[i]? = some y → R x y := by
  constructor
  · intro h
    refine ⟨?_, fun i => h.parts (.inr i)⟩
    have hplaces (i : Nat) : i < (s.items a).length ↔ i < (s.items b).length := by
      have hi : (s.items a)[i]?.isSome = (s.items b)[i]?.isSome := h.places (.inr i)
      rwa [Bool.eq_iff_iff, isSome_getElem?, isSome_getElem?] at hi
    have ha := hplaces (s.items a).length
    have hb := hplaces (s.items b).length
    omega
  · rintro ⟨hlen, hparts⟩
    refine ⟨rfl, fun p => ?_, fun p => ?_⟩
    · cases p with
      | inl k => rfl
      | inr i =>
        change (s.items a)[i]?.isSome = (s.items b)[i]?.isSome
        rw [Bool.eq_iff_iff, isSome_getElem?, isSome_getElem?, hlen]
    · cases p with
      | inl k => nofun
      | inr i => exact hparts i

theorem zip_all_iff {f : Value → Value → Bool} {xs ys : List Value} :
    (xs.length == ys.length && (xs.zip ys).all fun (v, w) => f v w) = true ↔
      xs.length = ys.length ∧
        ∀ (i : Nat) x y, xs[i]? = some x → ys[i]? = some y → f x y = true := by
  rw [Bool.and_eq_true, beq_iff_eq, List.all_eq_true]
  refine and_congr_right fun _ => ⟨fun h i x y hx hy => ?_, fun h q hq => ?_⟩
  · exact h (x, y) (List.mem_of_getElem? (List.getElem?_zip_eq_some.mpr ⟨hx, hy⟩))
  · obtain ⟨i, hi⟩ := List.mem_iff_getElem?.mp hq
    obtain ⟨hx, hy⟩ := List.getElem?_zip_eq_some.mp hi
    exact h i q.1 q.2 hx hy

/-- Comparing contents is comparing forms, and contents place by place. -/
theorem contentsEqual_iff {f : Value → Value → Bool} (hv : s.Built v) (hw : s.Built w) :
    s.contentsEqual f v w = true ↔ s.Matches (f · · = true) v w := by
  cases hv with
  | map ha hd h =>
    cases hw with
    | map hb hd' h' => rw [matches_map, ← MapEntries.lookup_all_iff hd hd', contentsEqual]
    | _ => exact iff_of_false Bool.false_ne_true fun h => nomatch h.form
  | list ha h =>
    cases hw with
    | list hb h' => rw [matches_list, ← zip_all_iff, contentsEqual]
    | _ => exact iff_of_false Bool.false_ne_true fun h => nomatch h.form
  | null =>
    cases hw with
    | null => exact iff_of_true rfl (.refl nofun)
    | _ => exact iff_of_false Bool.false_ne_true fun h => nomatch h.form
  | boxed a =>
    cases hw with
    | boxed b =>
      rw [contentsEqual, beq_iff_eq]
      exact ⟨fun h => h ▸ .refl nofun, fun h => Value.boxed.inj h.form⟩
    | _ => exact iff_of_false Bool.false_ne_true fun h => nomatch h.form
  | string a =>
    cases hw with
    | string b =>
      rw [contentsEqual, beq_iff_eq]
      exact ⟨fun h => h ▸ .refl nofun, fun h => Value.string.inj h.form⟩
    | _ => exact iff_of_false Bool.false_ne_true fun h => nomatch h.form

theorem eq_of_sameContainer (h : sameContainer v w = true) : v = w := by
  cases v <;> cases w <;> simp_all [sameContainer]

/-- Equality compares contents unless there is one container only. -/
theorem equalTo_succ (s : Store) (n : Nat) (v w : Value) : s.equalTo (n + 1) v w =
    (sameContainer v w || s.contentsEqual (s.equalTo n) v w) := by
  cases v <;> cases w <;> rfl

theorem equalTo_succ_iff (hv : s.Built v) (hw : s.Built w) : s.equalTo (n + 1) v w = true ↔
    sameContainer v w = true ∨ s.Matches (s.equalTo n · · = true) v w := by
  rw [equalTo_succ, Bool.or_eq_true, contentsEqual_iff hv hw]

theorem equalTo_refl (hv : s.Built v) : s.equalTo (n + 1) v v = true := by
  cases hv <;> simp [equalTo]

theorem equalTo_symm (hv : s.Built v) (hw : s.Built w) (h : s.equalTo n v w = true) :
    s.equalTo n w v = true := by
  induction n generalizing v w with
  | zero => cases h
  | succ n ih =>
    rcases (equalTo_succ_iff hv hw).mp h with hc | hm
    · obtain rfl := eq_of_sameContainer hc
      exact h
    · exact (equalTo_succ_iff hw hv).mpr <| .inr <|
        hm.flip fun p x y hx hy => ih (hv.part hx) (hw.part hy)

/-- At every depth equality is transitive on the values that are built. -/
theorem equalTo_trans (hv : s.Built v) (hw : s.Built w) (hx : s.Built x)
    (h : s.equalTo n v w = true) (h' : s.equalTo n w x = true) : s.equalTo n v x = true := by
  induction n generalizing v w x with
  | zero => cases h
  | succ n ih =>
    rcases (equalTo_succ_iff hv hw).mp h with hc | hm
    · obtain rfl := eq_of_sameContainer hc
      exact h'
    rcases (equalTo_succ_iff hw hx).mp h' with hc | hm'
    · obtain rfl := eq_of_sameContainer hc
      exact h
    · exact (equalTo_succ_iff hv hx).mpr <| .inr <|
        hm.comp hm' fun p a b c ha hb hc => ih (hv.part ha) (hw.part hb) (hx.part hc)

/-- More depth than there are containers changes nothing. -/
theorem equalTo_eq_equal (hv : s.Built v) (hw : s.Built w) (hd : s.containers < d) :
    s.equalTo d v w = s.equal v w :=
  equalTo_eq (.refl .none s) hv.grounded hw.grounded (s.rank_lt_depth .none v) hd

/-- Values are equal if they have the same form and equal contents. -/
theorem equal_iff_matches (hv : s.Built v) (hw : s.Built w) :
    s.equal v w = true ↔ s.Matches (s.equal · · = true) v w := by
  have hparts (p : MapKey ⊕ Nat) (x y : Value) (hx : s.part? v p = some x)
      (hy : s.part? w p = some y) : s.equalTo (s.containers + 1) x y = s.equal x y :=
    equalTo_eq_equal (hv.part hx) (hw.part hy) (Nat.lt_succ_self _)
  rw [← equalTo_eq_equal hv hw (by omega : s.containers < s.containers + 2),
    equalTo_succ_iff hv hw]
  constructor
  · rintro (hc | hm)
    -- Stopping at the container gives what its contents give, since each equals itself.
    · obtain rfl := eq_of_sameContainer hc
      exact .refl fun p x hx => equalTo_refl (hv.part hx)
    · exact hm.imp fun p x y hx hy h => hparts p x y hx hy ▸ h
  · exact fun hm => .inr (hm.imp fun p x y hx hy h => (hparts p x y hx hy).trans h)

/-- A comparison that does not stop at a common container gives the same answer. -/
theorem alikeTo_eq_equal (hv : s.Built v) (hw : s.Built w) (hg : s.Grounded u n v) (hd : n < d) :
    s.alikeTo d v w = s.equal v w := by
  induction d generalizing v w n with
  | zero => omega
  | succ d ih =>
    have hparts (p : MapKey ⊕ Nat) (x y : Value) (hx : s.part? v p = some x)
        (hy : s.part? w p = some y) : s.alikeTo d x y = s.equal x y := by
      obtain ⟨k, hk, hgx⟩ := hg.part hx
      exact ih (hv.part hx) (hw.part hy) hgx (by omega)
    rw [Bool.eq_iff_iff, equal_iff_matches hv hw, alikeTo, contentsEqual_iff hv hw]
    exact ⟨fun h => h.imp fun p x y hx hy h => (hparts p x y hx hy) ▸ h,
      fun h => h.imp fun p x y hx hy h => (hparts p x y hx hy).trans h⟩

end Store

/-- Equality is an equivalence of the values that are built from `null`, wrappers, strings, lists
and maps. Maps are equal if and only if they have the same keys and equal values at each, in whatever
order, and a comparison that never stops at a common container gives the same answers. -/
theorem equality_of_contents (s : Store) :
    (∀ v, s.Built v → s.equal v v = true) ∧
    (∀ v w, s.Built v → s.Built w → s.equal v w = true → s.equal w v = true) ∧
    (∀ v w x, s.Built v → s.Built w → s.Built x → s.equal v w = true → s.equal w x = true →
      s.equal v x = true) ∧
    (∀ a b, s.Built (.map a) → s.Built (.map b) →
      (s.equal (.map a) (.map b) = true ↔
        (s.entries a).Agree (s.equal · · = true) (s.entries b)) ∧
      ((s.entries a).Perm (s.entries b) → s.equal (.map a) (.map b) = true)) ∧
    ∀ v w n, s.Built v → s.Built w → s.depth v ≤ n → s.alikeTo n v w = s.equal v w := by
  have hagree {a b : Address} (ha : s.Built (.map a)) (hb : s.Built (.map b)) :
      s.equal (.map a) (.map b) = true ↔
        (s.entries a).Agree (s.equal · · = true) (s.entries b) := by
    rw [Store.equal_iff_matches ha hb, Store.matches_map]
  refine ⟨fun v hv => Store.equalTo_refl hv, fun v w hv hw h => ?_,
    fun v w x hv hw hx h h' => ?_, fun a b ha hb => ⟨hagree ha hb, fun hperm => ?_⟩,
    fun v w n hv hw hn => ?_⟩
  · rw [Store.equal, hv.depth_eq] at h
    rw [Store.equal, hw.depth_eq]
    exact Store.equalTo_symm hv hw h
  · rw [Store.equal, hv.depth_eq] at h ⊢
    rw [Store.equal, hw.depth_eq] at h'
    exact Store.equalTo_trans hv hw hx h h'
  · rw [hagree ha hb]
    cases ha with
    | map _ hd h => exact MapEntries.agree_of_perm hd hperm fun e he => Store.equalTo_refl (h e he)
  · exact Store.alikeTo_eq_equal hv hw hv.grounded
      (Nat.lt_of_lt_of_le (s.rank_lt_depth .none v) hn)

/-- Maps that hold a NaN and a list, filled in one order and in the other. -/
def Store.twoOrders : Store :=
  let nan : MapKey × Value := (.string "nan", .boxed (.double (0 / 0)))
  let list : MapKey × Value := (.boxed (.int 1), .list 0)
  ⟨[[nan, list], [list, nan]], [[.string "x", .null]], []⟩

theorem equality_of_two_orders :
    let s := Store.twoOrders
    s.equal (.map 0) (.map 1) = true ∧ s.equal (.map 1) (.map 0) = true ∧
      s.equal (.map 1) (.map 1) = true ∧ s.alikeTo (s.depth (.map 0)) (.map 0) (.map 1) = true := by
  intro s
  have hlist : s.Built (.list 0) := .list (by decide)
    (List.forall_mem_cons.mpr ⟨.string "x", List.forall_mem_singleton.mpr .null⟩)
  have hfirst : s.Built (.map 0) := .map (by decide) (by unfold MapEntries.Distinct; decide)
    (List.forall_mem_cons.mpr ⟨.boxed _, List.forall_mem_singleton.mpr hlist⟩)
  have hsecond : s.Built (.map 1) := .map (by decide) (by unfold MapEntries.Distinct; decide)
    (List.forall_mem_cons.mpr ⟨hlist, List.forall_mem_singleton.mpr (.boxed _)⟩)
  obtain ⟨-, hsymm, htrans, hmaps, halike⟩ := equality_of_contents s
  have h := (hmaps 0 1 hfirst hsecond).2 (.swap ..)
  have h' := hsymm _ _ hfirst hsecond h
  exact ⟨h, h', htrans _ _ _ hsecond hfirst hsecond h' h,
    (halike _ _ _ hfirst hsecond (Nat.le_refl _)).trans h⟩

end StackExpr
