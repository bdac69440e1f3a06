import ListRepeater.Keyed
import Mathlib.Data.List.Forall2
import Mathlib.Data.List.Nodup
import Mathlib.Data.List.Perm.Subperm
/-!
# Keyed maps up to order

Inserting and erasing change the entries of a map by one entry, up to order. Two maps are the same
when every key is bound alike in both, so `Keyed.same` is reflexive, symmetric and transitive if
the test on values is.
-/
namespace ListRepeater.Keyed

variable {κ ν μ : Type}

/-- Two maps of the same number of keys, one of which has all keys of the other, have the same
keys. -/
theorem subset_keys_of_size {a b : Keyed κ ν} (size : a.size = b.size) (h : a.keys ⊆ b.keys) :
    b.keys ⊆ a.keys := by
  have sub := List.subperm_of_subset a.nodup_keys h
  have lengths : b.keys.length ≤ a.keys.length := by
    simp only [keys, List.length_map]
    exact Nat.le_of_eq size.symm
  exact (sub.perm_of_length_le lengths).symm.subset

theorem size_eq_of_keys {a b : Keyed κ ν} (h : ∀ k, k ∈ a.keys ↔ k ∈ b.keys) :
    a.size = b.size := by
  have perm := (List.perm_ext_iff_of_nodup a.nodup_keys b.nodup_keys).mpr h
  simpa [keys, size] using perm.length_eq

section Entries

variable [DecidableEq κ]

theorem find?_eq_none_iff (m : Keyed κ ν) (k : κ) : m.find? k = none ↔ k ∉ m.keys := by
  rw [← m.contains_iff k, contains]
  cases m.find? k <;> simp

theorem find?_isSome_iff (m : Keyed κ ν) (k : κ) : (m.find? k).isSome = true ↔ k ∈ m.keys :=
  m.contains_iff k

theorem mem_keys_of_find? {m : Keyed κ ν} {k : κ} {v : ν} (h : m.find? k = some v) : k ∈ m.keys :=
  (m.find?_isSome_iff k).mp (by rw [h]; rfl)

theorem put_of_not_mem (k : κ) (v : ν) {es : List (κ × ν)} (h : k ∉ es.map Prod.fst) :
    Entries.put k v es = es ++ [(k, v)] := by
  induction es with
  | nil => rfl
  | cons e rest ih =>
    simp only [List.map_cons, List.mem_cons, not_or] at h
    have hk : ¬ e.1 = k := fun he => h.1 he.symm
    simp only [Entries.put, hk, if_false, ih h.2, List.cons_append]

theorem entries_insert_of_find?_none {m : Keyed κ ν} {k : κ} (h : m.find? k = none) (v : ν) :
    (m.insert k v).entries = m.entries ++ [(k, v)] :=
  put_of_not_mem k v ((m.find?_eq_none_iff k).mp h)

theorem entries_erase_of_find?_none {m : Keyed κ ν} {k : κ} (h : m.find? k = none) :
    (m.erase k).entries = m.entries := by
  apply List.filter_eq_self.mpr
  intro e he
  have hk : k ∉ m.keys := (m.find?_eq_none_iff k).mp h
  have : e.1 ≠ k := fun hek => hk (hek ▸ List.mem_map_of_mem he)
  simpa using this

theorem perm_cons_filter {k : κ} {v : ν} {es : List (κ × ν)} (hn : (es.map Prod.fst).Nodup)
    (h : Entries.find? k es = some v) :
    es.Perm ((k, v) :: es.filter fun e => e.1 ≠ k) := by
  induction es with
  | nil => cases h
  | cons e rest ih =>
    simp only [List.map_cons, List.nodup_cons] at hn
    by_cases hk : e.1 = k
    · simp only [Entries.find?, hk, if_true, Option.some.injEq] at h
      have others : rest.filter (fun e => e.1 ≠ k) = rest := by
        apply List.filter_eq_self.mpr
        intro x hx
        have : x.1 ≠ k := fun hxk => hn.1 (hk ▸ hxk ▸ List.mem_map_of_mem hx)
        simpa using this
      rw [List.filter_cons_of_neg (by simp [hk]), others, ← hk, ← h]
    · simp only [Entries.find?, hk, if_false] at h
      rw [List.filter_cons_of_pos (by simp [hk])]
      exact ((ih hn.2 h).cons e).trans (List.Perm.swap _ _ _)

theorem perm_cons_erase {m : Keyed κ ν} {k : κ} {v : ν} (h : m.find? k = some v) :
    m.entries.Perm ((k, v) :: (m.erase k).entries) :=
  perm_cons_filter m.nodup h

theorem erase_insert (m : Keyed κ ν) (k : κ) (v : ν) :
    ((m.insert k v).erase k).entries = (m.erase k).entries := by
  simp only [erase, insert]
  induction m.entries with
  | nil => simp [Entries.put]
  | cons e rest ih =>
    by_cases hk : e.1 = k
    · simp [Entries.put, hk]
    · simp only [Entries.put, hk, if_false]
      rw [List.filter_cons_of_pos (by simp [hk]), List.filter_cons_of_pos (by simp [hk]), ih]

/-- Up to order an insertion puts one entry in the place of what stood under its key. -/
theorem perm_insert (m : Keyed κ ν) (k : κ) (v : ν) :
    (m.insert k v).entries.Perm ((k, v) :: (m.erase k).entries) := by
  rw [← erase_insert m k v]
  exact perm_cons_erase (by simp [find?_insert])

theorem mem_entries_insert {m : Keyed κ ν} {k : κ} {v : ν} {e : κ × ν}
    (h : e ∈ (m.insert k v).entries) : e = (k, v) ∨ e ∈ m.entries :=
  (List.mem_cons.mp ((perm_insert m k v).mem_iff.mp h)).imp_right List.mem_of_mem_filter

theorem entries_foldl_insert (es : List (κ × ν)) (m : Keyed κ ν)
    (hn : ((m.entries ++ es).map Prod.fst).Nodup) :
    (es.foldl (fun m e => m.insert e.1 e.2) m).entries = m.entries ++ es := by
  induction es generalizing m with
  | nil => simp
  | cons e rest ih =>
    have fresh : m.find? e.1 = none := by
      rw [find?_eq_none_iff]
      intro hk
      simp only [List.map_append, List.map_cons] at hn
      exact (List.nodup_append.mp hn).2.2 _ hk _ List.mem_cons_self rfl
    have step := entries_insert_of_find?_none fresh e.2
    rw [List.foldl_cons, ih _ (by rw [step]; simpa using hn), step]
    simp

/-- Entries with distinct keys make a map that lists them as they are. -/
theorem entries_ofList {es : List (κ × ν)} (hn : (es.map Prod.fst).Nodup) :
    (ofList es).entries = es := by
  rw [ofList, entries_foldl_insert es empty (by simpa [empty] using hn)]
  rfl

theorem ofList_entries (m : Keyed κ ν) : ofList m.entries = m := by
  have entries := entries_ofList m.nodup
  obtain ⟨es, nodup⟩ := m
  generalize ofList es = m' at entries
  cases m'
  cases entries
  rfl

theorem find?_ofList_of_nodup {es : List (κ × ν)} (hn : (es.map Prod.fst).Nodup) (k : κ) :
    (ofList es).find? k = Entries.find? k es := by
  rw [find?, entries_ofList hn]

theorem find?_ofList_map (f : κ → ν → μ) (es : List (κ × ν)) (k : κ) :
    (ofList (es.map fun e => (e.1, f e.1 e.2))).find? k = ((ofList es).find? k).map (f k) := by
  rw [find?_ofList, find?_ofList, ← List.map_reverse]
  induction es.reverse with
  | nil => rfl
  | cons e rest ih => by_cases h : e.1 = k <;> simp [Entries.find?, h, ih]

theorem mem_of_mem_ofList {es : List (κ × ν)} {e : κ × ν} (h : e ∈ (ofList es).entries) :
    e ∈ es := by
  have found := ((ofList es).find?_eq_some_iff e.1 e.2).mpr h
  rw [find?_ofList] at found
  exact List.mem_reverse.mp (Entries.mem_of_find? found)

theorem mem_keys_ofList (es : List (κ × ν)) (k : κ) :
    k ∈ (ofList es).keys ↔ k ∈ es.map Prod.fst := by
  rw [← find?_isSome_iff, find?_ofList, Entries.find?_isSome]
  simp

end Entries

section Same

variable [DecidableEq κ]

/-- Maps are the same exactly if every key is bound in both or in neither, and to values that the
test takes for equal. -/
theorem same_iff {eq : ν → ν → Bool} {a b : Keyed κ ν} :
    a.same eq b = true ↔
      ∀ k, Option.Rel (fun x y => eq x y = true) (a.find? k) (b.find? k) := by
  simp only [same, Bool.and_eq_true, beq_iff_eq, List.all_eq_true, Option.any_eq_true]
  constructor
  · rintro ⟨size, bound⟩ k
    have within : a.keys ⊆ b.keys := by
      intro k' hk'
      obtain ⟨e, he, rfl⟩ := List.mem_map.mp hk'
      obtain ⟨y, hy, -⟩ := bound e he
      exact mem_keys_of_find? hy
    cases ha : a.find? k with
    | some x =>
      obtain ⟨y, hy, hxy⟩ := bound (k, x) ((a.find?_eq_some_iff k x).mp ha)
      rw [hy]
      exact .some hxy
    | none =>
      have hb : b.find? k = none := by
        rw [find?_eq_none_iff]
        intro hk
        exact (a.find?_eq_none_iff k).mp ha (subset_keys_of_size size within hk)
      rw [hb]
      exact .none
  · intro rel
    have keys : ∀ k, k ∈ a.keys ↔ k ∈ b.keys := by
      intro k
      rw [← find?_isSome_iff, ← find?_isSome_iff]
      have hk := rel k
      generalize a.find? k = x at hk
      generalize b.find? k = y at hk
      cases hk <;> simp
    refine ⟨size_eq_of_keys keys, ?_⟩
    rintro ⟨k, x⟩ he
    have hk := rel k
    rw [(a.find?_eq_some_iff k x).mpr he] at hk
    cases hb : b.find? k with
    | none => rw [hb] at hk; cases hk
    | some y =>
      rw [hb] at hk
      cases hk with
      | some hxy => exact ⟨y, rfl, hxy⟩

theorem same_refl {eq : ν → ν → Bool} (refl : ∀ x, eq x x = true) (a : Keyed κ ν) :
    a.same eq a = true := by
  rw [same_iff]
  intro k
  cases a.find? k with
  | none => exact .none
  | some x => exact .some (refl x)

theorem same_symm {eq : ν → ν → Bool} (symm : ∀ x y, eq x y = true → eq y x = true)
    {a b : Keyed κ ν} (h : a.same eq b = true) : b.same eq a = true := by
  rw [same_iff] at h ⊢
  intro k
  have hk := h k
  generalize a.find? k = x at *
  generalize b.find? k = y at *
  cases hk with
  | none => exact .none
  | some hxy => exact .some (symm _ _ hxy)

theorem same_trans {eq : ν → ν → Bool}
    (trans : ∀ x y z, eq x y = true → eq y z = true → eq x z = true) {a b c : Keyed κ ν}
    (hab : a.same eq b = true) (hbc : b.same eq c = true) : a.same eq c = true := by
  rw [same_iff] at hab hbc ⊢
  intro k
  have h1 := hab k
  have h2 := hbc k
  generalize a.find? k = x at *
  generalize b.find? k = y at *
  generalize c.find? k = z at *
  cases h1 with
  | none => exact h2
  | some hxy =>
    cases h2 with
    | some hyz => exact .some (trans _ _ _ hxy hyz)

theorem same_insert {eq : ν → ν → Bool} {a b : Keyed κ ν} (h : a.same eq b = true) (k : κ)
    {v w : ν} (hvw : eq v w = true) : (a.insert k v).same eq (b.insert k w) = true := by
  rw [same_iff] at h ⊢
  intro k'
  rw [find?_insert, find?_insert]
  split
  · exact .some hvw
  · exact h k'

theorem same_insert_iff {eq : ν → ν → Bool} {a b : Keyed κ ν} (h : a.same eq b = true) (k : κ)
    {v w : ν} : (a.insert k v).same eq (b.insert k w) = true ↔ eq v w = true := by
  constructor
  · intro same
    have bound := same_iff.mp same k
    simpa only [find?_insert, if_true, Option.rel_some_some] using bound
  · exact same_insert h k

theorem same_map {eq : ν → ν → Bool} {eq' : μ → μ → Bool} {a b : Keyed κ ν}
    (h : a.same eq b = true) {f g : κ → ν → μ}
    (hfg : ∀ k x y, eq x y = true → eq' (f k x) (g k y) = true) :
    (a.map f).same eq' (b.map g) = true := by
  rw [same_iff] at h ⊢
  intro k
  rw [find?_map, find?_map]
  have hk := h k
  generalize a.find? k = x at *
  generalize b.find? k = y at *
  cases hk with
  | none => exact .none
  | some hxy => exact .some (hfg k _ _ hxy)

theorem find?_filterMap (f : κ → ν → Option μ) (m : Keyed κ ν) (k : κ) :
    (m.filterMap f).find? k = (m.find? k).bind (f k) := by
  obtain ⟨es, hn⟩ := m
  simp only [find?, filterMap]
  induction es with
  | nil => rfl
  | cons e rest ih =>
    obtain ⟨fresh, nodup⟩ := List.nodup_cons.mp hn
    have ih := ih nodup
    by_cases h : e.1 = k
    · subst h
      have absent : Entries.find? e.1 rest = none := by
        have := mt (Entries.find?_isSome e.1 rest).mp fresh
        simpa using this
      rw [absent] at ih
      cases value : f e.1 e.2 <;> simp [Entries.find?, value, ih]
    · cases value : f e.1 e.2 <;> simp [Entries.find?, value, h, ih]

theorem same_filterMap {eq : ν → ν → Bool} {f : κ → ν → Option μ} [DecidableEq μ] {a b : Keyed κ ν}
    (h : a.same eq b = true) (hf : ∀ k x y, eq x y = true → f k x = f k y) :
    (a.filterMap f).same (fun x y => decide (x = y)) (b.filterMap f) = true := by
  rw [same_iff] at h ⊢
  intro k
  rw [find?_filterMap, find?_filterMap]
  have hk := h k
  generalize a.find? k = x at *
  generalize b.find? k = y at *
  cases hk with
  | none => exact .none
  | some hxy =>
    rw [Option.bind_some, Option.bind_some, hf k _ _ hxy]
    cases f k _ with
    | none => exact .none
    | some v => exact .some (decide_eq_true rfl)

theorem find?_eq_of_same [DecidableEq ν] {a b : Keyed κ ν}
    (same : a.same (fun x y => decide (x = y)) b = true) (k : κ) : a.find? k = b.find? k := by
  have hk := same_iff.mp same k
  generalize a.find? k = x at hk
  generalize b.find? k = y at hk
  cases hk with
  | none => rfl
  | some h => rw [of_decide_eq_true h]

end Same

/-- Maps that bind the same keys in the same order, each to values in relation. -/
def Matched (rel : κ → ν → μ → Prop) (a : Keyed κ ν) (b : Keyed κ μ) : Prop :=
  List.Forall₂ (fun e e' => e.1 = e'.1 ∧ rel e.1 e.2 e'.2) a.entries b.entries

section Matched

variable {ξ : Type} {rel : κ → μ → ξ → Prop}

theorem matched_map {f : κ → ν → μ} {g : κ → ν → ξ} (m : Keyed κ ν)
    (h : ∀ e ∈ m.entries, rel e.1 (f e.1 e.2) (g e.1 e.2)) : (m.map f).Matched rel (m.map g) := by
  rw [Matched, map, map, List.forall₂_map_left_iff, List.forall₂_map_right_iff, List.forall₂_same]
  exact fun e he => ⟨rfl, h e he⟩

variable [DecidableEq κ]

theorem forall₂_put {es : List (κ × μ)} {es' : List (κ × ξ)}
    (h : List.Forall₂ (fun e e' => e.1 = e'.1 ∧ rel e.1 e.2 e'.2) es es') {k : κ} {v : μ} {w : ξ}
    (hvw : rel k v w) : List.Forall₂ (fun e e' => e.1 = e'.1 ∧ rel e.1 e.2 e'.2)
      (Entries.put k v es) (Entries.put k w es') := by
  induction h with
  | nil => exact .cons ⟨rfl, hvw⟩ .nil
  | cons head rest ih =>
    rw [Entries.put, Entries.put, head.1]
    split
    · exact .cons ⟨rfl, hvw⟩ rest
    · exact .cons head ih

theorem Matched.insert {a : Keyed κ μ} {b : Keyed κ ξ} (h : a.Matched rel b) {k : κ} {v : μ} {w : ξ}
    (hvw : rel k v w) : (a.insert k v).Matched rel (b.insert k w) :=
  forall₂_put h hvw

/-- Maps that are made of entries in relation match. -/
theorem matched_ofList {es : List (κ × μ)} {es' : List (κ × ξ)}
    (h : List.Forall₂ (fun e e' => e.1 = e'.1 ∧ rel e.1 e.2 e'.2) es es') :
    (ofList es).Matched rel (ofList es') := by
  have fold : ∀ {a : Keyed κ μ} {b : Keyed κ ξ}, a.Matched rel b →
      (es.foldl (fun m e => m.insert e.1 e.2) a).Matched rel
        (es'.foldl (fun m e => m.insert e.1 e.2) b) := by
    induction h with
    | nil => exact id
    | cons head _ ih =>
      intro a b start
      rw [List.foldl_cons, List.foldl_cons, ← head.1]
      exact ih (start.insert head.2)
  exact fold .nil

end Matched

end ListRepeater.Keyed
