import ListRepeater.Proofs.Json.ReadBack
import Mathlib.Data.String.Basic
/-!
# Normalized trees

The members that normalizing leaves in an object stand in the strict order of their keys, and such
members it leaves alone. So it is done at once, and it makes no tree deeper. What an object holds
under its keys, each with its last member, tells which members are left.
-/
namespace ListRepeater.Json

/-- What holds of a tree if it holds of its items and of the values of its members, holds of every
tree. -/
@[elab_as_elim]
theorem childInduction {P : Json → Prop} (null : P .null) (bool : ∀ b, P (.bool b))
    (int : ∀ n, P (.int n)) (double : ∀ d, P (.double d)) (str : ∀ s, P (.str s))
    (arr : ∀ vs : List Json, (∀ v ∈ vs, P v) → P (.arr vs))
    (obj : ∀ es : List (String × Json), (∀ e ∈ es, P e.2) → P (.obj es)) (v : Json) : P v :=
  @Json.rec P (fun vs => ∀ v ∈ vs, P v) (fun es => ∀ e ∈ es, P e.2) (fun e => P e.2)
    null bool int double str arr obj
    (List.forall_mem_nil _) (fun _ _ first others => List.forall_mem_cons.mpr ⟨first, others⟩)
    (List.forall_mem_nil _) (fun _ _ first others => List.forall_mem_cons.mpr ⟨first, others⟩)
    (fun _ _ value => value) v

section Lookups

variable {k : String} {v : Json} {es : List (String × Json)}

theorem get?_obj_concat (es : List (String × Json)) (e : String × Json) (k : String) :
    (Json.obj (es ++ [e])).get? k = if e.1 = k then some e.2 else (Json.obj es).get? k := by
  rw [get?, List.reverse_append, List.reverse_singleton, List.singleton_append, List.find?_cons]
  by_cases same : e.1 = k
  · rw [if_pos same, beq_iff_eq.mpr same, Option.map_some]
  · rw [if_neg same, beq_eq_false_iff_ne.mpr same, get?]

theorem mem_of_get?_obj (h : (Json.obj es).get? k = some v) : (k, v) ∈ es := by
  obtain ⟨e, found, rfl⟩ := Option.map_eq_some_iff.mp h
  have key : e.1 = k := by simpa using List.find?_some found
  exact key ▸ List.mem_reverse.mp (List.mem_of_find?_eq_some found)

theorem get?_obj_map (f : Json → Json) (es : List (String × Json)) (k : String) :
    (Json.obj (es.map fun e => (e.1, f e.2))).get? k = ((Json.obj es).get? k).map f := by
  simp only [get?, ← List.map_reverse, List.find?_map, Option.map_map]
  rfl

end Lookups

/-- Every key comes before those behind it. -/
def Ordered (es : List (String × Json)) : Prop := es.Pairwise fun a b => a.1 < b.1

section Sorting

variable {k : String} {v : Json} {es : List (String × Json)}

theorem mem_putSorted_iff (h : Ordered es) {e : String × Json} :
    e ∈ putSorted k v es ↔ e = (k, v) ∨ e.1 ≠ k ∧ e ∈ es := by
  induction es with
  | nil => simp [putSorted]
  | cons x es ih =>
    obtain ⟨first, others⟩ := List.pairwise_cons.mp h
    rw [putSorted]
    split
    · next same =>
      have behind : e ∈ es → e.1 ≠ k := fun he => same ▸ (first e he).ne'
      have apart : e = x → e.1 = k := by
        rintro rfl
        exact same
      rw [List.mem_cons, List.mem_cons]
      tauto
    split
    · next before =>
      have behind : e ∈ x :: es → e.1 ≠ k := by
        intro he
        rcases List.mem_cons.mp he with rfl | he
        · exact before.ne'
        · exact (before.trans (first e he)).ne'
      rw [List.mem_cons]
      tauto
    · next differs notBefore =>
      have apart : e = x → e.1 ≠ k := by
        rintro rfl
        exact differs
      rw [List.mem_cons, ih others, List.mem_cons]
      tauto

theorem ordered_putSorted (h : Ordered es) : Ordered (putSorted k v es) := by
  induction es with
  | nil => exact List.pairwise_singleton _ _
  | cons x es ih =>
    obtain ⟨first, others⟩ := List.pairwise_cons.mp h
    rw [putSorted]
    split
    · next same => exact List.pairwise_cons.mpr ⟨same ▸ first, others⟩
    split
    · next before =>
      refine List.pairwise_cons.mpr ⟨List.forall_mem_cons.mpr ⟨before, fun e he => ?_⟩, h⟩
      exact before.trans (first e he)
    · next differs notBefore =>
      refine List.pairwise_cons.mpr ⟨fun e he => ?_, ih others⟩
      rcases (mem_putSorted_iff others).mp he with rfl | ⟨-, he⟩
      · exact lt_of_le_of_ne (not_lt.mp notBefore) differs
      · exact first e he

theorem putSorted_of_forall_lt (h : ∀ e ∈ es, e.1 < k) : putSorted k v es = es ++ [(k, v)] := by
  induction es with
  | nil => rfl
  | cons x es ih =>
    obtain ⟨first, others⟩ := List.forall_mem_cons.mp h
    rw [putSorted, if_neg first.ne, if_neg first.asymm, ih others, List.cons_append]

theorem putSorted_map (f : Json → Json) :
    (putSorted k v es).map (fun e => (e.1, f e.2)) =
      putSorted k (f v) (es.map fun e => (e.1, f e.2)) := by
  induction es with
  | nil => rfl
  | cons x es ih =>
    simp only [putSorted, List.map_cons]
    split
    · rfl
    split
    · rfl
    · rw [List.map_cons, ih]

theorem ordered_sortMembers (es : List (String × Json)) : Ordered (sortMembers es) := by
  have loop : ∀ (es acc : List (String × Json)), Ordered acc →
      Ordered (es.foldl (fun acc e => putSorted e.1 e.2 acc) acc) := by
    intro es
    induction es with
    | nil => exact fun acc h => h
    | cons e es ih => exact fun acc h => ih _ (ordered_putSorted h)
  exact loop es [] List.Pairwise.nil

/-- Sorting leaves the members that an object gives for their keys. -/
theorem mem_sortMembers_iff {e : String × Json} :
    e ∈ sortMembers es ↔ (Json.obj es).get? e.1 = some e.2 := by
  induction es using List.reverseRecOn with
  | nil => exact iff_of_false List.not_mem_nil (by simp [get?])
  | append_singleton es x ih =>
    have sorted : sortMembers (es ++ [x]) = putSorted x.1 x.2 (sortMembers es) :=
      List.foldl_concat _ _ _ _
    rw [sorted, mem_putSorted_iff (ordered_sortMembers es), ih, get?_obj_concat]
    by_cases same : x.1 = e.1
    · simp [same, Prod.ext_iff, eq_comm]
    · simp [same, Ne.symm same, Prod.ext_iff]

theorem mem_of_mem_sortMembers {e : String × Json} (h : e ∈ sortMembers es) : e ∈ es :=
  mem_of_get?_obj (mem_sortMembers_iff.mp h)

/-- Ordered members are known by which they are. -/
theorem Ordered.ext {es fs : List (String × Json)} (h : Ordered es) (h' : Ordered fs)
    (members : ∀ e, e ∈ es ↔ e ∈ fs) : es = fs :=
  List.Perm.eq_of_pairwise (fun _ _ _ _ before behind => (before.asymm behind).elim) h h'
    ((List.perm_ext_iff_of_nodup h.nodup h'.nodup).mpr members)

/-- The sorted members are the same exactly for objects that give the same for every key. -/
theorem sortMembers_eq_iff {es fs : List (String × Json)} :
    sortMembers es = sortMembers fs ↔ ∀ k, (Json.obj es).get? k = (Json.obj fs).get? k := by
  constructor
  · intro h k
    refine Option.ext fun v => ?_
    have members := @mem_sortMembers_iff es (k, v)
    rw [h, mem_sortMembers_iff] at members
    exact members.symm
  · intro h
    refine (ordered_sortMembers es).ext (ordered_sortMembers fs) fun e => ?_
    rw [mem_sortMembers_iff, mem_sortMembers_iff, h]

theorem sortMembers_of_ordered (h : Ordered es) : sortMembers es = es := by
  have loop : ∀ (es acc : List (String × Json)), Ordered (acc ++ es) →
      es.foldl (fun acc e => putSorted e.1 e.2 acc) acc = acc ++ es := by
    intro es
    induction es with
    | nil => exact fun acc _ => (List.append_nil acc).symm
    | cons e es ih =>
      intro acc h
      have before : ∀ x ∈ acc, x.1 < e.1 := fun x hx =>
        (List.pairwise_append.mp h).2.2 x hx e List.mem_cons_self
      have assoc : acc ++ e :: es = acc ++ [e] ++ es := by simp
      rw [List.foldl_cons, putSorted_of_forall_lt before, ih _ (assoc ▸ h), assoc]
  exact loop es [] h

theorem sortMembers_map (f : Json → Json) (es : List (String × Json)) :
    (sortMembers es).map (fun e => (e.1, f e.2)) =
      sortMembers (es.map fun e => (e.1, f e.2)) := by
  have loop : ∀ es acc : List (String × Json),
      (es.foldl (fun acc e => putSorted e.1 e.2 acc) acc).map (fun e => (e.1, f e.2)) =
        (es.map fun e => (e.1, f e.2)).foldl (fun acc e => putSorted e.1 e.2 acc)
          (acc.map fun e => (e.1, f e.2)) := by
    intro es
    induction es with
    | nil => exact fun acc => rfl
    | cons e es ih =>
      intro acc
      rw [List.foldl_cons, ih, putSorted_map]
      rfl
  exact loop es []

end Sorting

theorem normalizeItems_eq_map (vs : List Json) : normalizeItems vs = vs.map normalize := by
  induction vs with
  | nil => rfl
  | cons v vs ih => rw [normalizeItems, ih, List.map_cons]

theorem normalizeMembers_eq_map (es : List (String × Json)) :
    normalizeMembers es = es.map fun e => (e.1, e.2.normalize) := by
  induction es with
  | nil => rfl
  | cons e es ih => rw [normalizeMembers, ih, List.map_cons]

theorem normalize_normalize (v : Json) : v.normalize.normalize = v.normalize := by
  induction v using childInduction with
  | arr vs ih =>
    rw [normalize, normalizeItems_eq_map, normalize, normalizeItems_eq_map, List.map_map]
    exact congrArg Json.arr (List.map_congr_left ih)
  | obj es ih =>
    -- The keys of the members stay where they are when their values are normalized again.
    rw [normalize, normalize, normalizeMembers_eq_map, normalizeMembers_eq_map, sortMembers_map,
      sortMembers_of_ordered (ordered_sortMembers _), List.map_map]
    exact congrArg (fun es => Json.obj (sortMembers es))
      (List.map_congr_left fun e he => congrArg (Prod.mk e.1) (ih e he))
  | _ => rfl

theorem Fits.normalize {depth : Nat} {v : Json} (h : Fits depth v) : Fits depth v.normalize := by
  induction h with
  | null => exact .null
  | bool b => exact .bool b
  | int word => exact .int word
  | double d => exact .double d
  | str s => exact .str s
  | arr _ ih =>
    rw [Json.normalize, normalizeItems_eq_map]
    exact .arr (List.forall_mem_map.mpr ih)
  | obj _ ih =>
    rw [Json.normalize, normalizeMembers_eq_map]
    refine .obj fun x hx => ?_
    obtain ⟨e, he, rfl⟩ := List.mem_map.mp (mem_of_mem_sortMembers hx)
    exact ih e he

theorem isDoubleFree_normalize {v : Json} (free : v.isDoubleFree = true) :
    v.normalize.isDoubleFree = true := by
  induction v using childInduction with
  | arr vs ih =>
    have items := isDoubleFree_arr_iff.mp free
    rw [Json.normalize, normalizeItems_eq_map, isDoubleFree_arr_iff]
    exact List.forall_mem_map.mpr fun v hv => ih v hv (items v hv)
  | obj es ih =>
    have members := isDoubleFree_obj_iff.mp free
    rw [Json.normalize, normalizeMembers_eq_map, isDoubleFree_obj_iff]
    intro x hx
    obtain ⟨e, he, rfl⟩ := List.mem_map.mp (mem_of_mem_sortMembers hx)
    exact ih e he (members e he)
  | _ => exact free

end ListRepeater.Json
