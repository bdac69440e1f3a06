import ListRepeater.Proofs.Json.Normalizing
/-!
# Equal values

Two trees are equal values if they are made alike, where an object is what its keys hold: neither
the order of its members nor a member that a later one of its key hides is part of the value.
Normalizing is the choice of one tree for each value.
-/
namespace ListRepeater.Json

inductive Equal : Json → Json → Prop where
  | null : Equal .null .null
  | bool (b : Bool) : Equal (.bool b) (.bool b)
  | int (n : Int) : Equal (.int n) (.int n)
  | double (d : Binary64) : Equal (.double d) (.double d)
  | str (s : String) : Equal (.str s) (.str s)
  | arr {vs ws : List Json} (length : vs.length = ws.length)
      (items : ∀ (i : Nat) v w, vs[i]? = some v → ws[i]? = some w → Equal v w) :
      Equal (.arr vs) (.arr ws)
  | obj {es fs : List (String × Json)}
      (keys : ∀ k, ((Json.obj es).get? k).isSome = ((Json.obj fs).get? k).isSome)
      (values : ∀ k v w, (Json.obj es).get? k = some v → (Json.obj fs).get? k = some w → Equal v w) :
      Equal (.obj es) (.obj fs)

section Normalized

theorem normalize_arr_eq_iff {vs ws : List Json} :
    (Json.arr vs).normalize = (Json.arr ws).normalize ↔ vs.map normalize = ws.map normalize := by
  rw [normalize, normalize, Json.arr.injEq, normalizeItems_eq_map, normalizeItems_eq_map]

theorem normalize_obj_eq_iff {es fs : List (String × Json)} :
    (Json.obj es).normalize = (Json.obj fs).normalize ↔
      ∀ k, ((Json.obj es).get? k).map normalize = ((Json.obj fs).get? k).map normalize := by
  rw [normalize, normalize, Json.obj.injEq, normalizeMembers_eq_map, normalizeMembers_eq_map,
    sortMembers_eq_iff]
  simp only [get?_obj_map]

variable {a b : Json}

theorem Equal.normalize_eq (h : a.Equal b) : a.normalize = b.normalize := by
  induction h with
  | arr length _ ih =>
    refine normalize_arr_eq_iff.mpr (List.ext_getElem (by simpa using length) fun i hv hw => ?_)
    rw [List.getElem_map, List.getElem_map]
    exact ih i _ _ (List.getElem?_eq_getElem _) (List.getElem?_eq_getElem _)
  | @obj es fs keys _ ih =>
    refine normalize_obj_eq_iff.mpr fun k => ?_
    have held := keys k
    cases left : (Json.obj es).get? k with
    | none =>
      rw [left, Option.isSome_none] at held
      rw [Option.isNone_iff_eq_none.mp (Option.isSome_eq_false_iff.mp held.symm)]
    | some v =>
      rw [left, Option.isSome_some] at held
      obtain ⟨w, right⟩ := Option.isSome_iff_exists.mp held.symm
      rw [right]
      exact congrArg some (ih k v w left right)
  | _ => rfl

theorem equal_of_normalize_eq (h : a.normalize = b.normalize) : a.Equal b := by
  induction a using childInduction generalizing b with
  | arr vs ih =>
    cases b with
    | arr ws =>
      have items := normalize_arr_eq_iff.mp h
      refine .arr (by simpa using congrArg List.length items) fun i v w hv hw => ?_
      have same := congrArg (·[i]?) items
      rw [List.getElem?_map, List.getElem?_map, hv, hw] at same
      exact ih v (List.mem_of_getElem? hv) (Option.some.inj same)
    | _ => cases h
  | obj es ih =>
    cases b with
    | obj fs =>
      have held := normalize_obj_eq_iff.mp h
      refine .obj (fun k => by simpa using congrArg Option.isSome (held k)) fun k v w hv hw => ?_
      have same := held k
      rw [hv, hw] at same
      exact ih (k, v) (mem_of_get?_obj hv) (Option.some.inj same)
    | _ => cases h
  | null =>
    cases b <;> cases h
    exact .null
  | bool x =>
    cases b <;> cases h
    exact .bool x
  | int n =>
    cases b <;> cases h
    exact .int n
  | double d =>
    cases b <;> cases h
    exact .double d
  | str s =>
    cases b <;> cases h
    exact .str s

/-- Equal values are those that are normalized to the same tree. -/
theorem equal_iff_normalize_eq : a.Equal b ↔ a.normalize = b.normalize :=
  ⟨Equal.normalize_eq, equal_of_normalize_eq⟩

instance (a b : Json) : Decidable (a.Equal b) := decidable_of_iff _ equal_iff_normalize_eq.symm

-- the last member of a key counts
example : (Json.obj [("a", .int 1), ("b", .null), ("a", .str "1")]).Equal
    (.obj [("a", .str "1"), ("b", .null)]) := by
  decide

end Normalized

end ListRepeater.Json
