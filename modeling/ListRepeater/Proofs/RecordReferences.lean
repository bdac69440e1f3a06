import ListRepeater.Binding.Localize
/-!
# References to the record of a row

A binding speaks of the record of its row by `currentItem`. Localizing puts what the row calls its
record in the place of every such reference and reads it nowhere else. So rows that differ in
nothing but that make the same text of a binding, with the one expression in place of the other as
often as the binding refers to the record.
-/
namespace ListRepeater

/-- The second text is the first one with `n` occurrences of `a` replaced by `b`. -/
inductive Replaced (a b : List Char) : Nat → List Char → List Char → Prop
  | nil : Replaced a b 0 [] []
  | char {n : Nat} {s t : List Char} (c : Char) (rest : Replaced a b n s t) :
      Replaced a b n (c :: s) (c :: t)
  | swap {n : Nat} {s t : List Char} (rest : Replaced a b n s t) :
      Replaced a b (n + 1) (a ++ s) (b ++ t)

namespace Replaced

variable {a b s t s' t' : List Char} {m n : Nat}

theorem refl (s : List Char) : Replaced a b 0 s s := by
  induction s with
  | nil => exact .nil
  | cons c rest ih => exact .char c ih

/-- What stands before both texts stays. -/
theorem behind (front : List Char) (h : Replaced a b n s t) :
    Replaced a b n (front ++ s) (front ++ t) := by
  induction front with
  | nil => exact h
  | cons c rest ih => exact .char c ih

theorem append (h : Replaced a b m s t) (h' : Replaced a b n s' t') :
    Replaced a b (m + n) (s ++ s') (t ++ t') := by
  induction h with
  | nil => rwa [Nat.zero_add]
  | char c _ ih => exact .char c ih
  | swap _ ih =>
    rw [List.append_assoc, List.append_assoc, Nat.add_right_comm]
    exact .swap ih

end Replaced

namespace Scope

variable (s : Scope) (x y : RowItem)

/-- The scope of a row that calls its record otherwise. -/
def withItem : Scope := { s with item := x }

theorem join_eq (base : String) (words : List String) : join base words = base ++ join "" words := by
  have fold : ∀ front, words.foldl (fun out w => out ++ "." ++ w) (base ++ front) =
      base ++ words.foldl (fun out w => out ++ "." ++ w) front := by
    induction words with
    | nil => exact fun _ => rfl
    | cons w rest ih =>
      intro front
      rw [List.foldl_cons, List.foldl_cons, ← ih, String.append_assoc, String.append_assoc,
        String.append_assoc]
  have start := fold ""
  rwa [String.append_empty] at start

/-- A reference to the record starts with what the row calls it. -/
theorem resolve_currentItem (rest : List String) :
    s.resolve ("currentItem" :: rest) = some (s.item.expression ++ join "" rest) := by
  rw [resolve, if_pos rfl, join_eq]

/-- No other reference depends on what the row calls its record. -/
theorem resolve_withItem {words : List String} (other : words.head? ≠ some "currentItem") :
    (s.withItem x).resolve words = (s.withItem y).resolve words := by
  cases words with
  | nil => rfl
  | cons head rest =>
    have head_ne : head ≠ "currentItem" := fun e => other (congrArg some e)
    rw [resolve, resolve, if_neg head_ne, if_neg head_ne]
    rfl

end Scope

namespace Binding

/-- Whether the chain speaks of the record of the row. -/
def Chain.asksItem (c : Chain) : Bool := c.words.head? == some "currentItem"

/-- How often a binding speaks of the record of its row. -/
def itemReferences (text : String) : Nat :=
  total ((parse text.toList).segments.map fun seg => (references seg.2).countP (·.asksItem))

variable (s : Scope) (x y : RowItem)

theorem replaced_splice (refs : List Chain) (pos : Nat) (cs : List Char) :
    let edits (s : Scope) : List Edit := refs.filterMap fun c =>
      (s.resolve c.words).map fun text => ⟨c.start, c.stop, text.toList⟩
    Replaced x.expression.toList y.expression.toList (refs.countP (·.asksItem))
      (splice pos cs (edits (s.withItem x))) (splice pos cs (edits (s.withItem y))) := by
  intro edits
  induction refs generalizing pos cs with
  | nil => exact .refl cs
  | cons c refs ih =>
    by_cases asks : c.words.head? = some "currentItem"
    · obtain ⟨rest, words⟩ := List.head?_eq_some_iff.mp asks
      have counts : c.asksItem = true := beq_iff_eq.mpr asks
      simp only [edits, List.filterMap_cons, words, Scope.resolve_currentItem, Option.map_some,
        splice, List.countP_cons, counts, if_true, String.toList_append, List.append_assoc]
      exact .behind _ (.swap (.behind _ (ih c.stop _)))
    · have misses : ¬c.asksItem = true := fun h => asks (beq_iff_eq.mp h)
      have resolved := s.resolve_withItem x y asks
      simp only [edits, List.filterMap_cons, resolved, List.countP_cons, misses]
      cases (s.withItem y).resolve c.words with
      | none => exact ih pos cs
      | some text =>
        simp only [Option.map_some, splice, List.append_assoc]
        exact .behind _ (.behind _ (ih c.stop _))

/-- Rows that differ in what they call their records localize a binding alike but for that. -/
theorem replaced_localize (text : String) :
    Replaced x.expression.toList y.expression.toList (itemReferences text)
      (localize (s.withItem x) text).toList (localize (s.withItem y) text).toList := by
  rw [localize, localize, String.toList_ofList, String.toList_ofList, localizeChars, localizeChars,
    itemReferences, Parts.mapBodies, Parts.mapBodies, Parts.render, Parts.render]
  refine Replaced.append (n := 0) ?_ (.refl _)
  induction (parse text.toList).segments with
  | nil => exact .nil
  | cons seg rest ih =>
    rw [List.map_cons, List.map_cons, List.map_cons, List.flatMap_cons, List.flatMap_cons,
      total_cons]
    refine Replaced.append ?_ ih
    have body := replaced_splice s x y (references seg.2) 0 seg.2
    have closed := (body.append (.refl ['}', '}'])).behind (seg.1 ++ ['{', '{'])
    simpa [localizeExpression] using closed

end Binding

/-- What rows that call their records `x` and `y`, but are alike otherwise, make of an authored
field. -/
inductive Field.Told (x y : RowItem) : Field → Field → Field → Prop
  | literal (v : Json) : Told x y (.literal v) (.literal v) (.literal v)
  | binding {text s t : String}
      (texts : Replaced x.expression.toList y.expression.toList (Binding.itemReferences text)
        s.toList t.toList) :
      Told x y (.binding text) (.binding s) (.binding t)

theorem Binding.told_localizeField (s : Scope) (x y : RowItem) (v : Field) :
    v.Told x y (localizeField (s.withItem x) v) (localizeField (s.withItem y) v) := by
  cases v with
  | literal v => exact .literal v
  | binding text => exact .binding (replaced_localize s x y text)

end ListRepeater
