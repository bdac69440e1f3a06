import ListRepeater.Proofs.EditedSegments
/-!
# The kind of a localized field

Two scans decide what a segment is. A text counts as a binding if two closing braces stand anywhere
behind its first two opening ones; localizing only changes what stands before the closing braces
that it finds by counting braces and stepping over literals. Whatever the second scan closes the
first one sees, and what stands before the first segment is kept. So localizing keeps the kind of a
text for every scope, even one that puts braces in the place of a reference.
-/
namespace ListRepeater.Binding

theorem hasClose_append (front rest : List Char) : hasClose (front ++ '}' :: '}' :: rest) = true := by
  induction front with
  | nil => rfl
  | cons c front ih => rw [List.cons_append, hasClose, ih, Bool.or_true]

/-- A text whose first two opening braces are closed has a segment. -/
theorem hasSegment_of_splitOpen {cs before body rest : List Char}
    (opened : splitOpen cs = some (before, body ++ '}' :: '}' :: rest)) : hasSegment cs = true := by
  rw [hasSegment, opened]
  exact hasClose_append body rest

/-- A change of the expressions leaves a text alone or keeps all up to its first expression and the
braces behind it. -/
theorem mapBodies_cases (f : List Char → List Char) (cs : List Char) :
    ((parse cs).mapBodies f).render = cs ∨
    ∃ before body rest rest', splitOpen cs = some (before, body ++ '}' :: '}' :: rest) ∧
      ((parse cs).mapBodies f).render = before ++ '{' :: '{' :: (f body ++ '}' :: '}' :: rest') := by
  cases opened : splitOpen cs with
  | none => exact Or.inl (by rw [parse_of_unopened opened]; rfl)
  | some parts =>
    obtain ⟨before, rest⟩ := parts
    cases closed : bodyLength 0 none false rest with
    | none => exact Or.inl (by rw [parse_of_unclosed opened closed]; rfl)
    | some n =>
      obtain ⟨text, -⟩ := split_of_closed closed
      refine Or.inr ⟨before, rest.take n, rest.drop (n + 2),
        ((parse (rest.drop (n + 2))).mapBodies f).render, by rw [← text], ?_⟩
      rw [parse_of_closed opened closed]
      exact Parts.render_cons before (f (rest.take n)) _ _

/-- Whether a text has a segment does not depend on what its expressions are changed to. -/
theorem hasSegment_mapBodies (f : List Char → List Char) (cs : List Char) :
    hasSegment ((parse cs).mapBodies f).render = hasSegment cs := by
  rcases mapBodies_cases f cs with same | ⟨before, body, rest, rest', opened, text⟩
  · rw [same]
  · rw [text, hasSegment_of_splitOpen opened]
    exact hasSegment_of_splitOpen (splitOpen_replace opened (f body ++ '}' :: '}' :: rest'))

theorem render_mapBodies_of_plain (f : List Char → List Char) {cs : List Char}
    (plain : hasSegment cs = false) : ((parse cs).mapBodies f).render = cs := by
  rcases mapBodies_cases f cs with same | ⟨before, body, rest, rest', opened, -⟩
  · exact same
  · rw [hasSegment_of_splitOpen opened] at plain
    cases plain

section Localized

variable (s : Scope) (text : String)

theorem hasSegment_localize : hasSegment (localize s text).toList = hasSegment text.toList := by
  rw [localize, String.toList_ofList]
  exact hasSegment_mapBodies (localizeExpression s) text.toList

theorem localize_of_plain (plain : hasSegment text.toList = false) : localize s text = text := by
  have chars : localizeChars s text.toList = text.toList :=
    render_mapBodies_of_plain (localizeExpression s) plain
  rw [localize, chars, String.ofList_toList]

/-- The value of a string, taken for a binding or not, is localized to the localized text. -/
theorem toJson_localizeField_str :
    (localizeField s (.ofJson (.str text))).toJson = .str (localize s text) := by
  rw [Field.ofJson]
  split
  · rfl
  · next plain =>
    rw [localize_of_plain s text (Bool.eq_false_iff.mpr plain)]
    rfl

variable {text}

/-- Only a string with a segment is taken for a binding. -/
theorem eq_str_of_binding? {v : Json} (binding : (Field.ofJson v).binding? = some text) :
    v = .str text ∧ hasSegment text.toList = true := by
  cases v with
  | str own =>
    rw [Field.ofJson] at binding
    split at binding
    · next segment =>
      obtain rfl := Option.some.inj binding
      exact ⟨rfl, segment⟩
    · cases binding
  | _ => cases binding

theorem ofJson_toJson_localizeField {v : Json} (binding : (Field.ofJson v).binding? = some text) :
    Field.ofJson (localizeField s (.ofJson v)).toJson = .binding (localize s text) := by
  obtain ⟨rfl, segment⟩ := eq_str_of_binding? binding
  rw [toJson_localizeField_str, Field.ofJson, hasSegment_localize, segment, if_pos rfl]

end Localized

/-- Whatever the scope puts in the place of references, a localized text is a binding if and only if
the authored one is, and a text that is no binding is left alone. So a value that was taken for no
binding would not have been changed either, and a binding is still one after its localized text was
written as a value and read again. -/
theorem localize_keeps_kinds (s : Scope) (text : String) :
    hasSegment (localize s text).toList = hasSegment text.toList ∧
    (hasSegment text.toList = false → localize s text = text) ∧
    (localizeField s (.ofJson (.str text))).toJson = .str (localize s text) ∧
    ∀ v, (Field.ofJson v).binding? = some text →
      Field.ofJson (localizeField s (.ofJson v)).toJson = .binding (localize s text) :=
  ⟨hasSegment_localize s text, localize_of_plain s text, toJson_localizeField_str s text,
    fun _ binding => ofJson_toJson_localizeField s binding⟩

-- the first scan takes a text for a binding in which the second one, a brace deep, finds no segment
example : hasSegment "\x7b\x7b \x7b \x7d\x7d".toList = true ∧
    (parse "\x7b\x7b \x7b \x7d\x7d".toList).segments = [] := by
  decide +kernel

section Samples

/-- A scope with braces in a name, in the record and in the view. -/
def unruly : Scope where
  place := ⟨0, 0, 0, ⟨"0"⟩⟩
  item := .value (.str "\x7d\x7d \x7b\x7b")
  names := .ofList [("Text1", "\x7d\x7d\x7b\x7b")]
  view := "\x7d\x7d"
  ancestry := none

/-- A binding whose second segment is not closed, and a text whose braces are in the wrong order. -/
theorem localize_keeps_kinds_unruly :
    let bound := "\x7d\x7d " ++ mustache "Text1" ++ "\x7b\x7b '\x7d\x7d currentView"
    let plain := "\x7d\x7d currentView \x7b\x7b Text1 \x7d"
    (Field.ofJson (.str bound)).binding? = some bound ∧
    Field.ofJson (localizeField unruly (.ofJson (.str bound))).toJson =
      .binding (localize unruly bound) ∧
    localize unruly bound ≠ bound ∧
    hasSegment plain.toList = false ∧ localize unruly plain = plain := by
  intro bound plain
  have binding : (Field.ofJson (.str bound)).binding? = some bound := by decide +kernel
  have changed : localize unruly bound ≠ bound := by decide +kernel
  have none : hasSegment plain.toList = false := by decide +kernel
  exact ⟨binding, (localize_keeps_kinds unruly bound).2.2.2 _ binding, changed, none,
    (localize_keeps_kinds unruly plain).2.1 none⟩

end Samples

end ListRepeater.Binding
