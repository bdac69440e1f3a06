import ListRepeater.Proofs.Json.CompactText
import ListRepeater.Proofs.Json.EqualValues
import ListRepeater.Proofs.KeptCells
/-!
# Fingerprints tell records apart

Two records have one written form only if they are the same tree, and trees are the same exactly for
equal values. So a hash that takes no two of their fingerprints for each other tells records apart
that differ in value, and no others, and a pass finds a row changed by every edit of its record.
-/
namespace ListRepeater

theorem fingerprint_injective {record record' : Json}
    (h : fingerprint record = fingerprint record') : record = record' :=
  Json.compact_injective h

theorem fingerprint_eq_iff_equal {a b : Json} :
    fingerprint a.normalize = fingerprint b.normalize ↔ a.Equal b := by
  rw [Json.equal_iff_normalize_eq]
  exact ⟨fingerprint_injective, congrArg fingerprint⟩

/-- A row that stays where it was is changed exactly if the written form of its record is. -/
theorem Pass.rowChanged_iff_fingerprint_ne {p₀ p : Pass} {b₀ b : SlotBook} {row₀ row : WindowRow}
    (hrow₀ : row₀ ∈ p₀.windowRows) (place : row₀.place = row.place)
    (editable : p₀.isEditable row₀ = p.isEditable row) :
    (p.compare (some (p₀.shownIn b₀))).rowChanged (p.rowIn b row) = true ↔
      fingerprint row₀.record ≠ fingerprint row.record := by
  rw [← Bool.not_eq_false, not_iff_not, rowChanged_eq_false_iff]
  constructor
  · rintro ⟨row₁, hrow₁, place₁, record, -⟩
    have same : row₁ = row₀ :=
      p₀.row_eq_of_view hrow₁ hrow₀ (congrArg Place.view (place₁.trans place.symm))
    exact same ▸ record
  · exact fun record => ⟨row₀, hrow₀, place, record, editable⟩

/-- A hash of the written form that does not take those of two records for each other gives one
value for both exactly if they are equal values; and a row whose record is replaced by the other one
is found changed exactly if they are not. -/
theorem hash_fingerprint_eq_iff {H : Type} (hash : String → H) {a b : Json}
    (apart : hash (fingerprint a.normalize) = hash (fingerprint b.normalize) →
      fingerprint a.normalize = fingerprint b.normalize) :
    (hash (fingerprint a.normalize) = hash (fingerprint b.normalize) ↔ a.Equal b) ∧
    ∀ (p₀ p : Pass) (b₀ b₁ : SlotBook), ∀ row₀ ∈ p₀.windowRows, ∀ row : WindowRow,
      row₀.place = row.place → p₀.isEditable row₀ = p.isEditable row →
      row₀.record = a.normalize → row.record = b.normalize →
      ((p.compare (some (p₀.shownIn b₀))).rowChanged (p.rowIn b₁ row) = true ↔ ¬a.Equal b) := by
  constructor
  · exact ⟨fun h => fingerprint_eq_iff_equal.mp (apart h), fun h =>
      congrArg hash (fingerprint_eq_iff_equal.mpr h)⟩
  · intro p₀ p b₀ b₁ row₀ hrow₀ row place editable old new
    rw [Pass.rowChanged_iff_fingerprint_ne hrow₀ place editable, old, new, Ne,
      fingerprint_eq_iff_equal]

section Samples

/-- The FNV-1a hash of the characters of a text, in 64 bits. -/
def characterHash (s : String) : UInt64 :=
  s.toList.foldl (fun h c => (h ^^^ UInt64.ofNat c.toNat) * 1099511628211) 14695981039346656037

/-- A record whose key and texts look like the punctuation around them. -/
def punctuated : Json :=
  .obj [("id", .int 1), ("\",\"b\":\x7b", .arr [.arr [.null, .bool true], .str "],["]),
    ("c", .obj [("d", .str "\\\""), ("e", .int (-1))])]

/-- The same record in another order, with a member that a later one of its key hides. -/
def punctuatedAgain : Json :=
  .obj [("c", .obj [("e", .int (-1)), ("d", .str "\\\"")]), ("id", .str "1"),
    ("\",\"b\":\x7b", .arr [.arr [.null, .bool true], .str "],["]), ("id", .int 1)]

/-- A text instead of a number, and an array that ends one item later. -/
def punctuatedOtherwise : Json :=
  .obj [("id", .str "1"), ("\",\"b\":\x7b", .arr [.arr [.null, .bool true, .str "],["]]),
    ("c", .obj [("d", .str "\\\""), ("e", .int (-1))])]

/-- Shows one record in a row of one container. -/
def oneRow (record : Json) : Pass :=
  .ofRequest .standard
    { Request.blank "" ⟨"main"⟩ ⟨"row"⟩ (.ofNodes [Node.plain ⟨"row"⟩ "Row" "CONTAINER_WIDGET"]) with
      records := [record.normalize]
      keys := [⟨"1"⟩] }

theorem hash_fingerprint_eq_iff_punctuated :
    (punctuated.Equal punctuatedAgain ∧ characterHash (fingerprint punctuated.normalize) =
      characterHash (fingerprint punctuatedAgain.normalize)) ∧
    (¬punctuated.Equal punctuatedOtherwise ∧ characterHash (fingerprint punctuated.normalize) ≠
      characterHash (fingerprint punctuatedOtherwise.normalize)) ∧
    ∃ row ∈ (oneRow punctuatedOtherwise).windowRows, ∀ b b₁ : SlotBook,
      ((oneRow punctuatedOtherwise).compare (some ((oneRow punctuated).shownIn b))).rowChanged
        ((oneRow punctuatedOtherwise).rowIn b₁ row) = true := by
  have same : fingerprint punctuated.normalize = fingerprint punctuatedAgain.normalize := by
    decide +kernel
  have differs : characterHash (fingerprint punctuated.normalize) ≠
      characterHash (fingerprint punctuatedOtherwise.normalize) := by
    decide +kernel
  have kept : ∃ row₀ ∈ (oneRow punctuated).windowRows,
      ∃ row ∈ (oneRow punctuatedOtherwise).windowRows, row₀.place = row.place ∧
        (oneRow punctuated).isEditable row₀ = (oneRow punctuatedOtherwise).isEditable row ∧
        row₀.record = punctuated.normalize ∧ row.record = punctuatedOtherwise.normalize := by
    decide +kernel
  obtain ⟨alike, -⟩ := hash_fingerprint_eq_iff characterHash fun _ => same
  obtain ⟨apart, changed⟩ := hash_fingerprint_eq_iff characterHash fun h => (differs h).elim
  have unequal : ¬punctuated.Equal punctuatedOtherwise := fun equal => differs (apart.mpr equal)
  refine ⟨⟨alike.mp (congrArg characterHash same), congrArg characterHash same⟩,
    ⟨unequal, differs⟩, ?_⟩
  obtain ⟨row₀, hrow₀, row, hrow, place, editable, old, new⟩ := kept
  exact ⟨row, hrow, fun b b₁ =>
    (changed _ _ b b₁ row₀ hrow₀ row place editable old new).mpr unequal⟩

end Samples

end ListRepeater
