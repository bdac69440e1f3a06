import ListRepeater.Proofs.SlotIdentity
/-!
# Rows that go by their own keys

Rows that share a key are told apart by substitutes, which are chosen row by row against the rows
above. So a row goes by the key of its record exactly if it is the first with that key and no row
above it was given that key as a substitute. A substitute can be the real key of a row further down,
which then loses its key and with it the ids of its slots.
-/
namespace ListRepeater

namespace RowKey

/-- A key is kept exactly if it is not taken and no row above goes by it. -/
theorem getElem?_separateFrom_eq_iff (taken : List RowKey) (view : Nat) {i : Nat}
    {keys : List RowKey} {k : RowKey} (h : keys[i]? = some k) :
    (separateFrom taken view keys)[i]? = some k ↔
      k ∉ taken ∧ ∀ j < i, (separateFrom taken view keys)[j]? ≠ some k := by
  induction keys generalizing taken view i with
  | nil => simp at h
  | cons key rest ih =>
    cases i with
    | zero =>
      obtain rfl : key = k := by simpa using h
      by_cases mem : key ∈ taken
      · have other : firstFree taken key view ≠ key := fun e =>
          firstFree_not_mem taken key view (e.symm ▸ mem)
        simp [separateFrom, mem, other]
      · simp [separateFrom, mem]
    | succ i =>
      have below : rest[i]? = some k := by simpa using h
      have later := ih ((if taken.contains key then firstFree taken key view else key) :: taken)
        (view + 1) below
      simp only [separateFrom, List.getElem?_cons_succ, later, List.mem_cons, not_or]
      constructor
      · rintro ⟨⟨own, free⟩, above⟩
        refine ⟨free, fun j hj => ?_⟩
        cases j with
        | zero => simpa using Ne.symm own
        | succ j => simpa using above j (by omega)
      · rintro ⟨free, above⟩
        refine ⟨⟨?_, free⟩, fun j hj => ?_⟩
        · simpa using Ne.symm (above 0 (by omega))
        · simpa using above (j + 1) (by omega)

theorem sharp_mem_substitute (key : RowKey) (view attempt : Nat) :
    '#' ∈ (key.substitute view attempt).text.toList := by
  rw [substitute]
  split <;> simp [String.toList_append]

/-- A row with another key than its record's has a number sign in it. -/
theorem sharp_mem_separateFrom {taken : List RowKey} {view i : Nat} {keys : List RowKey}
    {k own : RowKey} (given : keys[i]? = some k)
    (shown : (separateFrom taken view keys)[i]? = some own) (renamed : own ≠ k) :
    '#' ∈ own.text.toList := by
  induction keys generalizing taken view i with
  | nil => simp at given
  | cons key rest ih =>
    cases i with
    | zero =>
      obtain rfl : key = k := by simpa using given
      simp only [separateFrom, List.getElem?_cons_zero, Option.some.injEq] at shown
      split at shown
      · obtain ⟨n, e, -⟩ := firstFree_spec taken key view
        rw [← shown, e]
        exact sharp_mem_substitute key view n
      · exact absurd shown.symm renamed
    | succ i => exact ih (by simpa using given) (by simpa [separateFrom] using shown)

end RowKey

/-- The row goes by another key than that of its record. -/
def WindowRow.IsRenamed (row : WindowRow) : Prop := row.place.key ≠ row.given

instance (row : WindowRow) : Decidable row.IsRenamed :=
  inferInstanceAs (Decidable (row.place.key ≠ row.given))

namespace Pass

variable {p : Pass} {row : WindowRow}

/-- No row above it in the window has the key of its record. -/
def IsFirstOfKey (p : Pass) (row : WindowRow) : Prop :=
  ∀ above ∈ p.windowRows, above.place.view < row.place.view → above.given ≠ row.given

instance (p : Pass) (row : WindowRow) : Decidable (p.IsFirstOfKey row) :=
  inferInstanceAs (Decidable (∀ above ∈ p.windowRows, above.place.view < row.place.view →
    above.given ≠ row.given))

theorem map_given_windowRows (p : Pass) :
    p.windowRows.map (·.given) = p.windowRecords.map Prod.snd := by
  rw [← map_shown_windowRows, List.map_map]
  rfl

theorem given_of_mem (h : row ∈ p.windowRows) :
    (p.windowRecords.map Prod.snd)[row.place.view]? = some row.given := by
  rw [← map_given_windowRows, List.getElem?_map, p.getElem?_view_of_mem h]
  rfl

theorem key_of_mem (h : row ∈ p.windowRows) :
    (RowKey.separate (p.windowRecords.map Prod.snd))[row.place.view]? = some row.place.key := by
  rw [← map_key_windowRows, List.getElem?_map, p.getElem?_view_of_mem h]
  rfl

/-- A row of a window keeps its key exactly if no row above goes by it. -/
theorem key_eq_given_iff (h : row ∈ p.windowRows) : row.place.key = row.given ↔
    ∀ above ∈ p.windowRows, above.place.view < row.place.view → above.place.key ≠ row.given := by
  have kept := RowKey.getElem?_separateFrom_eq_iff [] 0 (given_of_mem h)
  rw [← RowKey.separate, key_of_mem h, Option.some.injEq] at kept
  rw [kept]
  constructor
  · rintro ⟨-, free⟩ above habove before e
    apply free _ before
    rw [key_of_mem habove, e]
  · refine fun free => ⟨List.not_mem_nil, fun j hj e => ?_⟩
    rw [← map_key_windowRows, List.getElem?_map, Option.map_eq_some_iff] at e
    obtain ⟨above, found, e⟩ := e
    have view := p.view_of_getElem?_windowRows found
    exact free above (List.mem_of_getElem? found) (view ▸ hj) e

/-- A row goes by its own key exactly if it is the first with that key and the key is no substitute
of a row above. -/
theorem key_eq_given_iff_first (h : row ∈ p.windowRows) : row.place.key = row.given ↔
    p.IsFirstOfKey row ∧ ∀ above ∈ p.windowRows, above.place.view < row.place.view →
      above.IsRenamed → above.place.key ≠ row.given := by
  rw [key_eq_given_iff h]
  constructor
  · intro free
    refine ⟨fun above habove before e => ?_, fun above habove before _ => free above habove before⟩
    -- a row above with the same key goes by it, or lost it to a row further up
    have own : above.place.key = above.given := by
      rw [key_eq_given_iff habove, e]
      exact fun higher hhigher up => free higher hhigher (by omega)
    exact free above habove before (own.trans e)
  · rintro ⟨first, free⟩ above habove before e
    by_cases own : above.place.key = above.given
    · exact first above habove before (own.symm.trans e)
    · exact free above habove before own e

end Pass

/-- The row is shown under the key of its record, and its widgets have the slots of that key. -/
structure PassRow.ShowsOwnKey (row : PassRow) : Prop where
  key : row.row.place.key = row.row.given
  slots : ∀ w ∈ row.layout.widgets, w.slot = ⟨row.row.given, w.templateId⟩

namespace Turn

variable {t : Turn} {row : PassRow}

theorem slot_of_widget (hrow : row ∈ t.rows) {w : RowWidget} (hw : w ∈ row.layout.widgets) :
    w.slot = ⟨row.row.place.key, w.templateId⟩ := by
  obtain ⟨-, -, layout⟩ := row_of_mem_rows hrow
  rw [layout] at hw
  obtain ⟨x, hx, rfl⟩ := List.mem_map.mp hw
  rw [← ((Pass.mem_rowCells _).mp hx).1]
  rfl

theorem showsOwnKey_iff (hrow : row ∈ t.rows) :
    row.ShowsOwnKey ↔ row.row.place.key = row.row.given := by
  constructor
  · exact PassRow.ShowsOwnKey.key
  · intro key
    refine ⟨key, fun w hw => ?_⟩
    rw [← key]
    exact slot_of_widget hrow hw

/-- A row above this one goes by the key of this row as a substitute for its own. -/
def LosesKey (t : Turn) (row : PassRow) : Prop :=
  ∃ above ∈ t.rows, above.row.place.view < row.row.place.view ∧ above.row.IsRenamed ∧
    above.row.place.key = row.row.given

instance (t : Turn) (row : PassRow) : Decidable (t.LosesKey row) :=
  inferInstanceAs (Decidable (∃ above ∈ t.rows, above.row.place.view < row.row.place.view ∧
    above.row.IsRenamed ∧ above.row.place.key = row.row.given))

theorem showsOwnKey_iff_first (hrow : row ∈ t.rows) :
    row.ShowsOwnKey ↔ t.pass.IsFirstOfKey row.row ∧ ¬t.LosesKey row := by
  rw [showsOwnKey_iff hrow, Pass.key_eq_given_iff_first (row_of_mem_rows hrow).1, LosesKey]
  refine and_congr_right fun _ => ?_
  constructor
  · rintro free ⟨above, habove, before, renamed, e⟩
    exact free above.row (row_of_mem_rows habove).1 before renamed e
  · intro free above habove before renamed e
    rw [← map_row_rows] at habove
    obtain ⟨shown, hshown, rfl⟩ := List.mem_map.mp habove
    exact free ⟨shown, hshown, before, renamed, e⟩

/-- Only a key with a number sign in it can be lost. -/
theorem sharp_mem_of_losesKey (loses : t.LosesKey row) : '#' ∈ row.row.given.text.toList := by
  obtain ⟨above, habove, -, renamed, e⟩ := loses
  obtain ⟨hwindow, -, -⟩ := row_of_mem_rows habove
  rw [← e]
  exact RowKey.sharp_mem_separateFrom (Pass.given_of_mem hwindow) (Pass.key_of_mem hwindow) renamed

end Turn

namespace Session

/-- In every pass of a run exactly those rows go by the keys of their records that are the first
with that key and do not lose it to a row above. They keep the ids that the slots of the key had in
the pass before. No first row loses a key without a number sign. -/
theorem real_keys_kept_iff (c : Config) (stored : Option Snapshot) (calls : List Call) :
    (∀ t ∈ (create c stored).turns calls, ∀ row ∈ t.rows,
      (row.ShowsOwnKey ↔ t.pass.IsFirstOfKey row.row ∧ ¬t.LosesKey row) ∧
      (t.pass.IsFirstOfKey row.row → '#' ∉ row.row.given.text.toList → row.ShowsOwnKey)) ∧
    ∀ before a b after, (create c stored).turns calls = before ++ a :: b :: after →
      ∀ row ∈ b.rows, row.ShowsOwnKey → ∀ w ∈ row.layout.widgets, ∀ v ∈ a.widgets,
        v.slot = ⟨row.row.given, w.templateId⟩ → w.slotId = v.slotId := by
  constructor
  · intro t _ row hrow
    have decided := Turn.showsOwnKey_iff_first hrow
    refine ⟨decided, fun first plain => decided.mpr ⟨first, fun loses => ?_⟩⟩
    exact plain (Turn.sharp_mem_of_losesKey loses)
  · intro before a b after split row hrow own w hw v hv slot
    obtain ⟨row₀, hrow₀, hv⟩ := List.mem_flatMap.mp hv
    refine (slotId_eq_of_slot (next_turn split) hrow₀ hrow hv hw ?_).symm
    exact slot.trans (own.slots w hw).symm

/-- Shows rows with these keys, one window after the other, in rows of one container. -/
def keyedCalls (windows : List (List String)) : List Call :=
  let container := Node.plain ⟨"row"⟩ "Row" "CONTAINER_WIDGET"
  windows.flatMap fun keys =>
    [.options { Request.blank "" ⟨"main"⟩ ⟨"row"⟩ (.ofNodes [container]) with
      records := keys.map fun _ => .null
      keys := keys.map RowKey.mk
      pageSize := 3 }, .generate]

/-- A key that looks like a substitute stands above the rows that share a key, and moves down. -/
def shuffledKeys : List Call := keyedCalls [["a#2", "a", "a"], ["a", "b", "a#2"]]

theorem real_keys_kept_shuffledKeys :
    (∀ t ∈ (create .standard none).turns shuffledKeys, ∀ row ∈ t.rows,
      t.pass.IsFirstOfKey row.row → row.ShowsOwnKey) ∧
    ∃ a b, (create .standard none).turns shuffledKeys = [a, b] ∧
      ∀ row ∈ b.rows, ∀ w ∈ row.layout.widgets, ∀ v ∈ a.widgets,
        v.slot = ⟨row.row.given, w.templateId⟩ → w.slotId = v.slotId := by
  obtain ⟨own, ids⟩ := real_keys_kept_iff .standard none shuffledKeys
  have kept : ∀ t ∈ (create .standard none).turns shuffledKeys, ∀ row ∈ t.rows,
      ¬t.LosesKey row := by
    decide +kernel
  have first : ∀ t ∈ ((create .standard none).turns shuffledKeys).tail, ∀ row ∈ t.rows,
      t.pass.IsFirstOfKey row.row := by
    decide +kernel
  have count : ((create .standard none).turns shuffledKeys).length = 2 := rfl
  obtain ⟨a, b, split⟩ := List.length_eq_two.mp count
  have shows : ∀ t ∈ (create .standard none).turns shuffledKeys, ∀ row ∈ t.rows,
      t.pass.IsFirstOfKey row.row → row.ShowsOwnKey := fun t ht row hrow first =>
    (own t ht row hrow).1.mpr ⟨first, kept t ht row hrow⟩
  refine ⟨shows, a, b, split, fun row hrow => ?_⟩
  exact ids [] a b [] split row hrow
    (shows b (by simp [split]) row hrow (first b (by simp [split]) row hrow))

/-- A second row with the first key is put between two rows. -/
def takenKeyCalls : List Call := keyedCalls [["a", "a#1"], ["a", "a", "a#1"]]

/-- The new row takes over the key of the row below it, and the ids of its slots. -/
theorem not_real_keys_kept_taken :
    ¬∀ (c : Config) (calls : List Call), ∀ t ∈ (create c none).turns calls, ∀ row ∈ t.rows,
      t.pass.IsFirstOfKey row.row → row.ShowsOwnKey := by
  intro claim
  have taken : ∃ t ∈ (create .standard none).turns takenKeyCalls, ∃ row ∈ t.rows,
      t.pass.IsFirstOfKey row.row ∧ row.row.IsRenamed := by
    decide +kernel
  obtain ⟨t, ht, row, hrow, first, renamed⟩ := taken
  exact renamed (claim .standard takenKeyCalls t ht row hrow first).key

end Session

end ListRepeater
