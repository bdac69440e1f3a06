import ListRepeater.Proofs.FullRender
/-!
# Stability of ids

From one pass to the next a slot that is shown in both keeps its id, and no id moves to another
slot, since all slots of a pass are acquired before those of vanished rows are released. Over a
whole session every id stays with one template widget.
-/
namespace ListRepeater

namespace Turn

variable {t : Turn} {row : PassRow} {w : RowWidget}

def widgets (t : Turn) : List RowWidget := t.rows.flatMap (·.layout.widgets)

theorem map_row_rows (t : Turn) : t.rows.map (·.row) = t.pass.windowRows :=
  t.pass.rows_layOutRows _ _

/-- The rows of a pass are laid out as its book has it when it is over. -/
theorem row_of_mem_rows (hrow : row ∈ t.rows) : row.row ∈ t.pass.windowRows ∧
    row.editable = t.pass.isEditable row.row ∧ row.layout = t.pass.layoutIn t.book row.row := by
  have rows := Repeater.map_layOut t.repeater t.request (f := fun r => (r.row, r.editable, r.layout))
    fun _ _ => rfl
  have shown : (row.row, row.editable, row.layout) ∈
      t.rows.map fun r => (r.row, r.editable, r.layout) := List.mem_map_of_mem hrow
  rw [Turn.rows, rows] at shown
  obtain ⟨windowRow, hwindow, e⟩ := List.mem_map.mp shown
  obtain ⟨own, e⟩ := Prod.mk.inj e
  obtain ⟨editable, layout⟩ := Prod.mk.inj e
  rw [← own]
  exact ⟨hwindow, editable.symm, layout.symm⟩

/-- A widget that a pass shows is that of one of its cells. -/
theorem exists_cell (hrow : row ∈ t.rows) (hw : w ∈ row.layout.widgets) :
    ∃ x ∈ t.pass.cells,
      row.editable = t.pass.isEditable x.row ∧
        w = t.pass.widgetIn t.book x := by
  obtain ⟨hwindow, editable, layout⟩ := row_of_mem_rows hrow
  rw [layout] at hw
  obtain ⟨x, hx, rfl⟩ := List.mem_map.mp hw
  obtain ⟨own, node⟩ := (Pass.mem_rowCells _).mp hx
  rw [← own] at hwindow editable
  exact ⟨x, t.pass.mem_cells.mpr ⟨hwindow, node⟩, editable, rfl⟩

/-- Every cell of a pass has its widget in one of the rows. -/
theorem exists_row {x : Cell} (hx : x ∈ t.pass.cells) :
    ∃ row ∈ t.rows, row.row = x.row ∧ row.layout = t.pass.layoutIn t.book x.row ∧
      t.pass.widgetIn t.book x ∈ row.layout.widgets := by
  obtain ⟨hwindow, node⟩ := t.pass.mem_cells.mp hx
  rw [← map_row_rows] at hwindow
  obtain ⟨row, hrow, own⟩ := List.mem_map.mp hwindow
  obtain ⟨-, -, layout⟩ := row_of_mem_rows hrow
  rw [own] at layout
  refine ⟨row, hrow, own, layout, ?_⟩
  rw [layout]
  exact List.mem_map_of_mem ((Pass.mem_rowCells _).mpr ⟨rfl, node⟩)

/-- What a pass makes are instances of cells, each filed under its own id. -/
theorem exists_cell_of_made {e : WidgetId × Instance}
    (he : e ∈ t.outcome.emission.instances.entries) :
    ∃ x ∈ t.pass.cells, e = (t.pass.idIn t.book x, t.pass.instanceIn t.book x) := by
  rw [Turn.outcome, Repeater.instances_run] at he
  obtain ⟨x, hx, e⟩ := Pass.exists_cell_of_mem he
  exact ⟨x, (List.mem_filter.mp hx).1, e⟩

/-- An instance that a pass makes tells the ids of a widget that it shows in the row at the place of
the instance. -/
theorem exists_widget_of_made {i : Instance} (hi : i ∈ t.outcome.emission.instances.values) :
    ∃ row ∈ t.rows, i.viewIndex = row.row.place.view ∧ ∃ w ∈ row.layout.widgets,
      i.id = w.instanceId ∧ i.slotId = w.slotId ∧ i.templateId = w.slot.template := by
  obtain ⟨e, he, rfl⟩ := List.mem_map.mp hi
  obtain ⟨x, hx, rfl⟩ := exists_cell_of_made he
  obtain ⟨row, hrow, own, -, hw⟩ := exists_row hx
  exact ⟨row, hrow, congrArg (·.place.view) own.symm, _, hw, rfl, rfl, rfl⟩

/-- The ids that are shown after a pass are those of its widgets. -/
theorem idsAfter_eq_map_widgets (t : Turn) : t.idsAfter = t.widgets.map (·.instanceId) := by
  have shown : t.idsAfter = (t.rows.map t.pass.shownRow).flatMap (·.instanceIds) := rfl
  rw [shown, List.flatMap_map, widgets, List.map_flatMap]
  rfl

theorem slot_mem (hrow : row ∈ t.rows) (hw : w ∈ row.layout.widgets) :
    w.slot ∈ t.pass.slots := by
  obtain ⟨x, hx, -, rfl⟩ := exists_cell hrow hw
  exact Pass.slot_mem_slots _ hx

/-- When the pass is over the slot of a shown widget holds the id of the widget. -/
theorem held (hrow : row ∈ t.rows) (hw : w ∈ row.layout.widgets) :
    t.book.get? w.slot = some w.slotId := by
  obtain ⟨x, hx, -, rfl⟩ := exists_cell hrow hw
  obtain ⟨id, hid⟩ := Repeater.held_run t.repeater t.request (Pass.slot_mem_slots _ hx)
  have slotId : id = t.book.idOf x.slot := (SlotBook.idOf_of_get? hid).symm
  exact hid.trans (congrArg some slotId)

theorem instanceId_of_projected (hrow : row ∈ t.rows) (hw : w ∈ row.layout.widgets)
    (projected : row.editable = false) : w.instanceId = w.slotId := by
  obtain ⟨x, -, editable, rfl⟩ := exists_cell hrow hw
  rw [projected] at editable
  simp [Pass.widgetIn, RowWidget.make, ← editable]

theorem instanceId_of_editable (hrow : row ∈ t.rows) (hw : w ∈ row.layout.widgets)
    (canonical : row.editable = true) : w.instanceId ∈ t.request.template.keys := by
  obtain ⟨x, hx, editable, rfl⟩ := exists_cell hrow hw
  rw [canonical] at editable
  have authored : x.id ∈ t.request.template.keys := Pass.mem_keys_of_cell hx
  simpa [Pass.widgetIn, RowWidget.make, ← editable] using authored

theorem exists_minted (grounded : t.repeater.Grounded) (hrow : row ∈ t.rows)
    (hw : w ∈ row.layout.widgets) : ∃ n, w.slotId = SlotBook.mintedId t.repeater.config.stem n := by
  have after := Repeater.grounded_run grounded t.request
  obtain ⟨n, hn⟩ := after.balanced.minted_of_get? (held hrow hw)
  rw [after.stem] at hn
  exact ⟨n, hn⟩

/-- What one pass shows outside the editable row is nothing that another shows inside it. -/
theorem instanceId_ne {t' : Turn} {row' : PassRow} {w' : RowWidget}
    (grounded : t.repeater.Grounded) (hrow : row ∈ t.rows) (hw : w ∈ row.layout.widgets)
    (projected : row.editable = false) (hrow' : row' ∈ t'.rows) (hw' : w' ∈ row'.layout.widgets)
    (canonical : row'.editable = true)
    (unminted : t'.request.template.Unminted t.repeater.config.stem) :
    w.instanceId ≠ w'.instanceId := by
  intro e
  obtain ⟨n, hn⟩ := exists_minted grounded hrow hw
  refine unminted _ (instanceId_of_editable hrow' hw' canonical) n ?_
  rw [← e, instanceId_of_projected hrow hw projected, hn]

end Turn

/-- An id that a slot holds when a pass starts is held by no other slot of that pass. -/
theorem slot_eq_of_get? {t : Turn} (balanced : t.repeater.book.Balanced) {k l : Slot} {id : WidgetId}
    (old : t.repeater.book.get? k = some id) (hl : l ∈ t.pass.slots)
    (new : t.book.get? l = some id) : k = l := by
  have laid := SlotBook.keeps_acquireAll t.repeater.book t.pass.slots k id old
  rw [Turn.book, Turn.outcome, Repeater.get?_run _ _ hl] at new
  exact (SlotBook.balanced_acquireAll balanced _).slot_unique laid new

section Consecutive

variable {a b : Turn} (follows : b.Follows a.outcome.next a.mountedAfter) {row row' : PassRow}
  (hrow : row ∈ a.rows) (hrow' : row' ∈ b.rows) {v w : RowWidget} (hv : v ∈ row.layout.widgets)
  (hw : w ∈ row'.layout.widgets)

include follows hrow hrow' hv hw

/-- A slot shown in two passes in a row has the same id in both. -/
theorem slotId_eq_of_slot (h : v.slot = w.slot) : v.slotId = w.slotId := by
  have old : b.repeater.book.get? w.slot = some v.slotId := by
    rw [follows.book, ← h]
    exact Turn.held hrow hv
  have kept := Repeater.get?_run_of_held b.repeater b.request (Turn.slot_mem hrow' hw) old
  exact Option.some.inj (kept.symm.trans (Turn.held hrow' hw))

/-- An id that two passes in a row show is that of the same slot. -/
theorem slot_eq_of_slotId (balanced : b.repeater.book.Balanced) (h : v.slotId = w.slotId) :
    v.slot = w.slot := by
  have old : b.repeater.book.get? v.slot = some v.slotId := by
    rw [follows.book]
    exact Turn.held hrow hv
  exact slot_eq_of_get? balanced old (Turn.slot_mem hrow' hw) (h ▸ Turn.held hrow' hw)

end Consecutive

namespace Session

variable {c : Config} {P : Request → Prop} {s : Session}

theorem files_step {u id : WidgetId} (h : s.repeater.book.Files u id) (call : Call) :
    (s.step call).repeater.book.Files u id := by
  cases accepted : s.turn? call with
  | none =>
    rcases step_of_turn?_none accepted with e | ⟨q, -, e⟩
    · rwa [e]
    · rw [e]
      exact h
  | some t =>
    obtain ⟨-, repeater, -, -, -⟩ := turn?_cases accepted
    rw [step_of_turn? accepted, Turn.outcome, repeater]
    exact Repeater.files_run s.repeater t.request h

/-- Whatever is filed stays filed under the same template widget. -/
theorem files_run {u id : WidgetId} (h : s.repeater.book.Files u id) (calls : List Call) :
    (s.run calls).repeater.book.Files u id := by
  induction calls generalizing s with
  | nil => exact h
  | cons call rest ih => exact ih (files_step h call)

/-- The ids that the passes of a run give to widgets are all filed in the end. -/
theorem files_of_turn {calls : List Call} {t : Turn} (ht : t ∈ s.turns calls) {w : RowWidget}
    (hw : w ∈ t.widgets) : (s.run calls).repeater.book.Files w.slot.template w.slotId := by
  induction calls generalizing s with
  | nil => cases ht
  | cons call rest ih =>
    rw [turns, List.mem_append, Option.mem_toList] at ht
    rcases ht with accepted | ht
    · obtain ⟨row, hrow, hw⟩ := List.mem_flatMap.mp hw
      refine files_run ?_ rest
      rw [step_of_turn? accepted]
      exact SlotBook.files_of_get? (Turn.held hrow hw)
    · exact ih ht

/-- Over any run of calls ids are stable. In two passes in a row a slot has one id, an id shown
outside the editable row has one slot, and it is no authored id; in the whole run an id belongs to
one template widget. The widgets have the ids that the list tells: those shown after the pass, and
those of the instances that it makes. -/
theorem ids_stay (c : Config) (calls : List Call) :
    (∀ before a b after, (create c none).turns calls = before ++ a :: b :: after →
      ∀ row ∈ a.rows, ∀ row' ∈ b.rows, ∀ v ∈ row.layout.widgets, ∀ w ∈ row'.layout.widgets,
        (v.slot = w.slot → v.slotId = w.slotId) ∧
        (row.editable = false → row'.editable = false → v.instanceId = w.instanceId →
          v.slot = w.slot) ∧
        (row.editable ≠ row'.editable → a.request.template.Unminted c.stem →
          b.request.template.Unminted c.stem → v.instanceId ≠ w.instanceId)) ∧
    (∀ a ∈ (create c none).turns calls, ∀ b ∈ (create c none).turns calls,
      ∀ v ∈ a.widgets, ∀ w ∈ b.widgets, v.slotId = w.slotId →
        v.slot.template = w.slot.template) ∧
    ∀ t ∈ (create c none).turns calls, t.idsAfter = t.widgets.map (·.instanceId) ∧
      ∀ i ∈ t.outcome.emission.instances.values,
        ∃ row ∈ t.rows, i.viewIndex = row.row.place.view ∧ ∃ w ∈ row.layout.widgets,
          i.id = w.instanceId ∧ i.slotId = w.slotId ∧ i.templateId = w.slot.template := by
  have any : ∀ q : Request, Call.options q ∈ calls → (fun _ : Request => True) q :=
    fun _ _ => trivial
  have sound : ∀ t ∈ (create c none).turns calls, t.repeater.Grounded ∧ t.repeater.config = c := by
    intro t ht
    obtain ⟨s, sound, repeater, -⟩ := (sound_create c fun _ => True).turn any ht
    exact repeater ▸ ⟨sound.grounded, sound.config⟩
  refine ⟨?_, ?_, fun t _ => ⟨t.idsAfter_eq_map_widgets, fun i => Turn.exists_widget_of_made⟩⟩
  · intro before a b after split row hrow row' hrow' v hv w hw
    have follows := next_turn split
    obtain ⟨groundedA, configA⟩ := sound a (by simp [split])
    obtain ⟨groundedB, configB⟩ := sound b (by simp [split])
    refine ⟨slotId_eq_of_slot follows hrow hrow' hv hw, ?_, ?_⟩
    · intro projected projected' e
      rw [Turn.instanceId_of_projected hrow hv projected,
        Turn.instanceId_of_projected hrow' hw projected'] at e
      exact slot_eq_of_slotId follows hrow hrow' hv hw groundedB.balanced e
    · intro differ unmintedA unmintedB
      cases editable : row.editable with
      | true =>
        have projected : row'.editable = false := by simpa [editable] using differ
        exact (Turn.instanceId_ne groundedB hrow' hw projected hrow hv editable
          (configB ▸ unmintedA)).symm
      | false =>
        have canonical : row'.editable = true := by simpa [editable] using differ
        exact Turn.instanceId_ne groundedA hrow hv editable hrow' hw canonical
          (configA ▸ unmintedB)
  · intro a ha b hb v hv w hw e
    have grounded := ((sound_create c fun _ => True).run any).grounded
    have filed := files_of_turn ha hv
    rw [e] at filed
    exact grounded.balanced.template_unique filed (files_of_turn hb hw)

/-- Shows two rows of a container and a text, and moves the window down by one row, twice. -/
def slidingCalls : List Call :=
  let row : Template := .ofNodes
    [Sample.node ⟨"row"⟩ ⟨"main"⟩ "Row" "CONTAINER_WIDGET" [⟨"text"⟩],
     Sample.node ⟨"text"⟩ ⟨"row"⟩ "Text1" "TEXT_WIDGET" []]
  let q (first : Nat) : Request :=
    { Request.blank "" ⟨"main"⟩ ⟨"row"⟩ row with
      records := [.null, .null]
      keys := [.ofNat first, .ofNat (first + 1)]
      pageSize := 2 }
  [.options (q 0), .generate, .options (q 1), .generate, .options (q 2), .generate]

/-- The second row keeps its ids when it becomes the editable one, and the ids of the first row are
free for another one a pass later. -/
theorem ids_stay_slidingCalls :
    ((create .standard none).turns slidingCalls).map (·.widgets.map fun w => w.slotId.text) =
      [["meta_1", "meta_2", "meta_3", "meta_4"], ["meta_3", "meta_4", "meta_5", "meta_6"],
        ["meta_5", "meta_6", "meta_1", "meta_2"]] ∧
    ((create .standard none).turns slidingCalls).map (·.idsAfter.map (·.text)) =
      [["row", "text", "meta_3", "meta_4"], ["row", "text", "meta_5", "meta_6"],
        ["row", "text", "meta_1", "meta_2"]] ∧
    (∀ before a b after, (create .standard none).turns slidingCalls = before ++ a :: b :: after →
      ∀ v ∈ a.widgets, ∀ w ∈ b.widgets, v.slot = w.slot → v.slotId = w.slotId) ∧
    ∀ a ∈ (create .standard none).turns slidingCalls,
      ∀ b ∈ (create .standard none).turns slidingCalls,
        ∀ v ∈ a.widgets, ∀ w ∈ b.widgets, v.slotId = w.slotId →
          v.slot.template = w.slot.template := by
  obtain ⟨next, whole, -⟩ := ids_stay .standard slidingCalls
  refine ⟨by decide +kernel, by decide +kernel, ?_, whole⟩
  intro before a b after split v hv w hw
  obtain ⟨row, hrow, hv⟩ := List.mem_flatMap.mp hv
  obtain ⟨row', hrow', hw⟩ := List.mem_flatMap.mp hw
  exact (next before a b after split row hrow row' hrow' v hv w hw).1

end Session

end ListRepeater
