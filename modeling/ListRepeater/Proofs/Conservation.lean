import ListRepeater.Proofs.MountedRuns
import ListRepeater.Proofs.PageWindows
import ListRepeater.Proofs.SlotIdentity
/-!
# One instance for each node and row

Whatever the template and the records look like, a pass shows every walked node once in every row
of the window, each time under an id of its own. So the ids count the walked nodes times the rows,
and none of them is lost among the instances, which are filed by id. The editable instances are
those of the first row on a canvas.
-/
namespace ListRepeater

namespace Pass

variable {p : Pass}

theorem length_rowCells (c : Config) (q : Request) (row : WindowRow) :
    ((ofRequest c q).rowCells row).length = (ofRequest c q).walk.order.length := by
  rw [rowCells, List.length_map, ← map_fst_nodes, List.length_map]

theorem length_cells {c : Config} {q : Request} (checked : q.check = .ok ()) :
    (ofRequest c q).cells.length = (ofRequest c q).walk.order.length * (ofRequest c q).windowSize := by
  rw [cells, List.length_flatMap]
  simp only [length_rowCells, List.map_const', List.sum_replicate_nat]
  by_cases walked : (ofRequest c q).walk.order = []
  · rw [walked, List.length_nil, Nat.mul_zero, Nat.zero_mul]
  · rw [length_windowRows_eq checked walked, Nat.mul_comm]

/-- A walked node has a cell in each row of the window. -/
theorem exists_cell_at {c : Config} {q : Request} (checked : q.check = .ok ()) {id : WidgetId}
    (walked : id ∈ (ofRequest c q).walk.order) {view : Nat}
    (within : view < (ofRequest c q).windowSize) :
    ∃ x ∈ (ofRequest c q).cells, x.id = id ∧ x.row.place.view = view := by
  rw [← length_windowRows_eq checked (List.ne_nil_of_mem walked)] at within
  have row := List.getElem?_eq_getElem within
  obtain ⟨n, found⟩ := found_of_mem_walk walked
  have node : (id, n) ∈ (ofRequest c q).nodes := (ofRequest c q).mem_nodes_iff.mpr ⟨walked, found⟩
  exact ⟨⟨_, id, n⟩, (ofRequest c q).mem_cells.mpr ⟨List.mem_of_getElem? row, node⟩, rfl,
    view_of_getElem?_windowRows _ row⟩

theorem walked_of_cell {x : Cell} (hx : x ∈ p.cells) : x.id ∈ p.walk.order :=
  (p.mem_nodes_iff.mp (p.mem_cells.mp hx).2).1

theorem view_lt_of_cell {x : Cell} (checked : p.request.check = .ok ()) (hx : x ∈ p.cells) :
    x.row.place.view < p.windowSize := by
  rw [← length_windowRows_eq checked (List.ne_nil_of_mem (walked_of_cell hx))]
  have found := p.getElem?_view_of_mem (p.mem_cells.mp hx).1
  exact (List.getElem?_eq_some_iff.mp found).1

/-- A cell is known by its node and the view index of its row. -/
theorem cell_eq_of_view {x y : Cell} (hx : x ∈ p.cells) (hy : y ∈ p.cells) (id : x.id = y.id)
    (view : x.row.place.view = y.row.place.view) : x = y := by
  have row := p.row_eq_of_view (p.mem_cells.mp hx).1 (p.mem_cells.mp hy).1 view
  apply p.cell_eq_of_slot hx hy
  rw [Cell.slot, Cell.slot, row, id]

end Pass

namespace Turn

variable {t : Turn}

/-- The pass shows the node `id` in the row at place `view` of the window as the instance `i`. -/
def Shows (t : Turn) (id : WidgetId) (view : Nat) (i : WidgetId) : Prop :=
  ∃ row ∈ t.rows, row.row.place.view = view ∧
    ∃ w ∈ row.layout.widgets, w.templateId = id ∧ w.instanceId = i

theorem shows_iff {id i : WidgetId} {view : Nat} : t.Shows id view i ↔
    ∃ x ∈ t.pass.cells, x.id = id ∧ x.row.place.view = view ∧ t.pass.idIn t.book x = i := by
  constructor
  · rintro ⟨row, hrow, view, w, hw, id, instanceId⟩
    obtain ⟨hwindow, -, layout⟩ := row_of_mem_rows hrow
    rw [layout] at hw
    obtain ⟨x, hx, rfl⟩ := List.mem_map.mp hw
    obtain ⟨own, node⟩ := (Pass.mem_rowCells _).mp hx
    rw [← own] at hwindow view
    exact ⟨x, t.pass.mem_cells.mpr ⟨hwindow, node⟩, id, view, instanceId⟩
  · rintro ⟨x, hx, id, view, instanceId⟩
    obtain ⟨hwindow, hnode⟩ := t.pass.mem_cells.mp hx
    rw [← map_row_rows] at hwindow
    obtain ⟨row, hrow, own⟩ := List.mem_map.mp hwindow
    obtain ⟨-, -, layout⟩ := row_of_mem_rows hrow
    refine ⟨row, hrow, own ▸ view, t.pass.widgetIn t.book x, ?_, id, instanceId⟩
    rw [layout]
    exact List.mem_map_of_mem (t.pass.mem_rowCells.mpr ⟨own.symm, hnode⟩)

/-- The shown ids stand for the walked nodes in the rows of the window, one for each. -/
structure Conserves (t : Turn) : Prop where
  nodup : t.idsAfter.Nodup
  one : ∀ id ∈ t.pass.walk.order, ∀ view < t.pass.windowSize,
    ∃! i, i ∈ t.idsAfter ∧ t.Shows id view i
  own : ∀ i ∈ t.idsAfter, ∃! place : WidgetId × Nat,
    (place.1 ∈ t.pass.walk.order ∧ place.2 < t.pass.windowSize) ∧ t.Shows place.1 place.2 i
  count : t.idsAfter.length = t.pass.walk.order.length * t.pass.windowSize

theorem idsAfter_eq (t : Turn) : t.idsAfter = t.pass.idsIn t.book :=
  Repeater.shownIds_run t.repeater t.request

theorem length_idsAfter (checked : t.request.check = .ok ()) :
    t.idsAfter.length = t.pass.walk.order.length * t.pass.windowSize := by
  rw [idsAfter_eq, Pass.idsIn, List.length_map]
  exact Pass.length_cells checked

section Distinct

variable (checked : t.request.check = .ok ()) (distinct : t.pass.Distinct t.book)

include distinct

theorem nodup_idsAfter : t.idsAfter.Nodup := by
  rw [idsAfter_eq]
  exact List.Nodup.map_on distinct (Pass.nodup_cells t.repeater.config t.request)

include checked

theorem conserves_of_distinct : t.Conserves where
  nodup := nodup_idsAfter distinct
  count := length_idsAfter checked
  one := by
    intro id walked view within
    obtain ⟨x, hx, atId, atView⟩ := Pass.exists_cell_at checked walked within
    refine ⟨t.pass.idIn t.book x, ⟨?_, shows_iff.mpr ⟨x, hx, atId, atView, rfl⟩⟩, ?_⟩
    · rw [idsAfter_eq]
      exact List.mem_map_of_mem hx
    · rintro i ⟨-, shows⟩
      obtain ⟨y, hy, atId', atView', rfl⟩ := shows_iff.mp shows
      rw [Pass.cell_eq_of_view hy hx (atId'.trans atId.symm) (atView'.trans atView.symm)]
  own := by
    intro i shown
    rw [idsAfter_eq] at shown
    obtain ⟨x, hx, rfl⟩ := List.mem_map.mp shown
    refine ⟨(x.id, x.row.place.view), ⟨⟨Pass.walked_of_cell hx, Pass.view_lt_of_cell checked hx⟩,
      shows_iff.mpr ⟨x, hx, rfl, rfl, rfl⟩⟩, ?_⟩
    rintro ⟨id, view⟩ ⟨-, shows⟩
    obtain ⟨y, hy, rfl, rfl, same⟩ := shows_iff.mp shows
    rw [distinct y hy x hx same]

end Distinct

/-- An instance goes by the id of its template widget exactly in the first row on a canvas. -/
theorem isEditable_iff (grounded : t.repeater.Grounded)
    (unminted : t.request.template.Unminted t.repeater.config.stem) {i : Instance}
    (hi : i ∈ t.outcome.emission.instances.values) :
    i.isEditable = true ↔ t.repeater.config.mode = .canvas ∧ i.viewIndex = 0 := by
  obtain ⟨e, he, rfl⟩ := List.mem_map.mp hi
  obtain ⟨x, hx, rfl⟩ := exists_cell_of_made he
  have editable : t.pass.isEditable x.row = true ↔
      t.repeater.config.mode = .canvas ∧ x.row.place.view = 0 := by
    simp only [Pass.isEditable, Bool.and_eq_true, beq_iff_eq]
    rfl
  have own : (t.pass.instanceIn t.book x).isEditable = true ↔ t.pass.idIn t.book x = x.id := by
    rw [Instance.isEditable, beq_iff_eq]
    rfl
  have view : (t.pass.instanceIn t.book x).viewIndex = x.row.place.view := rfl
  rw [own, view, ← editable]
  cases first : t.pass.isEditable x.row with
  | true => simp only [t.pass.idIn_of_editable t.book first]
  | false =>
    have after := Repeater.grounded_run grounded t.request
    obtain ⟨n, minted⟩ := Pass.idOf_eq_minted after.balanced
      (Repeater.after_run t.repeater t.request).held hx
    have stem : t.book.stem = t.repeater.config.stem := after.stem
    have authored : x.id ≠ SlotBook.mintedId t.book.stem n :=
      stem ▸ unminted x.id (Pass.mem_keys_of_cell hx) n
    have projected : t.pass.idIn t.book x = SlotBook.mintedId t.book.stem n :=
      (t.pass.idIn_of_projected t.book first).trans minted
    rw [projected]
    simpa using authored.symm

/-- A first pass makes all that it shows and has nothing to remove. -/
theorem made_first (distinct : t.pass.Distinct t.book) (first : t.repeater.shown = none) :
    t.outcome.emission.instances.keys = t.idsAfter ∧ t.outcome.emission.removed = [] := by
  constructor
  · have made : t.outcome.emission.instances = t.pass.instancesIn t.book t.pass.cells :=
      Repeater.instances_first first t.request
    have ids : ((t.pass.cells.map (t.pass.instanceIn t.book)).map fun i => (i.id, i)).map Prod.fst =
        t.pass.idsIn t.book := by
      rw [List.map_map, List.map_map]
      rfl
    have nodup := nodup_idsAfter distinct
    rw [idsAfter_eq, ← ids] at nodup
    rw [made, idsAfter_eq, ← ids, Keyed.keys, Pass.instancesIn, Keyed.entries_ofList nodup]
  · have none : t.outcome.emission.removed = _ := Repeater.removed_run t.repeater t.request
    rw [none, first]
    rfl

end Turn

namespace Session

/-- After every accepted pass the shown ids are distinct, one for each walked node in each row of
the window; a first pass makes as many instances and removes none; and the editable instances are
those of the first row on a canvas. -/
theorem conserves (c : Config) (calls : List Call)
    (unminted : ∀ q, .options q ∈ calls → q.template.Unminted c.stem) :
    (∀ t ∈ (create c none).turns calls, t.Conserves ∧
      ∀ i ∈ t.outcome.emission.instances.values,
        (i.isEditable = true ↔ c.mode = .canvas ∧ i.viewIndex = 0)) ∧
    ∀ t later, (create c none).turns calls = t :: later →
      t.outcome.emission.instances.keys = t.idsAfter ∧
      t.outcome.emission.instances.size = t.pass.walk.order.length * t.pass.windowSize ∧
      t.outcome.emission.removed = [] := by
  have distinct : ∀ t ∈ (create c none).turns calls, t.pass.Distinct t.book := by
    intro t ht
    obtain ⟨grounded, -, apart⟩ := turn_sound unminted ht
    exact Pass.distinct_run grounded apart
  constructor
  · intro t ht
    obtain ⟨grounded, config, apart⟩ := turn_sound unminted ht
    refine ⟨Turn.conserves_of_distinct (checked_of_turn ht) (distinct t ht), fun i hi => ?_⟩
    rw [← config]
    exact Turn.isEditable_iff grounded apart hi
  · intro t later split
    have ht : t ∈ (create c none).turns calls := by simp [split]
    have start := (first_turn split).1
    obtain ⟨keys, removed⟩ := Turn.made_first (distinct t ht) start.shown
    have size : t.outcome.emission.instances.size = t.outcome.emission.instances.keys.length :=
      (List.length_map _).symm
    exact ⟨keys, by rw [size, keys, Turn.length_idsAfter (checked_of_turn ht)], removed⟩

/-- Two pages of records with one key, in rows of four widgets: one is listed twice, one is its own
ancestor, and one that is listed is missing. -/
def tangledCalls : List Call :=
  let container := { Node.plain ⟨"row"⟩ "Row" "CONTAINER_WIDGET" with
    children := [⟨"left"⟩, ⟨"right"⟩, ⟨"ghost"⟩] }
  let left := Sample.node ⟨"left"⟩ ⟨"row"⟩ "Left" "CANVAS_WIDGET" [⟨"shared"⟩, ⟨"row"⟩]
  let right := Sample.node ⟨"right"⟩ ⟨"row"⟩ "Right" "CANVAS_WIDGET" [⟨"shared"⟩]
  let shared := Sample.node ⟨"shared"⟩ ⟨"left"⟩ "Shared" "TEXT_WIDGET" [⟨"left"⟩]
  let q : Request :=
    { Request.blank "" ⟨"main"⟩ ⟨"row"⟩ (.ofNodes [container, left, right, shared]) with
      records := [.null, .null, .null]
      keys := [.ofNat 0, .ofNat 0, .ofNat 0]
      pageSize := 2 }
  [.options q, .generate, .options { q with pageNo := 2 }, .generate]

theorem conserves_tangledCalls :
    (∀ q, .options q ∈ tangledCalls → q.template.Unminted Config.standard.stem) ∧
    ((create .standard none).turns tangledCalls).map (·.idsAfter.length) = [4 * 2, 4 * 1] ∧
    (∀ t ∈ (create .standard none).turns tangledCalls, t.Conserves) ∧
    ∀ t later, (create .standard none).turns tangledCalls = t :: later →
      t.outcome.emission.instances.size = t.pass.walk.order.length * t.pass.windowSize := by
  have unminted : ∀ q, .options q ∈ tangledCalls → q.template.Unminted Config.standard.stem :=
    Call.unminted_of_apart (by decide)
  obtain ⟨every, first⟩ := conserves .standard tangledCalls unminted
  exact ⟨unminted, by decide +kernel, fun t ht => (every t ht).1,
    fun t later split => (first t later split).2.1⟩

end Session

end ListRepeater
