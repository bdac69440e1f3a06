import ListRepeater.Proofs.IncrementalRender
import ListRepeater.Proofs.PageWindows
import ListRepeater.Proofs.StoredSlots
/-!
# What a pass makes anew

What a pass makes for a row depends only on the request before and its own one: everything, unless
the request before showed that row at the same place; else the nodes that changed and, if the shape
did, the row container. So a pass over the same window and template makes nothing and saves what
was saved.
-/
namespace ListRepeater

namespace Pass

variable {p : Pass} {b : SlotBook}

/-- The cells of a row are those at its place of the window. -/
theorem filter_view_cells {row : WindowRow} (hrow : row ∈ p.windowRows) :
    p.cells.filter (fun x => x.row.place.view == row.place.view) = p.rowCells row := by
  obtain ⟨above, below, split⟩ := List.append_of_mem hrow
  have apart : ∀ rows ⊆ p.windowRows, row ∉ rows →
      (rows.flatMap p.rowCells).filter (fun x => x.row.place.view == row.place.view) = [] := by
    intro rows sub fresh
    refine List.filter_eq_nil_iff.mpr fun x hx => ?_
    obtain ⟨row', hrow', hx⟩ := List.mem_flatMap.mp hx
    rw [(p.mem_rowCells.mp hx).1, beq_iff_eq]
    intro view
    exact fresh (p.row_eq_of_view (sub hrow') hrow view ▸ hrow')
  have own : (p.rowCells row).filter (fun x => x.row.place.view == row.place.view) =
      p.rowCells row := by
    refine List.filter_eq_self.mpr fun x hx => ?_
    rw [(p.mem_rowCells.mp hx).1, beq_self_eq_true]
  have nodup := p.nodup_windowRows
  rw [split] at nodup
  have single := List.nodup_middle.mp nodup
  obtain ⟨fresh, -⟩ := List.nodup_cons.mp single
  rw [List.mem_append, not_or] at fresh
  have before := apart above (by simp [split]) fresh.1
  have after := apart below (by simp [split]) fresh.2
  rw [cells, split, List.flatMap_append, List.flatMap_cons, List.filter_append, List.filter_append,
    before, after, own, List.nil_append, List.append_nil]

/-- The first page starts with the first record. -/
theorem start_of_firstPage (first : p.request.pageNo = 1) : p.firstIndex = 0 ∧ p.window.1 = 0 := by
  have index : p.request.firstIndex false = 0 := by simp [Request.firstIndex, first]
  constructor
  · rw [firstIndex]
    cases p.scrolls with
    | true => rfl
    | false => exact index
  · rw [window]
    split
    · rfl
    · rw [Request.window, index]
      split
      · rfl
      · simp

theorem windowRecords_of_firstPage (first : p.request.pageNo = 1) :
    p.windowRecords = (p.request.records.zip p.request.keys).take p.window.2 := by
  rw [windowRecords, (start_of_firstPage first).2]
  rfl

theorem map_id_rowCells (c : Config) (q : Request) (row : WindowRow) :
    ((ofRequest c q).rowCells row).map Cell.id = (ofRequest c q).walk.order := by
  rw [rowCells, List.map_map, ← map_fst_nodes]
  rfl

end Pass

namespace Turn

/-- The template nodes of the instances that a pass makes for the row at this place of the
window. -/
def emittedAt (t : Turn) (view : Nat) : List WidgetId :=
  (t.outcome.emission.instances.values.filter fun i => i.viewIndex == view).map (·.templateId)

/-- Nothing is reset, and the first pass shows the row at the same place, over a record of the same
written form and as editable as the second. -/
def KeepsRow (a b : Turn) (row : WindowRow) : Prop :=
  ¬a.pass.Resets b.pass ∧ ∃ row₀ ∈ a.pass.windowRows, row₀.place = row.place ∧
    fingerprint row₀.record = fingerprint row.record ∧
    a.pass.isEditable row₀ = b.pass.isEditable row

instance (a b : Turn) (row : WindowRow) : Decidable (a.KeepsRow b row) :=
  inferInstanceAs (Decidable (_ ∧ _))

/-- The nodes that only the second pass walks or finds defined otherwise, with the root if the shape
of the rows differs. -/
def redefined (a b : Turn) : List WidgetId :=
  b.pass.walk.order.filter fun id =>
    id ∉ a.pass.walk.order ∨
      Pass.sameNode (a.request.template.find? id) (b.request.template.find? id) = false ∨
      (id = b.request.root ∧ a.pass.shape ≠ b.pass.shape)

/-- The second pass makes all nodes of a row that is not kept and else those that changed. -/
structure Regenerates (a b : Turn) : Prop where
  rebuilt : ∀ row ∈ b.pass.windowRows, ¬a.KeepsRow b row →
    b.emittedAt row.place.view = b.pass.walk.order
  patched : ∀ row ∈ b.pass.windowRows, a.KeepsRow b row →
    b.emittedAt row.place.view = a.redefined b
  elsewhere : ∀ view, b.pass.windowRows.length ≤ view → b.emittedAt view = []

section Emitted

variable {t : Turn} (distinct : t.pass.Distinct t.book)

include distinct

theorem values_made : t.outcome.emission.instances.values =
    (t.pass.cells.filter (t.pass.emits t.book (t.pass.compare t.repeater.shown))).map
      (t.pass.instanceIn t.book) := by
  rw [outcome, Repeater.instances_run]
  exact Pass.values_instancesIn distinct ((Pass.nodup_cells t.repeater.config t.request).filter _)
    fun _ hx => (List.mem_filter.mp hx).1

theorem emittedAt_eq (view : Nat) : t.emittedAt view =
    ((t.pass.cells.filter fun x => x.row.place.view == view).filter
      (t.pass.emits t.book (t.pass.compare t.repeater.shown))).map Cell.id := by
  rw [emittedAt, values_made distinct, List.filter_map, List.map_map, List.filter_comm]
  rfl

theorem emittedAt_of_row {row : WindowRow} (hrow : row ∈ t.pass.windowRows) :
    t.emittedAt row.place.view = t.pass.walk.order.filter fun id =>
      (t.pass.compare t.repeater.shown).rebuilds (t.pass.rowIn t.book row) ||
        (t.pass.compare t.repeater.shown).patch.contains id := by
  rw [emittedAt_eq distinct, Pass.filter_view_cells hrow, ← Pass.map_id_rowCells _ _ row,
    List.filter_map]
  congr 1
  refine List.filter_congr fun x hx => ?_
  rw [Pass.emits, ((Pass.mem_rowCells _).mp hx).1]
  rfl

theorem emittedAt_of_unshown {view : Nat} (h : t.pass.windowRows.length ≤ view) :
    t.emittedAt view = [] := by
  have none : t.pass.cells.filter (fun x => x.row.place.view == view) = [] := by
    refine List.filter_eq_nil_iff.mpr fun x hx => ?_
    have := t.pass.view_lt_of_mem (t.pass.mem_cells.mp hx).1
    rw [beq_iff_eq]
    omega
  rw [emittedAt_eq distinct, none]
  rfl

end Emitted

section Following

variable {a b : Turn} (follows : b.Follows a.outcome.next a.mountedAfter)

include follows

/-- The comparison of a pass is with the pass before it. -/
theorem Follows.compare_eq : b.pass.compare b.repeater.shown =
    b.pass.compare (some (a.pass.shownIn a.book)) := by
  rw [follows.after.shown, follows.pass_eq, follows.book]

theorem rebuilds_eq_false_iff (row : WindowRow) :
    (b.pass.compare b.repeater.shown).rebuilds (b.pass.rowIn b.book row) = false ↔
      a.KeepsRow b row := by
  have reset : (b.pass.compare (some (a.pass.shownIn a.book))).reset =
      b.pass.isReset (some (a.pass.shownIn a.book)) := rfl
  rw [follows.compare_eq, Comparison.rebuilds, Bool.or_eq_false_iff, reset, ← Bool.not_eq_true,
    Pass.isReset_shownIn_iff, Pass.rowChanged_eq_false_iff]
  rfl

theorem mem_patch_iff {id : WidgetId} (walked : id ∈ b.pass.walk.order) :
    id ∈ (b.pass.compare b.repeater.shown).patch ↔ id ∉ a.pass.walk.order ∨
      Pass.sameNode (a.request.template.find? id) (b.request.template.find? id) = false ∨
      (id = b.request.root ∧ a.pass.shape ≠ b.pass.shape) := by
  have root : b.pass.walk.root? = some b.request.root := head?_walk (List.ne_nil_of_mem walked)
  rw [follows.compare_eq, ← not_iff_not, Pass.not_mem_patch_iff,
    Pass.mem_changed_shownIn_iff walked, root]
  simp only [not_or, not_and, not_not, Bool.not_eq_false, ne_eq, Option.some.injEq, and_assoc]
  refine and_congr_right fun _ => and_congr_right fun _ => ?_
  rw [or_iff_not_imp_right, not_not, eq_comm (a := id)]

theorem regenerates (distinct : b.pass.Distinct b.book) : a.Regenerates b where
  rebuilt := by
    intro row hrow changed
    have all : (b.pass.compare b.repeater.shown).rebuilds (b.pass.rowIn b.book row) = true := by
      rw [← Bool.not_eq_false, rebuilds_eq_false_iff follows]
      exact changed
    rw [emittedAt_of_row distinct hrow, all]
    exact List.filter_eq_self.mpr fun _ _ => rfl
  patched := by
    intro row hrow kept
    rw [emittedAt_of_row distinct hrow, (rebuilds_eq_false_iff follows row).mpr kept]
    refine List.filter_congr fun id walked => ?_
    rw [Bool.false_or, List.contains_eq_mem, Bool.eq_iff_iff, decide_eq_true_eq, decide_eq_true_eq]
    exact mem_patch_iff follows walked
  elsewhere := fun _ h => emittedAt_of_unshown distinct h

end Following

section Reasked

variable {a b : Turn} (follows : b.Follows a.outcome.next a.mountedAfter) {records : List Json}
  {keys : List RowKey} {size : Nat}
  (asked : b.request = { a.request with records := records, keys := keys, pageSize := size })

include follows asked

theorem pass_of_asked : b.pass = Pass.ofRequest a.repeater.config
    { a.request with records := records, keys := keys, pageSize := size } :=
  congrArg₂ Pass.ofRequest follows.config asked

/-- Other records or pages of another size reset nothing. -/
theorem not_resets_of_asked : ¬a.pass.Resets b.pass := by
  rw [pass_of_asked follows asked]
  rintro (⟨-, page⟩ | name | levels | mount | root)
  · exact page rfl
  · exact name rfl
  · exact Bool.false_ne_true (levels.symm.trans (sameAncestry_refl a.request.ancestry))
  · exact mount rfl
  · exact root rfl

theorem redefined_of_asked : a.redefined b = [] := by
  have pass := pass_of_asked follows asked
  have walk : a.pass.walk = b.pass.walk := by
    rw [pass]
    rfl
  have shape : a.pass.shape = b.pass.shape := by
    rw [pass]
    rfl
  refine List.filter_eq_nil_iff.mpr fun id walked => ?_
  obtain ⟨n, found⟩ := found_of_mem_walk walked
  have found' : a.request.template.find? id = some n := by
    rw [asked] at found
    exact found
  have same : Pass.sameNode (some n) (some n) = true := n.same_refl
  rw [walk, shape, found, found', same]
  simp [walked]

/-- A row that both passes show is left alone. -/
theorem emittedAt_of_asked (distinct : b.pass.Distinct b.book) {row : WindowRow}
    (before : row ∈ a.pass.windowRows) (after : row ∈ b.pass.windowRows) :
    b.emittedAt row.place.view = [] := by
  have editable : a.pass.isEditable row = b.pass.isEditable row := by
    rw [pass_of_asked follows asked]
    rfl
  have kept : a.KeepsRow b row :=
    ⟨not_resets_of_asked follows asked, row, before, rfl, rfl, editable⟩
  rw [(regenerates follows distinct).patched row after kept, redefined_of_asked follows asked]

/-- On the first page another page size hides rows at the end or adds some. -/
theorem mem_windowRows_of_firstPage (first : a.request.pageNo = 1)
    (data : records = a.request.records) (named : keys = a.request.keys) {row : WindowRow}
    (after : row ∈ b.pass.windowRows) (within : row.place.view < a.pass.windowRows.length) :
    row ∈ a.pass.windowRows := by
  have firstB : b.pass.request.pageNo = 1 := by
    rw [pass_of_asked follows asked]
    exact first
  obtain ⟨indexA, startA⟩ := Pass.start_of_firstPage (p := a.pass) first
  obtain ⟨indexB, startB⟩ := Pass.start_of_firstPage firstB
  have recordsA : a.pass.windowRecords =
      (a.request.records.zip a.request.keys).take a.pass.window.2 :=
    Pass.windowRecords_of_firstPage first
  have recordsB : b.pass.windowRecords =
      (a.request.records.zip a.request.keys).take b.pass.window.2 := by
    rw [Pass.windowRecords_of_firstPage firstB, ← data, ← named, pass_of_asked follows asked]
    rfl
  rcases Nat.le_total a.pass.window.2 b.pass.window.2 with fewer | more
  · have shorter := Pass.windowRows_take (indexA.trans indexB.symm) (startA.trans startB.symm)
      (n := a.pass.window.2) (by rw [recordsA, recordsB, List.take_take, Nat.min_eq_left fewer])
    have shown : row.place.view < a.pass.window.2 := by
      rw [shorter, List.length_take] at within
      omega
    rw [shorter]
    refine List.mem_of_getElem? (i := row.place.view) ?_
    rw [List.getElem?_take, if_pos shown]
    exact b.pass.getElem?_view_of_mem after
  · have shorter := Pass.windowRows_take (indexB.trans indexA.symm) (startB.trans startA.symm)
      (n := b.pass.window.2) (by rw [recordsA, recordsB, List.take_take, Nat.min_eq_left more])
    rw [shorter] at after
    exact List.mem_of_mem_take after

/-- Records outside the window make no difference to its rows. -/
theorem windowRows_of_asked (pages : size = a.request.pageSize)
    (window : b.pass.windowRecords = a.pass.windowRecords) :
    a.pass.windowRows = b.pass.windowRows := by
  have pass := pass_of_asked follows asked
  by_cases none : a.pass.windowRecords = []
  · have emptyA := a.pass.length_windowRows
    have emptyB := b.pass.length_windowRows
    rw [none, List.length_nil] at emptyA
    rw [window, none, List.length_nil] at emptyB
    rw [List.eq_nil_of_length_eq_zero emptyA, List.eq_nil_of_length_eq_zero emptyB]
  · have startA := Pass.start_of_windowRecords none
    have startB := Pass.start_of_windowRecords (p := b.pass) (window.symm ▸ none)
    refine Pass.windowRows_congr ?_ ?_ window.symm
    · rw [pass, pages]
      rfl
    · rw [startA, startB, pass, pages]
      rfl

/-- A pass over the rows of the pass before has the same cells and slots and so the same book. -/
theorem book_of_asked (rows : a.pass.windowRows = b.pass.windowRows) : b.book = a.book := by
  have pass := pass_of_asked follows asked
  have slots : a.pass.slots = b.pass.slots := by
    rw [Pass.slots, Pass.slots, Pass.cells, Pass.cells, rows, pass]
    rfl
  have held : ∀ k ∈ b.pass.slots, ∃ id, b.repeater.book.get? k = some id := by
    rw [← slots, ← follows.pass_eq]
    exact follows.after.held
  have shown : b.repeater.shownSlots = b.pass.slots := by
    rw [follows.shownSlots, ← slots]
    exact Repeater.shownSlots_run a.repeater a.request
  have vacated : Repeater.vacated b.repeater.shown (b.pass.shownRowsIn b.book) = [] := by
    refine List.eq_nil_iff_forall_not_mem.mpr fun k hk => ?_
    rw [Repeater.mem_vacated_iff, Pass.slots_shownRowsIn, shown] at hk
    exact hk.2 hk.1
  have book := Repeater.book_run b.repeater b.request
  rw [SlotBook.acquireAll_of_held held] at book
  exact book.trans ((congrArg b.repeater.book.releaseAll vacated).trans follows.book)

/-- A pass over the rows of the pass before makes nothing and takes nothing away. -/
theorem isEmpty_of_asked (distinct : b.pass.Distinct b.book)
    (rows : a.pass.windowRows = b.pass.windowRows) : b.outcome.emission.isEmpty = true := by
  have made : b.outcome.emission.instances.values = [] := by
    refine List.eq_nil_iff_forall_not_mem.mpr fun i hi => ?_
    have listed : i.templateId ∈ b.emittedAt i.viewIndex :=
      List.mem_map_of_mem (List.mem_filter.mpr ⟨hi, beq_self_eq_true _⟩)
    rw [values_made distinct] at hi
    obtain ⟨x, hx, rfl⟩ := List.mem_map.mp hi
    have row := (b.pass.mem_cells.mp (List.mem_filter.mp hx).1).1
    have still := emittedAt_of_asked follows asked distinct (rows.symm ▸ row) row
    have view : (b.pass.instanceIn b.book x).viewIndex = x.row.place.view := rfl
    rw [view, still] at listed
    cases listed
  have after : b.outcome.next.shownIds = b.pass.idsIn b.book :=
    Repeater.shownIds_run b.repeater b.request
  have before : b.repeater.shownIds = b.outcome.next.shownIds := by
    rw [after, follows.after.shownIds_eq, follows.pass_eq, follows.book,
      book_of_asked follows asked rows, Pass.idsIn, Pass.idsIn, Pass.cells, Pass.cells, rows,
      pass_of_asked follows asked]
    rfl
  have removed : b.outcome.emission.removed = [] := by
    have nodup : b.repeater.shownIds.Nodup := by
      rw [before, after]
      exact List.Nodup.map_on distinct (Pass.nodup_cells b.repeater.config b.request)
    have gone : b.outcome.emission.removed =
        b.repeater.shownIds.filter fun id => !b.outcome.next.shownIds.contains id :=
      Repeater.removed_run_eq b.request nodup
    rw [gone, before]
    refine List.filter_eq_nil_iff.mpr fun id hid => ?_
    simpa using hid
  have entries : b.outcome.emission.instances.entries = [] := List.map_eq_nil_iff.mp made
  rw [Emission.isEmpty, Keyed.isEmpty, entries, removed]
  rfl

end Reasked

end Turn

namespace Session

/-- Over any run a pass makes all nodes of the rows that differ from those of the pass before, and of
the other rows the nodes that changed. In particular the same request makes nothing and saves what
was saved; nor do records that differ outside the window; and on the first page another page size
makes nothing of the rows that were shown. -/
theorem regenerates_exactly (c : Config) (calls : List Call)
    (unminted : ∀ q, .options q ∈ calls → q.template.Unminted c.stem) (before after : List Turn)
    (a b : Turn) (split : (create c none).turns calls = before ++ a :: b :: after) :
    a.Regenerates b ∧
    (b.request = a.request →
      b.outcome.emission.isEmpty = true ∧ b.outcome.saved = a.outcome.saved) ∧
    (∀ size, a.request.pageNo = 1 → b.request = { a.request with pageSize := size } →
      ∀ view < a.pass.windowRows.length, b.emittedAt view = []) ∧
    (∀ records keys, b.request = { a.request with records := records, keys := keys } →
      b.pass.windowRecords = a.pass.windowRecords →
        b.outcome.emission.isEmpty = true ∧ b.outcome.saved = a.outcome.saved) := by
  have follows := next_turn split
  obtain ⟨grounded, -, apart⟩ := turn_sound unminted (t := b) (by simp [split])
  have distinct : b.pass.Distinct b.book := Pass.distinct_run grounded apart
  have regenerates := Turn.regenerates follows distinct
  have idle : ∀ records keys, b.request = { a.request with records := records, keys := keys } →
      b.pass.windowRecords = a.pass.windowRecords →
        b.outcome.emission.isEmpty = true ∧ b.outcome.saved = a.outcome.saved := by
    intro records keys asked window
    have rows := Turn.windowRows_of_asked follows asked rfl window
    exact ⟨Turn.isEmpty_of_asked follows asked distinct rows,
      congrArg SlotBook.snapshot (Turn.book_of_asked follows asked rows)⟩
  refine ⟨regenerates, ?_, ?_, idle⟩
  · intro again
    have pass : b.pass = a.pass := congrArg₂ Pass.ofRequest follows.config again
    exact idle a.request.records a.request.keys again (congrArg Pass.windowRecords pass)
  · intro size first asked view within
    by_cases shown : view < b.pass.windowRows.length
    · have row := List.getElem?_eq_getElem shown
      have place := b.pass.view_of_getElem?_windowRows row
      have hrow := List.mem_of_getElem? row
      have old := Turn.mem_windowRows_of_firstPage follows asked first rfl rfl hrow (place.trans_lt within)
      rw [← place]
      exact Turn.emittedAt_of_asked follows asked distinct old hrow
    · exact regenerates.elsewhere view (Nat.le_of_not_lt shown)

/-- Shows two rows of the simple list, and shows them again with another second record, an edited
text and a button below the other widgets. -/
def editingRows : List Call :=
  let q : Request :=
    { Request.blank "" Sample.simple.mount Sample.simple.root Sample.simple.template with
      records := Sample.records
      keys := (List.range 4).map .ofNat
      pageSize := 2 }
  let button := Sample.button ⟨"button"⟩ Sample.simpleCanvas
  let canvas := Sample.node Sample.simpleCanvas Sample.container "Canvas1" "CANVAS_WIDGET"
    [Sample.simpleImage, Sample.firstText, Sample.secondText, Sample.input, button.id]
  let text := Sample.node Sample.firstText Sample.simpleCanvas "Text1" "TEXT_WIDGET" []
  [.options q, .generate,
    .options { q with
      records := Sample.records.set 1 (Sample.person 5 "Green")
      template := ((q.template.put canvas).put text).put button },
    .generate]

/-- The first row makes the changed nodes and its container, the second one all of its nodes. -/
theorem regenerates_exactly_editingRows :
    (∀ q, .options q ∈ editingRows → q.template.Unminted Config.standard.stem) ∧
    ∃ a b, (create .standard none).turns editingRows = [a, b] ∧ a.Regenerates b ∧
      a.redefined b = [Sample.container, Sample.simpleCanvas, Sample.firstText, ⟨"button"⟩] ∧
      b.emittedAt 0 = a.redefined b ∧ b.emittedAt 1 = b.pass.walk.order := by
  have unminted : ∀ q, .options q ∈ editingRows → q.template.Unminted Config.standard.stem :=
    Call.unminted_of_apart (by decide)
  have count : ((create .standard none).turns editingRows).length = 2 := rfl
  have made : ((create .standard none).turns editingRows).IsChain fun a b =>
      a.redefined b = [Sample.container, Sample.simpleCanvas, Sample.firstText, ⟨"button"⟩] ∧
      b.emittedAt 0 = a.redefined b ∧ b.emittedAt 1 = b.pass.walk.order := by
    decide +kernel
  obtain ⟨a, b, split⟩ := List.length_eq_two.mp count
  obtain ⟨regenerates, -⟩ := regenerates_exactly .standard editingRows unminted [] [] a b split
  rw [split, List.isChain_cons_cons] at made
  exact ⟨unminted, a, b, split, regenerates, made.1⟩

end Session

end ListRepeater
