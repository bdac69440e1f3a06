import ListRepeater.Proofs.Cells
/-!
# What a pass leaves behind

A pass ends with a book in which all its slots hold ids, and everything that it emits, removes and
remembers can be read off that book, cell by cell. No two cells of a pass show the same instance id
as long as no authored id looks like a minted one.
-/
namespace ListRepeater

namespace Pass

variable (p : Pass) (b : SlotBook)

/-- The instance id of a cell: that of its node in the editable row, and that of its slot
elsewhere. -/
def idIn (x : Cell) : WidgetId := (p.widgetIn b x).instanceId

def idsIn : List WidgetId := p.cells.map (p.idIn b)

theorem idIn_of_editable {x : Cell} (h : p.isEditable x.row = true) : p.idIn b x = x.id := by
  simp [idIn, widgetIn, RowWidget.make, h]

theorem idIn_of_projected {x : Cell} (h : p.isEditable x.row = false) :
    p.idIn b x = b.idOf x.slot := by
  simp [idIn, widgetIn, RowWidget.make, h]

theorem slots_shownRow (row : WindowRow) :
    (p.shownRow (p.rowIn b row)).slots = (p.rowCells row).map Cell.slot := by
  simp only [shownRow, rowIn, layoutIn, RowLayout.ofWidgets, RowLayout.slots, List.map_map]
  rfl

theorem instanceIds_shownRow (row : WindowRow) :
    (p.shownRow (p.rowIn b row)).instanceIds = (p.rowCells row).map (p.idIn b) := by
  simp only [shownRow, rowIn, layoutIn, RowLayout.ofWidgets, RowLayout.instanceIds, List.map_map]
  rfl

theorem slots_shownRowsIn : (p.shownRowsIn b).flatMap (·.slots) = p.slots := by
  simp only [shownRowsIn, List.flatMap_map, slots_shownRow, slots, cells, List.map_flatMap]

theorem instanceIds_shownRowsIn : (p.shownRowsIn b).flatMap (·.instanceIds) = p.idsIn b := by
  simp only [shownRowsIn, List.flatMap_map, instanceIds_shownRow, idsIn, cells, List.map_flatMap]

/-- The instances of some cells. -/
def instancesIn (cells : List Cell) : Keyed WidgetId Instance :=
  .ofList ((cells.map (p.instanceIn b)).map fun i => (i.id, i))

/-- Whether the pass renders the cell: the whole row is, or the node is one of those patched. -/
def emits (c : Comparison) (x : Cell) : Bool :=
  c.rebuilds (p.rowIn b x.row) || c.patch.contains x.id

theorem rendered_rowIn (c : Comparison) (row : WindowRow) :
    p.rendered c (p.rowIn b row) = ((p.rowCells row).filter (p.emits b c)).map (p.instanceIn b) := by
  have ofRow : ∀ x ∈ p.rowCells row, x.row = row := fun x hx => (p.mem_rowCells.mp hx).1
  have render : ∀ xs : List Cell, (∀ x ∈ xs, x.row = row) →
      (xs.map (p.widgetIn b)).map
          (p.instanceOf (p.layoutIn b row) row.place row.record (p.isEditable row)) =
        xs.map (p.instanceIn b) := by
    intro xs hxs
    rw [List.map_map]
    apply List.map_congr_left
    intro x hx
    simp only [Function.comp_apply, instanceIn, hxs x hx]
  have widgets : (p.layoutIn b row).widgets = (p.rowCells row).map (p.widgetIn b) := rfl
  rw [rendered, Comparison.only, instancesOf]
  by_cases all : c.rebuilds (p.rowIn b row) = true
  · have keep : (p.rowCells row).filter (p.emits b c) = p.rowCells row := by
      apply List.filter_eq_self.mpr
      intro x hx
      simp [emits, ofRow x hx, all]
    rw [if_pos all, keep]
    exact render _ ofRow
  · have pick : ∀ x ∈ p.rowCells row, p.emits b c x = c.patch.contains x.id := by
      intro x hx
      simp [emits, ofRow x hx, all]
    rw [if_neg all, List.filter_congr pick]
    have picked : (widgetsIn (p.layoutIn b row) (some c.patch)) =
        ((p.rowCells row).filter fun x => c.patch.contains x.id).map (p.widgetIn b) := by
      rw [widgetsIn, widgets, List.filter_map]
      rfl
    show (widgetsIn (p.layoutIn b row) (some c.patch)).map _ = _
    rw [picked]
    exact render _ fun x hx => ofRow x (List.mem_filter.mp hx).1

end Pass

namespace Repeater

section Run

variable (r : Repeater) (q : Request)

/-- The pass that a repeater makes over a request. -/
abbrev pass : Pass := Pass.ofRequest r.config q

theorem layOut_snd : (r.layOut (r.pass q)).2 = r.book.acquireAll (r.pass q).slots := by
  rw [layOut, Pass.layOutRows_snd]
  rfl

/-- A slot of the pass holds afterwards what it got while the rows were laid out. -/
theorem get?_run {k : Slot} (hk : k ∈ (r.pass q).slots) :
    (r.run q).next.book.get? k = (r.book.acquireAll (r.pass q).slots).get? k := by
  have rows : (r.layOut (r.pass q)).1.map (r.pass q).shownRow =
      (r.pass q).shownRowsIn (r.layOut (r.pass q)).2 :=
    (r.pass q).map_layOutRows (fun _ _ => rfl) (SlotBook.Keeps.refl _)
  have book : (r.run q).next.book = (r.layOut (r.pass q)).2.releaseAll
      (vacated r.shown ((r.layOut (r.pass q)).1.map (r.pass q).shownRow)) := rfl
  rw [book, SlotBook.get?_releaseAll, layOut_snd, if_neg]
  intro gone
  rw [rows, vacated, Pass.slots_shownRowsIn, List.mem_filter] at gone
  simp [hk] at gone

/-- All slots of a pass hold ids when it is over. -/
theorem held_run {k : Slot} (hk : k ∈ (r.pass q).slots) :
    ∃ id, (r.run q).next.book.get? k = some id := by
  rw [get?_run r q hk]
  exact SlotBook.exists_get?_acquireAll hk r.book

/-- A slot of the pass that held an id before still holds it. -/
theorem get?_run_of_held {k : Slot} (hk : k ∈ (r.pass q).slots) {id : WidgetId}
    (h : r.book.get? k = some id) : (r.run q).next.book.get? k = some id := by
  rw [get?_run r q hk]
  exact SlotBook.keeps_acquireAll r.book _ k id h

/-- The rows of a pass read off the book that it leaves behind. -/
theorem map_layOut {α : Type} {f : PassRow → α} (blind : ∀ r b, f { r with book := b } = f r) :
    (r.layOut (r.pass q)).1.map f =
      (r.pass q).windowRows.map fun row => f ((r.pass q).rowIn (r.run q).next.book row) := by
  have laid := (r.pass q).map_layOutRows blind
    (SlotBook.Keeps.refl ((r.pass q).layOutRows r.book (r.pass q).windowRows).2)
  rw [layOut, laid]
  apply List.map_congr_left
  intro row hrow
  have layout : (r.pass q).layoutIn ((r.pass q).layOutRows r.book (r.pass q).windowRows).2 row =
      (r.pass q).layoutIn (r.run q).next.book row := by
    apply Pass.layoutIn_congr
    intro x hx
    have hslot : x.slot ∈ (r.pass q).slots :=
      List.mem_map_of_mem (List.mem_flatMap.mpr ⟨row, hrow, hx⟩)
    rw [get?_run r q hslot, Pass.layOutRows_snd]
    rfl
  rw [Pass.rowIn, Pass.rowIn, layout]
  exact blind ⟨row, _, (r.run q).next.book, (r.pass q).layoutIn (r.run q).next.book row⟩ _

theorem rows_run : (r.layOut (r.pass q)).1.map (r.pass q).shownRow =
    (r.pass q).shownRowsIn (r.run q).next.book :=
  map_layOut r q fun _ _ => rfl

theorem shown_run : (r.run q).next.shown = some ((r.pass q).shownIn (r.run q).next.book) :=
  congrArg (fun rows => some (remember (r.pass q) rows)) (rows_run r q)

/-- The instances that a pass brings forth: those of the cells that it renders. -/
theorem instances_run : (r.run q).emission.instances =
    (r.pass q).instancesIn (r.run q).next.book ((r.pass q).cells.filter
      ((r.pass q).emits (r.run q).next.book ((r.pass q).compare r.shown))) := by
  have rendered := map_layOut r q (f := (r.pass q).rendered ((r.pass q).compare r.shown))
    fun _ _ => rfl
  have made : (r.layOut (r.pass q)).1.flatMap ((r.pass q).rendered ((r.pass q).compare r.shown)) =
      ((r.pass q).cells.filter ((r.pass q).emits (r.run q).next.book
        ((r.pass q).compare r.shown))).map ((r.pass q).instanceIn (r.run q).next.book) := by
    rw [List.flatMap_def, rendered, ← List.flatMap_def]
    simp only [Pass.rendered_rowIn, Pass.cells, List.filter_flatMap, List.map_flatMap]
  exact congrArg (fun is => Keyed.ofList (is.map fun i => (i.id, i))) made

theorem removed_run : (r.run q).emission.removed =
    removed r.shown ((r.pass q).shownRowsIn (r.run q).next.book) :=
  congrArg (removed r.shown) (rows_run r q)

theorem stem_run : (r.run q).next.book.stem = r.book.stem := by
  have book : (r.run q).next.book = (r.layOut (r.pass q)).2.releaseAll
      (vacated r.shown ((r.layOut (r.pass q)).1.map (r.pass q).shownRow)) := rfl
  rw [book, SlotBook.stem_releaseAll, layOut_snd, SlotBook.stem_acquireAll]

theorem balanced_run (h : r.book.Balanced) : (r.run q).next.book.Balanced := by
  refine SlotBook.balanced_releaseAll ?_ _
  rw [layOut_snd]
  exact SlotBook.balanced_acquireAll h _

theorem files_run {t id : WidgetId} (h : r.book.Files t id) :
    (r.run q).next.book.Files t id := by
  refine SlotBook.files_releaseAll ?_ _
  rw [layOut_snd]
  exact SlotBook.files_acquireAll h _

end Run

/-- The book of the repeater never lost or doubled an id and mints behind the configured stem. -/
structure Grounded (r : Repeater) : Prop where
  stem : r.book.stem = r.config.stem
  balanced : r.book.Balanced

/-- The last pass of the repeater was made over `q`. -/
structure After (r : Repeater) (q : Request) : Prop where
  shown : r.shown = some ((r.pass q).shownIn r.book)
  held : ∀ k ∈ (r.pass q).slots, ∃ id, r.book.get? k = some id

theorem grounded_create (c : Config) : (create c none).Grounded :=
  ⟨rfl, SlotBook.balanced_empty c.stem⟩

theorem grounded_run {r : Repeater} (h : r.Grounded) (q : Request) : (r.run q).next.Grounded :=
  ⟨(stem_run r q).trans h.stem, balanced_run r q h.balanced⟩

theorem after_run (r : Repeater) (q : Request) : (r.run q).next.After q :=
  ⟨shown_run r q, fun _ hk => held_run r q hk⟩

theorem After.shownIds_eq {r : Repeater} {q : Request} (h : r.After q) :
    r.shownIds = (r.pass q).idsIn r.book := by
  rw [shownIds, shownRows, h.shown]
  exact (r.pass q).instanceIds_shownRowsIn r.book

theorem shownIds_run (r : Repeater) (q : Request) :
    (r.run q).next.shownIds = (r.pass q).idsIn (r.run q).next.book :=
  (after_run r q).shownIds_eq

end Repeater

/-- No authored id of the template looks like one that is minted behind the stem. -/
def Template.Unminted (t : Template) (stem : String) : Prop :=
  ∀ id ∈ t.keys, ∀ n, id ≠ SlotBook.mintedId stem n

/-- Ids that do not start with the stem do not look minted. -/
theorem Template.unminted_of_apart {t : Template} {stem : String}
    (h : ∀ id ∈ t.keys, ¬stem.toList <+: id.text.toList) : t.Unminted stem := by
  intro id hid n e
  apply h id hid
  rw [e, SlotBook.mintedId, String.toList_append, String.toList_append, List.append_assoc]
  exact List.prefix_append _ _

namespace Pass

variable {p : Pass} {b : SlotBook}

theorem mem_keys_of_cell {x : Cell} (hx : x ∈ p.cells) : x.id ∈ p.request.template.keys :=
  Keyed.mem_keys_of_find? (p.mem_nodes_iff.mp (p.mem_cells.mp hx).2).2

theorem idOf_eq_minted (balanced : b.Balanced) (held : ∀ k ∈ p.slots, ∃ id, b.get? k = some id)
    {x : Cell} (hx : x ∈ p.cells) : ∃ n, b.idOf x.slot = SlotBook.mintedId b.stem n := by
  obtain ⟨id, hid⟩ := held x.slot (p.slot_mem_slots hx)
  obtain ⟨n, hn⟩ := balanced.minted_of_get? hid
  exact ⟨n, (SlotBook.idOf_of_get? hid).trans hn⟩

theorem slot_eq_of_idOf (balanced : b.Balanced) (held : ∀ k ∈ p.slots, ∃ id, b.get? k = some id)
    {x y : Cell} (hx : x ∈ p.cells) (hy : y ∈ p.cells) (h : b.idOf x.slot = b.idOf y.slot) :
    x.slot = y.slot := by
  obtain ⟨id, hid⟩ := held x.slot (p.slot_mem_slots hx)
  obtain ⟨id', hid'⟩ := held y.slot (p.slot_mem_slots hy)
  rw [SlotBook.idOf_of_get? hid, SlotBook.idOf_of_get? hid'] at h
  subst h
  exact balanced.slot_unique hid hid'

/-- Only the first row of the window is ever editable. -/
theorem row_eq_of_editable {row row' : WindowRow} (hr : row ∈ p.windowRows)
    (hr' : row' ∈ p.windowRows) (he : p.isEditable row = true) (he' : p.isEditable row' = true) :
    row = row' := by
  simp only [isEditable, Bool.and_eq_true, beq_iff_eq] at he he'
  exact p.row_eq_of_view hr hr' (he.2.trans he'.2.symm)

/-- Different cells show different instance ids. -/
theorem cell_eq_of_idIn (balanced : b.Balanced) (held : ∀ k ∈ p.slots, ∃ id, b.get? k = some id)
    (unminted : p.request.template.Unminted b.stem) {x y : Cell} (hx : x ∈ p.cells)
    (hy : y ∈ p.cells) (h : p.idIn b x = p.idIn b y) : x = y := by
  have authored : ∀ {x y : Cell}, x ∈ p.cells → y ∈ p.cells → x.id ≠ b.idOf y.slot := by
    intro x y hx hy e
    obtain ⟨n, hn⟩ := idOf_eq_minted balanced held hy
    exact unminted x.id (mem_keys_of_cell hx) n (e.trans hn)
  obtain ⟨hxr, -⟩ := p.mem_cells.mp hx
  obtain ⟨hyr, -⟩ := p.mem_cells.mp hy
  by_cases ex : p.isEditable x.row = true
  · rw [p.idIn_of_editable b ex] at h
    by_cases ey : p.isEditable y.row = true
    · rw [p.idIn_of_editable b ey] at h
      have row := row_eq_of_editable hxr hyr ex ey
      apply p.cell_eq_of_slot hx hy
      rw [Cell.slot, Cell.slot, row, h]
    · rw [p.idIn_of_projected b (by simpa using ey)] at h
      exact False.elim (authored hx hy h)
  · rw [p.idIn_of_projected b (by simpa using ex)] at h
    by_cases ey : p.isEditable y.row = true
    · rw [p.idIn_of_editable b ey] at h
      exact False.elim (authored hy hx h.symm)
    · rw [p.idIn_of_projected b (by simpa using ey)] at h
      exact p.cell_eq_of_slot hx hy (slot_eq_of_idOf balanced held hx hy h)

end Pass

end ListRepeater
