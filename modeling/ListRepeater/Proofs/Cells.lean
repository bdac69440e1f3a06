import ListRepeater.Proofs.SlotBook.Ledger
import ListRepeater.Proofs.WalkOrder
import ListRepeater.Repeater.Basic
import Mathlib.Data.List.ProdSigma
/-!
# The cells of a pass

A pass shows a cell for each row of its window and each walked node. While the rows are laid out the
book only hands out ids, so every layout can be read off the book as it stands after the pass, and
the widget of a cell depends on the id of its slot alone.
-/
namespace ListRepeater

/-- The id that a slot holds; meant for slots that hold one. -/
def SlotBook.idOf (b : SlotBook) (k : Slot) : WidgetId := (b.get? k).getD default

theorem SlotBook.idOf_of_get? {b : SlotBook} {k : Slot} {id : WidgetId} (h : b.get? k = some id) :
    b.idOf k = id := by
  rw [idOf, h]
  rfl

/-- A row of a window with a walked node. -/
structure Cell where
  row : WindowRow
  id : WidgetId
  node : Node

namespace Cell

def slot (x : Cell) : Slot := ⟨x.row.place.key, x.id⟩

end Cell

namespace Pass

variable (p : Pass)

def rowCells (row : WindowRow) : List Cell := p.nodes.map fun e => ⟨row, e.1, e.2⟩

def cells : List Cell := p.windowRows.flatMap p.rowCells

def slots : List Slot := p.cells.map Cell.slot

section Reading

variable (b : SlotBook)

def widgetIn (x : Cell) : RowWidget :=
  .make x.row.place.key (p.isEditable x.row) (b.idOf x.slot) (x.id, x.node)

def layoutIn (row : WindowRow) : RowLayout :=
  .ofWidgets p.config.exposure p.walk.root? ((p.rowCells row).map (p.widgetIn b))

def rowIn (row : WindowRow) : PassRow := ⟨row, p.isEditable row, b, p.layoutIn b row⟩

def shownRowsIn : List ShownRow := p.windowRows.map fun row => p.shownRow (p.rowIn b row)

/-- What the pass is remembered by when it leaves the book behind. -/
def shownIn : Shown := Repeater.remember p (p.shownRowsIn b)

def instanceIn (x : Cell) : Instance :=
  p.instanceOf (p.layoutIn b x.row) x.row.place x.row.record (p.isEditable x.row) (p.widgetIn b x)

end Reading

theorem mem_rowCells {row : WindowRow} {x : Cell} :
    x ∈ p.rowCells row ↔ x.row = row ∧ (x.id, x.node) ∈ p.nodes := by
  simp only [rowCells, List.mem_map]
  constructor
  · rintro ⟨e, he, rfl⟩
    exact ⟨rfl, he⟩
  · rintro ⟨rfl, he⟩
    exact ⟨(x.id, x.node), he, rfl⟩

theorem mem_cells {x : Cell} :
    x ∈ p.cells ↔ x.row ∈ p.windowRows ∧ (x.id, x.node) ∈ p.nodes := by
  simp only [cells, List.mem_flatMap, mem_rowCells]
  constructor
  · rintro ⟨row, hrow, rfl, he⟩
    exact ⟨hrow, he⟩
  · rintro ⟨hrow, he⟩
    exact ⟨x.row, hrow, rfl, he⟩

theorem slot_mem_slots {x : Cell} (hx : x ∈ p.cells) : x.slot ∈ p.slots := List.mem_map_of_mem hx

theorem slot_mem_of_walked {c : Config} {q : Request} {row : WindowRow} {id : WidgetId}
    (hrow : row ∈ (ofRequest c q).windowRows) (hid : id ∈ (ofRequest c q).walk.order) :
    (⟨row.place.key, id⟩ : Slot) ∈ (ofRequest c q).slots := by
  rw [← map_fst_nodes] at hid
  obtain ⟨e, he, rfl⟩ := List.mem_map.mp hid
  exact List.mem_map.mpr ⟨⟨row, e.1, e.2⟩, (mem_cells _).mpr ⟨hrow, he⟩, rfl⟩

section Window

/-- The rows of a window are counted from zero. -/
theorem view_of_getElem?_windowRows {i : Nat} {row : WindowRow}
    (h : p.windowRows[i]? = some row) : row.place.view = i := by
  simp only [windowRows, List.getElem?_map, Option.map_eq_some_iff] at h
  obtain ⟨e, he, rfl⟩ := h
  rw [List.getElem?_zipIdx] at he
  obtain ⟨a, -, rfl⟩ := Option.map_eq_some_iff.mp he
  simp

theorem getElem?_view_of_mem {row : WindowRow} (h : row ∈ p.windowRows) :
    p.windowRows[row.place.view]? = some row := by
  obtain ⟨i, hi⟩ := List.mem_iff_getElem?.mp h
  rwa [p.view_of_getElem?_windowRows hi]

/-- The records of a window with their keys are those of its rows. -/
theorem map_shown_windowRows :
    (p.windowRows.map fun row => (row.record, row.given)) = p.windowRecords := by
  have lengths : p.windowRecords.length =
      (RowKey.separate (p.windowRecords.map Prod.snd)).length := by
    rw [RowKey.length_separate, List.length_map]
  have shown : (p.windowRows.map fun row => (row.record, row.given)) =
      ((p.windowRecords.zip (RowKey.separate (p.windowRecords.map Prod.snd))).zipIdx.map
        Prod.fst).map Prod.fst := by
    simp only [windowRows, List.map_map, Function.comp_def]
  rw [shown, List.zipIdx_map_fst, List.map_fst_zip (Nat.le_of_eq lengths)]

/-- The records of the rows of a window stand one behind the other from where it starts. -/
theorem map_record_windowRows :
    p.windowRows.map (·.place.record) = List.range' p.window.1 p.windowRows.length := by
  have records : p.windowRows.map (·.place.record) =
      ((p.windowRecords.zip (RowKey.separate (p.windowRecords.map Prod.snd))).zipIdx.map
        Prod.snd).map (p.window.1 + ·) := by
    simp only [windowRows, List.map_map, Function.comp_def]
  rw [records, List.zipIdx_map_snd, List.map_add_range', Nat.add_zero, windowRows, List.length_map,
    List.length_zipIdx]

theorem map_key_windowRows :
    p.windowRows.map (·.place.key) = RowKey.separate (p.windowRecords.map Prod.snd) := by
  have lengths : (RowKey.separate (p.windowRecords.map Prod.snd)).length = p.windowRecords.length := by
    rw [RowKey.length_separate, List.length_map]
  have keys : p.windowRows.map (·.place.key) =
      ((p.windowRecords.zip (RowKey.separate (p.windowRecords.map Prod.snd))).zipIdx.map
        Prod.fst).map Prod.snd := by
    simp only [windowRows, List.map_map, Function.comp_def]
  rw [keys, List.zipIdx_map_fst, List.map_snd_zip (Nat.le_of_eq lengths)]

/-- No two rows of a window go by the same key. -/
theorem nodup_keys_windowRows : (p.windowRows.map (·.place.key)).Nodup := by
  rw [map_key_windowRows]
  exact RowKey.nodup_separate _

theorem nodup_windowRows : p.windowRows.Nodup := List.Nodup.of_map _ p.nodup_keys_windowRows

theorem row_eq_of_key {row row' : WindowRow} (h : row ∈ p.windowRows) (h' : row' ∈ p.windowRows)
    (key : row.place.key = row'.place.key) : row = row' :=
  List.inj_on_of_nodup_map p.nodup_keys_windowRows h h' key

theorem row_eq_of_view {row row' : WindowRow} (h : row ∈ p.windowRows) (h' : row' ∈ p.windowRows)
    (view : row.place.view = row'.place.view) : row = row' := by
  have e := p.getElem?_view_of_mem h
  rw [view, p.getElem?_view_of_mem h'] at e
  exact (Option.some.inj e).symm

theorem view_lt_of_mem {row : WindowRow} (h : row ∈ p.windowRows) :
    row.place.view < p.windowRows.length :=
  (List.getElem?_eq_some_iff.mp (p.getElem?_view_of_mem h)).1

/-- A window that starts like another one and breaks off after `n` records has the first `n` rows of
the other. -/
theorem windowRows_take {p₀ p : Pass} {n : Nat} (first : p₀.firstIndex = p.firstIndex)
    (start : p₀.window.1 = p.window.1) (records : p₀.windowRecords = p.windowRecords.take n) :
    p₀.windowRows = p.windowRows.take n := by
  have zip : ∀ keys : List RowKey, (p.windowRecords.take n).zip (keys.take n) =
      (p.windowRecords.zip keys).take n := fun keys => List.take_zipWith.symm
  apply List.ext_getElem?
  intro i
  simp only [windowRows, first, start, records, List.map_take, RowKey.separate_take, zip,
    List.getElem?_map, List.getElem?_zipIdx, List.getElem?_take]
  split <;> rfl

/-- The rows of a window are made of its records, from the place where it starts. -/
theorem windowRows_congr {p₀ p : Pass} (first : p₀.firstIndex = p.firstIndex)
    (start : p₀.window.1 = p.window.1) (records : p₀.windowRecords = p.windowRecords) :
    p₀.windowRows = p.windowRows := by
  simp only [windowRows, first, start, records]

end Window

section Cells

theorem node_unique {id : WidgetId} {m n : Node} (hm : (id, m) ∈ p.nodes) (hn : (id, n) ∈ p.nodes) :
    m = n := by
  have hm := (p.mem_nodes_iff.mp hm).2
  have hn := (p.mem_nodes_iff.mp hn).2
  exact Option.some.inj (hm.symm.trans hn)

/-- A cell is known by its slot. -/
theorem cell_eq_of_slot {x y : Cell} (hx : x ∈ p.cells) (hy : y ∈ p.cells)
    (slot : x.slot = y.slot) : x = y := by
  obtain ⟨hxr, hxn⟩ := p.mem_cells.mp hx
  obtain ⟨hyr, hyn⟩ := p.mem_cells.mp hy
  have row := p.row_eq_of_key hxr hyr (congrArg Slot.row slot)
  have id : x.id = y.id := congrArg Slot.template slot
  obtain ⟨xr, xi, xn⟩ := x
  obtain ⟨yr, yi, yn⟩ := y
  cases row
  cases id
  cases p.node_unique hxn hyn
  rfl

theorem nodup_cells (c : Config) (q : Request) : (Pass.ofRequest c q).cells.Nodup := by
  have nodes : (Pass.ofRequest c q).nodes.Nodup := by
    apply List.Nodup.of_map Prod.fst
    rw [map_fst_nodes]
    exact nodup_order c q
  have pairs := (nodup_windowRows (Pass.ofRequest c q)).product nodes
  have cells : (Pass.ofRequest c q).cells =
      ((Pass.ofRequest c q).windowRows ×ˢ (Pass.ofRequest c q).nodes).map
        fun x => ⟨x.1, x.2.1, x.2.2⟩ := by
    simp only [SProd.sprod, List.product, List.map_flatMap, List.map_map]
    rfl
  rw [cells]
  refine pairs.map ?_
  rintro ⟨_, _, _⟩ ⟨_, _, _⟩ h
  cases h
  rfl

end Cells

section LayingOut

/-- The widgets of a row read off any book that keeps the ids handed out to them. -/
theorem widgetsOf_eq (row : RowKey) (editable : Bool) (nodes : List (WidgetId × Node))
    {b b' : SlotBook} (keeps : (RowLayout.widgetsOf row editable b nodes).2.Keeps b') :
    (RowLayout.widgetsOf row editable b nodes).1 =
      nodes.map fun e => .make row editable (b'.idOf ⟨row, e.1⟩) e := by
  induction nodes generalizing b with
  | nil => rfl
  | cons e rest ih =>
    have got : b'.get? ⟨row, e.1⟩ = some (b.grant ⟨row, e.1⟩).id := by
      apply keeps
      rw [RowLayout.widgetsOf, RowLayout.book_widgetsOf]
      exact SlotBook.keeps_acquireAll _ _ _ _ (b.get?_acquire ⟨row, e.1⟩)
    rw [RowLayout.widgetsOf, List.map_cons, SlotBook.idOf_of_get? got, ih keeps]

theorem slots_rowCells (row : WindowRow) :
    (p.rowCells row).map Cell.slot = p.nodes.map fun e => ⟨row.place.key, e.1⟩ := by
  simp [rowCells, Cell.slot, Function.comp_def]

theorem layOutRow_snd (b : SlotBook) (row : WindowRow) :
    (p.layOutRow b row.place.key (p.isEditable row)).2 =
      b.acquireAll ((p.rowCells row).map Cell.slot) := by
  rw [layOutRow, RowLayout.book_widgetsOf, slots_rowCells]

theorem layOutRow_fst {b b' : SlotBook} {row : WindowRow}
    (keeps : (p.layOutRow b row.place.key (p.isEditable row)).2.Keeps b') :
    (p.layOutRow b row.place.key (p.isEditable row)).1 = p.layoutIn b' row := by
  have widgets := widgetsOf_eq row.place.key (p.isEditable row) p.nodes keeps
  rw [layOutRow, layoutIn, widgets, rowCells, List.map_map]
  rfl

/-- Laying out rows asks for the slots of their cells one after the other. -/
theorem layOutRows_snd (b : SlotBook) (rows : List WindowRow) :
    (p.layOutRows b rows).2 = b.acquireAll ((rows.flatMap p.rowCells).map Cell.slot) := by
  induction rows generalizing b with
  | nil => rfl
  | cons row rest ih =>
    rw [layOutRows, ih, layOutRow_snd, ← SlotBook.acquireAll_append, ← List.map_append,
      List.flatMap_cons]

/-- The rows of a pass read off any book that keeps the ids handed out to them, for all that is
asked of a row but the book before it. -/
theorem map_layOutRows {α : Type} {f : PassRow → α}
    (blind : ∀ r b, f { r with book := b } = f r) {b b' : SlotBook} {rows : List WindowRow}
    (keeps : (p.layOutRows b rows).2.Keeps b') :
    (p.layOutRows b rows).1.map f = rows.map fun row => f (p.rowIn b' row) := by
  induction rows generalizing b with
  | nil => rfl
  | cons row rest ih =>
    have later : (p.layOutRow b row.place.key (p.isEditable row)).2.Keeps b' := by
      refine SlotBook.Keeps.trans ?_ keeps
      rw [layOutRows, layOutRows_snd]
      exact SlotBook.keeps_acquireAll _ _
    rw [layOutRows, List.map_cons, List.map_cons, ih keeps, layOutRow_fst p later]
    congr 1
    exact (blind _ b').symm

end LayingOut

/-- Two books that agree on the slots of a row give it the same layout. -/
theorem layoutIn_congr {b b' : SlotBook} {row : WindowRow}
    (agree : ∀ x ∈ p.rowCells row, b.get? x.slot = b'.get? x.slot) :
    p.layoutIn b row = p.layoutIn b' row := by
  rw [layoutIn, layoutIn]
  congr 1
  apply List.map_congr_left
  intro x hx
  rw [widgetIn, widgetIn, SlotBook.idOf, SlotBook.idOf, agree x hx]

end Pass

end ListRepeater
