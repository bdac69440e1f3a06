import ListRepeater.Repeater.RowKeys
import ListRepeater.Repeater.RowLayout
/-!
# The rows of a window

A pass shows the records of the window of its request, one row for each. The rows are laid out one
after the other, so the slots of a row get their ids after those of the rows above it.
-/
namespace ListRepeater

/-- One row of the window of a pass, before it is laid out. -/
structure WindowRow where
  /-- The key of the record, which a row above may have taken. -/
  given : RowKey
  place : Place
  record : Json
  deriving DecidableEq

/-- One row of a pass. -/
structure PassRow where
  row : WindowRow
  editable : Bool
  /-- The book before the slots of the row got their ids. -/
  book : SlotBook
  layout : RowLayout

namespace Pass

variable (p : Pass)

/-- The window of the request; without a row container there is nothing to show. -/
def window : Nat × Nat := if p.walk.order = [] then (0, 0) else p.request.window p.scrolls

def firstIndex : Nat := p.request.firstIndex p.scrolls

def windowRecords : List (Json × RowKey) :=
  ((p.request.records.zip p.request.keys).drop p.window.1).take (p.window.2 - p.window.1)

def windowRows : List WindowRow :=
  let shown := p.windowRecords
  ((shown.zip (RowKey.separate (shown.map Prod.snd))).zipIdx).map fun e =>
    { given := e.1.1.2
      place := ⟨p.firstIndex + e.2, e.2, p.window.1 + e.2, e.1.2⟩
      record := e.1.1.1 }

/-- On a canvas the first row of the window can be edited. -/
def isEditable (row : WindowRow) : Bool := p.config.mode == .canvas && row.place.view == 0

/-- The rows of the pass in order, and the book after all their slots got ids. -/
def layOutRows : SlotBook → List WindowRow → List PassRow × SlotBook
  | b, [] => ([], b)
  | b, row :: rest =>
    let editable := p.isEditable row
    let laid := p.layOutRow b row.place.key editable
    let more := layOutRows laid.2 rest
    (⟨row, editable, b, laid.1⟩ :: more.1, more.2)

theorem length_windowRows : p.windowRows.length = p.windowRecords.length := by
  simp [windowRows, RowKey.length_separate]

theorem rows_layOutRows (b : SlotBook) (rows : List WindowRow) :
    (p.layOutRows b rows).1.map (·.row) = rows := by
  induction rows generalizing b with
  | nil => rfl
  | cons row rest ih => simp only [layOutRows, List.map_cons, ih]

end Pass

end ListRepeater
