import ListRepeater.Json.Decoder
import ListRepeater.SlotBook.Basic
/-!
# Snapshots of a slot book

A snapshot holds what a book needs to go on after it was closed: the slots in order, the parked ids
of the templates that have some, and the count of minted ids. The stem is not part of it.
-/
namespace ListRepeater

structure SlotEntry where
  row : RowKey
  template : WidgetId
  id : WidgetId
  deriving DecidableEq, Inhabited

structure Snapshot where
  slots : List SlotEntry
  parked : Keyed WidgetId (List WidgetId)
  minted : Nat
  deriving DecidableEq

namespace SlotEntry

def decoder : Json.Decoder SlotEntry :=
  .fields (.ofFields default
    [⟨"row", Json.Decoder.string.map fun s e => { e with row := ⟨s⟩ }⟩,
     ⟨"templateWidgetId", Json.Decoder.string.map fun s e => { e with template := ⟨s⟩ }⟩,
     ⟨"metaWidgetId", Json.Decoder.string.map fun s e => { e with id := ⟨s⟩ }⟩])

def toJson (e : SlotEntry) : Json :=
  .obj [("row", .str e.row.text), ("templateWidgetId", .str e.template.text),
    ("metaWidgetId", .str e.id.text)]

end SlotEntry

namespace Snapshot

/-- Equality that does not see the order of the templates with parked ids. -/
def same (a b : Snapshot) : Bool :=
  a.slots == b.slots && a.parked.same (fun x y => decide (x = y)) b.parked && a.minted == b.minted

def decoder : Json.Decoder Snapshot :=
  let ids := Json.Decoder.list (Json.Decoder.string.map WidgetId.mk)
  .fields (.ofFields ⟨[], .empty, 0⟩
    [⟨"slots", (Json.Decoder.list SlotEntry.decoder).map fun es s => { s with slots := es }⟩,
     ⟨"released", (Json.Decoder.keyed WidgetId.mk ids).map fun m s => { s with parked := m }⟩,
     ⟨"nextSeq", Json.Decoder.count.map fun n s => { s with minted := n }⟩])

def toJson (s : Snapshot) : Json :=
  .obj [("slots", .arr (s.slots.map SlotEntry.toJson)),
    ("released", .obj (s.parked.entries.map fun e =>
      (e.1.text, .arr (e.2.map fun id => .str id.text)))),
    ("nextSeq", .int s.minted)]

def text (s : Snapshot) : String := s.toJson.compact

def read (text : String) : Except Fault Snapshot := decoder.read text

end Snapshot

namespace SlotBook

def snapshot (b : SlotBook) : Snapshot where
  slots := b.slots.entries.map fun e => ⟨e.1.row, e.1.template, e.2⟩
  parked := b.pools.filterMap fun _ ids => if ids.isEmpty then none else some ids
  minted := b.minted

/-- The book that goes on from a snapshot, minting behind `stem`. -/
def ofSnapshot (stem : String) (s : Snapshot) : SlotBook where
  stem := stem
  slots := .ofList (s.slots.map fun e => (⟨e.row, e.template⟩, e.id))
  pools := s.parked
  minted := s.minted

end SlotBook

end ListRepeater
