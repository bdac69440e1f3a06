import ListRepeater.Exposure
import ListRepeater.Id
import ListRepeater.Json.Decoder
/-!
# Ancestor rows

A list inside a row of another list is repeated by a repeater one level deeper. What that repeater
knows of the rows around it is an `Ancestry`: for each outer level, under the key `level_n`, the row
that contains it with the widgets of that row.
-/
namespace ListRepeater

def levelStem : List Char := ['l', 'e', 'v', 'e', 'l', '_']

def levelName (n : Nat) : String := String.ofList (levelStem ++ Json.natText n)

/-- The number of a level key: decimal digits, leading zeros allowed, of a 64-bit number. -/
def levelOf? (key : String) : Option Nat :=
  let cs := key.toList
  let digits := cs.drop levelStem.length
  if cs.take levelStem.length = levelStem ∧ digits ≠ [] ∧ digits.all Char.isDigit then
    let n := digits.foldl (fun n d => n * 10 + Json.Reader.digitValue d) 0
    if n ≤ Json.Reader.greatestUnsigned then some n else none
  else none

/-- One widget of an ancestor row. -/
structure AncestorWidget where
  /-- The properties that it exposes, as an object literal without braces. -/
  exposed : String
  rowIndex : Nat
  viewIndex : Nat
  instanceId : WidgetId
  instanceName : String
  templateId : WidgetId
  templateName : String
  kind : String
  deriving DecidableEq, Inhabited

/-- What an editor offers as completions inside the nested list. -/
structure Completion where
  item : Json
  view : String
  deriving DecidableEq

structure AncestorRow where
  index : Nat
  /-- A binding that reads the record of the row. -/
  item : String
  /-- The widgets of the row under their template names. -/
  widgets : Keyed String AncestorWidget
  completion : Completion
  deriving DecidableEq

/-- What a widget one level deeper sees of an ancestor row. -/
structure AncestorView where
  item : String
  index : Nat
  view : Keyed String String
  deriving DecidableEq

structure Ancestry where
  rows : Keyed String AncestorRow
  deriving DecidableEq

namespace Completion

def same (a b : Completion) : Bool := a.item.same b.item && a.view == b.view

def decoder : Json.Decoder Completion :=
  .fields (.ofFields ⟨.null, ""⟩
    [⟨"currentItem", Json.Decoder.tree.map fun v c => { c with item := v.normalize }⟩,
     ⟨"currentView", Json.Decoder.string.map fun s c => { c with view := s }⟩])

def toJson (c : Completion) : Json := .obj [("currentItem", c.item), ("currentView", .str c.view)]

end Completion

namespace AncestorWidget

def decoder : Json.Decoder AncestorWidget :=
  .fields (.ofFields default
    [⟨"entityDefinition", Json.Decoder.string.map fun s w => { w with exposed := s }⟩,
     ⟨"rowIndex", Json.Decoder.count.map fun n w => { w with rowIndex := n }⟩,
     ⟨"viewIndex", Json.Decoder.count.map fun n w => { w with viewIndex := n }⟩,
     ⟨"metaWidgetId", Json.Decoder.string.map fun s w => { w with instanceId := ⟨s⟩ }⟩,
     ⟨"metaWidgetName", Json.Decoder.string.map fun s w => { w with instanceName := s }⟩,
     ⟨"templateWidgetId", Json.Decoder.string.map fun s w => { w with templateId := ⟨s⟩ }⟩,
     ⟨"templateWidgetName", Json.Decoder.string.map fun s w => { w with templateName := s }⟩,
     ⟨"type", Json.Decoder.string.map fun s w => { w with kind := s }⟩])

def toJson (w : AncestorWidget) : Json :=
  .obj [("entityDefinition", .str w.exposed), ("rowIndex", .int w.rowIndex),
    ("viewIndex", .int w.viewIndex), ("metaWidgetId", .str w.instanceId.text),
    ("metaWidgetName", .str w.instanceName), ("templateWidgetId", .str w.templateId.text),
    ("templateWidgetName", .str w.templateName), ("type", .str w.kind)]

end AncestorWidget

namespace AncestorRow

/-- The name in this row of the widget that the template names `name`. -/
def nameOf? (r : AncestorRow) (name : String) : Option String :=
  (r.widgets.find? name).map (·.instanceName)

/-- The widgets that expose something. -/
def exposing (r : AncestorRow) : List AncestorWidget := r.widgets.values.filter (·.exposed != "")

def viewText (r : AncestorRow) : String :=
  ListRepeater.viewText (r.exposing.map fun w => (w.templateName, w.exposed))

def view (r : AncestorRow) : AncestorView where
  item := r.item
  index := r.index
  view := r.widgets.filterMap fun _ w =>
    if w.exposed = "" then none else some (mustache ("\x7b" ++ w.exposed ++ "\x7d"))

def same (a b : AncestorRow) : Bool :=
  a.index == b.index && a.item == b.item && a.widgets.same (fun v w => decide (v = w)) b.widgets
    && a.completion.same b.completion

def decoder : Json.Decoder AncestorRow :=
  let widgets := Json.Decoder.keyed id AncestorWidget.decoder
  .fields (.ofFields ⟨0, "", .empty, ⟨.null, ""⟩⟩
    [⟨"currentIndex", Json.Decoder.count.map fun n r => { r with index := n }⟩,
     ⟨"currentItem", Json.Decoder.string.map fun s r => { r with item := s }⟩,
     ⟨"currentRowCache", widgets.map fun m r => { r with widgets := m }⟩,
     ⟨"autocomplete", Completion.decoder.map fun c r => { r with completion := c }⟩])

def toJson (r : AncestorRow) : Json :=
  .obj [("currentIndex", .int r.index), ("currentItem", .str r.item),
    ("currentRowCache", .obj (r.widgets.entries.map fun e => (e.1, e.2.toJson))),
    ("autocomplete", r.completion.toJson)]

end AncestorRow

def AncestorView.toJson (a : AncestorView) : Json :=
  .obj [("currentItem", .str a.item), ("currentIndex", .int a.index),
    ("currentView", .obj (a.view.entries.map fun e => (e.1, .str e.2)))]

namespace Ancestry

def empty : Ancestry := ⟨.empty⟩

def get? (a : Ancestry) (key : String) : Option AncestorRow := a.rows.find? key

def level? (a : Ancestry) (n : Nat) : Option AncestorRow := a.get? (levelName n)

/-- The ancestry with `row` at level `n`; all other levels are kept. -/
def withLevel (a : Ancestry) (n : Nat) (row : AncestorRow) : Ancestry :=
  ⟨a.rows.insert (levelName n) row⟩

/-- The ancestry around a row at level `n`, given what is known of the levels around that. -/
def extend (outer : Option Ancestry) (n : Nat) (row : AncestorRow) : Ancestry :=
  (outer.getD empty).withLevel n row

def views (a : Ancestry) : Keyed String AncestorView := a.rows.map fun _ r => r.view

/-- Equality that sees neither the order of the levels nor that of the widgets in a row. -/
def same (a b : Ancestry) : Bool := a.rows.same AncestorRow.same b.rows

def decoder : Json.Decoder Ancestry :=
  (Json.Decoder.keyed id AncestorRow.decoder).map Ancestry.mk

def toJson (a : Ancestry) : Json := .obj (a.rows.entries.map fun e => (e.1, e.2.toJson))

def read (text : String) : Except Fault Ancestry := decoder.read text

end Ancestry

/-- Equality of what two lists know of the rows around them. -/
def sameAncestry : Option Ancestry → Option Ancestry → Bool
  | some a, some b => a.same b
  | none, none => true
  | _, _ => false

end ListRepeater
