import ListRepeater.Binding.Localize
import ListRepeater.Instance
import ListRepeater.Request
import ListRepeater.SlotBook.Basic
import ListRepeater.Template.Walk
/-!
# Laying out a row

Before any instance of a row is made, all its widgets get their ids and names, so that parents,
children and bindings can refer to each other. A layout is these ids and names together with the
view of the row, the object literal of what its widgets other than the row container expose.
-/
namespace ListRepeater

/-- What all rows of a pass have in common. -/
structure Pass where
  config : Config
  request : Request
  walk : Walk

namespace Pass

/-- The pass that a request asks for. -/
def ofRequest (c : Config) (r : Request) : Pass :=
  ⟨c, r, ListRepeater.walk r.template r.root fun n => n.kind == c.listKind⟩

variable (p : Pass)

def listName : String := if p.request.listName = "" then p.config.listName else p.request.listName

/-- Whether the list shows all its records instead of pages. -/
def scrolls : Bool := p.config.scrolls || p.request.scrolls

/-- The walked nodes with the ids they are found under. -/
def nodes : List (WidgetId × Node) :=
  p.walk.order.filterMap fun id => (p.request.template.find? id).map (id, ·)

/-- What the view of a row depends on: ids, names and kinds of the walked nodes in order. Passes are
compared by the list in place of its 64-bit hash, which is right only for shapes whose hashes do not
collide. -/
def shape : List (WidgetId × String × String) := p.nodes.map fun e => (e.2.id, e.2.name, e.2.kind)

end Pass

/-- One widget of a row. -/
structure RowWidget where
  /-- The id under which the template holds the node. -/
  templateId : WidgetId
  node : Node
  slot : Slot
  slotId : WidgetId
  instanceId : WidgetId
  name : String
  deriving DecidableEq

structure RowLayout where
  widgets : List RowWidget
  /-- The template id of the row container. -/
  root : Option WidgetId
  names : Keyed String String
  view : String
  deriving DecidableEq

/-- The widget of a node in a row whose slot holds `slotId`. The editable row keeps the ids and
names of the template. -/
def RowWidget.make (row : RowKey) (editable : Bool) (slotId : WidgetId) (e : WidgetId × Node) :
    RowWidget where
  templateId := e.1
  node := e.2
  slot := ⟨row, e.1⟩
  slotId := slotId
  instanceId := if editable then e.1 else slotId
  name := if editable then e.2.name else e.2.name ++ "_" ++ slotId.text

namespace RowLayout

/-- The widgets of a row, each with the id that the book grants its slot, and the book after that. -/
def widgetsOf (row : RowKey) (editable : Bool) :
    SlotBook → List (WidgetId × Node) → List RowWidget × SlotBook
  | b, [] => ([], b)
  | b, e :: rest =>
    let more := widgetsOf row editable (b.acquire ⟨row, e.1⟩) rest
    (.make row editable (b.grant ⟨row, e.1⟩).id e :: more.1, more.2)

/-- The layout of a row with these widgets. -/
def ofWidgets (exposure : Exposure) (root : Option WidgetId) (widgets : List RowWidget) :
    RowLayout where
  widgets := widgets
  root := root
  names := .ofList (widgets.map fun w => (w.node.name, w.name))
  view := viewText
    (((widgets.filter fun w => root ≠ some w.templateId).map fun w =>
      (w.node.name, exposure.listing w.node.kind w.name)).filter fun d => d.2 ≠ "")

variable (l : RowLayout)

def widget? (id : WidgetId) : Option RowWidget := l.widgets.find? fun w => w.templateId == id

def instanceId? (id : WidgetId) : Option WidgetId := (l.widget? id).map (·.instanceId)

def container? : Option RowWidget := l.root.bind l.widget?

/-- The view of the row as a binding that reads it from the row container. -/
def viewBinding : String := mustache (((l.container?.map (·.name)).getD "") ++ ".data")

def slots : List Slot := l.widgets.map (·.slot)

def instanceIds : List WidgetId := l.widgets.map (·.instanceId)

/-- Laying out a row leaves the book as acquiring its slots one after the other does. -/
theorem book_widgetsOf (row : RowKey) (editable : Bool) (b : SlotBook)
    (nodes : List (WidgetId × Node)) :
    (widgetsOf row editable b nodes).2 = b.acquireAll (nodes.map fun e => ⟨row, e.1⟩) := by
  induction nodes generalizing b with
  | nil => rfl
  | cons e rest ih =>
    simp only [widgetsOf, ih, SlotBook.acquireAll, List.map_cons, List.foldl_cons]

end RowLayout

/-- The layout of a row, and the book after its slots got their ids. -/
def Pass.layOutRow (p : Pass) (b : SlotBook) (row : RowKey) (editable : Bool) :
    RowLayout × SlotBook :=
  let laid := RowLayout.widgetsOf row editable b p.nodes
  (.ofWidgets p.config.exposure p.walk.root? laid.1, laid.2)

end ListRepeater
