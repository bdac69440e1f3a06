import ListRepeater.Repeater.Render
import ListRepeater.Repeater.Window
/-!
# Comparing a pass with what was shown

A pass compares every row with the row that the pass before it showed at the same place of the
window:

* all rows are rendered anew after a reset, which a change of page, list name, ancestors or place in
  the page brings about;
* a row is rendered anew when its place, record or editability changed;
* any other row only renders the widgets whose template node changed, and the row container when
  the shape of the row changed.

A text stands here for the 64-bit hash of a record, and a list for that of a shape. This is the
comparison of the hashes as long as these do not collide, and not where two records or two shapes
that differ have one hash.
-/
namespace ListRepeater

/-- What records are compared by: the written form, in place of its 64-bit hash. It is right only for
records whose hashes do not collide. -/
def fingerprint (record : Json) : String := record.compact

/-- What is remembered of a row that was shown. -/
structure ShownRow where
  place : Place
  fingerprint : String
  editable : Bool
  slots : List Slot
  instanceIds : List WidgetId
  containerId : WidgetId
  containerName : String
  deriving DecidableEq

/-- What the next pass is compared with. -/
structure Shown where
  pageNo : Nat
  listName : String
  ancestry : Option Ancestry
  mount : WidgetId
  root : WidgetId
  template : Template
  walk : Walk
  shape : List (WidgetId × String × String)
  rows : List ShownRow
  deriving DecidableEq

namespace Pass

variable (p : Pass)

def shownRow (r : PassRow) : ShownRow where
  place := r.row.place
  fingerprint := fingerprint r.row.record
  editable := r.editable
  slots := r.layout.slots
  instanceIds := r.layout.instanceIds
  containerId := (r.layout.container?.map (·.slotId)).getD p.request.root
  containerName := (r.layout.container?.map (·.name)).getD ""

/-- Whether every row has to be rendered anew. Pages do not matter to a list that scrolls. -/
def isReset (shown : Option Shown) : Bool :=
  match shown with
  | none => true
  | some s =>
    (!p.scrolls && s.pageNo != p.request.pageNo) || s.listName != p.listName
      || !sameAncestry s.ancestry p.request.ancestry || s.mount != p.request.mount
      || s.root != p.request.root

def shapeChanged (shown : Option Shown) : Bool :=
  match shown with
  | none => true
  | some s => s.shape != p.shape

/-- Whether a node is defined alike in two templates. -/
def sameNode : Option Node → Option Node → Bool
  | some m, some n => m.same n
  | none, none => true
  | _, _ => false

/-- The walked nodes that are new to the walk or defined otherwise than before. -/
def changed (shown : Option Shown) : List WidgetId :=
  match shown with
  | none => p.walk.order
  | some s =>
    p.walk.order.filter fun id =>
      !s.walk.contains id || !sameNode (s.template.find? id) (p.request.template.find? id)

end Pass

/-- How a pass differs from what was shown before it. -/
structure Comparison where
  reset : Bool
  changed : List WidgetId
  /-- The widgets that a kept row renders. -/
  patch : List WidgetId
  before : List ShownRow
  deriving DecidableEq

namespace Pass

variable (p : Pass)

def compare (shown : Option Shown) : Comparison where
  reset := p.isReset shown
  changed := p.changed shown
  patch := p.changed shown ++ (if p.shapeChanged shown then p.walk.root?.toList else [])
  before := (shown.map (·.rows)).getD []

end Pass

namespace Comparison

variable (c : Comparison)

/-- Whether a row is new or differs in itself from the row at its place in the window before. -/
def rowChanged (r : PassRow) : Bool :=
  match c.before[r.row.place.view]? with
  | none => true
  | some old =>
    old.place != r.row.place || old.fingerprint != fingerprint r.row.record
      || old.editable != r.editable

/-- Whether all widgets of a row are rendered. -/
def rebuilds (r : PassRow) : Bool := c.reset || c.rowChanged r

/-- The template widgets that a row renders, or none given if it renders all. -/
def only (r : PassRow) : Option (List WidgetId) := if c.rebuilds r then none else some c.patch

end Comparison

def Pass.rendered (p : Pass) (c : Comparison) (r : PassRow) : List Instance :=
  p.instancesOf r.layout r.row.place r.row.record r.editable (c.only r)

end ListRepeater
