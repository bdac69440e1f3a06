import ListRepeater.Ancestry
import ListRepeater.Template.Field
import ListRepeater.Total
/-!
# Instances

An instance is the copy of a template widget in one row. The instances of the editable row go by
the ids of their template widgets; those of other rows by ids of their own, and are locked.
-/
namespace ListRepeater

/-- An editing ability that an instance is denied. -/
inductive Lock where
  | resize
  | propertyPane
  | drag
  | drop
  | collision
  deriving DecidableEq

def Lock.all : List Lock := [.resize, .propertyPane, .drag, .drop, .collision]

def Lock.name : Lock → String
  | .resize => "resize"
  | .propertyPane => "propertyPane"
  | .drag => "drag"
  | .drop => "drop"
  | .collision => "collision"

/-- The bit of a lock in a set of locks. -/
def Lock.bit : Lock → Nat
  | .resize => 1
  | .propertyPane => 2
  | .drag => 4
  | .drop => 8
  | .collision => 16

inductive ResizeHandle where
  | left
  | top
  | right
  | bottom
  | topLeft
  | topRight
  | bottomLeft
  | bottomRight
  deriving DecidableEq

def ResizeHandle.name : ResizeHandle → String
  | .left => "Left"
  | .top => "Top"
  | .right => "Right"
  | .bottom => "Bottom"
  | .topLeft => "TopLeft"
  | .topRight => "TopRight"
  | .bottomLeft => "BottomLeft"
  | .bottomRight => "BottomRight"

/-- The handles that a locked row is denied. The bottom one stays, so that the height of the row can
follow its content. -/
def ResizeHandle.denied : List ResizeHandle :=
  [.left, .top, .right, .bottomRight, .topLeft, .topRight, .bottomLeft]

structure Instance where
  id : WidgetId
  /-- The id of the slot, which the editable row does not show. -/
  slotId : WidgetId
  name : String
  templateId : WidgetId
  templateName : String
  kind : String
  parent : Option WidgetId
  children : List WidgetId
  rowIndex : Nat
  viewIndex : Nat
  item : Field
  /-- The view of the row as read from its container. -/
  view : Field
  ancestors : Keyed String AncestorView
  props : Keyed String Field
  locks : List Lock
  handles : List ResizeHandle
  level : Nat
  /-- What a nested list hands to its own repeater. -/
  ancestry : Option Ancestry
  /-- The stem of the ids that the repeater of a nested list mints. -/
  stem : Option WidgetId
  deriving DecidableEq

namespace Instance

/-- Whether the instance belongs to the editable row. -/
def isEditable (i : Instance) : Bool := i.id == i.templateId

def lockBits (i : Instance) : Nat := total (i.locks.map Lock.bit)

/-- Equality that sees neither the order of maps nor the sign of a zero. -/
def same (a b : Instance) : Bool :=
  a.id == b.id && a.slotId == b.slotId && a.name == b.name && a.templateId == b.templateId
    && a.templateName == b.templateName && a.kind == b.kind && a.parent == b.parent
    && a.children == b.children && a.rowIndex == b.rowIndex && a.viewIndex == b.viewIndex
    && a.item.same b.item && a.view.same b.view
    && a.ancestors.same (fun x y => x.item == y.item && x.index == y.index
      && x.view.same (fun s t => decide (s = t)) y.view) b.ancestors
    && a.props.same Field.same b.props && a.locks == b.locks && a.handles == b.handles
    && a.level == b.level && sameAncestry a.ancestry b.ancestry && a.stem == b.stem

end Instance

end ListRepeater
