import ListRepeater.Repeater.RowLayout
/-!
# Rendering a row

Rendering makes the instances of a row that is laid out, all of them or only those of some template
widgets. Every instance is a function of the layout, the place and record of the row and what the
rows of the pass share.
-/
namespace ListRepeater.Pass

variable (p : Pass)

/-- How the widgets of a row speak of its record. The editable row holds the record itself. -/
def item (place : Place) (record : Json) (editable : Bool) : RowItem :=
  if editable then .value record else .position p.listName place.record

def scope (l : RowLayout) (place : Place) (record : Json) (editable : Bool) : Scope where
  place := place
  item := p.item place record editable
  names := l.names
  view := l.view
  ancestry := p.request.ancestry

/-- The row as the lists nested in it see it. -/
def ancestorRow (l : RowLayout) (place : Place) (record : Json) : AncestorRow where
  index := place.index
  item := mustache (RowItem.expression (.position p.listName place.record))
  widgets := .ofList (l.widgets.map fun w =>
    (w.node.name,
      { exposed := p.config.exposure.listing w.node.kind w.name
        rowIndex := place.index
        viewIndex := place.view
        instanceId := w.instanceId
        instanceName := w.name
        templateId := w.templateId
        templateName := w.node.name
        kind := w.node.kind }))
  completion := ⟨record, l.viewBinding⟩

/-- What the lists nested in a row know of the rows around them. -/
def nestedAncestry (l : RowLayout) (place : Place) (record : Json) : Ancestry :=
  .extend p.request.ancestry p.config.level (p.ancestorRow l place record)

def ancestorViews : Keyed String AncestorView := (p.request.ancestry.map Ancestry.views).getD .empty

def isContainer (w : RowWidget) : Bool := p.walk.root? == some w.templateId

/-- Whether the widget is a list of its own. -/
def isNestedList (w : RowWidget) : Bool := p.walk.isStop w.templateId

/-- The parent of an instance: where the rows are mounted for the container, for any other widget
the instance of its authored parent, or that parent itself if it is not in the row. -/
def parentOf (l : RowLayout) (w : RowWidget) : Option WidgetId :=
  if p.isContainer w then some p.request.mount
  else w.node.parent.map fun id => (l.instanceId? id).getD id

/-- The children of an instance that are in the row; a nested list keeps its authored ones. -/
def childrenOf (l : RowLayout) (w : RowWidget) : List WidgetId :=
  if p.isNestedList w then w.node.children else w.node.children.filterMap l.instanceId?

/-- The localized props. The row container also holds the view of the row, under `data`. -/
def propsOf (l : RowLayout) (scope : Scope) (w : RowWidget) : Keyed String Field :=
  let props := w.node.props.map fun _ v => Binding.localizeField scope v
  if p.isContainer w then props.insert "data" (.binding (mustache (" " ++ l.view ++ " "))) else props

def locksOf (editable : Bool) (w : RowWidget) : List Lock :=
  if editable then if p.isContainer w then [.drag] else [] else Lock.all

def instanceOf (l : RowLayout) (place : Place) (record : Json) (editable : Bool) (w : RowWidget) :
    Instance where
  id := w.instanceId
  slotId := w.slotId
  name := w.name
  templateId := w.templateId
  templateName := w.node.name
  kind := w.node.kind
  parent := p.parentOf l w
  children := p.childrenOf l w
  rowIndex := place.index
  viewIndex := place.view
  item := (p.item place record editable).toField
  view := .binding l.viewBinding
  ancestors := p.ancestorViews
  props := p.propsOf l (p.scope l place record editable) w
  locks := p.locksOf editable w
  handles := if editable then [] else ResizeHandle.denied
  level := if p.isNestedList w then p.config.level + 1 else p.config.level
  ancestry := if p.isNestedList w then some (p.nestedAncestry l place record) else none
  stem := if p.isNestedList w then some w.slotId else none

/-- The widgets with a template id in `only`, or all widgets. -/
def widgetsIn (l : RowLayout) (only : Option (List WidgetId)) : List RowWidget :=
  match only with
  | none => l.widgets
  | some ids => l.widgets.filter fun w => ids.contains w.templateId

/-- The instances of a row, of the template widgets in `only` or of all. -/
def instancesOf (l : RowLayout) (place : Place) (record : Json) (editable : Bool)
    (only : Option (List WidgetId)) : List Instance :=
  (widgetsIn l only).map (p.instanceOf l place record editable)

/-- What is noted while those instances are made. -/
def renderEvents (l : RowLayout) (place : Place) (record : Json) (editable : Bool)
    (only : Option (List WidgetId)) : List Event :=
  (widgetsIn l only).flatMap fun w =>
    w.node.props.values.flatMap fun v =>
      (Binding.missingLevelsField (p.scope l place record editable) v).map Event.levelMissing

end ListRepeater.Pass
