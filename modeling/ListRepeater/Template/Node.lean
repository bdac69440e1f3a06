import ListRepeater.Id
import ListRepeater.Json.Decoder
import ListRepeater.Template.Field
/-!
# Templates

A template holds the authored widgets of one row, each under an id and in authoring order. Nodes
refer to each other by id, and nothing keeps an authored tree from naming widgets that are missing
or from running in circles.

As JSON a node is an object with the members `widgetId`, `widgetName`, `type`, `parentId` and
`children`; all other members are its props. A parent or child list that is absent or empty is left
out when written.
-/
namespace ListRepeater

structure Node where
  id : WidgetId
  name : String
  kind : String
  parent : Option WidgetId
  children : List WidgetId
  props : Keyed String Field
  deriving DecidableEq, Inhabited

abbrev Template := Keyed WidgetId Node

namespace Node

/-- A node without parent, children and props. -/
def plain (id : WidgetId) (name kind : String) : Node := ⟨id, name, kind, none, [], .empty⟩

def setProp (n : Node) (key : String) (value : Field) : Node :=
  { n with props := n.props.insert key value }

/-- Equality that sees neither the order of the props nor the sign of a zero. -/
def same (a b : Node) : Bool :=
  a.id == b.id && a.name == b.name && a.kind == b.kind && a.parent == b.parent
    && a.children == b.children && a.props.same Field.same b.props

/-- What an object with the members of a node holds. All members without a meaning of their own are
props. -/
def shape : Json.Shape Node where
  start := default
  members :=
    [⟨"widgetId", Json.Decoder.string.map fun s n => { n with id := ⟨s⟩ }⟩,
     ⟨"widgetName", Json.Decoder.string.map fun s n => { n with name := s }⟩,
     ⟨"type", Json.Decoder.string.map fun s n => { n with kind := s }⟩,
     ⟨"parentId", (Json.Decoder.optional .string).map fun s n =>
       { n with parent := s.map WidgetId.mk }⟩,
     ⟨"children", (Json.Decoder.list .string).map fun ss n =>
       { n with children := ss.map WidgetId.mk }⟩]
  needed := ["widgetId", "widgetName", "type"]
  other key := Json.Decoder.tree.map fun v n => n.setProp key (Field.ofJson v.normalize)

def toJson (n : Node) : Json :=
  .obj ([("widgetId", .str n.id.text), ("widgetName", .str n.name), ("type", .str n.kind)]
    ++ (n.parent.map fun p => ("parentId", Json.str p.text)).toList
    ++ (if n.children.isEmpty then [] else
      [("children", .arr (n.children.map fun c => .str c.text))])
    ++ n.props.entries.map fun e => (e.1, e.2.toJson))

end Node

namespace Template

/-- The template that holds each node under its own id. -/
def ofNodes (nodes : List Node) : Template := .ofList (nodes.map fun n => (n.id, n))

def put (t : Template) (n : Node) : Template := t.insert n.id n

def same (a b : Template) : Bool := Keyed.same Node.same a b

def decoder : Json.Decoder Template := .keyed WidgetId.mk (.object Node.shape)

def toJson (t : Template) : Json := .obj (t.entries.map fun e => (e.1.text, e.2.toJson))

def read (text : String) : Except Fault Template := decoder.read text

end Template

end ListRepeater
