import ListRepeater.Request
/-!
# Sample lists

Two lists to try a repeater on: a row with an image, two texts and an input, and a row that holds a
list of its own.
-/
namespace ListRepeater.Sample

/-- The ids that place a row template in a list. -/
structure ListSample where
  mount : WidgetId
  root : WidgetId
  template : Template

def container : WidgetId := ⟨"lneohookgm"⟩
def simpleMount : WidgetId := ⟨"l9v6x3nt8s"⟩
def simpleCanvas : WidgetId := ⟨"qpgtpiw3cu"⟩
def simpleImage : WidgetId := ⟨"epowimtfiu"⟩
def firstText : WidgetId := ⟨"9qcijo7ri3"⟩
def secondText : WidgetId := ⟨"25x15bnona"⟩
def input : WidgetId := ⟨"2qz9v3l5hx"⟩

/-- A node with its children under a parent. -/
def node (id parent : WidgetId) (name kind : String) (children : List WidgetId) : Node :=
  { Node.plain id name kind with parent := some parent, children := children }

/-- A node with a prop that holds a text, which is a binding if it has a segment. -/
def withText (n : Node) (key text : String) : Node := n.setProp key (Field.ofJson (.str text))

def simple : ListSample where
  mount := simpleMount
  root := container
  template := .ofNodes
    [withText (node container simpleMount "Container1" "CONTAINER_WIDGET" [simpleCanvas])
      "backgroundColor" "white",
     node simpleCanvas container "Canvas1" "CANVAS_WIDGET"
      [simpleImage, firstText, secondText, input],
     withText (node simpleImage simpleCanvas "Image1" "IMAGE_WIDGET" [])
      "image" (mustache "currentItem.img"),
     withText (node firstText simpleCanvas "Text1" "TEXT_WIDGET" [])
      "text" (mustache "currentItem.name"),
     withText (node secondText simpleCanvas "Text2" "TEXT_WIDGET" [])
      "text" (mustache "currentItem.id"),
     withText (node input simpleCanvas "Input1" "INPUT_WIDGET_V2" [])
      "defaultText" (mustache "currentView.Text1.text")]

def nestedMount : WidgetId := ⟨"h6x2w0mqcm"⟩
def nestedCanvas : WidgetId := ⟨"qpgtpiw3cu"⟩
def nestedImage : WidgetId := ⟨"623fj7t7ld"⟩
def innerList : WidgetId := ⟨"fs2d2lqjgd"⟩
def innerMount : WidgetId := ⟨"gkzg4fg1r5"⟩
def innerContainer : WidgetId := ⟨"ch4ob7e1ku"⟩
def innerCanvas : WidgetId := ⟨"8bnrxy0hs2"⟩
def innerFirstText : WidgetId := ⟨"7xkm2b7d8e"⟩
def innerSecondText : WidgetId := ⟨"q8e2zhxsdb"⟩
def innerImage : WidgetId := ⟨"pjx5gl1sjq"⟩

def nested : ListSample where
  mount := nestedMount
  root := container
  template := .ofNodes
    [node container nestedMount "Container1" "CONTAINER_WIDGET" [nestedCanvas],
     node nestedCanvas container "Canvas2" "CANVAS_WIDGET"
      [nestedImage, firstText, secondText, innerList],
     withText (node nestedImage nestedCanvas "Image1" "IMAGE_WIDGET" [])
      "image" (mustache "currentItem.img"),
     withText (node firstText nestedCanvas "Text1" "TEXT_WIDGET" [])
      "text" (mustache "currentItem.name"),
     withText (node secondText nestedCanvas "Text2" "TEXT_WIDGET" [])
      "text" (mustache "currentIndex"),
     withText (withText (node innerList nestedCanvas "List6" "LIST_WIDGET_V2" [innerMount])
      "mainCanvasId" innerMount.text) "mainContainerId" innerContainer.text,
     node innerMount innerList "Canvas1" "CANVAS_WIDGET" [innerContainer],
     node innerContainer innerMount "Container2" "CONTAINER_WIDGET" [innerCanvas],
     node innerCanvas innerContainer "Canvas3" "CANVAS_WIDGET"
      [innerFirstText, innerSecondText, innerImage],
     withText (node innerFirstText innerCanvas "Text4" "TEXT_WIDGET" [])
      "text" (mustache "level_1.currentItem.name"),
     withText (node innerSecondText innerCanvas "Text5" "TEXT_WIDGET" [])
      "text" (mustache "currentIndex" ++ ": " ++ mustache "level_1.currentView.Text1.text"),
     withText (node innerImage innerCanvas "Image2" "IMAGE_WIDGET" [])
      "image" (mustache "currentItem.img")]

/-- The list inside the rows of `nested`. -/
def inner : ListSample := ⟨innerMount, innerContainer, nested.template⟩

/-- A button that is dropped onto the canvas of a row. -/
def button (id parent : WidgetId) : Node :=
  withText (node id parent "Button1" "BUTTON_WIDGET" []) "text"
    ("Open " ++ mustache "currentItem.name")

def person (id : Nat) (name : String) : Json := .obj [("id", .int id), ("name", .str name)]

def records : List Json := [person 1 "Blue", person 2 "Pink", person 3 "Black", person 4 "White"]

/-- Keys from the column `id`; a record without it is keyed by null. -/
def idKeys (records : List Json) : List RowKey :=
  records.map fun r => RowKey.ofJson ((r.get? "id").getD .null)

/-- What the list inside the first row of `nested` knows of that row. -/
def levelOne : Ancestry :=
  let shown := [container, nestedCanvas, nestedImage, firstText, secondText, innerList]
  .extend none 1
    { index := 0
      item := mustache "List1.listData[0]"
      widgets := .ofList (shown.filterMap fun id =>
        (nested.template.find? id).map fun n =>
          (n.name,
            { exposed := Exposure.standard.listing n.kind n.name
              rowIndex := 0
              viewIndex := 0
              instanceId := n.id
              instanceName := n.name
              templateId := n.id
              templateName := n.name
              kind := n.kind }))
      completion := ⟨person 1 "Blue", mustache "Container1.data"⟩ }

end ListRepeater.Sample
