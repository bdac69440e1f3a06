import ListRepeater.Keyed
/-!
# Exposed properties

Which properties of a widget bindings may see depends on its kind. An exposure lists them by kind;
registering a kind again replaces its list.
-/
namespace ListRepeater

structure Exposure where
  byKind : Keyed String (List String)
  deriving DecidableEq

namespace Exposure

def empty : Exposure := ⟨.empty⟩

def register (x : Exposure) (kind : String) (properties : List String) : Exposure :=
  ⟨x.byKind.insert kind properties⟩

def properties (x : Exposure) (kind : String) : List String := (x.byKind.find? kind).getD []

/-- The pairs `property: Name.property` of a widget, joined by commas. -/
def listing (x : Exposure) (kind name : String) : String :=
  ",".intercalate ((x.properties kind).map fun p => p ++ ": " ++ name ++ "." ++ p)

/-- The kinds that every list knows. -/
def standard : Exposure :=
  [("CANVAS_WIDGET", []),
   ("CONTAINER_WIDGET", ["backgroundColor", "isVisible"]),
   ("TEXT_WIDGET", ["isVisible", "text"]),
   ("IMAGE_WIDGET", ["image", "isVisible"]),
   ("BUTTON_WIDGET", ["isVisible", "text", "isDisabled"]),
   ("INPUT_WIDGET_V2", ["isValid", "isVisible", "isDisabled", "text", "inputText"]),
   ("CHECKBOX_WIDGET", ["isChecked", "isVisible", "isDisabled"]),
   ("LIST_WIDGET_V2", ["backgroundColor", "isVisible", "itemSpacing", "selectedItem",
     "selectedItemView", "triggeredItemView", "items", "listData", "pageNo", "pageSize",
     "selectedItemIndex", "triggeredItemIndex"])].foldl (fun x e => x.register e.1 e.2) empty

end Exposure

/-- The object literal of named listings, each in braces of its own. -/
def viewText (listings : List (String × String)) : String :=
  "\x7b " ++ ", ".intercalate (listings.map fun e => e.1 ++ ": \x7b " ++ e.2 ++ " \x7d") ++ " \x7d"

/-- A text in double braces. -/
def mustache (text : String) : String := "\x7b\x7b" ++ text ++ "\x7d\x7d"

end ListRepeater
