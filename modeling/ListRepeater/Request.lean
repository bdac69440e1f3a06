import ListRepeater.Ancestry
import ListRepeater.Template.Node
/-!
# What a list is asked to show

A `Config` is fixed for the life of a repeater. A `Request` is a full description of what the list
shows now: its records with their keys, the page, the template of a row and the rows around the
list. A valid request has positive pages and one key for each record; the window of a valid request
is a range of its records.
-/
namespace ListRepeater

/-- A list is edited on a canvas, where the first row of a page stays editable, or shown on a
page. -/
inductive Mode where
  | canvas
  | page
  deriving DecidableEq

structure Config where
  /-- The depth of nesting, one for an outermost list. -/
  level : Nat
  mode : Mode
  /-- The stem of minted ids. -/
  stem : String
  /-- The kind of widget that repeats rows itself. -/
  listKind : String
  /-- The name of the list when a request gives none. -/
  listName : String
  scrolls : Bool
  /-- The list is a copy, so stored ids belong to another list. -/
  cloned : Bool
  exposure : Exposure
  deriving DecidableEq

def Config.standard : Config where
  level := 1
  mode := .canvas
  stem := "meta"
  listKind := "LIST_WIDGET_V2"
  listName := "List1"
  scrolls := false
  cloned := false
  exposure := .standard

inductive RequestError where
  | noRequest
  | emptyPages
  | pageZero
  | keyCount (keys rows : Nat)
  deriving DecidableEq

def RequestError.message : RequestError → String
  | .noRequest => "generate called before any options were supplied"
  | .emptyPages => "page size must be positive"
  | .pageZero => "page numbers start at 1"
  | .keyCount keys rows =>
    decimal keys ++ " primary keys supplied for " ++ decimal rows ++ " rows"

structure Request where
  records : List Json
  keys : List RowKey
  pageNo : Nat
  pageSize : Nat
  /-- The records are those of the page alone. -/
  serverPaged : Bool
  scrolls : Bool
  template : Template
  /-- The template that was last committed as rendered. -/
  baseline : Template
  /-- The canvas that holds the row containers. -/
  mount : WidgetId
  /-- The row container of the template. -/
  root : WidgetId
  itemSpacing : Binary64
  bottomRow : Binary64
  ancestry : Option Ancestry
  listName : String
  deriving DecidableEq

namespace Request

/-- A request for nothing yet: no records, the first page, one row a page. -/
def blank (listName : String) (mount root : WidgetId) (template : Template) : Request where
  records := []
  keys := []
  pageNo := 1
  pageSize := 1
  serverPaged := false
  scrolls := false
  template := template
  baseline := .empty
  mount := mount
  root := root
  itemSpacing := default
  bottomRow := default
  ancestry := none
  listName := listName

/-- The keys of records: the value under `field`, or the position of a record without it. -/
def keysBy (field : String) (records : List Json) : List RowKey :=
  records.zipIdx.map fun e =>
    match e.1.get? field with
    | some v => .ofJson v
    | none => .ofNat e.2

def withKeyedRecords (r : Request) (field : String) (records : List Json) : Request :=
  { r with records := records, keys := keysBy field records }

/-- Takes the template as the one that was rendered. -/
def commit (r : Request) : Request := { r with baseline := r.template }

def check (r : Request) : Except RequestError Unit :=
  if r.pageSize = 0 then .error .emptyPages
  else if r.pageNo = 0 then .error .pageZero
  else if r.keys.length ≠ r.records.length then .error (.keyCount r.keys.length r.records.length)
  else .ok ()

/-- The index across pages of the first row that is shown. -/
def firstIndex (r : Request) (infinite : Bool) : Nat :=
  if infinite then 0 else (r.pageNo - 1) * r.pageSize

/-- The records that are shown: the position of the first and the position behind the last. -/
def window (r : Request) (infinite : Bool) : Nat × Nat :=
  let size := r.records.length
  if infinite then (0, size)
  else
    let start := if r.serverPaged then 0 else min (r.firstIndex false) size
    (start, min (start + r.pageSize) size)

end Request

end ListRepeater
