import ListRepeater.Repeater.Comparison
import ListRepeater.SlotBook.Snapshot
/-!
# Repeaters

A repeater keeps the rows of one list in step with what it is asked to show. Each pass lays out the
window of the request, renders what differs from the pass before it and reports the instances that
are gone. Slots are acquired for the whole window before the slots of rows that are gone are
released, so no id changes rows within a pass. Lists nested in a row are left to repeaters of their
own.
-/
namespace ListRepeater

/-- What a pass brings forth: instances made or made anew, and instances that are gone. -/
structure Emission where
  instances : Keyed WidgetId Instance
  removed : List WidgetId
  deriving DecidableEq

def Emission.isEmpty (e : Emission) : Bool := e.instances.isEmpty && e.removed.isEmpty

structure Repeater where
  config : Config
  book : SlotBook
  /-- What is shown by the next pass. -/
  request : Option Request
  shown : Option Shown
  /-- Whether someone wants to know which rows a scrolling list covers. -/
  watched : Bool
  deriving DecidableEq

/-- The rows that a scrolling list covers: the first index and the index behind the last. -/
structure ScrollRange where
  start : Nat
  stop : Nat
  deriving DecidableEq

/-- The outcome of a pass. -/
structure Outcome where
  emission : Emission
  /-- What is stored for a later repeater of the same list. -/
  saved : Snapshot
  scroll : Option ScrollRange
  next : Repeater

namespace Repeater

/-- A repeater that goes on from stored ids, unless its list is a copy of the one they belong to. -/
def create (c : Config) (stored : Option Snapshot) : Repeater where
  config := c
  book :=
    match stored with
    | some s => if c.cloned then .empty c.stem else .ofSnapshot c.stem s
    | none => .empty c.stem
  request := none
  shown := none
  watched := false

def createEvents (c : Config) (stored : Option Snapshot) : List Event :=
  if stored.isSome && c.cloned then [.storedIdsIgnored c.listName] else []

def watch (r : Repeater) : Repeater := { r with watched := true }

def withRequest (r : Repeater) (q : Request) : Repeater := { r with request := some q }

/-- The request of the next pass, if it is valid. -/
def validRequest (r : Repeater) : Except RequestError Request :=
  match r.request with
  | none => .error .noRequest
  | some q =>
    match q.check with
    | .ok _ => .ok q
    | .error e => .error e

/-- The rows of a pass and the book after they were laid out. -/
def layOut (r : Repeater) (p : Pass) : List PassRow × SlotBook := p.layOutRows r.book p.windowRows

/-- Instances shown before that are shown no more, in the order they were shown. -/
def removed (shown : Option Shown) (rows : List ShownRow) : List WidgetId :=
  let live := rows.flatMap (·.instanceIds)
  let before := (shown.map fun s => s.rows.flatMap (·.instanceIds)).getD []
  (before.filter fun id => !live.contains id).eraseDups

/-- Slots of rows shown before that no row has now. -/
def vacated (shown : Option Shown) (rows : List ShownRow) : List Slot :=
  let live := rows.flatMap (·.slots)
  let before := (shown.map fun s => s.rows.flatMap (·.slots)).getD []
  before.filter fun k => !live.contains k

/-- What is remembered of a pass with these rows. -/
def remember (p : Pass) (rows : List ShownRow) : Shown where
  pageNo := p.request.pageNo
  listName := p.listName
  ancestry := p.request.ancestry
  mount := p.request.mount
  root := p.request.root
  template := p.request.template
  walk := p.walk
  shape := p.shape
  rows := rows

/-- The pass over a valid request. -/
def run (r : Repeater) (q : Request) : Outcome :=
  let p := Pass.ofRequest r.config q
  let laid := r.layOut p
  let rows := laid.1.map p.shownRow
  let instances := laid.1.flatMap (p.rendered (p.compare r.shown))
  let book := laid.2.releaseAll (vacated r.shown rows)
  { emission :=
      { instances := .ofList (instances.map fun i => (i.id, i))
        removed := removed r.shown rows }
    saved := book.snapshot
    scroll :=
      if p.scrolls && r.watched then some ⟨p.firstIndex, p.firstIndex + rows.length⟩ else none
    next := { r with book := book, shown := some (remember p rows) } }

/-- Brings the rows in step with the request. An invalid request changes nothing. -/
def advance (r : Repeater) : Except RequestError Outcome := r.validRequest.map r.run

/-- The index across pages of the first row of the page. -/
def firstIndex (r : Repeater) : Except RequestError Nat :=
  match r.request with
  | none => .error .noRequest
  | some q => .ok (Pass.ofRequest r.config q).firstIndex

def shownRows (r : Repeater) : List ShownRow := (r.shown.map (·.rows)).getD []

/-- The slot ids of the row containers that are shown. -/
def containerIds (r : Repeater) : List WidgetId := r.shownRows.map (·.containerId)

def containerNames (r : Repeater) : List String := r.shownRows.map (·.containerName)

/-- The instances that are shown, row by row. -/
def shownIds (r : Repeater) : List WidgetId := r.shownRows.flatMap (·.instanceIds)

end Repeater

end ListRepeater
