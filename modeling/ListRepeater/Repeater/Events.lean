import ListRepeater.Repeater.Basic
/-!
# What a pass notes

The events of a pass in order: those of the walk, a template baseline that was not the one shown,
then row by row a key that was taken, the ids that its slots got, whether the row is rendered anew
and the levels its bindings asked for in vain, and last the counts of the pass.
-/
namespace ListRepeater

namespace SlotBook

/-- What is noted while the slots get their ids one after the other. -/
def acquireAllEvents (b : SlotBook) : List Slot → List Event
  | [] => []
  | k :: rest => b.acquireEvents k ++ (b.acquire k).acquireAllEvents rest

end SlotBook

namespace Walk

def events (t : Template) (root : WidgetId) (w : Walk) : List Event :=
  if t.contains root then w.skipped.map .childMissing else [.rootMissing root]

end Walk

namespace Pass

variable (p : Pass)

def baselineEvents (shown : Option Shown) : List Event :=
  match shown with
  | none => []
  | some s =>
    if !p.request.baseline.isEmpty && !Template.same p.request.baseline s.template then
      [.otherBaseline p.listName]
    else []

def rowEvents (c : Comparison) (r : PassRow) : List Event :=
  (if r.row.given ≠ r.row.place.key then
    [.duplicateKey p.listName r.row.given r.row.place.view] else [])
    ++ r.book.acquireAllEvents r.layout.slots
    ++ (if c.rebuilds r then [.rowRebuilt p.listName r.row.place] else [])
    ++ p.renderEvents r.layout r.row.place r.row.record r.editable (c.only r)

end Pass

namespace Repeater

def runEvents (r : Repeater) (q : Request) : List Event :=
  let p := Pass.ofRequest r.config q
  let c := p.compare r.shown
  let rows := (r.layOut p).1
  let e := (r.run q).emission
  Walk.events q.template q.root p.walk
    ++ p.baselineEvents r.shown
    ++ rows.flatMap (p.rowEvents c)
    ++ [.passDone
      { list := p.listName
        rows := rows.length
        rebuilt := (rows.filter c.rebuilds).length
        reset := c.reset
        changes := c.changed.length
        generated := e.instances.size
        removed := e.removed.length }]

/-- What `advance` notes; nothing if the request is not valid. -/
def advanceEvents (r : Repeater) : List Event :=
  match r.validRequest with
  | .ok q => r.runEvents q
  | .error _ => []

end Repeater

end ListRepeater
