import ListRepeater.Template.Node
import ListRepeater.Total
/-!
# Walking a template

A walk visits the nodes one row is made of: depth first from the root, each node once, children in
their order. A node of the stop kind other than the root is visited, but what is below it is left to
the list that it stands for. References to missing nodes are passed over and noted.
-/
namespace ListRepeater

/-- The visited nodes and the stops are kept twice: as lists in the order of the visits, and as sets
that answer which ids are among them. -/
structure Walk where
  order : List WidgetId
  stops : List WidgetId
  skipped : List WidgetId
  members : Keyed WidgetId Unit
  stopMembers : Keyed WidgetId Unit
  members_iff : ∀ id, members.contains id = true ↔ id ∈ order
  stopMembers_iff : ∀ id, stopMembers.contains id = true ↔ id ∈ stops
  deriving DecidableEq

namespace Walk

/-- A set that agrees with a list still does when both get one more id. -/
theorem insert_iff {ids : Keyed WidgetId Unit} {listed : List WidgetId}
    (agree : ∀ id, ids.contains id = true ↔ id ∈ listed) (new id : WidgetId) :
    (ids.insert new ()).contains id = true ↔ id ∈ listed ++ [new] := by
  rw [List.mem_append, List.mem_singleton, ← agree id, Keyed.contains, Keyed.contains,
    Keyed.find?_insert]
  by_cases same : new = id
  · simp [same]
  · have other : ¬id = new := fun e => same e.symm
    simp [same, other]

def empty : Walk := ⟨[], [], [], .empty, .empty, by simp [Keyed.contains], by simp [Keyed.contains]⟩

def root? (w : Walk) : Option WidgetId := w.order.head?

def contains (w : Walk) (id : WidgetId) : Bool := w.members.contains id

def isStop (w : Walk) (id : WidgetId) : Bool := w.stopMembers.contains id

def visit (w : Walk) (id : WidgetId) : Walk :=
  { w with
    order := w.order ++ [id]
    members := w.members.insert id ()
    members_iff := insert_iff w.members_iff id }

def stopAt (w : Walk) (id : WidgetId) : Walk :=
  { w with
    stops := w.stops ++ [id]
    stopMembers := w.stopMembers.insert id ()
    stopMembers_iff := insert_iff w.stopMembers_iff id }

def skip (w : Walk) (id : WidgetId) : Walk := { w with skipped := w.skipped ++ [id] }

theorem contains_iff (w : Walk) (id : WidgetId) : w.contains id = true ↔ id ∈ w.order :=
  w.members_iff id

theorem not_contains_iff (w : Walk) (id : WidgetId) : ¬w.contains id = true ↔ id ∉ w.order :=
  not_congr (w.contains_iff id)

theorem isStop_iff (w : Walk) (id : WidgetId) : w.isStop id = true ↔ id ∈ w.stops :=
  w.stopMembers_iff id

/-- The work that an entry can still cause: a visit and its references to children. -/
def pending (order : List WidgetId) (e : WidgetId × Node) : Nat :=
  if e.1 ∈ order then 0 else e.2.children.length + 1

def weight (t : Template) (order : List WidgetId) : Nat := total (t.entries.map (pending order))

theorem pending_append_le (order : List WidgetId) (id : WidgetId) (e : WidgetId × Node) :
    pending (order ++ [id]) e ≤ pending order e := by
  by_cases h : e.1 ∈ order
  · simp [pending, h]
  · by_cases h' : e.1 = id <;> simp [pending, h, h']

theorem total_pending_append_le (order : List WidgetId) (id : WidgetId)
    (es : List (WidgetId × Node)) :
    total (es.map (pending (order ++ [id]))) ≤ total (es.map (pending order)) := by
  induction es with
  | nil => simp
  | cons e rest ih =>
    have := pending_append_le order id e
    simp only [List.map_cons, total_cons]
    omega

theorem total_pending_append {es : List (WidgetId × Node)} {order : List WidgetId} {id : WidgetId}
    {n : Node} (hn : Entries.find? id es = some n) (hw : id ∉ order) :
    total (es.map (pending (order ++ [id]))) + n.children.length + 1
      ≤ total (es.map (pending order)) := by
  induction es with
  | nil => simp [Entries.find?] at hn
  | cons e rest ih =>
    simp only [List.map_cons, total_cons]
    by_cases h : e.1 = id
    · simp only [Entries.find?, h, if_true, Option.some.injEq] at hn
      have hr := total_pending_append_le order id rest
      have hp : pending (order ++ [id]) e = 0 := by simp [pending, h]
      have hq : pending order e = n.children.length + 1 := by simp [pending, h, hw, hn]
      omega
    · simp only [Entries.find?, h, if_false] at hn
      have hr := ih hn
      have hp := pending_append_le order id e
      omega

/-- A visit pays for the references that it puts on the stack. -/
theorem weight_append {t : Template} {order : List WidgetId} {id : WidgetId} {n : Node}
    (hn : t.find? id = some n) (hw : id ∉ order) :
    weight t (order ++ [id]) + n.children.length + 1 ≤ weight t order :=
  total_pending_append hn hw

/-- Visits the nodes on the stack, the top first. Each entry tells whether it is the root. -/
def run (t : Template) (stop : Node → Bool) (stack : List (WidgetId × Bool)) (w : Walk) : Walk :=
  match stack with
  | [] => w
  | (id, isRoot) :: rest =>
    match _hn : t.find? id with
    | none => run t stop rest (w.skip id)
    | some n =>
      if _hw : w.contains id then run t stop rest w
      else if !isRoot && stop n then run t stop rest ((w.visit id).stopAt id)
      else run t stop (n.children.map (·, false) ++ rest) (w.visit id)
  termination_by stack.length + weight t w.order
  decreasing_by
    · simp [skip]
    · simp
    · have := weight_append _hn ((w.not_contains_iff id).mp _hw)
      simp only [stopAt, visit, List.length_cons]
      omega
    · have := weight_append _hn ((w.not_contains_iff id).mp _hw)
      simp only [visit, List.length_append, List.length_map, List.length_cons]
      omega

end Walk

/-- The walk of `t` from `root`; it is empty when the root is missing. -/
def walk (t : Template) (root : WidgetId) (stop : Node → Bool) : Walk :=
  if t.contains root then Walk.run t stop [(root, true)] .empty else .empty

end ListRepeater
