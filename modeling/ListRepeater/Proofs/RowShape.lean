import ListRepeater.Proofs.FullRender
import ListRepeater.Proofs.ScopeAgreement
/-!
# Rows of the same shape

The layout of a row depends on the ids, names and kinds of its nodes and on nothing else of them. So
rows at the same place are laid out alike by passes of the same shape.
-/
namespace ListRepeater

theorem Node.same_iff {a b : Node} : a.same b = true ↔
    a.id = b.id ∧ a.name = b.name ∧ a.kind = b.kind ∧ a.parent = b.parent ∧
      a.children = b.children ∧ a.props.same Field.same b.props = true := by
  simp only [Node.same, Bool.and_eq_true, beq_iff_eq, and_assoc]

theorem Node.same_refl (a : Node) : a.same a = true :=
  same_iff.mpr ⟨rfl, rfl, rfl, rfl, rfl, Keyed.same_refl Field.same_refl _⟩

/-- Each node is found under its own id. -/
def Template.OwnKeyed (t : Template) : Prop := ∀ id n, t.find? id = some n → n.id = id

theorem Template.ownKeyed_iff {t : Template} : t.OwnKeyed ↔ ∀ e ∈ t.entries, e.2.id = e.1 := by
  constructor
  · intro own e he
    exact own e.1 e.2 ((Keyed.find?_eq_some_iff t e.1 e.2).mpr he)
  · intro h id n found
    exact h (id, n) ((Keyed.find?_eq_some_iff t id n).mp found)

/-- The entries of its templates tell whether a run keeps each node under its own id. -/
theorem Call.ownKeyed_of_entries {calls : List Call}
    (h : ∀ q ∈ calls.filterMap request?, ∀ e ∈ q.template.entries, e.2.id = e.1) :
    ∀ q, .options q ∈ calls → q.template.OwnKeyed :=
  forall_options_iff.mpr fun q hq => Template.ownKeyed_iff.mpr (h q hq)

/-- The widget with nothing left of its node but id, name and kind. -/
def RowWidget.plain (w : RowWidget) : RowWidget :=
  { w with node := .plain w.node.id w.node.name w.node.kind }

namespace RowLayout

/-- Layouts that tell the same of their widgets. -/
structure Alike (l l' : RowLayout) : Prop where
  widgets : l.widgets.map RowWidget.plain = l'.widgets.map RowWidget.plain
  names : l.names = l'.names
  view : l.view = l'.view
  viewBinding : l.viewBinding = l'.viewBinding
  instanceId? : ∀ id, l.instanceId? id = l'.instanceId? id

section Plain

variable (exposure : Exposure) (root : Option WidgetId) (ws : List RowWidget)

theorem widget?_plain (id : WidgetId) :
    (ofWidgets exposure root (ws.map RowWidget.plain)).widget? id =
      ((ofWidgets exposure root ws).widget? id).map RowWidget.plain := by
  simp only [widget?, ofWidgets, List.find?_map]
  rfl

theorem names_plain : (ofWidgets exposure root (ws.map RowWidget.plain)).names =
    (ofWidgets exposure root ws).names := by
  simp only [ofWidgets, List.map_map]
  rfl

theorem view_plain : (ofWidgets exposure root (ws.map RowWidget.plain)).view =
    (ofWidgets exposure root ws).view := by
  simp only [ofWidgets, List.filter_map, List.map_map]
  rfl

theorem instanceId?_plain (id : WidgetId) :
    (ofWidgets exposure root (ws.map RowWidget.plain)).instanceId? id =
      (ofWidgets exposure root ws).instanceId? id := by
  rw [instanceId?, instanceId?, widget?_plain, Option.map_map]
  rfl

theorem viewBinding_plain : (ofWidgets exposure root (ws.map RowWidget.plain)).viewBinding =
    (ofWidgets exposure root ws).viewBinding := by
  have container : ((ofWidgets exposure root (ws.map RowWidget.plain)).container?).map (·.name) =
      ((ofWidgets exposure root ws).container?).map (·.name) := by
    cases root with
    | none => rfl
    | some id =>
      have plain := widget?_plain exposure (some id) ws id
      simp only [container?]
      rw [show (ofWidgets exposure (some id) (ws.map RowWidget.plain)).root = some id from rfl,
        show (ofWidgets exposure (some id) ws).root = some id from rfl, Option.bind_some,
        Option.bind_some, plain, Option.map_map]
      rfl
  rw [viewBinding, viewBinding, container]

end Plain

theorem alike_ofWidgets {exposure : Exposure} {root : Option WidgetId} {ws ws' : List RowWidget}
    (h : ws.map RowWidget.plain = ws'.map RowWidget.plain) :
    (ofWidgets exposure root ws).Alike (ofWidgets exposure root ws') where
  widgets := h
  names := by rw [← names_plain exposure root ws, h, names_plain]
  view := by rw [← view_plain exposure root ws, h, view_plain]
  viewBinding := by rw [← viewBinding_plain exposure root ws, h, viewBinding_plain]
  instanceId? := fun id => by rw [← instanceId?_plain exposure root ws, h, instanceId?_plain]

end RowLayout

namespace Pass

section Shape

variable {p : Pass} {b : SlotBook}

/-- The plain widget of a node with this id, name and kind. -/
def plainWidget (row : RowKey) (editable : Bool) (b : SlotBook) (s : WidgetId × String × String) :
    RowWidget :=
  .make row editable (b.idOf ⟨row, s.1⟩) (s.1, .plain s.1 s.2.1 s.2.2)

theorem own_id (own : p.request.template.OwnKeyed) {e : WidgetId × Node} (he : e ∈ p.nodes) :
    e.2.id = e.1 :=
  own e.1 e.2 (p.mem_nodes_iff.mp he).2

theorem order_eq_shape {c : Config} {q : Request} (own : q.template.OwnKeyed) :
    (ofRequest c q).walk.order = (ofRequest c q).shape.map (·.1) := by
  rw [← map_fst_nodes, shape, List.map_map]
  apply List.map_congr_left
  intro e he
  exact (own_id own he).symm

theorem plain_layoutIn (own : p.request.template.OwnKeyed) (row : WindowRow) :
    (p.layoutIn b row).widgets.map RowWidget.plain =
      p.shape.map (plainWidget row.place.key (p.isEditable row) b) := by
  have widgets : (p.layoutIn b row).widgets = (p.rowCells row).map (p.widgetIn b) := rfl
  rw [widgets, rowCells, shape, List.map_map, List.map_map, List.map_map]
  apply List.map_congr_left
  intro e he
  simp only [Function.comp_apply, widgetIn, Cell.slot, plainWidget, RowWidget.plain, RowWidget.make,
    Node.plain, own_id own he]

end Shape

variable {c : Config} {q₀ q : Request} {b₀ b : SlotBook}

/-- Rows at the same place in passes of the same shape are laid out alike. -/
theorem layoutIn_alike (own₀ : q₀.template.OwnKeyed) (own : q.template.OwnKeyed)
    (shape : (ofRequest c q₀).shape = (ofRequest c q).shape) {row₀ row : WindowRow}
    (key : row₀.place.key = row.place.key)
    (editable : (ofRequest c q₀).isEditable row₀ = (ofRequest c q).isEditable row)
    (slots : ∀ id ∈ (ofRequest c q).walk.order,
      b₀.get? ⟨row.place.key, id⟩ = b.get? ⟨row.place.key, id⟩) :
    ((ofRequest c q₀).layoutIn b₀ row₀).Alike ((ofRequest c q).layoutIn b row) := by
  have order : (ofRequest c q₀).walk.order = (ofRequest c q).walk.order := by
    rw [order_eq_shape own₀, order_eq_shape own, shape]
  have plain : (((ofRequest c q₀).rowCells row₀).map ((ofRequest c q₀).widgetIn b₀)).map
      RowWidget.plain = (((ofRequest c q).rowCells row).map ((ofRequest c q).widgetIn b)).map
        RowWidget.plain := by
    refine (plain_layoutIn (b := b₀) (p := ofRequest c q₀) own₀ row₀).trans ?_
    refine Eq.trans ?_ (plain_layoutIn (b := b) (p := ofRequest c q) own row).symm
    rw [shape, key, editable]
    apply List.map_congr_left
    intro s hs
    have walked : s.1 ∈ (ofRequest c q).walk.order := by
      rw [order_eq_shape own]
      exact List.mem_map_of_mem hs
    rw [plainWidget, plainWidget, SlotBook.idOf, SlotBook.idOf, slots s.1 walked]
  have root : (ofRequest c q₀).walk.root? = (ofRequest c q).walk.root? := by
    rw [Walk.root?, Walk.root?, order]
  rw [layoutIn, layoutIn, root]
  exact RowLayout.alike_ofWidgets plain

end Pass

end ListRepeater
