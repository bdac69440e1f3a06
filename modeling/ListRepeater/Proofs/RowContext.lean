import ListRepeater.Proofs.IncrementalRender
/-!
# What instances tell of their rows

The props and the view of an instance are written with the names that the widgets of its row have.
A cell that a pass leaves alone stays mounted with the names of the row before. That is what a full
render gives exactly if the row container keeps its name and every binding of the cell localizes to
what it was.
-/
namespace ListRepeater

/-- The instances tell the same of their rows. -/
structure Instance.SameContext (i j : Instance) : Prop where
  props : i.props.same Field.same j.props = true
  view : i.view.same j.view = true

theorem Instance.sameContext_equivalence : Equivalence SameContext where
  refl _ := ⟨Keyed.same_refl Field.same_refl _, Field.same_refl _⟩
  symm h := ⟨Keyed.same_symm @Field.same_symm h.props, Field.same_symm h.view⟩
  trans h h' := ⟨Keyed.same_trans @Field.same_trans h.props h'.props, Field.same_trans h.view h'.view⟩

/-- The name that the template gives the row container. -/
def Request.rootName? (q : Request) : Option String := (q.template.find? q.root).map (·.name)

namespace Binding

/-- Localized twice, fields that are the same stay so exactly if they are no binding or one that
localizes alike. -/
theorem localizeField_same_iff {s s' : Scope} {v w : Field} (same : v.same w = true) :
    (localizeField s v).same (localizeField s' w) = true ↔
      ∀ text, w = .binding text → localize s text = localize s' text := by
  cases w with
  | literal value =>
    cases v with
    | binding text => cases same
    | literal value' => exact ⟨fun _ _ e => (nomatch e), fun _ => same⟩
  | binding text =>
    cases v with
    | literal value => cases same
    | binding text' =>
      have texts : text' = text := by simpa [Field.same] using same
      simp [localizeField, Field.same, texts]

theorem rel_localizeField_iff {s s' : Scope} {v w : Option Field}
    (same : Option.Rel (fun v w => v.same w = true) v w) :
    Option.Rel (fun v w => v.same w = true) (v.map (localizeField s)) (w.map (localizeField s')) ↔
      ∀ text, w = some (.binding text) → localize s text = localize s' text := by
  cases same with
  | none => exact ⟨fun _ _ e => (nomatch e), fun _ => .none⟩
  | some same =>
    rw [Option.map_some, Option.map_some, Option.rel_some_some, localizeField_same_iff same]
    simp only [Option.some.injEq]

end Binding

namespace Pass

section Reading

variable (p : Pass)

/-- What the bindings of a cell are localized in. -/
def scopeIn (b : SlotBook) (x : Cell) : Scope :=
  p.scope (p.layoutIn b x.row) x.row.place x.row.record (p.isEditable x.row)

/-- The cell has this binding among its props. The row container does not use the prop `data` of its
node, since it holds the view of the row there. -/
def Binds (x : Cell) (text : String) : Prop :=
  ∃ key, x.node.props.find? key = some (.binding text) ∧
    (p.walk.root? = some x.id → key ≠ "data")

/-- Two passes give the row container the same name and localize the bindings of a cell alike. -/
structure ReadsAlike (p₀ p : Pass) (b₀ b : SlotBook) (y x : Cell) : Prop where
  root : p₀.request.rootName? = p.request.rootName?
  bindings : ∀ text, p.Binds x text →
    Binding.localize (p₀.scopeIn b₀ y) text = Binding.localize (p.scopeIn b x) text

end Reading

theorem find?_props_instanceIn (p : Pass) (b : SlotBook) (x : Cell) (key : String) :
    (p.instanceIn b x).props.find? key =
      if p.walk.root? = some x.id ∧ key = "data" then
        some (.binding (mustache (" " ++ (p.layoutIn b x.row).view ++ " ")))
      else (x.node.props.find? key).map (Binding.localizeField (p.scopeIn b x)) := by
  have container : p.isContainer (p.widgetIn b x) = true ↔ p.walk.root? = some x.id := by
    rw [isContainer, beq_iff_eq]
    rfl
  have props : (p.instanceIn b x).props =
      p.propsOf (p.layoutIn b x.row) (p.scopeIn b x) (p.widgetIn b x) := rfl
  have node : (p.widgetIn b x).node = x.node := rfl
  rw [props, propsOf, node]
  by_cases h : p.walk.root? = some x.id
  · rw [if_pos (container.mpr h), Keyed.find?_insert, Keyed.find?_map]
    simp only [h, true_and, eq_comm (a := key)]
  · rw [if_neg (container.not.mpr h), if_neg fun e => h e.1, Keyed.find?_map]

section Container

variable {c : Config} {q : Request} {x : Cell}

/-- A pass that shows anything in a row shows the row container there. -/
theorem root_of_cell (hx : x ∈ (ofRequest c q).cells) : (ofRequest c q).walk.root? = some q.root ∧
    ∃ n, (⟨x.row, q.root, n⟩ : Cell) ∈ (ofRequest c q).cells := by
  obtain ⟨row, node⟩ := (ofRequest c q).mem_cells.mp hx
  have walked : (ofRequest c q).walk.order ≠ [] :=
    List.ne_nil_of_mem ((ofRequest c q).mem_nodes_iff.mp node).1
  have head := head?_walk walked
  have first : q.root ∈ (ofRequest c q).walk.order := List.mem_of_head? head
  obtain ⟨n, found⟩ := found_of_mem_walk first
  have entry : (q.root, n) ∈ (ofRequest c q).nodes := (ofRequest c q).mem_nodes_iff.mpr ⟨first, found⟩
  exact ⟨head, n, (ofRequest c q).mem_cells.mpr ⟨row, entry⟩⟩

theorem rootName?_of_cell {row : WindowRow} {n : Node}
    (hn : (⟨row, q.root, n⟩ : Cell) ∈ (ofRequest c q).cells) : q.rootName? = some n.name := by
  have found : q.template.find? q.root = some n :=
    ((ofRequest c q).mem_nodes_iff.mp ((ofRequest c q).mem_cells.mp hn).2).2
  rw [Request.rootName?, found]
  rfl

/-- The widgets of a row have different template ids. -/
theorem widget?_layoutIn {p : Pass} (hx : x ∈ p.cells) (b : SlotBook) :
    (p.layoutIn b x.row).widget? x.id = some (p.widgetIn b x) := by
  have node := (p.mem_cells.mp hx).2
  have cell : (p.rowCells x.row).find? (fun y => y.id == x.id) = some x := by
    cases found : (p.rowCells x.row).find? (fun y => y.id == x.id) with
    | none =>
      have other := List.find?_eq_none.mp found x (p.mem_rowCells.mpr ⟨rfl, node⟩)
      simp at other
    | some y =>
      have id : y.id = x.id := by simpa using List.find?_some found
      obtain ⟨row, node'⟩ := p.mem_rowCells.mp (List.mem_of_find?_eq_some found)
      have slot : y.slot = x.slot := by rw [Cell.slot, Cell.slot, row, id]
      have hy : y ∈ p.cells := p.mem_cells.mpr ⟨row ▸ (p.mem_cells.mp hx).1, node'⟩
      rw [p.cell_eq_of_slot hy hx slot]
  have map : (p.layoutIn b x.row).widget? x.id =
      ((p.rowCells x.row).find? fun y => y.id == x.id).map (p.widgetIn b) := List.find?_map
  rw [map, cell]
  rfl

/-- The view of a row is read from the widget of its cell for the root. -/
theorem viewBinding_layoutIn {row : WindowRow} {n : Node}
    (hn : (⟨row, q.root, n⟩ : Cell) ∈ (ofRequest c q).cells) (b : SlotBook) :
    ((ofRequest c q).layoutIn b row).viewBinding =
      mustache (((ofRequest c q).widgetIn b ⟨row, q.root, n⟩).name ++ ".data") := by
  have rooted : ((ofRequest c q).layoutIn b row).root = some q.root := (root_of_cell hn).1
  have widget := widget?_layoutIn hn b
  rw [RowLayout.viewBinding, RowLayout.container?, rooted, Option.bind_some, widget]
  rfl

end Container

section Carried

variable {c : Config} {q₀ q : Request} {b₀ b : SlotBook} {x y : Cell}
  (hx : x ∈ (ofRequest c q).cells) (h : Carries (ofRequest c q₀) (ofRequest c q) y x)
  (slots : ∀ id ∈ (ofRequest c q₀).walk.order, id ∈ (ofRequest c q).walk.order →
    b₀.get? ⟨x.row.place.key, id⟩ = b.get? ⟨x.row.place.key, id⟩)

include hx h slots

/-- A cell that is left alone keeps its view exactly if the row container keeps its name. -/
theorem view_same_iff :
    ((ofRequest c q₀).instanceIn b₀ y).view.same ((ofRequest c q).instanceIn b x).view = true ↔
      q₀.rootName? = q.rootName? := by
  obtain ⟨-, m, hm⟩ := root_of_cell h.before
  obtain ⟨-, n, hn⟩ := root_of_cell hx
  have root : q₀.root = q.root := h.root
  have rooted₀ := ((ofRequest c q₀).mem_nodes_iff.mp ((ofRequest c q₀).mem_cells.mp hm).2).1
  have rooted := ((ofRequest c q).mem_nodes_iff.mp ((ofRequest c q).mem_cells.mp hn).2).1
  have agree := slots q.root (root ▸ rooted₀) rooted
  have views : ((ofRequest c q₀).instanceIn b₀ y).view.same ((ofRequest c q).instanceIn b x).view =
      true ↔ ((ofRequest c q₀).layoutIn b₀ y.row).viewBinding =
        ((ofRequest c q).layoutIn b x.row).viewBinding := by
    simp only [instanceIn, instanceOf, Field.same, beq_iff_eq]
  rw [views, viewBinding_layoutIn hm, viewBinding_layoutIn hn, rootName?_of_cell hm,
    rootName?_of_cell hn, Option.some.injEq, mustache, mustache]
  simp only [String.append_left_inj, String.append_right_inj]
  have key : y.row.place.key = x.row.place.key := congrArg Place.key h.place
  have same : b₀.idOf ⟨y.row.place.key, q₀.root⟩ = b.idOf ⟨x.row.place.key, q.root⟩ := by
    rw [SlotBook.idOf, SlotBook.idOf, key, root, agree]
  simp only [widgetIn, RowWidget.make, Cell.slot, h.editable, same]
  split
  · rfl
  · rw [String.append_left_inj, String.append_left_inj]

/-- A cell that is left alone keeps its props exactly if its bindings localize to what they were.
The view that the row container holds depends on the shape alone, which was compared. -/
theorem props_same_iff (own₀ : q₀.template.OwnKeyed) (own : q.template.OwnKeyed) :
    ((ofRequest c q₀).instanceIn b₀ y).props.same Field.same ((ofRequest c q).instanceIn b x).props =
        true ↔ ∀ text, (ofRequest c q).Binds x text →
      Binding.localize ((ofRequest c q₀).scopeIn b₀ y) text =
        Binding.localize ((ofRequest c q).scopeIn b x) text := by
  obtain ⟨-, -, -, -, -, nodes⟩ := Node.same_iff.mp h.node
  have nodes := Keyed.same_iff.mp nodes
  have before : (ofRequest c q₀).walk.root? = (ofRequest c q).walk.root? := by
    rw [(root_of_cell h.before).1, (root_of_cell hx).1]
    exact congrArg some h.root
  have view : (ofRequest c q).walk.root? = some x.id →
      ((ofRequest c q₀).layoutIn b₀ y.row).view = ((ofRequest c q).layoutIn b x.row).view := by
    intro container
    have shape := h.shape.resolve_right (not_not_intro container)
    refine (layoutIn_alike own₀ own shape (congrArg Place.key h.place) h.editable ?_).view
    intro id hid
    refine slots id ?_ hid
    rw [order_eq_shape own₀, shape, ← order_eq_shape own]
    exact hid
  rw [Keyed.same_iff]
  constructor
  · rintro kept text ⟨key, bound, used⟩
    have kept := kept key
    have plain : ¬((ofRequest c q).walk.root? = some x.id ∧ key = "data") := fun e => used e.1 e.2
    rw [find?_props_instanceIn, find?_props_instanceIn, before, h.id, if_neg plain, if_neg plain,
      Binding.rel_localizeField_iff (nodes key)] at kept
    exact kept text bound
  · intro alike key
    rw [find?_props_instanceIn, find?_props_instanceIn, before, h.id]
    by_cases data : (ofRequest c q).walk.root? = some x.id ∧ key = "data"
    · rw [if_pos data, if_pos data, view data.1]
      exact .some (Field.same_refl _)
    · rw [if_neg data, if_neg data, Binding.rel_localizeField_iff (nodes key)]
      intro text bound
      exact alike text ⟨key, bound, fun root e => data ⟨root, e⟩⟩

theorem sameContext_iff (own₀ : q₀.template.OwnKeyed) (own : q.template.OwnKeyed) :
    Instance.SameContext ((ofRequest c q₀).instanceIn b₀ y) ((ofRequest c q).instanceIn b x) ↔
      ReadsAlike (ofRequest c q₀) (ofRequest c q) b₀ b y x := by
  have view := view_same_iff hx h slots
  have props := props_same_iff hx h slots own₀ own
  constructor
  · intro same
    exact ⟨view.mp same.view, props.mp same.props⟩
  · intro alike
    exact ⟨props.mpr alike.bindings, view.mpr alike.root⟩

end Carried

end Pass

/-- Parents list their children and children name their parents, as far as these are in the
template. -/
def Template.Linked (t : Template) : Prop :=
  ∀ e ∈ t.entries,
    (∀ id ∈ e.2.children, ∀ n ∈ t.find? id, n.parent = some e.1) ∧
      ∀ id ∈ e.2.parent, ∀ n ∈ t.find? id, e.1 ∈ n.children

instance (t : Template) : Decidable t.Linked := inferInstanceAs (Decidable (∀ e ∈ t.entries, _))

instance (i j : Instance) : Decidable (i.SameContext j) :=
  decidable_of_iff (i.props.same Field.same j.props = true ∧ i.view.same j.view = true)
    ⟨fun h => ⟨h.1, h.2⟩, fun h => ⟨h.props, h.view⟩⟩

namespace Turn

/-- The cells that the second pass leaves alone read in their rows what they read before. -/
def KeepsContext (a b : Turn) : Prop :=
  ∀ x ∈ b.pass.cells, ∀ y, Pass.Carries a.pass b.pass y x →
    Pass.ReadsAlike a.pass b.pass a.book b.book y x

theorem keepsContext_iff {a b : Turn} (follows : b.Follows a.outcome.next a.mountedAfter)
    (ownA : a.request.template.OwnKeyed) (ownB : b.request.template.OwnKeyed) :
    a.Keeps Instance.SameContext b ↔ a.KeepsContext b := by
  have passA : a.pass = Pass.ofRequest b.repeater.config a.request := follows.pass_eq.symm
  refine forall₂_congr fun x hx => forall₂_congr fun y h => ?_
  have slots : ∀ id ∈ a.pass.walk.order, id ∈ b.pass.walk.order →
      a.book.get? ⟨x.row.place.key, id⟩ = b.book.get? ⟨x.row.place.key, id⟩ :=
    fun id before after => follows.get?_eq_of_carries hx h before after
  rw [passA] at h slots ⊢
  exact Pass.sameContext_iff hx h slots ownA ownB

end Turn

namespace Session

/-- Over a run, after every pass the props and views of all mounted instances are those that a
repeater makes which is created anew, exactly if every pass keeps what it leaves alone in context. -/
theorem context_followed_iff (c : Config) (calls : List Call)
    (unminted : ∀ q, .options q ∈ calls → q.template.Unminted c.stem)
    (own : ∀ q, .options q ∈ calls → q.template.OwnKeyed) :
    (∀ t ∈ (create c none).turns calls, ∃ out, t.recreated.advance = .ok out ∧
      t.mountedAfter.Agrees Instance.SameContext out.emission.instances) ↔
      ∀ before a b after, (create c none).turns calls = before ++ a :: b :: after →
        a.KeepsContext b := by
  have owned : ∀ t ∈ (create c none).turns calls, t.request.template.OwnKeyed := fun _ ht =>
    request_of_turn (P := fun q => q.template.OwnKeyed) own ht
  refine agrees_recreated_run_iff Instance.sameContext_equivalence unminted ?_
  intro before a b after split
  exact Turn.keepsContext_iff (next_turn split) (owned a (by simp [split]))
    (owned b (by simp [split]))

/-- Shows two rows of the simple list, and shows them again after a rename of the image, which no
binding reads. -/
def renamingCalls : List Call :=
  let q : Request :=
    { Request.blank "" Sample.simple.mount Sample.simple.root Sample.simple.template with
      records := Sample.records
      keys := Sample.idKeys Sample.records
      pageSize := 2 }
  let picture := Sample.node Sample.simpleImage Sample.simpleCanvas "Picture" "IMAGE_WIDGET" []
  [.options q, .generate, .options { q with template := q.template.put picture }, .generate]

theorem context_kept_renamingCalls :
    (∀ q, .options q ∈ renamingCalls → q.template.Unminted Config.standard.stem) ∧
    (∀ q, .options q ∈ renamingCalls → q.template.OwnKeyed) ∧
    ((create .standard none).turns renamingCalls).length = 2 ∧
    ∀ before a b after, (create .standard none).turns renamingCalls = before ++ a :: b :: after →
      a.KeepsContext b := by
  have unminted : ∀ q, .options q ∈ renamingCalls → q.template.Unminted Config.standard.stem :=
    Call.unminted_of_apart (by decide)
  have own : ∀ q, .options q ∈ renamingCalls → q.template.OwnKeyed :=
    Call.ownKeyed_of_entries (by decide)
  have followed : ∀ t ∈ (create .standard none).turns renamingCalls,
      t.mountedAfter.Agrees Instance.SameContext t.full := by
    decide +kernel
  refine ⟨unminted, own, by decide +kernel, ?_⟩
  refine (context_followed_iff .standard renamingCalls unminted own).mp ?_
  exact fun t ht => (agrees_recreated_iff ht).mpr (followed t ht)

def pageConfig : Config := { Config.standard with mode := .page }

/-- One run that resets nothing and leaves an instance behind its full render, as far as the relation
sees, shows that such runs do not agree with what is created anew. -/
theorem not_followed_of_stale {rel : Instance → Instance → Prop} {calls : List Call}
    (unminted : ∀ q, .options q ∈ calls → q.template.Unminted pageConfig.stem)
    (own : ∀ q, .options q ∈ calls → q.template.OwnKeyed)
    (linked : ∀ q, .options q ∈ calls → q.template.Linked)
    (unreset : ((create pageConfig none).turns calls).IsChain fun a b => ¬a.pass.Resets b.pass)
    (stale : ∃ t ∈ (create pageConfig none).turns calls, ¬t.mountedAfter.Agrees rel t.full) :
    ¬∀ (c : Config) (calls : List Call),
      (∀ q, .options q ∈ calls → q.template.Unminted c.stem) →
      (∀ q, .options q ∈ calls → q.template.OwnKeyed) →
      (∀ q, .options q ∈ calls → q.template.Linked) →
      (∀ before a b after, (create c none).turns calls = before ++ a :: b :: after →
        ¬a.pass.Resets b.pass) →
      ∀ t ∈ (create c none).turns calls, ∃ out, t.recreated.advance = .ok out ∧
        t.mountedAfter.Agrees rel out.emission.instances := by
  intro claim
  obtain ⟨t, ht, stale⟩ := stale
  apply stale
  refine (agrees_recreated_iff ht).mp (claim pageConfig calls unminted own linked ?_ t ht)
  exact fun _ _ _ _ split => List.isChain_iff_forall_rel_of_append_cons_cons.mp unreset split

/-- A row of a text and an input that shows what the text shows. -/
def echoRow (text : WidgetId) : Template :=
  .ofNodes
    [Sample.node ⟨"row"⟩ ⟨"main"⟩ "Row" "CONTAINER_WIDGET" [text, ⟨"input"⟩],
     Sample.node text ⟨"row"⟩ "Text1" "TEXT_WIDGET" [],
     Sample.withText (Sample.node ⟨"input"⟩ ⟨"row"⟩ "Input1" "INPUT_WIDGET_V2" []) "defaultText"
      (mustache "Text1.text")]

/-- Shows such a row, and shows it again with another text in the place and under the name of the
first. -/
def replacingCalls : List Call :=
  let q (text : WidgetId) : Request :=
    { Request.blank "" ⟨"main"⟩ ⟨"row"⟩ (echoRow text) with
      records := [.null]
      keys := [.ofNat 0] }
  [.options (q ⟨"text"⟩), .generate, .options (q ⟨"label"⟩), .generate]

/-- The input stays mounted with the name of the text that is gone. -/
theorem not_context_followed_replaced :
    ¬∀ (c : Config) (calls : List Call),
      (∀ q, .options q ∈ calls → q.template.Unminted c.stem) →
      (∀ q, .options q ∈ calls → q.template.OwnKeyed) →
      (∀ q, .options q ∈ calls → q.template.Linked) →
      (∀ before a b after, (create c none).turns calls = before ++ a :: b :: after →
        ¬a.pass.Resets b.pass) →
      ∀ t ∈ (create c none).turns calls, ∃ out, t.recreated.advance = .ok out ∧
        t.mountedAfter.Agrees Instance.SameContext out.emission.instances := by
  have unminted : ∀ q, .options q ∈ replacingCalls → q.template.Unminted pageConfig.stem :=
    Call.unminted_of_apart (by decide)
  have own : ∀ q, .options q ∈ replacingCalls → q.template.OwnKeyed :=
    Call.ownKeyed_of_entries (by decide)
  have linked : ∀ q, .options q ∈ replacingCalls → q.template.Linked :=
    Call.forall_options_iff.mpr (by decide)
  have unreset : ((create pageConfig none).turns replacingCalls).IsChain fun a b =>
      ¬a.pass.Resets b.pass := by
    decide +kernel
  have stale : ∃ t ∈ (create pageConfig none).turns replacingCalls,
      ¬t.mountedAfter.Agrees Instance.SameContext t.full := by
    decide +kernel
  exact not_followed_of_stale unminted own linked unreset stale

end Session

end ListRepeater
