import ListRepeater.Proofs.RowContext
/-!
# What nested lists are told of their rows

A nested list is handed the widgets of the row around it under their names, and the view of that
row. A nested list that a pass leaves alone keeps what it was handed before. That is what a full
render hands it exactly if the row container keeps its name and every name stands for the node that
it stood for, of the same kind.
-/
namespace ListRepeater

theorem rel_map_iff_eq {α β γ : Type} {rel : β → γ → Prop} {f : α → β} {g : α → γ}
    {a b : Option α} (h : ∀ v, a = some v → ∀ w, b = some w → (rel (f v) (g w) ↔ v = w)) :
    Option.Rel rel (a.map f) (b.map g) ↔ a = b := by
  cases a with
  | none => cases b <;> simp
  | some v =>
    cases b with
    | none => simp
    | some w =>
      rw [Option.map_some, Option.map_some, Option.rel_some_some, h v rfl w rfl, Option.some.injEq]

/-- The instances hand the same to the lists nested in them. -/
def Instance.SameAncestry (i j : Instance) : Prop := sameAncestry i.ancestry j.ancestry = true

instance : DecidableRel Instance.SameAncestry := fun i j =>
  inferInstanceAs (Decidable (sameAncestry i.ancestry j.ancestry = true))

theorem Instance.sameAncestry_equivalence : Equivalence SameAncestry where
  refl _ := sameAncestry_refl _
  symm := sameAncestry_symm
  trans := sameAncestry_trans

namespace Pass

section Told

variable (p : Pass) (b : SlotBook)

/-- What each name of a row stands for: the id and kind of the node walked last under that name. -/
def named : Keyed String (WidgetId × String) :=
  .ofList (p.nodes.map fun e => (e.2.name, e.1, e.2.kind))

/-- What a nested list is told of the node under a name. -/
def told (row : WindowRow) (name : String) (n : WidgetId × String) : AncestorWidget :=
  let w := RowWidget.make row.place.key (p.isEditable row) (b.idOf ⟨row.place.key, n.1⟩)
    (n.1, .plain n.1 name n.2)
  { exposed := p.config.exposure.listing n.2 w.name
    rowIndex := row.place.index
    viewIndex := row.place.view
    instanceId := w.instanceId
    instanceName := w.name
    templateId := n.1
    templateName := name
    kind := n.2 }

/-- A nested list is told of the nodes of its row, under their names. -/
theorem find?_widgets_ancestorRow (row : WindowRow) (name : String) :
    (p.ancestorRow (p.layoutIn b row) row.place row.record).widgets.find? name =
      (p.named.find? name).map (p.told b row name) := by
  rw [named, ← Keyed.find?_ofList_map, List.map_map]
  simp only [ancestorRow, layoutIn, RowLayout.ofWidgets, rowCells, List.map_map]
  rfl

variable {p}

/-- The passes give the row container one name, and every name of a row stands for the same node, of
the same kind. -/
structure NamesAlike (p₀ p : Pass) : Prop where
  root : p₀.request.rootName? = p.request.rootName?
  named : ∀ name, p₀.named.find? name = p.named.find? name

theorem walked_of_named {name : String} {n : WidgetId × String} (h : p.named.find? name = some n) :
    n.1 ∈ p.walk.order := by
  have entry := Keyed.mem_of_mem_ofList ((p.named.find?_eq_some_iff name n).mp h)
  obtain ⟨e, he, found⟩ := List.mem_map.mp entry
  obtain ⟨-, rfl⟩ := Prod.mk.inj found
  exact (p.mem_nodes_iff.mp he).1

end Told

section Carried

variable {c : Config} {q₀ q : Request} {b₀ b : SlotBook} {x y : Cell}
  (hx : x ∈ (ofRequest c q).cells) (h : Carries (ofRequest c q₀) (ofRequest c q) y x)
  (slots : ∀ id ∈ (ofRequest c q₀).walk.order, id ∈ (ofRequest c q).walk.order →
    b₀.get? ⟨x.row.place.key, id⟩ = b.get? ⟨x.row.place.key, id⟩)

include h slots

theorem told_eq {n : WidgetId × String} (name : String)
    (walked₀ : n.1 ∈ (ofRequest c q₀).walk.order) (walked : n.1 ∈ (ofRequest c q).walk.order) :
    (ofRequest c q₀).told b₀ y.row name n = (ofRequest c q).told b x.row name n := by
  -- a node that both passes walk has kept its slot, so its instance goes by the same id and name
  have key : y.row.place.key = x.row.place.key := congrArg Place.key h.place
  have id : b₀.idOf ⟨y.row.place.key, n.1⟩ = b.idOf ⟨x.row.place.key, n.1⟩ := by
    rw [SlotBook.idOf, SlotBook.idOf, key, slots n.1 walked₀ walked]
  rw [told, told, id, h.editable, h.place]
  rfl

/-- In a row around a cell that is left alone nested lists are told the same exactly if all names
stand for what they stood for. -/
theorem widgets_ancestorRow_same_iff :
    ((ofRequest c q₀).ancestorRow ((ofRequest c q₀).layoutIn b₀ y.row) y.row.place
        y.row.record).widgets.same (fun v w => decide (v = w))
      ((ofRequest c q).ancestorRow ((ofRequest c q).layoutIn b x.row) x.row.place
        x.row.record).widgets = true ↔
      ∀ name, (ofRequest c q₀).named.find? name = (ofRequest c q).named.find? name := by
  rw [Keyed.same_iff]
  refine forall_congr' fun name => ?_
  rw [find?_widgets_ancestorRow, find?_widgets_ancestorRow]
  apply rel_map_iff_eq
  intro v before w after
  rw [decide_eq_true_eq]
  constructor
  · intro told
    exact Prod.ext (congrArg AncestorWidget.templateId told) (congrArg AncestorWidget.kind told)
  · rintro rfl
    exact told_eq h slots name (walked_of_named before) (walked_of_named after)

include hx

theorem ancestorRow_same_iff :
    ((ofRequest c q₀).ancestorRow ((ofRequest c q₀).layoutIn b₀ y.row) y.row.place
        y.row.record).same
      ((ofRequest c q).ancestorRow ((ofRequest c q).layoutIn b x.row) x.row.place
        x.row.record) = true ↔ (ofRequest c q₀).NamesAlike (ofRequest c q) := by
  have view := view_same_iff hx h slots
  simp only [instanceIn, instanceOf, Field.same, beq_iff_eq] at view
  have record : y.row.record = x.row.record := fingerprint_injective h.record
  rw [AncestorRow.same, Bool.and_eq_true, Bool.and_eq_true, widgets_ancestorRow_same_iff h slots]
  simp only [ancestorRow, Completion.same, h.listName, h.place, record, Json.same_refl,
    beq_self_eq_true, Bool.and_true, Bool.true_and, beq_iff_eq, true_and, view]
  exact ⟨fun alike => ⟨alike.2, alike.1⟩, fun alike => ⟨alike.named, alike.root⟩⟩

/-- A cell that is left alone still has the ancestry of a full render, unless it is a nested list and
the row tells it something else. -/
theorem sameAncestry_iff :
    Instance.SameAncestry ((ofRequest c q₀).instanceIn b₀ y) ((ofRequest c q).instanceIn b x) ↔
      ((ofRequest c q).walk.isStop x.id = true →
        (ofRequest c q₀).NamesAlike (ofRequest c q)) := by
  have nested₀ : ((ofRequest c q₀).instanceIn b₀ y).ancestry =
      if (ofRequest c q₀).walk.isStop y.id then some ((ofRequest c q₀).nestedAncestry
        ((ofRequest c q₀).layoutIn b₀ y.row) y.row.place y.row.record) else none := rfl
  have nested : ((ofRequest c q).instanceIn b x).ancestry =
      if (ofRequest c q).walk.isStop x.id then some ((ofRequest c q).nestedAncestry
        ((ofRequest c q).layoutIn b x.row) x.row.place x.row.record) else none := rfl
  rw [Instance.SameAncestry, nested₀, nested, isStop_congr hx h]
  cases (ofRequest c q).walk.isStop x.id with
  | false => simp [sameAncestry_refl]
  | true =>
    rw [if_pos rfl, if_pos rfl]
    refine (Keyed.same_insert_iff (rows_same h.ancestry) (levelName c.level)).trans ?_
    rw [ancestorRow_same_iff hx h slots]
    exact ⟨fun alike _ => alike, fun alike => alike rfl⟩

end Carried

end Pass

namespace Turn

/-- If the second pass leaves a nested list alone, the names of the row stand for what they stood
for. -/
def KeepsNested (a b : Turn) : Prop :=
  (∃ x ∈ b.pass.cells, b.pass.walk.isStop x.id = true ∧ ∃ y, Pass.Carries a.pass b.pass y x) →
    a.pass.NamesAlike b.pass

theorem keepsNested_iff {a b : Turn} (follows : b.Follows a.outcome.next a.mountedAfter) :
    a.Keeps Instance.SameAncestry b ↔ a.KeepsNested b := by
  have passA : a.pass = Pass.ofRequest b.repeater.config a.request := follows.pass_eq.symm
  have carried : ∀ x ∈ b.pass.cells, ∀ y, Pass.Carries a.pass b.pass y x →
      (Instance.SameAncestry (a.pass.instanceIn a.book y) (b.pass.instanceIn b.book x) ↔
        (b.pass.walk.isStop x.id = true → a.pass.NamesAlike b.pass)) := by
    intro x hx y h
    have slots : ∀ id ∈ a.pass.walk.order, id ∈ b.pass.walk.order →
        a.book.get? ⟨x.row.place.key, id⟩ = b.book.get? ⟨x.row.place.key, id⟩ :=
      fun id before after => follows.get?_eq_of_carries hx h before after
    rw [passA] at h slots ⊢
    exact Pass.sameAncestry_iff hx h slots
  constructor
  · rintro keeps ⟨x, hx, stop, y, h⟩
    exact (carried x hx y h).mp (keeps x hx y h) stop
  · intro keeps x hx y h
    exact (carried x hx y h).mpr fun stop => keeps ⟨x, hx, stop, y, h⟩

end Turn

namespace Session

/-- Over a run, after every pass all mounted nested lists know of their rows what a repeater tells
them that is created anew, exactly if no pass leaves a nested list alone while the row container is
named otherwise or a name stands for another node. -/
theorem nested_told_iff (c : Config) (calls : List Call)
    (unminted : ∀ q, .options q ∈ calls → q.template.Unminted c.stem) :
    (∀ t ∈ (create c none).turns calls, ∃ out, t.recreated.advance = .ok out ∧
      t.mountedAfter.Agrees Instance.SameAncestry out.emission.instances) ↔
      ∀ before a b after, (create c none).turns calls = before ++ a :: b :: after →
        a.KeepsNested b := by
  refine agrees_recreated_run_iff Instance.sameAncestry_equivalence unminted ?_
  exact fun before a b after split => Turn.keepsNested_iff (next_turn split)

/-- A row of a text and a list. -/
def listRow (name : String) : Template :=
  .ofNodes
    [Sample.node ⟨"row"⟩ ⟨"main"⟩ "Row" "CONTAINER_WIDGET" [⟨"text"⟩, ⟨"list"⟩],
     Sample.node ⟨"text"⟩ ⟨"row"⟩ name "TEXT_WIDGET" [],
     Sample.node ⟨"list"⟩ ⟨"row"⟩ "List2" "LIST_WIDGET_V2" []]

/-- Shows two such rows, and shows them again after the text got a prop. -/
def editingBesideLists : List Call :=
  let q : Request :=
    { Request.blank "" ⟨"main"⟩ ⟨"row"⟩ (listRow "Text1") with
      records := [.null, .null]
      keys := [.ofNat 0, .ofNat 1]
      pageSize := 2 }
  let text := Sample.withText (Sample.node ⟨"text"⟩ ⟨"row"⟩ "Text1" "TEXT_WIDGET" []) "text" "Name"
  [.options q, .generate, .options { q with template := q.template.put text }, .generate]

theorem nested_told_editingBesideLists :
    (∀ q, .options q ∈ editingBesideLists → q.template.Unminted Config.standard.stem) ∧
    ((create .standard none).turns editingBesideLists).map (·.outcome.emission.instances.size) =
      [6, 2] ∧
    ∀ t ∈ (create .standard none).turns editingBesideLists, ∃ out, t.recreated.advance = .ok out ∧
      t.mountedAfter.Agrees Instance.SameAncestry out.emission.instances := by
  have unminted : ∀ q, .options q ∈ editingBesideLists →
      q.template.Unminted Config.standard.stem :=
    Call.unminted_of_apart (by decide)
  have kept : ((create .standard none).turns editingBesideLists).IsChain fun a b =>
      a.request.rootName? = b.request.rootName? ∧ a.pass.named = b.pass.named := by
    decide +kernel
  refine ⟨unminted, by decide +kernel, ?_⟩
  refine (nested_told_iff .standard editingBesideLists unminted).mpr fun _ a b _ split _ => ?_
  obtain ⟨root, named⟩ := List.isChain_iff_forall_rel_of_append_cons_cons.mp kept split
  exact ⟨root, fun name => congrArg (Keyed.find? · name) named⟩

/-- Shows one such row, and shows it again after a rename of the text. -/
def relabelingCalls : List Call :=
  let q (name : String) : Request :=
    { Request.blank "" ⟨"main"⟩ ⟨"row"⟩ (listRow name) with
      records := [.null]
      keys := [.ofNat 0] }
  [.options (q "Text1"), .generate, .options (q "Label1"), .generate]

/-- The list stays mounted with the old name of the text. -/
theorem not_nested_told_relabeled :
    ¬∀ (c : Config) (calls : List Call),
      (∀ q, .options q ∈ calls → q.template.Unminted c.stem) →
      (∀ q, .options q ∈ calls → q.template.OwnKeyed) →
      (∀ q, .options q ∈ calls → q.template.Linked) →
      (∀ before a b after, (create c none).turns calls = before ++ a :: b :: after →
        ¬a.pass.Resets b.pass) →
      ∀ t ∈ (create c none).turns calls, ∃ out, t.recreated.advance = .ok out ∧
        t.mountedAfter.Agrees Instance.SameAncestry out.emission.instances := by
  have unminted : ∀ q, .options q ∈ relabelingCalls → q.template.Unminted pageConfig.stem :=
    Call.unminted_of_apart (by decide)
  have own : ∀ q, .options q ∈ relabelingCalls → q.template.OwnKeyed :=
    Call.ownKeyed_of_entries (by decide)
  have linked : ∀ q, .options q ∈ relabelingCalls → q.template.Linked :=
    Call.forall_options_iff.mpr (by decide)
  have unreset : ((create pageConfig none).turns relabelingCalls).IsChain fun a b =>
      ¬a.pass.Resets b.pass := by
    decide +kernel
  have stale : ∃ t ∈ (create pageConfig none).turns relabelingCalls,
      ¬t.mountedAfter.Agrees Instance.SameAncestry t.full := by
    decide +kernel
  exact not_followed_of_stale unminted own linked unreset stale

end Session

end ListRepeater
