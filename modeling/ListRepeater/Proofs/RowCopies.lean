import ListRepeater.Proofs.AncestorReferences
import ListRepeater.Proofs.Conservation
import ListRepeater.Proofs.RowLinks
import ListRepeater.Proofs.WalkTraversal
/-!
# Rows as copies of the template

Whatever references there are in a template, to widgets that are missing, shared or above, a row
that is rendered in full is a copy of what the walk visits. Its instances stand for the walked
widgets one to one, and what a widget says of others its instance says of their instances in the
same row: its children, its parent, and in bindings their names.
-/
namespace ListRepeater

/-- Whether a chain that starts with the word speaks of the row itself or of the rows around it. -/
def Scope.IsVocabulary (word : String) : Prop :=
  word = "currentItem" ∨ word = "currentIndex" ∨ word = "currentView" ∨
    (levelOf? word).isSome = true

instance (word : String) : Decidable (Scope.IsVocabulary word) :=
  inferInstanceAs (Decidable (_ ∨ _ ∨ _ ∨ _))

/-- A name that the row knows becomes the name that it has in the row, with the words behind it. -/
theorem Scope.localize_name (s : Scope) {name own : String} (word : Binding.isWord name = true)
    (plain : ¬IsVocabulary name) (found : s.names.find? name = some own) {rest : List String}
    (words : ∀ w ∈ rest, Binding.isWord w = true) :
    Binding.localize s (mustache (join name rest)) = mustache (join own rest) := by
  simp only [IsVocabulary, not_or] at plain
  obtain ⟨item, index, view, level⟩ := plain
  rw [Binding.localize_chain s (List.forall_mem_cons.mpr ⟨word, words⟩), resolve, if_neg item,
    if_neg index, if_neg view, if_neg level, found]
  -- a name that stays the same is not replaced
  by_cases kept : own = name
  · simp [kept]
  · simp [kept]

/-- Whoever is listed as a child names the widget that lists it as its parent. -/
def Template.NamesParents (t : Template) : Prop :=
  ∀ e ∈ t.entries, ∀ id ∈ e.2.children, ∀ n ∈ t.find? id, n.parent = some e.1

instance (t : Template) : Decidable t.NamesParents :=
  inferInstanceAs (Decidable (∀ e ∈ t.entries, _))

/-- The ids that the links of instances may be taken from. -/
def Request.authoredIds (q : Request) : List WidgetId :=
  q.mount :: q.template.entries.flatMap fun e => e.1 :: (e.2.parent.toList ++ e.2.children)

/-- No authored id looks like one that is minted behind the stem. -/
def Request.Unminted (q : Request) (stem : String) : Prop :=
  ∀ id ∈ q.authoredIds, ∀ n, id ≠ SlotBook.mintedId stem n

namespace Request

variable {q : Request}

theorem mem_authoredIds_of_node {id : WidgetId} {n : Node} (found : q.template.find? id = some n)
    {link : WidgetId} (h : link ∈ id :: (n.parent.toList ++ n.children)) : link ∈ q.authoredIds :=
  List.mem_cons_of_mem _
    (List.mem_flatMap.mpr ⟨(id, n), (Keyed.find?_eq_some_iff _ _ _).mp found, h⟩)

theorem Unminted.template {stem : String} (h : q.Unminted stem) : q.template.Unminted stem := by
  intro id hid
  obtain ⟨e, he, rfl⟩ := List.mem_map.mp hid
  have found := (Keyed.find?_eq_some_iff q.template e.1 e.2).mpr he
  exact h _ (mem_authoredIds_of_node found List.mem_cons_self)

/-- Ids that do not start with the stem do not look minted. -/
theorem unminted_of_apart {stem : String}
    (h : ∀ id ∈ q.authoredIds, ¬stem.toList <+: id.text.toList) : q.Unminted stem := by
  intro id hid n e
  apply h id hid
  rw [e, SlotBook.mintedId, String.toList_append, String.toList_append, List.append_assoc]
  exact List.prefix_append _ _

end Request

/-- The instances that an instance is linked to. -/
def Instance.links (i : Instance) : List WidgetId := i.parent.toList ++ i.children

namespace Pass

section Cells

variable {p : Pass} {x : Cell} (b : SlotBook)

theorem children_of_isStop (stop : p.walk.isStop x.id = true) :
    (p.instanceIn b x).children = x.node.children :=
  if_pos stop

/-- A row finds the widget of a cell under the name of its node, if no other node has that name. -/
theorem find?_names_layoutIn (hx : x ∈ p.cells)
    (unique : ∀ y ∈ p.rowCells x.row, y.node.name = x.node.name → y = x) :
    (p.layoutIn b x.row).names.find? x.node.name = some (p.widgetIn b x).name := by
  have named : x.node.name ∈ (p.layoutIn b x.row).names.keys := by
    rw [mem_names_layoutIn_iff]
    exact List.mem_map.mpr ⟨(x.id, x.node), (p.mem_cells.mp hx).2, rfl⟩
  obtain ⟨name, found⟩ := Option.isSome_iff_exists.mp ((Keyed.find?_isSome_iff _ _).mpr named)
  -- among the widgets that the names were made of, only that of the cell has this one
  have entry := Keyed.mem_of_mem_ofList ((Keyed.find?_eq_some_iff _ _ _).mp found)
  obtain ⟨w, hw, e⟩ := List.mem_map.mp entry
  obtain ⟨y, hy, rfl⟩ := List.mem_map.mp hw
  obtain ⟨same, own⟩ := Prod.mk.inj e
  rw [found, ← own, unique y hy same]

end Cells

variable {c : Config} {q : Request} {x : Cell} (hx : x ∈ (ofRequest c q).cells) (b : SlotBook)

include hx

/-- The walk stops at the lists in a row, but not at its container. -/
theorem isStop_cell_iff : (ofRequest c q).walk.isStop x.id = true ↔
    x.node.kind = c.listKind ∧ x.id ≠ q.root := by
  obtain ⟨walked, found⟩ := (mem_nodes_iff _).mp ((mem_cells _).mp hx).2
  rw [isStop_iff]
  constructor
  · rintro ⟨-, inner, n, found', list⟩
    cases found.symm.trans found'
    exact ⟨beq_iff_eq.mp list, inner⟩
  · rintro ⟨list, inner⟩
    exact ⟨walked, inner, x.node, found, beq_iff_eq.mpr list⟩

/-- The instance that stands for a walked node is that of its cell in the row. -/
theorem exists_cell_shownAs {id : WidgetId} (walked : id ∈ (ofRequest c q).walk.order) :
    ∃ y ∈ (ofRequest c q).cells, y.row = x.row ∧ y.id = id ∧
      (ofRequest c q).idIn b y = (ofRequest c q).shownAs b x.row id := by
  obtain ⟨n, found⟩ := found_of_mem_walk walked
  have node : (id, n) ∈ (ofRequest c q).nodes := (mem_nodes_iff _).mpr ⟨walked, found⟩
  exact ⟨⟨x.row, id, n⟩, (mem_cells _).mpr ⟨((mem_cells _).mp hx).1, node⟩, rfl, rfl, rfl⟩

/-- Where the walk goes on, the children are the instances of those children that have nodes. -/
theorem children_instanceIn (through : (ofRequest c q).walk.isStop x.id = false) :
    ((ofRequest c q).instanceIn b x).children =
      (x.node.children.filter q.template.contains).map ((ofRequest c q).shownAs b x.row) := by
  have listed : ((ofRequest c q).instanceIn b x).children =
      if (ofRequest c q).walk.isStop x.id then x.node.children
      else x.node.children.filterMap ((ofRequest c q).layoutIn b x.row).instanceId? := rfl
  rw [listed, through, if_neg Bool.false_ne_true, ← List.filterMap_eq_map,
    List.filterMap_filter]
  apply List.filterMap_congr
  intro child hchild
  rw [instanceId?_layoutIn ((mem_cells _).mp hx).1]
  simp only [child_mem_walk_iff hx through hchild, Function.comp_apply]

theorem parent_of_root (root : x.id = q.root) :
    ((ofRequest c q).instanceIn b x).parent = some q.mount := by
  have container : ((ofRequest c q).walk.root? == some x.id) = true := by
    rw [(root_of_cell hx).1, root, beq_self_eq_true]
  exact if_pos container

theorem parent_of_inner (inner : x.id ≠ q.root) : ((ofRequest c q).instanceIn b x).parent =
    x.node.parent.map fun id =>
      if id ∈ (ofRequest c q).walk.order then (ofRequest c q).shownAs b x.row id else id := by
  have container : ¬((ofRequest c q).walk.root? == some x.id) = true := by
    rw [(root_of_cell hx).1, beq_iff_eq, Option.some.injEq]
    exact inner.symm
  have named : ((ofRequest c q).instanceIn b x).parent = x.node.parent.map fun id =>
      (((ofRequest c q).layoutIn b x.row).instanceId? id).getD id := if_neg container
  rw [named]
  congr 1
  funext id
  rw [instanceId?_layoutIn ((mem_cells _).mp hx).1]
  split <;> rfl

/-- An instance is linked to instances of its row and to authored ids. -/
theorem links_instanceIn {link : WidgetId}
    (h : link ∈ ((ofRequest c q).instanceIn b x).links) :
    (∃ y ∈ (ofRequest c q).cells, y.row = x.row ∧ (ofRequest c q).idIn b y = link) ∨
      link ∈ q.authoredIds := by
  have found := ((mem_nodes_iff _).mp ((mem_cells _).mp hx).2).2
  rcases List.mem_append.mp h with parent | child
  · by_cases root : x.id = q.root
    · rw [parent_of_root hx b root, Option.toList_some, List.mem_singleton] at parent
      exact Or.inr (parent ▸ List.mem_cons_self)
    · rw [parent_of_inner hx b root, Option.mem_toList, Option.map_eq_some_iff] at parent
      obtain ⟨id, named, shown⟩ := parent
      split at shown
      · next walked =>
        obtain ⟨y, hy, row, -, own⟩ := exists_cell_shownAs hx b walked
        exact Or.inl ⟨y, hy, row, own.trans shown⟩
      · refine Or.inr (Request.mem_authoredIds_of_node found ?_)
        simp [named, ← shown]
  · cases stop : (ofRequest c q).walk.isStop x.id with
    | true =>
      rw [children_of_isStop b stop] at child
      exact Or.inr (Request.mem_authoredIds_of_node found (by simp [child]))
    | false =>
      rw [children_instanceIn hx b stop] at child
      obtain ⟨id, hid, shown⟩ := List.mem_map.mp child
      obtain ⟨listed, exist⟩ := List.mem_filter.mp hid
      obtain ⟨y, hy, row, -, own⟩ :=
        exists_cell_shownAs hx b ((child_mem_walk_iff hx stop listed).mpr exist)
      exact Or.inl ⟨y, hy, row, own.trans shown⟩

/-- Below the container every walked node is listed by one that the walk goes on below. -/
theorem exists_lister (inner : x.id ≠ q.root) : ∃ y ∈ (ofRequest c q).cells, y.row = x.row ∧
    (ofRequest c q).walk.isStop y.id = false ∧ x.id ∈ y.node.children := by
  obtain ⟨hrow, hnode⟩ := (mem_cells _).mp hx
  have walked := ((mem_nodes_iff _).mp hnode).1
  have reached := Walk.mem_walk_iff.mp walked
  generalize x.id = id at reached inner
  cases reached with
  | root _ => exact absurd rfl inner
  | @child above id n _ reached found descends listed _ =>
    have entry : (above, n) ∈ (ofRequest c q).nodes :=
      (mem_nodes_iff _).mpr ⟨Walk.mem_walk_iff.mpr reached, found⟩
    have hy : (⟨x.row, above, n⟩ : Cell) ∈ (ofRequest c q).cells := (mem_cells _).mpr ⟨hrow, entry⟩
    refine ⟨_, hy, rfl, ?_, listed⟩
    rw [Bool.eq_false_iff, Ne, isStop_cell_iff hy]
    rintro ⟨list, below⟩
    have stops : (n.kind == c.listKind) = false := descends.resolve_left below
    exact absurd list (by simpa using stops)

end Pass

namespace Turn

variable (t : Turn) (row : PassRow)

/-- The instances of a row, rendered without a restriction. -/
def copiesIn : List Instance :=
  t.pass.instancesOf row.layout row.row.place row.row.record row.editable none

/-- Whether the instance is that of a list inside the row. -/
def IsNested (i : Instance) : Prop :=
  i.kind = t.repeater.config.listKind ∧ i.templateId ≠ t.request.root

/-- The instance `id` of the row stands for the widget `template`. -/
def StandsFor (template id : WidgetId) : Prop :=
  ∃ j ∈ t.copiesIn row, j.templateId = template ∧ j.id = id

/-- The row has one instance for each walked widget. A nested list keeps its authored children, any
other instance has those of its children that have nodes, in their order, and the row container is
mounted where the request says. -/
structure CopiesWalk : Prop where
  walked : (t.copiesIn row).map (·.templateId) = t.pass.walk.order
  once : t.pass.walk.order.Nodup
  apart : ((t.copiesIn row).map (·.id)).Nodup
  children : ∀ i ∈ t.copiesIn row, ∃ n, t.request.template.find? i.templateId = some n ∧
    (t.IsNested i → i.children = n.children) ∧
    (¬t.IsNested i → List.Forall₂ (t.StandsFor row)
      (n.children.filter t.request.template.contains) i.children)
  root : ∀ i ∈ t.copiesIn row, i.templateId = t.request.root → i.parent = some t.request.mount

/-- Every instance but that of the container has the one instance for its parent that lists it. -/
def CopiesParents : Prop :=
  ∀ i ∈ t.copiesIn row, i.templateId ≠ t.request.root →
    ∃ j ∈ t.copiesIn row, ¬t.IsNested j ∧ i.parent = some j.id ∧
      ∀ k ∈ t.copiesIn row, ¬t.IsNested k → (i.id ∈ k.children ↔ k = j)

/-- No instance is linked to an instance of another row, other than by its authored id. -/
def IsClosed : Prop :=
  ∀ i ∈ t.copiesIn row, ∀ link ∈ i.links, ∀ other ∈ t.rows, other.row ≠ row.row →
    other.editable = false → ∀ j ∈ t.copiesIn other, j.id ≠ link

/-- The name that no other walked widget has becomes the name of the instance, in a binding of the
name or of a chain behind it, wherever in the row it stands. -/
def RenamesBindings : Prop :=
  ∀ i ∈ t.copiesIn row, (∀ j ∈ t.copiesIn row, j.templateName = i.templateName → j = i) →
    Binding.isWord i.templateName = true → ¬Scope.IsVocabulary i.templateName →
    ∀ rest, (∀ w ∈ rest, Binding.isWord w = true) →
      Binding.localize (t.scopeOf row) (mustache (Scope.join i.templateName rest)) =
        mustache (Scope.join i.name rest) ∧
      ∀ k ∈ t.copiesIn row, ∀ n, t.request.template.find? k.templateId = some n →
        ∀ key, ¬(k.templateId = t.request.root ∧ key = "data") →
          n.props.find? key = some (.binding (mustache (Scope.join i.templateName rest))) →
            k.props.find? key = some (.binding (mustache (Scope.join i.name rest)))

section Cells

variable {t} {x : Cell} (hx : x ∈ t.pass.cells)

include hx

theorem isNested_iff :
    t.IsNested (t.pass.instanceIn t.book x) ↔ t.pass.walk.isStop x.id = true :=
  (Pass.isStop_cell_iff hx).symm

variable (grounded : t.repeater.Grounded) {y : Cell} (hy : y ∈ t.pass.cells) (own : x.row = y.row)

include grounded hy own

/-- The cells of one row show different ids, whether or not authored ids look minted. -/
theorem cell_eq_of_row (same : t.pass.idIn t.book x = t.pass.idIn t.book y) : x = y := by
  have after := Repeater.grounded_run grounded t.request
  have held := (Repeater.after_run t.repeater t.request).held
  apply t.pass.cell_eq_of_slot hx hy
  cases editable : t.pass.isEditable x.row with
  | true =>
    rw [t.pass.idIn_of_editable _ editable, t.pass.idIn_of_editable _ (own ▸ editable)] at same
    rw [Cell.slot, Cell.slot, own, same]
  | false =>
    rw [t.pass.idIn_of_projected _ editable, t.pass.idIn_of_projected _ (own ▸ editable)] at same
    exact Pass.slot_eq_of_idOf after.balanced held hx hy same

/-- Where the walk goes on, an instance lists those whose widgets its own widget lists. -/
theorem id_mem_children_iff (through : t.pass.walk.isStop x.id = false) :
    t.pass.idIn t.book y ∈ (t.pass.instanceIn t.book x).children ↔ y.id ∈ x.node.children := by
  rw [Pass.children_instanceIn hx t.book through, List.mem_map]
  constructor
  · rintro ⟨id, hid, same⟩
    obtain ⟨listed, exist⟩ := List.mem_filter.mp hid
    have walked := (Pass.child_mem_walk_iff hx through listed).mpr exist
    obtain ⟨z, hz, row, rfl, shown⟩ := Pass.exists_cell_shownAs hx t.book walked
    obtain rfl := cell_eq_of_row hz grounded hy (row.trans own) (shown.trans same)
    exact listed
  · intro listed
    have exist : t.request.template.contains y.id = true := by
      rw [Keyed.contains_iff]
      exact Pass.mem_keys_of_cell hy
    refine ⟨y.id, List.mem_filter.mpr ⟨listed, exist⟩, ?_⟩
    rw [own]
    rfl

end Cells

section Row

variable {t} {row} (hrow : row ∈ t.rows)

include hrow

theorem copiesIn_eq :
    t.copiesIn row = (t.pass.rowCells row.row).map (t.pass.instanceIn t.book) := by
  obtain ⟨-, editable, layout⟩ := row_of_mem_rows hrow
  rw [copiesIn, layout, editable]
  have widgets : (t.pass.layoutIn t.book row.row).widgets =
      (t.pass.rowCells row.row).map (t.pass.widgetIn t.book) := rfl
  rw [Pass.instancesOf, Pass.widgetsIn, widgets, List.map_map]
  apply List.map_congr_left
  intro x hx
  rw [Function.comp_apply, Pass.instanceIn, (t.pass.mem_rowCells.mp hx).1]

theorem mem_copiesIn {i : Instance} : i ∈ t.copiesIn row ↔
    ∃ x ∈ t.pass.cells, x.row = row.row ∧ t.pass.instanceIn t.book x = i := by
  obtain ⟨hwindow, -, -⟩ := row_of_mem_rows hrow
  rw [copiesIn_eq hrow, List.mem_map]
  constructor
  · rintro ⟨x, hx, rfl⟩
    obtain ⟨own, node⟩ := t.pass.mem_rowCells.mp hx
    exact ⟨x, t.pass.mem_cells.mpr ⟨own ▸ hwindow, node⟩, own, rfl⟩
  · rintro ⟨x, hx, own, rfl⟩
    exact ⟨x, t.pass.mem_rowCells.mpr ⟨own, (t.pass.mem_cells.mp hx).2⟩, rfl⟩

theorem map_templateId_copiesIn : (t.copiesIn row).map (·.templateId) = t.pass.walk.order := by
  rw [copiesIn_eq hrow, Pass.rowCells, List.map_map, List.map_map]
  exact Pass.map_fst_nodes t.repeater.config t.request

theorem nodup_copiesIn (grounded : t.repeater.Grounded) : ((t.copiesIn row).map (·.id)).Nodup := by
  have templates := map_templateId_copiesIn hrow
  have once : (t.copiesIn row).Nodup := by
    apply List.Nodup.of_map (·.templateId)
    rw [templates]
    exact Pass.nodup_order _ _
  refine once.map_on fun i hi j hj same => ?_
  obtain ⟨x, hx, ownX, rfl⟩ := (mem_copiesIn hrow).mp hi
  obtain ⟨y, hy, ownY, rfl⟩ := (mem_copiesIn hrow).mp hj
  rw [cell_eq_of_row hx grounded hy (ownX.trans ownY.symm) same]

theorem copiesWalk (grounded : t.repeater.Grounded) : t.CopiesWalk row where
  walked := map_templateId_copiesIn hrow
  once := Pass.nodup_order _ _
  apart := nodup_copiesIn hrow grounded
  children := by
    intro i hi
    obtain ⟨x, hx, own, rfl⟩ := (mem_copiesIn hrow).mp hi
    have found := (t.pass.mem_nodes_iff.mp (t.pass.mem_cells.mp hx).2).2
    refine ⟨x.node, found, ?_, ?_⟩ <;> rw [isNested_iff hx]
    · exact Pass.children_of_isStop t.book
    · rw [Bool.not_eq_true]
      intro through
      rw [Pass.children_instanceIn hx t.book through, List.forall₂_map_right_iff, List.forall₂_same]
      intro id hid
      obtain ⟨listed, exist⟩ := List.mem_filter.mp hid
      have walked := (Pass.child_mem_walk_iff hx through listed).mpr exist
      obtain ⟨y, hy, row, rfl, shown⟩ := Pass.exists_cell_shownAs hx t.book walked
      exact ⟨_, (mem_copiesIn hrow).mpr ⟨y, hy, row.trans own, rfl⟩, rfl, shown⟩
  root := by
    intro i hi root
    obtain ⟨x, hx, -, rfl⟩ := (mem_copiesIn hrow).mp hi
    exact Pass.parent_of_root hx t.book root

/-- Who lists an instance among its children is the instance of the parent. -/
theorem copiesParents (grounded : t.repeater.Grounded)
    (named : t.request.template.NamesParents) : t.CopiesParents row := by
  intro i hi inner
  obtain ⟨x, hx, own, rfl⟩ := (mem_copiesIn hrow).mp hi
  have found := (t.pass.mem_nodes_iff.mp (t.pass.mem_cells.mp hx).2).2
  have parent : ∀ y ∈ t.pass.cells, x.id ∈ y.node.children → x.node.parent = some y.id := by
    intro y hy listed
    have node := (t.pass.mem_nodes_iff.mp (t.pass.mem_cells.mp hy).2).2
    exact named (y.id, y.node) ((Keyed.find?_eq_some_iff _ _ _).mp node) x.id listed x.node found
  obtain ⟨y, hy, row, through, listed⟩ := Pass.exists_lister hx inner
  have shown : t.pass.shownAs t.book x.row y.id = t.pass.idIn t.book y := by rw [← row]; rfl
  refine ⟨_, (mem_copiesIn hrow).mpr ⟨y, hy, row.trans own, rfl⟩, ?_, ?_, ?_⟩
  · rw [isNested_iff hy, through]
    exact Bool.false_ne_true
  · have walked := Pass.walked_of_cell hy
    rw [Pass.parent_of_inner hx t.book inner, parent y hy listed, Option.map_some, if_pos walked,
      shown]
    rfl
  · intro k hk
    obtain ⟨z, hz, rowZ, rfl⟩ := (mem_copiesIn hrow).mp hk
    rw [isNested_iff hz, Bool.not_eq_true]
    intro throughZ
    have lists := id_mem_children_iff hz grounded hx (rowZ.trans own.symm) throughZ
    refine lists.trans ⟨fun listedZ => ?_, fun same => ?_⟩
    · have ids := Option.some.inj ((parent z hz listedZ).symm.trans (parent y hy listed))
      rw [t.pass.cell_eq_of_slot hz hy]
      rw [Cell.slot, Cell.slot, ids, rowZ, row, own]
    · obtain rfl := cell_eq_of_row hz grounded hy (rowZ.trans (row.trans own).symm)
        (congrArg Instance.id same)
      exact listed

theorem isClosed (grounded : t.repeater.Grounded)
    (unminted : t.request.Unminted t.repeater.config.stem) : t.IsClosed row := by
  intro i hi link hlink other hother apart projected j hj same
  obtain ⟨x, hx, own, rfl⟩ := (mem_copiesIn hrow).mp hi
  obtain ⟨z, hz, row', rfl⟩ := (mem_copiesIn hother).mp hj
  rcases Pass.links_instanceIn hx t.book hlink with ⟨y, hy, row, shown⟩ | authored
  · have cell := Pass.distinct_run grounded unminted.template y hy z hz (shown.trans same.symm)
    exact apart (row'.symm.trans (cell ▸ row.trans own))
  · obtain ⟨-, editable, -⟩ := row_of_mem_rows hother
    rw [projected, ← row'] at editable
    have after := Repeater.grounded_run grounded t.request
    have held := (Repeater.after_run t.repeater t.request).held
    obtain ⟨n, minted⟩ := Pass.idOf_eq_minted after.balanced held hz
    have stem : t.book.stem = t.repeater.config.stem := after.stem
    have shown : t.pass.idIn t.book z = SlotBook.mintedId t.repeater.config.stem n := by
      rw [t.pass.idIn_of_projected t.book editable.symm, ← stem]
      exact minted
    exact unminted link authored n (same.symm.trans shown)

theorem renamesBindings : t.RenamesBindings row := by
  intro i hi unique word plain rest words
  obtain ⟨x, hx, own, rfl⟩ := (mem_copiesIn hrow).mp hi
  obtain ⟨-, editable, layout⟩ := row_of_mem_rows hrow
  have scope : ∀ y, y.row = row.row → t.pass.scopeIn t.book y = t.scopeOf row := by
    intro y same
    rw [scopeOf, Pass.scopeIn, same, layout, editable]
  have found : (t.scopeOf row).names.find? x.node.name = some (t.pass.widgetIn t.book x).name := by
    rw [← scope x own]
    refine Pass.find?_names_layoutIn t.book hx fun y hy name => ?_
    obtain ⟨same, node⟩ := t.pass.mem_rowCells.mp hy
    have hy : y ∈ t.pass.cells :=
      t.pass.mem_cells.mpr ⟨same ▸ (t.pass.mem_cells.mp hx).1, node⟩
    have copy := unique _ ((mem_copiesIn hrow).mpr ⟨y, hy, same.trans own, rfl⟩) name
    apply t.pass.cell_eq_of_slot hy hx
    rw [Cell.slot, Cell.slot, same, show y.id = x.id from congrArg Instance.templateId copy]
  have localized := Scope.localize_name (t.scopeOf row) word plain found words
  refine ⟨localized, fun k hk n node key used bound => ?_⟩
  obtain ⟨y, hy, same, rfl⟩ := (mem_copiesIn hrow).mp hk
  cases node.symm.trans (t.pass.mem_nodes_iff.mp (t.pass.mem_cells.mp hy).2).2
  have plain : ¬(t.pass.walk.root? = some y.id ∧ key = "data") := by
    rw [(Pass.root_of_cell hy).1, Option.some.injEq, eq_comm]
    exact used
  rw [Pass.find?_props_instanceIn, if_neg plain, bound, Option.map_some, scope y same]
  exact congrArg (fun text => some (Field.binding text)) localized

/-- A row that is rebuilt is emitted as its copies. -/
theorem find?_emitted (grounded : t.repeater.Grounded)
    (unminted : t.request.template.Unminted t.repeater.config.stem)
    (rebuilt : (t.pass.compare t.repeater.shown).rebuilds row = true) {i : Instance}
    (hi : i ∈ t.copiesIn row) : t.outcome.emission.instances.find? i.id = some i := by
  obtain ⟨x, hx, own, rfl⟩ := (mem_copiesIn hrow).mp hi
  obtain ⟨-, editable, -⟩ := row_of_mem_rows hrow
  have rendered :
      (t.pass.compare t.repeater.shown).rebuilds (t.pass.rowIn t.book x.row) = true := by
    rw [← rebuilt, own]
    simp only [Comparison.rebuilds, Comparison.rowChanged, Pass.rowIn, editable]
  have made : x ∈ t.pass.cells.filter
      (t.pass.emits t.book (t.pass.compare t.repeater.shown)) := by
    rw [List.mem_filter, Pass.emits, rendered]
    exact ⟨hx, rfl⟩
  rw [outcome, Repeater.instances_run]
  exact Pass.find?_instancesIn (Pass.distinct_run grounded unminted)
    ((Pass.nodup_cells _ _).filter _) (fun _ h => (List.mem_filter.mp h).1) made

end Row

end Turn

namespace Session

/-- In every pass of a repeater that starts without stored ids, every row rendered without a
restriction is a copy of the walked template, whatever the template refers to. Its bindings of
unique names are bindings of its own instances; its parents are right where children name their
parents; and where no authored id looks minted, it is linked to no instance of another projected
row, and emitted as this copy if it is rebuilt. -/
theorem rows_copied (c : Config) (calls : List Call) {t : Turn}
    (ht : t ∈ (create c none).turns calls) {row : PassRow} (hrow : row ∈ t.rows) :
    t.CopiesWalk row ∧ t.RenamesBindings row ∧
    (t.request.template.NamesParents → t.CopiesParents row) ∧
    (t.request.Unminted c.stem → t.IsClosed row ∧
      ((t.pass.compare t.repeater.shown).rebuilds row = true → ∀ i ∈ t.copiesIn row,
        t.outcome.emission.instances.find? i.id = some i)) := by
  obtain ⟨grounded, rfl⟩ := grounded_of_turn (Repeater.grounded_create c) ht
  refine ⟨Turn.copiesWalk hrow grounded, Turn.renamesBindings hrow,
    Turn.copiesParents hrow grounded, fun unminted => ⟨Turn.isClosed hrow grounded unminted, ?_⟩⟩
  intro rebuilt i hi
  exact Turn.find?_emitted hrow grounded unminted.template rebuilt hi

/-- Two rows, one of them projected, of a text that speaks of the list beside it. The container also
lists a widget that is missing. -/
def copyingCalls : List Call :=
  [.options
    { Request.blank "" ⟨"main"⟩ ⟨"row"⟩ (.ofNodes
        [Sample.node ⟨"row"⟩ ⟨"main"⟩ "Row" "CONTAINER_WIDGET" [⟨"text"⟩, ⟨"ghost"⟩, ⟨"list"⟩],
         Sample.withText (Sample.node ⟨"text"⟩ ⟨"row"⟩ "Text1" "TEXT_WIDGET" []) "text"
           (mustache "List1"),
         Sample.node ⟨"list"⟩ ⟨"row"⟩ "List1" "LIST_WIDGET_V2" [⟨"item"⟩],
         Sample.node ⟨"item"⟩ ⟨"list"⟩ "Item1" "CONTAINER_WIDGET" []]) with
      records := [.null, .null]
      keys := [.ofNat 0, .ofNat 1]
      pageSize := 2 },
   .generate]

theorem rows_copied_copyingCalls :
    ∃ t ∈ (create .standard none).turns copyingCalls, ∃ row ∈ t.rows,
      t.request.template.NamesParents ∧ t.request.Unminted Config.standard.stem ∧
      (t.pass.compare t.repeater.shown).rebuilds row = true ∧
      t.CopiesWalk row ∧ t.CopiesParents row ∧ t.IsClosed row ∧
      (t.copiesIn row).map (fun i => (i.id, i.children)) =
        [(⟨"meta_4"⟩, [⟨"meta_5"⟩, ⟨"meta_6"⟩]), (⟨"meta_5"⟩, []), (⟨"meta_6"⟩, [⟨"item"⟩])] ∧
      Binding.localize (t.scopeOf row) (mustache "List1") = mustache "List1_meta_6" := by
  have projected : ∃ t ∈ (create .standard none).turns copyingCalls, ∃ row ∈ t.rows,
      t.request.template.NamesParents ∧
      (∀ id ∈ t.request.authoredIds, ¬Config.standard.stem.toList <+: id.text.toList) ∧
      (t.pass.compare t.repeater.shown).rebuilds row = true ∧
      (t.copiesIn row).map (fun i => (i.id, i.children)) =
        [(⟨"meta_4"⟩, [⟨"meta_5"⟩, ⟨"meta_6"⟩]), (⟨"meta_5"⟩, []), (⟨"meta_6"⟩, [⟨"item"⟩])] ∧
      ∃ i ∈ t.copiesIn row, i.templateName = "List1" ∧ i.name = "List1_meta_6" ∧
        ∀ j ∈ t.copiesIn row, j.templateName = i.templateName → j = i := by
    decide +kernel
  obtain ⟨t, ht, row, hrow, named, apart, rebuilt, shown, i, hi, name, own, unique⟩ := projected
  have unminted := Request.unminted_of_apart apart
  obtain ⟨copies, renames, parents, closed⟩ := rows_copied .standard copyingCalls ht hrow
  have list := (renames i hi unique (by rw [name]; decide) (by rw [name]; decide) []
    (fun _ h => nomatch h)).1
  rw [name, own] at list
  exact ⟨t, ht, row, hrow, named, unminted, rebuilt, copies, parents named, (closed unminted).1,
    shown, list⟩

end Session

end ListRepeater
