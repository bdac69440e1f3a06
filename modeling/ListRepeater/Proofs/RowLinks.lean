import ListRepeater.Proofs.RowContext
import ListRepeater.Proofs.SlotIdentity
/-!
# Parents and children in a row

An instance names the instances of its parent and children in its row. Which of them are there
depends on the whole template, so an instance that a pass leaves alone keeps the links of the row
before. These are what a full render gives it exactly if no child got a node or lost it and the
parent did not come into the walk or leave it.
-/
namespace ListRepeater

/-- The instances have the same parent and children. -/
structure Instance.SameLinks (i j : Instance) : Prop where
  parent : i.parent = j.parent
  children : i.children = j.children

theorem Instance.sameLinks_equivalence : Equivalence SameLinks where
  refl _ := ⟨rfl, rfl⟩
  symm h := ⟨h.parent.symm, h.children.symm⟩
  trans h h' := ⟨h.parent.trans h'.parent, h.children.trans h'.children⟩

instance : DecidableRel Instance.SameLinks := fun i j =>
  decidable_of_iff (i.parent = j.parent ∧ i.children = j.children)
    ⟨fun h => ⟨h.1, h.2⟩, fun h => ⟨h.parent, h.children⟩⟩

/-- Partial maps that give no two elements one value map a list alike only if they agree on it. -/
theorem filterMap_eq_iff {α β : Type} {f g : α → Option β} {l : List α}
    (distinct : ∀ a b v, f a = some v → g b = some v → a = b) :
    l.filterMap f = l.filterMap g ↔ ∀ a ∈ l, f a = g a := by
  constructor
  · intro same a ha
    cases hf : f a with
    | some v =>
      have listed : v ∈ l.filterMap g := same ▸ List.mem_filterMap.mpr ⟨a, ha, hf⟩
      obtain ⟨b, -, hg⟩ := List.mem_filterMap.mp listed
      rw [distinct a b v hf hg, hg]
    | none =>
      cases hg : g a with
      | none => rfl
      | some v =>
        have listed : v ∈ l.filterMap f := same ▸ List.mem_filterMap.mpr ⟨a, ha, hg⟩
        obtain ⟨b, -, hf'⟩ := List.mem_filterMap.mp listed
        rw [distinct b a v hf' hg, hf] at hf'
        cases hf'
  · exact List.filterMap_congr

namespace Pass

/-- The instance that stands for a walked node in a row. -/
def shownAs (p : Pass) (b : SlotBook) (row : WindowRow) (id : WidgetId) : WidgetId :=
  if p.isEditable row then id else b.idOf ⟨row.place.key, id⟩

/-- The children of the cell have nodes in both templates or in neither, unless it is a list of its
own, and outside the editable row its parent is walked by both passes or by neither. -/
structure LinksAlike (p₀ p : Pass) (x : Cell) : Prop where
  children : p.walk.isStop x.id = false → ∀ id ∈ x.node.children,
    p₀.request.template.contains id = p.request.template.contains id
  parent : p.isEditable x.row = false → p.walk.root? ≠ some x.id → ∀ id ∈ x.node.parent,
    (id ∈ p₀.walk.order ↔ id ∈ p.walk.order)

instance (p₀ p : Pass) (x : Cell) : Decidable (p₀.LinksAlike p x) :=
  decidable_of_iff
    ((p.walk.isStop x.id = false → ∀ id ∈ x.node.children,
        p₀.request.template.contains id = p.request.template.contains id) ∧
      (p.isEditable x.row = false → p.walk.root? ≠ some x.id → ∀ id ∈ x.node.parent,
        (id ∈ p₀.walk.order ↔ id ∈ p.walk.order)))
    ⟨fun h => ⟨h.1, h.2⟩, fun h => ⟨h.children, h.parent⟩⟩

variable {c : Config} {q : Request} {x : Cell}

/-- A row has an instance for every walked node and for nothing else. -/
theorem instanceId?_layoutIn {row : WindowRow} (hrow : row ∈ (ofRequest c q).windowRows)
    (b : SlotBook) (id : WidgetId) : ((ofRequest c q).layoutIn b row).instanceId? id =
      if id ∈ (ofRequest c q).walk.order then some ((ofRequest c q).shownAs b row id) else none := by
  by_cases walked : id ∈ (ofRequest c q).walk.order
  · obtain ⟨n, found⟩ := found_of_mem_walk walked
    have cell : (⟨row, id, n⟩ : Cell) ∈ (ofRequest c q).cells :=
      (mem_cells _).mpr ⟨hrow, (mem_nodes_iff _).mpr ⟨walked, found⟩⟩
    rw [if_pos walked, RowLayout.instanceId?, widget?_layoutIn cell b]
    rfl
  · rw [if_neg walked, RowLayout.instanceId?, Option.map_eq_none_iff]
    refine List.find?_eq_none.mpr fun w hw => ?_
    obtain ⟨y, hy, rfl⟩ := List.mem_map.mp hw
    rw [beq_iff_eq]
    rintro rfl
    exact walked ((mem_nodes_iff _).mp ((mem_rowCells _).mp hy).2).1

/-- Unless the walk stops there, a child of a walked node is walked exactly if it has a node. -/
theorem child_mem_walk_iff (hx : x ∈ (ofRequest c q).cells)
    (through : (ofRequest c q).walk.isStop x.id = false) {child : WidgetId}
    (hchild : child ∈ x.node.children) :
    child ∈ (ofRequest c q).walk.order ↔ q.template.contains child = true := by
  obtain ⟨walked, found⟩ := (mem_nodes_iff _).mp ((mem_cells _).mp hx).2
  rw [Keyed.contains, Option.isSome_iff_exists]
  constructor
  · exact found_of_mem_walk
  · rintro ⟨m, hm⟩
    exact mem_walk_of_child walked through found hchild hm

end Pass

namespace Turn

section Rows

variable {t : Turn} {row : WindowRow} (hrow : row ∈ t.pass.windowRows) {id : WidgetId}
  (walked : id ∈ t.pass.walk.order)

include hrow walked

theorem get?_of_walked : t.book.get? ⟨row.place.key, id⟩ =
    some (t.book.idOf ⟨row.place.key, id⟩) := by
  obtain ⟨i, held⟩ := Repeater.held_run t.repeater t.request (Pass.slot_mem_of_walked hrow walked)
  have own : t.book.idOf ⟨row.place.key, id⟩ = i := SlotBook.idOf_of_get? held
  rw [own]
  exact held

/-- A node is its own instance in the editable row alone. -/
theorem shownAs_eq_self_iff (grounded : t.repeater.Grounded)
    (unminted : t.request.template.Unminted t.repeater.config.stem) :
    t.pass.shownAs t.book row id = id ↔ t.pass.isEditable row = true := by
  rw [Pass.shownAs]
  split
  · next editable => exact iff_of_true rfl editable
  · next projected =>
    have after := Repeater.grounded_run grounded t.request
    obtain ⟨n, minted⟩ := after.balanced.minted_of_get? (get?_of_walked hrow walked)
    obtain ⟨m, found⟩ := found_of_mem_walk walked
    rw [minted, after.stem]
    exact iff_of_false (unminted id (Keyed.mem_keys_of_find? found) n).symm projected

end Rows

section Carried

variable {a b : Turn} (follows : b.Follows a.outcome.next a.mountedAfter) {x y : Cell}
  (hx : x ∈ b.pass.cells) (h : Pass.Carries a.pass b.pass y x)

include follows hx h

/-- In a row around a cell that is left alone, a node that both passes walk is one instance. -/
theorem shownAs_eq {id : WidgetId} (before : id ∈ a.pass.walk.order)
    (after : id ∈ b.pass.walk.order) :
    a.pass.shownAs a.book y.row id = b.pass.shownAs b.book x.row id := by
  have key : y.row.place.key = x.row.place.key := congrArg Place.key h.place
  rw [Pass.shownAs, Pass.shownAs, SlotBook.idOf, SlotBook.idOf, h.editable, key,
    follows.get?_eq_of_carries hx h before after]

/-- No instance changes over to another node of such a row. -/
theorem id_eq_of_shownAs (balanced : b.repeater.book.Balanced) {id id' : WidgetId}
    (before : id ∈ a.pass.walk.order) (after : id' ∈ b.pass.walk.order)
    (same : a.pass.shownAs a.book y.row id = b.pass.shownAs b.book x.row id') : id = id' := by
  cases editable : b.pass.isEditable x.row with
  | true =>
    rwa [Pass.shownAs, Pass.shownAs, h.editable, editable, if_pos rfl, if_pos rfl] at same
  | false =>
    rw [Pass.shownAs, Pass.shownAs, h.editable, editable, if_neg Bool.false_ne_true,
      if_neg Bool.false_ne_true] at same
    have old : b.repeater.book.get? ⟨y.row.place.key, id⟩ =
        some (a.book.idOf ⟨y.row.place.key, id⟩) := by
      rw [follows.book]
      exact get?_of_walked (a.pass.mem_cells.mp h.before).1 before
    have row := (b.pass.mem_cells.mp hx).1
    have new := get?_of_walked row after
    have slot := slot_eq_of_get? balanced old (Pass.slot_mem_of_walked row after) (same ▸ new)
    exact congrArg Slot.template slot

/-- Such a row has the same instance for a node in both passes exactly if both walk it or neither
does. -/
theorem instanceId?_eq_iff (id : WidgetId) :
    (a.pass.layoutIn a.book y.row).instanceId? id = (b.pass.layoutIn b.book x.row).instanceId? id ↔
      (id ∈ a.pass.walk.order ↔ id ∈ b.pass.walk.order) := by
  rw [Pass.instanceId?_layoutIn (a.pass.mem_cells.mp h.before).1,
    Pass.instanceId?_layoutIn (b.pass.mem_cells.mp hx).1]
  by_cases before : id ∈ a.pass.walk.order <;> by_cases after : id ∈ b.pass.walk.order
  · simp [before, after, shownAs_eq follows hx h before after]
  all_goals simp [before, after]

theorem children_eq_iff (balanced : b.repeater.book.Balanced) :
    (a.pass.instanceIn a.book y).children = (b.pass.instanceIn b.book x).children ↔
      (b.pass.walk.isStop x.id = false → ∀ id ∈ x.node.children,
        a.request.template.contains id = b.request.template.contains id) := by
  obtain ⟨-, -, -, -, children, -⟩ := Node.same_iff.mp h.node
  have stop := follows.isStop_congr hx h
  have listedA : (a.pass.instanceIn a.book y).children = if a.pass.walk.isStop y.id then
      y.node.children else y.node.children.filterMap (a.pass.layoutIn a.book y.row).instanceId? := rfl
  have listedB : (b.pass.instanceIn b.book x).children = if b.pass.walk.isStop x.id then
      x.node.children else x.node.children.filterMap (b.pass.layoutIn b.book x.row).instanceId? := rfl
  rw [listedA, listedB, stop, children]
  cases through : b.pass.walk.isStop x.id with
  | true => simp
  | false =>
    have distinct : ∀ id id' i, (a.pass.layoutIn a.book y.row).instanceId? id = some i →
        (b.pass.layoutIn b.book x.row).instanceId? id' = some i → id = id' := by
      intro id id' i before after
      rw [Pass.instanceId?_layoutIn (a.pass.mem_cells.mp h.before).1, Option.ite_none_right_eq_some,
        Option.some.injEq] at before
      rw [Pass.instanceId?_layoutIn (b.pass.mem_cells.mp hx).1, Option.ite_none_right_eq_some,
        Option.some.injEq] at after
      exact id_eq_of_shownAs follows hx h balanced before.1 after.1 (before.2.trans after.2.symm)
    rw [if_neg Bool.false_ne_true, if_neg Bool.false_ne_true, filterMap_eq_iff distinct]
    simp only [forall_const]
    refine forall₂_congr fun id hid => ?_
    have walkedA := Pass.child_mem_walk_iff h.before (stop.trans through) (children ▸ hid)
    have walkedB := Pass.child_mem_walk_iff hx through hid
    rw [instanceId?_eq_iff follows hx h, walkedA, walkedB]
    exact Bool.eq_iff_iff.symm

/-- A parent that is not in the row goes by its own id, which is that of no instance but in the
editable row. -/
theorem parentId_eq_iff (groundedA : a.repeater.Grounded) (groundedB : b.repeater.Grounded)
    (unmintedA : a.request.template.Unminted a.repeater.config.stem)
    (unmintedB : b.request.template.Unminted b.repeater.config.stem) (id : WidgetId) :
    ((a.pass.layoutIn a.book y.row).instanceId? id).getD id =
        ((b.pass.layoutIn b.book x.row).instanceId? id).getD id ↔
      (b.pass.isEditable x.row = false → (id ∈ a.pass.walk.order ↔ id ∈ b.pass.walk.order)) := by
  have rowA := (a.pass.mem_cells.mp h.before).1
  have rowB := (b.pass.mem_cells.mp hx).1
  rw [Pass.instanceId?_layoutIn rowA, Pass.instanceId?_layoutIn rowB]
  by_cases before : id ∈ a.pass.walk.order <;> by_cases after : id ∈ b.pass.walk.order
  · simp [before, after, shownAs_eq follows hx h before after]
  · have own := shownAs_eq_self_iff rowA before groundedA unmintedA
    simp [before, after, own, h.editable]
  · have own := shownAs_eq_self_iff rowB after groundedB unmintedB
    simp [before, after, eq_comm (a := id), own]
  · simp [before, after]

theorem parent_eq_iff (groundedA : a.repeater.Grounded) (groundedB : b.repeater.Grounded)
    (unmintedA : a.request.template.Unminted a.repeater.config.stem)
    (unmintedB : b.request.template.Unminted b.repeater.config.stem) :
    (a.pass.instanceIn a.book y).parent = (b.pass.instanceIn b.book x).parent ↔
      (b.pass.isEditable x.row = false → b.pass.walk.root? ≠ some x.id → ∀ id ∈ x.node.parent,
        (id ∈ a.pass.walk.order ↔ id ∈ b.pass.walk.order)) := by
  obtain ⟨-, -, -, parent, -⟩ := Node.same_iff.mp h.node
  have namedA : (a.pass.instanceIn a.book y).parent =
      if a.pass.walk.root? == some y.id then some a.request.mount else y.node.parent.map fun id =>
        ((a.pass.layoutIn a.book y.row).instanceId? id).getD id := rfl
  have namedB : (b.pass.instanceIn b.book x).parent =
      if b.pass.walk.root? == some x.id then some b.request.mount else x.node.parent.map fun id =>
        ((b.pass.layoutIn b.book x.row).instanceId? id).getD id := rfl
  have root : a.pass.walk.root? = b.pass.walk.root? := by
    rw [(Pass.root_of_cell h.before).1, (Pass.root_of_cell hx).1]
    exact congrArg some h.root
  have mount : a.request.mount = b.request.mount := h.mount
  rw [namedA, namedB, root, h.id, parent, mount]
  by_cases container : b.pass.walk.root? = some x.id
  · simp [container]
  · cases x.node.parent with
    | none => simp
    | some id =>
      have same := parentId_eq_iff follows hx h groundedA groundedB unmintedA unmintedB id
      simp [container, same]

end Carried

/-- What the second pass leaves alone has the links of a full render. -/
def KeepsLinks (a b : Turn) : Prop :=
  ∀ x ∈ b.pass.cells, (∃ y, Pass.Carries a.pass b.pass y x) → a.pass.LinksAlike b.pass x

theorem keepsLinks_iff {a b : Turn} (follows : b.Follows a.outcome.next a.mountedAfter)
    (groundedA : a.repeater.Grounded) (groundedB : b.repeater.Grounded)
    (unmintedA : a.request.template.Unminted a.repeater.config.stem)
    (unmintedB : b.request.template.Unminted b.repeater.config.stem) :
    a.Keeps Instance.SameLinks b ↔ a.KeepsLinks b := by
  have carried : ∀ x ∈ b.pass.cells, ∀ y, Pass.Carries a.pass b.pass y x →
      (Instance.SameLinks (a.pass.instanceIn a.book y) (b.pass.instanceIn b.book x) ↔
        a.pass.LinksAlike b.pass x) := by
    intro x hx y h
    have children := children_eq_iff follows hx h groundedB.balanced
    have parent := parent_eq_iff follows hx h groundedA groundedB unmintedA unmintedB
    constructor
    · intro same
      exact ⟨children.mp same.children, parent.mp same.parent⟩
    · intro alike
      exact ⟨parent.mpr alike.parent, children.mpr alike.children⟩
  constructor
  · rintro keeps x hx ⟨y, h⟩
    exact (carried x hx y h).mp (keeps x hx y h)
  · intro keeps x hx y h
    exact (carried x hx y h).mpr (keeps x hx ⟨y, h⟩)

end Turn

namespace Session

/-- Over a run, after every pass all mounted instances have the parents and children that a repeater
gives them which is created anew, exactly if no pass leaves an instance alone while one of its
children gets a node or loses it or its parent comes into the walk or leaves it. -/
theorem links_followed_iff (c : Config) (calls : List Call)
    (unminted : ∀ q, .options q ∈ calls → q.template.Unminted c.stem) :
    (∀ t ∈ (create c none).turns calls, ∃ out, t.recreated.advance = .ok out ∧
      t.mountedAfter.Agrees Instance.SameLinks out.emission.instances) ↔
      ∀ before a b after, (create c none).turns calls = before ++ a :: b :: after →
        a.KeepsLinks b := by
  refine agrees_recreated_run_iff Instance.sameLinks_equivalence unminted ?_
  intro before a b after split
  obtain ⟨groundedA, -, apartA⟩ := turn_sound unminted (t := a) (by simp [split])
  obtain ⟨groundedB, -, apartB⟩ := turn_sound unminted (t := b) (by simp [split])
  exact Turn.keepsLinks_iff (next_turn split) groundedA groundedB apartA apartB

/-- A row with a canvas that lists these children, and with these further nodes. -/
def canvasRow (children : List WidgetId) (nodes : List Node) : Template :=
  .ofNodes
    (Sample.node ⟨"row"⟩ ⟨"main"⟩ "Row" "CONTAINER_WIDGET" [⟨"canvas"⟩] ::
      Sample.node ⟨"canvas"⟩ ⟨"row"⟩ "Canvas1" "CANVAS_WIDGET" children :: nodes)

def canvasText : Node := Sample.node ⟨"text"⟩ ⟨"canvas"⟩ "Text1" "TEXT_WIDGET" []

def canvasImage : Node := Sample.node ⟨"image"⟩ ⟨"canvas"⟩ "Image1" "IMAGE_WIDGET" []

/-- Shows one row of each template. -/
def showingEach (templates : List Template) : List Call :=
  templates.flatMap fun template =>
    [.options { Request.blank "" ⟨"main"⟩ ⟨"row"⟩ template with
      records := [.null]
      keys := [.ofNat 0] }, .generate]

/-- A text is dropped onto the canvas beside an image, which is left alone. -/
def droppingCalls : List Call :=
  showingEach [canvasRow [canvasImage.id] [canvasImage],
    canvasRow [canvasImage.id, canvasText.id] [canvasImage, canvasText]]

theorem links_kept_droppingCalls :
    (∀ q, .options q ∈ droppingCalls → q.template.Unminted Config.standard.stem) ∧
    ((create .standard none).turns droppingCalls).map (·.outcome.emission.instances.size) = [3, 3] ∧
    ((create .standard none).turns droppingCalls).map (·.pass.cells.length) = [3, 4] ∧
    ∀ before a b after, (create .standard none).turns droppingCalls = before ++ a :: b :: after →
      a.KeepsLinks b := by
  have unminted : ∀ q, .options q ∈ droppingCalls → q.template.Unminted Config.standard.stem :=
    Call.unminted_of_apart (by decide)
  have followed : ∀ t ∈ (create .standard none).turns droppingCalls,
      t.mountedAfter.Agrees Instance.SameLinks t.full := by
    decide +kernel
  refine ⟨unminted, by decide +kernel, by decide +kernel, ?_⟩
  refine (links_followed_iff .standard droppingCalls unminted).mp ?_
  exact fun t ht => (agrees_recreated_iff ht).mpr (followed t ht)

/-- The canvas lists a text that is missing at first. -/
def healingCalls : List Call :=
  showingEach [canvasRow [canvasText.id] [], canvasRow [canvasText.id] [canvasText]]

/-- The canvas stays mounted without the text that it lists. -/
theorem not_links_followed_healed :
    ¬∀ (c : Config) (calls : List Call),
      (∀ q, .options q ∈ calls → q.template.Unminted c.stem) →
      (∀ q, .options q ∈ calls → q.template.OwnKeyed) →
      (∀ q, .options q ∈ calls → q.template.Linked) →
      (∀ before a b after, (create c none).turns calls = before ++ a :: b :: after →
        ¬a.pass.Resets b.pass) →
      ∀ t ∈ (create c none).turns calls, ∃ out, t.recreated.advance = .ok out ∧
        t.mountedAfter.Agrees Instance.SameLinks out.emission.instances := by
  have unminted : ∀ q, .options q ∈ healingCalls → q.template.Unminted pageConfig.stem :=
    Call.unminted_of_apart (by decide)
  have own : ∀ q, .options q ∈ healingCalls → q.template.OwnKeyed :=
    Call.ownKeyed_of_entries (by decide)
  have linked : ∀ q, .options q ∈ healingCalls → q.template.Linked :=
    Call.forall_options_iff.mpr (by decide)
  have unreset : ((create pageConfig none).turns healingCalls).IsChain fun a b =>
      ¬a.pass.Resets b.pass := by
    decide +kernel
  have stale : ∃ t ∈ (create pageConfig none).turns healingCalls,
      ¬t.mountedAfter.Agrees Instance.SameLinks t.full := by
    decide +kernel
  exact not_followed_of_stale unminted own linked unreset stale

end Session

end ListRepeater
