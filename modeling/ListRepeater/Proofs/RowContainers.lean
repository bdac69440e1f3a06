import ListRepeater.Proofs.RowContext
import ListRepeater.Proofs.SlotIdentity
/-!
# Row containers

The instance of a row container shows the whole row: its children are those of the row, and the
view that it holds under `data` lists what the other widgets of the row expose. A pass leaves a row
container alone only if the shape of the row is what it was, and all that the container shows of
the other widgets depends on the shape. So over a run the mounted row containers are always those
of a full render, however the templates change.
-/
namespace ListRepeater

/-- An instance that is the same as another has its bindings. -/
theorem Instance.find?_binding_of_same {i j : Instance} (same : i.same j = true) {key text : String}
    (bound : j.props.find? key = some (.binding text)) :
    i.props.find? key = some (.binding text) := by
  have props := Keyed.same_iff.mp (same_iff.mp same).props key
  obtain ⟨f, found, alike⟩ := exists_of_rel_some props bound
  cases f with
  | literal v => cases alike
  | binding text' => rw [found, show text' = text by simpa [Field.same] using alike]

namespace Turn

/-- What is mounted for the cell after the pass is related to its instance in the full render. -/
def Mounts (rel : Instance → Instance → Prop) (t : Turn) (x : Cell) : Prop :=
  ∃ i, t.mountedAfter.find? (t.pass.idIn t.book x) = some i ∧ rel i (t.pass.instanceIn t.book x)

/-- Instances of the row containers are related where a pass leaves them alone. -/
def KeepsContainers (rel : Instance → Instance → Prop) (a b : Turn) : Prop :=
  ∀ x ∈ b.pass.cells, x.id = b.request.root → ∀ y, Pass.Carries a.pass b.pass y x →
    rel (a.pass.instanceIn a.book y) (b.pass.instanceIn b.book x)

/-- What the widgets of a row expose, in the order of the walk and each under its name; the row
container shows it and is left out. -/
def listings (t : Turn) (row : PassRow) : List (String × String) :=
  ((row.layout.widgets.filter fun w => w.templateId ≠ t.request.root).map fun w =>
    (w.node.name, t.repeater.config.exposure.listing w.node.kind w.name)).filter fun e => e.2 ≠ ""

/-- The client has the row container of the row mounted as the full render has it: with the listings
of the other walked widgets under `data`. -/
def ContainerCurrent (t : Turn) (full : Mounted) (row : PassRow) : Prop :=
  row.layout.widgets.map (·.templateId) = t.pass.walk.order ∧
    ∃ w ∈ row.layout.widgets, w.templateId = t.request.root ∧
      ∃ i j, t.mountedAfter.find? w.instanceId = some i ∧ full.find? w.instanceId = some j ∧
        i.same j = true ∧ j.templateId = t.request.root ∧ j.viewIndex = row.row.place.view ∧
        i.props.find? "data" = some (.binding (mustache (" " ++ viewText (t.listings row) ++ " ")))

variable {a b : Turn}

/-- A pass keeps the row containers that it leaves alone, since it compares the shape for them. -/
theorem keepsContainers (follows : b.Follows a.outcome.next a.mountedAfter)
    (ownA : a.request.template.OwnKeyed) (ownB : b.request.template.OwnKeyed)
    (order : sameAncestry a.request.ancestry b.request.ancestry = true →
      SameOrder a.request.ancestry b.request.ancestry) :
    a.KeepsContainers (fun i j => i.same j = true) b := by
  intro x hx root y h
  have rooted : b.pass.walk.root? = some x.id := by
    rw [(Pass.root_of_cell hx).1, root]
  have shape : a.pass.shape = b.pass.shape := h.shape.resolve_right (not_not_intro rooted)
  exact keeps_of_shape follows ownA ownB shape (order h.ancestry) x hx y h

section Mounting

variable {rel : Instance → Instance → Prop} {x y : Cell}

theorem mounts_of_emits (refl : ∀ i, rel i i) (grounded : b.repeater.Grounded)
    (unminted : b.request.template.Unminted b.repeater.config.stem) (hx : x ∈ b.pass.cells)
    (made : b.pass.emits b.book (b.pass.compare b.repeater.shown) x = true) : b.Mounts rel x :=
  ⟨_, Repeater.find?_applyTo_of_emits grounded unminted hx made, refl _⟩

/-- A cell that is left alone stays mounted as the pass before had it. -/
theorem mounts_of_carries (equiv : Equivalence rel)
    (follows : b.Follows a.outcome.next a.mountedAfter) (grounded : b.repeater.Grounded)
    (unmintedA : a.request.template.Unminted b.repeater.config.stem)
    (unminted : b.request.template.Unminted b.repeater.config.stem) (hx : x ∈ b.pass.cells)
    (h : Pass.Carries a.pass b.pass y x) (before : a.Mounts rel y)
    (kept : rel (a.pass.instanceIn a.book y) (b.pass.instanceIn b.book x)) : b.Mounts rel x := by
  obtain ⟨i, mounted, related⟩ := before
  have stays := Repeater.find?_applyTo_of_carries grounded follows.after unmintedA unminted
    (m := b.mounted) hx (follows.pass_eq.symm ▸ h)
  rw [follows.pass_eq] at stays
  refine ⟨i, stays.trans ?_, equiv.trans related kept⟩
  rw [follows.mounted, follows.book]
  exact mounted

end Mounting

section Rows

variable {t : Turn} {row : PassRow} (hrow : row ∈ t.rows)

include hrow

theorem templateIds_of_row :
    row.layout.widgets.map (·.templateId) = t.pass.walk.order := by
  obtain ⟨-, -, layout⟩ := row_of_mem_rows hrow
  rw [layout, ← Pass.map_fst_nodes]
  simp only [Pass.layoutIn, RowLayout.ofWidgets, Pass.rowCells, List.map_map]
  rfl

/-- Every row that a pass shows has a row container. -/
theorem exists_container : ∃ x ∈ t.pass.cells, x.row = row.row ∧ x.id = t.request.root ∧
    t.pass.widgetIn t.book x ∈ row.layout.widgets := by
  obtain ⟨hwindow, -, layout⟩ := row_of_mem_rows hrow
  have walked : t.pass.walk.order ≠ [] := by
    intro none
    have empty : t.pass.windowRows = [] := by
      simp [Pass.windowRows, Pass.windowRecords, Pass.window, none, RowKey.separate,
        RowKey.separateFrom]
    rw [empty] at hwindow
    cases hwindow
  have head : t.pass.walk.root? = some t.request.root := head?_walk walked
  have first : t.request.root ∈ t.pass.walk.order := List.mem_of_head? head
  obtain ⟨n, found⟩ := found_of_mem_walk first
  have node : (t.request.root, n) ∈ t.pass.nodes := t.pass.mem_nodes_iff.mpr ⟨first, found⟩
  refine ⟨⟨row.row, t.request.root, n⟩, t.pass.mem_cells.mpr ⟨hwindow, node⟩, rfl, rfl, ?_⟩
  rw [layout]
  exact List.mem_map_of_mem (t.pass.mem_rowCells.mpr ⟨rfl, node⟩)

theorem find?_data {x : Cell} (hx : x ∈ t.pass.cells) (window : x.row = row.row)
    (root : x.id = t.request.root) : (t.pass.instanceIn t.book x).props.find? "data" =
      some (.binding (mustache (" " ++ viewText (t.listings row) ++ " "))) := by
  have head : t.pass.walk.root? = some t.request.root := (Pass.root_of_cell hx).1
  have view : (t.pass.layoutIn t.book x.row).view = viewText (t.listings row) := by
    obtain ⟨-, -, layout⟩ := row_of_mem_rows hrow
    rw [listings, layout, window, Pass.layoutIn, RowLayout.ofWidgets, head]
    simp only [ne_eq, Option.some.injEq, eq_comm (a := t.request.root)]
    rfl
  rw [Pass.find?_props_instanceIn, if_pos ⟨head.trans (congrArg some root.symm), rfl⟩, view]

end Rows

end Turn

namespace Session

variable {rel : Instance → Instance → Prop} {c : Config} {calls : List Call}

/-- Row containers that are kept by every pass are mounted as the full render has them. -/
theorem mounts_containers (equiv : Equivalence rel)
    (unminted : ∀ q, .options q ∈ calls → q.template.Unminted c.stem)
    (keeps : ∀ before a b after, (create c none).turns calls = before ++ a :: b :: after →
      a.KeepsContainers rel b)
    {t : Turn} (ht : t ∈ (create c none).turns calls) :
    ∀ x ∈ t.pass.cells, x.id = t.request.root → t.Mounts rel x := by
  obtain ⟨before, after, split⟩ := List.mem_iff_append.mp ht
  clear ht
  -- from the first pass to the last: a row container is rendered, or it was mounted before
  induction before using List.reverseRecOn generalizing t after with
  | nil =>
    intro x hx _
    obtain ⟨grounded, -, apart⟩ := turn_sound unminted (t := t) (by simp [split])
    have first : t.repeater.shown = none := (first_turn split).1.shown
    refine Turn.mounts_of_emits equiv.refl grounded apart hx ?_
    rw [first]
    exact Pass.emits_of_first x
  | append_singleton before a ih =>
    rw [List.append_assoc, List.singleton_append] at split
    intro x hx root
    obtain ⟨grounded, -, apart⟩ := turn_sound unminted (t := t) (by simp [split])
    obtain ⟨-, configA, apartA⟩ := turn_sound unminted (t := a) (by simp [split])
    have follows := next_turn split
    cases made : t.pass.emits t.book (t.pass.compare t.repeater.shown) x with
    | true => exact Turn.mounts_of_emits equiv.refl grounded apart hx made
    | false =>
      rw [follows.after.shown, Pass.emits_eq_false_iff hx, follows.pass_eq] at made
      obtain ⟨y, h⟩ := made
      have rootA : y.id = a.request.root := h.id.trans (root.trans h.root.symm)
      refine Turn.mounts_of_carries equiv follows grounded ?_ apart hx h
        (ih (t :: after) split y h.before rootA) (keeps _ _ _ _ split x hx root y h)
      rw [follows.config]
      exact apartA

/-- Over any run, after every pass the mounted row container of each row is the one that a repeater
makes which is created anew, and it shows what the other widgets of its row expose. -/
theorem containers_current (c : Config) (calls : List Call)
    (unminted : ∀ q, .options q ∈ calls → q.template.Unminted c.stem)
    (own : ∀ q, .options q ∈ calls → q.template.OwnKeyed)
    (order : ∀ before a b after, (create c none).turns calls = before ++ a :: b :: after →
      sameAncestry a.request.ancestry b.request.ancestry = true →
        SameOrder a.request.ancestry b.request.ancestry) :
    ∀ t ∈ (create c none).turns calls, ∃ out, t.recreated.advance = .ok out ∧
      ∀ row ∈ t.rows, t.ContainerCurrent out.emission.instances row := by
  have owned : ∀ t ∈ (create c none).turns calls, t.request.template.OwnKeyed := fun _ ht =>
    request_of_turn (P := fun q => q.template.OwnKeyed) own ht
  have keeps : ∀ before a b after, (create c none).turns calls = before ++ a :: b :: after →
      a.KeepsContainers (fun i j => i.same j = true) b := by
    intro before a b after split
    exact Turn.keepsContainers (next_turn split) (owned a (by simp [split]))
      (owned b (by simp [split])) (order before a b after split)
  intro t ht
  obtain ⟨out, advanced, full⟩ := t.advance_recreated (checked_of_turn ht)
  refine ⟨out, advanced, fun row hrow => ?_⟩
  obtain ⟨x, hx, window, root, widget⟩ := Turn.exists_container hrow
  obtain ⟨grounded, -, apart⟩ := turn_sound unminted ht
  obtain ⟨i, mounted, same⟩ := mounts_containers Instance.same_equivalence unminted keeps ht x hx root
  refine ⟨Turn.templateIds_of_row hrow, _, widget, root, i, _, mounted, ?_, same, root,
    window ▸ rfl, ?_⟩
  · rw [full]
    exact Pass.find?_fullIn (Pass.distinct_run grounded apart) hx
  · exact Instance.find?_binding_of_same same (Turn.find?_data hrow hx window root)

/-- The run that leaves a sibling mounted with an old name keeps the row container current. -/
theorem containers_current_replacingCalls :
    (∀ q, .options q ∈ replacingCalls → q.template.Unminted pageConfig.stem) ∧
    (∀ q, .options q ∈ replacingCalls → q.template.OwnKeyed) ∧
    ((create pageConfig none).turns replacingCalls).map (·.rows.length) = [1, 1] ∧
    ∀ t ∈ (create pageConfig none).turns replacingCalls, ∃ out, t.recreated.advance = .ok out ∧
      ∀ row ∈ t.rows, t.ContainerCurrent out.emission.instances row := by
  have unminted : ∀ q, .options q ∈ replacingCalls → q.template.Unminted pageConfig.stem :=
    Call.unminted_of_apart (by decide)
  have own : ∀ q, .options q ∈ replacingCalls → q.template.OwnKeyed :=
    Call.ownKeyed_of_entries (by decide)
  have outermost : ∀ t ∈ (create pageConfig none).turns replacingCalls,
      t.request.ancestry = none := by
    decide +kernel
  refine ⟨unminted, own, by decide +kernel, ?_⟩
  refine containers_current pageConfig replacingCalls unminted own ?_
  intro before a b after split _ x hx
  rw [outermost a (by simp [split])] at hx
  cases hx

end Session

end ListRepeater
