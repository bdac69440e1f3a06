import ListRepeater.Proofs.PassState
/-!
# The cells that a pass leaves alone

A pass does not render a cell exactly when the pass before it showed a cell at the same place, over
a record of the same written form and a node defined alike, and nothing that the rows share was
reset. Such a cell keeps its instance id.
-/
namespace ListRepeater

namespace Pass

/-- What the second pass finds unchanged about its cell `x`, which the first pass showed as `y`. -/
structure Carries (p₀ p : Pass) (y x : Cell) : Prop where
  before : y ∈ p₀.cells
  place : y.row.place = x.row.place
  record : fingerprint y.row.record = fingerprint x.row.record
  editable : p₀.isEditable y.row = p.isEditable x.row
  id : y.id = x.id
  node : y.node.same x.node = true
  page : p.scrolls = true ∨ p₀.request.pageNo = p.request.pageNo
  listName : p₀.listName = p.listName
  ancestry : sameAncestry p₀.request.ancestry p.request.ancestry = true
  mount : p₀.request.mount = p.request.mount
  root : p₀.request.root = p.request.root
  shape : p₀.shape = p.shape ∨ p.walk.root? ≠ some x.id

variable {p₀ p : Pass} {b₀ b : SlotBook} {x y : Cell}

theorem Carries.slot (h : Carries p₀ p y x) : y.slot = x.slot := by
  rw [Cell.slot, Cell.slot, h.place, h.id]

theorem isReset_shownIn_eq_false_iff : p.isReset (some (p₀.shownIn b₀)) = false ↔
    (p.scrolls = true ∨ p₀.request.pageNo = p.request.pageNo) ∧ p₀.listName = p.listName ∧
      sameAncestry p₀.request.ancestry p.request.ancestry = true ∧
      p₀.request.mount = p.request.mount ∧ p₀.request.root = p.request.root := by
  simp only [isReset, shownIn, Repeater.remember, Bool.or_eq_false_iff, Bool.and_eq_false_iff,
    Bool.not_eq_eq_eq_not, Bool.not_false, bne_eq_false_iff_eq, and_assoc]

theorem getElem?_shownRowsIn (i : Nat) : (p₀.shownRowsIn b₀)[i]? =
    (p₀.windowRows[i]?).map fun row => p₀.shownRow (p₀.rowIn b₀ row) :=
  List.getElem?_map

/-- A row is not found changed if the pass before showed it like this. -/
theorem rowChanged_eq_false_iff {row : WindowRow} :
    (p.compare (some (p₀.shownIn b₀))).rowChanged (p.rowIn b row) = false ↔
      ∃ row₀ ∈ p₀.windowRows, row₀.place = row.place ∧
        fingerprint row₀.record = fingerprint row.record ∧
        p₀.isEditable row₀ = p.isEditable row := by
  have before : (p.compare (some (p₀.shownIn b₀))).before = p₀.shownRowsIn b₀ := rfl
  have view : (p.rowIn b row).row.place.view = row.place.view := rfl
  rw [Comparison.rowChanged, before, view, getElem?_shownRowsIn]
  constructor
  · intro h
    cases found : p₀.windowRows[row.place.view]? with
    | none => rw [found] at h; cases h
    | some row₀ =>
      rw [found] at h
      simp only [Option.map_some, shownRow, rowIn, Bool.or_eq_false_iff, bne_eq_false_iff_eq] at h
      exact ⟨row₀, List.mem_of_getElem? found, h.1.1, h.1.2, h.2⟩
  · rintro ⟨row₀, hrow₀, place, record, editable⟩
    have found := p₀.getElem?_view_of_mem hrow₀
    rw [place] at found
    simp only [found, Option.map_some, shownRow, rowIn, place, record, editable, bne_self_eq_false,
      Bool.or_self]

theorem mem_changed_shownIn_iff {id : WidgetId} (hid : id ∈ p.walk.order) :
    id ∉ p.changed (some (p₀.shownIn b₀)) ↔ id ∈ p₀.walk.order ∧
      sameNode (p₀.request.template.find? id) (p.request.template.find? id) = true := by
  simp only [changed, shownIn, Repeater.remember, List.mem_filter, hid, true_and,
    Bool.or_eq_true, Bool.not_eq_true']
  simp only [not_or, Bool.not_eq_false, Walk.contains_iff]

theorem not_mem_patch_iff {id : WidgetId} :
    id ∉ (p.compare (some (p₀.shownIn b₀))).patch ↔
      id ∉ p.changed (some (p₀.shownIn b₀)) ∧ (p₀.shape = p.shape ∨ p.walk.root? ≠ some id) := by
  have patch : (p.compare (some (p₀.shownIn b₀))).patch = p.changed (some (p₀.shownIn b₀)) ++
      (if p.shapeChanged (some (p₀.shownIn b₀)) then p.walk.root?.toList else []) := rfl
  have shape : p.shapeChanged (some (p₀.shownIn b₀)) = (p₀.shape != p.shape) := rfl
  rw [patch, shape, List.mem_append, not_or]
  by_cases e : p₀.shape = p.shape
  · simp [e]
  · have ne : (p₀.shape != p.shape) = true := by simpa using e
    simp [e, ne]

/-- A pass leaves a cell alone exactly if it is carried over from the pass before. -/
theorem emits_eq_false_iff (hx : x ∈ p.cells) :
    p.emits b (p.compare (some (p₀.shownIn b₀))) x = false ↔ ∃ y, Carries p₀ p y x := by
  have walked : x.id ∈ p.walk.order := (p.mem_nodes_iff.mp (p.mem_cells.mp hx).2).1
  have node : p.request.template.find? x.id = some x.node :=
    (p.mem_nodes_iff.mp (p.mem_cells.mp hx).2).2
  have reset : (p.compare (some (p₀.shownIn b₀))).reset = p.isReset (some (p₀.shownIn b₀)) := rfl
  rw [emits, Comparison.rebuilds, Bool.or_eq_false_iff, Bool.or_eq_false_iff, reset,
    isReset_shownIn_eq_false_iff, rowChanged_eq_false_iff]
  rw [List.contains_eq_mem, decide_eq_false_iff_not, not_mem_patch_iff,
    mem_changed_shownIn_iff walked, node]
  constructor
  · rintro ⟨⟨⟨page, listName, ancestry, mount, root⟩, row₀, hrow₀, place, record, editable⟩,
      ⟨walked₀, same⟩, shape⟩
    cases found : p₀.request.template.find? x.id with
    | none => rw [found] at same; cases same
    | some node₀ =>
      rw [found] at same
      refine ⟨⟨row₀, x.id, node₀⟩, ?_, place, record, editable, rfl, same, page, listName, ancestry,
        mount, root, shape⟩
      exact p₀.mem_cells.mpr ⟨hrow₀, p₀.mem_nodes_iff.mpr ⟨walked₀, found⟩⟩
  · rintro ⟨y, h⟩
    obtain ⟨hrow, hnode⟩ := p₀.mem_cells.mp h.before
    obtain ⟨walked₀, found⟩ := p₀.mem_nodes_iff.mp hnode
    refine ⟨⟨⟨h.page, h.listName, h.ancestry, h.mount, h.root⟩, y.row, hrow, h.place, h.record,
      h.editable⟩, ⟨?_, ?_⟩, h.shape⟩
    · rw [← h.id]
      exact walked₀
    · rw [← h.id, found]
      exact h.node

theorem emits_of_first (x : Cell) : p.emits b (p.compare none) x = true := rfl

/-- A first pass renders all its cells. -/
theorem filter_emits_first : p.cells.filter (p.emits b (p.compare none)) = p.cells :=
  List.filter_eq_self.mpr fun x _ => emits_of_first x

/-- A cell that is carried over keeps its instance id. -/
theorem Carries.idIn_eq (h : Carries p₀ p y x) (slot : b₀.get? y.slot = b.get? x.slot) :
    p₀.idIn b₀ y = p.idIn b x := by
  have idOf : b₀.idOf y.slot = b.idOf x.slot := by rw [SlotBook.idOf, SlotBook.idOf, slot]
  cases editable : p.isEditable x.row with
  | true =>
    rw [p₀.idIn_of_editable b₀ (h.editable.trans editable), p.idIn_of_editable b editable]
    exact h.id
  | false =>
    rw [p₀.idIn_of_projected b₀ (h.editable.trans editable), p.idIn_of_projected b editable]
    exact idOf

end Pass

namespace Repeater

variable {r : Repeater} {q₀ : Request} (after : r.After q₀) (q : Request) {x y : Cell}

include after

/-- The slot of a carried cell holds the same id before and after the pass. -/
theorem get?_of_carries (hx : x ∈ (r.pass q).cells) (h : Pass.Carries (r.pass q₀) (r.pass q) y x) :
    r.book.get? y.slot = (r.run q).next.book.get? x.slot := by
  obtain ⟨id, held⟩ := after.held y.slot ((r.pass q₀).slot_mem_slots h.before)
  have kept := get?_run_of_held r q ((r.pass q).slot_mem_slots hx) (h.slot ▸ held)
  rw [held, kept]

theorem idIn_of_carries (hx : x ∈ (r.pass q).cells)
    (h : Pass.Carries (r.pass q₀) (r.pass q) y x) :
    (r.pass q₀).idIn r.book y = (r.pass q).idIn (r.run q).next.book x :=
  h.idIn_eq (get?_of_carries after q hx h)

end Repeater

end ListRepeater
