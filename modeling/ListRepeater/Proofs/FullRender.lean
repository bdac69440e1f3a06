import ListRepeater.Proofs.MountBookkeeping
/-!
# Passes and full renders

A full render of a pass makes the instances of all its cells. A repeater created anew from what was
saved renders in full and finds all slots as they were, so what it makes can be read off the book
that was saved. What a client has mounted after a pass agrees with the full render of that pass as
far as it did before and as far as the cells that were left alone would be rendered alike.
-/
namespace ListRepeater

namespace Pass

variable (p : Pass) (b : SlotBook)

def fullIn : Mounted := p.instancesIn b p.cells

/-- Different cells show different ids. -/
def Distinct : Prop := ∀ x ∈ p.cells, ∀ y ∈ p.cells, p.idIn b x = p.idIn b y → x = y

variable {p b} {cells : List Cell}

/-- Instances of different cells are filed under different ids. -/
theorem nodup_filed (distinct : p.Distinct b) (nodup : cells.Nodup) (sub : cells ⊆ p.cells) :
    (((cells.map (p.instanceIn b)).map fun i => (i.id, i)).map Prod.fst).Nodup := by
  rw [List.map_map, List.map_map]
  exact List.Nodup.map_on (fun x hx y hy => distinct x (sub hx) y (sub hy)) nodup

theorem values_instancesIn (distinct : p.Distinct b) (nodup : cells.Nodup) (sub : cells ⊆ p.cells) :
    (p.instancesIn b cells).values = cells.map (p.instanceIn b) := by
  rw [instancesIn, Keyed.values, Keyed.entries_ofList (nodup_filed distinct nodup sub), List.map_map]
  exact List.map_id _

theorem find?_instancesIn (distinct : p.Distinct b) (nodup : cells.Nodup) (sub : cells ⊆ p.cells)
    {x : Cell} (hx : x ∈ cells) :
    (p.instancesIn b cells).find? (p.idIn b x) = some (p.instanceIn b x) := by
  have keys := nodup_filed distinct nodup sub
  rw [instancesIn, Keyed.find?_ofList_of_nodup keys]
  exact Entries.find?_of_mem keys (List.mem_map_of_mem (List.mem_map_of_mem hx))

theorem find?_fullIn {c : Config} {q : Request} (distinct : (ofRequest c q).Distinct b) {x : Cell}
    (hx : x ∈ (ofRequest c q).cells) : ((ofRequest c q).fullIn b).find? ((ofRequest c q).idIn b x) =
      some ((ofRequest c q).instanceIn b x) :=
  find?_instancesIn distinct (nodup_cells c q) (List.Subset.refl _) hx

/-- What is made are instances of cells, each filed under its own id. -/
theorem exists_cell_of_mem {e : WidgetId × Instance} (h : e ∈ (p.instancesIn b cells).entries) :
    ∃ x ∈ cells, e = (p.idIn b x, p.instanceIn b x) := by
  obtain ⟨i, hi, rfl⟩ := List.mem_map.mp (Keyed.mem_of_mem_ofList h)
  obtain ⟨x, hx, rfl⟩ := List.mem_map.mp hi
  exact ⟨x, hx, rfl⟩

theorem find?_instancesIn_none {id : WidgetId} (h : ∀ x ∈ cells, p.idIn b x ≠ id) :
    (p.instancesIn b cells).find? id = none := by
  rw [Keyed.find?_eq_none_iff, instancesIn, Keyed.mem_keys_ofList]
  simp only [List.map_map, List.mem_map, not_exists, not_and]
  exact h

theorem distinct_of_grounded {r : Repeater} {q : Request} (grounded : r.Grounded)
    (after : r.After q) (unminted : q.template.Unminted r.config.stem) :
    (r.pass q).Distinct r.book := fun _ hx _ hy =>
  cell_eq_of_idIn grounded.balanced after.held (grounded.stem.symm ▸ unminted) hx hy

theorem distinct_run {r : Repeater} {q : Request} (grounded : r.Grounded)
    (unminted : q.template.Unminted r.config.stem) : (r.pass q).Distinct (r.run q).next.book :=
  distinct_of_grounded (Repeater.grounded_run grounded q) (Repeater.after_run r q) unminted

section Agree

variable {b' : SlotBook} (agree : ∀ k ∈ p.slots, b.get? k = b'.get? k)

include agree

theorem layoutIn_of_agree {row : WindowRow} (hrow : row ∈ p.windowRows) :
    p.layoutIn b row = p.layoutIn b' row := by
  apply p.layoutIn_congr
  intro y hy
  obtain ⟨rfl, node⟩ := p.mem_rowCells.mp hy
  exact agree _ (p.slot_mem_slots (p.mem_cells.mpr ⟨hrow, node⟩))

theorem instanceIn_of_agree {x : Cell} (hx : x ∈ p.cells) :
    p.instanceIn b x = p.instanceIn b' x := by
  have widget : p.widgetIn b x = p.widgetIn b' x := by
    rw [widgetIn, widgetIn, SlotBook.idOf, SlotBook.idOf, agree _ (p.slot_mem_slots hx)]
  rw [instanceIn, instanceIn, layoutIn_of_agree agree (p.mem_cells.mp hx).1, widget]

/-- Books that agree on the slots of a pass give it the same instances. -/
theorem instancesIn_of_agree (sub : cells ⊆ p.cells) :
    p.instancesIn b cells = p.instancesIn b' cells := by
  have instances : cells.map (p.instanceIn b) = cells.map (p.instanceIn b') :=
    List.map_congr_left fun x hx => instanceIn_of_agree agree (sub hx)
  rw [instancesIn, instancesIn, instances]

theorem fullIn_of_agree : p.fullIn b = p.fullIn b' :=
  instancesIn_of_agree agree (List.Subset.refl _)

theorem shownRowsIn_of_agree : p.shownRowsIn b = p.shownRowsIn b' := by
  apply List.map_congr_left
  intro row hrow
  simp only [shownRow, rowIn, layoutIn_of_agree agree hrow]

end Agree

end Pass

namespace Repeater

variable {r : Repeater} {q₀ : Request}

/-- A first pass makes its full render. -/
theorem instances_first (first : r.shown = none) (q : Request) :
    (r.run q).emission.instances = (r.pass q).fullIn (r.run q).next.book := by
  rw [instances_run, first, Pass.filter_emits_first, Pass.fullIn]

/-- A repeater that has shown nothing yet but finds all slots as the last pass left them makes the
full render of that pass. -/
theorem instances_recreated (after : r.After q₀) {r' : Repeater}
    (config : r'.config = { r.config with cloned := false }) (shown : r'.shown = none)
    (restored : ∀ k, r'.book.get? k = r.book.get? k) :
    (r'.run q₀).emission.instances = (r.pass q₀).fullIn r.book := by
  have pass : r'.pass q₀ = Pass.ofRequest { r.config with cloned := false } q₀ :=
    congrArg (Pass.ofRequest · q₀) config
  have slots : (r'.pass q₀).slots = (r.pass q₀).slots := by
    rw [pass]
    rfl
  have held : ∀ k ∈ (r'.pass q₀).slots, ∃ id, r'.book.get? k = some id := by
    intro k hk
    rw [restored]
    exact after.held k (slots ▸ hk)
  have book : ∀ k ∈ (r'.pass q₀).slots, (r'.run q₀).next.book.get? k = r.book.get? k := by
    intro k hk
    rw [get?_run r' q₀ hk, SlotBook.acquireAll_of_held held, restored]
  refine (instances_first shown q₀).trans ((Pass.fullIn_of_agree book).trans ?_)
  rw [pass]
  rfl

end Repeater

/-- Related instances under the same ids. -/
def Mounted.Agrees (rel : Instance → Instance → Prop) (m full : Mounted) : Prop :=
  ∀ id, Option.Rel rel (m.find? id) (full.find? id)

theorem Mounted.agrees_iff_same {rel : Instance → Instance → Prop} [DecidableRel rel]
    {m full : Mounted} : m.Agrees rel full ↔ m.same (fun i j => decide (rel i j)) full = true := by
  rw [Keyed.same_iff]
  simp only [decide_eq_true_eq]
  rfl

instance (rel : Instance → Instance → Prop) [DecidableRel rel] (m full : Mounted) :
    Decidable (m.Agrees rel full) :=
  decidable_of_iff _ Mounted.agrees_iff_same.symm

section Related

variable {α β : Type} {rel : α → β → Prop} {a : Option α} {b : Option β}

theorem exists_of_rel_some {v : β} (h : Option.Rel rel a b) (e : b = some v) :
    ∃ i, a = some i ∧ rel i v := by
  subst e
  cases h with
  | some hi => exact ⟨_, rfl, hi⟩

theorem eq_none_of_rel_none (h : Option.Rel rel a b) (e : b = none) : a = none := by
  subst e
  cases h
  rfl

end Related

namespace Repeater

variable {rel : Instance → Instance → Prop} {r : Repeater} {q₀ : Request}

/-- A first pass mounts its full render. -/
theorem agrees_first (refl : ∀ i, rel i i) (first : r.shown = none) (q : Request) :
    ((r.run q).emission.applyTo .empty).Agrees rel ((r.pass q).fullIn (r.run q).next.book) := by
  intro id
  rw [Emission.find?_applyTo, instances_first first, Keyed.find?_empty, ite_self, Option.or_none]
  cases ((r.pass q).fullIn (r.run q).next.book).find? id with
  | none => exact .none
  | some i => exact .some (refl i)

/-- The cells that a pass renders are mounted as rendered. -/
theorem find?_applyTo_of_emits (grounded : r.Grounded) {q : Request}
    (unminted : q.template.Unminted r.config.stem) {m : Mounted} {x : Cell}
    (hx : x ∈ (r.pass q).cells)
    (made : (r.pass q).emits (r.run q).next.book ((r.pass q).compare r.shown) x = true) :
    ((r.run q).emission.applyTo m).find? ((r.pass q).idIn (r.run q).next.book x) =
      some ((r.pass q).instanceIn (r.run q).next.book x) := by
  have distinct := Pass.distinct_run grounded unminted
  have instances : (r.run q).emission.instances.find?
      ((r.pass q).idIn (r.run q).next.book x) =
        some ((r.pass q).instanceIn (r.run q).next.book x) := by
    rw [instances_run]
    exact Pass.find?_instancesIn distinct ((Pass.nodup_cells r.config q).filter _)
      (fun _ h => (List.mem_filter.mp h).1) (List.mem_filter.mpr ⟨hx, made⟩)
  rw [Emission.find?_applyTo, instances, Option.some_or]

section Step

variable (grounded : r.Grounded) (after : r.After q₀)
  (unminted₀ : q₀.template.Unminted r.config.stem) {q : Request}

include grounded after unminted₀

/-- What no cell of a pass shows is not mounted after it, unless it was mounted without being
shown. -/
theorem find?_applyTo_of_unshown {m : Mounted} {id : WidgetId}
    (apart : ∀ x ∈ (r.pass q).cells, (r.pass q).idIn (r.run q).next.book x ≠ id)
    (before : id ∉ r.shownIds → m.find? id = none) :
    ((r.run q).emission.applyTo m).find? id = none := by
  have unmade : (r.run q).emission.instances.find? id = none := by
    rw [instances_run]
    exact Pass.find?_instancesIn_none fun x hx => apart x (List.mem_filter.mp hx).1
  have unshown : id ∉ (r.run q).next.shownIds := by
    rw [shownIds_run]
    intro h
    obtain ⟨x, hx, e⟩ := List.mem_map.mp h
    exact apart x hx e
  rw [Emission.find?_applyTo, unmade, Option.none_or]
  split
  · rfl
  · next stays =>
    apply before
    intro h
    apply stays
    rw [removed_run_eq q (nodup_shownIds grounded after unminted₀), List.mem_filter]
    exact ⟨h, by simpa using unshown⟩

variable (unminted : q.template.Unminted r.config.stem)

include unminted

/-- What stays mounted under the id of a cell that a pass leaves alone. -/
theorem find?_applyTo_of_carries {m : Mounted} {x y : Cell} (hx : x ∈ (r.pass q).cells)
    (h : Pass.Carries (r.pass q₀) (r.pass q) y x) :
    ((r.run q).emission.applyTo m).find? ((r.pass q).idIn (r.run q).next.book x) =
      m.find? ((r.pass q₀).idIn r.book y) := by
  have after' := after_run r q
  have distinct := Pass.distinct_of_grounded (grounded_run grounded q) after' unminted
  have still : (r.pass q).emits (r.run q).next.book ((r.pass q).compare r.shown) x = false := by
    rw [after.shown]
    exact (Pass.emits_eq_false_iff hx).mpr ⟨y, h⟩
  have unmade : (r.run q).emission.instances.find?
      ((r.pass q).idIn (r.run q).next.book x) = none := by
    rw [instances_run]
    apply Pass.find?_instancesIn_none
    intro z hz e
    obtain ⟨hz, made⟩ := List.mem_filter.mp hz
    rw [distinct z hz x hx e, still] at made
    cases made
  have kept : (r.pass q).idIn (r.run q).next.book x ∉ (r.run q).emission.removed := by
    rw [removed_run_eq q (nodup_shownIds grounded after unminted₀), List.mem_filter]
    rintro ⟨-, gone⟩
    have shown : (r.pass q).idIn (r.run q).next.book x ∈ (r.run q).next.shownIds := by
      rw [shownIds_run]
      exact List.mem_map_of_mem hx
    simp [shown] at gone
  rw [Emission.find?_applyTo, unmade, if_neg kept, Option.none_or, idIn_of_carries after q hx h]

/-- After a pass the mounted instances agree with its full render exactly if those agree that the
pass left alone. -/
theorem agrees_run_iff (equiv : Equivalence rel) {m : Mounted}
    (h : m.Agrees rel ((r.pass q₀).fullIn r.book)) :
    ((r.run q).emission.applyTo m).Agrees rel ((r.pass q).fullIn (r.run q).next.book) ↔
      ∀ x ∈ (r.pass q).cells, ∀ y, Pass.Carries (r.pass q₀) (r.pass q) y x →
        rel ((r.pass q₀).instanceIn r.book y) ((r.pass q).instanceIn (r.run q).next.book x) := by
  have distinct₀ := Pass.distinct_of_grounded grounded after unminted₀
  have distinct := Pass.distinct_run grounded unminted
  have old : ∀ y ∈ (r.pass q₀).cells, ∃ i, m.find? ((r.pass q₀).idIn r.book y) = some i ∧
      rel i ((r.pass q₀).instanceIn r.book y) := fun y hy =>
    exists_of_rel_some (h _) (Pass.find?_fullIn distinct₀ hy)
  constructor
  · intro agrees x hx y hxy
    obtain ⟨i, hi, hrel⟩ := old y hxy.before
    obtain ⟨j, hj, hrel'⟩ := exists_of_rel_some (agrees _) (Pass.find?_fullIn distinct hx)
    rw [find?_applyTo_of_carries grounded after unminted₀ unminted hx hxy, hi] at hj
    rw [← Option.some.inj hj] at hrel'
    exact equiv.trans (equiv.symm hrel) hrel'
  · intro carried id
    -- an id is that of a cell, which is rendered or left alone, or it is shown by none
    by_cases shown : ∃ x ∈ (r.pass q).cells, (r.pass q).idIn (r.run q).next.book x = id
    · obtain ⟨x, hx, rfl⟩ := shown
      rw [Pass.find?_fullIn distinct hx]
      cases made : (r.pass q).emits (r.run q).next.book ((r.pass q).compare r.shown) x with
      | true =>
        rw [find?_applyTo_of_emits grounded unminted hx made]
        exact .some (equiv.refl _)
      | false =>
        rw [after.shown, Pass.emits_eq_false_iff hx] at made
        obtain ⟨y, hxy⟩ := made
        obtain ⟨i, hi, hrel⟩ := old y hxy.before
        rw [find?_applyTo_of_carries grounded after unminted₀ unminted hx hxy, hi]
        exact .some (equiv.trans hrel (carried x hx y hxy))
    · have apart : ∀ x ∈ (r.pass q).cells, (r.pass q).idIn (r.run q).next.book x ≠ id :=
        fun x hx e => shown ⟨x, hx, e⟩
      have before : id ∉ r.shownIds → m.find? id = none := by
        intro fresh
        refine eq_none_of_rel_none (h id) (Pass.find?_instancesIn_none fun y hy e => fresh ?_)
        rw [after.shownIds_eq, ← e]
        exact List.mem_map_of_mem hy
      rw [Pass.fullIn, Pass.find?_instancesIn_none apart,
        find?_applyTo_of_unshown grounded after unminted₀ apart before]
      exact .none

end Step

end Repeater

end ListRepeater
