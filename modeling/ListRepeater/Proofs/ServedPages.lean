import ListRepeater.Proofs.PageWindows
import ListRepeater.Proofs.RecordReferences
import ListRepeater.Proofs.Recreation
import ListRepeater.Proofs.RowContext
/-!
# Pages that a server hands out

A list that holds all its records shows a page of them at a time. If a server hands it the records
of each page alone, it shows the same rows under the same ids: only the position of a record in the
data is another one, the position in the window instead of the index across pages. A repeater that
is asked for pages of all records therefore goes through the same states as one that is asked for
the records of these pages, but for these positions.
-/
namespace ListRepeater

/-- The request for the same page of a list that gets the records of this page alone. -/
def Request.served (q : Request) : Request :=
  { q with
    records := (q.records.drop (q.firstIndex false)).take q.pageSize
    keys := (q.keys.drop (q.firstIndex false)).take q.pageSize
    serverPaged := true }

/-- The request shows a page of records that it holds all, each with a key. -/
structure Request.PagesAll (q : Request) : Prop where
  own : q.serverPaged = false
  pages : q.scrolls = false
  keyed : q.keys.length = q.records.length

instance (q : Request) : Decidable q.PagesAll :=
  decidable_of_iff (q.serverPaged = false ∧ q.scrolls = false ∧ q.keys.length = q.records.length)
    ⟨fun h => ⟨h.1, h.2.1, h.2.2⟩, fun h => ⟨h.own, h.pages, h.keyed⟩⟩

theorem Request.PagesAll.check_served {q : Request} (h : q.PagesAll) : q.served.check = q.check := by
  have keyed : q.served.keys.length = q.served.records.length := by
    simp only [served, List.length_take, List.length_drop, h.keyed]
  rw [check, check, if_neg (not_not_intro keyed), if_neg (not_not_intro h.keyed)]
  rfl

/-- The row of a page whose records stand alone: the position of a record is that in the window. -/
def Place.served (p : Place) : Place := { p with record := p.view }

def WindowRow.served (row : WindowRow) : WindowRow := { row with place := row.place.served }

def Cell.served (x : Cell) : Cell := { x with row := x.row.served }

def ShownRow.served (row : ShownRow) : ShownRow := { row with place := row.place.served }

def Shown.served (s : Shown) : Shown := { s with rows := s.rows.map ShownRow.served }

def Pass.served (p : Pass) : Pass := { p with request := p.request.served }

namespace Pass

variable {p : Pass}

section Window

variable (all : p.request.PagesAll) (pages : p.config.scrolls = false)

include all pages

theorem scrolls_eq : p.scrolls = false := by
  rw [scrolls, pages, all.pages]
  rfl

/-- The window of a page holds as many records as fit on it, from its first index on. -/
theorem windowRecords_eq (walked : p.walk.order ≠ []) : p.windowRecords =
    ((p.request.records.zip p.request.keys).drop (p.request.firstIndex false)).take
      p.request.pageSize := by
  have size : (p.request.records.zip p.request.keys).length = p.request.records.length := by
    rw [List.length_zip, all.keyed, Nat.min_self]
  have start : (p.request.records.zip p.request.keys).drop
      (min (p.request.firstIndex false) p.request.records.length) =
        (p.request.records.zip p.request.keys).drop (p.request.firstIndex false) := by
    rw [List.drop_eq_drop_iff, size]
    omega
  rw [windowRecords, window, if_neg walked, scrolls_eq all pages]
  simp only [Request.window, all.own, Bool.false_eq_true, if_false]
  rw [start, List.take_eq_take_iff, List.length_drop, size]
  omega

theorem window_served (walked : p.walk.order ≠ []) :
    p.served.window = (0, min p.request.pageSize p.served.request.records.length) := by
  have scrolls : p.served.scrolls = false := (scrolls_eq all pages : p.scrolls = false)
  rw [window, if_neg (by exact walked), scrolls]
  simp [Request.window, served, Request.served]

/-- A page shows the same records with the same keys if its server hands out nothing else. -/
theorem windowRecords_served : p.served.windowRecords = p.windowRecords := by
  by_cases walked : p.walk.order = []
  · simp only [windowRecords, window, served, walked, if_true, Nat.sub_zero, List.take_zero]
  · have records : p.served.request.records.zip p.served.request.keys = p.windowRecords := by
      rw [windowRecords_eq all pages walked, List.zip_eq_zipWith, List.zip_eq_zipWith,
        List.drop_zipWith, List.take_zipWith]
      rfl
    have fits : p.windowRecords.length ≤
        min p.request.pageSize p.served.request.records.length := by
      rw [← records, List.length_zip]
      simp only [served, Request.served, List.length_take, List.length_drop]
      omega
    rw [windowRecords, window_served all pages walked, records, List.drop_zero, Nat.sub_zero,
      List.take_of_length_le fits]

theorem windowRows_served : p.served.windowRows = p.windowRows.map WindowRow.served := by
  have first : p.served.firstIndex = p.firstIndex := rfl
  have start : p.served.window.1 = 0 := by
    by_cases walked : p.walk.order = []
    · simp only [window, served, walked, if_true]
    · rw [window_served all pages walked]
  simp only [windowRows, windowRecords_served all pages, first, start, List.map_map]
  apply List.map_congr_left
  intro e _
  simp only [Function.comp_apply, WindowRow.served, Place.served, Nat.zero_add]

end Window

section Reading

variable (p) (b : SlotBook)

theorem rowCells_served (row : WindowRow) :
    p.served.rowCells row.served = (p.rowCells row).map Cell.served := by
  rw [rowCells, rowCells, List.map_map]
  rfl

theorem layoutIn_served (row : WindowRow) : p.served.layoutIn b row.served = p.layoutIn b row := by
  rw [layoutIn, layoutIn, rowCells_served, List.map_map]
  rfl

theorem rowIn_served (row : WindowRow) : p.served.shownRow (p.served.rowIn b row.served) =
    (p.shownRow (p.rowIn b row)).served := by
  rw [rowIn, layoutIn_served]
  rfl

variable {p} (all : p.request.PagesAll) (pages : p.config.scrolls = false)

include all pages

theorem cells_served : p.served.cells = p.cells.map Cell.served := by
  rw [cells, cells, windowRows_served all pages, List.flatMap_map, List.map_flatMap]
  simp only [rowCells_served]

theorem slots_served : p.served.slots = p.slots := by
  rw [slots, slots, cells_served all pages, List.map_map]
  rfl

theorem shownRowsIn_served :
    p.served.shownRowsIn b = (p.shownRowsIn b).map ShownRow.served := by
  rw [shownRowsIn, shownRowsIn, windowRows_served all pages, List.map_map, List.map_map]
  simp only [Function.comp_def, rowIn_served]

theorem shownIn_served : p.served.shownIn b = (p.shownIn b).served := by
  rw [shownIn, shownRowsIn_served b all pages]
  rfl

end Reading

section Comparing

variable {b : SlotBook} {shown : Option Shown}

theorem compare_served : p.served.compare (shown.map Shown.served) =
    { p.compare shown with before := (p.compare shown).before.map ShownRow.served } := by
  cases shown <;> rfl

/-- The position of a record tells nothing that the index and the position in the window do not. -/
theorem served_eq_iff {x y : Place} (hx : x.record = x.index) (hy : y.record = y.index) :
    x.served = y.served ↔ x = y := by
  constructor
  · intro e
    obtain ⟨index, view, -, key⟩ := Place.mk.inj e
    rw [Place.mk.injEq]
    exact ⟨index, view, hx.trans (index.trans hy.symm), key⟩
  · exact congrArg Place.served

variable {c : Comparison} {row : WindowRow}
  (aligned : ∀ old ∈ c.before, old.place.record = old.place.index)
  (own : row.place.record = row.place.index)

include aligned own

theorem rowChanged_served :
    { c with before := c.before.map ShownRow.served : Comparison }.rowChanged
        (p.served.rowIn b row.served) = c.rowChanged (p.rowIn b row) := by
  have found : (c.before.map ShownRow.served)[row.place.view]? =
      (c.before[row.place.view]?).map ShownRow.served := List.getElem?_map
  have view : (p.served.rowIn b row.served).row.place.view = row.place.view := rfl
  simp only [Comparison.rowChanged, view, found]
  cases before : c.before[row.place.view]? with
  | none => simp only [rowIn, before, Option.map_none]
  | some old =>
    have places : (old.place.served != row.place.served) = (old.place != row.place) := by
      rw [Bool.eq_iff_iff, bne_iff_ne, bne_iff_ne, Ne, Ne,
        served_eq_iff (aligned old (List.mem_of_getElem? before)) own]
    simp only [rowIn, before, Option.map_some, ← places]
    rfl

theorem rebuilds_served :
    { c with before := c.before.map ShownRow.served : Comparison }.rebuilds
        (p.served.rowIn b row.served) = c.rebuilds (p.rowIn b row) := by
  rw [Comparison.rebuilds, Comparison.rebuilds, rowChanged_served aligned own]

end Comparing

end Pass

/-- What a row calls its record if all records are at hand, and if those of its page alone are. -/
inductive RowItem.ServedAs (list : String) (index view : Nat) : RowItem → RowItem → Prop
  | value (record : Json) : ServedAs list index view (.value record) (.value record)
  | position : ServedAs list index view (.position list index) (.position list view)

/-- The fields stand under `key` in instances of one widget, in rows that call their records `x` and
`y`: they are made of one authored field, or they are the view of the row in its container. -/
def Pass.PropTold (p : Pass) (id : WidgetId) (x y : RowItem) (key : String) (f g : Field) : Prop :=
  (∃ node v, p.request.template.find? id = some node ∧ node.props.find? key = some v ∧
    v.Told x y f g) ∨
  p.walk.root? = some id ∧ key = "data" ∧ f = g

/-- The instances are alike but for the position of the record of their row: in the item, in all
that their props say of it, and in what a nested list is told of the row. -/
structure Instance.ServedAs (p : Pass) (i j : Instance) : Prop where
  others : j = { i with item := j.item, props := j.props, ancestry := j.ancestry }
  item : ∃ x y, RowItem.ServedAs p.listName i.rowIndex i.viewIndex x y ∧
    i.item = x.toField ∧ j.item = y.toField ∧
    i.props.Matched (p.PropTold i.templateId x y) j.props
  ancestry : Option.Rel (fun a a' => ∃ row : AncestorRow,
    a = .extend p.request.ancestry p.config.level { row with
      item := mustache (RowItem.expression (.position p.listName i.rowIndex)) } ∧
    a' = .extend p.request.ancestry p.config.level { row with
      item := mustache (RowItem.expression (.position p.listName i.viewIndex)) })
    i.ancestry j.ancestry

namespace Pass

section Instances

variable {p : Pass} (b : SlotBook) {x : Cell}

theorem item_servedAs {place : Place} (own : place.record = place.index) (record : Json)
    (editable : Bool) : (p.item place record editable).ServedAs p.listName place.index place.view
      (p.served.item place.served record editable) := by
  cases editable with
  | true => exact .value record
  | false =>
    have item : p.item place record false = .position p.listName place.index :=
      congrArg (RowItem.position p.listName) own
    rw [item]
    exact .position

theorem propsOf_served (l : RowLayout) (place : Place) (record : Json) (editable : Bool)
    {w : RowWidget} (found : p.request.template.find? w.templateId = some w.node) :
    (p.propsOf l (p.scope l place record editable) w).Matched
      (p.PropTold w.templateId (p.item place record editable)
        (p.served.item place.served record editable))
      (p.served.propsOf l (p.served.scope l place.served record editable) w) := by
  let item' := p.served.item place.served record editable
  have localized : ∀ v, Binding.localizeField (p.served.scope l place.served record editable) v =
      Binding.localizeField ((p.scope l place record editable).withItem item') v :=
    Binding.localizeField_congr
      (Scope.agrees_of_index ((p.scope l place record editable).withItem item') place.served rfl)
  have props : (w.node.props.map fun _ v =>
        Binding.localizeField (p.scope l place record editable) v).Matched
      (p.PropTold w.templateId (p.item place record editable) item')
      (w.node.props.map fun _ v =>
        Binding.localizeField (p.served.scope l place.served record editable) v) := by
    apply Keyed.matched_map
    intro e he
    refine Or.inl ⟨w.node, e.2, found, (Keyed.find?_eq_some_iff _ _ _).mpr he, ?_⟩
    rw [localized]
    exact Binding.told_localizeField (p.scope l place record editable) _ item' e.2
  have container : p.served.isContainer w = p.isContainer w := rfl
  rw [propsOf, propsOf, container]
  cases root : p.isContainer w with
  | false => exact props
  | true => exact props.insert (Or.inr ⟨beq_iff_eq.mp root, rfl, rfl⟩)

theorem instanceIn_served (hx : x ∈ p.cells) (own : x.row.place.record = x.row.place.index) :
    (p.instanceIn b x).ServedAs p (p.served.instanceIn b x.served) := by
  have read : p.served.instanceIn b x.served = p.served.instanceOf (p.layoutIn b x.row)
      x.row.place.served x.row.record (p.isEditable x.row) (p.widgetIn b x) := by
    rw [instanceIn, Cell.served, layoutIn_served]
    rfl
  have found : p.request.template.find? x.id = some x.node :=
    (p.mem_nodes_iff.mp (p.mem_cells.mp hx).2).2
  rw [read]
  refine ⟨rfl, ⟨_, _, item_servedAs own x.row.record (p.isEditable x.row), rfl, rfl, ?_⟩, ?_⟩
  · exact propsOf_served (p.layoutIn b x.row) x.row.place x.row.record (p.isEditable x.row) found
  · have nested : p.served.isNestedList (p.widgetIn b x) = p.isNestedList (p.widgetIn b x) := rfl
    rw [instanceIn, instanceOf, instanceOf, nested]
    cases p.isNestedList (p.widgetIn b x) with
    | false => exact .none
    | true =>
      refine .some ⟨p.ancestorRow (p.layoutIn b x.row) x.row.place x.row.record, ?_, rfl⟩
      rw [nestedAncestry, ancestorRow, own]

end Instances

section Emitting

variable {p : Pass} {b : SlotBook} {shown : Option Shown} (all : p.request.PagesAll)
  (pages : p.config.scrolls = false)
  (aligned : ∀ old ∈ (p.compare shown).before, old.place.record = old.place.index)

include all aligned

theorem emits_served {x : Cell} (hx : x ∈ p.cells) :
    p.served.emits b (p.served.compare (shown.map Shown.served)) x.served =
      p.emits b (p.compare shown) x := by
  have own := record_eq_index (.inr all.own) (p.mem_cells.mp hx).1
  rw [emits, emits, compare_served, Cell.served, rebuilds_served aligned own]

include pages in
/-- The pass brings forth the same instances in the same order, but for the positions of records. -/
theorem instancesIn_served :
    (p.instancesIn b (p.cells.filter (p.emits b (p.compare shown)))).Matched
      (fun _ => Instance.ServedAs p)
      (p.served.instancesIn b (p.served.cells.filter
        (p.served.emits b (p.served.compare (shown.map Shown.served))))) := by
  have rendered : p.served.cells.filter
        (p.served.emits b (p.served.compare (shown.map Shown.served))) =
      (p.cells.filter (p.emits b (p.compare shown))).map Cell.served := by
    rw [cells_served all pages, List.filter_map]
    exact congrArg _ (List.filter_congr fun x hx => emits_served all aligned hx)
  rw [rendered, instancesIn, instancesIn]
  apply Keyed.matched_ofList
  simp only [List.forall₂_map_left_iff, List.forall₂_map_right_iff, List.forall₂_same]
  intro x hx
  have hx := (List.mem_filter.mp hx).1
  have served := instanceIn_served b hx (record_eq_index (.inr all.own) (p.mem_cells.mp hx).1)
  exact ⟨(congrArg Instance.id served.others).symm, served⟩

end Emitting

end Pass

namespace Repeater

/-- The repeater that makes the same passes over pages that a server hands out. -/
def served (r : Repeater) : Repeater :=
  { r with request := r.request.map Request.served, shown := r.shown.map Shown.served }

/-- The repeater shows pages of records that it holds all. -/
structure PagesAll (r : Repeater) : Prop where
  pages : r.config.scrolls = false
  request : ∀ q, r.request = some q → q.PagesAll
  aligned : ∀ row ∈ r.shownRows, row.place.record = row.place.index

theorem tells_served (r : Repeater) : r.TellsAlike r.served := by
  have rows : r.served.shownRows = r.shownRows.map ShownRow.served := by
    rw [shownRows, shownRows, served]
    cases r.shown <;> rfl
  refine ⟨?_, ?_, ?_, rfl, rfl, rfl⟩
  · rw [shownIds, shownIds, rows, List.flatMap_map]
    rfl
  · rw [containerIds, containerIds, rows, List.map_map]
    rfl
  · rw [containerNames, containerNames, rows, List.map_map]
    rfl

theorem request_of_validRequest {r : Repeater} {q : Request} (h : r.validRequest = .ok q) :
    r.request = some q := by
  rw [validRequest] at h
  split at h
  · cases h
  · next q' asked =>
    split at h
    · exact asked.trans (congrArg some (Except.ok.inj h))
    · cases h

section Run

variable {r : Repeater} {q : Request}

theorem removed_served (shown : Option Shown) (rows : List ShownRow) :
    removed (shown.map Shown.served) (rows.map ShownRow.served) = removed shown rows := by
  cases shown <;>
    simp only [removed, Option.map_none, Option.map_some, Shown.served, List.flatMap_map] <;> rfl

theorem vacated_served (shown : Option Shown) (rows : List ShownRow) :
    vacated (shown.map Shown.served) (rows.map ShownRow.served) = vacated shown rows := by
  cases shown <;>
    simp only [vacated, Option.map_none, Option.map_some, Shown.served, List.flatMap_map] <;> rfl

variable (h : r.PagesAll) (all : q.PagesAll)

include h all

theorem book_run_served : (r.served.run q.served).next.book = (r.run q).next.book := by
  have pass : r.served.pass q.served = (r.pass q).served := rfl
  rw [book_run r.served, book_run r,
    vacated_shownRowsIn r.served.shown _ _ (r.run q).next.book, pass,
    Pass.slots_served all h.pages, Pass.shownRowsIn_served _ all h.pages, served, vacated_served]

/-- The pass leaves the same behind, but for the positions of the records. -/
theorem run_served : (r.served.run q.served).next = (r.run q).next.served := by
  have pass : r.served.pass q.served = (r.pass q).served := rfl
  have left : ∀ (r : Repeater) (q : Request), (r.run q).next = { r with
      book := (r.run q).next.book
      shown := some ((r.pass q).shownIn (r.run q).next.book) } := by
    intro r q
    rw [← shown_run]
    rfl
  rw [left r.served, book_run_served h all, pass, Pass.shownIn_served _ all h.pages, left r]
  rfl

theorem pagesAll_run : (r.run q).next.PagesAll where
  pages := h.pages
  request := h.request
  aligned := by
    intro old hold
    rw [shownRows, shown_run] at hold
    obtain ⟨row, hrow, rfl⟩ := List.mem_map.mp hold
    exact Pass.record_eq_index (.inr all.own) hrow

end Run

end Repeater

/-- The passes show the same, the first a page of all records and the second what a server handed
out for this page. -/
structure Turn.ServedAs (t t' : Turn) : Prop where
  request : t'.request = t.request.served
  instances : t.outcome.emission.instances.Matched (fun _ => Instance.ServedAs t.pass)
    t'.outcome.emission.instances
  removed : t.outcome.emission.removed = t'.outcome.emission.removed
  saved : t.outcome.saved = t'.outcome.saved
  scroll : t.outcome.scroll = t'.outcome.scroll
  tells : t.outcome.next.TellsAlike t'.outcome.next

theorem Turn.servedAs {t t' : Turn} (h : t.repeater.PagesAll) (all : t.request.PagesAll)
    (repeater : t'.repeater = t.repeater.served) (request : t'.request = t.request.served) :
    t.ServedAs t' := by
  have outcome : t'.outcome = t.repeater.served.run t.request.served := by
    rw [outcome, repeater, request]
  have pass : t.repeater.served.pass t.request.served = t.pass.served := rfl
  have book := Repeater.book_run_served h all
  refine ⟨request, ?_, ?_, ?_, ?_, ?_⟩
  · rw [outcome, Turn.outcome, Repeater.instances_run, Repeater.instances_run, book, pass]
    exact Pass.instancesIn_served all h.pages h.aligned
  · rw [outcome, Turn.outcome, Repeater.removed_run, Repeater.removed_run, book, pass,
      Pass.shownRowsIn_served _ all h.pages]
    exact (Repeater.removed_served _ _).symm
  · rw [outcome]
    exact congrArg SlotBook.snapshot book.symm
  · have scrolls : t.pass.scrolls = false := Pass.scrolls_eq all h.pages
    have scrolls' : t.pass.served.scrolls = false := scrolls
    rw [outcome, Turn.outcome, Repeater.scroll_run, Repeater.scroll_run, pass, scrolls, scrolls']
    rfl
  · rw [outcome, Repeater.run_served h all]
    exact Repeater.tells_served t.outcome.next

/-- The same call to the repeater that is served page by page. -/
def Call.served : Call → Call
  | .options q => .options q.served
  | .generate => .generate

namespace Session

/-- The second session is where the first one is, but for being served page by page. -/
structure ServedAs (s s' : Session) : Prop where
  repeater : s'.repeater = s.repeater.served
  all : s.repeater.PagesAll

variable {s s' : Session}

theorem ServedAs.validRequest (h : s.ServedAs s') :
    s'.repeater.validRequest = s.repeater.validRequest.map Request.served := by
  rw [h.repeater, Repeater.validRequest, Repeater.validRequest, Repeater.served]
  cases asked : s.repeater.request with
  | none => rfl
  | some q =>
    simp only [Option.map_some, (h.all.request q asked).check_served]
    cases q.check <;> rfl

theorem ServedAs.options (h : s.ServedAs s') {q : Request} (all : q.PagesAll) :
    (s.step (.options q)).ServedAs (s'.step (.options q.served)) where
  repeater := by
    show s'.repeater.withRequest q.served = (s.repeater.withRequest q).served
    rw [h.repeater]
    rfl
  all := ⟨h.all.pages, fun _ e => Option.some.inj e ▸ all, h.all.aligned⟩

/-- A pass is made on both sides or refused on both, and keeps them in step. -/
theorem ServedAs.generate (h : s.ServedAs s') :
    List.Forall₂ Turn.ServedAs (s.turn? .generate).toList (s'.turn? .generate).toList ∧
      (s.step .generate).ServedAs (s'.step .generate) := by
  have valid := h.validRequest
  rw [turn?, turn?, step, step, Repeater.advance, Repeater.advance, valid]
  cases own : s.repeater.validRequest with
  | error e => exact ⟨.nil, h⟩
  | ok q =>
    have all : q.PagesAll := h.all.request q (Repeater.request_of_validRequest own)
    refine ⟨.cons (Turn.servedAs h.all all h.repeater rfl) .nil, ?_, ?_⟩
    · show (s'.repeater.run q.served).next = _
      rw [h.repeater]
      exact Repeater.run_served h.all all
    · exact Repeater.pagesAll_run h.all all

theorem servedAs_create (c : Config) (stored : Option Snapshot) (pages : c.scrolls = false) :
    (create c stored).ServedAs (create c stored) where
  repeater := rfl
  all := ⟨pages, fun _ e => (nomatch e), fun _ h => (nomatch h)⟩

/-- Over a whole run both sides make passes that show the same, and end in step. -/
theorem ServedAs.run (h : s.ServedAs s') {calls : List Call}
    (all : ∀ q, .options q ∈ calls → q.PagesAll) :
    List.Forall₂ Turn.ServedAs (s.turns calls) (s'.turns (calls.map Call.served)) ∧
      (s.run calls).ServedAs (s'.run (calls.map Call.served)) := by
  induction calls generalizing s s' with
  | nil => exact ⟨.nil, h⟩
  | cons call later ih =>
    have all' : ∀ q, .options q ∈ later → q.PagesAll :=
      fun q hq => all q (List.mem_cons_of_mem call hq)
    cases call with
    | options q => exact ih (h.options (all q List.mem_cons_self)) all'
    | generate =>
      obtain ⟨turn, next⟩ := h.generate
      obtain ⟨turns, last⟩ := ih next all'
      exact ⟨List.rel_append turn turns, last⟩

/-- A list shows the same whether it holds all its records or is served page by page: pass by pass
it makes the same instances in the same order, removes and shows the same and saves the same. Only
the positions of records differ, which are indices across pages in the one list and positions in the
window in the other. Requests are refused for the same reason. -/
theorem served_pages (c : Config) (stored : Option Snapshot) (pages : c.scrolls = false)
    (calls : List Call) (all : ∀ q, .options q ∈ calls → q.PagesAll) :
    List.Forall₂ Turn.ServedAs ((create c stored).turns calls)
      ((create c stored).turns (calls.map Call.served)) ∧
    ∀ e, ((create c stored).run calls).repeater.advance = .error e ↔
      ((create c stored).run (calls.map Call.served)).repeater.advance = .error e := by
  obtain ⟨turns, last⟩ := (servedAs_create c stored pages).run all
  refine ⟨turns, fun e => ?_⟩
  rw [Repeater.advance, Repeater.advance, last.validRequest]
  cases ((create c stored).run calls).repeater.validRequest with
  | error e' => exact Iff.rfl
  | ok q => constructor <;> intro h <;> cases h

/-- The second page has one record, which all four records hold last and the page itself first. -/
theorem served_pages_pagingCalls :
    pageConfig.scrolls = false ∧ (∀ q, .options q ∈ pagingCalls → q.PagesAll) ∧
    List.Forall₂ Turn.ServedAs ((create pageConfig none).turns pagingCalls)
      ((create pageConfig none).turns (pagingCalls.map Call.served)) ∧
    ∃ a b a' b', (create pageConfig none).turns pagingCalls = [a, b] ∧
      (create pageConfig none).turns (pagingCalls.map Call.served) = [a', b'] ∧
      b.outcome.emission.instances.values.map (·.item) =
        List.replicate 6 (.binding (mustache "List1.listData[3]")) ∧
      b'.outcome.emission.instances.values.map (·.item) =
        List.replicate 6 (.binding (mustache "List1.listData[0]")) := by
  have all : ∀ q, .options q ∈ pagingCalls → q.PagesAll :=
    Call.forall_options_iff.mpr (by decide)
  obtain ⟨served, -⟩ := served_pages pageConfig none rfl pagingCalls all
  have items : ∀ t ∈ ((create pageConfig none).turns pagingCalls).getLast?,
      t.outcome.emission.instances.values.map (·.item) =
        List.replicate 6 (.binding (mustache "List1.listData[3]")) := by
    decide +kernel
  have items' : ∀ t ∈ ((create pageConfig none).turns (pagingCalls.map Call.served)).getLast?,
      t.outcome.emission.instances.values.map (·.item) =
        List.replicate 6 (.binding (mustache "List1.listData[0]")) := by
    decide +kernel
  have count : ((create pageConfig none).turns pagingCalls).length = 2 := rfl
  obtain ⟨a, b, split⟩ := List.length_eq_two.mp count
  obtain ⟨a', b', split'⟩ := List.length_eq_two.mp (served.length_eq.symm.trans count)
  exact ⟨rfl, all, served, a, b, a', b', split, split', items b (by simp [split]),
    items' b' (by simp [split'])⟩

end Session

end ListRepeater
