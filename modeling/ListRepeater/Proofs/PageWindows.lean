import ListRepeater.Proofs.Cells
/-!
# The windows of pages

The windows of the pages of a list that holds all its records are stretches of one length, one
behind the other, that make up all positions of the records; the last stretch may be shorter, and
pages behind it are empty. A list that scrolls shows all records, and one that is given a page shows
what fits on it. A valid request has a row for every position of its window, and there is a record
and a key at each of them.
-/
namespace ListRepeater

namespace Request

variable (q : Request)

theorem length_keys_of_check {q : Request} (checked : q.check = .ok ()) :
    q.keys.length = q.records.length := by
  by_contra mismatch
  simp only [check, mismatch, ne_eq, not_false_eq_true, if_true] at checked
  split at checked
  · cases checked
  · split at checked <;> cases checked

theorem window_le (infinite : Bool) : (q.window infinite).2 ≤ q.records.length := by
  cases infinite with
  | true => exact Nat.le_refl _
  | false => exact Nat.min_le_right _ _

/-- A window does not end before it starts. -/
theorem window_start_le (infinite : Bool) : (q.window infinite).1 ≤ (q.window infinite).2 := by
  cases infinite with
  | true => exact Nat.zero_le _
  | false =>
    simp only [window, Bool.false_eq_true, if_false]
    split <;> omega

/-- The positions of the records that are shown. -/
def positions (infinite : Bool) : List Nat :=
  List.range' (q.window infinite).1 ((q.window infinite).2 - (q.window infinite).1)

theorem mem_positions_iff {infinite : Bool} {i : Nat} :
    i ∈ q.positions infinite ↔ (q.window infinite).1 ≤ i ∧ i < (q.window infinite).2 := by
  have le := q.window_start_le infinite
  rw [positions, List.mem_range'_1]
  omega

section Pages

/-- The request for another page. -/
def onPage (k : Nat) : Request := { q with pageNo := k }

/-- The positions on the pages, the first of which is page 1, tile those of all records. -/
structure PagesTile : Prop where
  joined : ∀ pages, (List.range pages).flatMap (fun k => (q.onPage (k + 1)).positions false) =
    List.range (min (pages * q.pageSize) q.records.length)
  whole : ∀ pages, q.records.length ≤ pages →
    (List.range pages).flatMap (fun k => (q.onPage (k + 1)).positions false) =
      List.range q.records.length
  consecutive : ∀ k, ((q.onPage (k + 2)).window false).1 = ((q.onPage (k + 1)).window false).2
  apart : ∀ j k, j ≠ k →
    ((q.onPage (j + 1)).positions false).Disjoint ((q.onPage (k + 1)).positions false)
  /-- Only empty pages follow a page that has room for another record. -/
  full : ∀ k, ((q.onPage (k + 1)).positions false).length = q.pageSize ∨
    ((q.onPage (k + 1)).positions false).length < q.pageSize ∧
      ∀ later, k < later → (q.onPage (later + 1)).positions false = []
  indexed : ∀ k view, view < ((q.onPage (k + 1)).positions false).length →
    ((q.onPage (k + 1)).positions false)[view]? = some ((q.onPage (k + 1)).firstIndex false + view)

variable {q}

section Own

variable (own : q.serverPaged = false)

include own

theorem window_onPage (k : Nat) : (q.onPage (k + 1)).window false =
    (min (k * q.pageSize) q.records.length, min ((k + 1) * q.pageSize) q.records.length) := by
  have next : (k + 1) * q.pageSize = k * q.pageSize + q.pageSize := Nat.succ_mul k q.pageSize
  simp only [window, onPage, firstIndex, own, Bool.false_eq_true, if_false, Nat.add_sub_cancel,
    Prod.mk.injEq, true_and]
  omega

theorem mem_positions_onPage_iff {k i : Nat} : i ∈ (q.onPage (k + 1)).positions false ↔
    i < q.records.length ∧ k * q.pageSize ≤ i ∧ i < (k + 1) * q.pageSize := by
  rw [mem_positions_iff, window_onPage own]
  omega

theorem length_positions_onPage (k : Nat) : ((q.onPage (k + 1)).positions false).length =
    min q.pageSize (q.records.length - k * q.pageSize) := by
  have next : (k + 1) * q.pageSize = k * q.pageSize + q.pageSize := Nat.succ_mul k q.pageSize
  rw [positions, List.length_range', window_onPage own]
  omega

theorem positions_joined (pages : Nat) :
    (List.range pages).flatMap (fun k => (q.onPage (k + 1)).positions false) =
      List.range (min (pages * q.pageSize) q.records.length) := by
  induction pages with
  | zero => simp
  | succ k ih =>
    have le : min (k * q.pageSize) q.records.length ≤ min ((k + 1) * q.pageSize) q.records.length :=
      by simpa only [window_onPage own] using (q.onPage (k + 1)).window_start_le false
    have step : ∀ {m n : Nat}, m ≤ n → List.range' 0 m ++ List.range' m (n - m) =
        List.range' 0 n := by
      intro m n le
      have append := @List.range'_append 0 m (n - m) 1
      rwa [Nat.one_mul, Nat.zero_add, Nat.add_sub_cancel' le] at append
    rw [List.range_succ, List.flatMap_append, ih, List.flatMap_singleton, positions,
      window_onPage own, List.range_eq_range', List.range_eq_range', step le]

/-- As many pages as there are records have room for all of them. -/
theorem positions_whole (pos : 0 < q.pageSize) {pages : Nat} (room : q.records.length ≤ pages) :
    (List.range pages).flatMap (fun k => (q.onPage (k + 1)).positions false) =
      List.range q.records.length := by
  rw [positions_joined own, Nat.min_eq_right (Nat.le_trans room (Nat.le_mul_of_pos_right pages pos))]

theorem positions_apart {j k : Nat} (ne : j ≠ k) :
    ((q.onPage (j + 1)).positions false).Disjoint ((q.onPage (k + 1)).positions false) := by
  have below : ∀ {j k i : Nat}, j < k → i < (j + 1) * q.pageSize → ¬k * q.pageSize ≤ i := by
    intro j k i lt before behind
    have next : (j + 1) * q.pageSize ≤ k * q.pageSize := Nat.mul_le_mul_right _ lt
    omega
  intro i hj hk
  obtain ⟨-, lowJ, highJ⟩ := (mem_positions_onPage_iff own).mp hj
  obtain ⟨-, lowK, highK⟩ := (mem_positions_onPage_iff own).mp hk
  rcases Nat.lt_or_gt_of_ne ne with lt | gt
  · exact below lt highJ lowK
  · exact below gt highK lowJ

theorem positions_full (k : Nat) :
    ((q.onPage (k + 1)).positions false).length = q.pageSize ∨
    ((q.onPage (k + 1)).positions false).length < q.pageSize ∧
      ∀ later, k < later → (q.onPage (later + 1)).positions false = [] := by
  have next : (k + 1) * q.pageSize = k * q.pageSize + q.pageSize := Nat.succ_mul k q.pageSize
  have size := length_positions_onPage own k
  by_cases room : (k + 1) * q.pageSize ≤ q.records.length
  · left
    omega
  · have pos : 0 < q.pageSize := by
      refine Nat.pos_of_ne_zero fun none => room ?_
      rw [none, Nat.mul_zero]
      exact Nat.zero_le _
    refine Or.inr ⟨?_, fun later lt => ?_⟩
    · omega
    · have behind : (k + 1) * q.pageSize ≤ later * q.pageSize := Nat.mul_le_mul_right _ lt
      have size := length_positions_onPage own later
      rw [← List.length_eq_zero_iff]
      omega

theorem positions_indexed {k view : Nat}
    (shown : view < ((q.onPage (k + 1)).positions false).length) :
    ((q.onPage (k + 1)).positions false)[view]? =
      some ((q.onPage (k + 1)).firstIndex false + view) := by
  have start : ((q.onPage (k + 1)).window false).1 = (q.onPage (k + 1)).firstIndex false := by
    have size := length_positions_onPage own k
    rw [window_onPage own]
    simp only [firstIndex, onPage, Bool.false_eq_true, if_false, Nat.add_sub_cancel]
    omega
  rw [positions, List.length_range'] at shown
  rw [positions, List.getElem?_range' shown, start, Nat.one_mul]

theorem pagesTile (pos : 0 < q.pageSize) : q.PagesTile where
  joined := positions_joined own
  whole _ := positions_whole own pos
  consecutive k := by rw [window_onPage own, window_onPage own]
  apart _ _ := positions_apart own
  full := positions_full own
  indexed _ _ := positions_indexed own

end Own

theorem window_of_serverPaged (server : q.serverPaged = true) :
    q.window false = (0, min q.pageSize q.records.length) := by
  simp [window, server]

end Pages

end Request

namespace Pass

variable (p : Pass)

/-- The number of records in the window of the request, whether or not there is a row to show them
in. -/
def windowSize : Nat := (p.request.window p.scrolls).2 - (p.request.window p.scrolls).1

/-- Rows of the pass find their records and keys where these stand in the request. -/
structure IndexesRecords (rows : List WindowRow) : Prop where
  /-- The rows show the positions of the window in order, unless there is nothing to show them in. -/
  shown : rows.map (·.place.record) =
    if p.walk.order = [] then [] else p.request.positions p.scrolls
  within : ∀ i ∈ p.request.positions p.scrolls,
    i < p.request.records.length ∧ i < p.request.keys.length
  found : ∀ row ∈ rows, p.request.records[row.place.record]? = some row.record ∧
    p.request.keys[row.place.record]? = some row.given
  /-- A page that a server hands out counts its records anew. -/
  index : p.scrolls = true ∨ p.request.serverPaged = false →
    ∀ row ∈ rows, row.place.record = row.place.index

variable {p}

/-- A valid request has a row for each record of its window. -/
theorem length_windowRows_eq (checked : p.request.check = .ok ()) (walked : p.walk.order ≠ []) :
    p.windowRows.length = p.windowSize := by
  have keys := Request.length_keys_of_check checked
  have bound := p.request.window_le p.scrolls
  rw [length_windowRows, windowRecords, window, if_neg walked, windowSize]
  simp only [List.length_take, List.length_drop, List.length_zip, keys]
  omega

/-- A window with records starts where the page does, unless the records are those of the page
alone. -/
theorem start_of_windowRecords (h : p.windowRecords ≠ []) : p.window.1 =
    if p.scrolls || p.request.serverPaged then 0 else p.request.firstIndex false := by
  have walked : p.walk.order ≠ [] := by
    intro none
    simp [windowRecords, window, none] at h
  have within : p.window.1 < p.request.records.length := by
    by_contra beyond
    apply h
    rw [windowRecords, List.drop_eq_nil_of_le, List.take_nil]
    rw [List.length_zip]
    omega
  rw [window, if_neg walked, Request.window] at within ⊢
  cases scrolls : p.scrolls with
  | true => rfl
  | false =>
    cases paged : p.request.serverPaged with
    | true => rfl
    | false =>
      -- a page that starts behind the last record has no records
      simp only [scrolls, paged, Bool.false_eq_true, if_false, Bool.or_self] at within ⊢
      omega

theorem record_of_mem {row : WindowRow} (hrow : row ∈ p.windowRows) :
    row.place.record = p.window.1 + row.place.view := by
  have at_view := p.getElem?_view_of_mem hrow
  have records := congrArg (·[row.place.view]?) p.map_record_windowRows
  rw [List.getElem?_map, at_view, List.getElem?_range' (p.view_lt_of_mem hrow), Nat.one_mul]
    at records
  exact Option.some.inj records

theorem index_of_mem {row : WindowRow} (hrow : row ∈ p.windowRows) :
    row.place.index = p.firstIndex + row.place.view := by
  obtain ⟨e, he, rfl⟩ := List.mem_map.mp hrow
  rfl

/-- Unless a server hands out the records of a page alone, the record of a row stands under the
index of the row. -/
theorem record_eq_index (counted : p.scrolls = true ∨ p.request.serverPaged = false)
    {row : WindowRow} (hrow : row ∈ p.windowRows) : row.place.record = row.place.index := by
  have some : p.windowRecords ≠ [] := by
    rw [← p.map_shown_windowRows, Ne, List.map_eq_nil_iff]
    exact List.ne_nil_of_mem hrow
  rw [index_of_mem hrow, record_of_mem hrow, start_of_windowRecords some, firstIndex]
  rcases counted with scrolls | own
  · simp [scrolls, Request.firstIndex]
  · cases scrolls : p.scrolls <;> simp [own, Request.firstIndex]

theorem found_of_mem {row : WindowRow} (hrow : row ∈ p.windowRows) :
    p.request.records[row.place.record]? = some row.record ∧
      p.request.keys[row.place.record]? = some row.given := by
  have shown : p.windowRecords[row.place.view]? = some (row.record, row.given) := by
    rw [← p.map_shown_windowRows, List.getElem?_map, p.getElem?_view_of_mem hrow]
    rfl
  rw [windowRecords, List.getElem?_take, List.getElem?_drop, ← record_of_mem hrow] at shown
  split at shown
  · exact List.getElem?_zip_eq_some.mp shown
  · cases shown

theorem indexesRecords (checked : p.request.check = .ok ()) :
    p.IndexesRecords p.windowRows where
  shown := by
    rw [map_record_windowRows]
    split
    next none => rw [length_windowRows, windowRecords, window, if_pos none]; simp
    next walked =>
      rw [length_windowRows_eq checked walked, window, if_neg walked, windowSize, Request.positions]
  within i hi := by
    have below := (p.request.mem_positions_iff.mp hi).2
    have bound := p.request.window_le p.scrolls
    rw [Request.length_keys_of_check checked]
    omega
  found _ := found_of_mem
  index counted _ := record_eq_index counted

end Pass

namespace Request

/-- Whatever the number of records and the page size, the pages of a list that holds all its records
tile them, a page that a server hands out shows the first records that fit on it, and a list that
scrolls shows all; and no row of a valid request looks for a record or a key that is not there. -/
theorem pages_tile (q : Request) :
    (q.serverPaged = false → 0 < q.pageSize → q.PagesTile) ∧
    (q.serverPaged = true → q.window false = (0, min q.pageSize q.records.length)) ∧
    q.window true = (0, q.records.length) ∧
    (q.check = .ok () → ∀ r : Repeater, (Pass.ofRequest r.config q).IndexesRecords
      ((r.layOut (.ofRequest r.config q)).1.map (·.row))) := by
  refine ⟨pagesTile, window_of_serverPaged, rfl, fun checked r => ?_⟩
  rw [Repeater.layOut, Pass.rows_layOutRows]
  exact Pass.indexesRecords checked

/-- The last page of five records on pages of two. -/
def lastOfFive : Request :=
  { blank "" ⟨"main"⟩ ⟨"row"⟩ (.ofNodes [Node.plain ⟨"row"⟩ "Row" "CONTAINER_WIDGET"]) with
    records := ["a", "b", "c", "d", "e"].map Json.str
    keys := (List.range 5).map .ofNat
    pageNo := 3
    pageSize := 2 }

theorem pages_tile_lastOfFive :
    (lastOfFive.PagesTile ∧ lastOfFive.positions false = [4]) ∧
    ({ lastOfFive with serverPaged := true }).window false = (0, 2) ∧
    lastOfFive.window true = (0, 5) ∧ lastOfFive.check = .ok () ∧
    (Pass.ofRequest .standard lastOfFive).IndexesRecords
      (((Repeater.create .standard none).layOut (.ofRequest .standard lastOfFive)).1.map (·.row)) := by
  obtain ⟨tile, -, scrolling, indexes⟩ := pages_tile lastOfFive
  obtain ⟨-, handedOut, -⟩ := pages_tile { lastOfFive with serverPaged := true }
  have checked : lastOfFive.check = .ok () := by decide
  refine ⟨⟨tile rfl (by decide), by decide⟩, ?_, ?_, checked, indexes checked (.create .standard none)⟩
  · exact handedOut rfl
  · exact scrolling

end Request

end ListRepeater
