import ListRepeater.Proofs.Carousel
import ListRepeater.Proofs.Conservation
import ListRepeater.Proofs.RecyclingBound
import ListRepeater.Proofs.ServedPages
import ListRepeater.Proofs.SlotBook.NumberedRows
/-!
# Pages that come back

The ids of a page that is left are parked, and other pages may use them up before it comes back. A
list that holds all its records, with distinct keys, passes the ids of every node around as a
carousel does: only the sizes of the pages matter and the order in which they are shown. So one can
tell when a page has its ids again: when the rows brought in since it was left make whole rounds of
the ids.
-/
namespace ListRepeater

namespace RowKey

theorem separateFrom_of_nodup {taken : List RowKey} (view : Nat) {keys : List RowKey}
    (nodup : keys.Nodup) (apart : ∀ k ∈ keys, k ∉ taken) : separateFrom taken view keys = keys := by
  induction keys generalizing taken view with
  | nil => rfl
  | cons k rest ih =>
    obtain ⟨fresh, nodup⟩ := List.nodup_cons.mp nodup
    obtain ⟨own, apart⟩ := List.forall_mem_cons.mp apart
    rw [separateFrom, if_neg (by simpa using own), ih (view + 1) nodup]
    intro k' hk'
    rw [List.mem_cons, not_or]
    exact ⟨fun e => fresh (e ▸ hk'), apart k' hk'⟩

/-- Rows with distinct keys go by them. -/
theorem separate_of_nodup {keys : List RowKey} (nodup : keys.Nodup) : separate keys = keys :=
  separateFrom_of_nodup 0 nodup fun _ _ => List.not_mem_nil

end RowKey

namespace Request

/-- The request asks for a page of the rows that `q` holds, by the same template. -/
structure PageOf (q' q : Request) : Prop where
  template : q'.template = q.template
  root : q'.root = q.root
  records : q'.records = q.records
  keys : q'.keys = q.keys
  pageSize : q'.pageSize = q.pageSize
  own : q'.serverPaged = false
  pages : q'.scrolls = false

instance (q' q : Request) : Decidable (q'.PageOf q) :=
  decidable_of_iff
    (q'.template = q.template ∧ q'.root = q.root ∧ q'.records = q.records ∧ q'.keys = q.keys ∧
      q'.pageSize = q.pageSize ∧ q'.serverPaged = false ∧ q'.scrolls = false)
    ⟨fun ⟨a, b, c, d, e, f, g⟩ => ⟨a, b, c, d, e, f, g⟩,
      fun h => ⟨h.template, h.root, h.records, h.keys, h.pageSize, h.own, h.pages⟩⟩

/-- The keys of the rows on a page. -/
def keysOn (q : Request) (page : Nat) : List RowKey :=
  (q.keys.drop ((page - 1) * q.pageSize)).take q.pageSize

def rowsOn (q : Request) (page : Nat) : Nat := (q.keysOn page).length

variable {q : Request}

theorem nodup_keysOn (distinct : q.keys.Nodup) (page : Nat) : (q.keysOn page).Nodup :=
  distinct.sublist ((List.take_sublist _ _).trans (List.drop_sublist _ _))

theorem exists_of_mem_keysOn {page : Nat} {k : RowKey} (h : k ∈ q.keysOn page) :
    ∃ j < q.pageSize, q.keys[j + (page - 1) * q.pageSize]? = some k := by
  obtain ⟨j, found⟩ := List.mem_iff_getElem?.mp h
  rw [keysOn, List.getElem?_take] at found
  split at found
  · next inside =>
    rw [List.getElem?_drop, Nat.add_comm] at found
    exact ⟨j, inside, found⟩
  · cases found

/-- No row is on two pages. -/
theorem page_eq_of_mem_keysOn (distinct : q.keys.Nodup) {page page' : Nat} (first : page ≠ 0)
    (first' : page' ≠ 0) {k : RowKey} (h : k ∈ q.keysOn page) (h' : k ∈ q.keysOn page') :
    page = page' := by
  obtain ⟨j, inside, found⟩ := exists_of_mem_keysOn h
  obtain ⟨j', inside', found'⟩ := exists_of_mem_keysOn h'
  obtain ⟨bound, -⟩ := List.getElem?_eq_some_iff.mp found
  have places := (List.getElem?_inj bound distinct).mp (found.trans found'.symm)
  have counts := congrArg (· / q.pageSize) places
  have sized : 0 < q.pageSize := by omega
  simp only [Nat.add_mul_div_right _ _ sized, Nat.div_eq_of_lt inside, Nat.div_eq_of_lt inside',
    Nat.zero_add] at counts
  omega

/-- The carousel of the rows of `q` after these passes. -/
def carousel (q : Request) (ts : List Turn) : Carousel :=
  Carousel.start.run q.rowsOn (ts.map (·.request.pageNo))

theorem carousel_append (ts later : List Turn) : q.carousel (ts ++ later) =
    (q.carousel ts).run q.rowsOn (later.map (·.request.pageNo)) := by
  rw [carousel, List.map_append, Carousel.run_append]
  rfl

theorem page_carousel (ts : List Turn) (t : Turn) :
    (q.carousel (ts ++ [t])).page = some t.request.pageNo := by
  rw [carousel, List.map_append]
  exact Carousel.page_run_concat

theorem consistent_carousel (ts : List Turn) : (q.carousel ts).Consistent q.rowsOn :=
  Carousel.consistent_start.run

theorem full_carousel {ts : List Turn} {n : Nat}
    (sizes : ∀ t ∈ ts, q.rowsOn t.request.pageNo = n) : (q.carousel ts).Full n :=
  Carousel.full_start.run (List.forall_mem_map.mpr sizes)

end Request

open SlotBook (rowSlots)

theorem Pass.slots_eq_rowSlots (c : Config) (q : Request) : (ofRequest c q).slots =
    ((ofRequest c q).windowRows.map (·.place.key)).flatMap
      (rowSlots (ofRequest c q).walk.order) := by
  rw [slots, cells, List.map_flatMap, List.flatMap_map]
  apply List.flatMap_congr
  intro row _
  rw [slots_rowCells, rowSlots, ← map_fst_nodes, List.map_map]
  rfl

namespace Turn

/-- The slot ids of a node in the rows of the pass, from top to bottom. -/
def slotIds (t : Turn) (id : WidgetId) : List WidgetId :=
  t.rows.filterMap fun row => (row.layout.widget? id).map (·.slotId)

/-- A node that is walked has a slot in every row. -/
theorem slotIds_eq {t : Turn} {id : WidgetId} (walked : id ∈ t.pass.walk.order) :
    t.slotIds id = t.pass.windowRows.map fun row => t.book.idOf ⟨row.place.key, id⟩ := by
  have nodes := Pass.map_fst_nodes t.repeater.config t.request
  rw [← nodes] at walked
  obtain ⟨e, node, rfl⟩ := List.mem_map.mp walked
  have read := Repeater.map_layOut t.repeater t.request
    (f := fun row => (row.layout.widget? e.1).map (·.slotId)) fun _ _ => rfl
  have widget : ∀ row ∈ t.pass.windowRows,
      ((t.pass.layoutIn t.book row).widget? e.1).map (·.slotId) =
        some (t.book.idOf ⟨row.place.key, e.1⟩) := by
    intro row hrow
    have cell : (⟨row, e.1, e.2⟩ : Cell) ∈ t.pass.cells := t.pass.mem_cells.mpr ⟨hrow, node⟩
    have found := Pass.widget?_layoutIn cell t.book
    exact congrArg (Option.map (·.slotId)) found
  have ids := congrArg (List.filterMap id) (read.trans (List.map_congr_left widget))
  rw [List.filterMap_map, List.filterMap_map] at ids
  exact ids.trans (congrFun List.filterMap_eq_map' _)

/-- The pass shows a page of the rows that `q` holds. -/
structure ShowsPage (t : Turn) (c : Config) (q : Request) : Prop where
  config : t.repeater.config = c
  asked : t.request.PageOf q
  checked : t.request.check = .ok ()

namespace ShowsPage

variable {t : Turn} {c : Config} {q : Request} (h : t.ShowsPage c q)

include h

theorem walk : t.pass.walk = (Pass.ofRequest c q).walk := by
  rw [pass, Repeater.pass, Pass.ofRequest, Pass.ofRequest, h.config, h.asked.template, h.asked.root]

theorem pageNo_ne : t.request.pageNo ≠ 0 := by
  intro zero
  have checked := h.checked
  rw [Request.check, zero] at checked
  split at checked
  · cases checked
  · cases checked

theorem pageSize_pos : 0 < q.pageSize := by
  have checked := h.checked
  rw [← h.asked.pageSize, Nat.pos_iff_ne_zero]
  intro zero
  rw [Request.check, if_pos zero] at checked
  cases checked

theorem pagesAll : t.request.PagesAll where
  own := h.asked.own
  pages := h.asked.pages
  keyed := Request.length_keys_of_check h.checked

variable (pages : c.scrolls = false) (distinct : q.keys.Nodup)
  (walked : (Pass.ofRequest c q).walk.order ≠ [])

include pages distinct walked

/-- The rows go by the keys of their records. -/
theorem map_key_windowRows :
    t.pass.windowRows.map (·.place.key) = q.keysOn t.request.pageNo := by
  have scrolls : t.repeater.config.scrolls = false := h.config ▸ pages
  have order : t.pass.walk.order ≠ [] := h.walk ▸ walked
  have keyed : t.request.keys.length = t.request.records.length := h.pagesAll.keyed
  have records := Pass.windowRecords_eq h.pagesAll scrolls order
  have keys : t.pass.windowRecords.map Prod.snd = q.keysOn t.request.pageNo := by
    have all : (t.request.records.zip t.request.keys).map Prod.snd = t.request.keys :=
      List.map_snd_zip (Nat.le_of_eq keyed)
    rw [records, List.map_take, List.map_drop, Request.keysOn, ← h.asked.keys, ← h.asked.pageSize,
      ← all]
    rfl
  rw [Pass.map_key_windowRows, keys, RowKey.separate_of_nodup (Request.nodup_keysOn distinct _)]

theorem slots : t.pass.slots =
    (q.keysOn t.request.pageNo).flatMap (rowSlots (Pass.ofRequest c q).walk.order) := by
  have keys := h.map_key_windowRows pages distinct walked
  rw [← h.walk, ← keys]
  exact Pass.slots_eq_rowSlots t.repeater.config t.request

theorem slot_mem {key : RowKey} (hkey : key ∈ q.keysOn t.request.pageNo) {id : WidgetId}
    (hid : id ∈ (Pass.ofRequest c q).walk.order) : (⟨key, id⟩ : Slot) ∈ t.pass.slots := by
  rw [h.slots pages distinct walked]
  exact List.mem_flatMap.mpr ⟨key, hkey, SlotBook.mem_rowSlots.mpr ⟨rfl, hid⟩⟩

theorem length_rows : t.rows.length = q.rowsOn t.request.pageNo := by
  rw [Request.rowsOn, ← h.map_key_windowRows pages distinct walked, ← map_key_rows, List.length_map]

end ShowsPage

/-- The pass leaves the ids of all nodes as the carousel has their numbers. -/
structure Carries (t : Turn) (q : Request) (nodes : List WidgetId) (car : Carousel) : Prop where
  parks : t.book.Parks nodes car.waiting car.count
  rows : List.Forall₂ (t.book.Holds nodes) (q.keysOn t.request.pageNo) car.shown

section Carries

variable {a t : Turn} {c : Config} {q : Request} {car : Carousel}
  (pages : c.scrolls = false) (distinct : q.keys.Nodup)
  (walked : (Pass.ofRequest c q).walk.order ≠ []) (h : t.ShowsPage c q)

include pages distinct walked h

/-- The first pass takes new ids for all its rows. -/
theorem carries_first {stem : String} (fresh : t.repeater.book = .empty stem)
    (first : t.repeater.shown = none) : t.Carries q (Pass.ofRequest c q).walk.order
      (Carousel.start.turn t.request.pageNo (q.rowsOn t.request.pageNo)) := by
  have nodes := Pass.nodup_order c q
  have book : t.book = (SlotBook.empty stem).acquireAll
      ((q.keysOn t.request.pageNo).flatMap (rowSlots (Pass.ofRequest c q).walk.order)) := by
    rw [Turn.book, outcome, Repeater.book_run, h.slots pages distinct walked, first, fresh]
    rfl
  obtain ⟨parks, rows⟩ := (SlotBook.parks_empty stem _).acquireRows nodes
    (Request.nodup_keysOn distinct t.request.pageNo) fun _ _ _ _ => rfl
  rw [← book] at parks rows
  have start : Carousel.start.page ≠ some t.request.pageNo := (Option.some_ne_none _).symm
  rw [Carousel.turn, if_neg start]
  exact ⟨by simpa [Carousel.start, Request.rowsOn] using parks, rows⟩

variable (before : a.ShowsPage c q) (carries : a.Carries q (Pass.ofRequest c q).walk.order car)
  (book : t.repeater.book = a.book) (shown : t.repeater.shown = a.outcome.next.shown)

include before carries book shown

/-- A pass over the same page changes nothing. -/
theorem Carries.same_page (same : t.request.pageNo = a.request.pageNo) :
    t.Carries q (Pass.ofRequest c q).walk.order car := by
  have slots : t.pass.slots = a.pass.slots := by
    rw [h.slots pages distinct walked, before.slots pages distinct walked, same]
  have held : ∀ k ∈ t.pass.slots, ∃ id, a.book.get? k = some id := by
    intro k hk
    exact Repeater.held_run a.repeater a.request (slots ▸ hk)
  have none : Repeater.vacated t.repeater.shown (t.pass.shownRowsIn t.book) = [] := by
    rw [shown, outcome, Repeater.shown_run, Repeater.vacated, Pass.slots_shownRowsIn, slots]
    simp only [Option.map_some, Option.getD_some, Pass.shownIn, Repeater.remember,
      Pass.slots_shownRowsIn, List.filter_eq_nil_iff]
    simp
  have kept : t.book = a.book := by
    rw [Turn.book, outcome, Repeater.book_run, ← outcome, none, book,
      SlotBook.acquireAll_of_held held]
    rfl
  exact ⟨kept ▸ carries.parks, by rw [kept, same]; exact carries.rows⟩

/-- A pass over another page turns the carousel. -/
theorem Carries.other_page (now : car.page = some a.request.pageNo)
    (only : ∀ k ∈ a.book.slots.keys, k ∈ a.pass.slots)
    (other : t.request.pageNo ≠ a.request.pageNo) : t.Carries q (Pass.ofRequest c q).walk.order
      (car.turn t.request.pageNo (q.rowsOn t.request.pageNo)) := by
  have nodes := Pass.nodup_order c q
  have apart : ∀ key ∈ q.keysOn t.request.pageNo, key ∉ q.keysOn a.request.pageNo := by
    intro key own old
    exact other (Request.page_eq_of_mem_keysOn distinct h.pageNo_ne before.pageNo_ne own old)
  have slots := h.slots pages distinct walked
  have slots' := before.slots pages distinct walked
  have disjoint : ∀ k ∈ a.pass.slots, k ∉ t.pass.slots := by
    intro k old own
    rw [slots'] at old
    rw [slots] at own
    obtain ⟨key, hkey, hk⟩ := List.mem_flatMap.mp old
    obtain ⟨key', hkey', hk'⟩ := List.mem_flatMap.mp own
    have same := (SlotBook.mem_rowSlots.mp hk).1.symm.trans (SlotBook.mem_rowSlots.mp hk').1
    exact apart key' hkey' (same ▸ hkey)
  have all : Repeater.vacated t.repeater.shown (t.pass.shownRowsIn t.book) = a.pass.slots := by
    rw [shown, outcome, Repeater.shown_run, Repeater.vacated, Pass.slots_shownRowsIn]
    simp only [Option.map_some, Option.getD_some, Pass.shownIn, Repeater.remember,
      Pass.slots_shownRowsIn, List.filter_eq_self]
    intro k old
    simpa using disjoint k old
  have left : t.book = (a.book.acquireAll t.pass.slots).releaseAll a.pass.slots := by
    rw [Turn.book, outcome, Repeater.book_run, ← outcome, all, book]
  have free : ∀ key ∈ q.keysOn t.request.pageNo, ∀ id ∈ (Pass.ofRequest c q).walk.order,
      a.book.get? ⟨key, id⟩ = none := by
    intro key hkey id hid
    have own := h.slot_mem pages distinct walked hkey hid
    exact (a.book.slots.find?_eq_none_iff _).mpr fun held => disjoint _ (only _ held) own
  obtain ⟨parks, rows⟩ := carries.parks.acquireRows nodes
    (Request.nodup_keysOn distinct t.request.pageNo) free
  rw [← slots] at parks rows
  have old : List.Forall₂ ((a.book.acquireAll t.pass.slots).Holds (Pass.ofRequest c q).walk.order)
      (q.keysOn a.request.pageNo) car.shown :=
    carries.rows.imp fun _ _ holds => holds.acquireAll _
  have parks := parks.releaseRows nodes (Request.nodup_keysOn distinct _) old
  have turned : car.page ≠ some t.request.pageNo := by
    rw [now]
    exact fun e => other (Option.some.inj e).symm
  rw [Carousel.turn, if_neg turned]
  rw [← slots', ← left] at parks
  refine ⟨parks, ?_⟩
  rw [List.forall₂_iff_zip] at rows ⊢
  refine ⟨rows.1, fun pair id hid => ?_⟩
  have own := h.slot_mem pages distinct walked (List.of_mem_zip pair).1 hid
  rw [left, SlotBook.get?_releaseAll, if_neg fun old => disjoint _ old own,
    SlotBook.stem_releaseAll]
  exact rows.2 pair id hid

end Carries

end Turn

namespace Session

section Runs

variable {c : Config} {q : Request} {calls : List Call}
  (fixed : ∀ q', .options q' ∈ calls → q'.PageOf q)

include fixed

theorem showsPage_of_turn {t : Turn} (ht : t ∈ (create c none).turns calls) : t.ShowsPage c q where
  config := (grounded_of_turn (Repeater.grounded_create c) ht).2
  asked := request_of_turn fixed ht
  checked := checked_of_turn ht

variable (pages : c.scrolls = false) (distinct : q.keys.Nodup)
  (walked : (Pass.ofRequest c q).walk.order ≠ [])

include pages distinct walked

/-- Over a whole run the ids are passed around as the carousel has it. -/
theorem carries_of_turn {before after : List Turn} {t : Turn}
    (split : (create c none).turns calls = before ++ t :: after) :
    t.Carries q (Pass.ofRequest c q).walk.order (q.carousel (before ++ [t])) := by
  -- from the first pass to the last, as each starts with what the pass before it left
  induction before using List.reverseRecOn generalizing t after with
  | nil =>
    have page := showsPage_of_turn fixed (t := t) (by rw [split]; simp)
    have follows := (first_turn split).1
    exact Turn.carries_first pages distinct walked page follows.book follows.shown
  | append_singleton before a ih =>
    have page := showsPage_of_turn fixed (t := t) (by rw [split]; simp)
    have page' := showsPage_of_turn fixed (t := a) (by rw [split]; simp)
    rw [List.append_assoc, List.singleton_append] at split
    have follows := next_turn split
    have carries := ih split
    have turned : q.carousel (before ++ [a] ++ [t]) =
        (q.carousel (before ++ [a])).turn t.request.pageNo (q.rowsOn t.request.pageNo) := by
      rw [Request.carousel_append]
      rfl
    rw [turned]
    by_cases same : t.request.pageNo = a.request.pageNo
    · rw [Carousel.turn_of_same (by rw [Request.page_carousel, same])]
      exact carries.same_page pages distinct walked page page' follows.book follows.shown same
    · have only : ∀ k ∈ a.book.slots.keys, k ∈ a.pass.slots := by
        intro k held
        refine ((mem_keys_of_turn rfl split k).mp held).resolve_right ?_
        rintro ⟨stored, -⟩
        cases stored
      exact carries.other_page pages distinct walked page page' follows.book follows.shown
        (Request.page_carousel _ _) only same

/-- The ids of a node on a page are those that go by the numbers that the carousel shows. -/
theorem slotIds_of_turn {before after : List Turn} {t : Turn}
    (split : (create c none).turns calls = before ++ t :: after) {id : WidgetId}
    (hid : id ∈ (Pass.ofRequest c q).walk.order) : t.slotIds id =
      (q.carousel (before ++ [t])).shown.map
        (SlotBook.numbered c.stem (Pass.ofRequest c q).walk.order id) := by
  have ht : t ∈ (create c none).turns calls := by simp [split]
  have page := showsPage_of_turn fixed ht
  obtain ⟨grounded, config⟩ := grounded_of_turn (Repeater.grounded_create c) ht
  have stem : t.book.stem = c.stem :=
    (Repeater.grounded_run grounded t.request).stem.trans (congrArg Config.stem config)
  have rows := (carries_of_turn fixed pages distinct walked split).rows
  have order : id ∈ t.pass.walk.order := by rwa [page.walk]
  have keys : t.slotIds id = (q.keysOn t.request.pageNo).map fun key => t.book.idOf ⟨key, id⟩ := by
    rw [Turn.slotIds_eq order, ← page.map_key_windowRows pages distinct walked, List.map_map]
    rfl
  rw [keys, ← stem]
  generalize q.keysOn t.request.pageNo = on, (q.carousel (before ++ [t])).shown = shown at rows
  induction rows with
  | nil => rfl
  | cons own _ ih =>
    rw [List.map_cons, List.map_cons, ih, SlotBook.idOf_of_get? (own id hid)]

variable {before between after : List Turn} {a b : Turn}
  (split : (create c none).turns calls = before ++ a :: (between ++ b :: after))

include split

theorem slotIds_eq_iff {id : WidgetId} (hid : id ∈ (Pass.ofRequest c q).walk.order) :
    b.slotIds id = a.slotIds id ↔ (q.carousel (before ++ a :: (between ++ [b]))).shown =
      (q.carousel (before ++ [a])).shown := by
  have split' : (create c none).turns calls = (before ++ a :: between) ++ b :: after := by
    rw [split, List.append_assoc, List.cons_append]
  have idsA := slotIds_of_turn fixed pages distinct walked split hid
  have idsB := slotIds_of_turn fixed pages distinct walked split' hid
  rw [List.append_assoc, List.cons_append] at idsB
  rw [idsA, idsB]
  exact (List.map_injective_iff.mpr (SlotBook.numbered_injective hid)).eq_iff

/-- The nodes of a row get their ids together, so ids are minted when numbers are added. -/
theorem count_eq_of_minted (minted : a.book.minted = b.book.minted) :
    (q.carousel (before ++ [a])).count = (q.carousel (before ++ a :: (between ++ [b]))).count := by
  have split' : (create c none).turns calls = (before ++ a :: between) ++ b :: after := by
    rw [split, List.append_assoc, List.cons_append]
  have countA := (carries_of_turn fixed pages distinct walked split).parks.minted
  have countB := (carries_of_turn fixed pages distinct walked split').parks.minted
  rw [List.append_assoc, List.cons_append, ← minted, countA] at countB
  exact Nat.eq_of_mul_eq_mul_right (List.length_pos_iff.mpr walked) countB

/-- If no id is minted after the page that another one was left for, no number is added. -/
theorem count_turn_eq (unminted : ∀ first ∈ between.head?, first.book.minted = b.book.minted) :
    ∀ first ∈ (between.map (·.request.pageNo)).head?,
      ((q.carousel (before ++ [a])).turn first (q.rowsOn first)).count =
        (q.carousel (before ++ a :: (between ++ [b]))).count := by
  cases between with
  | nil => exact fun _ none => (nomatch none)
  | cons first rest =>
    rintro _ ⟨⟩
    have split₁ : (create c none).turns calls =
        (before ++ [a]) ++ first :: (rest ++ b :: after) := by
      rw [split]
      simp
    have count := count_eq_of_minted fixed pages distinct walked split₁ (unminted first rfl)
    rw [Request.carousel_append, List.append_assoc, List.singleton_append] at count
    exact count

end Runs

/-- A list that holds all its records, with distinct keys, shows pages of them one after the other.
Whether a page that comes back has the ids again that it had when it was left, the same for every
node, depends on the sizes of the pages shown so far alone: it has just if the carousel shows the
same numbers. If no id was minted after the page that it was left for, this is so just if the rows
brought in since make whole rounds of the ids of a node. If all pages so far were full, then it is
so just if an even number of pages was turned to. -/
theorem ids_return_iff (c : Config) (pages : c.scrolls = false) (q : Request)
    (distinct : q.keys.Nodup) (calls : List Call) (fixed : ∀ q', .options q' ∈ calls → q'.PageOf q)
    (before between after : List Turn) (a b : Turn)
    (split : (create c none).turns calls = before ++ a :: (between ++ b :: after))
    (again : b.request.pageNo = a.request.pageNo)
    (gone : ∀ t ∈ between, t.request.pageNo ≠ a.request.pageNo) (id : WidgetId)
    (walked : id ∈ b.pass.walk.order) :
    let past := q.carousel (before ++ [a])
    let now := q.carousel (before ++ a :: (between ++ [b]))
    (b.slotIds id = a.slotIds id ↔ now.shown = past.shown) ∧
    (b.rows ≠ [] → (∀ first ∈ between.head?, first.book.minted = b.book.minted) →
      (b.slotIds id = a.slotIds id ↔ now.count ∣ now.dealt - past.dealt)) ∧
    ((∀ t ∈ before ++ a :: (between ++ [b]), t.rows.length = q.pageSize) →
      (b.slotIds id = a.slotIds id ↔ 2 * q.pageSize ∣ now.dealt - past.dealt)) := by
  intro past now
  have shows : ∀ t ∈ before ++ a :: (between ++ [b]), t.ShowsPage c q := by
    intro t ht
    refine showsPage_of_turn fixed ?_
    rw [split]
    simp only [List.mem_append, List.mem_cons] at ht ⊢
    tauto
  have showsB := shows b (by simp)
  rw [showsB.walk] at walked
  have some : (Pass.ofRequest c q).walk.order ≠ [] := List.ne_nil_of_mem walked
  have same : b.slotIds id = a.slotIds id ↔ now.shown = past.shown :=
    slotIds_eq_iff fixed pages distinct some split walked
  have run : now = past.run q.rowsOn (between.map (·.request.pageNo) ++ [a.request.pageNo]) := by
    have join : before ++ a :: (between ++ [b]) = (before ++ [a]) ++ (between ++ [b]) := by simp
    show q.carousel (before ++ a :: (between ++ [b])) = _
    rw [join, Request.carousel_append, List.map_append, List.map_singleton, again]
  have page : past.page = Option.some a.request.pageNo := Request.page_carousel before a
  have gone' : ∀ p ∈ between.map (·.request.pageNo), p ≠ a.request.pageNo :=
    List.forall_mem_map.mpr gone
  have consistent : past.Consistent q.rowsOn := Request.consistent_carousel _
  refine ⟨same, fun rows unminted => ?_, fun full => ?_⟩
  · have filled : 0 < q.rowsOn a.request.pageNo := by
      rw [← again, ← showsB.length_rows pages distinct some]
      exact List.length_pos_iff.mpr rows
    have kept : ∀ first ∈ (between.map (·.request.pageNo)).head?,
        (past.turn first (q.rowsOn first)).count = now.count :=
      count_turn_eq fixed pages distinct some split unminted
    rw [run] at same kept ⊢
    exact same.trans (Carousel.shown_eq_iff_of_kept consistent page filled gone' kept)
  · have sizes : ∀ t ∈ before ++ a :: (between ++ [b]), q.rowsOn t.request.pageNo = q.pageSize := by
      intro t ht
      rw [← (shows t ht).length_rows pages distinct some, full t ht]
    have fullPast : past.Full q.pageSize := by
      refine Request.full_carousel fun t ht => sizes t ?_
      simp only [List.mem_append, List.mem_cons] at ht ⊢
      tauto
    have sizes' : ∀ p ∈ between.map (·.request.pageNo) ++ [a.request.pageNo],
        q.rowsOn p = q.pageSize := by
      rw [List.forall_mem_append, List.forall_mem_map, List.forall_mem_singleton]
      exact ⟨fun t ht => sizes t (by simp [ht]), sizes a (by simp)⟩
    rw [run] at same ⊢
    exact same.trans
      (Carousel.shown_eq_iff_of_full fullPast consistent page showsB.pageSize_pos gone' sizes')

/-- Shows pages of the simple list, one row a page. -/
def leafing (ns : List Nat) : List Call := ns.flatMap fun n => [.options (onePage n), .generate]

theorem pageOf_leafing (ns : List Nat) :
    ∀ q, .options q ∈ leafing ns → q.PageOf (onePage 1) := by
  intro q hq
  obtain ⟨n, -, call⟩ := List.mem_flatMap.mp hq
  rcases List.mem_cons.mp call with e | e
  · cases e
    exact ⟨rfl, rfl, rfl, rfl, rfl, rfl, rfl⟩
  · simp at e

/-- The second page is shown twice, which counts as one page that was turned to. -/
theorem ids_return_iff_thereAndBack :
    Config.standard.scrolls = false ∧ (onePage 1).keys.Nodup ∧
    (∀ q, .options q ∈ leafing [1, 2, 2, 1] → q.PageOf (onePage 1)) ∧
    ∃ a b between, (create .standard none).turns (leafing [1, 2, 2, 1]) =
        [] ++ a :: (between ++ b :: []) ∧
      b.request.pageNo = a.request.pageNo ∧ between.map (·.request.pageNo) = [2, 2] ∧
      (∀ t ∈ between, t.request.pageNo ≠ a.request.pageNo) ∧
      Sample.container ∈ b.pass.walk.order ∧
      (∀ t ∈ [] ++ a :: (between ++ [b]), t.rows.length = (onePage 1).pageSize) ∧
      b.slotIds Sample.container = a.slotIds Sample.container := by
  have distinct : (onePage 1).keys.Nodup := by decide
  have count : ((create .standard none).turns (leafing [1, 2, 2, 1])).length = 4 := rfl
  have numbers : ((create .standard none).turns (leafing [1, 2, 2, 1])).map (·.request.pageNo) =
      [1, 2, 2, 1] := by
    decide +kernel
  have full : ∀ t ∈ (create .standard none).turns (leafing [1, 2, 2, 1]),
      t.rows.length = (onePage 1).pageSize ∧ Sample.container ∈ t.pass.walk.order := by
    decide +kernel
  obtain ⟨a, x, y, b, split⟩ := List.length_eq_four.mp count
  rw [split] at numbers full
  have pages : a.request.pageNo = 1 ∧ x.request.pageNo = 2 ∧ y.request.pageNo = 2 ∧
      b.request.pageNo = 1 := by
    simpa using numbers
  obtain ⟨first, second, second', last⟩ := pages
  have gone : ∀ t ∈ [x, y], t.request.pageNo ≠ a.request.pageNo := by simp [first, second, second']
  have walked := (full b (by simp)).2
  have rows : ∀ t ∈ [] ++ a :: ([x, y] ++ [b]), t.rows.length = (onePage 1).pageSize :=
    fun t ht => (full t ht).1
  have ids := (ids_return_iff .standard rfl (onePage 1) distinct (leafing [1, 2, 2, 1])
    (pageOf_leafing _) [] [x, y] [] a b split (last.trans first.symm) gone Sample.container
    walked).2.2 rows
  refine ⟨rfl, distinct, pageOf_leafing _, a, b, [x, y], split, last.trans first.symm,
    by simp [second, second'], gone, walked, rows, ids.mpr ?_⟩
  have now : (onePage 1).carousel ([] ++ a :: ([x, y] ++ [b])) =
      Carousel.start.run (onePage 1).rowsOn [1, 2, 2, 1] := by
    simp [Request.carousel, first, second, second', last]
  have past : (onePage 1).carousel ([] ++ [a]) = Carousel.start.run (onePage 1).rowsOn [1] := by
    simp [Request.carousel, first]
  rw [now, past]
  decide

/-- The third page takes the ids of the first one, which comes back with those of the second. -/
theorem not_ids_return_thirdPage :
    ¬∀ (c : Config) (q : Request) (calls : List Call), c.scrolls = false → q.keys.Nodup →
      (∀ q', .options q' ∈ calls → q'.PageOf q) →
      ∀ before between after a b,
        (create c none).turns calls = before ++ a :: (between ++ b :: after) →
        b.request.pageNo = a.request.pageNo →
        (∀ t ∈ between, t.request.pageNo ≠ a.request.pageNo) →
        ∀ id ∈ b.pass.walk.order, b.slotIds id = a.slotIds id := by
  intro claim
  have count : ((create .standard none).turns (leafing [1, 2, 3, 1])).length = 4 := rfl
  have facts : ((create .standard none).turns (leafing [1, 2, 3, 1])).map
      (fun t => (t.request.pageNo, t.slotIds Sample.container)) =
      [(1, [⟨"meta_1"⟩]), (2, [⟨"meta_7"⟩]), (3, [⟨"meta_1"⟩]), (1, [⟨"meta_7"⟩])] := by
    decide +kernel
  have walked : ∀ t ∈ (create .standard none).turns (leafing [1, 2, 3, 1]),
      Sample.container ∈ t.pass.walk.order := by
    decide +kernel
  obtain ⟨a, x, y, b, split⟩ := List.length_eq_four.mp count
  rw [split] at facts walked
  simp only [List.map_cons, List.map_nil, List.cons.injEq, Prod.mk.injEq, and_true] at facts
  obtain ⟨⟨first, idsA⟩, ⟨second, -⟩, ⟨third, -⟩, last, idsB⟩ := facts
  have gone : ∀ t ∈ [x, y], t.request.pageNo ≠ a.request.pageNo := by simp [first, second, third]
  have same := claim .standard (onePage 1) (leafing [1, 2, 3, 1]) rfl (by decide)
    (pageOf_leafing _) [] [x, y] [] a b split (last.trans first.symm) gone Sample.container
    (walked b (by simp))
  rw [idsA, idsB] at same
  simp at same

end Session

end ListRepeater
