import ListRepeater.Proofs.SlotBook.Occupancy
import ListRepeater.Proofs.SlotIdentity
import ListRepeater.Proofs.StoredSlots
import Mathlib.Algebra.Order.BigOperators.Group.Finset
/-!
# How many ids a run mints

After each pass of a list that was never shown before exactly the slots of that pass hold ids. A
pass acquires its slots before it releases those of the pass before it, so a node needs at most as
many ids as rows of two passes in a row need it. Released ids are used again for the same node, and
no more are ever minted than that.
-/
namespace ListRepeater

namespace Turn

/-- The keys of the rows that need a slot for the node: all that the pass shows, if it walks the
node. -/
def keysNeeding (t : Turn) (id : WidgetId) : Finset RowKey :=
  if id ∈ t.pass.walk.order then (t.rows.map (·.row.place.key)).toFinset else ∅

/-- The most keys that need the node in one of the passes together with the pass before it; before
the first pass these keys need it. -/
def peakFrom (id : WidgetId) : Finset RowKey → List Turn → Nat
  | _, [] => 0
  | before, t :: later =>
    max (before ∪ t.keysNeeding id).card (peakFrom id (t.keysNeeding id) later)

/-- The most keys that need the node in two passes in a row. -/
def peak (ts : List Turn) (id : WidgetId) : Nat := peakFrom id ∅ ts

/-- The nodes that the passes walk. -/
def walked (ts : List Turn) : Finset WidgetId := (ts.flatMap (·.pass.walk.order)).toFinset

variable {t : Turn} {id : WidgetId}

theorem map_key_rows (t : Turn) :
    t.rows.map (·.row.place.key) = t.pass.windowRows.map (·.place.key) := by
  rw [← t.map_row_rows, List.map_map]
  rfl

/-- The slots of a pass are those of the nodes in the rows that need them. -/
theorem mem_slots_iff {k : Slot} : k ∈ t.pass.slots ↔ k.row ∈ t.keysNeeding k.template := by
  have nodes := Pass.map_fst_nodes t.repeater.config t.request
  rw [keysNeeding, map_key_rows]
  constructor
  · intro hk
    obtain ⟨x, hx, rfl⟩ := List.mem_map.mp hk
    obtain ⟨row, node⟩ := t.pass.mem_cells.mp hx
    have walks : x.id ∈ t.pass.walk.order := (t.pass.mem_nodes_iff.mp node).1
    rw [Cell.slot, if_pos walks, List.mem_toFinset]
    exact List.mem_map_of_mem row
  · intro hk
    split at hk
    · next walks =>
      obtain ⟨row, hrow, key⟩ := List.mem_map.mp (List.mem_toFinset.mp hk)
      have slot := Pass.slot_mem_of_walked (c := t.repeater.config) hrow walks
      rwa [key] at slot
    · cases hk

theorem card_keysNeeding_le (t : Turn) (id : WidgetId) :
    (t.keysNeeding id).card ≤ t.rows.length := by
  rw [keysNeeding]
  split
  · exact (List.toFinset_card_le _).trans_eq (List.length_map _)
  · exact Nat.zero_le _

theorem peakFrom_snoc (before : Finset RowKey) (ts : List Turn) (a t : Turn) :
    peakFrom id before (ts ++ [a] ++ [t]) =
      max (peakFrom id before (ts ++ [a])) (a.keysNeeding id ∪ t.keysNeeding id).card := by
  induction ts generalizing before with
  | nil => simp [peakFrom]
  | cons first rest ih => simp only [List.cons_append, peakFrom, ih, max_assoc]

theorem peakFrom_of_not_walked {ts : List Turn} (h : id ∉ walked ts) : peakFrom id ∅ ts = 0 := by
  induction ts with
  | nil => rfl
  | cons t rest ih =>
    simp only [walked, List.flatMap_cons, List.toFinset_append, Finset.mem_union, not_or,
      List.mem_toFinset] at h ih
    have none : t.keysNeeding id = ∅ := if_neg h.1
    rw [peakFrom, none, ih h.2]
    rfl

/-- Two passes in a row show at most twice as many rows as either may. -/
theorem peakFrom_le {rows : Nat} {ts : List Turn} (few : ∀ t ∈ ts, t.rows.length ≤ rows)
    {before : Finset RowKey} (start : before.card ≤ rows) : peakFrom id before ts ≤ 2 * rows := by
  induction ts generalizing before with
  | nil => exact Nat.zero_le _
  | cons t rest ih =>
    have now := (t.card_keysNeeding_le id).trans (few t List.mem_cons_self)
    have both := Finset.card_union_le before (t.keysNeeding id)
    have later := ih (fun t ht => few t (List.mem_cons_of_mem _ ht)) now
    rw [peakFrom]
    omega

/-- A pass files as many ids under a node as rows held one before or need one now, if they were not
that many already. -/
theorem filedCount_book (t : Turn) (id : WidgetId) : t.book.filedCount id =
    max (t.repeater.book.filedCount id)
      ((t.repeater.book.acquireAll t.pass.slots).holders id).card := by
  rw [book, outcome, Repeater.book_run, SlotBook.filedCount_releaseAll,
    SlotBook.filedCount_acquireAll]

end Turn

namespace Session

variable {s : Session} {calls : List Call} {before after : List Turn} {t : Turn}

/-- While a pass lays out its rows, a node has slots in the rows that needed it before and in those
that need it now. -/
theorem holders_acquireAll {held : Finset RowKey} {id : WidgetId}
    (start : ∀ row, (⟨row, id⟩ : Slot) ∈ t.repeater.book.slots.keys ↔ row ∈ held) :
    (t.repeater.book.acquireAll t.pass.slots).holders id = held ∪ t.keysNeeding id := by
  ext row
  rw [SlotBook.mem_holders_iff, SlotBook.mem_keys_acquireAll_iff, start, Turn.mem_slots_iff,
    Finset.mem_union, or_comm]

theorem filedCount_of_turn {stem : String} (first : s.repeater.shown = none)
    (fresh : s.repeater.book = .empty stem) (split : s.turns calls = before ++ t :: after)
    (id : WidgetId) : t.book.filedCount id = Turn.peak (before ++ [t]) id := by
  have nothing : s.repeater.book.slots.keys = [] := by
    rw [fresh]
    rfl
  -- from the first pass to the last, as each starts with what the pass before it left
  induction before using List.reverseRecOn generalizing t after with
  | nil =>
    have follows := (first_turn split).1
    have start : ∀ row, (⟨row, id⟩ : Slot) ∈ t.repeater.book.slots.keys ↔ row ∈ (∅ : Finset _) := by
      intro row
      rw [follows.book, nothing]
      simp
    have filed : t.repeater.book.filedCount id = 0 := by
      rw [follows.book, fresh]
      rfl
    rw [Turn.filedCount_book, holders_acquireAll start, filed]
    simp [Turn.peak, Turn.peakFrom]
  | append_singleton before a ih =>
    rw [List.append_assoc, List.singleton_append] at split
    have follows := next_turn split
    have start : ∀ row, (⟨row, id⟩ : Slot) ∈ t.repeater.book.slots.keys ↔
        row ∈ a.keysNeeding id := by
      intro row
      have held := mem_keys_of_turn first split ⟨row, id⟩
      rw [nothing] at held
      rw [follows.book]
      simpa [Turn.mem_slots_iff] using held
    have filed : t.repeater.book.filedCount id = Turn.peak (before ++ [a]) id := by
      rw [follows.book]
      exact ih split
    rw [Turn.filedCount_book, holders_acquireAll start, filed, Turn.peak, Turn.peak, Turn.peakFrom_snoc]

/-- Over any run of a list that was never shown before, after each pass exactly the slots of its
nodes in its rows hold ids, and the minted ids are, for each node that was ever walked, as many as
the most keys that needed it in two passes in a row. So with one template and at most `rows` rows at
a time no more than two ids for each node and row are ever minted. -/
theorem minted_eq_peaks (c : Config) (calls : List Call) (before after : List Turn) (t : Turn)
    (split : (create c none).turns calls = before ++ t :: after) :
    (∀ k : Slot, k ∈ t.book.slots.keys ↔
      k.row ∈ t.rows.map (·.row.place.key) ∧ k.template ∈ t.pass.walk.order) ∧
    t.book.minted = ∑ id ∈ Turn.walked (before ++ [t]), Turn.peak (before ++ [t]) id ∧
    ∀ (template : Template) (rows : Nat),
      (∀ a ∈ before ++ [t], a.request.template = template ∧ a.rows.length ≤ rows) →
        t.book.minted ≤ 2 * template.size * rows := by
  have ht : t ∈ (create c none).turns calls := by simp [split]
  obtain ⟨-, balanced⟩ := balanced_of_grounded (Repeater.grounded_create c) ht
  have fresh : (create c none).repeater.book = .empty c.stem := rfl
  have filed := filedCount_of_turn rfl fresh split
  have within : ∀ id, t.book.filedCount id ≠ 0 → id ∈ Turn.walked (before ++ [t]) := by
    intro id some
    by_contra unwalked
    exact some ((filed id).trans (Turn.peakFrom_of_not_walked unwalked))
  have minted : t.book.minted =
      ∑ id ∈ Turn.walked (before ++ [t]), Turn.peak (before ++ [t]) id := by
    rw [balanced.minted_eq within]
    exact Finset.sum_congr rfl fun id _ => filed id
  refine ⟨fun k => ?_, minted, ?_⟩
  · have held := mem_keys_of_turn rfl split k
    rw [held, Turn.mem_slots_iff, Turn.keysNeeding]
    have nothing : (create c none).repeater.book.slots.keys = [] := rfl
    by_cases walks : k.template ∈ t.pass.walk.order <;> simp [nothing, walks]
  · intro template rows fixed
    have few : ∀ id ∈ Turn.walked (before ++ [t]), Turn.peak (before ++ [t]) id ≤ 2 * rows :=
      fun _ _ => Turn.peakFrom_le (fun a ha => (fixed a ha).2) (Nat.zero_le _)
    have nodes : Turn.walked (before ++ [t]) ⊆ template.keys.toFinset := by
      intro id hid
      obtain ⟨a, ha, walks⟩ := List.mem_flatMap.mp (List.mem_toFinset.mp hid)
      obtain ⟨n, found⟩ := found_of_mem_walk walks
      rw [(fixed a ha).1] at found
      exact List.mem_toFinset.mpr (Keyed.mem_keys_of_find? found)
    have size : template.keys.toFinset.card ≤ template.size :=
      (List.toFinset_card_le _).trans_eq (List.length_map _)
    calc t.book.minted
        ≤ (Turn.walked (before ++ [t])).card * (2 * rows) :=
          minted.trans_le (Finset.sum_le_card_nsmul _ _ _ few)
      _ ≤ template.size * (2 * rows) :=
          Nat.mul_le_mul_right _ ((Finset.card_le_card nodes).trans size)
      _ = 2 * template.size * rows := by rw [Nat.mul_left_comm, Nat.mul_assoc]

/-- Turns to the third page of the simple list, one row a page. -/
def turningPages : List Call :=
  [1, 2, 3].flatMap fun n => [.options (onePage n), .generate]

/-- The third page needs no ids beyond those of the first two, and the bound is reached. -/
theorem minted_eq_peaks_turningPages :
    ∃ before t, (create .standard none).turns turningPages = before ++ [t] ∧ before.length = 2 ∧
      (∀ a ∈ before ++ [t], a.request.template = Sample.simple.template ∧ a.rows.length ≤ 1) ∧
      t.book.minted = ∑ id ∈ Turn.walked (before ++ [t]), Turn.peak (before ++ [t]) id ∧
      t.book.minted ≤ 2 * Sample.simple.template.size * 1 ∧ t.book.minted = 12 := by
  have count : ((create .standard none).turns turningPages).length = 3 := rfl
  have fixed : ∀ a ∈ (create .standard none).turns turningPages,
      a.request.template = Sample.simple.template ∧ a.rows.length ≤ 1 := by
    decide +kernel
  have all : ((create .standard none).turns turningPages).map (·.book.minted) = [6, 12, 12] := by
    decide +kernel
  obtain ⟨a, b, t, split⟩ := List.length_eq_three.mp count
  rw [split] at fixed all
  obtain ⟨-, minted, bound⟩ := minted_eq_peaks .standard turningPages [a, b] [] t split
  have last : t.book.minted = 12 := congrArg (fun counts => counts.getD 2 0) all
  exact ⟨[a, b], t, split, rfl, fixed, minted, bound _ _ fixed, last⟩

end Session

end ListRepeater
