import ListRepeater.Proofs.Recreation
import ListRepeater.Sample.Lists
/-!
# Slots that were stored

A pass releases the slots of rows that the pass before it showed. The first pass of a repeater that
goes on from a snapshot has no pass before it, so of the stored slots it releases none: each stays
with its id until a pass shows it and a later pass shows it no more. The book is tidy, with ids for
nothing but what is shown, as soon as every stored slot was shown once.
-/
namespace ListRepeater

/-- Saved by a pass of a repeater of the list, which may itself have gone on from what was saved. -/
inductive Snapshot.SavedBy (c : Config) : Snapshot → Prop where
  | pass {stored : Option Snapshot} (earlier : ∀ s, stored = some s → SavedBy c s)
      {calls : List Call} {t : Turn} (ht : t ∈ (Session.create c stored).turns calls) :
      SavedBy c t.outcome.saved

/-- The snapshot has an id for the slot. -/
def Snapshot.Holds (s : Snapshot) (k : Slot) : Prop := ∃ e ∈ s.slots, ⟨e.row, e.template⟩ = k

theorem Snapshot.mem_keys_ofSnapshot_iff {s : Snapshot} {stem : String} {k : Slot} :
    k ∈ (SlotBook.ofSnapshot stem s).slots.keys ↔ s.Holds k := by
  rw [SlotBook.ofSnapshot, Keyed.mem_keys_ofList, List.map_map, List.mem_map]
  rfl

namespace Repeater

/-- The slots of the rows that are shown. -/
def shownSlots (r : Repeater) : List Slot := r.shownRows.flatMap (·.slots)

variable (r : Repeater) (q : Request)

theorem mem_vacated_iff {rows : List ShownRow} {k : Slot} :
    k ∈ vacated r.shown rows ↔ k ∈ r.shownSlots ∧ k ∉ rows.flatMap (·.slots) := by
  have before : ((r.shown.map fun s => s.rows.flatMap (·.slots)).getD []) = r.shownSlots := by
    rw [shownSlots, shownRows]
    cases r.shown <;> rfl
  rw [vacated, before, List.mem_filter]
  simp

theorem shownSlots_run : (r.run q).next.shownSlots = (r.pass q).slots := by
  rw [shownSlots, shownRows, shown_run]
  exact (r.pass q).slots_shownRowsIn _

/-- After a pass those slots hold ids that it shows, and those that held one before but were not
shown. -/
theorem mem_keys_run (k : Slot) : k ∈ (r.run q).next.book.slots.keys ↔
    k ∈ (r.pass q).slots ∨ (k ∈ r.book.slots.keys ∧ k ∉ r.shownSlots) := by
  by_cases hk : k ∈ (r.pass q).slots
  · obtain ⟨id, held⟩ := held_run r q hk
    exact iff_of_true (Keyed.mem_keys_of_find? held) (Or.inl hk)
  · have found : (r.run q).next.book.get? k =
        if k ∈ r.shownSlots then none else r.book.get? k := by
      rw [book_run, SlotBook.get?_releaseAll, SlotBook.get?_acquireAll_of_not_mem _ hk]
      simp only [mem_vacated_iff, Pass.slots_shownRowsIn, hk, not_false_eq_true, and_true]
    by_cases shown : k ∈ r.shownSlots
    · rw [if_pos shown] at found
      have gone := ((r.run q).next.book.slots.find?_eq_none_iff k).mp found
      exact iff_of_false gone fun h => h.elim hk fun h => h.2 shown
    · rw [if_neg shown] at found
      have kept : k ∈ (r.run q).next.book.slots.keys ↔ k ∈ r.book.slots.keys := by
        rw [← Keyed.find?_isSome_iff, ← Keyed.find?_isSome_iff]
        exact iff_of_eq (congrArg (fun id => id.isSome = true) found)
      rw [kept, or_iff_right hk, and_iff_left shown]

end Repeater

theorem Turn.Follows.shownSlots {t : Turn} {r : Repeater} {m : Mounted} (follows : t.Follows r m) :
    t.repeater.shownSlots = r.shownSlots := by
  rw [Repeater.shownSlots, Repeater.shownRows, follows.shown]
  rfl

/-- After the pass exactly its own slots hold ids, and all other minted ids are parked. -/
structure Turn.Tidy (t : Turn) : Prop where
  held : ∀ k, k ∈ t.book.slots.keys ↔ k ∈ t.pass.slots
  parked : ∀ id ∈ SlotBook.mintedIds t.book.stem t.book.minted,
    (∀ k ∈ t.pass.slots, t.book.get? k ≠ some id) → ∃ template, id ∈ t.book.pool template

namespace Session

section Runs

variable {s : Session} {calls : List Call} {before after : List Turn} {t : Turn}

/-- Over the run of a repeater that starts without rows, a slot that its book held at the start is
held until a pass shows it. -/
theorem mem_keys_of_turn (first : s.repeater.shown = none)
    (split : s.turns calls = before ++ t :: after) (k : Slot) : k ∈ t.book.slots.keys ↔
      k ∈ t.pass.slots ∨ (k ∈ s.repeater.book.slots.keys ∧ ∀ a ∈ before, k ∉ a.pass.slots) := by
  -- from the first pass to the last, as each starts with what the pass before it left
  induction before using List.reverseRecOn generalizing t after with
  | nil =>
    have follows := (first_turn split).1
    have none : s.repeater.shownSlots = [] := by
      rw [Repeater.shownSlots, Repeater.shownRows, first]
      rfl
    refine (Repeater.mem_keys_run t.repeater t.request k).trans ?_
    rw [follows.book, follows.shownSlots, none]
    simp
  | append_singleton before a ih =>
    rw [List.append_assoc, List.singleton_append] at split
    have follows := next_turn split
    have shown : t.repeater.shownSlots = a.pass.slots :=
      follows.shownSlots.trans (Repeater.shownSlots_run a.repeater a.request)
    refine (Repeater.mem_keys_run t.repeater t.request k).trans (or_congr_right ?_)
    rw [follows.book, shown, ih split]
    simp only [List.forall_mem_append, List.forall_mem_singleton, or_and_right, and_not_self_iff,
      false_or, and_assoc]

end Runs

section Saved

variable {c : Config}

/-- A repeater that goes on from the snapshot of a balanced book starts with a balanced one. -/
theorem grounded_create_stored {b : SlotBook} (stem : b.stem = c.stem) (balanced : b.Balanced) :
    (Repeater.create c (some b.snapshot)).Grounded := by
  have book : (Repeater.create c (some b.snapshot)).book =
      if c.cloned then .empty c.stem else .ofSnapshot c.stem b.snapshot := rfl
  cases cloned : c.cloned with
  | true =>
    rw [cloned, if_pos rfl] at book
    exact ⟨congrArg SlotBook.stem book, book ▸ SlotBook.balanced_empty c.stem⟩
  | false =>
    rw [cloned, if_neg Bool.false_ne_true, ← stem] at book
    refine ⟨(congrArg SlotBook.stem book).trans stem, ?_⟩
    rw [book]
    exact b.matches_ofSnapshot.balanced balanced

/-- The book after any of its passes is balanced. -/
theorem balanced_of_grounded {stored : Option Snapshot}
    (start : (Repeater.create c stored).Grounded) {calls : List Call} {t : Turn}
    (ht : t ∈ (create c stored).turns calls) : t.book.stem = c.stem ∧ t.book.Balanced := by
  obtain ⟨grounded, config⟩ := grounded_of_turn start ht
  have after := Repeater.grounded_run grounded t.request
  exact ⟨after.stem.trans (congrArg Config.stem config), after.balanced⟩

theorem grounded_of_saved {stored : Snapshot} (saved : stored.SavedBy c) :
    (Repeater.create c (some stored)).Grounded := by
  induction saved with
  | @pass earlier _ calls t ht ih =>
    have start : (Repeater.create c earlier).Grounded := by
      cases earlier with
      | none => exact Repeater.grounded_create c
      | some s => exact ih s rfl
    obtain ⟨stem, balanced⟩ := balanced_of_grounded start ht
    exact grounded_create_stored stem balanced

end Saved

section Recreated

variable {c : Config} {stored : Snapshot} {calls : List Call} {before after : List Turn} {t : Turn}

theorem mem_keys_of_recreated (own : c.cloned = false)
    (split : (create c (some stored)).turns calls = before ++ t :: after) (k : Slot) :
    k ∈ t.book.slots.keys ↔
      k ∈ t.pass.slots ∨ (stored.Holds k ∧ ∀ a ∈ before, k ∉ a.pass.slots) := by
  have start : (create c (some stored)).repeater.book = .ofSnapshot c.stem stored := by
    simp only [create, Repeater.create, own]
    rfl
  rw [mem_keys_of_turn rfl split, start, Snapshot.mem_keys_ofSnapshot_iff]

end Recreated

/-- Over the run of a repeater that goes on from what was saved, after each pass exactly those slots
hold ids that it shows, and those stored ones that no pass before it has shown. All other minted ids
are parked. So the book is tidy as soon as every stored slot was shown. -/
theorem held_of_recreated (c : Config) (own : c.cloned = false) (stored : Snapshot)
    (saved : stored.SavedBy c) (calls : List Call) (before after : List Turn) (t : Turn)
    (split : (create c (some stored)).turns calls = before ++ t :: after) :
    (∀ k, k ∈ t.book.slots.keys ↔
      k ∈ t.pass.slots ∨ (stored.Holds k ∧ ∀ a ∈ before, k ∉ a.pass.slots)) ∧
    (∀ id ∈ SlotBook.mintedIds c.stem t.book.minted,
      (∃ template, id ∈ t.book.pool template) ↔ ∀ k, t.book.get? k ≠ some id) ∧
    (t.Tidy ↔ ∀ k, stored.Holds k → ∃ a ∈ before ++ [t], k ∈ a.pass.slots) := by
  have ht : t ∈ (create c (some stored)).turns calls := by simp [split]
  obtain ⟨stem, balanced⟩ := balanced_of_grounded (grounded_of_saved saved) ht
  have held := mem_keys_of_recreated own split
  rw [← stem]
  refine ⟨held, fun id minted => balanced.parked_iff minted, ?_, ?_⟩
  · -- a stored slot that was never shown is still held
    intro tidy k kept
    by_contra unshown
    have unshown : ∀ a ∈ before ++ [t], k ∉ a.pass.slots :=
      fun a ha shown => unshown ⟨a, ha, shown⟩
    rw [List.forall_mem_append, List.forall_mem_singleton] at unshown
    exact unshown.2 ((tidy.held k).mp ((held k).mpr (Or.inr ⟨kept, unshown.1⟩)))
  · intro visited
    have tidy : ∀ k, k ∈ t.book.slots.keys ↔ k ∈ t.pass.slots := by
      intro k
      refine (held k).trans (or_iff_left_of_imp ?_)
      rintro ⟨kept, unshown⟩
      obtain ⟨a, ha, shown⟩ := visited k kept
      rcases List.mem_append.mp ha with ha | ha
      · exact absurd shown (unshown a ha)
      · exact List.mem_singleton.mp ha ▸ shown
    refine ⟨tidy, fun id minted free => (balanced.parked_iff minted).mpr fun k found => ?_⟩
    exact free k ((tidy k).mp (Keyed.mem_keys_of_find? found)) found

/-- Asks for a page of the simple list, one row long. -/
def onePage (n : Nat) : Request :=
  { Request.blank "" Sample.simple.mount Sample.simple.root Sample.simple.template with
    records := Sample.records
    keys := Sample.idKeys Sample.records
    pageNo := n }

/-- The pass over the first page, made by a new repeater. -/
def firstPage : Turn :=
  ⟨(Repeater.create .standard none).withRequest (onePage 1), .empty, onePage 1⟩

theorem savedBy_firstPage : firstPage.outcome.saved.SavedBy .standard := by
  have made : firstPage ∈ (create .standard none).turns [.options (onePage 1), .generate] :=
    List.mem_cons_self
  refine .pass ?_ made
  rintro _ ⟨⟩

/-- Goes on with the second page and then turns back to the first. -/
def turningBack : List Call :=
  [.options (onePage 2), .generate, .options (onePage 1), .generate]

/-- The second page finds the slots of the first one held. Shown again, they are slots like any
other. -/
theorem held_of_recreated_turningBack :
    Config.standard.cloned = false ∧ firstPage.outcome.saved.SavedBy .standard ∧
    ∃ a b, (create .standard (some firstPage.outcome.saved)).turns turningBack = [a] ++ b :: [] ∧
      ¬a.Tidy ∧ b.Tidy := by
  have count : ((create .standard (some firstPage.outcome.saved)).turns turningBack).length = 2 :=
    rfl
  have unshown : ∃ e ∈ firstPage.outcome.saved.slots,
      ∀ a ∈ ((create .standard (some firstPage.outcome.saved)).turns turningBack).take 1,
        (⟨e.row, e.template⟩ : Slot) ∉ a.pass.slots := by
    decide +kernel
  have visited : ∀ e ∈ firstPage.outcome.saved.slots,
      ∃ a ∈ (create .standard (some firstPage.outcome.saved)).turns turningBack,
        (⟨e.row, e.template⟩ : Slot) ∈ a.pass.slots := by
    decide +kernel
  obtain ⟨a, b, split⟩ := List.length_eq_two.mp count
  rw [split] at unshown visited
  refine ⟨rfl, savedBy_firstPage, a, b, split, ?_, ?_⟩
  · obtain ⟨-, -, tidy⟩ :=
      held_of_recreated .standard rfl _ savedBy_firstPage turningBack [] [b] a split
    obtain ⟨e, he, unshown⟩ := unshown
    intro h
    obtain ⟨a', ha', shown⟩ := tidy.mp h _ ⟨e, he, rfl⟩
    exact unshown a' ha' shown
  · obtain ⟨-, -, tidy⟩ :=
      held_of_recreated .standard rfl _ savedBy_firstPage turningBack [a] [] b split
    refine tidy.mpr ?_
    rintro _ ⟨e, he, rfl⟩
    exact visited e he

/-- Going on with another page than was saved leaves the slots of the saved one held. -/
theorem not_tidy_of_other_page :
    ¬∀ c : Config, c.cloned = false → ∀ stored : Snapshot, stored.SavedBy c → ∀ calls,
      ∀ t ∈ (create c (some stored)).turns calls, t.Tidy := by
  intro claim
  have kept : ∃ t ∈ (create .standard (some firstPage.outcome.saved)).turns turningBack,
      ∃ k ∈ t.book.slots.keys, k ∉ t.pass.slots := by
    decide +kernel
  obtain ⟨t, ht, k, held, unshown⟩ := kept
  exact unshown (((claim .standard rfl _ savedBy_firstPage turningBack t ht).held k).mp held)

end Session

end ListRepeater
