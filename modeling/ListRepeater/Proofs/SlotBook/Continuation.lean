import ListRepeater.Proofs.SlotBook.Restored
/-!
# Going on from a snapshot

A book that goes on from a snapshot takes the place of the book that was saved: whatever is asked of
the two from then on, they answer alike, count alike and are saved as the same. They need not be
equal. A pool that was empty when the book was saved is missing in the other one, and comes back
behind the others when an id is released into it.
-/
namespace ListRepeater.SlotBook

/-- What can be asked of a book. -/
inductive Demand where
  | acquire (k : Slot)
  | look (k : Slot)
  | pin (k : Slot) (id : WidgetId)
  | release (k : Slot)
  deriving DecidableEq

/-- The book after it has met a demand. -/
def meet (b : SlotBook) : Demand → SlotBook
  | .acquire k => b.acquire k
  | .look _ => b
  | .pin k id => b.pin k id
  | .release k => b.release k

/-- The answer to a demand, with what is noted meanwhile: the id that an acquired slot is granted,
and for any other demand the id that the slot holds until then. -/
def answer (b : SlotBook) : Demand → Option WidgetId × List Event
  | .acquire k => (some (b.grant k).id, b.acquireEvents k)
  | .look k | .pin k _ | .release k => (b.get? k, [])

def meetAll (b : SlotBook) (ds : List Demand) : SlotBook := ds.foldl meet b

/-- The answers to demands that are made one after the other. -/
def answers (b : SlotBook) : List Demand → List (Option WidgetId × List Event)
  | [] => []
  | d :: ds => b.answer d :: answers (b.meet d) ds

theorem stem_meetAll (b : SlotBook) (ds : List Demand) : (b.meetAll ds).stem = b.stem := by
  induction ds generalizing b with
  | nil => rfl
  | cons d ds ih =>
    have kept : (b.meet d).stem = b.stem := by
      cases d with
      | acquire k => exact stem_acquire b k
      | look k => rfl
      | pin k id => rfl
      | release k => exact stem_release b k
    exact (ih (b.meet d)).trans kept

namespace Matches

variable {b b' : SlotBook} (h : b.Matches b')

include h

theorem acquireEvents (k : Slot) : b.acquireEvents k = b'.acquireEvents k := by
  rw [SlotBook.acquireEvents, SlotBook.acquireEvents, h.grant k]

theorem answer (d : Demand) : b.answer d = b'.answer d := by
  cases d with
  | acquire k => rw [SlotBook.answer, SlotBook.answer, h.grant k, h.acquireEvents k]
  | look k => exact congrArg (·, []) (h.get? k)
  | pin k id => exact congrArg (·, []) (h.get? k)
  | release k => exact congrArg (·, []) (h.get? k)

/-- Meeting a demand keeps two books matched. -/
theorem meet (d : Demand) : (b.meet d).Matches (b'.meet d) := by
  cases d with
  | acquire k => exact h.acquire k
  | look k => exact h
  | pin k id => exact h.pin k id
  | release k => exact h.release k

omit h in
theorem meetAll {b b' : SlotBook} (h : b.Matches b') (ds : List Demand) :
    (b.meetAll ds).Matches (b'.meetAll ds) := by
  induction ds generalizing b b' with
  | nil => exact h
  | cons d ds ih => exact ih (h.meet d)

omit h in
theorem answers {b b' : SlotBook} (h : b.Matches b') (ds : List Demand) :
    b.answers ds = b'.answers ds := by
  induction ds generalizing b b' with
  | nil => rfl
  | cons d ds ih => rw [SlotBook.answers, SlotBook.answers, h.answer d, ih (h.meet d)]

end Matches

/-- Whatever was asked of a new book before it was saved, the book that goes on from the snapshot
answers all later demands as the saved book does. After any of them the two have minted as many ids,
have as many slots with ids and as many parked ids, and are saved as the same. -/
theorem restored_goes_on (stem : String) (past future : List Demand) :
    let saved := (empty stem).meetAll past
    let restored := ofSnapshot stem saved.snapshot
    saved.answers future = restored.answers future ∧
    (saved.meetAll future).minted = (restored.meetAll future).minted ∧
    (saved.meetAll future).slotCount = (restored.meetAll future).slotCount ∧
    (saved.meetAll future).parkedCount = (restored.meetAll future).parkedCount ∧
    (saved.meetAll future).snapshot.same (restored.meetAll future).snapshot = true := by
  intro saved restored
  have start : saved.Matches restored := by
    have own := matches_ofSnapshot saved
    rwa [stem_meetAll] at own
  have later := start.meetAll future
  exact ⟨start.answers future, later.minted, later.slotCount, later.parkedCount, later.snapshot⟩

-- the pool of `a` is empty when the book is saved, so it comes back behind that of `b`
example :
    let slot (row template : String) : Slot := ⟨⟨row⟩, ⟨template⟩⟩
    let saved := (empty "meta").meetAll
      [.acquire (slot "1" "a"), .acquire (slot "1" "b"), .release (slot "1" "a"),
        .release (slot "1" "b"), .acquire (slot "2" "a")]
    let restored := ofSnapshot "meta" saved.snapshot
    (saved.release (slot "2" "a")).snapshot.parked.keys = [⟨"a"⟩, ⟨"b"⟩] ∧
      (restored.release (slot "2" "a")).snapshot.parked.keys = [⟨"b"⟩, ⟨"a"⟩] := by
  decide +kernel

end ListRepeater.SlotBook
