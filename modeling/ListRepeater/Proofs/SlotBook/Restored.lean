import ListRepeater.Proofs.SlotBook.Ledger
import ListRepeater.SlotBook.Snapshot
/-!
# Books restored from a snapshot

A snapshot leaves out the pools that are empty. So the book that goes on from it need not be the
book that was saved, but it has the same slots in the same order and, for every template widget, the
same ids parked in the same order. No operation tells two such books apart.
-/
namespace ListRepeater.SlotBook

/-- Books that differ in their pools at most by empty ones and by the order of the templates. -/
structure Matches (b b' : SlotBook) : Prop where
  stem : b.stem = b'.stem
  slots : b.slots = b'.slots
  pool : ∀ t, b.pool t = b'.pool t
  minted : b.minted = b'.minted

section Pools

variable (b : SlotBook)

theorem pool_insert (slots : Keyed Slot WidgetId) (t : WidgetId) (ids : List WidgetId)
    (t' : WidgetId) : { b with slots := slots, pools := b.pools.insert t ids }.pool t' =
      if t = t' then ids else b.pool t' := by
  rw [pool, Keyed.find?_insert]
  split <;> rfl

theorem parkedCount_eq : b.parkedCount = (parkedPairs b.pools).length := by
  rw [parkedCount, parkedPairs, Keyed.values, List.map_map]
  induction b.pools.entries with
  | nil => rfl
  | cons e rest ih =>
    rw [List.map_cons, total_cons, ih, List.flatMap_cons, List.length_append, List.length_map]
    rfl

/-- What a snapshot tells of the pool of a template widget. -/
theorem find?_parked_snapshot (t : WidgetId) : b.snapshot.parked.find? t =
    if (b.pool t).isEmpty then none else some (b.pool t) := by
  rw [snapshot, Keyed.find?_filterMap, pool]
  cases b.pools.find? t with
  | none => rfl
  | some ids => rfl

end Pools

namespace Matches

variable {b b' : SlotBook} (h : b.Matches b')

include h

theorem get? (k : Slot) : b.get? k = b'.get? k := congrArg (Keyed.find? · k) h.slots

theorem grant (k : Slot) : b.grant k = b'.grant k := by
  simp only [SlotBook.grant, h.get? k, h.pool k.template, h.stem, h.minted]

theorem acquire (k : Slot) : (b.acquire k).Matches (b'.acquire k) := by
  rw [SlotBook.acquire, SlotBook.acquire, h.grant k]
  cases b'.grant k with
  | held id => exact h
  | recycled id rest =>
    refine ⟨h.stem, congrArg (·.insert k id) h.slots, fun t => ?_, h.minted⟩
    rw [pool_insert, pool_insert, h.pool t]
  | minted id =>
    exact ⟨h.stem, congrArg (·.insert k id) h.slots, h.pool, congrArg (· + 1) h.minted⟩

theorem release (k : Slot) : (b.release k).Matches (b'.release k) := by
  rw [SlotBook.release, SlotBook.release, h.get? k]
  cases b'.get? k with
  | none => exact h
  | some id =>
    refine ⟨h.stem, congrArg (·.erase k) h.slots, fun t => ?_, h.minted⟩
    rw [pool_insert, pool_insert, h.pool t, h.pool k.template]

theorem pin (k : Slot) (id : WidgetId) : (b.pin k id).Matches (b'.pin k id) :=
  ⟨h.stem, congrArg (·.insert k id) h.slots, h.pool, h.minted⟩

omit h in
theorem acquireAll {b b' : SlotBook} (h : b.Matches b') (ks : List Slot) :
    (b.acquireAll ks).Matches (b'.acquireAll ks) := by
  induction ks generalizing b b' with
  | nil => exact h
  | cons k rest ih => exact ih (h.acquire k)

omit h in
theorem releaseAll {b b' : SlotBook} (h : b.Matches b') (ks : List Slot) :
    (b.releaseAll ks).Matches (b'.releaseAll ks) := by
  induction ks generalizing b b' with
  | nil => exact h
  | cons k rest ih => exact ih (h.release k)

theorem parkedPairs : (parkedPairs b.pools).Perm (parkedPairs b'.pools) := by
  apply List.perm_iff_count.mpr
  rintro ⟨t, id⟩
  rw [count_parkedPairs, count_parkedPairs, h.pool t]

theorem filings : b.filings.Perm b'.filings := by
  rw [SlotBook.filings, SlotBook.filings, h.slots]
  exact h.parkedPairs.append_left _

theorem balanced (kept : b.Balanced) : b'.Balanced := by
  rw [Balanced, ← h.stem, ← h.minted]
  exact (h.filings.symm.map Prod.snd).trans kept

theorem slotCount : b.slotCount = b'.slotCount := congrArg Keyed.size h.slots

theorem parkedCount : b.parkedCount = b'.parkedCount := by
  rw [parkedCount_eq, parkedCount_eq]
  exact h.parkedPairs.length_eq

/-- Books that match are saved as the same. -/
theorem snapshot : b.snapshot.same b'.snapshot = true := by
  have slots : b.snapshot.slots = b'.snapshot.slots := by
    rw [SlotBook.snapshot, SlotBook.snapshot, h.slots]
  have parked : b.snapshot.parked.same (fun x y => decide (x = y)) b'.snapshot.parked = true := by
    rw [Keyed.same_iff]
    intro t
    rw [find?_parked_snapshot, find?_parked_snapshot, h.pool t]
    split
    · exact .none
    · exact .some (decide_eq_true rfl)
  have minted : b.snapshot.minted = b'.snapshot.minted := h.minted
  rw [Snapshot.same, parked, slots, minted, beq_self_eq_true, beq_self_eq_true]
  rfl

end Matches

section Restored

variable (b : SlotBook) (stem : String)

theorem slots_ofSnapshot : (ofSnapshot stem b.snapshot).slots = b.slots := by
  have entries : (b.slots.entries.map fun e => SlotEntry.mk e.1.row e.1.template e.2).map
      (fun e => ((⟨e.row, e.template⟩ : Slot), e.id)) = b.slots.entries := by
    rw [List.map_map]
    exact List.map_id _
  rw [ofSnapshot, snapshot]
  simp only [entries]
  exact Keyed.ofList_entries b.slots

/-- A book that goes on from a snapshot finds every slot as it was. -/
theorem get?_ofSnapshot (k : Slot) : (ofSnapshot stem b.snapshot).get? k = b.get? k :=
  congrArg (Keyed.find? · k) (b.slots_ofSnapshot stem)

/-- Nothing that matters is lost between saving a book and going on from what was saved. -/
theorem matches_ofSnapshot : b.Matches (ofSnapshot b.stem b.snapshot) where
  stem := rfl
  slots := (b.slots_ofSnapshot b.stem).symm
  pool := by
    intro t
    have parked : (ofSnapshot b.stem b.snapshot).pool t =
        (b.snapshot.parked.find? t).getD [] := rfl
    rw [parked, find?_parked_snapshot]
    split
    · next none => exact List.isEmpty_iff.mp none
    · rfl
  minted := rfl

end Restored

end ListRepeater.SlotBook
