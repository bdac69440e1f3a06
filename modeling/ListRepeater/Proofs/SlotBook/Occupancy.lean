import ListRepeater.Proofs.SlotBook.Restored
import Mathlib.Algebra.BigOperators.Group.Finset.Basic
import Mathlib.Data.Finset.Card
/-!
# Occupancy of a slot book

An id is minted for a template widget only when none is parked for it, so the ids filed under a
template widget are as many as its slots ever held at the same time. Slots that are acquired one
after the other reach their number at the end, and releasing changes nothing of what is filed.
-/
namespace ListRepeater.SlotBook

variable (b : SlotBook) (t : WidgetId)

/-- The rows whose slot for the template widget holds an id. -/
def holders : Finset RowKey := ((b.slots.keys.filter (·.template = t)).map Slot.row).toFinset

/-- How many ids are filed under the template widget. -/
def filedCount : Nat := (b.filings.map Prod.fst).count t

theorem mem_holders_iff {row : RowKey} : row ∈ b.holders t ↔ (⟨row, t⟩ : Slot) ∈ b.slots.keys := by
  simp only [holders, List.mem_toFinset, List.mem_map, List.mem_filter, decide_eq_true_eq]
  constructor
  · rintro ⟨⟨row, t⟩, ⟨held, rfl⟩, rfl⟩
    exact held
  · intro held
    exact ⟨⟨row, t⟩, ⟨held, rfl⟩, rfl⟩

/-- Different slots of a template widget are those of different rows. -/
theorem card_holders : (b.holders t).card = (b.slots.keys.map Slot.template).count t := by
  have nodup : ((b.slots.keys.filter (·.template = t)).map Slot.row).Nodup := by
    refine List.Nodup.map_on ?_ (b.slots.nodup_keys.filter _)
    rintro ⟨row, s⟩ hk ⟨row', s'⟩ hk' rfl
    simp only [List.mem_filter, decide_eq_true_eq] at hk hk'
    rw [hk.2, hk'.2]
  rw [holders, List.toFinset_card_of_nodup nodup, List.length_map, List.count_eq_countP,
    List.countP_map, List.countP_eq_length_filter]
  rfl

/-- What is filed under a template widget is held by its slots or parked for it. -/
theorem filedCount_eq : b.filedCount t = (b.holders t).card + (b.pool t).length := by
  have parked : ((parkedPairs b.pools).map Prod.fst).count t = (b.pool t).length := by
    have others : t ∉ (parkedPairs (b.pools.erase t)).map Prod.fst := by
      simp only [parkedPairs, List.mem_map, List.mem_flatMap]
      rintro ⟨pair, ⟨e, he, id, -, rfl⟩, key⟩
      have kept : e.1 ∈ (b.pools.erase t).keys := List.mem_map_of_mem he
      rw [show e.1 = t from key, Keyed.keys_erase] at kept
      simp at kept
    rw [((parkedPairs_perm b.pools t).map Prod.fst).count_eq, List.map_append, List.count_append,
      List.count_eq_zero_of_not_mem others, List.map_map]
    have own : (Prod.fst ∘ fun id : WidgetId => (t, id)) = fun _ => t := rfl
    rw [own, List.map_const', List.count_replicate_self]
    rfl
  have held : (b.slots.entries.map fun e => (e.1.template, e.2)).map Prod.fst =
      b.slots.keys.map Slot.template := by
    rw [Keyed.keys, List.map_map, List.map_map]
    rfl
  rw [filedCount, filings, List.map_append, List.count_append, parked, held, card_holders]

theorem card_holders_le : (b.holders t).card ≤ b.filedCount t := by
  rw [filedCount_eq]
  exact Nat.le_add_right _ _

theorem holders_subset {b b' : SlotBook} (keeps : b.Keeps b') (t : WidgetId) :
    b.holders t ⊆ b'.holders t := by
  intro row held
  rw [mem_holders_iff, ← Keyed.find?_isSome_iff, Option.isSome_iff_exists] at held ⊢
  obtain ⟨id, hid⟩ := held
  exact ⟨id, keeps _ id hid⟩

/-- An id is added for a template widget when its slots come to hold more than are filed. -/
theorem filedCount_acquire (k : Slot) :
    (b.acquire k).filedCount t = max (b.filedCount t) ((b.acquire k).holders t).card := by
  have within := (b.acquire k).card_holders_le t
  rcases filings_acquire b k with ⟨-, perm⟩ | ⟨minted, perm⟩
  · have same : (b.acquire k).filedCount t = b.filedCount t := (perm.map Prod.fst).count_eq t
    omega
  · have added : (b.acquire k).filedCount t =
        b.filedCount t + if k.template = t then 1 else 0 := by
      rw [filedCount, (perm.map Prod.fst).count_eq, List.map_cons, List.count_cons, filedCount]
      simp only [beq_iff_eq]
    by_cases own : k.template = t
    · -- it was minted, so nothing is parked for the template widget
      have parked : (b.acquire k).pool t = [] := by
        rcases acquire_cases b k with ⟨_, _, e⟩ | ⟨_, _, _, _, e⟩ | ⟨_, empty, e⟩
        · rw [e] at minted; omega
        · rw [e] at minted; exact absurd minted (Nat.ne_of_lt (Nat.lt_succ_self _))
        · rw [e, ← own]; exact empty
      have all := (b.acquire k).filedCount_eq t
      rw [parked, List.length_nil] at all
      rw [if_pos own] at added
      omega
    · rw [if_neg own] at added
      omega

theorem filedCount_acquireAll (ks : List Slot) :
    (b.acquireAll ks).filedCount t = max (b.filedCount t) ((b.acquireAll ks).holders t).card := by
  induction ks generalizing b with
  | nil => exact (Nat.max_eq_left (b.card_holders_le t)).symm
  | cons k rest ih =>
    have more := Finset.card_le_card (holders_subset (keeps_acquireAll (b.acquire k) rest) t)
    have step := ih (b.acquire k)
    have last : b.acquireAll (k :: rest) = (b.acquire k).acquireAll rest := rfl
    rw [last, step, filedCount_acquire]
    omega

theorem filedCount_releaseAll (ks : List Slot) :
    (b.releaseAll ks).filedCount t = b.filedCount t := by
  induction ks generalizing b with
  | nil => rfl
  | cons k rest ih =>
    have step : (b.release k).filedCount t = b.filedCount t :=
      ((filings_release b k).2.map Prod.fst).count_eq t
    exact (ih (b.release k)).trans step

/-- Acquired slots hold ids beside those that held one before. -/
theorem mem_keys_acquireAll_iff {ks : List Slot} {k : Slot} :
    k ∈ (b.acquireAll ks).slots.keys ↔ k ∈ ks ∨ k ∈ b.slots.keys := by
  rw [← Keyed.find?_isSome_iff, ← Keyed.find?_isSome_iff]
  by_cases hk : k ∈ ks
  · obtain ⟨id, held⟩ := exists_get?_acquireAll hk b
    have held : (b.acquireAll ks).slots.find? k = some id := held
    simp [held, hk]
  · have same : (b.acquireAll ks).slots.find? k = b.slots.find? k := get?_acquireAll_of_not_mem b hk
    simp [same, hk]

/-- The ids of a balanced book are counted by the template widgets that they are filed under. -/
theorem Balanced.minted_eq {b : SlotBook} (balanced : b.Balanced) {templates : Finset WidgetId}
    (filed : ∀ t, b.filedCount t ≠ 0 → t ∈ templates) :
    b.minted = ∑ t ∈ templates, b.filedCount t := by
  have count : b.filings.length = b.minted := by
    simpa [mintedIds] using balanced.length_eq
  have within : ∀ t ∈ (↑(b.filings.map Prod.fst) : Multiset WidgetId), t ∈ templates := by
    intro t ht
    exact filed t (Nat.ne_of_gt (List.count_pos_iff.mpr (Multiset.mem_coe.mp ht)))
  have total := Multiset.sum_count_eq_card within
  simp only [Multiset.coe_count, Multiset.coe_card, List.length_map] at total
  rw [← count, ← total]
  rfl

end ListRepeater.SlotBook
