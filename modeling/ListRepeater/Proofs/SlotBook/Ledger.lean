import ListRepeater.Proofs.KeyedMaps
import ListRepeater.Proofs.SeparateKeys
import Mathlib.Data.List.Count
/-!
# The ledger of a slot book

Each id of a book is filed under one template widget: with the slot that holds it, or with the
released ids. Nothing but minting adds an id, and none is ever lost, so the filed ids are the minted
ones, each once. Hence no two slots hold the same id, and an id stays with its template widget
forever.
-/
namespace ListRepeater.SlotBook

section Steps

variable (b : SlotBook) (k : Slot)

/-- What acquiring does: nothing for a slot with an id, otherwise it hands out the oldest parked id
or a new one. -/
theorem acquire_cases :
    (∃ id, b.get? k = some id ∧ b.acquire k = b) ∨
    (∃ id rest, b.get? k = none ∧ b.pool k.template = id :: rest ∧
      b.acquire k =
        { b with slots := b.slots.insert k id, pools := b.pools.insert k.template rest }) ∨
    (b.get? k = none ∧ b.pool k.template = [] ∧
      b.acquire k =
        { b with slots := b.slots.insert k (mintedId b.stem (b.minted + 1)), minted := b.minted + 1 })
    := by
  cases held : b.get? k with
  | some id =>
    have granted : b.grant k = .held id := by simp [grant, held]
    exact Or.inl ⟨id, rfl, by rw [acquire, granted]⟩
  | none =>
    cases parked : b.pool k.template with
    | cons id rest =>
      have granted : b.grant k = .recycled id rest := by simp [grant, held, parked]
      exact Or.inr (Or.inl ⟨id, rest, rfl, rfl, by rw [acquire, granted]⟩)
    | nil =>
      have granted : b.grant k = .minted (mintedId b.stem (b.minted + 1)) := by
        simp [grant, held, parked]
      exact Or.inr (Or.inr ⟨rfl, rfl, by rw [acquire, granted]⟩)

theorem release_cases :
    (b.get? k = none ∧ b.release k = b) ∨
    (∃ id, b.get? k = some id ∧
      b.release k =
        { b with
          slots := b.slots.erase k
          pools := b.pools.insert k.template (b.pool k.template ++ [id]) }) := by
  cases held : b.get? k with
  | none => exact Or.inl ⟨rfl, by rw [release, held]⟩
  | some id => exact Or.inr ⟨id, rfl, by rw [release, held]⟩

@[simp]
theorem stem_acquire : (b.acquire k).stem = b.stem := by
  rcases acquire_cases b k with ⟨_, _, h⟩ | ⟨_, _, _, _, h⟩ | ⟨_, _, h⟩ <;> rw [h]

@[simp]
theorem stem_release : (b.release k).stem = b.stem := by
  rcases release_cases b k with ⟨_, h⟩ | ⟨_, _, h⟩ <;> rw [h]

theorem get?_acquire_of_ne {k' : Slot} (h : k ≠ k') : (b.acquire k).get? k' = b.get? k' := by
  rcases acquire_cases b k with ⟨_, _, e⟩ | ⟨_, _, _, _, e⟩ | ⟨_, _, e⟩ <;> rw [e]
  · simp [get?, Keyed.find?_insert, h]
  · simp [get?, Keyed.find?_insert, h]

theorem get?_release (k' : Slot) :
    (b.release k).get? k' = if k = k' then none else b.get? k' := by
  rcases release_cases b k with ⟨held, e⟩ | ⟨_, _, e⟩ <;> rw [e]
  · split
    · next h => rw [← h, held]
    · rfl
  · exact Keyed.find?_erase b.slots k k'

end Steps

section Runs

/-- Whatever slot holds an id in the first book holds it in the second. -/
def Keeps (b b' : SlotBook) : Prop := ∀ k id, b.get? k = some id → b'.get? k = some id

theorem Keeps.refl (b : SlotBook) : b.Keeps b := fun _ _ h => h

theorem Keeps.trans {a b c : SlotBook} (hab : a.Keeps b) (hbc : b.Keeps c) : a.Keeps c :=
  fun k id h => hbc k id (hab k id h)

theorem keeps_acquire (b : SlotBook) (k : Slot) : b.Keeps (b.acquire k) := by
  intro k' id h
  by_cases hk : k = k'
  · subst hk
    rcases acquire_cases b k with ⟨_, _, e⟩ | ⟨_, _, none, _, _⟩ | ⟨none, _, _⟩
    · rwa [e]
    · rw [none] at h; cases h
    · rw [none] at h; cases h
  · rwa [get?_acquire_of_ne b k hk]

theorem keeps_acquireAll (b : SlotBook) (ks : List Slot) : b.Keeps (b.acquireAll ks) := by
  induction ks generalizing b with
  | nil => exact Keeps.refl b
  | cons k rest ih => exact (keeps_acquire b k).trans (ih (b.acquire k))

theorem get?_acquireAll_of_not_mem (b : SlotBook) {ks : List Slot} {k : Slot} (h : k ∉ ks) :
    (b.acquireAll ks).get? k = b.get? k := by
  induction ks generalizing b with
  | nil => rfl
  | cons x rest ih =>
    obtain ⟨other, rest⟩ := not_or.mp (mt List.mem_cons.mpr h)
    exact (ih (b.acquire x) rest).trans (get?_acquire_of_ne b x (Ne.symm other))

theorem acquireAll_append (b : SlotBook) (ks ls : List Slot) :
    b.acquireAll (ks ++ ls) = (b.acquireAll ks).acquireAll ls :=
  List.foldl_append

@[simp]
theorem stem_acquireAll (b : SlotBook) (ks : List Slot) : (b.acquireAll ks).stem = b.stem := by
  induction ks generalizing b with
  | nil => rfl
  | cons k rest ih => exact (ih (b.acquire k)).trans (stem_acquire b k)

@[simp]
theorem stem_releaseAll (b : SlotBook) (ks : List Slot) : (b.releaseAll ks).stem = b.stem := by
  induction ks generalizing b with
  | nil => rfl
  | cons k rest ih => exact (ih (b.release k)).trans (stem_release b k)

/-- A slot that asked for an id has one from then on. -/
theorem exists_get?_acquireAll {ks : List Slot} {k : Slot} (h : k ∈ ks) (b : SlotBook) :
    ∃ id, (b.acquireAll ks).get? k = some id := by
  induction ks generalizing b with
  | nil => cases h
  | cons x rest ih =>
    rcases List.mem_cons.mp h with rfl | h
    · exact ⟨_, keeps_acquireAll (b.acquire k) rest k _ (get?_acquire b k)⟩
    · exact ih h (b.acquire x)

theorem get?_releaseAll (b : SlotBook) (ks : List Slot) (k : Slot) :
    (b.releaseAll ks).get? k = if k ∈ ks then none else b.get? k := by
  induction ks generalizing b with
  | nil => simp [releaseAll]
  | cons x rest ih =>
    have step : (b.releaseAll (x :: rest)).get? k = ((b.release x).releaseAll rest).get? k := rfl
    rw [step, ih, get?_release]
    by_cases h : k ∈ rest
    · simp [h]
    · by_cases hx : x = k
      · simp [hx]
      · have hk : ¬ k = x := fun e => hx e.symm
        simp [h, hx, hk]

/-- Acquiring slots that all have their ids changes nothing. -/
theorem acquireAll_of_held {b : SlotBook} {ks : List Slot}
    (held : ∀ k ∈ ks, ∃ id, b.get? k = some id) : b.acquireAll ks = b := by
  induction ks with
  | nil => rfl
  | cons k rest ih =>
    obtain ⟨id, hid⟩ := held k List.mem_cons_self
    have same : b.acquire k = b := by
      rcases acquire_cases b k with ⟨_, _, e⟩ | ⟨_, _, none, _, _⟩ | ⟨none, _, _⟩
      · exact e
      · rw [hid] at none; cases none
      · rw [hid] at none; cases none
    have rest := ih fun k' hk' => held k' (List.mem_cons_of_mem k hk')
    rw [acquireAll, List.foldl_cons, same]
    exact rest

end Runs

section Filings

/-- The parked ids, each with the template widget that it is parked for. -/
def parkedPairs (pools : Keyed WidgetId (List WidgetId)) : List (WidgetId × WidgetId) :=
  pools.entries.flatMap fun e => e.2.map (e.1, ·)

/-- All ids of a book, each with the template widget that it is filed under. -/
def filings (b : SlotBook) : List (WidgetId × WidgetId) :=
  b.slots.entries.map (fun e => (e.1.template, e.2)) ++ parkedPairs b.pools

def mintedIds (stem : String) (n : Nat) : List WidgetId :=
  (List.range n).map fun i => mintedId stem (i + 1)

/-- The filed ids are the minted ones, each once. -/
def Balanced (b : SlotBook) : Prop := (b.filings.map Prod.snd).Perm (mintedIds b.stem b.minted)

theorem nodup_mintedIds (stem : String) (n : Nat) : (mintedIds stem n).Nodup :=
  List.Nodup.map_on (fun _ _ _ _ h => Nat.succ.inj (mintedId_injective h)) List.nodup_range

theorem mintedIds_succ (stem : String) (n : Nat) :
    mintedIds stem (n + 1) = mintedIds stem n ++ [mintedId stem (n + 1)] := by
  simp [mintedIds, List.range_succ]

theorem parkedPairs_perm (pools : Keyed WidgetId (List WidgetId)) (t : WidgetId) :
    (parkedPairs pools).Perm
      (((pools.find? t).getD []).map (t, ·) ++ parkedPairs (pools.erase t)) := by
  cases h : pools.find? t with
  | none => simp [parkedPairs, Keyed.entries_erase_of_find?_none h]
  | some ids =>
    have := (Keyed.perm_cons_erase h).flatMap_right fun e => e.2.map (e.1, ·)
    simpa [parkedPairs] using this

theorem parkedPairs_insert_perm (pools : Keyed WidgetId (List WidgetId)) (t : WidgetId)
    (ids : List WidgetId) :
    (parkedPairs (pools.insert t ids)).Perm (ids.map (t, ·) ++ parkedPairs (pools.erase t)) := by
  have := (Keyed.perm_insert pools t ids).flatMap_right fun e => e.2.map (e.1, ·)
  simpa [parkedPairs] using this

/-- An id is parked for a template widget as often as its pool lists it. -/
theorem count_parkedPairs (b : SlotBook) (t id : WidgetId) :
    (parkedPairs b.pools).count (t, id) = (b.pool t).count id := by
  have own : ((b.pool t).map (t, ·)).count (t, id) = (b.pool t).count id :=
    List.count_map_of_injective (b.pool t) (t, ·) (fun _ _ e => congrArg Prod.snd e) id
  have others : (t, id) ∉ parkedPairs (b.pools.erase t) := by
    intro h
    obtain ⟨e, he, pair⟩ := List.mem_flatMap.mp h
    obtain ⟨_, -, e'⟩ := List.mem_map.mp pair
    have key : e.1 = t := congrArg Prod.fst e'
    have kept : e.1 ∈ (b.pools.erase t).keys := List.mem_map_of_mem he
    simp [Keyed.keys_erase, key] at kept
  rw [(parkedPairs_perm b.pools t).count_eq, List.count_append, List.count_eq_zero_of_not_mem others,
    Nat.add_zero]
  exact own

theorem pair_mem_parkedPairs_iff {b : SlotBook} {t id : WidgetId} :
    (t, id) ∈ parkedPairs b.pools ↔ id ∈ b.pool t := by
  rw [← List.count_pos_iff, count_parkedPairs, List.count_pos_iff]

theorem mem_parkedPairs_iff {b : SlotBook} {id : WidgetId} :
    id ∈ (parkedPairs b.pools).map Prod.snd ↔ ∃ t, id ∈ b.pool t := by
  simp only [List.mem_map, Prod.exists, exists_eq_right, pair_mem_parkedPairs_iff]

theorem mem_slotIds_iff {b : SlotBook} {id : WidgetId} :
    id ∈ (b.slots.entries.map fun e => (e.1.template, e.2)).map Prod.snd ↔
      ∃ k, b.get? k = some id := by
  simp only [get?, Keyed.find?_eq_some_iff, List.map_map, List.mem_map, Function.comp_apply,
    Prod.exists, exists_eq_right]

/-- Acquiring files one new id if it mints, and otherwise at most moves one. -/
theorem filings_acquire (b : SlotBook) (k : Slot) :
    ((b.acquire k).minted = b.minted ∧ (b.acquire k).filings.Perm b.filings) ∨
    ((b.acquire k).minted = b.minted + 1 ∧
      (b.acquire k).filings.Perm
        ((k.template, mintedId b.stem (b.minted + 1)) :: b.filings)) := by
  rcases acquire_cases b k with ⟨_, _, e⟩ | ⟨id, rest, none, parked, e⟩ | ⟨none, _, e⟩ <;> rw [e]
  · exact Or.inl ⟨rfl, List.Perm.refl _⟩
  · refine Or.inl ⟨rfl, ?_⟩
    have before := parkedPairs_perm b.pools k.template
    have after := parkedPairs_insert_perm b.pools k.template rest
    have front : (b.pools.find? k.template).getD [] = id :: rest := parked
    rw [front, List.map_cons, List.cons_append] at before
    simp only [filings, Keyed.entries_insert_of_find?_none none id, List.map_append, List.map_cons,
      List.map_nil, List.append_assoc, List.cons_append, List.nil_append]
    exact List.Perm.append_left _ ((after.cons (k.template, id)).trans before.symm)
  · refine Or.inr ⟨rfl, ?_⟩
    simp only [filings, Keyed.entries_insert_of_find?_none none _, List.map_append, List.map_cons,
      List.map_nil, List.append_assoc, List.cons_append, List.nil_append]
    exact List.perm_middle

theorem filings_release (b : SlotBook) (k : Slot) :
    (b.release k).minted = b.minted ∧ (b.release k).filings.Perm b.filings := by
  rcases release_cases b k with ⟨_, e⟩ | ⟨id, held, e⟩ <;> rw [e]
  · exact ⟨rfl, List.Perm.refl _⟩
  · refine ⟨rfl, ?_⟩
    have slots := (Keyed.perm_cons_erase held).map fun e => (e.1.template, e.2)
    have before := parkedPairs_perm b.pools k.template
    have after := parkedPairs_insert_perm b.pools k.template (b.pool k.template ++ [id])
    have moved : (parkedPairs (b.pools.insert k.template (b.pool k.template ++ [id]))).Perm
        ((k.template, id) :: parkedPairs b.pools) := by
      refine after.trans (List.Perm.trans ?_ (before.symm.cons _))
      simp only [List.map_append, List.map_cons, List.map_nil, List.append_assoc,
        List.cons_append, List.nil_append]
      exact List.perm_middle
    simp only [filings]
    refine (moved.append_left _).trans (List.perm_middle.trans ?_)
    exact (slots.append_right (parkedPairs b.pools)).symm

theorem balanced_empty (stem : String) : (SlotBook.empty stem).Balanced := by
  simp [Balanced, filings, parkedPairs, mintedIds, SlotBook.empty, Keyed.empty]

theorem balanced_acquire {b : SlotBook} (h : b.Balanced) (k : Slot) : (b.acquire k).Balanced := by
  rw [Balanced, stem_acquire]
  rcases filings_acquire b k with ⟨count, perm⟩ | ⟨count, perm⟩ <;> rw [count]
  · exact (perm.map Prod.snd).trans h
  · rw [mintedIds_succ]
    refine (perm.map Prod.snd).trans ((h.cons _).trans ?_)
    exact (List.perm_append_singleton _ _).symm

theorem balanced_release {b : SlotBook} (h : b.Balanced) (k : Slot) : (b.release k).Balanced := by
  obtain ⟨count, perm⟩ := filings_release b k
  rw [Balanced, stem_release, count]
  exact (perm.map Prod.snd).trans h

theorem balanced_acquireAll {b : SlotBook} (h : b.Balanced) (ks : List Slot) :
    (b.acquireAll ks).Balanced := by
  induction ks generalizing b with
  | nil => exact h
  | cons k rest ih => exact ih (balanced_acquire h k)

theorem balanced_releaseAll {b : SlotBook} (h : b.Balanced) (ks : List Slot) :
    (b.releaseAll ks).Balanced := by
  induction ks generalizing b with
  | nil => exact h
  | cons k rest ih => exact ih (balanced_release h k)

/-- The id is filed under the template widget. -/
def Files (b : SlotBook) (template id : WidgetId) : Prop := (template, id) ∈ b.filings

theorem files_of_get? {b : SlotBook} {k : Slot} {id : WidgetId} (h : b.get? k = some id) :
    b.Files k.template id := by
  have entry := (Keyed.find?_eq_some_iff b.slots k id).mp h
  exact List.mem_append_left _ (List.mem_map.mpr ⟨(k, id), entry, rfl⟩)

theorem files_acquireAll {b : SlotBook} {t id : WidgetId} (h : b.Files t id) (ks : List Slot) :
    (b.acquireAll ks).Files t id := by
  induction ks generalizing b with
  | nil => exact h
  | cons k rest ih =>
    refine ih ?_
    rcases filings_acquire b k with ⟨_, perm⟩ | ⟨_, perm⟩
    · exact perm.mem_iff.mpr h
    · exact perm.mem_iff.mpr (List.mem_cons_of_mem _ h)

theorem files_releaseAll {b : SlotBook} {t id : WidgetId} (h : b.Files t id) (ks : List Slot) :
    (b.releaseAll ks).Files t id := by
  induction ks generalizing b with
  | nil => exact h
  | cons k rest ih => exact ih ((filings_release b k).2.mem_iff.mpr h)

end Filings

namespace Balanced

variable {b : SlotBook} (balanced : b.Balanced)

include balanced

theorem nodup_ids : (b.filings.map Prod.snd).Nodup :=
  balanced.nodup_iff.mpr (nodup_mintedIds b.stem b.minted)

/-- An id is filed under one template widget only. -/
theorem template_unique {s t id : WidgetId} (hs : b.Files s id) (ht : b.Files t id) : s = t :=
  congrArg Prod.fst (List.inj_on_of_nodup_map balanced.nodup_ids hs ht rfl)

/-- Two slots never hold the same id. -/
theorem slot_unique {k l : Slot} {id : WidgetId} (hk : b.get? k = some id)
    (hl : b.get? l = some id) : k = l := by
  have slots : (b.slots.entries.map Prod.snd).Nodup := by
    have ids := balanced.nodup_ids
    rw [filings, List.map_append, List.map_map] at ids
    exact (List.nodup_append.mp ids).1
  have hk := (Keyed.find?_eq_some_iff b.slots k id).mp hk
  have hl := (Keyed.find?_eq_some_iff b.slots l id).mp hl
  exact congrArg Prod.fst (List.inj_on_of_nodup_map slots hk hl rfl)

theorem minted_of_get? {k : Slot} {id : WidgetId} (h : b.get? k = some id) :
    ∃ n, id = mintedId b.stem n := by
  have filed : id ∈ b.filings.map Prod.snd := List.mem_map_of_mem (files_of_get? h)
  obtain ⟨i, -, e⟩ := List.mem_map.mp (balanced.mem_iff.mp filed)
  exact ⟨i + 1, e.symm⟩

/-- A minted id is parked exactly if no slot holds it. -/
theorem parked_iff {id : WidgetId} (minted : id ∈ mintedIds b.stem b.minted) :
    (∃ t, id ∈ b.pool t) ↔ ∀ k, b.get? k ≠ some id := by
  have ids := balanced.nodup_ids
  have filed := balanced.mem_iff.mpr minted
  rw [filings, List.map_append] at ids filed
  rw [List.mem_append, mem_slotIds_iff, mem_parkedPairs_iff] at filed
  constructor
  · rintro parked k held
    have apart := (List.nodup_append.mp ids).2.2
    exact apart id (mem_slotIds_iff.mpr ⟨k, held⟩) id (mem_parkedPairs_iff.mpr parked) rfl
  · intro free
    exact filed.resolve_left fun ⟨k, held⟩ => free k held

end Balanced

end ListRepeater.SlotBook
