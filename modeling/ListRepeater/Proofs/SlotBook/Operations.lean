import ListRepeater.Proofs.SlotBook.Occupancy
/-!
# Runs of operations on a slot book

Whatever slots acquire and release their ids, and however often the book goes on from its own
snapshot, the ids in the slots and the parked ones are the minted ids, each once, and an id stays
with the template widget that it was granted for. For each template widget the parked ids are a
queue: what acquired slots take out is what released slots put in, in the same order. Ids are minted
for it up to the most of its slots that held ids at the same time.
-/
namespace ListRepeater.SlotBook

inductive Operation where
  | acquire (k : Slot)
  | release (k : Slot)
  | look (k : Slot)
  /-- The book goes on from its own snapshot. -/
  | restore
  deriving DecidableEq

def perform (b : SlotBook) : Operation → SlotBook
  | .acquire k => b.acquire k
  | .release k => b.release k
  | .look _ => b
  | .restore => ofSnapshot b.stem b.snapshot

def run (b : SlotBook) (ops : List Operation) : SlotBook := ops.foldl perform b

section Steps

variable (b : SlotBook) (op : Operation)

@[simp]
theorem stem_perform : (b.perform op).stem = b.stem := by
  cases op with
  | acquire k => exact stem_acquire b k
  | release k => exact stem_release b k
  | look k => rfl
  | restore => rfl

/-- An operation files one new id if it mints; otherwise it at most moves one. -/
theorem filings_perform :
    ((b.perform op).minted = b.minted ∧ (b.perform op).filings.Perm b.filings) ∨
    (∃ k, op = .acquire k ∧ (b.perform op).minted = b.minted + 1 ∧
      (b.perform op).filings.Perm ((k.template, mintedId b.stem (b.minted + 1)) :: b.filings)) := by
  cases op with
  | acquire k => exact (filings_acquire b k).imp_right fun minted => ⟨k, rfl, minted⟩
  | release k => exact Or.inl (filings_release b k)
  | look k => exact Or.inl ⟨rfl, List.Perm.refl _⟩
  | restore => exact Or.inl ⟨rfl, b.matches_ofSnapshot.filings.symm⟩

theorem Balanced.perform {b : SlotBook} (balanced : b.Balanced) (op : Operation) :
    (b.perform op).Balanced := by
  rw [Balanced, stem_perform]
  rcases filings_perform b op with ⟨count, perm⟩ | ⟨k, -, count, perm⟩ <;> rw [count]
  · exact (perm.map Prod.snd).trans balanced
  · rw [mintedIds_succ]
    exact (perm.map Prod.snd).trans
      ((balanced.cons _).trans (List.perm_append_singleton _ _).symm)

theorem Files.perform {b : SlotBook} {t id : WidgetId} (filed : b.Files t id) (op : Operation) :
    (b.perform op).Files t id := by
  rcases filings_perform b op with ⟨-, perm⟩ | ⟨k, -, -, perm⟩
  · exact perm.mem_iff.mpr filed
  · exact perm.mem_iff.mpr (List.mem_cons_of_mem _ filed)

end Steps

section Runs

variable {b : SlotBook}

theorem run_append (b : SlotBook) (before after : List Operation) :
    b.run (before ++ after) = (b.run before).run after :=
  List.foldl_append

theorem stem_run (b : SlotBook) (ops : List Operation) : (b.run ops).stem = b.stem := by
  induction ops generalizing b with
  | nil => rfl
  | cons op ops ih => exact (ih (b.perform op)).trans (stem_perform b op)

theorem Balanced.run (balanced : b.Balanced) (ops : List Operation) : (b.run ops).Balanced := by
  induction ops generalizing b with
  | nil => exact balanced
  | cons op ops ih => exact ih (balanced.perform op)

theorem Files.run {t id : WidgetId} (filed : b.Files t id) (ops : List Operation) :
    (b.run ops).Files t id := by
  induction ops generalizing b with
  | nil => exact filed
  | cons op ops ih => exact ih (filed.perform op)

/-- What a slot is granted stays filed under its template widget. -/
theorem files_granted (b : SlotBook) (before : List Operation) (k : Slot)
    (after : List Operation) :
    (b.run (before ++ .acquire k :: after)).Files k.template ((b.run before).grant k).id := by
  rw [run_append]
  exact (files_of_get? (get?_acquire (b.run before) k)).run after

end Runs

section Partition

variable (b : SlotBook)

theorem map_snd_parkedPairs : (parkedPairs b.pools).map Prod.snd = b.pools.values.flatten := by
  have own : ∀ e ∈ b.pools.entries, (e.2.map (e.1, ·)).map Prod.snd = e.2 := by
    intro e _
    rw [List.map_map]
    exact List.map_id e.2
  rw [parkedPairs, Keyed.values, List.map_flatMap, List.flatMap_def]
  exact congrArg List.flatten (List.map_congr_left own)

theorem map_snd_filings : b.filings.map Prod.snd = b.slots.values ++ b.pools.values.flatten := by
  rw [filings, List.map_append, map_snd_parkedPairs, List.map_map]
  rfl

theorem files_iff {b : SlotBook} {t id : WidgetId} :
    b.Files t id ↔ (∃ row, b.get? ⟨row, t⟩ = some id) ∨ id ∈ b.pool t := by
  rw [Files, filings, List.mem_append, pair_mem_parkedPairs_iff]
  refine or_congr_left ?_
  rw [List.mem_map]
  constructor
  · rintro ⟨⟨⟨row, t⟩, id⟩, entry, ⟨⟩⟩
    exact ⟨row, (Keyed.find?_eq_some_iff ..).mpr entry⟩
  · rintro ⟨row, held⟩
    exact ⟨(⟨row, t⟩, id), (Keyed.find?_eq_some_iff ..).mp held, rfl⟩

theorem Balanced.ids_perm {b : SlotBook} (balanced : b.Balanced) :
    (b.slots.values ++ b.pools.values.flatten).Perm (mintedIds b.stem b.minted) := by
  rwa [Balanced, map_snd_filings] at balanced

theorem Balanced.slotCount_add_parkedCount {b : SlotBook} (balanced : b.Balanced) :
    b.slotCount + b.parkedCount = b.minted := by
  have parked : b.parkedCount = b.pools.values.flatten.length := by
    rw [parkedCount_eq, ← List.length_map Prod.snd, map_snd_parkedPairs]
  have slots : b.slotCount = b.slots.values.length := (List.length_map ..).symm
  rw [slots, parked, ← List.length_append, balanced.ids_perm.length_eq]
  simp [mintedIds]

end Partition

/-- After any run the ids in the slots and the parked ids are the minted ones, each once. No two
slots hold the same id and none is parked while a slot holds it, and every id is held by a slot of
the template widget that it was granted for or parked for it, and for no other. -/
theorem run_partitions (stem : String) (ops : List Operation) :
    let b := (empty stem).run ops
    (b.slots.values ++ b.pools.values.flatten).Perm
      ((List.range b.minted).map fun i => mintedId stem (i + 1)) ∧
    (b.slots.values ++ b.pools.values.flatten).Nodup ∧
    b.slotCount + b.parkedCount = b.minted ∧
    (∀ k l id, b.get? k = some id → b.get? l = some id → k = l) ∧
    (∀ k t id, b.get? k = some id → id ∉ b.pool t) ∧
    ∀ before k after, ops = before ++ .acquire k :: after →
      ∀ t, (∃ row, b.get? ⟨row, t⟩ = some (((empty stem).run before).grant k).id) ∨
        (((empty stem).run before).grant k).id ∈ b.pool t ↔ t = k.template := by
  intro b
  have balanced : b.Balanced := (balanced_empty stem).run ops
  have ids := balanced.ids_perm
  rw [stem_run] at ids
  have nodup := ids.nodup_iff.mpr (nodup_mintedIds stem b.minted)
  refine ⟨ids, nodup, balanced.slotCount_add_parkedCount, fun _ _ _ => balanced.slot_unique, ?_, ?_⟩
  · intro k t id held parked
    have minted : id ∈ mintedIds b.stem b.minted :=
      balanced.mem_iff.mp (List.mem_map_of_mem (files_of_get? held))
    exact (balanced.parked_iff minted).mp ⟨t, parked⟩ k held
  · rintro before k after rfl t
    have filed := files_granted (empty stem) before k after
    rw [← files_iff]
    constructor
    · exact fun other => balanced.template_unique other filed
    · rintro rfl
      exact filed

section Queues

variable (b : SlotBook) (t : WidgetId) (op : Operation)

/-- The id that an acquired slot of the template widget takes from the parked ones. -/
def recycledFor : Operation → Option WidgetId
  | .acquire k =>
    match b.grant k with
    | .recycled id _ => if k.template = t then some id else none
    | _ => none
  | _ => none

/-- The id that a slot of the template widget gives up. -/
def releasedFor : Operation → Option WidgetId
  | .release k => if k.template = t then b.get? k else none
  | _ => none

/-- What the operations of a run give, each told by the book that it finds. -/
def collect (f : SlotBook → Operation → Option WidgetId) :
    SlotBook → List Operation → List WidgetId
  | _, [] => []
  | b, op :: ops => (f b op).toList ++ collect f (b.perform op) ops

/-- The parked ids lose at the front what is recycled and gain at the end what is released. -/
theorem pool_perform : b.pool t ++ (b.releasedFor t op).toList =
    (b.recycledFor t op).toList ++ (b.perform op).pool t := by
  cases op with
  | acquire k =>
    rcases acquire_cases b k with ⟨id, held, e⟩ | ⟨id, rest, free, parked, e⟩ | ⟨free, parked, e⟩
    · have granted : b.grant k = .held id := by simp [grant, held]
      simp [releasedFor, recycledFor, perform, granted, e]
    · have granted : b.grant k = .recycled id rest := by simp [grant, free, parked]
      by_cases own : k.template = t
      · simp [releasedFor, recycledFor, perform, granted, e, pool_insert, ← own, parked]
      · simp [releasedFor, recycledFor, perform, granted, e, pool_insert, own]
    · have granted : b.grant k = .minted (mintedId b.stem (b.minted + 1)) := by
        simp [grant, free, parked]
      have same : (b.acquire k).pool t = b.pool t := by rw [e]; rfl
      simp [releasedFor, recycledFor, perform, granted, same]
  | release k =>
    rcases release_cases b k with ⟨free, e⟩ | ⟨id, held, e⟩
    · simp [releasedFor, recycledFor, perform, free, e]
    · by_cases own : k.template = t
      · simp [releasedFor, recycledFor, perform, held, e, pool_insert, own]
      · simp [releasedFor, recycledFor, perform, e, pool_insert, own]
  | look k => simp [releasedFor, recycledFor, perform]
  | restore =>
    have same : (b.perform .restore).pool t = b.pool t := (b.matches_ofSnapshot.pool t).symm
    simp [releasedFor, recycledFor, same]

theorem pool_run (b : SlotBook) (t : WidgetId) (ops : List Operation) :
    b.pool t ++ collect (releasedFor · t) b ops =
      collect (recycledFor · t) b ops ++ (b.run ops).pool t := by
  induction ops generalizing b with
  | nil => exact List.append_nil _
  | cons op ops ih =>
    rw [collect, collect, ← List.append_assoc, pool_perform, List.append_assoc, ih,
      List.append_assoc]
    rfl

end Queues

section Occupied

/-- The slot is acquired by one of the operations and not released by a later one. -/
def Unreleased (ops : List Operation) (k : Slot) : Prop :=
  ∃ before after, ops = before ++ .acquire k :: after ∧ .release k ∉ after

theorem unreleased_concat_iff {ops : List Operation} {op : Operation} {k : Slot} :
    Unreleased (ops ++ [op]) k ↔ op = .acquire k ∨ op ≠ .release k ∧ Unreleased ops k := by
  constructor
  · rintro ⟨before, after, split, never⟩
    rcases List.eq_nil_or_concat after with rfl | ⟨after, last, rfl⟩
    · exact Or.inl (List.singleton_inj.mp (List.append_inj' split rfl).2)
    · rw [List.concat_eq_append, ← List.cons_append, ← List.append_assoc] at split
      obtain ⟨rfl, own⟩ := List.append_inj' split rfl
      cases List.singleton_inj.mp own
      simp only [List.concat_eq_append, List.mem_append, List.mem_singleton, not_or] at never
      exact Or.inr ⟨fun e => never.2 e.symm, before, after, rfl, never.1⟩
  · rintro (rfl | ⟨kept, before, after, rfl, never⟩)
    · exact ⟨ops, [], rfl, List.not_mem_nil⟩
    · refine ⟨before, after ++ [op], by simp, ?_⟩
      simp only [List.mem_append, List.mem_singleton, not_or]
      exact ⟨never, fun e => kept e.symm⟩

theorem mem_keys_perform_iff (b : SlotBook) (op : Operation) (k : Slot) :
    k ∈ (b.perform op).slots.keys ↔ op = .acquire k ∨ op ≠ .release k ∧ k ∈ b.slots.keys := by
  have holds : ∀ b : SlotBook, k ∈ b.slots.keys ↔ (b.get? k).isSome = true :=
    fun b => (b.slots.find?_isSome_iff k).symm
  rw [holds, holds]
  cases op with
  | acquire l =>
    by_cases own : l = k
    · subst own
      have got : (b.perform (.acquire l)).get? l = some (b.grant l).id := get?_acquire b l
      simp [got]
    · have same : (b.perform (.acquire l)).get? k = b.get? k := get?_acquire_of_ne b l own
      simp [same, own]
  | release l =>
    have got : (b.perform (.release l)).get? k = if l = k then none else b.get? k :=
      get?_release b l k
    by_cases own : l = k
    · subst own
      simp [got]
    · simp [got, own]
  | look l => simp [perform]
  | restore =>
    have same : (b.perform .restore).get? k = b.get? k := b.get?_ofSnapshot b.stem k
    simp [same]

/-- After any run of a new book ids are held by the slots that were acquired and not released. -/
theorem mem_keys_run_iff (stem : String) (ops : List Operation) (k : Slot) :
    k ∈ ((empty stem).run ops).slots.keys ↔ Unreleased ops k := by
  induction ops using List.reverseRecOn with
  | nil =>
    constructor
    · intro held
      cases held
    · rintro ⟨before, after, split, -⟩
      cases before <;> cases split
  | append_singleton ops op ih =>
    have last : (empty stem).run (ops ++ [op]) = ((empty stem).run ops).perform op :=
      run_append (empty stem) ops [op]
    rw [last, mem_keys_perform_iff, unreleased_concat_iff, ih]

end Occupied

section Peaks

/-- The most slots of the template widget that hold ids at the same time, in the book or after one
of the operations. -/
def peak (t : WidgetId) : SlotBook → List Operation → Nat
  | b, [] => (b.holders t).card
  | b, op :: ops => max (b.holders t).card (peak t (b.perform op) ops)

/-- The template widgets whose slots are acquired. -/
def acquired (ops : List Operation) : Finset WidgetId :=
  (ops.filterMap fun
    | .acquire k => some k.template
    | _ => none).toFinset

theorem filedCount_perform (b : SlotBook) (t : WidgetId) (op : Operation) :
    (b.perform op).filedCount t = max (b.filedCount t) ((b.perform op).holders t).card := by
  have kept : (b.perform op).filedCount t = b.filedCount t → (b.perform op).filedCount t =
      max (b.filedCount t) ((b.perform op).holders t).card := by
    intro same
    have within := (b.perform op).card_holders_le t
    omega
  cases op with
  | acquire k => exact filedCount_acquire b t k
  | release k => exact kept (((filings_release b k).2.map Prod.fst).count_eq t)
  | look k => exact kept rfl
  | restore => exact kept ((b.matches_ofSnapshot.filings.map Prod.fst).count_eq t).symm

theorem filedCount_run (b : SlotBook) (t : WidgetId) (ops : List Operation) :
    (b.run ops).filedCount t = max (b.filedCount t) (peak t b ops) := by
  induction ops generalizing b with
  | nil => exact (Nat.max_eq_left (b.card_holders_le t)).symm
  | cons op ops ih =>
    have step : (b.run (op :: ops)) = (b.perform op).run ops := rfl
    have first : ((b.perform op).holders t).card ≤ peak t (b.perform op) ops := by
      cases ops with
      | nil => exact Nat.le_refl _
      | cons _ _ => exact Nat.le_max_left _ _
    have within := b.card_holders_le t
    rw [step, ih, filedCount_perform, peak]
    omega

/-- Nothing new is filed under a template widget of which no slot is acquired. -/
theorem filedCount_run_of_not_mem (b : SlotBook) {t : WidgetId} {ops : List Operation}
    (never : t ∉ acquired ops) : (b.run ops).filedCount t = b.filedCount t := by
  induction ops generalizing b with
  | nil => rfl
  | cons op ops ih =>
    have later : t ∉ acquired ops := by
      intro h
      refine never (List.mem_toFinset.mpr ?_)
      rw [← List.singleton_append, List.filterMap_append]
      exact List.mem_append_right _ (List.mem_toFinset.mp h)
    have step : (b.perform op).filedCount t = b.filedCount t := by
      rcases filings_perform b op with ⟨-, perm⟩ | ⟨k, rfl, -, perm⟩
      · exact (perm.map Prod.fst).count_eq t
      · have other : k.template ≠ t := by
          rintro rfl
          exact never (List.mem_toFinset.mpr List.mem_cons_self)
        exact ((perm.map Prod.fst).count_eq t).trans (List.count_cons_of_ne other)
    exact (ih (b.perform op) later).trans step

end Peaks

/-- After any run of a new book the minted ids are, for each template widget, as many as its slots
that held ids at the same time when they were most; and the ids taken from the parked ones of a
template widget, together with those that are still parked, are the ids that were released for it,
in the order of their release. At any time the slots that hold ids are those acquired by then and
not released since. -/
theorem run_queues (stem : String) (ops : List Operation) :
    let b := (empty stem).run ops
    b.minted = ∑ t ∈ acquired ops, peak t (empty stem) ops ∧
    (∀ t, t ∉ acquired ops → peak t (empty stem) ops = 0) ∧
    (∀ t, collect (releasedFor · t) (empty stem) ops =
      collect (recycledFor · t) (empty stem) ops ++ b.pool t) ∧
    ∀ before after, ops = before ++ after → ∀ row t,
      row ∈ ((empty stem).run before).holders t ↔ Unreleased before ⟨row, t⟩ := by
  intro b
  have balanced : b.Balanced := (balanced_empty stem).run ops
  have filed : ∀ t, b.filedCount t = peak t (empty stem) ops := fun t =>
    (filedCount_run (empty stem) t ops).trans (Nat.max_eq_right (Nat.zero_le _))
  have none : ∀ t, t ∉ acquired ops → b.filedCount t = 0 := fun t never =>
    filedCount_run_of_not_mem (empty stem) never
  refine ⟨?_, fun t never => (filed t).symm.trans (none t never),
    fun t => pool_run (empty stem) t ops, ?_⟩
  · rw [balanced.minted_eq fun t some => of_not_not (mt (none t) some)]
    exact Finset.sum_congr rfl fun t _ => filed t
  · intro before _ _ row t
    rw [mem_holders_iff, mem_keys_run_iff]

/-- Two rows give up the ids of their texts, and three others ask for ids after that. -/
def recyclingOperations : List Operation :=
  let text (row : Nat) : Slot := ⟨.ofNat row, ⟨"text"⟩⟩
  [.acquire (text 0), .acquire ⟨.ofNat 0, ⟨"image"⟩⟩, .acquire (text 1), .release (text 1),
    .release (text 0), .restore, .acquire (text 2), .acquire (text 3), .acquire (text 4)]

/-- The ids are handed out again in the order in which they were given up, and one is minted. -/
theorem run_queues_recycling :
    let b := (empty "list").run recyclingOperations
    (peak ⟨"text"⟩ (empty "list") recyclingOperations = 3 ∧
      peak ⟨"image"⟩ (empty "list") recyclingOperations = 1 ∧ b.minted = 4) ∧
    b.minted = ∑ t ∈ acquired recyclingOperations, peak t (empty "list") recyclingOperations ∧
    (collect (releasedFor · ⟨"text"⟩) (empty "list") recyclingOperations).map (·.text) =
      ["list_3", "list_1"] ∧
    collect (releasedFor · ⟨"text"⟩) (empty "list") recyclingOperations =
      collect (recycledFor · ⟨"text"⟩) (empty "list") recyclingOperations ++ b.pool ⟨"text"⟩ ∧
    b.pool ⟨"text"⟩ = [] ∧ ¬Unreleased recyclingOperations ⟨.ofNat 0, ⟨"text"⟩⟩ := by
  obtain ⟨sum, -, queue, holders⟩ := run_queues "list" recyclingOperations
  refine ⟨by decide +kernel, sum, by decide +kernel, queue ⟨"text"⟩, by decide +kernel, ?_⟩
  rw [← holders recyclingOperations [] (List.append_nil _).symm]
  decide +kernel

end ListRepeater.SlotBook
