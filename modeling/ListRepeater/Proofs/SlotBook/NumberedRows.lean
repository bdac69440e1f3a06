import ListRepeater.Proofs.SlotBook.Restored
/-!
# Rows of numbered ids

When all rows have the same nodes, their slots get ids row by row, so for every node the same
happens: a row gets of each node the id that waits longest, or of each node a new one. The ids that
are minted for one row can go by one number, and a book is described by numbers for all nodes at
once.
-/
namespace ListRepeater.SlotBook

section Pools

variable {b : SlotBook}

theorem pool_acquire_of_ne {k : Slot} {t : WidgetId} (other : k.template ≠ t) :
    (b.acquire k).pool t = b.pool t := by
  rcases acquire_cases b k with ⟨_, _, e⟩ | ⟨_, _, _, _, e⟩ | ⟨_, _, e⟩ <;> rw [e]
  · rw [pool_insert, if_neg other]
  · rfl

theorem pool_acquireAll_of_ne {ks : List Slot} {t : WidgetId} (others : ∀ k ∈ ks, k.template ≠ t) :
    (b.acquireAll ks).pool t = b.pool t := by
  induction ks generalizing b with
  | nil => rfl
  | cons k rest ih =>
    obtain ⟨other, others⟩ := List.forall_mem_cons.mp others
    exact (ih others).trans (pool_acquire_of_ne other)

theorem minted_release (k : Slot) : (b.release k).minted = b.minted := (filings_release b k).1

theorem minted_releaseAll (ks : List Slot) : (b.releaseAll ks).minted = b.minted := by
  induction ks generalizing b with
  | nil => rfl
  | cons k rest ih => exact ih.trans (minted_release k)

/-- Released ids are parked behind the others, in the order of their slots. -/
theorem pool_releaseAll {ks : List Slot} {f : Slot → WidgetId} (nodup : ks.Nodup)
    (held : ∀ k ∈ ks, b.get? k = some (f k)) (t : WidgetId) :
    (b.releaseAll ks).pool t = b.pool t ++ (ks.filter (·.template = t)).map f := by
  induction ks generalizing b with
  | nil => exact (List.append_nil _).symm
  | cons k rest ih =>
    obtain ⟨fresh, nodup⟩ := List.nodup_cons.mp nodup
    obtain ⟨own, held⟩ := List.forall_mem_cons.mp held
    have still : ∀ k' ∈ rest, (b.release k).get? k' = some (f k') := by
      intro k' hk'
      have ne : k ≠ k' := fun e => fresh (e ▸ hk')
      rw [get?_release, if_neg ne, held k' hk']
    have pool : (b.release k).pool t = if k.template = t then b.pool t ++ [f k] else b.pool t := by
      rcases release_cases b k with ⟨none, -⟩ | ⟨id, held, e⟩
      · cases none.symm.trans own
      · cases held.symm.trans own
        rw [e, pool_insert]
        split
        · next same => rw [same]
        · rfl
    have step : b.releaseAll (k :: rest) = (b.release k).releaseAll rest := rfl
    rw [step, ih nodup still, pool]
    by_cases same : k.template = t <;> simp [same]

end Pools

/-- The slots of one row. -/
def rowSlots (nodes : List WidgetId) (key : RowKey) : List Slot := nodes.map fun id => ⟨key, id⟩

section Row

variable {nodes : List WidgetId} {key : RowKey} {b : SlotBook}

theorem mem_rowSlots {k : Slot} : k ∈ rowSlots nodes key ↔ k.row = key ∧ k.template ∈ nodes := by
  rw [rowSlots, List.mem_map]
  constructor
  · rintro ⟨id, hid, rfl⟩
    exact ⟨rfl, hid⟩
  · rintro ⟨rfl, hid⟩
    exact ⟨k.template, hid, rfl⟩

theorem nodup_rowSlots (nodup : nodes.Nodup) : (rowSlots nodes key).Nodup :=
  nodup.map fun _ _ e => congrArg Slot.template e

/-- What a slot of the row acquires leaves the slots and pools of the other nodes alone. -/
theorem acquire_apart {node : WidgetId} (fresh : node ∉ nodes) {id : WidgetId} (hid : id ∈ nodes) :
    (b.acquire ⟨key, node⟩).get? ⟨key, id⟩ = b.get? ⟨key, id⟩ ∧
    (b.acquire ⟨key, node⟩).pool id = b.pool id := by
  have apart : node ≠ id := fun e => fresh (e ▸ hid)
  have ne : (⟨key, node⟩ : Slot) ≠ ⟨key, id⟩ := fun e => apart (congrArg Slot.template e)
  exact ⟨get?_acquire_of_ne _ _ ne, pool_acquire_of_ne apart⟩

theorem acquireAll_rowSlots_apart {node : WidgetId} (fresh : node ∉ nodes) :
    (b.acquireAll (rowSlots nodes key)).get? ⟨key, node⟩ = b.get? ⟨key, node⟩ ∧
    (b.acquireAll (rowSlots nodes key)).pool node = b.pool node := by
  have other : ∀ k ∈ rowSlots nodes key, k.template ≠ node :=
    fun k hk e => fresh (e ▸ (mem_rowSlots.mp hk).2)
  have absent : (⟨key, node⟩ : Slot) ∉ rowSlots nodes key := fun h => fresh (mem_rowSlots.mp h).2
  exact ⟨get?_acquireAll_of_not_mem _ absent, pool_acquireAll_of_ne other⟩

/-- Where ids are parked for all nodes, a row gets those that wait longest. -/
theorem acquireAll_rowSlots_parked (nodup : nodes.Nodup)
    (free : ∀ id ∈ nodes, b.get? ⟨key, id⟩ = none) {oldest : WidgetId → WidgetId}
    {rest : WidgetId → List WidgetId} (parked : ∀ id ∈ nodes, b.pool id = oldest id :: rest id) :
    (∀ id ∈ nodes, (b.acquireAll (rowSlots nodes key)).get? ⟨key, id⟩ = some (oldest id) ∧
      (b.acquireAll (rowSlots nodes key)).pool id = rest id) ∧
    (b.acquireAll (rowSlots nodes key)).minted = b.minted := by
  induction nodes generalizing b with
  | nil => exact ⟨fun _ h => (nomatch h), rfl⟩
  | cons node nodes ih =>
    obtain ⟨fresh, nodup⟩ := List.nodup_cons.mp nodup
    obtain ⟨own, free⟩ := List.forall_mem_cons.mp free
    obtain ⟨ownParked, parked⟩ := List.forall_mem_cons.mp parked
    obtain ⟨b₁, hb₁⟩ : ∃ b₁, b₁ = b.acquire ⟨key, node⟩ := ⟨_, rfl⟩
    have step : b.acquireAll (rowSlots (node :: nodes) key) =
        b₁.acquireAll (rowSlots nodes key) := hb₁ ▸ rfl
    have first : b₁.get? ⟨key, node⟩ = some (oldest node) ∧ b₁.pool node = rest node ∧
        b₁.minted = b.minted := by
      rcases acquire_cases b ⟨key, node⟩ with ⟨_, held, _⟩ | ⟨_, _, _, pool, e⟩ | ⟨_, empty, _⟩
      · cases held.symm.trans own
      · cases pool.symm.trans ownParked
        rw [hb₁, e, pool_insert, if_pos rfl]
        exact ⟨by simp [get?, Keyed.find?_insert], rfl, rfl⟩
      · cases empty.symm.trans ownParked
    have free₁ : ∀ id ∈ nodes, b₁.get? ⟨key, id⟩ = none := fun id hid =>
      hb₁ ▸ (acquire_apart fresh hid).1.trans (free id hid)
    have parked₁ : ∀ id ∈ nodes, b₁.pool id = oldest id :: rest id := fun id hid =>
      hb₁ ▸ (acquire_apart fresh hid).2.trans (parked id hid)
    obtain ⟨others, minted⟩ := ih nodup free₁ parked₁
    obtain ⟨held, pool, minted₁⟩ := first
    obtain ⟨heldAfter, poolAfter⟩ := acquireAll_rowSlots_apart fresh
    rw [step]
    exact ⟨List.forall_mem_cons.mpr ⟨⟨heldAfter.trans held, poolAfter.trans pool⟩, others⟩,
      minted.trans minted₁⟩

/-- Where no id is parked for any node, a row gets new ones in the order of its nodes. -/
theorem acquireAll_rowSlots_unparked (nodup : nodes.Nodup)
    (free : ∀ id ∈ nodes, b.get? ⟨key, id⟩ = none) (none : ∀ id ∈ nodes, b.pool id = []) :
    (∀ id ∈ nodes,
      (b.acquireAll (rowSlots nodes key)).get? ⟨key, id⟩ =
        some (mintedId b.stem (b.minted + nodes.idxOf id + 1)) ∧
      (b.acquireAll (rowSlots nodes key)).pool id = []) ∧
    (b.acquireAll (rowSlots nodes key)).minted = b.minted + nodes.length := by
  induction nodes generalizing b with
  | nil => exact ⟨fun _ h => (nomatch h), rfl⟩
  | cons node nodes ih =>
    obtain ⟨fresh, nodup⟩ := List.nodup_cons.mp nodup
    obtain ⟨own, free⟩ := List.forall_mem_cons.mp free
    obtain ⟨ownNone, none⟩ := List.forall_mem_cons.mp none
    obtain ⟨b₁, hb₁⟩ : ∃ b₁, b₁ = b.acquire ⟨key, node⟩ := ⟨_, rfl⟩
    have step : b.acquireAll (rowSlots (node :: nodes) key) =
        b₁.acquireAll (rowSlots nodes key) := hb₁ ▸ rfl
    have first : b₁.get? ⟨key, node⟩ = some (mintedId b.stem (b.minted + 1)) ∧ b₁.pool node = [] ∧
        b₁.minted = b.minted + 1 ∧ b₁.stem = b.stem := by
      rcases acquire_cases b ⟨key, node⟩ with ⟨_, held, _⟩ | ⟨_, _, _, parked, _⟩ | ⟨_, empty, e⟩
      · cases held.symm.trans own
      · cases parked.symm.trans ownNone
      · rw [hb₁, e]
        exact ⟨by simp [get?, Keyed.find?_insert], empty, rfl, rfl⟩
    have free₁ : ∀ id ∈ nodes, b₁.get? ⟨key, id⟩ = Option.none := fun id hid =>
      hb₁ ▸ (acquire_apart fresh hid).1.trans (free id hid)
    have none₁ : ∀ id ∈ nodes, b₁.pool id = [] := fun id hid =>
      hb₁ ▸ (acquire_apart fresh hid).2.trans (none id hid)
    obtain ⟨others, minted⟩ := ih nodup free₁ none₁
    obtain ⟨held, pool, minted₁, stem⟩ := first
    obtain ⟨heldAfter, poolAfter⟩ := acquireAll_rowSlots_apart fresh
    rw [step]
    refine ⟨List.forall_mem_cons.mpr ⟨⟨?_, poolAfter.trans pool⟩, ?_⟩, ?_⟩
    · rw [heldAfter, held, List.idxOf_cons_self]
    · intro id hid
      obtain ⟨got, left⟩ := others id hid
      have ne : node ≠ id := fun e => fresh (e ▸ hid)
      rw [got, minted₁, stem, List.idxOf_cons_ne _ ne]
      refine ⟨congrArg (fun n => some (mintedId b.stem n)) ?_, left⟩
      omega
    · rw [minted, minted₁, List.length_cons]
      omega

end Row

/-- The id of a node that goes by number `k`. Of the ids minted for one row each node gets that of
its place. -/
def numbered (stem : String) (nodes : List WidgetId) (id : WidgetId) (k : Nat) : WidgetId :=
  mintedId stem (k * nodes.length + nodes.idxOf id + 1)

theorem numbered_injective {stem : String} {nodes : List WidgetId} {id : WidgetId}
    (walked : id ∈ nodes) : Function.Injective (numbered stem nodes id) := by
  intro j k e
  have numbers : j * nodes.length = k * nodes.length := by
    have := mintedId_injective e
    omega
  exact Nat.eq_of_mul_eq_mul_right (List.length_pos_of_mem walked) numbers

/-- Of each node the book parks the ids with these numbers, the oldest first, and so many numbers
are given out. -/
structure Parks (b : SlotBook) (nodes : List WidgetId) (waiting : List Nat) (count : Nat) :
    Prop where
  pool : ∀ id ∈ nodes, b.pool id = waiting.map (numbered b.stem nodes id)
  minted : b.minted = count * nodes.length

/-- The slots of the row hold the ids with this number. -/
def Holds (b : SlotBook) (nodes : List WidgetId) (key : RowKey) (k : Nat) : Prop :=
  ∀ id ∈ nodes, b.get? ⟨key, id⟩ = some (numbered b.stem nodes id k)

section Rows

variable {b : SlotBook} {nodes : List WidgetId} {waiting : List Nat} {count : Nat}

theorem parks_empty (stem : String) (nodes : List WidgetId) :
    (SlotBook.empty stem).Parks nodes [] 0 :=
  ⟨fun _ _ => rfl, (Nat.zero_mul _).symm⟩

theorem Holds.acquireAll {key : RowKey} {k : Nat} (h : b.Holds nodes key k) (ks : List Slot) :
    (b.acquireAll ks).Holds nodes key k := by
  intro id walked
  rw [stem_acquireAll]
  exact keeps_acquireAll b ks _ _ (h id walked)

theorem Holds.releaseRow {key other : RowKey} {k : Nat} (holds : b.Holds nodes key k)
    (apart : key ≠ other) : (b.releaseAll (rowSlots nodes other)).Holds nodes key k := by
  intro id walked
  rw [get?_releaseAll, if_neg fun slot => apart (mem_rowSlots.mp slot).1, stem_releaseAll]
  exact holds id walked

variable (nodup : nodes.Nodup)

include nodup

theorem Parks.acquireRow_waiting {k : Nat} (h : b.Parks nodes (k :: waiting) count) {key : RowKey}
    (free : ∀ id ∈ nodes, b.get? ⟨key, id⟩ = none) :
    (b.acquireAll (rowSlots nodes key)).Parks nodes waiting count ∧
      (b.acquireAll (rowSlots nodes key)).Holds nodes key k := by
  obtain ⟨got, minted⟩ := acquireAll_rowSlots_parked nodup free h.pool
  refine ⟨⟨fun id walked => ?_, minted.trans h.minted⟩, fun id walked => ?_⟩
  · rw [stem_acquireAll]
    exact (got id walked).2
  · rw [stem_acquireAll]
    exact (got id walked).1

theorem Parks.acquireRow_none (h : b.Parks nodes [] count) {key : RowKey}
    (free : ∀ id ∈ nodes, b.get? ⟨key, id⟩ = none) :
    (b.acquireAll (rowSlots nodes key)).Parks nodes [] (count + 1) ∧
      (b.acquireAll (rowSlots nodes key)).Holds nodes key count := by
  obtain ⟨got, minted⟩ := acquireAll_rowSlots_unparked nodup free h.pool
  refine ⟨⟨fun id walked => (got id walked).2, ?_⟩, fun id walked => ?_⟩
  · rw [minted, h.minted, Nat.succ_mul]
  · rw [stem_acquireAll, (got id walked).1, h.minted]
    rfl

/-- Rows take the numbers that wait, from the first on, and then new ones. -/
theorem Parks.acquireRows (h : b.Parks nodes waiting count) {keys : List RowKey}
    (distinct : keys.Nodup)
    (free : ∀ key ∈ keys, ∀ id ∈ nodes, b.get? ⟨key, id⟩ = none) :
    (b.acquireAll (keys.flatMap (rowSlots nodes))).Parks nodes (waiting.drop keys.length)
      (count + (keys.length - waiting.length)) ∧
    List.Forall₂ ((b.acquireAll (keys.flatMap (rowSlots nodes))).Holds nodes) keys
      (waiting.take keys.length ++ List.range' count (keys.length - waiting.length)) := by
  induction keys generalizing b waiting count with
  | nil => simpa [acquireAll] using h
  | cons key keys ih =>
    obtain ⟨fresh, distinct⟩ := List.nodup_cons.mp distinct
    obtain ⟨own, free⟩ := List.forall_mem_cons.mp free
    have step : b.acquireAll ((key :: keys).flatMap (rowSlots nodes)) =
        (b.acquireAll (rowSlots nodes key)).acquireAll (keys.flatMap (rowSlots nodes)) := by
      rw [List.flatMap_cons, acquireAll_append]
    have free₁ : ∀ key' ∈ keys, ∀ id ∈ nodes,
        (b.acquireAll (rowSlots nodes key)).get? ⟨key', id⟩ = none := by
      intro key' hkey' id walked
      rw [get?_acquireAll_of_not_mem, free key' hkey' id walked]
      exact fun slot => fresh ((mem_rowSlots.mp slot).1 ▸ hkey')
    rw [step]
    cases waiting with
    | nil =>
      obtain ⟨parks, holds⟩ := h.acquireRow_none nodup own
      obtain ⟨parks, others⟩ := ih parks distinct free₁
      have more : count + 1 + (keys.length - 0) = count + (keys.length + 1 - 0) := by omega
      rw [List.length_nil, List.drop_nil, more] at parks
      rw [List.take_nil] at others
      exact ⟨parks, .cons (holds.acquireAll _) others⟩
    | cons k waiting =>
      obtain ⟨parks, holds⟩ := h.acquireRow_waiting nodup own
      obtain ⟨parks, others⟩ := ih parks distinct free₁
      have same : keys.length + 1 - (waiting.length + 1) = keys.length - waiting.length := by omega
      rw [List.length_cons, List.length_cons, same]
      exact ⟨parks, .cons (holds.acquireAll _) others⟩

/-- A row that is given up leaves its number behind those that wait. -/
theorem Parks.releaseRow (h : b.Parks nodes waiting count) {key : RowKey} {k : Nat}
    (holds : b.Holds nodes key k) :
    (b.releaseAll (rowSlots nodes key)).Parks nodes (waiting ++ [k]) count := by
  have held : ∀ slot ∈ rowSlots nodes key,
      b.get? slot = some (numbered b.stem nodes slot.template k) := by
    intro slot hslot
    obtain ⟨rfl, walked⟩ := mem_rowSlots.mp hslot
    exact holds slot.template walked
  refine ⟨fun id walked => ?_, (minted_releaseAll _).trans h.minted⟩
  have own : nodes.filter (fun id' => id' = id) = [id] := by
    rw [List.filter_eq, List.count_eq_one_of_mem nodup walked, List.replicate_one]
  have slot : (rowSlots nodes key).filter (·.template = id) = [⟨key, id⟩] := by
    rw [rowSlots, List.filter_map]
    exact congrArg (List.map _) own
  rw [pool_releaseAll (nodup_rowSlots nodup) held, stem_releaseAll, h.pool id walked, slot]
  simp

/-- Rows that are given up leave their numbers behind those that wait, in the order of the rows. -/
theorem Parks.releaseRows (h : b.Parks nodes waiting count) {keys : List RowKey} {shown : List Nat}
    (distinct : keys.Nodup) (holds : List.Forall₂ (b.Holds nodes) keys shown) :
    (b.releaseAll (keys.flatMap (rowSlots nodes))).Parks nodes (waiting ++ shown) count := by
  induction keys generalizing b waiting shown with
  | nil =>
    cases holds
    simpa [releaseAll] using h
  | cons key keys ih =>
    obtain ⟨fresh, distinct⟩ := List.nodup_cons.mp distinct
    cases holds with
    | @cons _ k _ rest own others =>
      have step : b.releaseAll ((key :: keys).flatMap (rowSlots nodes)) =
          (b.releaseAll (rowSlots nodes key)).releaseAll (keys.flatMap (rowSlots nodes)) := by
        rw [List.flatMap_cons, releaseAll, List.foldl_append]
        rfl
      have still : List.Forall₂ ((b.releaseAll (rowSlots nodes key)).Holds nodes) keys rest := by
        rw [List.forall₂_iff_zip] at others ⊢
        refine ⟨others.1, fun pair => (others.2 pair).releaseRow fun e => ?_⟩
        exact fresh (e ▸ (List.of_mem_zip pair).1)
      have parks := ih (h.releaseRow nodup own) distinct still
      rwa [List.append_assoc, List.singleton_append, ← step] at parks

end Rows

end ListRepeater.SlotBook
