import ListRepeater.Proofs.IncrementalRender
import ListRepeater.Proofs.Recreation
import ListRepeater.Proofs.SlotIdentity
import ListRepeater.Sample.Bench
import Mathlib.Data.List.Induction
/-!
# Ids across nested lists

A list inside a row is repeated by a repeater of its own, which mints its ids behind the id that the
slot of the list holds. So an id tells the stem that it was minted behind, which tells the list
that it belongs to: of two lists in rows of one list the slots hold different ids, and of two lists
in rows of different ones the stems already differ further out.
-/
namespace ListRepeater

namespace SlotBook

theorem reverse_mintedId (stem : String) (n : Nat) : (mintedId stem n).text.toList.reverse =
    (decimal n).toList.reverse ++ '_' :: stem.toList.reverse := by
  simp [mintedId, String.toList_append]

/-- Read backwards, the number of a minted id ends at the first underscore. -/
theorem takeWhile_reverse_mintedId (stem : String) (n : Nat) :
    (mintedId stem n).text.toList.reverse.takeWhile Char.isDigit = (decimal n).toList.reverse := by
  have digits : ∀ c ∈ (decimal n).toList.reverse, c.isDigit = true := by
    intro c hc
    rw [decimal, String.toList_ofList, List.mem_reverse] at hc
    exact Nat.isDigit_of_mem_toDigits (by decide) (by decide) hc
  rw [reverse_mintedId, List.takeWhile_append_of_pos digits,
    List.takeWhile_cons_of_neg (by decide), List.append_nil]

/-- A minted id tells the stem and the number that it was made of. -/
theorem mintedId_inj {stem stem' : String} {m n : Nat} (h : mintedId stem m = mintedId stem' n) :
    stem = stem' ∧ m = n := by
  have reversed := takeWhile_reverse_mintedId stem m
  rw [h, takeWhile_reverse_mintedId] at reversed
  have numbers : m = n :=
    decimal_injective (String.toList_inj.mp (List.reverse_injective reversed.symm))
  subst numbers
  have texts := congrArg (fun id => id.text.toList.reverse) h
  simp only [reverse_mintedId] at texts
  have stems := (List.cons.inj (List.append_cancel_left texts)).2
  exact ⟨String.toList_inj.mp (List.reverse_injective stems), rfl⟩

theorem length_lt_mintedId (stem : String) (n : Nat) :
    stem.length < (mintedId stem n).text.length := by
  have mark : "_".length = 1 := rfl
  simp only [mintedId, String.length_append, mark]
  omega

end SlotBook

/-- A pass that leaves a nested list alone has the same stem for it. -/
theorem Turn.keeps_stem {a b : Turn} (follows : b.Follows a.outcome.next a.mountedAfter) :
    a.Keeps (fun i j => i.stem = j.stem) b := by
  intro x hx y h
  have before : y.id ∈ a.pass.walk.order :=
    (a.pass.mem_nodes_iff.mp (a.pass.mem_cells.mp h.before).2).1
  have after : x.id ∈ b.pass.walk.order :=
    (b.pass.mem_nodes_iff.mp (b.pass.mem_cells.mp hx).2).1
  have slotId : a.book.idOf y.slot = b.book.idOf x.slot := by
    have held := follows.get?_eq_of_carries hx h (h.id ▸ before) after
    rw [h.slot]
    exact congrArg (Option.getD · default) held
  have stemA : (a.pass.instanceIn a.book y).stem =
      if a.pass.walk.isStop y.id then some (a.book.idOf y.slot) else none := rfl
  have stemB : (b.pass.instanceIn b.book x).stem =
      if b.pass.walk.isStop x.id then some (b.book.idOf x.slot) else none := rfl
  rw [stemA, stemB, follows.isStop_congr hx h, slotId]

/-- After every pass the stems of the mounted instances are those of its cells, given that no authored
id looks minted. -/
theorem Session.exists_stem_iff {c : Config} {calls : List Call} {stem : WidgetId}
    (unminted : ∀ q, .options q ∈ calls → q.template.Unminted c.stem) {t : Turn}
    (ht : t ∈ (create c none).turns calls) :
    (∃ x ∈ t.pass.cells, (t.pass.instanceIn t.book x).stem = some stem) ↔
      ∃ id i, t.mountedAfter.find? id = some i ∧ i.stem = some stem := by
  obtain ⟨grounded, -, apart⟩ := turn_sound unminted ht
  have distinct := Pass.distinct_run grounded apart
  have equiv : Equivalence fun i j : Instance => i.stem = j.stem :=
    ⟨fun _ => rfl, Eq.symm, Eq.trans⟩
  have agrees := (agrees_iff equiv unminted).mpr
    (fun _ _ _ _ split => Turn.keeps_stem (next_turn split)) t ht
  constructor
  · rintro ⟨x, hx, e⟩
    obtain ⟨i, found, same⟩ := exists_of_rel_some (agrees _) (Pass.find?_fullIn distinct hx)
    exact ⟨_, i, found, same.trans e⟩
  · rintro ⟨id, i, found, e⟩
    have related := agrees id
    rw [found] at related
    cases full : t.full.find? id with
    | none => rw [full] at related; cases related
    | some j =>
      rw [full, Option.rel_some_some] at related
      obtain ⟨x, hx, made⟩ := Pass.exists_cell_of_mem ((t.full.find?_eq_some_iff id j).mp full)
      cases congrArg Prod.snd made
      exact ⟨x, hx, related.symm.trans e⟩

/-- A repeater of a list that was never stored, and the calls that it gets. -/
structure Member where
  config : Config
  calls : List Call

namespace Member

variable (m : Member)

def session : Session := (Session.create m.config none).run m.calls

/-- The last accepted pass, which made what the repeater shows now. -/
def lastPass? : Option Turn := ((Session.create m.config none).turns m.calls).getLast?

/-- The ids that the slots of the repeater hold and those that are parked. -/
def ids : List WidgetId := m.session.repeater.book.filings.map Prod.snd

/-- The repeater shows a nested list at the slot, and its instance hands on this stem. -/
def ListAt (k : Slot) (stem : WidgetId) : Prop :=
  ∃ t ∈ m.lastPass?, ∃ row ∈ t.rows, ∃ w ∈ row.layout.widgets, w.slot = k ∧
    (t.pass.instanceOf row.layout row.row.place row.row.record row.editable w).stem = some stem

instance (k : Slot) (stem : WidgetId) : Decidable (m.ListAt k stem) :=
  inferInstanceAs (Decidable (∃ t ∈ m.lastPass?, _))

theorem balanced : m.session.repeater.book.Balanced ∧
    m.session.repeater.book.stem = m.config.stem := by
  have sound : m.session.Sound m.config fun _ => True :=
    (Session.sound_create m.config _).run fun _ _ => trivial
  exact ⟨sound.grounded.balanced, sound.grounded.stem.trans (congrArg Config.stem sound.config)⟩

/-- The ids of a repeater are minted behind its stem, each once. -/
theorem ids_perm : m.ids.Perm
    (SlotBook.mintedIds m.config.stem m.session.repeater.book.minted) := by
  obtain ⟨balanced, stem⟩ := m.balanced
  rw [← stem]
  exact balanced

theorem nodup_ids : m.ids.Nodup := m.ids_perm.nodup_iff.mpr (SlotBook.nodup_mintedIds _ _)

/-- Repeaters with different stems have no id in common. -/
theorem disjoint_ids {m m' : Member} (h : m.config.stem ≠ m'.config.stem) :
    m.ids.Disjoint m'.ids := by
  intro id hid hid'
  obtain ⟨i, -, e⟩ := List.mem_map.mp (m.ids_perm.mem_iff.mp hid)
  obtain ⟨j, -, e'⟩ := List.mem_map.mp (m'.ids_perm.mem_iff.mp hid')
  exact h (SlotBook.mintedId_inj (e.trans e'.symm)).1

section Lists

variable {m} {k k' : Slot} {stem : WidgetId}

/-- The stem that a list hands on is the id that its slot holds. -/
theorem ListAt.held (h : m.ListAt k stem) :
    ∃ t ∈ m.lastPass?, t.repeater.Grounded ∧ t.repeater.config = m.config ∧
      t.book.get? k = some stem := by
  obtain ⟨t, ht, row, hrow, w, hw, rfl, e⟩ := h
  obtain ⟨grounded, config⟩ := Session.grounded_of_turn (Repeater.grounded_create m.config)
    (List.mem_of_getLast? ht)
  refine ⟨t, ht, grounded, config, ?_⟩
  have slotId : w.slotId = stem := by
    have own : (if t.pass.isNestedList w then some w.slotId else none) = some stem := e
    split at own
    · exact Option.some.inj own
    · cases own
  rw [← slotId]
  exact Turn.held hrow hw

theorem ListAt.minted (h : m.ListAt k stem) : ∃ n, stem = SlotBook.mintedId m.config.stem n := by
  obtain ⟨t, -, grounded, config, held⟩ := h.held
  have after := Repeater.grounded_run grounded t.request
  obtain ⟨n, hn⟩ := after.balanced.minted_of_get? held
  rw [after.stem] at hn
  exact ⟨n, config ▸ hn⟩

/-- Different lists that are shown hand on different stems. -/
theorem ListAt.slot_unique (h : m.ListAt k stem) (h' : m.ListAt k' stem) : k = k' := by
  obtain ⟨t, ht, grounded, -, held⟩ := h.held
  obtain ⟨t', ht', -, -, held'⟩ := h'.held
  cases Option.some.inj (ht.symm.trans ht')
  exact (Repeater.grounded_run grounded t.request).balanced.slot_unique held held'

theorem listAt_iff_cell : m.ListAt k stem ↔ ∃ t ∈ m.lastPass?, ∃ x ∈ t.pass.cells,
    x.slot = k ∧ (t.pass.instanceIn t.book x).stem = some stem := by
  constructor
  · rintro ⟨t, ht, row, hrow, w, hw, slot, e⟩
    obtain ⟨x, hx, -, rfl⟩ := Turn.exists_cell hrow hw
    exact ⟨t, ht, x, hx, slot, e⟩
  · rintro ⟨t, ht, x, hx, slot, e⟩
    obtain ⟨row, hrow, -, -, hw⟩ := Turn.exists_row hx
    exact ⟨t, ht, row, hrow, _, hw, slot, e⟩

/-- The nested lists that a repeater shows are those that its client has mounted, given that no
authored id looks minted. -/
theorem exists_listAt_iff (unminted : ∀ q, .options q ∈ m.calls →
    q.template.Unminted m.config.stem) : (∃ k, m.ListAt k stem) ↔
      ∃ id i, m.session.mounted.find? id = some i ∧ i.stem = some stem := by
  rcases List.eq_nil_or_concat' ((Session.create m.config none).turns m.calls) with
    none | ⟨before, t, last⟩
  · obtain ⟨asked, run⟩ := Session.run_of_turns_nil none
    have unshown : m.lastPass? = .none := by rw [lastPass?, none]; rfl
    have unmounted : m.session.mounted = .empty := by rw [session, run]; rfl
    simp [listAt_iff_cell, unshown, unmounted]
  · obtain ⟨asked, run⟩ := Session.run_of_last_turn last
    have shown : m.lastPass? = some t := by rw [lastPass?, last, List.getLast?_concat]
    have mounted : m.session.mounted = t.mountedAfter := by rw [session, run]
    have ht : t ∈ (Session.create m.config .none).turns m.calls := by simp [last]
    rw [mounted, ← Session.exists_stem_iff unminted ht]
    constructor
    · rintro ⟨k, list⟩
      obtain ⟨t', ht', x, hx, -, e⟩ := listAt_iff_cell.mp list
      cases Option.some.inj (shown.symm.trans ht')
      exact ⟨x, hx, e⟩
    · rintro ⟨x, hx, e⟩
      exact ⟨x.slot, listAt_iff_cell.mpr ⟨t, shown, x, hx, rfl, e⟩⟩

end Lists

end Member

/-- Repeaters of lists inside rows of each other. The outermost one stands under the empty address
and any other one under the slots of the lists around it and its own, from outside in. -/
abbrev Nesting := Keyed (List Slot) Member

namespace Nesting

/-- Each list but the outermost one is shown by the repeater of the list around it, and its own
repeater was made with the stem that its instance hands on. -/
def Placed (n : Nesting) : Prop :=
  ∀ a k m, n.find? (a ++ [k]) = some m →
    ∃ outer, n.find? a = some outer ∧ outer.ListAt k ⟨m.config.stem⟩

/-- One of the repeaters gets a call. -/
def call (n : Nesting) (e : List Slot × Call) : Nesting :=
  n.map fun a m => if a = e.1 then { m with calls := m.calls ++ [e.2] } else m

def run (n : Nesting) (events : List (List Slot × Call)) : Nesting := events.foldl call n

variable {n : Nesting}

theorem find?_call {e : List Slot × Call} {a : List Slot} {m : Member}
    (h : (n.call e).find? a = some m) : ∃ before, n.find? a = some before ∧
      before.config = m.config := by
  rw [call, Keyed.find?_map, Option.map_eq_some_iff] at h
  obtain ⟨before, found, rfl⟩ := h
  refine ⟨before, found, ?_⟩
  split <;> rfl

/-- Calls leave every repeater where it is with its configuration. -/
theorem find?_run {events : List (List Slot × Call)} {a : List Slot} {m : Member}
    (h : (n.run events).find? a = some m) : ∃ before, n.find? a = some before ∧
      before.config = m.config := by
  induction events generalizing n with
  | nil => exact ⟨m, h, rfl⟩
  | cons e later ih =>
    obtain ⟨between, found, config⟩ := ih h
    obtain ⟨before, found, config'⟩ := find?_call found
    exact ⟨before, found, config'.trans config⟩

section Stems

variable (placed : n.Placed)

include placed

theorem length_stem_le {root m : Member} {a : List Slot} (hroot : n.find? [] = some root)
    (h : n.find? a = some m) : root.config.stem.length ≤ m.config.stem.length := by
  induction a using List.reverseRecOn generalizing m with
  | nil =>
    cases Option.some.inj (hroot.symm.trans h)
    exact Nat.le_refl _
  | append_singleton a k ih =>
    obtain ⟨outer, houter, list⟩ := placed a k m h
    obtain ⟨i, e⟩ := list.minted
    have longer := SlotBook.length_lt_mintedId outer.config.stem i
    rw [← e] at longer
    exact Nat.le_trans (ih houter) (Nat.le_of_lt longer)

/-- The stem of the outermost list is shorter than all others. -/
theorem stem_ne_root {root m : Member} {a : List Slot} {k : Slot} (hroot : n.find? [] = some root)
    (h : n.find? (a ++ [k]) = some m) : root.config.stem ≠ m.config.stem := by
  intro e
  obtain ⟨outer, houter, list⟩ := placed a k m h
  obtain ⟨i, minted⟩ := list.minted
  have longer := SlotBook.length_lt_mintedId outer.config.stem i
  have shorter := length_stem_le placed hroot houter
  rw [← minted, ← e] at longer
  exact absurd longer (Nat.not_lt_of_le shorter)

/-- A stem belongs to one repeater of a nesting. -/
theorem address_eq_of_stem {a a' : List Slot} {m m' : Member} (h : n.find? a = some m)
    (h' : n.find? a' = some m') (stem : m.config.stem = m'.config.stem) : a = a' := by
  induction a using List.reverseRecOn generalizing a' m m' with
  | nil =>
    rcases List.eq_nil_or_concat' a' with rfl | ⟨b', k', rfl⟩
    · rfl
    · exact absurd stem (stem_ne_root placed h h')
  | append_singleton b k ih =>
    rcases List.eq_nil_or_concat' a' with rfl | ⟨b', k', rfl⟩
    · exact absurd stem.symm (stem_ne_root placed h' h)
    · obtain ⟨outer, houter, list⟩ := placed b k m h
      obtain ⟨outer', houter', list'⟩ := placed b' k' m' h'
      obtain ⟨i, e⟩ := list.minted
      obtain ⟨j, e'⟩ := list'.minted
      rw [stem] at e list
      -- the stems of the lists around agree, so these are one list, with one slot for the stem
      have around := (SlotBook.mintedId_inj (e.symm.trans e')).1
      have address := ih houter houter' around
      subst address
      cases Option.some.inj (houter.symm.trans houter')
      rw [list.slot_unique list']

end Stems

theorem placed_iff : n.Placed ↔ ∀ e ∈ n.entries, e.1 = [] ∨
    ∃ k ∈ e.1.getLast?, ∃ outer ∈ n.find? e.1.dropLast, outer.ListAt k ⟨e.2.config.stem⟩ := by
  constructor
  · rintro placed ⟨a, m⟩ h
    rcases List.eq_nil_or_concat' a with rfl | ⟨b, k, rfl⟩
    · exact Or.inl rfl
    · obtain ⟨outer, houter, list⟩ := placed b k m ((n.find?_eq_some_iff _ _).mpr h)
      exact Or.inr ⟨k, List.getLast?_concat, outer, by simpa using houter, list⟩
  · intro h a k m found
    rcases h _ ((n.find?_eq_some_iff _ _).mp found) with empty | ⟨k', hk', outer, houter, list⟩
    · simp at empty
    · simp only [List.getLast?_concat, Option.mem_some_iff] at hk'
      subst hk'
      exact ⟨outer, by simpa using houter, list⟩

instance (n : Nesting) : Decidable n.Placed := decidable_of_iff _ placed_iff.symm

/-- A repeater was made with the stem of an instance that the client of the list around it has
mounted, given that no authored id looks minted there. -/
theorem Placed.exists_mounted (placed : n.Placed) {a : List Slot} {k : Slot} {m outer : Member}
    (h : n.find? (a ++ [k]) = some m) (houter : n.find? a = some outer)
    (unminted : ∀ q, .options q ∈ outer.calls → q.template.Unminted outer.config.stem) :
    ∃ id i, outer.session.mounted.find? id = some i ∧ i.stem = some ⟨m.config.stem⟩ := by
  obtain ⟨outer', houter', list⟩ := placed a k m h
  cases Option.some.inj (houter.symm.trans houter')
  exact (Member.exists_listAt_iff unminted).mp ⟨k, list⟩

/-- Whatever calls the repeaters of a nesting get, in any order, the ids of each are distinct, and
no two of them have an id in common. To begin with, the stem of each but the outermost is that of an
instance that is mounted in the list around it. -/
theorem ids_distinct (n : Nesting) (placed : n.Placed) (events : List (List Slot × Call)) :
    (∀ a m, (n.run events).find? a = some m → m.ids.Nodup) ∧
    (∀ a m a' m', (n.run events).find? a = some m → (n.run events).find? a' = some m' → a ≠ a' →
      m.ids.Disjoint m'.ids) ∧
    ∀ a k m outer, n.find? (a ++ [k]) = some m → n.find? a = some outer →
      (∀ q, .options q ∈ outer.calls → q.template.Unminted outer.config.stem) →
        ∃ id i, outer.session.mounted.find? id = some i ∧ i.stem = some ⟨m.config.stem⟩ := by
  refine ⟨fun _ m _ => m.nodup_ids, fun a m a' m' h h' apart => ?_,
    fun a k m outer h houter unminted => placed.exists_mounted h houter unminted⟩
  obtain ⟨before, found, config⟩ := find?_run h
  obtain ⟨before', found', config'⟩ := find?_run h'
  refine Member.disjoint_ids fun stem => apart ?_
  rw [← config, ← config'] at stem
  exact address_eq_of_stem placed found found' stem

def twoRows : Request := Sample.requestFor Sample.nested Sample.records

/-- Lists of the same two rows: an outermost one, those of its two rows and one in a row of the
first of these. -/
def threeDeep : Nesting :=
  let member (level : Nat) (stem : String) : Member :=
    { config := { Sample.benchConfig with level := level, stem := stem }
      calls := [.options twoRows, .generate] }
  let first : Slot := ⟨.ofNat 1, Sample.innerList⟩
  let second : Slot := ⟨.ofNat 2, Sample.innerList⟩
  .ofList
    [([], member 1 "test"), ([first], member 2 "test_6"), ([second], member 2 "test_12"),
     ([first, second], member 3 "test_6_12")]

/-- All lists turn to the second page, the outermost one first. -/
def turnings : List (List Slot × Call) :=
  threeDeep.keys.flatMap fun a => [(a, .options { twoRows with pageNo := 2 }), (a, .generate)]

/-- Every list has the ids of the first page parked and those of the second one in its slots. -/
theorem ids_distinct_threeDeep :
    threeDeep.Placed ∧
    (threeDeep.run turnings).values.map (·.ids.length) = [24, 24, 24, 24] ∧
    (∀ a m a' m', (threeDeep.run turnings).find? a = some m →
      (threeDeep.run turnings).find? a' = some m' → a ≠ a' → m.ids.Disjoint m'.ids) ∧
    ∀ a k m outer, threeDeep.find? (a ++ [k]) = some m → threeDeep.find? a = some outer →
      ∃ id i, outer.session.mounted.find? id = some i ∧ i.stem = some ⟨m.config.stem⟩ := by
  have placed : threeDeep.Placed := by decide +kernel
  have apart : ∀ m ∈ threeDeep.values, ∀ q ∈ m.calls.filterMap Call.request?,
      ∀ id ∈ q.template.keys, ¬m.config.stem.toList <+: id.text.toList := by
    decide +kernel
  obtain ⟨-, disjoint, mounted⟩ := ids_distinct threeDeep placed turnings
  refine ⟨placed, by decide +kernel, disjoint, fun a k m outer h houter => ?_⟩
  have entry : (a, outer) ∈ threeDeep.entries := (threeDeep.find?_eq_some_iff a outer).mp houter
  exact mounted a k m outer h houter
    (Call.unminted_of_apart (apart outer (List.mem_map_of_mem entry)))

end Nesting

end ListRepeater
