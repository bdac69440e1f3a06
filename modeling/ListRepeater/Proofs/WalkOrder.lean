import ListRepeater.Repeater.RowLayout
import Mathlib.Data.List.Nodup
/-!
# The order of a walk

A walk lists nodes of the template, the root first and each once. It stops exactly at the walked
nodes of the stop kind other than the root, and goes on below all others.
-/
namespace ListRepeater

namespace Walk

/-- What holds below the root, while the entries of the stack are still to be visited. -/
structure Sound (t : Template) (stop : Node → Bool) (root : WidgetId)
    (stack : List (WidgetId × Bool)) (w : Walk) : Prop where
  nodup : w.order.Nodup
  found : ∀ id ∈ w.order, ∃ n, t.find? id = some n
  below : ∀ e ∈ stack, e.2 = false
  entered : root ∈ w.order
  stops_iff : ∀ id, id ∈ w.stops ↔
    id ∈ w.order ∧ id ≠ root ∧ ∃ n, t.find? id = some n ∧ stop n = true

section

variable {t : Template} {stop : Node → Bool} {root id : WidgetId} {isRoot : Bool}
  {rest : List (WidgetId × Bool)} {w : Walk}

theorem Sound.tail (h : Sound t stop root ((id, isRoot) :: rest) w) :
    Sound t stop root rest w where
  nodup := h.nodup
  found := h.found
  below := fun e he => h.below e (List.mem_cons_of_mem _ he)
  entered := h.entered
  stops_iff := h.stops_iff

theorem nodup_visit (hn : w.order.Nodup) (fresh : id ∉ w.order) : (w.visit id).order.Nodup := by
  refine List.nodup_append.mpr ⟨hn, List.nodup_singleton id, ?_⟩
  intro a ha b hb e
  rw [List.mem_singleton.mp hb] at e
  exact fresh (e ▸ ha)

theorem found_visit (hf : ∀ i ∈ w.order, ∃ n, t.find? i = some n) {n : Node}
    (hn : t.find? id = some n) : ∀ i ∈ (w.visit id).order, ∃ n, t.find? i = some n := by
  intro i hi
  rcases List.mem_append.mp hi with hi | hi
  · exact hf i hi
  · exact ⟨n, by rw [List.mem_singleton.mp hi]; exact hn⟩

/-- A node that is met below the root is not the root, which was visited before. -/
theorem Sound.ne_root (h : Sound t stop root rest w) (fresh : id ∉ w.order) : id ≠ root := by
  rintro rfl
  exact fresh h.entered

theorem Sound.stopAt (h : Sound t stop root ((id, isRoot) :: rest) w) {n : Node}
    (hn : t.find? id = some n) (fresh : id ∉ w.order) (hs : stop n = true) :
    Sound t stop root rest ((w.visit id).stopAt id) where
  nodup := nodup_visit h.nodup fresh
  found := found_visit h.found hn
  below := h.tail.below
  entered := List.mem_append_left _ h.entered
  stops_iff := by
    intro i
    simp only [Walk.stopAt, visit, List.mem_append, List.mem_singleton, h.stops_iff i]
    constructor
    · rintro (⟨ho, hr, hi⟩ | rfl)
      · exact ⟨Or.inl ho, hr, hi⟩
      · exact ⟨Or.inr rfl, h.ne_root fresh, n, hn, hs⟩
    · rintro ⟨ho | rfl, hr, hi⟩
      · exact Or.inl ⟨ho, hr, hi⟩
      · exact Or.inr rfl

theorem Sound.descend (h : Sound t stop root ((id, isRoot) :: rest) w) {n : Node}
    (hn : t.find? id = some n) (fresh : id ∉ w.order) (hs : ¬(!isRoot && stop n) = true) :
    Sound t stop root (n.children.map (·, false) ++ rest) (w.visit id) where
  nodup := nodup_visit h.nodup fresh
  found := found_visit h.found hn
  below := by
    intro e he
    rcases List.mem_append.mp he with he | he
    · obtain ⟨c, -, rfl⟩ := List.mem_map.mp he
      rfl
    · exact h.tail.below e he
  entered := List.mem_append_left _ h.entered
  stops_iff := by
    intro i
    have through : stop n = false := by
      have flag : isRoot = false := h.below _ List.mem_cons_self
      simpa [flag] using hs
    simp only [visit, List.mem_append, List.mem_singleton, h.stops_iff i]
    constructor
    · rintro ⟨ho, hr, hi⟩
      exact ⟨Or.inl ho, hr, hi⟩
    · rintro ⟨ho | rfl, hr, m, hm, hs⟩
      · exact ⟨ho, hr, m, hm, hs⟩
      · rw [hn] at hm
        cases hm
        rw [through] at hs
        cases hs

end

theorem sound_run {t : Template} {stop : Node → Bool} {root : WidgetId}
    {stack : List (WidgetId × Bool)} {w : Walk} (h : Sound t stop root stack w) :
    Sound t stop root [] (run t stop stack w) := by
  fun_induction run t stop stack w with
  | case1 w => exact h
  | case2 w id isRoot rest hn ih =>
    exact ih ⟨h.nodup, h.found, h.tail.below, h.entered, h.stops_iff⟩
  | case3 w id isRoot rest n hn hw ih => exact ih h.tail
  | case4 w id isRoot rest n hn hw hs ih =>
    obtain ⟨-, stops⟩ := Bool.and_eq_true_iff.mp hs
    exact ih (h.stopAt hn ((w.not_contains_iff id).mp hw) stops)
  | case5 w id isRoot rest n hn hw hs ih =>
    exact ih (h.descend hn ((w.not_contains_iff id).mp hw) hs)

/-- The children of a walked node are walked or still on the stack, unless the walk stopped there or
they have no node. -/
def Covers (t : Template) (stack : List (WidgetId × Bool)) (w : Walk) : Prop :=
  ∀ id ∈ w.order, id ∉ w.stops → ∀ n, t.find? id = some n → ∀ child ∈ n.children,
    (∃ m, t.find? child = some m) → child ∈ w.order ∨ child ∈ stack.map Prod.fst

section Covers

variable {t : Template} {id : WidgetId} {isRoot : Bool} {rest : List (WidgetId × Bool)} {w : Walk}

/-- A child that is met is walked or has no node, or it is on the stack below. -/
theorem Covers.pop (h : Covers t ((id, isRoot) :: rest) w)
    (done : id ∈ w.order ∨ t.find? id = none) : Covers t rest w := by
  intro i walked through n hn child hchild found
  rcases h i walked through n hn child hchild found with met | pending
  · exact Or.inl met
  · rcases List.mem_cons.mp pending with rfl | later
    · rcases done with met | missing
      · exact Or.inl met
      · obtain ⟨m, hm⟩ := found
        rw [missing] at hm
        cases hm
    · exact Or.inr later

theorem Covers.stopAt (h : Covers t ((id, isRoot) :: rest) w) :
    Covers t rest ((w.visit id).stopAt id) := by
  intro i walked through n hn child hchild found
  have through : i ∉ w.stops ∧ i ≠ id := by simpa [Walk.stopAt, visit] using through
  have walked : i ∈ w.order ∨ i = id := by simpa [Walk.stopAt, visit] using walked
  have before := h i (walked.resolve_right through.2) through.1 n hn child hchild found
  rcases before with met | pending
  · exact Or.inl (List.mem_append_left _ met)
  · rcases List.mem_cons.mp pending with rfl | later
    · exact Or.inl (List.mem_append_right _ List.mem_cons_self)
    · exact Or.inr later

theorem Covers.descend (h : Covers t ((id, isRoot) :: rest) w) {m : Node}
    (hm : t.find? id = some m) : Covers t (m.children.map (·, false) ++ rest) (w.visit id) := by
  intro i walked through n hn child hchild found
  rw [List.map_append, List.mem_append]
  rcases List.mem_append.mp walked with old | new
  · rcases h i old through n hn child hchild found with met | pending
    · exact Or.inl (List.mem_append_left _ met)
    · rcases List.mem_cons.mp pending with rfl | later
      · exact Or.inl (List.mem_append_right _ List.mem_cons_self)
      · exact Or.inr (Or.inr later)
  · rw [List.mem_singleton.mp new, hm] at hn
    cases hn
    exact Or.inr (Or.inl (List.mem_map.mpr ⟨(child, false), List.mem_map_of_mem hchild, rfl⟩))

theorem covers_run {stop : Node → Bool} {stack : List (WidgetId × Bool)} (h : Covers t stack w) :
    Covers t [] (run t stop stack w) := by
  fun_induction run t stop stack w with
  | case1 w => exact h
  | case2 w id isRoot rest hn ih => exact ih (h.pop (Or.inr hn))
  | case3 w id isRoot rest n hn hw ih => exact ih (h.pop (Or.inl ((w.contains_iff id).mp hw)))
  | case4 w id isRoot rest n hn hw hs ih => exact ih h.stopAt
  | case5 w id isRoot rest n hn hw hs ih => exact ih (h.descend hn)

end Covers

theorem prefix_run (t : Template) (stop : Node → Bool) (stack : List (WidgetId × Bool)) (w : Walk) :
    w.order <+: (run t stop stack w).order := by
  fun_induction run t stop stack w with
  | case1 w => exact List.prefix_refl _
  | case2 w id isRoot rest hn ih => exact ih
  | case3 w id isRoot rest n hn hw ih => exact ih
  | case4 w id isRoot rest n hn hw hs ih => exact (List.prefix_append _ _).trans ih
  | case5 w id isRoot rest n hn hw hs ih => exact (List.prefix_append _ _).trans ih

end Walk

section

variable {t : Template} {root : WidgetId} {stop : Node → Bool}

theorem walk_of_missing (h : t.find? root = none) : walk t root stop = .empty := by
  simp [walk, Keyed.contains, h]

/-- The root is visited first, whatever its kind. -/
theorem walk_of_root {n : Node} (h : t.find? root = some n) :
    walk t root stop =
      Walk.run t stop (n.children.map (·, false)) (Walk.empty.visit root) := by
  have start : t.contains root = true := by simp [Keyed.contains, h]
  rw [walk, if_pos start, Walk.run]
  split
  · next none => rw [h] at none; cases none
  · next m hm =>
    rw [h] at hm
    cases hm
    have fresh : ¬Walk.empty.contains root = true :=
      (Walk.not_contains_iff _ _).mpr List.not_mem_nil
    rw [dif_neg fresh]
    simp

theorem sound_walk {n : Node} (h : t.find? root = some n) :
    Walk.Sound t stop root [] (walk t root stop) := by
  rw [walk_of_root h]
  refine Walk.sound_run ⟨?_, ?_, ?_, ?_, ?_⟩
  · simp [Walk.visit, Walk.empty]
  · exact Walk.found_visit (by simp [Walk.empty]) h
  · intro e he
    obtain ⟨c, -, rfl⟩ := List.mem_map.mp he
    rfl
  · simp [Walk.visit, Walk.empty]
  · intro id
    simp only [Walk.visit, Walk.empty, List.nil_append, List.mem_singleton]
    constructor
    · intro he; cases he
    · rintro ⟨rfl, hr, -⟩
      exact absurd rfl hr

theorem nodup_walk : (walk t root stop).order.Nodup := by
  cases h : t.find? root with
  | none => rw [walk_of_missing h]; exact List.nodup_nil
  | some n => exact (sound_walk h).nodup

theorem found_of_mem_walk {id : WidgetId} (hid : id ∈ (walk t root stop).order) :
    ∃ n, t.find? id = some n := by
  cases h : t.find? root with
  | none => rw [walk_of_missing h] at hid; cases hid
  | some n => exact (sound_walk h).found id hid

theorem head?_walk (hw : (walk t root stop).order ≠ []) : (walk t root stop).root? = some root := by
  cases h : t.find? root with
  | none => rw [walk_of_missing h] at hw; exact absurd rfl hw
  | some n =>
    rw [walk_of_root h, Walk.root?]
    obtain ⟨rest, he⟩ := Walk.prefix_run t stop (n.children.map (·, false)) (Walk.empty.visit root)
    rw [← he]
    rfl

/-- The walk stops at the walked nodes of the stop kind other than the root. -/
theorem isStop_walk_iff {id : WidgetId} : (walk t root stop).isStop id = true ↔
    id ∈ (walk t root stop).order ∧ id ≠ root ∧ ∃ n, t.find? id = some n ∧ stop n = true := by
  rw [Walk.isStop_iff]
  cases h : t.find? root with
  | none => rw [walk_of_missing h]; simp [Walk.empty]
  | some n => exact (sound_walk h).stops_iff id

/-- The walk goes on to the children of every walked node that it does not stop at, as far as they
have nodes. -/
theorem mem_walk_of_child {id child : WidgetId} {n m : Node}
    (walked : id ∈ (walk t root stop).order) (through : (walk t root stop).isStop id = false)
    (hn : t.find? id = some n) (hchild : child ∈ n.children) (hm : t.find? child = some m) :
    child ∈ (walk t root stop).order := by
  have covers : Walk.Covers t [] (walk t root stop) := by
    rw [walk]
    split
    · exact Walk.covers_run fun _ none => nomatch none
    · exact fun _ none => nomatch none
  have through : id ∉ (walk t root stop).stops := by
    rwa [← Walk.isStop_iff, Bool.not_eq_true]
  exact (covers id walked through n hn child hchild ⟨m, hm⟩).resolve_right (nomatch ·)

end

namespace Pass

variable (p : Pass)

/-- Every walked id is that of a node. -/
theorem map_fst_nodes (c : Config) (q : Request) :
    (Pass.ofRequest c q).nodes.map Prod.fst = (Pass.ofRequest c q).walk.order := by
  have found : ∀ id ∈ (Pass.ofRequest c q).walk.order, ∃ n, q.template.find? id = some n :=
    fun id hid => found_of_mem_walk hid
  have all : ∀ order : List WidgetId, (∀ id ∈ order, ∃ n, q.template.find? id = some n) →
      (order.filterMap fun id => (q.template.find? id).map (id, ·)).map Prod.fst = order := by
    intro order
    induction order with
    | nil => intro _; rfl
    | cons id rest ih =>
      intro hf
      obtain ⟨n, hn⟩ := hf id List.mem_cons_self
      simp only [List.filterMap_cons, hn, Option.map_some, List.map_cons]
      rw [ih fun i hi => hf i (List.mem_cons_of_mem _ hi)]
  exact all _ found

theorem nodup_order (c : Config) (q : Request) : (Pass.ofRequest c q).walk.order.Nodup := nodup_walk

theorem isStop_iff {c : Config} {q : Request} {id : WidgetId} :
    (Pass.ofRequest c q).walk.isStop id = true ↔ id ∈ (Pass.ofRequest c q).walk.order ∧
      id ≠ q.root ∧ ∃ n, q.template.find? id = some n ∧ (n.kind == c.listKind) = true :=
  isStop_walk_iff

theorem mem_nodes_iff {e : WidgetId × Node} :
    e ∈ p.nodes ↔ e.1 ∈ p.walk.order ∧ p.request.template.find? e.1 = some e.2 := by
  simp only [nodes, List.mem_filterMap, Option.map_eq_some_iff]
  constructor
  · rintro ⟨id, hid, n, hn, rfl⟩
    exact ⟨hid, hn⟩
  · rintro ⟨hid, hn⟩
    exact ⟨e.1, hid, e.2, hn, rfl⟩

end Pass

end ListRepeater
