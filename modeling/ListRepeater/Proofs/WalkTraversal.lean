import ListRepeater.Proofs.WalkOrder
/-!
# Walks as recursive traversals

The walk keeps the ids that are still to be visited on a stack. It does what the recursive
depth-first traversal does: visit a node, then all that is below it, then the next child. So it
visits exactly the nodes that can be reached from the root by references to children without going
on below a node that it stops at, and passes over exactly the references that lead nowhere.
-/
namespace ListRepeater

namespace Walk

/-- The recursive traversal of some references, one after the other. An id without a node is
skipped; a node is visited when it is met for the first time, and unless it is of the stop kind all
its children are traversed before the next reference. -/
inductive Traverses (t : Template) (stop : Node → Bool) : List WidgetId → Walk → Walk → Prop
  | done (w : Walk) : Traverses t stop [] w w
  | skip {id : WidgetId} {ids : List WidgetId} {w out : Walk} (missing : t.find? id = none)
      (rest : Traverses t stop ids (w.skip id) out) : Traverses t stop (id :: ids) w out
  | again {id : WidgetId} {ids : List WidgetId} {w out : Walk} {n : Node}
      (found : t.find? id = some n) (visited : id ∈ w.order) (rest : Traverses t stop ids w out) :
      Traverses t stop (id :: ids) w out
  | halt {id : WidgetId} {ids : List WidgetId} {w out : Walk} {n : Node}
      (found : t.find? id = some n) (fresh : id ∉ w.order) (stops : stop n = true)
      (rest : Traverses t stop ids ((w.visit id).stopAt id) out) :
      Traverses t stop (id :: ids) w out
  | enter {id : WidgetId} {ids : List WidgetId} {w inner out : Walk} {n : Node}
      (found : t.find? id = some n) (fresh : id ∉ w.order) (through : stop n = false)
      (below : Traverses t stop n.children (w.visit id) inner)
      (rest : Traverses t stop ids inner out) : Traverses t stop (id :: ids) w out

/-- The traversal of a template from its root, which is entered whatever its kind. -/
inductive Traversal (t : Template) (root : WidgetId) (stop : Node → Bool) : Walk → Prop
  | rootless (missing : t.find? root = none) : Traversal t root stop .empty
  | rooted {n : Node} {out : Walk} (found : t.find? root = some n)
      (below : Traverses t stop n.children (Walk.empty.visit root) out) : Traversal t root stop out

section Stack

variable {t : Template} {stop : Node → Bool} {ids ids' : List WidgetId} {w out : Walk}

theorem Traverses.order_prefix (h : Traverses t stop ids w out) : w.order <+: out.order := by
  induction h with
  | done w => exact List.prefix_refl _
  | skip _ _ ih => exact ih
  | again _ _ _ ih => exact ih
  | halt _ _ _ _ ih => exact (List.prefix_append _ _).trans ih
  | enter _ _ _ _ _ below rest => exact ((List.prefix_append _ _).trans below).trans rest

/-- The stack works off the references on its top as the traversal does. -/
theorem Traverses.run_append (h : Traverses t stop ids w out) (rest : List (WidgetId × Bool)) :
    run t stop (ids.map (·, false) ++ rest) w = run t stop rest out := by
  induction h generalizing rest with
  | done w => rfl
  | skip missing _ ih =>
    rw [List.map_cons, List.cons_append, run]
    split
    · exact ih rest
    · next n found => cases missing.symm.trans found
  | again found visited _ ih =>
    rw [List.map_cons, List.cons_append, run]
    split
    · next missing => cases missing.symm.trans found
    · rw [dif_pos ((contains_iff _ _).mpr visited)]
      exact ih rest
  | halt found fresh stops _ ih =>
    rw [List.map_cons, List.cons_append, run]
    split
    · next missing => cases missing.symm.trans found
    · next m found' =>
      cases found.symm.trans found'
      rw [dif_neg ((not_contains_iff _ _).mpr fresh), if_pos (by simp [stops])]
      exact ih rest
  | enter found fresh through _ _ below behind =>
    rw [List.map_cons, List.cons_append, run]
    split
    · next missing => cases missing.symm.trans found
    · next m found' =>
      cases found.symm.trans found'
      rw [dif_neg ((not_contains_iff _ _).mpr fresh), if_neg (by simp [through])]
      exact (below _).trans (behind rest)

/-- References are traversed in parts. -/
theorem Traverses.split (h : Traverses t stop (ids ++ ids') w out) :
    ∃ mid, Traverses t stop ids w mid ∧ Traverses t stop ids' mid out := by
  induction ids generalizing w with
  | nil => exact ⟨w, .done w, h⟩
  | cons id ids ih =>
    cases h with
    | skip missing rest =>
      obtain ⟨mid, front, back⟩ := ih rest
      exact ⟨mid, .skip missing front, back⟩
    | again found visited rest =>
      obtain ⟨mid, front, back⟩ := ih rest
      exact ⟨mid, .again found visited front, back⟩
    | halt found fresh stops rest =>
      obtain ⟨mid, front, back⟩ := ih rest
      exact ⟨mid, .halt found fresh stops front, back⟩
    | enter found fresh through below rest =>
      obtain ⟨mid, front, back⟩ := ih rest
      exact ⟨mid, .enter found fresh through below front, back⟩

/-- What the stack holds is traversed when nothing on it is the root. -/
theorem traverses_run {stack : List (WidgetId × Bool)} (below : ∀ e ∈ stack, e.2 = false) :
    Traverses t stop (stack.map Prod.fst) w (run t stop stack w) := by
  fun_induction run t stop stack w with
  | case1 w => exact .done w
  | case2 w id isRoot rest missing ih =>
    exact .skip missing (ih (List.forall_mem_cons.mp below).2)
  | case3 w id isRoot rest n found visited ih =>
    have visited : id ∈ w.order := (w.contains_iff id).mp visited
    exact .again found visited (ih (List.forall_mem_cons.mp below).2)
  | case4 w id isRoot rest n found fresh halts ih =>
    have fresh : id ∉ w.order := (w.not_contains_iff id).mp fresh
    obtain ⟨-, stops⟩ := Bool.and_eq_true_iff.mp halts
    exact .halt found fresh stops (ih (List.forall_mem_cons.mp below).2)
  | case5 w id isRoot rest n found fresh goes ih =>
    have fresh : id ∉ w.order := (w.not_contains_iff id).mp fresh
    have flag : isRoot = false := below _ List.mem_cons_self
    have through : stop n = false := by simpa [flag] using goes
    have inner : ∀ e ∈ n.children.map (·, false) ++ rest, e.2 = false := by
      intro e he
      rcases List.mem_append.mp he with he | he
      · obtain ⟨child, -, rfl⟩ := List.mem_map.mp he
        rfl
      · exact below e (List.mem_cons_of_mem _ he)
    have all := ih inner
    have ids : (n.children.map (·, false) ++ rest).map Prod.fst =
        n.children ++ rest.map Prod.fst := by
      simp [Function.comp_def]
    rw [ids] at all
    obtain ⟨mid, children, behind⟩ := all.split
    exact .enter found fresh through children behind

end Stack

section Root

variable {t : Template} {root : WidgetId} {stop : Node → Bool} {out : Walk}

/-- The walk is the traversal, and there is no other. -/
theorem traversal_iff : Traversal t root stop out ↔ out = walk t root stop := by
  constructor
  · intro h
    cases h with
    | rootless missing => exact (walk_of_missing missing).symm
    | rooted found below =>
      have visited := below.run_append []
      rw [List.append_nil] at visited
      rw [walk_of_root found, visited, run]
  · rintro rfl
    cases found : t.find? root with
    | none =>
      rw [walk_of_missing found]
      exact .rootless found
    | some n =>
      have flags : ∀ e ∈ n.children.map (·, false), e.2 = false := by simp
      have below : Traverses t stop _ (Walk.empty.visit root) _ := traverses_run flags
      rw [List.map_map, ← walk_of_root found] at below
      refine .rooted found ?_
      simpa [Function.comp_def] using below

theorem traversal_walk (t : Template) (root : WidgetId) (stop : Node → Bool) :
    Traversal t root stop (walk t root stop) := traversal_iff.mpr rfl

end Root

section Reachable

/-- Whether the walk goes on below a node. -/
def Descends (root : WidgetId) (stop : Node → Bool) (id : WidgetId) (n : Node) : Prop :=
  id = root ∨ stop n = false

/-- The nodes that are reached from the root by references to children, not through a node that the
walk stops at. -/
inductive Reaches (t : Template) (root : WidgetId) (stop : Node → Bool) : WidgetId → Prop
  | root {n : Node} (found : t.find? root = some n) : Reaches t root stop root
  | child {id child : WidgetId} {n m : Node} (reached : Reaches t root stop id)
      (found : t.find? id = some n) (descends : Descends root stop id n)
      (listed : child ∈ n.children) (exist : t.find? child = some m) : Reaches t root stop child

variable {t : Template} {root : WidgetId} {stop : Node → Bool}

/-- A traversal of references from reached nodes only visits reached nodes. -/
theorem Traverses.reaches {ids : List WidgetId} {w out : Walk} (h : Traverses t stop ids w out)
    (listed : ∀ id ∈ ids, ∀ m, t.find? id = some m → Reaches t root stop id)
    (before : ∀ id ∈ w.order, Reaches t root stop id) :
    ∀ id ∈ out.order, Reaches t root stop id := by
  induction h with
  | done w => exact before
  | skip _ _ ih => exact ih (fun i hi => listed i (List.mem_cons_of_mem _ hi)) before
  | again _ _ _ ih => exact ih (fun i hi => listed i (List.mem_cons_of_mem _ hi)) before
  | halt found _ _ _ ih =>
    refine ih (fun i hi => listed i (List.mem_cons_of_mem _ hi)) ?_
    exact List.forall_mem_append.mpr
      ⟨before, List.forall_mem_singleton.mpr (listed _ List.mem_cons_self _ found)⟩
  | enter found _ through _ _ below rest =>
    have own := listed _ List.mem_cons_self _ found
    refine rest (fun i hi => listed i (List.mem_cons_of_mem _ hi)) (below ?_ ?_)
    · intro child listed m exist
      exact .child own found (Or.inr through) listed exist
    · exact List.forall_mem_append.mpr ⟨before, List.forall_mem_singleton.mpr own⟩

theorem mem_walk_iff {id : WidgetId} :
    id ∈ (walk t root stop).order ↔ Reaches t root stop id := by
  constructor
  · intro walked
    have traversal := traversal_walk t root stop
    generalize walk t root stop = w at traversal walked
    cases traversal with
    | rootless _ => cases walked
    | rooted found below =>
      refine below.reaches ?_ ?_ id walked
      · intro child listed m exist
        exact .child (.root found) found (Or.inl rfl) listed exist
      · exact List.forall_mem_singleton.mpr (.root found)
  · intro reached
    induction reached with
    | root found =>
      rw [walk_of_root found]
      exact (prefix_run _ _ _ _).subset List.mem_cons_self
    | child _ found descends listed exist ih =>
      refine mem_walk_of_child ih ?_ found listed exist
      rw [Bool.eq_false_iff, Ne, isStop_walk_iff]
      rintro ⟨-, inner, m, found', stops⟩
      cases found.symm.trans found'
      rw [descends.resolve_left inner] at stops
      cases stops

end Reachable

section Lists

variable {t : Template} {root : WidgetId} {stop : Node → Bool}

/-- Whether the walk stops at the node of an id. -/
def stopsAt (t : Template) (root : WidgetId) (stop : Node → Bool) (id : WidgetId) : Bool :=
  id != root && (t.find? id).any stop

/-- The references among these that lead to no node. -/
def dangling (t : Template) (ids : List WidgetId) : List WidgetId :=
  ids.filter fun id => (t.find? id).isNone

/-- The references to children that the walk follows below a node. -/
def followed (t : Template) (root : WidgetId) (stop : Node → Bool) (id : WidgetId) :
    List WidgetId :=
  if stopsAt t root stop id then [] else ((t.find? id).map (·.children)).getD []

theorem stopsAt_of_inner {id : WidgetId} {n : Node} (found : t.find? id = some n)
    (inner : id ≠ root) : stopsAt t root stop id = stop n := by
  simp [stopsAt, found, inner]

theorem Traverses.stops_eq {ids : List WidgetId} {w out : Walk} (h : Traverses t stop ids w out)
    (entered : root ∈ w.order) (before : w.stops = w.order.filter (stopsAt t root stop)) :
    out.stops = out.order.filter (stopsAt t root stop) := by
  induction h with
  | done w => exact before
  | skip _ _ ih => exact ih entered before
  | again _ _ _ ih => exact ih entered before
  | @halt id _ w _ n found fresh stops _ ih =>
    have inner : id ≠ root := fun e => fresh (e ▸ entered)
    refine ih (List.mem_append_left _ entered) ?_
    simp [stopAt, visit, List.filter_append, stopsAt_of_inner found inner, stops, before]
  | @enter id _ w _ _ n found fresh through belows _ below rest =>
    have inner : id ≠ root := fun e => fresh (e ▸ entered)
    have visited : root ∈ (w.visit id).order := List.mem_append_left _ entered
    refine rest (belows.order_prefix.subset visited) (below visited ?_)
    simp [visit, List.filter_append, stopsAt_of_inner found inner, through, before]

/-- A traversal skips what dangles among its references and below the nodes that it enters. -/
theorem Traverses.skipped_perm {ids : List WidgetId} {w out : Walk}
    (h : Traverses t stop ids w out) (entered : root ∈ w.order) :
    ∃ new, out.order = w.order ++ new ∧ out.skipped.Perm (w.skipped ++ (dangling t ids ++
      new.flatMap fun id => dangling t (followed t root stop id))) := by
  induction h with
  | done w => exact ⟨[], by simp, by simp [dangling]⟩
  | @skip id ids w out missing _ ih =>
    obtain ⟨new, order, skipped⟩ := ih entered
    refine ⟨new, order, ?_⟩
    have own : dangling t (id :: ids) = id :: dangling t ids := by simp [dangling, missing]
    rw [own]
    simpa [Walk.skip] using skipped
  | @again id ids w out n found _ _ ih =>
    obtain ⟨new, order, skipped⟩ := ih entered
    have own : dangling t (id :: ids) = dangling t ids := by simp [dangling, found]
    exact ⟨new, order, own ▸ skipped⟩
  | @halt id ids w out n found fresh stops _ ih =>
    obtain ⟨new, order, skipped⟩ := ih (List.mem_append_left _ entered)
    have inner : id ≠ root := fun e => fresh (e ▸ entered)
    have own : dangling t (id :: ids) = dangling t ids := by simp [dangling, found]
    have none : followed t root stop id = [] := by
      simp [followed, stopsAt_of_inner found inner, stops]
    refine ⟨id :: new, by simpa [stopAt, visit] using order, ?_⟩
    rw [own, List.flatMap_cons, none]
    exact skipped
  | @enter id ids w mid out n found fresh through belows _ below rest =>
    have inner : id ≠ root := fun e => fresh (e ▸ entered)
    have visited : root ∈ (w.visit id).order := List.mem_append_left _ entered
    obtain ⟨new, order, skipped⟩ := below visited
    obtain ⟨new', order', skipped'⟩ := rest (belows.order_prefix.subset visited)
    have own : dangling t (id :: ids) = dangling t ids := by simp [dangling, found]
    have all : followed t root stop id = n.children := by
      simp [followed, stopsAt_of_inner found inner, through, found]
    refine ⟨id :: (new ++ new'), ?_, ?_⟩
    · rw [order', order]
      simp [visit]
    · rw [own, List.flatMap_cons, all, List.flatMap_append]
      refine skipped'.trans ((skipped.append_right _).trans ?_)
      rw [List.append_assoc]
      refine List.Perm.append_left w.skipped ?_
      -- what dangles below the entered node is met before what dangles behind it
      have swap : ∀ front behind : List WidgetId, (front ++ behind).Perm (behind ++ front) :=
        fun _ _ => List.perm_append_comm
      have swapped := (swap (dangling t n.children ++
        new.flatMap fun id => dangling t (followed t root stop id)) (dangling t ids)).append_right
          (new'.flatMap fun id => dangling t (followed t root stop id))
      simpa [List.append_assoc] using swapped

theorem stops_walk :
    (walk t root stop).stops = (walk t root stop).order.filter (stopsAt t root stop) := by
  have traversal := traversal_walk t root stop
  generalize walk t root stop = w at traversal
  cases traversal with
  | rootless _ => rfl
  | rooted found below =>
    refine below.stops_eq List.mem_cons_self ?_
    simp [visit, Walk.empty, stopsAt]

theorem skipped_walk : (walk t root stop).skipped.Perm
    ((walk t root stop).order.flatMap fun id => dangling t (followed t root stop id)) := by
  have traversal := traversal_walk t root stop
  generalize walk t root stop = w at traversal
  cases traversal with
  | rootless _ => exact List.Perm.refl _
  | @rooted n _ found below =>
    obtain ⟨new, order, skipped⟩ := below.skipped_perm List.mem_cons_self
    have own : followed t root stop root = n.children := by simp [followed, stopsAt, found]
    have start : w.order = root :: new := by simpa [visit, Walk.empty] using order
    rw [start, List.flatMap_cons, own]
    simpa [visit, Walk.empty] using skipped

end Lists

end Walk

open Walk

/-- On every template, whatever its references, the walk is the recursive traversal, with the same
nodes, stops and skipped references in the same order, and there is no other. It lists each node
once, those that are reached from the root; it stops at the walked nodes of the stop kind but for
the root, and skips each reference below the others that leads nowhere as often as it stands there.
The sets that it keeps beside its lists of nodes and of stops hold the same ids as these.
-/
theorem walk_traverses (t : Template) (root : WidgetId) (stop : Node → Bool) :
    (∀ out, Traversal t root stop out ↔ out = walk t root stop) ∧
    (walk t root stop).order.Nodup ∧
    (∀ id, id ∈ (walk t root stop).order ↔ Reaches t root stop id) ∧
    (walk t root stop).stops = (walk t root stop).order.filter (stopsAt t root stop) ∧
    (walk t root stop).skipped.Perm
      ((walk t root stop).order.flatMap fun id => dangling t (followed t root stop id)) ∧
    ∀ id, ((walk t root stop).contains id = true ↔ id ∈ (walk t root stop).order) ∧
      ((walk t root stop).isStop id = true ↔ id ∈ (walk t root stop).stops) :=
  ⟨fun _ => traversal_iff, nodup_walk, fun _ => mem_walk_iff, stops_walk, skipped_walk,
    fun id => ⟨contains_iff _ id, isStop_iff _ id⟩⟩

end ListRepeater
