import ListRepeater.Proofs.Sessions
import ListRepeater.Sample.Lists
/-!
# Bookkeeping of what is mounted

What a pass reports suffices to keep account of the instances that are shown: it takes away those
that are gone and nothing else, and brings forth all that are new. A cell that is not rendered was
shown by the pass before under the same id, so nothing new can be missing among the patched rows.
-/
namespace ListRepeater

/-- The emission leads from the ids shown before to those shown after it. -/
structure Emission.Accounts (e : Emission) (before after : List WidgetId) : Prop where
  nodup : e.removed.Nodup
  removed : e.removed = before.filter fun id => !after.contains id
  shown : ∀ id ∈ e.instances.keys, id ∈ after
  fresh : ∀ id ∈ after, id ∉ before → id ∈ e.instances.keys
  total : ∀ id, id ∈ after ↔ (id ∈ before ∧ id ∉ e.removed) ∨ id ∈ e.instances.keys

theorem Emission.accounts_of {e : Emission} {before after : List WidgetId} (nodup : before.Nodup)
    (removed : e.removed = before.filter fun id => !after.contains id)
    (shown : ∀ id ∈ e.instances.keys, id ∈ after)
    (fresh : ∀ id ∈ after, id ∉ before → id ∈ e.instances.keys) : e.Accounts before after where
  nodup := removed ▸ nodup.filter _
  removed := removed
  shown := shown
  fresh := fresh
  total := by
    intro id
    have gone : id ∈ e.removed ↔ id ∈ before ∧ id ∉ after := by simp [removed]
    constructor
    · intro h
      by_cases old : id ∈ before
      · exact Or.inl ⟨old, fun h' => (gone.mp h').2 h⟩
      · exact Or.inr (fresh id h old)
    · rintro (⟨old, kept⟩ | made)
      · by_cases h : id ∈ after
        · exact h
        · exact absurd (gone.mpr ⟨old, h⟩) kept
      · exact shown id made

namespace Repeater

variable {r : Repeater}

theorem eraseDups_of_nodup {ids : List WidgetId} (h : ids.Nodup) : ids.eraseDups = ids := by
  induction ids with
  | nil => rfl
  | cons id rest ih =>
    obtain ⟨fresh, nodup⟩ := List.nodup_cons.mp h
    have others : rest.filter (fun other => !other == id) = rest := by
      apply List.filter_eq_self.mpr
      intro other hother
      have ne : other ≠ id := fun e => fresh (e ▸ hother)
      simpa using ne
    rw [List.eraseDups_cons, others, ih nodup]

/-- The ids that a repeater shows are distinct, given that no authored id looks minted. -/
theorem nodup_shownIds (grounded : r.Grounded) {q : Request} (after : r.After q)
    (unminted : q.template.Unminted r.config.stem) : r.shownIds.Nodup := by
  rw [after.shownIds_eq]
  refine List.Nodup.map_on ?_ (Pass.nodup_cells r.config q)
  intro x hx y hy e
  exact Pass.cell_eq_of_idIn grounded.balanced after.held (grounded.stem.symm ▸ unminted) hx hy e

theorem removed_run_eq (q : Request) (nodup : r.shownIds.Nodup) :
    (r.run q).emission.removed =
      r.shownIds.filter fun id => !(r.run q).next.shownIds.contains id := by
  have before : ((r.shown.map fun s => s.rows.flatMap (·.instanceIds)).getD []) = r.shownIds := by
    rw [shownIds, shownRows]
    cases r.shown <;> rfl
  rw [removed_run, removed, before, Pass.instanceIds_shownRowsIn, ← shownIds_run]
  exact eraseDups_of_nodup (nodup.filter _)

theorem keys_instances_run (q : Request) (id : WidgetId) :
    id ∈ (r.run q).emission.instances.keys ↔ ∃ x ∈ (r.pass q).cells,
      (r.pass q).emits (r.run q).next.book ((r.pass q).compare r.shown) x = true ∧
        (r.pass q).idIn (r.run q).next.book x = id := by
  rw [instances_run, Pass.instancesIn, Keyed.mem_keys_ofList]
  simp only [List.map_map, List.mem_map, List.mem_filter, and_assoc]
  rfl

/-- A cell that a pass does not render shows an id that was shown before. -/
theorem mem_shownIds_of_not_emits {q : Request}
    (known : r.shown = none ∨ ∃ q₀, r.After q₀) {x : Cell} (hx : x ∈ (r.pass q).cells)
    (still : (r.pass q).emits (r.run q).next.book ((r.pass q).compare r.shown) x = false) :
    (r.pass q).idIn (r.run q).next.book x ∈ r.shownIds := by
  rcases known with first | ⟨q₀, after⟩
  · rw [first, Pass.emits_of_first] at still
    cases still
  · rw [after.shown, Pass.emits_eq_false_iff hx] at still
    obtain ⟨y, carries⟩ := still
    rw [after.shownIds_eq, ← idIn_of_carries after q hx carries]
    exact List.mem_map_of_mem carries.before

/-- One pass keeps account of what is shown. -/
theorem accounts_run (grounded : r.Grounded)
    (known : r.shown = none ∨ ∃ q₀, q₀.template.Unminted r.config.stem ∧ r.After q₀)
    (q : Request) : (r.run q).emission.Accounts r.shownIds (r.run q).next.shownIds := by
  have nodup : r.shownIds.Nodup := by
    rcases known with first | ⟨q₀, unminted, after⟩
    · rw [shownIds, shownRows, first]
      exact List.nodup_nil
    · exact nodup_shownIds grounded after unminted
  have after := shownIds_run r q
  refine Emission.accounts_of nodup (removed_run_eq q nodup) ?_ ?_
  · intro id made
    obtain ⟨x, hx, -, rfl⟩ := (keys_instances_run q id).mp made
    rw [after]
    exact List.mem_map_of_mem hx
  · intro id shown fresh
    rw [after] at shown
    obtain ⟨x, hx, rfl⟩ := List.mem_map.mp shown
    refine (keys_instances_run q _).mpr ⟨x, hx, ?_, rfl⟩
    by_contra still
    have known : r.shown = none ∨ ∃ q₀, r.After q₀ := by
      rcases known with first | ⟨q₀, -, after⟩
      · exact Or.inl first
      · exact Or.inr ⟨q₀, after⟩
    exact fresh (mem_shownIds_of_not_emits known hx (by simpa using still))

end Repeater

namespace Session

variable {s : Session}

/-- A refused call may as well not have been made. -/
theorem run_of_refuses {before : List Call} (h : (s.run before).Refuses) (later : List Call) :
    s.run (before ++ .generate :: later) = s.run (before ++ later) ∧
      s.turns (before ++ .generate :: later) = s.turns (before ++ later) := by
  constructor
  · rw [run_append, run_append, run, List.foldl_cons, step_of_refuses h]
    rfl
  · rw [turns_append, turns_append, turns, turn?_of_refuses h, step_of_refuses h]
    rfl

/-- Options that are refused may as well not have been given, once others are. -/
theorem run_of_refused_options {q : Request} {e : RequestError} (h : q.check = .error e)
    (before : List Call) (q' : Request) (later : List Call) :
    s.run (before ++ .options q :: .generate :: .options q' :: later) =
        s.run (before ++ .options q' :: later) ∧
      s.turns (before ++ .options q :: .generate :: .options q' :: later) =
        s.turns (before ++ .options q' :: later) := by
  have refuses := refuses_options (s := s.run before) h
  constructor
  · rw [run_append, run_append, run, List.foldl_cons, List.foldl_cons, step_of_refuses refuses]
    rfl
  · rw [turns_append, turns_append, turns, turns, turn?_of_refuses refuses, step_of_refuses refuses]
    rfl

/-- Over any run of calls each accepted pass keeps account of what is shown, and what is refused
leaves no trace in what comes later. -/
theorem accounts (c : Config) (calls : List Call)
    (unminted : ∀ q, .options q ∈ calls → q.template.Unminted c.stem) :
    (∀ t ∈ (create c none).turns calls, t.outcome.emission.Accounts t.idsBefore t.idsAfter) ∧
    (∀ before later, calls = before ++ .generate :: later →
      ((create c none).run before).Refuses →
        (create c none).run calls = (create c none).run (before ++ later) ∧
        (create c none).turns calls = (create c none).turns (before ++ later)) ∧
    (∀ before q q' later e, calls = before ++ .options q :: .generate :: .options q' :: later →
      q.check = .error e →
        (create c none).run calls = (create c none).run (before ++ .options q' :: later) ∧
        (create c none).turns calls =
          (create c none).turns (before ++ .options q' :: later)) := by
  refine ⟨?_, ?_, ?_⟩
  · intro t ht
    obtain ⟨s, sound, repeater, -⟩ :=
      (sound_create c fun q => q.template.Unminted c.stem).turn unminted ht
    rw [Turn.outcome, Turn.idsBefore, Turn.idsAfter, Turn.outcome, ← repeater]
    refine Repeater.accounts_run sound.grounded ?_ t.request
    rw [sound.config]
    exact sound.shown
  · rintro before later rfl refuses
    exact run_of_refuses refuses later
  · rintro before q q' later e rfl refused
    exact run_of_refused_options refused before q' later

/-- Asks too early, then for pages without rows, and then for the first and the second page. -/
def pagingCalls : List Call :=
  let q : Request :=
    { Request.blank "" Sample.simple.mount Sample.simple.root Sample.simple.template with
      records := Sample.records
      keys := Sample.idKeys Sample.records
      pageSize := 3 }
  [.generate, .options { q with pageSize := 0 }, .generate, .options q, .generate,
    .options { q with pageNo := 2 }, .generate]

theorem accounts_pagingCalls :
    (∀ q, .options q ∈ pagingCalls → q.template.Unminted Config.standard.stem) ∧
    ((create .standard none).turns pagingCalls).length = 2 ∧
    ((create .standard none).turns pagingCalls).map (·.outcome.emission.instances.size) = [18, 6] ∧
    ((create .standard none).turns pagingCalls).map (·.outcome.emission.removed.length) = [0, 12] ∧
    ∀ t ∈ (create .standard none).turns pagingCalls,
      t.outcome.emission.Accounts t.idsBefore t.idsAfter := by
  have unminted : ∀ q, .options q ∈ pagingCalls → q.template.Unminted Config.standard.stem :=
    Call.unminted_of_apart (by decide)
  refine ⟨unminted, rfl, by decide +kernel, by decide +kernel, ?_⟩
  exact (accounts .standard pagingCalls unminted).1

end Session

end ListRepeater
