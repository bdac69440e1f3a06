import ListRepeater.Proofs.FullRender
import ListRepeater.Proofs.SlotBook.Restored
import Mathlib.Data.List.Induction
/-!
# What is mounted over a session

Over a run of calls what is mounted agrees with the full renders, pass by pass, exactly if every
pass leaves only cells alone that would be rendered alike. The first pass renders everything, and
each later one starts from what the pass before it left mounted.
-/
namespace ListRepeater

namespace Turn

/-- The full render of the pass. -/
def full (t : Turn) : Mounted := t.pass.fullIn t.book

/-- The cells that the second pass leaves alone would be rendered as by the first, as far as the
relation sees. -/
def Keeps (rel : Instance → Instance → Prop) (a b : Turn) : Prop :=
  ∀ x ∈ b.pass.cells, ∀ y, Pass.Carries a.pass b.pass y x →
    rel (a.pass.instanceIn a.book y) (b.pass.instanceIn b.book x)

variable {a b : Turn}

theorem Follows.pass_eq (h : b.Follows a.outcome.next a.mountedAfter) :
    b.repeater.pass a.request = a.pass :=
  congrArg (Pass.ofRequest · a.request) h.config

theorem Follows.after (h : b.Follows a.outcome.next a.mountedAfter) :
    b.repeater.After a.request := by
  have after := Repeater.after_run a.repeater a.request
  have pass : a.outcome.next.pass a.request = a.pass := rfl
  constructor
  · rw [h.shown, h.pass_eq, h.book]
    exact after.shown
  · rw [h.pass_eq, h.book]
    exact after.held

/-- In a row around a cell that is left alone a node has one slot id in both passes. -/
theorem Follows.get?_eq_of_carries (follows : b.Follows a.outcome.next a.mountedAfter) {x y : Cell}
    (hx : x ∈ b.pass.cells) (h : Pass.Carries a.pass b.pass y x) {id : WidgetId}
    (before : id ∈ a.pass.walk.order) (after : id ∈ b.pass.walk.order) :
    a.book.get? ⟨x.row.place.key, id⟩ = b.book.get? ⟨x.row.place.key, id⟩ := by
  have slotA : (⟨x.row.place.key, id⟩ : Slot) ∈ a.pass.slots := by
    rw [← h.place]
    exact Pass.slot_mem_of_walked (a.pass.mem_cells.mp h.before).1 before
  have slotB : (⟨x.row.place.key, id⟩ : Slot) ∈ b.pass.slots :=
    Pass.slot_mem_of_walked (b.pass.mem_cells.mp hx).1 after
  obtain ⟨held, got⟩ := Repeater.held_run a.repeater a.request slotA
  have start : b.repeater.book.get? ⟨x.row.place.key, id⟩ = some held := by
    rw [follows.book]
    exact got
  have kept := Repeater.get?_run_of_held b.repeater b.request slotB start
  exact got.trans kept.symm

/-- The repeater that is created anew from what the pass saved and asked for the same. -/
def recreated (t : Turn) : Repeater :=
  (Repeater.create { t.repeater.config with cloned := false } (some t.outcome.saved)).withRequest
    t.request

/-- Created anew, a repeater accepts the request. -/
theorem advance_recreated_eq (t : Turn) (checked : t.request.check = .ok ()) :
    t.recreated.advance = .ok (t.recreated.run t.request) := by
  have valid : t.recreated.validRequest = .ok t.request := by
    simp only [recreated, Repeater.withRequest, Repeater.validRequest, checked]
  rw [Repeater.advance, valid]
  rfl

/-- Created anew, a repeater makes the full render. -/
theorem advance_recreated (t : Turn) (checked : t.request.check = .ok ()) :
    ∃ out, t.recreated.advance = .ok out ∧ out.emission.instances = t.full := by
  refine ⟨t.recreated.run t.request, t.advance_recreated_eq checked, ?_⟩
  have after := Repeater.after_run t.repeater t.request
  exact Repeater.instances_recreated after rfl rfl (t.book.get?_ofSnapshot t.repeater.config.stem)

end Turn

namespace Session

variable {rel : Instance → Instance → Prop} {c : Config} {calls : List Call}

/-- What is mounted after an accepted pass agrees with the full render exactly if it agrees with
what a repeater makes that is created anew. -/
theorem agrees_recreated_iff {s : Session} {t : Turn} (ht : t ∈ s.turns calls) :
    (∃ out, t.recreated.advance = .ok out ∧ t.mountedAfter.Agrees rel out.emission.instances) ↔
      t.mountedAfter.Agrees rel t.full := by
  obtain ⟨out, advanced, full⟩ := t.advance_recreated (checked_of_turn ht)
  constructor
  · rintro ⟨out', advanced', agrees⟩
    rw [advanced, Except.ok.injEq] at advanced'
    rwa [← advanced', full] at agrees
  · intro agrees
    exact ⟨out, advanced, full.symm ▸ agrees⟩

theorem turn_sound (unminted : ∀ q, .options q ∈ calls → q.template.Unminted c.stem) {t : Turn}
    (ht : t ∈ (create c none).turns calls) : t.repeater.Grounded ∧ t.repeater.config = c ∧
      t.request.template.Unminted t.repeater.config.stem := by
  obtain ⟨s, sound, repeater, apart⟩ :=
    (sound_create c fun q => q.template.Unminted c.stem).turn unminted ht
  rw [← repeater, sound.config]
  exact ⟨sound.grounded, rfl, apart⟩

/-- One pass after another keeps the mounted instances in agreement with the full render exactly
if it keeps the cells that it leaves alone. -/
theorem agrees_next_iff (equiv : Equivalence rel)
    (unminted : ∀ q, .options q ∈ calls → q.template.Unminted c.stem) {before after : List Turn}
    {a b : Turn} (split : (create c none).turns calls = before ++ a :: b :: after)
    (agrees : a.mountedAfter.Agrees rel a.full) :
    b.mountedAfter.Agrees rel b.full ↔ a.Keeps rel b := by
  have follows := next_turn split
  obtain ⟨-, -, unmintedA⟩ := turn_sound unminted (t := a) (by simp [split])
  obtain ⟨grounded, -, unmintedB⟩ := turn_sound unminted (t := b) (by simp [split])
  have config : a.repeater.config = b.repeater.config := follows.config.symm
  have start : b.mounted.Agrees rel ((b.repeater.pass a.request).fullIn b.repeater.book) := by
    rw [follows.mounted, follows.pass_eq, follows.book]
    exact agrees
  have step := Repeater.agrees_run_iff grounded follows.after (config ▸ unmintedA) unmintedB equiv
    start
  rw [follows.pass_eq, follows.book] at step
  exact step

/-- Over a run what is mounted agrees with the full render after every pass exactly if all passes
keep the cells that they leave alone. -/
theorem agrees_iff (equiv : Equivalence rel)
    (unminted : ∀ q, .options q ∈ calls → q.template.Unminted c.stem) :
    (∀ t ∈ (create c none).turns calls, t.mountedAfter.Agrees rel t.full) ↔
      ∀ before a b after, (create c none).turns calls = before ++ a :: b :: after →
        a.Keeps rel b := by
  constructor
  · intro agrees before a b after split
    have agreesA := agrees a (by simp [split])
    exact (agrees_next_iff equiv unminted split agreesA).mp (agrees b (by simp [split]))
  · intro keeps t ht
    obtain ⟨before, after, split⟩ := List.mem_iff_append.mp ht
    clear ht
    -- from the first pass to the last: what is before `t` is either nothing or ends with a pass
    induction before using List.reverseRecOn generalizing t after with
    | nil =>
      have first := (first_turn split).1
      rw [Turn.mountedAfter, Turn.full, first.mounted]
      exact Repeater.agrees_first equiv.refl first.shown t.request
    | append_singleton before a ih =>
      rw [List.append_assoc, List.singleton_append] at split
      exact (agrees_next_iff equiv unminted split (ih a (t :: after) split)).mpr
        (keeps before a t after split)

/-- The same of what a repeater makes that is created anew, once it is known what it takes for two
passes in a row to keep what the second one leaves alone. -/
theorem agrees_recreated_run_iff (equiv : Equivalence rel)
    (unminted : ∀ q, .options q ∈ calls → q.template.Unminted c.stem) {P : Turn → Turn → Prop}
    (pairs : ∀ before a b after, (create c none).turns calls = before ++ a :: b :: after →
      (a.Keeps rel b ↔ P a b)) :
    (∀ t ∈ (create c none).turns calls, ∃ out, t.recreated.advance = .ok out ∧
      t.mountedAfter.Agrees rel out.emission.instances) ↔
      ∀ before a b after, (create c none).turns calls = before ++ a :: b :: after → P a b := by
  have run := agrees_iff equiv unminted
  constructor
  · intro agrees before a b after split
    refine (pairs before a b after split).mp (run.mp ?_ before a b after split)
    exact fun t ht => (agrees_recreated_iff ht).mp (agrees t ht)
  · intro keeps t ht
    refine (agrees_recreated_iff ht).mpr (run.mpr ?_ t ht)
    exact fun before a b after split =>
      (pairs before a b after split).mpr (keeps before a b after split)

end Session

end ListRepeater
