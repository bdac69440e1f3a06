import ListRepeater.Proofs.Fingerprints
import ListRepeater.Proofs.KeptInstances
import ListRepeater.Proofs.MountedRuns
import ListRepeater.Sample.Lists
/-!
# Incremental passes and full renders

A run in which every pass resets what the one before it showed, or keeps the shape of its rows,
leaves a client with what a full render of the latest request gives. The cells that a pass leaves
alone would be rendered as before, since all that their instances depend on was compared: the shape
for ids, names and views, the node, and the written form of the record. The one thing that the
comparison of ancestors does not see is the order in which a level lists its widgets, and that is
the order in which the view of the level spells them out. An edit that a hash of the record or of
the shape misses would stay unseen as well: that hashes do not collide is taken for granted.
-/
namespace ListRepeater

/-- The page number of a list with pages, the list name, the ancestors, the canvas or the row
container differ. -/
def Pass.Resets (p₀ p : Pass) : Prop :=
  (p.scrolls = false ∧ p₀.request.pageNo ≠ p.request.pageNo) ∨ p₀.listName ≠ p.listName ∨
    sameAncestry p₀.request.ancestry p.request.ancestry = false ∨
    p₀.request.mount ≠ p.request.mount ∨ p₀.request.root ≠ p.request.root

instance (p₀ p : Pass) : Decidable (p₀.Resets p) := inferInstanceAs (Decidable (_ ∨ _))

/-- This is what a pass tests on what is remembered of the pass before. -/
theorem Pass.isReset_shownIn_iff (p₀ p : Pass) (b : SlotBook) :
    p.isReset (some (p₀.shownIn b)) = true ↔ p₀.Resets p := by
  rw [← Bool.not_eq_false, isReset_shownIn_eq_false_iff, Resets]
  simp only [not_and_or, not_or, Bool.not_eq_true, ne_eq]

theorem Pass.Carries.not_resets {p₀ p : Pass} {x y : Cell} (h : Carries p₀ p y x) :
    ¬p₀.Resets p := by
  have kept : p.isReset (some (p₀.shownIn (.empty ""))) = false :=
    isReset_shownIn_eq_false_iff.mpr ⟨h.page, h.listName, h.ancestry, h.mount, h.root⟩
  rw [← isReset_shownIn_iff p₀ p (.empty ""), kept]
  exact Bool.false_ne_true

namespace Turn

variable {a b : Turn}

/-- A node that is left alone is a list of its own in both passes or in neither. -/
theorem Follows.isStop_congr (follows : b.Follows a.outcome.next a.mountedAfter) {x y : Cell}
    (hx : x ∈ b.pass.cells) (h : Pass.Carries a.pass b.pass y x) :
    a.pass.walk.isStop y.id = b.pass.walk.isStop x.id := by
  rw [← follows.pass_eq] at h ⊢
  exact Pass.isStop_congr hx h

/-- A pass over rows of the same shape keeps the cells that it leaves alone. -/
theorem keeps_of_shape (follows : b.Follows a.outcome.next a.mountedAfter)
    (ownA : a.request.template.OwnKeyed) (ownB : b.request.template.OwnKeyed)
    (shape : a.pass.shape = b.pass.shape) (order : SameOrder a.request.ancestry b.request.ancestry) :
    a.Keeps (fun i j => i.same j = true) b := by
  intro x hx y h
  have passA : a.pass = Pass.ofRequest b.repeater.config a.request := follows.pass_eq.symm
  have walked : a.pass.walk.order = b.pass.walk.order := by
    rw [Pass.order_eq_shape (c := a.repeater.config) ownA,
      Pass.order_eq_shape (c := b.repeater.config) ownB]
    exact congrArg (List.map (·.1)) shape
  have slots : ∀ id ∈ b.pass.walk.order,
      a.book.get? ⟨x.row.place.key, id⟩ = b.book.get? ⟨x.row.place.key, id⟩ := by
    intro id hid
    exact follows.get?_eq_of_carries hx h (walked ▸ hid) hid
  have record : y.row.record.same x.row.record = true := by
    rw [fingerprint_injective h.record]
    exact Json.same_refl _
  rw [passA] at shape h ⊢
  exact Pass.instanceIn_same ownA ownB shape order hx h slots record

end Turn

namespace Session

/-- Over any run in which every pass resets what was shown or keeps the shape of the rows and the
order in the levels around them, what is mounted after each pass is what a repeater makes that is
created anew from the ids saved by the pass and asked for the same. The passes compare records and
shapes themselves, as do those that compare hashes unless two of these collide. -/
theorem mounted_same_recreated (c : Config) (calls : List Call)
    (unminted : ∀ q, .options q ∈ calls → q.template.Unminted c.stem)
    (own : ∀ q, .options q ∈ calls → q.template.OwnKeyed)
    (steady : ∀ before a b after, (create c none).turns calls = before ++ a :: b :: after →
      a.pass.Resets b.pass ∨
        a.pass.shape = b.pass.shape ∧ SameOrder a.request.ancestry b.request.ancestry) :
    ∀ t ∈ (create c none).turns calls, ∃ out, t.recreated.advance = .ok out ∧
      t.mountedAfter.same Instance.same out.emission.instances = true := by
  have owned : ∀ t ∈ (create c none).turns calls, t.request.template.OwnKeyed := fun _ ht =>
    request_of_turn (P := fun q => q.template.OwnKeyed) own ht
  have keeps : ∀ before a b after, (create c none).turns calls = before ++ a :: b :: after →
      a.Keeps (fun i j => i.same j = true) b := by
    intro before a b after split x hx y h
    have ownA := owned a (by simp [split])
    have ownB := owned b (by simp [split])
    rcases steady before a b after split with resets | ⟨shape, order⟩
    · exact (h.not_resets resets).elim
    · exact Turn.keeps_of_shape (next_turn split) ownA ownB shape order x hx y h
  have agrees := (agrees_iff Instance.same_equivalence unminted).mpr keeps
  intro t ht
  obtain ⟨out, advanced, full⟩ := t.advance_recreated (checked_of_turn ht)
  refine ⟨out, advanced, ?_⟩
  rw [full]
  exact Keyed.same_iff.mpr (agrees t ht)

/-- Lists the records the other way round and edits a text of the row, and then turns the page. -/
def editingCalls : List Call :=
  let q : Request :=
    { Request.blank "" Sample.simple.mount Sample.simple.root Sample.simple.template with
      records := Sample.records
      keys := Sample.idKeys Sample.records
      pageSize := 3 }
  let text := Sample.node Sample.firstText Sample.simpleCanvas "Text1" "TEXT_WIDGET" []
  let edited : Request :=
    { q with
      records := Sample.records.reverse
      template := q.template.put (Sample.withText text "text" (mustache "currentView")) }
  [.options q, .generate, .options edited, .generate, .options { edited with pageNo := 2 },
    .generate]

theorem mounted_same_editingCalls :
    (∀ q, .options q ∈ editingCalls → q.template.Unminted Config.standard.stem) ∧
    (∀ q, .options q ∈ editingCalls → q.template.OwnKeyed) ∧
    (∀ before a b after, (create .standard none).turns editingCalls = before ++ a :: b :: after →
      a.pass.Resets b.pass ∨
        a.pass.shape = b.pass.shape ∧ SameOrder a.request.ancestry b.request.ancestry) ∧
    ((create .standard none).turns editingCalls).length = 3 ∧
    ∀ t ∈ (create .standard none).turns editingCalls, ∃ out, t.recreated.advance = .ok out ∧
      t.mountedAfter.same Instance.same out.emission.instances = true := by
  have unminted : ∀ q, .options q ∈ editingCalls → q.template.Unminted Config.standard.stem :=
    Call.unminted_of_apart (by decide)
  have own : ∀ q, .options q ∈ editingCalls → q.template.OwnKeyed :=
    Call.ownKeyed_of_entries (by decide)
  have pairs : ((create .standard none).turns editingCalls).IsChain fun a b =>
      a.request.ancestry = none ∧ (a.pass.Resets b.pass ∨ a.pass.shape = b.pass.shape) := by
    decide +kernel
  have steady : ∀ before a b after,
      (create .standard none).turns editingCalls = before ++ a :: b :: after →
        a.pass.Resets b.pass ∨
          a.pass.shape = b.pass.shape ∧ SameOrder a.request.ancestry b.request.ancestry := by
    intro before a b after split
    obtain ⟨outermost, kept⟩ := List.isChain_iff_forall_rel_of_append_cons_cons.mp pairs split
    have order : SameOrder a.request.ancestry b.request.ancestry := by
      intro x hx
      rw [outermost] at hx
      cases hx
    exact kept.imp id fun shape => ⟨shape, order⟩
  exact ⟨unminted, own, steady, by decide +kernel,
    mounted_same_recreated .standard editingCalls unminted own steady⟩

/-- A list in the rows of an outermost list. -/
def innerConfig : Config := { Config.standard with level := 2 }

/-- The row of an outermost list that holds these texts. -/
def outerRow (texts : List String) : AncestorRow where
  index := 0
  item := mustache "Outer.listData[0]"
  widgets := .ofList (texts.map fun name =>
    (name,
      { exposed := "text: " ++ name ++ ".text"
        rowIndex := 0
        viewIndex := 0
        instanceId := ⟨name⟩
        instanceName := name
        templateId := ⟨name⟩
        templateName := name
        kind := "TEXT_WIDGET" }))
  completion := ⟨.null, ""⟩

/-- Shows what the outer row holds, and shows it again with its texts listed the other way round. -/
def reorderingCalls : List Call :=
  let container := Node.plain ⟨"row"⟩ "Row" "CONTAINER_WIDGET"
  let template := [Sample.withText container "title" (mustache "level_1.currentView")]
  let q (texts : List String) : Request :=
    { Request.blank "" ⟨"main"⟩ ⟨"row"⟩ (.ofNodes template) with
      records := [.null]
      keys := [.ofNat 0]
      ancestry := some (.extend none 1 (outerRow texts)) }
  [.options (q ["Text1", "Text2"]), .generate, .options (q ["Text2", "Text1"]), .generate]

/-- Ancestors compare equal in any order of their widgets, but not so what is made of them. -/
theorem not_mounted_same_reordered :
    ¬∀ (c : Config) (calls : List Call),
      (∀ q, .options q ∈ calls → q.template.Unminted c.stem) →
      (∀ q, .options q ∈ calls → q.template.OwnKeyed) →
      (∀ before a b after, (create c none).turns calls = before ++ a :: b :: after →
        a.pass.Resets b.pass ∨ a.pass.shape = b.pass.shape) →
      ∀ t ∈ (create c none).turns calls, ∃ out, t.recreated.advance = .ok out ∧
        t.mountedAfter.same Instance.same out.emission.instances = true := by
  intro claim
  have steady : ((create innerConfig none).turns reorderingCalls).IsChain fun a b =>
      a.pass.shape = b.pass.shape := by
    decide +kernel
  have same := claim innerConfig reorderingCalls
    (Call.unminted_of_apart (by decide)) (Call.ownKeyed_of_entries (by decide))
    (fun _ _ _ _ split =>
      .inr (List.isChain_iff_forall_rel_of_append_cons_cons.mp steady split))
  have differs : ∃ t ∈ (create innerConfig none).turns reorderingCalls,
      t.mountedAfter.same Instance.same t.full = false := by
    decide +kernel
  obtain ⟨t, ht, differs⟩ := differs
  obtain ⟨out, advanced, same⟩ := same t ht
  obtain ⟨out', advanced', full⟩ := t.advance_recreated (checked_of_turn ht)
  rw [advanced, Except.ok.injEq] at advanced'
  rw [advanced', full, differs] at same
  cases same

end Session

end ListRepeater
