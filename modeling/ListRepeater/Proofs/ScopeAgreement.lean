import ListRepeater.Binding.Localize
import ListRepeater.Proofs.Sameness
/-!
# Scopes that localize alike

Localizing reads a scope only through what it makes of chains of words. Scopes that agree in what
they hold make the same of every chain, so they localize every field alike.
-/
namespace ListRepeater

/-- The rows answer every reference to them alike. -/
structure AncestorRow.ReadsLike (r r' : AncestorRow) : Prop where
  index : r.index = r'.index
  item : r.item = r'.item
  names : ∀ name, r.nameOf? name = r'.nameOf? name
  view : r.viewText = r'.viewText

structure Scope.Agrees (s s' : Scope) : Prop where
  index : s.place.index = s'.place.index
  item : s.item.expression = s'.item.expression
  names : s.names = s'.names
  view : s.view = s'.view
  ancestors : ∀ key, Option.Rel AncestorRow.ReadsLike (s.ancestor? key) (s'.ancestor? key)

/-- A row reads nothing of its place but the index across pages. -/
theorem Scope.agrees_of_index (s : Scope) (place : Place) (index : place.index = s.place.index) :
    Scope.Agrees { s with place := place } s where
  index := index
  item := rfl
  names := rfl
  view := rfl
  ancestors key := by
    show Option.Rel AncestorRow.ReadsLike (s.ancestor? key) (s.ancestor? key)
    cases s.ancestor? key with
    | none => exact .none
    | some row => exact .some ⟨rfl, rfl, fun _ => rfl, rfl⟩

namespace Scope

theorem fromAncestor_congr {r r' : AncestorRow} (h : r.ReadsLike r') (words : List String) :
    fromAncestor r words = fromAncestor r' words := by
  unfold fromAncestor
  split
  · rw [h.item]
  · rw [h.index]
  · rw [h.view]
  · rw [h.names]
  · rfl

variable {s s' : Scope}

theorem fromView_congr (h : s.Agrees s') (words : List String) :
    s.fromView words = s'.fromView words := by
  cases words with
  | nil => rw [fromView, fromView, h.view]
  | cons name tail => rw [fromView, fromView, h.names, h.view]

theorem resolve_congr (h : s.Agrees s') (words : List String) : s.resolve words = s'.resolve words := by
  cases words with
  | nil => rfl
  | cons head rest =>
    have outer : (s.ancestor? head).bind (fromAncestor · rest) =
        (s'.ancestor? head).bind (fromAncestor · rest) := by
      have rel := h.ancestors head
      generalize s.ancestor? head = a at rel
      generalize s'.ancestor? head = b at rel
      cases rel with
      | none => rfl
      | some reads => exact fromAncestor_congr reads rest
    rw [resolve, resolve, h.item, h.index, h.names, fromView_congr h, outer]

end Scope

namespace Binding

variable {s s' : Scope}

theorem localize_congr (h : s.Agrees s') (text : String) : localize s text = localize s' text := by
  have expressions : localizeExpression s = localizeExpression s' := by
    funext expr
    simp only [localizeExpression, Scope.resolve_congr h]
  rw [localize, localize, localizeChars, localizeChars, expressions]

theorem localizeField_congr (h : s.Agrees s') (v : Field) :
    localizeField s v = localizeField s' v := by
  cases v with
  | literal a => rfl
  | binding text => rw [localizeField, localizeField, localize_congr h]

theorem localizeField_same (h : s.Agrees s') {v w : Field} (same : v.same w = true) :
    (localizeField s v).same (localizeField s' w) = true := by
  cases v with
  | literal a =>
    cases w with
    | literal b => exact same
    | binding u => cases same
  | binding t =>
    cases w with
    | literal b => cases same
    | binding u =>
      have texts : t = u := by simpa [Field.same] using same
      rw [texts, localizeField, localizeField, localize_congr h]
      exact Field.same_refl _

end Binding

section Ancestors

/-- The ancestries list the widgets of every level that expose anything in the same order. -/
def SameOrder (a b : Option Ancestry) : Prop :=
  ∀ x ∈ a, ∀ y ∈ b, ∀ key r r', x.get? key = some r → y.get? key = some r' → r.exposing = r'.exposing

theorem readsLike_of_same {r r' : AncestorRow} (same : r.same r' = true)
    (order : r.exposing = r'.exposing) : r.ReadsLike r' := by
  simp only [AncestorRow.same, Bool.and_eq_true, beq_iff_eq] at same
  obtain ⟨⟨⟨index, item⟩, widgets⟩, -⟩ := same
  refine ⟨index, item, ?_, ?_⟩
  · intro name
    rw [AncestorRow.nameOf?, AncestorRow.nameOf?, Keyed.find?_eq_of_same widgets]
  · rw [AncestorRow.viewText, AncestorRow.viewText, order]

theorem readsLike_of_sameAncestry {a b : Option Ancestry} (same : sameAncestry a b = true)
    (order : SameOrder a b) (key : String) :
    Option.Rel AncestorRow.ReadsLike (a.bind (·.get? key)) (b.bind (·.get? key)) := by
  cases a with
  | none =>
    cases b with
    | none => exact .none
    | some y => cases same
  | some x =>
    cases b with
    | none => cases same
    | some y =>
      have rows : x.rows.same AncestorRow.same y.rows = true := same
      have rel := Keyed.same_iff.mp rows key
      have order := order x rfl y rfl key
      rw [Option.bind_some, Option.bind_some]
      simp only [Ancestry.get?] at order ⊢
      generalize x.rows.find? key = r at *
      generalize y.rows.find? key = r' at *
      cases rel with
      | none => exact .none
      | some same => exact .some (readsLike_of_same same (order _ _ rfl rfl))

theorem rows_same {a b : Option Ancestry} (same : sameAncestry a b = true) :
    (a.getD .empty).rows.same AncestorRow.same (b.getD .empty).rows = true := by
  cases a with
  | none =>
    cases b with
    | none => rfl
    | some y => cases same
  | some x =>
    cases b with
    | none => cases same
    | some y => exact same

/-- What instances tell of the rows around them is the same. -/
theorem views_same {a b : Option Ancestry} (same : sameAncestry a b = true) :
    ((a.map Ancestry.views).getD .empty).same AncestorView.same ((b.map Ancestry.views).getD .empty)
      = true := by
  have views : ∀ a : Option Ancestry,
      (a.map Ancestry.views).getD .empty = (a.getD .empty).views := by
    rintro (_ | a) <;> rfl
  rw [views, views]
  refine Keyed.same_map (rows_same same) fun _ r r' h => ?_
  simp only [AncestorRow.same, Bool.and_eq_true, beq_iff_eq] at h
  obtain ⟨⟨⟨index, item⟩, widgets⟩, -⟩ := h
  simp only [AncestorRow.view, AncestorView.same, index, item, beq_self_eq_true, Bool.true_and]
  refine Keyed.same_filterMap widgets ?_
  intro _ v w e
  rw [of_decide_eq_true e]

end Ancestors

end ListRepeater
