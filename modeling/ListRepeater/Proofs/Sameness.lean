import ListRepeater.Instance
import ListRepeater.Proofs.KeyedMaps
/-!
# Sameness

The comparisons that see neither the order of maps nor the sign of a zero are equivalences.
-/
namespace ListRepeater

namespace Json

theorem same_refl (a : Json) : a.same a = true := decide_eq_true rfl

theorem same_symm {a b : Json} (h : a.same b = true) : b.same a = true :=
  decide_eq_true (of_decide_eq_true h).symm

theorem same_trans {a b c : Json} (hab : a.same b = true) (hbc : b.same c = true) :
    a.same c = true :=
  decide_eq_true ((of_decide_eq_true hab).trans (of_decide_eq_true hbc))

end Json

namespace Field

theorem same_refl (a : Field) : a.same a = true := by
  cases a with
  | literal v => exact v.same_refl
  | binding t => exact beq_self_eq_true t

theorem same_symm {a b : Field} (h : a.same b = true) : b.same a = true := by
  cases a with
  | literal v =>
    cases b with
    | literal w => exact Json.same_symm h
    | binding u => cases h
  | binding t =>
    cases b with
    | literal w => cases h
    | binding u =>
      rw [same, beq_iff_eq] at h ⊢
      exact h.symm

theorem same_trans {a b c : Field} (hab : a.same b = true) (hbc : b.same c = true) :
    a.same c = true := by
  cases b with
  | literal w =>
    cases a with
    | binding t => cases hab
    | literal v =>
      cases c with
      | binding u => cases hbc
      | literal z => exact Json.same_trans hab hbc
  | binding u =>
    cases a with
    | literal v => cases hab
    | binding t =>
      cases c with
      | literal z => cases hbc
      | binding z =>
        rw [same, beq_iff_eq] at hab hbc ⊢
        exact hab.trans hbc

end Field

namespace AncestorRow

theorem same_refl (a : AncestorRow) : a.same a = true := by
  simp only [same, Completion.same, beq_self_eq_true, Bool.and_eq_true, Json.same_refl, true_and,
    and_true]
  exact Keyed.same_refl (fun _ : AncestorWidget => decide_eq_true rfl) _

theorem same_symm {a b : AncestorRow} (h : a.same b = true) : b.same a = true := by
  simp only [same, Completion.same, Bool.and_eq_true, beq_iff_eq] at h ⊢
  obtain ⟨⟨⟨index, item⟩, widgets⟩, record, view⟩ := h
  refine ⟨⟨⟨index.symm, item.symm⟩, ?_⟩, Json.same_symm record, view.symm⟩
  exact Keyed.same_symm (fun x y h => decide_eq_true (of_decide_eq_true h).symm) widgets

theorem same_trans {a b c : AncestorRow} (hab : a.same b = true) (hbc : b.same c = true) :
    a.same c = true := by
  simp only [same, Completion.same, Bool.and_eq_true, beq_iff_eq] at hab hbc ⊢
  obtain ⟨⟨⟨index, item⟩, widgets⟩, record, view⟩ := hab
  obtain ⟨⟨⟨index', item'⟩, widgets'⟩, record', view'⟩ := hbc
  refine ⟨⟨⟨index.trans index', item.trans item'⟩, ?_⟩, Json.same_trans record record',
    view.trans view'⟩
  exact Keyed.same_trans
    (fun x y z h h' => decide_eq_true ((of_decide_eq_true h).trans (of_decide_eq_true h')))
    widgets widgets'

end AncestorRow

section Ancestry

theorem sameAncestry_refl (a : Option Ancestry) : sameAncestry a a = true := by
  cases a with
  | none => rfl
  | some a => exact Keyed.same_refl AncestorRow.same_refl a.rows

theorem sameAncestry_symm {a b : Option Ancestry} (h : sameAncestry a b = true) :
    sameAncestry b a = true := by
  cases a with
  | none =>
    cases b with
    | none => rfl
    | some b => cases h
  | some a =>
    cases b with
    | none => cases h
    | some b =>
      have h : a.rows.same AncestorRow.same b.rows = true := h
      exact Keyed.same_symm @AncestorRow.same_symm h

theorem sameAncestry_trans {a b c : Option Ancestry} (hab : sameAncestry a b = true)
    (hbc : sameAncestry b c = true) : sameAncestry a c = true := by
  cases b with
  | none =>
    cases a with
    | some a => cases hab
    | none => exact hbc
  | some b =>
    cases a with
    | none => cases hab
    | some a =>
      cases c with
      | none => cases hbc
      | some c =>
        have hab : a.rows.same AncestorRow.same b.rows = true := hab
        have hbc : b.rows.same AncestorRow.same c.rows = true := hbc
        exact Keyed.same_trans @AncestorRow.same_trans hab hbc

end Ancestry

/-- Equality of what an instance tells of an ancestor row. -/
def AncestorView.same (a b : AncestorView) : Bool :=
  a.item == b.item && a.index == b.index && a.view.same (fun s t => decide (s = t)) b.view

namespace AncestorView

theorem same_refl (a : AncestorView) : a.same a = true := by
  simp only [same, beq_self_eq_true, Bool.and_eq_true, true_and]
  exact Keyed.same_refl (fun _ : String => decide_eq_true rfl) _

theorem same_symm {a b : AncestorView} (h : a.same b = true) : b.same a = true := by
  simp only [same, Bool.and_eq_true, beq_iff_eq] at h ⊢
  obtain ⟨⟨item, index⟩, view⟩ := h
  refine ⟨⟨item.symm, index.symm⟩, ?_⟩
  exact Keyed.same_symm (fun x y h => decide_eq_true (of_decide_eq_true h).symm) view

theorem same_trans {a b c : AncestorView} (hab : a.same b = true) (hbc : b.same c = true) :
    a.same c = true := by
  simp only [same, Bool.and_eq_true, beq_iff_eq] at hab hbc ⊢
  obtain ⟨⟨item, index⟩, view⟩ := hab
  obtain ⟨⟨item', index'⟩, view'⟩ := hbc
  refine ⟨⟨item.trans item', index.trans index'⟩, ?_⟩
  exact Keyed.same_trans
    (fun x y z h h' => decide_eq_true ((of_decide_eq_true h).trans (of_decide_eq_true h')))
    view view'

end AncestorView

namespace Instance

/-- What it takes for two instances to be the same, field by field. -/
structure Same (a b : Instance) : Prop where
  id : a.id = b.id
  slotId : a.slotId = b.slotId
  name : a.name = b.name
  templateId : a.templateId = b.templateId
  templateName : a.templateName = b.templateName
  kind : a.kind = b.kind
  parent : a.parent = b.parent
  children : a.children = b.children
  rowIndex : a.rowIndex = b.rowIndex
  viewIndex : a.viewIndex = b.viewIndex
  item : a.item.same b.item = true
  view : a.view.same b.view = true
  ancestors : a.ancestors.same AncestorView.same b.ancestors = true
  props : a.props.same Field.same b.props = true
  locks : a.locks = b.locks
  handles : a.handles = b.handles
  level : a.level = b.level
  ancestry : sameAncestry a.ancestry b.ancestry = true
  stem : a.stem = b.stem

theorem same_iff {a b : Instance} : a.same b = true ↔ a.Same b := by
  simp only [same, Bool.and_eq_true, beq_iff_eq, and_assoc]
  constructor
  · rintro ⟨id, slotId, name, templateId, templateName, kind, parent, children, rowIndex, viewIndex,
      item, view, ancestors, props, locks, handles, level, ancestry, stem⟩
    exact ⟨id, slotId, name, templateId, templateName, kind, parent, children, rowIndex, viewIndex,
      item, view, ancestors, props, locks, handles, level, ancestry, stem⟩
  · intro h
    exact ⟨h.id, h.slotId, h.name, h.templateId, h.templateName, h.kind, h.parent, h.children,
      h.rowIndex, h.viewIndex, h.item, h.view, h.ancestors, h.props, h.locks, h.handles, h.level,
      h.ancestry, h.stem⟩

theorem same_refl (a : Instance) : a.same a = true :=
  same_iff.mpr
    { id := rfl, slotId := rfl, name := rfl, templateId := rfl, templateName := rfl, kind := rfl
      parent := rfl, children := rfl, rowIndex := rfl, viewIndex := rfl
      item := a.item.same_refl
      view := a.view.same_refl
      ancestors := Keyed.same_refl AncestorView.same_refl _
      props := Keyed.same_refl Field.same_refl _
      locks := rfl, handles := rfl, level := rfl
      ancestry := sameAncestry_refl _
      stem := rfl }

theorem same_symm {a b : Instance} (h : a.same b = true) : b.same a = true := by
  have h := same_iff.mp h
  exact same_iff.mpr
    { id := h.id.symm, slotId := h.slotId.symm, name := h.name.symm
      templateId := h.templateId.symm, templateName := h.templateName.symm, kind := h.kind.symm
      parent := h.parent.symm, children := h.children.symm
      rowIndex := h.rowIndex.symm, viewIndex := h.viewIndex.symm
      item := Field.same_symm h.item
      view := Field.same_symm h.view
      ancestors := Keyed.same_symm @AncestorView.same_symm h.ancestors
      props := Keyed.same_symm @Field.same_symm h.props
      locks := h.locks.symm, handles := h.handles.symm, level := h.level.symm
      ancestry := sameAncestry_symm h.ancestry
      stem := h.stem.symm }

theorem same_trans {a b c : Instance} (hab : a.same b = true) (hbc : b.same c = true) :
    a.same c = true := by
  have h := same_iff.mp hab
  have h' := same_iff.mp hbc
  exact same_iff.mpr
    { id := h.id.trans h'.id, slotId := h.slotId.trans h'.slotId, name := h.name.trans h'.name
      templateId := h.templateId.trans h'.templateId
      templateName := h.templateName.trans h'.templateName, kind := h.kind.trans h'.kind
      parent := h.parent.trans h'.parent, children := h.children.trans h'.children
      rowIndex := h.rowIndex.trans h'.rowIndex, viewIndex := h.viewIndex.trans h'.viewIndex
      item := Field.same_trans h.item h'.item
      view := Field.same_trans h.view h'.view
      ancestors := Keyed.same_trans @AncestorView.same_trans h.ancestors h'.ancestors
      props := Keyed.same_trans @Field.same_trans h.props h'.props
      locks := h.locks.trans h'.locks, handles := h.handles.trans h'.handles
      level := h.level.trans h'.level
      ancestry := sameAncestry_trans h.ancestry h'.ancestry
      stem := h.stem.trans h'.stem }

theorem same_equivalence : Equivalence fun a b : Instance => a.same b = true :=
  ⟨same_refl, same_symm, same_trans⟩

end Instance

end ListRepeater
