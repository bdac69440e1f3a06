import ListRepeater.Proofs.RowShape
/-!
# Instances of the cells that a pass leaves alone

Field by field, the instance of a cell that is carried over from the pass before is what it was if
the two rows are laid out alike.
-/
namespace ListRepeater

namespace Pass

variable {c : Config} {q₀ q : Request} {b₀ b : SlotBook} {x y : Cell}

section Fields

variable {p₀ p : Pass} {l l' : RowLayout} {v w : RowWidget}

theorem parentOf_congr (alike : l.Alike l') (root : p₀.isContainer v = p.isContainer w)
    (mount : p₀.request.mount = p.request.mount) (parent : v.node.parent = w.node.parent) :
    p₀.parentOf l v = p.parentOf l' w := by
  have instances : (fun id => (l.instanceId? id).getD id) = fun id => (l'.instanceId? id).getD id := by
    funext id
    rw [alike.instanceId?]
  rw [parentOf, parentOf, root, mount, parent, instances]

theorem childrenOf_congr (alike : l.Alike l') (nested : p₀.isNestedList v = p.isNestedList w)
    (children : v.node.children = w.node.children) : p₀.childrenOf l v = p.childrenOf l' w := by
  have instances : l.instanceId? = l'.instanceId? := funext alike.instanceId?
  rw [childrenOf, childrenOf, nested, children, instances]

theorem propsOf_same {s s' : Scope} (scopes : s.Agrees s') (alike : l.Alike l')
    (root : p₀.isContainer v = p.isContainer w)
    (props : v.node.props.same Field.same w.node.props = true) :
    (p₀.propsOf l s v).same Field.same (p.propsOf l' s' w) = true := by
  have localized := Keyed.same_map props fun _ _ _ h => Binding.localizeField_same scopes h
  rw [propsOf, propsOf, root, alike.view]
  split
  · exact Keyed.same_insert localized "data" (Field.same_refl _)
  · exact localized

theorem item_same {place place' : Place} (records : place.record = place'.record)
    (listName : p₀.listName = p.listName) {record record' : Json}
    (same : record.same record' = true) (editable : Bool) :
    (p₀.item place record editable).toField.same (p.item place' record' editable).toField = true := by
  cases editable with
  | true => exact same
  | false =>
    rw [item, item, listName, records]
    exact Field.same_refl _

theorem scope_agrees (alike : l.Alike l') {place place' : Place} (places : place = place')
    (listName : p₀.listName = p.listName) {record record' : Json}
    (written : fingerprint record = fingerprint record') (editable : Bool)
    (ancestry : sameAncestry p₀.request.ancestry p.request.ancestry = true)
    (order : SameOrder p₀.request.ancestry p.request.ancestry) :
    (p₀.scope l place record editable).Agrees (p.scope l' place' record' editable) where
  index := congrArg Place.index places
  item := by
    have written : record.compact = record'.compact := written
    cases editable with
    | true => simp only [scope, item, RowItem.expression, written, if_true]
    | false => simp [scope, item, RowItem.expression, listName, places]
  names := alike.names
  view := alike.view
  ancestors := readsLike_of_sameAncestry ancestry order

theorem ancestorRow_widgets (config : p₀.config = p.config) (alike : l.Alike l')
    {place place' : Place} (places : place = place') (record record' : Json) :
    (p₀.ancestorRow l place record).widgets = (p.ancestorRow l' place' record').widgets := by
  let entry (w : RowWidget) : String × AncestorWidget :=
    (w.node.name,
      { exposed := p.config.exposure.listing w.node.kind w.name
        rowIndex := place'.index
        viewIndex := place'.view
        instanceId := w.instanceId
        instanceName := w.name
        templateId := w.templateId
        templateName := w.node.name
        kind := w.node.kind })
  -- an entry tells no more of a widget than what is left of it when it is plain
  have plain : ∀ ws : List RowWidget, ws.map entry = (ws.map RowWidget.plain).map entry := by
    intro ws
    rw [List.map_map]
    rfl
  rw [ancestorRow, ancestorRow, config, places]
  show Keyed.ofList (l.widgets.map entry) = Keyed.ofList (l'.widgets.map entry)
  rw [plain, alike.widgets, ← plain]

theorem ancestorRow_same (config : p₀.config = p.config) (alike : l.Alike l')
    {place place' : Place} (places : place = place') (listName : p₀.listName = p.listName)
    {record record' : Json} (same : record.same record' = true) :
    (p₀.ancestorRow l place record).same (p.ancestorRow l' place' record') = true := by
  have widgets := ancestorRow_widgets config alike places record record'
  rw [AncestorRow.same, widgets, Keyed.same_refl (fun _ : AncestorWidget => decide_eq_true rfl)]
  simp [ancestorRow, Completion.same, places, listName, same, alike.viewBinding]

theorem nestedAncestry_same (config : p₀.config = p.config) (alike : l.Alike l')
    {place place' : Place} (places : place = place') (listName : p₀.listName = p.listName)
    {record record' : Json} (same : record.same record' = true)
    (ancestry : sameAncestry p₀.request.ancestry p.request.ancestry = true) :
    sameAncestry (some (p₀.nestedAncestry l place record))
      (some (p.nestedAncestry l' place' record')) = true := by
  have row := ancestorRow_same config alike places listName same
  have levels : levelName p₀.config.level = levelName p.config.level := by rw [config]
  show (((p₀.request.ancestry.getD .empty).rows.insert (levelName p₀.config.level) _).same
    AncestorRow.same ((p.request.ancestry.getD .empty).rows.insert (levelName p.config.level) _)) = true
  rw [levels]
  exact Keyed.same_insert (rows_same ancestry) _ row

end Fields

/-- A node that is left alone is a list of its own in both passes or in neither. -/
theorem isStop_congr (hx : x ∈ (ofRequest c q).cells)
    (h : Carries (ofRequest c q₀) (ofRequest c q) y x) :
    (ofRequest c q₀).walk.isStop y.id = (ofRequest c q).walk.isStop x.id := by
  obtain ⟨-, -, kind, -⟩ := Node.same_iff.mp h.node
  obtain ⟨walked₀, found₀⟩ := (ofRequest c q₀).mem_nodes_iff.mp
    ((ofRequest c q₀).mem_cells.mp h.before).2
  obtain ⟨walked, found⟩ := (ofRequest c q).mem_nodes_iff.mp ((ofRequest c q).mem_cells.mp hx).2
  have root : q₀.root = q.root := h.root
  have found₀ : q₀.template.find? y.id = some y.node := found₀
  have found : q.template.find? x.id = some x.node := found
  rw [Bool.eq_iff_iff, isStop_iff, isStop_iff, found₀, found, h.id, root]
  simp [kind, walked, h.id ▸ walked₀]

/-- If the shape and the order of the widgets around are kept, a cell that is left alone would be
rendered as before. -/
theorem instanceIn_same (own₀ : q₀.template.OwnKeyed) (own : q.template.OwnKeyed)
    (shape : (ofRequest c q₀).shape = (ofRequest c q).shape)
    (order : SameOrder q₀.ancestry q.ancestry)
    (hx : x ∈ (ofRequest c q).cells) (h : Carries (ofRequest c q₀) (ofRequest c q) y x)
    (slots : ∀ id ∈ (ofRequest c q).walk.order,
      b₀.get? ⟨x.row.place.key, id⟩ = b.get? ⟨x.row.place.key, id⟩)
    (record : y.row.record.same x.row.record = true) :
    ((ofRequest c q₀).instanceIn b₀ y).same ((ofRequest c q).instanceIn b x) = true := by
  have walked : (ofRequest c q₀).walk.order = (ofRequest c q).walk.order := by
    rw [order_eq_shape own₀, order_eq_shape own, shape]
  have alike := layoutIn_alike own₀ own shape (congrArg Place.key h.place) h.editable slots
  obtain ⟨-, name, kind, parent, children, props⟩ := Node.same_iff.mp h.node
  have widget : ((ofRequest c q₀).widgetIn b₀ y).slotId = ((ofRequest c q).widgetIn b x).slotId := by
    have agree := slots x.id ((ofRequest c q).mem_nodes_iff.mp ((ofRequest c q).mem_cells.mp hx).2).1
    simp only [widgetIn, RowWidget.make, SlotBook.idOf, h.slot]
    rw [Cell.slot, agree]
  have instanceId : (ofRequest c q₀).idIn b₀ y = (ofRequest c q).idIn b x := by
    simp only [idIn, widgetIn, RowWidget.make] at widget ⊢
    rw [widget, h.editable, h.id]
  have widgetName : ((ofRequest c q₀).widgetIn b₀ y).name = ((ofRequest c q).widgetIn b x).name := by
    simp only [widgetIn, RowWidget.make] at widget ⊢
    rw [widget, h.editable, name]
  have container : (ofRequest c q₀).isContainer ((ofRequest c q₀).widgetIn b₀ y) =
      (ofRequest c q).isContainer ((ofRequest c q).widgetIn b x) := by
    simp only [isContainer, Walk.root?, walked, widgetIn, RowWidget.make, h.id]
  have nested : (ofRequest c q₀).isNestedList ((ofRequest c q₀).widgetIn b₀ y) =
      (ofRequest c q).isNestedList ((ofRequest c q).widgetIn b x) :=
    isStop_congr hx h
  have scopes := scope_agrees alike h.place h.listName h.record ((ofRequest c q).isEditable x.row)
    h.ancestry order
  have config : (ofRequest c q₀).config = (ofRequest c q).config := rfl
  have inner := nestedAncestry_same config alike h.place h.listName record h.ancestry
  refine Instance.same_iff.mpr ?_
  exact
    { id := instanceId
      slotId := widget
      name := widgetName
      templateId := h.id
      templateName := name
      kind := kind
      parent := parentOf_congr alike container h.mount parent
      children := childrenOf_congr alike nested children
      rowIndex := congrArg Place.index h.place
      viewIndex := congrArg Place.view h.place
      item := by
        simp only [instanceIn, instanceOf, h.editable]
        exact item_same (congrArg Place.record h.place) h.listName record _
      view := by
        simp only [instanceIn, instanceOf, alike.viewBinding]
        exact Field.same_refl _
      ancestors := views_same h.ancestry
      props := by
        simp only [instanceIn, instanceOf, h.editable]
        exact propsOf_same scopes alike container props
      locks := by
        simp only [instanceIn, instanceOf, locksOf, h.editable, container]
      handles := by simp only [instanceIn, instanceOf, h.editable]
      level := by
        simp only [instanceIn, instanceOf, nested]
        rfl
      ancestry := by
        simp only [instanceIn, instanceOf, nested]
        split
        · exact inner
        · rfl
      stem := by simp only [instanceIn, instanceOf, nested, widget] }

end Pass

end ListRepeater
