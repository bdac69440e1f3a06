import ListRepeater.Proofs.Json.Decoding
import ListRepeater.Proofs.Json.Normalizing
import ListRepeater.Proofs.Json.ReadBack
import ListRepeater.Template.Node
/-!
# Templates as they are written

A written template is read back if nothing in it is taken for something else: a prop for one of the
members with a meaning of their own, a literal for a binding, or a binding for a literal. Every
template that was read is of this kind.
-/
namespace ListRepeater

open Json Json.Decoder

namespace Field

/-- The field is of the kind that its value is read as. -/
def IsClassified : Field → Prop
  | .binding text => Binding.hasSegment text.toList = true
  | .literal (.str s) => Binding.hasSegment s.toList = false
  | .literal _ => True

instance : DecidablePred IsClassified
  | .binding text => inferInstanceAs (Decidable (Binding.hasSegment text.toList = true))
  | .literal (.str s) => inferInstanceAs (Decidable (Binding.hasSegment s.toList = false))
  | .literal .null | .literal (.bool _) | .literal (.int _) | .literal (.double _)
  | .literal (.arr _) | .literal (.obj _) => isTrue trivial

theorem isClassified_ofJson (v : Json) : (ofJson v).IsClassified := by
  cases v with
  | str s =>
    rw [ofJson]
    split
    · next segment => exact segment
    · next none => exact Bool.eq_false_iff.mpr none
  | _ => trivial

theorem toJson_ofJson (v : Json) : (ofJson v).toJson = v := by
  cases v with
  | str s =>
    rw [ofJson]
    split <;> rfl
  | _ => rfl

theorem ofJson_toJson {f : Field} (h : f.IsClassified) : ofJson f.toJson = f := by
  cases f with
  | binding text => exact if_pos h
  | literal v =>
    cases v with
    | str s => exact if_neg (Bool.eq_false_iff.mp h)
    | _ => rfl

end Field

namespace Node

/-- The names of the members with a meaning of their own. -/
def ownNames : List String := ["widgetId", "widgetName", "type", "parentId", "children"]

/-- No prop has a name of another meaning, and no field is of another kind than its value is read
as. -/
def IsUnambiguous (n : Node) : Prop :=
  ∀ e ∈ n.props.entries, e.1 ∉ ownNames ∧ e.2.IsClassified

/-- The values of the fields are normalized. -/
def IsNormalized (n : Node) : Prop :=
  ∀ e ∈ n.props.entries, e.2.toJson.normalize = e.2.toJson

instance : DecidablePred IsUnambiguous := fun n =>
  inferInstanceAs (Decidable (∀ e ∈ n.props.entries, e.1 ∉ ownNames ∧ e.2.IsClassified))

instance : DecidablePred IsNormalized := fun n =>
  inferInstanceAs (Decidable (∀ e ∈ n.props.entries, e.2.toJson.normalize = e.2.toJson))

/-- How a member changes a node. -/
def withMember? (key : String) (v : Json) : Option (Node → Node) :=
  match key with
  | "widgetId" => (string? v).map fun s n => { n with id := ⟨s⟩ }
  | "widgetName" => (string? v).map fun s n => { n with name := s }
  | "type" => (string? v).map fun s n => { n with kind := s }
  | "parentId" => (optional? string? v).map fun s n => { n with parent := s.map WidgetId.mk }
  | "children" => (list? string? v).map fun ss n => { n with children := ss.map WidgetId.mk }
  | key => some fun n => n.setProp key (Field.ofJson v.normalize)

/-- The node that a tree is read as. -/
def ofJson? : Json → Option Node := shape.ofTree withMember?

theorem withMember?_of_notMem {key : String} (h : key ∉ ownNames) (v : Json) :
    withMember? key v = some fun n => n.setProp key (Field.ofJson v.normalize) := by
  unfold withMember?
  split
  iterate 5 exact absurd (by decide) h
  rfl

theorem withMember?_cases {key : String} {v : Json} {f : Node → Node}
    (made : withMember? key v = some f) :
    (∀ n, (f n).props = n.props) ∨
      key ∉ ownNames ∧ f = fun n => n.setProp key (Field.ofJson v.normalize) := by
  by_cases own : key ∈ ownNames
  · refine Or.inl ?_
    simp only [ownNames, List.mem_cons, List.not_mem_nil, or_false] at own
    rcases own with rfl | rfl | rfl | rfl | rfl
    all_goals
      simp only [withMember?] at made
      obtain ⟨_, -, rfl⟩ := Option.map_eq_some_iff.mp made
      exact fun n => rfl
  · rw [withMember?_of_notMem own] at made
    exact Or.inr ⟨own, (Option.some.inj made).symm⟩

theorem follows_valueOf (key : String) :
    (shape.valueOf key).Follows tree fun v => withMember? key v := by
  rw [Shape.valueOf]
  split
  · next m found =>
    obtain ⟨hm, rfl⟩ := Shape.member?_eq_some found
    simp only [shape, List.mem_cons, List.not_mem_nil, or_false] at hm
    rcases hm with rfl | rfl | rfl | rfl | rfl <;> simp only [withMember?]
    · exact follows_string.map _
    · exact follows_string.map _
    · exact follows_string.map _
    · exact follows_string.optional.map _
    · exact follows_string.list.map _
  · next unknown =>
    simp only [withMember?_of_notMem (Shape.member?_eq_none_iff.mp unknown)]
    exact follows_tree.map fun v (n : Node) => n.setProp key (Field.ofJson v.normalize)

/-- What every prop holds that is made of a member, every prop of a node holds that is read. -/
theorem forall_props_of_ofJson? {P : Json → Prop} {Q : String → Field → Prop} {v : Json} {n : Node}
    (made : ofJson? v = some n) (members : ∀ es, v = .obj es → ∀ e ∈ es, P e.2)
    (prop : ∀ key ∉ ownNames, ∀ v, P v → Q key (Field.ofJson v.normalize)) :
    ∀ e ∈ n.props.entries, Q e.1 e.2 := by
  refine Shape.preserved_of_ofTree (I := fun n : Node => ∀ e ∈ n.props.entries, Q e.1 e.2) made ?_
    (List.forall_mem_nil _)
  intro es object e he f step s known x hx
  rcases withMember?_cases step with same | ⟨other, rfl⟩
  · rw [same] at hx
    exact known x hx
  · rcases Keyed.mem_entries_insert hx with rfl | hx
    · exact prop e.1 other e.2 (members es object e he)
    · exact known x hx

/-- What holds of texts, of lists of them and of the values of the props, holds of all members that
a node is written with. -/
theorem forall_members_toJson {P : Json → Prop} (n : Node) (texts : ∀ s, P (.str s))
    (lists : ∀ ss : List String, P (.arr (ss.map .str)))
    (props : ∀ e ∈ n.props.entries, P e.2.toJson) :
    ∃ es, n.toJson = .obj es ∧ ∀ e ∈ es, P e.2 := by
  refine ⟨_, rfl, fun e he => ?_⟩
  simp only [List.mem_append] at he
  rcases he with ((he | he) | he) | he
  · simp only [List.mem_cons, List.not_mem_nil, or_false] at he
    rcases he with rfl | rfl | rfl <;> exact texts _
  · obtain ⟨p, -, rfl⟩ := Option.map_eq_some_iff.mp (Option.mem_toList.mp he)
    exact texts _
  · split at he
    · cases he
    · rw [List.mem_singleton.mp he]
      have own := lists (n.children.map WidgetId.text)
      rwa [List.map_map] at own
  · obtain ⟨x, hx, rfl⟩ := List.mem_map.mp he
    exact props x hx

section Read

variable {depth : Nat} {v : Json} {n : Node}

theorem unambiguous_of_ofJson? (made : ofJson? v = some n) : n.IsUnambiguous :=
  forall_props_of_ofJson? (P := fun _ => True)
    (Q := fun key f => key ∉ ownNames ∧ f.IsClassified) made (fun _ _ _ _ => trivial)
    fun _ other v _ => ⟨other, Field.isClassified_ofJson v.normalize⟩

theorem normalized_of_ofJson? (made : ofJson? v = some n) : n.IsNormalized :=
  forall_props_of_ofJson? (P := fun _ => True)
    (Q := fun _ f => f.toJson.normalize = f.toJson) made (fun _ _ _ _ => trivial)
    fun _ _ v _ => by rw [Field.toJson_ofJson, v.normalize_normalize]

/-- A node is written no deeper than it was read. -/
theorem fits_toJson_of_ofJson? (made : ofJson? v = some n) (fits : Fits (depth + 2) v) :
    Fits (depth + 2) n.toJson := by
  have props := forall_props_of_ofJson? (P := Fits (depth + 1))
    (Q := fun _ f => Fits (depth + 1) f.toJson) made
    (by rintro es rfl; cases fits with | obj members => exact members)
    fun _ _ v fits => by rw [Field.toJson_ofJson]; exact fits.normalize
  have lists (ss : List String) : Fits (depth + 1) (.arr (ss.map .str)) :=
    .arr (List.forall_mem_map.mpr fun s _ => .str s)
  obtain ⟨es, object, members⟩ :=
    forall_members_toJson (P := Fits (depth + 1)) n .str lists props
  exact object ▸ .obj members

theorem isDoubleFree_toJson_of_ofJson? (made : ofJson? v = some n)
    (free : v.isDoubleFree = true) : n.toJson.isDoubleFree = true := by
  have props := forall_props_of_ofJson? (P := fun v => v.isDoubleFree = true)
    (Q := fun _ f => f.toJson.isDoubleFree = true) made
    (by rintro es rfl; exact isDoubleFree_obj_iff.mp free)
    fun _ _ v free => by rw [Field.toJson_ofJson]; exact isDoubleFree_normalize free
  have lists (ss : List String) : (Json.arr (ss.map .str)).isDoubleFree = true :=
    isDoubleFree_arr_iff.mpr (List.forall_mem_map.mpr fun _ _ => rfl)
  obtain ⟨es, object, members⟩ :=
    forall_members_toJson (P := fun v => v.isDoubleFree = true) n (fun _ => rfl) lists props
  exact object ▸ isDoubleFree_obj_iff.mpr members

end Read

/-- The props of a node are taken one by one. -/
theorem takeAll_props {es : List (String × Field)} (plain : ∀ e ∈ es, e.1 ∉ ownNames ∧
    e.2.IsClassified) (normal : ∀ e ∈ es, e.2.toJson.normalize = e.2.toJson)
    (p : Shape.Progress Node) :
    shape.takeAll withMember? p (es.map fun e => (e.1, e.2.toJson)) = some ⟨p.seen,
      { p.value with props := es.foldl (fun m e => m.insert e.1 e.2) p.value.props }⟩ := by
  induction es generalizing p with
  | nil => rfl
  | cons e es ih =>
    obtain ⟨⟨other, kind⟩, plain⟩ := List.forall_mem_cons.mp plain
    obtain ⟨same, normal⟩ := List.forall_mem_cons.mp normal
    have unknown : shape.member? e.1 = none := Shape.member?_eq_none_iff.mpr other
    have step : shape.take withMember? p e.1 e.2.toJson =
        some ⟨p.seen, p.value.setProp e.1 e.2⟩ := by
      rw [Shape.take, unknown, withMember?_of_notMem other, same, Field.ofJson_toJson kind]
      rfl
    exact Shape.takeAll_cons.mpr ⟨_, step, ih plain normal _⟩

theorem list?_texts (ids : List WidgetId) :
    list? string? (.arr (ids.map fun c => .str c.text)) = some (ids.map WidgetId.text) :=
  list?_map fun _ _ => rfl

/-- The other members of a written node give back everything but its props. -/
theorem takeAll_own (n : Node) : ∃ seen, shape.takeAll withMember? ⟨[], shape.start⟩
    ([("widgetId", .str n.id.text), ("widgetName", .str n.name), ("type", .str n.kind)]
      ++ (n.parent.map fun p => ("parentId", Json.str p.text)).toList
      ++ if n.children.isEmpty then [] else
        [("children", .arr (n.children.map fun c => .str c.text))]) =
      some ⟨seen, { n with props := .empty }⟩ ∧ shape.needed.all seen.contains = true := by
  obtain ⟨id, name, kind, parent, children, props⟩ := n
  obtain ⟨seen, before, fresh, complete⟩ : ∃ seen, shape.takeAll withMember? ⟨[], shape.start⟩
      ([("widgetId", .str id.text), ("widgetName", .str name), ("type", .str kind)]
        ++ (parent.map fun p => ("parentId", Json.str p.text)).toList) =
        some ⟨seen, ⟨id, name, kind, parent, [], .empty⟩⟩ ∧
      seen.contains "children" = false ∧ shape.needed.all seen.contains = true := by
    cases parent with
    | none => exact ⟨["type", "widgetName", "widgetId"], rfl, rfl, rfl⟩
    | some p => exact ⟨["parentId", "type", "widgetName", "widgetId"], rfl, rfl, rfl⟩
  rw [Shape.takeAll_append, before]
  cases children with
  | nil => exact ⟨seen, rfl, complete⟩
  | cons c cs =>
    have step : shape.take withMember? ⟨seen, ⟨id, name, kind, parent, [], .empty⟩⟩ "children"
        (.arr ((c :: cs).map fun c => .str c.text)) =
          some ⟨"children" :: seen, ⟨id, name, kind, parent, c :: cs, .empty⟩⟩ := by
      have known : (shape.member? "children").isSome = true := rfl
      obtain ⟨m, found⟩ := Option.isSome_iff_exists.mp known
      have ids : ((c :: cs).map WidgetId.text).map WidgetId.mk = c :: cs :=
        List.map_map.trans (List.map_id _)
      simp only [Shape.take, found, fresh, withMember?, list?_texts, Option.map_some, ids]
      rfl
    refine ⟨"children" :: seen, Shape.takeAll_cons.mpr ⟨_, step, rfl⟩, ?_⟩
    refine List.all_eq_true.mpr fun name hname => ?_
    rw [List.contains_cons, List.all_eq_true.mp complete name hname, Bool.or_true]

theorem ofJson?_toJson {n : Node} (plain : n.IsUnambiguous) (normal : n.IsNormalized) :
    ofJson? n.toJson = some n := by
  obtain ⟨seen, own, complete⟩ := takeAll_own n
  rw [toJson, ofJson?, Shape.ofTree, Shape.ofEntries, Shape.takeAll_append, own]
  simp only [Option.bind_some, takeAll_props plain normal]
  refine Shape.finish?_eq_some.mpr ⟨complete, ?_⟩
  exact congrArg (fun props => { n with props }) n.props.ofList_entries

end Node

namespace Template

/-- The template that a tree is read as. -/
def ofJson? : Json → Option Template := keyed? WidgetId.mk Node.ofJson?

theorem read_eq_ok {text : String} {t : Template} :
    read text = .ok t ↔ ∃ v, readTree text = .ok v ∧ ofJson? v = some t :=
  (Follows.object Node.follows_valueOf).keyed.read_eq_ok

section Read

variable {depth : Nat} {v : Json} {t : Template}

/-- Every node is made of a member of the tree. -/
theorem exists_member (made : ofJson? v = some t) {n : Node} (hn : n ∈ t.values) :
    ∃ es, v = .obj es ∧ ∃ e ∈ es, Node.ofJson? e.2 = some n := by
  obtain ⟨es, object, nodes⟩ := mem_of_keyed? made
  obtain ⟨e, he, rfl⟩ := List.mem_map.mp hn
  obtain ⟨x, hx, -, made⟩ := nodes e he
  exact ⟨es, object, x, hx, made⟩

theorem unambiguous_of_ofJson? (made : ofJson? v = some t) : ∀ n ∈ t.values, n.IsUnambiguous := by
  intro n hn
  obtain ⟨_, -, _, -, made⟩ := exists_member made hn
  exact Node.unambiguous_of_ofJson? made

theorem normalized_of_ofJson? (made : ofJson? v = some t) : ∀ n ∈ t.values, n.IsNormalized := by
  intro n hn
  obtain ⟨_, -, _, -, made⟩ := exists_member made hn
  exact Node.normalized_of_ofJson? made

theorem fits_toJson_of_ofJson? (made : ofJson? v = some t) (fits : Fits (depth + 3) v) :
    Fits (depth + 3) t.toJson := by
  refine .obj (List.forall_mem_map.mpr fun e he => ?_)
  obtain ⟨es, rfl, x, hx, made⟩ := exists_member made (List.mem_map_of_mem he)
  cases fits with
  | obj members => exact Node.fits_toJson_of_ofJson? made (members x hx)

theorem isDoubleFree_toJson_of_ofJson? (made : ofJson? v = some t)
    (free : v.isDoubleFree = true) : t.toJson.isDoubleFree = true := by
  refine isDoubleFree_obj_iff.mpr (List.forall_mem_map.mpr fun e he => ?_)
  obtain ⟨es, rfl, x, hx, made⟩ := exists_member made (List.mem_map_of_mem he)
  exact Node.isDoubleFree_toJson_of_ofJson? made (isDoubleFree_obj_iff.mp free x hx)

end Read

theorem ofJson?_toJson {t : Template} (plain : ∀ n ∈ t.values, n.IsUnambiguous)
    (normal : ∀ n ∈ t.values, n.IsNormalized) : ofJson? t.toJson = some t :=
  keyed?_entries (fun _ => rfl) fun _ he => Node.ofJson?_toJson
    (plain _ (List.mem_map_of_mem he)) (normal _ (List.mem_map_of_mem he))

/-- A template that was read from a text without floating-point numbers is read again from the text
that it is written as; among these numbers are a negative zero and integers of more than 64 bits. So
is any template that was read, as long as the tree that it is written as is read back. A template
that was put together from normalized values, and whose tree is read back, is read again if and only
if no prop of a node is named like another member and every field is of the kind that its value is
read as. -/
theorem read_written :
    (∀ text v t, readTree text = .ok v → read text = .ok t →
      (v.isDoubleFree = true ∨ readTree t.toJson.compact = .ok t.toJson) →
      read t.toJson.compact = .ok t) ∧
    (∀ t : Template, (∀ n ∈ t.values, n.IsNormalized) →
      readTree t.toJson.compact = .ok t.toJson →
      (read t.toJson.compact = .ok t ↔ ∀ n ∈ t.values, n.IsUnambiguous)) := by
  have back : ∀ t : Template, (∀ n ∈ t.values, n.IsUnambiguous) →
      (∀ n ∈ t.values, n.IsNormalized) → readTree t.toJson.compact = .ok t.toJson →
      read t.toJson.compact = .ok t := fun t plain normal layer =>
    read_eq_ok.mpr ⟨t.toJson, layer, ofJson?_toJson plain normal⟩
  refine ⟨fun text v t source read layer => ?_, fun t normal layer => ⟨fun read => ?_, fun plain =>
    back t plain normal layer⟩⟩
  · obtain ⟨w, own, made⟩ := read_eq_ok.mp read
    obtain rfl : v = w := Except.ok.inj (source.symm.trans own)
    refine back t (unambiguous_of_ofJson? made) (normalized_of_ofJson? made) ?_
    rcases layer with free | layer
    · have fits : Fits (124 + 3) v := fits_of_readTree source
      exact readTree_compact (fits_toJson_of_ofJson? made fits)
        (isDoubleFree_toJson_of_ofJson? made free)
    · exact layer
  · obtain ⟨_, -, made⟩ := read_eq_ok.mp read
    exact unambiguous_of_ofJson? made

section Samples

/-- A list of one text, which is bound to the name of the item. -/
def authored : Template :=
  .ofNodes [{ Node.plain ⟨"list"⟩ "List1" "LIST_WIDGET" with children := [⟨"text"⟩] },
    ({ Node.plain ⟨"text"⟩ "Text1" "TEXT_WIDGET" with parent := some ⟨"list"⟩ }.setProp "text"
      (.binding "\x7b\x7bcurrentItem.name\x7d\x7d")).setProp "fontSize" (.literal (.int 14))]

/-- The same list with a prop named like its kind. -/
def shadowed : Template :=
  authored.put ((Node.plain ⟨"list"⟩ "List1" "LIST_WIDGET").setProp "type" (.literal (.int 14)))

theorem read_written_samples : read authored.toJson.pretty = .ok authored ∧
    read authored.toJson.compact = .ok authored ∧
    readTree shadowed.toJson.compact = .ok shadowed.toJson ∧
    read shadowed.toJson.compact ≠ .ok shadowed := by
  have source : readTree authored.toJson.pretty = .ok authored.toJson :=
    read_ofList_eq_ok.mpr ⟨[], by decide +kernel, rfl⟩
  have made : read authored.toJson.pretty = .ok authored :=
    read_ofList_eq_ok.mpr ⟨[], by decide +kernel, rfl⟩
  have layer : readTree shadowed.toJson.compact = .ok shadowed.toJson :=
    read_ofList_eq_ok.mpr ⟨[], by decide +kernel, rfl⟩
  have free : authored.toJson.isDoubleFree = true := by decide +kernel
  have normal : ∀ n ∈ shadowed.values, n.IsNormalized := by decide +kernel
  have ambiguous : ¬ ∀ n ∈ shadowed.values, n.IsUnambiguous := by decide +kernel
  exact ⟨made, read_written.1 _ _ _ source made (Or.inl free), layer, fun back =>
    ambiguous ((read_written.2 shadowed normal layer).mp back)⟩

end Samples

end Template

end ListRepeater
