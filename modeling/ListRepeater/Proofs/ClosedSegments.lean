import ListRepeater.Proofs.AncestorReferences
import ListRepeater.Proofs.EditedSegments
import ListRepeater.Proofs.RecordReferences
/-!
# Row values stay in their segments

What localizing puts in the place of a reference comes from the row: its record or where it stands,
the names of its widgets, and what they and the widgets of the rows around it expose. If all names
are words, each such text is closed. So no value of a record, whatever its strings hold, ends the
segment that it is put into, begins another one or takes in the text behind it.
-/
namespace ListRepeater

open Binding (isWord Balanced Closed)

/-- The names of a widget, in the template and in its row, and those of what it exposes are
words. -/
structure RowWidget.Worded (x : Exposure) (w : RowWidget) : Prop where
  authored : isWord w.node.name = true
  own : isWord w.name = true
  exposed : ∀ p ∈ x.properties w.node.kind, isWord p = true

/-- What lists are handed of the rows around them, when all names in these rows are words. -/
inductive Ancestry.Worded : Option Ancestry → Prop
  | outermost : Ancestry.Worded none
  | nested {p : Pass} {l : RowLayout} (around : Ancestry.Worded p.request.ancestry)
      (list : isWord p.listName = true) (widgets : ∀ w ∈ l.widgets, w.Worded p.config.exposure)
      (place : Place) (record : Json) :
      Ancestry.Worded (some (p.nestedAncestry l place record))

/-- The scope of a row in which all names are words: those of its list, its widgets and what they
expose, and those in the rows around it. -/
structure Scope.Worded (s : Scope) : Prop where
  list : ∀ l n, s.item = .position l n → isWord l = true
  row : ∃ (x : Exposure) (root : Option WidgetId) (widgets : List RowWidget),
    (∀ w ∈ widgets, w.Worded x) ∧ s.names = (RowLayout.ofWidgets x root widgets).names ∧
    s.view = (RowLayout.ofWidgets x root widgets).view
  around : Ancestry.Worded s.ancestry

section Layouts

variable {x : Exposure} {root : Option WidgetId} {widgets : List RowWidget}
  (worded : ∀ w ∈ widgets, w.Worded x)

include worded

theorem isWord_of_names {name own : String}
    (found : (RowLayout.ofWidgets x root widgets).names.find? name = some own) :
    isWord own = true := by
  have member := Keyed.mem_of_mem_ofList ((Keyed.find?_eq_some_iff _ _ _).mp found)
  obtain ⟨w, hw, e⟩ := List.mem_map.mp member
  rw [← (Prod.mk.inj e).2]
  exact (worded w hw).own

theorem balanced_view : Balanced (RowLayout.ofWidgets x root widgets).view.toList := by
  refine Binding.balanced_viewText fun e he => ?_
  obtain ⟨w, hw, rfl⟩ := List.mem_map.mp (List.mem_filter.mp he).1
  have own := worded w (List.mem_filter.mp hw).1
  exact ⟨Binding.balanced_of_isWord own.authored, Binding.balanced_listing x own.own own.exposed⟩

end Layouts

/-- What a reference to an ancestor row can stand for is closed. -/
structure AncestorRow.Sound (r : AncestorRow) : Prop where
  item : Closed (String.ofList (Binding.bare r.item.toList))
  named : ∀ name own, r.nameOf? name = some own → isWord own = true
  view : Balanced r.viewText.toList

section Ancestors

variable {p : Pass} {l : RowLayout} (list : isWord p.listName = true)
  (widgets : ∀ w ∈ l.widgets, w.Worded p.config.exposure)

include list widgets

theorem sound_ancestorRow (place : Place) (record : Json) :
    (p.ancestorRow l place record).Sound where
  item := by
    rw [Pass.ancestorRow, bare_position list]
    exact Binding.closed_expression _ fun _ _ e => (RowItem.position.inj e).1 ▸ list
  named := by
    intro name own named
    obtain ⟨w, found, rfl⟩ := Option.map_eq_some_iff.mp named
    have member := Keyed.mem_of_mem_ofList ((Keyed.find?_eq_some_iff _ _ _).mp found)
    obtain ⟨v, hv, e⟩ := List.mem_map.mp member
    rw [← (Prod.mk.inj e).2]
    exact (widgets v hv).own
  view := by
    refine Binding.balanced_viewText fun e he => ?_
    obtain ⟨w, hw, rfl⟩ := List.mem_map.mp he
    obtain ⟨entry, hentry, rfl⟩ := List.mem_map.mp (List.mem_filter.mp hw).1
    obtain ⟨v, hv, rfl⟩ := List.mem_map.mp (Keyed.mem_of_mem_ofList hentry)
    have own := widgets v hv
    exact ⟨Binding.balanced_of_isWord own.authored, Binding.balanced_listing _ own.own own.exposed⟩

end Ancestors

theorem Ancestry.Worded.sound {a : Option Ancestry} (h : Ancestry.Worded a) {key : String}
    {row : AncestorRow} (found : a.bind (·.get? key) = some row) : row.Sound := by
  induction h with
  | outermost => cases found
  | @nested p l around list widgets place record ih =>
    rw [Option.bind_some, Ancestry.get?, Pass.nestedAncestry, Ancestry.extend, Ancestry.withLevel,
      Keyed.find?_insert] at found
    split at found
    · rw [← Option.some.inj found]
      exact sound_ancestorRow list widgets place record
    · apply ih
      rw [← found]
      cases p.request.ancestry <;> rfl

namespace Scope

theorem closed_fromAncestor {row : AncestorRow} (h : row.Sound) {words : List String}
    (hw : ∀ w ∈ words, isWord w = true) {text : String}
    (found : fromAncestor row words = some text) : Closed text := by
  unfold fromAncestor at found
  split at found
  · rw [← Option.some.inj found]
    exact h.item.join (List.forall_mem_cons.mp hw).2
  · rw [← Option.some.inj found]
    exact (Binding.closed_decimal _).join (List.forall_mem_cons.mp hw).2
  · rw [← Option.some.inj found]
    exact Binding.closed_parenthesized h.view
  · obtain ⟨own, named, rfl⟩ := Option.map_eq_some_iff.mp found
    exact (Binding.closed_of_isWord (h.named _ own named)).join
      (List.forall_mem_cons.mp (List.forall_mem_cons.mp hw).2).2
  · cases found

namespace Worded

variable {s : Scope} (h : s.Worded)

include h

theorem closed_fromView {words : List String} (hw : ∀ w ∈ words, isWord w = true) :
    Closed (s.fromView words) := by
  obtain ⟨x, root, widgets, worded, names, view⟩ := h.row
  have literal : Closed ("(" ++ s.view ++ ")") :=
    Binding.closed_parenthesized (view ▸ balanced_view worded)
  unfold fromView
  split
  · exact literal
  · split
    · next own found =>
      have word := isWord_of_names worded (names ▸ found)
      exact (Binding.closed_of_isWord word).join (List.forall_mem_cons.mp hw).2
    · exact literal.join hw

theorem resolvesClosed : Binding.ResolvesClosed s := by
  intro words hw text found
  obtain ⟨x, root, widgets, worded, names, -⟩ := h.row
  cases words with
  | nil => cases found
  | cons head rest =>
    obtain ⟨-, rest⟩ := List.forall_mem_cons.mp hw
    rw [resolve] at found
    split at found
    · rw [← Option.some.inj found]
      exact (Binding.closed_expression s.item h.list).join rest
    split at found
    · rw [← Option.some.inj found]
      exact (Binding.closed_decimal _).join rest
    split at found
    · rw [← Option.some.inj found]
      exact h.closed_fromView rest
    split at found
    · obtain ⟨row, known, found⟩ := Option.bind_eq_some_iff.mp found
      exact closed_fromAncestor (h.around.sound known) rest found
    split at found
    · next own named =>
      split at found
      · cases found
      · rw [← Option.some.inj found]
        exact (Binding.closed_of_isWord (isWord_of_names worded (names ▸ named))).join rest
    · cases found

end Worded

end Scope

section Generated

theorem Binding.isWord_append {w tail : String} (word : isWord w = true)
    (chars : ∀ c ∈ tail.toList, isWordChar c = true) : isWord (w ++ tail) = true := by
  obtain ⟨c, rest, text, start⟩ := exists_of_isWord word
  have all : ∀ d ∈ c :: (rest ++ tail.toList), isWordChar d = true := by
    rw [← List.cons_append, ← text]
    exact List.forall_mem_append.mpr ⟨fun d hd => isWordChar_of_isWord word hd, chars⟩
  rw [isWord, String.toList_append, text, List.cons_append, List.all_eq_true.mpr all]
  exact (Bool.and_true _).trans start

/-- A row makes words of the authored names when its ids are made of word characters. -/
theorem RowWidget.worded_make {x : Exposure} {e : WidgetId × Node} {slotId : WidgetId}
    (row : RowKey) (editable : Bool) (name : isWord e.2.name = true)
    (exposed : ∀ p ∈ x.properties e.2.kind, isWord p = true)
    (slot : ∀ c ∈ slotId.text.toList, Binding.isWordChar c = true) :
    (RowWidget.make row editable slotId e).Worded x where
  authored := name
  own := by
    have mark : ∀ c ∈ ("_").toList, Binding.isWordChar c = true :=
      List.all_eq_true.mp (by decide)
    rw [RowWidget.make]
    split
    · exact name
    · exact Binding.isWord_append (Binding.isWord_append name mark) slot
  exposed := exposed

theorem isWordChar_of_mem_mintedId {stem : String}
    (h : ∀ c ∈ stem.toList, Binding.isWordChar c = true) (n : Nat) :
    ∀ c ∈ (SlotBook.mintedId stem n).text.toList, Binding.isWordChar c = true := by
  have mark : ∀ c ∈ ("_").toList, Binding.isWordChar c = true :=
    List.all_eq_true.mp (by decide)
  have digits : ∀ c ∈ (decimal n).toList, Binding.isWordChar c = true := by
    rw [decimal, String.toList_ofList]
    exact fun c hc => Binding.isWordChar_of_mem_natText hc
  rw [SlotBook.mintedId, String.toList_append, String.toList_append]
  exact List.forall_mem_append.mpr ⟨List.forall_mem_append.mpr ⟨h, mark⟩, digits⟩

namespace Turn

/-- All names that a pass is given are words, and the ids that it mints make words of them. -/
structure Worded (t : Turn) : Prop where
  grounded : t.repeater.Grounded
  stem : ∀ c ∈ t.repeater.config.stem.toList, Binding.isWordChar c = true
  list : isWord t.pass.listName = true
  nodes : ∀ e ∈ t.pass.nodes, isWord e.2.name = true ∧
    ∀ p ∈ t.repeater.config.exposure.properties e.2.kind, isWord p = true

variable {t : Turn} {row : PassRow}

theorem Worded.widgets (h : t.Worded) (hrow : row ∈ t.rows) :
    ∀ w ∈ row.layout.widgets, w.Worded t.repeater.config.exposure := by
  intro w hw
  obtain ⟨n, minted⟩ := exists_minted h.grounded hrow hw
  obtain ⟨x, hx, -, rfl⟩ := exists_cell hrow hw
  obtain ⟨name, exposed⟩ := h.nodes _ (t.pass.mem_cells.mp hx).2
  have slot : ∀ c ∈ (t.book.idOf x.slot).text.toList, Binding.isWordChar c = true := by
    have text : t.book.idOf x.slot = SlotBook.mintedId t.repeater.config.stem n := minted
    rw [text]
    exact isWordChar_of_mem_mintedId h.stem n
  exact RowWidget.worded_make _ _ name exposed slot

/-- What a pass inside the rows of other lists is handed, when all these lists use words for
names. -/
theorem Within.worded {outer : List (Turn × PassRow)} (h : Within outer t)
    (named : ∀ e ∈ outer, e.1.Worded) : Ancestry.Worded t.request.ancestry := by
  induction h with
  | outermost _ alone =>
    rw [alone]
    exact .outermost
  | @nested outer t inner row i a around shown emitted list level handed ih =>
    obtain ⟨before, last⟩ := List.forall_mem_append.mp named
    have own : t.Worded := last _ (List.mem_singleton.mpr rfl)
    rw [handed, ancestry_of_rendered emitted list]
    exact .nested (p := t.pass) (ih before) own.list (own.widgets shown) row.row.place
      row.row.record

theorem Within.worded_scopeOf {outer : List (Turn × PassRow)} (h : Within outer t)
    (named : ∀ e ∈ outer, e.1.Worded) (own : t.Worded) (hrow : row ∈ t.rows) :
    (t.scopeOf row).Worded where
  list := by
    intro l n e
    change (if row.editable then RowItem.value _ else .position t.pass.listName _) = _ at e
    split at e
    · cases e
    · rw [← (RowItem.position.inj e).1]
      exact own.list
  row := by
    have widgets := own.widgets hrow
    obtain ⟨-, -, layout⟩ := row_of_mem_rows hrow
    rw [layout] at widgets
    exact ⟨_, t.pass.walk.root?, _, widgets, congrArg RowLayout.names layout,
      congrArg RowLayout.view layout⟩
  around := h.worded named

end Turn

end Generated

/-- Localizing splits a text nowhere else than its author did: the segments are as many as before,
with the same text between and behind them, and each holds its own expression localized and nothing
more. -/
theorem Scope.parse_localize (s : Scope) (worded : s.Worded) (text : String) :
    Binding.parse (Binding.localize s text).toList =
      (Binding.parse text.toList).mapBodies (Binding.localizeExpression s) :=
  Binding.parse_localize_of_closed worded.resolvesClosed text

section Samples

open Sample

theorem Scope.Worded.withItem {s : Scope} (h : s.Worded) (item : RowItem)
    (list : ∀ l n, item = .position l n → isWord l = true) : (s.withItem item).Worded :=
  ⟨list, h.row, h.around⟩

/-- A record with every mark of a segment in its strings. -/
def hostile : Json :=
  .obj [("a\"\x7d\x7d", .str "\x7d\x7d \x7b\x7b \" \\ \x7d currentItem ' \x60"),
    ("n", .arr [.obj []])]

/-- References behind a lone brace, in an object and beside a literal with braces in it. -/
def bracedText : String :=
  "\x7d " ++ mustache " \x7dcurrentItem.n " ++ ", " ++
    mustache "\x7b a: currentView \x7d + level_1.currentView + '\x7d\x7d currentItem' " ++
    " \x7d\x7d"

/-- The first segment gets what the row calls its record. -/
theorem localizeExpression_braced (s : Scope) :
    Binding.localizeExpression s " \x7dcurrentItem.n ".toList =
      " \x7d".toList ++ s.item.expression.toList ++ ".n ".toList := by
  have refs : Binding.references " \x7dcurrentItem.n ".toList =
      [⟨2, 15, ["currentItem", "n"], false⟩] := by
    decide +kernel
  have resolved := s.resolve_currentItem ["n"]
  rw [Binding.localizeExpression, refs, List.filterMap_cons, resolved]
  simp [Binding.splice, Scope.join, String.toList_append]

theorem Scope.parse_localize_hostile : ∃ row ∈ Turn.second.rows,
    ∀ item ∈ [RowItem.value hostile, .position "List6" 1],
      ((Turn.second.scopeOf row).withItem item).Worded ∧
      Binding.parse
          (Binding.localize ((Turn.second.scopeOf row).withItem item) bracedText).toList =
        (Binding.parse bracedText.toList).mapBodies
          (Binding.localizeExpression ((Turn.second.scopeOf row).withItem item)) ∧
      (Binding.parse bracedText.toList).segments.length = 2 ∧
      (Binding.parse (Binding.localize ((Turn.second.scopeOf row).withItem item)
          bracedText).toList).segments.head? =
        some ("\x7d ".toList, " \x7d".toList ++ item.expression.toList ++ ".n ".toList) ∧
      Binding.localize ((Turn.second.scopeOf row).withItem item) bracedText ≠ bracedText := by
  have told : ∃ r ∈ Turn.first.rows,
      ∃ i ∈ Turn.first.pass.rendered (Turn.first.pass.compare none) r,
        i.ancestry.isSome = true ∧ i.ancestry = Turn.first.handed := by
    decide +kernel
  have shown : Turn.second.rows ≠ [] := by decide +kernel
  have changed : ∀ item ∈ [RowItem.value hostile, .position "List6" 1],
      " \x7dcurrentItem.n ".toList ≠
        " \x7d".toList ++ item.expression.toList ++ ".n ".toList := by
    decide +kernel
  have stem : ∀ c ∈ benchConfig.stem.toList, Binding.isWordChar c = true :=
    List.all_eq_true.mp (by decide)
  have outer : Turn.first.Worded :=
    ⟨Repeater.grounded_create _, stem, by decide +kernel, by decide +kernel⟩
  have own : Turn.second.Worded :=
    ⟨Repeater.grounded_create _, stem, by decide +kernel, by decide +kernel⟩
  obtain ⟨r, hr, i, hi, nested, handed⟩ := told
  obtain ⟨a, list⟩ := Option.isSome_iff_exists.mp nested
  obtain ⟨row, hrow⟩ := List.exists_mem_of_ne_nil _ shown
  have within : Turn.Within [(Turn.first, r)] Turn.second :=
    .nested (.outermost rfl rfl) hr hi list rfl (handed.symm.trans list)
  have scope := within.worded_scopeOf (List.forall_mem_singleton.mpr outer) own hrow
  refine ⟨row, hrow, fun item hitem => ?_⟩
  have list6 : ∀ l n, item = .position l n → isWord l = true := by
    rcases List.mem_pair.mp hitem with rfl | rfl
    · exact fun _ _ e => nomatch e
    · rintro _ _ ⟨⟩
      decide
  have worded := scope.withItem item list6
  have whole := Scope.parse_localize _ worded bracedText
  have authored : (Binding.parse bracedText.toList).segments.head? =
      some ("\x7d ".toList, " \x7dcurrentItem.n ".toList) := by
    decide +kernel
  have inserted : (Binding.parse (Binding.localize ((Turn.second.scopeOf row).withItem item)
      bracedText).toList).segments.head? =
        some ("\x7d ".toList, " \x7d".toList ++ item.expression.toList ++ ".n ".toList) := by
    rw [whole, Binding.Parts.mapBodies, List.head?_map, authored, Option.map_some,
      localizeExpression_braced]
    rfl
  refine ⟨worded, whole, by decide +kernel, inserted, fun same => changed item hitem ?_⟩
  rw [same, authored, Option.some.injEq, Prod.mk.injEq] at inserted
  exact inserted.2

end Samples

end ListRepeater
