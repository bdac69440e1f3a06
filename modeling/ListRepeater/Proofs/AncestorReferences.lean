import ListRepeater.Proofs.DottedChains
import ListRepeater.Proofs.Json.CompactText
import ListRepeater.Proofs.RowContext
import ListRepeater.Proofs.SlotIdentity
import ListRepeater.Sample.Bench
/-!
# References to the rows around a list

A list inside a row is handed the rows around it, each under the key of its level. Each list adds
the row that contains it and keeps what it was handed itself, so through any number of lists a
reference `level_k` means the row of the list at depth `k` that contains them all: what a binding
of that row says by `currentItem`, `currentIndex` or `currentView` is said by `level_k.currentItem`
and so on in the rows of every list inside it.
-/
namespace ListRepeater

theorem levelName_injective {m n : Nat} (h : levelName m = levelName n) : m = n := by
  have texts := String.ofList_injective h
  exact Json.natText_injective (List.append_cancel_left texts)

/-- A level key is read back unless its number is too large for a machine word. -/
theorem levelOf?_levelName (k : Nat) :
    levelOf? (levelName k) = if k ≤ Json.Reader.greatestUnsigned then some k else none := by
  have digits : (Json.natText k).all Char.isDigit = true :=
    List.all_eq_true.mpr fun _ hc => Json.isDigit_natText hc
  have value : (Json.natText k).foldl (fun n d => n * 10 + Json.Reader.digitValue d) 0 = k := by
    have read : Nat.ofDigitChars 10 (Json.natText k) 0 = k := by simp [Json.natText]
    simpa [Nat.ofDigitChars, Json.Reader.digitValue, Nat.mul_comm] using read
  have chars : (levelName k).toList = levelStem ++ Json.natText k := String.toList_ofList
  have nonempty : Json.natText k ≠ [] := by simp [Json.natText]
  have stem : (levelStem ++ Json.natText k).take levelStem.length = levelStem := List.take_left
  have tail : (levelStem ++ Json.natText k).drop levelStem.length = Json.natText k := List.drop_left
  simp only [levelOf?, chars, stem, tail, digits, value, nonempty, ne_eq, not_false_eq_true,
    and_self, if_true]

theorem isWord_levelName (k : Nat) : Binding.isWord (levelName k) = true := by
  have chars : (levelName k).toList = levelStem ++ Json.natText k := String.toList_ofList
  have digits : (Json.natText k).all Binding.isWordChar = true := by
    refine List.all_eq_true.mpr fun c hc => ?_
    rw [Binding.isWordChar, Json.isDigit_natText hc, Bool.or_true]
  have stem : levelStem.all Binding.isWordChar = true := by decide
  have start : levelStem.head?.any Binding.isWordStart = true := by decide
  rw [Binding.isWord, chars, List.all_append, stem, digits]
  exact Bool.and_true _ ▸ start

section Bare

theorem toNat_of_isAlpha {c : Char} (h : c.isAlpha = true) : 65 ≤ c.toNat ∧ c.toNat ≤ 122 := by
  have letter : (c.isUpper || c.isLower) = true := h
  rcases Bool.or_eq_true_iff.mp letter with upper | lower
  · obtain ⟨low, high⟩ : 'A'.val ≤ c.val ∧ c.val ≤ 'Z'.val := of_decide_eq_true upper
    have low : 65 ≤ c.toNat := UInt32.le_iff_toNat_le.mp low
    have high : c.toNat ≤ 90 := UInt32.le_iff_toNat_le.mp high
    omega
  · have range : (decide ('a'.val ≤ c.val) && decide (c.val ≤ 'z'.val)) = true := lower
    obtain ⟨low, high⟩ := Bool.and_eq_true_iff.mp range
    have low : 97 ≤ c.toNat := UInt32.le_iff_toNat_le.mp (of_decide_eq_true low)
    have high : c.toNat ≤ 122 := UInt32.le_iff_toNat_le.mp (of_decide_eq_true high)
    omega

theorem isBlank_of_isWordStart {c : Char} (h : Binding.isWordStart c = true) :
    Text.isBlank c = false := by
  have range : c.toNat = 95 ∨ c.toNat = 36 ∨ 65 ≤ c.toNat ∧ c.toNat ≤ 122 := by
    simp only [Binding.isWordStart, Bool.or_eq_true, beq_iff_eq] at h
    rcases h with (h | rfl) | rfl
    · exact Or.inr (Or.inr (toNat_of_isAlpha h))
    · exact Or.inl rfl
    · exact Or.inr (Or.inl rfl)
  simp only [Text.isBlank, Text.blankRanges, List.any_cons, List.any_nil, Bool.or_false,
    Bool.or_eq_false_iff, Bool.and_eq_false_iff, decide_eq_false_iff_not]
  omega

theorem Text.trim_of_ends {cs : List Char} {c d : Char} (first : cs.head? = some c)
    (last : cs.getLast? = some d) (hc : isBlank c = false) (hd : isBlank d = false) :
    trim cs = cs := by
  have front : cs.dropWhile isBlank = cs := by
    obtain ⟨rest, rfl⟩ := List.head?_eq_some_iff.mp first
    rw [List.dropWhile_cons_of_neg (by simp [hc])]
  have back : cs.reverse.dropWhile isBlank = cs.reverse := by
    rw [← List.head?_reverse] at last
    obtain ⟨rest, e⟩ := List.head?_eq_some_iff.mp last
    rw [e, List.dropWhile_cons_of_neg (by simp [hd])]
  rw [trim, front, dropBlanksEnd, back, List.reverse_reverse]

/-- Braces are taken off a text without blanks at its ends. -/
theorem bare_braces {c d : Char} {body : List Char} (first : body.head? = some c)
    (last : body.getLast? = some d) (hc : Text.isBlank c = false) (hd : Text.isBlank d = false) :
    Binding.bare ('{' :: '{' :: body ++ ['}', '}']) = body := by
  have ends : ('{' :: '{' :: body ++ ['}', '}']).getLast? = some '}' := by
    have close : '{' :: '{' :: body ++ ['}', '}'] = ('{' :: '{' :: body ++ ['}']) ++ ['}'] := by simp
    rw [close, List.getLast?_concat]
  have whole : Text.trim ('{' :: '{' :: body ++ ['}', '}']) = '{' :: '{' :: body ++ ['}', '}'] :=
    Text.trim_of_ends rfl ends (by decide) (by decide)
  have inner : (body ++ ['}', '}']).reverse = '}' :: '}' :: body.reverse := by simp
  rw [Binding.bare, whole]
  simp only [List.cons_append, inner, List.reverse_reverse]
  exact Text.trim_of_ends first last hc hd

/-- The binding of a record, without its braces, is the expression it was made of. -/
theorem bare_position {list : String} (word : Binding.isWord list = true) (record : Nat) :
    String.ofList (Binding.bare (mustache
        (RowItem.expression (.position list record))).toList) =
      RowItem.expression (.position list record) := by
  obtain ⟨c, rest, text, start⟩ := Binding.exists_of_isWord word
  have braces : (mustache (RowItem.expression (.position list record))).toList =
      '{' :: '{' :: (RowItem.expression (.position list record)).toList ++ ['}', '}'] := by
    simp [mustache, String.toList_append]
  have first : (RowItem.expression (.position list record)).toList.head? = some c := by
    simp [RowItem.expression, String.toList_append, text]
  have last : (RowItem.expression (.position list record)).toList.getLast? = some ']' := by
    rw [RowItem.expression, String.toList_append]
    exact List.getLast?_concat
  rw [braces, bare_braces first last (isBlank_of_isWordStart start) (by decide),
    String.ofList_toList]

end Bare

namespace Scope

variable (s : Scope)

theorem levelName_ne {k : Nat} {text : String} (h : text.toList.head? ≠ some 'l') :
    levelName k ≠ text := by
  intro e
  apply h
  rw [← e, levelName, String.toList_ofList]
  rfl

theorem resolve_level {k : Nat} (fits : k ≤ Json.Reader.greatestUnsigned) (rest : List String) :
    s.resolve (levelName k :: rest) =
      (s.ancestor? (levelName k)).bind (fromAncestor · rest) := by
  rw [resolve, if_neg (levelName_ne (by decide)), if_neg (levelName_ne (by decide)),
    if_neg (levelName_ne (by decide)), levelOf?_levelName, if_pos fits]
  rfl

/-- A level key that no machine word holds is a name like any other. -/
theorem resolve_beyond {k : Nat} (beyond : ¬k ≤ Json.Reader.greatestUnsigned)
    (unnamed : s.names.find? (levelName k) = none) (rest : List String) :
    s.resolve (levelName k :: rest) = none := by
  rw [resolve, if_neg (levelName_ne (by decide)), if_neg (levelName_ne (by decide)),
    if_neg (levelName_ne (by decide)), levelOf?_levelName, if_neg beyond, unnamed]
  rfl

/-- The row puts the text in the place of the chain: where the chain is a reference, and so in a
binding of nothing else, if all that follows the first word are words too. -/
structure Rewrites (head : String) (rest : List String) (text : String) : Prop where
  resolved : s.resolve (head :: rest) = some text
  localized : (∀ w ∈ rest, Binding.isWord w = true) →
    Binding.localize s (mustache (join head rest)) = mustache text

/-- The row leaves the chain as it is. -/
structure Copies (head : String) (rest : List String) : Prop where
  resolved : s.resolve (head :: rest) = none
  localized : (∀ w ∈ rest, Binding.isWord w = true) →
    Binding.localize s (mustache (join head rest)) = mustache (join head rest)

variable {s} {head : String} {rest : List String} (word : Binding.isWord head = true)

include word

theorem rewrites_of_resolve {text : String} (h : s.resolve (head :: rest) = some text) :
    s.Rewrites head rest text where
  resolved := h
  localized := by
    intro words
    rw [Binding.localize_chain s (List.forall_mem_cons.mpr ⟨word, words⟩), h, Option.getD_some]

theorem copies_of_resolve (h : s.resolve (head :: rest) = none) : s.Copies head rest where
  resolved := h
  localized := by
    intro words
    rw [Binding.localize_chain s (List.forall_mem_cons.mpr ⟨word, words⟩), h, Option.getD_none]

end Scope

section Names

variable (p : Pass) (b : SlotBook) (row : WindowRow) (name : String)

theorem Pass.names_layoutIn : (p.layoutIn b row).names =
    .ofList ((p.layoutIn b row).widgets.map fun w => (w.node.name, w.name)) := rfl

/-- What an ancestor row calls a widget is what the row calls it itself. -/
theorem Pass.nameOf?_ancestorRow :
    (p.ancestorRow (p.layoutIn b row) row.place row.record).nameOf? name =
      (p.layoutIn b row).names.find? name := by
  have widgets : ∀ {α : Type} (f : RowWidget → α),
      (Keyed.ofList ((p.layoutIn b row).widgets.map fun w => (w.node.name, f w))).find? name =
        ((Keyed.ofList ((p.layoutIn b row).widgets.map fun w => (w.node.name, w))).find?
          name).map f := by
    intro α f
    rw [← Keyed.find?_ofList_map fun _ => f, List.map_map]
    rfl
  rw [names_layoutIn, widgets (·.name)]
  exact (congrArg (Option.map AncestorWidget.instanceName) (widgets _)).trans (Option.map_map ..)

theorem Pass.mem_names_layoutIn_iff :
    name ∈ (p.layoutIn b row).names.keys ↔ name ∈ p.nodes.map (·.2.name) := by
  rw [names_layoutIn, Keyed.mem_keys_ofList, layoutIn, RowLayout.ofWidgets, rowCells, List.map_map,
    List.map_map, List.map_map]
  rfl

end Names

namespace Turn

/-- The scope in which the bindings of a row are localized. -/
def scopeOf (t : Turn) (row : PassRow) : Scope :=
  t.pass.scope row.layout row.row.place row.row.record row.editable

/-- What the lists in a row are told of it. -/
def told (t : Turn) (row : PassRow) : AncestorRow :=
  t.pass.ancestorRow row.layout row.row.place row.row.record

/-- The names of the walked nodes. -/
def nodeNames (t : Turn) : List String := t.pass.nodes.map (·.2.name)

/-- The pass is made for a list inside rows of other lists: these passes with these rows, the
outermost first. Each list is one level deeper than the one around it and is handed what an instance
of it was told in the row. -/
inductive Within : List (Turn × PassRow) → Turn → Prop
  | outermost {t : Turn} (level : t.repeater.config.level = 1) (alone : t.request.ancestry = none) :
      Within [] t
  | nested {outer : List (Turn × PassRow)} {t inner : Turn} {row : PassRow} {i : Instance}
      {a : Ancestry} (around : Within outer t) (shown : row ∈ t.rows)
      (emitted : i ∈ t.pass.rendered (t.pass.compare t.repeater.shown) row)
      (list : i.ancestry = some a)
      (level : inner.repeater.config.level = t.repeater.config.level + 1)
      (handed : inner.request.ancestry = some a) :
      Within (outer ++ [(t, row)]) inner

variable {t : Turn} {outer : List (Turn × PassRow)}

theorem Within.level (h : Within outer t) : t.repeater.config.level = outer.length + 1 := by
  induction h with
  | outermost level _ => exact level
  | nested _ _ _ _ level _ ih => rw [level, ih, List.length_append, List.length_singleton]

theorem Within.row_mem (h : Within outer t) {e : Turn × PassRow} (he : e ∈ outer) :
    e.2 ∈ e.1.rows := by
  induction h with
  | outermost _ _ => cases he
  | nested _ shown _ _ _ _ ih =>
    rcases List.mem_append.mp he with he | he
    · exact ih he
    · rw [List.mem_singleton.mp he]
      exact shown

theorem ancestry_of_rendered {row : PassRow} {c : Comparison} {i : Instance} {a : Ancestry}
    (emitted : i ∈ t.pass.rendered c row) (list : i.ancestry = some a) :
    a = .extend t.request.ancestry t.repeater.config.level (t.told row) := by
  obtain ⟨w, -, rfl⟩ := List.mem_map.mp emitted
  have told : (if t.pass.isNestedList w then
      some (t.pass.nestedAncestry row.layout row.row.place row.row.record) else none) = some a :=
    list
  split at told
  · exact (Option.some.inj told).symm
  · cases told

/-- Of each list around it a nested list knows the row that contains it, and of no other level. -/
theorem Within.get? (h : Within outer t) (k : Nat) :
    t.request.ancestry.bind (·.get? (levelName (k + 1))) = outer[k]?.map fun e => e.1.told e.2 := by
  induction h with
  | outermost _ alone =>
    rw [alone]
    rfl
  | @nested outer t inner row i a around _ emitted list level handed ih =>
    have extended := ancestry_of_rendered emitted list
    have before : (t.request.ancestry.getD .empty).rows.find? (levelName (k + 1)) =
        t.request.ancestry.bind (·.get? (levelName (k + 1))) := by
      cases t.request.ancestry <;> rfl
    rw [handed, extended, Option.bind_some, Ancestry.get?, Ancestry.extend, Ancestry.withLevel,
      Keyed.find?_insert, before, ih, around.level]
    by_cases own : outer.length = k
    · subst own
      simp
    · have other : ¬levelName (outer.length + 1) = levelName (k + 1) :=
        fun e => own (Nat.succ.inj (levelName_injective e))
      rw [if_neg other, List.getElem?_append]
      split
      · rfl
      · next beyond =>
        have behind : [(t, row)][k - outer.length]? = none := by
          rw [List.getElem?_eq_none_iff, List.length_singleton]
          omega
        rw [behind, List.getElem?_eq_none (Nat.le_of_not_lt beyond)]

section Row

variable {row : PassRow} (hrow : row ∈ t.rows)

include hrow

theorem names_of_row (name : String) :
    (row.layout.names.find? name).isSome = true ↔ name ∈ t.nodeNames := by
  obtain ⟨-, -, layout⟩ := row_of_mem_rows hrow
  rw [layout, Keyed.find?_isSome_iff]
  exact Pass.mem_names_layoutIn_iff _ _ _ name

theorem nameOf?_told (name : String) : (t.told row).nameOf? name = row.layout.names.find? name := by
  obtain ⟨-, -, layout⟩ := row_of_mem_rows hrow
  rw [told, layout]
  exact Pass.nameOf?_ancestorRow _ _ _ name

end Row

/-- In the rows of a list a chain `level_k` stands for what the row around it at depth `k` says
itself. -/
structure Reads (t : Turn) (row : PassRow) (k : Nat) (u : Turn) (r : PassRow)
    (tail : List String) : Prop where
  item : (t.scopeOf row).Rewrites (levelName k) ("currentItem" :: tail)
    (Scope.join (u.pass.listName ++ ".listData[" ++ decimal r.row.place.record ++ "]") tail)
  index : (t.scopeOf row).Rewrites (levelName k) ("currentIndex" :: tail)
    (Scope.join (decimal r.row.place.index) tail)
  view : ∀ name ∈ u.nodeNames, ∃ text,
    (t.scopeOf row).Rewrites (levelName k) ("currentView" :: name :: tail) text ∧
    (u.scopeOf r).Rewrites "currentView" (name :: tail) text

theorem Within.reads (h : Within outer t)
    (fits : t.repeater.config.level ≤ Json.Reader.greatestUnsigned) (row : PassRow) {k : Nat}
    {u : Turn} {r : PassRow} (around : outer[k]? = some (u, r))
    (list : Binding.isWord u.pass.listName = true) (hr : r ∈ u.rows) (tail : List String) :
    t.Reads row (k + 1) u r tail := by
  have within : k < outer.length := (List.getElem?_eq_some_iff.mp around).1
  have known : (t.scopeOf row).ancestor? (levelName (k + 1)) = some (u.told r) := by
    have told := h.get? k
    rwa [around] at told
  have resolved : ∀ rest, (t.scopeOf row).resolve (levelName (k + 1) :: rest) =
      Scope.fromAncestor (u.told r) rest := by
    intro rest
    rw [Scope.resolve_level _ (by have := h.level; omega), known]
    rfl
  refine ⟨?_, ?_, ?_⟩
  · apply Scope.rewrites_of_resolve (isWord_levelName _)
    rw [resolved]
    exact congrArg (fun base => some (Scope.join base tail)) (bare_position list r.row.place.record)
  · apply Scope.rewrites_of_resolve (isWord_levelName _)
    rw [resolved]
    rfl
  · intro name walked
    obtain ⟨own, found⟩ := Option.isSome_iff_exists.mp ((names_of_row hr name).mpr walked)
    have names : (u.scopeOf r).names.find? name = some own := found
    refine ⟨Scope.join own tail, Scope.rewrites_of_resolve (isWord_levelName _) ?_,
      Scope.rewrites_of_resolve (by decide) ?_⟩
    · have called : (u.told r).nameOf? name = some own := (nameOf?_told hr name).trans found
      rw [resolved, Scope.fromAncestor, called]
      rfl
    · rw [Scope.resolve, if_neg (by decide), if_neg (by decide), if_pos rfl, Scope.fromView, names]

theorem Within.copies (h : Within outer t) {row : PassRow} (hrow : row ∈ t.rows) {k : Nat}
    (inner : t.repeater.config.level ≤ k)
    (unnamed : k ≤ Json.Reader.greatestUnsigned ∨ levelName k ∉ t.nodeNames) (rest : List String) :
    (t.scopeOf row).Copies (levelName k) rest := by
  apply Scope.copies_of_resolve (isWord_levelName k)
  obtain ⟨k, rfl⟩ : ∃ j, k = j + 1 := ⟨k - 1, by have := h.level; omega⟩
  by_cases fits : k + 1 ≤ Json.Reader.greatestUnsigned
  · have unknown : (t.scopeOf row).ancestor? (levelName (k + 1)) = none := by
      have told := h.get? k
      rwa [List.getElem?_eq_none (by have := h.level; omega)] at told
    rw [Scope.resolve_level _ fits, unknown]
    rfl
  · have absent := unnamed.resolve_left fits
    rw [← names_of_row hrow, Option.isSome_iff_ne_none, not_not] at absent
    exact Scope.resolve_beyond _ fits absent rest

/-- Through any number of nested lists the chains that start with the key of a level stand for what
the row at that depth says itself. A level that is not around the list is left alone, but for a key
with a number that no machine word holds, which may be the name of a widget. -/
theorem within_refers (outer : List (Turn × PassRow)) (t : Turn) (within : Within outer t)
    (fits : t.repeater.config.level ≤ Json.Reader.greatestUnsigned)
    (lists : ∀ e ∈ outer, Binding.isWord e.1.pass.listName = true) (row : PassRow)
    (hrow : row ∈ t.rows) :
    t.repeater.config.level = outer.length + 1 ∧
    (∀ k u r, outer[k]? = some (u, r) → ∀ tail, t.Reads row (k + 1) u r tail) ∧
    ∀ k, t.repeater.config.level ≤ k →
      (k ≤ Json.Reader.greatestUnsigned ∨ levelName k ∉ t.nodeNames) →
      ∀ rest, (t.scopeOf row).Copies (levelName k) rest := by
  refine ⟨within.level, fun k u r around tail => ?_, fun k inner unnamed rest => ?_⟩
  · have member := List.mem_of_getElem? around
    have list : Binding.isWord u.pass.listName = true := lists (u, r) member
    have hr : r ∈ u.rows := within.row_mem member
    exact within.reads fits row around list hr tail
  · exact within.copies hrow inner unnamed rest

section Samples

open Sample

/-- The first pass of a list at some depth. -/
def passAt (level : Nat) (list : String) (l : ListSample) (around : Option Ancestry) : Turn :=
  ⟨.create { benchConfig with level := level } none, .empty,
    { requestFor l records with listName := list, ancestry := around }⟩

/-- What the lists in the second row are handed. -/
def handed (t : Turn) : Option Ancestry :=
  (t.rows[1]?).bind fun row => (t.pass.rendered (t.pass.compare none) row).findSome? (·.ancestry)

/-- A list in a row of a list in a row of the outermost one. -/
def first : Turn := passAt 1 "List1" nested none
def second : Turn := passAt 2 "List6" nested first.handed
def third : Turn := passAt 3 "List9" inner second.handed

theorem within_refers_third : ∃ r₁ r₂ row, Within [(first, r₁), (second, r₂)] third ∧
    third.repeater.config.level ≤ Json.Reader.greatestUnsigned ∧
    (∀ e ∈ [(first, r₁), (second, r₂)], Binding.isWord e.1.pass.listName = true) ∧
    row ∈ third.rows ∧
    Binding.localize (third.scopeOf row) (mustache "level_1.currentItem.name") =
      mustache "List1.listData[1].name" ∧
    Binding.localize (third.scopeOf row) (mustache "level_2.currentIndex") = mustache "1" ∧
    (third.scopeOf row).Copies "level_3" ["currentIndex"] := by
  have told₁ : ∃ r ∈ first.rows, ∃ i ∈ first.pass.rendered (first.pass.compare none) r,
      i.ancestry.isSome = true ∧ i.ancestry = first.handed ∧ r.row.place.record = 1 := by
    decide +kernel
  have told₂ : ∃ r ∈ second.rows, ∃ i ∈ second.pass.rendered (second.pass.compare none) r,
      i.ancestry.isSome = true ∧ i.ancestry = second.handed ∧ r.row.place.index = 1 := by
    decide +kernel
  have shown : third.rows ≠ [] := by decide +kernel
  obtain ⟨r₁, hr₁, i₁, hi₁, some₁, handed₁, record⟩ := told₁
  obtain ⟨r₂, hr₂, i₂, hi₂, some₂, handed₂, index⟩ := told₂
  obtain ⟨a₁, list₁⟩ := Option.isSome_iff_exists.mp some₁
  obtain ⟨a₂, list₂⟩ := Option.isSome_iff_exists.mp some₂
  obtain ⟨row, hrow⟩ := List.exists_mem_of_ne_nil _ shown
  have within : Within [(first, r₁), (second, r₂)] third :=
    .nested (.nested (.outermost rfl rfl) hr₁ hi₁ list₁ rfl (handed₁.symm.trans list₁)) hr₂ hi₂
      list₂ rfl (handed₂.symm.trans list₂)
  have fits : third.repeater.config.level ≤ Json.Reader.greatestUnsigned := by decide
  have lists : ∀ e ∈ [(first, r₁), (second, r₂)], Binding.isWord e.1.pass.listName = true := by
    rw [List.forall_mem_cons, List.forall_mem_singleton]
    exact ⟨(by decide +kernel : Binding.isWord first.pass.listName = true),
      (by decide +kernel : Binding.isWord second.pass.listName = true)⟩
  obtain ⟨-, reads, copies⟩ := within_refers _ third within fits lists row hrow
  have item := (reads 0 first r₁ rfl ["name"]).item.localized (by decide)
  have index' := (reads 1 second r₂ rfl []).index.localized (by decide)
  rw [record] at item
  rw [index] at index'
  exact ⟨r₁, r₂, row, within, fits, lists, hrow, item, index',
    copies 3 (by decide) (Or.inl (by decide)) ["currentIndex"]⟩

/-- A row with a text whose name is a level key with a number that no machine word holds. -/
def oddlyNamed : Turn :=
  let text := node ⟨"text"⟩ ⟨"row"⟩ "level_18446744073709551616" "TEXT_WIDGET" []
  ⟨.create { Config.standard with mode := .page } none, .empty,
    { Request.blank "" ⟨"main"⟩ ⟨"row"⟩ (.ofNodes
        [node ⟨"row"⟩ ⟨"main"⟩ "Row" "CONTAINER_WIDGET" [⟨"text"⟩],
         withText text "text" (mustache "level_18446744073709551616.currentIndex")]) with
      records := [.null]
      keys := [.ofNat 0] }⟩

/-- The chain is taken for a reference to the text. -/
theorem not_copies_beyond :
    ¬∀ (outer : List (Turn × PassRow)) (t : Turn), Within outer t →
      t.repeater.config.level ≤ Json.Reader.greatestUnsigned →
      (∀ e ∈ outer, Binding.isWord e.1.pass.listName = true) →
      (∀ name ∈ t.nodeNames, Binding.isWord name = true) →
      ∀ row ∈ t.rows, ∀ k, t.repeater.config.level ≤ k →
        ∀ rest, (t.scopeOf row).Copies (levelName k) rest := by
  intro claim
  have taken : ∃ row ∈ oddlyNamed.rows,
      (oddlyNamed.scopeOf row).resolve [levelName 18446744073709551616, "currentIndex"] ≠ none := by
    decide +kernel
  obtain ⟨row, hrow, taken⟩ := taken
  exact taken (claim [] oddlyNamed (.outermost rfl rfl) (by decide) (fun _ h => (nomatch h))
    (by decide +kernel) row hrow _ (by decide) ["currentIndex"]).resolved

end Samples

end Turn

end ListRepeater
