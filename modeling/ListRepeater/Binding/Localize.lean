import ListRepeater.Ancestry
import ListRepeater.Binding.Reference
import ListRepeater.Template.Field
/-!
# Localizing bindings to a row

A binding of a template speaks of `currentItem`, `currentIndex` and `currentView`, of the rows
around it as `level_n`, and of other widgets by their template names. `localize` replaces every
reference that a row can resolve by an expression that means the same outside the template; all
other text is kept.
-/
namespace ListRepeater

/-- How a row speaks of its record: by its value or by its position in the data of the list. -/
inductive RowItem where
  | value (record : Json)
  | position (list : String) (record : Nat)
  deriving DecidableEq

namespace RowItem

def expression : RowItem → String
  | .value record => "(" ++ record.compact ++ ")"
  | .position list record => list ++ ".listData[" ++ decimal record ++ "]"

def toField : RowItem → Field
  | .value record => .literal record
  | .position list record => .binding (mustache (RowItem.expression (.position list record)))

end RowItem

/-- What is known of a row when its bindings are localized. -/
structure Scope where
  place : Place
  item : RowItem
  /-- The names in this row of the widgets under their template names. -/
  names : Keyed String String
  /-- The object literal of what the widgets of the row expose. -/
  view : String
  ancestry : Option Ancestry

namespace Scope

/-- An expression with further words behind it. -/
def join (base : String) (words : List String) : String :=
  words.foldl (fun out w => out ++ "." ++ w) base

def fromView (s : Scope) : List String → String
  | [] => join ("(" ++ s.view ++ ")") []
  | name :: tail =>
    match s.names.find? name with
    | some own => join own tail
    | none => join ("(" ++ s.view ++ ")") (name :: tail)

/-- What a reference to an ancestor row stands for. -/
def fromAncestor (row : AncestorRow) : List String → Option String
  | "currentItem" :: tail =>
    some (join (String.ofList (Binding.bare row.item.toList)) tail)
  | "currentIndex" :: tail => some (join (decimal row.index) tail)
  | ["currentView"] => some ("(" ++ row.viewText ++ ")")
  | "currentView" :: name :: tail => (row.nameOf? name).map fun own => join own tail
  | _ => none

def ancestor? (s : Scope) (key : String) : Option AncestorRow := s.ancestry.bind (·.get? key)

/-- What a chain of words stands for, if the row resolves its first word. -/
def resolve (s : Scope) : List String → Option String
  | [] => none
  | head :: rest =>
    if head = "currentItem" then some (join s.item.expression rest)
    else if head = "currentIndex" then some (join (decimal s.place.index) rest)
    else if head = "currentView" then some (s.fromView rest)
    else if (levelOf? head).isSome then (s.ancestor? head).bind (fromAncestor · rest)
    else
      match s.names.find? head with
      | some own => if own = head then none else some (join own rest)
      | none => none

/-- The level key of a reference to an ancestor row that the scope does not hold. -/
def missingLevel? (s : Scope) : List String → Option String
  | [] => none
  | head :: _ =>
    if head ≠ "currentItem" ∧ head ≠ "currentIndex" ∧ head ≠ "currentView"
      ∧ (levelOf? head).isSome ∧ (s.ancestor? head).isNone then some head
    else none

end Scope

namespace Binding

/-- A stretch of a text and what takes its place. -/
structure Edit where
  start : Nat
  stop : Nat
  text : List Char
  deriving DecidableEq

/-- The text from position `pos` on with the edits applied, which come in order. -/
def splice (pos : Nat) (cs : List Char) : List Edit → List Char
  | [] => cs
  | e :: rest =>
    cs.take (e.start - pos) ++ e.text ++ splice e.stop (cs.drop (e.stop - pos)) rest

def localizeExpression (s : Scope) (expr : List Char) : List Char :=
  splice 0 expr ((references expr).filterMap fun c =>
    (s.resolve c.words).map fun text => ⟨c.start, c.stop, text.toList⟩)

def localizeChars (s : Scope) (cs : List Char) : List Char :=
  ((parse cs).mapBodies (localizeExpression s)).render

def localize (s : Scope) (text : String) : String := String.ofList (localizeChars s text.toList)

def localizeField (s : Scope) : Field → Field
  | .binding text => .binding (localize s text)
  | .literal v => .literal v

/-- The levels that the references of a text ask for in vain, in order and with repetition. -/
def missingLevels (s : Scope) (text : String) : List String :=
  (parse text.toList).segments.flatMap fun seg =>
    (references seg.2).filterMap fun c => s.missingLevel? c.words

def missingLevelsField (s : Scope) : Field → List String
  | .binding text => missingLevels s text
  | .literal _ => []

end Binding

end ListRepeater
