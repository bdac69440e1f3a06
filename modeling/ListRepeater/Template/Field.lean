import ListRepeater.Binding.Segment
import ListRepeater.Json.Printer
/-!
# Fields of a widget

A field holds a value as it was authored or a binding, a text whose segments are localized for each
row. Which of the two an authored value is depends only on whether it is a string with a segment.
-/
namespace ListRepeater

inductive Field where
  | literal (value : Json)
  | binding (text : String)
  deriving DecidableEq, Inhabited

namespace Field

def ofJson : Json → Field
  | .str s => if Binding.hasSegment s.toList then .binding s else .literal (.str s)
  | v => .literal v

def toJson : Field → Json
  | .literal v => v
  | .binding text => .str text

def binding? : Field → Option String
  | .binding text => some text
  | .literal _ => none

def literal? : Field → Option Json
  | .literal v => some v
  | .binding _ => none

/-- Equality that does not see the sign of a zero. -/
def same : Field → Field → Bool
  | .literal a, .literal b => a.same b
  | .binding a, .binding b => a == b
  | _, _ => false

end Field

end ListRepeater
