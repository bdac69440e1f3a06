import ListRepeater.Json.Printer
/-!
# Identifiers

Widgets have ids, whether authored or given to an instance. Rows have keys, taken from a column of
their record or from its position. A slot is one authored widget in one row.
-/
namespace ListRepeater

structure WidgetId where
  text : String
  deriving DecidableEq, Inhabited

structure RowKey where
  text : String
  deriving DecidableEq, Inhabited

/-- The key of a value: a string as it is, any other value in its written form. So the number 1 and
the string of its digit name the same row. -/
def RowKey.ofJson : Json → RowKey
  | .str s => ⟨s⟩
  | v => ⟨v.compact⟩

/-- The decimal digits of a number. -/
def decimal (n : Nat) : String := String.ofList (Json.natText n)

def RowKey.ofNat (n : Nat) : RowKey := ⟨decimal n⟩

structure Slot where
  row : RowKey
  template : WidgetId
  deriving DecidableEq, Inhabited

def Slot.text (k : Slot) : String := k.row.text ++ "/" ++ k.template.text

/-- Where a row stands: its index across pages, its position in the shown window, the position of
its record in the data, and its key. -/
structure Place where
  index : Nat
  view : Nat
  record : Nat
  key : RowKey
  deriving DecidableEq

end ListRepeater
