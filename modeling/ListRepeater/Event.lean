import ListRepeater.Id
/-!
# Events worth a note

What a repeater notes while it works, as values with a severity and a text.
-/
namespace ListRepeater

inductive Severity where
  | trace
  | debug
  | warning
  deriving DecidableEq

def Severity.label : Severity → String
  | .trace => "TRACE"
  | .debug => "DEBUG"
  | .warning => "WARN"

def flagText (b : Bool) : String := if b then "true" else "false"

/-- Counts of one pass. -/
structure PassSummary where
  list : String
  rows : Nat
  rebuilt : Nat
  reset : Bool
  changes : Nat
  generated : Nat
  removed : Nat
  deriving DecidableEq

inductive Event where
  | rootMissing (root : WidgetId)
  | childMissing (child : WidgetId)
  | levelMissing (key : String)
  | slotRecycles (slot : Slot) (id : WidgetId)
  | slotMints (slot : Slot) (id : WidgetId)
  | storedIdsIgnored (list : String)
  | otherBaseline (list : String)
  | duplicateKey (list : String) (key : RowKey) (view : Nat)
  | rowRebuilt (list : String) (place : Place)
  | passDone (summary : PassSummary)
  deriving DecidableEq

namespace Event

def severity : Event → Severity
  | .rootMissing _ | .childMissing _ | .duplicateKey .. => .warning
  | .storedIdsIgnored _ | .passDone _ => .debug
  | .levelMissing _ | .slotRecycles .. | .slotMints .. | .otherBaseline _ | .rowRebuilt .. => .trace

def message : Event → String
  | .rootMissing root => "template root " ++ root.text ++ " missing; nothing to walk"
  | .childMissing child => "template child " ++ child.text ++ " has no node; skipping"
  | .levelMissing key => "no context for " ++ key ++ "; leaving reference as is"
  | .slotRecycles slot id => "slot " ++ slot.text ++ " recycles " ++ id.text
  | .slotMints slot id => "slot " ++ slot.text ++ " mints " ++ id.text
  | .storedIdsIgnored list => list ++ ": cloned list, ignoring stored identities"
  | .otherBaseline list => list ++ ": comparing against the last rendered template"
  | .duplicateKey list key view =>
    list ++ ": duplicate primary key " ++ key.text ++ " at view index " ++ decimal view
  | .rowRebuilt list place =>
    list ++ ": rebuilding row " ++ decimal place.index ++ " (" ++ place.key.text ++ ")"
  | .passDone s =>
    s.list ++ ": " ++ decimal s.rows ++ " rows (" ++ decimal s.rebuilt ++ " rebuilt, reset: "
      ++ flagText s.reset ++ ", template changes: " ++ decimal s.changes ++ "), "
      ++ decimal s.generated ++ " generated, " ++ decimal s.removed ++ " removed"

def line (e : Event) : String := e.severity.label ++ " " ++ e.message

end Event

end ListRepeater
