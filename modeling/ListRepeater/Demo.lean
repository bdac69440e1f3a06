import ListRepeater.Repeater.Report
import ListRepeater.Sample.Bench
/-!
# A demonstration

Pages through the simple sample list on a canvas and on a page, then shows the nested list and what
it hands to the list inside its first row. The result is the lines to print, or the error that ended
the demonstration after them.
-/
namespace ListRepeater.Demo

open Sample

def padLeft (width : Nat) (s : String) : String :=
  String.ofList (List.replicate (width - s.length) ' ') ++ s

def padRight (width : Nat) (s : String) : String :=
  s ++ String.ofList (List.replicate (width - s.length) ' ')

def instanceLine (i : Instance) : String :=
  "  row " ++ padLeft 2 (decimal i.rowIndex) ++ " " ++ padRight 24 i.name ++ " "
    ++ padRight 12 i.id.text ++ " "
    ++ Text.optional (((i.props.find? "text").bind Field.binding?).map Text.quoted)

def report (step : String) (e : Emission) : List String :=
  (step ++ ": " ++ decimal e.instances.size ++ " generated, " ++ decimal e.removed.length
    ++ " removed") :: e.instances.values.map instanceLine

/-- Lines printed so far and the error that ended the run, if any. -/
structure Run where
  lines : List String
  failure : Option RequestError

/-- One pass after the other over the pages in `steps`, each reported under its name, and the names
of the row containers at the end. -/
def pages (q : Request) : Repeater → List (String × Nat) → Run
  | r, [] => ⟨["containers: " ++ Text.listed (r.containerNames.map Text.quoted)], none⟩
  | r, (name, pageNo) :: rest =>
    match (r.withRequest { q with pageNo := pageNo }).advance with
    | .error e => ⟨[], some e⟩
    | .ok out =>
      let more := pages q out.next rest
      ⟨report name out.emission ++ more.lines, more.failure⟩

def paging (mode : Mode) : Run :=
  let run := pages benchRequest (.create { benchConfig with mode := mode } none)
    [("page 1", 1), ("page 2", 2), ("page 1 again", 1)]
  { run with lines := ("--- " ++ mode.name ++ " mode ---") :: run.lines }

def contextLines (e : Emission) : List String :=
  match (e.instances.find? innerList).bind (·.ancestry) with
  | none => []
  | some a =>
    ("context handed to " ++ innerList.text ++ ":") :: a.toJson.pretty.splitOn "\n"

def nesting : Run :=
  let head := "--- nested list ---"
  match ((Repeater.create benchConfig none).withRequest (requestFor nested records)).advance with
  | .error e => ⟨[head], some e⟩
  | .ok out => ⟨head :: report "outer" out.emission ++ contextLines out.emission, none⟩

def Run.andThen (a b : Run) : Run :=
  match a.failure with
  | some e => ⟨a.lines, some e⟩
  | none => ⟨a.lines ++ b.lines, b.failure⟩

def run : Run := ((paging .canvas).andThen (paging .page)).andThen nesting

/-- What a run tells the system when it ends. -/
def Run.exitCode (r : Run) : Nat := if r.failure.isSome then 1 else 0

end ListRepeater.Demo
