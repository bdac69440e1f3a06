import ListRepeater.Repeater.Basic
import ListRepeater.Sample.Lists
/-!
# A bench for repeaters

A bench holds a repeater, the request it is driven with and the snapshot that it stored last. It is
set up with a first pass, after which the template of the request counts as rendered. A pass that
fails ends the run on the bench.
-/
namespace ListRepeater.Sample

def benchConfig : Config := { Config.standard with stem := "test", listName := "List1" }

/-- Eight, as a length on the canvas. -/
def eight : Binary64 := ⟨false, Binary64.powTwo 52, -49, by decide⟩

def twelve : Binary64 := ⟨false, 3 * Binary64.powTwo 51, -49, by decide⟩

/-- A request for a sample list over records keyed by `id`, two rows a page. -/
def requestFor (l : ListSample) (records : List Json) : Request :=
  { Request.blank "List1" l.mount l.root l.template with
    records := records
    keys := idKeys records
    pageNo := 1
    pageSize := 2
    itemSpacing := eight
    bottomRow := twelve }

def benchRequest : Request := requestFor simple records

structure Bench where
  repeater : Repeater
  request : Request
  stored : Option Snapshot
  initial : Emission

/-- Why a run on the bench ended. -/
inductive BenchFailure where
  | setUp (cause : RequestError)
  | later (cause : RequestError)
  deriving DecidableEq

def BenchFailure.message : BenchFailure → String
  | .setUp e => "initial generation failed: " ++ e.message
  | .later e => "generation failed: " ++ e.message

namespace Bench

/-- The repeater of a bench before its first pass. -/
def fresh (c : Config) (q : Request) : Repeater := (Repeater.create c none).withRequest q

def setUp (c : Config) (q : Request) : Except BenchFailure Bench :=
  match (fresh c q).advance with
  | .ok out => .ok ⟨out.next, q.commit, some out.saved, out.emission⟩
  | .error e => .error (.setUp e)

/-- A pass with another request, which the bench does not keep. -/
def advanceWith (b : Bench) (q : Request) : Except BenchFailure (Outcome × Bench) :=
  match (b.repeater.withRequest q).advance with
  | .ok out => .ok (out, { b with repeater := out.next, stored := some out.saved })
  | .error e => .error (.later e)

/-- A pass with the request of the bench. -/
def advance (b : Bench) : Except BenchFailure (Outcome × Bench) := b.advanceWith b.request

end Bench

/-- How many instances of each kind were made, in the order the kinds come up. -/
def kindCounts (e : Emission) : Keyed String Nat :=
  e.instances.values.foldl (fun counts i =>
    counts.insert i.kind ((counts.find? i.kind).getD 0 + 1)) .empty

/-- Whether exactly these numbers of instances were made. -/
def hasKinds (e : Emission) (expected : List (String × Nat)) : Bool :=
  let counts := kindCounts e
  e.instances.size == total (expected.map Prod.snd)
    && expected.all fun x => (counts.find? x.1).getD 0 == x.2

/-- The kinds in a number of full rows of the simple list. -/
def simpleKinds (rows : Nat) : List (String × Nat) :=
  [("CANVAS_WIDGET", rows), ("CONTAINER_WIDGET", rows), ("IMAGE_WIDGET", rows),
   ("TEXT_WIDGET", 2 * rows), ("INPUT_WIDGET_V2", rows)]

end ListRepeater.Sample
