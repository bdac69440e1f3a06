import ListRepeater.Number.Binary64
/-!
# JSON values

A `Json` tree keeps the members of an object in the order in which they were written, repeated keys
included. `normalize` sorts the members by key and keeps the last of repeated ones; a record is a
normalized tree, so equal records are equal trees. `same` is equality that does not see the sign of
a zero; an integer never equals a floating-point number.
-/
namespace ListRepeater

inductive Json where
  | null
  | bool (b : Bool)
  | int (n : Int)
  | double (d : Binary64)
  | str (s : String)
  | arr (items : List Json)
  | obj (members : List (String × Json))
  deriving Inhabited

namespace Json

mutual

/-- Equality as a test. -/
def eqTest : Json → Json → Bool
  | .null, .null => true
  | .bool a, .bool b => a == b
  | .int a, .int b => a == b
  | .double a, .double b => decide (a = b)
  | .str a, .str b => a == b
  | .arr a, .arr b => eqTestItems a b
  | .obj a, .obj b => eqTestMembers a b
  | _, _ => false
  termination_by structural a => a

def eqTestItems : List Json → List Json → Bool
  | [], [] => true
  | a :: as, b :: bs => eqTest a b && eqTestItems as bs
  | _, _ => false
  termination_by structural a => a

def eqTestMembers : List (String × Json) → List (String × Json) → Bool
  | [], [] => true
  | (j, a) :: as, (k, b) :: bs => j == k && eqTest a b && eqTestMembers as bs
  | _, _ => false
  termination_by structural a => a

end

mutual

theorem eqTest_iff : ∀ a b : Json, eqTest a b = true ↔ a = b
  | .null, b => by cases b <;> simp [eqTest]
  | .bool a, b => by cases b <;> simp [eqTest]
  | .int a, b => by cases b <;> simp [eqTest]
  | .double a, b => by cases b <;> simp [eqTest]
  | .str a, b => by cases b <;> simp [eqTest]
  | .arr a, b => by cases b <;> simp [eqTest, eqTestItems_iff a]
  | .obj a, b => by cases b <;> simp [eqTest, eqTestMembers_iff a]

theorem eqTestItems_iff : ∀ a b : List Json, eqTestItems a b = true ↔ a = b
  | [], b => by cases b <;> simp [eqTestItems]
  | a :: as, b => by cases b <;> simp [eqTestItems, eqTest_iff a, eqTestItems_iff as]

theorem eqTestMembers_iff : ∀ a b : List (String × Json), eqTestMembers a b = true ↔ a = b
  | [], b => by cases b <;> simp [eqTestMembers]
  | (j, a) :: as, b => by
    cases b with
    | nil => simp [eqTestMembers]
    | cons e bs =>
      obtain ⟨k, b⟩ := e
      simp [eqTestMembers, eqTest_iff a, eqTestMembers_iff as]

end

instance : DecidableEq Json := fun a b => decidable_of_iff _ (eqTest_iff a b)

/-- Puts a member in its place among members sorted by key, over an earlier one of the same key. -/
def putSorted (k : String) (v : Json) : List (String × Json) → List (String × Json)
  | [] => [(k, v)]
  | e :: rest =>
    if e.1 = k then (k, v) :: rest
    else if k < e.1 then (k, v) :: e :: rest
    else e :: putSorted k v rest

def sortMembers (members : List (String × Json)) : List (String × Json) :=
  members.foldl (fun acc e => putSorted e.1 e.2 acc) []

mutual

/-- The tree with the members of every object sorted by key, the last of repeated ones kept. -/
def normalize : Json → Json
  | .arr items => .arr (normalizeItems items)
  | .obj members => .obj (sortMembers (normalizeMembers members))
  | .null => .null
  | .bool b => .bool b
  | .int n => .int n
  | .double d => .double d
  | .str s => .str s
  termination_by structural v => v

def normalizeItems : List Json → List Json
  | [] => []
  | v :: rest => normalize v :: normalizeItems rest
  termination_by structural vs => vs

def normalizeMembers : List (String × Json) → List (String × Json)
  | [] => []
  | (k, v) :: rest => (k, normalize v) :: normalizeMembers rest
  termination_by structural es => es

end

mutual

/-- The tree with every zero made positive. -/
def dropZeroSigns : Json → Json
  | .arr items => .arr (dropZeroSignsItems items)
  | .obj members => .obj (dropZeroSignsMembers members)
  | .double d => .double d.dropZeroSign
  | .null => .null
  | .bool b => .bool b
  | .int n => .int n
  | .str s => .str s
  termination_by structural v => v

def dropZeroSignsItems : List Json → List Json
  | [] => []
  | v :: rest => dropZeroSigns v :: dropZeroSignsItems rest
  termination_by structural vs => vs

def dropZeroSignsMembers : List (String × Json) → List (String × Json)
  | [] => []
  | (k, v) :: rest => (k, dropZeroSigns v) :: dropZeroSignsMembers rest
  termination_by structural es => es

end

/-- Equality of values: the sign of a zero is not seen. -/
def same (a b : Json) : Bool := decide (a.dropZeroSigns = b.dropZeroSigns)

/-- The member of an object under `key`, the last one if the key is repeated. -/
def get? (key : String) : Json → Option Json
  | .obj members => (members.reverse.find? (fun e => e.1 == key)).map Prod.snd
  | _ => none

end Json

end ListRepeater
