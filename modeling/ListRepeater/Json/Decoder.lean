import ListRepeater.Json.Reader
import ListRepeater.Keyed
/-!
# Decoders

A decoder reads a value of one shape from the front of a JSON text. Text of any other shape is
misshapen from the point where that shows: a scalar is read through first, an array or object is not
entered, and a member that stands twice is refused at its key.

A structure may be written as an object, where unknown members are passed over, or as the array of
its fields in order; an array with more items than fields is malformed behind the last field. Only
an object can be read as a map; of a repeated key it keeps the first place and the last value.
-/
namespace ListRepeater.Json

/-- Reads from the front of a text of at most `size` characters, which may open `depth` arrays and
objects inside each other. -/
abbrev Decoder (α : Type) := (size depth : Nat) → List Char → Except Fault (Reader.Front α)

namespace Decoder

variable {α β κ σ : Type}

def map (f : α → β) (d : Decoder α) : Decoder β := fun size depth cs => do
  let (x, rest) ← d size depth cs
  return (f x, rest)

/-- Any value. -/
def tree : Decoder Json := Reader.value

/-- Any value, which is passed over and changes nothing. -/
def ignored : Decoder (σ → σ) := fun size _ cs => do return (id, ← Reader.skip size cs)

/-- A scalar with an image under `f`. -/
def scalar (f : Json → Option α) : Decoder α := fun size _ cs =>
  match Reader.skipBlanks cs with
  | '[' :: _ => .error .misshapen
  | '{' :: _ => .error .misshapen
  | cs => do
    let (v, rest) ← Reader.scalar size cs
    match f v with
    | some x => return (x, rest)
    | none => .error .misshapen

/-- No value at all, whatever stands there. -/
def refused : Decoder α := scalar fun _ => none

def string : Decoder String :=
  scalar fun v =>
    match v with
    | .str s => some s
    | _ => none

/-- A count of 64 bits. -/
def count : Decoder Nat :=
  scalar fun v =>
    match v with
    | .int n => if 0 ≤ n then some n.toNat else none
    | _ => none

def optional (d : Decoder α) : Decoder (Option α) := fun size depth cs =>
  match Reader.skipBlanks cs with
  | 'n' :: rest => do return (none, ← Reader.word ['u', 'l', 'l'] rest)
  | cs => d.map some size depth cs

/-- A value with one container fewer left to open inside it. -/
def nested (d : Decoder α) : Decoder α := fun size depth cs =>
  match depth with
  | 0 => .error .malformed
  | depth + 1 => d size depth cs

/-- The items of an array, whose opening bracket is read. -/
def items (item : Decoder α) : Decoder (List α) := fun size depth cs =>
  Reader.elements (item size depth) size true cs

def list (item : Decoder α) : Decoder (List α) := fun size depth cs =>
  match Reader.skipBlanks cs with
  | '[' :: rest => nested (items item) size depth rest
  | cs => refused size depth cs

end Decoder

/-- A known member of an object: how its value changes what was read before it. -/
structure Member (σ : Type) where
  name : String
  value : Decoder (σ → σ)

/-- What is read from an object: a start value that its members change. -/
structure Shape (σ : Type) where
  start : σ
  members : List (Member σ)
  /-- The names of the members that have to be there. -/
  needed : List String
  /-- What a member of any other name does. -/
  other : String → Decoder (σ → σ)

namespace Shape

variable {κ σ : Type} (sh : Shape σ)

/-- A structure, whose fields all have to be there and which knows no other members. -/
def ofFields (start : σ) (members : List (Member σ)) : Shape σ :=
  ⟨start, members, members.map Member.name, fun _ => Decoder.ignored⟩

/-- A map, whose members all have values of one shape. -/
def keyed [DecidableEq κ] {α : Type} (key : String → κ) (value : Decoder α) : Shape (Keyed κ α) :=
  ⟨.empty, [], [], fun k => value.map fun v m => m.insert (key k) v⟩

def member? (name : String) : Option (Member σ) := sh.members.find? (·.name == name)

/-- What was read of an object so far, with the names of the known members among it. -/
structure Progress (σ : Type) where
  seen : List String
  value : σ

/-- How to read on behind a key. -/
def step (size depth : Nat) (p : Progress σ) (name : String) :
    Except Fault (List Char → Except Fault (Reader.Front (Progress σ))) :=
  match sh.member? name with
  | some m =>
    if p.seen.contains name then .error .misshapen
    else .ok (m.value.map (fun f => ⟨name :: p.seen, f p.value⟩) size depth)
  | none => .ok ((sh.other name).map (fun f => ⟨p.seen, f p.value⟩) size depth)

/-- The members of an object, whose opening brace is read. -/
def body : Decoder σ := fun size depth cs => do
  let (p, rest) ← Reader.members (Reader.string size) (sh.step size depth) size true
    ⟨[], sh.start⟩ cs
  if sh.needed.all p.seen.contains then return (p.value, rest) else .error .misshapen

/-- The fields in order, as the items of an array whose opening bracket is read. -/
def fieldsFrom (size depth : Nat) :
    List (Member σ) → (first : Bool) → σ → List Char → Except Fault (Reader.Front σ)
  | [], _, s, cs =>
    match Reader.skipBlanks cs with
    | [] => .error .truncated
    | c :: rest => if c = ']' then .ok (s, rest) else .error .malformed
  | m :: more, first, s, cs => do
    match ← Reader.next ']' first cs with
    | .closed _ => .error .misshapen
    | .element cs =>
      let (f, rest) ← m.value size depth cs
      fieldsFrom size depth more false (f s) rest

end Shape

namespace Decoder

variable {κ σ : Type}

/-- An object of the shape. -/
def object (sh : Shape σ) : Decoder σ := fun size depth cs =>
  match Reader.skipBlanks cs with
  | '{' :: rest => nested sh.body size depth rest
  | cs => refused size depth cs

/-- An object of the shape, or the array of its known members in order. -/
def fields (sh : Shape σ) : Decoder σ := fun size depth cs =>
  match Reader.skipBlanks cs with
  | '{' :: rest => nested sh.body size depth rest
  | '[' :: rest =>
    nested (fun size depth cs => Shape.fieldsFrom size depth sh.members true sh.start cs) size depth
      rest
  | cs => refused size depth cs

def keyed [DecidableEq κ] {α : Type} (key : String → κ) (value : Decoder α) :
    Decoder (Keyed κ α) :=
  object (.keyed key value)

/-- The value that fills the text. -/
def read {α : Type} (d : Decoder α) (text : String) : Except Fault α := do
  let (x, rest) ← d (text.length + 1) 127 text.toList
  if (Reader.skipBlanks rest).isEmpty then return x else .error .malformed

end Decoder

/-- The tree that fills the text. -/
def readTree (text : String) : Except Fault Json := Decoder.tree.read text

end ListRepeater.Json
