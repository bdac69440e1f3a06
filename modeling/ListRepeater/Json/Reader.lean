import ListRepeater.Json.Basic
import ListRepeater.Total
/-!
# Reading JSON

The steps that read JSON text from the front, in order, so that of several faults the first counts.
A text is malformed, or truncated when a longer text could still be read. At most 127 arrays and
objects may stand inside each other. Integers of 64 bits, signed or unsigned, are kept as integers;
every other number is a floating-point number, and one that is too large is malformed.

A value that nobody asks for is passed over by `skip`, which only looks for its end: there it does
not matter how deep it nests, whether a number is too large or a surrogate stands alone.

Loops take a bound `size` on the length of the text, which they cannot exhaust.
-/
namespace ListRepeater

/-- Why a text is not the value that was asked for. -/
inductive Fault where
  | malformed
  | truncated
  /-- A readable value of another shape. -/
  | misshapen
  deriving DecidableEq

namespace Json.Reader

/-- The greatest integer of 64 bits without sign. -/
def greatestUnsigned : Nat := 18446744073709551615

/-- The magnitude of the least integer of 64 bits with sign. -/
def greatestNegative : Nat := 9223372036854775808

/-- What one step of reading gives: a result and the text behind it. -/
abbrev Front (α : Type) := α × List Char

def isBlank (c : Char) : Bool := c == ' ' || c == '\n' || c == '\t' || c == '\r'

def skipBlanks (cs : List Char) : List Char := cs.dropWhile isBlank

/-- Reads the letters of a word such as `null`. -/
def word : List Char → List Char → Except Fault (List Char)
  | [], cs => .ok cs
  | _ :: _, [] => .error .truncated
  | w :: ws, c :: cs => if w = c then word ws cs else .error .malformed

section Strings

def hexValue? (c : Char) : Option Nat :=
  if '0' ≤ c ∧ c ≤ '9' then some (c.toNat - 48)
  else if 'a' ≤ c ∧ c ≤ 'f' then some (c.toNat - 87)
  else if 'A' ≤ c ∧ c ≤ 'F' then some (c.toNat - 55)
  else none

/-- Four hexadecimal digits. Fewer than four bytes to the end of the text are a truncation. -/
def hexUnit (cs : List Char) : Except Fault (Front Nat) :=
  match cs with
  | a :: b :: c :: d :: rest =>
    match hexValue? a, hexValue? b, hexValue? c, hexValue? d with
    | some a, some b, some c, some d => .ok (((a * 16 + b) * 16 + c) * 16 + d, rest)
    | _, _, _, _ => .error .malformed
  | short =>
    .error (if total (short.map Char.utf8Size) < 4 then .truncated else .malformed)

/-- The character of an escape `\u`, whose four digits follow. The two halves of a surrogate pair
make one character, and a half alone makes none. -/
def unicodeEscape (cs : List Char) : Except Fault (Front Char) := do
  let (unit, rest) ← hexUnit cs
  if 0xDC00 ≤ unit ∧ unit ≤ 0xDFFF then .error .malformed
  else if 0xD800 ≤ unit ∧ unit ≤ 0xDBFF then
    let rest ← word ['\\', 'u'] rest
    let (low, rest) ← hexUnit rest
    if 0xDC00 ≤ low ∧ low ≤ 0xDFFF then
      .ok (Char.ofNat (0x10000 + (unit - 0xD800) * 0x400 + (low - 0xDC00)), rest)
    else .error .malformed
  else .ok (Char.ofNat unit, rest)

/-- The four digits of an escape `\u` alone, whatever they stand for. -/
def anyUnit (cs : List Char) : Except Fault (Front Char) := do
  let (unit, rest) ← hexUnit cs
  return (Char.ofNat unit, rest)

/-- The character of an escape, whose backslash is read. -/
def escaped (unicode : List Char → Except Fault (Front Char)) :
    List Char → Except Fault (Front Char)
  | [] => .error .truncated
  | c :: rest =>
    if c = '"' ∨ c = '\\' ∨ c = '/' then .ok (c, rest)
    else if c = 'b' then .ok ('\x08', rest)
    else if c = 'f' then .ok ('\x0c', rest)
    else if c = 'n' then .ok ('\n', rest)
    else if c = 'r' then .ok ('\r', rest)
    else if c = 't' then .ok ('\t', rest)
    else if c = 'u' then unicode rest
    else .error .malformed

/-- The characters of a string up to its closing quote. -/
def stringBody (unicode : List Char → Except Fault (Front Char)) :
    (size : Nat) → List Char → Except Fault (Front (List Char))
  | 0, _ => .error .truncated
  | _ + 1, [] => .error .truncated
  | size + 1, c :: rest =>
    if c = '"' then .ok ([], rest)
    else if c = '\\' then do
      let (x, rest) ← escaped unicode rest
      let (xs, rest) ← stringBody unicode size rest
      return (x :: xs, rest)
    else if c.toNat < 0x20 then .error .malformed
    else do
      let (xs, rest) ← stringBody unicode size rest
      return (c :: xs, rest)

/-- A string, whose opening quote is read. -/
def string (size : Nat) (cs : List Char) : Except Fault (Front String) := do
  let (xs, rest) ← stringBody unicodeEscape size cs
  return (String.ofList xs, rest)

/-- Passes over a string, whose opening quote is read. -/
def skipString (size : Nat) (cs : List Char) : Except Fault (List Char) :=
  (stringBody anyUnit size cs).map Prod.snd

end Strings

section Numbers

def digitValue (c : Char) : Nat := c.toNat - 48

/-- Digits are taken into a significand as long as it fits in 64 bits. -/
def fits (n : Nat) : Bool := n ≤ greatestUnsigned

/-- Extends a significand by digits: the new significand and the digits that no longer fit. -/
def accumulate (significand : Nat) : List Char → Nat × List Char
  | [] => (significand, [])
  | c :: rest =>
    let next := significand * 10 + digitValue c
    if fits next then accumulate next rest else (significand, c :: rest)

/-- A run of at least one digit. -/
def digits (cs : List Char) : Except Fault (Front (List Char)) :=
  match cs.takeWhile Char.isDigit with
  | [] => .error (if cs.isEmpty then .truncated else .malformed)
  | ds => .ok (ds, cs.dropWhile Char.isDigit)

/-- The digits before the point: a zero alone, or a run that does not start with zero. -/
def wholeDigits (cs : List Char) : Except Fault (Front (List Char)) := do
  let (ds, rest) ← digits cs
  match ds with
  | '0' :: _ :: _ => .error .malformed
  | _ => return (ds, rest)

def fractionDigits : List Char → Except Fault (Front (Option (List Char)))
  | '.' :: rest => do
    let (ds, rest) ← digits rest
    return (some ds, rest)
  | cs => .ok (none, cs)

def exponentSign : List Char → Bool × List Char
  | '-' :: rest => (true, rest)
  | '+' :: rest => (false, rest)
  | cs => (false, cs)

def exponentDigits : List Char → Except Fault (Front (Option Int))
  | [] => .ok (none, [])
  | c :: rest =>
    if c = 'e' ∨ c = 'E' then do
      let (negative, rest) := exponentSign rest
      let (ds, rest) ← digits rest
      let n : Nat := ds.foldl (fun n d => n * 10 + digitValue d) 0
      return (some (if negative then -(n : Int) else n), rest)
    else .ok (none, c :: rest)

/-- The parts of a number behind its sign. -/
structure NumberParts where
  whole : List Char
  fraction : Option (List Char)
  exponent : Option Int

/-- The value of a number. Whole digits beyond 64 bits only count as places; digits of the fraction
are dropped from the first that no longer fits. -/
def NumberParts.value? (negative : Bool) (p : NumberParts) : Option Json :=
  let (w, excess) := accumulate 0 p.whole
  match p.fraction, p.exponent, excess with
  | none, none, [] =>
    if !negative then some (.int w)
    else if 0 < w ∧ w ≤ greatestNegative then some (.int (-w))
    else (Binary64.ofDecimal true w 0).map .double
  | _, _, _ =>
    let f := p.fraction.getD []
    let (significand, dropped) := accumulate w f
    let place : Int := excess.length - ((f.length - dropped.length : Nat) : Int) + p.exponent.getD 0
    (Binary64.ofDecimal negative significand place).map .double

def numberParts (cs : List Char) : Except Fault (Front NumberParts) := do
  let (whole, rest) ← wholeDigits cs
  let (fraction, rest) ← fractionDigits rest
  let (exponent, rest) ← exponentDigits rest
  return (⟨whole, fraction, exponent⟩, rest)

def number (negative : Bool) (cs : List Char) : Except Fault (Front Json) := do
  let (parts, rest) ← numberParts cs
  match parts.value? negative with
  | some v => return (v, rest)
  | none => .error .malformed

/-- Passes over a number behind its sign. What is not a number to its end is malformed. -/
def skipNumber (cs : List Char) : Except Fault (List Char) :=
  match numberParts cs with
  | .ok (_, rest) => .ok rest
  | .error _ => .error .malformed

end Numbers

/-- A value that is no array and no object. -/
def scalar (size : Nat) : List Char → Except Fault (Front Json)
  | [] => .error .truncated
  | c :: rest =>
    if c = '"' then do
      let (s, rest) ← string size rest
      return (.str s, rest)
    else if c = 'n' then do return (.null, ← word ['u', 'l', 'l'] rest)
    else if c = 't' then do return (.bool true, ← word ['r', 'u', 'e'] rest)
    else if c = 'f' then do return (.bool false, ← word ['a', 'l', 's', 'e'] rest)
    else if c = '-' then number true rest
    else if c.isDigit then number false (c :: rest)
    else .error .malformed

/-- Passes over such a value. -/
def skipScalar (size : Nat) : List Char → Except Fault (List Char)
  | [] => .error .truncated
  | c :: rest =>
    if c = '"' then skipString size rest
    else if c = '-' then skipNumber rest
    else if c.isDigit then skipNumber (c :: rest)
    else (scalar size (c :: rest)).map Prod.snd

section Containers

variable {α κ σ : Type}

/-- What comes next inside brackets. -/
inductive Next where
  /-- An element, which starts here. -/
  | element (cs : List Char)
  /-- The closing bracket, and this behind it. -/
  | closed (rest : List Char)

/-- Goes to the next element, behind the comma that stands before all but the first. -/
def next (close : Char) (first : Bool) (cs : List Char) : Except Fault Next :=
  match skipBlanks cs with
  | [] => .error .truncated
  | c :: rest =>
    if c = close then .ok (.closed rest)
    else if first then .ok (.element (c :: rest))
    else if c = ',' then
      match skipBlanks rest with
      | [] => .error .truncated
      | d :: more => if d = close then .error .malformed else .ok (.element (d :: more))
    else .error .malformed

/-- The elements of an array, whose opening bracket is read. -/
def elements (element : List Char → Except Fault (Front α)) :
    (size : Nat) → (first : Bool) → List Char → Except Fault (Front (List α))
  | 0, _, _ => .error .truncated
  | size + 1, first, cs => do
    match ← next ']' first cs with
    | .closed rest => return ([], rest)
    | .element cs =>
      let (x, rest) ← element cs
      let (xs, rest) ← elements element size false rest
      return (x :: xs, rest)

/-- What stands behind the colon that follows a key. -/
def behindColon (cs : List Char) : Except Fault (List Char) :=
  match skipBlanks cs with
  | [] => .error .truncated
  | c :: rest => if c = ':' then .ok rest else .error .malformed

/-- The members of an object, whose opening brace is read, taken into a state one after the other.
The state and a key decide how the value behind the key is read, or that it must not stand there. -/
def members (key : List Char → Except Fault (Front κ))
    (step : σ → κ → Except Fault (List Char → Except Fault (Front σ))) :
    (size : Nat) → (first : Bool) → σ → List Char → Except Fault (Front σ)
  | 0, _, _, _ => .error .truncated
  | size + 1, first, s, cs => do
    match ← next '}' first cs with
    | .closed rest => return (s, rest)
    | .element ('"' :: cs) =>
      let (k, rest) ← key cs
      let value ← step s k
      let rest ← behindColon rest
      let (s, rest) ← value rest
      members key step size false s rest
    | .element _ => .error .malformed

end Containers

/-- A value with at most `depth` arrays and objects inside each other. -/
def value (size : Nat) : (depth : Nat) → List Char → Except Fault (Front Json)
  | depth, cs =>
    match skipBlanks cs with
    | '[' :: rest =>
      match depth with
      | 0 => .error .malformed
      | depth + 1 => do
        let (items, rest) ← elements (value size depth) size true rest
        return (.arr items, rest)
    | '{' :: rest =>
      match depth with
      | 0 => .error .malformed
      | depth + 1 => do
        let step (entries : List (String × Json)) (k : String) :
            Except Fault (List Char → Except Fault (Front (List (String × Json)))) :=
          .ok fun cs => do
            let (v, rest) ← value size depth cs
            return ((k, v) :: entries, rest)
        let (entries, rest) ← members (string size) step size true [] rest
        return (.obj entries.reverse, rest)
    | cs => scalar size cs

/-- Passes over a value. -/
def skip : (size : Nat) → List Char → Except Fault (List Char)
  | 0, _ => .error .truncated
  | size + 1, cs =>
    match skipBlanks cs with
    | '[' :: rest => do
      let element (cs : List Char) : Except Fault (Front Unit) := do return ((), ← skip size cs)
      let (_, rest) ← elements element (size + 1) true rest
      return rest
    | '{' :: rest => do
      let key (cs : List Char) : Except Fault (Front Unit) := do
        return ((), ← skipString (size + 1) cs)
      let step (_ _ : Unit) : Except Fault (List Char → Except Fault (Front Unit)) :=
        .ok fun cs => do return ((), ← skip size cs)
      let (_, rest) ← members key step (size + 1) true () rest
      return rest
    | cs => skipScalar (size + 1) cs

end Json.Reader

end ListRepeater
