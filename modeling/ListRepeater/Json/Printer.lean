import ListRepeater.Json.Basic
import ListRepeater.Number.Shortest
/-!
# Printing JSON

`compact` writes a tree without blanks, `pretty` with one member or item a line, indented by two
blanks a level. In strings only the quote, the backslash and the control characters below U+0020
are escaped.
-/
namespace ListRepeater.Json

def hexDigit (n : Nat) : Char := (Nat.toDigits 16 n).headD '0'

/-- The written form of one character of a string. -/
def escape (c : Char) : List Char :=
  if c = '"' then ['\\', '"']
  else if c = '\\' then ['\\', '\\']
  else if c = '\x08' then ['\\', 'b']
  else if c = '\x0c' then ['\\', 'f']
  else if c = '\n' then ['\\', 'n']
  else if c = '\r' then ['\\', 'r']
  else if c = '\t' then ['\\', 't']
  else if c.toNat < 0x20 then
    ['\\', 'u', '0', '0', hexDigit (c.toNat / 16), hexDigit (c.toNat % 16)]
  else [c]

def quoted (s : String) : List Char := '"' :: s.toList.flatMap escape ++ ['"']

def natText (n : Nat) : List Char := Nat.toDigits 10 n

def intText : Int → List Char
  | .ofNat n => natText n
  | .negSucc n => '-' :: natText (n + 1)

mutual

def compactChars : Json → List Char
  | .null => ['n', 'u', 'l', 'l']
  | .bool true => ['t', 'r', 'u', 'e']
  | .bool false => ['f', 'a', 'l', 's', 'e']
  | .int n => intText n
  | .double d => d.text
  | .str s => quoted s
  | .arr items => '[' :: compactItems items
  | .obj members => '{' :: compactMembers members
  termination_by structural v => v

/-- The items of an array after its opening bracket, with the closing one. -/
def compactItems : List Json → List Char
  | [] => [']']
  | v :: rest => compactChars v ++ compactItemsTail rest
  termination_by structural vs => vs

def compactItemsTail : List Json → List Char
  | [] => [']']
  | v :: rest => ',' :: compactChars v ++ compactItemsTail rest
  termination_by structural vs => vs

/-- The members of an object after its opening brace, with the closing one. -/
def compactMembers : List (String × Json) → List Char
  | [] => ['}']
  | (k, v) :: rest => quoted k ++ ':' :: compactChars v ++ compactMembersTail rest
  termination_by structural es => es

def compactMembersTail : List (String × Json) → List Char
  | [] => ['}']
  | (k, v) :: rest => ',' :: quoted k ++ ':' :: compactChars v ++ compactMembersTail rest
  termination_by structural es => es

end

def compact (v : Json) : String := String.ofList v.compactChars

def newline (depth : Nat) : List Char := '\n' :: List.replicate (2 * depth) ' '

mutual

def prettyChars (depth : Nat) : Json → List Char
  | .arr [] => ['[', ']']
  | .arr (v :: rest) =>
    '[' :: newline (depth + 1) ++ prettyChars (depth + 1) v ++ prettyItemsTail (depth + 1) rest
      ++ newline depth ++ [']']
  | .obj [] => ['{', '}']
  | .obj ((k, v) :: rest) =>
    '{' :: newline (depth + 1) ++ quoted k ++ ':' :: ' ' :: prettyChars (depth + 1) v
      ++ prettyMembersTail (depth + 1) rest ++ newline depth ++ ['}']
  | .null => ['n', 'u', 'l', 'l']
  | .bool true => ['t', 'r', 'u', 'e']
  | .bool false => ['f', 'a', 'l', 's', 'e']
  | .int n => intText n
  | .double d => d.text
  | .str s => quoted s
  termination_by structural v => v

def prettyItemsTail (depth : Nat) : List Json → List Char
  | [] => []
  | v :: rest => ',' :: newline depth ++ prettyChars depth v ++ prettyItemsTail depth rest
  termination_by structural vs => vs

def prettyMembersTail (depth : Nat) : List (String × Json) → List Char
  | [] => []
  | (k, v) :: rest =>
    ',' :: newline depth ++ quoted k ++ ':' :: ' ' :: prettyChars depth v
      ++ prettyMembersTail depth rest
  termination_by structural es => es

end

def pretty (v : Json) : String := String.ofList (v.prettyChars 0)

end ListRepeater.Json
