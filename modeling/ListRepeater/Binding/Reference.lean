import ListRepeater.Binding.Segment
/-!
# References in an expression

A reference is a chain of words joined by dots, as long as it can be. Words are made of ASCII
letters, digits, underscores and dollar signs and do not start with a digit. A chain is not a
reference when it starts inside a quoted literal or when a dot stands directly before it.
-/
namespace ListRepeater.Binding

def isWordStart (c : Char) : Bool := c.isAlpha || c == '_' || c == '$'

def isWordChar (c : Char) : Bool := isWordStart c || c.isDigit

/-- The words of the chain at the front of a text that starts with a word, and the text behind. -/
def chain (cs : List Char) : List String × List Char :=
  let word := String.ofList (cs.takeWhile isWordChar)
  match _h : cs.dropWhile isWordChar with
  | '.' :: c :: rest =>
    if isWordStart c then
      let more := chain (c :: rest)
      (word :: more.1, more.2)
    else ([word], '.' :: c :: rest)
  | rest => ([word], rest)
  termination_by cs.length
  decreasing_by
    have := (List.dropWhile_sublist isWordChar (l := cs)).length_le
    rw [_h] at this
    simp only [List.length_cons] at this ⊢
    omega

theorem length_chain_le (cs : List Char) :
    (chain cs).2.length ≤ (cs.dropWhile isWordChar).length := by
  fun_induction chain cs with
  | case1 cs word c rest h hc more ih =>
    have := (List.dropWhile_sublist isWordChar (l := c :: rest)).length_le
    rw [h]
    exact Nat.le_trans ih (Nat.le_succ_of_le this)
  | case2 cs word c rest h hc => simp [h]
  | case3 cs word h => exact Nat.le_refl _

theorem length_chain_lt {c : Char} (hc : isWordStart c = true) (rest : List Char) :
    (chain (c :: rest)).2.length < (c :: rest).length := by
  have h := length_chain_le (c :: rest)
  have := (List.dropWhile_sublist isWordChar (l := rest)).length_le
  simp only [List.dropWhile_cons, isWordChar, hc, Bool.true_or, if_true] at h
  simp only [List.length_cons]
  exact Nat.lt_succ_of_le (Nat.le_trans h this)

/-- A chain of words with the positions where it starts and ends. -/
structure Chain where
  start : Nat
  stop : Nat
  words : List String
  afterDot : Bool
  deriving DecidableEq

/-- The chains of the text, which starts at position `pos`; `afterDot` tells that a dot stands
before it. -/
def chains (pos : Nat) (afterDot : Bool) (cs : List Char) : List Chain :=
  match cs with
  | [] => []
  | c :: rest =>
    if hc : isWordStart c = true then
      let found := chain (c :: rest)
      let stop := pos + ((c :: rest).length - found.2.length)
      ⟨pos, stop, found.1, afterDot⟩ :: chains stop false found.2
    else chains (pos + 1) (c == '.') rest
  termination_by cs.length
  decreasing_by
    · exact length_chain_lt hc rest
    · simp

/-- The positions, from the opening mark up to behind the closing one, of the quoted literals of a
text that starts at `pos`. `opened` holds the start and the mark of the literal the scan is in. A
literal that is never closed ends with the text. -/
def literals (pos : Nat) (opened : Option (Nat × Char)) (escaped : Bool) :
    List Char → List (Nat × Nat)
  | [] =>
    match opened with
    | some (start, _) => [(start, pos)]
    | none => []
  | c :: rest =>
    match opened with
    | some (start, mark) =>
      if escaped then literals (pos + 1) opened false rest
      else if c = '\\' then literals (pos + 1) opened true rest
      else if c = mark then (start, pos + 1) :: literals (pos + 1) none false rest
      else literals (pos + 1) opened false rest
    | none =>
      if isQuote c then literals (pos + 1) (some (pos, c)) false rest
      else literals (pos + 1) none false rest

def inside (pos : Nat) (ranges : List (Nat × Nat)) : Bool :=
  ranges.any fun r => r.1 ≤ pos && pos < r.2

/-- The chains of an expression that refer to something. -/
def references (expr : List Char) : List Chain :=
  let quoted := literals 0 none false expr
  (chains 0 false expr).filter fun c => !inside c.start quoted && !c.afterDot

end ListRepeater.Binding
