import ListRepeater.Text.Blank
/-!
# Segments of a binding text

A binding text carries expressions between double braces. `bodyLength` finds the closing braces of
a segment: braces inside the expression have to be balanced and braces inside a quoted literal do
not count. `parse` splits a text into its segments and what stands between them, and `render` puts
the parts together again. A segment that is never closed ends the search, so it belongs to the
tail of the text.
-/
namespace ListRepeater.Binding

/-- The text before and behind the first two opening braces. -/
def splitOpen : List Char → Option (List Char × List Char)
  | [] => none
  | c :: rest =>
    if c = '{' ∧ rest.head? = some '{' then some ([], rest.tail)
    else (splitOpen rest).map fun parts => (c :: parts.1, parts.2)

theorem splitOpen_eq {cs before rest : List Char} (h : splitOpen cs = some (before, rest)) :
    cs = before ++ '{' :: '{' :: rest := by
  induction cs generalizing before with
  | nil => simp [splitOpen] at h
  | cons c cs ih =>
    rw [splitOpen] at h
    split at h
    · next hc =>
      obtain ⟨rfl, hd⟩ := hc
      cases cs with
      | nil => simp at hd
      | cons d cs => simp_all
    · obtain ⟨p, hp, he⟩ := Option.map_eq_some_iff.1 h
      obtain ⟨rfl, rfl⟩ := Prod.mk.inj he
      rw [ih hp]
      rfl

/-- Whether two closing braces occur. -/
def hasClose : List Char → Bool
  | [] => false
  | c :: rest => (c == '}' && rest.head? == some '}') || hasClose rest

/-- Whether the text has two opening braces and, behind the first such pair, two closing ones. -/
def hasSegment (cs : List Char) : Bool :=
  match splitOpen cs with
  | some (_, rest) => hasClose rest
  | none => false

/-- The three marks that enclose a quoted literal. -/
def isQuote (c : Char) : Bool := c == '"' || c == '\x27' || c == '\x60'

/-- The length of the expression at the front of the text, up to the two braces that close its
segment. `depth` counts the braces opened in it so far, `quote` is the mark of the literal that the
scan is in, and `escaped` tells that a backslash stands before the next character. -/
def bodyLength (depth : Nat) (quote : Option Char) (escaped : Bool) : List Char → Option Nat
  | [] => none
  | c :: rest =>
    match quote with
    | some mark =>
      if escaped then (bodyLength depth quote false rest).map (· + 1)
      else if c = '\\' then (bodyLength depth quote true rest).map (· + 1)
      else if c = mark then (bodyLength depth none false rest).map (· + 1)
      else (bodyLength depth quote false rest).map (· + 1)
    | none =>
      if isQuote c then (bodyLength depth (some c) false rest).map (· + 1)
      else if c = '{' then (bodyLength (depth + 1) none false rest).map (· + 1)
      else if c = '}' ∧ 0 < depth then (bodyLength (depth - 1) none false rest).map (· + 1)
      else if c = '}' ∧ rest.head? = some '}' then some 0
      else (bodyLength depth none false rest).map (· + 1)

theorem drop_bodyLength {depth : Nat} {quote : Option Char} {escaped : Bool} {cs : List Char}
    {n : Nat} (h : bodyLength depth quote escaped cs = some n) :
    ∃ rest, cs.drop n = '}' :: '}' :: rest := by
  induction cs generalizing depth quote escaped n with
  | nil => simp [bodyLength] at h
  | cons c cs ih =>
    have step : ∀ {d q e}, (bodyLength d q e cs).map (· + 1) = some n →
        ∃ rest, (c :: cs).drop n = '}' :: '}' :: rest := by
      intro d q e hm
      obtain ⟨m, hb, rfl⟩ := Option.map_eq_some_iff.1 hm
      exact ih hb
    cases quote with
    | some mark =>
      simp only [bodyLength] at h
      split at h
      · exact step h
      · split at h
        · exact step h
        · split at h <;> exact step h
    | none =>
      simp only [bodyLength] at h
      split at h
      · exact step h
      · split at h
        · exact step h
        · split at h
          · exact step h
          · split at h
            · next hc =>
              obtain ⟨rfl, hd⟩ := hc
              cases cs with
              | nil => simp at hd
              | cons d cs =>
                simp only [List.head?_cons, Option.some.injEq] at hd h
                subst hd h
                exact ⟨cs, rfl⟩
            · exact step h

/-- A text as its segments, each with the text before it, and the text behind the last one. -/
structure Parts where
  segments : List (List Char × List Char)
  tail : List Char

def parse (cs : List Char) : Parts :=
  match _h : splitOpen cs with
  | none => ⟨[], cs⟩
  | some (before, rest) =>
    match bodyLength 0 none false rest with
    | none => ⟨[], cs⟩
    | some n =>
      let more := parse (rest.drop (n + 2))
      ⟨(before, rest.take n) :: more.segments, more.tail⟩
  termination_by cs.length
  decreasing_by
    rw [splitOpen_eq _h]
    simp
    omega

section Cases

variable {cs before rest : List Char}

theorem parse_of_unopened (h : splitOpen cs = none) : parse cs = ⟨[], cs⟩ := by
  rw [parse]
  split
  · rfl
  · next h' => cases h.symm.trans h'

theorem parse_of_unclosed (h : splitOpen cs = some (before, rest))
    (unclosed : bodyLength 0 none false rest = none) : parse cs = ⟨[], cs⟩ := by
  rw [parse]
  split
  · next h' => cases h.symm.trans h'
  · next h' =>
    obtain ⟨rfl, rfl⟩ := Prod.mk.inj (Option.some.inj (h.symm.trans h'))
    rw [unclosed]

theorem parse_of_closed (h : splitOpen cs = some (before, rest)) {n : Nat}
    (closed : bodyLength 0 none false rest = some n) :
    parse cs = ⟨(before, rest.take n) :: (parse (rest.drop (n + 2))).segments,
      (parse (rest.drop (n + 2))).tail⟩ := by
  rw [parse]
  split
  · next h' => cases h.symm.trans h'
  · next h' =>
    obtain ⟨rfl, rfl⟩ := Prod.mk.inj (Option.some.inj (h.symm.trans h'))
    rw [closed]

end Cases

def Parts.render (p : Parts) : List Char :=
  p.segments.flatMap (fun s => s.1 ++ '{' :: '{' :: s.2 ++ ['}', '}']) ++ p.tail

/-- Nothing of a text is lost in its parts. -/
theorem render_parse (cs : List Char) : (parse cs).render = cs := by
  fun_induction parse cs with
  | case1 cs h => simp [Parts.render]
  | case2 cs before rest h hb => simp [Parts.render]
  | case3 cs before rest h n hb more ih =>
    obtain ⟨tail, ht⟩ := drop_bodyLength hb
    have hd : rest.drop (n + 2) = tail := by
      rw [← List.drop_drop, ht]
      rfl
    have hr : rest = rest.take n ++ '}' :: '}' :: tail := by
      rw [← ht, List.take_append_drop]
    rw [splitOpen_eq h]
    simp only [Parts.render, more] at ih ⊢
    rw [List.flatMap_cons, List.append_assoc, ih, hd]
    conv => rhs; rw [hr]
    simp

/-- The parts with every expression replaced. -/
def Parts.mapBodies (f : List Char → List Char) (p : Parts) : Parts :=
  { p with segments := p.segments.map fun s => (s.1, f s.2) }

/-- The expression of a text that is one segment, without blanks around it; any other text without
blanks around it. -/
def bare (cs : List Char) : List Char :=
  let trimmed := Text.trim cs
  match trimmed with
  | '{' :: '{' :: inner =>
    match inner.reverse with
    | '}' :: '}' :: body => Text.trim body.reverse
    | _ => trimmed
  | _ => trimmed

end ListRepeater.Binding
