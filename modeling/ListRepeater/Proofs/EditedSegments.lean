import ListRepeater.Proofs.BalancedTexts
/-!
# Segments whose references are replaced

Localizing replaces chains that stand outside of the literals of a segment. When closed texts take
their place, the scan for the end of the segment is in step with the scan of the authored text at
every character that is kept, so it ends at the same braces. Hence the localized text has the
segments of the authored one, with the same text around them.
-/
namespace ListRepeater.Binding

section Literals

/-- The literal that a scan is in behind a character: its mark, and whether a backslash stands
before the next character. -/
def nextLiteral : Option (Char × Bool) → Char → Option (Char × Bool)
  | none, c => if isQuote c then some (c, false) else none
  | some (mark, true), _ => some (mark, false)
  | some (mark, false), c =>
    if c = '\\' then some (mark, true) else if c = mark then none else some (mark, false)

theorem nextLiteral_plain {c : Char} (h : isPlain c = true) : nextLiteral none c = none := by
  simp only [isPlain, Bool.and_eq_true, Bool.not_eq_true'] at h
  simp [nextLiteral, h.1.1]

theorem foldl_nextLiteral_plain {cs : List Char} (h : ∀ c ∈ cs, isPlain c = true) :
    cs.foldl nextLiteral none = none := by
  induction cs with
  | nil => rfl
  | cons c cs ih =>
    obtain ⟨head, rest⟩ := List.forall_mem_cons.mp h
    rw [List.foldl_cons, nextLiteral_plain head, ih rest]

/-- The literals of a text that starts in the literal `l`, which was opened at `start`. -/
def literalsIn (start pos : Nat) (l : Option (Char × Bool)) (cs : List Char) : List (Nat × Nat) :=
  literals pos (l.map fun m => (start, m.1)) (l.any (·.2)) cs

variable {start pos : Nat} {c : Char} {m m' : Char × Bool} {rest : List Char}

theorem literalsIn_none :
    literalsIn start pos none (c :: rest) =
      literalsIn pos (pos + 1) (nextLiteral none c) rest := by
  by_cases quote : isQuote c = true <;> simp [literalsIn, literals, nextLiteral, quote]

theorem literalsIn_inside (next : nextLiteral (some m) c = some m') :
    literalsIn start pos (some m) (c :: rest) =
      literalsIn start (pos + 1) (some m') rest := by
  obtain ⟨mark, escaped⟩ := m
  cases escaped with
  | true =>
    obtain rfl := Option.some.inj next
    simp [literalsIn, literals]
  | false =>
    simp only [nextLiteral] at next
    split at next
    · next backslash =>
      obtain rfl := Option.some.inj next
      simp [literalsIn, literals, backslash]
    · next backslash =>
      split at next
      · cases next
      · next other =>
        obtain rfl := Option.some.inj next
        simp [literalsIn, literals, backslash, other]

/-- A literal is left at its own mark, which no backslash escapes. -/
theorem eq_of_nextLiteral_none (next : nextLiteral (some m) c = none) :
    m = (c, false) ∧ c ≠ '\\' := by
  obtain ⟨mark, escaped⟩ := m
  cases escaped with
  | true => cases next
  | false =>
    simp only [nextLiteral] at next
    split at next
    · cases next
    · next backslash =>
      split at next
      · next close => exact ⟨by rw [close], backslash⟩
      · cases next

theorem literalsIn_closed (next : nextLiteral (some m) c = none) :
    literalsIn start pos (some m) (c :: rest) =
      (start, pos + 1) :: literalsIn start (pos + 1) none rest := by
  obtain ⟨rfl, backslash⟩ := eq_of_nextLiteral_none next
  simp [literalsIn, literals, backslash]

theorem le_of_mem_literalsIn {l : Option (Char × Bool)} {cs : List Char} (le : start ≤ pos)
    {r : Nat × Nat} (h : r ∈ literalsIn start pos l cs) : start ≤ r.1 := by
  induction cs generalizing start pos l with
  | nil =>
    cases l with
    | none => cases h
    | some m => rw [List.mem_singleton.mp h]
  | cons c cs ih =>
    cases l with
    | none =>
      rw [literalsIn_none] at h
      exact Nat.le_trans le (ih (Nat.le_succ pos) h)
    | some m =>
      cases next : nextLiteral (some m) c with
      | some m' =>
        rw [literalsIn_inside next] at h
        exact ih (Nat.le_succ_of_le le) h
      | none =>
        rw [literalsIn_closed next] at h
        rcases List.mem_cons.mp h with rfl | h
        · exact Nat.le_refl start
        · exact ih (Nat.le_succ_of_le le) h

/-- The literal that a text starts in goes on at least up to where the text starts. -/
theorem exists_mem_literalsIn (start pos : Nat) (m : Char × Bool) (cs : List Char) :
    ∃ stop, pos ≤ stop ∧ (start, stop) ∈ literalsIn start pos (some m) cs := by
  induction cs generalizing pos m with
  | nil => exact ⟨pos, Nat.le_refl pos, List.mem_singleton.mpr rfl⟩
  | cons c cs ih =>
    cases next : nextLiteral (some m) c with
    | some m' =>
      obtain ⟨stop, later, member⟩ := ih (pos + 1) m'
      exact ⟨stop, Nat.le_of_succ_le later, literalsIn_inside next ▸ member⟩
    | none =>
      exact ⟨pos + 1, Nat.le_succ pos, literalsIn_closed next ▸ List.mem_cons_self⟩

/-- The first character of a text is in a literal if the scan is in one before or behind it. -/
theorem inside_literalsIn_start (le : start ≤ pos) (l : Option (Char × Bool)) :
    inside pos (literalsIn start pos l (c :: rest)) = (l.isSome || (nextLiteral l c).isSome) := by
  have within : ∀ {quoted stop first}, first ≤ pos → pos < stop → (first, stop) ∈ quoted →
      inside pos quoted = true := by
    intro quoted stop first before behind member
    exact List.any_eq_true.mpr ⟨_, member, by simp [before, behind]⟩
  cases l with
  | none =>
    rw [literalsIn_none]
    cases next : nextLiteral none c with
    | none =>
      have bound : ∀ r ∈ literalsIn (pos + 1) (pos + 1) none rest, pos + 1 ≤ r.1 :=
        fun r hr => le_of_mem_literalsIn (Nat.le_refl _) hr
      refine List.any_eq_false.mpr fun r hr => ?_
      have after := bound r hr
      simp only [Bool.and_eq_true, decide_eq_true_eq]
      omega
    | some m =>
      obtain ⟨stop, later, member⟩ := exists_mem_literalsIn pos (pos + 1) m rest
      exact within (Nat.le_refl pos) later member
  | some m =>
    cases next : nextLiteral (some m) c with
    | some m' =>
      obtain ⟨stop, later, member⟩ := exists_mem_literalsIn start (pos + 1) m' rest
      rw [literalsIn_inside next]
      exact within le later member
    | none =>
      rw [literalsIn_closed next]
      exact within le (Nat.lt_succ_self pos) List.mem_cons_self

theorem inside_literalsIn (le : start ≤ pos) (l : Option (Char × Bool)) (front rest : List Char) :
    inside (pos + front.length) (literalsIn start pos l (front ++ c :: rest)) =
      ((front.foldl nextLiteral l).isSome ||
        (nextLiteral (front.foldl nextLiteral l) c).isSome) := by
  induction front generalizing start pos l with
  | nil => exact inside_literalsIn_start le l
  | cons d front ih =>
    have shift : pos + (d :: front).length = pos + 1 + front.length := by
      rw [List.length_cons]
      omega
    rw [shift, List.cons_append, List.foldl_cons]
    cases l with
    | none =>
      rw [literalsIn_none]
      exact ih (Nat.le_succ pos) _
    | some m =>
      cases next : nextLiteral (some m) d with
      | some m' =>
        rw [literalsIn_inside next]
        exact ih (Nat.le_succ_of_le le) _
      | none =>
        have before : ¬pos + 1 + front.length < pos + 1 := by omega
        rw [literalsIn_closed next, inside, List.any_cons, decide_eq_false before, Bool.and_false,
          Bool.false_or]
        exact ih (Nat.le_succ_of_le le) _

/-- A character is in a literal of the text if the scan is in one before or behind it. -/
theorem inside_literals (front rest : List Char) :
    inside front.length (literals 0 none false (front ++ c :: rest)) =
      ((front.foldl nextLiteral none).isSome ||
        (nextLiteral (front.foldl nextLiteral none) c).isSome) := by
  have whole := inside_literalsIn (c := c) (Nat.le_refl 0) none front rest
  rwa [Nat.zero_add] at whole

theorem inside_literals_of_plain (front rest : List Char) (plain : isPlain c = true) :
    inside front.length (literals 0 none false (front ++ c :: rest)) =
      (front.foldl nextLiteral none).isSome := by
  rw [inside_literals]
  cases front.foldl nextLiteral none with
  | none => rw [nextLiteral_plain plain]; rfl
  | some m => rfl

end Literals

section Scan

/-- The length of the expression at the front of a text that starts in the literal `l`. -/
def lengthIn (depth : Nat) (l : Option (Char × Bool)) (cs : List Char) : Option Nat :=
  bodyLength depth (l.map (·.1)) (l.any (·.2)) cs

def nextDepth (depth : Nat) (l : Option (Char × Bool)) (c : Char) : Nat :=
  if l.isSome then depth
  else if c = '{' then depth + 1
  else if c = '}' then depth - 1
  else depth

/-- Whether a character closes the segment together with the text behind it. -/
def Closes (depth : Nat) (l : Option (Char × Bool)) (c : Char) (rest : List Char) : Prop :=
  l = none ∧ depth = 0 ∧ c = '}' ∧ rest.head? = some '}'

variable {depth : Nat} {l : Option (Char × Bool)} {c : Char} {rest : List Char}

theorem lengthIn_of_closes (h : Closes depth l c rest) : lengthIn depth l (c :: rest) = some 0 := by
  obtain ⟨rfl, rfl, rfl, behind⟩ := h
  have unquoted : isQuote '}' = false := by decide
  simp [lengthIn, bodyLength, unquoted, behind]

theorem lengthIn_cons (h : ¬Closes depth l c rest) :
    lengthIn depth l (c :: rest) =
      (lengthIn (nextDepth depth l c) (nextLiteral l c) rest).map (· + 1) := by
  rcases l with - | ⟨mark, - | -⟩
  · by_cases quote : isQuote c = true
    · have left : c ≠ '{' := by rintro rfl; cases quote
      have right : c ≠ '}' := by rintro rfl; cases quote
      simp [lengthIn, bodyLength, nextDepth, nextLiteral, quote, left, right]
    · by_cases left : c = '{'
      · subst left
        simp [lengthIn, bodyLength, nextDepth, nextLiteral, quote]
      · by_cases right : c = '}'
        · subst right
          cases depth with
          | zero =>
            have behind : rest.head? ≠ some '}' := fun e => h ⟨rfl, rfl, rfl, e⟩
            simp [lengthIn, bodyLength, nextDepth, nextLiteral, quote, behind]
          | succ depth => simp [lengthIn, bodyLength, nextDepth, nextLiteral, quote]
        · simp [lengthIn, bodyLength, nextDepth, nextLiteral, quote, left, right]
  · by_cases backslash : c = '\\'
    · simp [lengthIn, bodyLength, nextDepth, nextLiteral, backslash]
    · by_cases close : c = mark
      · subst close
        simp [lengthIn, bodyLength, nextDepth, nextLiteral, backslash]
      · simp [lengthIn, bodyLength, nextDepth, nextLiteral, backslash, close]
  · simp [lengthIn, bodyLength, nextDepth, nextLiteral]

end Scan

/-- The second text is the first one with closed texts in the place of plain stretches that stand
outside of its literals. Both texts start in the literal `l`. -/
inductive Edited : Option (Char × Bool) → List Char → List Char → Prop
  | nil {l : Option (Char × Bool)} : Edited l [] []
  | keep {l : Option (Char × Bool)} {cs out : List Char} (c : Char)
      (rest : Edited (nextLiteral l c) cs out) : Edited l (c :: cs) (c :: out)
  | swap {stretch cs out : List Char} {text : String} (plain : ∀ c ∈ stretch, isPlain c = true)
      (closed : Closed text) (rest : Edited none cs out) :
      Edited none (stretch ++ cs) (text.toList ++ out)

namespace Edited

variable {l : Option (Char × Bool)} {cs out : List Char}

theorem behind (front : List Char) (h : Edited (front.foldl nextLiteral l) cs out) :
    Edited l (front ++ cs) (front ++ out) := by
  induction front generalizing l with
  | nil => exact h
  | cons c front ih => exact .keep c (ih h)

/-- A closing brace in front of what follows was there before. -/
theorem head_brace (h : Edited l cs out) {close rest : List Char}
    (brace : (out ++ '}' :: close).head? = some '}') :
    (cs ++ '}' :: rest).head? = some '}' := by
  cases h with
  | nil => rfl
  | keep c _ => exact brace
  | swap _ closed _ =>
    obtain ⟨c, tail, text, ne⟩ := closed.starts
    rw [text] at brace
    exact absurd (Option.some.inj brace) ne

/-- Where the first text is a whole expression, so is the second one. -/
theorem lengthIn_eq (h : Edited l cs out) (depth : Nat) {rest : List Char} (rest' : List Char)
    (closed : lengthIn depth l (cs ++ '}' :: '}' :: rest) = some cs.length) :
    lengthIn depth l (out ++ '}' :: '}' :: rest') = some out.length := by
  induction h generalizing depth with
  | @nil l =>
    have closes : Closes depth l '}' ('}' :: rest) := by
      by_contra goes
      rw [List.nil_append, lengthIn_cons goes] at closed
      obtain ⟨n, -, e⟩ := Option.map_eq_some_iff.mp closed
      cases e
    exact lengthIn_of_closes closes
  | @keep l cs out c edited ih =>
    -- both scans go on behind the character: a brace that would close was behind it before
    have goes : ¬Closes depth l c (cs ++ '}' :: '}' :: rest) := by
      intro closes
      rw [List.cons_append, lengthIn_of_closes closes] at closed
      cases closed
    have goes' : ¬Closes depth l c (out ++ '}' :: '}' :: rest') := fun closes =>
      goes ⟨closes.1, closes.2.1, closes.2.2.1, edited.head_brace closes.2.2.2⟩
    rw [List.cons_append, lengthIn_cons goes] at closed
    obtain ⟨n, later, e⟩ := Option.map_eq_some_iff.mp closed
    obtain rfl := Nat.succ.inj e
    rw [List.cons_append, lengthIn_cons goes', ih _ later]
    rfl
  | @swap stretch cs out text plain inserted edited ih =>
    -- both scans are back at the depth they came from, outside of a literal
    have across := bodyLength_balanced (balanced_of_plain plain) depth (cs ++ '}' :: '}' :: rest)
    have across' := bodyLength_balanced inserted.balanced depth (out ++ '}' :: '}' :: rest')
    have authored : (lengthIn depth none (cs ++ '}' :: '}' :: rest)).map (· + stretch.length) =
        some (cs.length + stretch.length) := by
      rw [List.append_assoc] at closed
      rw [Nat.add_comm, ← List.length_append]
      exact across.symm.trans closed
    obtain ⟨n, later, e⟩ := Option.map_eq_some_iff.mp authored
    obtain rfl := Nat.add_right_cancel e
    have localized : lengthIn depth none (out ++ '}' :: '}' :: rest') = some out.length :=
      ih depth later
    rw [List.append_assoc, List.length_append, Nat.add_comm]
    refine across'.trans ?_
    exact congrArg (Option.map (· + text.toList.length)) localized

end Edited

section Chains

/-- The chain at the front of a text is words with dots between them, and it does not go on in the
text behind. -/
theorem chain_split (cs : List Char) (starts : cs.head?.any isWordStart = true) :
    ∃ w tail, (chain cs).1 = w :: tail ∧ (∀ v ∈ w :: tail, isWord v = true) ∧
      cs = w.toList ++ (tailChars tail ++ (chain cs).2) ∧ Stops (chain cs).2 := by
  have first : ∀ {cs : List Char}, cs.head?.any isWordStart = true →
      isWord (String.ofList (cs.takeWhile isWordChar)) = true := by
    intro cs starts
    cases cs with
    | nil => cases starts
    | cons c cs =>
      have start : isWordStart c = true := starts
      have char := isWordChar_of_isWordStart start
      rw [isWord, String.toList_ofList, List.all_takeWhile, List.takeWhile_cons_of_pos char]
      exact (Bool.and_true _).trans start
  fun_induction chain cs with
  | case1 cs word c rest h hc more ih =>
    obtain ⟨v, tail, words, all, text, stops⟩ := ih hc
    refine ⟨word, v :: tail, by rw [words], List.forall_mem_cons.mpr ⟨first starts, all⟩, ?_, stops⟩
    conv => lhs; rw [← List.takeWhile_append_dropWhile (p := isWordChar) (l := cs), h, text]
    simp [word, tailChars, more]
  | case2 cs word c rest h hc =>
    refine ⟨word, [], rfl, List.forall_mem_singleton.mpr (first starts), ?_, ?_, ?_⟩
    · conv => lhs; rw [← List.takeWhile_append_dropWhile (p := isWordChar) (l := cs), h]
      simp [word, tailChars]
    · rintro _ ⟨⟩
      decide
    · rintro c _ ⟨⟩
      exact Bool.not_eq_true _ ▸ hc
  | case3 cs word h =>
    refine ⟨word, [], rfl, List.forall_mem_singleton.mpr (first starts), ?_, ?_, ?_⟩
    · simp [word, tailChars]
    · intro c head
      have other := List.head?_dropWhile_not isWordChar cs
      rwa [head] at other
    · exact fun c more text => (h c more text).elim

theorem le_of_mem_chains {pos : Nat} {dot : Bool} {cs : List Char} :
    ∀ ch ∈ chains pos dot cs, pos ≤ ch.start ∧ ch.start ≤ ch.stop := by
  fun_induction chains pos dot cs with
  | case1 => simp
  | case2 pos dot c rest hc found stop ih =>
    refine List.forall_mem_cons.mpr ⟨⟨Nat.le_refl pos, Nat.le_add_right pos _⟩, fun ch hch => ?_⟩
    exact ⟨Nat.le_trans (Nat.le_add_right pos _) (ih ch hch).1, (ih ch hch).2⟩
  | case3 pos dot c rest hc ih =>
    exact fun ch hch => ⟨Nat.le_of_succ_le (ih ch hch).1, (ih ch hch).2⟩

/-- The edits that localizing makes for chains of a text with these literals. -/
def editsFor (s : Scope) (quoted : List (Nat × Nat)) (found : List Chain) : List Edit :=
  (found.filter fun c => !inside c.start quoted && !c.afterDot).filterMap fun c =>
    (s.resolve c.words).map fun text => ⟨c.start, c.stop, text.toList⟩

/-- The edits that localizing makes in an expression. -/
def edits (s : Scope) (expr : List Char) : List Edit :=
  editsFor s (literals 0 none false expr) (chains 0 false expr)

theorem localizeExpression_eq (s : Scope) (expr : List Char) :
    localizeExpression s expr = splice 0 expr (edits s expr) := rfl

theorem le_of_mem_editsFor {s : Scope} {quoted : List (Nat × Nat)} {pos : Nat} {dot : Bool}
    {cs : List Char} :
    ∀ e ∈ editsFor s quoted (chains pos dot cs), pos ≤ e.start ∧ e.start ≤ e.stop := by
  intro e he
  obtain ⟨ch, hch, made⟩ := List.mem_filterMap.mp he
  obtain ⟨text, -, rfl⟩ := Option.map_eq_some_iff.mp made
  exact le_of_mem_chains ch (List.mem_filter.mp hch).1

/-- A chain is edited if it stands outside of the literals and is resolved. -/
theorem editsFor_cons (s : Scope) (quoted : List (Nat × Nat)) (ch : Chain) (more : List Chain) :
    (∃ text, inside ch.start quoted = false ∧ s.resolve ch.words = some text ∧
      editsFor s quoted (ch :: more) =
        ⟨ch.start, ch.stop, text.toList⟩ :: editsFor s quoted more) ∨
    editsFor s quoted (ch :: more) = editsFor s quoted more := by
  by_cases refers : (!inside ch.start quoted && !ch.afterDot) = true
  · have outside : inside ch.start quoted = false := by
      rw [Bool.and_eq_true, Bool.not_eq_true'] at refers
      exact refers.1
    cases resolved : s.resolve ch.words with
    | none => exact Or.inr (by simp [editsFor, refers, resolved])
    | some text => exact Or.inl ⟨text, outside, rfl, by simp [editsFor, refers, resolved]⟩
  · exact Or.inr (by simp [editsFor, refers])

/-- What stands before the first edit is kept. -/
theorem splice_append {edits : List Edit} {pos stop : Nat} (front cs : List Char)
    (ends : stop = pos + front.length) (later : ∀ e ∈ edits, stop ≤ e.start ∧ e.start ≤ e.stop) :
    splice pos (front ++ cs) edits = front ++ splice stop cs edits := by
  cases edits with
  | nil => rfl
  | cons e edits =>
    obtain ⟨start, behind⟩ := later e List.mem_cons_self
    have kept : e.start - pos = front.length + (e.start - stop) := by omega
    have dropped : e.stop - pos = front.length + (e.stop - stop) := by omega
    rw [splice, splice, kept, dropped, List.take_length_add_append, List.drop_length_add_append]
    simp only [List.append_assoc]

/-- All that the scope puts in the place of chains is closed. -/
def ResolvesClosed (s : Scope) : Prop :=
  ∀ words, (∀ w ∈ words, isWord w = true) → ∀ text, s.resolve words = some text → Closed text

/-- From any place on, localizing an expression edits what stands there: `before` is what stands
before that place. -/
theorem edited_splice {s : Scope} (closes : ResolvesClosed s) (pos : Nat) (dot : Bool)
    (cs before : List Char) (place : before.length = pos) :
    Edited (before.foldl nextLiteral none) cs
      (splice pos cs (editsFor s (literals 0 none false (before ++ cs)) (chains pos dot cs))) := by
  fun_induction chains pos dot cs generalizing before with
  | case1 pos dot => exact .nil
  | case2 pos dot c rest hc found stop ih =>
    obtain ⟨w, tail, head, words, text, -⟩ := chain_split (c :: rest) hc
    have plain := isPlain_of_mem_join words
    rw [← List.append_assoc] at text
    generalize w.toList ++ tailChars tail = stretch at text plain
    change c :: rest = stretch ++ found.2 at text
    have char : isPlain c = true :=
      isPlain_of_isWordChar (isWordChar_of_isWordStart hc)
    have inLiteral := inside_literals_of_plain before rest char
    have ends : stop = pos + stretch.length := by
      simp only [stop, text, List.length_append]
      omega
    have later := ih (before ++ stretch) (by rw [List.length_append, place, ends])
    rw [List.foldl_append, List.append_assoc, ← text] at later
    generalize literals 0 none false (before ++ c :: rest) = quoted at inLiteral later ⊢
    rcases editsFor_cons s quoted ⟨pos, stop, found.1, dot⟩ (chains stop false found.2) with
      ⟨own, outside, resolved, edits⟩ | edits
    · have scan : before.foldl nextLiteral none = none := by
        rw [← Option.not_isSome_iff_eq_none, ← inLiteral, place, outside]
        exact Bool.false_ne_true
      have words : ∀ w ∈ found.1, isWord w = true := head ▸ words
      have behind : (stretch ++ found.2).drop (stop - pos) = found.2 := by
        rw [ends, Nat.add_sub_cancel_left, List.drop_left]
      rw [scan, foldl_nextLiteral_plain plain] at later
      rw [scan, edits, text, splice, behind, Nat.sub_self, List.take_zero, List.nil_append]
      exact .swap plain (closes _ words own resolved) later
    · rw [edits, text, splice_append stretch found.2 ends le_of_mem_editsFor]
      exact .behind stretch later
  | case3 pos dot c rest hc ih =>
    have later := ih (before ++ [c]) (by rw [List.length_append, place, List.length_singleton])
    rw [List.foldl_append, List.append_assoc] at later
    have kept : splice pos (c :: rest) (editsFor s (literals 0 none false (before ++ c :: rest))
          (chains (pos + 1) (c == '.') rest)) = c :: splice (pos + 1) rest _ :=
      splice_append [c] rest rfl le_of_mem_editsFor
    rw [kept]
    exact .behind [c] later

theorem edited_localizeExpression {s : Scope} (closes : ResolvesClosed s) (expr : List Char) :
    Edited none expr (localizeExpression s expr) := by
  rw [localizeExpression_eq]
  exact edited_splice closes 0 false expr [] rfl

end Chains

section Segments

/-- What stands before the first two opening braces does not depend on what follows them. -/
theorem splitOpen_replace {cs before rest : List Char} (h : splitOpen cs = some (before, rest))
    (rest' : List Char) : splitOpen (before ++ '{' :: '{' :: rest') = some (before, rest') := by
  induction cs generalizing before with
  | nil => cases h
  | cons c cs ih =>
    rw [splitOpen] at h
    split at h
    · obtain ⟨rfl, -⟩ := Prod.mk.inj (Option.some.inj h)
      rfl
    · next apart =>
      obtain ⟨p, hp, he⟩ := Option.map_eq_some_iff.1 h
      obtain ⟨rfl, rfl⟩ := Prod.mk.inj he
      have head : cs.head? = (p.1 ++ '{' :: '{' :: rest').head? := by
        rw [splitOpen_eq hp]
        cases p.1 <;> rfl
      rw [List.cons_append, splitOpen, if_neg (head ▸ apart), ih hp]
      rfl

section Parse

variable {before rest : List Char}

/-- The first segment of a text with its braces. -/
theorem parse_segment {body : List Char}
    (opened : splitOpen (before ++ '{' :: '{' :: (body ++ '}' :: '}' :: rest)) =
      some (before, body ++ '}' :: '}' :: rest))
    (closed : bodyLength 0 none false (body ++ '}' :: '}' :: rest) = some body.length) :
    parse (before ++ '{' :: '{' :: (body ++ '}' :: '}' :: rest)) =
      ⟨(before, body) :: (parse rest).segments, (parse rest).tail⟩ := by
  have behind : (body ++ '}' :: '}' :: rest).drop (body.length + 2) = rest := by
    rw [List.drop_length_add_append]
    rfl
  rw [parse_of_closed opened closed, behind, List.take_left]

/-- A closed expression and the text behind its braces. -/
theorem split_of_closed {n : Nat} (closed : bodyLength 0 none false rest = some n) :
    rest = rest.take n ++ '}' :: '}' :: rest.drop (n + 2) ∧ (rest.take n).length = n := by
  obtain ⟨tail, behind⟩ := drop_bodyLength closed
  have skipped : rest.drop (n + 2) = tail := by
    rw [← List.drop_drop, behind]
    rfl
  have bound : n ≤ rest.length := by
    have lengths := congrArg List.length behind
    rw [List.length_drop, List.length_cons] at lengths
    omega
  exact ⟨by rw [skipped, ← behind, List.take_append_drop], List.length_take_of_le bound⟩

end Parse

theorem Parts.render_cons (before body : List Char) (segments : List (List Char × List Char))
    (tail : List Char) :
    (⟨(before, body) :: segments, tail⟩ : Parts).render =
      before ++ '{' :: '{' :: (body ++ '}' :: '}' :: (⟨segments, tail⟩ : Parts).render) := by
  simp [Parts.render]

/-- A change of the expressions that leaves each of them closed changes nothing else. -/
theorem parse_render_mapBodies {f : List Char → List Char}
    (keeps : ∀ body rest rest' : List Char,
      bodyLength 0 none false (body ++ '}' :: '}' :: rest) = some body.length →
      bodyLength 0 none false (f body ++ '}' :: '}' :: rest') = some (f body).length)
    (cs : List Char) : parse ((parse cs).mapBodies f).render = (parse cs).mapBodies f := by
  fun_induction parse cs with
  | case1 cs h => exact parse_of_unopened h
  | case2 cs before rest h unclosed => exact parse_of_unclosed h unclosed
  | case3 cs before rest h n closed more ih =>
    obtain ⟨text, size⟩ := split_of_closed closed
    have still : bodyLength 0 none false
        (f (rest.take n) ++ '}' :: '}' :: (more.mapBodies f).render) =
          some (f (rest.take n)).length := by
      apply keeps (rest.take n) (rest.drop (n + 2))
      rw [← text, closed, size]
    have opened := splitOpen_replace h
      (f (rest.take n) ++ '}' :: '}' :: (more.mapBodies f).render)
    change parse (Parts.render ⟨(before, f (rest.take n)) :: (more.mapBodies f).segments,
      (more.mapBodies f).tail⟩) = _
    rw [Parts.render_cons]
    refine (parse_segment opened still).trans ?_
    rw [ih]
    rfl

/-- Localizing keeps the segments of a text and what stands around them. -/
theorem parse_localize_of_closed {s : Scope} (closes : ResolvesClosed s) (text : String) :
    parse (localize s text).toList = (parse text.toList).mapBodies (localizeExpression s) := by
  rw [localize, String.toList_ofList, localizeChars]
  exact parse_render_mapBodies
    (fun body _ rest' closed => (edited_localizeExpression closes body).lengthIn_eq 0 rest' closed)
    text.toList

end Segments

end ListRepeater.Binding
