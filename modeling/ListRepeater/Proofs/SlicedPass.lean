import ListRepeater.Proofs.LiteralRanges
import ListRepeater.Proofs.TokenwisePass
/-!
# Localizing by slices

Localizing can work on the bytes of a text: it finds the braces of a segment by their byte
positions, the literals and the chains of an expression by their ranges of bytes, and takes slices
of the text between them. A slice at a position inside of a character would fail, and with it the
whole pass. None does: every position that the scans tell is one between two characters, and the
pass comes to what localizing makes of the characters.
-/
namespace ListRepeater.Binding

open Text

section Pass

variable (s : Scope)

/-- The byte position of the first two opening braces. -/
def openingAt? : List UInt8 → Option Nat
  | [] => none
  | b :: rest =>
    if b = '{'.toUInt8 ∧ rest.head? = some '{'.toUInt8 then some 0
    else (openingAt? rest).map (· + 1)

/-- The chain with its byte positions in the text. -/
def Chain.at (cs : List Char) (ch : Chain) : Chain :=
  { ch with start := byteAt cs ch.start, stop := byteAt cs ch.stop }

def chainRanges (expr : String) : List Chain :=
  (chains 0 false expr.toList).map (Chain.at expr.toList)

/-- The rest of the pass over the chains of an expression: `out` is what the expression up to the
byte position `last` has become. -/
def spliceSlices? (expr : String) (quoted : List (Nat × Nat)) (out : String) (last : Nat) :
    List Chain → Option String
  | [] => (slice? expr last expr.utf8ByteSize).map (out ++ ·)
  | ch :: more =>
    if inside ch.start quoted then spliceSlices? expr quoted out last more
    else
      (slice? expr 0 ch.start).bind fun before =>
        if before.toList.getLast? = some '.' then spliceSlices? expr quoted out last more
        else
          (slice? expr ch.start ch.stop).bind fun text =>
            match s.resolve ((text.toList.splitOn '.').map String.ofList) with
            | none => spliceSlices? expr quoted out last more
            | some new =>
              (slice? expr last ch.start).bind fun kept =>
                spliceSlices? expr quoted (out ++ kept ++ new) ch.stop more

def localizeSlicedExpression? (expr : String) : Option String :=
  spliceSlices? s expr (literalRanges expr) "" 0 (chainRanges expr)

/-- The text localized by slices, if there are all that the pass asks for. -/
def localizeSliced? (text : String) : Option String :=
  match openingAt? (bytes text) with
  | none => some text
  | some opening =>
    let body := opening + 2
    (slice? text body text.utf8ByteSize).bind fun behind =>
      match segmentLength? behind with
      | none => some text
      | some n =>
        (slice? text 0 body).bind fun before =>
          (slice? text body (body + n)).bind fun expr =>
            (localizeSlicedExpression? s expr).bind fun own =>
              match _h : slice? text (body + n + 2) text.utf8ByteSize with
              | none => none
              | some rest => (localizeSliced? rest).map (before ++ own ++ "\x7d\x7d" ++ ·)
  termination_by text.utf8ByteSize
  decreasing_by
    have size := utf8ByteSize_of_slice? _h
    omega

end Pass

section Openings

/-- No opening starts at a byte that is no opening brace. -/
theorem openingAt?_append {front : List UInt8} (apart : ∀ b ∈ front, b ≠ '{'.toUInt8)
    (rest : List UInt8) :
    openingAt? (front ++ rest) = (openingAt? rest).map (· + front.length) := by
  induction front with
  | nil => simp
  | cons b front ih =>
    obtain ⟨first, apart⟩ := List.forall_mem_cons.mp apart
    rw [List.cons_append, openingAt?, if_neg fun opens => first opens.1, ih apart, Option.map_map]
    rfl

/-- The segments of a text are opened at the same place in bytes and in characters. -/
theorem openingAt?_flatMap (cs : List Char) :
    openingAt? (cs.flatMap String.utf8EncodeChar) =
      (splitOpen cs).map fun parts => String.utf8Len parts.1 := by
  have brace : '{'.toNat < 128 := by decide
  induction cs with
  | nil => rfl
  | cons c cs ih =>
    rw [List.flatMap_cons, splitOpen]
    by_cases opens : c = '{' ∧ cs.head? = some '{'
    · obtain ⟨rfl, next⟩ := opens
      have next' := (head?_flatMap_utf8EncodeChar brace cs).mpr next
      rw [if_pos ⟨rfl, next⟩, utf8EncodeChar_of_small brace, List.singleton_append, openingAt?,
        if_pos ⟨rfl, next'⟩]
      rfl
    · rw [if_neg opens, Option.map_map]
      have shift : openingAt? (String.utf8EncodeChar c ++ cs.flatMap String.utf8EncodeChar) =
          (openingAt? (cs.flatMap String.utf8EncodeChar)).map (· + c.utf8Size) := by
        rw [← String.length_utf8EncodeChar c]
        rcases utf8EncodeChar_cases c with ⟨small, encoded⟩ | ⟨-, large⟩
        · rw [← toUInt8_eq_iff small brace, ← head?_flatMap_utf8EncodeChar brace] at opens
          rw [encoded, List.singleton_append, openingAt?, if_neg opens]
          rfl
        · refine openingAt?_append (fun b hb => ?_) _
          rintro rfl
          exact absurd (large _ hb) (by decide)
      rw [shift, ih, Option.map_map]
      rfl

end Openings

section Places

variable {cs : List Char} {ch : Chain}

/-- Words without dots can be told from their chain. -/
theorem splitOn_chainText {w : String} {tail : List String}
    (words : ∀ v ∈ w :: tail, isWord v = true) :
    ((chainText (w :: tail)).splitOn '.').map String.ofList = w :: tail := by
  have text : chainText (w :: tail) = ['.'].intercalate ((w :: tail).map String.toList) := by
    clear words
    induction tail generalizing w with
    | nil => simp [chainText, tailChars]
    | cons v tail ih =>
      rw [List.map_cons, List.map_cons, List.intercalate_cons_cons, ← List.map_cons, ← ih]
      simp [chainText, tailChars]
  have noDot : ∀ l ∈ (w :: tail).map String.toList, '.' ∉ l := by
    rintro _ hl dot
    obtain ⟨v, hv, rfl⟩ := List.mem_map.mp hl
    cases isWordChar_of_isWord (words v hv) dot
  rw [text, List.splitOn_intercalate '.' noDot (List.cons_ne_nil _ _), List.map_map]
  simp

/-- What an expression has at the place of a chain. -/
structure StandsIn (cs : List Char) (ch : Chain) : Prop where
  order : ch.start < ch.stop
  within : ch.stop ≤ cs.length
  words : (((cs.take ch.stop).drop ch.start).splitOn '.').map String.ofList = ch.words
  dot : (cs.take ch.start).getLast? = some '.' ↔ ch.afterDot = true

theorem standsIn_of_mem_chains : ∀ ch ∈ chains 0 false cs, StandsIn cs ch := by
  intro ch hch
  obtain ⟨w, tail, front, back, own, words, text, start, stop, dot⟩ := exists_of_mem_chains ch hch
  rw [Nat.zero_add] at start
  obtain ⟨c, more, first, -⟩ := chainText_eq_cons words
  have piece : (cs.take ch.stop).drop ch.start = chainText (w :: tail) := by
    rw [text, stop, start, List.take_length_add_append, List.drop_left, List.take_left]
  refine ⟨?_, ?_, by rw [piece, splitOn_chainText words, own], ?_⟩
  · rw [stop, first]
    simp
  · rw [stop, start, text]
    simp
  · rw [dot, start, text, List.take_left]
    cases front.getLast? <;> simp

/-- The chains come one behind the other. -/
theorem pairwise_chains (pos : Nat) (dot : Bool) (cs : List Char) :
    (chains pos dot cs).Pairwise fun a b => a.stop ≤ b.start := by
  fun_induction chains pos dot cs with
  | case1 => exact .nil
  | case2 pos dot c rest hc found stop ih =>
    exact .cons (fun ch hch => (le_of_mem_chains ch hch).1) ih
  | case3 pos dot c rest hc ih => exact ih

end Places

section Splices

variable {s : Scope} {cs : List Char} {quoted : List (Nat × Nat)} {last : Nat}

theorem splice_drop {start stop : Nat} (behind : last ≤ start) (order : start ≤ stop)
    (new : List Char) (edits : List Edit) :
    splice last (cs.drop last) (⟨start, stop, new⟩ :: edits) =
      (cs.take start).drop last ++ new ++ splice stop (cs.drop stop) edits := by
  have rest : (cs.drop last).drop (stop - last) = cs.drop stop := by
    rw [List.drop_drop, Nat.add_sub_cancel' (Nat.le_trans behind order)]
  rw [splice, rest, List.drop_take]

/-- The pass over chains makes the edits of these chains. -/
theorem spliceSlices?_eq {found : List Chain} (stands : ∀ ch ∈ found, StandsIn cs ch)
    (order : found.Pairwise fun a b => a.stop ≤ b.start) (within : last ≤ cs.length)
    (later : ∀ ch ∈ found, last ≤ ch.start) (out : String) :
    spliceSlices? s (String.ofList cs) (rangesAt cs quoted) out (byteAt cs last)
        (found.map (Chain.at cs)) =
      some (out ++ String.ofList (splice last (cs.drop last) (editsFor s quoted found))) := by
  -- what stands before `last` is in `out` already, and no chain that is left starts there
  induction found generalizing last out with
  | nil =>
    rw [List.map_nil, spliceSlices?, ← byteAt_length, slice?_byteAt cs within, List.take_length]
    rfl
  | cons ch found ih =>
    obtain ⟨own, stands⟩ := List.forall_mem_cons.mp stands
    obtain ⟨next, order⟩ := List.pairwise_cons.mp order
    obtain ⟨behind, later⟩ := List.forall_mem_cons.mp later
    have skipped := ih stands order within later out
    rw [List.map_cons, spliceSlices?]
    have here := byteAt_lt_succ (Nat.lt_of_lt_of_le own.order own.within)
    simp only [Chain.at, inside_rangesAt (Nat.le_refl _) here]
    cases outside : inside ch.start quoted with
    | true =>
      have none : editsFor s quoted (ch :: found) = editsFor s quoted found := by
        simp [editsFor, outside]
      rw [none]
      exact skipped
    | false =>
      have before : slice? (String.ofList cs) 0 (byteAt cs ch.start) =
          some (String.ofList (cs.take ch.start)) := slice?_byteAt cs (Nat.zero_le ch.start)
      rw [if_neg Bool.false_ne_true, before, Option.bind_some, String.toList_ofList,
        editsFor_cons_of_outside found outside]
      by_cases dot : ch.afterDot = true
      · rw [if_pos (own.dot.mpr dot), if_pos dot]
        exact skipped
      rw [if_neg (dot ∘ own.dot.mp), if_neg dot, slice?_byteAt cs (Nat.le_of_lt own.order),
        Option.bind_some, String.toList_ofList, own.words]
      cases s.resolve ch.words with
      | none => exact skipped
      | some new =>
        simp only [slice?_byteAt cs behind, Option.bind_some, ih stands order own.within next]
        simp [splice_drop behind (Nat.le_of_lt own.order), String.append_assoc]

theorem localizeSlicedExpression?_ofList (s : Scope) (cs : List Char) :
    localizeSlicedExpression? s (String.ofList cs) =
      some (String.ofList (localizeExpression s cs)) := by
  rw [localizeSlicedExpression?, chainRanges, literalRanges_ofList, String.toList_ofList]
  refine (spliceSlices?_eq standsIn_of_mem_chains (pairwise_chains 0 false cs) (Nat.zero_le _)
    (fun _ _ => Nat.zero_le _) "").trans ?_
  rw [String.empty_append, localizeExpression_eq]
  rfl

end Splices

section Texts

variable {s : Scope} {cs front rest : List Char}

theorem localizeSliced?_of_unopened (unopened : splitOpen cs = none) :
    localizeSliced? s (String.ofList cs) = some (String.ofList cs) := by
  rw [localizeSliced?, bytes_ofList, openingAt?_flatMap, unopened]
  rfl

theorem eq_of_opened (opened : splitOpen cs = some (front, rest)) :
    cs = front ++ ['{', '{'] ++ rest := by
  rw [splitOpen_eq opened, List.append_assoc]
  rfl

/-- The text behind the opening braces of a segment. -/
theorem slice?_of_opened (opened : splitOpen cs = some (front, rest)) :
    slice? (String.ofList cs) (String.utf8Len front + 2) (String.ofList cs).utf8ByteSize =
      some (String.ofList rest) := by
  have place : String.utf8Len front + 2 = String.utf8Len (front ++ ['{', '{']) :=
    (String.utf8Len_append front ['{', '{']).symm
  rw [eq_of_opened opened, place]
  exact slice?_append_end (front ++ ['{', '{']) rest

/-- A segment cuts the text in three, besides its closing braces. -/
theorem slices_of_closed {n : Nat} (opened : splitOpen cs = some (front, rest))
    (closed : bodyLength 0 none false rest = some n) :
    slice? (String.ofList cs) 0 (String.utf8Len front + 2) =
      some (String.ofList (front ++ ['{', '{'])) ∧
    slice? (String.ofList cs) (String.utf8Len front + 2)
      (String.utf8Len front + 2 + byteAt rest n) = some (String.ofList (rest.take n)) ∧
    slice? (String.ofList cs) (String.utf8Len front + 2 + byteAt rest n + 2)
      (String.ofList cs).utf8ByteSize = some (String.ofList (rest.drop (n + 2))) := by
  obtain ⟨parts, -⟩ := split_of_closed closed
  have place : String.utf8Len front + 2 = String.utf8Len (front ++ ['{', '{']) :=
    (String.utf8Len_append front ['{', '{']).symm
  have close : byteAt rest n + 2 = String.utf8Len (rest.take n ++ ['}', '}']) :=
    (String.utf8Len_append (rest.take n) ['}', '}']).symm
  rw [Nat.add_assoc (_ + 2), close, place, ← String.utf8Len_append (front ++ ['{', '{']),
    eq_of_opened opened]
  refine ⟨?_, ?_, ?_⟩
  · have before := slice?_append [] (front ++ ['{', '{']) rest
    rwa [List.nil_append, String.utf8Len_nil, Nat.zero_add] at before
  · have expr := slice?_append (front ++ ['{', '{']) (rest.take n) ('}' :: '}' :: rest.drop (n + 2))
    rwa [← parts] at expr
  · have behind := slice?_append_end (front ++ ['{', '{'] ++ (rest.take n ++ ['}', '}']))
      (rest.drop (n + 2))
    have whole : rest.take n ++ ['}', '}'] ++ rest.drop (n + 2) = rest := by
      rw [List.append_assoc]
      exact parts.symm
    rwa [List.append_assoc (front ++ ['{', '{']), whole] at behind

theorem localizeSliced?_of_unclosed (opened : splitOpen cs = some (front, rest))
    (unclosed : bodyLength 0 none false rest = none) :
    localizeSliced? s (String.ofList cs) = some (String.ofList cs) := by
  rw [localizeSliced?, bytes_ofList, openingAt?_flatMap, opened]
  simp only [Option.map_some, slice?_of_opened opened, Option.bind_some, segmentLength?_ofList,
    unclosed, Option.map_none]

theorem localizeSliced?_of_closed {n : Nat} (opened : splitOpen cs = some (front, rest))
    (closed : bodyLength 0 none false rest = some n) :
    localizeSliced? s (String.ofList cs) =
      (localizeSliced? s (String.ofList (rest.drop (n + 2)))).map fun more =>
        String.ofList (front ++ ['{', '{']) ++
          String.ofList (localizeExpression s (rest.take n)) ++ "\x7d\x7d" ++ more := by
  obtain ⟨before, expr, behind⟩ := slices_of_closed opened closed
  rw [localizeSliced?, bytes_ofList, openingAt?_flatMap, opened]
  simp only [Option.map_some, slice?_of_opened opened, Option.bind_some, segmentLength?_ofList,
    closed, before, expr, localizeSlicedExpression?_ofList]
  split
  · next none => cases none.symm.trans behind
  · next some =>
    obtain rfl := Option.some.inj (some.symm.trans behind)
    rfl

/-- All slices that localizing takes exist. -/
theorem localizeSliced?_ofList (s : Scope) (cs : List Char) :
    localizeSliced? s (String.ofList cs) = some (String.ofList (localizeChars s cs)) := by
  fun_induction parse cs with
  | case1 cs unopened =>
    rw [localizeSliced?_of_unopened unopened, localizeChars, parse_of_unopened unopened]
    rfl
  | case2 cs front rest opened unclosed =>
    rw [localizeSliced?_of_unclosed opened unclosed, localizeChars,
      parse_of_unclosed opened unclosed]
    rfl
  | case3 cs front rest opened n closed more ih =>
    have close : "\x7d\x7d" = String.ofList ['}', '}'] := rfl
    rw [localizeSliced?_of_closed opened closed, localizeChars, parse_of_closed opened closed]
    simp only [ih, Option.map_some, Parts.mapBodies, List.map_cons, Parts.render_cons, close,
      ← String.ofList_append, localizeChars]
    simp

/-- The scan for the end of a segment and the one for literals are in step, and localizing takes no
slice that does not exist. The first ends at the first byte that closes the segment. In front of
this byte the second one finds closed literals only, and they hold just the bytes that the first one
takes for quoted. Both find in bytes what they find in characters. So for every text the pass by
slices comes to its end, with the localized text. -/
theorem scans_in_step :
    (∀ text n, segmentLength? text = some n ↔
      ClosesAt (bytes text) n ∧ ∀ m < n, ¬ClosesAt (bytes text) m) ∧
    (∀ text n, segmentLength? text = some n → ∃ expr, slice? text 0 n = some expr ∧
      (∀ r ∈ literalRanges expr, ∃ lit,
        slice? expr r.1 r.2 = some lit ∧ ClosedLiteral (bytes lit)) ∧
      ∀ i < n, (∃ r ∈ literalRanges expr, r.1 ≤ i ∧ i < r.2) ↔ QuotedAt text i) ∧
    (∀ text, segmentLength? text =
      (bodyLength 0 none false text.toList).map (byteAt text.toList)) ∧
    (∀ expr, literalRanges expr = rangesAt expr.toList (literals 0 none false expr.toList)) ∧
    (∀ s expr, localizeSlicedExpression? s expr =
      some (String.ofList (localizeExpression s expr.toList))) ∧
    ∀ s text, localizeSliced? s text = some (localize s text) := by
  refine ⟨segmentLength?_eq_some_iff, fun text n => literals_of_segment, ?_, ?_, ?_, ?_⟩
  · intro text
    rw [← segmentLength?_ofList, String.ofList_toList]
  · intro expr
    rw [← literalRanges_ofList, String.ofList_toList]
  · intro s expr
    rw [← localizeSlicedExpression?_ofList, String.ofList_toList]
  · intro s text
    rw [localize, ← localizeSliced?_ofList, String.ofList_toList]

/-- All three kinds of quotes, an escaped mark, characters of two bytes, and braces that belong to a
literal, to a pair and to none. -/
def mixedText : String :=
  "e5 + 'ü\x7d\x7d' + \"\\\"\x7d\" + \x7bé: \x60\x7b\x60\x7d \x7d \x7d\x7d."

theorem scans_in_step_mixedText :
    ClosesAt (bytes mixedText) 34 ∧ (∀ m < 34, ¬ClosesAt (bytes mixedText) m) ∧
    ∃ expr, slice? mixedText 0 34 = some expr ∧
      literalRanges expr = [(5, 11), (14, 19), (27, 30)] ∧
      (∀ r ∈ literalRanges expr, ∃ lit,
        slice? expr r.1 r.2 = some lit ∧ ClosedLiteral (bytes lit)) ∧
      ∀ i < 34, (∃ r ∈ literalRanges expr, r.1 ≤ i ∧ i < r.2) ↔ QuotedAt mixedText i := by
  have ends : segmentLength? mixedText = some 34 := by decide +kernel
  have ranges : (slice? mixedText 0 34).map literalRanges = some [(5, 11), (14, 19), (27, 30)] := by
    decide +kernel
  obtain ⟨closes, least⟩ := (scans_in_step.1 mixedText 34).mp ends
  obtain ⟨expr, piece, closed, quoted⟩ := scans_in_step.2.1 mixedText 34 ends
  rw [piece] at ranges
  exact ⟨closes, least, expr, piece, Option.some.inj ranges, closed, quoted⟩

end Texts

end ListRepeater.Binding
