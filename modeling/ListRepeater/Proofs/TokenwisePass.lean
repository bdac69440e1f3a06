import ListRepeater.Proofs.AncestorReferences
import ListRepeater.Proofs.ExpressionTokens
/-!
# Localizing in one pass

Localizing finds the chains and the literals of an expression in two scans of their own and splices
in what the chains stand for. It comes to the same as one pass over the tokens of the expression: a
chain that is resolved and has no dot before it is replaced, and every other token is kept.
-/
namespace ListRepeater

namespace Binding

section Edits

variable {cs : List Char} {ts : List Token} {pos : Nat} {dot : Bool} {mark : Char}

/-- What localizing makes of a token: a chain with no dot before it becomes what it stands for. -/
def Token.image (s : Scope) (afterDot : Bool) : Token → List Char
  | .chain words =>
    if afterDot then chainText words
    else ((s.resolve words).map String.toList).getD (chainText words)
  | t => t.source

/-- The images of tokens one after the other. -/
def images (s : Scope) : Bool → List Token → List Char
  | _, [] => []
  | afterDot, t :: ts => t.image s afterDot ++ images s (t.source.getLast? == some '.') ts

/-- The edit that localizing makes for a token at position `pos`. -/
def Token.edit? (s : Scope) (pos : Nat) (afterDot : Bool) : Token → Option Edit
  | .chain words =>
    if afterDot then none
    else (s.resolve words).map fun text =>
      ⟨pos, pos + (chainText words).length, text.toList⟩
  | _ => none

def tokenEdits (s : Scope) : Nat → Bool → List Token → List Edit
  | _, _, [] => []
  | pos, afterDot, t :: ts =>
    (t.edit? s pos afterDot).toList ++
      tokenEdits s (pos + t.source.length) (t.source.getLast? == some '.') ts

theorem le_of_mem_tokenEdits {s : Scope} :
    ∀ e ∈ tokenEdits s pos dot ts, pos ≤ e.start ∧ e.start ≤ e.stop := by
  induction ts generalizing pos dot with
  | nil => simp [tokenEdits]
  | cons t ts ih =>
    intro e he
    rcases List.mem_append.mp he with own | later
    · cases t with
      | chain words =>
        simp only [Token.edit?, Option.mem_toList, Option.ite_none_left_eq_some,
          Option.map_eq_some_iff] at own
        obtain ⟨-, text, -, rfl⟩ := own
        exact ⟨Nat.le_refl pos, Nat.le_add_right pos _⟩
      | literal text => cases own
      | other c => cases own
    · have bounds := ih e later
      exact ⟨Nat.le_trans (Nat.le_add_right pos _) bounds.1, bounds.2⟩

/-- The edits of the tokens make their images of the text. -/
theorem splice_tokenEdits (s : Scope) (pos : Nat) (dot : Bool) (ts : List Token) :
    splice pos (ts.flatMap Token.source) (tokenEdits s pos dot ts) = images s dot ts := by
  induction ts generalizing pos dot with
  | nil => rfl
  | cons t ts ih =>
    rw [List.flatMap_cons, tokenEdits, images]
    have kept : t.edit? s pos dot = none → t.image s dot = t.source →
        splice pos (t.source ++ ts.flatMap Token.source) ((t.edit? s pos dot).toList ++
          tokenEdits s (pos + t.source.length) (t.source.getLast? == some '.') ts) =
        t.image s dot ++ images s (t.source.getLast? == some '.') ts := by
      intro none same
      rw [none, same, ← ih (pos + t.source.length)]
      exact splice_append _ _ rfl le_of_mem_tokenEdits
    cases t with
    | literal text => exact kept rfl rfl
    | other c => exact kept rfl rfl
    | chain words =>
      cases dot with
      | true => exact kept rfl rfl
      | false =>
        cases resolved : s.resolve words with
        | none =>
          exact kept (by simp [Token.edit?, resolved])
            (by simp [Token.image, Token.source, resolved])
        | some text =>
          simp [Token.edit?, Token.image, Token.source, resolved, splice, ih]

end Edits

section Scans

variable {pos : Nat} {dot : Bool} {mark : Char} {front rest : List Char}

theorem span_append {p : Char → Bool} (stop : p mark = false) (front rest : List Char) :
    (front ++ mark :: rest).takeWhile p = front.takeWhile p ∧
      (front ++ mark :: rest).dropWhile p = front.dropWhile p ++ mark :: rest := by
  induction front with
  | nil => simp [stop]
  | cons c front ih => by_cases h : p c = true <;> simp [h, ih]

/-- A chain does not go on behind a quote. -/
theorem chain_append_quote (quote : isQuote mark = true) (front rest : List Char) :
    chain (front ++ mark :: rest) = ((chain front).1, (chain front).2 ++ mark :: rest) := by
  have stop := isWordChar_of_isQuote quote
  have start := isWordStart_of_isQuote quote
  fun_induction chain front with
  | case1 cs word c more h hc found ih =>
    obtain ⟨own, behind⟩ := span_append stop cs rest
    rw [chain_of_dot hc (behind.trans (congrArg (· ++ mark :: rest) h)), own]
    exact congrArg (fun found => (word :: found.1, found.2)) ih
  | case2 cs word c more h hc =>
    obtain ⟨own, behind⟩ := span_append stop cs rest
    have stops : ∀ d tail, '.' :: c :: more ++ mark :: rest = '.' :: d :: tail →
        isWordStart d = false := by
      rintro d _ ⟨⟩
      exact Bool.not_eq_true _ ▸ hc
    rw [chain_of_stop (behind.trans (congrArg (· ++ mark :: rest) h)) stops, own]
  | case3 cs word h =>
    obtain ⟨own, behind⟩ := span_append stop cs rest
    have stops : ∀ d tail, cs.dropWhile isWordChar ++ mark :: rest = '.' :: d :: tail →
        isWordStart d = false := by
      intro d tail text
      rcases left : cs.dropWhile isWordChar with _ | ⟨e, _ | ⟨f, more⟩⟩
      · rw [left] at text
        obtain ⟨rfl, -⟩ := List.cons.inj text
        cases quote
      · rw [left] at text
        obtain ⟨-, text⟩ := List.cons.inj text
        obtain ⟨rfl, -⟩ := List.cons.inj text
        exact start
      · rw [left] at text
        obtain ⟨rfl, text⟩ := List.cons.inj text
        exact (h f more left).elim
    rw [chain_of_stop behind stops, own]

theorem chains_append_quote (quote : isQuote mark = true) (pos : Nat) (dot : Bool)
    (front rest : List Char) : chains pos dot (front ++ mark :: rest) =
      chains pos dot front ++ chains (pos + front.length + 1) false rest := by
  fun_induction chains pos dot front with
  | case1 pos dot =>
    have start : ¬isWordStart mark = true := Bool.eq_false_iff.mp (isWordStart_of_isQuote quote)
    have dot : (mark == '.') = false := beq_eq_false_iff_ne.mpr (ne_of_isQuote quote rfl)
    rw [List.nil_append, chains, dif_neg start, dot]
    rfl
  | case2 pos dot c front hc found stop ih =>
    have whole := chain_append_quote quote (c :: front) rest
    have shorter := length_chain_lt hc front
    have size : pos + ((c :: (front ++ mark :: rest)).length -
        (found.2 ++ mark :: rest).length) = stop := by
      simp only [stop, List.length_cons, List.length_append]
      omega
    have behind : stop + found.2.length + 1 = pos + (c :: front).length + 1 := by
      simp only [stop, found]
      omega
    have next : chains pos dot (c :: (front ++ mark :: rest)) =
        ⟨pos, stop, found.1, dot⟩ :: chains stop false (found.2 ++ mark :: rest) := by
      rw [List.cons_append] at whole
      rw [chains, dif_pos hc, whole]
      exact congrArg (fun n : Nat => (⟨pos, n, found.1, dot⟩ : Chain) ::
        chains n false (found.2 ++ mark :: rest)) size
    rw [List.cons_append, next, ih, behind, List.cons_append]
  | case3 pos dot c front hc ih =>
    rw [List.cons_append, chains, dif_neg hc, ih, List.length_cons]
    congr 2
    omega

theorem getLast?_word {w : String} (word : isWord w = true) (front : List Char) :
    (front ++ w.toList).getLast? ≠ some '.' := by
  obtain ⟨c, cs, text, -⟩ := exists_of_isWord word
  have some : w.toList ≠ [] := text ▸ List.cons_ne_nil c cs
  intro last
  rw [List.getLast?_append_of_ne_nil front some] at last
  cases isWordChar_of_isWord word (List.mem_of_getLast? last)

/-- A chain ends with its last word and so with no dot. -/
theorem getLast?_chainText {w : String} {tail : List String}
    (words : ∀ v ∈ w :: tail, isWord v = true) : (chainText (w :: tail)).getLast? ≠ some '.' := by
  rcases List.eq_nil_or_concat' tail with rfl | ⟨tail, v, rfl⟩
  · have last := getLast?_word (words w List.mem_cons_self) []
    rwa [List.nil_append, ← List.append_nil w.toList] at last
  · have last := getLast?_word (words v (by simp)) (w.toList ++ (tailChars tail ++ ['.']))
    simpa [chainText, tailChars] using last

/-- Where a chain of an expression stands: `front` is what stands before it in the text. -/
theorem exists_of_mem_chains {cs : List Char} : ∀ ch ∈ chains pos dot cs, ∃ w tail front back,
    ch.words = w :: tail ∧ (∀ v ∈ w :: tail, isWord v = true) ∧
      cs = front ++ (chainText (w :: tail) ++ back) ∧ ch.start = pos + front.length ∧
      ch.stop = ch.start + (chainText (w :: tail)).length ∧
      ch.afterDot = front.getLast?.elim dot (· == '.') := by
  fun_induction chains pos dot cs with
  | case1 => simp
  | case2 pos dot c rest hc found stop ih =>
    obtain ⟨w, tail, head, words, text, -⟩ := chain_split (c :: rest) hc
    rw [← List.append_assoc] at text
    change c :: rest = chainText (w :: tail) ++ found.2 at text
    have size : stop = pos + (chainText (w :: tail)).length := by
      simp only [stop, text, List.length_append]
      omega
    refine List.forall_mem_cons.mpr ⟨⟨w, tail, [], found.2, head, words, text, rfl, size, rfl⟩, ?_⟩
    intro ch hch
    obtain ⟨v, more, front, back, own, words', behind, start, size', before⟩ := ih ch hch
    refine ⟨v, more, chainText (w :: tail) ++ front, back, own, words', ?_, ?_, size', ?_⟩
    · rw [text, behind, List.append_assoc]
    · rw [start, size, List.length_append, Nat.add_assoc]
    · obtain ⟨d, more, first, -⟩ := chainText_eq_cons words
      have last : (chainText (w :: tail)).getLast?.elim dot (· == '.') = false := by
        have noDot := getLast?_chainText words
        rw [first, List.getLast?_cons] at noDot ⊢
        simpa using noDot
      rw [before, List.getLast?_append]
      cases front.getLast? with
      | none => exact last.symm
      | some e => rfl
  | case3 pos dot c rest hc ih =>
    intro ch hch
    obtain ⟨w, tail, front, back, own, words, rfl, start, size, before⟩ := ih ch hch
    refine ⟨w, tail, c :: front, back, own, words, rfl, ?_, size, ?_⟩
    · rw [start, List.length_cons]
      omega
    · rw [before, List.getLast?_cons]
      cases front.getLast? <;> rfl

end Scans

section Agreement

variable {s : Scope} {cs before : List Char} {ts : List Token} {mark : Char} {inner : List Char}

theorem editsFor_append (s : Scope) (quoted : List (Nat × Nat)) (found more : List Chain) :
    editsFor s quoted (found ++ more) = editsFor s quoted found ++ editsFor s quoted more := by
  simp [editsFor]

theorem editsFor_cons_of_outside {quoted : List (Nat × Nat)} {ch : Chain} (more : List Chain)
    (outside : inside ch.start quoted = false) : editsFor s quoted (ch :: more) =
      (if ch.afterDot then none else (s.resolve ch.words).map fun text =>
        (⟨ch.start, ch.stop, text.toList⟩ : Edit)).toList ++ editsFor s quoted more := by
  by_cases dot : ch.afterDot = true
  · simp [editsFor, outside, dot]
  · cases resolved : s.resolve ch.words <;> simp [editsFor, outside, dot, resolved]

/-- Nothing is edited in a literal. -/
theorem editsFor_enclosed (quote : isQuote mark = true) {pending : Bool}
    (enclosed : Enclosed mark pending inner) (outside : before.foldl nextLiteral none = none)
    (dot : Bool) (rest : List Char) :
    editsFor s (literals 0 none false (before ++ (mark :: inner ++ rest)))
      (chains before.length dot (mark :: inner)) = [] := by
  have within : ∀ ch ∈ chains before.length dot (mark :: inner),
      inside ch.start (literals 0 none false (before ++ (mark :: inner ++ rest))) = true := by
    intro ch hch
    obtain ⟨w, tail, front, behind, -, words, text, place, -, -⟩ := exists_of_mem_chains ch hch
    obtain ⟨c, more, first, start⟩ := chainText_eq_cons words
    obtain ⟨back, text⟩ : ∃ back, mark :: inner = front ++ c :: back :=
      ⟨more ++ behind, by rw [text, first, List.cons_append]⟩
    rcases List.cons_eq_append_iff.mp text with ⟨rfl, e⟩ | ⟨front, rfl, own⟩
    · exact absurd (List.cons.inj e).1.symm (ne_of_isQuote quote (isQuote_of_isWordStart start))
    · have plain := isPlain_of_isWordChar (isWordChar_of_isWordStart start)
      have whole : before ++ (mark :: inner ++ rest) =
          before ++ mark :: front ++ c :: (back ++ rest) := by
        rw [own]
        simp
      rw [whole, place, ← List.length_append, inside_literals_of_plain _ _ plain,
        List.foldl_append, outside, foldl_nextLiteral_quote quote]
      exact enclosed.isSome_foldl front own
  generalize literals 0 none false (before ++ (mark :: inner ++ rest)) = quoted at within ⊢
  have dropped : (chains before.length dot (mark :: inner)).filter
      (fun ch => !inside ch.start quoted && !ch.afterDot) = [] :=
    List.filter_eq_nil_iff.mpr fun ch hch => by simp [within ch hch]
  rw [editsFor, dropped]
  rfl

/-- The two scans and the tokens lead to the same edits. -/
theorem editsFor_lexed (s : Scope) (lexed : Lexed cs ts)
    (outside : before.foldl nextLiteral none = none) (dot : Bool) :
    editsFor s (literals 0 none false (before ++ cs)) (chains before.length dot cs) =
      tokenEdits s before.length dot ts := by
  -- `before` grows by one token at a time and never ends inside of a literal, so that the scan for
  -- literals reads what is left as if it stood alone
  induction lexed generalizing before dot with
  | done => simp [chains, editsFor, tokenEdits]
  | @literal mark inner rest ts quote enclosed more ih =>
    have closed : (before ++ (mark :: inner ++ [mark])).foldl nextLiteral none = none := by
      rw [List.foldl_append, outside, enclosed.closed quote]
    have last : ((mark :: inner ++ [mark]).getLast? == some '.') = false := by
      rw [List.getLast?_concat]
      simpa using ne_of_isQuote quote rfl
    have behind := ih closed false
    have place : (before ++ (mark :: inner ++ [mark])).length =
        before.length + (mark :: inner).length + 1 := by
      simp [Nat.add_assoc]
    have whole : before ++ (mark :: inner ++ [mark]) ++ rest =
        before ++ (mark :: inner ++ mark :: rest) := by simp
    rw [place, whole] at behind
    rw [chains_append_quote quote, editsFor_append, editsFor_enclosed quote enclosed outside,
      behind, tokenEdits, Token.source, last]
    simp [Token.edit?, Nat.add_assoc]
  | @unclosed mark pending inner quote enclosed =>
    have none := editsFor_enclosed (s := s) quote enclosed outside dot []
    rw [List.append_nil] at none
    rw [none]
    rfl
  | @chain w tail rest ts words stops more ih =>
    obtain ⟨c, cs, text, start⟩ := chainText_eq_cons words
    have plain := isPlain_of_mem_join words
    have still : (before ++ chainText (w :: tail)).foldl nextLiteral none = none := by
      rw [List.foldl_append, outside]
      exact foldl_nextLiteral_plain plain
    have behind := ih still false
    have outer : inside before.length
        (literals 0 none false (before ++ (chainText (w :: tail) ++ rest))) = false := by
      rw [text, List.cons_append, inside_literals_of_plain before (cs ++ rest)
        (isPlain_of_isWordChar (isWordChar_of_isWordStart start)), outside]
      rfl
    have noDot : ((chainText (w :: tail)).getLast? == some '.') = false :=
      beq_eq_false_iff_ne.mpr (getLast?_chainText words)
    have next : chains before.length dot (chainText (w :: tail) ++ rest) =
        ⟨before.length, before.length + (chainText (w :: tail)).length, w :: tail, dot⟩ ::
          chains (before.length + (chainText (w :: tail)).length) false rest := by
      rw [chainText, List.append_assoc]
      exact chains_append words stops before.length dot
    rw [List.append_assoc, List.length_append] at behind
    rw [next, editsFor_cons_of_outside _ outer, behind, tokenEdits, Token.source, noDot]
    rfl
  | @other c rest ts unquoted start more ih =>
    have still : (before ++ [c]).foldl nextLiteral none = none := by
      simp [outside, nextLiteral, unquoted]
    have behind := ih still (c == '.')
    rw [List.append_assoc, List.length_append] at behind
    have start : ¬isWordStart c = true := Bool.not_eq_true _ ▸ start
    rw [chains, dif_neg start]
    exact behind

end Agreement

section OnePass

variable {s : Scope} {body : List Char} {ts : List Token}

theorem edits_lexed (s : Scope) (lexed : Lexed body ts) :
    edits s body = tokenEdits s 0 false ts := by
  have start : ([] : List Char).foldl nextLiteral none = none := rfl
  exact editsFor_lexed s lexed start false

/-- Localizing an expression is localizing its tokens from left to right. -/
theorem localizeExpression_lexed (s : Scope) (lexed : Lexed body ts) :
    localizeExpression s body = images s false ts := by
  rw [localizeExpression_eq, edits_lexed s lexed, ← splice_tokenEdits s 0, flatMap_source lexed]

theorem images_eq_source (dot : Bool)
    (kept : ∀ words, .chain words ∈ ts → s.resolve words = none) :
    images s dot ts = ts.flatMap Token.source := by
  induction ts generalizing dot with
  | nil => rfl
  | cons t ts ih =>
    have own : t.image s dot = t.source := by
      cases t with
      | chain words => simp [Token.image, Token.source, kept words List.mem_cons_self]
      | literal text => rfl
      | other c => rfl
    rw [images, own, ih _ fun words h => kept words (List.mem_cons_of_mem t h), List.flatMap_cons]

/-- No chain of words in the segments of the text stands for anything in the row. -/
def Unresolved (s : Scope) (text : String) : Prop :=
  ∀ seg ∈ (parse text.toList).segments, ∀ ts, Lexed seg.2 ts →
    ∀ words, .chain words ∈ ts → s.resolve words = none

theorem localize_of_unresolved {text : String} (h : Unresolved s text) :
    localize s text = text := by
  have bodies : ∀ seg ∈ (parse text.toList).segments, localizeExpression s seg.2 = seg.2 := by
    intro seg hseg
    obtain ⟨ts, lexed⟩ := exists_lexed seg.2
    rw [localizeExpression_lexed s lexed, images_eq_source false (h seg hseg ts lexed),
      flatMap_source lexed]
  have segments : (parse text.toList).mapBodies (localizeExpression s) = parse text.toList := by
    have same : (parse text.toList).segments.map (fun seg => (seg.1, localizeExpression s seg.2)) =
        (parse text.toList).segments.map id :=
      List.map_congr_left fun seg hseg => Prod.ext rfl (bodies seg hseg)
    rw [Parts.mapBodies, same, List.map_id]
  rw [localize, localizeChars, segments, render_parse, String.ofList_toList]

end OnePass

end Binding

section UnknownHeads

/-- The row knows nothing under this first word of a chain: it is a level that the scope does not
hold, or it names no widget that has another name in the row. -/
structure Scope.Unknown (s : Scope) (head : String) : Prop where
  item : head ≠ "currentItem"
  index : head ≠ "currentIndex"
  view : head ≠ "currentView"
  level : (levelOf? head).isSome = true → s.ancestor? head = none
  sibling : levelOf? head = none → ∀ own, s.names.find? head = some own → own = head

theorem Scope.Unknown.resolve {s : Scope} {head : String} (h : s.Unknown head)
    (rest : List String) : s.resolve (head :: rest) = none := by
  rw [Scope.resolve, if_neg h.item, if_neg h.index, if_neg h.view]
  by_cases level : (levelOf? head).isSome = true
  · rw [if_pos level, h.level level]
    rfl
  · rw [if_neg level]
    cases named : s.names.find? head with
    | none => rfl
    | some own =>
      exact if_pos (h.sibling (Option.not_isSome_iff_eq_none.mp level) own named)

/-- In the editable row the widgets have the names of the template. -/
theorem Turn.own_of_names {t : Turn} {row : PassRow} (hrow : row ∈ t.rows)
    (editable : row.editable = true) {name own : String}
    (found : row.layout.names.find? name = some own) : own = name := by
  obtain ⟨-, -, layout⟩ := row_of_mem_rows hrow
  rw [layout, Pass.names_layoutIn] at found
  have member := Keyed.mem_of_mem_ofList ((Keyed.find?_eq_some_iff _ _ _).mp found)
  obtain ⟨w, hw, e⟩ := List.mem_map.mp member
  obtain ⟨x, -, same, rfl⟩ := exists_cell hrow (layout ▸ hw)
  rw [editable] at same
  rw [← (Prod.mk.inj e).1, ← (Prod.mk.inj e).2, Pass.widgetIn, RowWidget.make, ← same]
  rfl

/-- The names of siblings are unknown in the editable row, since they stay what they are. -/
theorem Turn.unknown_of_editable {t : Turn} {row : PassRow} (hrow : row ∈ t.rows)
    (editable : row.editable = true) {head : String} (item : head ≠ "currentItem")
    (index : head ≠ "currentIndex") (view : head ≠ "currentView") (level : levelOf? head = none) :
    (t.scopeOf row).Unknown head where
  item := item
  index := index
  view := view
  level some := by
    rw [level] at some
    cases some
  sibling _ _ found := own_of_names hrow editable found

end UnknownHeads

/-- Localizing an expression is one pass over its tokens, which it has in one way only: a chain that
is resolved and has no dot before it becomes what it stands for, and all other tokens are kept. So a
text with no such chain is kept as a whole: one that speaks of unknown levels and names, and in the
editable row of the names of siblings. -/
theorem Binding.localize_tokens :
    (∀ (s : Scope) (body : List Char), ∃ ts, Lexed body ts ∧ (∀ ts', Lexed body ts' → ts' = ts) ∧
      localizeExpression s body = images s false ts) ∧
    (∀ (s : Scope) (text : String), Unresolved s text → localize s text = text) ∧
    (∀ (s : Scope) (head : String), s.Unknown head → ∀ rest, s.resolve (head :: rest) = none) ∧
    (∀ t : Turn, ∀ row ∈ t.rows, row.editable = true → ∀ head,
      head ≠ "currentItem" → head ≠ "currentIndex" → head ≠ "currentView" →
      levelOf? head = none → (t.scopeOf row).Unknown head) := by
  refine ⟨?_, fun s text => localize_of_unresolved, fun s head => Scope.Unknown.resolve, ?_⟩
  · intro s body
    obtain ⟨ts, lexed⟩ := exists_lexed body
    exact ⟨ts, lexed, fun ts' other => lexed_unique other lexed, localizeExpression_lexed s lexed⟩
  · intro t row hrow editable head item index view level
    exact Turn.unknown_of_editable hrow editable item index view level

end ListRepeater
