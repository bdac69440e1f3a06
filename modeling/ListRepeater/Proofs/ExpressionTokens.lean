import ListRepeater.Proofs.EditedSegments
/-!
# Expressions as tokens

An expression is a sequence of tokens: quoted literals, chains of words that are as long as they can
be, and other characters one by one. Read from left to right, every expression is such a sequence in
one way only.
-/
namespace ListRepeater.Binding

section Tokens

/-- Words with dots between them. -/
def chainText : List String → List Char
  | [] => []
  | w :: rest => w.toList ++ tailChars rest

inductive Token where
  /-- A quoted literal with its marks. -/
  | literal (text : List Char)
  | chain (words : List String)
  | other (c : Char)

def Token.source : Token → List Char
  | .literal text => text
  | .chain words => chainText words
  | .other c => [c]

/-- The text behind the opening mark of a literal, with no closing mark in it. `pending` tells that
it ends with a backslash that waits for the character it escapes. -/
inductive Enclosed (mark : Char) : Bool → List Char → Prop
  | nil : Enclosed mark false []
  | pending : Enclosed mark true ['\\']
  | char {pending : Bool} {c : Char} {rest : List Char} (backslash : c ≠ '\\') (close : c ≠ mark)
      (more : Enclosed mark pending rest) : Enclosed mark pending (c :: rest)
  | escape {pending : Bool} {c : Char} {rest : List Char} (more : Enclosed mark pending rest) :
      Enclosed mark pending ('\\' :: c :: rest)

/-- The tokens of an expression, read from left to right. -/
inductive Lexed : List Char → List Token → Prop
  | done : Lexed [] []
  | literal {mark : Char} {inner rest : List Char} {ts : List Token} (quote : isQuote mark = true)
      (inside : Enclosed mark false inner) (more : Lexed rest ts) :
      Lexed (mark :: inner ++ mark :: rest) (.literal (mark :: inner ++ [mark]) :: ts)
  /-- A literal that is not closed is the rest of the expression. -/
  | unclosed {mark : Char} {pending : Bool} {inner : List Char} (quote : isQuote mark = true)
      (inside : Enclosed mark pending inner) : Lexed (mark :: inner) [.literal (mark :: inner)]
  | chain {w : String} {tail : List String} {rest : List Char} {ts : List Token}
      (words : ∀ v ∈ w :: tail, isWord v = true) (stops : Stops rest) (more : Lexed rest ts) :
      Lexed (chainText (w :: tail) ++ rest) (.chain (w :: tail) :: ts)
  | other {c : Char} {rest : List Char} {ts : List Token} (unquoted : isQuote c = false)
      (start : isWordStart c = false) (more : Lexed rest ts) : Lexed (c :: rest) (.other c :: ts)

theorem flatMap_source {cs : List Char} {ts : List Token} (lexed : Lexed cs ts) :
    ts.flatMap Token.source = cs := by
  induction lexed with
  | done => rfl
  | literal _ _ _ ih => simp [Token.source, ih]
  | unclosed => simp [Token.source]
  | chain _ _ _ ih => simp [Token.source, ih]
  | other _ _ _ ih => simp [Token.source, ih]

end Tokens

section Literals

variable {mark : Char} {pending : Bool} {inner : List Char}

theorem Enclosed.foldl (h : Enclosed mark pending inner) :
    inner.foldl nextLiteral (some (mark, false)) = some (mark, pending) := by
  induction h with
  | nil => rfl
  | pending => simp [nextLiteral]
  | char backslash close _ ih => simpa [nextLiteral, backslash, close] using ih
  | escape _ ih => simpa [nextLiteral] using ih

theorem ne_of_isQuote {c : Char} (quote : isQuote mark = true) (other : isQuote c = false) :
    mark ≠ c := by
  rintro rfl
  cases other.symm.trans quote

theorem foldl_nextLiteral_quote (quote : isQuote mark = true) (cs : List Char) :
    (mark :: cs).foldl nextLiteral none = cs.foldl nextLiteral (some (mark, false)) := by
  have opened : nextLiteral none mark = some (mark, false) := if_pos quote
  rw [List.foldl_cons, opened]

theorem Enclosed.closed (h : Enclosed mark false inner) (quote : isQuote mark = true) :
    (mark :: inner ++ [mark]).foldl nextLiteral none = none := by
  rw [List.foldl_append, foldl_nextLiteral_quote quote, h.foldl]
  simp [nextLiteral, ne_of_isQuote quote (rfl : isQuote '\\' = false)]

/-- The scan stays in a literal until its closing mark. -/
theorem Enclosed.isSome_foldl (h : Enclosed mark pending inner) (front : List Char)
    {back : List Char} (text : inner = front ++ back) :
    (front.foldl nextLiteral (some (mark, false))).isSome = true := by
  induction h generalizing front with
  | nil => simp_all
  | pending =>
    rcases List.cons_eq_append_iff.mp text with ⟨rfl, -⟩ | ⟨front, rfl, rest⟩
    · rfl
    · obtain ⟨rfl, -⟩ := List.append_eq_nil_iff.mp rest.symm
      simp [nextLiteral]
  | char backslash close _ ih =>
    rcases List.cons_eq_append_iff.mp text with ⟨rfl, -⟩ | ⟨front, rfl, rest⟩
    · rfl
    · simpa [nextLiteral, backslash, close] using ih front rest
  | escape _ ih =>
    rcases List.cons_eq_append_iff.mp text with ⟨rfl, -⟩ | ⟨front, rfl, rest⟩
    · rfl
    rcases List.cons_eq_append_iff.mp rest with ⟨rfl, -⟩ | ⟨front, rfl, behind⟩
    · simp [nextLiteral]
    · simpa [nextLiteral] using ih front behind

/-- The text behind an opening mark is closed at one place or not at all. -/
theorem exists_enclosed (mark : Char) (cs : List Char) :
    (∃ inner rest, cs = inner ++ mark :: rest ∧ Enclosed mark false inner) ∨
      ∃ pending, Enclosed mark pending cs := by
  match cs with
  | [] => exact Or.inr ⟨false, .nil⟩
  | c :: cs =>
    by_cases backslash : c = '\\'
    · subst backslash
      match cs with
      | [] => exact Or.inr ⟨true, .pending⟩
      | d :: cs =>
        rcases exists_enclosed mark cs with ⟨inner, rest, rfl, inside⟩ | ⟨pending, inside⟩
        · exact Or.inl ⟨'\\' :: d :: inner, rest, rfl, .escape inside⟩
        · exact Or.inr ⟨pending, .escape inside⟩
    · by_cases close : c = mark
      · exact Or.inl ⟨[], cs, by rw [close]; rfl, .nil⟩
      · rcases exists_enclosed mark cs with ⟨inner, rest, rfl, inside⟩ | ⟨pending, inside⟩
        · exact Or.inl ⟨c :: inner, rest, rfl, .char backslash close inside⟩
        · exact Or.inr ⟨pending, .char backslash close inside⟩

end Literals

section Reading

variable {mark c : Char} {cs rest inner inner' : List Char} {ts ts' : List Token} {pending : Bool}

theorem isQuote_of_isWordStart (start : isWordStart c = true) : isQuote c = false := by
  have plain : isPlain c = true := isPlain_of_isWordChar (isWordChar_of_isWordStart start)
  simp only [isPlain, Bool.and_eq_true, Bool.not_eq_true'] at plain
  exact plain.1.1

theorem isWordStart_of_isQuote (quote : isQuote mark = true) : isWordStart mark = false :=
  Bool.eq_false_iff.mpr fun start => ne_of_isQuote quote (isQuote_of_isWordStart start) rfl

theorem isWordChar_of_isQuote (quote : isQuote mark = true) : isWordChar mark = false := by
  by_contra char
  have plain := isPlain_of_isWordChar (Bool.not_eq_false _ ▸ char)
  simp [isPlain, quote] at plain

theorem chainText_eq_cons {w : String} {tail : List String}
    (words : ∀ v ∈ w :: tail, isWord v = true) :
    ∃ c cs, chainText (w :: tail) = c :: cs ∧ isWordStart c = true := by
  obtain ⟨c, cs, text, start⟩ := exists_of_isWord (words w List.mem_cons_self)
  exact ⟨c, cs ++ tailChars tail, by rw [chainText, text, List.cons_append], start⟩

theorem chain_chainText {w : String} {tail : List String}
    (words : ∀ v ∈ w :: tail, isWord v = true) (stops : Stops rest) :
    chain (chainText (w :: tail) ++ rest) = (w :: tail, rest) := by
  rw [chainText, List.append_assoc]
  exact chain_append words stops

/-- A text that a mark closes does not go on behind the mark. -/
theorem Enclosed.ne_append (quote : isQuote mark = true) (inside : Enclosed mark false inner)
    (longer : Enclosed mark pending cs) : cs ≠ inner ++ mark :: rest := by
  rintro rfl
  have still := longer.isSome_foldl (inner ++ [mark]) (List.append_cons inner mark rest)
  rw [List.foldl_append, inside.foldl] at still
  simp [nextLiteral, ne_of_isQuote quote (rfl : isQuote '\\' = false)] at still

theorem Enclosed.unique (quote : isQuote mark = true) (h : Enclosed mark false inner)
    (h' : Enclosed mark false inner') {rest' : List Char}
    (text : inner ++ mark :: rest = inner' ++ mark :: rest') : inner = inner' ∧ rest = rest' := by
  rcases List.append_eq_append_iff.mp text with ⟨more, rfl, behind⟩ | ⟨more, rfl, behind⟩
  · rcases List.cons_eq_append_iff.mp behind with ⟨rfl, e⟩ | ⟨more, rfl, -⟩
    · exact ⟨(List.append_nil _).symm, (List.cons.inj e).2.symm⟩
    · exact absurd rfl (h.ne_append quote h')
  · rcases List.cons_eq_append_iff.mp behind with ⟨rfl, e⟩ | ⟨more, rfl, -⟩
    · exact ⟨List.append_nil _, (List.cons.inj e).2⟩
    · exact absurd rfl (h'.ne_append quote h)

theorem lexed_nil (lexed : Lexed [] ts) : ts = [] := by
  generalize text : ([] : List Char) = whole at lexed
  cases lexed with
  | done => rfl
  | literal => cases text
  | unclosed => cases text
  | chain words =>
    obtain ⟨c, cs, own, -⟩ := chainText_eq_cons words
    rw [own] at text
    cases text
  | other => cases text

/-- What the first character of an expression tells of its first token. -/
theorem lexed_cons (lexed : Lexed (c :: cs) ts) :
    (isQuote c = true ∧ ∃ inner rest more, cs = inner ++ c :: rest ∧ Enclosed c false inner ∧
      ts = .literal (c :: inner ++ [c]) :: more ∧ Lexed rest more) ∨
    (isQuote c = true ∧ ∃ pending, Enclosed c pending cs ∧ ts = [.literal (c :: cs)]) ∨
    (isWordStart c = true ∧ ∃ more, ts = .chain (chain (c :: cs)).1 :: more ∧
      Lexed (chain (c :: cs)).2 more) ∨
    (isQuote c = false ∧ isWordStart c = false ∧ ∃ more, ts = .other c :: more ∧
      Lexed cs more) := by
  generalize text : c :: cs = whole at lexed
  cases lexed with
  | done => cases text
  | literal quote inside more =>
    obtain ⟨rfl, rfl⟩ := List.cons.inj text
    exact Or.inl ⟨quote, _, _, _, rfl, inside, rfl, more⟩
  | unclosed quote inside =>
    obtain ⟨rfl, rfl⟩ := List.cons.inj text
    exact Or.inr (Or.inl ⟨quote, _, inside, rfl⟩)
  | chain words stops more =>
    obtain ⟨d, rest, own, start⟩ := chainText_eq_cons words
    rw [chain_chainText words stops]
    rw [own] at text
    obtain ⟨rfl, -⟩ := List.cons.inj text
    exact Or.inr (Or.inr (Or.inl ⟨start, _, rfl, more⟩))
  | other unquoted start more =>
    obtain ⟨rfl, rfl⟩ := List.cons.inj text
    exact Or.inr (Or.inr (Or.inr ⟨unquoted, start, _, rfl, more⟩))

/-- Every expression can be read, -/
theorem exists_lexed (cs : List Char) : ∃ ts, Lexed cs ts := by
  match cs with
  | [] => exact ⟨[], .done⟩
  | c :: cs =>
    by_cases quote : isQuote c = true
    · rcases exists_enclosed c cs with ⟨inner, rest, text, inside⟩ | ⟨pending, inside⟩
      · have shorter : rest.length < (c :: cs).length := by
          rw [text]
          simp
          omega
        obtain ⟨ts, more⟩ := exists_lexed rest
        rw [text]
        exact ⟨_, .literal quote inside more⟩
      · exact ⟨_, .unclosed quote inside⟩
    by_cases start : isWordStart c = true
    · have shorter := length_chain_lt start cs
      obtain ⟨w, tail, -, words, text, stops⟩ := chain_split (c :: cs) start
      obtain ⟨ts, more⟩ := exists_lexed (chain (c :: cs)).2
      rw [text, ← List.append_assoc]
      exact ⟨_, .chain words stops more⟩
    · obtain ⟨ts, more⟩ := exists_lexed cs
      exact ⟨_, .other (Bool.not_eq_true _ ▸ quote) (Bool.not_eq_true _ ▸ start) more⟩
  termination_by cs.length
  decreasing_by
    · exact shorter
    · exact shorter
    · exact Nat.lt_succ_self cs.length

/-- and in one way only. -/
theorem lexed_unique (h : Lexed cs ts) (h' : Lexed cs ts') : ts = ts' := by
  induction h generalizing ts' with
  | done => exact (lexed_nil h').symm
  | literal quote inside more ih =>
    rcases lexed_cons h' with ⟨-, inner, rest, more', text, inside', rfl, read⟩ |
      ⟨-, _, longer, -⟩ | ⟨start, -⟩ | ⟨unquoted, -⟩
    · obtain ⟨rfl, rfl⟩ := inside.unique quote inside' text
      rw [ih read]
    · exact absurd rfl (inside.ne_append quote longer)
    · cases (isQuote_of_isWordStart start).symm.trans quote
    · cases unquoted.symm.trans quote
  | unclosed quote inside =>
    rcases lexed_cons h' with ⟨-, _, _, _, text, closed, -⟩ | ⟨-, _, -, rfl⟩ | ⟨start, -⟩ |
      ⟨unquoted, -⟩
    · exact absurd text (closed.ne_append quote inside)
    · rfl
    · cases (isQuote_of_isWordStart start).symm.trans quote
    · cases unquoted.symm.trans quote
  | chain words stops more ih =>
    obtain ⟨c, cs, text, start⟩ := chainText_eq_cons words
    have unquoted := isQuote_of_isWordStart start
    have found := chain_chainText words stops
    rw [text, List.cons_append] at h' found
    rcases lexed_cons h' with ⟨quote, -⟩ | ⟨quote, -⟩ | ⟨-, more', rfl, read⟩ | ⟨-, other, -⟩
    · cases unquoted.symm.trans quote
    · cases unquoted.symm.trans quote
    · rw [found] at read ⊢
      rw [ih read]
    · cases other.symm.trans start
  | other unquoted other more ih =>
    rcases lexed_cons h' with ⟨quote, -⟩ | ⟨quote, -⟩ | ⟨start, -⟩ | ⟨-, -, more', rfl, read⟩
    · cases unquoted.symm.trans quote
    · cases unquoted.symm.trans quote
    · cases other.symm.trans start
    · rw [ih read]

end Reading

end ListRepeater.Binding
