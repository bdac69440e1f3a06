import ListRepeater.Proofs.TokenwisePass
/-!
# Whole references

A chain of words is a reference if it stands outside of the literals of an expression and behind
neither a character of a word nor a dot. The edits of an expression are those of the references that
are resolved, no more and no fewer. The tail of a number is not one of the chains that this is said
of.
-/
namespace ListRepeater.Binding

section Places

/-- The words stand as a chain between the two parts of the text and do not go on in the second. -/
structure ChainAt (body front : List Char) (words : List String) (back : List Char) : Prop where
  text : body = front ++ (chainText words ++ back)
  some : words ≠ []
  words : ∀ w ∈ words, isWord w = true
  stops : Stops back

/-- The edit that replaces a chain behind `front`. -/
def editAt (front : List Char) (words : List String) (new : String) : Edit :=
  ⟨front.length, front.length + (chainText words).length, new.toList⟩

/-- A chain behind this text is a reference: it stands in no literal, it does not go on from a word
or a number, and it names no member. -/
structure Fresh (front : List Char) : Prop where
  outside : front.foldl nextLiteral none = none
  apart : ∀ c ∈ front.getLast?, isWordChar c = false
  noDot : front.getLast? ≠ some '.'

/-- The text ends with digits that belong to no word. -/
def BehindNumber (front : List Char) : Prop :=
  ∃ rest digits, front = rest ++ digits ∧ digits ≠ [] ∧ (∀ c ∈ digits, c.isDigit = true) ∧
    ∀ c ∈ rest.getLast?, isWordChar c = false

end Places

section Positions

variable {cs front back : List Char} {ts l r : List Token} {words : List String}

theorem ChainAt.exists_start (h : ChainAt cs front words back) :
    ∃ c rest, chainText words ++ back = c :: rest ∧ isWordStart c = true := by
  match words, h.some, h.words with
  | w :: tail, _, named =>
    obtain ⟨c, rest, text, start⟩ := chainText_eq_cons named
    exact ⟨c, rest ++ back, by rw [text, List.cons_append], start⟩

theorem ChainAt.ne_nil (h : ChainAt cs front words back) : cs ≠ [] := by
  obtain ⟨c, rest, own, -⟩ := h.exists_start
  rw [h.text, own]
  exact List.append_ne_nil_of_right_ne_nil front (List.cons_ne_nil c rest)

/-- At one place of an expression stands one chain. -/
theorem ChainAt.unique (h : ChainAt cs front words back) {words' : List String}
    {back' : List Char} (h' : ChainAt cs front words' back') : words = words' := by
  have same := List.append_cancel_left (h.text.symm.trans h'.text)
  match words, h.some, h.words, words', h'.some, h'.words with
  | w :: tail, _, named, w' :: tail', _, named' =>
    have found := chain_chainText named h.stops
    rw [same, chain_chainText named' h'.stops] at found
    exact (Prod.mk.inj found).1.symm

/-- The tokens behind the first ones are those of the rest of the text, which starts outside of any
literal. -/
theorem Lexed.split (lexed : Lexed cs (l ++ ts)) (more : ts ≠ []) :
    ∃ rest, cs = l.flatMap Token.source ++ rest ∧ Lexed rest ts ∧
      (l.flatMap Token.source).foldl nextLiteral none = none := by
  induction l generalizing cs with
  | nil => exact ⟨cs, rfl, lexed, rfl⟩
  | cons t l ih =>
    rw [List.cons_append] at lexed
    generalize whole : l ++ ts = behind at lexed
    cases lexed with
    | literal quote inside lexed =>
      obtain ⟨rest, rfl, read, outside⟩ := ih (whole ▸ lexed)
      refine ⟨rest, by simp [Token.source], read, ?_⟩
      rw [List.flatMap_cons, Token.source, List.foldl_append, inside.closed quote, outside]
    | unclosed => exact absurd (List.append_eq_nil_iff.mp whole).2 more
    | chain named stops lexed =>
      obtain ⟨rest, rfl, read, outside⟩ := ih (whole ▸ lexed)
      refine ⟨rest, by simp [Token.source], read, ?_⟩
      rw [List.flatMap_cons, List.foldl_append, Token.source, chainText,
        foldl_nextLiteral_plain (isPlain_of_mem_join named), outside]
    | other unquoted start lexed =>
      obtain ⟨rest, rfl, read, outside⟩ := ih (whole ▸ lexed)
      refine ⟨rest, by simp [Token.source], read, ?_⟩
      simpa [Token.source, nextLiteral, unquoted] using outside

theorem Lexed.chainAt (lexed : Lexed cs (l ++ .chain words :: r)) :
    ∃ back, ChainAt cs (l.flatMap Token.source) words back := by
  obtain ⟨rest, text, read, -⟩ := lexed.split (List.cons_ne_nil _ _)
  cases read with
  | chain named stops _ => exact ⟨_, text, List.cons_ne_nil _ _, named, stops⟩

theorem Lexed.head_of_digits (lexed : Lexed cs (l ++ .chain words :: r))
    (digits : ∀ c ∈ l.flatMap Token.source, c.isDigit = true) :
    ∃ c, cs.head? = some c ∧ isWordChar c = true := by
  obtain ⟨back, place⟩ := lexed.chainAt
  rw [place.text]
  match before : l.flatMap Token.source with
  | [] =>
    obtain ⟨c, rest, text, start⟩ := place.exists_start
    exact ⟨c, by rw [List.nil_append, text]; rfl, isWordChar_of_isWordStart start⟩
  | c :: more =>
    have digit := digits c (before ▸ List.mem_cons_self)
    exact ⟨c, rfl, by rw [isWordChar, digit, Bool.or_true]⟩

/-- What stands right before a chain is at most digits, and no word before them. -/
theorem Lexed.before_chain (lexed : Lexed cs (l ++ .chain words :: r)) :
    ∃ rest digits, l.flatMap Token.source = rest ++ digits ∧
      (∀ c ∈ digits, c.isDigit = true) ∧ ∀ c ∈ rest.getLast?, isWordChar c = false := by
  induction l generalizing cs with
  | nil => exact ⟨[], [], rfl, fun _ h => (nomatch h), fun _ h => (nomatch h)⟩
  | cons t l ih =>
    have some : l ++ .chain words :: r ≠ [] :=
      List.append_ne_nil_of_right_ne_nil l (List.cons_ne_nil _ _)
    obtain ⟨more, -, read, -⟩ := Lexed.split (l := [t]) lexed some
    obtain ⟨rest, digits, text, all, apart⟩ := ih read
    by_cases none : rest = []
    -- nothing but digits stands between the token and the chain
    · subst none
      rw [List.nil_append] at text
      rw [List.flatMap_cons, text]
      rw [List.cons_append] at lexed
      generalize whole : l ++ .chain words :: r = behind at lexed
      cases lexed with
      | @literal mark inner _ _ quote _ _ =>
        refine ⟨mark :: inner ++ [mark], digits, rfl, all, ?_⟩
        rw [List.getLast?_concat]
        rintro _ ⟨⟩
        exact isWordChar_of_isQuote quote
      | unclosed => exact absurd whole some
      | chain _ stops lexed =>
        obtain ⟨c, head, char⟩ := (whole ▸ lexed).head_of_digits (text ▸ all)
        cases (stops.word c head).symm.trans char
      | @other c _ _ _ start _ =>
        by_cases digit : c.isDigit = true
        · exact ⟨[], c :: digits, rfl, List.forall_mem_cons.mpr ⟨digit, all⟩,
            fun _ h => (nomatch h)⟩
        · refine ⟨[c], digits, rfl, all, ?_⟩
          have char : isWordChar c = false := by
            rw [isWordChar, start, Bool.eq_false_iff.mpr digit]
            rfl
          rintro _ ⟨⟩
          exact char
    · refine ⟨t.source ++ rest, digits, by rw [List.flatMap_cons, text, List.append_assoc], all, ?_⟩
      rwa [List.getLast?_append_of_ne_nil _ none]

theorem source_ne_nil (lexed : Lexed cs ts) : ∀ t ∈ ts, t.source ≠ [] := by
  induction lexed with
  | done => exact fun _ h => (nomatch h)
  | literal _ _ _ ih => exact List.forall_mem_cons.mpr ⟨List.cons_ne_nil _ _, ih⟩
  | unclosed => exact List.forall_mem_singleton.mpr (List.cons_ne_nil _ _)
  | @chain w tail _ _ named _ _ ih =>
    obtain ⟨c, rest, text, -⟩ := chainText_eq_cons named
    have some : chainText (w :: tail) ≠ [] := text ▸ List.cons_ne_nil c rest
    exact List.forall_mem_cons.mpr ⟨some, ih⟩
  | other _ _ _ ih => exact List.forall_mem_cons.mpr ⟨List.cons_ne_nil _ _, ih⟩

/-- A chain of a text that begins with `first` starts behind or in these characters. -/
theorem ChainAt.behind_or_in {first : List Char} (place : ChainAt (first ++ cs) front words back) :
    (∃ more, front = first ++ more ∧ ChainAt cs more words back) ∨
      ∃ c more, first = front ++ c :: more ∧ isWordStart c = true := by
  obtain ⟨c, rest, own, start⟩ := place.exists_start
  rcases List.append_eq_append_iff.mp place.text with ⟨more, text, behind⟩ | ⟨more, text, behind⟩
  · exact Or.inl ⟨more, text, behind, place.some, place.words, place.stops⟩
  · rw [own] at behind
    rcases List.cons_eq_append_iff.mp behind with ⟨rfl, e⟩ | ⟨more, rfl, -⟩
    · rw [List.append_nil] at text
      exact Or.inl ⟨[], by rw [text, List.append_nil], by rw [own, e]; rfl, place.some, place.words,
        place.stops⟩
    · exact Or.inr ⟨c, more, text, start⟩

theorem Fresh.behind {first : List Char} (h : Fresh (first ++ front))
    (closed : first.foldl nextLiteral none = none) : Fresh front where
  outside := by
    have outside := h.outside
    rwa [List.foldl_append, closed] at outside
  apart c hc := h.apart c (by rw [List.getLast?_append, hc]; rfl)
  noDot hc := h.noDot (by rw [List.getLast?_append, hc]; rfl)

theorem Enclosed.not_fresh {mark c : Char} {pending : Bool} {inner more : List Char}
    (enclosed : Enclosed mark pending inner) (quote : isQuote mark = true)
    (text : mark :: inner = front ++ c :: more) (start : isWordStart c = true) : ¬Fresh front := by
  intro fresh
  rcases List.cons_eq_append_iff.mp text with ⟨rfl, e⟩ | ⟨front, rfl, own⟩
  · exact absurd (List.cons.inj e).1.symm (ne_of_isQuote quote (isQuote_of_isWordStart start))
  · have still := enclosed.isSome_foldl front own
    rw [← foldl_nextLiteral_quote quote, fresh.outside] at still
    cases still

/-- A chain that starts outside of any literal and in no word is a token. -/
theorem Lexed.exists_token (lexed : Lexed cs ts) (place : ChainAt cs front words back)
    (fresh : Fresh front) :
    ∃ l r, ts = l ++ .chain words :: r ∧ l.flatMap Token.source = front := by
  -- a place in the first token is fresh only if it is the start of a chain, which is then the token
  induction lexed generalizing front with
  | done => exact absurd rfl place.ne_nil
  | @literal mark inner rest ts quote inside lexed ih =>
    have whole : mark :: inner ++ mark :: rest = mark :: inner ++ [mark] ++ rest := by simp
    rw [whole] at place
    rcases place.behind_or_in with ⟨front, rfl, behind⟩ | ⟨c, more, text, start⟩
    · obtain ⟨l, r, rfl, source⟩ := ih behind (fresh.behind (inside.closed quote))
      exact ⟨_ :: l, r, rfl, by rw [List.flatMap_cons, source, Token.source]⟩
    · rcases List.eq_nil_or_concat' more with rfl | ⟨more, d, rfl⟩
      · obtain ⟨-, last⟩ := List.append_inj' text rfl
        exact absurd (List.cons.inj last).1 (ne_of_isQuote quote (isQuote_of_isWordStart start))
      · have own : mark :: inner = front ++ c :: more :=
          (List.append_inj' (text.trans (List.append_assoc front (c :: more) [d]).symm) rfl).1
        exact absurd fresh (inside.not_fresh quote own start)
  | @unclosed mark pending inner quote inside =>
    rw [← List.append_nil (mark :: inner)] at place
    rcases place.behind_or_in with ⟨front, rfl, behind⟩ | ⟨c, more, text, start⟩
    · exact absurd rfl behind.ne_nil
    · exact absurd fresh (inside.not_fresh quote text start)
  | @chain w tail rest ts named stops lexed ih =>
    rcases place.behind_or_in with ⟨front, rfl, behind⟩ | ⟨c, more, text, -⟩
    · have plain := foldl_nextLiteral_plain (isPlain_of_mem_join named)
      obtain ⟨l, r, rfl, source⟩ := ih behind (fresh.behind plain)
      exact ⟨_ :: l, r, rfl, by rw [List.flatMap_cons, source, Token.source]⟩
    · rcases List.eq_nil_or_concat' front with rfl | ⟨front, d, rfl⟩
      · have first : ChainAt (chainText (w :: tail) ++ rest) [] (w :: tail) rest :=
          ⟨rfl, List.cons_ne_nil w tail, named, stops⟩
        exact ⟨[], ts, by rw [place.unique first]; rfl, rfl⟩
      · have last : d ∈ (front ++ [d]).getLast? := List.getLast?_concat
        have member : d ∈ chainText (w :: tail) := by simp [text]
        rcases wordChar_or_dot_of_mem_join named d member with char | rfl
        · cases (fresh.apart d last).symm.trans char
        · exact absurd last fresh.noDot
  | @other d rest ts unquoted other lexed ih =>
    have whole : d :: rest = [d] ++ rest := rfl
    rw [whole] at place
    rcases place.behind_or_in with ⟨front, rfl, behind⟩ | ⟨c, more, text, start⟩
    · have outside : [d].foldl nextLiteral none = none := by simp [nextLiteral, unquoted]
      obtain ⟨l, r, rfl, source⟩ := ih behind (fresh.behind outside)
      exact ⟨_ :: l, r, rfl, by rw [List.flatMap_cons, source, Token.source]⟩
    · rcases List.cons_eq_append_iff.mp text with ⟨rfl, e⟩ | ⟨front, -, none⟩
      · obtain ⟨rfl, -⟩ := List.cons.inj e
        cases start.symm.trans other
      · simp at none

end Positions

section References

variable {s : Scope} {body front back : List Char} {ts : List Token} {words : List String}
  {new : String}

/-- Tokens behind some text are edited where a chain among them is resolved and no dot stands before
it. -/
theorem mem_tokenEdits_iff (some : ∀ t ∈ ts, t.source ≠ []) (before : List Char) (e : Edit) :
    e ∈ tokenEdits s before.length (before.getLast? == .some '.') ts ↔
      ∃ l words r new, ts = l ++ .chain words :: r ∧ s.resolve words = .some new ∧
        (before ++ l.flatMap Token.source).getLast? ≠ .some '.' ∧
        e = editAt (before ++ l.flatMap Token.source) words new := by
  induction ts generalizing before with
  | nil =>
    refine ⟨fun he => (nomatch he), ?_⟩
    rintro ⟨l, words, r, new, none, -⟩
    cases (List.append_eq_nil_iff.mp none.symm).2
  | cons t ts ih =>
    obtain ⟨own, some⟩ := List.forall_mem_cons.mp some
    have later := ih some (before ++ t.source)
    rw [List.length_append, List.getLast?_append_of_ne_nil before own] at later
    rw [tokenEdits, List.mem_append, later]
    constructor
    · rintro (here | ⟨l, words, r, new, rfl, resolved, noDot, rfl⟩)
      · cases t with
        | chain words =>
          simp only [Token.edit?, Option.mem_toList, Option.ite_none_left_eq_some,
            Option.map_eq_some_iff, beq_iff_eq] at here
          obtain ⟨noDot, new, resolved, rfl⟩ := here
          exact ⟨[], words, ts, new, rfl, resolved, by simpa using noDot, by simp [editAt]⟩
        | literal text => cases here
        | other c => cases here
      · exact ⟨t :: l, words, r, new, rfl, resolved, by simpa using noDot, by simp⟩
    · rintro ⟨l, words, r, new, whole, resolved, noDot, rfl⟩
      rcases List.cons_eq_append_iff.mp whole with ⟨rfl, e⟩ | ⟨l, rfl, rfl⟩
      · obtain ⟨rfl, -⟩ := List.cons.inj e
        rw [List.flatMap_nil, List.append_nil] at noDot ⊢
        left
        simp [Token.edit?, noDot, resolved, editAt]
      · exact Or.inr ⟨l, words, r, new, rfl, resolved, by simpa using noDot, by simp⟩

/-- What is replaced is a chain that is resolved and, but for the tails of numbers, a reference. -/
theorem edits_sound {e : Edit} (he : e ∈ edits s body) :
    ∃ front words back new, ChainAt body front words back ∧ s.resolve words = some new ∧
      e = editAt front words new ∧ (¬BehindNumber front → Fresh front) := by
  obtain ⟨ts, lexed⟩ := exists_lexed body
  rw [edits_lexed s lexed] at he
  obtain ⟨l, words, r, new, rfl, resolved, noDot, place⟩ :=
    (mem_tokenEdits_iff (source_ne_nil lexed) [] e).mp he
  obtain ⟨back, chain⟩ := lexed.chainAt
  obtain ⟨-, -, -, outside⟩ := lexed.split (List.cons_ne_nil _ _)
  obtain ⟨rest, digits, own, all, apart⟩ := lexed.before_chain
  refine ⟨_, words, back, new, chain, resolved, place, fun number => ⟨outside, ?_, noDot⟩⟩
  have none : digits = [] := by
    by_contra some
    exact number ⟨rest, digits, own, some, all, apart⟩
  rwa [own, none, List.append_nil]

/-- All references that are resolved are replaced. -/
theorem edits_complete (place : ChainAt body front words back) (fresh : Fresh front)
    (resolved : s.resolve words = some new) : editAt front words new ∈ edits s body := by
  obtain ⟨ts, lexed⟩ := exists_lexed body
  obtain ⟨l, r, rfl, rfl⟩ := lexed.exists_token place fresh
  rw [edits_lexed s lexed]
  exact (mem_tokenEdits_iff (source_ne_nil lexed) [] _).mpr
    ⟨l, words, r, new, rfl, resolved, fresh.noDot, rfl⟩

end References

/-- A row resolves a chain if it resolves the first word alone, unless that is a level key. -/
theorem isSome_resolve_iff (s : Scope) {head : String} (level : levelOf? head = none)
    (rest : List String) :
    (s.resolve (head :: rest)).isSome = true ↔ (s.resolve [head]).isSome = true := by
  simp only [Scope.resolve, level, Option.isSome_none, Bool.false_eq_true, if_false]
  split_ifs
  · simp
  · simp
  · simp
  · cases s.names.find? head with
    | none => simp
    | some own => by_cases same : own = head <;> simp [same]

/-- Localizing replaces whole references and all of them. In a segment of a text, outside of its
literals, a chain behind neither a character of a word nor a dot is replaced if it is resolved, and
no other chain is, where the tails of numbers are left out of account. A dot is any dot, also the
last one of a spread. -/
theorem localize_references (s : Scope) (text : String) :
    localize s text = String.ofList
      ((parse text.toList).mapBodies fun body => splice 0 body (edits s body)).render ∧
    (∀ seg ∈ (parse text.toList).segments,
      (∀ e ∈ edits s seg.2, ∃ front words back new, ChainAt seg.2 front words back ∧
        s.resolve words = some new ∧ e = editAt front words new ∧
        (¬BehindNumber front → Fresh front)) ∧
      ∀ front words back new, ChainAt seg.2 front words back → Fresh front →
        s.resolve words = some new → editAt front words new ∈ edits s seg.2) ∧
    ∀ head rest, levelOf? head = none →
      ((s.resolve (head :: rest)).isSome = true ↔ (s.resolve [head]).isSome = true) := by
  refine ⟨rfl, fun seg _ => ⟨fun e he => edits_sound he, ?_⟩, ?_⟩
  · intro front words back new place fresh resolved
    exact edits_complete place fresh resolved
  · intro head rest level
    exact isSome_resolve_iff s level rest

section Samples

/-- A row in which a widget has a name that a number can end with. -/
def exponentScope : Scope where
  place := ⟨0, 0, 0, .ofNat 0⟩
  item := .position "List1" 0
  names := .ofList [("e5", "e5_meta_2")]
  view := "\x7b  \x7d"
  ancestry := none

example : localize exponentScope (mustache " [currentItem.e5, e5.a, $e5, 'e5'] ") =
    mustache " [List1.listData[0].e5, e5_meta_2.a, $e5, 'e5'] " := by
  decide +kernel

/-- The record behind a spread and a number in one list. -/
def spreadText : String := mustache " [...currentItem, 1e5] "

/-- Behind the digits of a number its tail is replaced, and behind the dots of a spread a reference
is kept. -/
theorem not_references_in_numbers_and_spreads :
    localize exponentScope spreadText = mustache " [...currentItem, 1e5_meta_2] " ∧
    ∃ seg ∈ (parse spreadText.toList).segments,
      (∃ front back new, ChainAt seg.2 (front ++ ['1']) ["e5"] back ∧
        editAt (front ++ ['1']) ["e5"] new ∈ edits exponentScope seg.2) ∧
      ∃ front back new, ChainAt seg.2 (front ++ ['.', '.', '.']) ["currentItem"] back ∧
        (front ++ ['.', '.', '.']).foldl nextLiteral none = none ∧
        exponentScope.resolve ["currentItem"] = some new ∧
        editAt (front ++ ['.', '.', '.']) ["currentItem"] new ∉ edits exponentScope seg.2 := by
  have body : ([], " [...currentItem, 1e5] ".toList) ∈ (parse spreadText.toList).segments := by
    decide +kernel
  refine ⟨by decide +kernel, _, body, ?_, ?_⟩
  · exact ⟨" [...currentItem, ".toList, "] ".toList, "e5_meta_2",
      ⟨by decide +kernel, by decide, by decide +kernel, stops_cons (by decide) (by decide)⟩,
      by decide +kernel⟩
  · exact ⟨" [".toList, ", 1e5] ".toList, "List1.listData[0]",
      ⟨by decide +kernel, by decide, by decide +kernel, stops_cons (by decide) (by decide)⟩,
      by decide +kernel, by decide +kernel, by decide +kernel⟩

end Samples

end ListRepeater.Binding
