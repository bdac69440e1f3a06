import ListRepeater.Binding.Localize
/-!
# Bindings that are one chain of words

A text of words with dots between them is one reference, so a binding of nothing but such a text
becomes a binding of what the reference stands for, and stays as it is where it stands for nothing.
-/
namespace ListRepeater.Binding

/-- Whether the text is a word of a chain: letters, digits, underscores and dollar signs with no
digit in front. -/
def isWord (w : String) : Bool := w.toList.head?.any isWordStart && w.toList.all isWordChar

/-- The characters that a segment is made of besides its marks: no quotes and no braces. -/
def isPlain (c : Char) : Bool := !isQuote c && c != '{' && c != '}'

/-- A test that no mark passes is passed by plain characters only. -/
theorem isPlain_of_marks {p : Char → Bool}
    (marks : ['"', '\x27', '\x60', '{', '}'].any p = false) {c : Char} (h : p c = true) :
    isPlain c = true := by
  have apart : ∀ m ∈ ['"', '\x27', '\x60', '{', '}'], c ≠ m := by
    intro m hm e
    exact List.any_eq_false.mp marks m hm (e ▸ h)
  simp only [List.forall_mem_cons] at apart
  simp [isPlain, isQuote, apart]

theorem isWordChar_of_isWordStart {c : Char} (h : isWordStart c = true) : isWordChar c = true := by
  rw [isWordChar, h, Bool.true_or]

theorem isPlain_of_isWordChar {c : Char} (h : isWordChar c = true) : isPlain c = true :=
  isPlain_of_marks (by decide) h

section Words

variable {w : String} (word : isWord w = true)

include word

theorem isWordChar_of_isWord {c : Char} (hc : c ∈ w.toList) : isWordChar c = true := by
  rw [isWord, Bool.and_eq_true, List.all_eq_true] at word
  exact word.2 c hc

theorem exists_of_isWord : ∃ c rest, w.toList = c :: rest ∧ isWordStart c = true := by
  rw [isWord, Bool.and_eq_true] at word
  cases text : w.toList with
  | nil => rw [text] at word; cases word.1
  | cons c rest => exact ⟨c, rest, rfl, by simpa [text] using word.1⟩

end Words

/-- The characters of the words behind the first one. -/
def tailChars (words : List String) : List Char := words.flatMap fun w => '.' :: w.toList

theorem toList_join (w : String) (rest : List String) :
    (Scope.join w rest).toList = w.toList ++ tailChars rest := by
  rw [Scope.join]
  induction rest generalizing w with
  | nil => simp [tailChars]
  | cons v rest ih =>
    rw [List.foldl_cons, ih]
    simp [tailChars, String.toList_append]

/-- A chain goes on behind a dot if a word starts there. -/
theorem chain_of_dot {cs more : List Char} {c : Char} (hc : isWordStart c = true)
    (left : cs.dropWhile isWordChar = '.' :: c :: more) :
    chain cs = (String.ofList (cs.takeWhile isWordChar) :: (chain (c :: more)).1,
      (chain (c :: more)).2) := by
  rw [chain]
  split
  · next h =>
    obtain ⟨-, h⟩ := List.cons.inj (left.symm.trans h)
    obtain ⟨rfl, rfl⟩ := List.cons.inj h
    rw [if_pos hc]
  · next h => exact absurd left (h c more)

theorem chain_of_stop {cs left : List Char} (behind : cs.dropWhile isWordChar = left)
    (stops : ∀ c more, left = '.' :: c :: more → isWordStart c = false) :
    chain cs = ([String.ofList (cs.takeWhile isWordChar)], left) := by
  rw [chain]
  split
  · next h =>
    obtain rfl := behind.symm.trans h
    rw [stops _ _ rfl, if_neg Bool.false_ne_true]
  · rw [behind]

/-- A text that a chain in front of it does not go on in, neither with its last word nor with
another one. -/
structure Stops (cs : List Char) : Prop where
  word : ∀ c, cs.head? = some c → isWordChar c = false
  chain : ∀ c more, cs = '.' :: c :: more → isWordStart c = false

theorem stops_nil : Stops [] := ⟨fun _ h => (nomatch h), fun _ _ h => (nomatch h)⟩

theorem stops_cons {c : Char} {cs : List Char} (char : isWordChar c = false) (noDot : c ≠ '.') :
    Stops (c :: cs) where
  word := by
    rintro _ ⟨⟩
    exact char
  chain _ _ h := absurd (List.cons.inj h).1 noDot

theorem dropWhile_word {w : String} (word : isWord w = true) {back : List Char}
    (ends : ∀ c, back.head? = some c → isWordChar c = false) :
    (w.toList ++ back).dropWhile isWordChar = back ∧
      (w.toList ++ back).takeWhile isWordChar = w.toList := by
  have first : ∀ c ∈ w.toList, isWordChar c = true := fun c hc => isWordChar_of_isWord word hc
  rw [List.dropWhile_append_of_pos first, List.takeWhile_append_of_pos first]
  cases back with
  | nil => simp
  | cons c back =>
    have other : ¬isWordChar c = true := Bool.not_eq_true _ ▸ ends c rfl
    rw [List.dropWhile_cons_of_neg other, List.takeWhile_cons_of_neg other, List.append_nil]
    exact ⟨rfl, rfl⟩

/-- Words with dots between them are one chain, if it does not go on behind them. -/
theorem chain_append {w : String} {rest : List String} {back : List Char}
    (words : ∀ v ∈ w :: rest, isWord v = true) (stops : Stops back) :
    chain (w.toList ++ (tailChars rest ++ back)) = (w :: rest, back) := by
  induction rest generalizing w with
  | nil =>
    obtain ⟨behind, own⟩ := dropWhile_word (words w List.mem_cons_self) stops.word
    have none : tailChars [] ++ back = back := rfl
    rw [none, chain_of_stop behind stops.chain, own, String.ofList_toList]
  | cons v rest ih =>
    obtain ⟨word, words⟩ := List.forall_mem_cons.mp words
    obtain ⟨c, cs, text, start⟩ := exists_of_isWord (words v List.mem_cons_self)
    have dot : ∀ c, (tailChars (v :: rest) ++ back).head? = some c → isWordChar c = false := by
      rintro _ ⟨⟩
      decide
    obtain ⟨behind, own⟩ := dropWhile_word word dot
    have next : tailChars (v :: rest) ++ back = '.' :: c :: (cs ++ (tailChars rest ++ back)) := by
      simp [tailChars, text]
    have tail : c :: (cs ++ (tailChars rest ++ back)) = v.toList ++ (tailChars rest ++ back) := by
      rw [text, List.cons_append]
    rw [chain_of_dot start (behind.trans next), own, tail, ih words, String.ofList_toList]

theorem chains_append {w : String} {rest : List String} {back : List Char}
    (words : ∀ v ∈ w :: rest, isWord v = true) (stops : Stops back) (pos : Nat) (dot : Bool) :
    chains pos dot (w.toList ++ (tailChars rest ++ back)) =
      ⟨pos, pos + (w.toList ++ tailChars rest).length, w :: rest, dot⟩ ::
        chains (pos + (w.toList ++ tailChars rest).length) false back := by
  obtain ⟨c, cs, text, start⟩ := exists_of_isWord (words w List.mem_cons_self)
  have found := chain_append words stops
  have size : (w.toList ++ (tailChars rest ++ back)).length - back.length =
      (w.toList ++ tailChars rest).length := by
    rw [← List.append_assoc, List.length_append, Nat.add_sub_cancel]
  rw [← size]
  rw [text, List.cons_append] at found ⊢
  rw [chains, dif_pos start, found]

theorem wordChar_or_dot_of_mem_join {w : String} {rest : List String}
    (words : ∀ v ∈ w :: rest, isWord v = true) :
    ∀ c ∈ w.toList ++ tailChars rest, isWordChar c = true ∨ c = '.' := by
  intro c hc
  rcases List.mem_append.mp hc with hc | hc
  · exact Or.inl (isWordChar_of_isWord (words w List.mem_cons_self) hc)
  · obtain ⟨v, hv, hc⟩ := List.mem_flatMap.mp hc
    rcases List.mem_cons.mp hc with rfl | hc
    · exact Or.inr rfl
    · exact Or.inl (isWordChar_of_isWord (words v (List.mem_cons_of_mem w hv)) hc)

theorem isPlain_of_mem_join {w : String} {rest : List String}
    (words : ∀ v ∈ w :: rest, isWord v = true) :
    ∀ c ∈ w.toList ++ tailChars rest, isPlain c = true := by
  intro c hc
  rcases wordChar_or_dot_of_mem_join words c hc with char | rfl
  · exact isPlain_of_isWordChar char
  · decide

section Plain

variable {cs : List Char} (plain : ∀ c ∈ cs, isPlain c = true)

include plain

theorem literals_plain (pos : Nat) : literals pos none false cs = [] := by
  induction cs generalizing pos with
  | nil => rfl
  | cons c cs ih =>
    obtain ⟨head, rest⟩ := List.forall_mem_cons.mp plain
    have unquoted : isQuote c = false := by
      simp only [isPlain, Bool.and_eq_true, Bool.not_eq_true'] at head
      exact head.1.1
    rw [literals, unquoted]
    exact ih rest (pos + 1)

theorem bodyLength_plain : bodyLength 0 none false (cs ++ ['}', '}']) = some cs.length := by
  induction cs with
  | nil => rfl
  | cons c cs ih =>
    obtain ⟨head, rest⟩ := List.forall_mem_cons.mp plain
    simp only [isPlain, Bool.and_eq_true, Bool.not_eq_true', bne_iff_ne] at head
    obtain ⟨⟨unquoted, left⟩, right⟩ := head
    simp [bodyLength, unquoted, left, right, ih rest]

/-- A text in double braces, with no marks in it, is one segment. -/
theorem parse_mustache : parse ('{' :: '{' :: cs ++ ['}', '}']) = ⟨[([], cs)], []⟩ := by
  have opened : splitOpen ('{' :: '{' :: cs ++ ['}', '}']) = some ([], cs ++ ['}', '}']) := rfl
  have behind : parse ((cs ++ ['}', '}']).drop (cs.length + 2)) = ⟨[], []⟩ := by
    have none : (cs ++ ['}', '}']).drop (cs.length + 2) = [] := by simp
    rw [none, parse]
    rfl
  rw [parse_of_closed opened (bodyLength_plain plain), behind, List.take_left]

end Plain

theorem references_join {w : String} {rest : List String}
    (words : ∀ v ∈ w :: rest, isWord v = true) :
    references (w.toList ++ tailChars rest) =
      [⟨0, (w.toList ++ tailChars rest).length, w :: rest, false⟩] := by
  have only := chains_append words stops_nil 0 false
  have none : chains (w.toList ++ tailChars rest).length false [] = [] := by rw [chains]
  rw [List.append_nil, Nat.zero_add, none] at only
  rw [references, literals_plain (isPlain_of_mem_join words), only]
  rfl

/-- A binding of nothing but a chain becomes a binding of what the chain stands for. -/
theorem localize_chain (s : Scope) {w : String} {rest : List String}
    (words : ∀ v ∈ w :: rest, isWord v = true) :
    localize s (mustache (Scope.join w rest)) =
      mustache ((s.resolve (w :: rest)).getD (Scope.join w rest)) := by
  have body : localizeExpression s (w.toList ++ tailChars rest) =
      ((s.resolve (w :: rest)).getD (Scope.join w rest)).toList := by
    rw [localizeExpression, references_join words]
    cases found : s.resolve (w :: rest) with
    | none => simp [found, splice, toList_join]
    | some text => simp [found, splice]
  have text : (mustache (Scope.join w rest)).toList =
      '{' :: '{' :: (w.toList ++ tailChars rest) ++ ['}', '}'] := by
    simp [mustache, toList_join, String.toList_append]
  apply String.toList_injective
  rw [localize, localizeChars, text, parse_mustache (isPlain_of_mem_join words)]
  simp [Parts.mapBodies, Parts.render, body, mustache]

end ListRepeater.Binding
