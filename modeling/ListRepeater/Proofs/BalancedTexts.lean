import ListRepeater.Proofs.DottedChains
import ListRepeater.Proofs.Json.CompactText
/-!
# Balanced texts

The scan for the end of a segment counts braces and steps over quoted literals. A text is balanced
if it closes the braces that it opens and the literals that it begins: from outside of a literal, at
any depth, the scan goes over it without an end and is then where it was before. Written values are
balanced, whatever their strings hold, and so are the object literals that show what the widgets of
a row expose.
-/
namespace ListRepeater.Binding

inductive Balanced : List Char → Prop
  | nil : Balanced []
  | plain {c : Char} (h : isPlain c = true) : Balanced [c]
  | string (s : String) : Balanced (Json.quoted s)
  | append {r t : List Char} (front : Balanced r) (back : Balanced t) : Balanced (r ++ t)
  | braces {r : List Char} (inner : Balanced r) : Balanced ('{' :: r ++ ['}'])

section Scan

/-- An escape does not end the literal that it stands in. -/
theorem escape_shape (c : Char) :
    (Json.escape c = [c] ∧ c ≠ '\\' ∧ c ≠ '"') ∨
    ∃ d tail, Json.escape c = '\\' :: d :: tail ∧ ∀ x ∈ tail, x ≠ '\\' ∧ x ≠ '"' := by
  have hex : ∀ n : Fin 16, Json.hexDigit n ≠ '\\' ∧ Json.hexDigit n ≠ '"' := by decide
  unfold Json.escape
  split
  · exact Or.inr ⟨_, _, rfl, by simp⟩
  split
  · exact Or.inr ⟨_, _, rfl, by simp⟩
  split
  · exact Or.inr ⟨_, _, rfl, by simp⟩
  split
  · exact Or.inr ⟨_, _, rfl, by simp⟩
  split
  · exact Or.inr ⟨_, _, rfl, by simp⟩
  split
  · exact Or.inr ⟨_, _, rfl, by simp⟩
  split
  · exact Or.inr ⟨_, _, rfl, by simp⟩
  split
  · next small =>
    have high := hex ⟨c.toNat / 16, by omega⟩
    have low := hex ⟨c.toNat % 16, by omega⟩
    exact Or.inr ⟨_, _, rfl, by simpa using ⟨high, low⟩⟩
  · next quote backslash _ _ _ _ _ _ => exact Or.inl ⟨rfl, backslash, quote⟩

theorem bodyLength_inside (depth : Nat) {text : List Char}
    (inside : ∀ c ∈ text, c ≠ '\\' ∧ c ≠ '"') (rest : List Char) :
    bodyLength depth (some '"') false (text ++ rest) =
      (bodyLength depth (some '"') false rest).map (· + text.length) := by
  induction text with
  | nil => simp
  | cons c text ih =>
    obtain ⟨⟨backslash, quote⟩, inside⟩ := List.forall_mem_cons.mp inside
    simp [bodyLength, backslash, quote, ih inside, Function.comp_def, Nat.add_assoc]

theorem bodyLength_escape (depth : Nat) (c : Char) (rest : List Char) :
    bodyLength depth (some '"') false (Json.escape c ++ rest) =
      (bodyLength depth (some '"') false rest).map (· + (Json.escape c).length) := by
  rcases escape_shape c with ⟨text, own⟩ | ⟨d, tail, text, inside⟩
  · rw [text]
    exact bodyLength_inside depth (by simpa using own) rest
  · have escaped := bodyLength_inside depth inside rest
    simp [text, bodyLength, escaped, Function.comp_def, Nat.add_assoc]

theorem bodyLength_quoted (depth : Nat) (s : String) (rest : List Char) :
    bodyLength depth none false (Json.quoted s ++ rest) =
      (bodyLength depth none false rest).map (· + (Json.quoted s).length) := by
  have body : ∀ cs : List Char,
      bodyLength depth (some '"') false (cs.flatMap Json.escape ++ '"' :: rest) =
        (bodyLength depth none false rest).map (· + ((cs.flatMap Json.escape).length + 1)) := by
    intro cs
    induction cs with
    | nil => simp [bodyLength]
    | cons c cs ih =>
      rw [List.flatMap_cons, List.append_assoc, bodyLength_escape, ih, Option.map_map]
      simp [Function.comp_def, Nat.add_comm, Nat.add_left_comm]
  have mark : isQuote '"' = true := by decide
  simp [Json.quoted, bodyLength, mark, body, Function.comp_def, Nat.add_assoc]

/-- The scan goes over a balanced text and is back where it was. -/
theorem bodyLength_balanced {r : List Char} (h : Balanced r) (depth : Nat) (rest : List Char) :
    bodyLength depth none false (r ++ rest) =
      (bodyLength depth none false rest).map (· + r.length) := by
  induction h generalizing depth rest with
  | nil => simp
  | @plain c h =>
    simp only [isPlain, Bool.and_eq_true, Bool.not_eq_true', bne_iff_ne] at h
    obtain ⟨⟨unquoted, left⟩, right⟩ := h
    simp [bodyLength, unquoted, left, right]
  | string s => exact bodyLength_quoted depth s rest
  | append front back ihr iht =>
    rw [List.append_assoc, ihr, iht, Option.map_map]
    simp [Function.comp_def, Nat.add_comm, Nat.add_left_comm]
  | @braces r inner ih =>
    have left : isQuote '{' = false := by decide
    have right : isQuote '}' = false := by decide
    have inside := ih (depth + 1) ('}' :: rest)
    rw [List.append_assoc, List.cons_append, bodyLength, List.singleton_append, inside]
    simp [left, right, bodyLength, Function.comp_def, Nat.add_comm, Nat.add_left_comm]

end Scan

section Texts

/-- A plain character in front of a balanced text. -/
theorem Balanced.cons {c : Char} {r : List Char} (plain : isPlain c = true) (h : Balanced r) :
    Balanced (c :: r) :=
  .append (.plain plain) h

theorem balanced_of_plain {cs : List Char} (h : ∀ c ∈ cs, isPlain c = true) : Balanced cs := by
  induction cs with
  | nil => exact .nil
  | cons c cs ih =>
    obtain ⟨head, rest⟩ := List.forall_mem_cons.mp h
    exact .cons head (ih rest)

theorem balanced_of_all {cs : List Char} (h : cs.all isPlain = true) : Balanced cs :=
  balanced_of_plain (List.all_eq_true.mp h)

theorem balanced_of_isWord {w : String} (word : isWord w = true) : Balanced w.toList :=
  balanced_of_plain fun _ hc => isPlain_of_isWordChar (isWordChar_of_isWord word hc)

theorem isWordChar_of_mem_natText {n : Nat} {c : Char} (h : c ∈ Json.natText n) :
    isWordChar c = true := by
  rw [isWordChar, Json.isDigit_natText h, Bool.or_true]

theorem balanced_natText (n : Nat) : Balanced (Json.natText n) :=
  balanced_of_plain fun _ hc => isPlain_of_isWordChar (isWordChar_of_mem_natText hc)

theorem balanced_of_isNumeric {cs : List Char} (h : ∀ c ∈ cs, Binary64.isNumeric c = true) :
    Balanced cs :=
  balanced_of_plain fun c hc => isPlain_of_marks (by decide) (h c hc)

theorem balanced_tailChars {words : List String} (h : ∀ w ∈ words, isWord w = true) :
    Balanced (tailChars words) := by
  induction words with
  | nil => exact .nil
  | cons w words ih =>
    obtain ⟨head, rest⟩ := List.forall_mem_cons.mp h
    exact .append (.cons (by decide) (balanced_of_isWord head)) (ih rest)

end Texts

section Values

mutual

/-- A written value closes its braces and its strings. -/
theorem balanced_compactChars : ∀ v : Json, Balanced v.compactChars
  | .null => balanced_of_all (by decide)
  | .bool true => balanced_of_all (by decide)
  | .bool false => balanced_of_all (by decide)
  | .int n => by
    rw [Json.compactChars]
    exact balanced_of_isNumeric (Json.isNumeric_intText n)
  | .double d => by
    rw [Json.compactChars]
    exact balanced_of_isNumeric d.isNumeric_text.1
  | .str s => by
    rw [Json.compactChars]
    exact .string s
  | .arr items => by
    rw [Json.compactChars]
    exact .cons (by decide) (balanced_compactItems items)
  | .obj members => by
    rw [Json.compactChars]
    exact balanced_compactMembers members

theorem balanced_compactItems : ∀ vs : List Json, Balanced (Json.compactItems vs)
  | [] => .plain (by decide)
  | v :: rest => by
    rw [Json.compactItems]
    exact .append (balanced_compactChars v) (balanced_compactItemsTail rest)

theorem balanced_compactItemsTail : ∀ vs : List Json, Balanced (Json.compactItemsTail vs)
  | [] => .plain (by decide)
  | v :: rest => by
    rw [Json.compactItemsTail]
    exact .append (.cons (by decide) (balanced_compactChars v)) (balanced_compactItemsTail rest)

theorem balanced_compactMembers : ∀ es : List (String × Json),
    Balanced ('{' :: Json.compactMembers es)
  | [] => .braces .nil
  | (k, v) :: rest => by
    rw [Json.compactMembers]
    exact balanced_compactMembersTail rest
      (.append (.string k) (.cons (by decide) (balanced_compactChars v)))

/-- The closing brace of an object stands behind all its members. -/
theorem balanced_compactMembersTail : ∀ (es : List (String × Json)) {front : List Char},
    Balanced front → Balanced ('{' :: (front ++ Json.compactMembersTail es))
  | [], _, h => .braces h
  | (k, v) :: rest, front, h => by
    have member : Balanced (front ++ (',' :: Json.quoted k ++ ':' :: v.compactChars)) :=
      .append h (.append (.cons (by decide) (.string k))
        (.cons (by decide) (balanced_compactChars v)))
    have behind := balanced_compactMembersTail rest member
    rwa [List.append_assoc, ← Json.compactMembersTail] at behind

end

end Values

section Expressions

theorem balanced_intercalate {sep : String} (hsep : Balanced sep.toList) {texts : List String}
    (h : ∀ t ∈ texts, Balanced t.toList) : Balanced (sep.intercalate texts).toList := by
  induction texts with
  | nil => exact .nil
  | cons t texts ih =>
    obtain ⟨head, rest⟩ := List.forall_mem_cons.mp h
    cases texts with
    | nil => simpa using head
    | cons u texts =>
      rw [String.intercalate_cons_cons, String.toList_append, String.toList_append]
      exact .append (.append head hsep) (ih rest)

theorem balanced_listing (x : Exposure) {kind name : String} (word : isWord name = true)
    (properties : ∀ p ∈ x.properties kind, isWord p = true) :
    Balanced (x.listing kind name).toList := by
  refine balanced_intercalate (balanced_of_all (by decide)) fun t ht => ?_
  obtain ⟨p, hp, rfl⟩ := List.mem_map.mp ht
  have property := balanced_of_isWord (properties p hp)
  have colon : Balanced (": ").toList := balanced_of_all (by decide)
  have dot : Balanced (".").toList := balanced_of_all (by decide)
  simp only [String.toList_append]
  exact .append (.append (.append (.append property colon) (balanced_of_isWord word)) dot) property

theorem balanced_viewText {listings : List (String × String)}
    (h : ∀ e ∈ listings, Balanced e.1.toList ∧ Balanced e.2.toList) :
    Balanced (viewText listings).toList := by
  have spaced : ∀ {r : List Char}, Balanced r → Balanced ('{' :: (' ' :: r ++ [' ']) ++ ['}']) :=
    fun inner => .braces (.append (.cons (by decide) inner) (.plain (by decide)))
  have inner : Balanced (", ".intercalate
      (listings.map fun e => e.1 ++ ": \x7b " ++ e.2 ++ " \x7d")).toList := by
    refine balanced_intercalate (balanced_of_all (by decide)) fun t ht => ?_
    obtain ⟨e, he, rfl⟩ := List.mem_map.mp ht
    obtain ⟨name, exposed⟩ := h e he
    have colon : Balanced (": ").toList := balanced_of_all (by decide)
    have entry := Balanced.append (.append name colon) (spaced exposed)
    simpa [String.toList_append] using entry
  simpa [viewText, String.toList_append] using spaced inner

/-- A text that can take the place of a reference. It does not start with a closing brace, which
would end a segment together with one that stands before the reference. -/
structure Closed (text : String) : Prop where
  balanced : Balanced text.toList
  starts : ∃ c rest, text.toList = c :: rest ∧ c ≠ '}'

theorem ne_brace_of_isPlain {c : Char} (h : isPlain c = true) : c ≠ '}' := by
  rintro rfl
  cases h

theorem closed_of_isWord {w : String} (word : isWord w = true) : Closed w := by
  obtain ⟨c, rest, text, -⟩ := exists_of_isWord word
  have plain := isPlain_of_isWordChar (isWordChar_of_isWord word (text ▸ List.mem_cons_self))
  exact ⟨balanced_of_isWord word, c, rest, text, ne_brace_of_isPlain plain⟩

theorem closed_decimal (n : Nat) : Closed (decimal n) := by
  have text : (decimal n).toList = Json.natText n := String.toList_ofList
  obtain ⟨c, rest, digits⟩ :=
    List.exists_cons_of_ne_nil (Nat.toDigits_ne_nil (n := n) (b := 10))
  have digits : Json.natText n = c :: rest := digits
  have digit : isWordChar c = true := isWordChar_of_mem_natText (digits ▸ List.mem_cons_self)
  exact ⟨text ▸ balanced_natText n, c, rest, text.trans digits,
    ne_brace_of_isPlain (isPlain_of_isWordChar digit)⟩

theorem closed_parenthesized {text : String} (h : Balanced text.toList) :
    Closed ("(" ++ text ++ ")") where
  balanced := by
    have whole : Balanced ('(' :: text.toList ++ [')']) :=
      .append (.cons (by decide) h) (.plain (by decide))
    simpa [String.toList_append] using whole
  starts := ⟨'(', text.toList ++ [')'], by simp [String.toList_append], by decide⟩

theorem Closed.append {text tail : String} (h : Closed text) (back : Balanced tail.toList) :
    Closed (text ++ tail) := by
  obtain ⟨c, rest, chars, ne⟩ := h.starts
  exact ⟨by simpa [String.toList_append] using h.balanced.append back, c, rest ++ tail.toList,
    by simp [String.toList_append, chars], ne⟩

theorem Closed.join {base : String} (h : Closed base) {words : List String}
    (hw : ∀ w ∈ words, isWord w = true) : Closed (Scope.join base words) := by
  obtain ⟨c, rest, text, ne⟩ := h.starts
  exact ⟨by rw [toList_join]; exact h.balanced.append (balanced_tailChars hw),
    c, rest ++ tailChars words, by rw [toList_join, text, List.cons_append], ne⟩

/-- What a row calls its record can take the place of a reference, whatever the record holds. -/
theorem closed_expression (item : RowItem)
    (list : ∀ l n, item = .position l n → isWord l = true) : Closed item.expression := by
  cases item with
  | value record =>
    apply closed_parenthesized
    rw [Json.compact, String.toList_ofList]
    exact balanced_compactChars record
  | position l n =>
    have opened : Balanced (".listData[").toList := balanced_of_all (by decide)
    have shut : Balanced ("]").toList := balanced_of_all (by decide)
    exact (((closed_of_isWord (list l n rfl)).append opened).append
      (closed_decimal n).balanced).append shut

end Expressions

end ListRepeater.Binding
