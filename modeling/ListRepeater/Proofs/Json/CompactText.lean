import ListRepeater.Proofs.Json.Strings
import ListRepeater.Proofs.Number.DecimalText
/-!
# Compact text tells values apart

The first character of a written value tells its kind, strings and brackets close themselves, and a
number ends where a character stands that no number has. So a value can be told from its compact
text, whatever follows it.
-/
namespace ListRepeater.Json

open Binary64 (isNumeric isNumeric_of_isDigit)

section Numbers

/-- The text does not go on with a character of a number. -/
def Ends (cs : List Char) : Prop := ∀ c rest, cs = c :: rest → isNumeric c = false

theorem ends_cons {c : Char} (h : isNumeric c = false) (rest : List Char) : Ends (c :: rest) := by
  intro c' rest' e
  cases e
  exact h

theorem takeWhile_numeric {number rest : List Char} (numeric : ∀ c ∈ number, isNumeric c = true)
    (ends : Ends rest) : (number ++ rest).takeWhile isNumeric = number := by
  rw [List.takeWhile_append_of_pos numeric]
  cases rest with
  | nil => simp
  | cons c rest => simp [ends c rest rfl]

/-- A number is told from its text and what follows it. -/
theorem numeric_append_inj {number number' rest rest' : List Char}
    (numeric : ∀ c ∈ number, isNumeric c = true) (numeric' : ∀ c ∈ number', isNumeric c = true)
    (ends : Ends rest) (ends' : Ends rest') (h : number ++ rest = number' ++ rest') :
    number = number' ∧ rest = rest' := by
  have numbers : number = number' := by
    rw [← takeWhile_numeric numeric ends, h, takeWhile_numeric numeric' ends']
  subst numbers
  exact ⟨rfl, List.append_cancel_left h⟩

theorem isDigit_natText {n : Nat} {c : Char} (h : c ∈ natText n) : c.isDigit = true :=
  Nat.isDigit_of_mem_toDigits (by decide) (by decide) h

theorem intText_cases (n : Int) : ∀ c ∈ intText n, c.isDigit = true ∨ c = '-' := by
  intro c hc
  cases n with
  | ofNat n => exact Or.inl (isDigit_natText hc)
  | negSucc n =>
    rcases List.mem_cons.mp hc with rfl | hc
    · exact Or.inr rfl
    · exact Or.inl (isDigit_natText hc)

theorem isNumeric_intText (n : Int) : ∀ c ∈ intText n, isNumeric c = true := by
  intro c hc
  rcases intText_cases n c hc with digit | rfl
  · exact isNumeric_of_isDigit digit
  · decide

theorem natText_injective {m n : Nat} (h : natText m = natText n) : m = n := by
  have numbers := congrArg (fun ds => Nat.ofDigitChars 10 ds 0) h
  simpa [natText] using numbers

theorem natText_ne_minus {n : Nat} {rest : List Char} : natText n ≠ '-' :: rest := by
  intro h
  have digit : ('-').isDigit = true := isDigit_natText (h ▸ List.mem_cons_self)
  cases digit

theorem intText_injective {m n : Int} (h : intText m = intText n) : m = n := by
  cases m with
  | ofNat m =>
    cases n with
    | ofNat n => rw [natText_injective h]
    | negSucc n => exact (natText_ne_minus h).elim
  | negSucc m =>
    cases n with
    | ofNat n => exact (natText_ne_minus h.symm).elim
    | negSucc n =>
      have digits := natText_injective (List.cons.inj h).2
      rw [Nat.succ.inj digits]

/-- An integer is never written like a floating-point number. -/
theorem intText_ne_text (n : Int) (d : Binary64) : intText n ≠ d.text := by
  intro h
  have none : ∀ c, c ∈ d.text → c.isDigit = true ∨ c = '-' := by
    rw [← h]
    exact intText_cases n
  rcases d.isNumeric_text.2 with mark | mark
  · rcases none '.' mark with digit | e <;> cases ‹_›
  · rcases none 'e' mark with digit | e <;> cases ‹_›

end Numbers

section Kinds

inductive Kind where
  | null
  | yes
  | no
  | number
  | string
  | array
  | object
  | other
  deriving DecidableEq

def kind : Json → Kind
  | .null => .null
  | .bool true => .yes
  | .bool false => .no
  | .int _ | .double _ => .number
  | .str _ => .string
  | .arr _ => .array
  | .obj _ => .object

/-- The kind of the values that start with a character. -/
def kindOf (c : Char) : Kind :=
  if c = 'n' then .null
  else if c = 't' then .yes
  else if c = 'f' then .no
  else if c = '"' then .string
  else if c = '[' then .array
  else if c = '{' then .object
  else if c.isDigit || c == '-' then .number
  else .other

theorem kindOf_of_isDigit {c : Char} (h : c.isDigit = true) : kindOf c = .number := by
  have apart : ∀ {x : Char}, x.isDigit = false → c ≠ x := by
    rintro x hx rfl
    rw [h] at hx
    cases hx
  simp only [kindOf, apart (by decide : ('n').isDigit = false),
    apart (by decide : ('t').isDigit = false), apart (by decide : ('f').isDigit = false),
    apart (by decide : ('"').isDigit = false), apart (by decide : ('[').isDigit = false),
    apart (by decide : ('\x7b').isDigit = false), if_false, h, Bool.true_or, if_true]

theorem head_natText (n : Nat) : ∃ c rest, natText n = c :: rest ∧ kindOf c = .number := by
  obtain ⟨c, rest, h⟩ := List.exists_cons_of_ne_nil (Nat.toDigits_ne_nil (n := n) (b := 10))
  have h : natText n = c :: rest := h
  have digit : c.isDigit = true := isDigit_natText (h ▸ List.mem_cons_self)
  exact ⟨c, rest, h, kindOf_of_isDigit digit⟩

theorem head_compactChars (v : Json) :
    ∃ c rest, v.compactChars = c :: rest ∧ kindOf c = v.kind := by
  cases v with
  | null => exact ⟨_, _, rfl, by decide⟩
  | bool b => cases b <;> exact ⟨_, _, rfl, by decide⟩
  | int n =>
    cases n with
    | ofNat n =>
      obtain ⟨c, rest, text, number⟩ := head_natText n
      exact ⟨c, rest, by rw [compactChars, intText, text], number⟩
    | negSucc n => exact ⟨_, _, by rw [compactChars, intText], rfl⟩
  | double d =>
    obtain ⟨c, rest, text, digit⟩ := d.magnitudeText_head
    rw [compactChars, Binary64.text]
    split
    · exact ⟨_, _, rfl, rfl⟩
    · exact ⟨c, rest, text, kindOf_of_isDigit digit⟩
  | str s => exact ⟨_, _, by rw [compactChars, quoted, List.cons_append], rfl⟩
  | arr items => exact ⟨_, _, by rw [compactChars], rfl⟩
  | obj members => exact ⟨_, _, by rw [compactChars], rfl⟩

theorem kind_ne_other (v : Json) : v.kind ≠ .other := by
  cases v with
  | bool b => cases b <;> decide
  | _ => simp [kind]

theorem kind_eq_of_append {v w : Json} {r s : List Char}
    (h : v.compactChars ++ r = w.compactChars ++ s) : v.kind = w.kind := by
  obtain ⟨c, rest, text, kind⟩ := head_compactChars v
  obtain ⟨c', rest', text', kind'⟩ := head_compactChars w
  rw [text, text', List.cons_append, List.cons_append] at h
  rw [← kind, ← kind', (List.cons.inj h).1]

theorem compactChars_ne_cons {v : Json} {c : Char} (other : kindOf c = .other) {r s : List Char} :
    v.compactChars ++ r ≠ c :: s := by
  intro h
  obtain ⟨c', rest, text, kind⟩ := head_compactChars v
  rw [text, List.cons_append] at h
  rw [(List.cons.inj h).1, other] at kind
  exact kind_ne_other v kind.symm

end Kinds

section Values

theorem ends_compactItemsTail (vs : List Json) (r : List Char) : Ends (compactItemsTail vs ++ r) := by
  cases vs with
  | nil => exact ends_cons (by decide) _
  | cons v vs => exact ends_cons (by decide) _

theorem ends_compactMembersTail (es : List (String × Json)) (r : List Char) :
    Ends (compactMembersTail es ++ r) := by
  cases es with
  | nil => exact ends_cons (by decide) _
  | cons e es => exact ends_cons (by decide) _

mutual

/-- A value is told from its compact text and what follows it. -/
theorem compactChars_append_inj : ∀ (v w : Json) {r s : List Char}, Ends r → Ends s →
    v.compactChars ++ r = w.compactChars ++ s → v = w ∧ r = s
  | .null, w, r, s, hr, hs, h => by
    -- here and below, the first characters tell the kinds of values apart
    have kinds := kind_eq_of_append h
    cases w with
    | null => exact ⟨rfl, List.append_cancel_left h⟩
    | bool b => cases b <;> cases kinds
    | _ => cases kinds
  | .bool a, w, r, s, hr, hs, h => by
    have kinds := kind_eq_of_append h
    cases w with
    | bool b =>
      cases a with
      | true =>
        cases b with
        | true => exact ⟨rfl, List.append_cancel_left h⟩
        | false => cases kinds
      | false =>
        cases b with
        | true => cases kinds
        | false => exact ⟨rfl, List.append_cancel_left h⟩
    | _ => cases a <;> cases kinds
  | .int m, w, r, s, hr, hs, h => by
    have kinds := kind_eq_of_append h
    cases w with
    | int n =>
      rw [compactChars, compactChars] at h
      obtain ⟨text, rest⟩ :=
        numeric_append_inj (isNumeric_intText m) (isNumeric_intText n) hr hs h
      exact ⟨congrArg Json.int (intText_injective text), rest⟩
    | double d =>
      rw [compactChars, compactChars] at h
      obtain ⟨text, -⟩ := numeric_append_inj (isNumeric_intText m) d.isNumeric_text.1 hr hs h
      exact (intText_ne_text m d text).elim
    | bool b => cases b <;> cases kinds
    | _ => cases kinds
  | .double d, w, r, s, hr, hs, h => by
    have kinds := kind_eq_of_append h
    cases w with
    | int n =>
      rw [compactChars, compactChars] at h
      obtain ⟨text, -⟩ := numeric_append_inj d.isNumeric_text.1 (isNumeric_intText n) hr hs h
      exact (intText_ne_text n d text.symm).elim
    | double d' =>
      rw [compactChars, compactChars] at h
      obtain ⟨text, rest⟩ := numeric_append_inj d.isNumeric_text.1 d'.isNumeric_text.1 hr hs h
      exact ⟨congrArg Json.double (Binary64.text_injective text), rest⟩
    | bool b => cases b <;> cases kinds
    | _ => cases kinds
  | .str t, w, r, s, hr, hs, h => by
    have kinds := kind_eq_of_append h
    cases w with
    | str u =>
      rw [compactChars, compactChars] at h
      obtain ⟨text, rest⟩ := quoted_append_inj h
      exact ⟨congrArg Json.str text, rest⟩
    | bool b => cases b <;> cases kinds
    | _ => cases kinds
  | .arr vs, w, r, s, hr, hs, h => by
    have kinds := kind_eq_of_append h
    cases w with
    | arr ws =>
      rw [compactChars, compactChars, List.cons_append, List.cons_append] at h
      obtain ⟨items, rest⟩ := compactItems_append_inj vs ws (List.cons.inj h).2
      exact ⟨congrArg Json.arr items, rest⟩
    | bool b => cases b <;> cases kinds
    | _ => cases kinds
  | .obj es, w, r, s, hr, hs, h => by
    have kinds := kind_eq_of_append h
    cases w with
    | obj fs =>
      rw [compactChars, compactChars, List.cons_append, List.cons_append] at h
      obtain ⟨members, rest⟩ := compactMembers_append_inj es fs (List.cons.inj h).2
      exact ⟨congrArg Json.obj members, rest⟩
    | bool b => cases b <;> cases kinds
    | _ => cases kinds

theorem compactItems_append_inj : ∀ (vs ws : List Json) {r s : List Char},
    compactItems vs ++ r = compactItems ws ++ s → vs = ws ∧ r = s
  | [], [], r, s, h => ⟨rfl, (List.cons.inj h).2⟩
  | [], w :: ws, r, s, h => by
    rw [compactItems, compactItems, List.append_assoc] at h
    exact (compactChars_ne_cons (by decide) h.symm).elim
  | v :: vs, [], r, s, h => by
    rw [compactItems, compactItems, List.append_assoc] at h
    exact (compactChars_ne_cons (by decide) h).elim
  | v :: vs, w :: ws, r, s, h => by
    rw [compactItems, compactItems, List.append_assoc, List.append_assoc] at h
    obtain ⟨value, rest⟩ := compactChars_append_inj v w (ends_compactItemsTail vs r)
      (ends_compactItemsTail ws s) h
    obtain ⟨values, rest⟩ := compactItemsTail_append_inj vs ws rest
    exact ⟨by rw [value, values], rest⟩

theorem compactItemsTail_append_inj : ∀ (vs ws : List Json) {r s : List Char},
    compactItemsTail vs ++ r = compactItemsTail ws ++ s → vs = ws ∧ r = s
  | [], [], r, s, h => ⟨rfl, (List.cons.inj h).2⟩
  | [], w :: ws, r, s, h => by cases (List.cons.inj h).1
  | v :: vs, [], r, s, h => by cases (List.cons.inj h).1
  | v :: vs, w :: ws, r, s, h => by
    rw [compactItemsTail, compactItemsTail, List.append_assoc, List.append_assoc,
      List.cons_append, List.cons_append] at h
    obtain ⟨value, rest⟩ := compactChars_append_inj v w (ends_compactItemsTail vs r)
      (ends_compactItemsTail ws s) (List.cons.inj h).2
    obtain ⟨values, rest⟩ := compactItemsTail_append_inj vs ws rest
    exact ⟨by rw [value, values], rest⟩

theorem compactMembers_append_inj : ∀ (es fs : List (String × Json)) {r s : List Char},
    compactMembers es ++ r = compactMembers fs ++ s → es = fs ∧ r = s
  | [], [], r, s, h => ⟨rfl, (List.cons.inj h).2⟩
  | [], (k, w) :: fs, r, s, h => by cases (List.cons.inj h).1
  | (k, v) :: es, [], r, s, h => by cases (List.cons.inj h).1
  | (j, v) :: es, (k, w) :: fs, r, s, h => by
    simp only [compactMembers, List.append_assoc, List.cons_append] at h
    obtain ⟨key, rest⟩ := quoted_append_inj h
    obtain ⟨value, rest⟩ := compactChars_append_inj v w (ends_compactMembersTail es r)
      (ends_compactMembersTail fs s) (List.cons.inj rest).2
    obtain ⟨members, rest⟩ := compactMembersTail_append_inj es fs rest
    exact ⟨by rw [key, value, members], rest⟩

theorem compactMembersTail_append_inj : ∀ (es fs : List (String × Json)) {r s : List Char},
    compactMembersTail es ++ r = compactMembersTail fs ++ s → es = fs ∧ r = s
  | [], [], r, s, h => ⟨rfl, (List.cons.inj h).2⟩
  | [], (k, w) :: fs, r, s, h => by cases (List.cons.inj h).1
  | (k, v) :: es, [], r, s, h => by cases (List.cons.inj h).1
  | (j, v) :: es, (k, w) :: fs, r, s, h => by
    simp only [compactMembersTail, List.append_assoc, List.cons_append] at h
    obtain ⟨key, rest⟩ := quoted_append_inj (List.cons.inj h).2
    obtain ⟨value, rest⟩ := compactChars_append_inj v w (ends_compactMembersTail es r)
      (ends_compactMembersTail fs s) (List.cons.inj rest).2
    obtain ⟨members, rest⟩ := compactMembersTail_append_inj es fs rest
    exact ⟨by rw [key, value, members], rest⟩

end

theorem compact_injective {v w : Json} (h : v.compact = w.compact) : v = w := by
  have chars : v.compactChars = w.compactChars := by
    simpa [compact] using congrArg String.toList h
  have nothing : Ends [] := fun _ _ e => nomatch e
  have texts : v.compactChars ++ [] = w.compactChars ++ [] := by rw [chars]
  exact (compactChars_append_inj v w nothing nothing texts).1

end Values

end ListRepeater.Json
