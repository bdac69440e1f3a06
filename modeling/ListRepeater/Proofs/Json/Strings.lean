import ListRepeater.Json.Printer
import ListRepeater.Json.Reader
/-!
# Written strings

Reading a written string gives it back, with the text behind it. So the written form tells strings
apart and also tells where a string ends.
-/
namespace ListRepeater.Json

open Reader

theorem hexValue?_hexDigit : ∀ n : Fin 16, hexValue? (hexDigit n) = some n.val := by decide

/-- A character is written as it is or as an escape that reads back. -/
theorem escape_cases (c : Char) :
    (escape c = [c] ∧ c ≠ '"' ∧ c ≠ '\\' ∧ ¬c.toNat < 0x20) ∨
    (∃ tail, escape c = '\\' :: tail ∧
      ∀ rest, escaped unicodeEscape (tail ++ rest) = .ok (c, rest)) := by
  unfold escape
  split
  · next h => exact Or.inr ⟨['"'], rfl, fun rest => by rw [h]; rfl⟩
  split
  · next h => exact Or.inr ⟨['\\'], rfl, fun rest => by rw [h]; rfl⟩
  split
  · next h => exact Or.inr ⟨['b'], rfl, fun rest => by rw [h]; rfl⟩
  split
  · next h => exact Or.inr ⟨['f'], rfl, fun rest => by rw [h]; rfl⟩
  split
  · next h => exact Or.inr ⟨['n'], rfl, fun rest => by rw [h]; rfl⟩
  split
  · next h => exact Or.inr ⟨['r'], rfl, fun rest => by rw [h]; rfl⟩
  split
  · next h => exact Or.inr ⟨['t'], rfl, fun rest => by rw [h]; rfl⟩
  split
  · next small =>
    refine Or.inr ⟨_, rfl, fun rest => ?_⟩
    have high := hexValue?_hexDigit ⟨c.toNat / 16, by omega⟩
    have low := hexValue?_hexDigit ⟨c.toNat % 16, by omega⟩
    have zero : hexValue? '0' = some 0 := by decide
    have unit : hexUnit ('0' :: '0' :: hexDigit (c.toNat / 16) :: hexDigit (c.toNat % 16) :: rest) =
        .ok (c.toNat, rest) := by
      simp only at high low
      simp only [hexUnit, high, low, zero]
      congr 2
      omega
    have apart : ¬(0xDC00 ≤ c.toNat ∧ c.toNat ≤ 0xDFFF) ∧ ¬(0xD800 ≤ c.toNat ∧ c.toNat ≤ 0xDBFF) := by
      omega
    have read : unicodeEscape
        ('0' :: '0' :: hexDigit (c.toNat / 16) :: hexDigit (c.toNat % 16) :: rest) =
          .ok (c, rest) := by
      simp only [unicodeEscape, unit, bind, Except.bind, if_neg apart.1, if_neg apart.2,
        Char.ofNat_toNat]
    exact read
  · next quote backslash _ _ _ _ _ large => exact Or.inl ⟨rfl, quote, backslash, large⟩

theorem stringBody_escape (cs rest : List Char) {size : Nat} (bound : cs.length < size) :
    stringBody unicodeEscape size (cs.flatMap escape ++ '"' :: rest) = .ok (cs, rest) := by
  induction cs generalizing size with
  | nil =>
    cases size with
    | zero => cases bound
    | succ size => rfl
  | cons c cs ih =>
    cases size with
    | zero => cases bound
    | succ size =>
      have later := ih (Nat.lt_of_succ_lt_succ bound)
      rw [List.flatMap_cons, List.append_assoc]
      rcases escape_cases c with ⟨plain, quote, backslash, large⟩ | ⟨tail, escape, read⟩
      · rw [plain]
        simp only [List.cons_append, List.nil_append, stringBody, quote, backslash, large, if_false,
          later, bind, Except.bind, pure, Except.pure]
      · have ne : ¬( '\\' = '"') := by decide
        rw [escape]
        simp only [List.cons_append, stringBody, ne, if_false, if_true, read, later, bind,
          Except.bind, pure, Except.pure]

/-- A written string is read back. -/
theorem string_quoted (s : String) (rest : List Char) {size : Nat} (bound : s.toList.length < size) :
    ∃ body, quoted s ++ rest = '"' :: body ∧ Reader.string size body = .ok (s, rest) := by
  refine ⟨s.toList.flatMap escape ++ '"' :: rest, ?_, ?_⟩
  · simp [quoted]
  · rw [Reader.string, stringBody_escape s.toList rest bound]
    simp only [bind, Except.bind, pure, Except.pure, String.ofList_toList]

theorem quoted_append_inj {s s' : String} {rest rest' : List Char}
    (h : quoted s ++ rest = quoted s' ++ rest') : s = s' ∧ rest = rest' := by
  let size := s.toList.length + s'.toList.length + 1
  obtain ⟨body, text, read⟩ := @string_quoted s rest size (by omega)
  obtain ⟨body', text', read'⟩ := @string_quoted s' rest' size (by omega)
  rw [text, text'] at h
  obtain rfl := (List.cons.inj h).2
  rw [read] at read'
  exact Prod.mk.inj (Except.ok.inj read')

end ListRepeater.Json
