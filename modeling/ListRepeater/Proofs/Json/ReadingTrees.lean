import ListRepeater.Json.Decoder
import Mathlib.Data.List.DropRight
/-!
# What a text gives

The first character behind the blanks tells whether an array, an object or another value is read.
Arrays and objects are read item by item, so what holds of the items that a text can give holds of
all parts of a tree: its integers have 64 bits, and it nests no deeper than the text may.
-/
namespace ListRepeater.Json

theorem bind_eq_ok {ε α β : Type} {x : Except ε α} {f : α → Except ε β} {b : β} :
    x >>= f = .ok b ↔ ∃ a, x = .ok a ∧ f a = .ok b := by
  cases x <;> simp [bind, Except.bind]

namespace Reader

section Loops

variable {α κ σ : Type}

/-- An array goes on with an item or ends. -/
theorem elements_eq_ok {element : List Char → Except Fault (Front α)} {n : Nat} {first : Bool}
    {cs rest : List Char} {xs : List α} :
    elements element (n + 1) first cs = .ok (xs, rest) ↔
      (next ']' first cs = .ok (.closed rest) ∧ xs = []) ∨
      ∃ front x more later, next ']' first cs = .ok (.element front) ∧
        element front = .ok (x, more) ∧ elements element n false more = .ok (later, rest) ∧
        xs = x :: later := by
  rw [elements, bind_eq_ok]
  constructor
  · rintro ⟨found, hnext, h⟩
    cases found with
    | closed behind =>
      cases h
      exact Or.inl ⟨hnext, rfl⟩
    | element front =>
      obtain ⟨⟨x, more⟩, item, h⟩ := bind_eq_ok.mp h
      obtain ⟨⟨later, behind⟩, items, h⟩ := bind_eq_ok.mp h
      cases h
      exact Or.inr ⟨front, x, more, later, hnext, item, items, rfl⟩
  · rintro (⟨hnext, rfl⟩ | ⟨front, x, more, later, hnext, item, items, rfl⟩)
    · exact ⟨_, hnext, rfl⟩
    · exact ⟨_, hnext, bind_eq_ok.mpr ⟨_, item, bind_eq_ok.mpr ⟨_, items, rfl⟩⟩⟩

/-- An object goes on with a key and a value or ends. -/
theorem members_eq_ok {key : List Char → Except Fault (Front κ)}
    {step : σ → κ → Except Fault (List Char → Except Fault (Front σ))} {n : Nat} {first : Bool}
    {s s' : σ} {cs rest : List Char} :
    members key step (n + 1) first s cs = .ok (s', rest) ↔
      (next '\x7d' first cs = .ok (.closed rest) ∧ s' = s) ∨
      ∃ front k behind value colon s₁ more, next '\x7d' first cs = .ok (.element ('"' :: front)) ∧
        key front = .ok (k, behind) ∧ step s k = .ok value ∧ behindColon behind = .ok colon ∧
        value colon = .ok (s₁, more) ∧ members key step n false s₁ more = .ok (s', rest) := by
  rw [members, bind_eq_ok]
  constructor
  · rintro ⟨found, hnext, h⟩
    split at h
    · cases h
      exact Or.inl ⟨hnext, rfl⟩
    · next front =>
      obtain ⟨⟨k, behind⟩, hkey, h⟩ := bind_eq_ok.mp h
      obtain ⟨value, hstep, h⟩ := bind_eq_ok.mp h
      obtain ⟨colon, hcolon, h⟩ := bind_eq_ok.mp h
      obtain ⟨⟨s₁, more⟩, hvalue, h⟩ := bind_eq_ok.mp h
      exact Or.inr ⟨front, k, behind, value, colon, s₁, more, hnext, hkey, hstep, hcolon, hvalue, h⟩
    · cases h
  · rintro (⟨hnext, rfl⟩ |
      ⟨front, k, behind, value, colon, s₁, more, hnext, hkey, hstep, hcolon, hvalue, later⟩)
    · exact ⟨_, hnext, rfl⟩
    · exact ⟨_, hnext, bind_eq_ok.mpr ⟨_, hkey, bind_eq_ok.mpr ⟨_, hstep, bind_eq_ok.mpr
        ⟨_, hcolon, bind_eq_ok.mpr ⟨_, hvalue, later⟩⟩⟩⟩⟩

end Loops

theorem skipBlanks_skipBlanks (cs : List Char) : skipBlanks (skipBlanks cs) = skipBlanks cs :=
  List.dropWhile_idempotent _ _

theorem skipBlanks_cons {c : Char} (h : isBlank c = false) (cs : List Char) :
    skipBlanks (c :: cs) = c :: cs :=
  List.dropWhile_cons_of_neg (by simp [h])

end Reader

open Reader

namespace Decoder

variable {α γ : Type}

theorem map_eq_ok {d : Decoder α} {g : α → γ} {size depth : Nat} {cs rest : List Char} {y : γ} :
    d.map g size depth cs = .ok (y, rest) ↔ ∃ x, d size depth cs = .ok (x, rest) ∧ g x = y := by
  rw [map, bind_eq_ok]
  constructor
  · rintro ⟨⟨x, behind⟩, h, same⟩
    cases same
    exact ⟨x, h, rfl⟩
  · rintro ⟨x, h, rfl⟩
    exact ⟨_, h, rfl⟩

/-- A value that is read fills the text, up to blanks. -/
theorem read_eq_ok {d : Decoder α} {text : String} {x : α} : d.read text = .ok x ↔
    ∃ rest, d (text.length + 1) 127 text.toList = .ok (x, rest) ∧
      (skipBlanks rest).isEmpty = true := by
  rw [read, bind_eq_ok]
  constructor
  · rintro ⟨⟨y, rest⟩, front, h⟩
    dsimp only at h
    split at h
    · next ends =>
      cases h
      exact ⟨rest, front, ends⟩
    · cases h
  · rintro ⟨rest, front, ends⟩
    exact ⟨_, front, if_pos ends⟩

theorem read_ofList_eq_ok {d : Decoder α} {cs : List Char} {x : α} :
    d.read (String.ofList cs) = .ok x ↔
      ∃ rest, d (cs.length + 1) 127 cs = .ok (x, rest) ∧ (skipBlanks rest).isEmpty = true := by
  rw [read_eq_ok, String.toList_ofList, String.length_ofList]

/-- Takes a member to those that were read before it. -/
def collect (size depth : Nat) (before : List (String × Json)) (k : String) :
    Except Fault (List Char → Except Fault (Front (List (String × Json)))) :=
  .ok (tree.map (fun v => (k, v) :: before) size depth)

/-- The members of an object, whose opening brace is read, the last one first. -/
def entries : Decoder (List (String × Json)) := fun size depth cs =>
  members (Reader.string size) (collect size depth) size true [] cs

section Opening

variable {size depth : Nat} {cs rest body : List Char}

theorem tree_of_bracket (h : skipBlanks cs = '[' :: body) :
    tree size depth cs = (nested (items tree)).map .arr size depth body := by
  rw [tree, Reader.value.eq_def]
  simp only [h]
  cases depth <;> rfl

theorem tree_of_brace (h : skipBlanks cs = '\x7b' :: body) :
    tree size depth cs = (nested entries).map (fun es => .obj es.reverse) size depth body := by
  rw [tree, Reader.value.eq_def]
  simp only [h]
  cases depth <;> rfl

/-- No array and no object starts behind the blanks. -/
def Unopened (cs : List Char) : Prop :=
  ∀ body, skipBlanks cs ≠ '[' :: body ∧ skipBlanks cs ≠ '\x7b' :: body

theorem tree_of_unopened (h : Unopened cs) :
    tree size depth cs = Reader.scalar size (skipBlanks cs) := by
  rw [tree, Reader.value.eq_def]
  dsimp only
  split
  · next body opened => exact absurd opened (h body).1
  · next body opened => exact absurd opened (h body).2
  · rfl

theorem opening_cases (cs : List Char) : (∃ body, skipBlanks cs = '[' :: body) ∨
    (∃ body, skipBlanks cs = '\x7b' :: body) ∨ Unopened cs := by
  by_cases bracket : ∃ body, skipBlanks cs = '[' :: body
  · exact Or.inl bracket
  · by_cases brace : ∃ body, skipBlanks cs = '\x7b' :: body
    · exact Or.inr (Or.inl brace)
    · exact Or.inr (Or.inr fun body => ⟨fun h => bracket ⟨body, h⟩, fun h => brace ⟨body, h⟩⟩)

theorem tree_skipBlanks (size depth : Nat) (cs : List Char) :
    tree size depth (skipBlanks cs) = tree size depth cs := by
  have same := skipBlanks_skipBlanks cs
  rcases opening_cases cs with ⟨body, h⟩ | ⟨body, h⟩ | h
  · rw [tree_of_bracket h, tree_of_bracket (same.trans h)]
  · rw [tree_of_brace h, tree_of_brace (same.trans h)]
  · have h' : Unopened (skipBlanks cs) := fun body => by rw [same]; exact h body
    rw [tree_of_unopened h, tree_of_unopened h', same]

/-- The kind of a tree is told by how its text starts. -/
theorem tree_cases {v : Json} (read : tree size depth cs = .ok (v, rest)) :
    (∃ body vs, skipBlanks cs = '[' :: body ∧ nested (items tree) size depth body = .ok (vs, rest) ∧
      v = .arr vs) ∨
    (∃ body es, skipBlanks cs = '\x7b' :: body ∧ nested entries size depth body = .ok (es, rest) ∧
      v = .obj es.reverse) ∨
    (Unopened cs ∧ Reader.scalar size (skipBlanks cs) = .ok (v, rest)) := by
  rcases opening_cases cs with ⟨body, h⟩ | ⟨body, h⟩ | h
  · rw [tree_of_bracket h, map_eq_ok] at read
    obtain ⟨vs, inner, rfl⟩ := read
    exact Or.inl ⟨body, vs, h, inner, rfl⟩
  · rw [tree_of_brace h, map_eq_ok] at read
    obtain ⟨es, inner, rfl⟩ := read
    exact Or.inr (Or.inl ⟨body, es, h, inner, rfl⟩)
  · rw [tree_of_unopened h] at read
    exact Or.inr (Or.inr ⟨h, read⟩)

end Opening

end Decoder

/-- The integer fits in 64 bits, with or without sign. -/
def IsWord (n : Int) : Prop := -(greatestNegative : Int) ≤ n ∧ n ≤ greatestUnsigned

/-- At most so many arrays and objects stand inside each other, and no integer is larger than a
text can give. -/
inductive Fits : Nat → Json → Prop
  | null {depth : Nat} : Fits depth .null
  | bool {depth : Nat} (b : Bool) : Fits depth (.bool b)
  | int {depth : Nat} {n : Int} (word : IsWord n) : Fits depth (.int n)
  | double {depth : Nat} (d : Binary64) : Fits depth (.double d)
  | str {depth : Nat} (s : String) : Fits depth (.str s)
  | arr {depth : Nat} {vs : List Json} (items : ∀ v ∈ vs, Fits depth v) : Fits (depth + 1) (.arr vs)
  | obj {depth : Nat} {es : List (String × Json)} (members : ∀ e ∈ es, Fits depth e.2) :
      Fits (depth + 1) (.obj es)

section Yields

theorem accumulate_le {w : Nat} (small : w ≤ greatestUnsigned) (ds : List Char) :
    (accumulate w ds).1 ≤ greatestUnsigned := by
  induction ds generalizing w with
  | nil => exact small
  | cons c ds ih =>
    rw [accumulate]
    split
    · next fit => exact ih (by simpa [fits] using fit)
    · exact small

theorem value?_cases {p : NumberParts} {negative : Bool} {v : Json}
    (h : p.value? negative = some v) :
    (∃ n, v = .int n ∧ IsWord n) ∨ ∃ d, v = .double d := by
  have small := accumulate_le (Nat.zero_le _) p.whole
  have double : ∀ {o : Option Binary64}, o.map Json.double = some v → ∃ d, v = .double d := by
    intro o h
    obtain ⟨d, -, rfl⟩ := Option.map_eq_some_iff.mp h
    exact ⟨d, rfl⟩
  rw [NumberParts.value?] at h
  dsimp only at h
  split at h
  · split at h
    · cases h
      exact Or.inl ⟨_, rfl, by omega, by omega⟩
    · split at h
      · next fit =>
        cases h
        exact Or.inl ⟨_, rfl, by omega, by omega⟩
      · exact Or.inr (double h)
  · exact Or.inr (double h)

theorem number_eq_ok {negative : Bool} {cs rest : List Char} {v : Json} :
    number negative cs = .ok (v, rest) ↔
      ∃ p, numberParts cs = .ok (p, rest) ∧ p.value? negative = some v := by
  rw [number, bind_eq_ok]
  constructor
  · rintro ⟨⟨p, behind⟩, parts, h⟩
    dsimp only at h
    split at h
    · next value =>
      cases h
      exact ⟨p, parts, value⟩
    · cases h
  · rintro ⟨p, parts, value⟩
    refine ⟨_, parts, ?_⟩
    simp only [value]
    rfl

/-- What is read where no array and no object starts. -/
theorem scalar_cases {size : Nat} {cs rest : List Char} {v : Json}
    (read : Reader.scalar size cs = .ok (v, rest)) :
    (∃ body, cs = 'n' :: body ∧ word ['u', 'l', 'l'] body = .ok rest ∧ v = .null) ∨
    (∃ b, v = .bool b) ∨ (∃ n, v = .int n ∧ IsWord n) ∨ (∃ d, v = .double d) ∨ ∃ s, v = .str s := by
  have word_ok : ∀ {w : Json} {ws cs : List Char},
      (do return (w, ← word ws cs) : Except Fault (Front Json)) = .ok (v, rest) →
        word ws cs = .ok rest ∧ v = w := by
    intro w ws cs h
    obtain ⟨behind, hword, h⟩ := bind_eq_ok.mp h
    cases h
    exact ⟨hword, rfl⟩
  have number_ok : ∀ {negative : Bool} {cs : List Char}, number negative cs = .ok (v, rest) →
      (∃ n, v = .int n ∧ IsWord n) ∨ (∃ d, v = .double d) ∨ ∃ s, v = .str s := by
    intro negative cs h
    obtain ⟨p, -, value⟩ := number_eq_ok.mp h
    exact (value?_cases value).imp_right Or.inl
  cases cs with
  | nil => cases read
  | cons c cs =>
    rw [Reader.scalar] at read
    split at read
    · obtain ⟨⟨s, behind⟩, -, h⟩ := bind_eq_ok.mp read
      cases h
      exact Or.inr (Or.inr (Or.inr (Or.inr ⟨s, rfl⟩)))
    split at read
    · next letter =>
      obtain ⟨null, own⟩ := word_ok read
      exact Or.inl ⟨cs, by rw [letter], null, own⟩
    split at read
    · exact Or.inr (Or.inl ⟨_, (word_ok read).2⟩)
    split at read
    · exact Or.inr (Or.inl ⟨_, (word_ok read).2⟩)
    split at read
    · exact Or.inr (Or.inr (number_ok read))
    split at read
    · exact Or.inr (Or.inr (number_ok read))
    · cases read

/-- What holds of all items that can be read holds of all items of an array. -/
theorem forall_of_elements {α : Type} {P : α → Prop} {element : List Char → Except Fault (Front α)}
    (item : ∀ {cs rest x}, element cs = .ok (x, rest) → P x) {n : Nat} {first : Bool}
    {cs rest : List Char} {xs : List α} (read : elements element n first cs = .ok (xs, rest)) :
    ∀ x ∈ xs, P x := by
  induction n generalizing first cs xs with
  | zero => cases read
  | succ n ih =>
    rcases elements_eq_ok.mp read with ⟨-, rfl⟩ | ⟨_, x, more, later, -, own, others, rfl⟩
    · exact List.forall_mem_nil _
    · exact List.forall_mem_cons.mpr ⟨item own, ih others⟩

theorem forall_of_collect {P : Json → Prop} {size depth : Nat}
    (item : ∀ {cs rest v}, Decoder.tree size depth cs = .ok (v, rest) → P v) {n : Nat}
    {first : Bool} {cs rest : List Char} {before es : List (String × Json)}
    (read : members (Reader.string size) (Decoder.collect size depth) n first before cs =
      .ok (es, rest)) (known : ∀ e ∈ before, P e.2) : ∀ e ∈ es, P e.2 := by
  induction n generalizing first cs before with
  | zero => cases read
  | succ n ih =>
    rcases members_eq_ok.mp read with ⟨-, rfl⟩ | ⟨_, k, _, _, _, s, _, -, -, step, -, own, others⟩
    · exact known
    · cases step
      obtain ⟨v, tree, rfl⟩ := Decoder.map_eq_ok.mp own
      exact ih others (List.forall_mem_cons.mpr ⟨item tree, known⟩)

theorem fits_of_scalar {size : Nat} {cs rest : List Char} {v : Json} (depth : Nat)
    (read : Reader.scalar size cs = .ok (v, rest)) : Fits depth v := by
  rcases scalar_cases read with ⟨_, -, -, rfl⟩ | ⟨b, rfl⟩ | ⟨n, rfl, word⟩ | ⟨d, rfl⟩ | ⟨s, rfl⟩
  exacts [.null, .bool b, .int word, .double d, .str s]

theorem fits_of_tree {size depth : Nat} {cs rest : List Char} {v : Json}
    (read : Decoder.tree size depth cs = .ok (v, rest)) : Fits depth v := by
  induction depth generalizing cs rest v with
  | zero =>
    rcases Decoder.tree_cases read with ⟨_, _, -, inner, -⟩ | ⟨_, _, -, inner, -⟩ | ⟨-, scalar⟩
    · cases inner
    · cases inner
    · exact fits_of_scalar 0 scalar
  | succ depth ih =>
    rcases Decoder.tree_cases read with
      ⟨_, vs, -, inner, rfl⟩ | ⟨_, es, -, inner, rfl⟩ | ⟨-, scalar⟩
    · exact .arr (forall_of_elements ih inner)
    · refine .obj fun e he => ?_
      exact forall_of_collect ih inner (List.forall_mem_nil _) e (List.mem_reverse.mp he)
    · exact fits_of_scalar _ scalar

theorem fits_of_readTree {text : String} {v : Json} (read : readTree text = .ok v) :
    Fits 127 v := by
  obtain ⟨_, front, -⟩ := Decoder.read_eq_ok.mp read
  exact fits_of_tree front

end Yields

end ListRepeater.Json
