import ListRepeater.Proofs.Json.CompactText
import ListRepeater.Proofs.Json.ReadingTrees
/-!
# Reading written trees back

Of a tree without floating-point numbers that a text can give at all, the compact text is read back
as the tree, whatever follows it inside a larger text. Floating-point numbers are left out since
their shortest decimals need not be read exactly.
-/
namespace ListRepeater.Json

open Reader

mutual

/-- Whether there is no floating-point number in the tree. -/
def isDoubleFree : Json → Bool
  | .arr items => isDoubleFreeItems items
  | .obj members => isDoubleFreeMembers members
  | .double _ => false
  | .null => true
  | .bool _ => true
  | .int _ => true
  | .str _ => true
  termination_by structural v => v

def isDoubleFreeItems : List Json → Bool
  | [] => true
  | v :: rest => isDoubleFree v && isDoubleFreeItems rest
  termination_by structural vs => vs

def isDoubleFreeMembers : List (String × Json) → Bool
  | [] => true
  | (_, v) :: rest => isDoubleFree v && isDoubleFreeMembers rest
  termination_by structural es => es

end

theorem isDoubleFree_arr_iff {vs : List Json} :
    (Json.arr vs).isDoubleFree = true ↔ ∀ v ∈ vs, v.isDoubleFree = true := by
  rw [isDoubleFree]
  induction vs with
  | nil => simp [isDoubleFreeItems]
  | cons v vs ih => simp [isDoubleFreeItems, ih]

theorem isDoubleFree_obj_iff {es : List (String × Json)} :
    (Json.obj es).isDoubleFree = true ↔ ∀ e ∈ es, e.2.isDoubleFree = true := by
  rw [isDoubleFree]
  induction es with
  | nil => simp [isDoubleFreeMembers]
  | cons e es ih => simp only [isDoubleFreeMembers, Bool.and_eq_true, ih, List.forall_mem_cons]

section Numbers

/-- What follows a value inside a text, and at its end. -/
def Parted (rest : List Char) : Prop :=
  rest = [] ∨ ∃ c more, rest = c :: more ∧ (c = ',' ∨ c = ']' ∨ c = '\x7d')

theorem natText_zero_cons {n : Nat} {ds : List Char} (h : natText n = '0' :: ds) : n = 0 := by
  induction n using Nat.strongRecOn generalizing ds with
  | ind n ih =>
    by_cases small : n < 10
    · rw [natText, Nat.toDigits_of_lt_base small] at h
      have digits : ∀ n : Fin 10, n.val.digitChar = '0' → n.val = 0 := by decide
      exact digits ⟨n, small⟩ (List.cons.inj h).1
    · rw [natText, Nat.toDigits_of_base_le (by decide) (Nat.le_of_not_lt small)] at h
      obtain ⟨c, front, text⟩ : ∃ c front, Nat.toDigits 10 (n / 10) = c :: front :=
        List.exists_cons_of_ne_nil Nat.toDigits_ne_nil
      rw [text, List.cons_append] at h
      have zero : n / 10 = 0 := ih (n / 10) (by omega) (text.trans (by rw [(List.cons.inj h).1]))
      omega

theorem wholeDigits_natText (n : Nat) {rest : List Char} (parted : Parted rest) :
    wholeDigits (natText n ++ rest) = .ok (natText n, rest) := by
  have all : ∀ c ∈ natText n, c.isDigit = true := fun c hc => isDigit_natText hc
  have stop : rest.takeWhile Char.isDigit = [] ∧ rest.dropWhile Char.isDigit = rest := by
    rcases parted with rfl | ⟨c, more, rfl, rfl | rfl | rfl⟩ <;> exact ⟨rfl, rfl⟩
  have found : digits (natText n ++ rest) = .ok (natText n, rest) := by
    rw [digits, List.takeWhile_append_of_pos all, List.dropWhile_append_of_pos all, stop.1, stop.2,
      List.append_nil]
    split
    · next none => exact absurd none Nat.toDigits_ne_nil
    · rfl
  refine bind_eq_ok.mpr ⟨_, found, ?_⟩
  dsimp only
  split
  · next leading =>
    rw [natText_zero_cons leading] at leading
    cases leading
  · rfl

theorem numberParts_natText (n : Nat) {rest : List Char} (parted : Parted rest) :
    numberParts (natText n ++ rest) = .ok (⟨natText n, none, none⟩, rest) := by
  rw [numberParts, wholeDigits_natText n parted]
  rcases parted with rfl | ⟨c, more, rfl, rfl | rfl | rfl⟩ <;> rfl

theorem accumulate_digits {w : Nat} {ds : List Char}
    (small : ds.foldl (fun n c => n * 10 + digitValue c) w ≤ greatestUnsigned) :
    accumulate w ds = (ds.foldl (fun n c => n * 10 + digitValue c) w, []) := by
  have grows : ∀ (ds : List Char) (w : Nat), w ≤ ds.foldl (fun n c => n * 10 + digitValue c) w := by
    intro ds
    induction ds with
    | nil => exact fun w => Nat.le_refl w
    | cons c ds ih => exact fun w => Nat.le_trans (by omega) (ih (w * 10 + digitValue c))
  induction ds generalizing w with
  | nil => rfl
  | cons c ds ih =>
    rw [List.foldl_cons] at small ⊢
    have next : fits (w * 10 + digitValue c) = true :=
      decide_eq_true (Nat.le_trans (grows ds _) small)
    rw [accumulate, if_pos next, ih small]

theorem accumulate_natText {n : Nat} (small : n ≤ greatestUnsigned) :
    accumulate 0 (natText n) = (n, []) := by
  have value : (natText n).foldl (fun n c => n * 10 + digitValue c) 0 = n := by
    have read : Nat.ofDigitChars 10 (natText n) 0 = n := by simp [natText]
    simpa [Nat.ofDigitChars, digitValue, Nat.mul_comm] using read
  rw [accumulate_digits (value.symm ▸ small), value]

theorem scalar_of_isDigit {c : Char} (digit : c.isDigit = true) (size : Nat) (cs : List Char) :
    Reader.scalar size (c :: cs) = number false (c :: cs) := by
  have apart : ∀ {x : Char}, x.isDigit = false → c ≠ x := by
    rintro x hx rfl
    rw [digit] at hx
    cases hx
  simp only [Reader.scalar, apart (by decide : ('"').isDigit = false),
    apart (by decide : ('n').isDigit = false), apart (by decide : ('t').isDigit = false),
    apart (by decide : ('f').isDigit = false), apart (by decide : ('-').isDigit = false), if_false,
    digit, if_true]

/-- A written integer is read back. -/
theorem scalar_intText {n : Int} (word : IsWord n) (size : Nat) {rest : List Char}
    (parted : Parted rest) : Reader.scalar size (intText n ++ rest) = .ok (.int n, rest) := by
  cases n with
  | ofNat n =>
    have small : n ≤ greatestUnsigned := Int.ofNat_le.mp word.2
    obtain ⟨c, front, text⟩ : ∃ c front, natText n = c :: front :=
      List.exists_cons_of_ne_nil Nat.toDigits_ne_nil
    have digit : c.isDigit = true := isDigit_natText (n := n) (text ▸ List.mem_cons_self)
    have value : (⟨natText n, none, none⟩ : NumberParts).value? false = some (.int n) := by
      rw [NumberParts.value?, accumulate_natText small]
      rfl
    have read := number_eq_ok.mpr ⟨_, numberParts_natText n parted, value⟩
    have start : natText n ++ rest = c :: (front ++ rest) := congrArg (· ++ rest) text
    rw [intText, start, scalar_of_isDigit digit, ← start]
    exact read
  | negSucc n =>
    have small : n + 1 ≤ greatestNegative := by
      have low := word.1
      omega
    have value : (⟨natText (n + 1), none, none⟩ : NumberParts).value? true =
        some (.int (Int.negSucc n)) := by
      rw [NumberParts.value?, accumulate_natText (Nat.le_trans small (by decide))]
      have range : 0 < n + 1 ∧ n + 1 ≤ greatestNegative := ⟨Nat.succ_pos n, small⟩
      simp only [Bool.not_true, Bool.false_eq_true, if_false, if_pos range]
      rfl
    have read := number_eq_ok.mpr ⟨_, numberParts_natText (n + 1) parted, value⟩
    rw [intText, List.cons_append]
    exact read

end Numbers

section Texts

theorem isBlank_of_kindOf {c : Char} (h : kindOf c ≠ .other) : isBlank c = false := by
  rw [isBlank, Bool.eq_false_iff]
  intro blank
  simp only [Bool.or_eq_true, beq_iff_eq, or_assoc] at blank
  rcases blank with rfl | rfl | rfl | rfl <;> exact h rfl

/-- A written value does not start with a character that is of no kind. -/
theorem head_compact (v : Json) (rest : List Char) : ∃ c more, v.compactChars ++ rest = c :: more ∧
    kindOf c = v.kind ∧ kindOf c ≠ .other := by
  obtain ⟨c, more, text, kind⟩ := head_compactChars v
  exact ⟨c, more ++ rest, by rw [text, List.cons_append], kind, kind ▸ kind_ne_other v⟩

theorem skipBlanks_compact (v : Json) (rest : List Char) :
    skipBlanks (v.compactChars ++ rest) = v.compactChars ++ rest := by
  obtain ⟨c, more, text, -, known⟩ := head_compact v rest
  rw [text, skipBlanks_cons (isBlank_of_kindOf known)]

variable {close c : Char} {cs : List Char}

theorem next_first (plain : isBlank c = false) (open' : c ≠ close) :
    next close true (c :: cs) = .ok (.element (c :: cs)) := by
  simp only [next, skipBlanks_cons plain, if_neg open', if_true]

theorem next_behind_comma (plain : isBlank c = false) (open' : c ≠ close) (comma : ',' ≠ close) :
    next close false (',' :: c :: cs) = .ok (.element (c :: cs)) := by
  simp only [next, skipBlanks_cons (by decide : isBlank ',' = false), if_neg comma,
    Bool.false_eq_true, if_false, if_true, skipBlanks_cons plain, if_neg open']

theorem next_close (plain : isBlank close = false) (first : Bool) :
    next close first (close :: cs) = .ok (.closed cs) := by
  simp only [next, skipBlanks_cons plain, if_true]

theorem parted_cons (mark : c = ',' ∨ c = ']' ∨ c = '\x7d') : Parted (c :: cs) :=
  Or.inr ⟨c, cs, rfl, mark⟩

theorem parted_compactItemsTail (vs : List Json) : Parted (compactItemsTail vs ++ cs) := by
  cases vs with
  | nil => exact parted_cons (Or.inr (Or.inl rfl))
  | cons v vs => exact parted_cons (Or.inl rfl)

theorem parted_compactMembersTail (es : List (String × Json)) :
    Parted (compactMembersTail es ++ cs) := by
  cases es with
  | nil => exact parted_cons (Or.inr (Or.inr rfl))
  | cons e es => exact parted_cons (Or.inl rfl)

end Texts

section Containers

/-- In a text with its bounds a written value is read back, whatever follows it. -/
def ReadsBack (size depth : Nat) (v : Json) : Prop :=
  ∀ rest, Parted rest → Decoder.tree size depth (v.compactChars ++ rest) = .ok (v, rest)

variable {size depth n : Nat}

theorem elements_compactItemsTail {vs : List Json} (items : ∀ v ∈ vs, ReadsBack size depth v)
    (bound : vs.length < n) (rest : List Char) :
    elements (Decoder.tree size depth) n false (compactItemsTail vs ++ rest) = .ok (vs, rest) := by
  induction vs generalizing n with
  | nil =>
    obtain ⟨n, rfl⟩ := Nat.exists_eq_add_one_of_ne_zero (Nat.ne_of_gt bound)
    exact elements_eq_ok.mpr (Or.inl ⟨next_close (by decide) false, rfl⟩)
  | cons v vs ih =>
    obtain ⟨n, rfl⟩ := Nat.exists_eq_add_one_of_ne_zero (Nat.ne_of_gt (Nat.zero_lt_of_lt bound))
    obtain ⟨own, others⟩ := List.forall_mem_cons.mp items
    have later := ih others (Nat.lt_of_succ_lt_succ bound)
    obtain ⟨c, more, text, -, known⟩ := head_compact v (compactItemsTail vs ++ rest)
    have go : next ']' false (compactItemsTail (v :: vs) ++ rest) =
        .ok (.element (v.compactChars ++ (compactItemsTail vs ++ rest))) := by
      rw [compactItemsTail, List.append_assoc, List.cons_append, text]
      refine next_behind_comma (isBlank_of_kindOf known) ?_ (by decide)
      rintro rfl
      exact known (by decide)
    exact elements_eq_ok.mpr
      (Or.inr ⟨_, v, _, vs, go, own _ (parted_compactItemsTail vs), later, rfl⟩)

theorem elements_compactItems {vs : List Json} (items : ∀ v ∈ vs, ReadsBack size depth v)
    (bound : vs.length < n) (rest : List Char) :
    elements (Decoder.tree size depth) n true (compactItems vs ++ rest) = .ok (vs, rest) := by
  obtain ⟨n, rfl⟩ := Nat.exists_eq_add_one_of_ne_zero (Nat.ne_of_gt (Nat.zero_lt_of_lt bound))
  cases vs with
  | nil => exact elements_eq_ok.mpr (Or.inl ⟨next_close (by decide) true, rfl⟩)
  | cons v vs =>
    obtain ⟨own, others⟩ := List.forall_mem_cons.mp items
    have later := elements_compactItemsTail others (Nat.lt_of_succ_lt_succ bound) rest
    obtain ⟨c, more, text, -, known⟩ := head_compact v (compactItemsTail vs ++ rest)
    have go : next ']' true (compactItems (v :: vs) ++ rest) =
        .ok (.element (v.compactChars ++ (compactItemsTail vs ++ rest))) := by
      rw [compactItems, List.append_assoc, text]
      refine next_first (isBlank_of_kindOf known) ?_
      rintro rfl
      exact known (by decide)
    exact elements_eq_ok.mpr
      (Or.inr ⟨_, v, _, vs, go, own _ (parted_compactItemsTail vs), later, rfl⟩)

/-- The text of a member is read up to the next one. -/
theorem members_compactMember {first : Bool} {k : String} {v : Json}
    {before es : List (String × Json)} {cs rest behind : List Char} (long : k.toList.length < size)
    (own : ReadsBack size depth v) (parted : Parted rest)
    (go : ∀ body, quoted k ++ ':' :: (v.compactChars ++ rest) = '"' :: body →
      next '\x7d' first cs = .ok (.element ('"' :: body)))
    (later : members (Reader.string size) (Decoder.collect size depth) n false ((k, v) :: before)
      rest = .ok (es, behind)) :
    members (Reader.string size) (Decoder.collect size depth) (n + 1) first before cs =
      .ok (es, behind) := by
  obtain ⟨body, text, key⟩ := string_quoted k (':' :: (v.compactChars ++ rest)) long
  have colon : behindColon (':' :: (v.compactChars ++ rest)) = .ok (v.compactChars ++ rest) := by
    rw [behindColon, skipBlanks_cons (by decide)]
    exact if_pos rfl
  exact members_eq_ok.mpr (Or.inr ⟨body, k, _, _, _, (k, v) :: before, rest, go body text, key, rfl,
    colon, Decoder.map_eq_ok.mpr ⟨v, own _ parted, rfl⟩, later⟩)

theorem members_compactMembersTail {es : List (String × Json)}
    (items : ∀ e ∈ es, e.1.toList.length < size ∧ ReadsBack size depth e.2) (bound : es.length < n)
    (before : List (String × Json)) (rest : List Char) :
    members (Reader.string size) (Decoder.collect size depth) n false before
      (compactMembersTail es ++ rest) = .ok (es.reverse ++ before, rest) := by
  induction es generalizing n before with
  | nil =>
    obtain ⟨n, rfl⟩ := Nat.exists_eq_add_one_of_ne_zero (Nat.ne_of_gt bound)
    exact members_eq_ok.mpr (Or.inl ⟨next_close (by decide) false, rfl⟩)
  | cons e es ih =>
    obtain ⟨n, rfl⟩ := Nat.exists_eq_add_one_of_ne_zero (Nat.ne_of_gt (Nat.zero_lt_of_lt bound))
    obtain ⟨⟨long, own⟩, others⟩ := List.forall_mem_cons.mp items
    have later := ih others (Nat.lt_of_succ_lt_succ bound) (e :: before)
    rw [List.reverse_cons, List.append_assoc]
    refine members_compactMember long own (parted_compactMembersTail es) (fun body text => ?_) later
    have start : compactMembersTail (e :: es) ++ rest =
        ',' :: (quoted e.1 ++ ':' :: (e.2.compactChars ++ (compactMembersTail es ++ rest))) := by
      simp [compactMembersTail]
    rw [start, text]
    exact next_behind_comma (by decide) (by decide) (by decide)

theorem members_compactMembers {es : List (String × Json)}
    (items : ∀ e ∈ es, e.1.toList.length < size ∧ ReadsBack size depth e.2) (bound : es.length < n)
    (rest : List Char) :
    members (Reader.string size) (Decoder.collect size depth) n true []
      (compactMembers es ++ rest) = .ok (es.reverse, rest) := by
  obtain ⟨n, rfl⟩ := Nat.exists_eq_add_one_of_ne_zero (Nat.ne_of_gt (Nat.zero_lt_of_lt bound))
  cases es with
  | nil => exact members_eq_ok.mpr (Or.inl ⟨next_close (by decide) true, rfl⟩)
  | cons e es =>
    obtain ⟨⟨long, own⟩, others⟩ := List.forall_mem_cons.mp items
    have later := members_compactMembersTail others (Nat.lt_of_succ_lt_succ bound) [e] rest
    rw [List.reverse_cons]
    refine members_compactMember long own (parted_compactMembersTail es) (fun body text => ?_) later
    have start : compactMembers (e :: es) ++ rest =
        quoted e.1 ++ ':' :: (e.2.compactChars ++ (compactMembersTail es ++ rest)) := by
      simp [compactMembers]
    rw [start, text]
    exact next_first (by decide) (by decide)

end Containers

section Bounds

theorem length_compactItemsTail (vs : List Json) : vs.length < (compactItemsTail vs).length ∧
    ∀ v ∈ vs, v.compactChars.length < (compactItemsTail vs).length := by
  induction vs with
  | nil => simp [compactItemsTail]
  | cons v vs ih =>
    obtain ⟨count, items⟩ := ih
    have size : (compactItemsTail (v :: vs)).length =
        v.compactChars.length + (compactItemsTail vs).length + 1 := by
      simp [compactItemsTail]
    rw [size, List.length_cons]
    refine ⟨by omega, List.forall_mem_cons.mpr ⟨by omega, fun w hw => ?_⟩⟩
    have := items w hw
    omega

theorem length_quoted (s : String) : s.toList.length < (quoted s).length := by
  have grows : ∀ cs : List Char, cs.length ≤ (cs.flatMap escape).length := by
    intro cs
    induction cs with
    | nil => exact Nat.le_refl 0
    | cons c cs ih =>
      have one : 1 ≤ (escape c).length := by
        rcases escape_cases c with ⟨plain, -⟩ | ⟨tail, escaped, -⟩
        · rw [plain]; exact Nat.le_refl 1
        · rw [escaped]; exact Nat.succ_le_succ (Nat.zero_le _)
      rw [List.flatMap_cons, List.length_append, List.length_cons]
      omega
  have := grows s.toList
  simp only [quoted, List.cons_append, List.length_cons, List.length_append]
  omega

theorem length_compactMembersTail (es : List (String × Json)) :
    es.length < (compactMembersTail es).length ∧ ∀ e ∈ es,
      e.1.toList.length < (compactMembersTail es).length ∧
        e.2.compactChars.length < (compactMembersTail es).length := by
  induction es with
  | nil => simp [compactMembersTail]
  | cons e es ih =>
    obtain ⟨count, items⟩ := ih
    have key := length_quoted e.1
    have size : (compactMembersTail (e :: es)).length =
        (quoted e.1).length + e.2.compactChars.length + (compactMembersTail es).length + 2 := by
      simp [compactMembersTail]
      omega
    rw [size, List.length_cons]
    refine ⟨by omega, List.forall_mem_cons.mpr ⟨⟨by omega, by omega⟩, fun x hx => ?_⟩⟩
    obtain ⟨long, own⟩ := items x hx
    exact ⟨by omega, by omega⟩

theorem length_arr (vs : List Json) :
    (compactItemsTail vs).length ≤ (Json.arr vs).compactChars.length := by
  cases vs <;> simp [compactChars, compactItems, compactItemsTail]

theorem length_obj (es : List (String × Json)) :
    (compactMembersTail es).length ≤ (Json.obj es).compactChars.length := by
  cases es <;> simp [compactChars, compactMembers, compactMembersTail]

end Bounds

theorem readsBack_of_scalar {v : Json} {size : Nat} (depth : Nat)
    (scalar : ∀ rest, Parted rest → Reader.scalar size (v.compactChars ++ rest) = .ok (v, rest))
    (kind : v.kind ≠ .array ∧ v.kind ≠ .object) : ReadsBack size depth v := by
  intro rest parted
  have blank := skipBlanks_compact v rest
  rw [Decoder.tree_of_unopened, blank]
  · exact scalar rest parted
  · intro body
    obtain ⟨c, more, text, own, -⟩ := head_compact v rest
    rw [blank, text]
    constructor <;> rintro ⟨⟩
    · exact kind.1 own.symm
    · exact kind.2 own.symm

/-- A tree without floating-point numbers that a text can give is read back from its compact text,
whatever follows it. -/
theorem readsBack {depth : Nat} {v : Json} (fits : Fits depth v) (free : v.isDoubleFree = true)
    {size : Nat} (bound : v.compactChars.length < size) : ReadsBack size depth v := by
  induction fits with
  | null => exact readsBack_of_scalar _ (fun rest _ => rfl) (by decide)
  | bool b =>
    cases b with
    | false => exact readsBack_of_scalar _ (fun rest _ => rfl) (by decide)
    | true => exact readsBack_of_scalar _ (fun rest _ => rfl) (by decide)
  | int word =>
    refine readsBack_of_scalar _ (fun rest parted => ?_) (by simp [kind])
    rw [compactChars]
    exact scalar_intText word size parted
  | double d => cases free
  | str s =>
    have long := length_quoted s
    rw [compactChars] at bound
    refine readsBack_of_scalar _ (fun rest _ => ?_) (by simp [kind])
    obtain ⟨body, text, read⟩ := string_quoted s rest (Nat.lt_trans long bound)
    rw [compactChars, text]
    exact bind_eq_ok.mpr ⟨_, read, rfl⟩
  | @arr depth vs _ ih =>
    obtain ⟨count, items⟩ := length_compactItemsTail vs
    have whole := length_arr vs
    have all : ∀ v ∈ vs, ReadsBack size depth v := fun v hv =>
      ih v hv (isDoubleFree_arr_iff.mp free v hv) (by have := items v hv; omega)
    intro rest _
    have start : skipBlanks ((Json.arr vs).compactChars ++ rest) =
        '[' :: (compactItems vs ++ rest) := by
      rw [skipBlanks_compact, compactChars, List.cons_append]
    rw [Decoder.tree_of_bracket start, Decoder.map_eq_ok]
    exact ⟨vs, elements_compactItems all (by omega) rest, rfl⟩
  | @obj depth es _ ih =>
    obtain ⟨count, items⟩ := length_compactMembersTail es
    have whole := length_obj es
    have all : ∀ e ∈ es, e.1.toList.length < size ∧ ReadsBack size depth e.2 := by
      intro e he
      obtain ⟨long, own⟩ := items e he
      exact ⟨by omega, ih e he (isDoubleFree_obj_iff.mp free e he) (by omega)⟩
    intro rest _
    have start : skipBlanks ((Json.obj es).compactChars ++ rest) =
        '\x7b' :: (compactMembers es ++ rest) := by
      rw [skipBlanks_compact, compactChars, List.cons_append]
    rw [Decoder.tree_of_brace start, Decoder.map_eq_ok]
    exact ⟨es.reverse, members_compactMembers all (by omega) rest, by rw [List.reverse_reverse]⟩

theorem readTree_compact {v : Json} (fits : Fits 127 v) (free : v.isDoubleFree = true) :
    readTree v.compact = .ok v := by
  have read := readsBack fits free (Nat.lt_succ_self _) [] (Or.inl rfl)
  rw [List.append_nil] at read
  exact Decoder.read_ofList_eq_ok.mpr ⟨[], read, rfl⟩

end ListRepeater.Json
