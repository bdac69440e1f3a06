import ListRepeater.Proofs.Number.ShortestDecimal
/-!
# The text of a number

A written number has a value of its own: its digits without the point, moved by the digits behind
the point and the exponent. That is the value of the shortest decimal, so the text tells a number
from all others.
-/
namespace ListRepeater.Binary64

section Reading

def digitsValue (cs : List Char) : Nat := Nat.ofDigitChars 10 cs 0

/-- The exponent behind the digits of a text, zero if there is none. -/
def exponentValue : List Char → ℤ
  | 'e' :: '-' :: ds => -(digitsValue ds : ℤ)
  | 'e' :: _ :: ds => digitsValue ds
  | _ => 0

/-- The value of the text of a number without sign. -/
def magnitudeValue (cs : List Char) : ℚ :=
  let mantissa := cs.takeWhile (· != 'e')
  let whole := mantissa.takeWhile (· != '.')
  let fraction := (mantissa.dropWhile (· != '.')).drop 1
  digitsValue (whole ++ fraction) *
    (10 : ℚ) ^ (exponentValue (cs.dropWhile (· != 'e')) - fraction.length)

def AllDigits (cs : List Char) : Prop := ∀ c ∈ cs, c.isDigit = true

theorem ne_of_isDigit {c x : Char} (h : c.isDigit = true) (hx : x.isDigit = false) :
    (c != x) = true := by
  rw [bne_iff_ne]
  rintro rfl
  rw [h] at hx
  cases hx

theorem magnitudeValue_pointed {whole fraction tail : List Char} (hw : AllDigits whole)
    (hf : AllDigits fraction) (ht : tail = [] ∨ ∃ rest, tail = 'e' :: rest) :
    magnitudeValue (whole ++ '.' :: fraction ++ tail) =
      digitsValue (whole ++ fraction) * (10 : ℚ) ^ (exponentValue tail - fraction.length) := by
  have before : ∀ c ∈ whole ++ '.' :: fraction, (c != 'e') = true := by
    intro c hc
    rcases List.mem_append.mp hc with hc | hc
    · exact ne_of_isDigit (hw c hc) (by decide)
    · rcases List.mem_cons.mp hc with rfl | hc
      · decide
      · exact ne_of_isDigit (hf c hc) (by decide)
  have stop : tail.takeWhile (· != 'e') = [] ∧ tail.dropWhile (· != 'e') = tail := by
    rcases ht with rfl | ⟨rest, rfl⟩
    · exact ⟨rfl, rfl⟩
    · exact ⟨rfl, rfl⟩
  have point : ∀ c ∈ whole, (c != '.') = true := fun c hc => ne_of_isDigit (hw c hc) (by decide)
  have mantissa : (whole ++ '.' :: fraction ++ tail).takeWhile (· != 'e') =
      whole ++ '.' :: fraction := by
    rw [List.takeWhile_append_of_pos before, stop.1, List.append_nil]
  have exponent : (whole ++ '.' :: fraction ++ tail).dropWhile (· != 'e') = tail := by
    rw [List.dropWhile_append_of_pos before, stop.2]
  have front : (whole ++ '.' :: fraction).takeWhile (· != '.') = whole := by
    rw [List.takeWhile_append_of_pos point]
    simp
  have back : (whole ++ '.' :: fraction).dropWhile (· != '.') = '.' :: fraction := by
    rw [List.dropWhile_append_of_pos point]
    simp
  simp only [magnitudeValue, mantissa, exponent, front, back, List.drop_succ_cons, List.drop_zero]

theorem magnitudeValue_single {c : Char} {tail : List Char} (hc : c.isDigit = true)
    (ht : ∃ rest, tail = 'e' :: rest) :
    magnitudeValue (c :: tail) = digitsValue [c] * (10 : ℚ) ^ exponentValue tail := by
  obtain ⟨rest, rfl⟩ := ht
  have digit : (c != 'e') = true := ne_of_isDigit hc (by decide)
  have point : (c != '.') = true := ne_of_isDigit hc (by decide)
  simp [magnitudeValue, digit, point]

theorem digitsValue_zeros_append (n : Nat) (ds : List Char) :
    digitsValue (zeros n ++ ds) = digitsValue ds := by
  rw [digitsValue, Nat.ofDigitChars_append, zeros, Nat.ofDigitChars_replicate_zero, Nat.mul_zero,
    digitsValue]

theorem digitsValue_append_zeros (ds : List Char) (n : Nat) :
    digitsValue (ds ++ zeros n) = digitsValue ds * 10 ^ n := by
  rw [digitsValue, Nat.ofDigitChars_append, zeros, Nat.ofDigitChars_replicate_zero, Nat.mul_comm,
    digitsValue]

theorem allDigits_toDigits (n : Nat) : AllDigits (Nat.toDigits 10 n) :=
  fun _ hc => Nat.isDigit_of_mem_toDigits (by decide) (by decide) hc

theorem digitsValue_toDigits (n : Nat) : digitsValue (Nat.toDigits 10 n) = n :=
  Nat.ofDigitChars_ten_toDigits

theorem exponentValue_exponentText (e : ℤ) : exponentValue (exponentText e) = e := by
  rw [exponentText]
  split
  · rw [exponentValue, digitsValue_toDigits]
    · omega
    · simp
  · rw [exponentValue, digitsValue_toDigits]
    omega

end Reading

section Layout

variable {ds : List Char} {lead : Int}

theorem allDigits_zeros (n : Nat) : AllDigits (zeros n) := by
  intro c hc
  rw [List.eq_of_mem_replicate hc]
  decide

theorem allDigits_append {cs ds : List Char} (hc : AllDigits cs) (hd : AllDigits ds) :
    AllDigits (cs ++ ds) := by
  intro c h
  rcases List.mem_append.mp h with h | h
  · exact hc c h
  · exact hd c h

/-- The ways to lay out digits. -/
theorem layOut_cases (nonempty : ds ≠ []) :
    (lead < 0 ∧ layOut ds lead = '0' :: '.' :: zeros (-lead - 1).toNat ++ ds) ∨
    (0 ≤ lead ∧ ds.length ≤ lead.toNat + 1 ∧
      layOut ds lead = ds ++ zeros (lead.toNat + 1 - ds.length) ++ ['.', '0']) ∨
    (0 ≤ lead ∧ lead.toNat + 1 < ds.length ∧
      layOut ds lead = ds.take (lead.toNat + 1) ++ '.' :: ds.drop (lead.toNat + 1)) ∨
    (∃ c, ds = [c] ∧ layOut ds lead = c :: exponentText lead) ∨
    (∃ c rest, ds = c :: rest ∧ layOut ds lead = c :: '.' :: rest ++ exponentText lead) := by
  by_cases near : layout.leastPlace ≤ lead ∧ lead ≤ layout.greatestPlace
  · by_cases negative : lead < 0
    · refine Or.inl ⟨negative, ?_⟩
      simp only [layOut, near, negative, and_self, if_true]
    · have nonnegative : 0 ≤ lead := Int.not_lt.mp negative
      by_cases short : ds.length ≤ lead.toNat + 1
      · refine Or.inr (Or.inl ⟨nonnegative, short, ?_⟩)
        simp only [layOut, near, negative, short, and_self, if_true, if_false]
      · refine Or.inr (Or.inr (Or.inl ⟨nonnegative, Nat.not_le.mp short, ?_⟩))
        simp only [layOut, near, negative, short, and_self, if_true, if_false]
  · cases ds with
    | nil => exact absurd rfl nonempty
    | cons c rest =>
      cases rest with
      | nil =>
        refine Or.inr (Or.inr (Or.inr (Or.inl ⟨c, rfl, ?_⟩)))
        simp only [layOut, near, if_false]
      | cons d more =>
        refine Or.inr (Or.inr (Or.inr (Or.inr ⟨c, d :: more, rfl, ?_⟩)))
        simp only [layOut, near, if_false]

/-- Wherever the point is put and whether an exponent is written, the value is that of the digits
with the first of them at the leading place. -/
theorem magnitudeValue_layOut (digits : AllDigits ds) (nonempty : ds ≠ []) :
    magnitudeValue (layOut ds lead) = digitsValue ds * (10 : ℚ) ^ (lead + 1 - ds.length) := by
  have ten : (10 : ℚ) ≠ 0 := by norm_num
  have zero : AllDigits ['0'] := allDigits_zeros 1
  have exponent : ∃ rest, exponentText lead = 'e' :: rest := ⟨_, rfl⟩
  rcases @layOut_cases ds lead nonempty with ⟨negative, text⟩ | ⟨nonnegative, short, text⟩ |
    ⟨nonnegative, long, text⟩ | ⟨c, rfl, text⟩ | ⟨c, rest, rfl, text⟩
  · have parts : '0' :: '.' :: zeros (-lead - 1).toNat ++ ds =
        ['0'] ++ '.' :: (zeros (-lead - 1).toNat ++ ds) ++ [] := by simp
    have value : digitsValue (['0'] ++ (zeros (-lead - 1).toNat ++ ds)) = digitsValue ds := by
      rw [show ['0'] = zeros 1 from rfl, digitsValue_zeros_append, digitsValue_zeros_append]
    rw [text, parts, magnitudeValue_pointed zero
      (allDigits_append (allDigits_zeros _) digits) (Or.inl rfl), value]
    congr 2
    simp only [exponentValue, zeros, List.length_append, List.length_replicate]
    omega
  · have parts : ds ++ zeros (lead.toNat + 1 - ds.length) ++ ['.', '0'] =
        (ds ++ zeros (lead.toNat + 1 - ds.length)) ++ '.' :: ['0'] ++ [] := by simp
    have value : digitsValue (ds ++ zeros (lead.toNat + 1 - ds.length) ++ ['0']) =
        digitsValue ds * 10 ^ (lead.toNat + 1 - ds.length + 1) := by
      rw [show ['0'] = zeros 1 from rfl, digitsValue_append_zeros, digitsValue_append_zeros,
        Nat.mul_assoc, ← pow_add]
    rw [text, parts, magnitudeValue_pointed (allDigits_append digits (allDigits_zeros _)) zero
      (Or.inl rfl), value]
    push_cast
    rw [mul_assoc, ← zpow_natCast, ← zpow_add₀ ten]
    congr 2
    simp only [exponentValue, List.length_cons, List.length_nil]
    omega
  · have whole : AllDigits (ds.take (lead.toNat + 1)) :=
      fun c hc => digits c (List.mem_of_mem_take hc)
    have fraction : AllDigits (ds.drop (lead.toNat + 1)) :=
      fun c hc => digits c (List.mem_of_mem_drop hc)
    have parts : ds.take (lead.toNat + 1) ++ '.' :: ds.drop (lead.toNat + 1) =
        ds.take (lead.toNat + 1) ++ '.' :: ds.drop (lead.toNat + 1) ++ [] := by simp
    rw [text, parts, magnitudeValue_pointed whole fraction (Or.inl rfl), List.take_append_drop]
    congr 2
    simp only [exponentValue, List.length_drop]
    omega
  · have digit : c.isDigit = true := digits c List.mem_cons_self
    rw [text, magnitudeValue_single digit exponent, exponentValue_exponentText]
    congr 2
    simp
  · have whole : AllDigits [c] := by
      intro x hx
      exact digits x (List.mem_singleton.mp hx ▸ List.mem_cons_self)
    have fraction : AllDigits rest := fun x hx => digits x (List.mem_cons_of_mem c hx)
    have parts : c :: '.' :: rest ++ exponentText lead =
        [c] ++ '.' :: rest ++ exponentText lead := rfl
    rw [text, parts, magnitudeValue_pointed whole fraction (Or.inr exponent),
      exponentValue_exponentText]
    congr 2
    simp only [List.length_cons]
    omega

/-- The first character of written digits is a digit. -/
theorem layOut_head (digits : AllDigits ds) (nonempty : ds ≠ []) :
    ∃ c rest, layOut ds lead = c :: rest ∧ c.isDigit = true := by
  obtain ⟨d, more, rfl⟩ := List.exists_cons_of_ne_nil nonempty
  have first : d.isDigit = true := digits d List.mem_cons_self
  rcases @layOut_cases (d :: more) lead nonempty with ⟨-, text⟩ | ⟨-, -, text⟩ | ⟨-, -, text⟩ |
    ⟨c, e, text⟩ | ⟨c, rest, e, text⟩
  · exact ⟨_, _, text, by decide⟩
  · exact ⟨_, _, text, first⟩
  · exact ⟨_, _, text, first⟩
  · cases e
    exact ⟨_, _, text, first⟩
  · cases e
    exact ⟨_, _, text, first⟩

/-- Characters of written numbers. -/
def isNumeric (c : Char) : Bool := c.isDigit || c == '-' || c == '+' || c == '.' || c == 'e'

theorem isNumeric_of_isDigit {c : Char} (h : c.isDigit = true) : isNumeric c = true := by
  simp [isNumeric, h]

theorem isNumeric_exponentText (e : ℤ) : ∀ c ∈ exponentText e, isNumeric c = true := by
  have digits : ∀ c ∈ Nat.toDigits 10 e.natAbs, isNumeric c = true :=
    fun c hc => isNumeric_of_isDigit (allDigits_toDigits _ c hc)
  intro c hc
  rw [exponentText] at hc
  rcases List.mem_cons.mp hc with rfl | hc
  · decide
  rcases List.mem_cons.mp hc with rfl | hc
  · split <;> decide
  · exact digits c hc

/-- Digits are laid out in numeric characters, a point or an exponent mark among them. -/
theorem isNumeric_layOut (digits : AllDigits ds) (nonempty : ds ≠ []) :
    (∀ c ∈ layOut ds lead, isNumeric c = true) ∧ ('.' ∈ layOut ds lead ∨ 'e' ∈ layOut ds lead) := by
  have point : isNumeric '.' = true := by decide
  have plain : ∀ {cs : List Char}, AllDigits cs → ∀ c ∈ cs, isNumeric c = true :=
    fun h c hc => isNumeric_of_isDigit (h c hc)
  have exponent := isNumeric_exponentText lead
  rcases @layOut_cases ds lead nonempty with ⟨-, text⟩ | ⟨-, -, text⟩ | ⟨-, -, text⟩ |
    ⟨c, rfl, text⟩ | ⟨c, rest, rfl, text⟩ <;> rw [text]
  · refine ⟨?_, Or.inl (by simp)⟩
    simp only [List.cons_append, List.mem_cons, List.mem_append]
    rintro x (rfl | rfl | hx | hx)
    · decide
    · exact point
    · exact plain (allDigits_zeros _) x hx
    · exact plain digits x hx
  · refine ⟨?_, Or.inl (by simp)⟩
    simp only [List.mem_append, List.mem_cons, List.not_mem_nil, or_false]
    rintro x ((hx | hx) | rfl | rfl)
    · exact plain digits x hx
    · exact plain (allDigits_zeros _) x hx
    · exact point
    · decide
  · refine ⟨?_, Or.inl (by simp)⟩
    simp only [List.mem_append, List.mem_cons]
    rintro x (hx | rfl | hx)
    · exact plain digits x (List.mem_of_mem_take hx)
    · exact point
    · exact plain digits x (List.mem_of_mem_drop hx)
  · refine ⟨?_, Or.inr (List.mem_cons_of_mem c List.mem_cons_self)⟩
    intro x hx
    rcases List.mem_cons.mp hx with rfl | hx
    · exact plain digits x List.mem_cons_self
    · exact exponent x hx
  · refine ⟨?_, Or.inl (by simp)⟩
    simp only [List.cons_append, List.mem_cons, List.mem_append]
    rintro x (rfl | rfl | hx | hx)
    · exact plain digits x List.mem_cons_self
    · exact point
    · exact plain digits x (List.mem_cons_of_mem c hx)
    · exact exponent x hx

end Layout

section Text

variable {d d' : Binary64}

/-- The digits of a decimal without the zeros at the end. -/
def Decimal.significant (s : Decimal) : List Char :=
  ((Nat.toDigits 10 s.digits).reverse.dropWhile (· == '0')).reverse

theorem Decimal.digits_eq (s : Decimal) :
    ∃ n, Nat.toDigits 10 s.digits = s.significant ++ zeros n := by
  let back := (Nat.toDigits 10 s.digits).reverse
  have dropped : ∀ c ∈ back.takeWhile (· == '0'), c = '0' := by
    intro c hc
    simpa using List.all_eq_true.mp List.all_takeWhile c hc
  refine ⟨(back.takeWhile (· == '0')).length, ?_⟩
  have split : back.takeWhile (· == '0') ++ back.dropWhile (· == '0') = back :=
    List.takeWhile_append_dropWhile
  have both := congrArg List.reverse split
  rw [List.reverse_append, List.eq_replicate_of_mem dropped, List.reverse_replicate,
    List.reverse_reverse] at both
  exact both.symm

theorem Decimal.allDigits_significant (s : Decimal) : AllDigits s.significant := by
  obtain ⟨n, h⟩ := s.digits_eq
  intro c hc
  exact allDigits_toDigits s.digits c (h ▸ List.mem_append_left _ hc)

theorem digits_shortest_pos (nonzero : d.mantissa ≠ 0) : 0 < d.shortest.digits := by
  have low : (0 : ℚ) < d.interval.low * (2 : ℚ) ^ d.interval.unit := by
    have positive : (0 : ℚ) < d.interval.low := by exact_mod_cast interval_low_pos nonzero
    positivity
  have value : 0 < d.shortest.value := lt_of_lt_of_le low (holds_shortest nonzero).le.1
  by_contra zero
  have zero : d.shortest.digits = 0 := Nat.eq_zero_of_not_pos zero
  rw [Decimal.value, zero, Nat.cast_zero, zero_mul] at value
  exact lt_irrefl _ value

theorem significant_ne_nil (nonzero : d.mantissa ≠ 0) : d.shortest.significant ≠ [] := by
  intro empty
  obtain ⟨n, h⟩ := d.shortest.digits_eq
  have value := congrArg digitsValue h
  rw [digitsValue_toDigits, empty, digitsValue_append_zeros] at value
  have positive := digits_shortest_pos nonzero
  rw [value] at positive
  simp [digitsValue] at positive

theorem magnitudeText_eq (nonzero : d.mantissa ≠ 0) : d.magnitudeText =
    layOut d.shortest.significant
      (d.shortest.place + (Nat.toDigits 10 d.shortest.digits).length - 1) := by
  have zero : d.isZero = false := by simpa [isZero] using nonzero
  rw [magnitudeText, zero]
  rfl

/-- The text of a number has the value of its shortest decimal. -/
theorem magnitudeValue_text (nonzero : d.mantissa ≠ 0) :
    magnitudeValue d.magnitudeText = d.shortest.value := by
  obtain ⟨n, h⟩ := d.shortest.digits_eq
  have value := congrArg digitsValue h
  rw [digitsValue_toDigits, digitsValue_append_zeros] at value
  have length : (Nat.toDigits 10 d.shortest.digits).length = d.shortest.significant.length + n := by
    rw [h, List.length_append, zeros, List.length_replicate]
  rw [magnitudeText_eq nonzero, magnitudeValue_layOut d.shortest.allDigits_significant
    (significant_ne_nil nonzero), Decimal.value, length]
  conv => rhs; rw [value]
  push_cast
  rw [mul_assoc, ← zpow_natCast, ← zpow_add₀ (by norm_num)]
  congr 2
  omega

theorem magnitudeText_of_zero (zero : d.mantissa = 0) : d.magnitudeText = ['0', '.', '0'] := by
  have zero : d.isZero = true := by simpa [isZero] using zero
  rw [magnitudeText, zero]
  rfl

/-- Numbers that are written alike have the same mantissa and exponent. -/
theorem parts_eq_of_magnitudeText (h : d.magnitudeText = d'.magnitudeText) :
    d.mantissa = d'.mantissa ∧ d.exponent = d'.exponent := by
  have nothing : magnitudeValue ['0', '.', '0'] = 0 := by
    have digits : AllDigits ['0'] := allDigits_zeros 1
    have parts : ['0', '.', '0'] = ['0'] ++ '.' :: ['0'] ++ [] := rfl
    rw [parts, magnitudeValue_pointed digits digits (Or.inl rfl)]
    simp [digitsValue, Nat.ofDigitChars]
  have something : ∀ {d : Binary64}, d.mantissa ≠ 0 → magnitudeValue d.magnitudeText ≠ 0 := by
    intro d nonzero
    have positive : (0 : ℚ) < d.shortest.digits := by exact_mod_cast digits_shortest_pos nonzero
    rw [magnitudeValue_text nonzero, Decimal.value]
    positivity
  by_cases zero : d.mantissa = 0
  · by_cases zero' : d'.mantissa = 0
    · have exponent : ∀ {d : Binary64}, d.mantissa = 0 → d.exponent = 0 := by
        intro d zero
        rcases d.canonical with ⟨-, exponent⟩ | ⟨positive, -⟩
        · exact exponent
        · omega
      exact ⟨zero.trans zero'.symm, (exponent zero).trans (exponent zero').symm⟩
    · rw [magnitudeText_of_zero zero] at h
      exact (something zero' (h ▸ nothing)).elim
  · by_cases zero' : d'.mantissa = 0
    · rw [magnitudeText_of_zero zero'] at h
      exact (something zero (h ▸ nothing)).elim
    · have value := congrArg magnitudeValue h
      rw [magnitudeValue_text zero, magnitudeValue_text zero'] at value
      exact parts_eq_of_holds zero zero' (holds_shortest zero) (value ▸ holds_shortest zero')

theorem magnitudeText_head (d : Binary64) :
    ∃ c rest, d.magnitudeText = c :: rest ∧ c.isDigit = true := by
  by_cases zero : d.mantissa = 0
  · exact ⟨_, _, magnitudeText_of_zero zero, by decide⟩
  · rw [magnitudeText_eq zero]
    exact layOut_head d.shortest.allDigits_significant (significant_ne_nil zero)

/-- Different numbers have different texts. -/
theorem text_injective (h : d.text = d'.text) : d = d' := by
  obtain ⟨c, rest, head, digit⟩ := d.magnitudeText_head
  obtain ⟨c', rest', head', digit'⟩ := d'.magnitudeText_head
  have unsigned : ∀ {c : Char}, c.isDigit = true → c ≠ '-' := by
    rintro c hc rfl
    cases hc
  have same : d.negative = d'.negative ∧ d.magnitudeText = d'.magnitudeText := by
    rw [text, text] at h
    cases sign : d.negative with
    | true =>
      cases sign' : d'.negative with
      | true =>
        rw [sign, sign'] at h
        exact ⟨rfl, (List.cons.inj h).2⟩
      | false =>
        rw [sign, sign', head'] at h
        exact (unsigned digit' (List.cons.inj h).1.symm).elim
    | false =>
      cases sign' : d'.negative with
      | true =>
        rw [sign, sign', head] at h
        exact (unsigned digit (List.cons.inj h).1).elim
      | false =>
        rw [sign, sign'] at h
        exact ⟨rfl, h⟩
  obtain ⟨mantissa, exponent⟩ := parts_eq_of_magnitudeText same.2
  obtain ⟨negative, m, e, canonical⟩ := d
  obtain ⟨negative', m', e', canonical'⟩ := d'
  cases same.1
  cases mantissa
  cases exponent
  rfl

/-- A number is written in numeric characters, a point or an exponent mark among them. -/
theorem isNumeric_text (d : Binary64) :
    (∀ c ∈ d.text, isNumeric c = true) ∧ ('.' ∈ d.text ∨ 'e' ∈ d.text) := by
  have magnitude : (∀ c ∈ d.magnitudeText, isNumeric c = true) ∧
      ('.' ∈ d.magnitudeText ∨ 'e' ∈ d.magnitudeText) := by
    by_cases zero : d.mantissa = 0
    · rw [magnitudeText_of_zero zero]
      simp [isNumeric]
    · rw [magnitudeText_eq zero]
      exact isNumeric_layOut d.shortest.allDigits_significant (significant_ne_nil zero)
  rw [text]
  split
  · refine ⟨?_, magnitude.2.imp (List.mem_cons_of_mem _) (List.mem_cons_of_mem _)⟩
    intro c hc
    rcases List.mem_cons.mp hc with rfl | hc
    · decide
    · exact magnitude.1 c hc
  · exact magnitude

end Text

end ListRepeater.Binary64
