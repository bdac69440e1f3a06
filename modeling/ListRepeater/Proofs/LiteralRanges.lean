import ListRepeater.Proofs.ByteScan
/-!
# The bytes of quoted literals

The scan for literals walks over characters and tells ranges of bytes; the scan for the end of a
segment walks over bytes, counts braces and stops early. In the expression of a segment the first
one reports closed literals only, and they hold exactly the bytes that the second one takes for a
part of a literal, the marks included.
-/
namespace ListRepeater.Binding

open Text

/-- The ranges of bytes, from the opening mark up to behind the closing one, of the quoted literals
of a text that starts at `pos`. -/
def literalRangesFrom (pos : Nat) (opened : Option (Nat × Char)) (escaped : Bool) :
    List Char → List (Nat × Nat)
  | [] =>
    match opened with
    | some (start, _) => [(start, pos)]
    | none => []
  | c :: rest =>
    let next := pos + c.utf8Size
    match opened with
    | some (start, mark) =>
      if escaped then literalRangesFrom next opened false rest
      else if c = '\\' then literalRangesFrom next opened true rest
      else if c = mark then (start, pos + 1) :: literalRangesFrom next none false rest
      else literalRangesFrom next opened false rest
    | none =>
      if isQuote c then literalRangesFrom next (some (pos, c)) false rest
      else literalRangesFrom next none false rest

def literalRanges (expr : String) : List (Nat × Nat) := literalRangesFrom 0 none false expr.toList

/-- What the scan for the end of a segment knows behind so many bytes. -/
def scanAt (text : String) (i : Nat) : ByteScan :=
  ((bytes text).take i).foldl ByteScan.next .start

/-- The scan takes the byte for a part of a literal: it is in one before the byte or, where the byte
opens one, behind it. -/
def QuotedAt (text : String) (i : Nat) : Prop :=
  (scanAt text i).literal.isSome = true ∨ (scanAt text (i + 1)).literal.isSome = true

/-- The byte positions of ranges of characters. -/
def rangesAt (cs : List Char) (ranges : List (Nat × Nat)) : List (Nat × Nat) :=
  ranges.map fun r => (byteAt cs r.1, byteAt cs r.2)

section Ranges

variable {whole cs : List Char} {i k : Nat}

/-- The ranges of bytes are those of the characters. -/
theorem literalRangesFrom_drop (opened : Option (Nat × Char))
    (marks : ∀ o ∈ opened, isQuote o.2 = true) (escaped : Bool) (k : Nat) (cs : List Char)
    (behind : whole.drop k = cs) :
    literalRangesFrom (byteAt whole k) (opened.map fun o => (byteAt whole o.1, o.2)) escaped cs =
      rangesAt whole (literals k opened escaped cs) := by
  induction cs generalizing opened escaped k with
  | nil => cases opened <;> rfl
  | cons c cs ih =>
    have here : whole[k]? = some c := by
      rw [← List.head?_drop, behind, List.head?_cons]
    have later : whole.drop (k + 1) = cs := by
      rw [← List.tail_drop, behind, List.tail_cons]
    have outside : literalRangesFrom (byteAt whole (k + 1)) none false cs =
        rangesAt whole (literals (k + 1) none false cs) :=
      ih none (fun _ h => nomatch h) false (k + 1) later
    have next := byteAt_succ here
    cases opened with
    | some o =>
      obtain ⟨start, mark⟩ := o
      have inside := fun escaped => ih (some (start, mark)) marks escaped (k + 1) later
      simp only [literalRangesFrom, literals, Option.map_some, ← next]
      simp only [Option.map_some] at inside
      cases escaped with
      | true => exact inside false
      | false =>
        simp only [Bool.false_eq_true, if_false]
        by_cases backslash : c = '\\'
        · rw [if_pos backslash, if_pos backslash]
          exact inside true
        by_cases close : c = mark
        · have one := utf8Size_of_small (toNat_lt_of_isQuote (marks (start, mark) rfl))
          rw [← close] at one
          rw [if_neg backslash, if_neg backslash, if_pos close, if_pos close, outside,
            rangesAt, rangesAt, List.map_cons, next, one]
        · rw [if_neg backslash, if_neg backslash, if_neg close, if_neg close]
          exact inside false
    | none =>
      simp only [literalRangesFrom, literals, Option.map_none, ← next]
      by_cases quote : isQuote c = true
      · rw [if_pos quote, if_pos quote]
        refine ih (some (k, c)) ?_ false (k + 1) later
        rintro _ ⟨⟩
        exact quote
      · rw [if_neg quote, if_neg quote]
        exact outside

theorem literalRanges_ofList (cs : List Char) :
    literalRanges (String.ofList cs) = rangesAt cs (literals 0 none false cs) := by
  rw [literalRanges, String.toList_ofList]
  exact literalRangesFrom_drop none (fun _ h => nomatch h) false 0 cs rfl

/-- A byte is in one of the ranges if its character is. -/
theorem inside_rangesAt (starts : byteAt cs k ≤ i) (stops : i < byteAt cs (k + 1))
    (ranges : List (Nat × Nat)) : inside i (rangesAt cs ranges) = inside k ranges := by
  rw [inside, inside, rangesAt, List.any_map]
  refine congrArg (ranges.any ·) (funext fun r => ?_)
  simp only [Function.comp_apply, byteAt_le_iff starts stops, ← Nat.not_le]

end Ranges

section Closed

variable {mark : UInt8} {bs more : List UInt8} {m m' : Char × Bool} {c : Char}

theorem OpenLiteral.append_large (small : mark.toNat < 128) (own : OpenLiteral mark false bs)
    (large : ∀ b ∈ more, 128 ≤ b.toNat) : OpenLiteral mark false (bs ++ more) := by
  induction more generalizing bs with
  | nil => rwa [List.append_nil]
  | cons b more ih =>
    obtain ⟨first, rest⟩ := List.forall_mem_cons.mp large
    have backslash : b ≠ '\\'.toUInt8 := by
      rintro rfl
      exact absurd first (by decide)
    have close : b ≠ mark := by
      rintro rfl
      omega
    rw [List.append_cons]
    exact ih (own.byte backslash close) rest

/-- A character that leaves a literal open leaves its bytes open. -/
theorem OpenLiteral.append_utf8EncodeChar (quote : isQuote m.1 = true)
    (own : OpenLiteral m.1.toUInt8 m.2 bs) (next : nextLiteral (some m) c = some m') :
    OpenLiteral m'.1.toUInt8 m'.2 (bs ++ String.utf8EncodeChar c) := by
  obtain ⟨mark, escaped⟩ := m
  have small := toNat_lt_of_isQuote quote
  have byte : mark.toUInt8.toNat < 128 := (toNat_toUInt8 small).symm ▸ small
  rcases utf8EncodeChar_cases c with ⟨own', encoded⟩ | ⟨other, large⟩
  · rw [encoded]
    cases escaped with
    | true =>
      obtain rfl := Option.some.inj next
      exact own.escaped c.toUInt8
    | false =>
      simp only [nextLiteral] at next
      split at next
      · next backslash =>
        obtain rfl := Option.some.inj next
        rw [backslash]
        exact own.backslash
      · next backslash =>
        split at next
        · cases next
        · next close =>
          obtain rfl := Option.some.inj next
          exact own.byte (backslash ∘ (toUInt8_eq_iff own' (by decide)).mp)
            (close ∘ (toUInt8_eq_iff own' small).mp)
  · rw [nextLiteral_large (marked_some_iff.mpr quote) other] at next
    obtain rfl := Option.some.inj next
    cases escaped with
    | true =>
      obtain ⟨b, rest, encoded⟩ := exists_utf8EncodeChar c
      rw [encoded] at large ⊢
      rw [List.append_cons]
      exact (own.escaped b).append_large byte (List.forall_mem_cons.mp large).2
    | false => exact own.append_large byte large

/-- If a text ends outside of quotes, its literals are closed. `before` is what stands before the
text, and a literal that is open in front of the text began in it. -/
theorem closed_of_mem_literalsIn (start : Nat) {l : Option (Char × Bool)} (before cs : List Char)
    (opened : ∀ m ∈ l, isQuote m.1 = true ∧ ∃ front lit, before = front ++ lit ∧
      front.length = start ∧ OpenLiteral m.1.toUInt8 m.2 (lit.flatMap String.utf8EncodeChar))
    (ends : cs.foldl nextLiteral l = none) :
    ∀ r ∈ literalsIn start before.length l cs, ∃ front lit back,
      before ++ cs = front ++ lit ++ back ∧ front.length = r.1 ∧ (front ++ lit).length = r.2 ∧
        ClosedLiteral (lit.flatMap String.utf8EncodeChar) := by
  induction cs generalizing start l before with
  | nil =>
    obtain rfl : l = none := ends
    exact fun _ h => nomatch h
  | cons c cs ih =>
    rw [List.foldl_cons] at ends
    have shift : (before ++ [c]).length = before.length + 1 := by simp
    have text : before ++ c :: cs = before ++ [c] ++ cs := by simp
    rw [text]
    cases l with
    | none =>
      rw [literalsIn_none, ← shift]
      refine ih before.length (before ++ [c]) (fun m hm => ?_) ends
      obtain ⟨quote, own⟩ := Option.mem_ite_none_right.mp hm
      obtain rfl := Option.some.inj own
      refine ⟨quote, before, [c], rfl, rfl, ?_⟩
      rw [List.flatMap_singleton, utf8EncodeChar_of_small (toNat_lt_of_isQuote quote)]
      exact .mark
    | some m =>
      obtain ⟨quote, front, lit, rfl, rfl, own⟩ := opened m rfl
      cases next : nextLiteral (some m) c with
      | some m' =>
        rw [literalsIn_inside next, ← shift]
        refine ih front.length _ ?_ (next ▸ ends)
        rintro _ ⟨⟩
        have marked := (marked_some_iff.mpr quote).nextLiteral c
        refine ⟨marked m' next, front, lit ++ [c], List.append_assoc _ _ _, rfl, ?_⟩
        rw [List.flatMap_append, List.flatMap_singleton]
        exact own.append_utf8EncodeChar quote next
      | none =>
        rw [literalsIn_closed next, ← shift]
        refine List.forall_mem_cons.mpr ⟨?_, ih _ _ (by rintro _ ⟨⟩) (next ▸ ends)⟩
        refine ⟨front, lit ++ [c], cs, by simp, rfl, by simp, ?_⟩
        obtain ⟨rfl, -⟩ := eq_of_nextLiteral_none next
        have small := toNat_lt_of_isQuote quote
        rw [List.flatMap_append, List.flatMap_singleton, utf8EncodeChar_of_small small]
        exact .close ((isQuoteByte_toUInt8 small).trans quote) own

end Closed

section Quoted

variable {cs : List Char} {i j k n : Nat} {c : Char}

/-- What the scan knows inside of a character. -/
theorem scanAt_add (here : cs[k]? = some c) (h : j ≤ c.utf8Size) :
    scanAt (String.ofList cs) (byteAt cs k + j) =
      ((String.utf8EncodeChar c).take j).foldl ByteScan.next
        (scanAt (String.ofList cs) (byteAt cs k)) := by
  rw [scanAt, scanAt, bytes_ofList, take_byteAt_add here h, take_byteAt, List.foldl_append]

theorem scanAt_byteAt (cs : List Char) (k : Nat) : ∃ depth,
    scanAt (String.ofList cs) (byteAt cs k) =
      .ofChars depth ((cs.take k).foldl nextLiteral none) := by
  rw [scanAt, bytes_ofList, take_byteAt]
  exact ByteScan.foldl_flatMap (cs.take k)

theorem isSome_foldl_large {depth : Nat} {l : Option (Char × Bool)} {bs : List UInt8}
    (marked : Marked l) (large : ∀ b ∈ bs, 128 ≤ b.toNat) :
    (bs.foldl ByteScan.next (.ofChars depth l)).literal.isSome = l.isSome := by
  cases bs with
  | nil => simp [ByteScan.ofChars]
  | cons b bs =>
    rw [ByteScan.foldl_large marked large]
    simp [ByteScan.ofChars]

/-- The bytes of a character are quoted if the character is. -/
theorem quotedAt_iff (here : cs[k]? = some c) (starts : byteAt cs k ≤ i)
    (stops : i < byteAt cs (k + 1)) :
    QuotedAt (String.ofList cs) i ↔
      ((cs.take k).foldl nextLiteral none).isSome = true ∨
        (nextLiteral ((cs.take k).foldl nextLiteral none) c).isSome = true := by
  obtain ⟨j, rfl⟩ := Nat.exists_eq_add_of_le starts
  have size := byteAt_succ here
  have marked := marked_foldl (cs.take k)
  obtain ⟨depth, before⟩ := scanAt_byteAt cs k
  rw [QuotedAt, Nat.add_assoc, scanAt_add here (by omega), scanAt_add here (by omega), before]
  generalize (cs.take k).foldl nextLiteral none = l at marked ⊢
  rcases utf8EncodeChar_cases c with ⟨small, encoded⟩ | ⟨other, large⟩
  · have one := utf8Size_of_small small
    obtain rfl : j = 0 := by omega
    have whole : (String.utf8EncodeChar c).take (0 + 1) = String.utf8EncodeChar c := by
      rw [encoded]
      rfl
    rw [whole, ByteScan.foldl_utf8EncodeChar marked]
    simp [ByteScan.ofChars]
  · have within : ∀ j, (((String.utf8EncodeChar c).take j).foldl ByteScan.next
        (.ofChars depth l)).literal.isSome = l.isSome :=
      fun j => isSome_foldl_large marked fun b hb => large b (List.mem_of_mem_take hb)
    rw [within, within, nextLiteral_large marked other, Option.isSome_map]

end Quoted

section Agreement

variable {cs body : List Char} {i k : Nat} {c : Char}

/-- The scan for the end of a segment ends outside of quotes. -/
theorem foldl_of_closed (closed : bodyLength 0 none false cs = some k) :
    (cs.take k).foldl nextLiteral none = none := by
  have ends : segmentLength? (String.ofList cs) = some (byteAt cs k) := by
    rw [segmentLength?_ofList, closed, Option.map_some]
  have before := ByteScan.foldl_outside ((segmentLength?_eq_some_iff _ _).mp ends).1.before
  obtain ⟨depth, run⟩ := scanAt_byteAt cs k
  have literal := congrArg ByteScan.literal (run.symm.trans before)
  exact Option.map_eq_none_iff.mp literal

theorem closed_of_mem_literalRanges (ends : body.foldl nextLiteral none = none) :
    ∀ r ∈ literalRanges (String.ofList body), ∃ lit,
      slice? (String.ofList body) r.1 r.2 = some lit ∧ ClosedLiteral (bytes lit) := by
  intro r hr
  rw [literalRanges_ofList] at hr
  obtain ⟨range, member, rfl⟩ := List.mem_map.mp hr
  obtain ⟨front, lit, back, text, starts, stops, own⟩ :=
    closed_of_mem_literalsIn 0 [] body (by rintro _ ⟨⟩) ends range member
  rw [List.nil_append] at text
  have order : range.1 ≤ range.2 := by
    rw [← starts, ← stops, List.length_append]
    exact Nat.le_add_right _ _
  have piece : (body.take range.2).drop range.1 = lit := by
    rw [text, ← starts, ← stops, List.take_left, List.drop_left]
  refine ⟨String.ofList lit, ?_, by rwa [bytes_ofList]⟩
  rw [slice?_byteAt body order, piece]

theorem inside_literals_getElem (here : body[k]? = some c) :
    inside k (literals 0 none false body) = (((body.take k).foldl nextLiteral none).isSome ||
      (nextLiteral ((body.take k).foldl nextLiteral none) c).isSome) := by
  have size : (body.take k).length = k :=
    List.length_take_of_le (Nat.le_of_lt (List.getElem?_eq_some_iff.mp here).1)
  have whole := inside_literals (c := c) (body.take k) (body.drop (k + 1))
  rwa [size, take_append_cons_drop here] at whole

theorem exists_mem_iff_inside {ranges : List (Nat × Nat)} :
    (∃ r ∈ ranges, r.1 ≤ i ∧ i < r.2) ↔ inside i ranges = true := by
  simp [inside]

/-- In the expression of a segment, the literals are closed and hold the bytes that the scan for its
end takes for quoted. -/
theorem literals_of_segment {text : String} {n : Nat} (closed : segmentLength? text = some n) :
    ∃ expr, slice? text 0 n = some expr ∧
      (∀ r ∈ literalRanges expr, ∃ lit,
        slice? expr r.1 r.2 = some lit ∧ ClosedLiteral (bytes lit)) ∧
      ∀ i < n, (∃ r ∈ literalRanges expr, r.1 ≤ i ∧ i < r.2) ↔ QuotedAt text i := by
  obtain ⟨cs, rfl⟩ : ∃ cs, text = String.ofList cs := ⟨text.toList, String.ofList_toList.symm⟩
  rw [segmentLength?_ofList] at closed
  obtain ⟨k, ends, rfl⟩ := Option.map_eq_some_iff.mp closed
  refine ⟨String.ofList (cs.take k), slice?_byteAt cs (Nat.zero_le k),
    closed_of_mem_literalRanges (foldl_of_closed ends), fun i hi => ?_⟩
  obtain ⟨m, c, lt, here, starts, stops⟩ := exists_byteAt hi
  have own : (cs.take k)[m]? = some c := (List.getElem?_take_of_lt lt).trans here
  have front : (cs.take k).take m = cs.take m := by
    rw [List.take_take, Nat.min_eq_left (Nat.le_of_lt lt)]
  have starts' : byteAt (cs.take k) m ≤ i := by rwa [byteAt_take cs (Nat.le_of_lt lt)]
  have stops' : i < byteAt (cs.take k) (m + 1) := by rwa [byteAt_take cs (Nat.succ_le_of_lt lt)]
  rw [exists_mem_iff_inside, literalRanges_ofList, inside_rangesAt starts' stops',
    inside_literals_getElem own, front, Bool.or_eq_true, quotedAt_iff here starts stops]

end Agreement

end ListRepeater.Binding
