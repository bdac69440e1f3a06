import ListRepeater.Proofs.ByteSlices
import ListRepeater.Proofs.EditedSegments
/-!
# The end of a segment in bytes

The scan for the end of a segment can walk over the bytes of a text instead of its characters: all
marks that it looks for are characters of one byte, and no other character has such a byte in it.
It finds the first byte that closes the segment, a closing brace with another one behind it, outside
of quotes and of all braces. Which bytes these are is told by the form of the text before them,
without the scan. In characters it is the same place that `bodyLength` finds.
-/
namespace ListRepeater.Binding

open Text

section Form

variable {bs lit front : List UInt8} {b mark : UInt8} {depth : Nat} {escaped : Bool}

def isQuoteByte (b : UInt8) : Bool :=
  b == '"'.toUInt8 || b == '\x27'.toUInt8 || b == '\x60'.toUInt8

/-- The bytes of a literal from its opening mark on, with no closing mark in them. `escaped` tells
that they end with a backslash that takes the next byte along. -/
inductive OpenLiteral (mark : UInt8) : Bool → List UInt8 → Prop
  | mark : OpenLiteral mark false [mark]
  | byte {lit : List UInt8} {b : UInt8} (front : OpenLiteral mark false lit)
      (backslash : b ≠ '\\'.toUInt8) (close : b ≠ mark) : OpenLiteral mark false (lit ++ [b])
  | backslash {lit : List UInt8} (front : OpenLiteral mark false lit) :
      OpenLiteral mark true (lit ++ ['\\'.toUInt8])
  | escaped {lit : List UInt8} (front : OpenLiteral mark true lit) (b : UInt8) :
      OpenLiteral mark false (lit ++ [b])

/-- A whole literal, from its opening to its closing mark. -/
inductive ClosedLiteral : List UInt8 → Prop
  | close {mark : UInt8} {lit : List UInt8} (quote : isQuoteByte mark = true)
      (front : OpenLiteral mark false lit) : ClosedLiteral (lit ++ [mark])

/-- The bytes end outside of quotes, with so many braces open. -/
inductive Outside : Nat → List UInt8 → Prop
  | nil : Outside 0 []
  | byte {depth : Nat} {bs : List UInt8} {b : UInt8} (front : Outside depth bs)
      (unquoted : isQuoteByte b = false) (left : b ≠ '{'.toUInt8) (right : b ≠ '}'.toUInt8) :
      Outside depth (bs ++ [b])
  | literal {depth : Nat} {bs lit : List UInt8} (front : Outside depth bs)
      (own : ClosedLiteral lit) : Outside depth (bs ++ lit)
  | opening {depth : Nat} {bs : List UInt8} (front : Outside depth bs) :
      Outside (depth + 1) (bs ++ ['{'.toUInt8])
  | closing {depth : Nat} {bs : List UInt8} (front : Outside (depth + 1) bs) :
      Outside depth (bs ++ ['}'.toUInt8])
  /-- A brace that closes none. -/
  | lone {bs : List UInt8} (front : Outside 0 bs) : Outside 0 (bs ++ ['}'.toUInt8])

/-- A closing brace with another one behind it, outside of quotes and of all braces. -/
structure ClosesAt (bs : List UInt8) (n : Nat) : Prop where
  before : Outside 0 (bs.take n)
  own : bs[n]? = some '}'.toUInt8
  next : bs[n + 1]? = some '}'.toUInt8

end Form

section Marks

variable {depth : Nat} {l : Option (Char × Bool)} {c : Char}

theorem toNat_lt_of_isQuote (quote : isQuote c = true) : c.toNat < 128 := by
  simp only [isQuote, Bool.or_eq_true, beq_iff_eq] at quote
  rcases quote with (rfl | rfl) | rfl <;> decide

theorem isQuoteByte_toUInt8 (small : c.toNat < 128) : isQuoteByte c.toUInt8 = isQuote c := by
  have same : ∀ d : Char, d.toNat < 128 → (c.toUInt8 == d.toUInt8) = (c == d) := by
    intro d hd
    rw [Bool.eq_iff_iff, beq_iff_eq, beq_iff_eq, toUInt8_eq_iff small hd]
  rw [isQuoteByte, isQuote, same _ (by decide), same _ (by decide), same _ (by decide)]

/-- A literal that a scan is in was opened by a quote. -/
def Marked (l : Option (Char × Bool)) : Prop := ∀ m ∈ l, isQuote m.1 = true

theorem marked_none : Marked none := fun _ h => nomatch h

theorem marked_some_iff {m : Char × Bool} : Marked (some m) ↔ isQuote m.1 = true := by
  simp [Marked]

theorem Marked.nextLiteral (marked : Marked l) (c : Char) : Marked (nextLiteral l c) := by
  rcases l with - | ⟨mark, escaped⟩
  · by_cases quote : isQuote c = true
    · simp [Binding.nextLiteral, quote, marked_some_iff]
    · simp [Binding.nextLiteral, quote, marked_none]
  · have quote : isQuote mark = true := marked_some_iff.mp marked
    have still : ∀ escaped, Marked (some (mark, escaped)) := fun _ => marked_some_iff.mpr quote
    cases escaped with
    | true => exact still false
    | false =>
      simp only [Binding.nextLiteral]
      split
      · exact still true
      split
      · exact marked_none
      · exact marked

theorem marked_foldl (cs : List Char) : Marked (cs.foldl nextLiteral none) := by
  induction cs using List.reverseRecOn with
  | nil => exact marked_none
  | append_singleton cs c ih =>
    rw [List.foldl_append]
    exact ih.nextLiteral c

theorem nextLiteral_large (marked : Marked l) (large : 128 ≤ c.toNat) :
    nextLiteral l c = l.map fun m => (m.1, false) := by
  have apart : ∀ {d : Char}, d.toNat < 128 → c ≠ d := by
    rintro d small rfl
    omega
  have backslash : c ≠ '\\' := apart (by decide)
  rcases l with - | ⟨mark, - | -⟩
  · have quote : isQuote c = false := by
      by_contra quote
      have small := toNat_lt_of_isQuote (Bool.not_eq_false _ ▸ quote)
      omega
    simp [nextLiteral, quote]
  · have close := apart (toNat_lt_of_isQuote (marked_some_iff.mp marked))
    simp [nextLiteral, backslash, close]
  · simp [nextLiteral]

theorem nextDepth_large (large : 128 ≤ c.toNat) : nextDepth depth l c = depth := by
  have left : c ≠ '{' := by
    rintro rfl
    exact absurd large (by decide)
  have right : c ≠ '}' := by
    rintro rfl
    exact absurd large (by decide)
  simp [nextDepth, left, right]

end Marks

/-- What the scan for the end of a segment knows behind a byte: how many braces are open, and the
mark of the literal that it is in, with whether a backslash stands before the next byte. -/
structure ByteScan where
  depth : Nat
  literal : Option (UInt8 × Bool)

namespace ByteScan

def start : ByteScan := ⟨0, none⟩

def next (s : ByteScan) (b : UInt8) : ByteScan :=
  match s.literal with
  | some (mark, true) => ⟨s.depth, some (mark, false)⟩
  | some (mark, false) =>
    if b = '\\'.toUInt8 then ⟨s.depth, some (mark, true)⟩
    else if b = mark then ⟨s.depth, none⟩
    else s
  | none =>
    if isQuoteByte b then ⟨s.depth, some (b, false)⟩
    else if b = '{'.toUInt8 then ⟨s.depth + 1, none⟩
    else if b = '}'.toUInt8 ∧ 0 < s.depth then ⟨s.depth - 1, none⟩
    else s

/-- Whether the scan ends at a byte with these bytes behind it. -/
def ends (s : ByteScan) (b : UInt8) (rest : List UInt8) : Bool :=
  s.literal.isNone && s.depth == 0 && b == '}'.toUInt8 && rest.head? == some '}'.toUInt8

/-- The number of bytes that the scan goes over up to its end. -/
def length? (s : ByteScan) : List UInt8 → Option Nat
  | [] => none
  | b :: rest => if s.ends b rest then some 0 else ((s.next b).length? rest).map (· + 1)

end ByteScan

/-- The length in bytes of the expression at the front of a text, up to the two braces that close
its segment. -/
def segmentLength? (text : String) : Option Nat := ByteScan.start.length? (bytes text)

namespace ByteScan

section Bytes

variable {s : ByteScan} {bs : List UInt8} {n : Nat}

theorem ends_iff {b : UInt8} {rest : List UInt8} :
    s.ends b rest = true ↔ s = start ∧ b = '}'.toUInt8 ∧ rest.head? = some '}'.toUInt8 := by
  obtain ⟨depth, literal⟩ := s
  simp only [ends, start, Bool.and_eq_true, Option.isNone_iff_eq_none, beq_iff_eq, mk.injEq,
    and_assoc]
  exact and_left_comm

/-- What the form of the bytes tells of the scan behind them. -/
inductive Reached : ByteScan → List UInt8 → Prop
  | outside {depth : Nat} {bs : List UInt8} (front : Outside depth bs) : Reached ⟨depth, none⟩ bs
  | inside {depth : Nat} {mark : UInt8} {escaped : Bool} {bs lit : List UInt8}
      (front : Outside depth bs) (quote : isQuoteByte mark = true)
      (own : OpenLiteral mark escaped lit) : Reached ⟨depth, some (mark, escaped)⟩ (bs ++ lit)

theorem Reached.next (h : Reached s bs) (b : UInt8) : Reached (s.next b) (bs ++ [b]) := by
  cases h with
  | @outside depth bs front =>
    simp only [ByteScan.next]
    split
    · next quote => exact .inside front quote .mark
    split
    · next left =>
      subst left
      exact .outside front.opening
    split
    · next right =>
      obtain ⟨rfl, deep⟩ := right
      obtain ⟨d, rfl⟩ := Nat.exists_eq_succ_of_ne_zero (Nat.ne_of_gt deep)
      exact .outside front.closing
    · next unquoted left right =>
      by_cases brace : b = '}'.toUInt8
      · subst brace
        have flat : depth = 0 := by simpa using right
        subst flat
        exact .outside front.lone
      · exact .outside (front.byte (Bool.eq_false_iff.mpr unquoted) left brace)
  | @inside depth mark escaped bs lit front quote own =>
    rw [List.append_assoc]
    cases escaped with
    | true => exact .inside front quote (own.escaped b)
    | false =>
      simp only [ByteScan.next]
      split
      · next backslash =>
        subst backslash
        exact .inside front quote own.backslash
      split
      · next close =>
        subst close
        exact .outside (front.literal (.close quote own))
      · next backslash close => exact .inside front quote (own.byte backslash close)

theorem reached_run (bs : List UInt8) : Reached (bs.foldl ByteScan.next start) bs := by
  induction bs using List.reverseRecOn with
  | nil => exact .outside .nil
  | append_singleton bs b ih =>
    rw [List.foldl_append]
    exact ih.next b

theorem next_inside {depth : Nat} {mark b : UInt8} (backslash : b ≠ '\\'.toUInt8)
    (close : b ≠ mark) : next ⟨depth, some (mark, false)⟩ b = ⟨depth, some (mark, false)⟩ := by
  simp [next, backslash, close]

theorem foldl_openLiteral {depth : Nat} {mark : UInt8} {escaped : Bool} {lit : List UInt8}
    (quote : isQuoteByte mark = true) (own : OpenLiteral mark escaped lit) :
    lit.foldl next ⟨depth, none⟩ = ⟨depth, some (mark, escaped)⟩ := by
  induction own with
  | mark => simp [next, quote]
  | byte front backslash close ih =>
    rw [List.foldl_append, ih]
    exact next_inside backslash close
  | backslash front ih =>
    rw [List.foldl_append, ih]
    simp [next]
  | escaped front b ih =>
    rw [List.foldl_append, ih]
    rfl

theorem foldl_outside {depth : Nat} (h : Outside depth bs) :
    bs.foldl next start = ⟨depth, none⟩ := by
  have left : isQuoteByte '{'.toUInt8 = false := by decide
  have right : isQuoteByte '}'.toUInt8 = false := by decide
  have apart : '}'.toUInt8 ≠ '{'.toUInt8 := by decide
  induction h with
  | nil => rfl
  | byte front unquoted left right ih =>
    rw [List.foldl_append, ih]
    simp [next, unquoted, left, right]
  | literal front own ih =>
    cases own with
    | @close mark lit quote own =>
      have backslash : mark ≠ '\\'.toUInt8 := by
        rintro rfl
        cases quote
      rw [List.foldl_append, ih, List.foldl_append, foldl_openLiteral quote own]
      simp [next, backslash]
  | opening front ih =>
    rw [List.foldl_append, ih]
    simp [next, left]
  | closing front ih =>
    rw [List.foldl_append, ih]
    simp [next, right, apart]
  | lone front ih =>
    rw [List.foldl_append, ih]
    simp [next, right, apart]

/-- The scan tracks the form of the bytes. -/
theorem foldl_eq_iff_outside {depth : Nat} :
    bs.foldl next start = ⟨depth, none⟩ ↔ Outside depth bs := by
  refine ⟨fun run => ?_, foldl_outside⟩
  have reached := reached_run bs
  rw [run] at reached
  cases reached with
  | outside front => exact front

/-- Whether the scan, if it comes there, ends at the byte with this number. -/
def EndsAt (s : ByteScan) (bs : List UInt8) (n : Nat) : Prop :=
  (bs.take n).foldl next s = start ∧ bs[n]? = some '}'.toUInt8 ∧ bs[n + 1]? = some '}'.toUInt8

theorem endsAt_zero {s : ByteScan} {b : UInt8} {rest : List UInt8} :
    s.EndsAt (b :: rest) 0 ↔ s.ends b rest = true := by
  rw [ends_iff, EndsAt, List.head?_eq_getElem?]
  simp

theorem endsAt_succ {s : ByteScan} {b : UInt8} {rest : List UInt8} :
    s.EndsAt (b :: rest) (n + 1) ↔ (s.next b).EndsAt rest n := by
  simp [EndsAt]

/-- The scan ends at the first byte at which it can. -/
theorem length?_eq_some_iff {s : ByteScan} :
    s.length? bs = some n ↔ s.EndsAt bs n ∧ ∀ m < n, ¬s.EndsAt bs m := by
  induction bs generalizing s n with
  | nil => simp [length?, EndsAt]
  | cons b rest ih =>
    rw [length?]
    split
    · next ends =>
      have first := endsAt_zero.mpr ends
      constructor
      · rintro ⟨⟩
        exact ⟨first, fun m hm => absurd hm (Nat.not_lt_zero m)⟩
      · rintro ⟨-, least⟩
        cases n with
        | zero => rfl
        | succ n => exact absurd first (least 0 (Nat.zero_lt_succ n))
    · next goes =>
      have first : ¬s.EndsAt (b :: rest) 0 := fun here => goes (endsAt_zero.mp here)
      cases n with
      | zero => simp [first]
      | succ n =>
        have shift : (((s.next b).length? rest).map (· + 1) = some (n + 1)) ↔
            (s.next b).length? rest = some n := by simp
        rw [shift, ih, endsAt_succ]
        refine and_congr_right fun _ => ⟨fun least m hm => ?_, fun least m hm here => ?_⟩
        · cases m with
          | zero => exact first
          | succ m => exact fun here => least m (Nat.lt_of_succ_lt_succ hm) (endsAt_succ.mp here)
        · exact least (m + 1) (Nat.succ_lt_succ hm) (endsAt_succ.mpr here)

theorem endsAt_start_iff : start.EndsAt bs n ↔ ClosesAt bs n := by
  have before : (bs.take n).foldl next start = start ↔ Outside 0 (bs.take n) :=
    foldl_eq_iff_outside
  rw [EndsAt, before]
  exact ⟨fun h => ⟨h.1, h.2.1, h.2.2⟩, fun h => ⟨h.before, h.own, h.next⟩⟩

end Bytes

section Characters

/-- What the scan over bytes knows when the one over characters knows this. -/
def ofChars (depth : Nat) (l : Option (Char × Bool)) : ByteScan :=
  ⟨depth, l.map fun m => (m.1.toUInt8, m.2)⟩

variable {depth : Nat} {l : Option (Char × Bool)} {c : Char} {cs : List Char}

/-- A character of one byte is a step of both scans. -/
theorem next_toUInt8 (marked : Marked l) (small : c.toNat < 128) :
    (ofChars depth l).next c.toUInt8 = ofChars (nextDepth depth l c) (nextLiteral l c) := by
  have byte : ∀ {d : Char}, d.toNat < 128 → (c.toUInt8 = d.toUInt8 ↔ c = d) :=
    fun hd => toUInt8_eq_iff small hd
  have backslash := byte (d := '\\') (by decide)
  rcases l with - | ⟨mark, - | -⟩
  · have left := byte (d := '{') (by decide)
    have right := byte (d := '}') (by decide)
    have quote := isQuoteByte_toUInt8 small
    by_cases q : isQuote c = true
    · have left : c ≠ '{' := by rintro rfl; cases q
      have right : c ≠ '}' := by rintro rfl; cases q
      simp [ofChars, next, nextDepth, nextLiteral, quote, q, left, right]
    by_cases o : c = '{'
    · subst o
      simp [ofChars, next, nextDepth, nextLiteral, quote, q]
    by_cases r : c = '}'
    · subst r
      cases depth with
      | zero => simp [ofChars, next, nextDepth, nextLiteral, quote, q, left]
      | succ depth => simp [ofChars, next, nextDepth, nextLiteral, quote, q, left]
    · simp [ofChars, next, nextDepth, nextLiteral, quote, left, right, q, o, r]
  · have close := byte (toNat_lt_of_isQuote (marked_some_iff.mp marked))
    by_cases b : c = '\\'
    · simp [ofChars, next, nextDepth, nextLiteral, b]
    · by_cases m : c = mark
      · subst m
        simp [ofChars, next, nextDepth, nextLiteral, backslash, b]
      · simp [ofChars, next, nextDepth, nextLiteral, backslash, close, b, m]
  · simp [ofChars, next, nextDepth, nextLiteral]

/-- A byte of a character of several bytes takes a backslash before it away and is no mark. -/
theorem next_large (marked : Marked l) {b : UInt8} (large : 128 ≤ b.toNat) :
    (ofChars depth l).next b = ofChars depth (l.map fun m => (m.1, false)) := by
  have apart : ∀ {c : Char}, c.toNat < 128 → b ≠ c.toUInt8 := by
    rintro c small rfl
    rw [toNat_toUInt8 small] at large
    omega
  have backslash : b ≠ '\\'.toUInt8 := apart (by decide)
  rcases l with - | ⟨mark, - | -⟩
  · have left : b ≠ '{'.toUInt8 := apart (by decide)
    have right : b ≠ '}'.toUInt8 := apart (by decide)
    have quote : isQuoteByte b = false := by
      simp [isQuoteByte, apart (c := '"') (by decide), apart (c := '\x27') (by decide),
        apart (c := '\x60') (by decide)]
    simp [ofChars, next, quote, left, right]
  · have close := apart (toNat_lt_of_isQuote (marked_some_iff.mp marked))
    simp [ofChars, next, backslash, close]
  · simp [ofChars, next]

theorem foldl_large (marked : Marked l) {b : UInt8} {bs : List UInt8}
    (large : ∀ x ∈ b :: bs, 128 ≤ x.toNat) :
    (b :: bs).foldl next (ofChars depth l) = ofChars depth (l.map fun m => (m.1, false)) := by
  induction bs generalizing b l with
  | nil => exact next_large marked (large b List.mem_cons_self)
  | cons c bs ih =>
    obtain ⟨first, rest⟩ := List.forall_mem_cons.mp large
    have marked' : Marked (l.map fun m => (m.1, false)) := Option.forall_mem_map.mpr marked
    rw [List.foldl_cons, next_large marked first, ih marked' rest, Option.map_map]
    rfl

/-- Both scans go over a character alike. -/
theorem foldl_utf8EncodeChar (marked : Marked l) (c : Char) :
    (String.utf8EncodeChar c).foldl next (ofChars depth l) =
      ofChars (nextDepth depth l c) (nextLiteral l c) := by
  rcases utf8EncodeChar_cases c with ⟨small, encoded⟩ | ⟨other, large⟩
  · rw [encoded]
    exact next_toUInt8 marked small
  · obtain ⟨b, bs, encoded⟩ := exists_utf8EncodeChar c
    rw [encoded] at large ⊢
    rw [foldl_large marked large, nextLiteral_large marked other, nextDepth_large other]

/-- Both scans go over a text alike. -/
theorem foldl_flatMap (cs : List Char) : ∃ depth,
    (cs.flatMap String.utf8EncodeChar).foldl next start =
      ofChars depth (cs.foldl nextLiteral none) := by
  induction cs using List.reverseRecOn with
  | nil => exact ⟨0, rfl⟩
  | append_singleton cs c ih =>
    obtain ⟨depth, run⟩ := ih
    rw [List.flatMap_append, List.flatMap_singleton, List.foldl_append, run,
      foldl_utf8EncodeChar (marked_foldl cs), List.foldl_append]
    exact ⟨_, rfl⟩

/-- The scan ends at no byte but a closing brace. -/
theorem length?_append {s : ByteScan} {front : List UInt8}
    (apart : ∀ b ∈ front, b ≠ '}'.toUInt8) (rest : List UInt8) :
    s.length? (front ++ rest) = ((front.foldl next s).length? rest).map (· + front.length) := by
  induction front generalizing s with
  | nil => simp
  | cons b front ih =>
    obtain ⟨first, apart⟩ := List.forall_mem_cons.mp apart
    have goes : ¬s.ends b (front ++ rest) = true := fun ends => first (ends_iff.mp ends).2.1
    rw [List.cons_append, length?, if_neg goes, ih apart, Option.map_map]
    rfl

theorem ends_ofChars_iff (small : c.toNat < 128) :
    (ofChars depth l).ends c.toUInt8 (cs.flatMap String.utf8EncodeChar) = true ↔
      Closes depth l c cs := by
  have brace : '}'.toNat < 128 := by decide
  rw [ends_iff, toUInt8_eq_iff small brace, head?_flatMap_utf8EncodeChar brace, Closes]
  simp [ofChars, start, and_left_comm, and_assoc]

theorem length?_utf8EncodeChar (marked : Marked l)
    (goes : ¬Closes depth l c cs) :
    (ofChars depth l).length? (String.utf8EncodeChar c ++ cs.flatMap String.utf8EncodeChar) =
      ((ofChars (nextDepth depth l c) (nextLiteral l c)).length?
        (cs.flatMap String.utf8EncodeChar)).map (· + c.utf8Size) := by
  rw [← foldl_utf8EncodeChar marked, ← String.length_utf8EncodeChar c]
  rcases utf8EncodeChar_cases c with ⟨small, encoded⟩ | ⟨-, large⟩
  · rw [encoded, List.singleton_append, length?, if_neg (goes ∘ (ends_ofChars_iff small).mp)]
    rfl
  · refine length?_append (fun b hb => ?_) _
    rintro rfl
    exact absurd (large _ hb) (by decide)

/-- Both scans end at the same character. -/
theorem length?_ofChars (marked : Marked l) (cs : List Char) :
    (ofChars depth l).length? (cs.flatMap String.utf8EncodeChar) =
      (lengthIn depth l cs).map (byteAt cs) := by
  induction cs generalizing depth l with
  | nil => rfl
  | cons c cs ih =>
    rw [List.flatMap_cons]
    by_cases closes : Closes depth l c cs
    · have small : c.toNat < 128 := by
        rw [closes.2.2.1]
        decide
      rw [lengthIn_of_closes closes, utf8EncodeChar_of_small small, List.singleton_append, length?,
        if_pos ((ends_ofChars_iff small).mpr closes)]
      rfl
    · have shift : byteAt (c :: cs) ∘ (· + 1) = (· + c.utf8Size) ∘ byteAt cs := by
        funext k
        simp [byteAt]
      rw [length?_utf8EncodeChar marked closes, lengthIn_cons closes,
        ih (marked.nextLiteral c), Option.map_map, Option.map_map, shift]

end Characters

end ByteScan

section Segments

/-- The scan ends at the first byte that closes the segment. -/
theorem segmentLength?_eq_some_iff (text : String) (n : Nat) :
    segmentLength? text = some n ↔
      ClosesAt (bytes text) n ∧ ∀ m < n, ¬ClosesAt (bytes text) m := by
  simp only [segmentLength?, ByteScan.length?_eq_some_iff, ByteScan.endsAt_start_iff]

/-- It is where the scan over characters ends. -/
theorem segmentLength?_ofList (cs : List Char) :
    segmentLength? (String.ofList cs) = (bodyLength 0 none false cs).map (byteAt cs) := by
  rw [segmentLength?, bytes_ofList]
  change (ByteScan.ofChars 0 none).length? _ = (lengthIn 0 none cs).map _
  exact ByteScan.length?_ofChars marked_none cs

end Segments

end ListRepeater.Binding
