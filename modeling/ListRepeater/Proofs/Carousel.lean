import Mathlib.Data.List.Nodup
import Mathlib.Data.List.Rotate
import Mathlib.Data.Nat.ModEq
/-!
# Carousels

A list that shows one page after another passes its ids around: the rows of the page that is turned
to take the ids that have waited longest, and the ids of the page that is left wait behind all
others. A carousel tells how this goes with the ids of one template widget, which are numbered from
zero. Waiting and shown numbers stand in a ring; a page that is turned to turns the ring by as many
places as it has rows, and where too few numbers wait, new ones stand in before those shown so far.
-/
namespace ListRepeater

structure Carousel where
  /-- The page that is shown. -/
  page : Option Nat
  /-- The numbers that wait, the one that waits longest first. -/
  waiting : List Nat
  /-- The numbers of the rows that are shown, from top to bottom. -/
  shown : List Nat
  /-- How many numbers there are. -/
  count : Nat
  /-- How many rows were brought in so far, each time that another page was turned to. -/
  dealt : Nat
  deriving DecidableEq

namespace Carousel

/-- Nothing was shown yet. -/
def start : Carousel := ⟨none, [], [], 0, 0⟩

/-- Shows a page of `n` rows. -/
def turn (c : Carousel) (page n : Nat) : Carousel :=
  if c.page = some page then c
  else
    { page := some page
      waiting := c.waiting.drop n ++ c.shown
      shown := c.waiting.take n ++ List.range' c.count (n - c.waiting.length)
      count := c.count + (n - c.waiting.length)
      dealt := c.dealt + n }

/-- Shows one page after the other. -/
def run (size : Nat → Nat) (c : Carousel) (pages : List Nat) : Carousel :=
  pages.foldl (fun c page => c.turn page (size page)) c

def ring (c : Carousel) : List Nat := c.waiting ++ c.shown

variable {size : Nat → Nat} {c : Carousel} {page n : Nat} {pages : List Nat}

theorem run_append (later : List Nat) :
    c.run size (pages ++ later) = (c.run size pages).run size later :=
  List.foldl_append

theorem turn_of_same (same : c.page = some page) : c.turn page n = c := if_pos same

@[simp]
theorem page_turn : (c.turn page n).page = some page := by
  rw [turn]
  split
  · assumption
  · rfl

theorem page_run_concat : (c.run size (pages ++ [page])).page = some page := by
  rw [run_append]
  exact page_turn

section Ring

theorem count_turn (other : c.page ≠ some page) :
    (c.turn page n).count = c.count + (n - c.waiting.length) := by
  rw [turn, if_neg other]

theorem dealt_turn (other : c.page ≠ some page) : (c.turn page n).dealt = c.dealt + n := by
  rw [turn, if_neg other]

/-- Another page turns the ring, with the new numbers in their places. -/
theorem ring_turn (other : c.page ≠ some page) : (c.turn page n).ring =
    (c.waiting ++ List.range' c.count (n - c.waiting.length) ++ c.shown).rotate n := by
  rw [List.rotate_eq_drop_append_take (by simp; omega), turn, if_neg other, ring]
  rcases Nat.le_total n c.waiting.length with few | many
  · have none : n - c.waiting.length = 0 := Nat.sub_eq_zero_of_le few
    simp [none, List.drop_append, List.take_append]
  · have waiting : c.waiting.drop n = [] := List.drop_eq_nil_of_le many
    have all : (c.waiting ++ List.range' c.count (n - c.waiting.length)).length = n := by
      simp; omega
    rw [waiting, List.take_of_length_le many, List.drop_left' all, List.take_left' all]
    rfl

theorem count_le_turn : c.count ≤ (c.turn page n).count := by
  rw [turn]
  split
  · exact Nat.le_refl _
  · exact Nat.le_add_right _ _

theorem count_le_run : c.count ≤ (c.run size pages).count := by
  induction pages generalizing c with
  | nil => exact Nat.le_refl _
  | cons page rest ih => exact count_le_turn.trans ih

theorem dealt_le_run : c.dealt ≤ (c.run size pages).dealt := by
  induction pages generalizing c with
  | nil => exact Nat.le_refl _
  | cons page rest ih =>
    have step : c.dealt ≤ (c.turn page (size page)).dealt := by
      rw [turn]
      split
      · exact Nat.le_refl _
      · exact Nat.le_add_right _ _
    exact step.trans ih

/-- As long as no number is added the ring does nothing but turn. -/
theorem ring_run (kept : (c.run size pages).count = c.count) :
    (c.run size pages).ring = c.ring.rotate ((c.run size pages).dealt - c.dealt) := by
  induction pages generalizing c with
  | nil => simp [run]
  | cons page rest ih =>
    have step : c.run size (page :: rest) = (c.turn page (size page)).run size rest := rfl
    have later : (c.turn page (size page)).count ≤ (c.run size (page :: rest)).count := count_le_run
    have now : c.count ≤ (c.turn page (size page)).count := count_le_turn
    have dealt : (c.turn page (size page)).dealt ≤ (c.run size (page :: rest)).dealt := dealt_le_run
    rw [step] at kept later dealt ⊢
    rw [ih (by omega)]
    by_cases same : c.page = some page
    · rw [turn_of_same same]
    · have enough : size page - c.waiting.length = 0 := by
        rw [count_turn same] at now later
        omega
      have ring : (c.turn page (size page)).ring = c.ring.rotate (size page) := by
        rw [ring_turn same, enough]
        simp [Carousel.ring]
      rw [dealt_turn same] at dealt
      rw [ring, List.rotate_rotate, dealt_turn same]
      congr 1
      omega

end Ring

/-- Each number has its place in the ring, and the page is shown in full. -/
structure Consistent (size : Nat → Nat) (c : Carousel) : Prop where
  ring : c.ring.Perm (List.range c.count)
  rows : ∀ page, c.page = some page → c.shown.length = size page

section Consistent

theorem consistent_start : start.Consistent size := ⟨.nil, fun _ h => nomatch h⟩

theorem Consistent.turn (h : c.Consistent size) : (c.turn page (size page)).Consistent size := by
  by_cases same : c.page = some page
  · rwa [turn_of_same same]
  · constructor
    · rw [ring_turn same, count_turn same]
      refine (List.rotate_perm _ _).trans ?_
      rw [List.append_assoc]
      refine (List.perm_append_comm.append_left _).trans ?_
      rw [← List.append_assoc, List.range_eq_range', ← List.range'_append_1, Nat.zero_add,
        ← List.range_eq_range']
      exact h.ring.append_right _
    · intro page' shown
      rw [page_turn] at shown
      cases shown
      rw [Carousel.turn, if_neg same]
      simp only [List.length_append, List.length_take, List.length_range']
      omega

theorem Consistent.run (h : c.Consistent size) : (c.run size pages).Consistent size := by
  induction pages generalizing c with
  | nil => exact h
  | cons page rest ih => exact ih h.turn

theorem Consistent.length_ring (h : c.Consistent size) : c.ring.length = c.count := by
  rw [h.ring.length_eq, List.length_range]

theorem Consistent.nodup_ring (h : c.Consistent size) : c.ring.Nodup :=
  h.ring.nodup_iff.mpr List.nodup_range

end Consistent

section Returning

/-- A ring without repetitions that ends after a turn as it did before made whole rounds. -/
theorem dvd_of_rotate_eq {ring front back shown : List Nat} {k : Nat} (nodup : ring.Nodup)
    (some : shown ≠ []) (before : ring = front ++ shown) (after : ring.rotate k = back ++ shown) :
    ring.length ∣ k := by
  have filled : 0 < shown.length := List.length_pos_iff.mpr some
  have length : ring.length = front.length + shown.length := by rw [before, List.length_append]
  have length' : ring.length = back.length + shown.length := by
    rw [← List.length_rotate ring k, after, List.length_append]
  have last : ring[ring.length - 1]? = shown[shown.length - 1]? := by
    have place : ring.length - 1 - front.length = shown.length - 1 := by omega
    rw [← place, ← List.getElem?_append_right (by omega), ← before]
  have last' : (ring.rotate k)[ring.length - 1]? = shown[shown.length - 1]? := by
    have place : ring.length - 1 - back.length = shown.length - 1 := by omega
    rw [← place, ← List.getElem?_append_right (by omega), ← after]
  have inside : ring.length - 1 < ring.length := by omega
  rw [List.getElem?_rotate inside, ← last] at last'
  have place : (ring.length - 1 + k) % ring.length = ring.length - 1 := by
    have bound : (ring.length - 1 + k) % ring.length < ring.length := Nat.mod_lt _ (by omega)
    rw [List.getElem?_eq_getElem bound, List.getElem?_eq_getElem inside] at last'
    exact (nodup.getElem_inj_iff).mp (Option.some.inj last')
  have round : Nat.ModEq ring.length (ring.length - 1 + k) (ring.length - 1 + 0) := by
    rw [Nat.ModEq, Nat.add_zero, place, Nat.mod_eq_of_lt inside]
  exact Nat.modEq_zero_iff_dvd.mp (Nat.ModEq.add_left_cancel' _ round)

/-- A page that is left and comes back, with no number added after the page that it was left for,
has its numbers again just if the rows brought in since make whole rounds. -/
theorem shown_run_cons_eq_iff (h : c.Consistent size) (now : c.page = some page)
    (filled : 0 < size page) {first : Nat} (other : first ≠ page)
    (again : (c.run size (first :: pages)).page = some page)
    (kept : (c.run size (first :: pages)).count = (c.turn first (size first)).count) :
    (c.run size (first :: pages)).shown = c.shown ↔
      (c.run size (first :: pages)).count ∣ (c.run size (first :: pages)).dealt - c.dealt := by
  have left : c.page ≠ some first := fun e => other (Option.some.inj (e.symm.trans now))
  have last : (c.run size (first :: pages)).Consistent size := h.run
  have dealt : (c.turn first (size first)).dealt ≤ (c.run size (first :: pages)).dealt :=
    dealt_le_run
  obtain ⟨ring, hring⟩ : ∃ ring, ring =
      c.waiting ++ List.range' c.count (size first - c.waiting.length) ++ c.shown := ⟨_, rfl⟩
  have turned : (c.run size (first :: pages)).ring =
      ring.rotate ((c.run size (first :: pages)).dealt - c.dealt) := by
    have run : c.run size (first :: pages) = (c.turn first (size first)).run size pages := rfl
    rw [run] at kept dealt ⊢
    rw [ring_run kept, ring_turn left, ← hring, List.rotate_rotate]
    rw [dealt_turn left] at dealt ⊢
    congr 1
    omega
  have rows : (c.run size (first :: pages)).shown.length = c.shown.length :=
    (last.rows page again).trans (h.rows page now).symm
  have length : ring.length = (c.run size (first :: pages)).count := by
    rw [← last.length_ring, turned, List.length_rotate]
  have nodup : ring.Nodup := by
    have nodup := last.nodup_ring
    rwa [turned, List.nodup_rotate] at nodup
  rw [← length]
  constructor
  · intro same
    have some : c.shown ≠ [] := by
      rw [← List.length_pos_iff, h.rows page now]
      exact filled
    have after : ring.rotate ((c.run size (first :: pages)).dealt - c.dealt) =
        (c.run size (first :: pages)).waiting ++ c.shown := by
      rw [← turned, ← same]
      rfl
    exact dvd_of_rotate_eq nodup some hring after
  · rintro ⟨rounds, whole⟩
    rw [whole, List.rotate_length_mul, hring] at turned
    exact List.append_inj_right' turned rows

variable {before between : List Nat}

/-- What was shown of a page when it was left comes back just if the rows brought in since make
whole rounds, given that no number was added after the page that it was left for. -/
theorem shown_eq_iff_of_kept (h : c.Consistent size) (now : c.page = some page)
    (filled : 0 < size page) (gone : ∀ p ∈ between, p ≠ page)
    (kept : ∀ first ∈ between.head?,
      (c.turn first (size first)).count = (c.run size (between ++ [page])).count) :
    (c.run size (between ++ [page])).shown = c.shown ↔
      (c.run size (between ++ [page])).count ∣
        (c.run size (between ++ [page])).dealt - c.dealt := by
  cases between with
  | nil =>
    have same : c.run size ([] ++ [page]) = c := turn_of_same now
    rw [same]
    simp
  | cons first rest =>
    exact shown_run_cons_eq_iff h now filled (gone first List.mem_cons_self) page_run_concat
      (kept first rfl).symm

end Returning

section Full

/-- All pages so far were of `n` rows: as many numbers as that wait, or none if there was no other
page yet. -/
structure Full (n : Nat) (c : Carousel) : Prop where
  waiting : c.waiting.length = 0 ∨ c.waiting.length = n
  shown : c.page ≠ none → c.shown.length = n
  blank : c.page = none → c.shown = []

theorem full_start : start.Full n := ⟨Or.inl rfl, fun h => absurd rfl h, fun _ => rfl⟩

theorem Full.length_waiting_turn (h : c.Full n) (other : c.page ≠ some page)
    (shown : c.page ≠ none) : (c.turn page n).waiting.length = n := by
  have rows := h.shown shown
  rw [turn, if_neg other]
  simp only [List.length_append, List.length_drop]
  rcases h.waiting with none | all <;> omega

theorem Full.turn (h : c.Full n) : (c.turn page n).Full n := by
  by_cases same : c.page = some page
  · rwa [turn_of_same same]
  · refine ⟨?_, fun _ => ?_, fun none => ?_⟩
    · by_cases blank : c.page = none
      · left
        have waiting := h.blank blank
        rw [Carousel.turn, if_neg same, waiting]
        simp only [List.length_append, List.length_drop, List.length_nil]
        rcases h.waiting with none | all <;> omega
      · exact Or.inr (h.length_waiting_turn same blank)
    · rw [Carousel.turn, if_neg same]
      simp only [List.length_append, List.length_take, List.length_range']
      omega
    · rw [page_turn] at none
      cases none

theorem Full.run (h : c.Full n) (sizes : ∀ page ∈ pages, size page = n) :
    (c.run size pages).Full n := by
  induction pages generalizing c with
  | nil => exact h
  | cons page rest ih =>
    have next : (c.turn page (size page)).Full n := by
      rw [sizes page List.mem_cons_self]
      exact h.turn
    exact ih next fun p hp => sizes p (List.mem_cons_of_mem _ hp)

/-- With pages of `n` rows there are twice as many numbers from the second page on. -/
theorem Full.count_run (h : c.Full n) (consistent : c.Consistent size) (shown : c.page ≠ none)
    {first : Nat} (other : c.page ≠ some first) (sizes : ∀ page ∈ first :: pages, size page = n) :
    (c.run size (first :: pages)).count = 2 * n := by
  have step : c.run size (first :: pages) = (c.turn first (size first)).run size pages := rfl
  have full : (c.turn first (size first)).Full n := by
    rw [sizes first List.mem_cons_self]
    exact h.turn
  have last : (c.run size (first :: pages)).Full n := h.run sizes
  have blank : (c.run size (first :: pages)).page ≠ none := by
    rw [step]
    rcases List.eq_nil_or_concat' pages with rfl | ⟨front, p, rfl⟩
    · exact ne_of_eq_of_ne page_turn (Option.some_ne_none first)
    · exact ne_of_eq_of_ne page_run_concat (Option.some_ne_none p)
  have all : (c.run size (first :: pages)).ring.length = _ := consistent.run.length_ring
  have early : (c.turn first (size first)).ring.length = _ := consistent.turn.length_ring
  have rows := full.shown (by simp)
  have waiting : (c.turn first (size first)).waiting.length = n := by
    rw [sizes first List.mem_cons_self]
    exact h.length_waiting_turn other shown
  have more : (c.turn first (size first)).count ≤ (c.run size (first :: pages)).count :=
    count_le_run
  rw [ring, List.length_append] at all early
  have rows' := last.shown blank
  rcases last.waiting with none | all' <;> omega

variable {between : List Nat}

/-- If all pages are of `n` rows, then a page has the numbers again that it had when it was left
just if an even number of pages was turned to since. -/
theorem shown_eq_iff_of_full (full : c.Full n) (h : c.Consistent size) (now : c.page = some page)
    (filled : 0 < n) (gone : ∀ p ∈ between, p ≠ page)
    (sizes : ∀ p ∈ between ++ [page], size p = n) :
    (c.run size (between ++ [page])).shown = c.shown ↔
      2 * n ∣ (c.run size (between ++ [page])).dealt - c.dealt := by
  have own : size page = n := sizes page (by simp)
  cases between with
  | nil =>
    have same : c.run size ([] ++ [page]) = c := turn_of_same now
    rw [same]
    simp
  | cons first rest =>
    have shown : c.page ≠ none := by simp [now]
    have other : c.page ≠ some first := by
      rw [now]
      exact fun e => gone first List.mem_cons_self (Option.some.inj e).symm
    have count := full.count_run h shown other sizes
    have early : (c.run size [first]).count = 2 * n :=
      full.count_run h shown other fun p hp => sizes p (by simp_all)
    rw [← count]
    refine shown_eq_iff_of_kept h now (own ▸ filled) gone ?_
    rintro _ ⟨⟩
    exact early.trans count.symm

end Full

end Carousel

end ListRepeater
