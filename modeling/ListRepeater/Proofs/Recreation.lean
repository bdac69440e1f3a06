import ListRepeater.Proofs.MountBookkeeping
import ListRepeater.Proofs.MountedRuns
import ListRepeater.Proofs.SlotBook.Restored
import Mathlib.Data.List.Forall2
/-!
# Repeaters created anew

A repeater that is created from what was saved starts from a matching book and knows nothing of the
rows that were shown. One pass over the request that was served last gives it that knowledge: all
slots hold their ids, so the book stays as it was restored, and what is remembered of the rows is
read off the book. From then on the two repeaters answer every call alike.
-/
namespace ListRepeater

/-- Outcomes that nobody who gets them can tell apart. -/
structure Outcome.Alike (o o' : Outcome) : Prop where
  emission : o.emission = o'.emission
  saved : o.saved.same o'.saved = true
  scroll : o.scroll = o'.scroll

namespace Repeater

/-- The repeater with another request, or with none. -/
def asking (r : Repeater) (asked : Option Request) : Repeater := { r with request := asked }

/-- Repeaters that agree in all but their requests, with books that match. -/
structure Matches (r r' : Repeater) : Prop where
  config : r.config = r'.config
  book : r.book.Matches r'.book
  shown : r.shown = r'.shown
  watched : r.watched = r'.watched

/-- What repeaters tell of their rows and of their books is the same. -/
structure TellsAlike (r r' : Repeater) : Prop where
  shownIds : r.shownIds = r'.shownIds
  containerIds : r.containerIds = r'.containerIds
  containerNames : r.containerNames = r'.containerNames
  minted : r.book.minted = r'.book.minted
  slotCount : r.book.slotCount = r'.book.slotCount
  parkedCount : r.book.parkedCount = r'.book.parkedCount

section Run

variable (r : Repeater) (q : Request)

/-- A pass acquires its slots and then releases those that no row has any more. -/
theorem book_run : (r.run q).next.book = (r.book.acquireAll (r.pass q).slots).releaseAll
    (vacated r.shown ((r.pass q).shownRowsIn (r.run q).next.book)) := by
  rw [← rows_run, ← layOut_snd]
  rfl

theorem scroll_run : (r.run q).scroll =
    if (r.pass q).scrolls && r.watched then
      some ⟨(r.pass q).firstIndex, (r.pass q).firstIndex + (r.pass q).windowRows.length⟩
    else none := by
  have rows : ((r.layOut (r.pass q)).1.map (r.pass q).shownRow).length =
      (r.pass q).windowRows.length := by
    rw [rows_run, Pass.shownRowsIn, List.length_map]
  rw [← rows]
  rfl

end Run

/-- What is vacated does not depend on the ids that the slots of the pass hold. -/
theorem vacated_shownRowsIn (shown : Option Shown) (p : Pass) (b b' : SlotBook) :
    vacated shown (p.shownRowsIn b) = vacated shown (p.shownRowsIn b') := by
  rw [vacated, vacated, Pass.slots_shownRowsIn, Pass.slots_shownRowsIn]

namespace Matches

variable {r r' : Repeater} (h : r.Matches r')

include h

theorem pass (q : Request) : r.pass q = r'.pass q := congrArg (Pass.ofRequest · q) h.config

theorem shownRows : r.shownRows = r'.shownRows := by
  rw [Repeater.shownRows, Repeater.shownRows, h.shown]

theorem tells : r.TellsAlike r' where
  shownIds := congrArg (fun rows => rows.flatMap (·.instanceIds)) h.shownRows
  containerIds := congrArg (fun rows => rows.map (·.containerId)) h.shownRows
  containerNames := congrArg (fun rows => rows.map (·.containerName)) h.shownRows
  minted := h.book.minted
  slotCount := h.book.slotCount
  parkedCount := h.book.parkedCount

theorem book_run (q : Request) : (r.run q).next.book.Matches (r'.run q).next.book := by
  rw [Repeater.book_run r, Repeater.book_run r', h.pass q, h.shown,
    vacated_shownRowsIn r'.shown (r'.pass q) _ (r'.run q).next.book]
  exact (h.book.acquireAll _).releaseAll _

/-- Repeaters that match still do after they served the same request. -/
theorem run (q : Request) : (r.run q).next.Matches (r'.run q).next where
  config := h.config
  book := h.book_run q
  shown := by
    have rows := Pass.shownRowsIn_of_agree (p := r'.pass q) fun k _ => (h.book_run q).get? k
    rw [shown_run, shown_run, h.pass q, Pass.shownIn, Pass.shownIn, rows]
  watched := h.watched

/-- Repeaters that match serve the same request alike. -/
theorem alike (q : Request) : (r.run q).Alike (r'.run q) where
  emission := by
    have agree : ∀ k ∈ (r'.pass q).slots,
        (r.run q).next.book.get? k = (r'.run q).next.book.get? k :=
      fun k _ => (h.book_run q).get? k
    have instances : (r.run q).emission.instances = (r'.run q).emission.instances := by
      rw [instances_run, instances_run, h.pass q, h.shown]
      exact Pass.instancesIn_of_agree agree fun _ h => (List.mem_filter.mp h).1
    have removed : (r.run q).emission.removed = (r'.run q).emission.removed := by
      rw [removed_run, removed_run, h.pass q, h.shown, Pass.shownRowsIn_of_agree agree]
    exact congrArg₂ Emission.mk instances removed
  saved := (h.book_run q).snapshot
  scroll := by rw [scroll_run, scroll_run, h.pass q, h.watched]

end Matches

/-- A repeater with a matching book that has shown nothing yet catches up by one pass over what was
shown last. -/
theorem matches_caughtUp {r r' : Repeater} {q₀ : Request} (after : r.After q₀)
    (config : r.config = r'.config) (book : r.book.Matches r'.book)
    (watched : r.watched = r'.watched) (first : r'.shown = none) :
    r.Matches (r'.run q₀).next := by
  have pass : r.pass q₀ = r'.pass q₀ := congrArg (Pass.ofRequest · q₀) config
  have held : ∀ k ∈ (r'.pass q₀).slots, ∃ id, r'.book.get? k = some id := by
    intro k hk
    rw [← book.get? k]
    exact after.held k (pass ▸ hk)
  -- every slot of the pass has its id already, and nothing was shown that could be vacated
  have kept : (r'.run q₀).next.book = r'.book := by
    rw [book_run, first, SlotBook.acquireAll_of_held held]
    rfl
  refine ⟨config, kept.symm ▸ book, ?_, watched⟩
  rw [after.shown, shown_run, kept, pass, Pass.shownIn, Pass.shownIn,
    Pass.shownRowsIn_of_agree fun k _ => book.get? k]

end Repeater

namespace Session

/-- What a call returns: nothing for a request, the outcome or the error for a pass. -/
def answer? (s : Session) : Call → Option (Except RequestError Outcome)
  | .options _ => none
  | .generate => some s.repeater.advance

/-- The answers to a run of calls. -/
def answers (s : Session) : List Call → List (Except RequestError Outcome)
  | [] => []
  | call :: later => (s.answer? call).toList ++ (s.step call).answers later

/-- Answers that are alike: outcomes that cannot be told apart, or the same error. -/
def AnswersAlike : Except RequestError Outcome → Except RequestError Outcome → Prop
  | .ok o, .ok o' => o.Alike o'
  | .error e, .error e' => e = e'
  | _, _ => False

section Alike

variable {s s' : Session}

/-- A call is answered alike in sessions that match and were asked for the same, and they match
after it. -/
theorem step_alike (h : s.repeater.Matches s'.repeater)
    (asked : s.repeater.request = s'.repeater.request) (call : Call) :
    List.Forall₂ AnswersAlike (s.answer? call).toList (s'.answer? call).toList ∧
      (s.step call).repeater.Matches (s'.step call).repeater ∧
      (s.step call).repeater.request = (s'.step call).repeater.request := by
  cases call with
  | options q => exact ⟨.nil, ⟨h.config, h.book, h.shown, h.watched⟩, rfl⟩
  | generate =>
    have valid : s.repeater.validRequest = s'.repeater.validRequest := by
      rw [Repeater.validRequest, Repeater.validRequest, asked]
    rw [answer?, answer?, step, step, Repeater.advance, Repeater.advance, valid]
    cases s'.repeater.validRequest with
    | error e => exact ⟨.cons rfl .nil, h, asked⟩
    | ok q => exact ⟨.cons (h.alike q) .nil, h.run q, asked⟩

theorem answers_alike (h : s.repeater.Matches s'.repeater)
    (asked : s.repeater.request = s'.repeater.request) (calls : List Call) :
    List.Forall₂ AnswersAlike (s.answers calls) (s'.answers calls) := by
  induction calls generalizing s s' with
  | nil => exact .nil
  | cons call later ih =>
    obtain ⟨answer, next, asked⟩ := step_alike h asked call
    exact List.rel_append answer (ih next asked)

/-- What was asked before does not matter once a request is given. -/
theorem answers_after_options (h : s.repeater.Matches s'.repeater) (q : Request)
    (later : List Call) :
    List.Forall₂ AnswersAlike (s.answers (.options q :: later))
      (s'.answers (.options q :: later)) := by
  have given : (s.step (.options q)).repeater.Matches (s'.step (.options q)).repeater :=
    ⟨h.config, h.book, h.shown, h.watched⟩
  exact answers_alike given rfl later

end Alike

section Last

variable {s : Session} {calls : List Call}

/-- Without an accepted pass a session gets nothing but other requests. -/
theorem run_of_turns_nil (h : s.turns calls = []) :
    ∃ asked, s.run calls = ⟨⟨s.repeater.asking asked, s.mounted⟩, s.stored⟩ := by
  induction calls generalizing s with
  | nil => exact ⟨s.repeater.request, rfl⟩
  | cons call later ih =>
    rw [turns, List.append_eq_nil_iff, Option.toList_eq_nil_iff] at h
    obtain ⟨asked, rest⟩ := ih h.2
    refine ⟨asked, rest.trans ?_⟩
    rcases step_of_turn?_none h.1 with e | ⟨q, -, e⟩ <;> rw [e]
    rfl

/-- A session is left as its last accepted pass left it, but for the request. -/
theorem run_of_last_turn {before : List Turn} {t : Turn} (h : s.turns calls = before ++ [t]) :
    ∃ asked, s.run calls =
      ⟨⟨t.outcome.next.asking asked, t.mountedAfter⟩, some t.outcome.saved⟩ := by
  -- along the calls up to the last accepted pass, and then past the calls that follow it
  induction calls generalizing s before with
  | nil => simp [turns] at h
  | cons call later ih =>
    rw [turns] at h
    cases accepted : s.turn? call with
    | none => exact ih (by simpa [accepted] using h)
    | some t' =>
      rw [accepted, Option.toList_some, List.singleton_append] at h
      cases before with
      | nil =>
        obtain ⟨rfl, rest⟩ := List.cons.inj h
        obtain ⟨asked, run⟩ := run_of_turns_nil rest
        refine ⟨asked, run.trans ?_⟩
        rw [step_of_turn? accepted]
      | cons _ before => exact ih (List.cons.inj h).2

end Last

section Watched

theorem watched_step (s : Session) (call : Call) :
    (s.step call).repeater.watched = s.repeater.watched := by
  cases accepted : s.turn? call with
  | none =>
    rcases step_of_turn?_none accepted with e | ⟨q, -, e⟩ <;> rw [e]
    rfl
  | some t =>
    obtain ⟨-, repeater, -, -, -⟩ := turn?_cases accepted
    rw [step_of_turn? accepted, ← repeater]
    rfl

/-- No call starts or stops the watching. -/
theorem watched_of_turn {s : Session} {calls : List Call} {t : Turn} (ht : t ∈ s.turns calls) :
    t.repeater.watched = s.repeater.watched := by
  induction calls generalizing s with
  | nil => cases ht
  | cons call later ih =>
    rw [turns, List.mem_append, Option.mem_toList] at ht
    rcases ht with accepted | ht
    · obtain ⟨-, repeater, -, -, -⟩ := turn?_cases accepted
      rw [repeater]
    · exact (ih ht).trans (watched_step s call)

end Watched

end Session

/-- A repeater that is created anew and makes the pass over again matches the one that made it
first. -/
theorem Turn.matches_recreated {t : Turn} (own : t.repeater.config.cloned = false)
    (grounded : t.repeater.Grounded) (unwatched : t.repeater.watched = false) :
    t.outcome.next.Matches (t.recreated.run t.request).next := by
  have config : { t.repeater.config with cloned := false } = t.repeater.config := by rw [← own]
  have stem : t.book.stem = t.repeater.config.stem :=
    (Repeater.grounded_run grounded t.request).stem
  have book : t.recreated.book = .ofSnapshot t.book.stem t.book.snapshot := by
    rw [stem]
    rfl
  have after := Repeater.after_run t.repeater t.request
  refine Repeater.matches_caughtUp after config.symm ?_ unwatched rfl
  rw [book]
  exact t.book.matches_ofSnapshot

namespace Session

/-- The session of a repeater that is created anew from what was stored and asked for `q`. -/
def recreate (s : Session) (c : Config) (q : Request) : Session :=
  (create c s.stored).step (.options q)

/-- After any run, a repeater that is created anew from what was saved and makes the last accepted
pass over again removes nothing and tells the same of its rows and ids as the first one. From then
on both answer every run of calls alike; the first call has to give a request unless the last
accepted one still stands. -/
theorem recreated_alike (c : Config) (own : c.cloned = false) (calls : List Call)
    (before : List Turn) (t : Turn) (last : (create c none).turns calls = before ++ [t]) :
    (∃ out, (((create c none).run calls).recreate c t.request).repeater.advance = .ok out ∧
      out.emission.removed = [] ∧ t.outcome.saved.same out.saved = true ∧
      ((create c none).run calls).repeater.TellsAlike out.next) ∧
    ∀ later, (((create c none).run calls).repeater.request = some t.request ∨
        ∃ q rest, later = .options q :: rest) →
      List.Forall₂ AnswersAlike (((create c none).run calls).answers later)
        (((((create c none).run calls).recreate c t.request).step .generate).answers later) := by
  have ht : t ∈ (create c none).turns calls := by simp [last]
  obtain ⟨grounded, config⟩ := grounded_of_turn (Repeater.grounded_create c) ht
  have matched := Turn.matches_recreated (config ▸ own) grounded (watched_of_turn ht)
  have advanced := t.advance_recreated_eq (checked_of_turn ht)
  obtain ⟨asked, run⟩ := run_of_last_turn last
  have anew : (((create c none).run calls).recreate c t.request).repeater = t.recreated := by
    rw [run, Turn.recreated, config, ← own]
    rfl
  have next : ((((create c none).run calls).recreate c t.request).step .generate).repeater =
      (t.recreated.run t.request).next := by
    rw [step, anew, advanced]
  have still : ((create c none).run calls).repeater.Matches
      ((((create c none).run calls).recreate c t.request).step .generate).repeater := by
    rw [next, run]
    exact ⟨matched.config, matched.book, matched.shown, matched.watched⟩
  constructor
  · rw [anew]
    refine ⟨t.recreated.run t.request, advanced, ?_, matched.book.snapshot, ?_⟩
    · exact Repeater.removed_run t.recreated t.request
    · rw [← next]
      exact still.tells
  · rintro later (asked | ⟨q, rest, rfl⟩)
    · exact answers_alike still (asked.trans (congrArg Repeater.request next).symm) later
    · exact answers_after_options still q rest

/-- The second page is shown last, so the ids of the first one are parked; then the pages are shown
again, and asked for in vain. -/
theorem recreated_alike_pagingCalls :
    Config.standard.cloned = false ∧
    ∃ before t, (create .standard none).turns pagingCalls = before ++ [t] ∧ before.length = 1 ∧
      0 < t.book.parkedCount ∧
      List.Forall₂ AnswersAlike
        (((create .standard none).run pagingCalls).answers pagingCalls.tail)
        (((((create .standard none).run pagingCalls).recreate .standard t.request).step
          .generate).answers pagingCalls.tail) := by
  have parked : ∀ t ∈ ((create .standard none).turns pagingCalls).getLast?,
      0 < t.book.parkedCount := by
    decide +kernel
  have count : ((create .standard none).turns pagingCalls).length = 2 := rfl
  obtain ⟨a, t, split⟩ := List.length_eq_two.mp count
  have parked := parked t (by simp [split])
  have alike := (recreated_alike .standard rfl pagingCalls [a] t split).2 pagingCalls.tail
    (Or.inr ⟨_, _, rfl⟩)
  exact ⟨rfl, [a], t, split, rfl, parked, alike⟩

end Session

end ListRepeater
