import ListRepeater.Proofs.KeptCells
import ListRepeater.Repeater.Mounting
/-!
# Sessions

A session is the life of one repeater with its client and its store: the list gets new requests and
is asked to bring its rows in step with the latest, in any order. What holds of a session is shown
call by call, and for a whole run of calls by induction.
-/
namespace ListRepeater

inductive Call where
  /-- The list is to show this from now on. -/
  | options (q : Request)
  | generate

def Call.request? : Call → Option Request
  | .options q => some q
  | .generate => none

/-- What holds of all requests of a run can be tested on their list. -/
theorem Call.forall_options_iff {P : Request → Prop} {calls : List Call} :
    (∀ q, .options q ∈ calls → P q) ↔ ∀ q ∈ calls.filterMap request?, P q := by
  simp only [List.mem_filterMap]
  constructor
  · rintro h q ⟨call, hcall, e⟩
    cases call with
    | options q' => exact Option.some.inj e ▸ h q' hcall
    | generate => cases e
  · intro h q hq
    exact h q ⟨.options q, hq, rfl⟩

/-- Where no authored id starts with the stem, none looks minted. -/
theorem Call.unminted_of_apart {calls : List Call} {stem : String}
    (h : ∀ q ∈ calls.filterMap request?, ∀ id ∈ q.template.keys,
      ¬stem.toList <+: id.text.toList) :
    ∀ q, .options q ∈ calls → q.template.Unminted stem :=
  forall_options_iff.mpr fun q hq => Template.unminted_of_apart (h q hq)

structure Session extends Client where
  /-- What the last accepted pass saved. -/
  stored : Option Snapshot

/-- One accepted pass of a session: the repeater before it, what was mounted then and the request. -/
structure Turn where
  repeater : Repeater
  mounted : Mounted
  request : Request

namespace Turn

variable (t : Turn)

abbrev pass : Pass := t.repeater.pass t.request

def outcome : Outcome := t.repeater.run t.request

/-- The book that the pass leaves behind. -/
abbrev book : SlotBook := t.outcome.next.book

def rows : List PassRow := (t.repeater.layOut t.pass).1

def idsBefore : List WidgetId := t.repeater.shownIds

def idsAfter : List WidgetId := t.outcome.next.shownIds

def mountedAfter : Mounted := t.outcome.emission.applyTo t.mounted

/-- The pass starts from this repeater, but for the request, and from this mounted map. -/
structure Follows (r : Repeater) (m : Mounted) : Prop where
  config : t.repeater.config = r.config
  book : t.repeater.book = r.book
  shown : t.repeater.shown = r.shown
  mounted : t.mounted = m

end Turn

namespace Session

/-- The session of a new repeater. -/
def create (c : Config) (stored : Option Snapshot) : Session := ⟨⟨.create c stored, .empty⟩, stored⟩

def step (s : Session) : Call → Session
  | .options q => { s with repeater := s.repeater.withRequest q }
  | .generate =>
    match s.repeater.advance with
    | .ok out => ⟨⟨out.next, out.emission.applyTo s.mounted⟩, some out.saved⟩
    | .error _ => s

def run (s : Session) (calls : List Call) : Session := calls.foldl step s

def turn? (s : Session) : Call → Option Turn
  | .options _ => none
  | .generate =>
    match s.repeater.validRequest with
    | .ok q => some ⟨s.repeater, s.mounted, q⟩
    | .error _ => none

/-- The accepted passes of a run, in order. -/
def turns (s : Session) : List Call → List Turn
  | [] => []
  | call :: later => (s.turn? call).toList ++ (s.step call).turns later

/-- Whether asking for the rows now is refused. -/
def Refuses (s : Session) : Prop := ∃ e, s.repeater.advance = .error e

section Calls

variable (s : Session)

theorem run_append (calls later : List Call) : s.run (calls ++ later) = (s.run calls).run later :=
  List.foldl_append

theorem turns_append (calls later : List Call) :
    s.turns (calls ++ later) = s.turns calls ++ (s.run calls).turns later := by
  induction calls generalizing s with
  | nil => rfl
  | cons call rest ih =>
    rw [List.cons_append, turns, turns, ih, List.append_assoc]
    rfl

variable {s}

theorem turn?_of_refuses (h : s.Refuses) : s.turn? .generate = none := by
  obtain ⟨e, he⟩ := h
  rw [Repeater.advance] at he
  cases valid : s.repeater.validRequest with
  | ok q => rw [valid] at he; cases he
  | error e => rw [turn?, valid]

/-- A refused call leaves no trace. -/
theorem step_of_refuses (h : s.Refuses) : s.step .generate = s := by
  obtain ⟨e, he⟩ := h
  rw [step, he]

theorem refuses_options {q : Request} {e : RequestError} (h : q.check = .error e) :
    (s.step (.options q)).Refuses := by
  refine ⟨e, ?_⟩
  have valid : (s.repeater.withRequest q).validRequest = .error e := by
    simp only [Repeater.validRequest, Repeater.withRequest, h]
  rw [step, Repeater.advance, valid]
  rfl

theorem turn?_cases {t : Turn} {call : Call} (h : s.turn? call = some t) :
    call = .generate ∧ t.repeater = s.repeater ∧ t.mounted = s.mounted ∧
      s.repeater.request = some t.request ∧ t.request.check = .ok () := by
  cases call with
  | options q => cases h
  | generate =>
    simp only [turn?, Repeater.validRequest] at h
    cases asked : s.repeater.request with
    | none => rw [asked] at h; cases h
    | some q =>
      rw [asked] at h
      cases checked : q.check with
      | error e => simp only [checked] at h; cases h
      | ok u =>
        simp only [checked, Option.some.injEq] at h
        subst h
        exact ⟨rfl, rfl, rfl, rfl, checked⟩

theorem checked_of_turn {t : Turn} {calls : List Call} (ht : t ∈ s.turns calls) :
    t.request.check = .ok () := by
  induction calls generalizing s with
  | nil => cases ht
  | cons call rest ih =>
    rw [turns, List.mem_append, Option.mem_toList] at ht
    rcases ht with accepted | ht
    · obtain ⟨-, -, -, -, checked⟩ := turn?_cases accepted
      exact checked
    · exact ih ht

/-- An accepted pass takes the session to its outcome. -/
theorem step_of_turn? {t : Turn} {call : Call} (h : s.turn? call = some t) :
    s.step call = ⟨⟨t.outcome.next, t.mountedAfter⟩, some t.outcome.saved⟩ := by
  obtain ⟨rfl, repeater, mounted, request, checked⟩ := turn?_cases h
  have valid : s.repeater.validRequest = .ok t.request := by
    simp only [Repeater.validRequest, request, checked]
  have advanced : s.repeater.advance = .ok t.outcome := by
    rw [Repeater.advance, valid, Turn.outcome, repeater]
    rfl
  rw [step, advanced, Turn.mountedAfter, mounted]

theorem step_of_turn?_none {call : Call} (h : s.turn? call = none) :
    s.step call = s ∨ ∃ q, call = .options q ∧
      s.step call = { s with repeater := s.repeater.withRequest q } := by
  cases call with
  | options q => exact Or.inr ⟨q, rfl, rfl⟩
  | generate =>
    refine Or.inl ?_
    cases valid : s.repeater.validRequest with
    | ok q => rw [turn?, valid] at h; cases h
    | error e =>
      apply step_of_refuses
      refine ⟨e, ?_⟩
      rw [Repeater.advance, valid]
      rfl

end Calls

/-- What every session keeps up: its book lost no id, and what it remembers is what its last pass
showed. All its requests have the property `P`. -/
structure Sound (c : Config) (P : Request → Prop) (s : Session) : Prop where
  config : s.repeater.config = c
  grounded : s.repeater.Grounded
  request : ∀ q, s.repeater.request = some q → P q
  shown : s.repeater.shown = none ∨ ∃ q, P q ∧ s.repeater.After q

section Sound

variable {c : Config} {P : Request → Prop} {s : Session}

theorem sound_create (c : Config) (P : Request → Prop) : (create c none).Sound c P where
  config := rfl
  grounded := Repeater.grounded_create c
  request := fun _ h => nomatch h
  shown := Or.inl rfl

theorem Sound.options (h : s.Sound c P) {q : Request} (hq : P q) :
    (s.step (.options q)).Sound c P where
  config := h.config
  grounded := ⟨h.grounded.stem, h.grounded.balanced⟩
  request := fun _ e => Option.some.inj e ▸ hq
  shown := h.shown.imp id fun ⟨q₀, hq₀, after⟩ => ⟨q₀, hq₀, after.shown, after.held⟩

/-- One call keeps a session sound. -/
theorem Sound.step (h : s.Sound c P) {call : Call} (hcall : ∀ q, call = .options q → P q) :
    (s.step call).Sound c P := by
  cases accepted : s.turn? call with
  | none =>
    rcases step_of_turn?_none accepted with e | ⟨q, rfl, -⟩
    · rw [e]
      exact h
    · exact h.options (hcall q rfl)
  | some t =>
    obtain ⟨-, repeater, -, request, -⟩ := turn?_cases accepted
    rw [step_of_turn? accepted, Turn.outcome, repeater]
    exact
      { config := h.config
        grounded := Repeater.grounded_run h.grounded t.request
        request := h.request
        shown := Or.inr ⟨t.request, h.request _ request, Repeater.after_run s.repeater t.request⟩ }

/-- A session stays sound over a whole run of calls. -/
theorem Sound.run (h : s.Sound c P) {calls : List Call} (hcalls : ∀ q, .options q ∈ calls → P q) :
    (s.run calls).Sound c P := by
  induction calls generalizing s with
  | nil => exact h
  | cons call rest ih =>
    refine ih (h.step fun q e => hcalls q ?_) fun q hq => hcalls q (List.mem_cons_of_mem call hq)
    rw [e]
    exact List.mem_cons_self

/-- Every accepted pass starts from a sound session. -/
theorem Sound.turn (h : s.Sound c P) {calls : List Call} (hcalls : ∀ q, .options q ∈ calls → P q)
    {t : Turn} (ht : t ∈ s.turns calls) :
    ∃ s' : Session, s'.Sound c P ∧ s'.repeater = t.repeater ∧ P t.request := by
  induction calls generalizing s with
  | nil => cases ht
  | cons call rest ih =>
    rw [turns, List.mem_append, Option.mem_toList] at ht
    rcases ht with accepted | ht
    · obtain ⟨-, repeater, -, request, -⟩ := turn?_cases accepted
      exact ⟨s, h, repeater.symm, h.request _ request⟩
    · refine ih (h.step fun q e => hcalls q ?_)
        (fun q hq => hcalls q (List.mem_cons_of_mem call hq)) ht
      rw [e]
      exact List.mem_cons_self

/-- What holds of all requests that are given holds of those that passes are made over. -/
theorem request_of_turn {calls : List Call} (hcalls : ∀ q, .options q ∈ calls → P q) {t : Turn}
    (ht : t ∈ (create c none).turns calls) : P t.request := by
  obtain ⟨-, -, -, h⟩ := (sound_create c P).turn hcalls ht
  exact h

/-- Every accepted pass of a repeater that starts with a balanced book starts with one. -/
theorem grounded_of_turn {stored : Option Snapshot} (start : (Repeater.create c stored).Grounded)
    {calls : List Call} {t : Turn} (ht : t ∈ (create c stored).turns calls) :
    t.repeater.Grounded ∧ t.repeater.config = c := by
  have sound : (create c stored).Sound c fun _ => True :=
    ⟨rfl, start, fun _ h => (nomatch h), Or.inl rfl⟩
  obtain ⟨s, sound', repeater, -⟩ := sound.turn (fun _ _ => trivial) ht
  rw [← repeater]
  exact ⟨sound'.grounded, sound'.config⟩

end Sound

section Following

variable {s : Session} {calls : List Call}

/-- Until its first accepted pass a session only gets other requests. -/
theorem first_turn {t : Turn} {rest : List Turn} (h : s.turns calls = t :: rest) :
    t.Follows s.repeater s.mounted ∧ ∃ s' : Session, ∃ later,
      s'.repeater = t.outcome.next ∧ s'.mounted = t.mountedAfter ∧ s'.turns later = rest := by
  induction calls generalizing s with
  | nil => cases h
  | cons call later ih =>
    rw [turns] at h
    cases accepted : s.turn? call with
    | none =>
      rw [accepted] at h
      obtain ⟨follows, next⟩ := ih h
      refine ⟨?_, next⟩
      rcases step_of_turn?_none accepted with e | ⟨q, -, e⟩
      · rwa [e] at follows
      · rw [e] at follows
        exact ⟨follows.config, follows.book, follows.shown, follows.mounted⟩
    | some t' =>
      rw [accepted] at h
      obtain ⟨rfl, rfl⟩ := List.cons.inj h
      obtain ⟨-, repeater, mounted, -, -⟩ := turn?_cases accepted
      have start : t'.Follows s.repeater s.mounted := by
        rw [← repeater, ← mounted]
        exact ⟨rfl, rfl, rfl, rfl⟩
      refine ⟨start, s.step call, later, ?_, ?_, rfl⟩ <;> rw [step_of_turn? accepted]

/-- A pass starts from what the accepted pass before it left behind. -/
theorem next_turn {before after : List Turn} {a b : Turn}
    (h : s.turns calls = before ++ a :: b :: after) : b.Follows a.outcome.next a.mountedAfter := by
  induction before generalizing s calls with
  | nil =>
    obtain ⟨-, s', later, repeater, mounted, rest⟩ := first_turn h
    rw [← repeater, ← mounted]
    exact (first_turn rest).1
  | cons t before ih =>
    obtain ⟨-, s', later, -, -, rest⟩ := first_turn h
    exact ih rest

end Following

end Session

end ListRepeater
