import ListRepeater.Proofs.RealKeys
import Mathlib.Data.Nat.Find
/-!
# The search for substitutes

A row whose key is taken tries one substitute after the other until one is free, and nothing bounds
the search. It ends all the same. The substitutes of a key differ from each other and from the key,
and the rows above go by one key each, so there are fewer substitutes taken than there are rows
above. The keys that the searches of a window end with are those that its rows go by.
-/
namespace ListRepeater.RowKey

/-- The search of a row at `view` from one attempt on: it ends with `own` when it has tried this
many substitutes. -/
inductive Tries (taken : List RowKey) (key : RowKey) (view : Nat) :
    (attempt tried : Nat) → (own : RowKey) → Prop
  | found {attempt : Nat} (free : key.substitute view attempt ∉ taken) :
      Tries taken key view attempt 1 (key.substitute view attempt)
  | next {attempt tried : Nat} {own : RowKey} (used : key.substitute view attempt ∈ taken)
      (rest : Tries taken key view (attempt + 1) tried own) :
      Tries taken key view attempt (tried + 1) own

/-- The rows from `view` on, below rows that go by the keys `taken`: the key that each goes by and
how many substitutes it has tried. -/
inductive Assigns : (taken : List RowKey) → (view : Nat) → (keys : List RowKey) →
    List (RowKey × Nat) → Prop
  | done {taken : List RowKey} {view : Nat} : Assigns taken view [] []
  | keep {taken : List RowKey} {view : Nat} {key : RowKey} {keys : List RowKey}
      {rows : List (RowKey × Nat)} (fresh : key ∉ taken)
      (rest : Assigns (key :: taken) (view + 1) keys rows) :
      Assigns taken view (key :: keys) ((key, 0) :: rows)
  | rename {taken : List RowKey} {view : Nat} {key : RowKey} {keys : List RowKey}
      {rows : List (RowKey × Nat)} {tried : Nat} {own : RowKey} (used : key ∈ taken)
      (search : Tries taken key view 0 tried own)
      (rest : Assigns (own :: taken) (view + 1) keys rows) :
      Assigns taken view (key :: keys) ((own, tried) :: rows)

section Search

variable {taken : List RowKey} {key : RowKey} {view : Nat}

theorem Tries.unique {attempt tried tried' : Nat} {own own' : RowKey}
    (h : Tries taken key view attempt tried own) (h' : Tries taken key view attempt tried' own') :
    tried = tried' ∧ own = own' := by
  induction h generalizing tried' with
  | found free =>
    cases h' with
    | found _ => exact ⟨rfl, rfl⟩
    | next used _ => exact absurd used free
  | next used _ ih =>
    cases h' with
    | found free => exact absurd used free
    | next _ rest =>
      obtain ⟨count, same⟩ := ih rest
      exact ⟨congrArg (· + 1) count, same⟩

/-- The search ends with the first free substitute. -/
theorem tries_of_first {n : Nat} (free : key.substitute view n ∉ taken)
    (used : ∀ m < n, key.substitute view m ∈ taken) {left attempt : Nat}
    (reaches : attempt + left = n) :
    Tries taken key view attempt (left + 1) (key.substitute view n) := by
  induction left generalizing attempt with
  | zero =>
    obtain rfl : attempt = n := reaches
    exact .found free
  | succ left ih => exact .next (used attempt (by omega)) (ih (by omega))

theorem substitute_ne (key : RowKey) (view attempt : Nat) : key.substitute view attempt ≠ key := by
  intro e
  have longer : key.text.length < (key.substitute view attempt).text.length := by
    have sharp : "#".length = 1 := rfl
    rw [substitute]
    split <;> simp only [String.length_append] <;> omega
  rw [e] at longer
  exact Nat.lt_irrefl _ longer

variable (view) in
/-- A taken key is none of its substitutes, so one of the first ones is free, as many as there are
taken keys. -/
theorem exists_first (used : key ∈ taken) : ∃ n < taken.length,
    key.substitute view n ∉ taken ∧ ∀ m < n, key.substitute view m ∈ taken := by
  have fewer : (taken.filter (· ≠ key)).length < taken.length :=
    List.length_filter_lt_length_iff_exists.mpr ⟨key, used, by simp⟩
  obtain ⟨n, bound, free⟩ := exists_free (taken.filter (· ≠ key)) key view
  have free : key.substitute view n ∉ taken := by
    intro mem
    exact free (List.mem_filter.mpr ⟨mem, by simpa using substitute_ne key view n⟩)
  have some : ∃ n, key.substitute view n ∉ taken := ⟨n, free⟩
  refine ⟨Nat.find some, ?_, Nat.find_spec some, fun m before => ?_⟩
  · have least := Nat.find_le free (h := some)
    omega
  · exact not_not.mp (Nat.find_min some before)

theorem firstFree_eq_substitute {n : Nat} (bound : n < taken.length + 1)
    (free : key.substitute view n ∉ taken) (used : ∀ m < n, key.substitute view m ∈ taken) :
    firstFree taken key view = key.substitute view n := by
  have first : (List.range (taken.length + 1)).find?
      ((fun k => !taken.contains k) ∘ key.substitute view) = some n := by
    rw [List.find?_range_eq_some]
    refine ⟨by simpa using free, List.mem_range.mpr bound, fun m before => ?_⟩
    simpa using used m before
  rw [firstFree, List.find?_map, first]
  rfl

end Search

theorem Assigns.unique {taken : List RowKey} {view : Nat} {keys : List RowKey}
    {rows rows' : List (RowKey × Nat)} (h : Assigns taken view keys rows)
    (h' : Assigns taken view keys rows') : rows = rows' := by
  induction h generalizing rows' with
  | done => cases h'; rfl
  | keep fresh _ ih =>
    cases h' with
    | keep _ rest => rw [ih rest]
    | rename used _ _ => exact absurd used fresh
  | rename used search _ ih =>
    cases h' with
    | keep fresh _ => exact absurd used fresh
    | rename _ search' rest =>
      obtain ⟨rfl, rfl⟩ := search.unique search'
      rw [ih rest]

/-- Every row gets a key, and it has tried at most as many substitutes as there are rows above. -/
theorem exists_assigns {taken : List RowKey} {view : Nat} (above : taken.length = view)
    (keys : List RowKey) : ∃ rows, Assigns taken view keys rows ∧
      rows.map Prod.fst = separateFrom taken view keys ∧
      ∀ (i : Nat) (row : RowKey × Nat), rows[i]? = some row → row.2 ≤ view + i := by
  induction keys generalizing taken view with
  | nil => exact ⟨[], .done, rfl, fun i row h => nomatch h⟩
  | cons key keys ih =>
    -- the key that the row goes by is one more that is taken for the rows below
    have below : ∀ own : RowKey, (own :: taken).length = view + 1 := fun own =>
      congrArg (· + 1) above
    have bounded : ∀ {tried : Nat} {own : RowKey} {rows : List (RowKey × Nat)}, tried ≤ view →
        (∀ (i : Nat) (row : RowKey × Nat), rows[i]? = some row → row.2 ≤ view + 1 + i) →
        ∀ (i : Nat) (row : RowKey × Nat), ((own, tried) :: rows)[i]? = some row →
          row.2 ≤ view + i := by
      intro tried own rows first later i row h
      cases i with
      | zero =>
        obtain rfl : (own, tried) = row := by simpa using h
        exact first
      | succ i =>
        have := later i row (by simpa using h)
        omega
    by_cases used : key ∈ taken
    · obtain ⟨n, bound, free, before⟩ := exists_first view used
      obtain ⟨rows, rest, same, later⟩ := ih (below (key.substitute view n))
      have own := firstFree_eq_substitute (by omega) free before
      refine ⟨_, .rename used (tries_of_first free before (Nat.zero_add n)) rest, ?_,
        bounded (by omega) later⟩
      simp [separateFrom, used, own, same]
    · obtain ⟨rows, rest, same, later⟩ := ih (below key)
      refine ⟨_, .keep used rest, ?_, bounded (Nat.zero_le view) later⟩
      simp [separateFrom, used, same]

/-- For all keys of a window the searches end, in one way only: with the keys that the rows go by,
and after at most as many substitutes as the view index of the row counts. These keys are distinct,
and a row keeps its own exactly if no row above has that key or goes by it. -/
theorem assigns_separate (keys : List RowKey) :
    (∃ rows, (∀ rows', Assigns [] 0 keys rows' ↔ rows' = rows) ∧
      rows.map Prod.fst = separate keys ∧
      ∀ (view : Nat) (row : RowKey × Nat), rows[view]? = some row → row.2 ≤ view) ∧
    (∀ p : Pass, p.windowRows.map (·.given) = keys →
      p.windowRows.map (·.place.key) = separate keys) ∧
    (separate keys).Nodup ∧
    ∀ (view : Nat) (key : RowKey), keys[view]? = some key → ((separate keys)[view]? = some key ↔
      ∀ above < view, keys[above]? ≠ some key ∧ (separate keys)[above]? ≠ some key) := by
  refine ⟨?_, fun p given => ?_, nodup_separate keys, fun view key given => ?_⟩
  · have above : ([] : List RowKey).length = 0 := rfl
    obtain ⟨rows, assigns, own, bounded⟩ := exists_assigns above keys
    refine ⟨rows, fun rows' => ⟨fun h => h.unique assigns, fun h => h ▸ assigns⟩, own, ?_⟩
    simpa only [Nat.zero_add] using bounded
  · rw [Pass.map_key_windowRows, ← Pass.map_given_windowRows, given]
  · have kept : ∀ {view : Nat}, keys[view]? = some key → ((separate keys)[view]? = some key ↔
        ∀ above < view, (separate keys)[above]? ≠ some key) := by
      intro view given
      simpa [separate] using getElem?_separateFrom_eq_iff [] 0 given
    rw [kept given]
    constructor
    · refine fun free above before => ⟨fun same => ?_, free above before⟩
      -- a row above with this key goes by it, or another row further up does
      have own := (kept same).mpr fun higher up => free higher (Nat.lt_trans up before)
      exact free above before own
    · exact fun free above before => (free above before).2

end ListRepeater.RowKey
