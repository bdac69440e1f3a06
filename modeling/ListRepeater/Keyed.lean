/-!
# Maps that keep the order of first insertion

A `Keyed` map is a list of entries with distinct keys. Inserting a known key keeps its place and
replaces its value; inserting a new key puts it last; erasing leaves the order of the others.
Two maps may be compared as lists of entries or, with `same`, without regard to the order.
-/
namespace ListRepeater

variable {κ ν μ : Type}

structure Keyed (κ ν : Type) where
  entries : List (κ × ν)
  nodup : (entries.map Prod.fst).Nodup
  deriving DecidableEq

namespace Entries

variable [DecidableEq κ]

/-- Entries with `k` bound to `v`: in place when `k` is known, at the end otherwise. -/
def put (k : κ) (v : ν) : List (κ × ν) → List (κ × ν)
  | [] => [(k, v)]
  | e :: rest => if e.1 = k then (k, v) :: rest else e :: put k v rest

theorem keys_put (k : κ) (v : ν) (es : List (κ × ν)) :
    (put k v es).map Prod.fst =
      if k ∈ es.map Prod.fst then es.map Prod.fst else es.map Prod.fst ++ [k] := by
  induction es with
  | nil => simp [put]
  | cons e rest ih =>
    by_cases h : e.1 = k
    · simp [put, h]
    · have h' : ¬ k = e.1 := fun e' => h e'.symm
      simp only [put, h, if_false, List.map_cons, ih, List.mem_cons, h', false_or]
      split <;> simp

theorem nodup_put (k : κ) (v : ν) {es : List (κ × ν)} (h : (es.map Prod.fst).Nodup) :
    ((put k v es).map Prod.fst).Nodup := by
  rw [keys_put]
  split
  · exact h
  · next hk => exact List.nodup_append.2 ⟨h, by simp, by
      intro a ha b hb e
      exact hk (by simp_all)⟩

/-- The value bound to `k`. -/
def find? (k : κ) : List (κ × ν) → Option ν
  | [] => none
  | e :: rest => if e.1 = k then some e.2 else find? k rest

theorem find?_put (k k' : κ) (v : ν) (es : List (κ × ν)) :
    find? k' (put k v es) = if k = k' then some v else find? k' es := by
  induction es with
  | nil => simp [put, find?]
  | cons e rest ih =>
    by_cases h : e.1 = k
    · by_cases h' : k = k' <;> simp [put, find?, h, h']
    · by_cases h' : k = k'
      · subst h'
        simp [put, find?, h, ih]
      · simp only [put, find?, h, if_false, ih, h']

theorem find?_isSome (k : κ) (es : List (κ × ν)) :
    (find? k es).isSome = true ↔ k ∈ es.map Prod.fst := by
  induction es with
  | nil => simp [find?]
  | cons e rest ih =>
    by_cases h : e.1 = k
    · simp [find?, h]
    · have h' : ¬ k = e.1 := fun e' => h e'.symm
      simp only [find?, h, if_false, List.map_cons, List.mem_cons, h', false_or, ih]

theorem find?_filter_ne (k k' : κ) (es : List (κ × ν)) :
    find? k' (es.filter fun e => e.1 ≠ k) = if k = k' then none else find? k' es := by
  induction es with
  | nil => simp [find?]
  | cons e rest ih =>
    by_cases h : e.1 = k
    · rw [List.filter_cons_of_neg (by simp [h]), ih]
      by_cases h' : k = k'
      · simp [h']
      · have : ¬ e.1 = k' := fun e' => h' (h.symm.trans e')
        simp only [h', if_false, find?, this]
    · rw [List.filter_cons_of_pos (by simp [h])]
      by_cases h' : k = k'
      · subst h'
        simp only [find?, h, if_false, ih, if_true]
      · simp only [find?, ih, h', if_false]

theorem mem_of_find? {k : κ} {v : ν} {es : List (κ × ν)} (h : find? k es = some v) :
    (k, v) ∈ es := by
  induction es with
  | nil => cases h
  | cons e rest ih =>
    by_cases hk : e.1 = k
    · simp only [find?, hk, if_true, Option.some.injEq] at h
      subst hk h
      exact List.mem_cons_self
    · simp only [find?, hk, if_false] at h
      exact List.mem_cons_of_mem e (ih h)

theorem find?_of_mem {k : κ} {v : ν} {es : List (κ × ν)} (hn : (es.map Prod.fst).Nodup)
    (h : (k, v) ∈ es) : find? k es = some v := by
  induction es with
  | nil => cases h
  | cons e rest ih =>
    simp only [List.map_cons, List.nodup_cons] at hn
    rcases List.mem_cons.1 h with rfl | h
    · simp [find?]
    · have hk : ¬ e.1 = k := by
        intro hk
        subst hk
        exact hn.1 (List.mem_map.2 ⟨_, h, rfl⟩)
      simp only [find?, hk, if_false]
      exact ih hn.2 h

end Entries

namespace Keyed

def empty : Keyed κ ν := ⟨[], by simp⟩

instance : EmptyCollection (Keyed κ ν) := ⟨empty⟩
instance : Inhabited (Keyed κ ν) := ⟨empty⟩

def keys (m : Keyed κ ν) : List κ := m.entries.map Prod.fst

def values (m : Keyed κ ν) : List ν := m.entries.map Prod.snd

def size (m : Keyed κ ν) : Nat := m.entries.length

def isEmpty (m : Keyed κ ν) : Bool := m.entries.isEmpty

theorem nodup_keys (m : Keyed κ ν) : m.keys.Nodup := m.nodup

section Lookup

variable [DecidableEq κ]

def find? (m : Keyed κ ν) (k : κ) : Option ν := Entries.find? k m.entries

def contains (m : Keyed κ ν) (k : κ) : Bool := (m.find? k).isSome

def insert (m : Keyed κ ν) (k : κ) (v : ν) : Keyed κ ν :=
  ⟨Entries.put k v m.entries, Entries.nodup_put k v m.nodup⟩

/-- The map that inserting the entries one by one leads to. -/
def ofList (es : List (κ × ν)) : Keyed κ ν :=
  es.foldl (fun m e => m.insert e.1 e.2) empty

def erase (m : Keyed κ ν) (k : κ) : Keyed κ ν :=
  ⟨m.entries.filter (fun e => e.1 ≠ k), m.nodup.sublist (List.filter_sublist.map _)⟩

theorem find?_insert (m : Keyed κ ν) (k k' : κ) (v : ν) :
    (m.insert k v).find? k' = if k = k' then some v else m.find? k' :=
  Entries.find?_put k k' v m.entries

theorem contains_iff (m : Keyed κ ν) (k : κ) : m.contains k = true ↔ k ∈ m.keys :=
  Entries.find?_isSome k m.entries

theorem find?_erase (m : Keyed κ ν) (k k' : κ) :
    (m.erase k).find? k' = if k = k' then none else m.find? k' :=
  Entries.find?_filter_ne k k' m.entries

theorem keys_erase (m : Keyed κ ν) (k : κ) : (m.erase k).keys = m.keys.filter (· ≠ k) := by
  simp [keys, erase, List.filter_map, Function.comp_def]

theorem find?_eq_some_iff (m : Keyed κ ν) (k : κ) (v : ν) :
    m.find? k = some v ↔ (k, v) ∈ m.entries :=
  ⟨Entries.mem_of_find?, Entries.find?_of_mem m.nodup⟩

/-- What a key is bound to after entries were inserted one by one: the last value among them. -/
theorem find?_foldl_insert (es : List (κ × ν)) (m : Keyed κ ν) (k : κ) :
    (es.foldl (fun m e => m.insert e.1 e.2) m).find? k =
      (Entries.find? k es.reverse).or (m.find? k) := by
  induction es generalizing m with
  | nil => simp [Entries.find?]
  | cons e rest ih =>
    rw [List.foldl_cons, ih, find?_insert, List.reverse_cons]
    have split : ∀ l : List (κ × ν), Entries.find? k (l ++ [e]) =
        (Entries.find? k l).or (if e.1 = k then some e.2 else none) := by
      intro l
      induction l with
      | nil => simp [Entries.find?]
      | cons x l ihl => by_cases hx : x.1 = k <;> simp [Entries.find?, hx, ihl]
    rw [split]
    cases Entries.find? k rest.reverse <;> by_cases h : e.1 = k <;> simp [h]

theorem find?_ofList (es : List (κ × ν)) (k : κ) :
    (ofList es).find? k = Entries.find? k es.reverse := by
  rw [ofList, find?_foldl_insert]
  exact Option.or_none

@[simp]
theorem find?_empty (k : κ) : (empty : Keyed κ ν).find? k = none := rfl

end Lookup

/-- The entries whose image is a value, with that value. -/
def filterMap (f : κ → ν → Option μ) (m : Keyed κ ν) : Keyed κ μ :=
  ⟨m.entries.filterMap (fun e => (f e.1 e.2).map (e.1, ·)), by
    refine m.nodup.sublist ?_
    induction m.entries with
    | nil => simp
    | cons e rest ih =>
      cases h : f e.1 e.2 with
      | none => simpa [List.filterMap_cons, h] using ih.trans (List.sublist_cons_self _ _)
      | some v => simpa [List.filterMap_cons, h] using ih⟩

def map (f : κ → ν → μ) (m : Keyed κ ν) : Keyed κ μ :=
  ⟨m.entries.map (fun e => (e.1, f e.1 e.2)), by
    simpa [List.map_map, Function.comp_def] using m.nodup⟩

theorem find?_map [DecidableEq κ] (f : κ → ν → μ) (m : Keyed κ ν) (k : κ) :
    (m.map f).find? k = (m.find? k).map (f k) := by
  obtain ⟨es, hn⟩ := m
  simp only [find?, map]
  clear hn
  induction es with
  | nil => rfl
  | cons e rest ih => by_cases h : e.1 = k <;> simp [Entries.find?, h, ih]

/-- Equal as maps: the same keys, in any order, with values that `eq` takes for equal. -/
def same [DecidableEq κ] (eq : ν → ν → Bool) (a b : Keyed κ ν) : Bool :=
  a.size == b.size && a.entries.all fun e => (b.find? e.1).any (eq e.2)

end Keyed

end ListRepeater
