import ListRepeater.Proofs.Json.ReadingTrees
import ListRepeater.Proofs.KeyedMaps
/-!
# Decoders follow the tree

A decoder makes its value while the text is read. It might as well read the whole tree first and
then make the value of it. What it would make of the tree is found decoder by decoder: a decoder
follows another one if it reads, from the same text and up to the same place, what a partial
function makes of what the other one reads.
-/
namespace ListRepeater.Json

open Reader

/-- The string that a tree is. -/
def string? : Json → Option String
  | .str s => some s
  | _ => none

/-- The count that a tree is. -/
def count? : Json → Option Nat
  | .int n => if 0 ≤ n then some n.toNat else none
  | _ => none

namespace Decoder

variable {α β γ : Type}

/-- The decoder reads what `f` makes of a value that the other one reads. -/
def Reads (d : Decoder α) (e : Decoder β) (f : β → Option α) : Prop :=
  ∀ ⦃size depth : Nat⦄ ⦃cs rest : List Char⦄ ⦃v : β⦄ ⦃x : α⦄,
    e size depth cs = .ok (v, rest) → f v = some x → d size depth cs = .ok (x, rest)

/-- The decoder reads nothing else. -/
def ReadsOnly (d : Decoder α) (e : Decoder β) (f : β → Option α) : Prop :=
  ∀ ⦃size depth : Nat⦄ ⦃cs rest : List Char⦄ ⦃x : α⦄,
    d size depth cs = .ok (x, rest) → ∃ v, e size depth cs = .ok (v, rest) ∧ f v = some x

/-- The decoder reads just what `f` makes of the values that the other one reads. -/
structure Follows (d : Decoder α) (e : Decoder β) (f : β → Option α) : Prop where
  reads : d.Reads e f
  only : d.ReadsOnly e f

section Combinators

variable {d : Decoder α} {e : Decoder β} {f : β → Option α}

theorem Reads.map (h : d.Reads e f) (g : α → γ) : (d.map g).Reads e fun v => (f v).map g := by
  intro size depth cs rest v y read made
  obtain ⟨x, own, rfl⟩ := Option.map_eq_some_iff.mp made
  exact map_eq_ok.mpr ⟨x, h read own, rfl⟩

theorem ReadsOnly.map (h : d.ReadsOnly e f) (g : α → γ) :
    (d.map g).ReadsOnly e fun v => (f v).map g := by
  intro size depth cs rest y read
  obtain ⟨x, own, rfl⟩ := map_eq_ok.mp read
  obtain ⟨v, source, made⟩ := h own
  exact ⟨v, source, congrArg (Option.map g) made⟩

theorem Follows.map (h : d.Follows e f) (g : α → γ) :
    (d.map g).Follows e fun v => (f v).map g :=
  ⟨h.reads.map g, h.only.map g⟩

theorem Reads.nested (h : d.Reads e f) : (nested d).Reads (nested e) f := by
  intro size depth cs rest v x read made
  cases depth with
  | zero => cases read
  | succ depth => exact h read made

theorem ReadsOnly.nested (h : d.ReadsOnly e f) : (nested d).ReadsOnly (nested e) f := by
  intro size depth cs rest x read
  cases depth with
  | zero => cases read
  | succ depth => exact h read

theorem Reads.items (h : d.Reads e f) : (items d).Reads (items e) fun vs => vs.mapM f := by
  intro size depth cs rest vs xs
  have loop : ∀ {n first cs vs xs}, elements (e size depth) n first cs = .ok (vs, rest) →
      vs.mapM f = some xs → elements (d size depth) n first cs = .ok (xs, rest) := by
    intro n
    induction n with
    | zero => exact fun read => nomatch read
    | succ n ih =>
      intro first cs vs xs read made
      rcases elements_eq_ok.mp read with
        ⟨closed, rfl⟩ | ⟨front, v, more, later, go, item, behind, rfl⟩
      · cases made
        exact elements_eq_ok.mpr (Or.inl ⟨closed, rfl⟩)
      · simp only [List.mapM_cons, Option.bind_eq_bind, Option.bind_eq_some_iff] at made
        obtain ⟨x, own, xs', others, same⟩ := made
        cases same
        exact elements_eq_ok.mpr
          (Or.inr ⟨front, x, more, xs', go, h item own, ih behind others, rfl⟩)
  exact loop

theorem ReadsOnly.items (h : d.ReadsOnly e f) :
    (items d).ReadsOnly (items e) fun vs => vs.mapM f := by
  intro size depth cs rest xs
  have loop : ∀ {n first cs xs}, elements (d size depth) n first cs = .ok (xs, rest) →
      ∃ vs, elements (e size depth) n first cs = .ok (vs, rest) ∧ vs.mapM f = some xs := by
    intro n
    induction n with
    | zero => exact fun read => nomatch read
    | succ n ih =>
      intro first cs xs read
      rcases elements_eq_ok.mp read with
        ⟨closed, rfl⟩ | ⟨front, x, more, later, go, item, behind, rfl⟩
      · exact ⟨[], elements_eq_ok.mpr (Or.inl ⟨closed, rfl⟩), rfl⟩
      · obtain ⟨v, source, own⟩ := h item
        obtain ⟨vs, sources, others⟩ := ih behind
        refine ⟨v :: vs, elements_eq_ok.mpr
          (Or.inr ⟨front, v, more, vs, go, source, sources, rfl⟩), ?_⟩
        simp [own, others]
  exact loop

end Combinators

theorem follows_tree : tree.Follows tree some where
  reads := by
    intro size depth cs rest v x read own
    cases own
    exact read
  only := fun _ _ _ _ x read => ⟨x, read, rfl⟩

section Scalars

variable {size depth : Nat} {cs rest : List Char}

theorem scalar_eq_ok {f : Json → Option α} {x : α} :
    scalar f size depth cs = .ok (x, rest) ↔
      Unopened cs ∧ ∃ v, Reader.scalar size (skipBlanks cs) = .ok (v, rest) ∧ f v = some x := by
  rcases opening_cases cs with ⟨body, h⟩ | ⟨body, h⟩ | h
  · have opened : ¬Unopened cs := fun none => (none body).1 h
    rw [scalar]
    simp [h, opened]
  · have opened : ¬Unopened cs := fun none => (none body).2 h
    rw [scalar]
    simp [h, opened]
  · rw [scalar]
    split
    · next body opened => exact absurd opened (h body).1
    · next body opened => exact absurd opened (h body).2
    · rw [bind_eq_ok]
      constructor
      · rintro ⟨⟨v, behind⟩, read, made⟩
        dsimp only at made
        split at made
        · next x' own =>
          cases made
          exact ⟨h, v, read, own⟩
        · cases made
      · rintro ⟨-, v, read, own⟩
        refine ⟨_, read, ?_⟩
        simp only [own]
        rfl

theorem follows_scalar {f : Json → Option α} (arr : ∀ vs, f (.arr vs) = none)
    (obj : ∀ es, f (.obj es) = none) : (scalar f).Follows tree f where
  reads := by
    intro size depth cs rest v x read own
    rcases tree_cases read with ⟨_, vs, -, -, rfl⟩ | ⟨_, es, -, -, rfl⟩ | ⟨unopened, read⟩
    · rw [arr] at own
      cases own
    · rw [obj] at own
      cases own
    · exact scalar_eq_ok.mpr ⟨unopened, v, read, own⟩
  only := by
    intro size depth cs rest x read
    obtain ⟨unopened, v, read, own⟩ := scalar_eq_ok.mp read
    exact ⟨v, (tree_of_unopened unopened).trans read, own⟩

theorem follows_string : Decoder.string.Follows tree string? :=
  follows_scalar (fun _ => rfl) fun _ => rfl

theorem follows_count : Decoder.count.Follows tree count? :=
  follows_scalar (fun _ => rfl) fun _ => rfl

theorem refused_ne_ok {x : α} : refused size depth cs ≠ .ok (x, rest) := by
  intro read
  obtain ⟨-, _, -, own⟩ := scalar_eq_ok.mp read
  cases own

/-- What is read where neither an array nor an object starts is neither. -/
theorem scalar_ne {v : Json} (read : Reader.scalar size cs = .ok (v, rest)) :
    (∀ vs, v ≠ .arr vs) ∧ ∀ es, v ≠ .obj es := by
  rcases scalar_cases read with ⟨_, -, -, rfl⟩ | ⟨_, rfl⟩ | ⟨_, rfl, -⟩ | ⟨_, rfl⟩ | ⟨_, rfl⟩ <;>
    exact ⟨fun _ => nofun, fun _ => nofun⟩

end Scalars

section Structured

variable {d : Decoder α} {f : Json → Option α}

/-- What is made of a tree that may be null. -/
def optional? (f : Json → Option α) : Json → Option (Option α)
  | .null => some none
  | v => (f v).map some

theorem optional?_of_ne {v : Json} (h : v ≠ .null) : optional? f v = (f v).map some := by
  cases v with
  | null => exact absurd rfl h
  | _ => rfl

/-- A null is told by its first letter. -/
theorem tree_of_letter {size depth : Nat} {cs rest body : List Char} {v : Json}
    (letter : skipBlanks cs = 'n' :: body) :
    tree size depth cs = .ok (v, rest) ↔ word ['u', 'l', 'l'] body = .ok rest ∧ v = .null := by
  have unopened : Unopened cs := fun _ => ⟨by simp [letter], by simp [letter]⟩
  have scalar : Reader.scalar size ('n' :: body) =
      (do return (.null, ← word ['u', 'l', 'l'] body)) := rfl
  rw [tree_of_unopened unopened, letter, scalar, bind_eq_ok]
  constructor
  · rintro ⟨behind, null, h⟩
    cases h
    exact ⟨null, rfl⟩
  · rintro ⟨null, rfl⟩
    exact ⟨rest, null, rfl⟩

theorem ne_null_of_tree {size depth : Nat} {cs rest : List Char} {v : Json}
    (other : ∀ body, skipBlanks cs ≠ 'n' :: body) (read : tree size depth cs = .ok (v, rest)) :
    v ≠ .null := by
  rintro rfl
  rcases tree_cases read with ⟨_, _, -, -, e⟩ | ⟨_, _, -, -, e⟩ | ⟨-, scalar⟩
  · cases e
  · cases e
  · rcases scalar_cases scalar with ⟨body, letter, -, -⟩ | ⟨_, e⟩ | ⟨_, e, -⟩ | ⟨_, e⟩ | ⟨_, e⟩
    · exact other body letter
    all_goals cases e

theorem Follows.optional (h : d.Follows tree f) : (optional d).Follows tree (optional? f) where
  reads := by
    intro size depth cs rest v x read own
    rw [Decoder.optional]
    split
    · next body letter =>
      obtain ⟨null, rfl⟩ := (tree_of_letter letter).mp read
      cases own
      exact bind_eq_ok.mpr ⟨rest, null, rfl⟩
    · next other =>
      rw [optional?_of_ne (ne_null_of_tree other read)] at own
      rw [← tree_skipBlanks] at read
      exact (h.map some).reads read own
  only := by
    intro size depth cs rest x read
    rw [Decoder.optional] at read
    split at read
    · next body letter =>
      obtain ⟨behind, null, e⟩ := bind_eq_ok.mp read
      cases e
      exact ⟨.null, (tree_of_letter letter).mpr ⟨null, rfl⟩, rfl⟩
    · next other =>
      obtain ⟨v, read, own⟩ := (h.map some).only read
      rw [tree_skipBlanks] at read
      exact ⟨v, read, (optional?_of_ne (ne_null_of_tree other read)).trans own⟩

/-- What is made of the items of an array. -/
def list? (f : Json → Option α) : Json → Option (List α)
  | .arr vs => vs.mapM f
  | _ => none

theorem Reads.list (h : d.Reads tree f) : (list d).Reads tree (list? f) := by
  intro size depth cs rest v xs read own
  rcases tree_cases read with ⟨body, vs, opened, inner, rfl⟩ | ⟨_, es, -, -, rfl⟩ | ⟨-, scalar⟩
  · rw [Decoder.list]
    simp only [opened]
    exact h.items.nested inner own
  · cases own
  · cases v with
    | arr vs => exact absurd rfl ((scalar_ne scalar).1 vs)
    | _ => cases own

theorem ReadsOnly.list (h : d.ReadsOnly tree f) : (list d).ReadsOnly tree (list? f) := by
  intro size depth cs rest xs read
  rw [Decoder.list] at read
  split at read
  · next body opened =>
    obtain ⟨vs, inner, own⟩ := h.items.nested read
    exact ⟨.arr vs, by rw [tree_of_bracket opened, map_eq_ok]; exact ⟨vs, inner, rfl⟩, own⟩
  · exact absurd read refused_ne_ok

theorem Follows.list (h : d.Follows tree f) : (list d).Follows tree (list? f) :=
  ⟨h.reads.list, h.only.list⟩

/-- A list is made of what its items are written as. -/
theorem list?_map {xs : List γ} {write : γ → Json} {g : γ → α}
    (items : ∀ x ∈ xs, f (write x) = some (g x)) :
    list? f (.arr (xs.map write)) = some (xs.map g) := by
  rw [list?]
  induction xs with
  | nil => rfl
  | cons x xs ih =>
    obtain ⟨own, others⟩ := List.forall_mem_cons.mp items
    rw [List.map_cons, List.mapM_cons, own, ih others]
    rfl

end Structured

end Decoder

open Decoder

namespace Shape

variable {σ : Type} (sh : Shape σ) (r : String → Json → Option (σ → σ))

/-- What reads the value of a member. -/
def valueOf (k : String) : Decoder (σ → σ) :=
  match sh.member? k with
  | some m => m.value
  | none => sh.other k

/-- What is read of an object with one more member. -/
def take (p : Progress σ) (k : String) (v : Json) : Option (Progress σ) :=
  match sh.member? k with
  | some _ => if p.seen.contains k then none else (r k v).map fun f => ⟨k :: p.seen, f p.value⟩
  | none => (r k v).map fun f => ⟨p.seen, f p.value⟩

def takeAll (p : Progress σ) (es : List (String × Json)) : Option (Progress σ) :=
  es.foldlM (fun p e => sh.take r p e.1 e.2) p

/-- The value that is read, if no needed member is missing. -/
def finish? (p : Progress σ) : Option σ :=
  if sh.needed.all p.seen.contains then some p.value else none

/-- What is made of an object, whose members are read from their trees as `r` has it. -/
def ofEntries (es : List (String × Json)) : Option σ :=
  (sh.takeAll r ⟨[], sh.start⟩ es).bind sh.finish?

def ofTree : Json → Option σ
  | .obj es => sh.ofEntries r es
  | _ => none

variable {sh r}

theorem finish?_eq_some {p : Progress σ} {s : σ} :
    sh.finish? p = some s ↔ sh.needed.all p.seen.contains = true ∧ p.value = s := by
  rw [finish?]
  split
  · next complete => simp [complete]
  · next missing => simp [missing]

theorem member?_eq_some {k : String} {m : Member σ} (h : sh.member? k = some m) :
    m ∈ sh.members ∧ m.name = k := by
  have name := List.find?_some h
  exact ⟨List.mem_of_find?_eq_some h, by simpa using name⟩

theorem member?_eq_none_iff {k : String} :
    sh.member? k = none ↔ k ∉ sh.members.map Member.name := by
  simp [member?, List.find?_eq_none]

section Members

variable {size depth : Nat} {p p' : Progress σ} {k : String} {cs rest : List Char} {v : Json}

theorem exists_step (h : ∀ k, (sh.valueOf k).Reads tree (r k))
    (read : tree size depth cs = .ok (v, rest)) (taken : sh.take r p k v = some p') :
    ∃ value, sh.step size depth p k = .ok value ∧ value cs = .ok (p', rest) := by
  have own := h k
  rw [take] at taken
  rw [valueOf] at own
  rw [step]
  split at taken
  · next found =>
    simp only [found] at own ⊢
    split at taken
    · cases taken
    · next fresh =>
      obtain ⟨f, made, rfl⟩ := Option.map_eq_some_iff.mp taken
      rw [if_neg fresh]
      exact ⟨_, rfl, map_eq_ok.mpr ⟨f, own read made, rfl⟩⟩
  · next unknown =>
    simp only [unknown] at own ⊢
    obtain ⟨f, made, rfl⟩ := Option.map_eq_some_iff.mp taken
    exact ⟨_, rfl, map_eq_ok.mpr ⟨f, own read made, rfl⟩⟩

theorem exists_take (h : ∀ k, (sh.valueOf k).ReadsOnly tree (r k))
    {value : List Char → Except Fault (Front (Progress σ))}
    (step : sh.step size depth p k = .ok value) (read : value cs = .ok (p', rest)) :
    ∃ v, tree size depth cs = .ok (v, rest) ∧ sh.take r p k v = some p' := by
  have own := h k
  rw [Shape.step] at step
  rw [valueOf] at own
  split at step
  · next found =>
    simp only [found] at own
    split at step
    · cases step
    · next fresh =>
      cases step
      obtain ⟨f, inner, rfl⟩ := map_eq_ok.mp read
      obtain ⟨v, source, made⟩ := own inner
      refine ⟨v, source, ?_⟩
      simp only [take, found, if_neg fresh, made, Option.map_some]
  · next unknown =>
    simp only [unknown] at own
    cases step
    obtain ⟨f, inner, rfl⟩ := map_eq_ok.mp read
    obtain ⟨v, source, made⟩ := own inner
    refine ⟨v, source, ?_⟩
    simp only [take, unknown, made, Option.map_some]

end Members

section Bodies

theorem takeAll_cons {p p' : Progress σ} {e : String × Json} {es : List (String × Json)} :
    sh.takeAll r p (e :: es) = some p' ↔
      ∃ q, sh.take r p e.1 e.2 = some q ∧ sh.takeAll r q es = some p' := by
  simp only [takeAll, List.foldlM_cons, Option.bind_eq_bind, Option.bind_eq_some_iff]

theorem value_of_take {p q : Progress σ} {k : String} {v : Json}
    (taken : sh.take r p k v = some q) : ∃ f, r k v = some f ∧ f p.value = q.value := by
  rw [take] at taken
  split at taken
  · split at taken
    · cases taken
    · obtain ⟨f, made, rfl⟩ := Option.map_eq_some_iff.mp taken
      exact ⟨f, made, rfl⟩
  · obtain ⟨f, made, rfl⟩ := Option.map_eq_some_iff.mp taken
    exact ⟨f, made, rfl⟩

/-- What no member changes stands at the end as at the start. -/
theorem preserved_of_takeAll {I : σ → Prop} {p p' : Progress σ} {es : List (String × Json)}
    (step : ∀ e ∈ es, ∀ f, r e.1 e.2 = some f → ∀ s, I s → I (f s))
    (taken : sh.takeAll r p es = some p') (start : I p.value) : I p'.value := by
  induction es generalizing p with
  | nil =>
    cases taken
    exact start
  | cons e es ih =>
    obtain ⟨q, one, all⟩ := takeAll_cons.mp taken
    obtain ⟨first, others⟩ := List.forall_mem_cons.mp step
    obtain ⟨f, made, value⟩ := value_of_take one
    exact ih others all (value ▸ first f made p.value start)

theorem preserved_of_ofTree {I : σ → Prop} {v : Json} {s : σ} (made : sh.ofTree r v = some s)
    (step : ∀ es, v = .obj es → ∀ e ∈ es, ∀ f, r e.1 e.2 = some f → ∀ s, I s → I (f s))
    (start : I sh.start) : I s := by
  cases v with
  | obj es =>
    obtain ⟨p, taken, finished⟩ := Option.bind_eq_some_iff.mp made
    obtain ⟨-, rfl⟩ := finish?_eq_some.mp finished
    exact preserved_of_takeAll (step es rfl) taken start
  | _ => cases made

theorem takeAll_append {p : Progress σ} {es es' : List (String × Json)} :
    sh.takeAll r p (es ++ es') = (sh.takeAll r p es).bind fun q => sh.takeAll r q es' :=
  List.foldlM_append

/-- A structure is made of an object of its fields in order, as each of them has it. -/
theorem ofTree_ofFields {start : σ} {members : List (Member σ)} {es : List (String × Json)}
    {fs : List (σ → σ)} {s : σ} (names : es.map Prod.fst = members.map Member.name)
    (distinct : (members.map Member.name).Nodup)
    (made : List.Forall₂ (fun e f => r e.1 e.2 = some f) es fs)
    (value : fs.foldl (fun s f => f s) start = s) :
    (ofFields start members).ofTree r (.obj es) = some s := by
  have loop : ∀ (es : List (String × Json)) (fs : List (σ → σ)) (p : Progress σ),
      List.Forall₂ (fun e f => r e.1 e.2 = some f) es fs → (es.map Prod.fst).Nodup →
      (∀ e ∈ es, e.1 ∈ members.map Member.name ∧ e.1 ∉ p.seen) →
      (ofFields start members).takeAll r p es =
        some ⟨(es.map Prod.fst).reverse ++ p.seen, fs.foldl (fun s f => f s) p.value⟩ := by
    intro es fs p made
    induction made generalizing p with
    | nil => exact fun _ _ => rfl
    | @cons e f es fs own _ ih =>
      intro nodup fresh
      obtain ⟨other, nodup⟩ := List.nodup_cons.mp nodup
      obtain ⟨⟨field, unseen⟩, fresh⟩ := List.forall_mem_cons.mp fresh
      obtain ⟨m, found⟩ : ∃ m, (ofFields start members).member? e.1 = some m :=
        Option.ne_none_iff_exists'.mp fun none => member?_eq_none_iff.mp none field
      have step : (ofFields start members).take r p e.1 e.2 = some ⟨e.1 :: p.seen, f p.value⟩ := by
        rw [take, found, own]
        simp [unseen]
      refine takeAll_cons.mpr ⟨_, step, (ih _ nodup fun x hx => ⟨(fresh x hx).1, ?_⟩).trans ?_⟩
      · refine List.not_mem_cons_of_ne_of_not_mem (fun same => ?_) (fresh x hx).2
        exact other (same ▸ List.mem_map_of_mem hx)
      · simp
  have all := loop es fs ⟨[], start⟩ made (names ▸ distinct) fun e he =>
    ⟨names ▸ List.mem_map_of_mem he, List.not_mem_nil⟩
  refine Option.bind_eq_some_iff.mpr ⟨_, all, finish?_eq_some.mpr ⟨?_, value⟩⟩
  refine List.all_eq_true.mpr fun name hname => ?_
  rw [List.append_nil, List.contains_iff_mem, List.mem_reverse, names]
  exact hname

/-- The members of an object are taken one by one, in the order in which they are collected. -/
theorem reads_members (h : ∀ k, (sh.valueOf k).Reads tree (r k)) {size depth n : Nat} {first : Bool}
    {before es : List (String × Json)} {cs rest : List Char}
    (read : Reader.members (Reader.string size) (collect size depth) n first before cs =
      .ok (es, rest)) :
    ∃ more, es = more.reverse ++ before ∧ ∀ p p', sh.takeAll r p more = some p' →
      Reader.members (Reader.string size) (sh.step size depth) n first p cs = .ok (p', rest) := by
  induction n generalizing first before cs with
  | zero => cases read
  | succ n ih =>
    rcases members_eq_ok.mp read with ⟨closed, rfl⟩ |
      ⟨front, k, behind, _, colon, _, _, go, key, step, hcolon, value, members⟩
    · refine ⟨[], rfl, fun p p' taken => ?_⟩
      cases taken
      exact members_eq_ok.mpr (Or.inl ⟨closed, rfl⟩)
    · cases step
      obtain ⟨v, own, rfl⟩ := map_eq_ok.mp value
      obtain ⟨more, rfl, later⟩ := ih members
      refine ⟨(k, v) :: more, by simp, fun p p' taken => ?_⟩
      obtain ⟨q, one, all⟩ := takeAll_cons.mp taken
      obtain ⟨value, step, read⟩ := exists_step h own one
      exact members_eq_ok.mpr
        (Or.inr ⟨front, k, behind, value, colon, q, _, go, key, step, hcolon, read, later q p' all⟩)

theorem readsOnly_members (h : ∀ k, (sh.valueOf k).ReadsOnly tree (r k)) {size depth n : Nat}
    {first : Bool} {p p' : Progress σ} {cs rest : List Char}
    (read : Reader.members (Reader.string size) (sh.step size depth) n first p cs =
      .ok (p', rest)) :
    ∃ more, sh.takeAll r p more = some p' ∧ ∀ before,
      Reader.members (Reader.string size) (collect size depth) n first before cs =
        .ok (more.reverse ++ before, rest) := by
  induction n generalizing first p cs with
  | zero => cases read
  | succ n ih =>
    rcases members_eq_ok.mp read with ⟨closed, rfl⟩ |
      ⟨front, k, behind, value, colon, q, later, go, key, step, hcolon, read, members⟩
    · exact ⟨[], rfl, fun before => members_eq_ok.mpr (Or.inl ⟨closed, rfl⟩)⟩
    · obtain ⟨v, own, one⟩ := exists_take h step read
      obtain ⟨more, all, members⟩ := ih members
      refine ⟨(k, v) :: more, takeAll_cons.mpr ⟨q, one, all⟩, fun before => ?_⟩
      rw [List.reverse_cons, List.append_assoc]
      exact members_eq_ok.mpr (Or.inr ⟨front, k, behind, _, colon, _, later, go, key, rfl,
        hcolon, map_eq_ok.mpr ⟨v, own, rfl⟩, members ((k, v) :: before)⟩)

theorem body_eq_ok {size depth : Nat} {cs rest : List Char} {x : σ} :
    sh.body size depth cs = .ok (x, rest) ↔
      ∃ p, Reader.members (Reader.string size) (sh.step size depth) size true ⟨[], sh.start⟩ cs =
        .ok (p, rest) ∧ sh.finish? p = some x := by
  rw [body, bind_eq_ok]
  constructor
  · rintro ⟨⟨p, behind⟩, read, h⟩
    dsimp only at h
    split at h
    · next complete =>
      cases h
      exact ⟨p, read, finish?_eq_some.mpr ⟨complete, rfl⟩⟩
    · cases h
  · rintro ⟨p, read, finished⟩
    obtain ⟨complete, rfl⟩ := finish?_eq_some.mp finished
    exact ⟨_, read, if_pos complete⟩

theorem reads_body (h : ∀ k, (sh.valueOf k).Reads tree (r k)) :
    sh.body.Reads entries fun es => sh.ofEntries r es.reverse := by
  intro size depth cs rest es x read own
  obtain ⟨more, rfl, members⟩ := reads_members h read
  simp only [List.append_nil, List.reverse_reverse] at own
  obtain ⟨p, taken, finished⟩ := Option.bind_eq_some_iff.mp own
  exact body_eq_ok.mpr ⟨p, members _ p taken, finished⟩

theorem readsOnly_body (h : ∀ k, (sh.valueOf k).ReadsOnly tree (r k)) :
    sh.body.ReadsOnly entries fun es => sh.ofEntries r es.reverse := by
  intro size depth cs rest x read
  obtain ⟨p, read, finished⟩ := body_eq_ok.mp read
  obtain ⟨more, taken, members⟩ := readsOnly_members h read
  refine ⟨_, members [], ?_⟩
  simp only [List.append_nil, List.reverse_reverse]
  exact Option.bind_eq_some_iff.mpr ⟨p, taken, finished⟩

end Bodies

end Shape

namespace Decoder

variable {σ κ α : Type} {sh : Shape σ} {r : String → Json → Option (σ → σ)}

/-- What reads the body of its shape behind an opening brace reads what is made of an object. -/
theorem reads_ofTree {d : Decoder σ} (h : ∀ k, (sh.valueOf k).Reads tree (r k))
    (opens : ∀ {size depth : Nat} {cs body : List Char}, skipBlanks cs = '\x7b' :: body →
      d size depth cs = nested sh.body size depth body) : d.Reads tree (sh.ofTree r) := by
  intro size depth cs rest v x read own
  rcases tree_cases read with ⟨_, vs, -, -, rfl⟩ | ⟨body, es, opened, inner, rfl⟩ | ⟨-, scalar⟩
  · cases own
  · rw [opens opened]
    exact (Shape.reads_body h).nested inner own
  · cases v with
    | obj es => exact absurd rfl ((scalar_ne scalar).2 es)
    | _ => cases own

theorem Reads.object (h : ∀ k, (sh.valueOf k).Reads tree (r k)) :
    (object sh).Reads tree (sh.ofTree r) :=
  reads_ofTree h fun opened => by rw [Decoder.object]; simp only [opened]

/-- A structure is read from an object with no other members than its fields. -/
theorem reads_ofFields {start : σ} {members : List (Member σ)}
    (known : ∀ m ∈ members, m.value.Reads tree (r m.name))
    (others : ∀ k ∉ members.map Member.name, ∀ v, r k v = none) :
    (fields (.ofFields start members)).Reads tree ((Shape.ofFields start members).ofTree r) := by
  refine reads_ofTree (fun k => ?_) fun opened => by rw [Decoder.fields]; simp only [opened]
  rw [Shape.valueOf]
  split
  · next m found =>
    obtain ⟨hm, rfl⟩ := Shape.member?_eq_some found
    exact known m hm
  · next unknown =>
    intro size depth cs rest v f _ made
    rw [others k (Shape.member?_eq_none_iff.mp unknown)] at made
    cases made

theorem ReadsOnly.object (h : ∀ k, (sh.valueOf k).ReadsOnly tree (r k)) :
    (object sh).ReadsOnly tree (sh.ofTree r) := by
  intro size depth cs rest x read
  rw [Decoder.object] at read
  split at read
  · next body opened =>
    obtain ⟨es, inner, own⟩ := (Shape.readsOnly_body h).nested read
    exact ⟨.obj es.reverse, by rw [tree_of_brace opened, map_eq_ok]; exact ⟨es, inner, rfl⟩, own⟩
  · exact absurd read refused_ne_ok

theorem Follows.object (h : ∀ k, (sh.valueOf k).Follows tree (r k)) :
    (object sh).Follows tree (sh.ofTree r) :=
  ⟨.object fun k => (h k).reads, .object fun k => (h k).only⟩

/-- What is made of an object whose members are all values of one shape. -/
def keyed? [DecidableEq κ] (key : String → κ) (f : Json → Option α) : Json → Option (Keyed κ α)
  | .obj es => es.foldlM (fun m e => (f e.2).map fun x => m.insert (key e.1) x) .empty
  | _ => none

section Maps

variable [DecidableEq κ] {key : String → κ} {d : Decoder α} {f : Json → Option α}

theorem takeAll_keyed (seen : List String) (m : Keyed κ α) (es : List (String × Json)) :
    (Shape.keyed key d).takeAll (fun k v => (f v).map fun x m => m.insert (key k) x) ⟨seen, m⟩ es =
      (es.foldlM (fun m e => (f e.2).map fun x => m.insert (key e.1) x) m).map (⟨seen, ·⟩) := by
  induction es generalizing m with
  | nil => rfl
  | cons e es ih =>
    rw [Shape.takeAll, List.foldlM_cons, List.foldlM_cons]
    cases made : f e.2 with
    | none => simp [Shape.take, Shape.member?, Shape.keyed, made]
    | some x =>
      have step : (Shape.keyed key d).take (fun k v => (f v).map fun x m => m.insert (key k) x)
          ⟨seen, m⟩ e.1 e.2 = some ⟨seen, m.insert (key e.1) x⟩ := by
        simp [Shape.take, Shape.member?, Shape.keyed, made]
      rw [step]
      exact ih (m.insert (key e.1) x)

theorem ofTree_keyed (v : Json) :
    (Shape.keyed key d).ofTree (fun k v => (f v).map fun x m => m.insert (key k) x) v =
      keyed? key f v := by
  cases v with
  | obj es =>
    rw [Shape.ofTree, Shape.ofEntries, keyed?]
    show ((Shape.keyed key d).takeAll _ ⟨[], .empty⟩ es).bind _ = _
    rw [takeAll_keyed]
    cases es.foldlM (fun m e => (f e.2).map fun x => m.insert (key e.1) x) Keyed.empty <;> rfl
  | _ => rfl

theorem mem_of_keyed? {v : Json} {m : Keyed κ α} (made : keyed? key f v = some m) :
    ∃ es, v = .obj es ∧ ∀ e ∈ m.entries, ∃ x ∈ es, key x.1 = e.1 ∧ f x.2 = some e.2 := by
  have loop : ∀ {es : List (String × Json)} {m₀ m : Keyed κ α},
      es.foldlM (fun m e => (f e.2).map fun x => m.insert (key e.1) x) m₀ = some m →
      ∀ e ∈ m.entries, e ∈ m₀.entries ∨ ∃ x ∈ es, key x.1 = e.1 ∧ f x.2 = some e.2 := by
    intro es
    induction es with
    | nil =>
      intro m₀ m made e he
      cases made
      exact Or.inl he
    | cons x es ih =>
      intro m₀ m made e he
      rw [List.foldlM_cons] at made
      obtain ⟨m₁, step, made⟩ := Option.bind_eq_some_iff.mp made
      obtain ⟨y, own, rfl⟩ := Option.map_eq_some_iff.mp step
      rcases ih made e he with he | ⟨z, hz, h⟩
      · rcases Keyed.mem_entries_insert he with rfl | he
        · exact Or.inr ⟨x, List.mem_cons_self, rfl, own⟩
        · exact Or.inl he
      · exact Or.inr ⟨z, List.mem_cons_of_mem x hz, h⟩
  cases v with
  | obj es => exact ⟨es, rfl, fun e he => (loop made e he).resolve_left List.not_mem_nil⟩
  | _ => cases made

/-- A map is made of what its entries are written as. -/
theorem keyed?_entries {m : Keyed κ α} {text : κ → String} {write : α → Json}
    (keys : ∀ k, key (text k) = k) (values : ∀ e ∈ m.entries, f (write e.2) = some e.2) :
    keyed? key f (.obj (m.entries.map fun e => (text e.1, write e.2))) = some m := by
  have loop : ∀ (es : List (κ × α)) (m₀ : Keyed κ α), (∀ e ∈ es, f (write e.2) = some e.2) →
      (es.map fun e => (text e.1, write e.2)).foldlM
        (fun m e => (f e.2).map fun x => m.insert (key e.1) x) m₀ =
        some (es.foldl (fun m e => m.insert e.1 e.2) m₀) := by
    intro es
    induction es with
    | nil => exact fun m₀ _ => rfl
    | cons e es ih =>
      intro m₀ values
      obtain ⟨own, others⟩ := List.forall_mem_cons.mp values
      simp only [List.map_cons, List.foldlM_cons, own, keys, Option.map_some, List.foldl_cons]
      exact ih _ others
  exact (loop m.entries .empty values).trans (congrArg some m.ofList_entries)

theorem Follows.keyed (h : d.Follows tree f) :
    (Decoder.keyed key d).Follows tree (keyed? key f) := by
  have members : ∀ k, ((Shape.keyed key d).valueOf k).Follows tree
      fun v => (f v).map fun x m => m.insert (key k) x :=
    fun k => h.map fun x (m : Keyed κ α) => m.insert (key k) x
  have object := Follows.object members
  rwa [funext ofTree_keyed] at object

end Maps

/-- What a decoder makes of the tree that a whole text is read as, it reads of the text. -/
theorem Reads.read_eq_ok {d : Decoder α} {f : Json → Option α} (h : d.Reads tree f)
    {text : String} {v : Json} {x : α} (source : readTree text = .ok v) (own : f v = some x) :
    d.read text = .ok x := by
  obtain ⟨rest, read, ends⟩ := Decoder.read_eq_ok.mp source
  exact Decoder.read_eq_ok.mpr ⟨rest, h read own, ends⟩

/-- What a decoder reads of a whole text is made of the tree that the text is read as. -/
theorem Follows.read_eq_ok {d : Decoder α} {f : Json → Option α} (h : d.Follows tree f)
    {text : String} {x : α} : d.read text = .ok x ↔ ∃ v, readTree text = .ok v ∧ f v = some x := by
  refine ⟨fun read => ?_, fun ⟨_, source, own⟩ => h.reads.read_eq_ok source own⟩
  obtain ⟨rest, read, ends⟩ := Decoder.read_eq_ok.mp read
  obtain ⟨v, source, own⟩ := h.only read
  exact ⟨v, Decoder.read_eq_ok.mpr ⟨rest, source, ends⟩, own⟩

end Decoder

end ListRepeater.Json
