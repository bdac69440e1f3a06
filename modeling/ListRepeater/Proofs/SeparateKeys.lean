import ListRepeater.Repeater.RowKeys
import ListRepeater.SlotBook.Basic
import Mathlib.Data.List.Nodup
import Mathlib.Data.List.Perm.Subperm
import Mathlib.Tactic.ByContra
/-!
# Numbered names are distinct

Decimal digits tell numbers apart. So minted ids with different numbers differ, and the substitutes
of a taken row key differ from each other; one of them is free, and the rows of a window go by
distinct keys.
-/
namespace ListRepeater

theorem decimal_injective {m n : Nat} (h : decimal m = decimal n) : m = n := by
  have digits : Nat.toDigits 10 m = Nat.toDigits 10 n := by
    simpa [decimal, Json.natText] using congrArg String.toList h
  have numbers := congrArg (fun ds => Nat.ofDigitChars 10 ds 0) digits
  simpa using numbers

theorem append_left_injective {s t u : String} (h : s ++ t = s ++ u) : t = u := by
  have chars : s.toList ++ t.toList = s.toList ++ u.toList := by
    simpa only [String.toList_append] using congrArg String.toList h
  exact String.toList_inj.mp (List.append_cancel_left chars)

theorem SlotBook.mintedId_injective {stem : String} {m n : Nat}
    (h : SlotBook.mintedId stem m = SlotBook.mintedId stem n) : m = n := by
  have texts : stem ++ "_" ++ decimal m = stem ++ "_" ++ decimal n := congrArg WidgetId.text h
  exact decimal_injective (append_left_injective texts)

namespace RowKey

theorem substitute_injective {key : RowKey} {view m n : Nat}
    (h : key.substitute view m = key.substitute view n) : m = n := by
  have pointed : ∀ a b : String, a ≠ a ++ "." ++ b := by
    intro a b e
    have lengths := congrArg String.length e
    simp only [String.length_append] at lengths
    have : ".".length = 1 := rfl
    omega
  by_cases hm : m = 0
  · by_cases hn : n = 0
    · exact hm.trans hn.symm
    · simp only [substitute, hm, hn, if_true, if_false, RowKey.mk.injEq] at h
      exact False.elim (pointed _ _ h)
  · by_cases hn : n = 0
    · simp only [substitute, hm, hn, if_true, if_false, RowKey.mk.injEq] at h
      exact False.elim (pointed _ _ h.symm)
    · simp only [substitute, hm, hn, if_false, RowKey.mk.injEq] at h
      exact decimal_injective (append_left_injective h)

/-- More candidates than taken keys leave one that is free. -/
theorem exists_free (taken : List RowKey) (key : RowKey) (view : Nat) :
    ∃ n, n < taken.length + 1 ∧ key.substitute view n ∉ taken := by
  by_contra none
  have all : ∀ n, n < taken.length + 1 → key.substitute view n ∈ taken := by
    intro n hn
    by_contra free
    exact none ⟨n, hn, free⟩
  have distinct : ((List.range (taken.length + 1)).map (key.substitute view)).Nodup :=
    List.Nodup.map_on (fun _ _ _ _ h => substitute_injective h) List.nodup_range
  have within : (List.range (taken.length + 1)).map (key.substitute view) ⊆ taken := by
    intro k hk
    obtain ⟨n, hn, rfl⟩ := List.mem_map.mp hk
    exact all n (List.mem_range.mp hn)
  have count := (List.subperm_of_subset distinct within).length_le
  simp only [List.length_map, List.length_range] at count
  omega

/-- The first free substitute is a substitute, and it is free. -/
theorem firstFree_spec (taken : List RowKey) (key : RowKey) (view : Nat) :
    ∃ n, firstFree taken key view = key.substitute view n ∧ firstFree taken key view ∉ taken := by
  obtain ⟨n, hn, free⟩ := exists_free taken key view
  rw [firstFree]
  cases found : ((List.range (taken.length + 1)).map (key.substitute view)).find?
      (fun k => !taken.contains k) with
  | some k =>
    obtain ⟨m, -, rfl⟩ := List.mem_map.mp (List.mem_of_find?_eq_some found)
    exact ⟨m, rfl, by simpa using List.find?_some found⟩
  | none =>
    have := List.find?_eq_none.mp found (key.substitute view n)
      (List.mem_map_of_mem (List.mem_range.mpr hn))
    simp [free] at this

theorem firstFree_not_mem (taken : List RowKey) (key : RowKey) (view : Nat) :
    firstFree taken key view ∉ taken := by
  obtain ⟨-, -, free⟩ := firstFree_spec taken key view
  exact free

theorem separateFrom_apart (taken : List RowKey) (view : Nat) (keys : List RowKey) :
    (separateFrom taken view keys).Nodup ∧
      ∀ k ∈ separateFrom taken view keys, k ∉ taken := by
  induction keys generalizing taken view with
  | nil => simp [separateFrom]
  | cons k rest ih =>
    have own : (if taken.contains k then firstFree taken k view else k) ∉ taken := by
      split
      · exact firstFree_not_mem taken k view
      · next h => simpa using h
    obtain ⟨nodup, apart⟩ :=
      ih ((if taken.contains k then firstFree taken k view else k) :: taken) (view + 1)
    simp only [separateFrom, List.nodup_cons, List.mem_cons, forall_eq_or_imp]
    refine ⟨⟨fun h => apart _ h List.mem_cons_self, nodup⟩, own, ?_⟩
    intro k' hk' h
    exact apart k' hk' (List.mem_cons_of_mem _ h)

theorem nodup_separate (keys : List RowKey) : (separate keys).Nodup :=
  (separateFrom_apart [] 0 keys).1

/-- The keys of rows do not depend on the rows below them. -/
theorem separateFrom_take (taken : List RowKey) (view n : Nat) (keys : List RowKey) :
    separateFrom taken view (keys.take n) = (separateFrom taken view keys).take n := by
  induction keys generalizing taken view n with
  | nil => simp [separateFrom]
  | cons k rest ih =>
    cases n with
    | zero => rfl
    | succ n => simp only [List.take_succ_cons, separateFrom, ih]

theorem separate_take (n : Nat) (keys : List RowKey) :
    separate (keys.take n) = (separate keys).take n :=
  separateFrom_take [] 0 n keys

end RowKey

end ListRepeater
