import ListRepeater.Repeater.Basic
/-!
# Mounting what passes bring forth

A client of a repeater keeps the instances that are mounted. It takes away what a pass removed and
puts in what the pass made, over an instance of the same id.
-/
namespace ListRepeater

abbrev Mounted := Keyed WidgetId Instance

namespace Emission

/-- What is mounted after the emission. -/
def applyTo (e : Emission) (m : Mounted) : Mounted :=
  e.instances.entries.foldl (fun m i => m.insert i.1 i.2) (e.removed.foldl Keyed.erase m)

theorem find?_foldl_erase (ids : List WidgetId) (m : Mounted) (id : WidgetId) :
    (ids.foldl Keyed.erase m).find? id = if id ∈ ids then none else m.find? id := by
  induction ids generalizing m with
  | nil => simp
  | cons x rest ih =>
    rw [List.foldl_cons, ih, Keyed.find?_erase]
    by_cases h : id ∈ rest
    · simp [h]
    · by_cases h' : x = id
      · simp [h']
      · have h'' : ¬ id = x := fun e => h' e.symm
        simp [h, h', h'']

/-- After an emission an id stands for the instance that was made under it, and otherwise for what
it stood for unless that was removed. -/
theorem find?_applyTo (e : Emission) (m : Mounted) (id : WidgetId) :
    (e.applyTo m).find? id =
      (e.instances.find? id).or (if id ∈ e.removed then none else m.find? id) := by
  rw [applyTo, Keyed.find?_foldl_insert, find?_foldl_erase]
  congr 1
  have hn : (e.instances.entries.reverse.map Prod.fst).Nodup := by
    rw [List.map_reverse]
    exact (List.reverse_perm _).nodup_iff.2 e.instances.nodup
  cases h : e.instances.find? id with
  | some i =>
    have := (Keyed.find?_eq_some_iff e.instances id i).1 h
    exact Entries.find?_of_mem hn (List.mem_reverse.2 this)
  | none =>
    cases h' : Entries.find? id e.instances.entries.reverse with
    | none => rfl
    | some i =>
      have := (Keyed.find?_eq_some_iff e.instances id i).2
        (List.mem_reverse.1 (Entries.mem_of_find? h'))
      rw [h] at this
      cases this

end Emission

/-- A repeater with the instances that its client has mounted. -/
structure Client where
  repeater : Repeater
  mounted : Mounted

end ListRepeater
