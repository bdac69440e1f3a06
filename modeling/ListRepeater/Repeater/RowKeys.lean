import ListRepeater.Id
/-!
# Separate keys for the rows of a window

Records may share a key. A row whose key was taken by a row above it goes by the key with its view
index behind a number sign, or if that is taken too, with a further count. So the rows of a window
have distinct keys.
-/
namespace ListRepeater.RowKey

/-- The keys that a row may take instead of its own, by number of attempt. -/
def substitute (key : RowKey) (view attempt : Nat) : RowKey :=
  let base := key.text ++ "#" ++ decimal view
  if attempt = 0 then ⟨base⟩ else ⟨base ++ "." ++ decimal attempt⟩

/-- The first substitute that is free. As many attempts as there are taken keys, and one more, are
enough. -/
def firstFree (taken : List RowKey) (key : RowKey) (view : Nat) : RowKey :=
  (((List.range (taken.length + 1)).map (key.substitute view)).find?
    (fun k => !taken.contains k)).getD key

def separateFrom (taken : List RowKey) (view : Nat) : List RowKey → List RowKey
  | [] => []
  | k :: rest =>
    let own := if taken.contains k then firstFree taken k view else k
    own :: separateFrom (own :: taken) (view + 1) rest

/-- The keys under which rows with these keys are shown. -/
def separate (keys : List RowKey) : List RowKey := separateFrom [] 0 keys

theorem length_separateFrom (taken : List RowKey) (view : Nat) (keys : List RowKey) :
    (separateFrom taken view keys).length = keys.length := by
  induction keys generalizing taken view with
  | nil => rfl
  | cons k rest ih => simp [separateFrom, ih]

theorem length_separate (keys : List RowKey) : (separate keys).length = keys.length :=
  length_separateFrom [] 0 keys

end ListRepeater.RowKey
