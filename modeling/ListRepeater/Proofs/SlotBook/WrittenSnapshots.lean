import ListRepeater.Proofs.Json.Decoding
import ListRepeater.Proofs.Json.ReadBack
import ListRepeater.SlotBook.Snapshot
/-!
# Snapshots as they are written

A snapshot is read back from its text as it was, whatever characters its keys and ids hold: the
order of the slots, of the pools and of the ids in them is that of the text, and the count of minted
ids is read exactly as long as it has 64 bits. So a book that goes on from the text of a snapshot
goes on from the snapshot.
-/
namespace ListRepeater

open Json Json.Decoder

namespace SlotEntry

/-- How a member changes an entry. Members of other names, which are passed over, are left out, since
no entry is written with one. -/
def withMember? (key : String) (v : Json) : Option (SlotEntry → SlotEntry) :=
  match key with
  | "row" => (string? v).map fun s e => { e with row := ⟨s⟩ }
  | "templateWidgetId" => (string? v).map fun s e => { e with template := ⟨s⟩ }
  | "metaWidgetId" => (string? v).map fun s e => { e with id := ⟨s⟩ }
  | _ => none

def shape : Shape SlotEntry :=
  .ofFields default
    [⟨"row", Decoder.string.map fun s e => { e with row := ⟨s⟩ }⟩,
     ⟨"templateWidgetId", Decoder.string.map fun s e => { e with template := ⟨s⟩ }⟩,
     ⟨"metaWidgetId", Decoder.string.map fun s e => { e with id := ⟨s⟩ }⟩]

/-- The entry that a tree is read as. -/
def ofJson? : Json → Option SlotEntry := shape.ofTree withMember?

theorem reads_decoder : decoder.Reads tree ofJson? := by
  refine reads_ofFields ?_ fun key unknown v => ?_
  · exact List.forall_mem_cons.mpr ⟨follows_string.reads.map _, List.forall_mem_cons.mpr
      ⟨follows_string.reads.map _, List.forall_mem_singleton.mpr (follows_string.reads.map _)⟩⟩
  · unfold withMember?
    split
    iterate 3 exact absurd (by decide) unknown
    rfl

theorem ofJson?_toJson (e : SlotEntry) : ofJson? e.toJson = some e := rfl

theorem fits_toJson (e : SlotEntry) (depth : Nat) : Fits (depth + 1) e.toJson :=
  .obj (List.forall_mem_cons.mpr ⟨.str _, List.forall_mem_cons.mpr
    ⟨.str _, List.forall_mem_singleton.mpr (.str _)⟩⟩)

end SlotEntry

namespace Snapshot

/-- The ids that an array of strings is read as. -/
def ids? (v : Json) : Option (List WidgetId) := list? (fun v => (string? v).map WidgetId.mk) v

/-- How a member changes a snapshot. -/
def withMember? (key : String) (v : Json) : Option (Snapshot → Snapshot) :=
  match key with
  | "slots" => (list? SlotEntry.ofJson? v).map fun es s => { s with slots := es }
  | "released" => (keyed? WidgetId.mk ids? v).map fun m s => { s with parked := m }
  | "nextSeq" => (count? v).map fun n s => { s with minted := n }
  | _ => none

def shape : Shape Snapshot :=
  let ids := Decoder.list (Decoder.string.map WidgetId.mk)
  .ofFields ⟨[], .empty, 0⟩
    [⟨"slots", (Decoder.list SlotEntry.decoder).map fun es s => { s with slots := es }⟩,
     ⟨"released", (Decoder.keyed WidgetId.mk ids).map fun m s => { s with parked := m }⟩,
     ⟨"nextSeq", Decoder.count.map fun n s => { s with minted := n }⟩]

/-- The snapshot that a tree is read as. -/
def ofJson? : Json → Option Snapshot := shape.ofTree withMember?

theorem reads_decoder : decoder.Reads tree ofJson? := by
  refine reads_ofFields ?_ fun key unknown v => ?_
  · exact List.forall_mem_cons.mpr ⟨SlotEntry.reads_decoder.list.map _, List.forall_mem_cons.mpr
      ⟨(follows_string.map _).list.keyed.reads.map _,
        List.forall_mem_singleton.mpr (follows_count.reads.map _)⟩⟩
  · unfold withMember?
    split
    iterate 3 exact absurd (by decide) unknown
    rfl

theorem list?_slots (es : List SlotEntry) :
    list? SlotEntry.ofJson? (.arr (es.map SlotEntry.toJson)) = some es := by
  have items : ∀ e ∈ es, SlotEntry.ofJson? e.toJson = some (id e) := fun e _ => e.ofJson?_toJson
  rw [list?_map items, List.map_id]

theorem ids?_texts (ids : List WidgetId) : ids? (.arr (ids.map fun id => .str id.text)) = some ids := by
  have items : ∀ i ∈ ids, (string? (.str i.text)).map WidgetId.mk = some (id i) := fun _ _ => rfl
  rw [ids?, list?_map items, List.map_id]

theorem keyed?_pools (m : Keyed WidgetId (List WidgetId)) :
    keyed? WidgetId.mk ids? (.obj (m.entries.map fun e =>
      (e.1.text, .arr (e.2.map fun id => .str id.text)))) = some m := by
  let write (ids : List WidgetId) : Json := .arr (ids.map fun id => .str id.text)
  have pools : ∀ e ∈ m.entries, ids? (write e.2) = some e.2 := fun e _ => ids?_texts e.2
  exact keyed?_entries (fun _ => rfl) pools

theorem count?_int (n : Nat) : count? (.int n) = some n := by
  rw [count?, if_pos (Int.natCast_nonneg n), Int.toNat_natCast]

theorem ofJson?_toJson (s : Snapshot) : ofJson? s.toJson = some s := by
  have slots : withMember? "slots" (.arr (s.slots.map SlotEntry.toJson)) =
      some fun t => { t with slots := s.slots } := by
    simp only [withMember?, list?_slots, Option.map_some]
  have pools : withMember? "released" (.obj (s.parked.entries.map fun e =>
      (e.1.text, .arr (e.2.map fun id => .str id.text)))) =
      some fun t => { t with parked := s.parked } := by
    simp only [withMember?, keyed?_pools, Option.map_some]
  have minted : withMember? "nextSeq" (.int s.minted) =
      some fun t => { t with minted := s.minted } := by
    simp only [withMember?, count?_int, Option.map_some]
  exact Shape.ofTree_ofFields rfl (by decide) (.cons slots (.cons pools (.cons minted .nil))) rfl

/-- A snapshot nests three deep. -/
theorem fits_toJson {s : Snapshot} (small : s.minted ≤ Reader.greatestUnsigned) (depth : Nat) :
    Fits (depth + 3) s.toJson := by
  have slots : Fits (depth + 2) (.arr (s.slots.map SlotEntry.toJson)) :=
    .arr (List.forall_mem_map.mpr fun e _ => e.fits_toJson depth)
  have pools : Fits (depth + 2) (.obj (s.parked.entries.map fun e =>
      (e.1.text, .arr (e.2.map fun id => .str id.text)))) :=
    .obj (List.forall_mem_map.mpr fun e _ => .arr (List.forall_mem_map.mpr fun id _ => .str _))
  have minted : Fits (depth + 2) (.int s.minted) := .int ⟨by omega, by omega⟩
  exact .obj (List.forall_mem_cons.mpr ⟨slots, List.forall_mem_cons.mpr
    ⟨pools, List.forall_mem_singleton.mpr minted⟩⟩)

theorem isDoubleFree_toJson (s : Snapshot) : s.toJson.isDoubleFree = true := by
  have slots : (Json.arr (s.slots.map SlotEntry.toJson)).isDoubleFree = true :=
    isDoubleFree_arr_iff.mpr (List.forall_mem_map.mpr fun _ _ => rfl)
  have pools : (Json.obj (s.parked.entries.map fun e =>
      (e.1.text, .arr (e.2.map fun id => .str id.text)))).isDoubleFree = true :=
    isDoubleFree_obj_iff.mpr (List.forall_mem_map.mpr fun _ _ =>
      isDoubleFree_arr_iff.mpr (List.forall_mem_map.mpr fun _ _ => rfl))
  exact isDoubleFree_obj_iff.mpr (List.forall_mem_cons.mpr ⟨slots, List.forall_mem_cons.mpr
    ⟨pools, List.forall_mem_singleton.mpr rfl⟩⟩)

/-- A snapshot whose count has 64 bits is read back from its text with its slots, its pools and the
ids in them in their order, and a book goes on from the text as from the snapshot. -/
theorem read_text {s : Snapshot} (small : s.minted ≤ Reader.greatestUnsigned) (stem : String) :
    read s.text = .ok s ∧
      (read s.text).map (SlotBook.ofSnapshot stem) = .ok (.ofSnapshot stem s) := by
  have fits : Fits (124 + 3) s.toJson := fits_toJson small 124
  have source : readTree s.text = .ok s.toJson := readTree_compact fits s.isDoubleFree_toJson
  have back : read s.text = .ok s := reads_decoder.read_eq_ok source s.ofJson?_toJson
  exact ⟨back, by rw [back]; rfl⟩

/-- A snapshot with marks, control characters and letters beyond ASCII in its keys and ids, a slot
that stands twice, an empty pool and the greatest count. -/
def hostile : Snapshot where
  slots := [⟨⟨"a\"b\\c"⟩, ⟨"\x00\n\u2028"⟩, ⟨"é"⟩⟩, ⟨⟨"a\"b\\c"⟩, ⟨"\x00\n\u2028"⟩, ⟨""⟩⟩]
  parked := .ofList [(⟨"z,:"⟩, [⟨"meta_2"⟩, ⟨"\x1f\\u0041"⟩]), (⟨""⟩, []), (⟨"a"⟩, [⟨"\"]"⟩])]
  minted := Reader.greatestUnsigned

theorem read_text_hostile : hostile.minted ≤ Reader.greatestUnsigned ∧
    read hostile.text = .ok hostile ∧
    (read hostile.text).map (SlotBook.ofSnapshot "meta") = .ok (.ofSnapshot "meta" hostile) :=
  ⟨Nat.le_refl _, read_text (Nat.le_refl _) "meta"⟩

end Snapshot

end ListRepeater
