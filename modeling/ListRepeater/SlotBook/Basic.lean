import ListRepeater.Event
import ListRepeater.Keyed
import ListRepeater.Total
/-!
# The book of slots

A `SlotBook` records which id each slot holds. A slot that asks for an id gets the one it holds; a
new slot gets the oldest id released by a slot of the same template widget, and a newly minted one
only when no such id is parked. Minted ids are numbered from one behind the stem of the book.
-/
namespace ListRepeater

structure SlotBook where
  stem : String
  slots : Keyed Slot WidgetId
  /-- The released ids of each template widget, the oldest first. -/
  pools : Keyed WidgetId (List WidgetId)
  minted : Nat
  deriving DecidableEq

/-- How a slot comes by its id. -/
inductive Grant where
  | held (id : WidgetId)
  | recycled (id : WidgetId) (rest : List WidgetId)
  | minted (id : WidgetId)
  deriving DecidableEq

def Grant.id : Grant → WidgetId
  | .held id | .recycled id _ | .minted id => id

namespace SlotBook

variable (b : SlotBook) (k : Slot)

def empty (stem : String) : SlotBook := ⟨stem, .empty, .empty, 0⟩

/-- The id with number `n`. -/
def mintedId (stem : String) (n : Nat) : WidgetId := ⟨stem ++ "_" ++ decimal n⟩

def get? : Option WidgetId := b.slots.find? k

def pool (template : WidgetId) : List WidgetId := (b.pools.find? template).getD []

/-- What an id for the slot would come from. -/
def grant : Grant :=
  match b.get? k with
  | some id => .held id
  | none =>
    match b.pool k.template with
    | id :: rest => .recycled id rest
    | [] => .minted (mintedId b.stem (b.minted + 1))

/-- The book after the slot has got its id. -/
def acquire : SlotBook :=
  match b.grant k with
  | .held _ => b
  | .recycled id rest =>
    { b with slots := b.slots.insert k id, pools := b.pools.insert k.template rest }
  | .minted id => { b with slots := b.slots.insert k id, minted := b.minted + 1 }

/-- What is noted when the slot gets its id. -/
def acquireEvents : List Event :=
  match b.grant k with
  | .held _ => []
  | .recycled id _ => [.slotRecycles k id]
  | .minted id => [.slotMints k id]

/-- Gives the slot this id, whatever it held. -/
def pin (id : WidgetId) : SlotBook := { b with slots := b.slots.insert k id }

/-- Takes the id from the slot and parks it for a slot of the same template widget. -/
def release : SlotBook :=
  match b.get? k with
  | none => b
  | some id =>
    { b with
      slots := b.slots.erase k
      pools := b.pools.insert k.template (b.pool k.template ++ [id]) }

def slotCount : Nat := b.slots.size

def parkedCount : Nat := total (b.pools.values.map List.length)

/-- Gives ids to the slots one after the other. -/
def acquireAll (b : SlotBook) (ks : List Slot) : SlotBook := ks.foldl acquire b

def releaseAll (b : SlotBook) (ks : List Slot) : SlotBook := ks.foldl release b

/-- After it has acquired, a slot holds the id that was granted. -/
theorem get?_acquire : (b.acquire k).get? k = some (b.grant k).id := by
  cases hg : b.grant k with
  | held id =>
    have h : b.get? k = some id := by
      unfold grant at hg
      split at hg
      · simp_all
      · split at hg <;> cases hg
    simp [acquire, hg, h, Grant.id]
  | recycled id rest => simp [acquire, hg, Grant.id, get?, Keyed.find?_insert]
  | minted id => simp [acquire, hg, Grant.id, get?, Keyed.find?_insert]

end SlotBook

end ListRepeater
