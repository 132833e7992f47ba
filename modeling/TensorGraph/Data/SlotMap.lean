/-!
# Slot maps

Partial maps from slots to values, held in an array that grows to the greatest slot in use.

* `SlotMap.get?_insert_self` and `SlotMap.get?_insert_of_ne` say what an insertion does to a
  look-up.
-/

namespace TensorGraph

/-- A partial map from slots to values. -/
structure SlotMap (α : Type) where
  /-- The value of every slot up to the greatest one in use. -/
  cells : Array (Option α)

namespace SlotMap

variable {α : Type}

def empty : SlotMap α := ⟨#[]⟩

/-- The value of a slot. -/
def get? (m : SlotMap α) (slot : Nat) : Option α := (m.cells[slot]?).join

def contains (m : SlotMap α) (slot : Nat) : Bool := (m.get? slot).isSome

/-- Give a slot a value. -/
def insert (m : SlotMap α) (slot : Nat) (a : α) : SlotMap α :=
  -- padded up to the slot, when that is beyond the cells
  ⟨(m.cells ++ Array.replicate (slot + 1 - m.cells.size) none).setIfInBounds slot (some a)⟩

@[simp] theorem get?_empty (slot : Nat) : (empty : SlotMap α).get? slot = none := by
  simp [empty, get?]

@[simp] theorem get?_insert_self (m : SlotMap α) (slot : Nat) (a : α) :
    (m.insert slot a).get? slot = some a := by
  have h : slot < m.cells.size + (slot + 1 - m.cells.size) := by omega
  simp [insert, get?, h]

theorem get?_insert_of_ne (m : SlotMap α) {slot other : Nat} (a : α) (h : other ≠ slot) :
    (m.insert slot a).get? other = m.get? other := by
  simp only [insert, get?, Array.getElem?_setIfInBounds, Ne.symm h, if_false]
  -- a slot is either an old one or padding
  by_cases hs : other < m.cells.size
  · simp [Array.getElem?_append, hs]
  · simp only [Array.getElem?_append, hs, if_false, Array.getElem?_replicate]
    rw [Array.getElem?_eq_none (by omega)]
    split <;> rfl

end SlotMap
end TensorGraph
