/-!
# Slot sets

A slot is the index of a place in the fleet. A set of slots is kept as its
strictly increasing list, so two sets with the same members are equal and the
list is the order in which the slots are written.
-/
namespace FleetComposition

structure SlotSet where
  toList : List UInt32
  increasing : toList.Pairwise (· < ·)
  deriving DecidableEq, Repr

namespace SlotSet

/-- The slot of the flagship. -/
def flagship : UInt32 := 0

/-- Insertion before the first larger slot; a slot that is there already stays. -/
def insertInto (slot : UInt32) : List UInt32 → List UInt32
  | [] => [slot]
  | head :: tail =>
    if slot < head then slot :: head :: tail
    else if slot = head then head :: tail
    else head :: insertInto slot tail

@[simp] theorem mem_insertInto {s slot : UInt32} {slots : List UInt32} :
    s ∈ insertInto slot slots ↔ s = slot ∨ s ∈ slots := by
  induction slots with
  | nil => simp [insertInto]
  | cons head tail ih =>
    simp only [insertInto]
    split
    · simp
    · split
      · subst slot; simp
      · simp only [List.mem_cons, ih, or_left_comm]

theorem increasing_insertInto {slot : UInt32} {slots : List UInt32}
    (h : slots.Pairwise (· < ·)) : (insertInto slot slots).Pairwise (· < ·) := by
  induction slots with
  | nil => simp [insertInto]
  | cons head tail ih =>
    obtain ⟨hhead, htail⟩ := List.pairwise_cons.mp h
    simp only [insertInto]
    split
    next hlt =>
      refine List.pairwise_cons.mpr ⟨fun s hs => ?_, h⟩
      rcases List.mem_cons.mp hs with rfl | hs
      · exact hlt
      · exact UInt32.lt_trans hlt (hhead s hs)
    next hge =>
      split
      next => exact h
      next hne =>
        refine List.pairwise_cons.mpr ⟨fun s hs => ?_, ih htail⟩
        rcases mem_insertInto.mp hs with rfl | hs
        · exact UInt32.lt_of_le_of_ne (UInt32.not_lt.mp hge) (Ne.symm hne)
        · exact hhead s hs

def empty : SlotSet := ⟨[], .nil⟩

instance : Inhabited SlotSet := ⟨empty⟩

def insert (slot : UInt32) (slots : SlotSet) : SlotSet :=
  ⟨insertInto slot slots.toList, increasing_insertInto slots.increasing⟩

/-- The set of the listed slots, in whatever order and however often they occur. -/
def ofList (slots : List UInt32) : SlotSet :=
  slots.foldr insert empty

instance : Membership UInt32 SlotSet :=
  ⟨fun slots slot => slot ∈ slots.toList⟩

instance (slot : UInt32) (slots : SlotSet) : Decidable (slot ∈ slots) :=
  inferInstanceAs (Decidable (slot ∈ slots.toList))

def isEmpty (slots : SlotSet) : Bool :=
  slots.toList.isEmpty

theorem mem_iff {slot : UInt32} {slots : SlotSet} : slot ∈ slots ↔ slot ∈ slots.toList :=
  Iff.rfl

@[simp] theorem toList_empty : empty.toList = [] := rfl

@[simp] theorem isEmpty_iff {slots : SlotSet} : slots.isEmpty = true ↔ slots = empty := by
  obtain ⟨slots, h⟩ := slots
  simp [isEmpty, empty]

@[simp] theorem not_mem_empty (slot : UInt32) : slot ∉ empty := by
  simp [mem_iff]

@[simp] theorem mem_insert {s slot : UInt32} {slots : SlotSet} :
    s ∈ insert slot slots ↔ s = slot ∨ s ∈ slots :=
  mem_insertInto

@[simp] theorem mem_ofList {s : UInt32} {slots : List UInt32} : s ∈ ofList slots ↔ s ∈ slots := by
  induction slots with
  | nil => simp [ofList]
  | cons slot slots ih =>
    rw [show ofList (slot :: slots) = insert slot (ofList slots) from rfl, mem_insert, ih,
      List.mem_cons]

/-- Inserting below all members puts the slot in front. -/
theorem insertInto_of_lt {slot : UInt32} {slots : List UInt32} (h : ∀ s ∈ slots, slot < s) :
    insertInto slot slots = slot :: slots := by
  cases slots with
  | nil => rfl
  | cons head tail => simp [insertInto, h head (by simp)]

/-- Reading back the list of a set gives the set. -/
@[simp] theorem ofList_toList (slots : SlotSet) : ofList slots.toList = slots := by
  obtain ⟨slots, h⟩ := slots
  induction slots with
  | nil => rfl
  | cons slot slots ih =>
    obtain ⟨hlt, hrest⟩ := List.pairwise_cons.mp h
    have hrec := ih hrest
    simp only [ofList, List.foldr_cons] at hrec ⊢
    rw [hrec]
    simp [insert, insertInto_of_lt hlt]

end SlotSet

end FleetComposition
