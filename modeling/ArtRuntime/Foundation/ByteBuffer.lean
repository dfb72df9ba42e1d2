import Mathlib.Logic.Function.Basic
import Mathlib.Data.List.Basic

/-! # Values laid out in a memory

A memory maps addresses to cells. `Stores cells address values` says that the
values sit one after the other from `address` on; `writeList` is the code that
puts them there, one cell at a time, as a `*dest++ = value` loop does. Writing
changes exactly the cells written. -/

namespace ArtRuntime.Foundation

variable {α : Type}

/-- The cells from `address` on hold `values`, in order. -/
def Stores (cells : Nat → α) (address : Nat) (values : List α) : Prop :=
  ∀ index (inside : index < values.length), cells (address + index) = values[index]

namespace Stores

variable {cells : Nat → α} {address : Nat}

@[simp] theorem nil : Stores cells address [] := fun _ inside => absurd inside (Nat.not_lt_zero _)

theorem cons_iff {value : α} {rest : List α} :
    Stores cells address (value :: rest) ↔ cells address = value ∧ Stores cells (address + 1) rest := by
  constructor
  · intro stored
    refine ⟨stored 0 (Nat.succ_pos _), fun index inside => ?_⟩
    have shifted := stored (index + 1) (by simpa using inside)
    rwa [show address + (index + 1) = address + 1 + index by omega] at shifted
  · rintro ⟨first, stored⟩ index inside
    cases index with
    | zero => simpa using first
    | succ index =>
        have shifted := stored index (by simpa using inside)
        rwa [show address + 1 + index = address + (index + 1) by omega] at shifted

theorem append_iff {front back : List α} :
    Stores cells address (front ++ back) ↔
      Stores cells address front ∧ Stores cells (address + front.length) back := by
  induction front generalizing address with
  | nil => simp
  | cons value front induction =>
      rw [List.cons_append, cons_iff, cons_iff, induction, List.length_cons,
        show address + 1 + front.length = address + (front.length + 1) by omega, and_assoc]

theorem eq_of_getElem? {values : List α} (stored : Stores cells address values) {index : Nat}
    {value : α} (found : values[index]? = some value) : cells (address + index) = value := by
  obtain ⟨inside, rfl⟩ := List.getElem?_eq_some_iff.mp found
  exact stored index inside

theorem getD_self (values : List α) (fallback : α) :
    Stores (fun address => values.getD address fallback) 0 values := by
  intro index inside
  simp [List.getD_eq_getElem?_getD, List.getElem?_eq_getElem inside]

theorem congr {other : Nat → α} {values : List α} (stored : Stores cells address values)
    (agree : ∀ index < values.length, other (address + index) = cells (address + index)) :
    Stores other address values :=
  fun index inside => (agree index inside).trans (stored index inside)

end Stores

/-- Write `values` from `address` on. -/
def writeList [DecidableEq α] (cells : Nat → α) (address : Nat) : List α → Nat → α
  | [] => cells
  | value :: rest => Function.update (writeList cells (address + 1) rest) address value

theorem writeList_of_lt [DecidableEq α] {cells : Nat → α} {address target : Nat} (values : List α)
    (before : target < address) : writeList cells address values target = cells target := by
  induction values generalizing address with
  | nil => rfl
  | cons value rest induction =>
      rw [writeList, Function.update_of_ne (by omega), induction (by omega)]

theorem writeList_of_le [DecidableEq α] {cells : Nat → α} {address target : Nat} (values : List α)
    (after : address + values.length ≤ target) : writeList cells address values target = cells target := by
  induction values generalizing address with
  | nil => rfl
  | cons value rest induction =>
      rw [List.length_cons] at after
      rw [writeList, Function.update_of_ne (by omega), induction (by omega)]

theorem stores_writeList [DecidableEq α] (cells : Nat → α) (address : Nat) (values : List α) :
    Stores (writeList cells address values) address values := by
  induction values generalizing address with
  | nil => exact Stores.nil
  | cons value rest induction =>
      rw [Stores.cons_iff, writeList, Function.update_self]
      refine ⟨rfl, (induction (address + 1)).congr fun index _ => ?_⟩
      rw [Function.update_of_ne (by omega)]

theorem stores_writeList_writeList [DecidableEq α] (cells : Nat → α) (address : Nat)
    (front back : List α) :
    Stores (writeList (writeList cells address front) (address + front.length) back) address
      (front ++ back) := by
  rw [Stores.append_iff]
  refine ⟨(stores_writeList cells address front).congr fun index inside => ?_, stores_writeList _ _ _⟩
  exact writeList_of_lt back (by omega)

end ArtRuntime.Foundation
