import Mathlib.Logic.Function.Basic
import Mathlib.Algebra.Order.Group.Nat

/-! # Stores of words

A store maps cells to numbers. A value wider than one cell lives in a list of
cells, least significant word first, each cell contributing `width` bits:
`readWords` assembles the value from the cells, `writeWords` spreads a value
over them. Writing touches only the cells written to.
-/

namespace ArtRuntime.Foundation

namespace WordStore

variable {Cell : Type} (width : Nat)

/-- The value held by `cells`, least significant word first. -/
def readWords (store : Cell → Nat) : List Cell → Nat
  | [] => 0
  | cell :: rest => store cell % 2 ^ width + 2 ^ width * readWords store rest

/-- Write `value` into `cells`, one `width`-bit word per cell. -/
def writeWords [DecidableEq Cell] (store : Cell → Nat) : List Cell → Nat → Cell → Nat
  | [], _ => store
  | cell :: rest, value =>
      Function.update (writeWords store rest (value / 2 ^ width)) cell (value % 2 ^ width)

variable {width} [DecidableEq Cell]

theorem writeWords_of_not_mem {store : Cell → Nat} {cells : List Cell} {cell : Cell}
    (outside : cell ∉ cells) (value : Nat) : writeWords width store cells value cell = store cell := by
  induction cells generalizing value with
  | nil => rfl
  | cons head rest induction =>
      have different : cell ≠ head := fun same => outside (same ▸ List.mem_cons_self)
      have notInRest : cell ∉ rest := fun member => outside (List.mem_cons_of_mem head member)
      rw [writeWords, Function.update_of_ne different, induction notInRest]

end WordStore

end ArtRuntime.Foundation
