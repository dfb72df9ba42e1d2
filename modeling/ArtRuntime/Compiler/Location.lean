import ArtRuntime.Foundation.WordStore

/-! # Locations of the optimizing compiler

`compiler/optimizing/locations.h`: after register allocation a value lives in
a core or floating-point register, a pair of them, a stack slot of one, two or
four words, or it is a constant. `Contains` and `OverlapsWith` decide which
locations a move can clobber; they detect only the overlaps the register
allocator is meant to produce, a pair or double stack slot and one of its
halves.

The locations read and write a store of machine cells: core and
floating-point registers, and the 32-bit stack words at byte offsets. A
register holds a 64-bit value and is read at the width of the move, a pair or
a double stack slot is its low and its high word.
-/

namespace ArtRuntime.Compiler

open ArtRuntime.Foundation.WordStore

/-- `DataType::Type`. -/
inductive DataType
  | kReference | kBool | kUint8 | kInt8 | kUint16 | kInt16 | kUint32 | kInt32
  | kUint64 | kInt64 | kFloat32 | kFloat64 | kVoid
  deriving DecidableEq, Repr

namespace DataType

/-- `DataType::Is64BitType`. -/
def is64BitType : DataType → Bool
  | kUint64 | kInt64 | kFloat64 => true
  | _ => false

/-- `DataType::Size` in bytes; a reference takes `kObjectReferenceSize`, four. -/
def size : DataType → Nat
  | kVoid => 0
  | kBool | kUint8 | kInt8 => 1
  | kUint16 | kInt16 => 2
  | kUint32 | kInt32 | kFloat32 | kReference => 4
  | kUint64 | kInt64 | kFloat64 => 8

end DataType

/-- A `Location` after register allocation; `noLocation` is `Location::NoLocation()`,
the invalid location. A constant is its value as a 64-bit pattern. -/
inductive Location
  | noLocation
  | constant (bits : Nat)
  | stackSlot (stackIndex : Int)
  | doubleStackSlot (stackIndex : Int)
  | register (reg : Nat)
  | fpuRegister (reg : Nat)
  | registerPair (low high : Nat)
  | fpuRegisterPair (low high : Nat)
  | simdStackSlot (stackIndex : Int)
  deriving DecidableEq, Repr

/-- `Location::Kind`. -/
inductive Location.Kind
  | kInvalid | kConstant | kStackSlot | kDoubleStackSlot | kRegister | kFpuRegister
  | kRegisterPair | kFpuRegisterPair | kSIMDStackSlot
  deriving DecidableEq, Repr

namespace Location

/-- `Location::GetKind`. -/
def getKind : Location → Kind
  | noLocation => .kInvalid
  | constant _ => .kConstant
  | stackSlot _ => .kStackSlot
  | doubleStackSlot _ => .kDoubleStackSlot
  | register _ => .kRegister
  | fpuRegister _ => .kFpuRegister
  | registerPair _ _ => .kRegisterPair
  | fpuRegisterPair _ _ => .kFpuRegisterPair
  | simdStackSlot _ => .kSIMDStackSlot

def isValid (location : Location) : Bool := location.getKind != .kInvalid

def isInvalid (location : Location) : Bool := location.getKind == .kInvalid

def isConstant (location : Location) : Bool := location.getKind == .kConstant

def isStackSlot (location : Location) : Bool := location.getKind == .kStackSlot

def isDoubleStackSlot (location : Location) : Bool := location.getKind == .kDoubleStackSlot

def isPair (location : Location) : Bool :=
  location.getKind == .kRegisterPair || location.getKind == .kFpuRegisterPair

/-- `LowOf` of `parallel_move_resolver.cc`, which agrees with `Location::ToLow` on
the pairs and double stack slots, the only locations `ToLow` is asked for. -/
def lowOf : Location → Location
  | registerPair low _ => register low
  | fpuRegisterPair low _ => fpuRegister low
  | doubleStackSlot stackIndex => stackSlot stackIndex
  | _ => noLocation

/-- `HighOf`, with `GetHighStackIndex(4)` for the high word of a double stack slot. -/
def highOf : Location → Location
  | registerPair _ high => register high
  | fpuRegisterPair _ high => fpuRegister high
  | doubleStackSlot stackIndex => stackSlot (stackIndex + 4)
  | _ => noLocation

/-- `Location::Contains`. -/
def contains (location other : Location) : Bool :=
  location == other ||
    ((location.isPair || location.isDoubleStackSlot) && (location.lowOf == other || location.highOf == other))

/-- `Location::OverlapsWith`, without the debug checks on pairs that share one half. -/
def overlapsWith (location other : Location) : Bool :=
  location.contains other || other.contains location

end Location

/-- A machine cell: a core or floating-point register, or the 32-bit stack word
at a byte offset. -/
inductive Cell
  | core (reg : Nat)
  | fpu (reg : Nat)
  | stack (stackIndex : Int)
  deriving DecidableEq, Repr

/-- The contents of every cell. -/
abbrev Store := Cell → Nat

namespace Location

/-- The cells a location is made of. -/
def cells : Location → List Cell
  | noLocation | constant _ => []
  | stackSlot stackIndex => [.stack stackIndex]
  | doubleStackSlot stackIndex => [.stack stackIndex, .stack (stackIndex + 4)]
  | register reg => [.core reg]
  | fpuRegister reg => [.fpu reg]
  | registerPair low high => [.core low, .core high]
  | fpuRegisterPair low high => [.fpu low, .fpu high]
  | simdStackSlot stackIndex =>
      [.stack stackIndex, .stack (stackIndex + 4), .stack (stackIndex + 8), .stack (stackIndex + 12)]

/-- The bits a register move carries. -/
def registerWidth (wide : Bool) : Nat := if wide then 64 else 32

/-- The value a move of width `wide` reads from the location. -/
def read (store : Store) (wide : Bool) (location : Location) : Nat :=
  match location with
  | constant bits => bits % 2 ^ registerWidth wide
  | register reg => store (.core reg) % 2 ^ registerWidth wide
  | fpuRegister reg => store (.fpu reg) % 2 ^ registerWidth wide
  | _ => readWords 32 store location.cells

/-- The store after a move of width `wide` writes `value` into the location. -/
def write (store : Store) (wide : Bool) (value : Nat) (location : Location) : Store :=
  match location with
  | register reg => Function.update store (.core reg) (value % 2 ^ registerWidth wide)
  | fpuRegister reg => Function.update store (.fpu reg) (value % 2 ^ registerWidth wide)
  | _ => writeWords 32 store location.cells value

theorem write_of_not_mem {store : Store} {wide : Bool} {value : Nat} {location : Location}
    {cell : Cell} (outside : cell ∉ location.cells) : location.write store wide value cell = store cell := by
  cases location with
  | register reg =>
      have different : cell ≠ .core reg := by simpa [cells] using outside
      exact Function.update_of_ne different _ _
  | fpuRegister reg =>
      have different : cell ≠ .fpu reg := by simpa [cells] using outside
      exact Function.update_of_ne different _ _
  | _ => exact (writeWords_of_not_mem outside value : writeWords 32 store _ value cell = store cell)

theorem cells_lowOf_subset (location : Location) : location.lowOf.cells ⊆ location.cells := by
  cases location <;> simp [lowOf, cells]

theorem cells_highOf_subset (location : Location) : location.highOf.cells ⊆ location.cells := by
  cases location <;> simp [highOf, cells]

/-- Every cell of the location is `allowed`. -/
def Within (allowed : Cell → Prop) (location : Location) : Prop :=
  ∀ cell ∈ location.cells, allowed cell

namespace Within

variable {allowed : Cell → Prop} {location : Location}

@[simp] theorem noLocation : Location.noLocation.Within allowed := fun _ member => by
  simp [cells] at member

theorem lowOf (within : location.Within allowed) : location.lowOf.Within allowed :=
  fun cell member => within cell (cells_lowOf_subset location member)

theorem highOf (within : location.Within allowed) : location.highOf.Within allowed :=
  fun cell member => within cell (cells_highOf_subset location member)

end Within

end Location

end ArtRuntime.Compiler
