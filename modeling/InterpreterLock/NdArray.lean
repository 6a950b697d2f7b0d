import InterpreterLock.Json
import InterpreterLock.Table

/-!
# Arrays

An array is a shape, a stride in bytes for each dimension, and a buffer. A shape fits when its
number of elements and its size in bytes can be counted. Fresh memory holds a pattern, so that
nothing can rely on its being zero by chance; a zero-filled array is cleared.
-/

set_option autoImplicit false

namespace InterpreterLock

inductive Element
  | bool
  | int8
  | uint8
  | int16
  | uint16
  | int32
  | uint32
  | int64
  | uint64
  | float32
  | float64
  | complex64
  | complex128
deriving DecidableEq, Repr

namespace Element

def all : List Element :=
  [bool, int8, uint8, int16, uint16, int32, uint32, int64, uint64, float32, float64, complex64,
   complex128]

def size : Element → Nat
  | .bool | .int8 | .uint8 => 1
  | .int16 | .uint16 => 2
  | .int32 | .uint32 | .float32 => 4
  | .int64 | .uint64 | .float64 | .complex64 => 8
  | .complex128 => 16

def name : Element → String
  | .bool => "Bool"
  | .int8 => "Int8"
  | .uint8 => "UInt8"
  | .int16 => "Int16"
  | .uint16 => "UInt16"
  | .int32 => "Int32"
  | .uint32 => "UInt32"
  | .int64 => "Int64"
  | .uint64 => "UInt64"
  | .float32 => "Float32"
  | .float64 => "Float64"
  | .complex64 => "Complex64"
  | .complex128 => "Complex128"

def toJson (e : Element) : Json := .text e.name

def ofJson? (j : Json) : Option Element := j.name?.bind fun n => all.find? (·.name == n)

theorem size_pos (e : Element) : 0 < e.size := by cases e <;> decide

end Element

/-- Which index varies fastest in memory: the last one in row order, the first in column order. -/
inductive Layout
  | rowMajor
  | columnMajor
deriving DecidableEq, Repr, Inhabited

namespace Layout

def name : Layout → String
  | .rowMajor => "RowMajor"
  | .columnMajor => "ColumnMajor"

def toJson (l : Layout) : Json := .text l.name

def ofJson? (j : Json) : Option Layout :=
  j.name?.bind fun n => [rowMajor, columnMajor].find? (·.name == n)

end Layout

structure TooLarge where
  dims : List Nat
  elementSize : Nat
deriving DecidableEq, Repr

def TooLarge.message (e : TooLarge) : String :=
  "array of shape [" ++ String.intercalate ", " (e.dims.map Text.decimal) ++ "] with "
    ++ Text.decimal e.elementSize ++ "-byte elements does not fit in memory"

structure NdArray where
  dims : List Nat
  strides : List Nat
  element : Element
  layout : Layout
  bytes : List UInt8
deriving DecidableEq, Repr

namespace NdArray

def lastWord : Nat := UInt64.size - 1

def checkedMul (a b : Nat) : Option Nat := if a * b ≤ lastWord then some (a * b) else none

def saturatingMul (a b : Nat) : Nat := min (a * b) lastWord

def maxBytes : Nat := UInt64.size / 2 - 1

def countFrom : Nat → List Nat → Option Nat
  | n, [] => some n
  | n, d :: ds => (checkedMul n d).bind fun m => countFrom m ds

def byteSize? (dims : List Nat) (e : Element) : Option Nat :=
  (countFrom 1 dims).bind fun n => (checkedMul n e.size).filter (· ≤ maxBytes)

def stridesFrom : Nat → List Nat → List Nat
  | _, [] => []
  | step, d :: ds => step :: stridesFrom (saturatingMul step d) ds

def stridesFor (dims : List Nat) (size : Nat) : Layout → List Nat
  | .rowMajor => (stridesFrom size dims.reverse).reverse
  | .columnMajor => stridesFrom size dims

def freshByte : UInt8 := 0xA5

def filled (byte : UInt8) (dims : List Nat) (element : Element) (layout : Layout) :
    Except TooLarge NdArray :=
  match byteSize? dims element with
  | none => .error ⟨dims, element.size⟩
  | some n =>
    .ok { dims, strides := stridesFor dims element.size layout, element, layout,
          bytes := List.replicate n byte }

def empty : List Nat → Element → Layout → Except TooLarge NdArray := filled freshByte

def cleared (a : NdArray) : NdArray := { a with bytes := a.bytes.map fun _ => 0 }

def zeroFilled (dims : List Nat) (element : Element) (layout : Layout) :
    Except TooLarge NdArray :=
  (empty dims element layout).map cleared

def byteCount (a : NdArray) : Nat := a.bytes.length

def length (a : NdArray) : Nat := a.byteCount / a.element.size

def isEmpty (a : NdArray) : Bool := a.bytes.isEmpty

def write (a : NdArray) (offset : Nat) (byte : UInt8) : Bool × NdArray :=
  (offset < a.byteCount, { a with bytes := a.bytes.set offset byte })

def hexText (bytes : List UInt8) : String :=
  String.ofList (bytes.flatMap fun b =>
    [Json.hexDigit (b.toNat / 16), Json.hexDigit (b.toNat % 16)])

def occurrences (bytes : List UInt8) : List (UInt8 × Nat) :=
  (bytes.foldl (fun (m : Table UInt8 Nat) b => m.insert b ((m.get? b).getD 0 + 1)) {}).entries

theorem length_stridesFrom (step : Nat) (dims : List Nat) :
    (stridesFrom step dims).length = dims.length := by
  induction dims generalizing step with
  | nil => rfl
  | cons d ds ih => simp [stridesFrom, ih]

theorem length_stridesFor (dims : List Nat) (size : Nat) (l : Layout) :
    (stridesFor dims size l).length = dims.length := by
  cases l <;> simp [stridesFor, length_stridesFrom]

end NdArray

end InterpreterLock
