import Mathlib.Data.List.Basic
import Mathlib.Logic.Function.Basic
import Mathlib.Tactic.Common

namespace Elitra.Usb
open List Function

abbrev Byte := BitVec 8

/-- A transfer descriptor. `link` is the address of the next, or `none` for the bit that ends the
chain. -/
structure Td where
  link : Option ℕ
  length : ℕ
  toggle : ℕ
  buf : ℕ

def Td.sent (phys : ℕ → Byte) (t : Td) : List Byte := (range t.length).map fun j => phys (t.buf + j)

/-- The memory after a packet of the device came in. -/
def Td.store (phys : ℕ → Byte) (t : Td) (p : List Byte) (a : ℕ) : Byte :=
  if t.buf ≤ a ∧ a < t.buf + p.length then p.getD (a - t.buf) 0 else phys a

variable {out : Bool} {mp len wpp : ℕ}

end Elitra.Usb
