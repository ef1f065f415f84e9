import Mathlib.Algebra.Ring.Nat
import Mathlib.Data.List.ProdSigma
import Mathlib.Tactic.Common

namespace Elitra.Gui
open List

structure Rect where
  x : ℤ
  y : ℤ
  w : ℕ
  h : ℕ

structure Screen where
  width : ℕ
  height : ℕ
  pitch : ℕ

section Fill

/-- The end of the columns and of the rows of the rectangle on the screen. -/
def Rect.right (s : Screen) (r : Rect) : ℕ := min (r.x + r.w).toNat s.width
variable {s : Screen} {r : Rect} {i : ℕ}

end Fill

section Render

/-- A window: its bounds, the bytes of its title, the size of its own buffer if it has one, and
whether it is hidden or minimized. -/
structure Window where
  bounds : Rect
  title : List ℕ
  content : Option (ℕ × ℕ)
  isHidden : Bool
  minimized : Bool

def shown (windows : List Window) : List Window :=
  windows.filter fun win => !win.isHidden && !win.minimized

def listed (windows : List Window) : List Window := windows.filter fun win => !win.isHidden

variable {s : Screen}

end Render

end Elitra.Gui
