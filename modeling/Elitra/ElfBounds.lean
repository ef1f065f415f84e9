import Elitra.ElfLoad

namespace Elitra.Elf
open List Paging Vmm

/-- A page of the user half above the first one. -/
def UserPage (p : ℕ) : Prop := 0x1000 ≤ p ∧ p + 4096 ≤ 2 ^ 47

def Covers (log : List Access) (x : ℕ) : Prop := ∃ p, Access.map p ∈ log ∧ p ≤ x ∧ x < p + 4096

/-- The accesses that are allowed for a file of `size` bytes, one after another. -/
inductive Safe (size : ℕ) : List Access → Prop
  | nil : Safe size []
  | read {l : List Access} {o n : ℕ} : Safe size l → o + n ≤ size → Safe size (l ++ [.read o n])
  | frame {l : List Access} (f : ℕ) : Safe size l → Safe size (l ++ [.frame f])
  | map {l : List Access} {p : ℕ} : Safe size l → UserPage p → Safe size (l ++ [.map p])
  | write {l : List Access} {a n : ℕ} : Safe size l →
      (∀ x, a ≤ x → x < a + n → Covers l x) → Safe size (l ++ [.write a n])

section Log

variable {fmt : Format} {d : Mem} {size base random : ℕ} {ph : ProgramHeader} {s : Loader}

end Log

end Elitra.Elf
