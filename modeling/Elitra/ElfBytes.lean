import Elitra.ElfUndo

namespace Elitra.Elf
open Paging Vmm

variable {fmt : Format} {d : Mem} {size base random start n g : ℕ} {ph : ProgramHeader}
  {m₀ : Machine} {pages : ℕ → Option ℕ} {s : Loader} {byte : ℕ → ℕ → BitVec 8}

end Elitra.Elf
