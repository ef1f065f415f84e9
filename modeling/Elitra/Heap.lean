import Elitra.ByteMem

namespace Elitra.Heap
open Function ByteMem

def heapStart : ℕ := 0x40000000
def heapSize : ℕ := 0x10000000

/-- `size_of::<HeapBlock>()`: a packed `usize`, `bool` and pointer. -/
def headerSize : ℕ := 17

structure State where
  mem : Mem
  heapHead : ℕ

/-- How a call can end without returning: it touches a header that the given memory map does
not cover, or it follows `next` pointers for ever. -/
inductive Stop where
  | fault (header : ℕ)
  | diverges
  deriving DecidableEq

abbrev Run := Except Stop

/-- More loop rounds than the heap has room for blocks. -/
def heapFuel : ℕ := heapSize

section Fields

variable (m : Mem) (block : ℕ)

def blockSize : ℕ := readLE m block 8
def blockFree : Bool := m (block + 8) != 0
def blockNext : ℕ := readLE m (block + 9) 8
def setSize (size : ℕ) : Mem := writeLE m block size 8
def setFree (free : Bool) : Mem := update m (block + 8) (if free then 1 else 0)
def setNext (next : ℕ) : Mem := writeLE m (block + 9) next 8

end Fields

section Calls

variable (mapped : ℕ → Bool)

/-- Every access to a field of a header is preceded by this check of its 17 bytes. -/
def touch (block : ℕ) : Run Unit :=
  if (List.range headerSize).all fun i => mapped (block + i) then .ok () else .error (.fault block)

/-- Returns the block with the final value of the out-parameter `prev`. -/
def findBlock (m : Mem) (size : ℕ) : ℕ → ℕ → ℕ → Run (ℕ × ℕ)
  | 0, _, _ => .error .diverges
  | fuel + 1, prev, current =>
    if current = 0 then .ok (0, prev)
    else do
      touch mapped current
      if blockFree m current && decide (size ≤ blockSize m current) then .ok (current, prev)
      else findBlock m size fuel current (blockNext m current)

def splitBlock (m : Mem) (block size : ℕ) : Run Mem := do
  touch mapped block
  if blockSize m block < size + headerSize + 16 then .ok m
  else do
    let newBlock := block + headerSize + size
    touch mapped newBlock
    let m := setSize m newBlock (blockSize m block - size - headerSize)
    let m := setFree m newBlock true
    let m := setNext m newBlock (blockNext m block)
    let m := setSize m block size
    .ok (setNext m block newBlock)

def mergeAdjacent : ℕ → Mem → ℕ → Run Mem
  | 0, _, _ => .error .diverges
  | fuel + 1, m, current =>
    if current = 0 then .ok m
    else do
      touch mapped current
      let next := blockNext m current
      if next = 0 then .ok m
      else if blockFree m current then do
        touch mapped next
        if blockFree m next then
          let m := setSize m current (blockSize m current + (headerSize + blockSize m next))
          mergeAdjacent fuel (setNext m current (blockNext m next)) current
        else mergeAdjacent fuel m next
      else mergeAdjacent fuel m next

def krustHeapInit (m : Mem) : Run State := do
  touch mapped heapStart
  let m := setSize m heapStart (heapSize - headerSize)
  let m := setFree m heapStart true
  .ok ⟨setNext m heapStart 0, heapStart⟩

/-- `(max size 1 + 15) & !15`. -/
def roundSize (size : UInt32) : ℕ :=
  ((if size.toNat = 0 then 1 else size.toNat) + 15) / 16 * 16

def krustHeapAlloc (s : State) (size : UInt32) : Run (State × ℕ) :=
  if s.heapHead = 0 then .ok (s, 0)
  else do
    let (block, _) ← findBlock mapped s.mem (roundSize size) heapFuel 0 s.heapHead
    if block = 0 then .ok (s, 0)
    else do
      let m ← splitBlock mapped s.mem block (roundSize size)
      .ok ({ s with mem := setFree m block false }, block + headerSize)

def krustHeapFree (s : State) (ptr : ℕ) : Run State :=
  if ptr = 0 then .ok s
  else do
    let block := ptr - headerSize
    touch mapped block
    if blockFree s.mem block then .ok s
    else do
      let m ← mergeAdjacent mapped heapFuel (setFree s.mem block true) s.heapHead
      .ok { s with mem := m }

def krustHeapRealloc (s : State) (ptr : ℕ) (size : UInt32) : Run (State × ℕ) :=
  if ptr = 0 then krustHeapAlloc mapped s size
  else if size.toNat = 0 then do
    let s ← krustHeapFree mapped s ptr
    .ok (s, 0)
  else do
    let block := ptr - headerSize
    touch mapped block
    if size.toNat ≤ blockSize s.mem block then do
      let m ← splitBlock mapped s.mem block size.toNat
      .ok ({ s with mem := m }, ptr)
    else do
      let (s, newPtr) ← krustHeapAlloc mapped s size
      if newPtr ≠ 0 then do
        let copySize := min (blockSize s.mem block) size.toNat
        let s ← krustHeapFree mapped { s with mem := copyBytes s.mem ptr newPtr copySize } ptr
        .ok (s, newPtr)
      else .ok (s, newPtr)

end Calls

lemma ok_bind {α β : Type} (a : α) (f : α → Run β) : ((.ok a : Run α) >>= f) = f a := rfl

section FieldLemmas

variable {m : Mem} {p q v : ℕ} {f : Bool}

lemma blockSize_setSize (h : v < 2 ^ 64) : blockSize (setSize m p v) p = v :=
  readLE_writeLE_of_lt m h

lemma blockNext_setNext (h : v < 2 ^ 64) : blockNext (setNext m p v) p = v :=
  readLE_writeLE_of_lt m h

lemma blockFree_setFree : blockFree (setFree m p f) p = f := by
  cases f <;> simp [blockFree, setFree]

lemma blockSize_setSize_ne (h : p + 8 ≤ q ∨ q + 8 ≤ p) :
    blockSize (setSize m q v) p = blockSize m p := readLE_writeLE_of_disjoint h

lemma blockSize_setFree (h : p ≤ q ∨ q + 8 < p) :
    blockSize (setFree m q f) p = blockSize m p := readLE_update_of_outside (by omega)

lemma blockSize_setNext (h : p ≤ q + 1 ∨ q + 17 ≤ p) :
    blockSize (setNext m q v) p = blockSize m p := readLE_writeLE_of_disjoint (by omega)

lemma blockFree_setSize (h : p + 8 < q ∨ q ≤ p) :
    blockFree (setSize m q v) p = blockFree m p := by
  rw [blockFree, blockFree, setSize, writeLE_of_outside (by omega)]

lemma blockFree_setFree_ne (h : p ≠ q) : blockFree (setFree m q f) p = blockFree m p := by
  rw [blockFree, blockFree, setFree, update_of_ne (by omega)]

lemma blockFree_setNext (h : p ≤ q ∨ q + 17 ≤ p) :
    blockFree (setNext m q v) p = blockFree m p := by
  rw [blockFree, blockFree, setNext, writeLE_of_outside (by omega)]

lemma blockNext_setSize (h : p + 17 ≤ q ∨ q ≤ p + 1) :
    blockNext (setSize m q v) p = blockNext m p := readLE_writeLE_of_disjoint (by omega)

lemma blockNext_setFree (h : q ≤ p ∨ p + 9 ≤ q) :
    blockNext (setFree m q f) p = blockNext m p := readLE_update_of_outside (by omega)

lemma blockNext_setNext_ne (h : p + 8 ≤ q ∨ q + 8 ≤ p) :
    blockNext (setNext m q v) p = blockNext m p := readLE_writeLE_of_disjoint (by omega)

lemma setSize_of_outside {x : ℕ} (h : x < p ∨ p + 8 ≤ x) : setSize m p v x = m x :=
  writeLE_of_outside h

lemma setFree_of_ne {x : ℕ} (h : x ≠ p + 8) : setFree m p f x = m x :=
  update_of_ne h _ _

lemma setNext_of_outside {x : ℕ} (h : x < p + 9 ∨ p + 17 ≤ x) : setNext m p v x = m x :=
  writeLE_of_outside (by omega)

end FieldLemmas

end Elitra.Heap
