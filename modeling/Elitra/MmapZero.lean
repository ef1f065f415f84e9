import Elitra.VmaCover

namespace Elitra.Mmap
open Function Option Vmm

/-- The entry of a page with what is behind it: nothing, a frame with the `USER` and `WRITE` bits of
the entry, or a slot of the swap area. -/
inductive Entry where
  | absent
  | resident (data : ℕ → BitVec 8) (user write : Bool)
  | swapped (data : ℕ → BitVec 8)

/-- A task's areas and its pages, by page number. -/
structure Task where
  space : Space
  page : ℕ → Entry

def Task.new : Task := ⟨Space.new, fun _ => .absent⟩

def Task.set (t : Task) (p : ℕ) (e : Entry) : Task := { t with page := update t.page p e }

def allows (area : Vma) (write : Bool) : Bool :=
  if write then area.flags.testBit 1 else area.flags.testBit 0

/-- `swap_handle_fault`; `ok`: there is a frame, and the disk gives the page. The low four bits of the
entry, `USER` and `WRITE` among them, were not kept in the swap entry. -/
def Task.swapHandleFault (t : Task) (x : ℕ) (ok : Bool) : Option Task :=
  match t.page (x / 4096) with
  | .swapped data => if ok then some (t.set (x / 4096) (.resident data false false)) else none
  | _ => none

/-- `vma_lazy_alloc`; `ok`: there is a frame. -/
def Task.vmaLazyAlloc (t : Task) (x : ℕ) (write ok : Bool) : Option Task :=
  (krustVmmFind t.space.vmas x).bind fun area =>
    if allows area write && ok then
      some (t.set (x / 4096) (.resident (fun _ => 0) true (area.flags.testBit 1)))
    else none

/-- `krust_page_fault_handler` for a page that is not present: the swap area first, then the areas;
`none`: the fault is not resolved. -/
def Task.handleFault (t : Task) (x : ℕ) (write swapOk lazyOk : Bool) : Option Task :=
  match t.page (x / 4096) with
  | .resident _ _ _ => none
  | _ => (t.swapHandleFault x swapOk).or (t.vmaLazyAlloc x write lazyOk)

/-- The byte at an address that is mapped, for the task itself or for the kernel in its name. -/
def Task.byte (t : Task) (x : ℕ) (kernel : Bool) : Option (BitVec 8) :=
  match t.page (x / 4096) with
  | .resident data user _ => if user || kernel then some (data (x % 4096)) else none
  | _ => none

def Task.read (t : Task) (x : ℕ) (kernel swapOk lazyOk : Bool) : Option (BitVec 8) :=
  match t.page (x / 4096) with
  | .resident _ _ _ => t.byte x kernel
  | _ => (t.handleFault x false swapOk lazyOk).bind fun t => t.byte x kernel

/-- System call 36 for an anonymous mapping. It does not look at the pages. -/
def Task.mmap (t : Task) (addr length prot flags : ℕ) (split ok : Bool) : Option (Task × ℕ) :=
  (sysMmap t.space addr length prot flags split ok).bind fun s =>
    (sysMmapValue t.space addr length prot flags split ok).map fun a => ({ t with space := s }, a)

/-- System call 37: the pages that are present are unmapped. -/
def Task.munmap (t : Task) (addr length : ℕ) (split : Bool) : Task :=
  if length = 0 then t
  else
    { space := sysMunmap t.space addr length split
      page := fun p =>
        if alignDown addr ≤ p * 4096 ∧ p * 4096 < alignUp (add64 addr length) then
          match t.page p with
          | .resident _ _ _ => .absent
          | e => e
        else t.page p }

/-- `swap_evict_page`, when the disk takes the page. -/
def Task.evict (t : Task) (p : ℕ) : Task :=
  match t.page p with
  | .resident data _ _ => t.set p (.swapped data)
  | _ => t

/-- A store of the task to a page that it may write. -/
def Task.store (t : Task) (x : ℕ) (b : BitVec 8) : Task :=
  match t.page (x / 4096) with
  | .resident data true true =>
    t.set (x / 4096) (.resident (update data (x % 4096) b) true true)
  | _ => t

/-- What a history is made of. -/
inductive Op where
  | mmap (addr length prot flags : ℕ) (split ok : Bool)
  | munmap (addr length : ℕ) (split : Bool)
  | fault (x : ℕ) (write swapOk lazyOk : Bool)
  | evict (p : ℕ)
  | store (x : ℕ) (b : BitVec 8)

/-- `none`: the search for an address never ends. A fault that is not resolved changes nothing. -/
def Op.exec (t : Task) : Op → Option Task
  | .mmap addr length prot flags split ok =>
    (t.mmap addr length prot flags split ok).map Prod.fst
  | .munmap addr length split => some (t.munmap addr length split)
  | .fault x write swapOk lazyOk => some ((t.handleFault x write swapOk lazyOk).getD t)
  | .evict p => some (t.evict p)
  | .store x b => some (t.store x b)

def run (t : Task) : List Op → Option Task
  | [] => some t
  | op :: ops => (op.exec t).bind fun t => run t ops

variable {v : BitVec 8} {kernel : Bool}

section Zero

/-- The byte is zero wherever the page is kept, or nothing is kept. -/
def ZeroAt (t : Task) (x : ℕ) : Prop :=
  match t.page (x / 4096) with
  | .absent => True
  | .resident data _ _ => data (x % 4096) = 0
  | .swapped data => data (x % 4096) = 0

/-- A step other than a store to the byte, which leaves alone what is below `low`: there the frames
are mapped at their own addresses, and through them the kernel clears a page. -/
def Op.Spares (low x : ℕ) : Op → Prop
  | .store y _ => y ≠ x
  | .mmap addr .. => addr = 0 ∨ low ≤ alignDown addr
  | .munmap addr .. => low ≤ alignDown addr
  | _ => True

/-- The area that the fault handler finds for the address may be read. -/
def Readable (t : Task) (x : ℕ) : Prop :=
  ∃ area, krustVmmFind t.space.vmas x = some area ∧ allows area false = true

variable {t t' : Task} {x low : ℕ}

lemma zeroAt_congr (h : t'.page (x / 4096) = t.page (x / 4096)) : ZeroAt t' x ↔ ZeroAt t x := by
  unfold ZeroAt
  rw [h]

lemma ZeroAt.set (h : ZeroAt t x) {p : ℕ} {e : Entry}
    (he : p = x / 4096 → ZeroAt (t.set (x / 4096) e) x) : ZeroAt (t.set p e) x := by
  by_cases hp : p = x / 4096
  · rw [hp]
    exact he hp
  · exact (zeroAt_congr (update_of_ne (Ne.symm hp) ..)).mpr h

variable {data : ℕ → BitVec 8}

lemma zeroAt_set_resident {user write : Bool} :
    ZeroAt (t.set (x / 4096) (.resident data user write)) x ↔ data (x % 4096) = 0 := by
  unfold ZeroAt Task.set
  dsimp only
  rw [update_self]

lemma zeroAt_set_swapped :
    ZeroAt (t.set (x / 4096) (.swapped data)) x ↔ data (x % 4096) = 0 := by
  unfold ZeroAt Task.set
  dsimp only
  rw [update_self]

variable {y : ℕ}

section

variable (h : ZeroAt t x)
include h

lemma ZeroAt.swapHandleFault {ok : Bool} (ht : t.swapHandleFault y ok = some t') : ZeroAt t' x := by
  unfold Task.swapHandleFault at ht
  cases hpa : t.page (y / 4096) with
  | absent =>
    rw [hpa] at ht
    cases ht
  | resident data user write =>
    rw [hpa] at ht
    cases ht
  | swapped data =>
    rw [hpa] at ht
    dsimp only at ht
    split_ifs at ht
    rw [← some.inj ht]
    refine h.set fun hp => zeroAt_set_resident.mpr ?_
    unfold ZeroAt at h
    rw [← hp, hpa] at h
    exact h

lemma ZeroAt.vmaLazyAlloc {write ok : Bool}
    (ht : t.vmaLazyAlloc y write ok = some t') : ZeroAt t' x := by
  unfold Task.vmaLazyAlloc at ht
  rw [bind_eq_some_iff] at ht
  obtain ⟨area, -, ht⟩ := ht
  split_ifs at ht
  rw [← some.inj ht]
  exact h.set fun _ => zeroAt_set_resident.mpr rfl

lemma ZeroAt.handleFault {write swapOk lazyOk : Bool}
    (ht : t.handleFault y write swapOk lazyOk = some t') : ZeroAt t' x := by
  have hor : (t.swapHandleFault y swapOk).or (t.vmaLazyAlloc y write lazyOk) = some t' := by
    unfold Task.handleFault at ht
    cases hp : t.page (y / 4096) with
    | absent => rwa [hp] at ht
    | resident data user w =>
      rw [hp] at ht
      cases ht
    | swapped data => rwa [hp] at ht
  rcases or_eq_some_iff.mp hor with hs | ⟨-, hl⟩
  · exact h.swapHandleFault hs
  · exact h.vmaLazyAlloc hl

lemma ZeroAt.munmap (addr length : ℕ) (split : Bool) : ZeroAt (t.munmap addr length split) x := by
  unfold Task.munmap
  split_ifs
  · exact h
  unfold ZeroAt at h ⊢
  dsimp only
  split_ifs
  · cases hp : t.page (x / 4096) with
    | absent => trivial
    | resident data user write => trivial
    | swapped data => rwa [hp] at h
  · exact h

lemma ZeroAt.evict (p : ℕ) : ZeroAt (t.evict p) x := by
  unfold Task.evict
  cases hpa : t.page p with
  | absent => exact h
  | swapped data => exact h
  | resident data user write =>
    refine h.set fun hp => zeroAt_set_swapped.mpr ?_
    unfold ZeroAt at h
    rw [← hp, hpa] at h
    exact h

lemma ZeroAt.store (hne : y ≠ x) (b : BitVec 8) : ZeroAt (t.store y b) x := by
  unfold Task.store
  split
  · rename_i data hpa
    refine h.set fun hp => zeroAt_set_resident.mpr ?_
    -- the same page, so another offset
    rw [update_of_ne (by omega)]
    unfold ZeroAt at h
    rw [← hp, hpa] at h
    exact h
  · exact h

end

lemma mmap_page {addr length prot flags a : ℕ} {split ok : Bool}
    (h : t.mmap addr length prot flags split ok = some (t', a)) : t'.page = t.page := by
  unfold Task.mmap at h
  rw [bind_eq_some_iff] at h
  obtain ⟨s, -, h⟩ := h
  rw [map_eq_some_iff] at h
  obtain ⟨b, -, h⟩ := h
  rw [Prod.mk.injEq] at h
  rw [← h.1]

lemma ZeroAt.step (h : ZeroAt t x) {op : Op} (hop : op.Spares low x) (ht : op.exec t = some t') :
    ZeroAt t' x := by
  cases op with
  | mmap addr length prot flags split ok =>
    unfold Op.exec at ht
    rw [map_eq_some_iff] at ht
    obtain ⟨r, hr, rfl⟩ := ht
    exact (zeroAt_congr (congrFun (mmap_page hr) _)).mpr h
  | munmap addr length split =>
    rw [← some.inj ht]
    exact h.munmap addr length split
  | fault y write swapOk lazyOk =>
    rw [← some.inj ht]
    cases hf : t.handleFault y write swapOk lazyOk with
    | none => exact h
    | some t1 => exact h.handleFault hf
  | evict p =>
    rw [← some.inj ht]
    exact h.evict p
  | store y b =>
    rw [← some.inj ht]
    exact h.store hop b

lemma ZeroAt.run {ops : List Op} (h : ZeroAt t x) (hops : ∀ op ∈ ops, op.Spares low x)
    (ht : Mmap.run t ops = some t') : ZeroAt t' x := by
  induction ops generalizing t with
  | nil => exact some.inj ht ▸ h
  | cons op ops ih =>
    rw [Mmap.run, bind_eq_some_iff] at ht
    obtain ⟨t1, hs, hr⟩ := ht
    exact ih (h.step (hops op List.mem_cons_self) hs)
      (fun op' hop' => hops op' (List.mem_cons_of_mem op hop')) hr

lemma ZeroAt.byte (h : ZeroAt t x) (hv : t.byte x kernel = some v) : v = 0 := by
  unfold Task.byte at hv
  unfold ZeroAt at h
  cases hp : t.page (x / 4096) with
  | absent =>
    rw [hp] at hv
    cases hv
  | swapped data =>
    rw [hp] at hv
    cases hv
  | resident data user write =>
    rw [hp] at hv h
    dsimp only at hv h
    split_ifs at hv
    rw [← some.inj hv]
    exact h

lemma ZeroAt.read (h : ZeroAt t x) {swapOk lazyOk : Bool}
    (hv : t.read x kernel swapOk lazyOk = some v) : v = 0 := by
  unfold Task.read at hv
  have hf : ∀ u, t.handleFault x false swapOk lazyOk = some u → u.byte x kernel = some v →
      v = 0 := fun u hu hb => (h.handleFault hu).byte hb
  cases hp : t.page (x / 4096) with
  | resident data user write =>
    rw [hp] at hv
    exact h.byte hv
  | absent =>
    rw [hp] at hv
    obtain ⟨u, hu, hb⟩ := bind_eq_some_iff.mp hv
    exact hf u hu hb
  | swapped data =>
    rw [hp] at hv
    obtain ⟨u, hu, hb⟩ := bind_eq_some_iff.mp hv
    exact hf u hu hb

end Zero

end Elitra.Mmap
