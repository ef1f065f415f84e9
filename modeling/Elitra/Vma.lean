import Elitra.Heap
import Mathlib.Data.List.Pairwise

namespace Elitra.Vmm
open Function List

/-- A virtual memory area `[start, stop)`; the list of a task's areas is the `next` chain. -/
structure Vma where
  start : ℕ
  stop : ℕ
  flags : ℕ
  deriving DecidableEq, Repr

def pageSize : ℕ := 4096
def mmapVaddr : ℕ := 0x40000000
def brkInitial : ℕ := 0x10000000
def ustackVaddr : ℕ := 0xC0000000
def ustackPages : ℕ := 16
def vmaTypeAnon : ℕ := 0x100
def vmaTypeHeap : ℕ := 0x800

/-- The lowest page of the user stack, its guard page. -/
def ustackBase : ℕ := ustackVaddr - (ustackPages - 1) * pageSize

/-- Sums of addresses are taken in 64 bits. -/
def add64 (a b : ℕ) : ℕ := (a + b) % 2 ^ 64

/-- `(x + 0xFFF) & !0xFFF`. -/
def alignUp (x : ℕ) : ℕ := add64 x 0xFFF / pageSize * pageSize

/-- `x & !0xFFF`. -/
def alignDown (x : ℕ) : ℕ := x / pageSize * pageSize

def overlaps (start stop : ℕ) (v : Vma) : Bool := decide (v.start < stop) && decide (start < v.stop)

def krustVmmFind (l : List Vma) (addr : ℕ) : Option Vma :=
  l.find? fun v => decide (v.start ≤ addr) && decide (addr < v.stop)

/-- The new area goes before the first one that does not start below it. -/
def insertArea (v : Vma) : List Vma → List Vma
  | [] => [v]
  | c :: cs => if c.start < v.start then c :: insertArea v cs else v :: c :: cs

/-- `ok` is whether `krust_malloc` has memory. The result is the list and whether the returned
pointer is not null. -/
def krustVmmAdd (l : List Vma) (start stop flags : ℕ) (ok : Bool) : List Vma × Bool :=
  if stop ≤ start then (l, false)
  else if !ok then (l, false)
  else (insertArea ⟨start, stop, flags⟩ l, true)

/-- An area inside the range goes; one around the range is split, and the loop ends there, also
when there is no memory for the second half; one across an end of the range is cut. -/
def krustVmmRemove (ok : Bool) (start stop : ℕ) : List Vma → List Vma
  | [] => []
  | c :: cs =>
    if overlaps start stop c then
      if start ≤ c.start ∧ c.stop ≤ stop then krustVmmRemove ok start stop cs
      else if c.start < start ∧ stop < c.stop then
        if ok then { c with stop := start } :: { c with start := stop } :: cs else c :: cs
      else if c.start < start ∧ start < c.stop then
        { c with stop := start } :: krustVmmRemove ok start stop cs
      else if c.start < stop ∧ stop < c.stop then
        { c with start := stop } :: krustVmmRemove ok start stop cs
      else c :: krustVmmRemove ok start stop cs
    else c :: krustVmmRemove ok start stop cs

def krustVmmHasOverlap (l : List Vma) (start stop : ℕ) : Bool :=
  if stop ≤ start then true else l.any (overlaps start stop)

/-- What the memory system calls keep of a task. -/
structure Space where
  vmas : List Vma
  programBrk : ℕ
  deriving DecidableEq, Repr

/-- `setup_task_common`. -/
def Space.new : Space := ⟨[], brkInitial⟩

/-- The loop of an `mmap` without a hint; `none` when the given number of rounds is not enough. -/
def mmapSearch (l : List Vma) (length : ℕ) : ℕ → ℕ → Option ℕ
  | 0, _ => none
  | fuel + 1, addr =>
    if krustVmmHasOverlap l addr (add64 addr length) then mmapSearch l length fuel (add64 addr 0x100000)
    else some addr

/-- After this many rounds the addresses repeat. -/
def mmapRounds : ℕ := 2 ^ 44

variable {addr : ℕ} {l : List Vma}

/-- `flags & 0x10`. -/
def mapFixed (flags : ℕ) : Bool := flags.testBit 4

/-- The address of an `mmap` and the list it is added to. -/
def mmapPlace (s : Space) (addr length flags : ℕ) (split : Bool) : Option (ℕ × List Vma) :=
  if mapFixed flags && addr != 0 then
    some (addr, krustVmmRemove split addr (add64 addr length) s.vmas)
  else if addr = 0 then (mmapSearch s.vmas length mmapRounds mmapVaddr).map fun a => (a, s.vmas)
  else some (addr, s.vmas)

/-- System call 36. `split` and `ok` are the results of the two `krust_malloc` calls it can make;
`none`: the search for an address never ends. -/
def sysMmap (s : Space) (addr length prot flags : ℕ) (split ok : Bool) : Option Space :=
  if length = 0 then some s
  else (mmapPlace s addr (alignUp length) flags split).map fun p =>
    { s with vmas := (krustVmmAdd p.2 p.1 (add64 p.1 (alignUp length)) (prot ||| vmaTypeAnon) ok).1 }

/-- System call 37. -/
def sysMunmap (s : Space) (addr length : ℕ) (split : Bool) : Space :=
  if length = 0 then s
  else { s with vmas := krustVmmRemove split (alignDown addr) (alignUp (add64 addr length)) s.vmas }

/-- System call 38. -/
def sysBrk (s : Space) (newBrk : ℕ) (split ok : Bool) : Space :=
  if newBrk = 0 then s
  else if newBrk < brkInitial then s
  else if ustackVaddr - 0x100000 < newBrk then s
  else if s.programBrk < newBrk then
    ⟨(krustVmmAdd s.vmas s.programBrk (alignUp newBrk) (3 ||| vmaTypeHeap) ok).1, newBrk⟩
  else ⟨krustVmmRemove split (alignUp newBrk) (alignUp s.programBrk) s.vmas, newBrk⟩

/-- System call 39. -/
def sysMprotect (s : Space) (addr len prot : ℕ) (split ok : Bool) : Space :=
  if len = 0 then s
  else
    let first := alignDown addr
    let stop := alignUp (add64 addr len)
    match krustVmmFind s.vmas first with
    | none => s
    | some v =>
      if v.stop ≤ first then s
      else
        { s with vmas := (krustVmmAdd (krustVmmRemove split first stop s.vmas) first stop
            (prot ||| vmaTypeAnon) ok).1 }

/-- The copy loop of `krust_sched_fork`: one `krust_vmm_add` for each area of the parent, with the
result of the `krust_malloc` in its round. -/
def copyAreas (ok : ℕ → Bool) : ℕ → List Vma → List Vma → List Vma
  | _, acc, [] => acc
  | i, acc, v :: vs => copyAreas ok (i + 1) (krustVmmAdd acc v.start v.stop v.flags (ok i)).1 vs

def forkSpace (s : Space) (ok : ℕ → Bool) : Space := ⟨copyAreas ok 0 [] s.vmas, s.programBrk⟩

inductive Op where
  | mmap (addr length prot flags : ℕ) (split ok : Bool)
  | munmap (addr length : ℕ) (split : Bool)
  | brk (newBrk : ℕ) (split ok : Bool)
  | mprotect (addr len prot : ℕ) (split ok : Bool)
  | fork (child : ℕ) (ok : ℕ → Bool)

/-- The spaces of all tasks, and one call made by task `t`. -/
def Op.exec (s : ℕ → Space) (t : ℕ) : Op → Option (ℕ → Space)
  | .mmap addr length prot flags split ok =>
    (sysMmap (s t) addr length prot flags split ok).map (update s t)
  | .munmap addr length split => some (update s t (sysMunmap (s t) addr length split))
  | .brk newBrk split ok => some (update s t (sysBrk (s t) newBrk split ok))
  | .mprotect addr len prot split ok =>
    some (update s t (sysMprotect (s t) addr len prot split ok))
  | .fork child ok => some (update s child (forkSpace (s t) ok))

/-- From the first page to the user stack, without the window of the kernel's heap. -/
def Allowed (start stop : ℕ) : Prop :=
  0x1000 ≤ start ∧ stop ≤ ustackBase ∧
    (stop ≤ Heap.heapStart ∨ Heap.heapStart + Heap.heapSize ≤ start)

instance (start stop : ℕ) : Decidable (Allowed start stop) := inferInstanceAs (Decidable (_ ∧ _))

structure Areas (l : List Vma) : Prop where
  sorted : l.Pairwise fun a b => a.start ≤ b.start
  nonempty : ∀ v ∈ l, v.start < v.stop
  disjoint : l.Pairwise fun a b => a.stop ≤ b.start ∨ b.stop ≤ a.start
  allowed : ∀ v ∈ l, Allowed v.start v.stop

/-- An added range is allowed and free in the list it is added to. -/
def AddOk (l : List Vma) (start stop : ℕ) : Prop :=
  start < stop → Allowed start stop ∧ krustVmmHasOverlap l start stop = false

/-- A removed range that ends before it starts, by a sum that wrapped, does not lie inside an
area. -/
def RemoveOk (l : List Vma) (start stop : ℕ) : Prop :=
  stop < start → ∀ v ∈ l, overlaps start stop v = false

/-- The condition on a call of a task with space `s`. -/
def Op.Clean (s : Space) : Op → Prop
  | .mmap addr length _ flags split _ =>
    length ≠ 0 →
      (mapFixed flags = true → addr ≠ 0 → RemoveOk s.vmas addr (add64 addr (alignUp length))) ∧
        ∀ p ∈ mmapPlace s addr (alignUp length) flags split,
          AddOk p.2 p.1 (add64 p.1 (alignUp length))
  | .munmap addr length _ =>
    length ≠ 0 → RemoveOk s.vmas (alignDown addr) (alignUp (add64 addr length))
  | .brk newBrk _ _ =>
    s.programBrk < newBrk → newBrk ≤ ustackVaddr - 0x100000 →
      AddOk s.vmas s.programBrk (alignUp newBrk)
  | .mprotect addr len _ split _ =>
    len ≠ 0 → krustVmmFind s.vmas (alignDown addr) ≠ none →
      RemoveOk s.vmas (alignDown addr) (alignUp (add64 addr len)) ∧
        AddOk (krustVmmRemove split (alignDown addr) (alignUp (add64 addr len)) s.vmas)
          (alignDown addr) (alignUp (add64 addr len))
  | .fork _ _ => True

/-- The spaces reached from fresh ones by calls that meet the condition. -/
inductive CleanRun : (ℕ → Space) → Prop
  | start : CleanRun fun _ => Space.new
  | step {s s' : ℕ → Space} (t : ℕ) (op : Op) : CleanRun s → op.Clean (s t) →
      op.exec s t = some s' → CleanRun s'

variable {v : Vma}

section Lists

/-- Each area ends before the next one starts, and none is empty. -/
def Chain (l : List Vma) : Prop :=
  l.Pairwise (fun a b => a.stop ≤ b.start) ∧ ∀ v ∈ l, v.start < v.stop

variable {l : List Vma}

lemma Chain.cons : Chain (v :: l) ↔ (∀ w ∈ l, v.stop ≤ w.start) ∧ v.start < v.stop ∧ Chain l := by
  unfold Chain
  rw [pairwise_cons, forall_mem_cons]
  tauto

lemma mem_insertArea {w : Vma} : w ∈ insertArea v l ↔ w = v ∨ w ∈ l := by
  induction l with
  | nil => simp [insertArea]
  | cons c cs ih =>
    unfold insertArea
    split
    · rw [mem_cons, ih, mem_cons]
      tauto
    · simp only [mem_cons]

variable {start stop : ℕ}

lemma overlaps_eq_false : overlaps start stop v = false ↔ stop ≤ v.start ∨ v.stop ≤ start := by
  simp [overlaps, Classical.or_iff_not_imp_left]

lemma hasOverlap_eq_false :
    krustVmmHasOverlap l start stop = false ↔
      start < stop ∧ ∀ v ∈ l, stop ≤ v.start ∨ v.stop ≤ start := by
  unfold krustVmmHasOverlap
  by_cases h : stop ≤ start
  · simp [h]
  simp only [if_neg h, any_eq_false, Bool.not_eq_true, overlaps_eq_false, Nat.not_le.mp h, true_and]

lemma Chain.insert (hl : Chain l) (hv : v.start < v.stop)
    (hf : ∀ w ∈ l, v.stop ≤ w.start ∨ w.stop ≤ v.start) : Chain (insertArea v l) := by
  induction l with
  | nil => exact Chain.cons.mpr ⟨by simp, hv, hl⟩
  | cons c cs ih =>
    obtain ⟨hc, hne, hcs⟩ := Chain.cons.mp hl
    have hvc := hf c (mem_cons_self ..)
    unfold insertArea
    split
    case isTrue hlt =>
      have hr := ih hcs fun w hw => hf w (mem_cons_of_mem _ hw)
      refine Chain.cons.mpr ⟨fun w hw => ?_, hne, hr⟩
      rcases mem_insertArea.mp hw with rfl | hw
      · omega
      · exact hc w hw
    case isFalse hge =>
      refine Chain.cons.mpr ⟨fun w hw => ?_, hv, hl⟩
      rcases mem_cons.mp hw with rfl | hw
      · omega
      have := hc w hw
      omega

/-- Removing only takes parts away: what is left of the list lies in areas of the list. -/
lemma remove_inside {ok : Bool} {w : Vma}
    (hw : w ∈ krustVmmRemove ok start stop l) (hle : start ≤ stop) :
    ∃ v ∈ l, v.start ≤ w.start ∧ w.stop ≤ v.stop := by
  induction l with
  | nil => simp [krustVmmRemove] at hw
  | cons c cs ih =>
    have hse : c ∈ c :: cs := mem_cons_self ..
    have hre : w ∈ krustVmmRemove ok start stop cs →
        ∃ v ∈ c :: cs, v.start ≤ w.start ∧ w.stop ≤ v.stop := by
      intro h
      obtain ⟨v, hv, hin⟩ := ih h
      exact ⟨v, mem_cons_of_mem _ hv, hin⟩
    have hk : ∀ {r : List Vma} {d : Vma}, w ∈ d :: r → c.start ≤ d.start → d.stop ≤ c.stop →
        (w ∈ r → ∃ v ∈ c :: cs, v.start ≤ w.start ∧ w.stop ≤ v.stop) →
        ∃ v ∈ c :: cs, v.start ≤ w.start ∧ w.stop ≤ v.stop := by
      intro r d h hs hst hr
      rcases mem_cons.mp h with rfl | h
      · exact ⟨c, hse, hs, hst⟩
      · exact hr h
    have hl : w ∈ cs → ∃ v ∈ c :: cs, v.start ≤ w.start ∧ w.stop ≤ v.stop := fun h =>
      ⟨w, mem_cons_of_mem _ h, le_rfl, le_rfl⟩
    unfold krustVmmRemove at hw
    split at hw
    · split_ifs at hw with h1 h2 h3 h4 h5
      · exact hre hw
      · exact hk hw le_rfl (by dsimp only; omega) fun hw =>
          hk hw (by dsimp only; omega) le_rfl hl
      · exact hk hw le_rfl le_rfl hl
      · exact hk hw le_rfl (by dsimp only; omega) hre
      · exact hk hw (by dsimp only; omega) le_rfl hre
      · exact hk hw le_rfl le_rfl hre
    · exact hk hw le_rfl le_rfl hre

lemma Chain.remove {ok : Bool} (hl : Chain l)
    (hle : start ≤ stop) : Chain (krustVmmRemove ok start stop l) := by
  induction l with
  | nil => exact hl
  | cons c cs ih =>
    obtain ⟨hc, hne, hcs⟩ := Chain.cons.mp hl
    -- What follows `c` stays behind it, so any nonempty part of `c` may stand before it.
    have hp : ∀ d : Vma, d.start < d.stop → d.stop ≤ c.stop →
        Chain (d :: krustVmmRemove ok start stop cs) := by
      intro d hd hs
      refine Chain.cons.mpr ⟨fun w hw => ?_, hd, ih hcs⟩
      obtain ⟨v, hv, hin, -⟩ := remove_inside hw hle
      have := hc v hv
      omega
    unfold krustVmmRemove
    split
    · rename_i ho
      have ho' : c.start < stop ∧ start < c.stop := by simpa [overlaps] using ho
      split_ifs with h1 h2 h3 h4 h5
      · exact ih hcs
      · have hb : Chain ({ c with start := stop } :: cs) := Chain.cons.mpr ⟨hc, h2.2, hcs⟩
        refine Chain.cons.mpr ⟨fun w hw => ?_, h2.1, hb⟩
        rcases mem_cons.mp hw with rfl | hw
        · exact hle
        have := hc w hw
        dsimp only
        omega
      · exact hl
      · exact hp _ h4.1 (by dsimp only; omega)
      · exact hp _ h5.2 le_rfl
      · exact hp c hne le_rfl
    · exact hp c hne le_rfl

lemma remove_none {ok : Bool}
    (h : ∀ v ∈ l, overlaps start stop v = false) : krustVmmRemove ok start stop l = l := by
  induction l with
  | nil => rfl
  | cons c cs ih =>
    have hc := h c (mem_cons_self ..)
    rw [krustVmmRemove, if_neg (by simp [hc]), ih fun v hv => h v (mem_cons_of_mem _ hv)]

end Lists

section Invariant

/-- The invariant of a space. -/
structure Inv (s : Space) : Prop where
  chain : Chain s.vmas
  allowed : ∀ v ∈ s.vmas, Allowed v.start v.stop
  brk : s.programBrk ≤ ustackVaddr - 0x100000

/-- The part about the list, which the two list operations keep. -/
def ListInv (l : List Vma) : Prop := Chain l ∧ ∀ v ∈ l, Allowed v.start v.stop

lemma Allowed.mono {a b c d : ℕ} (h : Allowed a b) (hac : a ≤ c) (hdb : d ≤ b) :
    Allowed c d := by
  unfold Allowed at *
  omega

variable {l : List Vma}

lemma ListInv.add (hl : ListInv l) {start stop : ℕ} (flags : ℕ) (ok : Bool)
    (h : AddOk l start stop) : ListInv (krustVmmAdd l start stop flags ok).1 := by
  unfold krustVmmAdd
  split_ifs with hle hok
  · exact hl
  · exact hl
  obtain ⟨ha, ho⟩ := h (Nat.not_le.mp hle)
  refine ⟨hl.1.insert (Nat.not_le.mp hle) (hasOverlap_eq_false.mp ho).2, fun v hv => ?_⟩
  rcases mem_insertArea.mp hv with rfl | hv
  · exact ha
  · exact hl.2 v hv

lemma ListInv.remove (hl : ListInv l) {start stop : ℕ} (ok : Bool)
    (h : RemoveOk l start stop) : ListInv (krustVmmRemove ok start stop l) := by
  rcases Nat.lt_or_ge stop start with hlt | hle
  · rw [remove_none (h hlt)]
    exact hl
  refine ⟨hl.1.remove hle, fun w hw => ?_⟩
  obtain ⟨v, hv, hs, hst⟩ := remove_inside hw hle
  exact (hl.2 v hv).mono hs hst

variable {s : Space}

lemma Inv.list (h : Inv s) : ListInv s.vmas := ⟨h.chain, h.allowed⟩

lemma Inv.of_list {s s' : Space} (h : Inv s) (hl : ListInv s'.vmas)
    (hbrk : s'.programBrk = s.programBrk) : Inv s' :=
  ⟨hl.1, hl.2, hbrk ▸ h.brk⟩

variable {split ok : Bool}

lemma Inv.mmap {s s' : Space} (h : Inv s) {length prot flags : ℕ}
    (hc : (Op.mmap addr length prot flags split ok).Clean s)
    (hs : sysMmap s addr length prot flags split ok = some s') : Inv s' := by
  unfold sysMmap at hs
  split at hs
  · cases hs
    exact h
  rename_i hl
  obtain ⟨p, hp, rfl⟩ := Option.map_eq_some_iff.mp hs
  obtain ⟨hr, hadd⟩ := hc hl
  refine h.of_list (ListInv.add ?_ _ _ (hadd p hp)) rfl
  unfold mmapPlace at hp
  split at hp
  · rename_i hf
    cases hp
    rw [Bool.and_eq_true, bne_iff_ne] at hf
    exact h.list.remove split (hr hf.1 hf.2)
  split at hp
  · obtain ⟨a, -, rfl⟩ := Option.map_eq_some_iff.mp hp
    exact h.list
  cases hp
  exact h.list

lemma Inv.munmap (h : Inv s) {length : ℕ} {split : Bool}
    (hc : (Op.munmap addr length split).Clean s) : Inv (sysMunmap s addr length split) := by
  unfold sysMunmap
  split
  · exact h
  rename_i hl
  exact h.of_list (h.list.remove split (hc hl)) rfl

lemma alignUp_mono {a b : ℕ} (hab : a ≤ b) (hb : b ≤ ustackVaddr) : alignUp a ≤ alignUp b := by
  unfold ustackVaddr at hb
  unfold alignUp add64 pageSize
  omega

lemma Inv.brkCall (h : Inv s) {newBrk : ℕ}
    (hc : (Op.brk newBrk split ok).Clean s) : Inv (sysBrk s newBrk split ok) := by
  unfold sysBrk
  split_ifs with hz hlow hh hg
  · exact h
  · exact h
  · exact h
  · have hl := h.list.add (3 ||| vmaTypeHeap) ok (hc hg (Nat.not_lt.mp hh))
    exact ⟨hl.1, hl.2, Nat.not_lt.mp hh⟩
  have hle : alignUp newBrk ≤ alignUp s.programBrk :=
    alignUp_mono (Nat.not_lt.mp hg) (h.brk.trans (Nat.sub_le _ _))
  have hl := h.list.remove split fun hlt => absurd hle (Nat.not_le.mpr hlt)
  exact ⟨hl.1, hl.2, Nat.not_lt.mp hh⟩

lemma Inv.mprotect (h : Inv s) {len prot : ℕ} (hc : (Op.mprotect addr len prot split ok).Clean s) :
    Inv (sysMprotect s addr len prot split ok) := by
  unfold sysMprotect
  split
  · exact h
  rename_i hlen
  dsimp only
  split
  · exact h
  rename_i v hv
  split
  · exact h
  obtain ⟨hr, hadd⟩ := hc hlen (by rw [hv]; simp)
  exact h.of_list ((h.list.remove split hr).add _ _ hadd) rfl

lemma ListInv.copy {ok : ℕ → Bool} : ∀ {i : ℕ} {acc : List Vma}, ListInv acc →
    ListInv l → (∀ a ∈ acc, ∀ b ∈ l, a.stop ≤ b.start) → ListInv (copyAreas ok i acc l) := by
  induction l with
  | nil => exact fun hacc _ _ => hacc
  | cons v vs ih =>
    intro i acc hacc hl hbe
    obtain ⟨hv, hne, hvs⟩ := Chain.cons.mp hl.1
    have hs : v ∈ v :: vs := mem_cons_self ..
    have hf : AddOk acc v.start v.stop := fun _ =>
      ⟨hl.2 v hs, hasOverlap_eq_false.mpr ⟨hne, fun a ha => .inr (hbe a ha v hs)⟩⟩
    refine ih (hacc.add v.flags (ok i) hf)
      ⟨hvs, fun w hw => hl.2 w (mem_cons_of_mem _ hw)⟩ fun a ha b hb => ?_
    unfold krustVmmAdd at ha
    split_ifs at ha with hle hok
    · exact hbe a ha b (mem_cons_of_mem _ hb)
    · exact hbe a ha b (mem_cons_of_mem _ hb)
    rcases mem_insertArea.mp ha with rfl | ha
    · exact hv b hb
    · exact hbe a ha b (mem_cons_of_mem _ hb)

lemma Inv.fork (h : Inv s) (ok : ℕ → Bool) : Inv (forkSpace s ok) := by
  have hnil : ListInv [] := ⟨⟨List.Pairwise.nil, by simp⟩, by simp⟩
  have hl : ListInv (copyAreas ok 0 [] s.vmas) := hnil.copy h.list (by simp)
  exact ⟨hl.1, hl.2, h.brk⟩

lemma Inv.new : Inv Space.new := by
  refine ⟨⟨List.Pairwise.nil, ?_⟩, ?_, by decide⟩ <;> intro v hv <;> cases hv

lemma Inv.step {s s' : ℕ → Space} (h : ∀ t, Inv (s t)) {t : ℕ} {op : Op}
    (hc : op.Clean (s t)) (hs : op.exec s t = some s') : ∀ t', Inv (s' t') := by
  have hu : ∀ {x : Space} (u : ℕ), Inv x → ∀ t', Inv (update s u x t') := by
    intro x u hx t'
    by_cases ht : t' = u
    · subst ht
      rw [update_self]
      exact hx
    rw [update_of_ne ht]
    exact h t'
  cases op with
  | mmap addr length prot flags split ok =>
    obtain ⟨x, hx, rfl⟩ := Option.map_eq_some_iff.mp hs
    exact hu t ((h t).mmap hc hx)
  | munmap addr length split =>
    cases hs
    exact hu t ((h t).munmap hc)
  | brk newBrk split ok =>
    cases hs
    exact hu t ((h t).brkCall hc)
  | mprotect addr len prot split ok =>
    cases hs
    exact hu t ((h t).mprotect hc)
  | fork child ok =>
    cases hs
    exact hu child ((h t).fork ok)

lemma CleanRun.inv {s : ℕ → Space} (h : CleanRun s) : ∀ t, Inv (s t) := by
  induction h with
  | start => exact fun _ => Inv.new
  | step t op _ hc hs ih => exact Inv.step ih hc hs

lemma Inv.areas (h : Inv s) : Areas s.vmas := by
  obtain ⟨hp, hne⟩ := h.chain
  refine ⟨?_, hne, hp.imp .inl, h.allowed⟩
  refine hp.imp_of_mem fun {a b} ha hb hab => ?_
  have := hne a ha
  omega

end Invariant

/-- Along every run whose calls meet the condition, the areas of every task stay sorted, nonempty,
disjoint and in the allowed part of the address space. -/
theorem clean_run_areas {s : ℕ → Space} (h : CleanRun s) (t : ℕ) : Areas (s t).vmas :=
  (h.inv t).areas

theorem clean_run_areas_fork : ∃ s, CleanRun s ∧ Areas (s 1).vmas ∧
    (s 1).vmas.map (fun v => (v.start, v.stop)) =
      [(0x10000000, 0x10001000), (0x10001000, 0x10002000), (0x10002000, 0x10004000)] := by
  have h1 : CleanRun _ := .step 0 (.brk 0x10001000 true true) .start
    (fun _ _ _ => by decide) rfl
  have h2 : CleanRun _ := .step 0 (.brk 0x10004000 true true) h1
    (fun _ _ _ => by decide) rfl
  have h3 : CleanRun _ := .step 0 (.mmap 0x10001000 4096 1 0x10 true true) h2
    (fun _ => ⟨fun _ _ hlt => absurd hlt (by decide), fun p hp => by
      cases hp
      exact fun _ => by decide⟩) rfl
  have h4 : CleanRun _ := .step 0 (.fork 1 fun _ => true) h3 trivial rfl
  exact ⟨_, h4, clean_run_areas h4 1, by decide⟩

lemma mmapSearch_found {length : ℕ} (h : krustVmmHasOverlap l addr (add64 addr length) = false) :
    mmapSearch l length mmapRounds addr = some addr := by
  rw [show mmapRounds = (2 ^ 44 - 1) + 1 by decide, mmapSearch, if_neg (by simp [h])]

/-- A first `mmap` without a hint puts its area at the start of the kernel's heap. -/
theorem mmap_in_heap_window : ∃ s,
    (Op.mmap 0 4096 3 0 true true).exec (fun _ => Space.new) 1 = some s ∧
      ¬ Areas (s 1).vmas := by
  have hs : mmapSearch [] (alignUp 4096) mmapRounds mmapVaddr = some mmapVaddr :=
    mmapSearch_found (by decide)
  have hp : mmapPlace Space.new 0 (alignUp 4096) 0 true = some (mmapVaddr, []) := by
    rw [mmapPlace, if_neg (by decide), if_pos rfl]
    exact congrArg (Option.map _) hs
  refine ⟨update (fun _ => Space.new) 1 ⟨[⟨0x40000000, 0x40001000, 0x103⟩], brkInitial⟩,
    ?_, fun h => ?_⟩
  · rw [Op.exec, sysMmap, if_neg (by decide), hp]
    rfl
  have hbad := h.allowed ⟨0x40000000, 0x40001000, 0x103⟩ (by simp)
  exact absurd hbad (by decide)

end Elitra.Vmm
