import Elitra.Execve
import Mathlib.Data.Finset.Option

namespace Elitra.Create
open Elf Exec Function List Paging Vmm

/-- What the creation of a task takes from: frames, the live blocks of the heap, the ids, and the
task table as far as states and child lists go. `hasFpu` is `SCHED_HAS_FPU`. `twice` are the frames
that were given back while they were free. -/
structure Kernel where
  machine : Machine
  byte : ℕ → ℕ → BitVec 8
  heap : Finset ℕ
  ids : Sched.Ids
  exited : ℕ → Bool
  children : ℕ → List ℕ
  hasFpu : Bool
  twice : List ℕ

def Kernel.allocTaskId (k : Kernel) : Kernel × Option ℕ :=
  match k.ids.freeIds with
  | id :: rest =>
    let ids := { k.ids with freeIds := rest }
    if id < Sched.maxTasks ∧ k.exited id = true then ({ k with ids := ids }, some id)
    else ({ k with ids := ids.fetch.1 }, ids.fetch.2)
  | [] => ({ k with ids := k.ids.fetch.1 }, k.ids.fetch.2)

/-- `alloc_frame` with the `memset` after it; frame 0 makes the null pointer. -/
def Kernel.allocFrame (k : Kernel) : Kernel × Option ℕ :=
  let r := Paging.allocFrame k.machine
  if r.2 = Pmm.noFrame ∨ r.2 = 0 then ({ k with machine := r.1 }, none)
  else ({ k with machine := fillFrame r.1 r.2 fun _ => 0 }, some r.2)

def Kernel.freeFrame (k : Kernel) (f : ℕ) : Kernel :=
  { k with
    machine := Paging.freeFrame k.machine f
    twice := if f ∈ freeSet k.machine then f :: k.twice else k.twice }

def Kernel.malloc (k : Kernel) (block : Option ℕ) : Kernel :=
  { k with heap := k.heap ∪ block.toFinset }

/-- `setup_task_common`, as far as frames, blocks and the task table go. -/
def Kernel.setupTaskCommon (k : Kernel) (t : ℕ) (fdTable : Option ℕ) : Kernel :=
  let k := k.malloc fdTable
  let k := { k with
    exited := update k.exited t false
    children := update k.children t [] }
  if k.hasFpu then k.allocFrame.1 else k

/-- The common beginning: an id, a kernel stack, and the task's fields. -/
def Kernel.newTask (k : Kernel) (fdTable : Option ℕ) : Kernel × Option (ℕ × ℕ) :=
  match k.allocTaskId with
  | (k, none) => (k, none)
  | (k, some t) =>
    match k.allocFrame with
    | (k, none) => (k, none)
    | (k, some kstack) => (k.setupTaskCommon t fdTable, some (t, kstack))

/-- Page `i` of `allocate_user_stack_in`; with it goes the list of the frames so far. -/
def growStackIn (root i : ℕ) (p : Kernel × List ℕ) : (Kernel × List ℕ) × Bool :=
  let r := Paging.allocFrame p.1.machine
  if r.2 = Pmm.noFrame then ((p.2.foldl Kernel.freeFrame { p.1 with machine := r.1 }, p.2), false)
  else
    let m := krustPagingMapPageIn (fillFrame r.1 r.2 fun _ => 0) root (stackPage i)
      (frameAddr r.2) 7#64
    (({ p.1 with machine := m.1 }, p.2 ++ [r.2]), true)

def Kernel.allocateUserStackIn (k : Kernel) (root : ℕ) : Kernel × Bool :=
  let r := Loop.run (growStackIn root) (List.range' 1 (ustackPages - 1)) (k, [])
  (r.1.1, r.2)

/-- Page `j` of the stack is given back with the frame behind it. -/
def dropPage (j : ℕ) (k : Kernel) : Kernel :=
  let k := match krustPagingGetPhys k.machine (stackPage j) with
    | some phys => k.freeFrame (phys.toNat / 4096)
    | none => k
  { k with machine := krustPagingUnmapPage k.machine (stackPage j) }

def Kernel.dropStack (k : Kernel) (i : ℕ) : Kernel := Loop.each dropPage (List.range' 1 (i - 1)) k

/-- Page `i` of `allocate_user_stack`, on the active page tables. -/
def growStack (i : ℕ) (k : Kernel) : Kernel × Bool :=
  let r := Paging.allocFrame k.machine
  if r.2 = Pmm.noFrame then (Kernel.dropStack { k with machine := r.1 } i, false)
  else
    let m := krustPagingMapPage (fillFrame r.1 r.2 fun _ => 0) (stackPage i) (frameAddr r.2) 7#64
    ({ k with machine := m.1 }, true)

/-- `allocate_user_stack`: without memory it frees the kernel stack as well. -/
def Kernel.allocateUserStack (k : Kernel) (kstack : ℕ) : Kernel × Bool :=
  let r := Loop.run growStack (List.range' 1 (ustackPages - 1)) k
  if r.2 then r else (r.1.freeFrame kstack, false)

/-- `krust_sched_create_elf` without the copy of the arguments. -/
def krustSchedCreateElf (k : Kernel) (fdTable : Option ℕ) : Kernel × ℤ :=
  match k.newTask fdTable with
  | (k, none) => (k, -1)
  | (k, some (t, kstack)) =>
    match krustPagingCloneKernelDir k.machine with
    | (m, none) => (Kernel.freeFrame { k with machine := m } kstack, -1)
    | (m, some np) =>
      let r := Kernel.allocateUserStackIn { k with machine := m } np
      if r.2 then (r.1, t) else (r.1.freeFrame kstack, -1)

/-- The two exits of `krust_sched_create_init` that free kernel stack and directory. -/
def Kernel.abandon (k : Kernel) (old kstack np : ℕ) : Kernel :=
  (Kernel.freeFrame { k with machine := { k.machine with cr3 := old } } kstack).freeFrame np

def krustSchedCreateInit (k : Kernel) (fdTable : Option ℕ) (file : Mem × ℕ) (random : ℕ) :
    Kernel × ℤ :=
  match k.newTask fdTable with
  | (k, none) => (k, -1)
  | (k, some (t, kstack)) =>
    match krustPagingCloneKernelDir k.machine with
    | (m, none) => (Kernel.freeFrame { k with machine := m } kstack, -1)
    | (m, some np) =>
      let r := krustElfLoad file.1 file.2 random (.start { m with cr3 := np } k.byte)
      let k' := { k with machine := r.1.machine, byte := r.1.byte }
      if r.2.1 ≠ 0 then (k'.abandon m.cr3 kstack np, -1)
      else
        let r := k'.allocateUserStack kstack
        if r.2 then ({ r.1 with machine := { r.1.machine with cr3 := m.cr3 } }, t)
        else (r.1.abandon m.cr3 kstack np, -1)

/-- `krust_sched_clone`: `frame` is whether it was given a frame, `parent` the running task with its
directory, `blocks` the heap blocks for the copies of the descriptors and of the areas. With
`CLONE_VM` the child runs on the directory of its parent, and the copy stays allocated. -/
def krustSchedClone (k : Kernel) (frame : Bool) (parent : Option (ℕ × ℕ)) (fdTable : Option ℕ)
    (blocks : Finset ℕ) : Kernel × ℤ :=
  if !frame then (k, -1)
  else
    match parent with
    | none => (k, -1)
    | some (p, cr3) =>
      match k.newTask fdTable with
      | (k, none) => (k, -1)
      | (k, some (t, kstack)) =>
        match krustPagingCloneKernelDir k.machine with
        | (m, none) => (Kernel.freeFrame { k with machine := m } kstack, -1)
        | (m, some np) =>
          ({ k with
              machine := (krustPagingCopyUserPages m cr3 np).1
              heap := k.heap ∪ blocks
              children := update k.children p (k.children p ++ [t]) }, t)

/-- `krust_sched_fork`, which takes and gives back the same. -/
def krustSchedFork (k : Kernel) (frame : Bool) (parent : Option (ℕ × ℕ)) (fdTable : Option ℕ)
    (blocks : Finset ℕ) : Kernel × ℤ :=
  krustSchedClone k frame parent fdTable blocks

inductive Call where
  | fork (frame : Bool) (parent : Option (ℕ × ℕ)) (blocks : Finset ℕ)
  | clone (frame : Bool) (parent : Option (ℕ × ℕ)) (blocks : Finset ℕ)
  | createElf
  | createInit (file : Mem × ℕ) (random : ℕ)

def Call.exec (k : Kernel) (fdTable : Option ℕ) : Call → Kernel × ℤ
  | .fork frame parent blocks => krustSchedFork k frame parent fdTable blocks
  | .clone frame parent blocks => krustSchedClone k frame parent fdTable blocks
  | .createElf => krustSchedCreateElf k fdTable
  | .createInit file random => krustSchedCreateInit k fdTable file random

section Conserved

/-- Frames, blocks, ids and child lists are as before, and no frame was freed twice. -/
structure Conserved (k k' : Kernel) : Prop where
  frames : freeSet k'.machine = freeSet k.machine
  heap : k'.heap = k.heap
  ids : k'.ids = k.ids
  children : k'.children = k.children
  twice : k'.twice = k.twice

/-- There is no id to be had, and none in the list of recycled ones. -/
def NoId (k : Kernel) : Prop := k.ids.freeIds = [] ∧ Sched.maxTasks ≤ k.ids.nextId

def Call.Refused (k : Kernel) : Call → Prop
  | .fork frame parent _ => frame = false ∨ parent = none ∨ NoId k
  | .clone frame parent _ => frame = false ∨ parent = none ∨ NoId k
  | .createElf => NoId k
  | .createInit _ _ => NoId k

variable {k : Kernel} {fdTable : Option ℕ}

lemma fetch_ids {i : Sched.Ids} (h : i.fetch.1 = i) : Sched.maxTasks ≤ i.nextId := by
  unfold Sched.Ids.fetch at h
  split_ifs at h with hf
  · exact hf
  have hn := congrArg Sched.Ids.nextId h
  dsimp only at hn
  omega

lemma allocTaskId_ids : k.allocTaskId.1.ids = k.ids ↔ NoId k := by
  unfold Kernel.allocTaskId NoId
  cases hf : k.ids.freeIds with
  | nil =>
    dsimp only
    refine ⟨fun h => ⟨rfl, fetch_ids h⟩, fun h => ?_⟩
    rw [Sched.Ids.fetch, if_pos h.2]
  | cons id rest =>
    refine ⟨fun h => ?_, fun h => absurd h.1 (cons_ne_nil id rest)⟩
    have hlen := congrArg (fun i : Sched.Ids => i.freeIds.length) h
    rw [hf] at hlen
    dsimp only at hlen
    unfold Sched.Ids.fetch at hlen
    split_ifs at hlen
    · simp at hlen
    · simp at hlen
    · simp at hlen

lemma allocTaskId_noId (h : NoId k) : k.allocTaskId = (k, none) := by
  unfold Kernel.allocTaskId
  rw [h.1]
  dsimp only
  rw [Sched.Ids.fetch, if_pos h.2]

lemma allocFrame_ids (k : Kernel) : k.allocFrame.1.ids = k.ids := by
  unfold Kernel.allocFrame
  dsimp only
  split_ifs
  · rfl
  · rfl

lemma setupTaskCommon_ids (k : Kernel) (t : ℕ) : (k.setupTaskCommon t fdTable).ids = k.ids := by
  unfold Kernel.setupTaskCommon
  dsimp only
  split_ifs
  · rw [allocFrame_ids]
    rfl
  · rfl

lemma newTask_ids : (k.newTask fdTable).1.ids = k.ids ↔ NoId k := by
  rw [← allocTaskId_ids]
  unfold Kernel.newTask
  generalize k.allocTaskId = r
  obtain ⟨k1, t⟩ := r
  cases t with
  | none => exact Iff.rfl
  | some t =>
    have hids := allocFrame_ids k1
    dsimp only
    generalize k1.allocFrame = r at hids ⊢
    obtain ⟨k2, kstack⟩ := r
    cases kstack with
    | none => rw [hids]
    | some kstack =>
      dsimp only
      rw [setupTaskCommon_ids, hids]

lemma newTask_noId (h : NoId k) : k.newTask fdTable = (k, none) := by
  rw [Kernel.newTask, allocTaskId_noId h]

lemma growStackIn_ids (root i : ℕ) (p : Kernel × List ℕ) :
    (growStackIn root i p).1.1.ids = p.1.ids := by
  have hf : ∀ (l : List ℕ) (k : Kernel), (l.foldl Kernel.freeFrame k).ids = k.ids := by
    intro l
    induction l with
    | nil => exact fun _ => rfl
    | cons f l ih => exact fun k => ih (k.freeFrame f)
  unfold growStackIn
  dsimp only
  split_ifs
  · exact hf _ _
  · rfl

lemma dropPage_ids (j : ℕ) (k : Kernel) : (dropPage j k).ids = k.ids := by
  unfold dropPage
  cases krustPagingGetPhys k.machine (stackPage j) <;> rfl

lemma dropStack_ids (k : Kernel) (i : ℕ) : (k.dropStack i).ids = k.ids := by
  unfold Kernel.dropStack Loop.each
  generalize range' 1 (i - 1) = l
  induction l generalizing k with
  | nil => rfl
  | cons j l ih => rw [foldl_cons, ih, dropPage_ids]

lemma growStack_ids (i : ℕ) (k : Kernel) : (growStack i k).1.ids = k.ids := by
  unfold growStack
  dsimp only
  split_ifs
  · rw [dropStack_ids]
  · rfl

lemma allocateUserStackIn_ids (k : Kernel) (root : ℕ) : (k.allocateUserStackIn root).1.ids = k.ids :=
  Loop.run_invariant (P := fun p : Kernel × List ℕ => p.1.ids = k.ids) rfl
    fun i _ p hp => (growStackIn_ids root i p).trans hp

lemma allocateUserStack_ids (k : Kernel) (kstack : ℕ) :
    (k.allocateUserStack kstack).1.ids = k.ids := by
  have hrun : (Loop.run growStack (range' 1 (ustackPages - 1)) k).1.ids = k.ids :=
    Loop.run_invariant (P := fun k' => k'.ids = k.ids) rfl
      fun i _ k' hk => (growStack_ids i k').trans hk
  unfold Kernel.allocateUserStack
  dsimp only
  split_ifs
  · exact hrun
  · exact hrun

lemma createElf_ids : (krustSchedCreateElf k fdTable).1.ids = (k.newTask fdTable).1.ids := by
  unfold krustSchedCreateElf
  generalize k.newTask fdTable = r
  obtain ⟨k1, _ | ⟨t, kstack⟩⟩ := r
  · rfl
  dsimp only
  generalize krustPagingCloneKernelDir k1.machine = r
  obtain ⟨m, _ | np⟩ := r
  · rfl
  have hs := allocateUserStackIn_ids { k1 with machine := m } np
  dsimp only at hs ⊢
  split_ifs
  · exact hs
  · exact hs

lemma abandon_ids (k : Kernel) (old kstack np : ℕ) : (k.abandon old kstack np).ids = k.ids := rfl

lemma createInit_ids (file : Mem × ℕ) (random : ℕ) :
    (krustSchedCreateInit k fdTable file random).1.ids = (k.newTask fdTable).1.ids := by
  unfold krustSchedCreateInit
  generalize k.newTask fdTable = r
  obtain ⟨k1, _ | ⟨t, kstack⟩⟩ := r
  · rfl
  dsimp only
  generalize krustPagingCloneKernelDir k1.machine = r
  obtain ⟨m, _ | np⟩ := r
  · rfl
  dsimp only
  generalize krustElfLoad file.1 file.2 random (.start { m with cr3 := np } k1.byte) = r
  generalize hk : ({ k1 with machine := r.1.machine, byte := r.1.byte } : Kernel) = k'
  have hids : k'.ids = k1.ids := by rw [← hk]
  have hs := (allocateUserStack_ids k' kstack).trans hids
  generalize k'.allocateUserStack kstack = r' at hs ⊢
  split_ifs
  · exact (abandon_ids k' m.cr3 kstack np).trans hids
  · exact hs
  · exact (abandon_ids r'.1 m.cr3 kstack np).trans hs

lemma clone_ids (p cr3 : ℕ) (blocks : Finset ℕ) :
    (krustSchedClone k true (some (p, cr3)) fdTable blocks).1.ids = (k.newTask fdTable).1.ids := by
  unfold krustSchedClone
  rw [if_neg (by decide)]
  dsimp only
  generalize k.newTask fdTable = r
  obtain ⟨k1, _ | ⟨t, kstack⟩⟩ := r
  · rfl
  dsimp only
  generalize krustPagingCloneKernelDir k1.machine = r
  obtain ⟨m, _ | np⟩ := r
  · rfl
  · rfl

lemma Conserved.refl (k : Kernel) : Conserved k k := ⟨rfl, rfl, rfl, rfl, rfl⟩

lemma clone_conserves_iff {frame : Bool} {parent : Option (ℕ × ℕ)} {blocks : Finset ℕ} :
    Conserved k (krustSchedClone k frame parent fdTable blocks).1 ↔
      frame = false ∨ parent = none ∨ NoId k := by
  cases frame with
  | false => exact ⟨fun _ => .inl rfl, fun _ => Conserved.refl k⟩
  | true =>
    obtain _ | ⟨p, cr3⟩ := parent
    · exact ⟨fun _ => .inr (.inl rfl), fun _ => Conserved.refl k⟩
    constructor
    · intro h
      exact .inr (.inr (newTask_ids.mp ((clone_ids p cr3 blocks).symm.trans h.ids)))
    rintro (h | h | h)
    · cases h
    · cases h
    unfold krustSchedClone
    rw [if_neg (by decide), newTask_noId h]
    exact Conserved.refl k

/-- A creation that returns -1 leaves frames, blocks, ids and child lists as they were just when it
stops before an id is taken: no later exit gives the id back. -/
theorem creation_conserves_iff (call : Call) (_ : (call.exec k fdTable).2 = -1) :
    Conserved k (call.exec k fdTable).1 ↔ call.Refused k := by
  cases call with
  | fork frame parent blocks => exact clone_conserves_iff
  | clone frame parent blocks => exact clone_conserves_iff
  | createElf =>
    refine ⟨fun h => newTask_ids.mp (createElf_ids.symm.trans h.ids), fun h => ?_⟩
    unfold Call.exec krustSchedCreateElf
    rw [newTask_noId h]
    exact Conserved.refl k
  | createInit file random =>
    refine ⟨fun h => newTask_ids.mp ((createInit_ids file random).symm.trans h.ids), fun h => ?_⟩
    unfold Call.exec krustSchedCreateInit
    rw [newTask_noId h]
    exact Conserved.refl k

/-- Empty page tables and eight frames, of which the last are free from `first` on. -/
def sampleKernel (bitmap : BitVec 8) (first nextId : ℕ) : Kernel where
  machine :=
    { mem := fun _ _ => 0
      pmm := ⟨fun a => if a = 0x100 then bitmap else 0#8, 0x100, 1, 8, first⟩
      cow := ⟨0, 0, fun _ => 0⟩
      pml4 := 2
      cr3 := 1 }
  byte _ _ := 0
  heap := ∅
  ids := ⟨nextId, []⟩
  exited _ := false
  children _ := []
  hasFpu := false
  twice := []

theorem creation_conserves_iff_full :
    Conserved (sampleKernel 0x3F 6 128) (Call.createElf.exec (sampleKernel 0x3F 6 128) none).1 :=
  (creation_conserves_iff .createElf (by decide)).mpr ⟨rfl, Nat.le_refl 128⟩

/-- With two free frames `krust_sched_create_init` comes to the user stack, fails there and frees the
kernel stack, frame 6, twice; with one frame `krust_sched_create_elf` fails at the clone. Either way
the id is gone and the descriptor table stays in the heap. -/
theorem creation_leaks :
    (krustSchedCreateInit (sampleKernel 0x3F 6 3) (some 5) (executable [], 64) 0).2 = -1 ∧
      (krustSchedCreateInit (sampleKernel 0x3F 6 3) (some 5) (executable [], 64) 0).1.twice = [6] ∧
      (krustSchedCreateInit (sampleKernel 0x3F 6 3) (some 5) (executable [], 64) 0).1.ids = ⟨4, []⟩ ∧
      (krustSchedCreateElf (sampleKernel 0x7F 7 3) (some 5)).2 = -1 ∧
      (krustSchedCreateElf (sampleKernel 0x7F 7 3) (some 5)).1.ids = ⟨4, []⟩ ∧
      (krustSchedCreateElf (sampleKernel 0x7F 7 3) (some 5)).1.heap = {5} := by
  decide +kernel

end Conserved

end Elitra.Create
