import Elitra.CowSystem

namespace Elitra.Paging
open Finset Radix Sharing

inductive CowOp where
  | fork (src : ℕ)
  | resolve (r addr : ℕ)
  | teardown (r : ℕ)

def CowOp.exec (s : System) : CowOp → System
  | .fork src => Paging.fork s src
  | .resolve r addr => Paging.resolve s r addr
  | .teardown r => Paging.teardown s r

/-- The steps that keep the share counts right: a fork of a space without shared pages whose
writable pages can be counted, a resolution that finds a frame if it needs one, and a teardown of a
space whose uncounted frames nobody else uses. -/
def CowOp.Clean (kern : Set ℕ) (s : System) : CowOp → Prop
  | .fork src => src ∈ s.spaces ∧ Forkable s.machine src
  | .resolve r addr => r ∈ s.spaces ∧ addr < userAddrs ∧
      (shared (leaf s.machine r (addr / 4096)) = true →
        Cow.krustCowRefcount s.machine.cow (pteFrame (leaf s.machine r (addr / 4096))) ≠ 0 →
        freeSet s.machine ≠ ∅)
  | .teardown r => r ∈ s.spaces ∧ Releasable kern s r

/-- Address spaces before the first fork: nothing is shared, each writable page has its own frame,
and user pages lie in frames that are in use and hold no page tables. -/
structure Start (kern : Set ℕ) (s : System) : Prop where
  tables : ∃ place, Tables (s.spaces : Set ℕ) kern place s.machine
  unshared : ∀ r ∈ s.spaces, ∀ v, v < userPages → shared (leaf s.machine r v) = false
  counts : ∀ f, Cow.krustCowRefcount s.machine.cow f = 0
  single : ∀ r ∈ s.spaces, ∀ v, v < userPages → ∀ r' ∈ s.spaces, ∀ v', v' < userPages →
    present (leaf s.machine r v) = true → user (leaf s.machine r v) = true →
    writable (leaf s.machine r v) = true →
    present (leaf s.machine r' v') = true → user (leaf s.machine r' v') = true →
    pteFrame (leaf s.machine r' v') = pteFrame (leaf s.machine r v) → r = r' ∧ v = v'
  owned : ∀ r ∈ s.spaces, ∀ v, v < userPages → present (leaf s.machine r v) = true →
    user (leaf s.machine r v) = true →
    pteFrame (leaf s.machine r v) ∉ freeSet s.machine ∧ pteFrame (leaf s.machine r v) ∉ kern ∧
      ∀ r' ∈ s.spaces, ∀ path, TablePath path →
        descend pteNext s.machine.mem r' path ≠ some (pteFrame (leaf s.machine r v))

inductive CowRun (kern : Set ℕ) : System → Prop
  | start {s : System} (h : Start kern s) : CowRun kern s
  | step {s : System} {op : CowOp} (h : CowRun kern s) (hc : op.Clean kern s) :
    CowRun kern (op.exec s)

/-- The page-table entries with the COW bit that map the frame `f`. -/
def cowEntries (s : System) (f : ℕ) : Finset (ℕ × ℕ) :=
  s.slots.filter fun x =>
    shared (leaf s.machine x.1 x.2) = true ∧ pteFrame (leaf s.machine x.1 x.2) = f

variable {v src : ℕ}

section Run

variable {kern : Set ℕ} {place : Place} {s : System}

lemma cowEntries_eq (s : System) (f : ℕ) : cowEntries s f = sharers s.slots s.view f :=
  filter_congr fun _ _ => viewOf_eq_share.symm

lemma mem_cowEntries {r f : ℕ} {e : Pte} (hr : r ∈ s.spaces) (hv : v < userPages)
    (he : leaf s.machine r v = e) (hs : shared e = true) (hf : pteFrame e = f) :
    (r, v) ∈ cowEntries s f := by
  subst he
  exact mem_filter.mpr ⟨mem_slots.mpr ⟨hr, hv⟩, hs, hf⟩

lemma Start.inv (h : Start kern s) : ∃ place, Inv kern place s := by
  obtain ⟨place, ht⟩ := h.tables
  have hn : ∀ x ∈ s.slots, ∀ f, s.view x ≠ .share f := by
    intro x hx f hs
    obtain ⟨hr, hv⟩ := mem_slots.mp hx
    have := (viewOf_eq_share.mp hs).1
    rw [h.unshared x.1 hr x.2 hv] at this
    simp at this
  have hus : ∀ x ∈ s.slots, ∀ f, (s.view x).object? = some f →
      present (leaf s.machine x.1 x.2) = true ∧ user (leaf s.machine x.1 x.2) = true ∧
        pteFrame (leaf s.machine x.1 x.2) = f := by
    intro x hx f hf
    obtain ⟨hr, hv⟩ := mem_slots.mp hx
    obtain ⟨hp, hc, hfr⟩ := object?_viewOf.mp hf
    refine ⟨hp, hc.resolve_left fun hc => ?_, hfr⟩
    have := h.unshared x.1 hr x.2 hv
    simp [shared, hp, hc] at this
  refine ⟨_, ht.reached, ?_, ⟨?_, ?_, ?_⟩, ?_⟩
  · intro r hr v hv hs
    simp [h.unshared r hr v hv] at hs
  · intro f
    rw [h.counts f, card_eq_zero.mpr]
    refine eq_empty_iff_forall_notMem.mpr fun x hx => ?_
    obtain ⟨hx, hs⟩ := mem_sharers.mp hx
    exact hn x hx f hs
  · intro x hx y hy f hown hf
    obtain ⟨hr, hv⟩ := mem_slots.mp hx
    obtain ⟨hr', hv'⟩ := mem_slots.mp hy
    obtain ⟨hp, -, hu, hw, hfr⟩ := viewOf_eq_own.mp hown
    obtain ⟨hp', hu', hfr'⟩ := hus y hy f hf
    exact Prod.ext_iff.mpr
      (h.single x.1 hr x.2 hv y.1 hr' y.2 hv' hp hu hw hp' hu' (hfr'.trans hfr.symm))
  · intro x hx y _ f hs
    exact absurd hs (hn x hx f)
  intro x hx f hf
  obtain ⟨hr, hv⟩ := mem_slots.mp hx
  obtain ⟨hp, hu, rfl⟩ := hus x hx f hf
  obtain ⟨hfre, hk, hta⟩ := h.owned x.1 hr x.2 hv hp hu
  refine ⟨hfre, ?_, hk⟩
  cases hx : reached pteNext TablePath s.machine.mem (s.spaces : Set ℕ) place
      (pteFrame (leaf s.machine x.1 x.2)) with
  | none => rfl
  | some y =>
    obtain ⟨hr', hp', hd⟩ := (reached_eq_some ht.forest tablePath_closed).mp hx
    exact absurd hd (hta y.1 hr' y.2 hp')

lemma Inv.fork (h : Inv kern place s) (hsrc : src ∈ s.spaces)
    (hcl : Forkable s.machine src) : ∃ place', Inv kern place' (fork s src) := by
  unfold Paging.fork
  rcases heq : krustPagingCloneKernelDir s.machine with ⟨m1, _ | np⟩
  · obtain ⟨ht, hg⟩ := cloneKernelDir_none h.tables heq
    exact ⟨place, h.grow ht hg⟩
  obtain ⟨-, hnp, place1, hc⟩ := cloneKernelDir_some h.tables heq
  have h1 := h.clone hc
  have hsrc1 : src ∈ insert np s.spaces := mem_insert_of_mem hsrc
  have hdst1 : np ∈ insert np s.spaces := mem_insert_self np _
  have hne : src ≠ np := by
    rintro rfl
    exact hnp hsrc
  obtain ⟨k, place2, hco, -⟩ := krustPagingCopyUserPages_spec h1.tables hne hsrc1 hdst1
  refine ⟨place2, h1.copy hco hne hsrc1 hdst1 hc.leaves ?_⟩
  intro v hv
  change present (leaf m1 src v) = true → _
  rw [hc.grown.leaf src hsrc v hv, hc.grown.cow]
  exact hcl v hv

lemma CowRun.fork (h : CowRun kern s) (hsrc : src ∈ s.spaces)
    (hcl : Forkable s.machine src) : CowRun kern (fork s src) :=
  have hc : (CowOp.fork src).Clean kern s := ⟨hsrc, hcl⟩
  h.step hc

lemma CowRun.inv (h : CowRun kern s) : ∃ place, Inv kern place s := by
  induction h with
  | start h => exact h.inv
  | @step s op _ hc ih =>
    obtain ⟨place, hi⟩ := ih
    cases op with
    | fork src => exact hi.fork hc.1 hc.2
    | resolve r addr => exact ⟨place, hi.resolve hc.1 hc.2.1 hc.2.2⟩
    | teardown r => exact hi.teardown hc.1 hc.2

/-- In every state of a clean run the counts are right, and a frame that is mapped writable is
mapped by one address space. -/
theorem clean_run_counts (h : CowRun kern s) :
    (∀ f, (cowEntries s f).Nonempty →
      Cow.krustCowRefcount s.machine.cow f + 1 = (cowEntries s f).card) ∧
    ∀ r ∈ s.spaces, ∀ v, v < userPages → present (leaf s.machine r v) = true →
      user (leaf s.machine r v) = true → writable (leaf s.machine r v) = true →
      ∀ r' ∈ s.spaces, ∀ v', v' < userPages → present (leaf s.machine r' v') = true →
        user (leaf s.machine r' v') = true →
        pteFrame (leaf s.machine r' v') = pteFrame (leaf s.machine r v) → r' = r := by
  obtain ⟨place, hi⟩ := h.inv
  refine ⟨?_, ?_⟩
  · intro f hne
    rw [cowEntries_eq] at hne ⊢
    have := hne.card_pos
    rw [hi.shares.counted f]
    omega
  intro r hr v hv hp hu hw r' hr' v' hv' hp' hu' hf
  have hcow : cow (leaf s.machine r v) = false := by
    by_contra hc
    rw [Bool.not_eq_false] at hc
    have := (hi.locked r hr v hv (by rw [shared, hp, hc]; rfl)).2.1
    simp [hw] at this
  have := hi.shares.alone (r, v) (mem_slots.mpr ⟨hr, hv⟩) (r', v') (mem_slots.mpr ⟨hr', hv'⟩) _
    (viewOf_eq_own.mpr ⟨hp, hcow, hu, hw, rfl⟩) (object?_viewOf.mpr ⟨hp', .inr hu', hf⟩)
  exact (congrArg Prod.fst this).symm

/-- In every state of a clean run a page table has one place in one address space, and neither page
tables nor user pages lie in free frames, in the kernel's or in one another. -/
theorem clean_run_apart (h : CowRun kern s) :
    (∀ r ∈ s.spaces, ∀ path t, TablePath path → descend pteNext s.machine.mem r path = some t →
      t ∉ freeSet s.machine ∧ t ∉ kern ∧ ∀ r' ∈ s.spaces, ∀ path', TablePath path' →
        descend pteNext s.machine.mem r' path' = some t → r' = r ∧ path' = path) ∧
    ∀ x ∈ s.slots, ∀ f, (s.view x).object? = some f → f ∉ freeSet s.machine ∧ f ∉ kern ∧
      ∀ r ∈ s.spaces, ∀ path, TablePath path → descend pteNext s.machine.mem r path ≠ some f := by
  obtain ⟨place, hi⟩ := h.inv
  refine ⟨fun r hr path t hp ht => ?_, fun x hx f hf => ?_⟩
  · have hpl := hi.tables.place_table hr hp ht
    refine ⟨hi.tables.used t _ hpl, fun hk => ?_, fun r' hr' path' hp' ht' => ?_⟩
    · rw [(hi.tables.kernel t hk).2] at hpl
      cases hpl
    rw [hi.tables.place_table hr' hp' ht'] at hpl
    cases hpl
    exact ⟨rfl, rfl⟩
  obtain ⟨hfr, hno, hk⟩ := hi.owned x hx f hf
  refine ⟨hfr, hk, fun r hr path hp ht => ?_⟩
  rw [hi.tables.place_table hr hp ht] at hno
  cases hno

end Run

/-- A user space `r` besides which there is none: page `v` holds the entry `e`, and all other pages
hold kernel memory. -/
structure FirstSpace (kern : Set ℕ) (place₀ place : Place) (m₀ : Machine) (r v : ℕ) (e : Pte)
    (m : Machine) : Prop extends Frames place₀ place m₀ m where
  tables : Tables {r} kern place m
  cow : m.cow = m₀.cow
  page : leaf m r v = e
  rest : ∀ v', v' < userPages → v' ≠ v → KernelLeaf (leaf m r v')

variable {kern : Set ℕ}

lemma first_space {place0 : Place} {m : Machine} {r addr : ℕ} {phys flags : Pte}
    (hT : Tables ∅ kern place0 m) (hr : (krustPagingCloneKernelDir m).2 = some r)
    (ha : addr < userAddrs)
    (hf : (krustPagingMapPageIn (krustPagingCloneKernelDir m).1 r addr phys flags).2 = true) :
    ∃ place, FirstSpace kern place0 place m r (addr / 4096) (leafEntry phys flags)
      (krustPagingMapPageIn (krustPagingCloneKernelDir m).1 r addr phys flags).1 := by
  have heq : krustPagingCloneKernelDir m = ((krustPagingCloneKernelDir m).1, some r) := by
    rw [← hr]
  obtain ⟨-, -, place1, hc⟩ := cloneKernelDir_some hT heq
  have hT1 := hc.tables
  rw [insert_empty_eq] at hT1
  obtain ⟨place, hs, -, hcow⟩ := krustPagingMapPageIn_spec hT1 rfl ha phys flags
  have hw := hs hf
  refine ⟨place, hc.grown.toFrames.trans hw.toFrames, hw.tables, hcow.trans hc.grown.cow,
    hw.leaf_self rfl (page_lt ha), fun v hv hne => ?_⟩
  rw [hw.leaf r v rfl hv, if_neg fun h => hne h.2]
  exact hc.leaves v hv

/-- A machine with 31 free frames. The kernel's directory, frame 1, maps nothing. -/
def bootMachine : Machine where
  mem := fun _ _ => 0
  pmm := Pmm.krustMmCppPmmInit (fun _ => 0) 0 0xE0000
  cow := ⟨0x1000, 256, fun _ => 0⟩
  pml4 := 1
  cr3 := 1

@[irreducible] def userMachine : Machine :=
  (krustPagingMapPageIn (krustPagingCloneKernelDir bootMachine).1 225 0 (frameAddr 7) 7#64).1

lemma userMachine_def : userMachine =
    (krustPagingMapPageIn (krustPagingCloneKernelDir bootMachine).1 225 0 (frameAddr 7) 7#64).1 := by
  with_unfolding_all exact Eq.refl _

/-- One user space with one page, writable and in frame 7. -/
def oneSpace : System := ⟨userMachine, {225}⟩

lemma bootMachine_used : 1 ∉ freeSet bootMachine ∧ 7 ∉ freeSet bootMachine := by
  constructor
  · rw [freeSet, Pmm.mem_freeFrames]
    decide +kernel
  rw [freeSet, Pmm.mem_freeFrames]
  decide +kernel

lemma bootMachine_tables : Tables ∅ {1} (fun _ => none) bootMachine := by
  refine ⟨Pmm.init_good _ _ _, ⟨by simp, by simp⟩, by simp, by simp, ?_, rfl, ?_⟩
  · rintro f rfl
    exact ⟨bootMachine_used.1, rfl⟩
  intro hp
  exact absurd hp (by decide)

lemma oneSpace_spec : ∃ place, FirstSpace {1} (fun _ => none) place bootMachine 225 0
    (leafEntry (frameAddr 7) 7#64) oneSpace.machine := by
  -- the machine is evaluated once for both
  obtain ⟨hr, hf⟩ : (krustPagingCloneKernelDir bootMachine).2 = some 225 ∧
      (krustPagingMapPageIn (krustPagingCloneKernelDir bootMachine).1 225 0 (frameAddr 7)
        7#64).2 = true := by decide +kernel
  have h := first_space bootMachine_tables hr (by decide) hf
  rw [← userMachine_def, Nat.zero_div] at h
  exact h

lemma oneSpace_page : leafEntry (frameAddr 7) 7#64 = 0x7007#64 := by decide

lemma oneSpace_user (hv : v < userPages) (hu : user (leaf oneSpace.machine 225 v) = true) :
    v = 0 := by
  obtain ⟨place, h⟩ := oneSpace_spec
  by_contra hne
  rw [user_eq, (h.rest v hv hne).user] at hu
  simp at hu

lemma oneSpace_start : Start {1} oneSpace := by
  obtain ⟨place, h⟩ := oneSpace_spec
  have hmem : ∀ r ∈ oneSpace.spaces, r = 225 := fun r hr => mem_singleton.mp hr
  refine ⟨⟨place, by rw [oneSpace, coe_singleton]; exact h.tables⟩, ?_, ?_, ?_, ?_⟩
  · intro r hr v hv
    rw [hmem r hr]
    by_cases hne : v = 0
    · rw [hne, h.page, oneSpace_page]
      decide
    · exact shared_kernel (h.rest v hv hne)
  · intro f
    rw [h.cow]
    unfold Cow.krustCowRefcount
    split <;> rfl
  · intro r hr v hv r' hr' v' hv' _ hu _ _ hu' _
    rw [hmem r hr] at hu ⊢
    rw [hmem r' hr'] at hu' ⊢
    exact ⟨rfl, (oneSpace_user hv hu).trans (oneSpace_user hv' hu').symm⟩
  intro r hr v hv _ hu
  rw [hmem r hr] at hu ⊢
  rw [oneSpace_user hv hu, h.page, oneSpace_page, show pteFrame 0x7007#64 = 7 by decide]
  refine ⟨fun hf => bootMachine_used.2 (h.free hf), by decide, ?_⟩
  intro r' hr' path hp hd
  rw [hmem r' hr'] at hd
  have hpl := h.tables.place_table rfl hp hd
  exact bootMachine_used.2 ((h.fresh 7 _ hpl).resolve_left (by simp))

lemma oneSpace_forkable : Forkable oneSpace.machine 225 := by
  obtain ⟨place, h⟩ := oneSpace_spec
  intro v hv _
  by_cases hne : v = 0
  · rw [hne, h.page, oneSpace_page, h.cow]
    refine ⟨by decide, fun _ => ⟨⟨by decide, by decide⟩, by decide⟩⟩
  have hk := h.rest v hv hne
  refine ⟨by rw [cow_eq, hk.cow], fun hs => ?_⟩
  rw [shareable, user_eq, hk.user, Bool.and_false] at hs
  simp at hs

lemma forkedSpace_run : CowRun {1} (fork oneSpace 225) :=
  .fork (.start oneSpace_start) (mem_singleton_self 225) oneSpace_forkable

lemma forkedSpace_page : 225 ∈ (fork oneSpace 225).spaces ∧
    leaf (fork oneSpace 225).machine 225 0 = 0x7205#64 := by decide +kernel

theorem clean_run_counts_fork : CowRun {1} (fork oneSpace 225) ∧
    Cow.krustCowRefcount (fork oneSpace 225).machine.cow 7 + 1 =
      (cowEntries (fork oneSpace 225) 7).card := by
  have hmem : (225, 0) ∈ cowEntries (fork oneSpace 225) 7 :=
    mem_cowEntries forkedSpace_page.1 (by decide) forkedSpace_page.2 (by decide) (by decide)
  exact ⟨forkedSpace_run, (clean_run_counts forkedSpace_run).1 7 ⟨_, hmem⟩⟩

theorem clean_run_apart_fork :
    CowRun {1} (fork oneSpace 225) ∧ 7 ∉ freeSet (fork oneSpace 225).machine := by
  refine ⟨forkedSpace_run, ((clean_run_apart forkedSpace_run).2 (225, 0)
    (mem_slots.mpr ⟨forkedSpace_page.1, by decide⟩) 7 ?_).1⟩
  rw [System.view, forkedSpace_page.2]
  decide

lemma Copied.unshareable {spaces : Set ℕ} {dst : ℕ} {place place' : Place}
    {m m' : Machine} (h : Copied spaces kern src dst place place' m m' userPages)
    (hv : v < userPages) (hp : present (leaf m' src v) = true) :
    shareable (leaf m' src v) = false := by
  rw [h.source v hv] at hp ⊢
  split at hp
  · rename_i hf
    rw [if_pos hf, shareable_forked]
  rename_i hf
  exact absurd ⟨hv, hp⟩ hf

lemma fork_uncounted {place : Place} {s : System} (h : Inv kern place s)
    {np : ℕ} {m1 : Machine} (hsrc : src ∈ s.spaces)
    (hsh : shared (leaf s.machine src 0) = true)
    (hn : ∀ v, v < userPages → present (leaf s.machine src v) = true →
      shareable (leaf s.machine src v) = false)
    (heq : krustPagingCloneKernelDir s.machine = (m1, some np))
    (hre : firstTables m1 src np = true) :
    Cow.krustCowRefcount (fork s src).machine.cow (pteFrame (leaf s.machine src 0)) + 1 <
      (cowEntries (fork s src) (pteFrame (leaf s.machine src 0))).card := by
  obtain ⟨-, hnp, place1, hc⟩ := cloneKernelDir_some h.tables heq
  have h1 := h.clone hc
  have hsrc1 : src ∈ insert np s.spaces := mem_insert_of_mem hsrc
  have hdst1 : np ∈ insert np s.spaces := mem_insert_self np _
  have hne : src ≠ np := by
    rintro rfl
    exact hnp hsrc
  obtain ⟨k, place2, hk, hco⟩ :=
    krustPagingCopyUserPages_begun h1.tables hne hsrc1 hdst1 hre
  have hl : ∀ r ∈ s.spaces, ∀ v, v < userPages → leaf m1 r v = leaf s.machine r v :=
    fun r hr v hv => hc.grown.leaf r hr v hv
  have hsa : ∀ v, v < userPages → forked (leaf m1 src v) = leaf s.machine src v ∨
      present (leaf m1 src v) = false := by
    intro v hv
    rw [hl src hsrc v hv]
    cases hp : present (leaf s.machine src v) with
    | false => exact .inr rfl
    | true => exact .inl (by rw [forked, hn v hv hp]; rfl)
  have hfo : fork s src =
      ⟨(krustPagingCopyUserPages m1 src np).1, insert np s.spaces⟩ := by rw [Paging.fork, heq]
  rw [hfo]
  generalize (krustPagingCopyUserPages m1 src np).1 = m' at hco
  have hz : (0 : ℕ) < userPages := by decide
  have hp0 : present (leaf m1 src 0) = true := by
    rw [hl src hsrc 0 hz]
    exact (Bool.and_eq_true _ _ ▸ hsh).1
  have hold : ∀ r ∈ s.spaces, ∀ v, v < userPages → leaf m' r v = leaf s.machine r v := by
    intro r hr v hv
    by_cases hrs : r = src
    · rw [hrs, hco.source v hv]
      split
      · rename_i hp
        exact (hsa v hv).resolve_right (by simp [hp.2])
      · exact hl src hsrc v hv
    have hrn : r ≠ np := by
      rintro rfl
      exact hnp hr
    rw [hco.others r (mem_insert_of_mem hr) hrs hrn v hv]
    exact hl r hr v hv
  have hnew : leaf m' np 0 = leaf s.machine src 0 := by
    rw [hco.target 0 hz, if_pos ⟨hk, hp0⟩]
    exact (hsa 0 hz).resolve_right (by simp [hp0])
  have hcn : Cow.krustCowRefcount m'.cow (pteFrame (leaf s.machine src 0)) + 1 =
      (cowEntries s (pteFrame (leaf s.machine src 0))).card := by
    have hpos : 0 < (cowEntries s (pteFrame (leaf s.machine src 0))).card :=
      card_pos.mpr ⟨_, mem_cowEntries hsrc hz rfl hsh rfl⟩
    rw [hco.counts, refcount_countUpTo_other, hc.grown.cow, h.shares.counted, ← cowEntries_eq]
    · omega
    intro v hv hs
    have hv' := hv.trans_le hco.bound
    rw [hl src hsrc v hv', Bool.and_eq_true] at hs
    simp [hn v hv' hs.1] at hs
  have hsub : insert (np, 0) (cowEntries s (pteFrame (leaf s.machine src 0))) ⊆
      cowEntries ⟨m', insert np s.spaces⟩ (pteFrame (leaf s.machine src 0)) := by
    intro x hx
    rcases mem_insert.mp hx with rfl | hx
    · exact mem_cowEntries hdst1 hz hnew hsh rfl
    obtain ⟨hx, hs, hf⟩ := mem_filter.mp hx
    obtain ⟨hr, hv⟩ := mem_slots.mp hx
    exact mem_cowEntries (mem_insert_of_mem hr) hv (hold x.1 hr x.2 hv) hs hf
  have hnot : (np, 0) ∉ cowEntries s (pteFrame (leaf s.machine src 0)) := by
    intro hx
    exact hnp (mem_slots.mp (mem_filter.mp hx).1).1
  have hca := card_le_card hsub
  rw [card_insert_of_notMem hnot] at hca
  exact hcn ▸ hca

lemma forkedSpace_unshareable (hv : v < userPages)
    (hp : present (leaf (fork oneSpace 225).machine 225 v) = true) :
    shareable (leaf (fork oneSpace 225).machine 225 v) = false := by
  obtain ⟨place, h⟩ := oneSpace_start.inv
  obtain ⟨hnp, hf⟩ : (krustPagingCloneKernelDir oneSpace.machine).2 = some 229 ∧
      (krustPagingCopyUserPages (krustPagingCloneKernelDir oneSpace.machine).1 225 229).2 =
        true := by decide +kernel
  have heq : krustPagingCloneKernelDir oneSpace.machine =
      ((krustPagingCloneKernelDir oneSpace.machine).1, some 229) := by rw [← hnp]
  obtain ⟨-, -, place1, hc⟩ := cloneKernelDir_some h.tables heq
  obtain ⟨k, place2, hco, hk⟩ := krustPagingCopyUserPages_spec (h.clone hc).tables
    (show 225 ≠ 229 by decide) (by decide) (by decide)
  rw [hk hf] at hco
  rw [Paging.fork, heq] at hp ⊢
  exact hco.unshareable hv hp

/-- A task that forks twice: its page then has three entries with the COW bit and one share. -/
theorem second_fork_uncounted : CowRun {1} (fork oneSpace 225) ∧
    (cowEntries (fork (fork oneSpace 225) 225) 7).Nonempty ∧
    Cow.krustCowRefcount (fork (fork oneSpace 225) 225).machine.cow 7 + 1 ≠
      (cowEntries (fork (fork oneSpace 225) 225) 7).card := by
  obtain ⟨place, h⟩ := forkedSpace_run.inv
  obtain ⟨hmem, hpa⟩ := forkedSpace_page
  obtain ⟨hnp, hr⟩ : (krustPagingCloneKernelDir (fork oneSpace 225).machine).2 = some 233 ∧
      firstTables (krustPagingCloneKernelDir (fork oneSpace 225).machine).1 225 233 = true := by
    decide +kernel
  have heq : krustPagingCloneKernelDir (fork oneSpace 225).machine =
      ((krustPagingCloneKernelDir (fork oneSpace 225).machine).1, some 233) := by rw [← hnp]
  have hlt := fork_uncounted h hmem (by rw [hpa]; decide)
    (fun v hv hp => forkedSpace_unshareable hv hp) heq hr
  rw [hpa, show pteFrame 0x7205#64 = 7 by decide] at hlt
  exact ⟨forkedSpace_run, card_pos.mp (by omega), by omega⟩

end Elitra.Paging
