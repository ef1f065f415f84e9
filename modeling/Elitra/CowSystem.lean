import Elitra.PagingClone
import Elitra.PagingCopy
import Elitra.PagingFree
import Elitra.Sharing
import Mathlib.Data.Finset.Prod

namespace Elitra.Paging
open Finset Radix Sharing

/-- The machine with the directories of the live address spaces. -/
structure System where
  machine : Machine
  spaces : Finset ℕ

/-- A new directory and the copy of the user pages into it. -/
def fork (s : System) (src : ℕ) : System :=
  match krustPagingCloneKernelDir s.machine with
  | (m, none) => ⟨m, s.spaces⟩
  | (m, some np) => ⟨(krustPagingCopyUserPages m src np).1, insert np s.spaces⟩

def resolve (s : System) (r addr : ℕ) : System := ⟨(cowResolvePage s.machine r addr).1, s.spaces⟩

def teardown (s : System) (r : ℕ) : System :=
  ⟨(krustPagingFreeUserPages s.machine r).machine, s.spaces.erase r⟩

/-- A page-table entry as a holder of its frame. Kernel memory counts as no holder. -/
def viewOf (e : Pte) : View ℕ :=
  if !present e then .none
  else if cow e then .share (pteFrame e)
  else if !user e then .none
  else if writable e then .own (pteFrame e)
  else .fixed (pteFrame e)

def System.slots (s : System) : Finset (ℕ × ℕ) := s.spaces ×ˢ Finset.range userPages

def System.view (s : System) (x : ℕ × ℕ) : View ℕ := viewOf (leaf s.machine x.1 x.2)

/-- The frames that have a cell in the share table and survive the cast to `u32`. -/
def Tracked (c : Cow.State) (f : ℕ) : Prop := f < 2 ^ 32 ∧ Cow.untracked c f = false

structure Inv (kern : Set ℕ) (place : Place) (s : System) : Prop where
  tables : Tables (s.spaces : Set ℕ) kern place s.machine
  locked : ∀ r ∈ s.spaces, ∀ v, v < userPages → shared (leaf s.machine r v) = true →
    user (leaf s.machine r v) = true ∧ writable (leaf s.machine r v) = false ∧
      Tracked s.machine.cow (pteFrame (leaf s.machine r v))
  shares : Shares s.slots s.view (Cow.krustCowRefcount s.machine.cow)
  owned : ∀ x ∈ s.slots, ∀ f, (s.view x).object? = some f →
    f ∉ freeSet s.machine ∧ place f = none ∧ f ∉ kern

section View

variable {e : Pte} {f : ℕ}

lemma viewOf_eq_share : viewOf e = .share f ↔ shared e = true ∧ pteFrame e = f := by
  unfold viewOf shared
  cases present e <;> cases cow e <;> cases user e <;> cases writable e <;> simp

lemma viewOf_eq_own : viewOf e = .own f ↔
    present e = true ∧ cow e = false ∧ user e = true ∧ writable e = true ∧ pteFrame e = f := by
  unfold viewOf
  cases present e <;> cases cow e <;> cases user e <;> cases writable e <;> simp

lemma object?_viewOf : (viewOf e).object? = some f ↔
    present e = true ∧ (cow e = true ∨ user e = true) ∧ pteFrame e = f := by
  unfold viewOf
  cases present e <;> cases cow e <;> cases user e <;> cases writable e <;>
    simp [View.object?]

lemma viewOf_absent (h : present e = false) : viewOf e = .none := by
  simp [viewOf, h]

lemma viewOf_kernel (h : KernelLeaf e) : viewOf e = .none := by
  have hc : cow e = false := by rw [cow_eq, h.cow]
  have hu : user e = false := by rw [user_eq, h.user]
  simp [viewOf, hc, hu]

lemma viewOf_forked (hp : present e = true) (hc : cow e = false) :
    viewOf (forked e) = (viewOf e).forked := by
  unfold forked shareable
  cases hw : writable e <;> cases hu : user e <;>
    simp [viewOf, View.forked, hp, hc, hw, hu, present_cowEntry, cow_cowEntry, pteFrame_cowEntry]

lemma viewOf_soleEntry (h : user e = true) : viewOf (soleEntry e) = .own (pteFrame e) :=
  viewOf_eq_own.mpr ⟨present_soleEntry e, cow_soleEntry e, by rw [user_soleEntry, h],
    writable_soleEntry e, pteFrame_soleEntry e⟩

lemma viewOf_copyEntry (h : f < 2 ^ 40) : viewOf (copyEntry f) = .own f := by
  refine viewOf_eq_own.mpr ⟨?_, ?_, ?_, ?_, pteFrame_copyEntry h⟩
  · rw [present_eq, flag_copyEntry (by omega)]
    rfl
  · rw [cow_eq, flag_copyEntry (by omega)]
    rfl
  · rw [user_eq, flag_copyEntry (by omega)]
    rfl
  rw [writable_eq, flag_copyEntry (by omega)]
  rfl

lemma shared_copyEntry : shared (copyEntry f) = false := by
  rw [shared, cow_eq, flag_copyEntry (by omega)]
  exact Bool.and_false _

lemma shared_soleEntry : shared (soleEntry e) = false := by
  rw [shared, cow_soleEntry]
  exact Bool.and_false _

lemma shared_kernel (h : KernelLeaf e) : shared e = false := by
  rw [shared, cow_eq, h.cow]
  exact Bool.and_false _

end View

variable {x : ℕ × ℕ}

lemma mem_slots {s : System} : x ∈ s.slots ↔ x.1 ∈ s.spaces ∧ x.2 < userPages := by
  rw [System.slots, mem_product, mem_range]

variable {e : Pte} {f k : ℕ}

section Steps

variable {kern : Set ℕ} {place place' : Place} {s : System} {m' : Machine} {r v : ℕ}

/-- The frame of a shared page is below 2^32, so the cast changes nothing. -/
lemma Tracked.frame32 {c : Cow.State} (h : Tracked c (pteFrame e)) :
    frame32 e = pteFrame e := Nat.mod_eq_of_lt h.1

lemma Inv.grow (h : Inv kern place s) (ht : Tables (s.spaces : Set ℕ) kern place' m')
    (hg : Grown (s.spaces : Set ℕ) place place' s.machine m') :
    Inv kern place' ⟨m', s.spaces⟩ := by
  have hl : ∀ r ∈ s.spaces, ∀ v, v < userPages → leaf m' r v = leaf s.machine r v :=
    fun r hr v hv => hg.leaf r hr v hv
  have hvi : ∀ x ∈ s.slots, System.view ⟨m', s.spaces⟩ x = s.view x := by
    intro x hx
    obtain ⟨hr, hv⟩ := mem_slots.mp hx
    exact congrArg viewOf (hl x.1 hr x.2 hv)
  refine ⟨ht, ?_, ?_, ?_⟩
  · intro r hr v hv
    change shared (leaf m' r v) = true → user (leaf m' r v) = true ∧ _
    rw [hl r hr v hv, hg.cow]
    exact h.locked r hr v hv
  · change Shares s.slots _ (Cow.krustCowRefcount m'.cow)
    rw [hg.cow]
    exact h.shares.extend subset_rfl hvi fun x hx hx' => absurd hx hx'
  intro x hx f hf
  rw [hvi x hx] at hf
  obtain ⟨hfr, hp, hk⟩ := h.owned x hx f hf
  exact ⟨fun hfr' => hfr (hg.free hfr'), hg.none hfr hp, hk⟩

lemma Inv.clone (h : Inv kern place s) {np : ℕ}
    (hc : Cloning (s.spaces : Set ℕ) kern np place place' s.machine m') :
    Inv kern place' ⟨m', insert np s.spaces⟩ := by
  have hg : Inv kern place' ⟨m', s.spaces⟩ :=
    h.grow (hc.tables.subset (Set.subset_insert np _)) hc.grown
  have hsub : s.slots ⊆ System.slots ⟨m', insert np s.spaces⟩ :=
    product_subset_product (subset_insert np _) subset_rfl
  have hnew : ∀ x ∈ System.slots ⟨m', insert np s.spaces⟩, x ∉ s.slots →
      KernelLeaf (leaf m' x.1 x.2) := by
    intro x hx hold
    obtain ⟨hr, hv⟩ := mem_slots.mp hx
    rcases mem_insert.mp hr with hr | hr
    · rw [hr]
      exact hc.leaves x.2 hv
    · exact absurd (mem_slots.mpr ⟨hr, hv⟩) hold
  refine ⟨?_, ?_, ?_, ?_⟩
  · rw [coe_insert]
    exact hc.tables
  · intro r hr v hv hs
    by_cases hold : (r, v) ∈ s.slots
    · exact hg.locked r (mem_slots.mp hold).1 v hv hs
    have hk := shared_kernel (hnew (r, v) (mem_slots.mpr ⟨hr, hv⟩) hold)
    exact absurd hs (by simp [hk])
  · exact hg.shares.extend hsub (fun _ _ => rfl) fun x hx hold => viewOf_kernel (hnew x hx hold)
  intro x hx f hf
  by_cases hold : x ∈ s.slots
  · exact hg.owned x hold f hf
  rw [System.view, viewOf_kernel (hnew x hx hold)] at hf
  simp [View.object?] at hf

section Copy

variable {src dst k : ℕ}

/-- Pages that a fork may copy: none is shared already, and the writable ones can be counted. The
counts are declared with a 32-bit and defined with a 64-bit parameter, so that what arrives of an
entry is the frame only if there is no bit above the frame's. -/
def Forkable (m : Machine) (src : ℕ) : Prop :=
  ∀ v, v < userPages → present (leaf m src v) = true → cow (leaf m src v) = false ∧
    (shareable (leaf m src v) = true → Tracked m.cow (pteFrame (leaf m src v)) ∧
      (leaf m src v).toNat / 4096 = pteFrame (leaf m src v))

lemma Forkable.own_iff {m : Machine} (h : Forkable m src) {v : ℕ} (hv : v < userPages) :
    viewOf (leaf m src v) = .own f ↔
      (present (leaf m src v) && shareable (leaf m src v)) = true ∧ frame32 (leaf m src v) = f := by
  rw [viewOf_eq_own, Bool.and_eq_true, shareable, Bool.and_eq_true]
  constructor
  · rintro ⟨hp, -, hu, hw, hf⟩
    have ht := ((h v hv hp).2 (by rw [shareable, hw, hu]; rfl)).1
    exact ⟨⟨hp, hw, hu⟩, ht.frame32.trans hf⟩
  rintro ⟨⟨hp, hw, hu⟩, hf⟩
  have ht := ((h v hv hp).2 (by rw [shareable, hw, hu]; rfl)).1
  exact ⟨hp, (h v hv hp).1, hu, hw, ht.frame32.symm.trans hf⟩

lemma Copied.forks (hc : Copied (s.spaces : Set ℕ) kern src dst place place' s.machine m' k)
    (hne : src ≠ dst) (hsrc : src ∈ s.spaces) (hdst : dst ∈ s.spaces)
    (he : ∀ v, v < userPages → KernelLeaf (leaf s.machine dst v))
    (hcl : Forkable s.machine src) :
    Forks s.slots ({src} ×ˢ Finset.range k) (fun x => (dst, x.2)) s.view
      (System.view ⟨m', s.spaces⟩) := by
  have hmem : ∀ {x : ℕ × ℕ}, x ∈ ({src} : Finset ℕ) ×ˢ range k → x.1 = src ∧ x.2 < k ∧
      x.2 < userPages := by
    intro x hx
    rw [mem_product, mem_singleton, mem_range] at hx
    exact ⟨hx.1, hx.2, lt_of_lt_of_le hx.2 hc.bound⟩
  have hf : ∀ v, v < k → v < userPages → present (leaf s.machine src v) = true →
      viewOf (forked (leaf s.machine src v)) = (viewOf (leaf s.machine src v)).forked :=
    fun v _ hv hp => viewOf_forked hp (hcl v hv hp).1
  refine ⟨?_, ?_, ?_, ?_, ?_, ?_, ?_, ?_⟩
  · intro x hx
    obtain ⟨hr, -, hv⟩ := hmem hx
    exact mem_slots.mpr ⟨hr ▸ hsrc, hv⟩
  · intro x hx
    exact mem_slots.mpr ⟨hdst, (hmem hx).2.2⟩
  · intro x _ hx
    exact hne (hmem hx).1.symm
  · intro x hx f hs
    obtain ⟨hr, -, hv⟩ := hmem hx
    rw [System.view, hr, viewOf_eq_share, shared, Bool.and_eq_true] at hs
    have := (hcl x.2 hv hs.1.1).1
    simp [this] at hs
  · intro x hx
    exact viewOf_kernel (he x.2 (hmem hx).2.2)
  · intro x hx
    obtain ⟨hr, hk, hv⟩ := hmem hx
    rw [System.view, System.view, hr, hc.source x.2 hv]
    cases hp : present (leaf s.machine src x.2) with
    | true => simpa [hk] using hf x.2 hk hv hp
    | false => simp [viewOf_absent hp, View.forked]
  · intro x hx
    obtain ⟨hr, hk, hv⟩ := hmem hx
    rw [System.view, System.view, hr, hc.target x.2 hv]
    cases hp : present (leaf s.machine src x.2) with
    | true => simpa [hk] using hf x.2 hk hv hp
    | false => simp [viewOf_absent hp, View.forked, viewOf_kernel (he x.2 hv)]
  rintro ⟨r, v⟩ hx hxs hxt
  obtain ⟨hr, hv⟩ := mem_slots.mp hx
  have hle : r = src ∨ r = dst → ¬ v < k := by
    rintro (rfl | rfl) hk
    · exact hxs (by simp [hk])
    · exact hxt (src, v) (by simp [hk]) rfl
  rw [System.view, System.view]
  by_cases hrs : r = src
  · rw [hrs, hc.source v hv, if_neg fun h => hle (.inl hrs) h.1]
  by_cases hrd : r = dst
  · rw [hrd, hc.target v hv, if_neg fun h => hle (.inr hrd) h.1]
  · rw [hc.others r hr hrs hrd v hv]

lemma Inv.copy (h : Inv kern place s)
    (hc : Copied (s.spaces : Set ℕ) kern src dst place place' s.machine m' k)
    (hne : src ≠ dst) (hsrc : src ∈ s.spaces) (hdst : dst ∈ s.spaces)
    (he : ∀ v, v < userPages → KernelLeaf (leaf s.machine dst v))
    (hcl : Forkable s.machine src) : Inv kern place' ⟨m', s.spaces⟩ := by
  have hF := hc.forks hne hsrc hdst he hcl
  have hpa : ∀ v, v < k → v < userPages := fun v hv => lt_of_lt_of_le hv hc.bound
  have htr : ∀ {f}, Tracked s.machine.cow f → Tracked m'.cow f := by
    rintro f ⟨hf, hu⟩
    exact ⟨hf, by rw [hc.counts, untracked_countUpTo, hu]⟩
  refine ⟨hc.tables, ?_, ?_, ?_⟩
  · -- A page is shared now because it was, or because the copy shared it.
    intro r hr v hv
    change shared (leaf m' r v) = true → user (leaf m' r v) = true ∧ _
    have hnew : ∀ e, e = leaf s.machine src v → present e = true → shared (forked e) = true →
        user (forked e) = true ∧ writable (forked e) = false ∧
          Tracked m'.cow (pteFrame (forked e)) := by
      rintro e rfl hp hs
      obtain ⟨hcow, ht⟩ := hcl v hv hp
      unfold forked at hs ⊢
      cases hsh : shareable (leaf s.machine src v) with
      | false => simp [hsh, shared, hcow] at hs
      | true =>
        rw [if_pos rfl, user_cowEntry, writable_cowEntry, pteFrame_cowEntry]
        rw [shareable, Bool.and_eq_true] at hsh
        exact ⟨hsh.2, rfl, htr (ht (by rw [shareable, hsh.1, hsh.2]; rfl)).1⟩
    have hold : shared (leaf s.machine r v) = true → user (leaf s.machine r v) = true ∧
        writable (leaf s.machine r v) = false ∧ Tracked m'.cow (pteFrame (leaf s.machine r v)) := by
      intro hs
      obtain ⟨hu, hw, ht⟩ := h.locked r hr v hv hs
      exact ⟨hu, hw, htr ht⟩
    by_cases hrs : r = src
    · subst hrs
      rw [hc.source v hv]
      split
      · rename_i hp
        exact hnew _ rfl hp.2
      · exact hold
    by_cases hrd : r = dst
    · subst hrd
      rw [hc.target v hv]
      split
      · rename_i hp
        exact hnew _ rfl hp.2
      · exact hold
    rw [hc.others r hr hrs hrd v hv]
    exact hold
  · refine h.shares.fork hF ?_ ?_
    · intro f hf
      change Cow.krustCowRefcount m'.cow f = _
      rw [hc.counts]
      refine refcount_countUpTo_other fun v hv hs hfr => ?_
      exact hf (src, v) (by simp [hv]) ((hcl.own_iff (hpa v hv)).mpr ⟨hs, hfr⟩)
    rintro ⟨r, v0⟩ hx f hown
    rw [mem_product, mem_singleton, mem_range] at hx
    obtain ⟨rfl, hv0⟩ : r = src ∧ v0 < k := hx
    have hsl : (r, v0) ∈ s.slots := mem_slots.mpr ⟨hsrc, hpa v0 hv0⟩
    have hz : Cow.krustCowRefcount s.machine.cow f = 0 := by
      rw [h.shares.counted f, h.shares.no_sharers hsl hown]
      rfl
    obtain ⟨hs, hfr⟩ := (hcl.own_iff (hpa v0 hv0)).mp hown
    have hp := (Bool.and_eq_true _ _).mp hs
    have ht := ((hcl v0 (hpa v0 hv0) hp.1).2 hp.2).1
    change Cow.krustCowRefcount m'.cow f = _
    rw [hc.counts, hz, refcount_countUpTo_one hv0 hs hfr (hfr ▸ ht.frame32 ▸ ht.2) hz]
    intro v hv hne' hs' hfr'
    have hown' := (hcl.own_iff (hpa v hv)).mpr ⟨hs', hfr'⟩
    have := h.shares.alone (r, v0) hsl (r, v) (mem_slots.mpr ⟨hsrc, hpa v hv⟩) f hown
      (by rw [System.view, hown']; rfl)
    simp only [Prod.mk.injEq, true_and] at this
    exact hne' this.symm
  intro x hx f hf
  obtain ⟨y, hy, hyf⟩ : ∃ y ∈ s.slots, (s.view y).object? = some f := by
    rcases hF.origin hx with ⟨y, hy, -, hv⟩ | ⟨-, hv⟩
    · exact ⟨y, hF.sub hy, by rw [← object?_forked, ← hv, hf]⟩
    · exact ⟨x, hx, by rw [← hv, hf]⟩
  obtain ⟨hfre, hpl, hk⟩ := h.owned y hy f hyf
  exact ⟨fun hfre' => hfre (hc.free hfre'), hc.none hfre hpl, hk⟩

end Copy

lemma Rewrite.view (hw : Rewrite (s.spaces : Set ℕ) kern place place' r v e s.machine m')
    (hx : x ∈ s.slots) :
    System.view ⟨m', s.spaces⟩ x = if x = (r, v) then viewOf e else s.view x := by
  obtain ⟨hr, hv⟩ := mem_slots.mp hx
  rw [System.view, hw.leaf x.1 x.2 hr hv, apply_ite viewOf, System.view]
  simp only [Prod.ext_iff]

lemma Inv.unshare (h : Inv kern place s)
    (hw : Rewrite (s.spaces : Set ℕ) kern place place r v e s.machine m')
    (hcow : m'.cow = (Cow.krustCowRefdec s.machine.cow (frame32 (leaf s.machine r v))).1)
    (hs : shared e = false) (he : viewOf e = .own f) (hf : f ∉ freeSet m') (hpl : place f = none)
    (hke : f ∉ kern)
    (hsh : Shares s.slots (System.view ⟨m', s.spaces⟩) (Cow.krustCowRefcount m'.cow)) :
    Inv kern place ⟨m', s.spaces⟩ := by
  refine ⟨hw.tables, ?_, hsh, ?_⟩
  · intro r' hr' v' hv'
    change shared (leaf m' r' v') = true → user (leaf m' r' v') = true ∧ _
    rw [hw.leaf r' v' hr' hv']
    split
    · simp [hs]
    intro hs'
    obtain ⟨hu, hwr, hlt, ht⟩ := h.locked r' hr' v' hv' hs'
    exact ⟨hu, hwr, hlt, by rw [hcow, Cow.untracked_refdec, ht]⟩
  intro x hx g hg
  rw [hw.view hx] at hg
  split at hg
  · rw [he] at hg
    obtain rfl : f = g := by simpa [View.object?] using hg
    exact ⟨hf, hpl, hke⟩
  obtain ⟨hfr, hp, hk⟩ := h.owned x hx g hg
  exact ⟨fun hfr' => hfr (hw.free hfr'), hp, hk⟩

lemma Inv.resolve (h : Inv kern place s) {addr : ℕ} (hr : r ∈ s.spaces) (ha : addr < userAddrs)
    (hro : shared (leaf s.machine r (addr / 4096)) = true →
      Cow.krustCowRefcount s.machine.cow (pteFrame (leaf s.machine r (addr / 4096))) ≠ 0 →
      freeSet s.machine ≠ ∅) : Inv kern place (resolve s r addr) := by
  have hv := page_lt ha
  have hsl : (r, addr / 4096) ∈ s.slots := mem_slots.mpr ⟨hr, hv⟩
  have hsp := cowResolvePage_spec h.tables hr ha
  unfold Paging.resolve
  generalize addr / 4096 = v at hv hsl hsp hro
  generalize cowResolvePage s.machine r addr = x at hsp
  cases hsp with
  | none hs => exact h
  | full hs hm hfu =>
    have ht := (h.locked r hr v hv hs).2.2
    rw [Cow.refdec_snd, ht.frame32] at hm
    exact absurd hfu (hro hs hm)
  | @sole m' hs hl hw hcow hpmm =>
    obtain ⟨hu, -, ht⟩ := h.locked r hr v hv hs
    have hsh : s.view (r, v) = .share (pteFrame (leaf s.machine r v)) :=
      viewOf_eq_share.mpr ⟨hs, rfl⟩
    rw [Cow.refdec_snd, ht.frame32] at hl
    obtain ⟨hfr, hp, hk⟩ := h.owned (r, v) hsl _ (by rw [hsh]; rfl)
    refine h.unshare hw hcow shared_soleEntry (viewOf_soleEntry hu)
      (fun hfr' => hfr (hw.free hfr')) hp hk ?_
    have hc : Cow.krustCowRefcount m'.cow = Cow.krustCowRefcount s.machine.cow := by
      funext g
      rw [hcow, Cow.refcount_refdec, ht.frame32]
      split
      · rename_i hg
        rw [hg, hl]
      · rfl
    rw [hc]
    refine h.shares.adopt hsl (fun y hy hne => ?_) hsh hl ?_
    · rw [hw.view hy, if_neg hne]
    · rw [hw.view hsl, if_pos rfl, viewOf_soleEntry hu]
  | @copy m' f hs hm hf hw hcow hfr hmem =>
    obtain ⟨hu, -, ht⟩ := h.locked r hr v hv hs
    have hsh : s.view (r, v) = .share (pteFrame (leaf s.machine r v)) :=
      viewOf_eq_share.mpr ⟨hs, rfl⟩
    have hsm := h.tables.pmm.mem_lt hf
    obtain ⟨hp, hk⟩ := h.tables.fresh hf
    have hfr' : f ∉ freeSet m' := by
      rw [hfr]
      exact notMem_erase f _
    refine h.unshare hw hcow shared_copyEntry (viewOf_copyEntry hsm) hfr' hp hk ?_
    refine h.shares.move hsl (fun y hy hne => ?_) hsh (g := f) ?_ ?_ ?_
    · rw [hw.view hy, if_neg hne]
    · intro y hy hyf
      exact (h.owned y hy f hyf).1 hf
    · rw [hw.view hsl, if_pos rfl, viewOf_copyEntry hsm]
    intro g
    rw [hcow, Cow.refcount_refdec, ht.frame32]

section Teardown

/-- The frames that the dying space maps without a share count belong to nobody else. -/
def Releasable (kern : Set ℕ) (s : System) (r : ℕ) : Prop :=
  ∀ v, v < userPages → present (leaf s.machine r v) = true → cow (leaf s.machine r v) = false →
    pteFrame (leaf s.machine r v) ∉ kern ∧
    ∀ r' ∈ s.spaces, r' ≠ r →
      (∀ path, TablePath path →
        descend pteNext s.machine.mem r' path ≠ some (pteFrame (leaf s.machine r v))) ∧
      ∀ v', v' < userPages → present (leaf s.machine r' v') = true →
        user (leaf s.machine r' v') = true →
        pteFrame (leaf s.machine r' v') ≠ pteFrame (leaf s.machine r v)

section

variable (h : Inv kern place s)
include h

lemma Inv.sharers_row (hr : r ∈ s.spaces) (hk : k ≤ userPages)
    (f : ℕ) : sharers ({r} ×ˢ Finset.range k) s.view f =
      (sharesBelow s.machine r f k).image fun v => (r, v) := by
  ext ⟨r', v⟩
  rw [mem_sharers, mem_product, mem_singleton, mem_range, mem_image]
  simp only [sharesBelow, mem_filter, mem_range, Prod.mk.injEq]
  constructor
  · rintro ⟨⟨rfl, hv⟩, hvi⟩
    obtain ⟨hs, hf⟩ := viewOf_eq_share.mp hvi
    exact ⟨v, ⟨hv, hs, (h.locked r' hr v (by omega) hs).2.2.frame32.trans hf⟩, rfl, rfl⟩
  rintro ⟨u, ⟨hu, hs, hf⟩, rfl, rfl⟩
  refine ⟨⟨rfl, hu⟩, viewOf_eq_share.mpr ⟨hs, ?_⟩⟩
  exact (h.locked r hr u (by omega) hs).2.2.frame32.symm.trans hf

lemma Inv.card_sharers_row (hr : r ∈ s.spaces)
    (hk : k ≤ userPages) (f : ℕ) : (sharers ({r} ×ˢ Finset.range k) s.view f).card =
      (sharesBelow s.machine r f k).card := by
  rw [h.sharers_row hr hk, card_image_of_injective]
  intro u v huv
  simpa using huv

lemma Inv.last_share (hr : r ∈ s.spaces) {v : ℕ} (hv : v < userPages)
    (hs : shared (leaf s.machine r v) = true) (hf : pteFrame (leaf s.machine r v) = f)
    (hl : (Cow.krustCowRefdec (dropUpTo s.machine r v) (frame32 (leaf s.machine r v))).2 = 0)
    (hx : x ∈ s.slots) (hne : x.1 ≠ r) : (s.view x).object? ≠ some f := by
  intro hxf
  have hsh : s.view (r, v) = .share f := viewOf_eq_share.mpr ⟨hs, hf⟩
  have hsl : (r, v) ∈ s.slots := mem_slots.mpr ⟨hr, hv⟩
  have hxs := h.shares.unmixed (r, v) hsl x hx f hsh hxf
  rw [Cow.refdec_snd, (h.locked r hr v hv hs).2.2.frame32, hf, refcount_dropUpTo,
    h.shares.counted f, ← h.card_sharers_row hr hv.le] at hl
  -- The shares so far, the one at `v` and the one at `x` are different.
  have hsub : insert x (insert (r, v) (sharers ({r} ×ˢ range v) s.view f)) ⊆
      sharers s.slots s.view f := by
    intro y hy
    rw [mem_insert, mem_insert] at hy
    rcases hy with rfl | rfl | hy
    · exact mem_sharers.mpr ⟨hx, hxs⟩
    · exact mem_sharers.mpr ⟨hsl, hsh⟩
    obtain ⟨hy, hyf⟩ := mem_sharers.mp hy
    rw [mem_product, mem_singleton, mem_range] at hy
    exact mem_sharers.mpr ⟨mem_slots.mpr ⟨hy.1 ▸ hr, hy.2.trans hv⟩, hyf⟩
  have hc := card_le_card hsub
  have hv' : (r, v) ∉ sharers ({r} ×ˢ range v) s.view f := by
    intro hmem
    simpa using (mem_sharers.mp hmem).1
  have hx' : x ∉ insert (r, v) (sharers ({r} ×ˢ range v) s.view f) := by
    rw [mem_insert]
    rintro (rfl | hmem)
    · exact hne rfl
    have := (mem_sharers.mp hmem).1
    rw [mem_product, mem_singleton] at this
    exact hne this.1
  rw [card_insert_of_notMem hx', card_insert_of_notMem hv'] at hc
  omega

lemma Inv.released (hr : r ∈ s.spaces) (hrel : Releasable kern s r) (hf : Reason s.machine r f) :
    f ∉ kern ∧
      (∀ r' path, r' ∈ s.spaces → r' ≠ r → TablePath path →
        descend pteNext s.machine.mem r' path ≠ some f) ∧
      ∀ x ∈ s.slots, x.1 ≠ r → (s.view x).object? ≠ some f := by
  have hus : ∀ x ∈ s.slots, (s.view x).object? = some f →
      present (leaf s.machine x.1 x.2) = true ∧ user (leaf s.machine x.1 x.2) = true ∧
        pteFrame (leaf s.machine x.1 x.2) = f := by
    intro x hx hxf
    obtain ⟨hp, hcu, hfr⟩ := object?_viewOf.mp hxf
    obtain ⟨hxr, hxv⟩ := mem_slots.mp hx
    refine ⟨hp, hcu.elim (fun hc => ?_) id, hfr⟩
    exact (h.locked x.1 hxr x.2 hxv (by rw [shared, hp, hc]; rfl)).1
  cases hf with
  | leaf v hv hp hc hfr =>
    subst hfr
    obtain ⟨hke, ho⟩ := hrel v hv hp hc
    refine ⟨hke, fun r' path hr' hne => (ho r' hr' hne).1 path, ?_⟩
    intro x hx hne hxf
    obtain ⟨hp', hu', hfr'⟩ := hus x hx hxf
    obtain ⟨hxr, hxv⟩ := mem_slots.mp hx
    exact (ho x.1 hxr hne).2 x.2 hxv hp' hu' hfr'
  | share v hv hs hl hfr =>
    have hobj : (s.view (r, v)).object? = some f := by
      rw [System.view, viewOf_eq_share.mpr ⟨hs, hfr⟩]
      rfl
    obtain ⟨-, hpl, hke⟩ := h.owned (r, v) (mem_slots.mpr ⟨hr, hv⟩) f hobj
    refine ⟨hke, ?_, fun x hx hne => h.last_share hr hv hs hfr hl hx hne⟩
    intro r' path hr' _ hp hd
    have := h.tables.place_table hr' hp hd
    simp [hpl] at this
  | table path hp ht =>
    have hpl := h.tables.place_table hr hp ht
    refine ⟨?_, ?_, ?_⟩
    · intro hk
      simp [(h.tables.kernel f hk).2] at hpl
    · intro r' path' hr' hne hp' hd
      have hpl' := h.tables.place_table hr' hp' hd
      rw [hpl, Option.some.injEq, Prod.mk.injEq] at hpl'
      exact hne hpl'.1.symm
    intro x hx _ hxf
    simp [(h.owned x hx f hxf).2.1] at hpl

lemma Inv.teardown (hr : r ∈ s.spaces) (hrel : Releasable kern s r) :
    ∃ place', Inv kern place' (teardown s r) := by
  have hR := krustPagingFreeUserPages_spec h.tables hr
  unfold Paging.teardown
  generalize krustPagingFreeUserPages s.machine r = w at hR
  have hfr : ∀ f, f ∈ freeSet w.machine → f ∉ freeSet s.machine → Reason s.machine r f :=
    fun f hf hno => hR.reason f ((hR.freed f hf).resolve_left hno)
  have hl : ∀ r' v, leaf w.machine r' v = leaf s.machine r' v := leaf_congr_mem hR.mem
  have hvi : System.view ⟨w.machine, s.spaces.erase r⟩ = s.view :=
    funext fun x => congrArg viewOf (hl x.1 x.2)
  have hsl : System.slots ⟨w.machine, s.spaces.erase r⟩ ⊆ s.slots :=
    product_subset_product (erase_subset r _) subset_rfl
  have hst : ∀ x ∈ System.slots ⟨w.machine, s.spaces.erase r⟩, x ∈ s.slots ∧ x.1 ≠ r :=
    fun x hx => ⟨hsl hx, ne_of_mem_erase (mem_slots.mp hx).1⟩
  have hnil : TablePath [] := ⟨by simp, by simp, by simp⟩
  set place1 := reached pteNext TablePath s.machine.mem (s.spaces : Set ℕ) place with hpl1
  have hre : ∀ {t x}, without place1 r t = some x → x.1 ∈ s.spaces ∧ x.1 ≠ r ∧ TablePath x.2 ∧
        descend pteNext s.machine.mem x.1 x.2 = some t ∧ place t = some x := by
    rintro t ⟨r', path⟩ ht
    obtain ⟨ht, hne⟩ := without_eq_some.mp ht
    obtain ⟨hr', hp, hd⟩ := (reached_eq_some h.tables.forest tablePath_closed).mp ht
    exact ⟨hr', hne, hp, hd, h.tables.place_table hr' hp hd⟩
  have hn : ∀ f, place f = none → without place1 r f = none := by
    intro f hf
    cases hx : without place1 r f with
    | none => rfl
    | some x =>
      have := (hre hx).2.2.2.2
      simp [hf] at this
  refine ⟨without place1 r, ⟨hR.pmm, ?_, ?_, ?_, ?_, ?_⟩, ?_, ?_, ?_⟩
  · rw [hR.mem, coe_erase]
    exact (h.tables.forest.reached tablePath_closed hnil).remove_root r
  · intro f x hx hf
    obtain ⟨hr', hne, hp, hd, hpl⟩ := hre hx
    have hno := h.tables.used f x hpl
    exact (h.released hr hrel (hfr f hf hno)).2.1 x.1 x.2 hr' hne hp hd
  · intro t r' path i ht hlen hp hpr
    rw [hR.mem] at hpr ⊢
    exact h.tables.flat t r' path i (hre ht).2.2.2.2 hlen hp hpr
  · intro f hf
    obtain ⟨hno, hpl⟩ := h.tables.kernel f hf
    exact ⟨fun hf' => (h.released hr hrel (hfr f hf' hno)).1 hf, hn f hpl⟩
  · exact h.tables.dir.congr hR.pml4 fun f _ => by rw [hR.mem]
  · intro r' hr' v hv
    change shared (leaf w.machine r' v) = true → user (leaf w.machine r' v) = true ∧ _
    rw [hl]
    intro hs
    obtain ⟨hu, hw, hlt, ht⟩ := h.locked r' (mem_of_mem_erase hr') v hv hs
    exact ⟨hu, hw, hlt, by rw [hR.counts, untracked_dropUpTo, ht]⟩
  · rw [hvi]
    refine h.shares.drop hsl fun f => ?_
    have hrow : s.slots \ System.slots ⟨w.machine, s.spaces.erase r⟩ = {r} ×ˢ range userPages := by
      ext ⟨r', v⟩
      rw [mem_sdiff, mem_slots, mem_slots, mem_product, mem_singleton, mem_range, mem_erase]
      constructor
      · rintro ⟨⟨hr', hv⟩, hno⟩
        exact ⟨by_contra fun hne => hno ⟨⟨hne, hr'⟩, hv⟩, hv⟩
      rintro ⟨rfl, hv⟩
      exact ⟨⟨hr, hv⟩, fun hc => hc.1.1 rfl⟩
    rw [hrow, h.card_sharers_row hr le_rfl, ← refcount_dropUpTo]
    exact congrArg (Cow.krustCowRefcount · f) hR.counts
  intro x hx f hf
  rw [hvi] at hf
  obtain ⟨hx', hne⟩ := hst x hx
  obtain ⟨hno, hpl, hk⟩ := h.owned x hx' f hf
  exact ⟨fun hf' => (h.released hr hrel (hfr f hf' hno)).2.2 x hx' hne hf, hn f hpl, hk⟩

end

end Teardown

end Steps

end Elitra.Paging
