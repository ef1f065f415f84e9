import Elitra.SwapRun

namespace Elitra.Swap
open Bool Function Paging

variable {β : Type}

/-- The page is resident and the task may read it. -/
def views (s : State β) (x : Page) : Bool :=
  s.table x && present (s.entry x) && user (s.entry x)

/-- The page is resident and the task may write it. -/
def stores (s : State β) (x : Page) : Bool := views s x && writable (s.entry x)

/-- What a task finds in a page: the frame of a resident page, and for a page in the swap area what
the swap-in brings. -/
def contents (s : State β) (x : Page) : Option (Fin 8 → β) :=
  if views s x then some (s.frame (pteFrame (s.entry x)))
  else if s.table x && swapIsPte (s.entry x) && decide (swapPteToSlot (s.entry x) < s.totalSlots) then
    some (readPage s.disk (slotLba s (swapPteToSlot (s.entry x))))
  else none

/-- The flags of `vma_lazy_alloc` for an area's `PROT_WRITE` and `PROT_EXEC`. -/
def lazyFlags (write exec : Bool) : Pte :=
  5#64 ||| (if write then 2#64 else 0#64) ||| (if exec then 0#64 else 0x8000000000000000#64)

/-- What one fault meets: a frame and a disk for the swap-in; the protection of the area, if there
is one that allows the access; a frame for a new page and whether it could be mapped; the pages that
`swap_evict_any` tries, and the frame after it. -/
structure Answers where
  swapFrame : Option (Fin (2 ^ 40))
  io : Bool
  area : Option (Bool × Bool)
  frame : Option (Fin (2 ^ 40))
  mapped : Bool
  victims : List (Page × Option (Fin (2 ^ 40)) × Bool × Bool)
  retry : Option (Fin (2 ^ 40))

/-- `vma_lazy_alloc`. It does not look at whether `krust_paging_map_page` found its tables. -/
def vmaLazyAlloc (s : State β) (x : Page) (zero : β) (area : Option (Bool × Bool))
    (g : Option (Fin (2 ^ 40))) (mapped : Bool) : State β × Bool :=
  match area, g with
  | some (write, exec), some g =>
    let s := { s with frame := update s.frame g fun _ => zero }
    if mapped then
      ({ s with
        table := update s.table x true
        entry := update s.entry x (leafEntry (frameAddr g) (lazyFlags write exec)) }, true)
    else (s, true)
  | _, _ => (s, false)

def swapEvictAny (s : State β) :
    List (Page × Option (Fin (2 ^ 40)) × Bool × Bool) → State β × Bool
  | [] => (s, false)
  | (y, g, mem, io) :: rest =>
    let r := swapEvictPage s y g mem io
    if r.2 then r else swapEvictAny r.1 rest

/-- `krust_page_fault_handler` up to the OOM killer. A write to a present page has error code 7, and
the handler looks for the COW bit only at code 6, where there is no present entry; so a fault on a
present page ends in a signal. -/
def krustPageFaultHandler (s : State β) (x : Page) (zero : β) (a : Answers) : State β :=
  if s.table x && present (s.entry x) then s
  else
    let r := swapHandleFault s x a.swapFrame a.io
    if r.2 then r.1
    else
      let r := vmaLazyAlloc s x zero a.area a.frame a.mapped
      if r.2 then r.1
      else
        let r := swapEvictAny s a.victims
        if r.2 then (vmaLazyAlloc r.1 x zero a.area a.retry a.mapped).1 else r.1

/-- What writes are made of: the store itself, also by the kernel for a system call, and the fault
that comes before it when the page is not there. -/
inductive Act (β : Type) where
  | store (x : Page) (i : Fin 8) (b : β) (kernel : Bool)
  | fault (x : Page) (zero : β) (a : Answers)

def Act.page : Act β → Page
  | .store x _ _ _ => x
  | .fault x _ _ => x

/-- The kernel runs with `CR0.WP` clear, so its stores do not ask for the write bit. -/
def Act.exec (s : State β) : Act β → State β
  | .store x i b kernel =>
    if stores s x || kernel && s.table x && present (s.entry x) then
      let f := pteFrame (s.entry x)
      { s with frame := update s.frame f (update (s.frame f) i b) }
    else s
  | .fault x zero a => krustPageFaultHandler s x zero a

section Apart

variable {s s' : State β} {x : Page} {p c d d' : ℕ}

/-- No page that `d` may write is in a frame that `d'` reads. -/
def Apart (s : State β) (d d' : ℕ) : Prop :=
  ∀ u v, stores s (d, u) = true → views s (d', v) = true →
    pteFrame (s.entry (d, u)) ≠ pteFrame (s.entry (d', v))

/-- Neither task reads the frame. -/
def Unseen (s : State β) (p c : ℕ) (g : Option (Fin (2 ^ 40))) : Prop :=
  ∀ f, g = some f → ∀ z : Page, z.1 = p ∨ z.1 = c → views s z = true → pteFrame (s.entry z) ≠ f

/-- The condition on a step: the kernel stores only where the task could; a frame from the allocator
is nobody's; and no page is evicted. -/
def Act.Calm (s : State β) (p c : ℕ) : Act β → Prop
  | .store x _ _ kernel => kernel = true → stores s x = true
  | .fault x zero a => Unseen s p c a.swapFrame ∧ Unseen s p c a.frame ∧
      ((swapHandleFault s x a.swapFrame a.io).2 = true ∨
        (vmaLazyAlloc s x zero a.area a.frame a.mapped).2 = true ∨ a.victims = [])

/-- A step that changes entries at `x` only and the contents of at most one frame, which no other
task reads and in which `x` is if it can be read afterwards. -/
structure Local (s s' : State β) (x : Page) (f : ℕ) : Prop extends SameArea s s' where
  disk : s'.disk = s.disk
  table : ∀ z, z ≠ x → s'.table z = s.table z
  entry : ∀ z, z ≠ x → s'.entry z = s.entry z
  frame : ∀ h, h ≠ f → s'.frame h = s.frame h
  self : (s'.table x = s.table x ∧ s'.entry x = s.entry x) ∨ views s' x = false ∨
    pteFrame (s'.entry x) = f

lemma stores_views (h : stores s x = true) : views s x = true := (and_eq_true_iff.mp h).1

lemma contents_of_views (h : views s x = true) :
    contents s x = some (s.frame (pteFrame (s.entry x))) := by
  rw [contents, if_pos h]

lemma views_congr (ht : s'.table x = s.table x) (he : s'.entry x = s.entry x) :
    views s' x = views s x := by
  rw [views, views, ht, he]

lemma stores_congr (ht : s'.table x = s.table x) (he : s'.entry x = s.entry x) :
    stores s' x = stores s x := by
  rw [stores, stores, views_congr ht he, he]

lemma Local.contents_other {f : ℕ} (h : Local s s' x f) {z : Page} (hz : z ≠ x)
    (hf : views s z = true → pteFrame (s.entry z) ≠ f) : contents s' z = contents s z := by
  have hvi := views_congr (h.table z hz) (h.entry z hz)
  unfold contents
  rw [hvi, h.table z hz, h.entry z hz, h.totalSlots, h.disk, h.toSameArea.slotLba]
  by_cases hv : views s z = true
  · rw [if_pos hv, if_pos hv, h.frame _ (hf hv)]
  · rw [if_neg hv, if_neg hv]

lemma Local.apart {f : ℕ} (h : Local s s' (d, x.2) f) (hne : d ≠ d')
    (hf : ∀ v, views s (d', v) = true → pteFrame (s.entry (d', v)) ≠ f)
    (hap : Apart s d d') (hap' : Apart s d' d) : Apart s' d d' ∧ Apart s' d' d := by
  have ho : ∀ v, (d', v) ≠ (d, x.2) := fun v heq => hne (congrArg Prod.fst heq).symm
  have hv' : ∀ v, views s' (d', v) = views s (d', v) :=
    fun v => views_congr (h.table _ (ho v)) (h.entry _ (ho v))
  have hs' : ∀ v, stores s' (d', v) = stores s (d', v) :=
    fun v => stores_congr (h.table _ (ho v)) (h.entry _ (ho v))
  -- a page that `d` reads afterwards was there before, or is in the frame `f`
  have hm : ∀ u, views s' (d, u) = true →
      (s'.table (d, u) = s.table (d, u) ∧ s'.entry (d, u) = s.entry (d, u)) ∨
        pteFrame (s'.entry (d, u)) = f := by
    intro u hu
    by_cases heq : (d, u) = (d, x.2)
    · rw [heq] at hu ⊢
      rcases h.self with hse | hse | hse
      · exact .inl hse
      · rw [hse] at hu
        cases hu
      · exact .inr hse
    · exact .inl ⟨h.table _ heq, h.entry _ heq⟩
  constructor
  · intro u v hu hv
    rw [hv'] at hv
    rw [h.entry _ (ho v)]
    rcases hm u (stores_views hu) with ⟨ht, he⟩ | hfr
    · rw [stores_congr ht he] at hu
      rw [he]
      exact hap u v hu hv
    rw [hfr]
    exact (hf v hv).symm
  intro v u hv hu
  rw [hs'] at hv
  rw [h.entry _ (ho v)]
  rcases hm u hu with ⟨ht, he⟩ | hfr
  · rw [views_congr ht he] at hu
    rw [he]
    exact hap' v u hv hu
  rw [hfr]
  exact hf v (stores_views hv)

lemma Local.refl (s : State β) (x : Page) (f : ℕ) : Local s s x f :=
  ⟨⟨rfl, rfl, rfl⟩, rfl, fun _ _ => rfl, fun _ _ => rfl, fun _ _ => rfl, .inl ⟨rfl, rfl⟩⟩

end Apart

section Step

variable {s s' : State β} {x : Page} {p c d d' : ℕ}

lemma user_restored (f : ℕ) (pte : Pte) : user (restoredEntry f pte) = false := by
  rw [user_eq]
  apply restored_getLsbD
  omega

lemma local_swapHandleFault (s : State β) (x : Page) (g : Option (Fin (2 ^ 40))) (io : Bool) :
    (swapHandleFault s x g io).1 = s ∨
      ∃ f, g = some f ∧ Local s (swapHandleFault s x g io).1 x f := by
  unfold swapHandleFault
  split
  · exact .inl rfl
  dsimp only
  split
  · exact .inl rfl
  split
  · exact .inl rfl
  rename_i f
  split
  · exact .inl rfl
  split
  · exact .inl rfl
  refine .inr ⟨f, rfl, ⟨rfl, rfl, rfl⟩, rfl, fun _ _ => rfl,
    fun z hz => update_of_ne hz _ _, fun k hk => update_of_ne hk _ _,
    .inr (.inl ?_)⟩
  simp only [views, update_self, user_restored, Bool.and_false]

lemma local_vmaLazyAlloc (s : State β) (x : Page) (zero : β) (area : Option (Bool × Bool))
    (g : Option (Fin (2 ^ 40))) (mapped : Bool) :
    (vmaLazyAlloc s x zero area g mapped).1 = s ∨
      ∃ f, g = some f ∧ Local s (vmaLazyAlloc s x zero area g mapped).1 x f := by
  unfold vmaLazyAlloc
  split
  · rename_i write exec f
    dsimp only
    split
    · refine .inr ⟨f, rfl, ⟨rfl, rfl, rfl⟩, rfl, fun z hz => update_of_ne hz _ _,
        fun z hz => update_of_ne hz _ _, fun k hk => update_of_ne hk _ _,
        .inr (.inr ?_)⟩
      dsimp only
      rw [update_self, pteFrame_leafEntry, pteFrame_frameAddr f.isLt]
    exact .inr ⟨f, rfl, ⟨rfl, rfl, rfl⟩, rfl, fun _ _ => rfl, fun _ _ => rfl,
      fun k hk => update_of_ne hk _ _, .inl ⟨rfl, rfl⟩⟩
  · exact .inl rfl

/-- What a calm step does: it is local to its page, in a frame that the other task does not read. -/
lemma Act.Calm.local {a : Act β} (h : a.Calm s p c) (hp : a.page.1 = d)
    (hd' : d' = p ∨ d' = c) (hap : Apart s d d') :
    ∃ f, Local s (a.exec s) a.page f ∧
      ∀ v, views s (d', v) = true → pteFrame (s.entry (d', v)) ≠ f := by
  -- a frame that the allocator gives and that neither task reads
  have hu : ∀ g f, Unseen s p c g → g = some f →
      ∀ v, views s (d', v) = true → pteFrame (s.entry (d', v)) ≠ f :=
    fun g f hg hf v hv => hg f hf (d', v) hd' hv
  -- for a step that changes nothing, any frame beyond the address space will do
  have hn : ∀ s1 : State β, s1 = s → ∃ f, Local s s1 a.page f ∧
      ∀ v, views s (d', v) = true → pteFrame (s.entry (d', v)) ≠ f := by
    intro s1 hs1
    rw [hs1]
    exact ⟨2 ^ 40, Local.refl s a.page _, fun v _ => (pteFrame_lt _).ne⟩
  cases a with
  | store x i b kernel =>
    by_cases hst : stores s x = true
    · refine ⟨pteFrame (s.entry x), ?_, fun v hv => ?_⟩
      · rw [Act.exec, hst, Bool.true_or, if_pos rfl]
        exact ⟨⟨rfl, rfl, rfl⟩, rfl, fun _ _ => rfl, fun _ _ => rfl,
          fun k hk => update_of_ne hk _ _, .inl ⟨rfl, rfl⟩⟩
      have hx : x = (d, x.2) := Prod.ext hp rfl
      rw [hx] at hst ⊢
      exact (hap x.2 v hst hv).symm
    apply hn
    have hke : kernel = false := by
      cases kernel with
      | false => rfl
      | true => exact absurd (h rfl) hst
    rw [Act.exec, hke, if_neg]
    simpa using hst
  | fault x zero ans =>
    obtain ⟨hsw, hfr, hc⟩ := h
    rw [Act.exec]
    unfold krustPageFaultHandler
    split
    · exact hn s rfl
    dsimp only
    split
    · rcases local_swapHandleFault s x ans.swapFrame ans.io with heq | ⟨f, hf, hl⟩
      · exact hn _ heq
      · exact ⟨f, hl, hu _ f hsw hf⟩
    split
    · rcases local_vmaLazyAlloc s x zero ans.area ans.frame ans.mapped with heq | ⟨f, hf, hl⟩
      · exact hn _ heq
      · exact ⟨f, hl, hu _ f hfr hf⟩
    -- neither found a page, so there was nothing to evict
    have hvi : ans.victims = [] := by tauto
    rw [hvi]
    exact hn s rfl

lemma Act.Calm.step {a : Act β} (h : a.Calm s p c) (hp : a.page.1 = d)
    (hd' : d' = p ∨ d' = c) (hne : d ≠ d') (hap : Apart s d d') (hap' : Apart s d' d) :
    (Apart (a.exec s) d d' ∧ Apart (a.exec s) d' d) ∧
      ∀ v, contents (a.exec s) (d', v) = contents s (d', v) := by
  obtain ⟨f, hl, hf⟩ := h.local hp hd' hap
  have hx : a.page = (d, a.page.2) := Prod.ext hp rfl
  rw [hx] at hl
  exact ⟨hl.apart hne hf hap hap',
    fun v => hl.contents_other (fun heq => hne (congrArg Prod.fst heq).symm) (hf v)⟩

end Step

section Fork

variable {s s' : State β} {p c copied : ℕ} {cloned tables : ℕ → Bool}

/-- The steps of parent and child in any order, each under the condition. -/
inductive Writes (p c : ℕ) (s₀ : State β) : State β → Prop
  | start : Writes p c s₀ s₀
  | step {s : State β} (a : Act β) (h : Writes p c s₀ s) (hpage : a.page.1 = p ∨ a.page.1 = c)
      (hcalm : a.Calm s p c) : Writes p c s₀ (a.exec s)

/-- The condition on a fork: every page that the parent can read is resident and was reached by the
copy, and the kernel's lower half has no pages for users. -/
structure Whole (s : State β) (p copied : ℕ) (cloned tables : ℕ → Bool) : Prop where
  resident : ∀ v, contents s (p, v) ≠ none → present (s.entry (p, v)) = true
  copied : ∀ v, contents s (p, v) ≠ none → v < copied ∧ tables v = true
  kernel : ∀ v, cloned v = true → user (s.entry (0, v)) = false

lemma stores_shareable {x : Page} (h : stores s x = true) : shareable (s.entry x) = true := by
  simp only [stores, views, and_eq_true] at h
  simp [shareable, h.1.2, h.2]

lemma fork_entry_copied (hpc : c ≠ p) {v : ℕ} (hv : v < copied)
    (hp : present (s.entry (p, v)) = true) :
    (fork s p c copied cloned tables).entry (c, v) = forked (s.entry (p, v)) ∧
      (fork s p c copied cloned tables).entry (p, v) = forked (s.entry (p, v)) := by
  simp [fork, hv, hp, hpc.symm]

lemma fork_stores (hpc : c ≠ p) (h : Whole s p copied cloned tables) (v : ℕ) :
    stores (fork s p c copied cloned tables) (p, v) = false ∧
      stores (fork s p c copied cloned tables) (c, v) = false := by
  constructor
  · by_contra hst
    rw [not_eq_false] at hst
    have hs := stores_shareable hst
    by_cases hcop : v < copied ∧ present (s.entry (p, v)) = true
    · rw [(fork_entry_copied hpc hcop.1 hcop.2).2, shareable_forked] at hs
      cases hs
    -- a page that the copy did not reach is as before, and then the parent could read it
    have he : (fork s p c copied cloned tables).entry (p, v) = s.entry (p, v) := by
      simp [fork, hpc.symm, hcop]
    have ht : (fork s p c copied cloned tables).table (p, v) = s.table (p, v) := by
      simp [fork, hpc.symm]
    rw [stores_congr ht he] at hst
    have hv := stores_views hst
    have hr : contents s (p, v) ≠ none := by
      rw [contents_of_views hv]
      exact Option.some_ne_none _
    exact hcop ⟨(h.copied v hr).1, h.resident v hr⟩
  by_contra hst
  rw [not_eq_false] at hst
  have hs := stores_shareable hst
  by_cases hcop : v < copied ∧ present (s.entry (p, v)) = true
  · rw [(fork_entry_copied hpc hcop.1 hcop.2).1, shareable_forked] at hs
    cases hs
  have hu : user ((fork s p c copied cloned tables).entry (c, v)) = true :=
    (and_eq_true_iff.mp hs).2
  have he : (fork s p c copied cloned tables).entry (c, v) =
      if cloned v then s.entry (0, v) else 0 := by
    simp [fork, hcop]
  rw [he] at hu
  split at hu
  · rename_i hcl
    rw [h.kernel v hcl] at hu
    cases hu
  · exact absurd hu (by decide)

lemma Writes.apart (hpc : c ≠ p) (h : Whole s p copied cloned tables)
    (hrun : Writes p c (fork s p c copied cloned tables) s') : Apart s' p c ∧ Apart s' c p := by
  induction hrun with
  | start =>
    constructor
    · intro u v hu _
      rw [(fork_stores hpc h u).1] at hu
      cases hu
    intro u v hu _
    rw [(fork_stores hpc h u).2] at hu
    cases hu
  | step a _ hp hc ih =>
    rcases hp with hp | hp
    · exact (hc.step hp (.inr rfl) hpc.symm ih.1 ih.2).1
    · exact (hc.step hp (.inl rfl) hpc ih.2 ih.1).1.symm

def resident : State ℕ := { ready with entry := fun x => if x = (1, 6) then 0x9007 else 0 }

def touch : Act ℕ := .fault (1, 8) 0 ⟨none, true, some (true, false), some 20, true, [], none⟩

end Fork

end Elitra.Swap
