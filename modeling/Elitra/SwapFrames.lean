import Elitra.SwapRound

namespace Elitra.Swap
open Function Paging

variable {β : Type} {s s' : State β} {x : Page} {g : Option (Fin (2 ^ 40))} {mem io : Bool}

/-- The frame that an eviction passes to `krust_pmm_free_frame`: that of the entry it read first. -/
def evictFrees (s : State β) (x : Page) (g : Option (Fin (2 ^ 40))) (mem io : Bool) : Option ℕ :=
  if (swapEvictPage s x g mem io).2 then some (pteFrame (s.entry x)) else none

/-- The state when the contents are copied to the buffer: the COW bit, if any, is resolved. -/
def readyState (s : State β) (x : Page) (g : Option (Fin (2 ^ 40))) : State β :=
  if cow (s.entry x) then cowResolvePage s x g else s

/-- The frame behind an entry of a page table; `large` are the frames of the 2 MB and 1 GB pages,
which an eviction turns down. -/
def FrameMapped (s : State β) (large : ℕ → Prop) (f : ℕ) : Prop :=
  large f ∨ ∃ z, s.table z = true ∧ present (s.entry z) = true ∧ pteFrame (s.entry z) = f

lemma present_evictedEntry {slot : ℕ} {old : Pte} : present (evictedEntry slot old) = false := by
  by_contra hp
  have hs : swapIsPte (evictedEntry slot old) = true := swapIsPte_evicted
  rw [swapIsPte_present (by simpa using hp)] at hs
  cases hs

lemma cowResolvePage_contents (s : State β) (x : Page) (g : Option (Fin (2 ^ 40))) :
    (cowResolvePage s x g).frame (pteFrame ((cowResolvePage s x g).entry x)) =
      s.frame (pteFrame (s.entry x)) := by
  unfold cowResolvePage
  dsimp only
  split
  · dsimp only
    rw [update_self, pteFrame_soleEntry]
  split
  · rfl
  rename_i f
  dsimp only
  rw [update_self, pteFrame_copyEntry f.isLt, update_self]

lemma readyState_contents (s : State β) (x : Page) (g : Option (Fin (2 ^ 40))) :
    (readyState s x g).frame (pteFrame ((readyState s x g).entry x)) =
      s.frame (pteFrame (s.entry x)) := by
  unfold readyState
  split
  · exact cowResolvePage_contents s x g
  · rfl

lemma cowResolvePage_table (s : State β) (x : Page) (g : Option (Fin (2 ^ 40))) :
    (cowResolvePage s x g).table = s.table := by
  unfold cowResolvePage
  dsimp only
  split
  · rfl
  cases g with
  | none => rfl
  | some f => rfl

lemma swapEvictPage_table (s : State β) (x : Page) (g : Option (Fin (2 ^ 40))) (mem io : Bool) :
    (swapEvictPage s x g mem io).1.table = s.table := by
  have hr := cowResolvePage_table s x g
  unfold swapEvictPage
  dsimp only
  split
  · rfl
  · split_ifs <;> first | rfl | exact hr

/-- After an eviction the freed frame is mapped where it was mapped before by something else. -/
lemma Evicted.frameMapped_iff {slot : ℕ} (h : Evicted s x slot s') (ht : s'.table = s.table)
    (large : ℕ → Prop) (f : ℕ) :
    FrameMapped s' large f ↔
      large f ∨ ∃ z, z ≠ x ∧ s.table z = true ∧ present (s.entry z) = true ∧
        pteFrame (s.entry z) = f := by
  unfold FrameMapped
  apply or_congr_right
  apply exists_congr
  intro z
  by_cases hz : z = x
  · -- the page itself is out
    rw [hz, h.entry, present_evictedEntry]
    simp
  rw [h.others z hz, ht]
  simp [hz]

/-- A successful eviction stores what the page held, also where a copy was put behind it meanwhile;
the frame it frees is out of every address space exactly when the page was its only mapping. -/
theorem evict_stores_and_frees (large : ℕ → Prop) (h : swapEvictPage s x g mem io = (s', true)) :
    (∃ slot, swapAllocSlot s = some slot ∧ s'.entry x = evictedEntry slot (s.entry x) ∧
      readPage s'.disk (slotLba s' slot) =
        (readyState s x g).frame (pteFrame ((readyState s x g).entry x)) ∧
      readPage s'.disk (slotLba s' slot) = s.frame (pteFrame (s.entry x))) ∧
    evictFrees s x g mem io = some (pteFrame (s.entry x)) ∧
    (¬ FrameMapped s' large (pteFrame (s.entry x)) ↔
      ¬ large (pteFrame (s.entry x)) ∧
        ∀ z, z ≠ x → s.table z = true → present (s.entry z) = true →
          pteFrame (s.entry z) ≠ pteFrame (s.entry x)) := by
  have hc := swapEvictPage_cases s x g mem io
  have hta := swapEvictPage_table s x g mem io
  rw [h] at hc hta
  obtain ⟨hfa, -⟩ | ⟨-, slot, he⟩ := hc
  · cases hfa
  have hs : readPage s'.disk (slotLba s' slot) = s.frame (pteFrame (s.entry x)) := by
    rw [he.disk, he.toSameArea.slotLba, readPage_writePage]
  refine ⟨⟨slot, he.alloc, he.entry, ?_, hs⟩, ?_, ?_⟩
  · rw [hs, readyState_contents]
  · rw [evictFrees, h]
    rfl
  rw [he.frameMapped_iff hta, not_or]
  apply and_congr_right
  intro _
  constructor
  · intro hn z hz ht hp hf
    exact hn ⟨z, hz, ht, hp, hf⟩
  rintro hall ⟨z, hz, ht, hp, hf⟩
  exact hall z hz ht hp hf

/-- Page 5 of the directories 1 and 2 in frame 10, with the entries given, and one slot. -/
def sharedPage (e₁ e₂ : Pte) (counts : Cow.State) : State ℕ where
  lbaStart := 0
  totalSectors := 16
  totalSlots := 1
  used := fun _ => false
  disk := fun _ => 0
  frame := fun f _ => f
  counts := counts
  table := fun z => z.2 = 5
  entry := fun z => if z = (1, 5) then e₁ else if z = (2, 5) then e₂ else 0

theorem evict_stores_and_frees_private :
    ¬ FrameMapped
      (swapEvictPage (sharedPage 0xA007 0 ⟨0, 0, fun _ => 0⟩) (1, 5) none true true).1
      (fun _ => False) 10 := by
  have hold : (sharedPage 0xA007 0 ⟨0, 0, fun _ => 0⟩).entry (1, 5) = 0xA007 := by decide
  have hs : ∀ z, z ≠ ((1, 5) : Page) → (sharedPage 0xA007 0 ⟨0, 0, fun _ => 0⟩).entry z = 0 := by
    intro z hz
    simp [sharedPage, hz]
  have h := (evict_stores_and_frees
    (s := sharedPage 0xA007 0 ⟨0, 0, fun _ => 0⟩) (x := (1, 5)) (g := none) (fun _ => False)
    (show swapEvictPage _ _ _ true true = (_, true) from rfl)).2.2
  rw [hold, show pteFrame 0xA007 = 10 by decide] at h
  refine h.mpr ⟨id, ?_⟩
  intro z hz _ hp
  rw [hs z hz] at hp
  exact absurd hp (by decide)

/-- The page is shared copy-on-write with directory 2. The copy goes to frame 8, which nobody maps or
frees afterwards; frame 10 is freed and directory 2 still maps it. -/
theorem evict_frees_shared_frame :
    (swapEvictPage (sharedPage 0xA205 0xA205 ⟨0x1000, 16, fun _ => 1⟩) (1, 5) (some 8) true true).2 =
        true ∧
      evictFrees (sharedPage 0xA205 0xA205 ⟨0x1000, 16, fun _ => 1⟩) (1, 5) (some 8) true true =
        some 10 ∧
      FrameMapped
        (swapEvictPage (sharedPage 0xA205 0xA205 ⟨0x1000, 16, fun _ => 1⟩) (1, 5) (some 8) true true).1
        (fun _ => False) 10 := by
  refine ⟨by decide, by decide, Or.inr ⟨(2, 5), ?_⟩⟩
  decide

end Elitra.Swap
