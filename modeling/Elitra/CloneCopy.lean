import Mathlib.Algebra.Order.BigOperators.Group.Finset
import Elitra.CloneView

namespace Elitra.Paging
open Function List Option Radix

/-- The entry `e'` of a new table stands for the kernel's entry `e` with `n` levels below it. The
kernel's tables are read in `src`, the new ones, all of them in `own` frames, in `mem`. -/
inductive Copies (src mem : ℕ → ℕ → Pte) (own : ℕ → Prop) : ℕ → Pte → Pte → Prop
  | leaf (e : Pte) : Copies src mem own 0 e e
  | absent {n : ℕ} {e : Pte} (hp : present e = false) : Copies src mem own (n + 1) e 0
  | split {e : Pte} {f : ℕ} (hp : present e = true) (hh : huge e = true)
      (hal : e &&& 0x1FF000#64 = 0#64) (hf : f < 2 ^ 40) (hown : own f)
      (hwords : ∀ i, i < 512 → mem f i = cloneSplit e i) : Copies src mem own 1 e (copyLink f e)
  | table {n : ℕ} {e : Pte} {f : ℕ} (hp : present e = true) (hh : huge e = false) (hf : f < 2 ^ 40)
      (hown : own f) (hwords : ∀ i, i < 512 → Copies src mem own n (src (pteFrame e) i) (mem f i)) :
      Copies src mem own (n + 1) e (copyLink f e)

/-- The part of the kernel's tree below an entry with `n` levels below it: its tables are in use,
there are no 1 GB pages, and the 2 MB pages lie on their borders. -/
def Source (src : ℕ → ℕ → Pte) (free : Finset ℕ) : ℕ → Pte → Prop
  | 0, _ => True
  | n + 1, e => present e = true →
      (huge e = true → n = 0 ∧ e &&& 0x1FF000#64 = 0#64) ∧
      (huge e = false → pteFrame e ∉ free ∧ ∀ i, i < 512 → Source src free n (src (pteFrame e) i))

/-- The number of tables a copy of this part takes. -/
def tablesFor (src : ℕ → ℕ → Pte) : ℕ → Pte → ℕ
  | 0, _ => 0
  | n + 1, e =>
    if present e then
      1 + if huge e then 0 else ∑ i ∈ Finset.range 512, tablesFor src n (src (pteFrame e) i)
    else 0

section Copies

variable {src mem mem' : ℕ → ℕ → Pte} {own own' : ℕ → Prop} {n : ℕ} {e e' : Pte}

lemma Copies.mono (h : Copies src mem own n e e')
    (hown : ∀ g, own g → own' g ∧ mem' g = mem g) : Copies src mem' own' n e e' := by
  induction h with
  | leaf e => exact .leaf e
  | absent hp => exact .absent hp
  | split hp hh hal hf ho hw =>
    refine .split hp hh hal hf (hown _ ho).1 fun i hi => ?_
    rw [(hown _ ho).2]
    exact hw i hi
  | table hp hh hf ho _ ih =>
    refine .table hp hh hf (hown _ ho).1 fun i hi => ?_
    rw [(hown _ ho).2]
    exact ih i hi

lemma Copies.mirrors (h : Copies src mem own n e e') {is : List ℕ} {j : ℕ} (hlen : is.length = n)
    (his : ∀ i ∈ is, i < 512) (hj : ∀ x, is.getLast? = some x → x = j) :
    Mirrors j n (e :: (linkNext e).elim [] fun u => trail linkNext src u is)
      (e' :: (linkNext e').elim [] fun u => trail linkNext mem u is) := by
  induction h generalizing is with
  | leaf e =>
    rw [length_eq_zero_iff.mp hlen]
    cases linkNext e with
    | none => exact .leaf e
    | some u => exact .leaf e
  | absent hp =>
    rw [linkNext_absent hp, linkNext_absent present_zero]
    exact .absent hp
  | split hp hh hal hf _ hw =>
    -- the kernel's walk ends here, that of the copy reads one entry more
    obtain ⟨i, rfl⟩ := length_eq_one_iff.mp hlen
    obtain rfl := hj i rfl
    rw [linkNext_huge hh, linkNext_copyLink hf, elim_some, trail_single, hw i (his i (by simp))]
    exact .split hp hal (newEntry_bits (copyLink_addr hf) hp)
  | table hp hh hf _ _ ih =>
    rw [linkNext_link hp hh, linkNext_copyLink hf, elim_some, elim_some]
    refine .link (newEntry_bits (copyLink_addr hf) hp) ?_
    obtain ⟨i, is, rfl⟩ := exists_cons_of_length_eq_add_one hlen
    refine ih i (his i (by simp)) (by simpa using hlen) (fun k hk => his k (by simp [hk])) ?_
    intro x hx
    refine hj x ?_
    rw [getLast?_cons, hx]
    rfl

end Copies

/-- The machine while a clone is made: all that was not free at the start is as it was. -/
structure Working (m₀ m : Machine) : Prop where
  pmm : Pmm.Good m.pmm
  free : freeSet m ⊆ freeSet m₀
  kernel : ∀ g, g ∉ freeSet m₀ → m.mem g = m₀.mem g

/-- A fresh frame with its words, linked in entry `i` of the table `t`. -/
structure Attached (m : Machine) (f : ℕ) (words : ℕ → Pte) (t i : ℕ) (e : Pte) (m' : Machine) :
    Prop where
  pmm : Pmm.Good m'.pmm
  fresh : f ∈ freeSet m
  small : f < 2 ^ 40
  free : freeSet m' = (freeSet m).erase f
  words : m'.mem f = words
  entry : m'.mem t i = e
  entries : ∀ j, j ≠ i → m'.mem t j = m.mem t j
  others : ∀ g, g ≠ f → g ≠ t → m'.mem g = m.mem g

/-- One round of a loop: entry `i` of the new table `t` now stands for the kernel's entry `e`. -/
structure CopyRound (m₀ : Machine) (n : ℕ) (e : Pte) (t i : ℕ) (m m' : Machine) : Prop where
  pmm : Pmm.Good m'.pmm
  keeps : Keeps t m m'
  entries : ∀ j, j ≠ i → m'.mem t j = m.mem t j
  count : (freeSet m').card + tablesFor m₀.mem n e = (freeSet m).card
  copied : Copies m₀.mem m'.mem (fun g => g ∈ freeSet m ∧ g ∉ freeSet m') n e (m'.mem t i)

variable {src : ℕ → ℕ → Pte}

variable {e : Pte} {n : ℕ}

lemma tablesFor_pos (hp : present e = true) : 0 < tablesFor src (n + 1) e := by
  rw [tablesFor, if_pos hp]
  omega

lemma Source.flat {free : Finset ℕ}
    (h : Source src free (n + 2) e) (hp : present e = true) : huge e = false := by
  by_contra hh
  exact absurd ((h hp).1 (by simpa using hh)).1 (by omega)

variable {body : ℕ → Machine → Machine}

section Rounds

variable {m₀ m m' : Machine} {n t i f : ℕ} {e : Pte}

lemma Working.keep (h : Working m₀ m) (hk : Keeps t m m') (ht : t ∈ freeSet m₀)
    (hgo : Pmm.Good m'.pmm) : Working m₀ m' := by
  refine ⟨hgo, hk.1.trans h.free, fun g hg => ?_⟩
  rw [hk.2 g (fun hg' => hg (h.free hg')) (fun heq => hg (heq ▸ ht)), h.kernel g hg]

lemma Working.read (h : Working m₀ m) (hf : f ∈ freeSet m) (p : Pmm.State) (words : ℕ → Pte) {g : ℕ}
    (hg : g ∉ freeSet m₀) : (fillFrame { m with pmm := p } f words).mem g = m₀.mem g := by
  rw [← h.kernel g hg]
  refine update_of_ne ?_ _ _
  rintro rfl
  exact hg (h.free hf)

lemma Working.alloc (h : Working m₀ m) (hz : 0 ∉ freeSet m₀) (hc : 0 < (freeSet m).card) :
    ∃ p f, tableAlloc m = (fillFrame { m with pmm := p } f fun _ => 0, some f) ∧
      ∀ t i words e, t ∉ freeSet m → Attached m f words t i e (attachTable m p f words t i e) := by
  rcases tableAlloc_cases h.pmm with ⟨-, he⟩ | ⟨p, f, hf, hfr, hg, heq⟩
  · rw [he] at hc
    simp at hc
  have hf0 : f ≠ 0 := by
    rintro rfl
    exact hz (h.free hf)
  rw [if_neg hf0] at heq
  refine ⟨p, f, heq, fun t i words e ht => ?_⟩
  have hft : f ≠ t := by
    rintro rfl
    exact ht hf
  refine ⟨hg, hf, h.pmm.mem_lt hf, hfr, link_new hft, link_entry, fun j hj => ?_,
    fun g hgf hgt => attachTable_others hgf hgt⟩
  exact link_of_ne hft.symm fun hji => hj hji.2

variable {words : ℕ → Pte}

lemma Attached.keeps (h : Attached m f words t i e m') : Keeps t m m' := by
  refine ⟨h.free ▸ Finset.erase_subset _ _, fun g hg hgt => h.others g ?_ hgt⟩
  rintro rfl
  exact hg h.fresh

lemma Attached.card (h : Attached m f words t i e m') :
    (freeSet m').card + 1 = (freeSet m).card := by
  rw [h.free]
  exact Finset.card_erase_add_one h.fresh

lemma CopyRound.absent (hg : Pmm.Good m.pmm) (hp : present e = false) (hz : m.mem t i = 0) :
    CopyRound m₀ (n + 1) e t i m m := by
  refine ⟨hg, Keeps.refl t m, fun _ _ => rfl, ?_, ?_⟩
  · simp [tablesFor, hp]
  rw [hz]
  exact .absent hp

lemma Working.fill (h : Working m₀ m) {s : ℕ}
    (ht : t ∈ freeSet m₀) (htm : t ∉ freeSet m) (hz : ∀ j, m.mem t j = 0)
    (hca : ∑ j ∈ Finset.range 512, tablesFor m₀.mem n (m₀.mem s j) ≤ (freeSet m).card)
    (hb : ∀ j m', j < 512 → Working m₀ m' → t ∉ freeSet m' → m'.mem t j = 0 →
      tablesFor m₀.mem n (m₀.mem s j) ≤ (freeSet m').card →
      CopyRound m₀ n (m₀.mem s j) t j m' (body j m')) :
    let m' := Loop.each body (range 512) m
    Pmm.Good m'.pmm ∧ Keeps t m m' ∧
      (freeSet m').card + ∑ j ∈ Finset.range 512, tablesFor m₀.mem n (m₀.mem s j) =
        (freeSet m).card ∧
      ∀ j, j < 512 → Copies m₀.mem m'.mem (fun g => g ∈ freeSet m ∧ g ∉ freeSet m') n
        (m₀.mem s j) (m'.mem t j) := by
  -- before round `k` the entries below `k` are copies and the others still zero
  let P : ℕ → Machine → Prop := fun k m' =>
    Pmm.Good m'.pmm ∧ Keeps t m m' ∧
      (freeSet m').card + ∑ j ∈ Finset.range k, tablesFor m₀.mem n (m₀.mem s j) = (freeSet m).card ∧
      (∀ j, k ≤ j → m'.mem t j = 0) ∧
      ∀ j, j < k → Copies m₀.mem m'.mem (fun g => g ∈ freeSet m ∧ g ∉ freeSet m') n
        (m₀.mem s j) (m'.mem t j)
  have hl : P 512 (Loop.each body (range 512) m) := by
    refine Loop.each_range P ?_ ?_
    · refine ⟨h.pmm, Keeps.refl t m, by simp, fun j _ => hz j, fun j hj => ?_⟩
      exact absurd hj (Nat.not_lt_zero j)
    rintro k m' hk ⟨hgo, hke, hc, hr, hd⟩
    have hle : ∑ j ∈ Finset.range (k + 1), tablesFor m₀.mem n (m₀.mem s j) ≤
        ∑ j ∈ Finset.range 512, tablesFor m₀.mem n (m₀.mem s j) :=
      Finset.sum_le_sum_of_subset (Finset.range_subset_range.mpr hk)
    rw [Finset.sum_range_succ] at hle
    obtain ⟨hgo', hke', hent, hc', hco⟩ := hb k m' hk (h.keep hke ht hgo)
      (fun hmem => htm (hke.1 hmem)) (hr k (Nat.le_refl k)) (by omega)
    refine ⟨hgo', hke.trans hke', ?_, fun j hj => ?_, fun j hj => ?_⟩
    · rw [Finset.sum_range_succ]
      omega
    · rw [hent j (by omega)]
      exact hr j (by omega)
    by_cases hjk : j = k
    · subst hjk
      exact hco.mono fun g hg => ⟨⟨hke.1 hg.1, hg.2⟩, rfl⟩
    -- a copy made earlier: its frames are neither free nor the table itself
    rw [hent j hjk]
    refine (hd j (by omega)).mono fun g hg => ⟨⟨hg.1, fun hg' => hg.2 (hke'.1 hg')⟩, ?_⟩
    refine hke'.2 g hg.2 ?_
    rintro rfl
    exact htm hg.1
  exact ⟨hl.1, hl.2.1, hl.2.2.1, hl.2.2.2.2⟩

lemma Working.attach_fill (h : Working m₀ m)
    (ht : t ∈ freeSet m₀) (htm : t ∉ freeSet m) (hp : present e = true) (hh : huge e = false)
    (ha : Attached m f (fun _ => 0) t i (copyLink f e) m')
    (hca : tablesFor m₀.mem (n + 1) e ≤ (freeSet m).card)
    (hb : ∀ j m', j < 512 → Working m₀ m' → f ∉ freeSet m' → m'.mem f j = 0 →
      tablesFor m₀.mem n (m₀.mem (pteFrame e) j) ≤ (freeSet m').card →
      CopyRound m₀ n (m₀.mem (pteFrame e) j) f j m' (body j m')) :
    CopyRound m₀ (n + 1) e t i m (Loop.each body (List.range 512) m') := by
  have hft : f ≠ t := by
    rintro rfl
    exact htm ha.fresh
  have hfm : f ∉ freeSet m' := by
    rw [ha.free]
    exact Finset.notMem_erase f _
  have htm' : t ∉ freeSet m' := fun hmem => htm (ha.keeps.1 hmem)
  have hsum : tablesFor m₀.mem (n + 1) e =
      1 + ∑ j ∈ Finset.range 512, tablesFor m₀.mem n (m₀.mem (pteFrame e) j) := by
    rw [tablesFor, if_pos hp, hh]
    rfl
  have hone := ha.card
  obtain ⟨hgo, hk, hco, hc⟩ := (h.keep ha.keeps ht ha.pmm).fill
    (h.free ha.fresh) hfm (fun j => by rw [ha.words]) (by omega) hb
  -- the rounds write fresh frames and the new table, so the link stays
  have hl : (Loop.each body (range 512) m').mem t = m'.mem t := hk.2 t htm' hft.symm
  refine ⟨hgo, ⟨hk.1.trans ha.keeps.1, fun g hg hgt => ?_⟩, fun j hj => ?_, ?_, ?_⟩
  · have hgf : g ≠ f := by
      rintro rfl
      exact hg ha.fresh
    rw [hk.2 g (fun hmem => hg (ha.keeps.1 hmem)) hgf, ha.others g hgf hgt]
  · rw [hl, ha.entries j hj]
  · omega
  rw [hl, ha.entry]
  refine .table hp hh ha.small ⟨ha.fresh, fun hmem => hfm (hk.1 hmem)⟩ fun j hj => ?_
  exact (hc j hj).mono fun g hg => ⟨⟨ha.keeps.1 hg.1, hg.2⟩, rfl⟩

lemma Attached.copyRound (ha : Attached m f words t i (copyLink f e) m')
    (hp : present e = true) (hsrc : Source m₀.mem (freeSet m₀) 1 e)
    (hw : words = if huge e then cloneSplit e else m₀.mem (pteFrame e)) :
    CopyRound m₀ 1 e t i m m' := by
  have hn : tablesFor m₀.mem 1 e = 1 := by simp [tablesFor, hp]
  have hown : f ∈ freeSet m ∧ f ∉ freeSet m' := by
    refine ⟨ha.fresh, ?_⟩
    rw [ha.free]
    exact Finset.notMem_erase f _
  refine ⟨ha.pmm, ha.keeps, ha.entries, ?_, ?_⟩
  · rw [hn]
    exact ha.card
  rw [ha.entry]
  have ht : m'.mem f = if huge e then cloneSplit e else m₀.mem (pteFrame e) :=
    ha.words.trans hw
  cases hh : huge e with
  | true =>
    refine .split hp hh ((hsrc hp).1 hh).2 ha.small hown fun j _ => ?_
    rw [ht, if_pos hh]
  | false =>
    refine .table hp hh ha.small hown fun j _ => ?_
    rw [ht, hh]
    exact .leaf _

lemma cloneEntry_round (h : Working m₀ m) (hz : 0 ∉ freeSet m₀) {srcPd newPd i2 : ℕ}
    (hs : srcPd ∉ freeSet m₀) (hsrc : Source m₀.mem (freeSet m₀) 1 (m₀.mem srcPd i2))
    (hn : newPd ∈ freeSet m₀) (hnm : newPd ∉ freeSet m) (hze : m.mem newPd i2 = 0)
    (hc : tablesFor m₀.mem 1 (m₀.mem srcPd i2) ≤ (freeSet m).card) :
    CopyRound m₀ 1 (m₀.mem srcPd i2) newPd i2 m (cloneEntry srcPd newPd i2 m) := by
  have he : m.mem srcPd i2 = m₀.mem srcPd i2 := by rw [h.kernel srcPd hs]
  unfold cloneEntry
  dsimp only
  cases hp : present (m₀.mem srcPd i2) with
  | false =>
    rw [he, hp, if_pos Bool.not_false]
    exact CopyRound.absent h.pmm hp hze
  | true =>
    have hne : tablesFor m₀.mem 1 (m₀.mem srcPd i2) = 1 := by simp [tablesFor, hp]
    obtain ⟨p, f, heq, hatt⟩ := h.alloc hz (by omega)
    have ha := fun words => hatt newPd i2 words (copyLink f (m₀.mem srcPd i2)) hnm
    rw [child, he, hp, heq, if_neg (by simp)]
    dsimp only
    cases hh : huge (m₀.mem srcPd i2) with
    | true =>
      rw [if_pos rfl, fillFrame_fillFrame]
      exact (ha (cloneSplit (m₀.mem srcPd i2))).copyRound hp hsrc (by rw [if_pos hh])
    | false =>
      have hf : f ∈ freeSet m := (ha fun _ => 0).fresh
      have hfn : f ≠ newPd := by
        rintro rfl
        exact hnm hf
      have hpt : pteFrame (m₀.mem srcPd i2) ∉ freeSet m₀ := ((hsrc hp).2 hh).1
      -- the kernel's page table is read after the new one was linked
      have hr : ∀ e, (writeEntry (fillFrame { m with pmm := p } f fun _ => 0) newPd i2 e).mem
          (pteFrame (m₀.mem srcPd i2)) = m₀.mem (pteFrame (m₀.mem srcPd i2)) := by
        intro e
        rw [← h.read hf p (fun _ => 0) hpt]
        refine update_of_ne ?_ _ _
        exact fun heq => hpt (heq ▸ hn)
      rw [if_neg (by simp), h.read hf p _ hs, hr, fillFrame_writeEntry hfn, ← copyLink_of_flat hh]
      exact (ha _).copyRound hp hsrc (by rw [hh]; rfl)

lemma cloneDirectory_round (h : Working m₀ m) (hz : 0 ∉ freeSet m₀) {srcPdp newPdp i3 : ℕ}
    (hs : srcPdp ∉ freeSet m₀) (hsrc : Source m₀.mem (freeSet m₀) 2 (m₀.mem srcPdp i3))
    (hn : newPdp ∈ freeSet m₀) (hnm : newPdp ∉ freeSet m) (hze : m.mem newPdp i3 = 0)
    (hc : tablesFor m₀.mem 2 (m₀.mem srcPdp i3) ≤ (freeSet m).card) :
    CopyRound m₀ 2 (m₀.mem srcPdp i3) newPdp i3 m (cloneDirectory srcPdp newPdp i3 m) := by
  have he : m.mem srcPdp i3 = m₀.mem srcPdp i3 := by rw [h.kernel srcPdp hs]
  unfold cloneDirectory
  dsimp only
  cases hp : present (m₀.mem srcPdp i3) with
  | false =>
    rw [he, hp, if_pos Bool.not_false]
    exact CopyRound.absent h.pmm hp hze
  | true =>
    have hh := hsrc.flat hp
    obtain ⟨p, f, heq, hatt⟩ := h.alloc hz ((tablesFor_pos hp).trans_le hc)
    have ha := hatt newPdp i3 (fun _ => 0) (copyLink f (m₀.mem srcPdp i3)) hnm
    obtain ⟨hpd, hsub⟩ := (hsrc hp).2 hh
    rw [child, he, hp, heq, hh, if_neg (by simp), if_neg (by simp)]
    dsimp only
    rw [h.read ha.fresh p _ hs, ← copyLink_of_flat hh]
    refine h.attach_fill hn hnm hp hh ha hc fun j m' hj h' hf' hze' hc' => ?_
    exact cloneEntry_round h' hz hpd (hsub j hj) (h.free ha.fresh) hf' hze' hc'

lemma cloneLower_round (h : Working m₀ m) (hz : 0 ∉ freeSet m₀) {np : ℕ}
    (hpml4 : m.pml4 = m₀.pml4) (hs : m₀.pml4 ∉ freeSet m₀)
    (hsrc : Source m₀.mem (freeSet m₀) 3 (m₀.mem m₀.pml4 0))
    (hn : np ∈ freeSet m₀) (hnm : np ∉ freeSet m) (hze : m.mem np 0 = 0)
    (hc : tablesFor m₀.mem 3 (m₀.mem m₀.pml4 0) ≤ (freeSet m).card) :
    CopyRound m₀ 3 (m₀.mem m₀.pml4 0) np 0 m (cloneLower m np) := by
  have he : m.mem m.pml4 0 = m₀.mem m₀.pml4 0 := by rw [hpml4, h.kernel _ hs]
  unfold cloneLower
  dsimp only
  cases hp : present (m₀.mem m₀.pml4 0) with
  | false =>
    rw [he, hp, if_pos Bool.not_false]
    exact CopyRound.absent h.pmm hp hze
  | true =>
    have hh := hsrc.flat hp
    obtain ⟨p, f, heq, hatt⟩ := h.alloc hz ((tablesFor_pos hp).trans_le hc)
    have ha := hatt np 0 (fun _ => 0) (copyLink f (m₀.mem m₀.pml4 0)) hnm
    obtain ⟨hpdp, hsub⟩ := (hsrc hp).2 hh
    rw [child, he, hp, heq, if_neg (by simp)]
    change CopyRound m₀ 3 _ np 0 m (Loop.each _ _ (writeEntry _ np 0
      (_ ||| (fillFrame { m with pmm := p } f fun _ => 0).mem m.pml4 0 &&& _ ||| _)))
    have hr : (fillFrame { m with pmm := p } f fun _ => 0).mem m.pml4 0 = m₀.mem m₀.pml4 0 := by
      rw [h.read ha.fresh p _ (by rwa [hpml4]), hpml4]
    rw [hr, ← copyLink_of_flat hh]
    refine h.attach_fill hn hnm hp hh ha hc fun j m' hj h' hf' hze' hc' => ?_
    exact cloneDirectory_round h' hz hpdp (hsub j hj) (h.free ha.fresh) hf' hze' hc'

end Rounds

/-- A kernel whose tree the clone can copy as it is. The tables are in use, nothing is mapped below
the directory's entries 1 to 255; below entry 0 there are no 1 GB pages, the 2 MB pages lie on their
borders, and there are frames for all the tables. -/
structure Clonable (m : Machine) : Prop where
  pmm : Pmm.Good m.pmm
  nonnull : 0 ∉ freeSet m
  used : ∀ path t, FullPath path → descend linkNext m.mem m.pml4 path = some t → t ∉ freeSet m
  lower : ∀ v, 0 < pml4I v → pml4I v < 256 → translationOf v (walkOf m m.pml4 v) = none
  giant : ∀ v, pml4I v = 0 → NoGiant (walkOf m m.pml4 v)
  aligned : ∀ v, pml4I v = 0 → Aligned (walkOf m m.pml4 v)
  enough : 1 + tablesFor m.mem 3 (m.mem m.pml4 0) ≤ (freeSet m).card

section Clone

variable {m m' : Machine} {np : ℕ}

lemma exists_indices (is : List ℕ) (hlen : is.length ≤ 4) (his : ∀ i ∈ is, i < 512) :
    ∃ v ys, indices v = is ++ ys := by
  have hs : ∀ k, is.getD k 0 < 512 := by
    intro k
    by_cases hk : k < is.length
    · rw [getD_eq_getElem _ _ hk]
      exact his _ (getElem_mem hk)
    rw [getD_eq_default _ _ (by omega)]
    decide
  have h0 := hs 0
  have h1 := hs 1
  have h2 := hs 2
  have h3 := hs 3
  have hv : indices (is.getD 0 0 * 2 ^ 39 + is.getD 1 0 * 2 ^ 30 + is.getD 2 0 * 2 ^ 21 +
      is.getD 3 0 * 2 ^ 12) = [is.getD 0 0, is.getD 1 0, is.getD 2 0, is.getD 3 0] := by
    simp only [indices, pml4I, pdpI, pdI, ptI, cons.injEq, and_true]
    omega
  refine ⟨_, replicate (4 - is.length) 0, hv.trans ?_⟩
  rcases is with _ | ⟨a, _ | ⟨b, _ | ⟨c, _ | ⟨d, _ | ⟨x, is⟩⟩⟩⟩⟩
  · rfl
  · rfl
  · rfl
  · rfl
  · rfl
  simp only [length_cons] at hlen
  omega

lemma walkOf_getElem {root v t i : ℕ} {path ys : List ℕ}
    (ht : descend linkNext m.mem root path = some t) (hv : indices v = path ++ i :: ys) :
    (walkOf m root v)[path.length]? = some (m.mem t i) := by
  rw [walkOf_append ht hv, getElem?_append_right (by rw [trail_length ht]), trail_length ht,
    Nat.sub_self, trail]
  rfl

lemma Clonable.source_at (h : Clonable m) {t i : ℕ} {path : List ℕ}
    (ht : descend linkNext m.mem m.pml4 path = some t) (hlen : path.length + n = 3)
    (hi : ∀ k ∈ path ++ [i], k < 512) (hlow : (path ++ [i]).head? = some 0) :
    Source m.mem (freeSet m) n (m.mem t i) := by
  induction n generalizing path t i with
  | zero => trivial
  | succ n ih =>
    intro hp
    have hlen' : (path ++ [i]).length + n = 3 := by
      rw [length_append, length_singleton]
      omega
    obtain ⟨v, ys, hv⟩ := exists_indices (path ++ [i]) (by omega) hi
    have hv' : indices v = path ++ i :: ys := by rw [hv, append_assoc, singleton_append]
    have hv0 : pml4I v = 0 := by
      have hhe := congrArg head? hv
      rw [head?_append, hlow] at hhe
      exact some.inj hhe
    have hr := walkOf_getElem ht hv'
    refine ⟨fun hh => ?_, fun hh => ?_⟩
    · -- a size bit is only met in a page directory
      have hd : 2 ≤ path.length := by
        by_contra hs
        have hf : huge (m.mem t i) = false := by
          refine h.giant v hv0 _ (mem_of_getElem? (i := path.length) ?_) hp
          rw [getElem?_take_of_lt (by omega), hr]
        rw [hh] at hf
        cases hf
      have htwo : path.length = 2 := by omega
      exact ⟨by omega, h.aligned v hv0 _ (htwo ▸ hr) hp hh⟩
    have hn : descend linkNext m.mem m.pml4 (path ++ [i]) = some (pteFrame (m.mem t i)) := by
      rw [descend_snoc, ht, bind_some, linkNext_link hp hh]
    refine ⟨h.used _ _ ⟨by omega, hi⟩ hn, fun j hj => ih hn hlen' ?_ ?_⟩
    · intro k hk
      rcases mem_append.mp hk with hk | hk
      · exact hi k hk
      rw [mem_singleton.mp hk]
      exact hj
    rw [head?_append, hlow]
    rfl

lemma walkOf_eq (m : Machine) (r v : ℕ) : walkOf m r v = m.mem r (pml4I v) ::
    (linkNext (m.mem r (pml4I v))).elim [] fun u =>
      trail linkNext m.mem u [pdpI v, pdI v, ptI v] := rfl

lemma walkOf_shared (hu : ∀ path t, FullPath path →
      descend linkNext m.mem m.pml4 path = some t → t ∉ freeSet m)
    (hw : Working m m') {v : ℕ} (hnp : m'.mem np (pml4I v) = m.mem m.pml4 (pml4I v)) :
    walkOf m' np v = walkOf m m.pml4 v := by
  rw [walkOf_eq, walkOf_eq, hnp]
  cases hn : linkNext (m.mem m.pml4 (pml4I v)) with
  | none => rfl
  | some u =>
    rw [elim_some, elim_some]
    refine congrArg _ (trail_congr fun xs k ys w hs hw' => ?_)
    have hp : indices v = (pml4I v :: xs) ++ k :: ys := by
      rw [indices, hs, cons_append]
    refine congrFun (hw.kernel w (hu (pml4I v :: xs) w ?_ ?_)) k
    · exact fullPath_of_append v hp (by simp)
    rw [descend, hn]
    exact hw'

lemma cloneKernelDir_start (hgo : Pmm.Good m.pmm) (hz : 0 ∉ freeSet m)
    (hc : 0 < (freeSet m).card) (hs : m.pml4 ∉ freeSet m) :
    ∃ m1 np, krustPagingCloneKernelDir m = (cloneLower m1 np, some np) ∧ Working m m1 ∧
      m1.pml4 = m.pml4 ∧ np ∈ freeSet m ∧ freeSet m1 = (freeSet m).erase np ∧
      ∀ i, m1.mem np i = if 256 ≤ i then m.mem m.pml4 i else 0 := by
  have hw : Working m m := ⟨hgo, Finset.Subset.refl _, fun _ _ => rfl⟩
  obtain ⟨p, f, heq, hatt⟩ := hw.alloc hz hc
  have ha := hatt m.pml4 0 (fun _ => 0) 0 hs
  have hr : ∀ words, (fillFrame { m with pmm := p } f words).mem m.pml4 = m.mem m.pml4 :=
    fun words => hw.read ha.fresh p words hs
  unfold krustPagingCloneKernelDir
  rw [heq]
  dsimp only
  rw [fillFrame_fillFrame]
  refine ⟨_, f, rfl, ⟨ha.pmm, ha.free ▸ Finset.erase_subset _ _, fun g hg => hw.read ha.fresh p _ hg⟩,
    rfl, ha.fresh, ha.free, fun i => ?_⟩
  change update m.mem f _ f i = _
  rw [update_self]
  by_cases hi : 256 ≤ i
  · rw [if_pos hi, if_pos hi]
    exact congrFun (hr _) i
  rw [if_neg hi, if_neg hi]
  change update m.mem f _ f i = _
  rw [update_self]

lemma translationOf_absent {v t : ℕ} (hp : present (m.mem t (pml4I v)) = false) :
    translationOf v (walkOf m t v) = none := by
  rw [walkOf_eq, linkNext_absent hp]
  rfl

lemma Clonable.translates (h : Clonable m) :
    ∃ m' np, krustPagingCloneKernelDir m = (m', some np) ∧
      ∀ v, translationOf v (walkOf m' np v) = translationOf v (walkOf m m.pml4 v) := by
  have hs : m.pml4 ∉ freeSet m := h.used [] m.pml4 ⟨by simp, by simp⟩ rfl
  have hen := h.enough
  obtain ⟨m1, np, heq, hw, hpml4, hnp, hf, hwo⟩ :=
    cloneKernelDir_start h.pmm h.nonnull (by omega) hs
  have hone := Finset.card_erase_add_one hnp
  have hnp1 : np ∉ freeSet m1 := by
    rw [hf]
    exact Finset.notMem_erase np _
  have hro : descend linkNext m.mem m.pml4 [] = some m.pml4 := rfl
  have hr := cloneLower_round hw h.nonnull hpml4 hs (h.source_at hro rfl (by simp) rfl) hnp
    hnp1 (by rw [hwo, if_neg (by decide)]) (by rw [hf]; omega)
  have hw' : Working m (cloneLower m1 np) := hw.keep hr.keeps hnp hr.pmm
  refine ⟨cloneLower m1 np, np, heq, fun v => ?_⟩
  have he : ∀ i, i ≠ 0 → (cloneLower m1 np).mem np i = if 256 ≤ i then m.mem m.pml4 i else 0 := by
    intro i hi
    rw [hr.entries i hi, hwo]
  by_cases hlow : pml4I v = 0
  · -- entry 0: the deep copy
    rw [walkOf_eq, walkOf_eq, hlow]
    exact (hr.copied.mirrors rfl (fun i hi => indices_lt v i (mem_cons_of_mem _ hi))
      (by simp)).translationOf_eq List.Forall₂.nil rfl
  by_cases hh : 256 ≤ pml4I v
  · -- the upper half: the same tables
    rw [walkOf_shared h.used hw']
    rw [he _ hlow, if_pos hh]
  -- entries 1 to 255: nothing on either side
  rw [h.lower v (by omega) (by omega), translationOf_absent]
  rw [he _ hlow, if_neg hh]
  exact present_zero

/-- Where the kernel's tree can be copied and there is memory for it, the clone translates every
address as the kernel does. The null pointer comes back only if not even the directory could be
taken, whatever happens further down. -/
theorem clone_translates (hgood : Pmm.Good m.pmm) (hz : 0 ∉ freeSet m) (hs : m.pml4 ∉ freeSet m) :
    (Clonable m → ∃ m' np, krustPagingCloneKernelDir m = (m', some np) ∧
      ∀ v, translationOf v (walkOf m' np v) = translationOf v (walkOf m m.pml4 v)) ∧
    ((krustPagingCloneKernelDir m).2 = none ↔ freeSet m = ∅) ∧
    (freeSet m = ∅ → krustPagingCloneKernelDir m = (m, none)) := by
  have he : freeSet m = ∅ → krustPagingCloneKernelDir m = (m, none) := by
    intro hn
    rcases tableAlloc_cases hgood with ⟨heq, -⟩ | ⟨p, f, hf, -⟩
    · rw [krustPagingCloneKernelDir, heq]
    rw [hn] at hf
    simp at hf
  refine ⟨Clonable.translates, ⟨fun hnu => ?_, fun hn => by rw [he hn]⟩, he⟩
  by_contra hne
  obtain ⟨m1, np, heq, -⟩ := cloneKernelDir_start hgood hz
    (Finset.card_pos.mpr (Finset.nonempty_iff_ne_empty.mpr hne)) hs
  rw [heq] at hnu
  cases hnu

end Clone

lemma tablesFor_first (hp : present e = true)
    (hh : huge e = false) (hr : ∀ i, i ≠ 0 → present (src (pteFrame e) i) = false) :
    tablesFor src (n + 2) e = 1 + tablesFor src (n + 1) (src (pteFrame e) 0) := by
  rw [tablesFor, if_pos hp, hh]
  refine congrArg (1 + ·) (Finset.sum_eq_single 0 (fun i _ hi => ?_) (by simp))
  simp [tablesFor, hr i hi]

lemma smallMachine_clonable : Clonable (smallMachine 0x200087#64 0) := by
  have htr : Tree 1 smallPlace (smallMachine 0x200087#64 0) := smallMachine_tree (.inl (by decide))
  have hr : ∀ t i, i ≠ 0 → (smallMachine 0x200087#64 0).mem t i = 0#64 := by
    intro t i hi
    simp [smallMachine, hi]
  refine ⟨smallPmm_good, by decide, fun path t hp ht => htr.used t _ (htr.place_table hp ht),
    fun v hv _ => translationOf_absent ?_, fun v _ => smallMachine_noGiant _ _ v, fun v _ => ?_, ?_⟩
  · rw [show (smallMachine 0x200087#64 0).pml4 = 1 from rfl, hr 1 _ (by omega)]
    exact present_zero
  · intro x hx _ hh
    obtain ⟨u, i, rfl⟩ := exists_of_mem_trail (mem_of_getElem? hx)
    revert hh
    unfold smallMachine
    dsimp only
    split_ifs <;> decide
  have htwo : tablesFor (smallMachine 0x200087#64 0).mem 3 ((smallMachine 0x200087#64 0).mem 1 0) =
      1 + (1 + tablesFor (smallMachine 0x200087#64 0).mem 1 0x200087#64) := by
    rw [show (smallMachine 0x200087#64 0).mem 1 0 = 0x2007#64 from rfl,
      tablesFor_first (by decide) (by decide) fun i hi => ?_,
      show (smallMachine 0x200087#64 0).mem (pteFrame 0x2007#64) 0 = 0x3007#64 by decide,
      tablesFor_first (by decide) (by decide) fun i hi => ?_,
      show (smallMachine 0x200087#64 0).mem (pteFrame 0x3007#64) 0 = 0x200087#64 by decide]
    · rw [hr _ i hi]
      exact present_zero
    rw [hr _ i hi]
    exact present_zero
  rw [show (smallMachine 0x200087#64 0).pml4 = 1 from rfl, htwo,
    show tablesFor (smallMachine 0x200087#64 0).mem 1 0x200087#64 = 1 by
      rw [tablesFor, if_pos (by decide), if_pos (by decide)]]
  decide

theorem clone_translates_split :
    ∃ m' np, krustPagingCloneKernelDir (smallMachine 0x200087#64 0) = (m', some np) ∧
      translationOf 0x3000 (walkOf m' np 0x3000) = some (0x203000#64, ⟨true, true, false, 7#64⟩) := by
  obtain ⟨m', np, heq, hv⟩ := (clone_translates (m := smallMachine 0x200087#64 0)
    smallMachine_clonable.pmm (by decide) (by decide)).1 smallMachine_clonable
  refine ⟨m', np, heq, (hv 0x3000).trans ?_⟩
  decide

/-- The page at 0x5000 is in frame 9, and frame 8 is the only free one. -/
def shortMachine : Machine :=
  { smallMachine 0x4007#64 0x9003#64 with
    pmm := ⟨fun a => if a = 0x101 then 0xFE#8 else 0xFF#8, 0x100, 2, 16, 8⟩ }

/-- The same tables below entry 1 of the directory, with frames enough. -/
def secondMachine : Machine :=
  { smallMachine 0x4007#64 0x9003#64 with
    mem := fun t i =>
      if t = 1 then if i = 1 then 0x2007#64 else 0#64 else (smallMachine 0x4007#64 0x9003#64).mem t i }

/-- With one frame the clone is a directory without the kernel's page, and is returned. The pages
below the entries 1 to 255 of the directory are gone in every case. -/
theorem clone_loses_mappings :
    ((krustPagingCloneKernelDir shortMachine).2 = some 8 ∧
      translationOf 0x5000 (walkOf shortMachine 1 0x5000) =
        some (0x9000#64, ⟨true, false, false, 3#64⟩) ∧
      translationOf 0x5000 (walkOf (krustPagingCloneKernelDir shortMachine).1 8 0x5000) = none) ∧
    (krustPagingCloneKernelDir secondMachine).2 = some 8 ∧
      translationOf 0x8000005000 (walkOf secondMachine 1 0x8000005000) =
        some (0x9000#64, ⟨true, false, false, 3#64⟩) ∧
      translationOf 0x8000005000 (walkOf (krustPagingCloneKernelDir secondMachine).1 8 0x8000005000) =
        none := by
  decide

end Elitra.Paging
