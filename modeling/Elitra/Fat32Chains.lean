import Elitra.Fat32Law
import Mathlib.Data.Finset.Card
import Mathlib.Data.Finset.Range
import Mathlib.Logic.Relation

namespace Elitra.Fat32
open Relation StateRun

section Files
open List

variable {g : Instance} {v v' : Vol} {c dir fuel : ℕ} {l : List ℕ} {entry data : List Byte}
  {name : Name} {r : ℤ} {b : Bool}

/-- The clusters `file` are a chain that begins with the data. -/
def HoldsFile (g : Instance) (d : Disk) (file : List ℕ) (data : List Byte) : Prop :=
  Chained g d.fat file ∧ (content g d file).take data.length = data

/-- In the directory with the clusters `l` there is an entry for the file, whose chain holds it. -/
def Stored (g : Instance) (d : Disk) (l : List ℕ) (name : Name) (data : List Byte) : Prop :=
  ∃ p ∈ places g l, ∃ first t,
    d.row p = makeEntry (krustFat32NameToSfn name) attrArchive first data.length ∧
      (data ≠ [] → HoldsFile g d (first :: t) data)

end Files

section Erase

variable {α : Type} {r r' : α → α → Prop} {a b c : α}

/-- Where a walk from `a` gets if `a` has one edge, in terms of the graph without that edge. -/
lemma reflTransGen_erase (hab : r a b) (ho : ∀ y, r a y → y = b)
    (hr' : ∀ x y, r' x y ↔ x ≠ a ∧ r x y) :
    ReflTransGen r a c ↔ c = a ∨ ReflTransGen r' b c := by
  constructor
  · intro h
    induction h with
    | refl => exact .inl rfl
    | @tail x y _ hxy ih =>
      by_cases hx : x = a
      · rw [ho y (hx ▸ hxy)]
        exact .inr .refl
      · exact .inr ((ih.resolve_left hx).tail ((hr' x y).mpr ⟨hx, hxy⟩))
  rintro (rfl | h)
  · exact .refl
  · exact .head hab (h.lift id fun x y hxy => ((hr' x y).mp hxy).2)

end Erase

section Free
open Classical Finset

variable {g : Instance} {v : Vol} {c n : ℕ}

/-- In a FAT of `n` entries, that of `c` names the cluster `d`. -/
def Link (g : Instance) (f : ℕ → Byte) (n c d : ℕ) : Prop :=
  c < n ∧ fatEntry g f c = d ∧ isEnd d = false

/-- The first `n` entries are free, end marks or clusters among them. -/
def InRange (g : Instance) (f : ℕ → Byte) (n : ℕ) : Prop :=
  ∀ c < n, fatEntry g f c = fat32Free ∨ fat32Eoc ≤ fatEntry g f c ∨
    2 ≤ fatEntry g f c ∧ fatEntry g f c < n

/-- A FAT of up to `fat32Eoc` entries is one block of bytes; `first_fat_sector` is 16 bits wide. -/
lemma fatOffset_linear (hf : g.firstFatSector < 2 ^ 16) (hc : c < fat32Eoc) :
    fatOffset g c = g.firstFatSector * g.bytesPerSector + c * 4 := by
  unfold fat32Eoc at hc
  have hle := Nat.div_le_self (c * 4) g.bytesPerSector
  unfold fatOffset fatSector
  rw [Nat.mod_eq_of_lt (show c * 4 < 2 ^ 32 by omega), Nat.mod_eq_of_lt (by omega), Nat.add_mul,
    Nat.add_assoc, Nat.div_add_mod']

def used (g : Instance) (f : ℕ → Byte) (n : ℕ) : Finset ℕ :=
  (range n).filter fun d => fatEntry g f d ≠ 0

-- every round frees a cluster in use, so what it has erased is not met again
lemma freeChain_walk (hb : g.bytesPerSector ≠ 0) (hf : g.firstFatSector < 2 ^ 16)
    (hn : n ≤ fat32Eoc) (fuel : ℕ) (ht : InRange g v.byte n) (hc : c < n)
    (hfu : (used g v.byte n).card < fuel) :
    ∃ v', krustFat32FreeChain g fuel c v = some (⟨⟩, v') ∧ ∀ d < n,
      le32 v'.byte (fatOffset g d) = if ReflTransGen (Link g v.byte n) c d then
        le32 v.byte (fatOffset g d) / 2 ^ 28 * 2 ^ 28 else le32 v.byte (fatOffset g d) := by
  induction fuel generalizing v c with
  | zero => exact absurd hfu (Nat.not_lt_zero _)
  | succ fuel ih =>
    have hw : ∀ d < n, le32 (v.setFat g c fat32Free).byte (fatOffset g d) =
        if d = c then le32 v.byte (fatOffset g d) / 2 ^ 28 * 2 ^ 28
        else le32 v.byte (fatOffset g d) := by
      intro d hd
      rw [le32_setFat, show fat32Free % 2 ^ 28 = 0 from rfl, Nat.add_zero]
      rw [fatOffset_linear hf (hd.trans_le hn), fatOffset_linear hf (hc.trans_le hn)]
      omega
    have hen : ∀ d < n, fatEntry g (v.setFat g c fat32Free).byte d =
        if d = c then 0 else fatEntry g v.byte d := by
      intro d hd
      unfold fatEntry
      rw [hw d hd]
      split
      · omega
      · rfl
    rw [krustFat32FreeChain, getFat_bind hb, setFat_bind hb]
    cases hend : isEnd (fatEntry g v.byte c) with
    | true =>
      have hr : ∀ d, ReflTransGen (Link g v.byte n) c d ↔ d = c := by
        refine fun d => ⟨fun h => ?_, fun h => h ▸ .refl⟩
        rcases h.cases_head with heq | ⟨e, ⟨-, rfl, he⟩, -⟩
        · exact heq.symm
        rw [hend] at he
        cases he
      refine ⟨_, rfl, fun d hd => ?_⟩
      simp only [hw d hd, hr]
    | false =>
      have hnx := ht c hc
      have hbo : fatEntry g v.byte c ≠ 0 ∧ fatEntry g v.byte c < n := by
        simp only [isEnd, Bool.or_eq_false_iff, decide_eq_false_iff_not, fat32Free] at hend hnx
        omega
      have ht' : InRange g (v.setFat g c fat32Free).byte n := by
        intro d hd
        rw [hen d hd]
        split
        · exact .inl rfl
        · exact ht d hd
      have hsub : used g (v.setFat g c fat32Free).byte n ⊆ (used g v.byte n).erase c := by
        intro d hd
        obtain ⟨hd, hne⟩ := mem_filter.mp hd
        rw [hen d (mem_range.mp hd)] at hne
        obtain ⟨hdc, hne⟩ := ite_ne_left_iff.mp hne
        exact mem_erase.mpr ⟨hdc, mem_filter.mpr ⟨hd, hne.symm⟩⟩
      have hmem : c ∈ used g v.byte n := mem_filter.mpr ⟨mem_range.mpr hc, hbo.1⟩
      have hl := (card_le_card hsub).trans_lt (card_erase_lt_of_mem hmem)
      obtain ⟨v', hrun, hs⟩ := ih ht' hbo.2 (by omega)
      refine ⟨v', hrun, fun d hd => ?_⟩
      have hr : ReflTransGen (Link g v.byte n) c d ↔ d = c ∨
          ReflTransGen (Link g (v.setFat g c fat32Free).byte n) (fatEntry g v.byte c) d := by
        refine reflTransGen_erase ⟨hc, rfl, hend⟩ (fun y hy => hy.2.1.symm) fun x y => ⟨?_, ?_⟩
        · rintro ⟨hx, rfl, hy⟩
          rw [hen x hx] at hy ⊢
          split at hy
          · cases hy
          rename_i hxc
          rw [if_neg hxc]
          exact ⟨hxc, hx, rfl, hy⟩
        rintro ⟨hxc, hx, rfl, hy⟩
        exact ⟨hx, by rw [hen x hx, if_neg hxc], hy⟩
      rw [hs d hd, hw d hd]
      simp only [hr]
      by_cases hdc : d = c
      · simp only [hdc, true_or, if_true]
        split <;> omega
      · simp only [hdc, false_or, if_false]

/-- From every cluster, along every structure of links, `krust_fat32_free_chain` ends; it frees what
can be reached, and the upper four bits of all entries and the other entries stay. -/
theorem freeChain_frees_reachable (g : Instance) (hb : g.bytesPerSector ≠ 0)
    (hf : g.firstFatSector < 2 ^ 16) (n : ℕ) (hn : n ≤ fat32Eoc) (v : Vol)
    (htable : InRange g v.byte n) (start : ℕ) (hs : start < n) :
    ∃ v', krustFat32FreeChain g (n + 1) start v = some (⟨⟩, v') ∧ ∀ c < n,
      le32 v'.byte (fatOffset g c) = if ReflTransGen (Link g v.byte n) start c then
        le32 v.byte (fatOffset g c) / 2 ^ 28 * 2 ^ 28 else le32 v.byte (fatOffset g c) := by
  apply freeChain_walk hb hf hn (n + 1) htable hs
  exact Nat.lt_succ_of_le ((card_filter_le _ _).trans (card_range n).le)

/-- The image `tinyImage` with an entry that is not `D` in the root directory, whose chain is a loop. -/
def loopImage : ℕ → Byte := fun i =>
  if i = 128 then 65 else if i = 72 then 2 else if i = 73 ∨ i = 74 ∨ i = 75 then 0 else tinyImage i

theorem freeChain_frees_reachable_loop :
    ∃ v', krustFat32FreeChain tiny 7 2 (mounted loopImage) = some (⟨⟩, v') ∧
      le32 v'.byte (fatOffset tiny 2) = 0 := by
  obtain ⟨v', hrun, hs⟩ := freeChain_frees_reachable tiny (by decide) (by decide) 6 (by decide)
    (mounted loopImage) (by unfold InRange; decide +kernel) 2 (by decide)
  exact ⟨v', hrun, ((hs 2 (by decide)).trans (if_pos .refl)).trans (by decide +kernel)⟩

end Free

end Elitra.Fat32
