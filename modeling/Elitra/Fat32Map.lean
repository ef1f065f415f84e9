import Elitra.Fat32Spec

namespace Elitra.Fat32
open Function List StateRun

/-- What a name stands for: the bytes of a file, or a directory with its first cluster. -/
inductive Item where
  | file (data : List Byte)
  | dir (first : ℕ)
  deriving DecidableEq

/-- The items of each directory, by the eleven bytes of a name. -/
abbrev Map := ℕ → List Byte → Option Item

/-- The same with the place of each entry. -/
abbrev Table := ℕ → List Byte → Option (Place × Item)

def assign {α : Type} (T : ℕ → List Byte → Option α) (a : ℕ) (n : List Byte) (x : Option α) :
    ℕ → List Byte → Option α := fun b m => if b = a ∧ m = n then x else T b m

variable {α : Type}

lemma assign_self (T : ℕ → List Byte → Option α) (a : ℕ) (n : List Byte)
    (x : Option α) : assign T a n x a n = x := if_pos ⟨rfl, rfl⟩

lemma assign_of_ne {T : ℕ → List Byte → Option α} {a b : ℕ} {n m : List Byte}
    {x : Option α} (h : ¬ (b = a ∧ m = n)) : assign T a n x b m = T b m := if_neg h

section Layout

variable (g : Instance)

/-- An entry of a file or a directory, other than `.` and `..`. -/
def Live (row : List Byte) : Prop :=
  headOf row ≠ 0 ∧ headOf row ≠ deleted ∧ headOf row ≠ dot ∧ attrOf row ≠ attrLfn

/-- The first clusters that `write_file` and the deleting functions free a chain at. -/
def HasChain (c : ℕ) : Prop := 2 ≤ c ∧ c < fat32Eoc

/-- The clusters that `size` bytes need. -/
def clustersFor (size : ℕ) : ℕ := (size + (g.bytesPerCluster - 1)) / g.bytesPerCluster

/-- The chain from `c` on holds the bytes of a file, and no cluster too many. -/
def Stores (d : Disk) (chain : ℕ → List ℕ) (c : ℕ) (data : List Byte) : Prop :=
  chain c ≠ [] ∧ (chain c).length = clustersFor g data.length ∧
    (content g d (chain c)).take data.length = data

/-- The entry `row` describes an item. `D` is the set of directories. -/
def Fits (d : Disk) (D : ℕ → Prop) (chain : ℕ → List ℕ) (row : List Byte) : Item → Prop
  | .file data => attrOf row &&& attrDirectory = 0 ∧ sizeOf row = data.length ∧
      ¬ D (dirGetCluster row) ∧ (data = [] → ¬ HasChain (dirGetCluster row)) ∧
      (data ≠ [] → Stores g d chain (dirGetCluster row) data)
  | .dir b => attrOf row &&& attrDirectory ≠ 0 ∧ dirGetCluster row = b ∧ D b

/-- The layout of a volume: chains, by their first cluster, that share no cluster; directories `D`
whose entries are those of the table. Chains that no entry names may be there as well. -/
structure Laid (d : Disk) (D : ℕ → Prop) (T : Table) (chain : ℕ → List ℕ) : Prop where
  linked : ∀ h, chain h ≠ [] → (∃ l, chain h = h :: l) ∧ Chained g d.fat (chain h)
  apart : ∀ h h' c, c ∈ chain h → c ∈ chain h' → h = h'
  root : D g.rootCluster
  dirs : ∀ a, D a → chain a ≠ []
  closed : ∀ a, D a → Closed g d (chain a)
  shown : ∀ a, D a → ∀ p ∈ places g (chain a), Live (d.row p) →
    ∃ it, T a (nameOf (d.row p)) = some (p, it)
  held : ∀ a n p it, T a n = some (p, it) → D a ∧ p ∈ places g (chain a) ∧ Live (d.row p) ∧
    nameOf (d.row p) = n ∧ dirGetCluster (d.row p) ≠ g.rootCluster ∧ Fits g d D chain (d.row p) it

/-- No two entries name the same chain. -/
def Owned (d : Disk) (T : Table) : Prop :=
  ∀ a n p it b m q jt, T a n = some (p, it) → T b m = some (q, jt) →
    HasChain (dirGetCluster (d.row p)) → dirGetCluster (d.row p) = dirGetCluster (d.row q) →
    a = b ∧ n = m

/-- No entry names the chain from `c` on. -/
def Detached (d : Disk) (T : Table) (c : ℕ) : Prop :=
  ∀ a n p it, T a n = some (p, it) → dirGetCluster (d.row p) ≠ c

end Layout

variable {q : Place} {x : ℕ} {l : List ℕ}

section Changes

variable {g : Instance} {d d' : Disk} {D : ℕ → Prop} {T : Table} {chain chain' : ℕ → List ℕ}
  {a b c : ℕ} {n : List Byte} {p : Place} {it : Item} {row : List Byte}

lemma row_congr (h : d'.blk q.1 = d.blk q.1) : d'.row q = d.row q := by
  unfold Disk.row
  rw [h]

lemma Fits.congr {D' : ℕ → Prop} (h : Fits g d D chain row it)
    (hD : D' (dirGetCluster row) ↔ D (dirGetCluster row))
    (hch : ¬ D (dirGetCluster row) → chain (dirGetCluster row) ≠ [] →
      chain' (dirGetCluster row) = chain (dirGetCluster row) ∧
        ∀ x ∈ chain (dirGetCluster row), d'.blk x = d.blk x) : Fits g d' D' chain' row it := by
  cases it with
  | file data =>
    obtain ⟨ha, hsi, hnot, hn, hda⟩ := h
    refine ⟨ha, hsi, fun hd => hnot (hD.mp hd), hn, fun hne => ?_⟩
    obtain ⟨hs, hlen, hco⟩ := hda hne
    obtain ⟨hsa, hblk⟩ := hch hnot hs
    unfold Stores
    rw [hsa, content_congr hblk]
    exact ⟨hs, hlen, hco⟩
  | dir b =>
    obtain ⟨ha, hc, hd⟩ := h
    rw [hc] at hD
    exact ⟨ha, hc, hD.mpr hd⟩

section Heads

variable (h : Laid g d D T chain)
include h

lemma Laid.head (ha : chain a ≠ []) : a ∈ chain a := by
  obtain ⟨l, hl⟩ := (h.linked a ha).1
  rw [hl]
  exact mem_cons_self ..

lemma Laid.frame (hli : ∀ h, chain' h ≠ [] → (∃ l, chain' h = h :: l) ∧ Chained g d'.fat (chain' h))
    (ha : ∀ h h' c, c ∈ chain' h → c ∈ chain' h' → h = h')
    (hs : ∀ x, D x ∨ ¬ Detached d T x → chain' x = chain x ∧ ∀ y ∈ chain x, d'.blk y = d.blk y) :
    Laid g d' D T chain' := by
  have hrow : ∀ x, D x → ∀ q ∈ places g (chain x), d'.row q = d.row q := fun x hx q hq =>
    row_congr ((hs x (.inl hx)).2 q.1 (mem_places.mp hq).1)
  refine ⟨hli, ha, h.root, fun x hx => ?_, fun x hx => ?_, fun x hx q hq hl => ?_,
    fun x m q jt hx => ?_⟩
  · rw [(hs x (.inl hx)).1]
    exact h.dirs x hx
  · unfold Closed
    rw [(hs x (.inl hx)).1]
    apply (h.closed x hx).imp_of_mem
    intro q r hq hr hrel
    rw [hrow x hx q hq, hrow x hx r hr]
    exact hrel
  · rw [(hs x (.inl hx)).1] at hq
    rw [hrow x hx q hq] at hl ⊢
    exact h.shown x hx q hq hl
  obtain ⟨hd, hq, hl, hn, hro, hf⟩ := h.held x m q jt hx
  rw [(hs x (.inl hd)).1, hrow x hd q hq]
  refine ⟨hd, hq, hl, hn, hro, hf.congr Iff.rfl fun _ _ => ?_⟩
  exact hs _ (.inr fun hdet => hdet x m q jt hx rfl)

lemma Laid.makeDir (hdet : Detached d T b) (hb : chain b ≠ [])
    (hc : Closed g d (chain b)) (he : ∀ q ∈ places g (chain b), ¬ Live (d.row q)) :
    Laid g d (fun x => x = b ∨ D x) T chain := by
  refine ⟨h.linked, h.apart, .inr h.root, fun x hx => ?_, fun x hx => ?_,
    fun x hx q hq hl => ?_, fun x m q jt hx => ?_⟩
  · rcases hx with hx | hx
    · rw [hx]
      exact hb
    · exact h.dirs x hx
  · rcases hx with hx | hx
    · rw [hx]
      exact hc
    · exact h.closed x hx
  · rcases hx with hx | hx
    · rw [hx] at hq
      exact absurd hl (he q hq)
    · exact h.shown x hx q hq hl
  obtain ⟨hd, hq, hl, hn, hr, hf⟩ := h.held x m q jt hx
  refine ⟨.inr hd, hq, hl, hn, hr, hf.congr ?_ fun _ _ => ⟨rfl, fun _ _ => rfl⟩⟩
  exact or_iff_right (hdet x m q jt hx)

lemma Laid.dropDir (hdet : Detached d T b) (hr : b ≠ g.rootCluster)
    (he : ∀ m, T b m = none) : Laid g d (fun x => x ≠ b ∧ D x) T chain := by
  refine ⟨h.linked, h.apart, ⟨hr.symm, h.root⟩, fun x hx => h.dirs x hx.2,
    fun x hx => h.closed x hx.2, fun x hx => h.shown x hx.2, fun x m q jt hx => ?_⟩
  obtain ⟨hd, hq, hl, hn, hne, hf⟩ := h.held x m q jt hx
  have hxb : x ≠ b := by
    intro heq
    rw [heq, he m] at hx
    cases hx
  refine ⟨⟨hxb, hd⟩, hq, hl, hn, hne, hf.congr ?_ fun _ _ => ⟨rfl, fun _ _ => rfl⟩⟩
  exact and_iff_right (hdet x m q jt hx)

lemma Laid.not_mem_of_dir (ha : D a) (hc : ¬ D c) (hx : x ∈ chain c) : x ∉ chain a:= by
  intro hmem
  rw [h.apart c a x hx hmem] at hc
  exact hc ha

end Heads

lemma row_put_places {l' : List ℕ} (hp : p ∈ places g l) (hq : q ∈ places g l')
    (hlen : row.length = 32) : (d.put p.1 p.2 row).row q = if q = p then row else d.row q :=
  row_put (mem_places.mp hp).2 (mem_places.mp hq).2 hlen

lemma Laid.place_unique (h : Laid g d D T chain) {y : ℕ}
    (hx : q ∈ places g (chain x)) (hy : q ∈ places g (chain y)) : x = y :=
  h.apart x y q.1 (mem_places.mp hx).1 (mem_places.mp hy).1

lemma Fits.put (h : Laid g d D T chain) (ha : D a) (hp : p ∈ places g (chain a))
    {r : List Byte} (hf : Fits g d D chain r it) :
    Fits g (d.put p.1 p.2 row) D chain r it := by
  refine hf.congr Iff.rfl fun hnot _ => ⟨rfl, fun x hx => ?_⟩
  apply Disk.put_of_ne
  intro heq
  rw [heq] at hx
  exact h.not_mem_of_dir ha hnot hx (mem_places.mp hp).1

variable {l : List ℕ} {P Q : List Place}

/-- A row whose first byte is not 0 keeps a directory closed, if no row before it is an end mark. -/
lemma Closed.put (h : Closed g d l) (hn : l.Nodup)
    (hs : places g l = P ++ p :: Q) (hP : ∀ q ∈ P, headOf (d.row q) ≠ 0)
    (hlen : row.length = 32) (hh : headOf row ≠ 0) : Closed g (d.put p.1 p.2 row) l := by
  have hmem : ∀ q ∈ P ++ p :: Q, q.2 ∈ offsets g := fun q hq =>
    (mem_places.mp (hs ▸ hq : q ∈ places g l)).2
  have hp := hmem p (mem_append_right _ (mem_cons_self ..))
  have hnd := nodup_places (g := g) hn
  rw [hs] at hnd
  obtain ⟨-, hndQ, hd⟩ := nodup_append.mp hnd
  have hrp : ∀ q ∈ P, (d.put p.1 p.2 row).row q = d.row q := by
    intro q hq
    rw [row_put hp (hmem q (mem_append_left _ hq)) hlen, if_neg]
    exact hd q hq p (mem_cons_self ..)
  have hrq : ∀ q ∈ Q, (d.put p.1 p.2 row).row q = d.row q := by
    intro q hq
    have hq' := mem_append_right P (mem_cons_of_mem p hq)
    rw [row_put hp (hmem q hq') hlen, if_neg]
    intro heq
    rw [heq] at hq
    exact (nodup_cons.mp hndQ).1 hq
  unfold Closed at h ⊢
  rw [hs] at h ⊢
  obtain ⟨hpP, hpQ, -⟩ := pairwise_append.mp h
  apply pairwise_append.mpr
  refine ⟨hpP.imp_of_mem fun hq hr hrel => ?_, pairwise_cons.mpr ⟨fun r _ hz => ?_, ?_⟩,
    fun q hq r _ hz => ?_⟩
  · rw [hrp _ hq, hrp _ hr]
    exact hrel
  · rw [row_put hp hp hlen, if_pos rfl] at hz
    exact absurd hz hh
  · refine (pairwise_cons.mp hpQ).2.imp_of_mem fun hq hr hrel => ?_
    rw [hrq _ hq, hrq _ hr]
    exact hrel
  · rw [hrp q hq] at hz
    exact absurd hz (hP q hq)

lemma Closed.put_other (h : Closed g d l) (hp : p.1 ∉ l) :
    Closed g (d.put p.1 p.2 row) l := by
  refine List.Pairwise.imp_of_mem (fun hq hr hrel => ?_) h
  have hrow : ∀ q ∈ places g l, (d.put p.1 p.2 row).row q = d.row q := by
    intro q hq
    apply row_congr
    apply Disk.put_of_ne
    intro heq
    rw [← heq] at hp
    exact hp (mem_places.mp hq).1
  rw [hrow _ hq, hrow _ hr]
  exact hrel

lemma Laid.closed_put (h : Laid g d D T chain) (ha : D a)
    (hs : places g (chain a) = P ++ p :: Q) (hP : ∀ q ∈ P, headOf (d.row q) ≠ 0)
    (hlen : row.length = 32) (hh : headOf row ≠ 0) (hx : D x) :
    Closed g (d.put p.1 p.2 row) (chain x) := by
  by_cases hxa : x = a
  · rw [hxa]
    exact (h.closed a ha).put (h.linked a (h.dirs a ha)).2.nodup hs hP hlen hh
  apply (h.closed x hx).put_other
  intro hmem
  have hp : p ∈ places g (chain a) :=
    hs ▸ mem_append_right _ (mem_cons_self ..)
  exact hxa (h.apart x a p.1 hmem (mem_places.mp hp).1)

lemma Laid.add (h : Laid g d D T chain) (ha : D a)
    (hs : places g (chain a) = P ++ p :: Q) (hP : ∀ q ∈ P, headOf (d.row q) ≠ 0)
    (hfr : headOf (d.row p) = 0 ∨ headOf (d.row p) = deleted) (hlen : row.length = 32)
    (hli : Live row) (hnew : T a (nameOf row) = none)
    (hr : dirGetCluster row ≠ g.rootCluster) (hfi : Fits g d D chain row it) :
    Laid g (d.put p.1 p.2 row) D (assign T a (nameOf row) (some (p, it))) chain := by
  have hp : p ∈ places g (chain a) := hs ▸ mem_append_right _ (mem_cons_self ..)
  have hde : ¬ Live (d.row p) := by
    intro hl
    rcases hfr with hz | hdel
    · exact hl.1 hz
    · exact hl.2.1 hdel
  refine ⟨h.linked, h.apart, h.root, h.dirs, fun x hx => h.closed_put ha hs hP hlen hli.1 hx,
    fun x hx q hq hl => ?_, fun x m q jt hx => ?_⟩
  · rw [row_put_places hp hq hlen] at hl ⊢
    by_cases hqp : q = p
    · have hxa : x = a := h.place_unique hq (hqp ▸ hp)
      rw [if_pos hqp, hxa, hqp]
      exact ⟨it, assign_self ..⟩
    rw [if_neg hqp] at hl ⊢
    obtain ⟨jt, hjt⟩ := h.shown x hx q hq hl
    refine ⟨jt, ?_⟩
    rw [assign_of_ne]
    · exact hjt
    intro heq
    rw [heq.1, heq.2, hnew] at hjt
    cases hjt
  by_cases hc : x = a ∧ m = nameOf row
  · rw [hc.1, hc.2, assign_self] at hx
    cases hx
    rw [row_put_places hp hp hlen, if_pos rfl, hc.1]
    exact ⟨ha, hp, hli, hc.2.symm, hr, Fits.put h ha hp hfi⟩
  rw [assign_of_ne hc] at hx
  obtain ⟨hd, hq, hl, hn, hne, hf⟩ := h.held x m q jt hx
  have hqp : q ≠ p := fun heq => hde (heq ▸ hl)
  rw [row_put_places hp hq hlen, if_neg hqp]
  exact ⟨hd, hq, hl, hn, hne, Fits.put h ha hp hf⟩

lemma Laid.remove (h : Laid g d D T chain) (hp : T a n = some (p, it)) :
    Laid g (d.put p.1 p.2 [deleted]) D (assign T a n none) chain := by
  obtain ⟨ha, hpl, hli, hn, -, -⟩ := h.held a n p it hp
  have hlen : (deleted :: (d.row p).tail).length = 32 := by
    rw [length_cons, length_tail, length_row]
  have hh : headOf (deleted :: (d.row p).tail) ≠ 0 := by
    change deleted ≠ 0
    decide
  obtain ⟨P, Q, hs⟩ := append_of_mem hpl
  -- the row is before the end mark, and so are those before it
  have hP : ∀ q ∈ P, headOf (d.row q) ≠ 0 := by
    intro q hq hz
    have hc := h.closed a ha
    unfold Closed at hc
    rw [hs] at hc
    have hrel := (pairwise_append.mp hc).2.2 q hq p (mem_cons_self ..)
    exact hli.1 (hrel hz)
  rw [put_deleted]
  refine ⟨h.linked, h.apart, h.root, h.dirs, fun x hx => h.closed_put ha hs hP hlen hh hx,
    fun x hx q hq hl => ?_, fun x m q jt hx => ?_⟩
  · rw [row_put_places hpl hq hlen] at hl ⊢
    by_cases hqp : q = p
    · rw [if_pos hqp] at hl
      exact absurd rfl hl.2.1
    rw [if_neg hqp] at hl ⊢
    obtain ⟨jt, hjt⟩ := h.shown x hx q hq hl
    refine ⟨jt, ?_⟩
    rw [assign_of_ne]
    · exact hjt
    intro heq
    rw [heq.1, heq.2, hp] at hjt
    cases hjt
    exact hqp rfl
  by_cases hca : x = a ∧ m = n
  · rw [hca.1, hca.2, assign_self] at hx
    cases hx
  rw [assign_of_ne hca] at hx
  obtain ⟨hd, hq, hl, hm, hne, hf⟩ := h.held x m q jt hx
  have hqp : q ≠ p := by
    intro heq
    have hxa : x = a := h.place_unique hq (heq ▸ hpl)
    rw [heq, hn] at hm
    exact hca ⟨hxa, hm.symm⟩
  rw [row_put_places hpl hq hlen, if_neg hqp]
  exact ⟨hd, hq, hl, hm, hne, Fits.put h ha hpl hf⟩

lemma Detached.ne_used (h : Detached d T c) (hD : ¬ D c) (hx : D x ∨ ¬ Detached d T x) : x ≠ c := by
  intro heq
  rw [heq] at hx
  exact hx.elim hD fun hnot => hnot h

lemma Instance.Regular.hasChain (hg : g.Regular) (hc : g.InVolume c) : HasChain c := by
  have hnum := hg.numbers
  have h2 := hc.2
  exact ⟨hc.1, by omega⟩

section Free

variable (h : Laid g d D T chain)
include h

lemma Laid.not_mem_free (hf : d.fat c = 0) (x : ℕ) : c ∉ chain x := by
  intro hmem
  exact (h.linked x (ne_nil_of_mem hmem)).2.ne_zero c hmem hf

lemma Laid.chain_free (hf : d.fat c = 0) : chain c = [] := by
  by_contra hne
  exact h.not_mem_free hf c (h.head hne)

lemma Laid.chain_of_entry (hp : T a n = some (p, it))
    (hc : HasChain (dirGetCluster (d.row p))) : chain (dirGetCluster (d.row p)) ≠ [] := by
  obtain ⟨-, -, -, -, -, hf⟩ := h.held a n p it hp
  cases it with
  | file data =>
    have hne : data ≠ [] := fun hnil => hf.2.2.2.1 hnil hc
    exact (hf.2.2.2.2 hne).1
  | dir b =>
    rw [hf.2.1]
    exact h.dirs b hf.2.2

lemma Laid.loose_free (hg : g.Regular) (hc : g.InVolume c)
    (hf : d.fat c = 0) : ¬ D c ∧ Detached d T c := by
  have hnil := h.chain_free hf
  refine ⟨fun hD => h.dirs c hD hnil, fun x m q jt hx heq => ?_⟩
  have hne := h.chain_of_entry hx (by rw [heq]; exact hg.hasChain hc)
  rw [heq] at hne
  exact hne hnil

lemma Laid.relink {f : ℕ} {new : List ℕ} {fat' : ℕ → ℕ}
    (hnew : new ≠ [] → (∃ k, new = f :: k) ∧ Chained g fat' new)
    (hmem : ∀ z ∈ new, z ∈ chain f ∨ d.fat z = 0)
    (hfat : ∀ x, x ≠ f → ∀ y ∈ chain x, fat' y = d.fat y) :
    (∀ x, update chain f new x ≠ [] → (∃ k, update chain f new x = x :: k) ∧
        Chained g fat' (update chain f new x)) ∧
      ∀ x y z, z ∈ update chain f new x → z ∈ update chain f new y → x = y := by
  have ho : ∀ x z, x ≠ f → z ∈ chain x → z ∉ new := by
    intro x z hx hz hin
    rcases hmem z hin with hf | hfr
    · exact hx (h.apart x f z hz hf)
    · exact h.not_mem_free hfr x hz
  constructor
  · intro x hx
    by_cases hxf : x = f
    · subst hxf
      rw [update_self] at hx ⊢
      exact hnew hx
    rw [update_of_ne hxf] at hx ⊢
    obtain ⟨hh, hc⟩ := h.linked x hx
    exact ⟨hh, hc.congr (hfat x hxf)⟩
  intro x y z hx hy
  by_cases hxf : x = f
  · by_cases hyf : y = f
    · rw [hxf, hyf]
    rw [hxf, update_self] at hx
    rw [update_of_ne hyf] at hy
    exact absurd hx (ho y z hyf hy)
  rw [update_of_ne hxf] at hx
  by_cases hyf : y = f
  · rw [hyf, update_self] at hy
    exact absurd hy (ho x z hxf hx)
  rw [update_of_ne hyf] at hy
  exact h.apart x y z hx hy

lemma Laid.adopt (hg : g.Regular) (hl : Chained g d'.fat (c :: l)) (hf : ∀ x ∈ c :: l, d.fat x = 0)
    (hs : ∀ x, x ∉ c :: l → d'.fat x = d.fat x ∧ d'.blk x = d.blk x) :
    Laid g d' D T (update chain c (c :: l)) := by
  have hze := hf c (mem_cons_self ..)
  obtain ⟨hD, hdet⟩ := h.loose_free hg (hl.inVolume c (mem_cons_self ..)) hze
  have hout : ∀ x, ∀ y ∈ chain x, y ∉ c :: l := fun x y hy hin =>
    h.not_mem_free (hf y hin) x hy
  obtain ⟨hli, ha⟩ := h.relink (f := c) (fun _ => ⟨⟨l, rfl⟩, hl⟩)
    (fun z hz => .inr (hf z hz)) fun x _ y hy => (hs y (hout x y hy)).1
  exact h.frame hli ha fun x hx =>
    ⟨update_of_ne (hdet.ne_used hD hx) _ _, fun y hy => (hs y (hout x y hy)).2⟩

lemma Laid.row_of_free (hf : ∀ x ∈ l, d.fat x = 0)
    (hblk : ∀ x, x ∉ l → d'.blk x = d.blk x) (x : ℕ) (hq : q ∈ places g (chain x)) :
    d'.row q = d.row q :=
  row_congr (hblk q.1 fun hin => h.not_mem_free (hf q.1 hin) x (mem_places.mp hq).1)

end Free

lemma Chained.extend {q : ℕ} (h : Chained g d.fat (l ++ [q])) (hc : g.InVolume c)
    (hf : d.fat c = 0) :
    Chained g ((d.setFat c fat32Eoc).setFat q c).fat (l ++ [q, c]) := by
  have hnew : c ∉ l ++ [q] := fun hin => h.ne_zero c hin hf
  have hqc : q ≠ c := fun heq => hnew (heq ▸ mem_append_right _ (mem_singleton_self q))
  refine h.snoc hc hnew ?_ (Disk.setFat_self ..) fun y hy => ?_
  · rw [Disk.setFat_of_ne _ _ hqc.symm, Disk.setFat_self]
  have hyq : y ≠ q := (nodup_append.mp h.nodup).2.2 y hy q (mem_singleton_self q)
  have hyc : y ≠ c := fun heq => hnew (heq ▸ mem_append_left _ hy)
  rw [Disk.setFat_of_ne _ _ hyq, Disk.setFat_of_ne _ _ hyc]

lemma Laid.link_extend (h : Laid g d D T chain) {f q : ℕ} (hf : chain f = l ++ [q])
    (hc : g.InVolume c) (hfr : d.fat c = 0) :
    (∀ x, update chain f (l ++ [q, c]) x ≠ [] →
      (∃ k, update chain f (l ++ [q, c]) x = x :: k) ∧
        Chained g ((d.setFat c fat32Eoc).setFat q c).fat (update chain f (l ++ [q, c]) x)) ∧
      ∀ x y z, z ∈ update chain f (l ++ [q, c]) x →
        z ∈ update chain f (l ++ [q, c]) y → x = y := by
  have hout := h.not_mem_free hfr
  have hne : chain f ≠ [] := by
    rw [hf]
    simp
  obtain ⟨⟨k, hk⟩, hl⟩ := h.linked f hne
  have hq : q ∈ chain f := by
    rw [hf]
    simp
  have happ : l ++ [q, c] = chain f ++ [c] := by rw [hf, append_assoc]; rfl
  refine h.relink (fun _ => ⟨⟨k ++ [c], by rw [happ, hk]; rfl⟩, ?_⟩) (fun z hz => ?_)
    fun x hx y hy => ?_
  · rw [hf] at hl
    exact hl.extend hc hfr
  · rw [happ] at hz
    rcases mem_append.mp hz with hz | hz
    · exact .inl hz
    · rw [mem_singleton.mp hz]
      exact .inr hfr
  · have hyq : y ≠ q := fun heq => hx (h.apart x f q (heq ▸ hy) hq)
    have hyc : y ≠ c := fun heq => hout x (heq ▸ hy)
    rw [Disk.setFat_of_ne _ _ hyq, Disk.setFat_of_ne _ _ hyc]

lemma Laid.grow (h : Laid g d D T chain) {q : ℕ} (ha : D a)
    (hch : chain a = l ++ [q]) (hc : g.InVolume c) (hf : d.fat c = 0) (hblk : d'.fat =
      ((d.setFat c fat32Eoc).setFat q c).fat) (hot : ∀ x, x ≠ c → d'.blk x = d.blk x)
    (hz : ∀ o ∈ offsets g, headOf (d'.row (c, o)) = 0) :
    Laid g d' D T (update chain a (l ++ [q, c])) := by
  obtain ⟨hli, hap⟩ := h.link_extend hch hc hf
  have hout := h.not_mem_free hf
  have hrow : ∀ x, ∀ r ∈ places g (chain x), d'.row r = d.row r := by
    intro x r hr
    apply row_congr
    apply hot
    intro heq
    exact hout x (heq ▸ (mem_places.mp hr).1)
  have hpc : places g (l ++ [q, c]) = places g (chain a) ++ places g [c] := by
    rw [hch, ← places_append, append_assoc]
    rfl
  have hnew : ∀ r ∈ places g [c], headOf (d'.row r) = 0 := by
    intro r hr
    obtain ⟨o, ho, rfl⟩ := mem_places_single hr
    exact hz o ho
  have hpl : ∀ x, ∀ r ∈ places g (chain x), r ∈ places g (update chain a (l ++ [q, c]) x) := by
    intro x r hr
    by_cases hxa : x = a
    · rw [hxa] at hr ⊢
      rw [update_self, hpc]
      exact mem_append_left _ hr
    rw [update_of_ne hxa]
    exact hr
  refine ⟨fun x hx => hblk ▸ hli x hx, hap, h.root, fun x hx => ?_, fun x hx => ?_,
    fun x hx r hr hl => ?_, fun x m r jt hx => ?_⟩
  · by_cases hxa : x = a
    · rw [hxa, update_self]
      simp
    rw [update_of_ne hxa]
    exact h.dirs x hx
  · have hold : (places g (chain x)).Pairwise
        fun p q => headOf (d'.row p) = 0 → headOf (d'.row q) = 0 := by
      refine List.Pairwise.imp_of_mem (fun hp hr hrel => ?_) (h.closed x hx)
      rw [hrow x _ hp, hrow x _ hr]
      exact hrel
    unfold Closed
    by_cases hxa : x = a
    · rw [hxa] at hold ⊢
      rw [update_self, hpc]
      apply pairwise_append.mpr
      refine ⟨hold, ?_, fun _ _ r hr _ => hnew r hr⟩
      exact pairwise_of_forall_mem_list fun _ _ r hr _ => hnew r hr
    rw [update_of_ne hxa]
    exact hold
  · have hin : r ∈ places g (chain x) := by
      by_cases hxa : x = a
      · rw [hxa] at hr ⊢
        rw [update_self, hpc] at hr
        rcases mem_append.mp hr with hr | hr
        · exact hr
        · exact absurd (hnew r hr) hl.1
      rw [update_of_ne hxa] at hr
      exact hr
    rw [hrow x r hin] at hl ⊢
    exact h.shown x hx r hin hl
  obtain ⟨hd, hr, hl, hn, hro, hfi⟩ := h.held x m r jt hx
  rw [hrow x r hr]
  refine ⟨hd, hpl x r hr, hl, hn, hro, hfi.congr Iff.rfl fun hnot _ => ?_⟩
  have hne : dirGetCluster (d.row r) ≠ a := fun heq => hnot (heq ▸ ha)
  refine ⟨update_of_ne hne _ _, fun y hy => hot y ?_⟩
  intro heq
  rw [heq] at hy
  exact hout _ hy

lemma Laid.free (h : Laid g d D T chain) (hD : ¬ D c) (hdet : Detached d T c) :
    Laid g (d.free (chain c)) D T (update chain c []) := by
  have hfat : ∀ x, x ≠ c → ∀ y ∈ chain x, (d.free (chain c)).fat y = d.fat y :=
    fun x hx y hy => if_neg fun hmem => hx (h.apart x c y hy hmem)
  obtain ⟨hl, ha⟩ := h.relink (fun hne => absurd rfl hne) (fun z hz => by cases hz) hfat
  exact h.frame hl ha fun x hx =>
    ⟨update_of_ne (hdet.ne_used hD hx) _ _, fun _ _ => rfl⟩

end Changes

variable {k : List ℕ}

section Functions

variable {g : Instance} {v v' : Vol} {d d' : Disk} {D : ℕ → Prop} {T : Table}
  {chain : ℕ → List ℕ} {a c fuel : ℕ} {it : Item} {row : List Byte} {l : List ℕ}

lemma view_setFat_of_lt (hg : g.Regular) (hc : g.InVolume c) {value : ℕ} (h : value < 2 ^ 28) :
    view g (v.setFat g c value).byte = (view g v.byte).setFat c value := by
  rw [view_setFat hg hc, Nat.mod_eq_of_lt h]

lemma Instance.Regular.lt_entry (hg : g.Regular) (hc : g.InVolume c) : c < 2 ^ 28 := by
  have hnum := hg.numbers
  have h2 := hc.2
  unfold fat32Eoc at hnum
  omega

lemma nodup_freeClusters (d : Disk) : (freeClusters g d).Nodup :=
  (nodup_range' ..).filter _

lemma freeClusters_take {cs : List ℕ} (hf : freeClusters g d = c :: cs) (hc : d'.fat c ≠ 0)
    (ho : ∀ x, x ≠ c → (d'.fat x = 0 ↔ d.fat x = 0)) : freeClusters g d' = cs := by
  have hfi : freeClusters g d' = (freeClusters g d).filter fun x => x ≠ c := by
    unfold freeClusters
    rw [filter_filter]
    apply filter_congr
    intro x _
    by_cases hx : x = c
    · simp [hx, hc]
    · simp [hx, ho x hx]
  have hnot := (nodup_cons.mp (hf ▸ nodup_freeClusters d)).1
  rw [hfi, hf, filter_cons_of_neg (by simp), filter_eq_self]
  intro x hx
  have hxc : x ≠ c := fun heq => hnot (heq ▸ hx)
  simpa using hxc

/-- The loop that allocates clusters behind the chain `l ++ [prev]`: it takes the first free ones, or
it frees everything. -/
lemma allocChain_spec (hg : g.Regular) {first prev k : ℕ} {t : List ℕ} {r : Option ℕ}
    (hl : Chained g (view g v.byte).fat (l ++ [prev])) (hf : l ++ [prev] = first :: t)
    (hrun : allocChain g fuel k first prev v = some (r, v')) :
    (view g v'.byte).blk = (view g v.byte).blk ∧
      ((∃ ns, r = some first ∧ freeClusters g (view g v.byte) = ns ++ freeClusters g (view g v'.byte) ∧
          ns.length = k ∧ Chained g (view g v'.byte).fat (l ++ [prev] ++ ns) ∧
          ∀ x, x ∉ l ++ [prev] ++ ns → (view g v'.byte).fat x = (view g v.byte).fat x) ∨
        r = none ∧ ∀ x, (view g v'.byte).fat x =
          if x ∈ l ++ [prev] then 0 else (view g v.byte).fat x) := by
  induction k generalizing v l prev t with
  | zero =>
    cases hrun
    exact ⟨rfl, .inl ⟨[], rfl, rfl, rfl, by rwa [append_nil], fun _ _ => rfl⟩⟩
  | succ k ih =>
    have hfi := hl.inVolume first (hf ▸ mem_cons_self ..)
    have hp := hl.inVolume prev (mem_append_right _ (mem_singleton_self prev))
    have h1 := hfi.1
    have h2 := hp.1
    unfold allocChain at hrun
    rw [bind_apply, allocCluster_eq hg] at hrun
    cases hfr : freeClusters g (view g v.byte) with
    | nil =>
      rw [hfr] at hrun
      dsimp only [Option.bind_some] at hrun
      rw [if_pos rfl, if_pos (by omega)] at hrun
      obtain ⟨u, w, hc, hrun⟩ := bind_eq_some.mp hrun
      cases hrun
      rw [hf] at hl ⊢
      rw [freeChain_spec hg hl hc]
      exact ⟨rfl, .inr ⟨rfl, fun x => rfl⟩⟩
    | cons n ns =>
      obtain ⟨hn, hz⟩ := mem_freeClusters (hfr ▸ mem_cons_self .. : n ∈ _)
      have h3 := hn.1
      rw [hfr] at hrun
      dsimp only [Option.bind_some] at hrun
      rw [if_neg (by omega), if_pos (by omega), setFat_bind hg.bytes.ne'] at hrun
      have hv : view g ((v.setFat g n fat32Eoc).setFat g prev n).byte =
          ((view g v.byte).setFat n fat32Eoc).setFat prev n := by
        rw [view_setFat_of_lt hg hp (hg.lt_entry hn), view_setFat_of_lt hg hn (by decide)]
      have hext := hl.extend hn hz
      have hpn : prev ≠ n := fun heq => hl.ne_zero prev
        (mem_append_right _ (mem_singleton_self prev)) (heq ▸ hz)
      have hfat : ∀ x, x ≠ n → x ≠ prev →
          (((view g v.byte).setFat n fat32Eoc).setFat prev n).fat x = (view g v.byte).fat x := by
        intro x hxn hxp
        rw [Disk.setFat_of_ne _ _ hxp, Disk.setFat_of_ne _ _ hxn]
      rw [show l ++ [prev, n] = l ++ [prev] ++ [n] by rw [append_assoc]; rfl] at hext
      rw [← hv] at hext
      obtain ⟨hblk, hres⟩ := ih hext (by rw [hf]; rfl) hrun
      rw [hv] at hblk hres
      refine ⟨hblk, ?_⟩
      rcases hres with ⟨ms, hr, hsp, hlen, hc, hs⟩ | ⟨hr, hs⟩
      · rw [freeClusters_take hfr (by
          rw [Disk.setFat_of_ne _ _ hpn.symm, Disk.setFat_self]; decide) (by
          intro x hx
          by_cases hxp : x = prev
          · rw [hxp, Disk.setFat_self]
            have hu := hl.ne_zero prev (mem_append_right _ (mem_singleton_self prev))
            omega
          · rw [hfat x hx hxp])] at hsp
        refine .inl ⟨n :: ms, hr, by rw [hsp]; rfl, by rw [length_cons, hlen], ?_,
          fun x hx => ?_⟩
        · rwa [append_assoc _ [n]] at hc
        · rw [hs x (by rwa [append_assoc _ [n]]), hfat]
          · rintro rfl
            exact hx (by simp)
          · rintro rfl
            exact hx (by simp)
      · refine .inr ⟨hr, fun x => ?_⟩
        rw [hs x]
        by_cases hxn : x = n
        · rw [hxn, if_pos (by simp), hz, ite_self]
        · by_cases hxp : x = prev
          · rw [hxp, if_pos (by simp), if_pos (by simp)]
          · rw [hfat x hxn hxp]
            simp [hxn]
lemma offsets_cons (hg : g.Regular) : ∃ os, offsets g = 0 :: os := by
  have hpos := hg.pos
  obtain ⟨k, hk⟩ : ∃ k, g.bytesPerCluster / 32 = k + 1 := ⟨g.bytesPerCluster / 32 - 1, by omega⟩
  unfold offsets
  rw [hk, range_succ_eq_map, map_cons]
  exact ⟨_, rfl⟩

lemma headOf_row (d : Disk) (p : Place) : headOf (d.row p) = d.blk p.1 p.2 := rfl

lemma put_zeros_head (d : Disk) {o : ℕ} (ho : o ∈ offsets g) :
    headOf ((d.put c 0 (List.replicate g.bytesPerCluster 0)).row (c, o)) = 0 := by
  have hend := (mem_offsets ho).1
  rw [headOf_row, Disk.put_self, length_replicate, if_pos (by omega), Nat.sub_zero,
    getD_eq_getElem _ _ (by rw [length_replicate]; omega), getElem_replicate]

/-- The directory at `a`, whose chain ends in `q`, with a cleared cluster `c` more. -/
def Disk.grown (g : Instance) (d : Disk) (q c : ℕ) : Disk :=
  ((d.setFat c fat32Eoc).setFat q c).put c 0 (List.replicate g.bytesPerCluster 0)

lemma Disk.grown_blk_of_ne (d : Disk) {q c : ℕ} (hx : x ≠ c) : (d.grown g q c).blk x = d.blk x :=
  Disk.put_of_ne _ _ _ hx

/-- The places of the grown directory: the old ones, and then those of the new cluster. -/
lemma places_grown (hg : g.Regular) {q : ℕ} (hc : chain a = k ++ [q]) :
    ∃ os, places g (update chain a (k ++ [q, c]) a) =
      places g (chain a) ++ (c, 0) :: os := by
  obtain ⟨os, hos⟩ := offsets_cons hg
  refine ⟨os.map fun o => (c, o), ?_⟩
  have happ : k ++ [q, c] = (k ++ [q]) ++ [c] := by
    rw [append_assoc]
    rfl
  rw [update_self, happ, ← hc, places_append, places_cons, hos]
  simp [places]

/-- A full directory grows by the free cluster `c`, and the entry is the first one there. -/
lemma Laid.addGrown (hg : g.Regular) (h : Laid g d D T chain) (ha : D a) {q : ℕ}
    (hch : chain a = k ++ [q]) (hc : g.InVolume c) (hz : d.fat c = 0)
    (hfu : ∀ r ∈ places g (chain a), headOf (d.row r) ≠ 0) (hlen : row.length = 32)
    (hl : Live row) (hnew : T a (nameOf row) = none)
    (hro : dirGetCluster row ≠ g.rootCluster) (hf : Fits g d D chain row it) :
    Laid g ((d.grown g q c).put c 0 row) D (assign T a (nameOf row) (some ((c, 0), it)))
        (update chain a (k ++ [q, c])) ∧
      ((d.grown g q c).put c 0 row).row (c, 0) = row ∧
      ∀ x m r jt, T x m = some (r, jt) → ((d.grown g q c).put c 0 row).row r = d.row r := by
  have hout := h.not_mem_free hz
  have hh : ∀ o ∈ offsets g, headOf ((d.grown g q c).row (c, o)) = 0 := fun o ho =>
    put_zeros_head _ ho
  have hgr : Laid g (d.grown g q c) D T (update chain a (k ++ [q, c])) :=
    h.grow ha hch hc hz rfl (fun x hx => d.grown_blk_of_ne hx) hh
  obtain ⟨os, hs⟩ := places_grown (c := c) hg hch
  have hrow : ∀ x, ∀ r ∈ places g (chain x), (d.grown g q c).row r = d.row r := by
    intro x r hr
    apply row_congr
    apply Disk.grown_blk_of_ne
    intro heq
    exact hout x (heq ▸ (mem_places.mp hr).1)
  have hf' : Fits g (d.grown g q c) D (update chain a (k ++ [q, c])) row it := by
    refine hf.congr Iff.rfl fun hnot _ => ?_
    have hne : dirGetCluster row ≠ a := fun heq => hnot (heq ▸ ha)
    refine ⟨update_of_ne hne _ _, fun y hy => d.grown_blk_of_ne ?_⟩
    intro heq
    rw [heq] at hy
    exact hout _ hy
  have hz0 : (0 : ℕ) ∈ offsets g := by
    obtain ⟨os, hos⟩ := offsets_cons hg
    rw [hos]
    exact mem_cons_self ..
  refine ⟨?_, ?_, fun x m r jt hx => ?_⟩
  · exact hgr.add (p := (c, 0)) ha hs (fun r hr => by rw [hrow a r hr]; exact hfu r hr)
      (.inl (hh 0 hz0)) hlen hl hnew hro hf'
  · exact (row_put (p := (c, 0)) (q := (c, 0)) hz0 hz0 hlen).trans (if_pos rfl)
  obtain ⟨hd, hr, -⟩ := h.held x m r jt hx
  have hrc : r ≠ (c, 0) := by
    intro heq
    have hmem := (mem_places.mp hr).1
    rw [heq] at hmem
    exact hout x hmem
  refine (row_put (p := (c, 0)) hz0 (mem_places.mp hr).2 hlen).trans ?_
  rw [if_neg hrc, hrow x r hr]

lemma Laid.addDirEntry (hg : g.Regular) {b : Bool} (h : Laid g (view g v.byte) D T chain)
    (ha : D a) (hlen : row.length = 32) (hlv : Live row) (hnew : T a (nameOf row) = none)
    (hro : dirGetCluster row ≠ g.rootCluster) (hfi : Fits g (view g v.byte) D chain row it)
    (hrun : krustFat32AddDirEntry g row fuel a v = some (b, v')) :
    (b = true ∧ ∃ p chain',
        Laid g (view g v'.byte) D (assign T a (nameOf row) (some (p, it))) chain' ∧
        (view g v'.byte).row p = row ∧
        ∀ x m q jt, T x m = some (q, jt) → (view g v'.byte).row q = (view g v.byte).row q) ∨
      (b = false ∧ freeClusters g (view g v.byte) = [] ∧
        ∀ q ∈ places g (chain a), headOf ((view g v.byte).row q) ≠ 0 ∧
          headOf ((view g v.byte).row q) ≠ deleted) := by
  obtain ⟨⟨l, hl⟩, hli⟩ := h.linked a (h.dirs a ha)
  rw [hl] at hli
  rcases addDirEntry_spec hg hlen hli hrun with
    ⟨hb, P, p, Q, hs, hP, hf, hvi⟩ | ⟨hfu, hgr⟩
  · rw [← hl] at hs
    have hp : p ∈ places g (chain a) := hs ▸ mem_append_right _ (mem_cons_self ..)
    refine .inl ⟨hb, p, chain, ?_, ?_, fun x m q jt hx => ?_⟩
    · rw [hvi]
      exact h.add ha hs hP hf hlen hlv hnew hro hfi
    · rw [hvi, row_put_places hp hp hlen, if_pos rfl]
    obtain ⟨hd, hq, hl', -⟩ := h.held x m q jt hx
    rw [hvi, row_put_places hp hq hlen, if_neg]
    intro heq
    rw [heq] at hl'
    rcases hf with hz | hdel
    · exact hl'.1 hz
    · exact hl'.2.1 hdel
  rw [← hl] at hfu
  rw [growDir_eq hg] at hgr
  cases hf : freeClusters g (view g v.byte) with
  | nil =>
    rw [hf] at hgr
    cases hgr
    exact .inr ⟨rfl, rfl, hfu⟩
  | cons n ns =>
    obtain ⟨hn, hz⟩ := mem_freeClusters (hf ▸ mem_cons_self .. : n ∈ _)
    rw [hf] at hgr
    obtain ⟨hb, hv⟩ := Prod.mk.inj (Option.some.inj hgr)
    -- the last cluster of the chain
    obtain ⟨k, q, hkq⟩ : ∃ k q, a :: l = k ++ [q] :=
      ⟨(a :: l).dropLast, _, (dropLast_append_getLast (cons_ne_nil a l)).symm⟩
    have hla : (a :: l).getLast (cons_ne_nil a l) = q := by
      simp only [hkq, getLast_append_singleton]
    rw [hla] at hv
    have hc : chain a = k ++ [q] := hl.trans hkq
    have hq : q ∈ chain a := by
      rw [hc]
      simp
    have hqv := (h.linked a (h.dirs a ha)).2.inVolume q hq
    have hvi : view g v'.byte = ((view g v.byte).grown g q n).put n 0 row := by
      have hbpc := hg.pos
      rw [← hv, view_clearCluster hg hn (by omega), view_setFat_of_lt hg hqv (hg.lt_entry hn),
        view_setFat_of_lt hg hn (by decide)]
      rfl
    have hgw := h.addGrown hg ha hc hn hz (fun r hr => (hfu r hr).1) hlen hlv hnew
      hro hfi
    rw [← hvi] at hgw
    exact .inl ⟨hb.symm, (n, 0), _, hgw⟩

end Functions

end Elitra.Fat32
