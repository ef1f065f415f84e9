import Elitra.Fat32Map
import Mathlib.Data.List.TakeWhile

namespace Elitra.Fat32
open List StateRun

section Entries

variable {sfn row : List Byte}

lemma dirGetCluster_congr {r r' : List Byte} (h : ∀ i, 11 ≤ i → r'.getD i 0 = r.getD i 0) :
    dirGetCluster r' = dirGetCluster r := by
  unfold dirGetCluster le16
  dsimp only
  rw [h 20 (by omega), h (20 + 1) (by omega), h 26 (by omega), h (26 + 1) (by omega)]

lemma sizeOf_congr {r r' : List Byte} (h : ∀ i, 11 ≤ i → r'.getD i 0 = r.getD i 0) :
    sizeOf r' = sizeOf r := by
  unfold sizeOf
  apply le32_congr
  intro i hi
  exact h (28 + i) (by omega)

lemma makeEntry_fields (h : sfn.length = 11) (attr : Byte) (cluster size : ℕ)
    (hc : cluster < 2 ^ 32) (hs : size < 2 ^ 32) :
    nameOf (makeEntry sfn attr cluster size) = sfn ∧ attrOf (makeEntry sfn attr cluster size) = attr ∧
      dirGetCluster (makeEntry sfn attr cluster size) = cluster ∧
      sizeOf (makeEntry sfn attr cluster size) = size := by
  match sfn, h with
  | [a, b, c, d, e, f, i, j, k, l, m], _ =>
    refine ⟨rfl, rfl, ?_, ?_⟩
    · have hcl : dirGetCluster (makeEntry [a, b, c, d, e, f, i, j, k, l, m] attr cluster size) =
          ((BitVec.ofNat 8 (cluster / 2 ^ 16)).toNat +
            (BitVec.ofNat 8 (cluster / 2 ^ 16 / 2 ^ 8)).toNat * 2 ^ 8) * 2 ^ 16 +
          ((BitVec.ofNat 8 cluster).toNat + (BitVec.ofNat 8 (cluster / 2 ^ 8)).toNat * 2 ^ 8) := rfl
      rw [hcl]
      simp only [BitVec.toNat_ofNat]
      omega
    have hsi : sizeOf (makeEntry [a, b, c, d, e, f, i, j, k, l, m] attr cluster size) =
        size % 2 ^ 32 := by
      unfold sizeOf
      apply le32_bytes32
      intro x hx
      match x, hx with
      | 0, _ => rfl
      | 1, _ => rfl
      | 2, _ => rfl
      | 3, _ => rfl
    rw [hsi, Nat.mod_eq_of_lt hs]

lemma getD_renamed (h : sfn.length = 11) {i : ℕ} (hi : 11 ≤ i) :
    (sfn ++ row.drop 11).getD i 0 = row.getD i 0 := by
  rw [getD_append_right _ _ _ _ (by omega), h, getD_eq_getElem?_getD,
    getElem?_drop, getD_eq_getElem?_getD]
  congr 2
  omega

lemma headOf_append (h : sfn.length = 11) (rest : List Byte) :
    headOf (sfn ++ rest) = headOf sfn := by
  unfold headOf
  rw [getD_append _ _ _ _ (by omega)]

lemma headOf_nameOf (row : List Byte) : headOf (nameOf row) = headOf row := by
  cases row with
  | nil => rfl
  | cons b row => rfl

lemma upper_ne_zero {b : Byte} (h : b ≠ 0) : upper b ≠ 0 := by
  revert b
  decide

lemma upper_ne_dot {b : Byte} (h : b ≠ dot) : upper b ≠ dot := by
  revert b
  decide

lemma headOf_nameToSfn (name : Name) :
    headOf (krustFat32NameToSfn name) ≠ 0 ∧ headOf (krustFat32NameToSfn name) ≠ dot := by
  unfold krustFat32NameToSfn
  dsimp only
  cases hb : name.text.takeWhile (· ≠ dot) with
  | nil =>
    constructor
    · change space ≠ 0
      decide
    change space ≠ dot
    decide
  | cons b base =>
    have hmem : b ∈ name.text.takeWhile (· ≠ dot) := by
      rw [hb]
      exact mem_cons_self ..
    have hdot : b ≠ dot := by simpa using mem_takeWhile_imp hmem
    have hz := name.nonzero b ((List.takeWhile_prefix _).subset hmem)
    exact ⟨upper_ne_zero hz, upper_ne_dot hdot⟩

end Entries

section Law

variable (g : Instance)

def items (T : Table) : Map := fun a n => (T a n).map (·.2)

/-- A name that the search compares as it is stored, and that does not look deleted. -/
def Proper (name : Name) : Prop :=
  matchName name = some (krustFat32NameToSfn name) ∧ headOf (krustFat32NameToSfn name) ≠ deleted

/-- The directories of a map. -/
def IsDir (M : Map) (a : ℕ) : Prop := a = g.rootCluster ∨ ∃ b n, M b n = some (.dir a)

/-- A well-formed volume with the directories and files of a map. -/
def Represents (v : Vol) (M : Map) : Prop :=
  ∃ D T chain, Laid g (view g v.byte) D T chain ∧ Owned (view g v.byte) T ∧
    M = items T

/-- There is a place for an entry in the directory `a`, or a free cluster after `k` are taken. -/
def Room (v : Vol) (a k : ℕ) : Prop :=
  k < (freeClusters g (view g v.byte)).length ∨
    ∃ l, Chained g (view g v.byte).fat (a :: l) ∧ ∃ p ∈ places g (a :: l),
      headOf ((view g v.byte).row p) = 0 ∨ headOf ((view g v.byte).row p) = deleted

/-- The condition on a call: proper names in directories of the volume, new names that are not there
yet, room for their entries, and only empty directories deleted. -/
def Ready (v : Vol) (M : Map) : Call → Prop
  | .writeFile a name data => IsDir g M a ∧ Proper name ∧ M a (krustFat32NameToSfn name) = none ∧
      data.length + (g.bytesPerCluster - 1) < 2 ^ 32 ∧
      (data = [] ∨ Room g v a (clustersFor g data.length))
  | .createDir a name => IsDir g M a ∧ Proper name ∧ M a (krustFat32NameToSfn name) = none ∧
      Room g v a 1
  | .deleteFile a name | .deleteDir a name => IsDir g M a ∧ Proper name ∧
      ∀ b, M a (krustFat32NameToSfn name) = some (.dir b) → ∀ n, M b n = none
  | .renameEntry a n b m => IsDir g M a ∧ Proper n ∧ IsDir g M b ∧ Proper m ∧
      M b (krustFat32NameToSfn m) = none
  | _ => False

def Call.after (v : Vol) (M : Map) : Call → Map
  | .writeFile a name data => assign M a (krustFat32NameToSfn name) (some (.file data))
  | .createDir a name => assign M a (krustFat32NameToSfn name)
      (some (.dir ((freeClusters g (view g v.byte)).headD 0)))
  | .deleteFile a name | .deleteDir a name => assign M a (krustFat32NameToSfn name) none
  | .renameEntry a n b m =>
    assign (assign M b (krustFat32NameToSfn m) (M a (krustFat32NameToSfn n))) a
      (krustFat32NameToSfn n) none
  | _ => M

end Law

section Steps

variable {g : Instance} {v v' : Vol} {d d' : Disk} {D : ℕ → Prop} {T : Table}
  {chain : ℕ → List ℕ} {M : Map} {a fuel : ℕ} {n : List Byte} {it : Item} {p : Place}
  {row : List Byte} {name : Name}

lemma items_assign (T : Table) (a : ℕ) (n : List Byte) (x : Option (Place × Item)) :
    items (assign T a n x) = assign (items T) a n (x.map (·.2)) := by
  funext b m
  unfold items assign
  split
  · rfl
  · rfl

lemma items_eq_none : items T a n = none ↔ T a n = none := Option.map_eq_none_iff

lemma items_of_some (h : T a n = some (p, it)) : items T a n = some it := by
  unfold items
  rw [h]
  rfl

lemma Laid.isDir (h : Laid g d D T chain) (ha : IsDir g (items T) a) : D a := by
  rcases ha with ha | ⟨b, n, hb⟩
  · rw [ha]
    exact h.root
  obtain ⟨⟨p, it⟩, hp, hit⟩ := Option.map_eq_some_iff.mp hb
  have hf := (h.held b n p it hp).2.2.2.2.2
  rw [show it = .dir a from hit] at hf
  exact hf.2.2

lemma Matches.live (h : Matches (krustFat32NameToSfn name) row) : Live row := by
  refine ⟨h.1, h.2.1, ?_, h.2.2.1⟩
  rw [← headOf_nameOf, h.2.2.2]
  exact (headOf_nameToSfn name).2

lemma Live.matches (h : Live row) : Matches (nameOf row) row := ⟨h.1, h.2.1, h.2.2.2, rfl⟩

lemma Laid.found (h : Laid g d D T chain) (ha : D a)
    (hp : p ∈ places g (chain a)) (hm : Matches (krustFat32NameToSfn name) (d.row p)) :
    ∃ it, T a (krustFat32NameToSfn name) = some (p, it) := by
  obtain ⟨it, hit⟩ := h.shown a ha p hp hm.live
  rw [hm.2.2.2] at hit
  exact ⟨it, hit⟩

lemma Laid.find (h : Laid g (view g v.byte) D T chain) (hg : g.Regular) (fuel : ℕ) (ha : D a)
    (hna : Proper name) :
    ((chain a).length ≤ fuel → ∃ r, krustFat32FindDirEntry g fuel a name v = some (r, v)) ∧
      ∀ r v', krustFat32FindDirEntry g fuel a name v = some (r, v') → v' = v ∧
        match T a (krustFat32NameToSfn name) with
        | none => r = none
        | some (p, _) => r = some ((view g v.byte).row p) := by
  obtain ⟨⟨l, hl⟩, hli⟩ := h.linked a (h.dirs a ha)
  have hc := h.closed a ha
  rw [hl] at hli hc
  obtain ⟨ht, hs⟩ := findDirEntry_spec hg fuel hna.1 hli hc
  refine ⟨fun hf => ht ?_, fun r v' hr => ?_⟩
  · rw [hl, length_cons] at hf
    omega
  obtain ⟨hv, hca⟩ := hs r v' hr
  refine ⟨hv, ?_⟩
  rw [← hl] at hca
  rcases hca with ⟨hno, hall⟩ | ⟨p, hp, hso, hm⟩
  · cases hT : T a (krustFat32NameToSfn name) with
    | none => exact hno
    | some q =>
      obtain ⟨-, hq, hlv, hn, -⟩ := h.held a _ q.1 q.2 hT
      exact absurd (hn ▸ hlv.matches) (hall q.1 hq)
  obtain ⟨it, hit⟩ := h.found ha hp hm
  rw [hit]
  exact hso

lemma Laid.removed (h : Laid g (view g v.byte) D T chain) (hg : g.Regular) (ha : D a)
    (hn : Proper name) (hrun : removeEntry g fuel a name v = some (0, v')) :
    ∃ p it, T a (krustFat32NameToSfn name) = some (p, it) ∧
      view g v'.byte = (view g v.byte).put p.1 p.2 [deleted] := by
  obtain ⟨⟨l, hl⟩, hli⟩ := h.linked a (h.dirs a ha)
  have hc := h.closed a ha
  rw [hl] at hli hc
  rcases removeEntry_spec hg hn.1 hli hc hrun with hf | ⟨p, hp, hm, hv⟩
  · cases hf
  rw [← hl] at hp
  obtain ⟨it, hit⟩ := h.found ha hp hm
  exact ⟨p, it, hit, hv⟩

lemma Owned.add (h : Owned d T) (hrow : d'.row p = row)
    (hr : ∀ x m q jt, T x m = some (q, jt) → d'.row q = d.row q)
    (hdet : HasChain (dirGetCluster row) → Detached d T (dirGetCluster row)) :
    Owned d' (assign T a n (some (p, it))) := by
  intro x m q jt y k r kt hx hy hc heq
  by_cases hxa : x = a ∧ m = n
  · rw [hxa.1, hxa.2, assign_self] at hx
    cases hx
    by_cases hya : y = a ∧ k = n
    · exact ⟨hxa.1.trans hya.1.symm, hxa.2.trans hya.2.symm⟩
    rw [assign_of_ne hya] at hy
    rw [hrow] at hc heq
    rw [hr y k r kt hy] at heq
    exact absurd heq.symm (hdet hc y k r kt hy)
  rw [assign_of_ne hxa] at hx
  rw [hr x m q jt hx] at hc heq
  by_cases hya : y = a ∧ k = n
  · rw [hya.1, hya.2, assign_self] at hy
    cases hy
    rw [hrow] at heq
    rw [heq] at hc
    exact absurd heq (hdet hc x m q jt hx)
  rw [assign_of_ne hya] at hy
  rw [hr y k r kt hy] at heq
  exact h x m q jt y k r kt hx hy hc heq

lemma Laid.row_removed (h : Laid g d D T chain) (hp : T a n = some (p, it)) {x : ℕ}
    {m : List Byte} {q : Place} {jt : Item} (hx : assign T a n none x m = some (q, jt)) :
    (d.put p.1 p.2 [deleted]).row q = d.row q := by
  have hc : ¬ (x = a ∧ m = n) := by
    intro hc
    rw [hc.1, hc.2, assign_self] at hx
    cases hx
  rw [assign_of_ne hc] at hx
  obtain ⟨-, hpl, -, hn, -⟩ := h.held a n p it hp
  obtain ⟨-, hq, -, hm, -⟩ := h.held x m q jt hx
  have hlen : (deleted :: (d.row p).tail).length = 32 := by
    rw [length_cons, length_tail, length_row]
  rw [put_deleted, row_put (mem_places.mp hpl).2 (mem_places.mp hq).2 hlen, if_neg]
  intro heq
  rw [heq, hn] at hm
  exact hc ⟨h.place_unique hq (heq ▸ hpl), hm.symm⟩

lemma Owned.remove (h : Owned d T) (hl : Laid g d D T chain) (hp : T a n = some (p, it)) :
    Owned (d.put p.1 p.2 [deleted]) (assign T a n none) := by
  intro x m q jt y k r kt hx hy hc heq
  rw [hl.row_removed hp hx] at hc heq
  rw [hl.row_removed hp hy] at heq
  have hold : ∀ x m (z : Place × Item), assign T a n none x m = some z → T x m = some z := by
    intro x m z hz
    unfold assign at hz
    split at hz
    · cases hz
    · exact hz
  exact h x m q jt y k r kt (hold x m _ hx) (hold y k _ hy) hc heq

lemma Owned.detached (h : Owned d T) (hl : Laid g d D T chain) (hp : T a n = some (p, it))
    (hc : HasChain (dirGetCluster (d.row p))) :
    Detached (d.put p.1 p.2 [deleted]) (assign T a n none) (dirGetCluster (d.row p)) := by
  intro x m q jt hx heq
  rw [hl.row_removed hp hx] at heq
  have hca : ¬ (x = a ∧ m = n) := by
    intro hca
    rw [hca.1, hca.2, assign_self] at hx
    cases hx
  rw [assign_of_ne hca] at hx
  obtain ⟨hxa, hmn⟩ := h a n p it x m q jt hp hx hc heq.symm
  exact hca ⟨hxa.symm, hmn.symm⟩

/-- The chain of an entry does not start with its directory's cluster, unless the entry is the
directory itself. -/
lemma Laid.cluster_ne (h : Laid g d D T chain) (hp : T a n = some (p, it)) (hit : it ≠ .dir a) :
    dirGetCluster (d.row p) ≠ a := by
  obtain ⟨ha, -, -, -, -, hf⟩ := h.held a n p it hp
  intro heq
  cases it with
  | file data => exact hf.2.2.1 (heq ▸ ha)
  | dir b =>
    rw [hf.2.1] at heq
    exact hit (by rw [heq])

lemma freeEntry_of_chain {entry : List Byte} (h : HasChain (dirGetCluster entry)) :
    freeEntry g fuel entry = krustFat32FreeChain g fuel (dirGetCluster entry) := if_pos h

lemma freeEntry_of_not {entry : List Byte} (h : ¬ HasChain (dirGetCluster entry)) :
    freeEntry g fuel entry = pure ⟨⟩ := if_neg h

/-- The chain of an entry is freed before the entry is removed. The directory is then as it was, and
the search finds the same entry. -/
lemma Laid.removedFreed (hg : g.Regular) {v1 v2 : Vol} (h : Laid g (view g v1.byte) D T chain)
    (ha : D a) (hn : Proper name) (hT : T a (krustFat32NameToSfn name) = some (p, it)) {c : ℕ}
    (hca : c ≠ a) (hv : view g v2.byte = (view g v1.byte).free (chain c))
    (hrun : removeEntry g fuel a name v2 = some (0, v')) :
    view g v'.byte = ((view g v1.byte).put p.1 p.2 [deleted]).free (chain c) := by
  obtain ⟨⟨k, hk⟩, hc⟩ := h.linked a (h.dirs a ha)
  have hcl : Closed g (view g v2.byte) (chain a) := by
    rw [hv]
    exact h.closed a ha
  have hc' : Chained g (view g v2.byte).fat (chain a) := by
    rw [hv]
    apply hc.congr
    intro y hy
    exact if_neg fun hmem => hca (h.apart _ a y hmem hy)
  rw [hk] at hcl hc'
  rcases removeEntry_spec hg hn.1 hc' hcl hrun with hf | ⟨p', hp', hm, hv'⟩
  · cases hf
  rw [hv] at hm hv'
  rw [← hk] at hp'
  obtain ⟨it', hit'⟩ := h.found ha hp' hm
  rw [hT] at hit'
  obtain ⟨hpp, -⟩ := Prod.mk.inj (Option.some.inj hit')
  rw [← hpp] at hv'
  exact hv'

lemma Laid.representsFreed {n : List Byte} (h : Laid g (view g v.byte) D T chain)
    (ho : Owned (view g v.byte) T) (hT : T a n = some (p, it))
    (hc : HasChain (dirGetCluster ((view g v.byte).row p)))
    (he : ∀ b, items T a n = some (.dir b) → ∀ m, items T b m = none)
    (hv : view g v'.byte = ((view g v.byte).put p.1 p.2 [deleted]).free
      (chain (dirGetCluster ((view g v.byte).row p)))) :
    Represents g v' (assign (items T) a n none) := by
  have hr := h.remove hT
  have hdet := ho.detached h hT hc
  obtain ⟨-, -, -, -, hro, hfi⟩ := h.held a n p it hT
  have hown : Owned (view g v'.byte) (assign T a n none) := by
    rw [hv]
    exact ho.remove h hT
  cases it with
  | file data =>
    have hf := hr.free hfi.2.2.1 hdet
    rw [← hv] at hf
    exact ⟨D, _, _, hf, hown, (items_assign T a _ none).symm⟩
  | dir b =>
    obtain ⟨-, hcl, -⟩ := hfi
    rw [hcl] at hdet hro hv
    have hn : ∀ m, assign T a n none b m = none := by
      intro m
      have hb := he b (items_of_some hT) m
      unfold assign
      split
      · rfl
      · exact items_eq_none.mp hb
    have hd := hr.dropDir hdet hro hn
    have hf := hd.free (fun hb => hb.1 rfl) hdet
    rw [← hv] at hf
    exact ⟨_, _, _, hf, hown, (items_assign T a _ none).symm⟩

lemma Represents.deleteEntry (hg : g.Regular) (h : Represents g v M) (hdir : IsDir g M a)
    (hn : Proper name)
    (he : ∀ b, M a (krustFat32NameToSfn name) = some (.dir b) → ∀ n, M b n = none)
    (hrun : deleteEntry g fuel a name v = some (0, v')) :
    Represents g v' (assign M a (krustFat32NameToSfn name) none) := by
  obtain ⟨D, T, chain, hla, ho, rfl⟩ := h
  have ha := hla.isDir hdir
  unfold Fat32.deleteEntry at hrun
  obtain ⟨r, v1, hfi, hrun⟩ := bind_eq_some.mp hrun
  obtain ⟨hv, hr⟩ := (hla.find hg fuel ha hn).2 r v1 hfi
  subst hv
  cases hT : T a (krustFat32NameToSfn name) with
  | none =>
    rw [hT] at hr
    dsimp only at hr
    subst hr
    cases hrun
  | some q =>
    obtain ⟨p, it⟩ := q
    rw [hT] at hr
    dsimp only at hr
    subst hr
    obtain ⟨u, v2, hf, hrun⟩ := bind_eq_some.mp hrun
    by_cases hc : HasChain (dirGetCluster ((view g v1.byte).row p))
    · rw [freeEntry_of_chain hc] at hf
      obtain ⟨⟨l, hl⟩, hli⟩ := hla.linked _ (hla.chain_of_entry hT hc)
      rw [hl] at hli
      have hvi := freeChain_spec hg hli hf
      rw [← hl] at hvi
      have hca : dirGetCluster ((view g v1.byte).row p) ≠ a := by
        apply hla.cluster_ne hT
        intro hit
        rw [hit] at hT
        have hs := he a (items_of_some hT) (krustFat32NameToSfn name)
        rw [items_of_some hT] at hs
        cases hs
      exact hla.representsFreed ho hT hc he
        (hla.removedFreed hg ha hn hT hca hvi hrun)
    rw [freeEntry_of_not hc] at hf
    cases hf
    obtain ⟨p', it', hit', hvi⟩ := hla.removed hg ha hn hrun
    rw [hT] at hit'
    obtain ⟨hpp, -⟩ := Prod.mk.inj (Option.some.inj hit')
    rw [← hpp] at hvi
    refine ⟨D, _, chain, ?_, ?_, (items_assign T a _ none).symm⟩
    · rw [hvi]
      exact hla.remove hT
    rw [hvi]
    exact ho.remove hla hT

lemma Represents.add (hg : g.Regular) (hl : Laid g (view g v.byte) D T chain)
    (ho : Owned (view g v.byte) T) (ha : D a) (hlen : row.length = 32) (hli : Live row)
    (hnew : T a (nameOf row) = none) (hr : dirGetCluster row ≠ g.rootCluster)
    (hfi : Fits g (view g v.byte) D chain row it)
    (hdet : HasChain (dirGetCluster row) → Detached (view g v.byte) T (dirGetCluster row))
    (hrun : krustFat32AddDirEntry g row fuel a v = some (true, v')) :
    Represents g v' (assign (items T) a (nameOf row) (some it)) := by
  rcases hl.addDirEntry hg ha hlen hli hnew hr hfi hrun with
    ⟨-, p, chain', hl', hrow, hro⟩ | ⟨hf, -⟩
  · exact ⟨D, _, chain', hl', ho.add hrow hro hdet,
      (items_assign T a (nameOf row) (some (p, it))).symm⟩
  · cases hf

lemma live_makeEntry (hn : Proper name) {attr : Byte} (ha : attr ≠ attrLfn) {c size : ℕ}
    (hc : c < 2 ^ 32) (hs : size < 2 ^ 32) :
    Live (makeEntry (krustFat32NameToSfn name) attr c size) := by
  have hf := makeEntry_fields (length_nameToSfn name) attr c size hc hs
  have hh : headOf (makeEntry (krustFat32NameToSfn name) attr c size) =
      headOf (krustFat32NameToSfn name) := by
    rw [← headOf_nameOf, hf.1]
  unfold Live
  rw [hh, hf.2.1]
  exact ⟨(headOf_nameToSfn name).1, hn.2, (headOf_nameToSfn name).2, ha⟩

lemma Laid.root_inVolume (h : Laid g d D T chain) : g.InVolume g.rootCluster := by
  have hne := h.dirs _ h.root
  exact (h.linked _ hne).2.inVolume _ (h.head hne)

lemma Laid.inVolume_of_dir (h : Laid g d D T chain) (ha : D a) : g.InVolume a := by
  have hne := h.dirs a ha
  exact (h.linked a hne).2.inVolume a (h.head hne)

lemma Chained.unique {fat : ℕ → ℕ} (hg : g.Regular) {c : ℕ} {l l' : List ℕ}
    (h : Chained g fat (c :: l)) (h' : Chained g fat (c :: l')) : l = l' := by
  induction l generalizing c l' with
  | nil =>
    cases l' with
    | nil => rfl
    | cons n l' =>
      have hn := h'.2.2.2.inVolume n (mem_cons_self ..)
      have hend : fat32Eoc ≤ fat c := h.2
      have hnum := hg.numbers
      have h2 := hn.2
      rw [h'.2.2.1] at hend
      omega
  | cons n l ih =>
    cases l' with
    | nil =>
      have hn := h.2.2.2.inVolume n (mem_cons_self ..)
      have hend : fat32Eoc ≤ fat c := h'.2
      have hnum := hg.numbers
      have h2 := hn.2
      rw [h.2.2.1] at hend
      omega
    | cons n' l' =>
      have heq : n = n' := h.2.2.1.symm.trans h'.2.2.1
      subst heq
      rw [ih h.2.2.2 h'.2.2.2]

lemma Room.not_full (hg : g.Regular) {k : ℕ} (hr : Room g v a k)
    (hla : Laid g (view g v.byte) D T chain) (ha : D a)
    (hco : (freeClusters g (view g v.byte)).drop k = [])
    (hf : ∀ q ∈ places g (chain a), headOf ((view g v.byte).row q) ≠ 0 ∧
      headOf ((view g v.byte).row q) ≠ deleted) : False := by
  rcases hr with hm | ⟨l, hl, p, hp, hh⟩
  · have hlen := congrArg length hco
    rw [length_drop, length_nil] at hlen
    omega
  obtain ⟨⟨k, hk⟩, hc⟩ := hla.linked a (hla.dirs a ha)
  rw [hk] at hc
  rw [hl.unique hg hc, ← hk] at hp
  rcases hh with hz | hdel
  · exact (hf p hp).1 hz
  · exact (hf p hp).2 hdel

end Steps

end Elitra.Fat32
