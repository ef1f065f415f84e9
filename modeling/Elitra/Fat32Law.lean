import Elitra.Fat32Dirty
import Elitra.Fat32Files

namespace Elitra.Fat32
open Function List StateRun

variable {c b : ℕ} {data r : List Byte}

section Writing

variable {g : Instance} {v v' : Vol} {d d' : Disk} {D : ℕ → Prop} {T : Table}
  {chain : ℕ → List ℕ} {M : Map} {a fuel : ℕ} {n : List Byte} {it : Item} {p : Place}
  {row : List Byte} {name : Name}

/-- The entries of a table are where they were. -/
def SameRows (T : Table) (d d' : Disk) : Prop :=
  ∀ x m q jt, T x m = some (q, jt) → d'.row q = d.row q

lemma Owned.congr (h : Owned d T) (hr : SameRows T d d') : Owned d' T := by
  intro x m q jt y k r kt hx hy hc heq
  rw [hr x m q jt hx] at hc heq
  rw [hr y k r kt hy] at heq
  exact h x m q jt y k r kt hx hy hc heq

lemma Detached.of_rows (h : Detached d T c) (hr : SameRows T d d') : Detached d' T c := by
  intro x m q jt hx
  rw [hr x m q jt hx]
  exact h x m q jt hx

lemma allocFile_spec (hg : g.Regular) {k : ℕ} {r : Option ℕ}
    (hrun : allocChain g fuel (k + 1) 0 0 v = some (r, v')) :
    (view g v'.byte).blk = (view g v.byte).blk ∧
      ((∃ first t, r = some first ∧ freeClusters g (view g v.byte) =
            (first :: t) ++ freeClusters g (view g v'.byte) ∧
          t.length = k ∧ Chained g (view g v'.byte).fat (first :: t) ∧
          ∀ x, x ∉ first :: t → (view g v'.byte).fat x = (view g v.byte).fat x) ∨
        r = none ∧ (view g v'.byte).fat = (view g v.byte).fat) := by
  unfold allocChain at hrun
  rw [bind_apply, allocCluster_eq hg] at hrun
  cases hf : freeClusters g (view g v.byte) with
  | nil =>
    rw [hf] at hrun
    cases hrun
    exact ⟨rfl, .inr ⟨rfl, rfl⟩⟩
  | cons c cs =>
    obtain ⟨hc, hz⟩ := mem_freeClusters (hf ▸ mem_cons_self .. : c ∈ _)
    have h1 := hc.1
    rw [hf] at hrun
    dsimp only [Option.bind_some] at hrun
    rw [if_neg (by omega), if_neg (by omega)] at hrun
    have hv : view g (v.setFat g c fat32Eoc).byte = (view g v.byte).setFat c fat32Eoc :=
      view_setFat_of_lt hg hc (by decide)
    have hl : Chained g (view g (v.setFat g c fat32Eoc).byte).fat ([] ++ [c]) :=
      ⟨hc, by rw [hv, Disk.setFat_self]⟩
    obtain ⟨hblk, hres⟩ := allocChain_spec hg hl rfl hrun
    rw [hv] at hblk hres
    have hfat : ∀ x, x ≠ c → ((view g v.byte).setFat c fat32Eoc).fat x = (view g v.byte).fat x :=
      fun x hx => Disk.setFat_of_ne _ _ hx
    refine ⟨hblk, ?_⟩
    rcases hres with ⟨ns, hr, hsp, hlen, hch, hs⟩ | ⟨hr, hs⟩
    · rw [freeClusters_take hf (by rw [Disk.setFat_self]; decide)
        fun x hx => by rw [hfat x hx]] at hsp
      refine .inl ⟨c, ns, hr, by rw [hsp]; rfl, hlen, hch, fun x hx => ?_⟩
      exact (hs x hx).trans (hfat x fun heq => hx (heq ▸ mem_cons_self ..))
    · refine .inr ⟨hr, funext fun x => ?_⟩
      rw [hs x]
      split
      · rename_i hin
        rw [mem_singleton.mp hin, hz]
      · rename_i hout
        exact hfat x fun heq => hout (mem_singleton.mpr heq)

lemma freeClusters_congr (h : d'.fat = d.fat) : freeClusters g d' = freeClusters g d := by
  unfold freeClusters
  rw [h]

lemma clustersFor_mul (hpos : 0 < g.bytesPerCluster) (size : ℕ) :
    size ≤ clustersFor g size * g.bytesPerCluster := by
  unfold clustersFor
  have hdiv := Nat.div_add_mod (size + (g.bytesPerCluster - 1)) g.bytesPerCluster
  have hmod := Nat.mod_lt (size + (g.bytesPerCluster - 1)) hpos
  rw [Nat.mul_comm]
  omega

lemma writeChain_spec (hg : g.Regular) {r : ℤ} (hne : data ≠ [])
    (hsi : data.length < 2 ^ 32) (hbpc : g.bytesPerCluster < 2 ^ 32)
    (hrun : writeChain g fuel a name data v = some (r, v')) :
    (r = -1 ∧ view g v'.byte = view g v.byte) ∨
      r = 0 ∧ ∃ first t v2 b, freeClusters g (view g v.byte) =
          (first :: t) ++ freeClusters g (view g v2.byte) ∧
        (first :: t).length = clustersFor g data.length ∧
        Chained g (view g v2.byte).fat (first :: t) ∧
        (∀ x, x ∉ first :: t → (view g v2.byte).fat x = (view g v.byte).fat x ∧
          (view g v2.byte).blk x = (view g v.byte).blk x) ∧
        (content g (view g v2.byte) (first :: t)).take data.length = data ∧
        krustFat32AddDirEntry g (makeEntry (krustFat32NameToSfn name) attrArchive first
          data.length) fuel a v2 = some (b, v') := by
  have hpos := hg.pos
  unfold writeChain at hrun
  rw [if_neg (by omega), ite_apply] at hrun
  split at hrun
  · cases hrun
    exact .inl ⟨rfl, rfl⟩
  rename_i hnum
  -- a sum that wraps is smaller than a cluster
  have hs : data.length + (g.bytesPerCluster - 1) < 2 ^ 32 := by
    by_contra hbig
    have hmod : (data.length + (g.bytesPerCluster - 1)) % 2 ^ 32 < g.bytesPerCluster := by omega
    exact hnum (Nat.div_eq_of_lt hmod)
  rw [Nat.mod_eq_of_lt hs] at hnum hrun
  change clustersFor g data.length ≠ 0 at hnum
  obtain ⟨k, hk⟩ := Nat.exists_eq_succ_of_ne_zero hnum
  obtain ⟨r', v1, ha, hrun⟩ := bind_eq_some.mp hrun
  change allocChain g fuel (clustersFor g data.length) 0 0 v = _ at ha
  rw [hk] at ha
  obtain ⟨hblk, ⟨first, t, rfl, hf, hlen, hc, hfat⟩ | ⟨rfl, hfat⟩⟩ := allocFile_spec hg ha
  · obtain ⟨u, v2, hw, hrun⟩ := bind_eq_some.mp hrun
    obtain ⟨b, v3, hadd, hrun⟩ := bind_eq_some.mp hrun
    cases hrun
    have hl : (first :: t).length = clustersFor g data.length := by
      rw [length_cons, hlen, hk]
    obtain ⟨hfat2, ho, hco⟩ := writeData_spec hg hne hc
      (hl ▸ clustersFor_mul (by omega) _) hw
    refine .inr ⟨rfl, first, t, v2, b, ?_, hl, hfat2 ▸ hc, fun x hx => ⟨?_, ?_⟩, hco, hadd⟩
    · rw [freeClusters_congr hfat2]
      exact hf
    · rw [hfat2, hfat x hx]
    · rw [ho x hx, hblk]
  · cases hrun
    exact .inl ⟨rfl, Disk.ext hfat hblk⟩

lemma Represents.writeChain (hg : g.Regular)
    (hl : Laid g (view g v.byte) D T chain) (how : Owned (view g v.byte) T) (ha : D a)
    (hna : Proper name) (hnew : T a (krustFat32NameToSfn name) = none) (hne : data ≠ [])
    (hsm : data.length + (g.bytesPerCluster - 1) < 2 ^ 32)
    (hrm : Room g v a (clustersFor g data.length))
    (hrun : writeChain g fuel a name data v = some (0, v')) :
    Represents g v' (assign (items T) a (krustFat32NameToSfn name) (some (.file data))) := by
  have hbpc := hg.pos
  have hpos : 0 < data.length := length_pos_iff.mpr hne
  have hlen : data.length < 2 ^ 32 := by omega
  obtain ⟨hr, -⟩ | ⟨-, first, t, v2, b, hfr, hle, hli, ho, hco, hadd⟩ :=
    writeChain_spec hg hne hlen (by omega) hrun
  · cases hr
  have hnew' : ∀ x ∈ first :: t, g.InVolume x ∧ (view g v.byte).fat x = 0 := fun x hx =>
    mem_freeClusters (hfr ▸ mem_append_left _ hx)
  obtain ⟨hf, hz⟩ := hnew' first (mem_cons_self ..)
  obtain ⟨hD, hdet⟩ := hl.loose_free hg hf hz
  have hl2 := hl.adopt hg hli (fun x hx => (hnew' x hx).2) ho
  have hrow : ∀ x, ∀ q ∈ places g (chain x), (view g v2.byte).row q = (view g v.byte).row q :=
    fun x q hq => hl.row_of_free (fun y hy => (hnew' y hy).2) (fun y hy => (ho y hy).2) x hq
  have hro : SameRows T (view g v.byte) (view g v2.byte) := fun x m q jt hx =>
    hrow x q (hl.held x m q jt hx).2.1
  have hcl : first < 2 ^ 32 := by
    have hlt := hg.lt_entry hf
    omega
  obtain ⟨hn, hat, hc, hs⟩ :=
    makeEntry_fields (length_nameToSfn name) attrArchive first data.length hcl hlen
  have hfi : Fits g (view g v2.byte) D (update chain first (first :: t))
      (makeEntry (krustFat32NameToSfn name) attrArchive first data.length) (.file data) := by
    unfold Fits Stores
    rw [hat, hc, hs, update_self]
    exact ⟨by decide, rfl, hD, fun hnil => absurd hnil hne, fun _ => ⟨cons_ne_nil _ _, hle, hco⟩⟩
  have hrt : first ≠ g.rootCluster := fun heq => hD (heq ▸ hl.root)
  have hre := hl2.addDirEntry hg ha (length_makeEntry (length_nameToSfn name) _ _ _)
    (live_makeEntry hna (by decide) hcl hlen) (by rw [hn]; exact hnew)
    (by rw [hc]; exact hrt) hfi hadd
  rcases hre with ⟨-, p, chain3, hl3, hp, hro3⟩ | ⟨-, hno, hfu⟩
  · rw [hn] at hl3
    refine ⟨D, _, chain3, hl3, (how.congr hro).add hp hro3 fun _ => ?_,
      (items_assign T a _ (some (p, .file data))).symm⟩
    rw [hc]
    exact hdet.of_rows hro
  -- there was a free cluster, or a place, before the file was stored
  exfalso
  rw [update_of_ne fun heq : a = first => hD (heq ▸ ha)] at hfu
  have hd : (freeClusters g (view g v.byte)).drop (clustersFor g data.length) = [] := by
    rw [hfr, hno, append_nil, ← hle, drop_length]
  refine hrm.not_full hg hl ha hd fun q hq => ?_
  rw [← hrow a q hq]
  exact hfu q hq

lemma Represents.writeFile (hg : g.Regular) (h : Represents g v M)
    (hrd : Ready g v M (.writeFile a name data))
    (hrun : krustFat32WriteFile g fuel a name data v = some (0, v')) :
    Represents g v' (assign M a (krustFat32NameToSfn name) (some (.file data))) := by
  obtain ⟨D, T, chain, hl, ho, rfl⟩ := h
  obtain ⟨hdir, hna, hnew, hs, hro⟩ := hrd
  have ha := hl.isDir hdir
  rw [items_eq_none] at hnew
  unfold krustFat32WriteFile at hrun
  obtain ⟨r, v1, hf, hrun⟩ := bind_eq_some.mp hrun
  obtain ⟨hv, hr⟩ := (hl.find hg fuel ha hna).2 r v1 hf
  subst hv
  rw [hnew] at hr
  dsimp only at hr
  subst hr
  by_cases hnil : data = []
  · subst hnil
    obtain ⟨ok, v2, hadd, hrun⟩ := bind_eq_some.mp hrun
    cases ok with
    | false => cases hrun
    | true =>
      cases hrun
      obtain ⟨hn, hat, hcl, hsi⟩ := makeEntry_fields
        (length_nameToSfn name) attrArchive 0 0 (by decide) (by decide)
      have hz : ¬ g.InVolume 0 := fun hin => absurd hin.1 (by decide)
      have hfi : Fits g (view g v1.byte) D chain
          (makeEntry (krustFat32NameToSfn name) attrArchive 0 0) (.file []) := by
        unfold Fits
        rw [hat, hcl, hsi]
        exact ⟨by decide, rfl, fun hD => hz (hl.inVolume_of_dir hD),
          fun _ hc => absurd hc.1 (by decide), fun hne => absurd rfl hne⟩
      have hre := Represents.add hg hl ho ha
        (length_makeEntry (length_nameToSfn name) _ _ _)
        (live_makeEntry hna (by decide) (by decide) (by decide)) (by rw [hn]; exact hnew)
        (by rw [hcl]; exact fun heq => hz (heq ▸ hl.root_inVolume)) hfi
        (by rw [hcl]; exact fun hc => absurd hc.1 (by decide)) hadd
      rw [hn] at hre
      exact hre
  have hch : Fat32.writeChain g fuel a name data v1 = some (0, v') := by
    rw [← hrun]
    change _ = (if data = [] then _ else _ : Prog Vol ℤ) v1
    rw [if_neg hnil]
  exact Represents.writeChain hg hl ho ha hna hnew hnil hs
    (hro.resolve_left hnil) hch

lemma dots_head (d : Disk) (c parent : ℕ) {o : ℕ} (ho : o ∈ offsets g) :
    headOf ((d.clear g c (dotEntries c parent)).row (c, o)) = if o < 64 then dot else 0 := by
  have hend := (mem_offsets ho).1
  obtain ⟨k, hk⟩ := (mem_offsets ho).2
  have hlen : (dotEntries c parent).length = 64 := rfl
  unfold Disk.clear
  rw [headOf_row, Disk.put_self, hlen]
  by_cases hlt : o < 64
  · rw [if_pos (by omega), if_pos hlt]
    have hc : o = 0 ∨ o = 32 := by omega
    rcases hc with hc | hc
    · rw [hc]
      rfl
    rw [hc]
    rfl
  rw [if_neg (by omega), if_neg hlt, ← headOf_row (d.put c 0 _) (c, o)]
  exact put_zeros_head d ho

lemma sorted_offsets (g : Instance) : (offsets g).Pairwise (· < ·) := by
  unfold offsets
  apply List.Pairwise.map _ _ pairwise_lt_range
  intro i j hij
  omega

lemma dots_closed (g : Instance) (d : Disk) (c parent : ℕ) :
    Closed g (d.clear g c (dotEntries c parent)) [c] ∧
      ∀ q ∈ places g [c], ¬ Live ((d.clear g c (dotEntries c parent)).row q) := by
  constructor
  · unfold Closed
    rw [places_cons]
    refine pairwise_append.mpr ⟨?_, List.Pairwise.nil, fun _ _ r hr => (by cases hr)⟩
    apply pairwise_map.mpr
    refine (sorted_offsets g).imp_of_mem fun {o o'} ho ho' hlt => ?_
    rw [dots_head d c parent ho, dots_head d c parent ho']
    intro hz
    have hbig : ¬ o < 64 := by
      intro hs
      rw [if_pos hs] at hz
      exact absurd hz (by decide)
    rw [if_neg (by omega)]
  intro q hq hl
  obtain ⟨o, ho, rfl⟩ := mem_places_single hq
  have hh := dots_head d c parent ho
  by_cases hlt : o < 64
  · rw [if_pos hlt] at hh
    exact hl.2.2.1 hh
  rw [if_neg hlt] at hh
  exact hl.1 hh

lemma Disk.clear_blk_of_ne (d : Disk) (entries : List Byte) {x : ℕ} (hx : x ≠ c) :
    (d.clear g c entries).blk x = d.blk x :=
  (Disk.put_of_ne _ _ _ hx).trans (Disk.put_of_ne _ _ _ hx)

lemma Laid.newDir (hg : g.Regular) (h : Laid g d D T chain) (ho : Owned d T)
    (hc : g.InVolume c) (hz : d.fat c = 0) (parent : ℕ)
    (hd' : d' = (d.setFat c fat32Eoc).clear g c (dotEntries c parent)) :
    Laid g d' (fun x => x = c ∨ D x) T (update chain c [c]) ∧ Owned d' T ∧
      Detached d' T c := by
  have hdet := (h.loose_free hg hc hz).2
  have hs : update chain c [c] c = [c] := update_self ..
  have hf : ∀ x ∈ [c], d.fat x = 0 := by
    intro x hx
    rw [mem_singleton.mp hx, hz]
  have hsa : ∀ x, x ∉ [c] → d'.fat x = d.fat x ∧ d'.blk x = d.blk x := by
    intro x hx
    have hne : x ≠ c := fun heq => hx (mem_singleton.mpr heq)
    rw [hd']
    exact ⟨Disk.setFat_of_ne _ _ hne, Disk.clear_blk_of_ne _ _ hne⟩
  have hl : Chained g d'.fat [c] := ⟨hc, by rw [hd']; exact (Disk.setFat_self ..).ge⟩
  have hla := h.adopt hg hl hf hsa
  have hr : SameRows T d d' := fun x m q jt hx =>
    h.row_of_free hf (fun y hy => (hsa y hy).2) x (h.held x m q jt hx).2.1
  have hdet' := Detached.of_rows hdet hr
  obtain ⟨hcl, he⟩ := dots_closed g (d.setFat c fat32Eoc) c parent
  rw [← hd'] at hcl he
  refine ⟨?_, Owned.congr ho hr, hdet'⟩
  exact hla.makeDir hdet' (by rw [hs]; exact cons_ne_nil c [])
    (by rw [hs]; exact hcl) (by rw [hs]; exact he)

lemma Represents.createDir (hg : g.Regular) (h : Represents g v M)
    (hre : Ready g v M (.createDir a name))
    (hrun : krustFat32CreateDir g fuel a name v = some (0, v')) :
    Represents g v' (assign M a (krustFat32NameToSfn name)
      (some (.dir ((freeClusters g (view g v.byte)).headD 0)))) := by
  obtain ⟨D, T, chain, hl, ho, rfl⟩ := h
  obtain ⟨hdir, hna, hnew, hro⟩ := hre
  have ha := hl.isDir hdir
  rw [items_eq_none] at hnew
  unfold krustFat32CreateDir at hrun
  rw [bind_apply, allocCluster_eq hg] at hrun
  cases hf : freeClusters g (view g v.byte) with
  | nil =>
    rw [hf] at hrun
    cases hrun
  | cons c cs =>
    obtain ⟨hc, hz⟩ := mem_freeClusters (hf ▸ mem_cons_self .. : c ∈ _)
    have h1 := hc.1
    rw [hf] at hrun
    dsimp only [Option.bind_some] at hrun
    rw [if_neg (by omega)] at hrun
    obtain ⟨u, v1, hmod, hrun⟩ := bind_eq_some.mp hrun
    obtain ⟨b, v2, hadd, hrun⟩ := bind_eq_some.mp hrun
    have hv1 : v1 = (v.setFat g c fat32Eoc).clearCluster g c
        (dotEntries c (if a = g.rootCluster then 0 else a)) := by
      cases hmod
      rfl
    generalize (if a = g.rootCluster then 0 else a) = parent at hv1
    have hd : (dotEntries c parent).length ≤ g.bytesPerCluster := hg.pos
    have hvi : view g v1.byte =
        ((view g v.byte).setFat c fat32Eoc).clear g c (dotEntries c parent) := by
      rw [hv1, view_clearCluster hg hc hd, view_setFat_of_lt hg hc (by decide)]
    have hD := (hl.loose_free hg hc hz).1
    obtain ⟨hl1, ho1, hdet1⟩ := hl.newDir hg ho hc hz parent hvi
    have hcl : c < 2 ^ 32 := by
      have hlt := hg.lt_entry hc
      omega
    obtain ⟨hn, hat, hcs, -⟩ := makeEntry_fields
      (length_nameToSfn name) attrDirectory c 0 hcl (by decide)
    have hfi : Fits g (view g v1.byte) (fun x => x = c ∨ D x) (update chain c [c])
        (makeEntry (krustFat32NameToSfn name) attrDirectory c 0) (.dir c) := by
      unfold Fits
      rw [hat, hcs]
      exact ⟨by decide, rfl, .inl rfl⟩
    have hrt : c ≠ g.rootCluster := fun heq => hD (heq ▸ hl.root)
    have hr := hl1.addDirEntry hg (.inr ha)
      (length_makeEntry (length_nameToSfn name) _ _ _)
      (live_makeEntry hna (by decide) hcl (by decide)) (by rw [hn]; exact hnew)
      (by rw [hcs]; exact hrt) hfi hadd
    rcases hr with ⟨-, p, chain2, hl2, hrow, hrw⟩ | ⟨-, hno, hfu⟩
    · rw [hn] at hl2
      cases hrun
      refine ⟨_, _, chain2, hl2, ho1.add hrow hrw fun _ => ?_,
        (items_assign T a _ (some (p, .dir c))).symm⟩
      rw [hcs]
      exact hdet1
    -- there was a free cluster, or a place, before the directory was made
    exfalso
    have hac : a ≠ c := fun heq => hD (heq ▸ ha)
    rw [update_of_ne hac] at hfu
    have ht : freeClusters g (view g v1.byte) = cs := by
      rw [hvi]
      apply freeClusters_take hf
      · change ((view g v.byte).setFat c fat32Eoc).fat c ≠ 0
        rw [Disk.setFat_self]
        decide
      intro x hx
      change ((view g v.byte).setFat c fat32Eoc).fat x = 0 ↔ _
      rw [Disk.setFat_of_ne _ _ hx]
    rw [ht] at hno
    refine hro.not_full hg hl ha (by rw [hf, hno]; rfl) fun q hq => ?_
    have hqr : (view g v1.byte).row q = (view g v.byte).row q := by
      apply row_congr
      rw [hvi]
      refine Disk.clear_blk_of_ne _ _ fun heq => ?_
      exact hl.not_mem_free hz a (heq ▸ (mem_places.mp hq).1)
    rw [← hqr]
    exact hfu q hq

lemma Fits.of_fields {chain : ℕ → List ℕ} (h : Fits g d D chain r it)
    (ha : attrOf row = attrOf r) (hc : dirGetCluster row = dirGetCluster r)
    (hs : sizeOf row = sizeOf r) : Fits g d D chain row it := by
  cases it with
  | file data =>
    unfold Fits
    rw [ha, hc, hs]
    exact h
  | dir b =>
    unfold Fits
    rw [ha, hc]
    exact h

lemma live_renamed {new : Name} (hr : Live r) (hnew : Proper new) :
    Live (krustFat32NameToSfn new ++ r.drop 11) := by
  have ha : attrOf (krustFat32NameToSfn new ++ r.drop 11) = attrOf r :=
    getD_renamed (length_nameToSfn new) le_rfl
  unfold Live
  rw [headOf_append (length_nameToSfn new), ha]
  exact ⟨(headOf_nameToSfn new).1, hnew.2, (headOf_nameToSfn new).2, hr.2.2.2⟩

lemma assign_moved {x : ℕ} {n m k : List Byte} {q y : Place} {kt : Item}
    (h : assign (assign T b m (some (q, it))) a n none x k = some (y, kt)) :
    (x = b ∧ k = m ∧ y = q) ∨ (T x k = some (y, kt) ∧ ¬ (x = a ∧ k = n)) := by
  have hnot : ¬ (x = a ∧ k = n) := by
    intro hc
    rw [hc.1, hc.2, assign_self] at h
    cases h
  rw [assign_of_ne hnot] at h
  by_cases hxb : x = b ∧ k = m
  · rw [hxb.1, hxb.2, assign_self] at h
    cases h
    exact .inl ⟨hxb.1, hxb.2, rfl⟩
  rw [assign_of_ne hxb] at h
  exact .inr ⟨h, hnot⟩

lemma Owned.move (h : Owned d T) {n m : List Byte} {p q : Place} (hp : T a n = some (p, it))
    (hnew : dirGetCluster (d'.row q) = dirGetCluster (d.row p))
    (hr : ∀ x k y kt, T x k = some (y, kt) → ¬ (x = a ∧ k = n) → d'.row y = d.row y) :
    Owned d' (assign (assign T b m (some (q, it))) a n none) := by
  intro x k y kt x' k' y' kt' hx hx' hc heq
  rcases assign_moved hx with ⟨rfl, rfl, rfl⟩ | ⟨hold, hnot⟩
  · rcases assign_moved hx' with ⟨rfl, rfl, rfl⟩ | ⟨hold', hnot'⟩
    · exact ⟨rfl, rfl⟩
    rw [hnew] at hc heq
    rw [hr x' k' y' kt' hold' hnot'] at heq
    obtain ⟨hxa, hka⟩ := h a n p it x' k' y' kt' hp hold' hc heq
    exact absurd ⟨hxa.symm, hka.symm⟩ hnot'
  rw [hr x k y kt hold hnot] at hc heq
  rcases assign_moved hx' with ⟨rfl, rfl, rfl⟩ | ⟨hold', hnot'⟩
  · rw [hnew] at heq
    exact absurd (h x k y kt a n p it hold hp hc heq) hnot
  rw [hr x' k' y' kt' hold' hnot'] at heq
  exact h x k y kt x' k' y' kt' hold hold' hc heq

lemma Represents.renameEntry (hg : g.Regular) {new : Name} (h : Represents g v M)
    (hrd : Ready g v M (.renameEntry a name b new))
    (hrun : krustFat32RenameEntry g fuel a name b new v = some (0, v')) :
    Represents g v' (assign (assign M b (krustFat32NameToSfn new)
      (M a (krustFat32NameToSfn name))) a (krustFat32NameToSfn name) none) := by
  obtain ⟨D, T, chain, hl, how, rfl⟩ := h
  obtain ⟨hd, hna, hdi, hne, hf⟩ := hrd
  have ha := hl.isDir hd
  have hb := hl.isDir hdi
  rw [items_eq_none] at hf
  unfold krustFat32RenameEntry at hrun
  obtain ⟨r, v1, hfi, hrun⟩ := bind_eq_some.mp hrun
  obtain ⟨hv, hr⟩ := (hl.find hg fuel ha hna).2 r v1 hfi
  subst hv
  cases hT : T a (krustFat32NameToSfn name) with
  | none =>
    rw [hT] at hr
    dsimp only at hr
    subst hr
    cases hrun
  | some q =>
    obtain ⟨p, it⟩ := q
    rw [hT] at hr
    dsimp only at hr
    subst hr
    obtain ⟨ok, v2, hadd, hrun⟩ := bind_eq_some.mp hrun
    cases ok with
    | false => cases hrun
    | true =>
      obtain ⟨-, -, hli, -, hro, hft⟩ := hl.held a _ p it hT
      have hsfn := length_nameToSfn new
      have hget : ∀ i, 11 ≤ i → (krustFat32NameToSfn new ++ ((view g v1.byte).row p).drop 11).getD i 0 =
          ((view g v1.byte).row p).getD i 0 := fun i hi => getD_renamed hsfn hi
      have hc := dirGetCluster_congr hget
      have hlen : (krustFat32NameToSfn new ++ ((view g v1.byte).row p).drop 11).length = 32 := by
        rw [length_append, length_drop, length_row, hsfn]
      have hn : nameOf (krustFat32NameToSfn new ++ ((view g v1.byte).row p).drop 11) =
          krustFat32NameToSfn new := take_left' hsfn
      have hre := hl.addDirEntry hg hb hlen (live_renamed hli hne)
        (by rw [hn]; exact hf) (by rw [hc]; exact hro)
        (hft.of_fields (hget 11 le_rfl) hc (sizeOf_congr hget)) hadd
      rcases hre with ⟨-, q, chain1, hl1, hrow, hrw⟩ | ⟨hfa, -⟩
      · rw [hn] at hl1
        have ho : ¬ (a = b ∧ krustFat32NameToSfn name = krustFat32NameToSfn new) := by
          intro hs
          rw [hs.1, hs.2, hf] at hT
          cases hT
        have hT1 : assign T b (krustFat32NameToSfn new) (some (q, it)) a (krustFat32NameToSfn name) =
            some (p, it) := by
          rw [assign_of_ne ho]
          exact hT
        obtain ⟨p', it', hit', hvi⟩ := hl1.removed hg ha hna hrun
        rw [hT1] at hit'
        obtain ⟨hpp, -⟩ := Prod.mk.inj (Option.some.inj hit')
        rw [← hpp] at hvi
        have hl2 := hl1.remove hT1
        -- the entries that the removal leaves as they are
        have hk {x m y kt} (hx : assign (assign T b (krustFat32NameToSfn new) (some (q, it))) a
            (krustFat32NameToSfn name) none x m = some (y, kt)) :
            (view g v'.byte).row y = (view g v2.byte).row y := by
          rw [hvi]
          exact hl1.row_removed hT1 hx
        rw [← hvi] at hl2
        refine ⟨D, _, chain1, hl2, how.move hT ?_ fun x m y kt hx hnot => ?_, ?_⟩
        · have hnew : assign (assign T b (krustFat32NameToSfn new) (some (q, it))) a
              (krustFat32NameToSfn name) none b (krustFat32NameToSfn new) = some (q, it) := by
            rw [assign_of_ne fun hca => ho ⟨hca.1.symm, hca.2.symm⟩, assign_self]
          rw [hk hnew, hrow, hc]
        · have hxb : ¬ (x = b ∧ m = krustFat32NameToSfn new) := by
            intro hca
            rw [hca.1, hca.2, hf] at hx
            cases hx
          have hx' : assign (assign T b (krustFat32NameToSfn new) (some (q, it))) a
              (krustFat32NameToSfn name) none x m = some (y, kt) := by
            rw [assign_of_ne hnot, assign_of_ne hxb]
            exact hx
          rw [hk hx', hrw x m y kt hx]
        · rw [items_assign, items_assign, items_of_some hT]
          rfl
      · cases hfa

end Writing

section Runs

variable (g : Instance)

def Call.Named : Call → Prop
  | .writeFile _ _ _ | .createDir _ _ | .deleteFile _ _ | .deleteDir _ _ => True
  | .renameEntry _ _ _ _ => True
  | _ => False

/-- Calls that succeed, from a well-formed volume on, each under a condition; with the map that they
should have led to. -/
inductive Run (ready : Vol → Map → Call → Prop) : Vol → Map → Prop
  | start {v : Vol} {M : Map} : Represents g v M → Run ready v M
  | call {v v' : Vol} {M : Map} (fuel : ℕ) (c : Call) :
      Run ready v M → ready v M c → c.exec g fuel v = some (0, v') → Run ready v' (c.after g v M)

def ChainFrom (d : Disk) (c : ℕ) (l : List ℕ) : Prop := (∃ k, l = c :: k) ∧ Chained g d.fat l

/-- The volume shows the map: a name is looked up to the entry of its item, no directory has a name
twice, and the chains of entries are disjoint and without free clusters. -/
structure Agrees (v : Vol) (M : Map) (chain : ℕ → List ℕ) : Prop where
  dirs : ∀ a, IsDir g M a → ChainFrom g (view g v.byte) a (chain a)
  absent : ∀ a name fuel, IsDir g M a → Proper name → (chain a).length ≤ fuel →
    M a (krustFat32NameToSfn name) = none →
    krustFat32FindDirEntry g fuel a name v = some (none, v)
  lookup : ∀ a name fuel it, IsDir g M a → Proper name → (chain a).length ≤ fuel →
    M a (krustFat32NameToSfn name) = some it →
    ∃ row, krustFat32FindDirEntry g fuel a name v = some (some row, v) ∧
      nameOf row = krustFat32NameToSfn name ∧ Fits g (view g v.byte) (IsDir g M) chain row it
  single : ∀ a p q, IsDir g M a → p ∈ places g (chain a) → q ∈ places g (chain a) →
    Live ((view g v.byte).row p) → Live ((view g v.byte).row q) →
    nameOf ((view g v.byte).row p) = nameOf ((view g v.byte).row q) → p = q
  chains : ∀ a p, IsDir g M a → p ∈ places g (chain a) → Live ((view g v.byte).row p) →
    HasChain (dirGetCluster ((view g v.byte).row p)) →
    ChainFrom g (view g v.byte) (dirGetCluster ((view g v.byte).row p))
        (chain (dirGetCluster ((view g v.byte).row p))) ∧
      ∀ c ∈ chain (dirGetCluster ((view g v.byte).row p)), (view g v.byte).fat c ≠ fat32Free
  disjoint : ∀ a b p q, IsDir g M a → IsDir g M b → p ∈ places g (chain a) →
    q ∈ places g (chain b) → Live ((view g v.byte).row p) → Live ((view g v.byte).row q) → p ≠ q →
    HasChain (dirGetCluster ((view g v.byte).row p)) →
    ∀ c ∈ chain (dirGetCluster ((view g v.byte).row p)),
      c ∉ chain (dirGetCluster ((view g v.byte).row q))

variable {g} {v v' : Vol} {M : Map}

lemma Represents.call (hg : g.Regular) {fuel : ℕ} {c : Call} (h : Represents g v M)
    (hr : Ready g v M c) (hrun : c.exec g fuel v = some (0, v')) :
    Represents g v' (c.after g v M) := by
  cases c with
  | writeFile a name data => exact h.writeFile hg hr hrun
  | createDir a name => exact h.createDir hg hr hrun
  | deleteFile a name => exact h.deleteEntry hg hr.1 hr.2.1 hr.2.2 hrun
  | deleteDir a name => exact h.deleteEntry hg hr.1 hr.2.1 hr.2.2 hrun
  | renameEntry a n b m => exact h.renameEntry hg hr hrun
  | _ => exact hr.elim

lemma Run.represents (hg : g.Regular) (h : Run g (Ready g) v M) : Represents g v M := by
  induction h with
  | start h => exact h
  | call fuel c _ hr hrun ih => exact ih.call hg hr hrun

lemma Represents.agrees (hg : g.Regular) (h : Represents g v M) :
    ∃ chain, Agrees g v M chain := by
  obtain ⟨D, T, chain, hl, ho, rfl⟩ := h
  have hD : ∀ a, IsDir g (items T) a → D a := fun a ha => hl.isDir ha
  refine ⟨chain, fun a ha => hl.linked a (hl.dirs a (hD a ha)), ?_, ?_, ?_, ?_, ?_⟩
  · intro a name fuel ha hna hfu hno
    rw [items_eq_none] at hno
    obtain ⟨ht, hs⟩ := hl.find hg fuel (hD a ha) hna
    obtain ⟨r, hr⟩ := ht hfu
    have hres := (hs r v hr).2
    rw [hno] at hres
    dsimp only at hres
    rw [hr, hres]
  · intro a name fuel it ha hna hfu hit
    obtain ⟨⟨p, jt⟩, hT, hjt⟩ := Option.map_eq_some_iff.mp hit
    rw [show jt = it from hjt] at hT
    obtain ⟨ht, hs⟩ := hl.find hg fuel (hD a ha) hna
    obtain ⟨r, hr⟩ := ht hfu
    have hres := (hs r v hr).2
    rw [hT] at hres
    dsimp only at hres
    obtain ⟨-, -, -, hn, -, hf⟩ := hl.held a _ p it hT
    refine ⟨_, by rw [hr, hres], hn, ?_⟩
    cases it with
    | file data => exact ⟨hf.1, hf.2.1, fun hdir => hf.2.2.1 (hD _ hdir), hf.2.2.2⟩
    | dir b => exact ⟨hf.1, hf.2.1, .inr ⟨a, _, hit⟩⟩
  · intro a p q ha hp hq hlp hlq hna
    obtain ⟨it, hit⟩ := hl.shown a (hD a ha) p hp hlp
    obtain ⟨jt, hjt⟩ := hl.shown a (hD a ha) q hq hlq
    rw [hna, hjt] at hit
    exact (Prod.mk.inj (Option.some.inj hit)).1.symm
  · intro a p ha hp hlp hc
    obtain ⟨it, hit⟩ := hl.shown a (hD a ha) p hp hlp
    have hli := hl.linked _ (hl.chain_of_entry hit hc)
    exact ⟨hli, hli.2.ne_zero⟩
  intro a b p q ha hb hp hq hlp hlq hne hc x hx hx'
  obtain ⟨it, hit⟩ := hl.shown a (hD a ha) p hp hlp
  obtain ⟨jt, hjt⟩ := hl.shown b (hD b hb) q hq hlq
  obtain ⟨hab, hna⟩ := ho a _ p it b _ q jt hit hjt hc (hl.apart _ _ x hx hx')
  rw [hab, hna, hjt] at hit
  exact hne (Prod.mk.inj (Option.some.inj hit)).1.symm

end Runs

/-- In every run of calls that use proper names in directories of the volume, make new names only,
have room for their entries and delete only empty directories, the volume shows the map that the
calls stand for. -/
theorem run_agrees (g : Instance) (hg : g.Regular) (v : Vol) (M : Map) (h : Run g (Ready g) v M) :
    ∃ chain, Agrees g v M chain :=
  (h.represents hg).agrees hg

lemma wide_regular : wide.Regular where
  bytes := by decide
  data := by decide
  entries := by decide
  entryOffsets := by decide
  sectors := by decide
  fats := by decide
  slotted := by decide
  clusters := by decide
  dots := by decide
  numbers := by decide

def noItems : Map := fun _ _ => none

lemma wide_represents : Represents wide (mounted wideImage) noItems := by
  have hh : ∀ p ∈ places wide [2], headOf ((view wide (mounted wideImage).byte).row p) = 0 := by
    decide +kernel
  have hr : ∀ h, (if h = 2 then [2] else []) ≠ ([] : List ℕ) → h = 2 := by
    intro h hne
    by_contra hno
    exact hne (if_neg hno)
  refine ⟨fun a => a = 2, fun _ _ => none, fun h => if h = 2 then [2] else [],
    ⟨fun h hne => ?_, fun h h' c hc hc' => ?_, rfl, fun a ha => ?_, fun a ha => ?_,
      fun a ha p hp hl => ?_, fun a n p it hT => ?_⟩, fun a n p it b m q jt hT => ?_, rfl⟩
  · rw [hr h hne, if_pos rfl]
    exact ⟨⟨[], rfl⟩, by decide, by decide +kernel⟩
  · rw [hr h (ne_nil_of_mem hc), hr h' (ne_nil_of_mem hc')]
  · rw [ha, if_pos rfl]
    exact cons_ne_nil 2 []
  · rw [ha, if_pos rfl]
    exact pairwise_of_forall_mem_list fun _ _ q hq _ => hh q hq
  · rw [ha, if_pos rfl] at hp
    exact absurd (hh p hp) hl.1
  · cases hT
  · cases hT

def wideNote : Option (ℤ × Vol) := (Call.writeFile 2 nameD [1, 2, 3]).exec wide 2 (mounted wideImage)

lemma wideNote_run : ∃ v', wideNote = some (0, v') := by
  have hval : wideNote.map (·.1) = some 0 := by decide +kernel
  obtain ⟨⟨r, v'⟩, hrun, rfl⟩ := Option.map_eq_some_iff.mp hval
  exact ⟨v', hrun⟩

theorem run_agrees_wideNote :
    ∃ v M, Run wide (Ready wide) v M ∧ M 2 (krustFat32NameToSfn nameD) = some (.file [1, 2, 3]) ∧
      ∃ chain, Agrees wide v M chain := by
  have hr : Ready wide (mounted wideImage) noItems (.writeFile 2 nameD [1, 2, 3]) := by
    refine ⟨.inl rfl, ⟨by decide, by decide⟩, rfl, by decide, .inr (.inr ⟨[], ?_, ?_⟩)⟩
    · exact ⟨by decide, by decide +kernel⟩
    · exact ⟨(2, 0), by decide +kernel, .inl (by decide +kernel)⟩
  obtain ⟨v', he⟩ := wideNote_run
  have hrun : Run wide (Ready wide) _ _ := .call 2 _ (.start wide_represents) hr he
  exact ⟨_, _, hrun, assign_self .., run_agrees wide wide_regular _ _ hrun⟩

def wideTwice : Option (ℤ × Vol) :=
  ((Call.writeFile 2 nameD [1]).exec wide 2 (mounted wideImage)).bind fun p =>
    (Call.writeFile 2 nameD [2, 2]).exec wide 2 p.2

lemma wideTwice_isSome : wideTwice.isSome = true := by decide +kernel

/-- Both writes succeed; the directory then has the name twice, and the search finds the entry of the
first write. -/
theorem second_write_duplicates :
    ∃ v M, Run wide (fun _ _ c => c.Named) v M ∧
      M 2 (krustFat32NameToSfn nameD) = some (.file [2, 2]) ∧
      (krustFat32FindDirEntry wide 2 2 nameD v).map (fun r => r.1.map sizeOf) = some (some 1) ∧
      ∀ chain, ¬ Agrees wide v M chain := by
  obtain ⟨⟨r, v⟩, hf, hs⟩ :=
    Option.bind_eq_some_iff.mp (Option.some_get wideTwice_isSome).symm
  have hr : r = 0 := by
    have hval : ((Call.writeFile 2 nameD [1]).exec wide 2 (mounted wideImage)).map (·.1) =
        some 0 := by decide +kernel
    rw [hf] at hval
    exact Option.some.inj hval
  have hr' : (wideTwice.get wideTwice_isSome).1 = 0 := by decide +kernel
  subst hr
  have hla : (Call.writeFile 2 nameD [2, 2]).exec wide 2 v =
      some (0, (wideTwice.get wideTwice_isSome).2) := by
    rw [← hr']
    exact hs
  have h1 : Run wide (fun _ _ c => c.Named) v _ :=
    .call 2 (.writeFile 2 nameD [1]) (.start wide_represents) trivial hf
  have h2 : Run wide (fun _ _ c => c.Named) _ _ :=
    .call 2 (.writeFile 2 nameD [2, 2]) h1 trivial hla
  refine ⟨_, _, h2, assign_self .., by decide +kernel, fun chain ha => ?_⟩
  obtain ⟨⟨l, hl⟩, -⟩ := ha.dirs 2 (.inl rfl)
  have hp : ∀ o ∈ offsets wide, (2, o) ∈ places wide (chain 2) := by
    intro o ho
    rw [hl]
    exact mem_places.mpr ⟨mem_cons_self .., ho⟩
  have hsa := ha.single 2 (2, 0) (2, 32) (.inl rfl) (hp 0 (by decide +kernel))
    (hp 32 (by decide +kernel)) (by unfold Live; decide +kernel) (by unfold Live; decide +kernel)
    (by decide +kernel)
  cases hsa

end Elitra.Fat32
