import Elitra.PageOrder

namespace Elitra.Paging
open List Radix

/-- The pages a fork shares: present, writable and open to user code. -/
def shareable (e : Pte) : Bool := writable e && user e

/-- What the fork leaves in both directories for a present page. -/
def forked (e : Pte) : Pte := if shareable e then cowEntry e else e

def countShare (c : Cow.State) (e : Pte) : Cow.State :=
  if present e && shareable e then Cow.krustCowRefinc c (frame32 e) else c

/-- The share counts after the fork went over the first `k` pages. -/
def countUpTo (m : Machine) (src k : ℕ) : Cow.State :=
  (List.range k).foldl (fun c v => countShare c (leaf m src v)) m.cow

/-- A fork in progress: the pages below `k` are done, `m₀` is the machine it started on. -/
structure Copied (spaces kern : Set ℕ) (src dst : ℕ) (place₀ place : Place) (m₀ m : Machine)
    (k : ℕ) : Prop extends Frames place₀ place m₀ m where
  tables : Tables spaces kern place m
  source : ∀ v, v < userPages → leaf m src v =
    if v < k ∧ present (leaf m₀ src v) = true then forked (leaf m₀ src v) else leaf m₀ src v
  target : ∀ v, v < userPages → leaf m dst v =
    if v < k ∧ present (leaf m₀ src v) = true then forked (leaf m₀ src v) else leaf m₀ dst v
  others : ∀ r ∈ spaces, r ≠ src → r ≠ dst → ∀ v, v < userPages → leaf m r v = leaf m₀ r v
  counts : m.cow = countUpTo m₀ src k
  bound : k ≤ userPages

lemma countUpTo_succ (m : Machine) (src k : ℕ) :
    countUpTo m src (k + 1) = countShare (countUpTo m src k) (leaf m src k) := by
  rw [countUpTo, range_succ, foldl_append]
  rfl

lemma countShare_absent {c : Cow.State} {e : Pte} (h : present e = false) : countShare c e = c := by
  rw [countShare, h]
  rfl

lemma shareable_forked (e : Pte) : shareable (forked e) = false := by
  unfold forked
  cases hs : shareable e with
  | false => exact hs
  | true =>
    rw [if_pos rfl, shareable, writable_cowEntry]
    rfl

lemma shareable_flags (e : Pte) :
    (writable (e &&& flagsMask) && user (e &&& flagsMask)) = shareable e := by
  have hw : flagsMask.getLsbD 1 = true ∧ flagsMask.getLsbD 2 = true := by decide
  rw [shareable, writable_eq, writable_eq, user_eq, user_eq, BitVec.getLsbD_and, BitVec.getLsbD_and,
    hw.1, hw.2, Bool.and_true, Bool.and_true]

lemma untracked_countUpTo (m : Machine) (src k f : ℕ) :
    Cow.untracked (countUpTo m src k) f = Cow.untracked m.cow f := by
  induction k with
  | zero => rfl
  | succ k ih =>
    rw [countUpTo_succ, countShare]
    split
    · rw [Cow.untracked_refinc, ih]
    · exact ih

variable {m : Machine}

lemma refcount_countUpTo_other {src k f : ℕ}
    (h : ∀ v, v < k → (present (leaf m src v) && shareable (leaf m src v)) = true →
      frame32 (leaf m src v) ≠ f) :
    Cow.krustCowRefcount (countUpTo m src k) f = Cow.krustCowRefcount m.cow f := by
  induction k with
  | zero => rfl
  | succ k ih =>
    have hk := ih fun v hv => h v (by omega)
    rw [countUpTo_succ, countShare]
    split
    · rename_i hs
      rw [Cow.refcount_refinc, if_neg fun hf => h k (by omega) hs hf.1.symm, hk]
    · exact hk

lemma refcount_countUpTo_one {src k v0 f : ℕ} (hv0 : v0 < k)
    (hs : (present (leaf m src v0) && shareable (leaf m src v0)) = true)
    (hf : frame32 (leaf m src v0) = f) (ht : Cow.untracked m.cow f = false)
    (hz : Cow.krustCowRefcount m.cow f = 0)
    (h : ∀ v, v < k → v ≠ v0 → (present (leaf m src v) && shareable (leaf m src v)) = true →
      frame32 (leaf m src v) ≠ f) :
    Cow.krustCowRefcount (countUpTo m src k) f = 1 := by
  induction k, hv0 using Nat.le_induction with
  | base =>
    have hb := refcount_countUpTo_other (m := m) (k := v0)
      fun v hv => h v (by omega) (by omega)
    rw [countUpTo_succ, countShare, if_pos hs, Cow.refcount_refinc, untracked_countUpTo, hf,
      if_pos ⟨rfl, ht⟩, hb, hz]
    rfl
  | succ k hk ih =>
    have hb := ih fun v hv => h v (by omega)
    have hne : k ≠ v0 := by
      intro he
      omega
    rw [countUpTo_succ, countShare]
    split
    · rename_i hs'
      rw [Cow.refcount_refinc, if_neg fun hc => h k (by omega) hne hs' hc.1.symm, hb]
    · exact hb

section Copy

variable {spaces kern : Set ℕ} {src dst : ℕ} {place₀ place place' : Place} {m₀ m m' : Machine}
  {k : ℕ}

lemma Copied.start (h : Tables spaces kern place m) : Copied spaces kern src dst place place m m 0 :=
  ⟨Frames.refl place m, h, fun v _ => by simp, fun v _ => by simp, fun _ _ _ _ _ _ => rfl, rfl,
    Nat.zero_le _⟩

section

variable (h : Copied spaces kern src dst place₀ place m₀ m k)
include h

lemma Copied.grow (hsrc : src ∈ spaces)
    (hdst : dst ∈ spaces) (ht : Tables spaces kern place' m') (hg : Grown spaces place place' m m') :
    Copied spaces kern src dst place₀ place' m₀ m' k := by
  refine ⟨h.toFrames.trans hg.toFrames, ht, ?_, ?_, ?_, hg.cow.trans h.counts, h.bound⟩
  · intro v hv
    rw [hg.leaf src hsrc v hv, h.source v hv]
  · intro v hv
    rw [hg.leaf dst hdst v hv, h.target v hv]
  intro r hr hs hd v hv
  rw [hg.leaf r hr v hv, h.others r hr hs hd v hv]

lemma Copied.skip {k' : ℕ} (hk : k ≤ k')
    (hk' : k' ≤ userPages) (habs : ∀ v, k ≤ v → v < k' → present (leaf m₀ src v) = false) :
    Copied spaces kern src dst place₀ place m₀ m k' := by
  induction k', hk using Nat.le_induction with
  | base => exact h
  | succ n hn ih =>
    have h' := ih (by omega) fun v hv hv' => habs v hv (by omega)
    have hn' := habs n hn (by omega)
    have hiff : ∀ v, (v < n + 1 ∧ present (leaf m₀ src v) = true) ↔
        (v < n ∧ present (leaf m₀ src v) = true) := by
      intro v
      refine ⟨fun hv => ⟨?_, hv.2⟩, fun hv => ⟨by omega, hv.2⟩⟩
      by_contra hlt
      obtain rfl : v = n := by omega
      simp [hn'] at hv
    refine ⟨h'.toFrames, h'.tables, ?_, ?_, h'.others, ?_, hk'⟩
    · intro v hv
      simp only [hiff]
      exact h'.source v hv
    · intro v hv
      simp only [hiff]
      exact h'.target v hv
    rw [countUpTo_succ, countShare_absent hn']
    exact h'.counts

lemma Copied.page (hp : present (leaf m₀ src k) = true) (ht : Tables spaces kern place m')
    (hf : Frames place place m m') (hcow : m'.cow = countShare m.cow (leaf m₀ src k))
    (hl : ∀ r v, r ∈ spaces → v < userPages → leaf m' r v =
      if (r = src ∨ r = dst) ∧ v = k then forked (leaf m₀ src k) else leaf m r v)
    (hsrc : src ∈ spaces) (hdst : dst ∈ spaces) (hk : k < userPages) :
    Copied spaces kern src dst place₀ place m₀ m' (k + 1) := by
  refine ⟨h.toFrames.trans hf, ht, ?_, ?_, ?_, ?_, hk⟩
  · intro v hv
    rw [hl src v hsrc hv]
    by_cases hvk : v = k
    · subst hvk
      rw [if_pos ⟨.inl rfl, rfl⟩, if_pos ⟨Nat.lt_succ_self v, hp⟩]
    rw [if_neg (fun hc => hvk hc.2), h.source v hv]
    have : v < k + 1 ↔ v < k := by omega
    simp only [this]
  · intro v hv
    rw [hl dst v hdst hv]
    by_cases hvk : v = k
    · subst hvk
      rw [if_pos ⟨.inr rfl, rfl⟩, if_pos ⟨Nat.lt_succ_self v, hp⟩]
    rw [if_neg (fun hc => hvk hc.2), h.target v hv]
    have : v < k + 1 ↔ v < k := by omega
    simp only [this]
  · intro r hr hs hd v hv
    rw [hl r v hr hv, if_neg (by tauto), h.others r hr hs hd v hv]
  · rw [countUpTo_succ, hcow, h.counts]

end

lemma copyLeaf_go (s1 d1 i1 : ℕ) (m : Machine) : (copyLeaf s1 d1 i1 m).2 = true := by
  unfold copyLeaf
  dsimp only
  split
  · rfl
  · split <;> rfl

lemma copyLeaf_spec (h : Copied spaces kern src dst place₀ place m₀ m k) (hne : src ≠ dst)
    (hsrc : src ∈ spaces) (hdst : dst ∈ spaces) (hk : k < userPages) {s1 d1 : ℕ}
    (hs : descend pteNext m.mem src (pathOf k) = some s1)
    (hd : descend pteNext m.mem dst (pathOf k) = some d1) :
    Copied spaces kern src dst place₀ place m₀ (copyLeaf s1 d1 (k % 512) m).1 (k + 1) ∧
      ∀ r path, r ∈ spaces → TablePath path →
        descend pteNext (copyLeaf s1 d1 (k % 512) m).1.mem r path =
          descend pteNext m.mem r path := by
  have hsa : leaf m src k = leaf m₀ src k := by
    rw [h.source k hk, if_neg (fun hc => Nat.lt_irrefl k hc.1)]
  have he : m.mem s1 (k % 512) = leaf m₀ src k := by
    rw [← hsa, h.tables.leaf_eq hsrc hk, hs]
  unfold copyLeaf
  dsimp only
  rw [he, shareable_flags]
  cases hpr : present (leaf m₀ src k) with
  | false =>
    refine ⟨h.skip (Nat.le_succ k) hk fun v hv hv' => ?_, fun _ _ _ _ => rfl⟩
    obtain rfl : v = k := by omega
    exact hpr
  | true =>
    cases hsh : shareable (leaf m₀ src k) with
    | false =>
      obtain ⟨ht, hf, hl, hde⟩ := h.tables.writeLeaf hdst hk hd (leaf m₀ src k)
      refine ⟨h.page hpr ht hf ?_ ?_ hsrc hdst hk, hde⟩
      · rw [countShare, hsh, Bool.and_false]
        rfl
      intro r v hr hv
      refine (hl r v hr hv).trans ?_
      by_cases hvk : v = k
      · subst hvk
        by_cases hrd : r = dst
        · simp [hrd, forked, hsh]
        by_cases hrs : r = src
        · simp [hrs, hne, forked, hsh, hsa]
        · simp [hrs, hrd]
      · simp [hvk]
    | true =>
      obtain ⟨ht1, hf1, hl1, hde1⟩ :=
        (h.tables.recount (Cow.krustCowRefinc m.cow (frame32 (leaf m₀ src k)))).writeLeaf hsrc hk hs
          (cowEntry (leaf m₀ src k))
      have hd1 := (hde1 dst _ hdst (tablePath_pathOf hk)).trans hd
      obtain ⟨ht2, hf2, hl2, hde2⟩ := ht1.writeLeaf hdst hk hd1 (cowEntry (leaf m₀ src k))
      have hf0 : Frames place place m (refinc m (frame32 (leaf m₀ src k))) := Frames.recount _
      refine ⟨h.page hpr ht2 ((hf0.trans hf1).trans hf2) ?_ ?_ hsrc hdst hk, ?_⟩
      · rw [countShare, hpr, hsh]
        rfl
      · intro r v hr hv
        refine (hl2 r v hr hv).trans ?_
        rw [hl1 r v hr hv, forked, hsh]
        by_cases hvk : v = k
        · by_cases hrd : r = dst
          · simp [hrd, hvk]
          by_cases hrs : r = src
          · simp [hrs, hne, hvk]
          simp only [hrs, hrd, false_and, or_self, if_false]
          rfl
        simp only [hvk, and_false, if_false]
        rfl
      intro r path hr hp
      exact (hde2 r path hr hp).trans (hde1 r path hr hp)

/-- Tables that are reached stay reached. -/
def Kept (spaces : Set ℕ) (m m' : Machine) : Prop :=
  ∀ r ∈ spaces, ∀ path u, TablePath path → descend pteNext m.mem r path = some u →
    descend pteNext m'.mem r path = some u

lemma Kept.trans (h : Kept spaces m m') {m'' : Machine} (h' : Kept spaces m' m'') :
    Kept spaces m m'' :=
  fun r hr path u hp hu => h' r hr path u hp (h r hr path u hp hu)

end Copy

variable {i : ℕ}

lemma firstPage_pos (path : List ℕ) (hi : 0 < i) : 0 < firstPage path i := by
  have hpos := Nat.mul_pos hi (width_pos path.length)
  unfold firstPage
  omega

variable {place : Place}

section Levels

variable (spaces kern : Set ℕ) (src dst : ℕ) (place₀ : Place) (m₀ : Machine)

/-- The fork goes on from `m`: it stands at page `k` of `m'`. -/
def Reached (m m' : Machine) (k : ℕ) : Prop :=
  (∃ place, Copied spaces kern src dst place₀ place m₀ m' k) ∧ Kept spaces m m'

/-- What one round does to an entry of tables at the same path on both sides: it takes the fork
over the entry's pages, or ends it somewhere below. -/
def RoundOk (n : ℕ) (round : ℕ → ℕ → ℕ → Machine → Machine × Bool) : Prop :=
  ∀ path s d i m, path.length = n → Slot path i →
    (∃ place, Copied spaces kern src dst place₀ place m₀ m (firstPage path i)) →
    descend pteNext m.mem src path = some s → descend pteNext m.mem dst path = some d →
    ∃ k, firstPage path i ≤ k ∧ Reached spaces kern src dst place₀ m₀ m (round s d i m).1 k ∧
      ((round s d i m).2 = true → k = firstPage path (i + 1))

variable {spaces kern src dst place₀ m₀}

section Loop

variable {n : ℕ} {round : ℕ → ℕ → ℕ → Machine → Machine × Bool} {s d : ℕ} {m : Machine}
  (h : RoundOk spaces kern src dst place₀ m₀ n round) (path : List ℕ) (len : ℕ)
  (hlen : path.length = n) (hslot : ∀ i, i < len → Slot path i) (hpath : TablePath path)
  (hsrc : src ∈ spaces) (hdst : dst ∈ spaces)
  (hs : descend pteNext m.mem src path = some s) (hd : descend pteNext m.mem dst path = some d)
include h hlen hslot hpath hsrc hdst hs hd

lemma RoundOk.one {m' : Machine} (hi : i < len)
    (hm : Reached spaces kern src dst place₀ m₀ m m' (firstPage path i)) :
    ∃ k, firstPage path i ≤ k ∧ Reached spaces kern src dst place₀ m₀ m (round s d i m').1 k ∧
      ((round s d i m').2 = true → k = firstPage path (i + 1)) := by
  obtain ⟨hc, hke⟩ := hm
  obtain ⟨k, hle, ⟨hc', hke'⟩, hk⟩ := h path s d i m' hlen (hslot i hi) hc
    (hke src hsrc path s hpath hs) (hke dst hdst path d hpath hd)
  exact ⟨k, hle, ⟨hc', hke.trans hke'⟩, hk⟩

/-- If the first round gets to page `lo`, so does a loop over the entries of two tables. -/
lemma RoundOk.loop_from {lo : ℕ} (hlo : ∀ i, 0 < i → lo ≤ firstPage path i) (hpos : 0 < len)
    (hm : ∃ place, Copied spaces kern src dst place₀ place m₀ m (firstPage path 0))
    (h0 : ∃ k, lo ≤ k ∧ Reached spaces kern src dst place₀ m₀ m (round s d 0 m).1 k) :
    ∃ k, lo ≤ k ∧
      Reached spaces kern src dst place₀ m₀ m (Loop.run (round s d) (List.range len) m).1 k ∧
      ((Loop.run (round s d) (List.range len) m).2 = true → k = firstPage path len) := by
  have hst : Reached spaces kern src dst place₀ m₀ m m (firstPage path 0) :=
    ⟨hm, fun _ _ _ _ _ hu => hu⟩
  have hrun := Loop.run_range (n := len) (s := m)
    (fun i m' => Reached spaces kern src dst place₀ m₀ m m' (firstPage path i) ∧ (i = 0 → m' = m))
    (fun m' => ∃ k, lo ≤ k ∧ Reached spaces kern src dst place₀ m₀ m m' k)
    ⟨hst, fun _ => rfl⟩
    (by
      rintro i m' hi ⟨hr, -⟩ hgo
      obtain ⟨k, -, hk, heq⟩ := h.one path len hlen hslot hpath hsrc hdst hs hd hi hr
      exact ⟨heq hgo ▸ hk, fun h => absurd h (by omega)⟩)
    (by
      rintro i m' hi ⟨hr, hsy⟩ _
      rcases Nat.eq_zero_or_pos i with rfl | hi0
      · rw [hsy rfl]
        exact h0
      obtain ⟨k, hle, hk, -⟩ := h.one path len hlen hslot hpath hsrc hdst hs hd hi hr
      exact ⟨k, (hlo i hi0).trans hle, hk⟩)
  cases hf : (Loop.run (round s d) (range len) m).2 with
  | true => exact ⟨_, hlo len hpos, (hrun.1 hf).1, fun _ => rfl⟩
  | false =>
    obtain ⟨k, hle, hk⟩ := hrun.2 hf
    exact ⟨k, hle, hk, fun hfa => absurd hfa (by simp)⟩

lemma RoundOk.loop (hpos : 0 < len)
    (hm : ∃ place, Copied spaces kern src dst place₀ place m₀ m (firstPage path 0)) :
    ∃ k, firstPage path 0 ≤ k ∧
      Reached spaces kern src dst place₀ m₀ m (Loop.run (round s d) (List.range len) m).1 k ∧
      ((Loop.run (round s d) (List.range len) m).2 = true → k = firstPage path len) := by
  obtain ⟨k, hle, hk, -⟩ := h.one path len hlen hslot hpath hsrc hdst hs hd hpos
    ⟨hm, fun _ _ _ _ _ hu => hu⟩
  exact h.loop_from path len hlen hslot hpath hsrc hdst hs hd
    (fun i _ => firstPage_mono path (Nat.zero_le i)) hpos hm ⟨k, hle, hk⟩

end Loop

lemma copyLeaf_ok (hne : src ≠ dst) (hsrc : src ∈ spaces) (hdst : dst ∈ spaces) :
    RoundOk spaces kern src dst place₀ m₀ 3 copyLeaf := by
  rintro path s d i m hlen hslot ⟨place, hc⟩ hs hd
  obtain ⟨hk, hpath, hi⟩ := hslot.page hlen
  rw [← hpath] at hs hd
  obtain ⟨hc', hde⟩ := copyLeaf_spec hc hne hsrc hdst hk hs hd
  rw [hi] at hc' hde
  refine ⟨_, Nat.le_succ _, ⟨⟨place, hc'⟩, ?_⟩, fun _ => ?_⟩
  · intro r hr path' u hp hu
    rw [hde r path' hr hp, hu]
  rw [firstPage_succ, hlen]
  rfl

lemma copyLevel_ok {n : ℕ} {inner : ℕ → ℕ → ℕ → Machine → Machine × Bool} (hn : n ≤ 2)
    (h : RoundOk spaces kern src dst place₀ m₀ (n + 1) inner) (hsrc : src ∈ spaces)
    (hdst : dst ∈ spaces) : RoundOk spaces kern src dst place₀ m₀ n (copyLevel inner) := by
  rintro path s d i m hlen hslot ⟨place, hc⟩ hs hd
  have hle : path.length ≤ 2 := hlen ▸ hn
  have hp := hslot.tablePath hle
  unfold copyLevel
  cases hpr : present (m.mem s i) with
  | false =>
    -- Nothing is mapped below an absent entry, so its pages count as done.
    have hle' := firstPage_mono path (Nat.le_succ i)
    refine ⟨firstPage path (i + 1), hle', ⟨⟨place, ?_⟩, fun _ _ _ _ _ hu => hu⟩, fun _ => rfl⟩
    refine hc.skip hle' hslot.next_le fun v hlo hhi => ?_
    have hz := hslot.leaf_absent hc.tables hsrc hle hs hpr hlo hhi
    rw [hc.source v (hslot.below hlo hhi).1, if_neg (by omega)] at hz
    rw [hz]
    exact present_zero
  | true =>
    obtain ⟨place', ht, hg, hch⟩ := ensureTable_spec hc.tables hdst hp hd (.inr rfl)
    have hc' := hc.grow hsrc hdst ht hg
    rw [Loop.seq_eq]
    cases hf : (ensureTable m d i 7#64).2 with
    | false =>
      exact ⟨firstPage path i, le_rfl, ⟨⟨place', hc'⟩, hg.descend⟩,
        fun hfa => absurd hfa (by simp [hf])⟩
    | true =>
      have hs' : descend pteNext m.mem src (path ++ [i]) = some (child m s i) := by
        rw [descend_snoc, hs, Option.bind_some, pteNext_child hpr]
      rw [← firstPage_zero hle] at hc'
      obtain ⟨k, hge, ⟨hr, hke⟩, hk⟩ := h.loop (path ++ [i]) 512 (by simp [hlen])
        (fun j hj => hslot.step hle hj) hp hsrc hdst (hg.descend src hsrc _ _ hp hs')
        (hch hf) (by omega) ⟨place', hc'⟩
      rw [if_pos rfl, if_neg (by simp)]
      exact ⟨k, firstPage_zero hle ▸ hge, ⟨hr, Kept.trans hg.descend hke⟩,
        fun hgo => (hk hgo).trans (firstPage_end hle)⟩

lemma copyTable_ok (hne : src ≠ dst) (hsrc : src ∈ spaces) (hdst : dst ∈ spaces) :
    RoundOk spaces kern src dst place₀ m₀ 2 copyTable := by
  rintro path s d i m hlen hslot ⟨place, hc⟩ hs hd
  rw [copyTable, if_neg (by rw [hslot.not_huge hc.tables hsrc hlen hs]; simp)]
  exact copyLevel_ok le_rfl (copyLeaf_ok hne hsrc hdst) hsrc hdst path s d i m hlen hslot
    ⟨place, hc⟩ hs hd

/-- The whole fork of the page tables: it gets to some page, and to the last one if it does not
run out of frames. -/
lemma krustPagingCopyUserPages_spec
    (h : Tables spaces kern place m) (hne : src ≠ dst) (hsrc : src ∈ spaces) (hdst : dst ∈ spaces) :
    ∃ k place',
      Copied spaces kern src dst place place' m (krustPagingCopyUserPages m src dst).1 k ∧
      ((krustPagingCopyUserPages m src dst).2 = true → k = userPages) := by
  have hpdp : RoundOk spaces kern src dst place m 0 copyPdp :=
    copyLevel_ok (by omega) (copyLevel_ok (by omega) (copyTable_ok hne hsrc hdst) hsrc hdst)
      hsrc hdst
  obtain ⟨k, -, ⟨⟨place', hc⟩, -⟩, hk⟩ := hpdp.loop [] 256 rfl
    (fun i hi => slot_root hi) ⟨by simp, by simp, by simp⟩ hsrc hdst rfl rfl (by omega)
    ⟨place, Copied.start h⟩
  exact ⟨k, place', hc, fun hgo => (hk hgo).trans (firstPage_root 256)⟩

section Begun

variable {n : ℕ} {inner : ℕ → ℕ → ℕ → Machine → Machine × Bool} {path : List ℕ} {s d : ℕ}
  {m : Machine}

lemma copyLevel_begun (hn : n ≤ 2) (h : RoundOk spaces kern src dst place₀ m₀ (n + 1) inner)
    (hsrc : src ∈ spaces) (hdst : dst ∈ spaces) (hlen : path.length = n) (hslot : Slot path 0)
    (hm : ∃ place, Copied spaces kern src dst place₀ place m₀ m (firstPage path 0))
    (hs : descend pteNext m.mem src path = some s) (hd : descend pteNext m.mem dst path = some d)
    (hpr : present (m.mem s 0) = true) (hf : (ensureTable m d 0 7#64).2 = true)
    (h0 : ∀ m1, m1 = (ensureTable m d 0 7#64).1 →
      (∃ place, Copied spaces kern src dst place₀ place m₀ m1 (firstPage (path ++ [0]) 0)) →
      descend pteNext m1.mem src (path ++ [0]) = some (child m s 0) →
      descend pteNext m1.mem dst (path ++ [0]) = some (child m1 d 0) →
      ∃ k, 0 < k ∧ Reached spaces kern src dst place₀ m₀ m1
        (inner (child m s 0) (child m1 d 0) 0 m1).1 k) :
    ∃ k, 0 < k ∧ Reached spaces kern src dst place₀ m₀ m (copyLevel inner s d 0 m).1 k := by
  have hle : path.length ≤ 2 := hlen ▸ hn
  have hp := hslot.tablePath hle
  obtain ⟨place, hc⟩ := hm
  obtain ⟨place', ht, hg, hch⟩ := ensureTable_spec hc.tables hdst hp hd (.inr rfl)
  have hc' := hc.grow hsrc hdst ht hg
  rw [← firstPage_zero hle] at hc'
  have hs' : descend pteNext m.mem src (path ++ [0]) = some (child m s 0) := by
    rw [descend_snoc, hs, Option.bind_some, pteNext_child hpr]
  have hs1 := hg.descend src hsrc _ _ hp hs'
  obtain ⟨k, hk, ⟨hr, hke⟩, -⟩ := h.loop_from (path ++ [0]) 512 (by simp [hlen])
    (fun j hj => hslot.step hle hj) hp hsrc hdst hs1 (hch hf)
    (fun i hi => firstPage_pos _ hi) (by omega) ⟨place', hc'⟩
    (h0 _ rfl ⟨place', hc'⟩ hs1 (hch hf))
  rw [copyLevel, hpr, if_neg (by simp)]
  dsimp only
  rw [Loop.seq_eq, hf, if_pos rfl]
  exact ⟨k, hk, hr, Kept.trans hg.descend hke⟩

/-- The source maps page 0, and the three tables for it can be had in the target. -/
def firstTables (m : Machine) (src dst : ℕ) : Bool :=
  let x₁ := ensureTable m dst 0 7#64
  let s₃ := child m src 0
  let d₃ := child x₁.1 dst 0
  let x₂ := ensureTable x₁.1 d₃ 0 7#64
  let s₂ := child x₁.1 s₃ 0
  let d₂ := child x₂.1 d₃ 0
  present (m.mem src 0) && x₁.2 && present (x₁.1.mem s₃ 0) && x₂.2 && present (x₂.1.mem s₂ 0) &&
    (ensureTable x₂.1 d₂ 0 7#64).2

lemma krustPagingCopyUserPages_begun (h : Tables spaces kern place m)
    (hne : src ≠ dst) (hsrc : src ∈ spaces) (hdst : dst ∈ spaces)
    (hr : firstTables m src dst = true) :
    ∃ k place', 0 < k ∧
      Copied spaces kern src dst place place' m (krustPagingCopyUserPages m src dst).1 k := by
  unfold firstTables at hr
  simp only [Bool.and_eq_true] at hr
  obtain ⟨⟨⟨⟨⟨hp, hf⟩, hp1⟩, hf1⟩, hp2⟩, hf2⟩ := hr
  have hl : RoundOk spaces kern src dst place m 3 copyLeaf := copyLeaf_ok hne hsrc hdst
  have ht : RoundOk spaces kern src dst place m 2 copyTable := copyTable_ok hne hsrc hdst
  have hdir : RoundOk spaces kern src dst place m 1 copyDirectory :=
    copyLevel_ok (by omega) ht hsrc hdst
  have hpdp : RoundOk spaces kern src dst place m 0 copyPdp :=
    copyLevel_ok (by omega) hdir hsrc hdst
  have hslot : Slot [] 0 := slot_root (by omega)
  have hsl1 : Slot [0] 0 := hslot.step (by simp) (by omega)
  have hsl2 : Slot [0, 0] 0 := hsl1.step (by simp) (by omega)
  have hsl3 : Slot [0, 0, 0] 0 := hsl2.step (by simp) (by omega)
  obtain ⟨k, hk, ⟨⟨place', hc⟩, -⟩, -⟩ := hpdp.loop_from [] 256 rfl (fun i hi => slot_root hi)
    ⟨by simp, by simp, by simp⟩ hsrc hdst rfl rfl (fun i hi => firstPage_pos _ hi) (by omega)
    ⟨place, Copied.start h⟩ (by
      refine copyLevel_begun (by omega) hdir hsrc hdst rfl hslot ⟨place, Copied.start h⟩ rfl rfl
        hp hf ?_
      rintro _ rfl hc1 hsrc1 hdst1
      refine copyLevel_begun (by omega) ht hsrc hdst rfl hsl1 hc1 hsrc1 hdst1 hp1 hf1 ?_
      rintro _ rfl hc2 hsrc2 hdst2
      obtain ⟨place2, hc2⟩ := hc2
      rw [copyTable, if_neg (by rw [hsl2.not_huge hc2.tables hsrc rfl hsrc2]; simp)]
      refine copyLevel_begun le_rfl hl hsrc hdst rfl hsl2 ⟨place2, hc2⟩ hsrc2 hdst2 hp2
        hf2 ?_
      rintro _ rfl hc3 hsrc3 hdst3
      obtain ⟨k, -, hre, hk⟩ := hl _ _ _ 0 _ rfl hsl3 hc3 hsrc3 hdst3
      refine ⟨k, ?_, hre⟩
      rw [hk (copyLeaf_go _ _ _ _)]
      decide)
  exact ⟨k, place', hk, hc⟩

end Begun

end Levels

end Elitra.Paging
