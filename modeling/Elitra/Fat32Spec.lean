import Elitra.Fat32View

namespace Elitra.Fat32
open List StateRun

section Chains

variable {g : Instance} {fat fat' : ℕ → ℕ} {c : ℕ} {l : List ℕ}

/-- A chain of clusters of the volume that ends as it should, without a cluster twice. -/
def Chained (g : Instance) (fat : ℕ → ℕ) : List ℕ → Prop
  | [] => False
  | [c] => g.InVolume c ∧ fat32Eoc ≤ fat c
  | c :: n :: l => g.InVolume c ∧ c ∉ n :: l ∧ fat c = n ∧ Chained g fat (n :: l)

lemma Chained.inVolume (h : Chained g fat l) : ∀ c ∈ l, g.InVolume c := by
  induction l with
  | nil => exact fun c hc => (by cases hc)
  | cons a l ih =>
    cases l with
    | nil =>
      intro c hc
      rw [mem_singleton.mp hc]
      exact h.1
    | cons n l =>
      intro c hc
      rcases mem_cons.mp hc with hc | hc
      · rw [hc]
        exact h.1
      · exact ih h.2.2.2 c hc

lemma Chained.nodup (h : Chained g fat l) : l.Nodup := by
  induction l with
  | nil => exact nodup_nil
  | cons a l ih =>
    cases l with
    | nil => exact nodup_singleton a
    | cons n l => exact nodup_cons.mpr ⟨h.2.1, ih h.2.2.2⟩

lemma Chained.congr (h : Chained g fat l) (heq : ∀ c ∈ l, fat' c = fat c) :
    Chained g fat' l := by
  induction l with
  | nil => exact h
  | cons a l ih =>
    cases l with
    | nil =>
      unfold Chained
      rw [heq a (mem_singleton_self a)]
      exact h
    | cons n l =>
      unfold Chained
      rw [heq a (mem_cons_self ..)]
      exact ⟨h.1, h.2.1, h.2.2.1, ih h.2.2.2 fun c hc => heq c (mem_cons_of_mem _ hc)⟩

lemma Chained.ne_zero (h : Chained g fat l) : ∀ c ∈ l, fat c ≠ 0 := by
  induction l with
  | nil => exact fun c hc => (by cases hc)
  | cons a l ih =>
    cases l with
    | nil =>
      intro c hc
      have hend : fat32Eoc ≤ fat a := h.2
      rw [mem_singleton.mp hc]
      unfold fat32Eoc at hend
      omega
    | cons n l =>
      intro c hc
      rcases mem_cons.mp hc with hc | hc
      · have hn := (h.2.2.2.inVolume n (mem_cons_self ..)).1
        rw [hc, h.2.2.1]
        omega
      · exact ih h.2.2.2 c hc

lemma isEnd_of_eoc {n : ℕ} (h : fat32Eoc ≤ n) : isEnd n = true := by
  unfold isEnd
  rw [decide_eq_true h, Bool.true_or]

lemma Instance.Regular.isEnd_eq (hg : g.Regular) (hc : g.InVolume c) : isEnd c = false := by
  have hnum := hg.numbers
  have h1 := hc.1
  have h2 := hc.2
  unfold isEnd
  rw [decide_eq_false (by omega), decide_eq_false (by omega), Bool.or_false]

lemma Chained.snoc {p n : ℕ} (h : Chained g fat (l ++ [p])) (hn : g.InVolume n)
    (hnew : n ∉ l ++ [p]) (hend : fat32Eoc ≤ fat' n) (hp : fat' p = n)
    (heq : ∀ c ∈ l, fat' c = fat c) : Chained g fat' (l ++ [p, n]) := by
  induction l with
  | nil =>
    have hne : p ≠ n := fun hpn => hnew (by rw [hpn]; exact mem_singleton_self n)
    exact ⟨h.1, fun hmem => hne (mem_singleton.mp hmem), hp, hn, hend⟩
  | cons a l ih =>
    have hr : n ∉ l ++ [p] := fun hmem => hnew (mem_cons_of_mem _ hmem)
    have ha : n ≠ a := fun hna => hnew (by rw [hna]; exact mem_cons_self ..)
    cases l with
    | nil =>
      refine ⟨h.1, ?_, ?_, ih h.2.2.2 hr fun c hc => (by cases hc)⟩
      · intro hmem
        rcases mem_cons.mp hmem with hmem | hmem
        · exact h.2.1 (mem_singleton.mpr hmem)
        · exact ha (mem_singleton.mp hmem).symm
      · rw [heq a (mem_cons_self ..)]
        exact h.2.2.1
    | cons b l =>
      refine ⟨h.1, ?_, ?_, ih h.2.2.2 hr fun c hc => heq c (mem_cons_of_mem _ hc)⟩
      · intro hmem
        have happ : a ∈ (b :: l ++ [p]) ++ [n] := by
          rw [append_assoc]
          exact hmem
        rcases mem_append.mp happ with hmem | hmem
        · exact h.2.1 hmem
        · exact ha (mem_singleton.mp hmem).symm
      · rw [heq a (mem_cons_self ..)]
        exact h.2.2.1

end Chains

variable {s : Slot} {α : Type}

section Search

variable {g : Instance} {f : ℕ → Byte} {v v' : Vol} {c : ℕ} {l : List ℕ} {name : Name}
  {sfn : List Byte}

/-- The entry that a search for a name stops at. -/
def Matches (sfn row : List Byte) : Prop :=
  headOf row ≠ 0 ∧ headOf row ≠ deleted ∧ attrOf row ≠ attrLfn ∧ nameOf row = sfn

/-- Behind the end mark of a directory there are only end marks. -/
def Closed (g : Instance) (d : Disk) (l : List ℕ) : Prop :=
  (places g l).Pairwise fun p q => headOf (d.row p) = 0 → headOf (d.row q) = 0

lemma headOf_entryAt (f : ℕ → Byte) (off : ℕ) : headOf (entryAt f off) = f off := rfl

/-- What the search of a list of places says about it. -/
inductive Scanned (f : ℕ → Byte) (sfn : List Byte) (ss : List Slot) : Option Scan → Prop
  | here (s : Slot) : s ∈ ss → Matches sfn (entryAt f s.off) → Scanned f sfn ss (some (.here s))
  | stop (P : List Slot) (s : Slot) (Q : List Slot) : ss = P ++ s :: Q →
      headOf (entryAt f s.off) = 0 → (∀ t ∈ P, ¬ Matches sfn (entryAt f t.off)) →
      Scanned f sfn ss (some .stop)
  | next : (∀ t ∈ ss, ¬ Matches sfn (entryAt f t.off)) → Scanned f sfn ss (some .next)

lemma Scanned.pass {ss : List Slot} {r : Option Scan} (h : Scanned f sfn ss r)
    (hnot : ¬ Matches sfn (entryAt f s.off)) : Scanned f sfn (s :: ss) r := by
  cases h with
  | here t ht hm => exact .here t (mem_cons_of_mem _ ht) hm
  | stop P t Q hs hz hP =>
    exact .stop (s :: P) t Q (by rw [hs]; rfl) hz (forall_mem_cons.mpr ⟨hnot, hP⟩)
  | next hall => exact .next (forall_mem_cons.mpr ⟨hnot, hall⟩)

lemma scanSlots_spec (f : ℕ → Byte) (sfn : List Byte) (ss : List Slot) :
    Scanned f sfn ss (scanSlots f (some sfn) ss) := by
  induction ss with
  | nil => exact .next fun t ht => (by cases ht)
  | cons s ss ih =>
    unfold scanSlots
    by_cases hz : f s.off = 0
    · rw [if_pos hz]
      exact .stop [] s ss rfl hz fun t ht => (by cases ht)
    rw [if_neg hz]
    by_cases hs : f s.off = deleted ∨ f (s.off + 11) = attrLfn
    · rw [if_pos hs]
      apply ih.pass
      intro hm
      rcases hs with hs | hs
      · exact hm.2.1 hs
      · exact hm.2.2.1 hs
    rw [if_neg hs]
    dsimp only
    by_cases hn : (entryAt f s.off).take 11 = sfn
    · rw [if_pos hn]
      exact .here s (mem_cons_self ..) ⟨hz, fun hdel => hs (.inl hdel),
        fun hlfn => hs (.inr hlfn), hn⟩
    rw [if_neg hn]
    exact ih.pass fun hm => hn hm.2.2.2

lemma scan_spec (hg : g.Regular) (hc : g.InVolume c) (f : ℕ → Byte) (sfn : List Byte) :
    (∃ o ∈ offsets g, scanSlots f (some sfn) (slots g c) = some (.here (slotAt g c o)) ∧
        Matches sfn ((view g f).row (c, o))) ∨
      (∃ P o Q, offsets g = P ++ o :: Q ∧ scanSlots f (some sfn) (slots g c) = some .stop ∧
        headOf ((view g f).row (c, o)) = 0 ∧ ∀ t ∈ P, ¬ Matches sfn ((view g f).row (c, t))) ∨
      (scanSlots f (some sfn) (slots g c) = some .next ∧
        ∀ t ∈ offsets g, ¬ Matches sfn ((view g f).row (c, t))) := by
  rw [slots_eq hg hc]
  have hsc := scanSlots_spec f sfn ((offsets g).map (slotAt g c))
  generalize scanSlots f (some sfn) ((offsets g).map (slotAt g c)) = r at hsc ⊢
  cases hsc with
  | here s hs hm =>
    obtain ⟨o, ho, rfl⟩ := mem_map.mp hs
    rw [entryAt_slotAt hc ho] at hm
    exact .inl ⟨o, ho, rfl, hm⟩
  | stop P s Q hsp hz hP =>
    obtain ⟨P', Q', hoff, rfl, hr⟩ := map_eq_append_iff.mp hsp
    obtain ⟨o, Q'', rfl, rfl, rfl⟩ := map_eq_cons_iff.mp hr
    have hmem : ∀ t ∈ P' ++ o :: Q'', t ∈ offsets g := fun t ht => hoff ▸ ht
    refine .inr (.inl ⟨P', o, Q'', hoff, rfl, ?_, ?_⟩)
    · rw [← entryAt_slotAt hc (hmem o (mem_append_right _ (mem_cons_self ..)))]
      exact hz
    intro t ht
    rw [← entryAt_slotAt hc (hmem t (mem_append_left _ ht))]
    exact hP _ (mem_map_of_mem ht)
  | next hall =>
    refine .inr (.inr ⟨rfl, ?_⟩)
    intro t ht
    rw [← entryAt_slotAt hc ht]
    exact hall _ (mem_map_of_mem ht)

lemma Matches.head_ne {row : List Byte} (h : Matches sfn row) : headOf row ≠ 0 := h.1

lemma getFat_bind (hb : g.bytesPerSector ≠ 0) (k : ℕ → Prog Vol α) :
    (krustFat32GetFatEntry g c >>= k) v = k (fatEntry g v.byte c) v := by
  unfold krustFat32GetFatEntry
  rw [if_neg hb]
  rfl

lemma getFatEntry_bind (hg : g.Regular) (hc : g.InVolume c) (k : ℕ → Prog Vol α) :
    (krustFat32GetFatEntry g c >>= k) v = k ((view g v.byte).fat c) v := by
  rw [getFat_bind (Nat.pos_iff_ne_zero.mp hg.bytes), view_fat _ hc]

variable {fuel : ℕ}

lemma locate_here (h : scanSlots v.byte (matchName name) (slots g c) = some (.here s)) :
    locate g name (fuel + 1) c v = some (some (c, s), v) := by
  have hget : (get : Prog Vol Vol) v = some (v, v) := rfl
  rw [locate, bind_apply, hget, Option.bind_some, h]
  rfl

lemma locate_stop (h : scanSlots v.byte (matchName name) (slots g c) = some .stop) :
    locate g name (fuel + 1) c v = some (none, v) := by
  have hget : (get : Prog Vol Vol) v = some (v, v) := rfl
  rw [locate, bind_apply, hget, Option.bind_some, h]
  rfl

lemma locate_next (h : scanSlots v.byte (matchName name) (slots g c) = some .next) :
    locate g name (fuel + 1) c v =
      (krustFat32GetFatEntry g c >>= fun n =>
        if isEnd n then pure none else locate g name fuel n) v := by
  have hget : (get : Prog Vol Vol) v = some (v, v) := rfl
  rw [locate, bind_apply, hget, Option.bind_some, h]

/-- What `locate` finds in a directory: with enough fuel it returns, and it finds an entry with the
name if and only if there is one. -/
lemma locate_spec (hg : g.Regular) (fuel : ℕ) (hna : matchName name = some sfn)
    (hl : Chained g (view g v.byte).fat (c :: l)) (hcl : Closed g (view g v.byte) (c :: l)) :
    (l.length < fuel → ∃ r, locate g name fuel c v = some (r, v)) ∧
      ∀ r v', locate g name fuel c v = some (r, v') → v' = v ∧
        (∀ x s, r = some (x, s) → ∃ p ∈ places g (c :: l), x = p.1 ∧ s = slotAt g p.1 p.2 ∧
          Matches sfn ((view g v.byte).row p)) ∧
        (r = none → ∀ p ∈ places g (c :: l), ¬ Matches sfn ((view g v.byte).row p)) := by
  induction fuel generalizing c l with
  | zero => exact ⟨fun h => absurd h (Nat.not_lt_zero _), fun r v' h => (by cases h)⟩
  | succ fuel ih =>
    have hc := hl.inVolume c (mem_cons_self ..)
    rcases scan_spec hg hc v.byte sfn with
      ⟨o, ho, hres, hm⟩ | ⟨P, o, Q, hs, hres, hz, hP⟩ | ⟨hres, hall⟩
    · rw [← hna] at hres
      rw [locate_here hres]
      refine ⟨fun _ => ⟨_, rfl⟩, fun r v' h => ?_⟩
      cases h
      refine ⟨rfl, fun x s hxs => ?_, fun hno => (by cases hno)⟩
      cases hxs
      exact ⟨(c, o), mem_places.mpr ⟨mem_cons_self .., ho⟩, rfl, rfl, hm⟩
    · rw [← hna] at hres
      rw [locate_stop hres]
      refine ⟨fun _ => ⟨_, rfl⟩, fun r v' h => ?_⟩
      cases h
      refine ⟨rfl, fun x s hxs => (by cases hxs), fun _ p hp hm => ?_⟩
      -- the place is before the end mark, or it is an end mark itself
      unfold Closed at hcl
      rw [places_cons, hs, map_append, map_cons, append_assoc, cons_append] at hcl hp
      rcases mem_append.mp hp with hp | hp
      · obtain ⟨t, ht, rfl⟩ := mem_map.mp hp
        exact hP t ht hm
      rcases mem_cons.mp hp with hp | hp
      · rw [hp] at hm
        exact hm.head_ne hz
      have hla := rel_of_pairwise_cons (pairwise_append.mp hcl).2.1 hp
      exact hm.head_ne (hla hz)
    rw [← hna] at hres
    rw [locate_next hres, getFatEntry_bind hg hc]
    cases l with
    | nil =>
      rw [if_pos (isEnd_of_eoc hl.2)]
      refine ⟨fun _ => ⟨_, rfl⟩, fun r v' h => ?_⟩
      cases h
      refine ⟨rfl, fun x s hxs => (by cases hxs), fun _ p hp => ?_⟩
      obtain ⟨o, ho, rfl⟩ := mem_places_single hp
      exact hall o ho
    | cons n l =>
      have hn := hl.2.2.2.inVolume n (mem_cons_self ..)
      rw [hl.2.2.1, hg.isEnd_eq hn, if_neg Bool.false_ne_true]
      have hre : Closed g (view g v.byte) (n :: l) := by
        unfold Closed at hcl ⊢
        rw [places_cons] at hcl
        exact (pairwise_append.mp hcl).2.1
      obtain ⟨hto, hsp⟩ := ih hl.2.2.2 hre
      refine ⟨fun hf => hto (by rw [length_cons] at hf; omega), fun r v' h => ?_⟩
      obtain ⟨hv, hso, hno⟩ := hsp r v' h
      refine ⟨hv, fun x s hxs => ?_, fun hr p hp => ?_⟩
      · obtain ⟨p, hp, hpx⟩ := hso x s hxs
        refine ⟨p, ?_, hpx⟩
        rw [places_cons]
        exact mem_append_right _ hp
      rw [places_cons] at hp
      rcases mem_append.mp hp with hp | hp
      · obtain ⟨t, ht, rfl⟩ := mem_map.mp hp
        exact hall t ht
      · exact hno hr p hp

end Search

variable {u : PUnit} {chunk : List Byte}

section Functions

variable {g : Instance} {v v' : Vol} {c fuel : ℕ} {l : List ℕ} {name : Name}
  {sfn entry : List Byte}

lemma setFat_bind (hb : g.bytesPerSector ≠ 0) (value : ℕ) (k : PUnit → Prog Vol α) :
    (krustFat32SetFatEntry g c value >>= k) v = k ⟨⟩ (v.setFat g c value) := by
  unfold krustFat32SetFatEntry
  rw [if_neg hb]
  rfl

def freeClusters (g : Instance) (d : Disk) : List ℕ :=
  (List.range' 2 (g.totalClusters - 2)).filter fun c => d.fat c = 0

lemma mem_freeClusters {d : Disk} (h : c ∈ freeClusters g d) : g.InVolume c ∧ d.fat c = 0 := by
  obtain ⟨hr, hz⟩ := mem_filter.mp h
  rw [mem_range'_1] at hr
  exact ⟨⟨hr.1, by omega⟩, by simpa using hz⟩

lemma allocLoop_eq (hg : g.Regular) (cs : List ℕ) (hcs : ∀ c ∈ cs, g.InVolume c) :
    allocLoop g cs v = some (match cs.filter fun c => (view g v.byte).fat c = 0 with
      | [] => (0, v)
      | c :: _ => (c, v.setFat g c fat32Eoc)) := by
  induction cs with
  | nil => rfl
  | cons c cs ih =>
    obtain ⟨hc, hr⟩ := forall_mem_cons.mp hcs
    unfold allocLoop
    rw [getFatEntry_bind hg hc]
    unfold fat32Free
    by_cases hf : (view g v.byte).fat c = 0
    · rw [if_pos hf, setFat_bind hg.bytes.ne', filter_cons_of_pos (by simpa using hf)]
      rfl
    rw [if_neg hf, filter_cons_of_neg (by simpa using hf)]
    exact ih hr

lemma allocCluster_eq (hg : g.Regular) :
    krustFat32AllocCluster g v = some (match freeClusters g (view g v.byte) with
      | [] => (0, v)
      | c :: _ => (c, v.setFat g c fat32Eoc)) := by
  apply allocLoop_eq hg
  intro c hc
  rw [mem_range'_1] at hc
  exact ⟨hc.1, by omega⟩

def Disk.free (d : Disk) (l : List ℕ) : Disk :=
  { d with fat := fun c => if c ∈ l then 0 else d.fat c }

lemma freeChain_spec (hg : g.Regular) (hl : Chained g (view g v.byte).fat (c :: l))
    (h : krustFat32FreeChain g fuel c v = some (u, v')) :
    view g v'.byte = (view g v.byte).free (c :: l) := by
  induction fuel generalizing c l v with
  | zero => cases h
  | succ fuel ih =>
    have hc := hl.inVolume c (mem_cons_self ..)
    unfold krustFat32FreeChain at h
    rw [getFatEntry_bind hg hc, setFat_bind hg.bytes.ne'] at h
    have hset : view g (v.setFat g c fat32Free).byte = (view g v.byte).setFat c 0 :=
      view_setFat hg hc 0
    cases l with
    | nil =>
      rw [if_pos (isEnd_of_eoc hl.2)] at h
      cases h
      rw [hset]
      ext1
      · funext x
        unfold Disk.free
        dsimp only
        by_cases hx : x = c
        · rw [hx, Disk.setFat_self, if_pos (mem_singleton_self c)]
        · rw [Disk.setFat_of_ne _ _ hx, if_neg fun hmem => hx (mem_singleton.mp hmem)]
      · rfl
    | cons n l =>
      have hn := hl.2.2.2.inVolume n (mem_cons_self ..)
      rw [hl.2.2.1, hg.isEnd_eq hn, if_neg Bool.false_ne_true] at h
      have hr : Chained g (view g (v.setFat g c fat32Free).byte).fat (n :: l) := by
        rw [hset]
        apply hl.2.2.2.congr
        intro x hx
        apply Disk.setFat_of_ne
        intro hxc
        rw [hxc] at hx
        exact hl.2.1 hx
      rw [ih hr h, hset]
      ext1
      · funext x
        unfold Disk.free
        dsimp only
        by_cases hx : x = c
        · rw [hx, Disk.setFat_self, if_pos (mem_cons_self ..), ite_self]
        rw [Disk.setFat_of_ne _ _ hx]
        by_cases hmem : x ∈ n :: l
        · rw [if_pos hmem, if_pos (mem_cons_of_mem _ hmem)]
        · rw [if_neg hmem, if_neg fun hin => hmem ((mem_cons.mp hin).resolve_left hx)]
      · rfl

lemma view_writeSlot (hg : g.Regular) {p : Place} {bytes : List Byte} (hc : g.InVolume p.1)
    (ho : p.2 ∈ offsets g) (hlen : bytes.length ≤ 32) :
    view g (v.writeSlot g p.1 (slotAt g p.1 p.2) bytes).byte =
      (view g v.byte).put p.1 p.2 bytes := by
  have hend := (mem_offsets ho).1
  exact view_write (v := v.touch p.1) hg hc (by omega)

/-- A cluster of zeros with entries at its start. -/
def Disk.clear (g : Instance) (d : Disk) (c : ℕ) (entries : List Byte) : Disk :=
  (d.put c 0 (List.replicate g.bytesPerCluster 0)).put c 0 entries

lemma view_clearCluster (hg : g.Regular) {entries : List Byte} (hc : g.InVolume c)
    (hlen : entries.length ≤ g.bytesPerCluster) :
    view g (v.clearCluster g c entries).byte = (view g v.byte).clear g c entries := by
  have hb : ∃ w : Vol, w.byte = v.byte ∧ (v.clearCluster g c entries).byte =
      ((w.write (clusterOffset g c + 0) (replicate g.bytesPerCluster 0)).write
        (clusterOffset g c + 0) entries).byte := ⟨_, rfl, rfl⟩
  obtain ⟨w, hw, heq⟩ := hb
  rw [heq, view_write hg hc (by omega), view_write hg hc (by rw [length_replicate]; omega), hw]
  rfl

lemma growDir_eq (hg : g.Regular) {last : ℕ} :
    growDir g last entry v = some (match freeClusters g (view g v.byte) with
      | [] => (false, v)
      | n :: _ => (true, ((v.setFat g n fat32Eoc).setFat g last n).clearCluster g n entry)) := by
  unfold growDir
  rw [bind_apply, allocCluster_eq hg]
  cases hf : freeClusters g (view g v.byte) with
  | nil => rfl
  | cons n ns =>
    have hn := (mem_freeClusters (hf ▸ mem_cons_self ..)).1.1
    dsimp only [Option.bind_some]
    rw [if_neg (by omega), setFat_bind hg.bytes.ne']
    rfl

lemma addDirEntry_spec (hg : g.Regular) {b : Bool} (hlen : entry.length = 32)
    (hl : Chained g (view g v.byte).fat (c :: l))
    (h : krustFat32AddDirEntry g entry fuel c v = some (b, v')) :
    (b = true ∧ ∃ P p Q, places g (c :: l) = P ++ p :: Q ∧
        (∀ q ∈ P, headOf ((view g v.byte).row q) ≠ 0) ∧
        (headOf ((view g v.byte).row p) = 0 ∨ headOf ((view g v.byte).row p) = deleted) ∧
        view g v'.byte = (view g v.byte).put p.1 p.2 entry) ∨
      ((∀ q ∈ places g (c :: l), headOf ((view g v.byte).row q) ≠ 0 ∧
          headOf ((view g v.byte).row q) ≠ deleted) ∧
        growDir g ((c :: l).getLast (List.cons_ne_nil c l)) entry v = some (b, v')) := by
  induction fuel generalizing c l with
  | zero => cases h
  | succ fuel ih =>
    have hc := hl.inVolume c (mem_cons_self ..)
    unfold krustFat32AddDirEntry at h
    obtain ⟨v1, v2, hget, h⟩ := bind_eq_some.mp h
    cases hget
    cases hf : (slots g c).find? fun s => v.byte s.off = 0 ∨ v.byte s.off = deleted with
    | some s =>
      rw [hf] at h
      obtain ⟨hb, hv⟩ : b = true ∧ v' = v.writeSlot g c s entry := by
        cases h
        exact ⟨rfl, rfl⟩
      rw [slots_eq hg hc] at hf
      obtain ⟨hs, P', Q', hsp, hbe⟩ := find?_eq_some_iff_append.mp hf
      obtain ⟨P, R, hoff, rfl, hr⟩ := map_eq_append_iff.mp hsp
      obtain ⟨o, Q, rfl, rfl, rfl⟩ := map_eq_cons_iff.mp hr
      have hmem : ∀ t ∈ P ++ o :: Q, t ∈ offsets g := fun t ht => hoff ▸ ht
      have ho := hmem o (mem_append_right _ (mem_cons_self ..))
      have hvi : view g (v.writeSlot g c (slotAt g c o) entry).byte =
          (view g v.byte).put c o entry := view_writeSlot (p := (c, o)) hg hc ho hlen.le
      refine .inl ⟨hb, P.map fun t => (c, t), (c, o), (Q.map fun t => (c, t)) ++ places g l,
        ?_, ?_, ?_, hv ▸ hvi⟩
      · rw [places_cons, hoff, map_append, map_cons, append_assoc, cons_append]
      · intro q hq
        obtain ⟨t, ht, rfl⟩ := mem_map.mp hq
        have hnot := hbe _ (mem_map_of_mem (f := slotAt g c) ht)
        rw [← entryAt_slotAt hc (hmem t (mem_append_left _ ht)), headOf_entryAt]
        intro hz
        simp [hz] at hnot
      · rw [← entryAt_slotAt hc ho, headOf_entryAt]
        simpa using hs
    | none =>
      rw [hf] at h
      have hno : ∀ o ∈ offsets g, headOf ((view g v.byte).row (c, o)) ≠ 0 ∧
          headOf ((view g v.byte).row (c, o)) ≠ deleted := by
        intro o ho
        have hs : slotAt g c o ∈ slots g c := by
          rw [slots_eq hg hc]
          exact mem_map_of_mem ho
        have hnot := find?_eq_none.mp hf _ hs
        rw [← entryAt_slotAt hc ho, headOf_entryAt]
        simpa using hnot
      dsimp only at h
      rw [getFatEntry_bind hg hc] at h
      cases l with
      | nil =>
        rw [if_pos (isEnd_of_eoc hl.2)] at h
        refine .inr ⟨fun q hq => ?_, h⟩
        obtain ⟨o, ho, rfl⟩ := mem_places_single hq
        exact hno o ho
      | cons n l =>
        have hn := hl.2.2.2.inVolume n (mem_cons_self ..)
        rw [hl.2.2.1, hg.isEnd_eq hn, if_neg Bool.false_ne_true] at h
        rcases ih hl.2.2.2 h with ⟨hb, P, p, Q, hsp, hP, hp, hvi⟩ | ⟨hall, hgr⟩
        · refine .inl ⟨hb, ((offsets g).map fun o => (c, o)) ++ P, p, Q, ?_, ?_, hp, hvi⟩
          · rw [places_cons, hsp, append_assoc]
          intro q hq
          rcases mem_append.mp hq with hq | hq
          · obtain ⟨o, ho, rfl⟩ := mem_map.mp hq
            exact (hno o ho).1
          · exact hP q hq
        refine .inr ⟨fun q hq => ?_, hgr⟩
        rw [places_cons] at hq
        rcases mem_append.mp hq with hq | hq
        · obtain ⟨o, ho, rfl⟩ := mem_map.mp hq
          exact hno o ho
        · exact hall q hq

lemma findDirEntry_spec (hg : g.Regular) (fuel : ℕ) (hn : matchName name = some sfn)
    (hl : Chained g (view g v.byte).fat (c :: l)) (hc : Closed g (view g v.byte) (c :: l)) :
    (l.length < fuel → ∃ r, krustFat32FindDirEntry g fuel c name v = some (r, v)) ∧
      ∀ r v', krustFat32FindDirEntry g fuel c name v = some (r, v') → v' = v ∧
        ((r = none ∧ ∀ p ∈ places g (c :: l), ¬ Matches sfn ((view g v.byte).row p)) ∨
          ∃ p ∈ places g (c :: l), r = some ((view g v.byte).row p) ∧
            Matches sfn ((view g v.byte).row p)) := by
  obtain ⟨ht, hs⟩ := locate_spec hg fuel hn hl hc
  constructor
  · intro hf
    obtain ⟨r, hr⟩ := ht hf
    unfold krustFat32FindDirEntry
    rw [bind_apply, hr]
    cases r with
    | none => exact ⟨none, rfl⟩
    | some q => exact ⟨some (entryAt v.byte q.2.off), rfl⟩
  intro r v' h
  unfold krustFat32FindDirEntry at h
  obtain ⟨found, v1, hlo, h⟩ := bind_eq_some.mp h
  obtain ⟨hv, hso, hno⟩ := hs found v1 hlo
  subst hv
  cases found with
  | none =>
    cases h
    exact ⟨rfl, .inl ⟨rfl, hno rfl⟩⟩
  | some q =>
    cases h
    obtain ⟨p, hp, -, hsl, hm⟩ := hso q.1 q.2 rfl
    refine ⟨rfl, .inr ⟨p, hp, ?_, hm⟩⟩
    obtain ⟨hpc, hpo⟩ := mem_places.mp hp
    rw [hsl, entryAt_slotAt (hl.inVolume _ hpc) hpo]

lemma removeEntry_spec (hg : g.Regular) {r : ℤ} (hn : matchName name = some sfn)
    (hl : Chained g (view g v.byte).fat (c :: l)) (hcl : Closed g (view g v.byte) (c :: l))
    (h : removeEntry g fuel c name v = some (r, v')) :
    r = -1 ∨ ∃ p ∈ places g (c :: l), Matches sfn ((view g v.byte).row p) ∧
      view g v'.byte = (view g v.byte).put p.1 p.2 [deleted] := by
  unfold removeEntry at h
  obtain ⟨found, v1, hlo, h⟩ := bind_eq_some.mp h
  obtain ⟨hv, hs, -⟩ := (locate_spec hg fuel hn hl hcl).2 found v1 hlo
  subst hv
  cases found with
  | none =>
    cases h
    exact .inl rfl
  | some q =>
    cases h
    obtain ⟨p, hp, hc, hsl, hm⟩ := hs q.1 q.2 rfl
    obtain ⟨hpc, hpo⟩ := mem_places.mp hp
    refine .inr ⟨p, hp, hm, ?_⟩
    rw [hc, hsl]
    exact view_writeSlot hg (hl.inVolume _ hpc) hpo (by decide)

/-- The bytes of a chain of clusters. -/
def content (g : Instance) (d : Disk) (l : List ℕ) : List Byte :=
  l.flatMap fun c => (List.range g.bytesPerCluster).map (d.blk c)

lemma content_cons (d : Disk) (c : ℕ) (l : List ℕ) :
    content g d (c :: l) = (List.range g.bytesPerCluster).map (d.blk c) ++ content g d l := rfl

lemma content_congr {d d' : Disk} (h : ∀ c ∈ l, d'.blk c = d.blk c) :
    content g d' l = content g d l := by
  unfold content
  apply flatMap_congr
  intro c hc
  rw [h c hc]

lemma take_block_put (d : Disk) (c : ℕ) (hlen : chunk.length ≤ g.bytesPerCluster) :
    ((List.range g.bytesPerCluster).map ((d.put c 0 chunk).blk c)).take chunk.length = chunk := by
  apply ext_getElem
  · rw [length_take, length_map, length_range]
    omega
  intro i hi hi'
  rw [getElem_take, getElem_map, getElem_range, Disk.put_self, if_pos (by omega),
    Nat.sub_zero, getD_eq_getElem _ _ hi']

lemma view_writeCluster (hg : g.Regular) (hc : g.InVolume c)
    (hlen : chunk.length ≤ g.bytesPerCluster) :
    view g (v.writeCluster g c chunk).byte = (view g v.byte).put c 0 chunk := by
  unfold Vol.writeCluster
  rw [(markSectors_fields _ _ _).1]
  exact view_write (v := v.touch c) (o := 0) hg hc (by omega)

lemma writeData_spec (hg : g.Regular) {data : List Byte} (hne : data ≠ [])
    (hl : Chained g (view g v.byte).fat (c :: l))
    (hfit : data.length ≤ (c :: l).length * g.bytesPerCluster)
    (h : writeData g fuel c data v = some (u, v')) :
    (view g v'.byte).fat = (view g v.byte).fat ∧
      (∀ x, x ∉ c :: l → (view g v'.byte).blk x = (view g v.byte).blk x) ∧
      (content g (view g v'.byte) (c :: l)).take data.length = data := by
  induction fuel generalizing c l data v with
  | zero => cases h
  | succ fuel ih =>
    have hc := hl.inVolume c (mem_cons_self ..)
    have h1 := hc.1
    have h2 := hc.2
    have hnum := hg.numbers
    unfold writeData at h
    rw [ite_apply, if_neg (by
      rintro (h | h | h)
      · exact hne h
      · omega
      · omega)] at h
    obtain ⟨u1, v1, hmod, h⟩ := bind_eq_some.mp h
    cases hmod
    have hch : (data.take g.bytesPerCluster).length ≤ g.bytesPerCluster := by
      rw [length_take]
      omega
    have hv := view_writeCluster (v := v) hg hc hch
    rw [ite_apply] at h
    by_cases hla : data.length ≤ g.bytesPerCluster
    · rw [if_pos hla] at h
      cases h
      rw [take_of_length_le hla] at hv ⊢
      rw [hv]
      refine ⟨rfl, fun x hx => ?_, ?_⟩
      · apply Disk.put_of_ne
        intro hxc
        rw [hxc] at hx
        exact hx (mem_cons_self ..)
      rw [content_cons, take_append_of_le_length, take_block_put _ _ hla]
      rw [length_map, length_range]
      exact hla
    rw [if_neg hla, getFatEntry_bind hg hc, hv] at h
    have hf : (data.take g.bytesPerCluster).length = g.bytesPerCluster := by
      rw [length_take]
      omega
    cases l with
    | nil =>
      rw [length_singleton] at hfit
      omega
    | cons n l =>
      have hn : ((view g v.byte).put c 0 (data.take g.bytesPerCluster)).fat c = n :=
        hl.2.2.1
      rw [hn] at h
      have hr : Chained g (view g (v.writeCluster g c (data.take g.bytesPerCluster)).byte).fat
          (n :: l) := by
        rw [hv]
        exact hl.2.2.2
      have hd : data.drop g.bytesPerCluster ≠ [] := by
        intro hnil
        have hlen := congrArg length hnil
        rw [length_drop, length_nil] at hlen
        omega
      have hfi : (data.drop g.bytesPerCluster).length ≤ (n :: l).length * g.bytesPerCluster := by
        rw [length_cons, Nat.add_mul, Nat.one_mul] at hfit
        rw [length_drop]
        omega
      obtain ⟨hfat, ho, hco⟩ := ih hd hr hfi h
      have hc' : (view g v'.byte).blk c =
          ((view g v.byte).put c 0 (data.take g.bytesPerCluster)).blk c := by
        rw [ho c hl.2.1, hv]
      refine ⟨by rw [hfat, hv]; rfl, fun x hx => ?_, ?_⟩
      · have hxc : x ≠ c := fun hxc => hx (hxc ▸ mem_cons_self ..)
        rw [ho x fun hin => hx (mem_cons_of_mem _ hin), hv, Disk.put_of_ne _ _ _ hxc]
      have hb : (range g.bytesPerCluster).map ((view g v'.byte).blk c) =
          data.take g.bytesPerCluster := by
        have ht := take_block_put (view g v.byte) c hch
        rw [hf, take_of_length_le (by rw [length_map, length_range])] at ht
        rw [hc']
        exact ht
      rw [content_cons, hb, take_append, hf]
      rw [length_drop] at hco
      rw [hco, take_of_length_le (by omega), take_append_drop]

end Functions

end Elitra.Fat32
