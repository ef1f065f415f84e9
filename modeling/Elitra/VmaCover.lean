import Elitra.Vma

namespace Elitra.Vmm
open Option

/-- Some area with these flags holds the address. -/
def Covered (l : List Vma) (addr flags : ℕ) : Prop :=
  ∃ v ∈ l, v.start ≤ addr ∧ addr < v.stop ∧ v.flags = flags

/-- An area goes beyond the range on both sides, so taking the range out needs a second node. -/
def Around (l : List Vma) (start stop : ℕ) : Prop := ∃ v ∈ l, v.start < start ∧ stop < v.stop

section Cover

variable {l : List Vma} {start stop addr flags : ℕ} {ok : Bool}

lemma covered_nil : ¬ Covered [] addr flags := by
  rintro ⟨v, hv, -⟩
  simp at hv

lemma covered_cons {v : Vma} : Covered (v :: l) addr flags ↔
    (v.start ≤ addr ∧ addr < v.stop ∧ v.flags = flags) ∨ Covered l addr flags := by
  simp only [Covered, List.mem_cons, exists_eq_or_imp]

lemma Covered.ge {v : Vma} (h : Covered l addr flags) (hv : ∀ w ∈ l, v.stop ≤ w.start) :
    v.stop ≤ addr := by
  obtain ⟨w, hw, hs, -⟩ := h
  exact (hv w hw).trans hs

/-- Taking a range out of a chain: what it held outside the range stays, with its flags. -/
lemma covered_remove (hl : Chain l) (hlt : start < stop) (hok : ok = true ∨ ¬ Around l start stop) :
    Covered (krustVmmRemove ok start stop l) addr flags ↔
      Covered l addr flags ∧ ¬ (start ≤ addr ∧ addr < stop) := by
  induction l with
  | nil => simp [krustVmmRemove, covered_nil]
  | cons c cs ih =>
    obtain ⟨hc, hne, hcs⟩ := Chain.cons.mp hl
    have hr : Around cs start stop → Around (c :: cs) start stop := by
      rintro ⟨v, hv, hin⟩
      exact ⟨v, List.mem_cons_of_mem _ hv, hin⟩
    have hih := ih hcs (hok.imp_right fun h hcs => h (hr hcs))
    have hb : Covered cs addr flags → c.stop ≤ addr := fun h => h.ge hc
    unfold krustVmmRemove
    split
    · rename_i ho
      have ho' : c.start < stop ∧ start < c.stop := by simpa [overlaps] using ho
      split_ifs with hi ha hs hle hri
      · rw [hih, covered_cons]
        constructor
        · exact fun h => ⟨.inr h.1, h.2⟩
        rintro ⟨h | h, hout⟩
        · omega
        · exact ⟨h, hout⟩
      · simp only [covered_cons]
        -- The areas behind `c` start above the range, since `c` itself ends above it.
        constructor
        · rintro (h | h | h)
          · exact ⟨.inl ⟨h.1, by omega, h.2.2⟩, by omega⟩
          · exact ⟨.inl ⟨by omega, h.2⟩, by omega⟩
          have := hb h
          exact ⟨.inr h, by omega⟩
        rintro ⟨h | h, hout⟩
        · by_cases hlow : addr < start
          · exact .inl ⟨h.1, hlow, h.2.2⟩
          · exact .inr (.inl ⟨by omega, h.2⟩)
        · exact .inr (.inr h)
      · rcases hok with hok | hok
        · exact absurd hok hs
        · exact absurd ⟨c, List.mem_cons_self .., ha⟩ hok
      · simp only [covered_cons, hih]
        constructor
        · rintro (h | h)
          · exact ⟨.inl ⟨h.1, by omega, h.2.2⟩, by omega⟩
          · exact ⟨.inr h.1, h.2⟩
        rintro ⟨h | h, hout⟩
        · exact .inl ⟨h.1, by omega, h.2.2⟩
        · exact .inr ⟨h, hout⟩
      · simp only [covered_cons, hih]
        constructor
        · rintro (h | h)
          · exact ⟨.inl ⟨by omega, h.2⟩, by omega⟩
          · exact ⟨.inr h.1, h.2⟩
        rintro ⟨h | h, hout⟩
        · exact .inl ⟨by omega, h.2⟩
        · exact .inr ⟨h, hout⟩
      · omega
    rename_i ho
    have ho' : stop ≤ c.start ∨ c.stop ≤ start := by
      rw [Bool.not_eq_true] at ho
      exact overlaps_eq_false.mp ho
    rw [covered_cons, hih, covered_cons]
    constructor
    · rintro (h | h)
      · exact ⟨.inl h, by omega⟩
      · exact ⟨.inr h.1, h.2⟩
    rintro ⟨h | h, hout⟩
    · exact .inl h
    · exact .inr ⟨h, hout⟩

/-- Without memory for the second half nothing is taken out: in a chain the area around the range
is the only one that meets it. -/
lemma remove_around (hl : Chain l) (hlt : start < stop) (h : Around l start stop) :
    krustVmmRemove false start stop l = l := by
  induction l with
  | nil => rfl
  | cons c cs ih =>
    obtain ⟨hc, hne, hcs⟩ := Chain.cons.mp hl
    obtain ⟨v, hv, hs, hst⟩ := h
    rcases List.mem_cons.mp hv with rfl | hv
    · have ho : overlaps start stop v = true := by
        simp only [overlaps, Bool.and_eq_true, decide_eq_true_eq]
        omega
      rw [krustVmmRemove, if_pos ho, if_neg (by omega), if_pos ⟨hs, hst⟩, if_neg (by simp)]
    have hb := hc v hv
    have ho : overlaps start stop c = false := overlaps_eq_false.mpr (.inr (by omega))
    rw [krustVmmRemove, if_neg (by simp [ho]), ih hcs ⟨v, hv, hs, hst⟩]

lemma find_eq_some_iff (hl : Chain l) :
    (krustVmmFind l addr).map Vma.flags = some flags ↔ Covered l addr flags := by
  induction l with
  | nil => simp [krustVmmFind, covered_nil]
  | cons c cs ih =>
    obtain ⟨hc, hne, hcs⟩ := Chain.cons.mp hl
    rw [covered_cons, ← ih hcs, krustVmmFind, List.find?_cons]
    by_cases hin : c.start ≤ addr ∧ addr < c.stop
    · rw [show (decide (c.start ≤ addr) && decide (addr < c.stop)) = true by simp [hin]]
      constructor
      · intro h
        exact .inl ⟨hin.1, hin.2, by simpa using h⟩
      rintro (h | h)
      · simp [h.2.2]
      have := ((ih hcs).mp h).ge hc
      omega
    rw [show (decide (c.start ≤ addr) && decide (addr < c.stop)) = false by
      rw [← Bool.not_eq_true, Bool.and_eq_true, decide_eq_true_eq, decide_eq_true_eq]
      exact hin]
    constructor
    · exact .inr
    rintro (h | h)
    · exact absurd ⟨h.1, h.2.1⟩ hin
    · exact h

end Cover

/-- Removing a range from a chain of areas, address by address, and what the search finds before
and after. -/
theorem remove_pointwise {l : List Vma} (hl : Chain l) {start stop : ℕ} (hlt : start < stop)
    (ok : Bool) :
    Chain (krustVmmRemove ok start stop l) ∧
      (ok = false → Around l start stop → krustVmmRemove ok start stop l = l) ∧
      (ok = true ∨ ¬ Around l start stop → ∀ addr flags,
        Covered (krustVmmRemove ok start stop l) addr flags ↔
          Covered l addr flags ∧ ¬ (start ≤ addr ∧ addr < stop)) ∧
      ∀ addr flags,
        ((krustVmmFind l addr).map Vma.flags = some flags ↔ Covered l addr flags) ∧
        ((krustVmmFind (krustVmmRemove ok start stop l) addr).map Vma.flags = some flags ↔
          Covered (krustVmmRemove ok start stop l) addr flags) := by
  have hl' : Chain (krustVmmRemove ok start stop l) := hl.remove (Nat.le_of_lt hlt)
  refine ⟨hl', ?_, fun hok addr flags => covered_remove hl hlt hok, fun addr flags =>
    ⟨find_eq_some_iff hl, find_eq_some_iff hl'⟩⟩
  rintro rfl ha
  exact remove_around hl hlt ha

theorem remove_pointwise_two :
    Chain (krustVmmRemove true 0x2000 0x3000 [⟨0x1000, 0x4000, 3⟩, ⟨0x5000, 0x7000, 1⟩]) ∧
      (Covered (krustVmmRemove true 0x2000 0x3000 [⟨0x1000, 0x4000, 3⟩, ⟨0x5000, 0x7000, 1⟩])
          0x3000 3 ↔
        Covered [⟨0x1000, 0x4000, 3⟩, ⟨0x5000, 0x7000, 1⟩] 0x3000 3 ∧
          ¬ (0x2000 ≤ 0x3000 ∧ 0x3000 < 0x3000)) := by
  have hl : Chain [⟨0x1000, 0x4000, 3⟩, ⟨0x5000, 0x7000, 1⟩] := by
    constructor
    · simp
    · simp
  have h := remove_pointwise hl (by decide : 0x2000 < 0x3000) true
  exact ⟨h.1, h.2.2.1 (.inl rfl) 0x3000 3⟩

section Mmap

/-- What a failed call leaves in `rax`. -/
def errorValue : ℕ := 0xFFFFFFFF

/-- The value system call 36 returns; `none`: the search for an address never ends. -/
def sysMmapValue (s : Space) (addr length prot flags : ℕ) (split ok : Bool) : Option ℕ :=
  if length = 0 then some errorValue
  else (mmapPlace s addr (alignUp length) flags split).map fun p =>
    if (krustVmmAdd p.2 p.1 (add64 p.1 (alignUp length)) (prot ||| vmaTypeAnon) ok).2 then p.1
    else errorValue

def candidate (k : ℕ) : ℕ := (mmapVaddr + k * 0x100000) % 2 ^ 64

/-- The overlap test that ends the search. -/
def Passes (l : List Vma) (size addr : ℕ) : Prop :=
  krustVmmHasOverlap l addr (add64 addr size) = false

instance (l : List Vma) (size addr : ℕ) : Decidable (Passes l size addr) :=
  inferInstanceAs (Decidable (_ = _))

/-- A range for `length` bytes at `addr`: long enough, not past the lowest page of the user stack,
so without a wrap, and clear of every area. -/
structure Fits (l : List Vma) (length addr : ℕ) : Prop where
  long : length ≤ alignUp length
  below : addr + alignUp length ≤ ustackBase
  clear : ∀ v ∈ l, addr + alignUp length ≤ v.start ∨ v.stop ≤ addr

variable {l : List Vma} {length size : ℕ}

lemma mmapSearch_eq_some_iff {a : ℕ} (n : ℕ) (k0 : ℕ) :
    mmapSearch l size n (candidate k0) = some a ↔
      ∃ k < n, (∀ j < k, ¬ Passes l size (candidate (k0 + j))) ∧
        Passes l size (candidate (k0 + k)) ∧ a = candidate (k0 + k) := by
  induction n generalizing k0 with
  | zero => simp [mmapSearch]
  | succ n ih =>
    have hn : add64 (candidate k0) 0x100000 = candidate (k0 + 1) := by
      unfold add64 candidate
      omega
    rw [mmapSearch]
    split
    · rename_i ho
      have hf : ¬ Passes l size (candidate k0) := by simp [Passes, ho]
      have hs : ∀ j, k0 + 1 + j = k0 + (j + 1) := fun j => by omega
      rw [hn, ih]
      simp only [hs]
      constructor
      · rintro ⟨k, hk, hb, hp, rfl⟩
        refine ⟨k + 1, by omega, fun j hj => ?_, hp, rfl⟩
        cases j with
        | zero => exact hf
        | succ j => exact hb j (by omega)
      rintro ⟨k, hk, hb, hp, rfl⟩
      cases k with
      | zero => exact absurd hp hf
      | succ k => exact ⟨k, by omega, fun j hj => hb (j + 1) (by omega), hp, rfl⟩
    rename_i ho
    have hp : Passes l size (candidate k0) := by simpa [Passes] using ho
    constructor
    · intro h
      exact ⟨0, by omega, by omega, hp, (some.inj h).symm⟩
    rintro ⟨k, hk, hb, -, rfl⟩
    cases k with
    | zero => rfl
    | succ k => exact absurd hp (hb 0 (by omega))

/-- The search goes on for ever exactly when the `2 ^ 44` addresses that it can try all overlap. -/
theorem mmapSearch_endless_iff (l : List Vma) (size : ℕ) :
    (∀ fuel, mmapSearch l size fuel mmapVaddr = none) ↔
      ∀ k < mmapRounds, ¬ Passes l size (candidate k) := by
  simp only [show mmapVaddr = candidate 0 from rfl, eq_none_iff_forall_ne_some, ne_eq,
    mmapSearch_eq_some_iff, Nat.zero_add]
  constructor
  · intro h k _ hp
    have hex : ∃ j, Passes l size (candidate j) := ⟨k, hp⟩
    exact h _ _ ⟨Nat.find hex, Nat.lt_succ_self _, fun j hj => Nat.find_min hex hj,
      Nat.find_spec hex, rfl⟩
  rintro h fuel a ⟨k, -, -, hp, -⟩
  refine h (k % mmapRounds) (Nat.mod_lt _ (by decide)) ?_
  rwa [show candidate (k % mmapRounds) = candidate k by unfold candidate mmapRounds; omega]

lemma Passes.clear {addr : ℕ} (h : Passes l size addr) (ha : addr < 2 ^ 64)
    (hs : size < 2 ^ 64) : 0 < size ∧ addr + size < 2 ^ 64 ∧
      ∀ v ∈ l, addr + size ≤ v.start ∨ v.stop ≤ addr := by
  obtain ⟨hlt, hc⟩ := hasOverlap_eq_false.mp h
  unfold add64 at hlt hc
  have hsum : (addr + size) % 2 ^ 64 = addr + size := by omega
  rw [hsum] at hlt hc
  exact ⟨by omega, by omega, hc⟩

lemma le_alignUp (hl : length < 2 ^ 64) (h : 0 < alignUp length) : length ≤ alignUp length := by
  unfold alignUp add64 pageSize at *
  omega

lemma alignUp_lt (length : ℕ) : alignUp length < 2 ^ 64 := by
  unfold alignUp add64 pageSize
  omega

lemma candidate_lt (k : ℕ) : candidate k < 2 ^ 64 := Nat.mod_lt _ (by decide)

/-- No address of the sequence is the error value: they are multiples of a megabyte. -/
lemma candidate_ne_error (k : ℕ) : candidate k ≠ errorValue := by
  unfold candidate errorValue mmapVaddr
  omega

/-- A call with a null hint returns what the search finds, or the error value if there is no
memory for the new area. -/
lemma sysMmapValue_null (s : Space) (prot flags : ℕ) (split ok : Bool) (hl : length ≠ 0) :
    sysMmapValue s 0 length prot flags split ok =
      (mmapSearch s.vmas (alignUp length) mmapRounds (candidate 0)).map fun a =>
        if ok ∧ a < add64 a (alignUp length) then a else errorValue := by
  have hp : mmapPlace s 0 (alignUp length) flags split =
      (mmapSearch s.vmas (alignUp length) mmapRounds (candidate 0)).map fun a => (a, s.vmas) := by
    rw [mmapPlace, if_neg (by simp), if_pos rfl]
    rfl
  rw [sysMmapValue, if_neg hl, hp, map_map]
  congr 1
  funext a
  simp only [Function.comp, krustVmmAdd]
  by_cases hle : add64 a (alignUp length) ≤ a
  · rw [if_pos hle, if_neg (by simp), if_neg (by omega)]
  cases ok with
  | false => simp [hle]
  | true => simp [hle, Nat.not_le.mp hle]

/-- The call with a null hint ends, with the error value or a range below the stack, exactly when
the length is 0 or the first address of the sequence that passes the overlap test leaves room below
the stack. -/
theorem mmap_null_fits_iff (s : Space) (hlength : length < 2 ^ 64) (prot flags : ℕ) :
    (∀ split ok, ∃ r, sysMmapValue s 0 length prot flags split ok = some r ∧
      (r = errorValue ∨ Fits s.vmas length r)) ↔
    length = 0 ∨ ∃ k < mmapRounds,
      (∀ j < k, ¬ Passes s.vmas (alignUp length) (candidate j)) ∧
        Passes s.vmas (alignUp length) (candidate k) ∧
        candidate k + alignUp length ≤ ustackBase := by
  by_cases hz : length = 0
  · refine iff_of_true (fun split ok => ⟨errorValue, ?_, .inl rfl⟩) (.inl hz)
    rw [sysMmapValue, if_pos hz]
  have hf : ∀ a, mmapSearch s.vmas (alignUp length) mmapRounds (candidate 0) = some a ↔
      ∃ k < mmapRounds, (∀ j < k, ¬ Passes s.vmas (alignUp length) (candidate j)) ∧
        Passes s.vmas (alignUp length) (candidate k) ∧ a = candidate k := by
    intro a
    simpa only [Nat.zero_add] using mmapSearch_eq_some_iff mmapRounds 0
  simp only [hz, false_or, sysMmapValue_null s prot flags _ _ hz, map_eq_some_iff]
  constructor
  · intro h
    obtain ⟨r, ⟨a, ha, hr⟩, hg⟩ := h true true
    obtain ⟨k, hk, hb, hp, rfl⟩ := (hf a).mp ha
    obtain ⟨-, hsum, -⟩ := hp.clear (candidate_lt k) (alignUp_lt length)
    have hlt := (hasOverlap_eq_false.mp hp).1
    rw [if_pos ⟨rfl, hlt⟩] at hr
    refine ⟨k, hk, hb, hp, ?_⟩
    rcases hg with herr | hfi
    · exact absurd (hr.trans herr) (candidate_ne_error k)
    · exact hr ▸ hfi.below
  rintro ⟨k, hk, hb, hp, hbe⟩ split ok
  obtain ⟨hpos, -, hc⟩ := hp.clear (candidate_lt k) (alignUp_lt length)
  refine ⟨_, ⟨candidate k, (hf _).mpr ⟨k, hk, hb, hp, rfl⟩, rfl⟩, ?_⟩
  split_ifs
  · exact .inr ⟨le_alignUp hlength hpos, hbe, hc⟩
  · exact .inl rfl

theorem mmap_null_fits_iff_page : ∃ r,
    sysMmapValue Space.new 0 1 3 0 true true = some r ∧ (r = errorValue ∨ Fits [] 1 r) :=
  (mmap_null_fits_iff Space.new (by decide : 1 < 2 ^ 64) 3 0).mpr
    (.inr ⟨0, by decide, by omega, by decide, by decide⟩) true true

/-- The largest length wraps to 0 when it is aligned, and every range of length 0 counts as
overlapping: no number of rounds ends the search. Two gigabytes and a page end above the stack. -/
theorem mmap_null_wraps :
    (∀ fuel, mmapSearch [] (alignUp (2 ^ 64 - 1)) fuel mmapVaddr = none) ∧
      sysMmapValue Space.new 0 (2 ^ 64 - 1) 3 0 true true = none ∧
      sysMmapValue Space.new 0 0x80001000 3 0 true true = some 0x40000000 ∧
      ustackVaddr < 0x40000000 + alignUp 0x80001000 := by
  have hs : alignUp (2 ^ 64 - 1) = 0 := by decide
  have hn : ∀ fuel k, mmapSearch [] 0 fuel (candidate k) = none := by
    intro fuel k
    rw [← Option.not_isSome_iff_eq_none, Option.isSome_iff_exists]
    rintro ⟨a, ha⟩
    obtain ⟨k', -, -, hp, -⟩ := (mmapSearch_eq_some_iff fuel k).mp ha
    have := hp.clear (candidate_lt _) (by decide)
    omega
  refine ⟨fun fuel => ?_, ?_, ?_, by decide⟩
  · rw [hs]
    exact hn fuel 0
  · rw [sysMmapValue_null _ _ _ _ _ (by decide), hs]
    exact congrArg (Option.map _) (hn mmapRounds 0)
  rw [sysMmapValue_null _ _ _ _ _ (by decide)]
  have hf : mmapSearch [] (alignUp 0x80001000) mmapRounds (candidate 0) = some mmapVaddr :=
    mmapSearch_found (by decide)
  exact (congrArg (Option.map _) hf).trans (by decide)

end Mmap

end Elitra.Vmm
