import Elitra.ElfLoad

namespace Elitra.Elf
open Paging Vmm

section Freed

variable {m m' : Machine}

end Freed

section Undo

variable {fmt : Format} {d : Mem} {size base random n : ℕ} {m₀ : Machine}
  {pages : ℕ → Option ℕ} {s : Loader} {byte : ℕ → ℕ → BitVec 8}

/-- The page lies between the lowest and the highest page of the file's segments. -/
def InSpan (fmt : Format) (d : Mem) (base p : ℕ) : Prop :=
  ∃ i j, Loads fmt d (fmt.header d).phnum i ∧ Loads fmt d (fmt.header d).phnum j ∧
    segmentStart base (fmt.segment d i) / 4096 ≤ p ∧ p < segmentEnd base (fmt.segment d j) / 4096

lemma visited_iff_span {a b v : ℕ} (ha : a % 4096 = 0) (hb : b ≤ 2 ^ 47) (hb0 : b % 4096 = 0) :
    (∃ k < rounds a b, pageOf v = pageOf (pageAt a k)) ↔ a / 4096 ≤ pageOf v ∧ pageOf v < b / 4096 := by
  unfold rounds pageAt
  constructor
  · rintro ⟨k, hk, heq⟩
    rw [heq]
    unfold pageOf
    omega
  rintro ⟨hlow, hh⟩
  refine ⟨pageOf v - a / 4096, by omega, ?_⟩
  unfold pageOf at hlow hh ⊢
  omega

section Clean

variable (h : Exits fmt d base m₀ n pages s) (hn : n ≤ (fmt.header d).phnum)
  (hwf : WellFormed fmt d size base)
include h hn hwf

lemma Exits.borders :
    s.mapEnd = 0 ∨ (s.mapStart % 4096 = 0 ∧ s.mapEnd % 4096 = 0 ∧ s.mapEnd ≤ 2 ^ 47 ∧
      ∀ p, s.mapStart / 4096 ≤ p → p < s.mapEnd / 4096 → InSpan fmt d base p) := by
  rcases h.spans.stop with hs | ⟨j, hj, hs⟩
  · exact Or.inl hs
  rcases h.spans.start with hst | ⟨i, hi, hst⟩
  · have hlow := h.spans.low j hj
    have htop := (hwf.fits j (hj.mono hn)).top
    rw [hst] at hlow
    omega
  right
  have hfi := hwf.fits i (hi.mono hn)
  have hfj := hwf.fits j (hj.mono hn)
  have hh := hfj.high
  unfold Syscalls.userAddrMax at hh
  refine ⟨?_, ?_, ?_, fun p hlow hlt => ⟨i, j, hi.mono hn, hj.mono hn, ?_, ?_⟩⟩
  · rw [hst, hfi.start]
    omega
  · rw [hs, hfj.stop]
    omega
  · rw [hs, hfj.stop]
    omega
  · rw [← hst]
    exact hlow
  rw [← hs]
  exact hlt

lemma Exits.between {p f : ℕ} (hp : pages p = some f) :
    s.mapStart / 4096 ≤ p ∧ p < s.mapEnd / 4096 := by
  obtain ⟨i, hi, hin⟩ := h.owned p f hp
  have hlow := h.spans.low i hi
  have hh := h.spans.high i hi
  have hfit := hwf.fits i (hi.mono hn)
  unfold InSegment InRange rounds at hin
  rw [hfit.start, hfit.stop] at hin
  rw [hfit.start] at hlow
  rw [hfit.stop] at hh
  omega

variable (hm : Ready m₀)
include hm

lemma Exits.visits (v : ℕ) :
    (∃ k < rounds s.mapStart s.mapEnd, Hits s.machine (pageAt s.mapStart k) v) ↔
      s.mapStart / 4096 ≤ pageOf v ∧ pageOf v < s.mapEnd / 4096 := by
  rcases h.borders hn hwf with hz | ⟨ha, hb0, hb, -⟩
  · rw [hz, rounds, Nat.zero_sub, Nat.zero_div]
    constructor
    · rintro ⟨k, hk, -⟩
      exact absurd hk (Nat.not_lt_zero k)
    rintro ⟨-, hlt⟩
    exact absurd hlt (Nat.not_lt_zero _)
  rw [← visited_iff_span ha hb hb0]
  refine exists_congr fun k => and_congr_right fun hk => ?_
  have hlt : pageAt s.mapStart k < 2 ^ 47 := by
    unfold rounds at hk
    unfold pageAt
    omega
  refine hits_of_not_large ?_
  rw [h.holding.cr3]
  exact h.holding.small (hm.small _ hlt)

variable (hspan : ∀ v, InSpan fmt d base (pageOf v) → krustPagingGetPhys m₀ v = none)
include hspan

lemma Exits.mapped {v : ℕ} {phys : Pte}
    (hin : s.mapStart / 4096 ≤ pageOf v ∧ pageOf v < s.mapEnd / 4096)
    (hv : physOf v (walkOf s.machine m₀.cr3 v) = some phys) :
    pages (pageOf v) = some (phys.toNat / 4096) := by
  cases hp : pages (pageOf v) with
  | none =>
    rcases h.borders hn hwf with hz | ⟨-, -, -, hall⟩
    · rw [hz] at hin
      exact absurd hin.2 (Nat.not_lt_zero _)
    have hno := hspan v (hall _ hin.1 hin.2)
    rw [getPhys_eq (hm.flat v), ← (h.holding.other v hp).phys, hv] at hno
    cases hno
  | some f =>
    obtain ⟨phys', hget, hf, -⟩ := h.holding.getPhys hm.good hp
    have hfl := h.holding.flat v
    rw [← h.holding.cr3] at hfl hv
    rw [getPhys_eq hfl, hv, Option.some.injEq] at hget
    rw [hget, hf]

lemma Exits.freed (f : ℕ) :
    f ∈ (unmapPages s.mapStart s.mapEnd s.machine).freed ↔ ∃ p, pages p = some f := by
  obtain ⟨place, hs⟩ := h.holding.shape
  have hfl := h.holding.flat
  rw [← h.holding.cr3] at hs hfl
  have hsp := unmapPages_spec hs hfl s.mapStart s.mapEnd
  rw [hsp.freed f, h.holding.cr3]
  constructor
  · rintro ⟨k, hk, phys, hph, hf, -⟩
    have hin := (h.visits hn hwf hm (pageAt s.mapStart k)).mp ⟨k, hk, by
      by_cases hl : Large (walkOf s.machine s.machine.cr3 (pageAt s.mapStart k))
      · exact (hits_of_large hl).mpr rfl
      · exact (hits_of_not_large hl).mpr rfl⟩
    exact ⟨_, hf ▸ h.mapped hn hwf hm hspan hin hph⟩
  rintro ⟨p, hp⟩
  have hbe := h.between hn hwf hp
  rcases h.borders hn hwf with hz | ⟨ha, hb0, hb, -⟩
  · rw [hz] at hbe
    exact absurd hbe.2 (Nat.not_lt_zero _)
  have hpa : pageOf (pageAt s.mapStart (p - s.mapStart / 4096)) = p := by
    unfold pageOf pageAt
    omega
  have hp' : pages (pageOf (pageAt s.mapStart (p - s.mapStart / 4096))) = some f := by
    rw [hpa]
    exact hp
  obtain ⟨phys, hget, hf, -⟩ := h.holding.getPhys hm.good hp'
  rw [getPhys_eq (hfl _), h.holding.cr3] at hget
  refine ⟨p - s.mapStart / 4096, by unfold rounds; omega, phys, hget, hf, fun i hi hhit => ?_⟩
  have hlt : pageAt s.mapStart i < 2 ^ 47 := by
    unfold pageAt
    omega
  have hsm : ¬ Large (walkOf s.machine s.machine.cr3 (pageAt s.mapStart i)) := by
    rw [h.holding.cr3]
    exact h.holding.small (hm.small _ hlt)
  have hsa := (hits_of_not_large hsm).mp hhit
  unfold pageAt at hsa
  omega

end Clean

/-- What the clean-up takes for granted of a file: every segment fits, no two have a page in common,
and nothing is mapped between the lowest and the highest of their pages. -/
structure Removable (m : Machine) (d : Mem) (size random : ℕ) : Prop where
  wellFormed : WellFormed (fileFormat d) d size (fileBase d random)
  apart : ∀ v, InSpan (fileFormat d) d (fileBase d random) (pageOf v) →
    krustPagingGetPhys m v = none

end Undo

end Elitra.Elf
