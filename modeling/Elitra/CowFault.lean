import Elitra.PageMap

namespace Elitra.Paging
open BitVec

/-- How a page fault ends: the instruction runs again, the task gets its signal 11, or, without a
task, the machine stops. -/
inductive FaultEnd where
  | resumed
  | signalled
  | halted
  deriving DecidableEq, Repr

/-- The dispatch on the error code. `current` tells whether a task runs; `absent` is the part for a
page that is not present, the swap, the lazy allocation, the eviction and the kill for want of
memory, with whether it helped. -/
def krustPageFaultHandler (absent : Machine → Machine × Bool) (current : Bool) (m : Machine)
    (err addr : ℕ) : Machine × FaultEnd :=
  let r := if err % 8 = 6 ∧ current = true then cowResolve m addr else (m, false)
  if r.2 then (r.1, .resumed)
  else
    let r := if err % 2 = 0 then absent r.1 else (r.1, false)
    if r.2 then (r.1, .resumed) else (r.1, if current then .signalled else .halted)

def flagsOf (e : Pte) : Pte := e &&& flagsMask

/-- The flags a resolved page should have: those of the shared entry without the COW bit, writable. -/
def resolvedFlags (e : Pte) : Pte := (flagsOf e &&& ~~~cowBit) ||| pageWrite

section Resolve

variable {m : Machine} {root addr t : ℕ}

lemma flagsOf_soleEntry {e : Pte} (hp : present e = true) :
    flagsOf (soleEntry e) = resolvedFlags e := by
  have hm : ∀ i : Fin 64, (flagsMask.getLsbD i = true → pteMask.getLsbD i = false) ∧
      (pageWrite.getLsbD i = true → flagsMask.getLsbD i = true) ∧
      ((1#64).getLsbD i = true → i.val = 0 ∧ flagsMask.getLsbD i = true ∧
        (~~~cowBit).getLsbD i = true) := by decide
  rw [present_eq] at hp
  apply eq_of_getLsbD_eq
  intro k hk
  obtain ⟨ha, hwr, hone⟩ := hm ⟨k, hk⟩
  simp only at ha hwr hone
  simp only [flagsOf, resolvedFlags, soleEntry, getLsbD_and, getLsbD_or]
  cases hf : flagsMask.getLsbD k with
  | false =>
    cases hw : pageWrite.getLsbD k with
    | true => simp [hwr hw] at hf
    | false => simp
  | true =>
    cases h1 : (1#64).getLsbD k with
    | false => simp [ha hf]
    | true =>
      obtain ⟨hk0, -, hc⟩ := hone h1
      simp [hk0 ▸ hp, hc]

lemma flagsOf_copyEntry (f : ℕ) : flagsOf (copyEntry f) = 7#64 := by
  have hm : pteMask &&& flagsMask = 0#64 := by decide
  rw [flagsOf, copyEntry, BitVec.and_comm, and_or_distrib_left, BitVec.and_comm,
    BitVec.and_assoc, hm, and_zero]
  decide

lemma cowResolvePage_cases (hw : walk m root addr = some t)
    (hp : present (m.mem t (ptI addr)) = true) (hc : cow (m.mem t (ptI addr)) = true)
    (hg : Pmm.Good m.pmm) :
    let e := m.mem t (ptI addr)
    let cow' := (Cow.krustCowRefdec m.cow (frame32 e)).1
    let n := Cow.krustCowRefcount m.cow (frame32 e)
    (n = 0 ∧ cowResolvePage m root addr =
      (writeEntry { m with cow := cow' } t (ptI addr) (soleEntry e), true)) ∨
    (n ≠ 0 ∧ freeSet m = ∅ ∧ cowResolvePage m root addr = ({ m with cow := cow' }, false)) ∨
    (n ≠ 0 ∧ ∃ p f, f ∈ freeSet m ∧ cowResolvePage m root addr =
      (writeEntry (fillFrame { m with pmm := p, cow := cow' } f (m.mem (pteFrame e))) t (ptI addr)
        (copyEntry f), true)) := by
  intro e cow' n
  have hs : cowResolvePage m root addr = if (Cow.krustCowRefdec m.cow (frame32 e)).2 = 0 then
        (writeEntry { m with cow := cow' } t (ptI addr) (soleEntry e), true)
      else
        let a := allocFrame { m with cow := cow' }
        if a.2 = Pmm.noFrame then (a.1, false)
        else (writeEntry (fillFrame a.1 a.2 (a.1.mem (pteFrame e))) t (ptI addr) (copyEntry a.2),
          true) := by
    rw [cowResolvePage, hw]
    simp only [e, hp, hc, Bool.not_true, Bool.false_eq_true, if_false]
    rfl
  rw [hs, Cow.refdec_snd]
  by_cases hn : n = 0
  · exact .inl ⟨hn, if_pos hn⟩
  rw [if_neg hn]
  rcases allocFrame_cases (m := { m with cow := cow' }) hg with
    ⟨heq, he⟩ | ⟨p, f, heq, hne, hf, -, -⟩
  · refine .inr (.inl ⟨hn, he, ?_⟩)
    rw [heq]
    rfl
  refine .inr (.inr ⟨hn, p, f, hf, ?_⟩)
  rw [heq]
  exact if_neg hne

/-- For a write of user code to a present page the handler does nothing but send the signal. -/
lemma handler_present (absent : Machine → Machine × Bool) (current : Bool) (m : Machine)
    {err : ℕ} (addr : ℕ) (herr : err % 8 = 7) :
    krustPageFaultHandler absent current m err addr =
      (m, if current then .signalled else .halted) := by
  have hsix : ¬ (err % 8 = 6 ∧ current = true) := by
    rintro ⟨h, -⟩
    omega
  have hodd : ¬ err % 2 = 0 := by omega
  simp only [krustPageFaultHandler, if_neg hsix, if_neg hodd, Bool.false_eq_true, if_false]

/-- A write fault of user code on a present page that is shared on write has the error code 7 in its
low bits, and the handler's test for the COW path is for 6: the fault ends in a signal and nothing
is resolved. The resolution itself, of an entry whose frame arrives whole at the counts, keeps the
contents; it gives the right flags exactly when the page was not shared any more or had no flags but
present, user and the COW bit (a copy gets the flags 7); and when there is no frame for the copy it
returns `false` with the count one lower. -/
theorem cow_write_fault (hw : walk m root addr = some t)
    (hp : present (m.mem t (ptI addr)) = true) (hc : cow (m.mem t (ptI addr)) = true)
    (hgood : Pmm.Good m.pmm) (ht : t ∉ freeSet m) (hself : pteFrame (m.mem t (ptI addr)) ≠ t) :
    let e := m.mem t (ptI addr)
    let n := Cow.krustCowRefcount m.cow (frame32 e)
    let r := cowResolvePage m root addr
    (∀ absent current err, err % 8 = 7 → krustPageFaultHandler absent current m err addr =
      (m, if current then .signalled else .halted)) ∧
    (e.toNat / 4096 = pteFrame e →
      (r.2 = true ↔ n = 0 ∨ (freeSet m).Nonempty) ∧
      (r.2 = true → r.1.mem (pteFrame (r.1.mem t (ptI addr))) = m.mem (pteFrame e) ∧
        (flagsOf (r.1.mem t (ptI addr)) = resolvedFlags e ↔ n = 0 ∨ resolvedFlags e = 7#64)) ∧
      (r.2 = false → r.1.mem t (ptI addr) = e ∧ n ≠ 0 ∧
        Cow.krustCowRefcount r.1.cow (frame32 e) = n - 1)) := by
  intro e n r
  have he : ∀ (x : Machine) (a : Pte), (writeEntry x t (ptI addr) a).mem t (ptI addr) = a := by
    intro x a
    simp [writeEntry]
  have hfr : ∀ (x : Machine) (a : Pte) (g : ℕ), g ≠ t →
      (writeEntry x t (ptI addr) a).mem g = x.mem g := fun x a g hg =>
    Function.update_of_ne hg _ _
  refine ⟨fun absent current err herr => handler_present absent current m addr herr, fun _ => ?_⟩
  rcases cowResolvePage_cases hw hp hc hgood with ⟨hn, heq⟩ | ⟨hn, hem, heq⟩ |
    ⟨hn, p, f, hf, heq⟩
  · have hr : r = _ := heq
    rw [hr]
    refine ⟨iff_of_true rfl (.inl hn), fun _ => ⟨?_, iff_of_true ?_ (.inl hn)⟩, by simp⟩
    · rw [he, pteFrame_soleEntry, hfr _ _ _ hself]
    · rw [he, flagsOf_soleEntry hp]
  · have hr : r = _ := heq
    rw [hr]
    refine ⟨iff_of_false (by simp) ?_, by simp, fun _ => ⟨rfl, hn, ?_⟩⟩
    · rintro (h | h)
      · exact hn h
      · simp [hem] at h
    · exact Cow.refcount_refdec.trans (if_pos rfl)
  have hr : r = _ := heq
  have hlt := hgood.mem_lt hf
  have hft : f ≠ t := by
    rintro rfl
    exact ht hf
  rw [hr]
  refine ⟨iff_of_true rfl (.inr ⟨f, hf⟩), fun _ => ⟨?_, ?_⟩, by simp⟩
  · rw [he, pteFrame_copyEntry hlt, hfr _ _ _ hft]
    exact Function.update_self _ _ _
  rw [he, flagsOf_copyEntry]
  constructor
  · exact fun h => .inr h.symm
  · exact fun h => (h.resolve_left hn).symm

end Resolve

/-- The page at 0x5000 of a small machine, in frame 10, with one more user. -/
def sharedMachine (p : Pte) : Machine :=
  { smallMachine 0x4007#64 p with cow := ⟨1, 16, fun f => if f = 10 then 1 else 0⟩ }

theorem cow_write_fault_copy :
    (cowResolvePage (sharedMachine 0xA205#64) 1 0x5000).2 = true ∧
      flagsOf ((cowResolvePage (sharedMachine 0xA205#64) 1 0x5000).1.mem 4 5) =
        resolvedFlags 0xA205#64 := by
  have h := cow_write_fault (m := sharedMachine 0xA205#64) (t := 4)
    (by decide : walk (sharedMachine 0xA205#64) 1 0x5000 = some 4) (by decide) (by decide)
    smallPmm_good (by decide) (by decide)
  have ht : (cowResolvePage (sharedMachine 0xA205#64) 1 0x5000).2 = true :=
    (h.2 (by decide)).1.mpr (.inr ⟨8, by decide⟩)
  exact ⟨ht, ((h.2 (by decide)).2.1 ht).2.mpr (.inr (by decide))⟩

/-- An uncached page that is shared on write: the fault of user code ends in a signal and leaves the
entry alone; the copy of the resolution is cached; and without a free frame it returns `false` and
has lowered the count. -/
theorem cow_write_fault_fails :
    krustPageFaultHandler (fun m => (m, false)) true (sharedMachine 0xA21D#64) 7 0x5000 =
        (sharedMachine 0xA21D#64, .signalled) ∧
      (cowResolve (sharedMachine 0xA21D#64) 0x5000).2 = true ∧
      (cowResolve (sharedMachine 0xA21D#64) 0x5000).1.mem 4 5 = 0x8007#64 ∧
      resolvedFlags 0xA21D#64 = 0x1F#64 ∧
      (cowResolve { sharedMachine 0xA205#64 with pmm := ⟨fun _ => 0xFF#8, 0x100, 2, 16, 8⟩ }
        0x5000).2 = false ∧
      Cow.krustCowRefcount (sharedMachine 0xA205#64).cow 10 = 1 ∧
      Cow.krustCowRefcount (cowResolve
        { sharedMachine 0xA205#64 with pmm := ⟨fun _ => 0xFF#8, 0x100, 2, 16, 8⟩ } 0x5000).1.cow 10 =
          0 :=
  ⟨rfl, by decide, by decide, by decide, by decide, by decide, by decide⟩

end Elitra.Paging
