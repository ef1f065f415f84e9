import Elitra.Pipes

namespace Elitra.Pipes
open Function

variable {s s' : State} {a : Act}

/-- The pipe in the slot `i` has the end `b` open; `true` is the read end. -/
def Pipe.isOpen (p : Pipe) (b : Bool) : Bool := p.used && (if b then p.readOpen else p.writeOpen)

def Open (s : State) (e : ℕ × Bool) : Prop :=
  ∃ i < maxPipes, s.pipe i = e.1 ∧ (s.table.pipes i).isOpen e.2 = true

/-- The call of `t` moves a byte with this act. -/
def Moves (s : State) (t : ℕ) (c : Call) : Prop :=
  s.calls t = some c ∧ ∃ p b, round (s.table.pipes c.slot) c = .moved p b

/-- The condition on an act: an end is closed only when nobody else holds it, and a slot gets a new
pipe only when no call waits there. -/
def Act.Orderly (s : State) : Act → Prop
  | .close t fd => ∀ i e, closedSlot s.table fd = some i → closes s i fd e = true →
      ∀ u, s.holds u e = true → u = t
  | .create _ => ∀ i, (krustVfsPipeCreate s.table).2 = some i → ∀ t c, s.calls t = some c → c.slot ≠ i
  | _ => True

/-- What orderly acts keep: an end that somebody holds is open, an open end is counted, the numbers
tell the pipes apart, and a call is on the pipe that it named. -/
structure EndsInv (s : State) : Prop where
  held : ∀ u e, s.holds u e = true → Open s e
  readers : ∀ i, (s.table.pipes i).readers = 0 → (s.table.pipes i).readOpen = false
  writers : ∀ i, (s.table.pipes i).writers = 0 → (s.table.pipes i).writeOpen = false
  calls : ∀ t c, s.calls t = some c → s.pipe c.slot = s.named t

lemma Open.congr {e : ℕ × Bool} (h : Open s e)
    (hs : ∀ i, s.pipe i = e.1 → (s.table.pipes i).isOpen e.2 = true →
      s'.pipe i = e.1 ∧ (s'.table.pipes i).isOpen e.2 = true) : Open s' e := by
  obtain ⟨i, hi, hp, ho⟩ := h
  exact ⟨i, hi, hs i hp ho⟩

variable {b : Bool} {p : Pipe}

lemma used_of_isOpen (h : p.isOpen b = true) : p.used = true :=
  (Bool.and_eq_true_iff.mp h).1

lemma find_unused {table : Table} {i : ℕ}
    (h : (List.range maxPipes).find? (fun i => !(table.pipes i).used) = some i) :
    i < maxPipes ∧ (table.pipes i).used = false := by
  have hmem := List.mem_of_find?_eq_some h
  have hu := List.find?_some h
  exact ⟨List.mem_range.mp hmem, by simpa using hu⟩

variable {t : ℕ}

lemma EndsInv.create (h : EndsInv s) (hok : (Act.create t).Orderly s) : EndsInv (s.create t) := by
  unfold Act.Orderly at hok
  unfold State.create
  unfold krustVfsPipeCreate at hok ⊢
  split
  · exact h
  rename_i table i heq
  split at heq
  · cases heq
  rename_i j hf
  obtain ⟨hlt, hun⟩ := find_unused hf
  rw [hf] at hok
  cases heq
  refine ⟨fun u e hu => ?_, fun k => ?_, fun k => ?_, fun u c hc => ?_⟩
  · by_cases hold : s.holds u e = true
    · -- an older end is in a slot that was in use
      apply (h.held u e hold).congr
      intro k hp ho
      have hki : k ≠ i := by
        intro hki
        rw [hki] at ho
        rw [used_of_isOpen ho] at hun
        cases hun
      dsimp only
      rw [update_of_ne hki, update_of_ne hki]
      exact ⟨hp, ho⟩
    have hnew : e.1 = s.fresh := by
      simp only [hold, Bool.false_or, Bool.and_eq_true, beq_iff_eq] at hu
      exact hu.2
    refine ⟨i, hlt, ?_, ?_⟩
    · dsimp only
      rw [update_self, hnew]
    dsimp only
    rw [update_self]
    cases e.2 <;> rfl
  · dsimp only
    by_cases hki : k = i
    · rw [hki, update_self]
      intro hz
      cases hz
    rw [update_of_ne hki]
    exact h.readers k
  · dsimp only
    by_cases hki : k = i
    · rw [hki, update_self]
      intro hz
      cases hz
    rw [update_of_ne hki]
    exact h.writers k
  have hs := hok i rfl u c hc
  dsimp only
  rw [update_of_ne hs]
  exact h.calls u c hc

lemma isOpen_closed {fd : ℤ} (hr : p.readers = 0 → p.readOpen = false)
    (hw : p.writers = 0 → p.writeOpen = false) (ho : p.isOpen b = true)
    (hfd : (if b then p.readFd else p.writeFd) ≠ fd) :
    ((p.closeRead fd).closeWrite fd).drop.isOpen b = true := by
  have hu := used_of_isOpen ho
  cases b with
  | true =>
    rw [if_pos rfl] at hfd
    have hre : p.readOpen = true := by simpa [Pipe.isOpen, hu] using ho
    have hc : p.readers ≠ 0 := by
      intro hz
      rw [hr hz] at hre
      cases hre
    by_cases hwfd : p.writeFd = fd
    · simp [Pipe.closeRead, Pipe.closeWrite, Pipe.drop, Pipe.isOpen, hfd, hwfd, hc, hu, hre]
    · simp [Pipe.closeRead, Pipe.closeWrite, Pipe.drop, Pipe.isOpen, hfd, hwfd, hc, hu, hre]
  | false =>
    rw [if_neg (by decide)] at hfd
    have hwr : p.writeOpen = true := by simpa [Pipe.isOpen, hu] using ho
    have hc : p.writers ≠ 0 := by
      intro hz
      rw [hw hz] at hwr
      cases hwr
    by_cases hrfd : p.readFd = fd
    · simp [Pipe.closeRead, Pipe.closeWrite, Pipe.drop, Pipe.isOpen, hfd, hrfd, hc, hu, hwr]
    · simp [Pipe.closeRead, Pipe.closeWrite, Pipe.drop, Pipe.isOpen, hfd, hrfd, hc, hu, hwr]

lemma readers_closed {fd : ℤ} (hr : p.readers = 0 → p.readOpen = false)
    (hw : p.writers = 0 → p.writeOpen = false) :
    (((p.closeRead fd).closeWrite fd).drop.readers = 0 →
      ((p.closeRead fd).closeWrite fd).drop.readOpen = false) ∧
    (((p.closeRead fd).closeWrite fd).drop.writers = 0 →
      ((p.closeRead fd).closeWrite fd).drop.writeOpen = false) := by
  unfold Pipe.drop Pipe.closeWrite Pipe.closeRead
  split_ifs <;> exact ⟨by simp_all, by simp_all⟩

lemma EndsInv.close (h : EndsInv s) {fd : ℤ} (hok : (Act.close t fd).Orderly s) :
    EndsInv (s.close t fd) := by
  unfold Act.Orderly at hok
  unfold State.close krustVfsPipeClose
  cases hs : closedSlot s.table fd with
  | none =>
    refine ⟨fun u e hu => ?_, h.readers, h.writers, h.calls⟩
    have hold : s.holds u e = true := (Bool.and_eq_true_iff.mp hu).1
    exact h.held u e hold
  | some i =>
    dsimp only
    refine ⟨fun u e hu => ?_, fun k => ?_, fun k => ?_, h.calls⟩
    · obtain ⟨hold, hk⟩ := Bool.and_eq_true_iff.mp hu
      apply (h.held u e hold).congr
      intro k hp ho
      refine ⟨hp, ?_⟩
      dsimp only
      by_cases hki : k = i
      · subst hki
        rw [update_self]
        apply isOpen_closed (h.readers k) (h.writers k) ho
        -- if it were this end, its only holder would be the one that closes it
        intro hfd
        have hc : closes s k fd e = true := by
          unfold closes
          rw [hp]
          cases hb : e.2 <;> simp_all
        have hut := hok k e hs hc u hold
        simp [hut, hc] at hk
      rw [update_of_ne hki]
      exact ho
    · dsimp only
      by_cases hki : k = i
      · rw [hki, update_self]
        exact (readers_closed (h.readers i) (h.writers i)).1
      rw [update_of_ne hki]
      exact h.readers k
    dsimp only
    by_cases hki : k = i
    · rw [hki, update_self]
      exact (readers_closed (h.readers i) (h.writers i)).2
    rw [update_of_ne hki]
    exact h.writers k

lemma EndsInv.begin (h : EndsInv s) (t : ℕ) (fd : ℤ) (isRead : Bool) (size : ℕ) (data : ℕ → Byte) :
    EndsInv (s.start t fd isRead size data) := by
  unfold State.start
  split
  · exact h
  refine ⟨fun u e hu => h.held u e hu, h.readers, h.writers, fun u c hc => ?_⟩
  dsimp only at hc ⊢
  by_cases hut : u = t
  · subst hut
    rw [update_self] at hc ⊢
    cases hc
    rfl
  rw [update_of_ne hut] at hc ⊢
  exact h.calls u c hc

lemma EndsInv.round (h : EndsInv s) {c : Call} (hc : s.calls t = some c) :
    EndsInv (s.round t c) := by
  have hca : ∀ o : Option Call, (∀ c', o = some c' → c'.slot = c.slot) →
      ∀ u c', update s.calls t o u = some c' → s.pipe c'.slot = s.named u := by
    intro o ho u c' hu
    by_cases hut : u = t
    · subst hut
      rw [update_self] at hu
      rw [ho c' hu]
      exact h.calls u c hc
    rw [update_of_ne hut] at hu
    exact h.calls u c' hu
  unfold State.round
  split
  · exact ⟨fun u e hu => h.held u e hu, h.readers, h.writers, hca none (fun _ ho => (by cases ho))⟩
  · exact ⟨fun u e hu => h.held u e hu, h.readers, h.writers,
      hca _ (fun _ ho => (by cases ho; rfl))⟩
  rename_i p b heq
  have hpi : ∃ r, p = { s.table.pipes c.slot with ring := r } := by
    rcases (round_moved heq).2 with ⟨-, -, -, hp⟩ | ⟨-, -, hp⟩
    · exact ⟨_, hp⟩
    · exact ⟨_, hp⟩
  obtain ⟨r, hp⟩ := hpi
  subst hp
  refine ⟨fun u e hu => ?_, fun k => ?_, fun k => ?_, hca _ (fun _ ho => (by cases ho; rfl))⟩
  · apply (h.held u e hu).congr
    intro k hk hop
    refine ⟨hk, ?_⟩
    dsimp only
    by_cases hkc : k = c.slot
    · rw [hkc] at hop ⊢
      rw [update_self]
      exact hop
    rw [update_of_ne hkc]
    exact hop
  · dsimp only
    by_cases hkc : k = c.slot
    · rw [hkc, update_self]
      exact h.readers c.slot
    rw [update_of_ne hkc]
    exact h.readers k
  dsimp only
  by_cases hkc : k = c.slot
  · rw [hkc, update_self]
    exact h.writers c.slot
  rw [update_of_ne hkc]
  exact h.writers k

lemma EndsInv.step (h : EndsInv s) (hok : a.Orderly s) (hs : a.exec s = some s') : EndsInv s' := by
  cases a with
  | create t =>
    rw [Act.exec] at hs
    split at hs
    · cases hs
    cases hs
    exact h.create hok
  | fork t child =>
    rw [Act.exec] at hs
    split at hs
    · cases hs
    cases hs
    refine ⟨fun u e hu => ?_, h.readers, h.writers, h.calls⟩
    dsimp only at hu
    split at hu
    · exact h.held t e hu
    · exact h.held u e hu
  | close t fd =>
    rw [Act.exec] at hs
    split at hs
    · cases hs
    cases hs
    exact h.close hok
  | exit t =>
    cases hs
    refine ⟨fun u e hu => h.held u e (Bool.and_eq_true_iff.mp hu).1, h.readers, h.writers,
      fun u c hc => ?_⟩
    dsimp only at hc
    by_cases hut : u = t
    · rw [hut, update_self] at hc
      cases hc
    rw [update_of_ne hut] at hc
    exact h.calls u c hc
  | read t fd size =>
    rw [Act.exec] at hs
    split at hs
    · cases hs
    cases hs
    exact h.begin t fd true size _
  | write t fd size data =>
    rw [Act.exec] at hs
    split at hs
    · cases hs
    cases hs
    exact h.begin t fd false size data
  | round t =>
    rw [Act.exec] at hs
    split at hs
    · cases hs
    rename_i c hc
    cases hs
    exact h.round hc

lemma start_endsInv : EndsInv start :=
  ⟨fun _ _ hu => (by cases hu), fun _ _ => rfl, fun _ _ => rfl, fun _ _ hc => (by cases hc)⟩

/-- In every run of orderly acts an end that some task holds is open, and a call that moves a byte
moves it in the pipe that it named when it started. -/
theorem orderly_run_ends (h : Reached (fun s a => a.Orderly s) s) :
    (∀ u e, s.holds u e = true → Open s e) ∧
      ∀ t c, Moves s t c → s.pipe c.slot = s.named t := by
  have hinv : EndsInv s := h.invariant start_endsInv EndsInv.step
  exact ⟨hinv.held, fun t c hm => hinv.calls t c hm.1⟩

/-- A task makes two pipes, closes the read end of the second, forks and writes to the first. -/
theorem orderly_run_ends_write :
    ∃ s c, Reached (fun s a => a.Orderly s) s ∧ s.holds 2 (1, true) = true ∧ Open s (1, true) ∧
      s.holds 1 (2, true) = false ∧ Moves s 1 c ∧ s.pipe c.slot = s.named 1 := by
  have h1 : Reached (fun s a => a.Orderly s) _ :=
    .step (.create 1) .start (fun _ _ _ _ hc => by cases hc) rfl
  have h2 := h1.step (.create 1) (fun _ _ _ _ hc => by cases hc) rfl
  have h3 := h2.step (.close 1 34) (fun i e _ _ u hu => by
    by_contra hne
    change ((false || u == 1 && e.1 == 1) || u == 1 && e.1 == 2) = true at hu
    simp [hne] at hu) rfl
  have h4 := h3.step (.fork 1 2) trivial rfl
  have h5 := h4.step (.write 1 33 1 fun _ => 7) trivial rfl
  exact ⟨_, ⟨false, 0, 1, 0, 0, fun _ => 7, []⟩, h5, by decide,
    (orderly_run_ends h5).1 2 (1, true) (by decide), by decide, ⟨rfl, _, _, rfl⟩,
    (orderly_run_ends h5).2 1 _ ⟨rfl, _, _, rfl⟩⟩

/-- A child closes the read end that it has from its parent, and it is closed for the parent too. A
read waits on a pipe, the pipe is closed and its slot used for another one, and the read takes a byte
of that one. -/
theorem close_shared_and_reuse :
    (∃ s, Reached (fun _ _ => True) s ∧ s.holds 1 (1, true) = true ∧ ¬ Open s (1, true)) ∧
      ∃ s c, Reached (fun _ _ => True) s ∧ Moves s 1 c ∧ s.named 1 = 1 ∧ s.pipe c.slot = 2 := by
  have hcr : Reached (fun _ _ => True) (Pipes.start.create 1) :=
    .step (.create 1) .start trivial rfl
  constructor
  · have hf := hcr.step (.fork 1 2) trivial rfl
    have hc := hf.step (.close 2 32) trivial rfl
    refine ⟨_, hc, by decide, ?_⟩
    unfold Open
    decide
  have hr := hcr.step (.read 1 32 1) trivial rfl
  have hy := hr.step (.round 1) trivial rfl
  have hc := hy.step (.close 2 32) trivial rfl
  have hcl := hc.step (.close 2 33) trivial rfl
  have ha := hcl.step (.create 2) trivial rfl
  have hw := ha.step (.write 2 35 1 fun _ => 7) trivial rfl
  have hs := hw.step (.round 2) trivial rfl
  exact ⟨_, ⟨true, 0, 1, 0, 1, fun _ => 0, []⟩, hs, ⟨rfl, _, _, rfl⟩, by decide, by decide⟩

end Elitra.Pipes
