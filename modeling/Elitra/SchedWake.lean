import Elitra.SchedQueues

namespace Elitra.Sched
open List Function LinkedList

section Turns

/-- A sequence of queue calls, `some t` for `enqueue t` and `none` for `dequeue`: what the dequeues
return. -/
def Queues.turns : List (Option ℕ) → Queues → List (Option ℕ)
  | [], _ => []
  | some t :: ops, q => turns ops (q.enqueue t)
  | none :: ops, q => q.dequeue.2 :: turns ops q.dequeue.1

/-- The same calls on a list. -/
def fifoTurns : List (Option ℕ) → List ℕ → List (Option ℕ)
  | [], _ => []
  | some t :: ops, l => fifoTurns ops (l ++ [t])
  | none :: ops, l => l.head? :: fifoTurns ops l.tail

/-- No task is put into the queue while it waits there. -/
def Fresh : List (Option ℕ) → List ℕ → Prop
  | [], _ => True
  | some t :: ops, l => t ∉ l ∧ Fresh ops (l ++ [t])
  | none :: ops, l => Fresh ops l.tail

lemma Lined.turns {ops : List (Option ℕ)} {q : Queues} {ready : List ℕ} (h : Lined q ready)
    (hf : Fresh ops ready) : q.turns ops = fifoTurns ops ready := by
  induction ops generalizing q ready with
  | nil => rfl
  | cons op ops ih =>
    cases op with
    | some t => exact ih (h.enqueue hf.1).1 hf.2
    | none =>
      cases ready with
      | nil =>
        have hq : q.dequeue = (q, none) := by rw [Queues.dequeue, show q.head = none from h.linked]
        rw [Queues.turns, hq]
        exact congrArg (none :: ·) (ih h hf)
      | cons t ready =>
        obtain ⟨q', hq, hl, -⟩ := h.dequeue
        rw [Queues.turns, hq]
        exact congrArg (some t :: ·) (ih hl hf)

end Turns

section Wake

variable {s : State} {kept rest ready : List ℕ} {t : ℕ}

/-- The pass has kept some sleepers and has the rest before it. -/
structure Asleep (s : State) (kept rest ready : List ℕ) : Prop where
  linked : Linked s.queues.next s.queues.sleepHead (kept ++ rest)
  lined : Lined s.queues ready
  apart : ∀ t ∈ kept ++ rest, t ∉ ready

lemma Asleep.next (h : Asleep s kept (t :: rest) ready) : s.queues.next t = rest.head? := by
  obtain ⟨q, hq⟩ := h.linked.append
  cases rest with
  | nil => exact hq.2
  | cons a rest => exact hq.2.1

lemma enqueue_next {q : Queues} {a : ℕ} (ht : a ≠ t) (hl : q.tail ≠ some a) :
    (q.enqueue t).next a = q.next a := by
  unfold Queues.enqueue
  dsimp only
  split
  · exact update_of_ne ht ..
  case _ l _ hl' =>
    rw [hl'] at hl
    exact (update_of_ne (fun hal => hl (congrArg some hal.symm)) ..).trans (update_of_ne ht ..)
  · exact update_of_ne ht ..

lemma Asleep.wake (h : Asleep s kept (t :: rest) ready) :
    Asleep (wake s kept.getLast? t) kept rest (ready ++ [t]) := by
  have htk : t ∉ kept ++ rest := (nodup_cons.mp (nodup_middle.mp h.linked.nodup)).1
  have hsub : ∀ u ∈ kept ++ rest, u ∉ ready := fun u hu => h.apart u (by grind)
  have htr : t ∉ ready := h.apart t (by simp)
  have hl := (h.lined.enqueue htr).1
  -- The writes of the enqueue meet no other sleeper.
  have hnext : ∀ u ∈ kept ++ rest, (s.queues.enqueue t).next u = s.queues.next u := by
    intro u hu
    refine enqueue_next (fun hut => htk (hut ▸ hu)) ?_
    rw [h.lined.tail]
    exact fun hlast => hsub u hu (mem_of_getLast? hlast)
  have hapart : ∀ u ∈ kept ++ rest, u ∉ ready ++ [t] := by
    intro u hu hm
    rcases mem_append.mp hm with hm | hm
    · exact hsub u hu hm
    · exact htk (mem_singleton.mp hm ▸ hu)
  rcases eq_nil_or_concat' kept with rfl | ⟨front, p, rfl⟩
  · exact ⟨h.linked.2.congr hnext, ⟨hl.linked, hl.tail⟩, hapart⟩
  rw [getLast?_concat]
  refine ⟨?_, ⟨hl.linked.update (hapart p (by simp)) _, hl.tail⟩, hapart⟩
  have hcut : Linked (update s.queues.next p (s.queues.next t)) s.queues.sleepHead
      (front ++ [p] ++ rest) := by
    have hlk := h.linked
    rw [append_assoc] at hlk ⊢
    exact hlk.cut
  have hhead := (h.lined.enqueue htr).2.1
  refine (show Linked _ (s.queues.enqueue t).sleepHead _ from hhead ▸ hcut).congr fun u hu => ?_
  by_cases hup : u = p
  · subst hup
    exact (update_self ..).trans (update_self u _ s.queues.next).symm
  · exact (update_of_ne hup ..).trans ((hnext u hu).trans (update_of_ne hup ..).symm)

/-- What the pass has to do from there on, for the wake-up times `f`. -/
structure Woken (f : ℕ → ℕ) (now : ℕ) (s s' : State) (kept rest ready : List ℕ) : Prop where
  asleep : Asleep s' (kept ++ rest.filter (now < f ·)) [] (ready ++ rest.filter (f · ≤ now))
  count : s'.queues.sleepCount + (rest.filter (f · ≤ now)).length = s.queues.sleepCount
  state : ∀ u, s'.state u = if u ∈ rest.filter (f · ≤ now) then .ready else s.state u

lemma wakeLoop_woken {f : ℕ → ℕ} (now : ℕ) (h : Asleep s kept rest ready)
    (hf : ∀ u ∈ rest, s.sleepUntil u = f u) (hc : rest.length ≤ s.queues.sleepCount)
    (hw : s.queues.sleepCount < 2 ^ 64) :
    ∃ s', Woken f now s s' kept rest ready ∧ ∀ fuel, rest.length ≤ fuel →
      wakeLoop now fuel kept.getLast? rest.head? s = some s' := by
  induction rest generalizing s kept ready with
  | nil =>
    refine ⟨s, ⟨by simpa using h, rfl, by simp⟩, fun fuel _ => ?_⟩
    rw [head?_nil, wakeLoop]
  | cons t rest ih =>
    have hno : t ∉ rest := (nodup_cons.mp h.linked.nodup.of_append_right).1
    rw [length_cons] at hc
    have hft : s.sleepUntil t = f t := hf t (mem_cons_self ..)
    have hfr : ∀ u ∈ rest, s.sleepUntil u = f u := fun u hu => hf u (mem_cons_of_mem _ hu)
    by_cases hle : f t ≤ now
    · have hcount : (wake s kept.getLast? t).queues.sleepCount = s.queues.sleepCount - 1 := by
        have he := (h.lined.enqueue (h.apart t (by simp))).2.2
        cases kept.getLast? <;> (simp only [wake, he]; omega)
      have hu : ∀ u ∈ rest, (wake s kept.getLast? t).sleepUntil u = f u := fun u hu =>
        (update_of_ne (fun hut : u = t => hno (hut ▸ hu)) ..).trans (hfr u hu)
      obtain ⟨s', hs', hrun⟩ := ih h.wake hu (by omega) (by omega)
      refine ⟨s', ⟨?_, ?_, fun u => ?_⟩, fun fuel hfuel => ?_⟩
      · simpa [hle, hle.not_gt] using hs'.asleep
      · have hn := hs'.count
        simp only [filter_cons, hle, decide_true, if_true, length_cons]
        omega
      · rw [hs'.state u]
        by_cases hut : u = t <;> simp [hle, hut, wake]
      · obtain ⟨fuel, rfl⟩ : ∃ n, fuel = n + 1 := ⟨fuel - 1, by grind⟩
        rw [head?_cons, wakeLoop, if_pos (hft ▸ hle), h.next]
        exact hrun fuel (by grind)
    · have hkept : Asleep s (kept ++ [t]) rest ready := by
        refine ⟨?_, h.lined, ?_⟩ <;> rw [append_assoc]
        exacts [h.linked, h.apart]
      obtain ⟨s', hs', hrun⟩ := ih hkept hfr (by omega) hw
      rw [getLast?_concat] at hrun
      refine ⟨s', ⟨?_, ?_, ?_⟩, fun fuel hfuel => ?_⟩
      · simpa [hle, not_le.mp hle] using hs'.asleep
      · simpa [hle] using hs'.count
      · simpa [hle] using hs'.state
      · obtain ⟨fuel, rfl⟩ : ∃ n, fuel = n + 1 := ⟨fuel - 1, by grind⟩
        rw [head?_cons, wakeLoop, if_neg (hft ▸ hle), h.next]
        exact hrun fuel (by grind)

/-- The pass over any sleep queue: the tasks whose time has come go behind the ready queue in the
order of the sleep queue, the others stay in theirs, and what is ready then comes out first in,
first out. -/
theorem sleepWakeAll_moves {sleep : List ℕ} (hl : Lined s.queues ready)
    (hs : Linked s.queues.next s.queues.sleepHead sleep) (hd : ∀ t ∈ sleep, t ∉ ready)
    (hc : sleep.length ≤ s.queues.sleepCount) (hw : s.queues.sleepCount < 2 ^ 64) (now : ℕ) :
    let woken := sleep.filter (s.sleepUntil · ≤ now)
    ∃ s', (∀ fuel, sleep.length ≤ fuel → wakeLoop now fuel none s.queues.sleepHead s = some s') ∧
      Lined s'.queues (ready ++ woken) ∧ (ready ++ woken).Nodup ∧
      Linked s'.queues.next s'.queues.sleepHead (sleep.filter (now < s.sleepUntil ·)) ∧
      s'.queues.sleepCount + woken.length = s.queues.sleepCount ∧
      (∀ u, s'.state u = if u ∈ woken then .ready else s.state u) ∧
      ∀ ops, Fresh ops (ready ++ woken) →
        s'.queues.turns ops = fifoTurns ops (ready ++ woken) := by
  intro woken
  have hstart : Asleep s [] sleep ready := ⟨hs, hl, hd⟩
  obtain ⟨s', h, hrun⟩ := wakeLoop_woken now hstart (fun _ _ => rfl) hc hw
  have hhead : s.queues.sleepHead = sleep.head? := by
    cases sleep with
    | nil => exact hs
    | cons a l => exact hs.1
  have ha := h.asleep
  refine ⟨s', fun fuel hf => hhead ▸ hrun fuel hf, ha.lined, ha.lined.linked.nodup, ?_, h.count,
    h.state, fun ops hf => ha.lined.turns hf⟩
  simpa using ha.linked

theorem sleepWakeAll_moves_one :
    let s := sleepEnqueue (sleepEnqueue boot 1 5) 2 9
    ∃ s', sleepWakeAll s 7 = some s' ∧ Lined s'.queues [1] ∧
      Linked s'.queues.next s'.queues.sleepHead [2] := by
  intro s
  obtain ⟨s', hrun, hl, -, hs, -⟩ := sleepWakeAll_moves (show Lined s.queues [] from ⟨rfl, rfl⟩)
    (show Linked _ _ [2, 1] from ⟨rfl, rfl, rfl⟩) (by simp) (by decide) (by decide) 7
  exact ⟨s', hrun _ (by decide), hl, hs⟩

end Wake

end Elitra.Sched
