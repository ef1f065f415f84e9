import Elitra.Sched

namespace Elitra.Sched
open Function LinkedList List Option

/-- The child lists of the tasks in `P` are the lists `kids`, and their members name the list's
owner as their parent. With `full`, naming a parent also means to be in its list, and only slots in
use have children. -/
structure Kin (full : Prop) (P : ℕ → Prop) (f : Family) (occ : ℕ → Bool) (kids : ℕ → List ℕ) :
    Prop where
  linked : ∀ p, P p → Linked f.siblingNext (f.childHead p) (kids p)
  tail : ∀ p, P p → f.childTail p = (kids p).getLast?
  parent : ∀ p t, P p → t ∈ kids p → f.parent t = some p
  occupied : ∀ p t, P p → t ∈ kids p → occ t = true
  complete : full → ∀ p t, P p → f.parent t = some p → t ∈ kids p
  bare : full → ∀ p, P p → occ p = false → kids p = []

variable {f' : Family} {prev : Option ℕ} {l : List ℕ}

section Kin

variable {full : Prop} {P : ℕ → Prop} {f : Family} {occ : ℕ → Bool} {kids : ℕ → List ℕ}
  {p t child : ℕ}

lemma Kin.mono {Q : ℕ → Prop} (h : Kin full P f occ kids) (hQ : ∀ p, Q p → P p) :
    Kin full Q f occ kids :=
  ⟨fun p hp => h.linked p (hQ p hp), fun p hp => h.tail p (hQ p hp),
    fun p t hp => h.parent p t (hQ p hp), fun p t hp => h.occupied p t (hQ p hp),
    fun hf p t hp => h.complete hf p t (hQ p hp), fun hf p hp => h.bare hf p (hQ p hp)⟩

lemma Kin.apart (h : Kin full P f occ kids) {q : ℕ} (hp : P p) (hq : P q) (ht : t ∈ kids p)
    (ht' : t ∈ kids q) : p = q :=
  some.inj ((h.parent p t hp ht).symm.trans (h.parent q t hq ht'))

lemma Kin.not_mem (h : Kin full P f occ kids) (ht : occ t = false) (hp : P p) : t ∉ kids p :=
  fun hmem => by
    have := h.occupied p t hp hmem
    rw [ht] at this
    cases this

/-- The fields that `setup_task_common` and `krust_sched_create_idle_for_cpu` write. -/
def Family.fresh (f : Family) (t : ℕ) (parent : Option ℕ) : Family :=
  { parent := update f.parent t parent
    childHead := update f.childHead t none
    childTail := update f.childTail t none
    siblingNext := update f.siblingNext t none }

lemma update_pair {α β : Type} {R : α → β → Prop} {g : ℕ → α} {k : ℕ → β} {x : α} {y : β} {q : ℕ}
    (hp : R x y) (hq : q ≠ p → R (g q) (k q)) : R (update g p x q) (update k p y q) := by
  by_cases hqp : q = p
  · rwa [hqp, update_self, update_self]
  · rw [update_of_ne hqp, update_of_ne hqp]
    exact hq hqp

lemma Kin.dropChildren (h : Kin full (· ≠ t) f occ kids) (hfu : full → ∀ u, f.parent u ≠ some t) :
    Kin full (fun _ => True) (f.dropChildren t) occ (update kids t []) := by
  have hk : ∀ p u, u ∈ update kids t [] p → p ≠ t ∧ u ∈ kids p := by
    intro p u hu
    by_cases hpt : p = t
    · rw [hpt, update_self] at hu
      cases hu
    rw [update_of_ne hpt] at hu
    exact ⟨hpt, hu⟩
  unfold Family.dropChildren
  refine ⟨fun p _ => ?_, fun p _ => ?_, fun p u _ hu => ?_, fun p u _ hu => ?_, fun hf p u _ hu => ?_,
    fun hf p _ hp => ?_⟩
  · exact update_pair (R := Linked f.siblingNext) rfl (h.linked p)
  · exact update_pair (R := fun a l => a = getLast? l) rfl (h.tail p)
  · obtain ⟨hpt, hu⟩ := hk p u hu
    exact h.parent p u hpt hu
  · obtain ⟨hpt, hu⟩ := hk p u hu
    exact h.occupied p u hpt hu
  · have hpt : p ≠ t := fun hpt => hfu hf u (hpt ▸ hu)
    rw [update_of_ne hpt]
    exact h.complete hf p u hpt hu
  by_cases hpt : p = t
  · rw [hpt, update_self]
  rw [update_of_ne hpt]
  exact h.bare hf p hpt hp

lemma Kin.born (h : Kin full (fun _ => True) f occ kids) (ht : occ t = false) (parent : Option ℕ)
    (hfu : full → parent = none) :
    Kin full (fun _ => True) (f.fresh t parent) (update occ t true) (update kids t []) := by
  have hne : ∀ p u, u ∈ kids p → u ≠ t := fun p u hu hut => h.not_mem ht trivial (hut ▸ hu)
  have hpa : full → ∀ p u, update f.parent t parent u = some p → f.parent u = some p := by
    intro hf p u hu
    by_cases hut : u = t
    · rw [hut, update_self, hfu hf] at hu
      cases hu
    · rwa [update_of_ne hut] at hu
  have hk : Kin full (· ≠ t) { f with
      parent := update f.parent t parent
      siblingNext := update f.siblingNext t none } (update occ t true) kids := by
    refine ⟨fun p _ => (h.linked p trivial).update (h.not_mem ht trivial) none,
      fun p _ => h.tail p trivial, fun p u _ hu => ?_, fun p u _ hu => ?_,
      fun hf p u _ hu => h.complete hf p u trivial (hpa hf p u hu), fun hf p hp ho => ?_⟩
    · exact (update_of_ne (hne p u hu) _ _).trans (h.parent p u trivial hu)
    · rw [update_of_ne (hne p u hu)]
      exact h.occupied p u trivial hu
    · rw [update_of_ne hp] at ho
      exact h.bare hf p trivial ho
  refine hk.dropChildren fun hf u hu => ?_
  have hmem := h.complete hf t u trivial (hpa hf t u hu)
  rw [h.bare hf t trivial ht] at hmem
  cases hmem

/-- `add_child` overwrites the parent field, so the value that was set up before does not count. -/
lemma addChild_fresh (f : Family) (t p : ℕ) (parent : Option ℕ) :
    (f.fresh t parent).addChild p t = (f.fresh t none).addChild p t := by
  unfold Family.addChild Family.fresh
  simp only [update_idem]

lemma mem_update_concat {q u : ℕ} :
    u ∈ update kids p (kids p ++ [child]) q ↔ u ∈ kids q ∨ q = p ∧ u = child := by
  by_cases hqp : q = p
  · simp [hqp]
  · simp [hqp]

lemma Kin.addChild (h : Kin full (fun _ => True) f occ kids) (ht : ∀ q, child ∉ kids q)
    (hocc : occ child = true) (hp : full → occ p = true) :
    Kin full (fun _ => True) (f.addChild p child) occ
      (update kids p (kids p ++ [child])) := by
  have hli : ∀ q, Linked (update f.siblingNext child none) (f.childHead q) (kids q) :=
    fun q => (h.linked q trivial).update (ht q) none
  have hpa : ∀ q t, t ∈ update kids p (kids p ++ [child]) q →
      update f.parent child (some p) t = some q ∧ occ t = true := by
    intro q t hmem
    rcases mem_update_concat.mp hmem with hmem | ⟨hqp, htc⟩
    · have htc : t ≠ child := fun heq => ht q (heq ▸ hmem)
      rw [update_of_ne htc]
      exact ⟨h.parent q t trivial hmem, h.occupied q t trivial hmem⟩
    rw [hqp, htc, update_self]
    exact ⟨rfl, hocc⟩
  have hc : full → ∀ q t, update f.parent child (some p) t = some q →
      t ∈ update kids p (kids p ++ [child]) q := by
    intro hf q t hq
    apply mem_update_concat.mpr
    by_cases htc : t = child
    · rw [htc, update_self] at hq
      exact .inr ⟨(some.inj hq).symm, htc⟩
    rw [update_of_ne htc] at hq
    exact .inl (h.complete hf q t trivial hq)
  have hb : full → ∀ q, occ q = false → update kids p (kids p ++ [child]) q = [] := by
    intro hf q hq
    have hqp : q ≠ p := by
      rintro rfl
      rw [hp hf] at hq
      cases hq
    rw [update_of_ne hqp]
    exact h.bare hf q trivial hq
  unfold Family.addChild
  dsimp only
  cases hh : f.childHead p with
  | none =>
    have hnil : kids p = [] := linked_none (hh ▸ h.linked p trivial)
    refine ⟨fun q _ => ?_, fun q _ => ?_, fun q t _ hmem => (hpa q t hmem).1,
      fun q t _ hmem => (hpa q t hmem).2, fun hf q t _ => hc hf q t,
      fun hf q _ => hb hf q⟩
    · refine update_pair (R := Linked _) ?_ fun _ => hli q
      rw [hnil]
      exact ⟨rfl, update_self ..⟩
    refine update_pair (R := fun a l => a = getLast? l) ?_ fun _ => h.tail q trivial
    rw [hnil]
    rfl
  | some a =>
    obtain ⟨rest, hco, -⟩ := linked_some (hh ▸ h.linked p trivial)
    obtain ⟨l, hl⟩ : ∃ l, (kids p).getLast? = some l := by
      rw [hco]
      exact ⟨_, getLast?_eq_some_getLast (by simp)⟩
    rw [h.tail p trivial, hl]
    have hlm : l ∈ kids p := mem_of_getLast? hl
    refine ⟨fun q _ => ?_, fun q _ => ?_, fun q t _ hmem => (hpa q t hmem).1,
      fun q t _ hmem => (hpa q t hmem).2, fun hf q t _ => hc hf q t,
      fun hf q _ => hb hf q⟩
    · dsimp only
      by_cases hqp : q = p
      · rw [hqp, update_self]
        exact (hli p).snoc (ht p) hl (update_self child none f.siblingNext)
      rw [update_of_ne hqp]
      exact (hli q).update (fun hmem => hqp (h.apart trivial trivial hmem hlm)) _
    exact update_pair (R := fun a l => a = getLast? l) getLast?_concat.symm
      fun _ => h.tail q trivial

/-- `krust_sched_exit` on the family: with `full` only for a task without children. -/
lemma Kin.exit (h : Kin full (fun _ => True) f occ kids) {children : List ℕ}
    (hc : f.children t = some children) (hfu : full → f.childHead t = none) :
    Kin full (fun _ => True) ((f.orphan children).dropChildren t) occ (update kids t []) := by
  have hli : children = kids t := (walkList_linked hc).unique (h.linked t trivial)
  subst hli
  -- Only parent pointers of the children change, and no other list has these members.
  have ho : ∀ (l : List ℕ) (g : Family), Kin full (· ≠ t) g occ kids → (full → l = []) →
      (∀ u ∈ l, u ∈ kids t) → (∀ p u, p ≠ t → u ∈ kids p → u ∉ kids t) →
      Kin full (· ≠ t) (g.orphan l) occ kids := by
    intro l
    induction l with
    | nil => exact fun g hg _ _ _ => hg
    | cons c l ih =>
      intro g hg hnil hl ha
      refine ih { g with parent := update g.parent c (some 0) } ?_
        (fun hf => absurd (hnil hf) (by simp)) (fun u hu => hl u (mem_cons_of_mem _ hu)) ha
      refine ⟨hg.linked, hg.tail, fun p u hp hu => ?_, hg.occupied,
        fun hf => absurd (hnil hf) (by simp), hg.bare⟩
      have huc : u ≠ c := fun huc => ha p u hp hu (huc ▸ hl c (mem_cons_self ..))
      exact (update_of_ne huc _ _).trans (hg.parent p u hp hu)
  have hnil : full → kids t = [] := fun hf => linked_none (hfu hf ▸ h.linked t trivial)
  refine (ho (kids t) f (h.mono fun _ _ => trivial) hnil (fun u hu => hu) fun p u hp hu hu' =>
    hp (h.apart trivial trivial hu hu')).dropChildren fun hf u hu => ?_
  rw [hnil hf] at hu
  have := h.complete hf t u trivial hu
  rw [hnil hf] at this
  cases this

variable {l₁ l₂ : List ℕ}

/-- The search of `remove_child` in the rest of the list ends at the child, behind the last node
before it. -/
lemma removeLoop_spec {fuel : ℕ} {curr : Option ℕ}
    (hl : Linked f.siblingNext curr (l₁ ++ child :: l₂)) (hnot : child ∉ l₁)
    (h : f.removeLoop p child fuel prev curr = some f') :
    f' = f.unlink p child (l₁.getLast?.or prev) := by
  induction l₁ generalizing fuel prev curr with
  | nil =>
    obtain ⟨rfl, -⟩ := hl
    cases fuel with
    | zero => cases h
    | succ fuel =>
      rw [Family.removeLoop, if_pos rfl] at h
      exact (some.inj h).symm
  | cons a l₁ ih =>
    obtain ⟨rfl, hr⟩ := hl
    have hac : a ≠ child := fun hac => hnot (hac ▸ mem_cons_self ..)
    cases fuel with
    | zero => cases h
    | succ fuel =>
      rw [Family.removeLoop, if_neg hac] at h
      rw [ih hr (fun hmem => hnot (mem_cons_of_mem _ hmem)) h]
      cases l₁ with
      | nil => rfl
      | cons b l₁ => simp [getLast?_cons]

lemma unlink_list (hl : Linked f.siblingNext (f.childHead p) (l₁ ++ child :: l₂)) :
    Linked (f.unlink p child l₁.getLast?).siblingNext ((f.unlink p child l₁.getLast?).childHead p)
      (l₁ ++ l₂) := by
  have hn := hl.nodup
  have hc : child ∉ l₁ ++ l₂ := (nodup_middle.mp hn |> nodup_cons.mp).1
  rcases eq_nil_or_concat l₁ with rfl | ⟨l, q, rfl⟩
  · have hcut := hl.cut_first none
    unfold Family.unlink
    dsimp only [getLast?_nil]
    split <;> simpa using hcut
  rw [concat_eq_append, append_assoc] at hl
  have hcut := hl.cut
  rw [concat_eq_append, append_assoc] at hc
  have hf := hcut.update hc none
  rw [concat_eq_append, getLast?_concat, append_assoc]
  unfold Family.unlink
  dsimp only
  split <;> exact hf

lemma unlink_tail (hl : Linked f.siblingNext (f.childHead p) (l₁ ++ child :: l₂))
    (ht : f.childTail p = (l₁ ++ child :: l₂).getLast?) :
    (f.unlink p child l₁.getLast?).childTail p = (l₁ ++ l₂).getLast? := by
  have ha : Linked f.siblingNext (f.siblingNext child) l₂ := by
    obtain ⟨q, hq⟩ := hl.append
    exact hq.2
  unfold Family.unlink
  dsimp only
  cases l₂ with
  | nil =>
    rw [if_pos (show f.siblingNext child = none from ha)]
    dsimp only
    rw [update_self, append_nil]
  | cons b l₂ =>
    rw [if_neg (by rw [ha.1]; simp)]
    have hs : (l₁ ++ child :: b :: l₂).getLast? = (l₁ ++ b :: l₂).getLast? := by
      simp [getLast?_append, getLast?_cons]
    rw [← hs, ← ht]
    cases l₁.getLast? <;> rfl

lemma unlink_other {q u : ℕ} : (q ≠ p → (f.unlink p child prev).childHead q = f.childHead q) ∧
    (q ≠ p → (f.unlink p child prev).childTail q = f.childTail q) ∧
    (u ≠ child → prev ≠ some u → (f.unlink p child prev).siblingNext u = f.siblingNext u) ∧
    (f.unlink p child prev).parent = update f.parent child none := by
  unfold Family.unlink
  dsimp only
  refine ⟨fun hq => ?_, fun hq => ?_, fun hu hp => ?_, ?_⟩
  · cases prev with
    | none => split <;> exact update_of_ne hq _ _
    | some a => split <;> rfl
  · cases prev with
    | none =>
      split
      · exact update_of_ne hq _ _
      · rfl
    | some a =>
      split
      · exact update_of_ne hq _ _
      · rfl
  · cases prev with
    | none => split <;> exact update_of_ne hu _ _
    | some a =>
      have hua : u ≠ a := fun hua => hp (congrArg some hua.symm)
      split <;>
        exact (update_of_ne hu _ _).trans (update_of_ne hua _ _)
  · cases prev <;> split <;> rfl

lemma Kin.removeChild (h : Kin full (fun _ => True) f occ kids)
    (hmem : child ∈ kids p) (hr : f.removeChild p child = some f')
    (hb : full → kids child = []) :
    Kin full (fun _ => True) f' (update occ child false)
      (update kids p ((kids p).erase child)) := by
  obtain ⟨l₁, l₂, hs⟩ := append_of_mem hmem
  have hl := h.linked p trivial
  rw [hs] at hl
  have hc : child ∉ l₁ ++ l₂ := (nodup_middle.mp hl.nodup |> nodup_cons.mp).1
  have hnot : child ∉ l₁ := fun hm => hc (mem_append_left _ hm)
  have he : (kids p).erase child = l₁ ++ l₂ := by
    rw [hs, erase_append_right _ hnot, erase_cons_head]
  obtain rfl : f' = f.unlink p child l₁.getLast? := by
    rw [removeLoop_spec hl hnot hr, or_none]
  rw [he]
  have hk : ∀ q t, t ∈ update kids p (l₁ ++ l₂) q → t ∈ kids q ∧ t ≠ child := by
    intro q t ht
    by_cases hqp : q = p
    · rw [hqp, update_self] at ht
      rw [hqp, hs]
      refine ⟨?_, fun htc => hc (htc ▸ ht)⟩
      rcases mem_append.mp ht with ht | ht
      · exact mem_append_left _ ht
      · exact mem_append_right _ (mem_cons_of_mem _ ht)
    rw [update_of_ne hqp] at ht
    exact ⟨ht, fun htc => hqp (h.apart trivial trivial (htc ▸ ht) hmem)⟩
  refine ⟨fun q _ => ?_, fun q _ => ?_, fun q t _ ht => ?_, fun q t _ ht => ?_,
    fun hf q t _ ht => ?_, fun hf q _ hq => ?_⟩
  · by_cases hqp : q = p
    · rw [hqp, update_self]
      exact unlink_list hl
    rw [update_of_ne hqp, (unlink_other (u := 0)).1 hqp]
    refine (h.linked q trivial).congr fun u hu => ?_
    have hout : u ∉ kids p := fun hup => hqp (h.apart trivial trivial hu hup)
    refine (unlink_other (q := q)).2.2.1 (fun huc => hout (huc ▸ hmem)) fun hla => hout ?_
    rw [hs]
    exact mem_append_left _ (mem_of_getLast? hla)
  · by_cases hqp : q = p
    · rw [hqp, update_self]
      exact unlink_tail hl (hs ▸ h.tail p trivial)
    rw [update_of_ne hqp, (unlink_other (u := 0)).2.1 hqp]
    exact h.tail q trivial
  · obtain ⟨ht, htc⟩ := hk q t ht
    rw [(unlink_other (q := q) (u := t)).2.2.2, update_of_ne htc]
    exact h.parent q t trivial ht
  · obtain ⟨ht, htc⟩ := hk q t ht
    rw [update_of_ne htc]
    exact h.occupied q t trivial ht
  · rw [(unlink_other (q := q) (u := t)).2.2.2] at ht
    have htc : t ≠ child := by
      rintro rfl
      rw [update_self] at ht
      cases ht
    rw [update_of_ne htc] at ht
    have htq := h.complete hf q t trivial ht
    by_cases hqp : q = p
    · rw [hqp, update_self]
      rw [hqp, hs] at htq
      simp only [mem_append, mem_cons, htc, false_or] at htq ⊢
      exact htq
    · rwa [update_of_ne hqp]
  have hqp : q ≠ p := by
    rintro rfl
    have hnil : kids q = [] := by
      by_cases hqc : q = child
      · rw [hqc]
        exact hb hf
      rw [update_of_ne hqc] at hq
      exact h.bare hf q trivial hq
    rw [hnil] at hmem
    cases hmem
  rw [update_of_ne hqp]
  by_cases hqc : q = child
  · rw [hqc]
    exact hb hf
  rw [update_of_ne hqc] at hq
  exact h.bare hf q trivial hq

/-- One round of `krust_oom_kill`: an orphan is pushed on the list of task 1. The tail pointer is
not touched, which is right only when the list has members. -/
lemma Kin.push (h : Kin full P f occ kids) (h1 : P 1) (hne : kids 1 ≠ [])
    (hout : ∀ p, P p → child ∉ kids p) (hocc : occ child = true) :
    Kin full P
      { f with
        parent := update f.parent child (some 1)
        siblingNext := update f.siblingNext child (f.childHead 1)
        childHead := update f.childHead 1 (some child) } occ
      (update kids 1 (child :: kids 1)) := by
  have hk : ∀ q t, t ∈ update kids 1 (child :: kids 1) q → t = child ∧ q = 1 ∨ t ∈ kids q := by
    intro q t ht
    by_cases hq : q = 1
    · rw [hq, update_self] at ht
      rcases mem_cons.mp ht with ht | ht
      · exact .inl ⟨ht, hq⟩
      · exact .inr (hq ▸ ht)
    rw [update_of_ne hq] at ht
    exact .inr ht
  have hl : ∀ q, P q →
      Linked (update f.siblingNext child (f.childHead 1)) (f.childHead q) (kids q) :=
    fun q hq => (h.linked q hq).update (hout q hq) _
  refine ⟨fun q hq => ?_, fun q hq => ?_, fun q t hq ht => ?_, fun q t hq ht => ?_,
    fun hf q t hq ht => ?_, fun hf q hq hocc' => ?_⟩
  · refine update_pair (R := Linked _) ⟨rfl, ?_⟩ fun _ => hl q hq
    dsimp only
    rw [update_self]
    exact hl 1 h1
  · dsimp only
    by_cases hq1 : q = 1
    · rw [hq1, update_self, h.tail 1 h1]
      obtain ⟨a, l, hal⟩ := exists_cons_of_ne_nil hne
      rw [hal]
      simp [getLast?_cons]
    rw [update_of_ne hq1]
    exact h.tail q hq
  · dsimp only
    rcases hk q t ht with ⟨rfl, rfl⟩ | hmem
    · rw [update_self]
    have htc : t ≠ child := fun htc => hout q hq (htc ▸ hmem)
    rw [update_of_ne htc]
    exact h.parent q t hq hmem
  · rcases hk q t ht with ⟨rfl, -⟩ | hmem
    · exact hocc
    · exact h.occupied q t hq hmem
  · dsimp only at ht
    by_cases htc : t = child
    · rw [htc, update_self] at ht
      rw [← some.inj ht, update_self, htc]
      exact mem_cons_self ..
    rw [update_of_ne htc] at ht
    have hmem := h.complete hf q t hq ht
    by_cases hq1 : q = 1
    · rw [hq1, update_self]
      exact mem_cons_of_mem _ (hq1 ▸ hmem)
    · rwa [update_of_ne hq1]
  have hq1 : q ≠ 1 := by
    rintro rfl
    exact hne (h.bare hf 1 h1 hocc')
  rw [update_of_ne hq1]
  exact h.bare hf q hq hocc'

lemma Kin.adopt (h : Kin full P f occ kids) (h1 : P 1) (hne : kids 1 ≠ [])
    (hn : l.Nodup) (hout : ∀ c ∈ l, ∀ p, P p → c ∉ kids p) (hocc : ∀ c ∈ l, occ c = true) :
    Kin full P (f.adopt l) occ (update kids 1 (l.reverse ++ kids 1)) := by
  induction l generalizing f kids with
  | nil =>
    rw [reverse_nil, nil_append, update_eq_self]
    exact h
  | cons c l ih =>
    obtain ⟨hcl, hn'⟩ := nodup_cons.mp hn
    have hpu := h.push h1 hne (hout c (mem_cons_self ..)) (hocc c (mem_cons_self ..))
    have hr := ih hpu (by rw [update_self]; simp) hn'
      (fun d hd p hp hmem => ?_) fun d hd => hocc d (mem_cons_of_mem _ hd)
    · rw [update_self, update_idem] at hr
      rw [reverse_cons, append_assoc]
      exact hr
    by_cases hp1 : p = 1
    · rw [hp1, update_self] at hmem
      rcases mem_cons.mp hmem with rfl | hmem
      · exact hcl hd
      · exact hout d (mem_cons_of_mem _ hd) 1 h1 hmem
    rw [update_of_ne hp1] at hmem
    exact hout d (mem_cons_of_mem _ hd) p hp hmem

lemma adopt_parent {u : ℕ} (f : Family) :
    (f.adopt l).parent u = if u ∈ l then some 1 else f.parent u := by
  induction l generalizing f with
  | nil => simp [Family.adopt]
  | cons c l ih =>
    have hs := ih { f with
      parent := update f.parent c (some 1)
      siblingNext := update f.siblingNext c (f.childHead 1)
      childHead := update f.childHead 1 (some c) }
    refine hs.trans ?_
    dsimp only
    by_cases hul : u ∈ l
    · rw [if_pos hul, if_pos (mem_cons_of_mem _ hul)]
    rw [if_neg hul]
    by_cases huc : u = c
    · rw [huc, update_self, if_pos (mem_cons_self ..)]
    · rw [update_of_ne huc, if_neg (by simp [huc, hul])]

lemma Kin.oom (h : Kin full (fun _ => True) f occ kids) {v : ℕ} {children : List ℕ}
    (hc : f.children v = some children)
    (hs : f.childHead v = none ∨ v ≠ 1 ∧ f.childHead 1 ≠ none) :
    ∃ kids', Kin full (fun _ => True) ((f.adopt children).dropChildren v) occ kids' ∧
      ∀ p t, t ∈ kids' p → ∃ q, t ∈ kids q := by
  have hl : children = kids v := (walkList_linked hc).unique (h.linked v trivial)
  subst hl
  by_cases hnil : kids v = []
  · refine ⟨update kids v [], Kin.dropChildren ?_ fun hf u hu => ?_, fun p t ht => ?_⟩
    · rw [hnil]
      exact h.mono fun _ _ => trivial
    · rw [hnil] at hu
      have := h.complete hf v u trivial hu
      rw [hnil] at this
      cases this
    by_cases hpv : p = v
    · rw [hpv, update_self] at ht
      cases ht
    rw [update_of_ne hpv] at ht
    exact ⟨p, ht⟩
  have hv : v ≠ 1 ∧ f.childHead 1 ≠ none := by
    rcases hs with hh | hv
    · exact absurd (linked_none (hh ▸ h.linked v trivial)) hnil
    · exact hv
  have hne : kids 1 ≠ [] := fun h1 => hv.2 (by have := h.linked 1 trivial; rwa [h1] at this)
  have hout : ∀ c ∈ kids v, ∀ p, p ≠ v → c ∉ kids p := fun c hc p hp hmem =>
    hp (h.apart trivial trivial hmem hc)
  have ha := (h.mono (Q := (· ≠ v)) fun _ _ => trivial).adopt hv.1.symm hne
    (h.linked v trivial).nodup hout fun c hc => h.occupied v c trivial hc
  refine ⟨_, ha.dropChildren fun hf u hu => ?_, fun p t ht => ?_⟩
  · rw [adopt_parent] at hu
    split at hu
    · exact hv.1 (some.inj hu).symm
    rename_i hmem
    exact hmem (h.complete hf v u trivial hu)
  by_cases hpv : p = v
  · rw [hpv, update_self] at ht
    cases ht
  rw [update_of_ne hpv] at ht
  by_cases hp1 : p = 1
  · rw [hp1, update_self] at ht
    rcases mem_append.mp ht with ht | ht
    · exact ⟨v, mem_reverse.mp ht⟩
    · exact ⟨1, ht⟩
  rw [update_of_ne hp1] at ht
  exact ⟨p, ht⟩

end Kin

end Elitra.Sched
