import Elitra.Vfs
import Mathlib.Logic.Relation

namespace Elitra.Vfs
open Function LinkedList List Relation

/-- A name a directory may hold. -/
def Proper (name : CStr) : Prop := name ≠ [] ∧ name ≠ dot ∧ name ≠ dotdot

/-- The list of each directory is `kids`: its members are allocated, name it as their parent, and
have different, proper names; only directories have members. -/
structure Shape (s : Fs) (kids : ℕ → List ℕ) : Prop where
  linked : ∀ d, s.live d = true → Linked s.next (s.children d) (kids d)
  dead : ∀ d, s.live d = false → kids d = []
  held : ∀ d c, c ∈ kids d → s.live c = true ∧ s.parent c = some d ∧ c ≠ root
  dirs : ∀ d, kids d ≠ [] → s.kind d = .dir
  names : ∀ d, ((kids d).map s.name).Nodup
  proper : ∀ d c, c ∈ kids d → Proper (s.name c)
  top : s.live root = true ∧ s.kind root = .dir ∧ s.parent root = some root
  fresh : ∀ d, s.live d = true → d < s.fresh

/-- There is a way down from `a` to `n`. -/
def From (kids : ℕ → List ℕ) (a n : ℕ) : Prop := ReflTransGen (fun d c => c ∈ kids d) a n

/-- The allocated nodes form a tree with the root on top. -/
structure Tree (s : Fs) (kids : ℕ → List ℕ) : Prop extends Shape s kids where
  reach : ∀ n, s.live n = true → From kids root n

section Lookup

variable {s : Fs} {kids : ℕ → List ℕ} {name path : CStr} {d x : ℕ}

lemma Shape.live_of_from (h : Shape s kids) (hd : From kids root d) : s.live d = true := by
  cases hd with
  | refl => exact h.top.1
  | tail _ hmem => exact (h.held _ _ hmem).1

lemma Shape.parent_from (h : Shape s kids) (hd : From kids root d) :
    ∃ p, s.parent d = some p ∧ From kids root p := by
  cases hd with
  | refl => exact ⟨root, h.top.2.2, .refl⟩
  | tail hp hmem => exact ⟨_, (h.held _ _ hmem).2.1, hp⟩

lemma findLoop_spec {fuel : ℕ} {p r : Option ℕ} {l : List ℕ} (hl : Linked s.next p l)
    (h : findLoop s name fuel p = some r) :
    (∀ x, r = some x → x ∈ l ∧ s.name x = name) ∧ (r = none → ∀ x ∈ l, s.name x ≠ name) := by
  induction fuel generalizing p l with
  | zero =>
    cases p with
    | none =>
      cases h
      rw [linked_none hl]
      exact ⟨fun x hx => (by cases hx), fun _ x hx => (by cases hx)⟩
    | some c => cases h
  | succ fuel ih =>
    cases p with
    | none =>
      cases h
      rw [linked_none hl]
      exact ⟨fun x hx => (by cases hx), fun _ x hx => (by cases hx)⟩
    | some c =>
      obtain ⟨l', rfl, hl'⟩ := linked_some hl
      rw [findLoop] at h
      split at h
      · rename_i hn
        cases h
        refine ⟨fun x hx => ?_, fun hr => by cases hr⟩
        cases hx
        exact ⟨mem_cons_self .., hn⟩
      rename_i hn
      obtain ⟨hs, hno⟩ := ih hl' h
      refine ⟨fun x hx => ?_, fun hr x hx => ?_⟩
      · exact ⟨mem_cons_of_mem _ (hs x hx).1, (hs x hx).2⟩
      rcases mem_cons.mp hx with rfl | hx
      · exact hn
      · exact hno hr x hx

section Lookup

variable (h : Shape s kids)
include h

lemma Shape.findChild_none (hd : s.live d = true) (hf : findChild s d name = some none) :
    name ≠ dot ∧ name ≠ dotdot ∧ ∀ x ∈ kids d, s.name x ≠ name := by
  unfold findChild at hf
  split at hf
  · cases hf
  rename_i hdot
  split at hf
  · cases hf
  rename_i hdo
  exact ⟨hdot, hdo, (findLoop_spec (h.linked d hd) hf).2 rfl⟩

lemma Shape.findChild_some (hd : From kids root d) (hf : findChild s d name = some (some x)) :
    (name = dot ∧ x = d) ∨ (name = dotdot ∧ s.parent d = some x ∧ From kids root x) ∨ x ∈ kids d := by
  unfold findChild at hf
  split at hf
  · rename_i hdot
    cases hf
    exact .inl ⟨hdot, rfl⟩
  split at hf
  · rename_i hdo
    obtain ⟨p, hp, hfr⟩ := h.parent_from hd
    rw [hp] at hf
    cases hf
    exact .inr (.inl ⟨hdo, hp, hfr⟩)
  · exact .inr (.inr ((findLoop_spec (h.linked d (h.live_of_from hd)) hf).1 x rfl).1)

lemma Shape.findChild_from (hd : From kids root d)
    (hf : findChild s d name = some (some x)) : From kids root x := by
  rcases h.findChild_some hd hf with ⟨-, rfl⟩ | ⟨-, -, hx⟩ | hx
  · exact hd
  · exact hx
  · exact hd.tail hx

lemma Shape.walkPath_from {hop : ℕ → CStr → Option (Option ℕ)}
    (hhop : ∀ d path x, From kids root d → hop d path = some (some x) → From kids root x)
    {segs : List (CStr × CStr)} (hd : From kids root d)
    (hw : walkPath s hop d segs = some (some x)) : From kids root x := by
  induction segs generalizing d with
  | nil =>
    cases hw
    exact hd
  | cons seg segs ih =>
    rw [walkPath] at hw
    split at hw
    · cases hw
    split at hw
    · cases hw
    · cases hw
    rename_i child hf
    split at hw
    · refine hhop _ _ _ ?_ hw
      split
      · exact .refl
      · exact hd
    · exact ih (h.findChild_from hd hf) hw

lemma Shape.resolvePath_from {hops : ℕ} (hd : From kids root d)
    (hres : resolvePath s hops d path = some (some x)) : From kids root x := by
  induction hops generalizing d path x with
  | zero => cases hres
  | succ hops ih => exact h.walkPath_from (fun _ _ _ hd hx => ih hd hx) hd hres

lemma Shape.resolve_from (hres : krustVfsResolve s path = some (some x)) :
    From kids root x := by
  unfold krustVfsResolve at hres
  split at hres
  · cases hres
    exact .refl
  · exact h.resolvePath_from .refl hres

lemma Shape.resolveParent_from (hres : resolveParent s path = some (some x)) :
    From kids root x := by
  unfold resolveParent at hres
  dsimp only at hres
  split at hres
  · exact h.resolvePath_from .refl hres
  cases hres
  exact .refl

end Lookup

end Lookup

section Links

variable {s s' : Fs} {kids : ℕ → List ℕ} {p c : ℕ}

lemma Shape.push (h : Shape s kids) (hc : ∀ d, c ∉ kids d) (hli : s.live c = true)
    (hr : c ≠ root) (hp : s.live p = true) (hdir : s.kind p = .dir) (hpa : s.parent c = some p)
    (hpr : Proper (s.name c)) (hn : ∀ x ∈ kids p, s.name x ≠ s.name c) :
    Shape (addChild s p c) (update kids p (c :: kids p)) := by
  have ho : ∀ d l, Linked s.next (s.children d) l → c ∉ l →
      Linked (update s.next c (s.children p)) (s.children d) l :=
    fun d l hl hcl => hl.update hcl _
  unfold addChild
  refine ⟨fun d hd => ?_, fun d hd => ?_, fun d x hx => ?_, fun d hd => ?_, fun d => ?_,
    fun d x hx => ?_, h.top, h.fresh⟩
  · dsimp only at hd ⊢
    by_cases hdp : d = p
    · rw [hdp, update_self, update_self]
      refine ⟨rfl, ?_⟩
      rw [update_self]
      exact ho p _ (h.linked p hp) (hc p)
    rw [update_of_ne hdp, update_of_ne hdp]
    exact ho d _ (h.linked d hd) (hc d)
  · dsimp only at hd
    have hdp : d ≠ p := fun heq => by
      rw [heq, hp] at hd
      cases hd
    rw [update_of_ne hdp]
    exact h.dead d hd
  · dsimp only
    by_cases hdp : d = p
    · rw [hdp, update_self] at hx
      rw [hdp]
      rcases mem_cons.mp hx with rfl | hx
      · exact ⟨hli, hpa, hr⟩
      · exact h.held p x hx
    rw [update_of_ne hdp] at hx
    exact h.held d x hx
  · by_cases hdp : d = p
    · rw [hdp]
      exact hdir
    rw [update_of_ne hdp] at hd
    exact h.dirs d hd
  · dsimp only
    by_cases hdp : d = p
    · rw [hdp, update_self, map_cons, nodup_cons]
      refine ⟨fun hmem => ?_, h.names p⟩
      obtain ⟨x, hx, heq⟩ := mem_map.mp hmem
      exact hn x hx heq
    rw [update_of_ne hdp]
    exact h.names d
  dsimp only
  by_cases hdp : d = p
  · rw [hdp, update_self] at hx
    rcases mem_cons.mp hx with rfl | hx
    · exact hpr
    · exact h.proper p x hx
  rw [update_of_ne hdp] at hx
  exact h.proper d x hx

lemma Shape.retouch (h : Shape s kids) (hc : ∀ d, c ∉ kids d) (hr : c ≠ root) (name : CStr)
    (parent next : Option ℕ) :
    Shape { s with
      name := update s.name c name
      parent := update s.parent c parent
      next := update s.next c next } kids := by
  have hne : ∀ d x, x ∈ kids d → x ≠ c := fun d x hx heq => hc d (heq ▸ hx)
  refine ⟨fun d hd => (h.linked d hd).update (hc d) _, h.dead, fun d x hx => ?_, h.dirs, fun d => ?_,
    fun d x hx => ?_, ?_, h.fresh⟩
  · dsimp only
    rw [update_of_ne (hne d x hx)]
    exact h.held d x hx
  · have hmap : (kids d).map (update s.name c name) = (kids d).map s.name :=
      map_congr_left fun x hx => update_of_ne (hne d x hx) _ _
    dsimp only
    rw [hmap]
    exact h.names d
  · dsimp only
    rw [update_of_ne (hne d x hx)]
    exact h.proper d x hx
  dsimp only
  rw [update_of_ne (Ne.symm hr)]
  exact h.top

lemma cutLoop_spec {l todo done : List ℕ} {fuel : ℕ} {prev curr : Option ℕ}
    (hl : Linked s.next (s.children p) l) (hs : l = done ++ todo)
    (hcu : Linked s.next curr todo) (hp : prev = done.getLast?) (hc : c ∉ done) (hmem : c ∈ l)
    (h : cutLoop s p c fuel prev curr = some s') :
    ∃ next children, s' = { s with next := next, children := children } ∧
      Linked next (children p) (l.erase c) ∧ (∀ d, d ≠ p → children d = s.children d) ∧
      ∀ x, x ∉ l → next x = s.next x := by
  induction fuel generalizing prev curr todo done with
  | zero =>
    cases curr with
    | none =>
      rw [linked_none hcu, append_nil] at hs
      rw [hs] at hmem
      exact absurd hmem hc
    | some a => cases h
  | succ fuel ih =>
    cases curr with
    | none =>
      rw [linked_none hcu, append_nil] at hs
      rw [hs] at hmem
      exact absurd hmem hc
    | some a =>
      obtain ⟨todo', rfl, ht⟩ := linked_some hcu
      unfold cutLoop at h
      split at h
      · rename_i hac
        subst hac
        cases h
        subst hs
        have he : (done ++ a :: todo').erase a = done ++ todo' := by
          rw [erase_append_right _ hc, erase_cons_head]
        rw [he]
        cases hla : done.getLast? with
        | none =>
          rw [getLast?_eq_none_iff.mp hla] at hl ⊢
          rw [hla] at hp
          rw [hp]
          refine ⟨s.next, _, rfl, ?_, fun d hd => update_of_ne hd _ _, fun x _ => rfl⟩
          rw [update_self]
          exact hl.2
        | some q =>
          obtain ⟨done', rfl⟩ := getLast?_eq_some_iff.mp hla
          rw [hla] at hp
          rw [hp]
          refine ⟨_, s.children, rfl, ?_, fun d hd => rfl, fun x hx => ?_⟩
          · rw [append_assoc] at hl ⊢
            exact hl.cut
          have hxq : x ≠ q := fun heq => hx (by rw [heq]; simp)
          exact update_of_ne hxq _ _
      rename_i hac
      have hs' : l = (done ++ [a]) ++ todo' := by
        rw [append_assoc]
        exact hs
      have hnot : c ∉ done ++ [a] := by
        intro hin
        rcases mem_append.mp hin with hin | hin
        · exact hc hin
        · exact hac (mem_singleton.mp hin).symm
      exact ih hs' ht (getLast?_concat ..).symm hnot h

lemma Shape.cut (h : Shape s kids) (hc : c ∈ kids p) (hcut : cutChild s p c = some s') :
    (∃ next children, s' = { s with next := next, children := children }) ∧
      Shape s' (update kids p ((kids p).erase c)) ∧
      ∀ d, c ∉ update kids p ((kids p).erase c) d := by
  have hp : s.live p = true := by
    by_contra hde
    rw [h.dead p (by simpa using hde)] at hc
    cases hc
  have hl := h.linked p hp
  obtain ⟨next, children, rfl, hli, ho, hn⟩ :=
    cutLoop_spec hl (nil_append _).symm hl rfl (not_mem_nil) hc hcut
  have hsub : ∀ d x, x ∈ update kids p ((kids p).erase c) d → x ∈ kids d := by
    intro d x hx
    by_cases hdp : d = p
    · rw [hdp, update_self] at hx
      rw [hdp]
      exact mem_of_mem_erase hx
    · rwa [update_of_ne hdp] at hx
  have hout : ∀ d, c ∉ update kids p ((kids p).erase c) d := by
    intro d hmem
    by_cases hdp : d = p
    · rw [hdp, update_self] at hmem
      exact hl.nodup.not_mem_erase hmem
    have hin := hsub d c hmem
    have h1 := (h.held d c hin).2.1
    rw [(h.held p c hc).2.1] at h1
    exact hdp (Option.some.inj h1).symm
  refine ⟨⟨next, children, rfl⟩, ⟨fun d hd => ?_, fun d hd => ?_, fun d x hx => ?_, fun d hd => ?_,
    fun d => ?_, fun d x hx => ?_, h.top, h.fresh⟩, hout⟩
  · dsimp only at hd ⊢
    by_cases hdp : d = p
    · rw [hdp, update_self]
      exact hli
    rw [update_of_ne hdp, ho d hdp]
    apply (h.linked d hd).congr
    -- The lists of two directories have no member in common.
    intro x hx
    apply hn x
    intro hxp
    have h1 := (h.held d x hx).2.1
    rw [(h.held p x hxp).2.1] at h1
    exact hdp (Option.some.inj h1).symm
  · apply eq_nil_iff_forall_not_mem.mpr
    intro x hx
    have hin := hsub d x hx
    rw [h.dead d hd] at hin
    cases hin
  · exact h.held d x (hsub d x hx)
  · apply h.dirs d
    intro hnil
    apply hd
    apply eq_nil_iff_forall_not_mem.mpr
    intro x hx
    have hin := hsub d x hx
    rw [hnil] at hin
    cases hin
  · by_cases hdp : d = p
    · rw [hdp, update_self]
      exact (h.names p).sublist ((erase_sublist ..).map _)
    rw [update_of_ne hdp]
    exact h.names d
  · exact h.proper d x (hsub d x hx)

lemma foldl_freeNode (s : Fs) (l : List ℕ) :
    l.foldl freeNode s = { s with live := fun d => if d ∈ l then false else s.live d } := by
  induction l generalizing s with
  | nil =>
    simp
  | cons a l ih =>
    rw [foldl_cons, ih]
    unfold freeNode
    congr 1
    funext d
    dsimp only
    by_cases hda : d = a
    · rw [hda, update_self, ite_self, if_pos (mem_cons_self ..)]
    rw [update_of_ne hda]
    simp [hda]

lemma Shape.free (h : Shape s kids) (hc : ∀ d, c ∉ kids d) (hro : c ≠ root)
    (hki : ∀ x ∈ kids c, kids x = []) :
    Shape (freeNode ((kids c).foldl freeNode s) c) (update kids c []) := by
  -- A directory whose list still has members is neither the node nor one of its members.
  have hk : ∀ d x, x ∈ update kids c [] d → d ≠ c ∧ d ∉ kids c ∧ x ∈ kids d := by
    intro d x hx
    by_cases hdc : d = c
    · rw [hdc, update_self] at hx
      cases hx
    rw [update_of_ne hdc] at hx
    refine ⟨hdc, fun hd => ?_, hx⟩
    rw [hki d hd] at hx
    cases hx
  have ha : ∀ d x, x ∈ update kids c [] d → x ≠ c ∧ x ∉ kids c := by
    intro d x hx
    obtain ⟨hdc, -, hin⟩ := hk d x hx
    refine ⟨fun heq => hc d (heq ▸ hin), fun hxc => ?_⟩
    have h1 := (h.held d x hin).2.1
    rw [(h.held c x hxc).2.1] at h1
    exact hdc (Option.some.inj h1).symm
  have hl : ∀ d, (freeNode ((kids c).foldl freeNode s) c).live d = true ↔
      d ≠ c ∧ d ∉ kids c ∧ s.live d = true := by
    intro d
    rw [foldl_freeNode]
    unfold freeNode
    dsimp only
    by_cases hdc : d = c
    · rw [hdc, update_self]
      simp
    rw [update_of_ne hdc]
    by_cases hd : d ∈ kids c <;> simp [hd, hdc]
  have hs : freeNode ((kids c).foldl freeNode s) c =
      { s with live := (freeNode ((kids c).foldl freeNode s) c).live } := by
    rw [foldl_freeNode]
    rfl
  have hr : root ∉ kids c := fun hin => (h.held c root hin).2.2 rfl
  rw [hs]
  refine ⟨fun d hd => ?_, fun d hd => ?_, fun d x hx => ?_, fun d hd => ?_, fun d => ?_,
    fun d x hx => h.proper d x (hk d x hx).2.2, ?_, fun d hd => ?_⟩
  · obtain ⟨hdc, -, hold⟩ := (hl d).mp hd
    rw [update_of_ne hdc]
    exact h.linked d hold
  · apply eq_nil_iff_forall_not_mem.mpr
    intro x hx
    obtain ⟨hdc, hdk, hin⟩ := hk d x hx
    have hold : s.live d = true := by
      by_contra hde
      rw [h.dead d (by simpa using hde)] at hin
      cases hin
    have hnow : (freeNode ((kids c).foldl freeNode s) c).live d = true :=
      (hl d).mpr ⟨hdc, hdk, hold⟩
    have hf : (freeNode ((kids c).foldl freeNode s) c).live d = false := hd
    rw [hnow] at hf
    cases hf
  · obtain ⟨hold, hp, hne⟩ := h.held d x (hk d x hx).2.2
    obtain ⟨hxc, hxk⟩ := ha d x hx
    exact ⟨(hl x).mpr ⟨hxc, hxk, hold⟩, hp, hne⟩
  · obtain ⟨x, hx⟩ := exists_mem_of_ne_nil _ hd
    exact h.dirs d (ne_nil_of_mem (hk d x hx).2.2)
  · by_cases hdc : d = c
    · rw [hdc, update_self]
      exact nodup_nil
    rw [update_of_ne hdc]
    exact h.names d
  · exact ⟨(hl root).mpr ⟨hro.symm, hr, h.top.1⟩, h.top.2⟩
  · exact h.fresh d ((hl d).mp hd).2.2

lemma Shape.alloc (h : Shape s kids) (kind : NodeType) (name target : CStr) (parent : Option ℕ)
    (size uid gid mode : ℕ) :
    Shape { s with
      kind := update s.kind s.fresh kind
      name := update s.name s.fresh name
      linkTarget := update s.linkTarget s.fresh target
      parent := update s.parent s.fresh parent
      children := update s.children s.fresh none
      size := update s.size s.fresh size
      uid := update s.uid s.fresh uid
      gid := update s.gid s.fresh gid
      mode := update s.mode s.fresh mode
      live := update s.live s.fresh true
      fresh := s.fresh + 1 } kids := by
  have hold : ∀ d, s.live d = true → d ≠ s.fresh := fun d hd heq => by
    have := h.fresh d hd
    omega
  have hn : kids s.fresh = [] := by
    apply h.dead
    by_contra hl
    exact hold s.fresh (by simpa using hl) rfl
  have hdir : ∀ d, kids d ≠ [] → d ≠ s.fresh := fun d hd heq => hd (heq ▸ hn)
  have hmem : ∀ d x, x ∈ kids d → x ≠ s.fresh := fun d x hx => hold x (h.held d x hx).1
  have hr := hold root h.top.1
  refine ⟨fun d hd => ?_, fun d hd => ?_, fun d x hx => ?_, fun d hd => ?_, fun d => ?_,
    fun d x hx => ?_, ?_, fun d hd => ?_⟩
  · dsimp only at hd ⊢
    by_cases hdf : d = s.fresh
    · rw [hdf, update_self, hn]
      rfl
    rw [update_of_ne hdf] at hd ⊢
    exact h.linked d hd
  · dsimp only at hd
    by_cases hdf : d = s.fresh
    · rw [hdf]
      exact hn
    rw [update_of_ne hdf] at hd
    exact h.dead d hd
  · dsimp only
    rw [update_of_ne (hmem d x hx), update_of_ne (hmem d x hx)]
    exact h.held d x hx
  · dsimp only
    rw [update_of_ne (hdir d hd)]
    exact h.dirs d hd
  · have hmap : (kids d).map (update s.name s.fresh name) = (kids d).map s.name :=
      map_congr_left fun x hx => update_of_ne (hmem d x hx) _ _
    dsimp only
    rw [hmap]
    exact h.names d
  · dsimp only
    rw [update_of_ne (hmem d x hx)]
    exact h.proper d x hx
  · dsimp only
    rw [update_of_ne hr, update_of_ne hr, update_of_ne hr]
    exact h.top
  dsimp only at hd ⊢
  by_cases hdf : d = s.fresh
  · omega
  rw [update_of_ne hdf] at hd
  have := h.fresh d hd
  omega

end Links

section Reach

variable {s s' : Fs} {kids kids' : ℕ → List ℕ} {p c : ℕ}

variable {n : ℕ}

lemma from_mono {a : ℕ} (h : From kids a n) (hsub : ∀ d x, x ∈ kids d → x ∈ kids' d) :
    From kids' a n :=
  ReflTransGen.mono (fun d x hx => hsub d x hx) _ _ h

lemma from_cut (h : From kids root n) : From (update kids p ((kids p).erase c)) root n ∨
      From (update kids p ((kids p).erase c)) c n := by
  induction h with
  | refl => exact .inl .refl
  | @tail d x hd hx ih =>
    by_cases hdp : d = p
    · by_cases hxc : x = c
      · rw [hxc]
        exact .inr .refl
      have hs : x ∈ update kids p ((kids p).erase c) d := by
        rw [hdp, update_self]
        rw [hdp] at hx
        exact (mem_erase_of_ne hxc).mpr hx
      exact ih.imp (fun hd => hd.tail hs) fun hd => hd.tail hs
    have hs : x ∈ update kids p ((kids p).erase c) d := by
      rw [update_of_ne hdp]
      exact hx
    exact ih.imp (fun hd => hd.tail hs) fun hd => hd.tail hs

lemma mem_update_cons {d x y : ℕ} (h : x ∈ kids d) : x ∈ update kids p (y :: kids p) d := by
  by_cases hdp : d = p
  · rw [hdp, update_self]
    rw [hdp] at h
    exact mem_cons_of_mem _ h
  · rwa [update_of_ne hdp]

lemma from_update_nil (hc : ∀ d, c ∉ kids d) (hr : c ≠ root) (h : From kids root n) :
    From (update kids c []) root n ∧ n ≠ c := by
  induction h with
  | refl => exact ⟨.refl, hr.symm⟩
  | @tail d x hd hx ih =>
    refine ⟨ih.1.tail ?_, fun heq => hc d (heq ▸ hx)⟩
    rw [update_of_ne ih.2]
    exact hx

lemma from_shallow (hk : ∀ x ∈ kids c, kids x = []) (h : From kids c n) : n = c ∨ n ∈ kids c := by
  induction h with
  | refl => exact .inl rfl
  | @tail d x hd hx ih =>
    rcases ih with rfl | hmem
    · exact .inr hx
    rw [hk d hmem] at hx
    cases hx

end Reach

end Elitra.Vfs
