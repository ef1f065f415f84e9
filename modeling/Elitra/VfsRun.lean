import Elitra.VfsCalls
import Elitra.VfsTree

namespace Elitra.Vfs
open Function LinkedList List Option Relation

/-- The new name fits, and where the code does not look it up it is not taken. -/
def CreateSafe (s : Fs) (path : CStr) (unique : Bool) : Prop :=
  ∀ parent, resolveParent s path = some (some parent) → (extractName path).length ≤ 63 ∧
    (unique = false → findChild s parent (extractName path) = some none)

/-- The condition under which the nodes stay a tree. -/
def TreeSafe (v : State) : Op → Prop
  | .createDir _ path _ | .createDevice _ path _ | .symlink _ _ path _ => CreateSafe v.fs path true
  | .createFile _ path _ _ => CreateSafe v.fs path false
  | .writeFile _ path _ _ =>
    (∀ node, krustVfsResolve v.fs path = some (some node) → v.fs.kind node ≠ .file) →
      CreateSafe v.fs path false
  | .openWrite _ _ path _ => krustVfsResolve v.fs path = some none → CreateSafe v.fs path false
  | .unlink _ path => extractName path ≠ dot
  | .removeNode path => ∀ node l, krustVfsResolve v.fs path = some (some node) →
      Linked v.fs.next (v.fs.children node) l → ∀ c ∈ l, v.fs.children c = none
  | .rename _ oldPath newPath => ∀ node oldParent s newParent,
      krustVfsResolve v.fs oldPath = some (some node) → v.fs.parent node = some oldParent →
      cutChild v.fs oldParent node = some s → resolveParent s newPath = some (some newParent) →
      s.kind newParent = .dir ∧ extractName newPath ≠ [] ∧ (extractName newPath).length ≤ 63 ∧
        findChild s newParent (extractName newPath) = some none
  | _ => True

variable {name : CStr} {q : ℕ}

section Changes

variable {s s' : Fs} {kids : ℕ → List ℕ} {p c : ℕ}

lemma Shape.mem_parent (h : Shape s kids) (hc : From kids root c) (hr : c ≠ root)
    (hp : s.parent c = some p) : c ∈ kids p := by
  cases hc with
  | refl => exact absurd rfl hr
  | tail _ hmem =>
    have hs := (h.held _ _ hmem).2.1
    rw [hp] at hs
    rw [some.inj hs]
    exact hmem

lemma Tree.not_mem_self (h : Tree s kids) (hc : c ∈ kids c) : False := by
  obtain ⟨hl, hp, hr⟩ := h.held c c hc
  have hne : ∀ n, From kids root n → n ≠ c := by
    intro n hn
    induction hn with
    | refl => exact hr.symm
    | @tail d x _ hx ih =>
      intro hxc
      rw [hxc] at hx
      have hs := (h.held d c hx).2.1
      rw [hp] at hs
      exact ih (some.inj hs).symm
  exact hne c (h.reach c hl) rfl

lemma from_cut_parent {n : ℕ} (h : From kids root n) :
    From (update kids p ((kids p).erase c)) root n ∨
      From (update kids p ((kids p).erase c)) root p := by
  induction h with
  | refl => exact .inl .refl
  | @tail d x hd hx ih =>
    rcases ih with ih | ih
    · by_cases hdp : d = p
      · rw [hdp] at ih
        exact .inr ih
      refine .inl (ih.tail ?_)
      rw [update_of_ne hdp]
      exact hx
    · exact .inr ih

section

variable (h : Tree s kids)
include h

lemma Tree.addNode (hp : From kids root p) (hdir : s.kind p = .dir)
    (hpr : Proper (name.take 63)) (hna : ∀ x ∈ kids p, s.name x ≠ name.take 63)
    (who : Option Cred) (kind : NodeType) (target : CStr) (size : ℕ) :
    ∃ kids', Tree (addNode s who name kind p target size) kids' := by
  have hl := h.live_of_from hp
  have hpf : p ≠ s.fresh := fun heq => by
    have := h.fresh p hl
    omega
  have hout : ∀ d, s.fresh ∉ kids d := fun d hmem => by
    have := h.fresh s.fresh (h.held d s.fresh hmem).1
    omega
  have hr : s.fresh ≠ root := fun heq => by
    have := h.fresh root h.top.1
    omega
  have hal := h.toShape.alloc kind (name.take 63) (target.take 255) (some p) size
    (who.elim 0 (·.uid)) (who.elim 0 (·.gid)) kind.mode
  refine ⟨_, hal.push hout (update_self ..) hr ?_ ?_ (update_self ..) ?_
    fun x hx => ?_, fun n hn => ?_⟩
  · exact (update_of_ne hpf _ _).trans hl
  · exact (update_of_ne hpf _ _).trans hdir
  · dsimp only
    rwa [update_self]
  · have hxf : x ≠ s.fresh := fun heq => hout p (heq ▸ hx)
    dsimp only
    rw [update_self, update_of_ne hxf]
    exact hna x hx
  have hm : ∀ a, From kids root a → From (update kids p (s.fresh :: kids p)) root a :=
    fun a ha => from_mono ha fun d x hx => mem_update_cons hx
  by_cases hnf : n = s.fresh
  · refine (hm p hp).tail ?_
    rw [hnf, update_self]
    exact mem_cons_self ..
  apply hm
  apply h.reach n
  exact (update_of_ne hnf _ _).symm.trans hn

lemma Tree.linked_cut (hc : c ∈ kids p) (hcut : cutChild s p c = some s') :
    Linked s'.next (s'.children c) (kids c) := by
  obtain ⟨⟨next, children, rfl⟩, hs, -⟩ := h.toShape.cut hc hcut
  have hcp : c ≠ p := by
    intro heq
    rw [← heq] at hc
    exact h.not_mem_self hc
  have hl := hs.linked c (h.held p c hc).1
  rwa [update_of_ne hcp] at hl

lemma Tree.remove (hc : c ∈ kids p) (hk : ∀ x ∈ kids c, kids x = [])
    (hcut : cutChild s p c = some s') :
    ∃ kids', Tree (freeNode ((kids c).foldl freeNode s') c) kids' := by
  obtain ⟨⟨next, children, rfl⟩, hsh, hout⟩ := h.toShape.cut hc hcut
  have hr := (h.held p c hc).2.2
  have hcp : c ≠ p := by
    intro heq
    rw [← heq] at hc
    exact h.not_mem_self hc
  have hsa : update kids p ((kids p).erase c) c = kids c := update_of_ne hcp _ _
  have hk' : ∀ x ∈ update kids p ((kids p).erase c) c, update kids p ((kids p).erase c) x = [] := by
    intro x hx
    rw [hsa] at hx
    have hxp : x ≠ p := fun heq => by
      rw [← heq, hk x hx] at hc
      cases hc
    rw [update_of_ne hxp]
    exact hk x hx
  have hf := hsh.free hout hr hk'
  refine ⟨_, hsa ▸ hf, fun n hn => ?_⟩
  have hn' : (freeNode ((kids c).foldl freeNode { s with next := next, children := children }) c).live n
      = true := hn
  rw [foldl_freeNode] at hn'
  unfold freeNode at hn'
  dsimp only at hn'
  have hnc : n ≠ c := fun heq => by
    rw [heq, update_self] at hn'
    cases hn'
  rw [update_of_ne hnc] at hn'
  have hnk : n ∉ kids c := fun hmem => by
    rw [if_pos hmem] at hn'
    cases hn'
  rw [if_neg hnk] at hn'
  rcases from_cut (p := p) (c := c) (h.reach n hn') with hn | hn
  · exact (from_update_nil hout hr hn).1
  have hs := from_shallow hk' hn
  rw [hsa] at hs
  exact absurd hs (not_or.mpr ⟨hnc, hnk⟩)

lemma Tree.reattach (kids' : ℕ → List ℕ)
    (hs : Shape s' (update kids' q (c :: kids' q))) (hl : s'.live = s.live)
    (hq : From kids' root q) (hr : ∀ n, From kids root n → From kids' root n ∨ From kids' c n) :
    Tree s' (update kids' q (c :: kids' q)) := by
  refine ⟨hs, fun n hn => ?_⟩
  have hm : ∀ a b, From kids' a b → From (update kids' q (c :: kids' q)) a b :=
    fun a b hab => from_mono hab fun d x hx => mem_update_cons hx
  rw [hl] at hn
  rcases hr n (h.reach n hn) with hn | hn
  · exact hm root n hn
  have hst : From (update kids' q (c :: kids' q)) root c := by
    refine (hm root q hq).tail ?_
    rw [update_self]
    exact mem_cons_self ..
  exact ReflTransGen.trans hst (hm c n hn)

lemma Tree.putBack (hc : c ∈ kids p) (hcut : cutChild s p c = some s') :
    ∃ kids', Tree (addChild s' p c) kids' := by
  obtain ⟨⟨next, children, rfl⟩, hs, hout⟩ := h.toShape.cut hc hcut
  obtain ⟨hl, hpa, hr⟩ := h.held p c hc
  have hp : From kids root p := by
    obtain ⟨q, hq, hf⟩ := h.parent_from (h.reach c hl)
    rw [hpa] at hq
    rw [some.inj hq]
    exact hf
  have hf : From (update kids p ((kids p).erase c)) root p :=
    (from_cut_parent hp).elim id id
  refine ⟨_, h.reattach (update kids p ((kids p).erase c))
    (hs.push hout hl hr (h.live_of_from hp) (h.dirs p (ne_nil_of_mem hc)) hpa
      (h.proper p c hc) fun x hx heq => ?_) rfl hf fun n hn => from_cut hn⟩
  rw [update_self] at hx
  have hne : x ≠ c := fun hxc => (h.linked p (h.live_of_from hp)).nodup.not_mem_erase (hxc ▸ hx)
  exact hne (inj_on_of_nodup_map (h.names p) (mem_of_mem_erase hx) hc heq)

lemma Tree.move (hc : c ∈ kids p) (hcut : cutChild s p c = some s')
    {newPath : CStr} (hq : resolveParent s' newPath = some (some q)) (hdir : s'.kind q = .dir)
    (hnm : name ≠ []) (hlen : name.length ≤ 63) (hfi : findChild s' q name = some none) :
    ∃ kids', Tree (moveNode s' c q name) kids' := by
  obtain ⟨⟨next, children, rfl⟩, hs, hout⟩ := h.toShape.cut hc hcut
  obtain ⟨hl, hp, hr⟩ := h.held p c hc
  have hf := hs.resolveParent_from hq
  have hql := hs.live_of_from hf
  obtain ⟨hdot, hd, hna⟩ := hs.findChild_none hql hfi
  have ht : name.take 63 = name := take_of_length_le hlen
  refine ⟨_, h.reattach (update kids p ((kids p).erase c))
    ((hs.retouch hout hr (name.take 63) (some q) none).push hout hl hr hql hdir
      (update_self ..) ?_ fun x hx => ?_) rfl hf fun n hn => from_cut hn⟩
  · dsimp only
    rw [update_self, ht]
    exact ⟨hnm, hdot, hd⟩
  have hxc : x ≠ c := fun heq => hout q (heq ▸ hx)
  dsimp only
  rw [update_self, update_of_ne hxc, ht]
  exact hna x hx

end

end Changes

variable {target : CStr} {kind : NodeType} {t : ℕ}

section Steps

variable {s s' : Fs} {v v' : State} {who : Option Cred} {path : CStr} {ok : Bool} {r : ℤ}

/-- The nodes form a tree: every member of a directory's list names the directory as its parent,
only directories have members, and names in a directory are proper and differ. -/
def IsTree (s : Fs) : Prop := ∃ kids, Tree s kids

lemma IsTree.setSize (h : IsTree s) (size : ℕ → ℕ) : IsTree { s with size := size } := by
  obtain ⟨kids, h⟩ := h
  exact ⟨kids, ⟨h.linked, h.dead, h.held, h.dirs, h.names, h.proper, h.top, h.fresh⟩, h.reach⟩

variable {size : ℕ}

lemma IsTree.createNode {want : Option ℕ} {unique : Bool}
    {n : Option ℕ} (h : IsTree s) (hsa : CreateSafe s path unique)
    (hs : createNode s who path kind want unique target size ok = some (s', n)) : IsTree s' := by
  rcases createNode_cases hs with ⟨rfl, -⟩ | ⟨parent, hp, hdir, -, hna, hl, rfl, -⟩
  · exact h
  obtain ⟨kids, ht⟩ := h
  have hf := ht.resolveParent_from hp
  obtain ⟨hlen, hfr⟩ := hsa parent hp
  have hfi : findChild s parent (extractName path) = some none := by
    cases unique with
    | true => exact hl rfl
    | false => exact hfr rfl
  obtain ⟨hdot, hd, hn⟩ := ht.findChild_none (ht.live_of_from hf) hfi
  have hta : (extractName path).take 63 = extractName path := take_of_length_le hlen
  apply ht.addNode hf hdir
  · rw [hta]
    exact ⟨hna, hdot, hd⟩
  rw [hta]
  exact hn

lemma IsTree.status {want : Option ℕ} {unique : Bool}
    (h : IsTree s) (hsa : CreateSafe s path unique)
    (hs : status (Vfs.createNode s who path kind want unique target size ok) = some (s', r)) :
    IsTree s' := by
  obtain ⟨⟨s1, n⟩, hs1, heq⟩ := map_eq_some_iff.mp hs
  cases heq
  exact h.createNode hsa hs1

lemma IsTree.removeNode (h : IsTree s) (hsa : ∀ node l, krustVfsResolve s path = some (some node) →
      Linked s.next (s.children node) l → ∀ c ∈ l, s.children c = none)
    (hs : krustVfsRemoveNode s path = some (s', r)) : IsTree s' := by
  rcases removeNode_cases hs with
    rfl | ⟨node, parent, s1, members, hn, hr, hp, hcut, hm, rfl⟩
  · exact h
  obtain ⟨kids, ht⟩ := h
  have hf := ht.resolve_from hn
  have hmem := ht.mem_parent hf hr hp
  have hk : ∀ x ∈ kids node, kids x = [] := by
    intro x hx
    have hl := ht.linked node (ht.live_of_from hf)
    have hno := hsa node _ hn hl x hx
    have hx := ht.linked x (ht.held node x hx).1
    rw [hno] at hx
    exact linked_none hx
  rw [hm.unique (ht.linked_cut hmem hcut)]
  exact ht.remove hmem hk hcut

lemma IsTree.rmdir (h : IsTree s) (hs : krustVfsRmdir s who path = some (s', r)) : IsTree s' := by
  rcases rmdir_cases hs with rfl | ⟨node, hn, he, -, hs⟩
  · exact h
  refine h.removeNode (fun node' l hn' hl => ?_) hs
  rw [hn] at hn'
  obtain rfl : node = node' := some.inj (some.inj hn')
  rw [he] at hl
  rw [linked_none hl]
  exact fun c hc => by cases hc

lemma Tree.found_leaf {kids : ℕ → List ℕ} {parent node : ℕ} (h : Tree s kids)
    (hp : From kids root parent) (hn : name ≠ dot)
    (hf : findChild s parent name = some (some node)) (hk : s.kind node ≠ .dir) :
    node ∈ kids parent ∧ kids node = [] := by
  have hl : kids node = [] := by
    by_contra hne
    exact hk (h.dirs node hne)
  refine ⟨?_, hl⟩
  rcases h.findChild_some hp hf with ⟨hdot, -⟩ | ⟨-, hpa, -⟩ | hmem
  · exact absurd hdot hn
  · by_cases hr : parent = root
    · rw [hr, h.top.2.2] at hpa
      rw [← some.inj hpa] at hk
      exact absurd h.top.2.1 hk
    have hin := h.mem_parent hp hr hpa
    rw [hl] at hin
    cases hin
  · exact hmem

lemma IsTree.unlink (h : IsTree s) (hsa : extractName path ≠ dot)
    (hs : krustVfsUnlink s who path = some (s', r)) : IsTree s' := by
  rcases unlink_cases hs with
    rfl | ⟨parent, node, s1, hp, -, hfi, hn, hcut, rfl⟩
  · exact h
  obtain ⟨kids, ht⟩ := h
  obtain ⟨hmem, hl⟩ :=
    ht.found_leaf (ht.resolveParent_from hp) hsa hfi hn
  have hk : ∀ x ∈ kids node, kids x = [] := by
    rw [hl]
    exact fun x hx => by cases hx
  have hf := ht.remove hmem hk hcut
  rw [hl] at hf
  exact hf

lemma IsTree.rename {oldPath newPath : CStr} (h : IsTree s)
    (hsa : ∀ node oldParent s1 newParent, krustVfsResolve s oldPath = some (some node) →
      s.parent node = some oldParent → cutChild s oldParent node = some s1 →
      resolveParent s1 newPath = some (some newParent) →
      s1.kind newParent = .dir ∧ extractName newPath ≠ [] ∧ (extractName newPath).length ≤ 63 ∧
        findChild s1 newParent (extractName newPath) = some none)
    (hs : krustVfsRename s who oldPath newPath = some (s', r)) : IsTree s' := by
  rcases rename_cases hs with
    rfl | ⟨node, oldParent, s1, hn, hr, hp, -, hcut, hend⟩
  · exact h
  obtain ⟨kids, ht⟩ := h
  have hmem := ht.mem_parent (ht.resolve_from hn) hr hp
  rcases hend with rfl | ⟨newParent, hf, -, rfl⟩
  · exact ht.putBack hmem hcut
  obtain ⟨hdir, hna, hlen, hfi⟩ :=
    hsa node oldParent s1 newParent hn hp hcut hf
  exact ht.move hmem hcut hf hdir hna hlen hfi

lemma IsTree.writeFile (h : IsTree s)
    (hsa : (∀ node, krustVfsResolve s path = some (some node) → s.kind node ≠ .file) →
      CreateSafe s path false)
    (hs : krustVfsWriteFile s who path size ok = some (s', r)) : IsTree s' := by
  rcases writeFile_cases hs with rfl | ⟨node, size', -, rfl⟩ | ⟨hn, hs⟩
  · exact h
  · exact h.setSize _
  · exact h.status (hsa hn) hs

lemma openNode_fs (v : State) (t node : ℕ) : (openNode v t node).1.fs = v.fs := by
  unfold openNode
  split <;> rfl

lemma IsTree.openWrite (h : IsTree v.fs)
    (hsa : krustVfsResolve v.fs path = some none → CreateSafe v.fs path false)
    (hs : krustVfsOpenWrite v t who path ok = some (v', r)) : IsTree v'.fs := by
  rcases openWrite_cases hs with rfl | ⟨node, -, -, rfl⟩ | ⟨fs, n, hn, hc, hend⟩
  · exact h
  · rw [openNode_fs]
    exact h.setSize _
  have ht := h.createNode (hsa hn) hc
  rcases hend with ⟨-, rfl⟩ | ⟨node, -, rfl⟩
  · exact ht
  rw [openNode_fs]
  exact ht

lemma open_fs (hs : krustVfsOpen v t who path = some (v', r)) : v'.fs = v.fs := by
  rcases open_cases hs with rfl | ⟨node, -, rfl⟩
  · rfl
  · exact openNode_fs v t node

lemma read_fs (v : State) (t : ℕ) (who : Option Cred) (fd : ℤ) (size : ℕ) (n : ℤ) :
    (krustVfsRead v t who fd size n).1.fs = v.fs := by
  unfold krustVfsRead
  split
  · rfl
  dsimp only
  split
  · rfl
  · split_ifs <;> rfl

lemma lseek_fs (v : State) (t : ℕ) (fd offset whence : ℤ) :
    (krustVfsLseek v t fd offset whence).1.fs = v.fs := by
  unfold krustVfsLseek
  split
  · rfl
  dsimp only
  split
  · rfl
  · split_ifs <;> rfl

lemma dup_fs (v : State) (t : ℕ) (oldfd : ℤ) : (krustVfsDup v t oldfd).1.fs = v.fs := by
  unfold krustVfsDup
  split
  · rfl
  · split <;> rfl

lemma dup2_fs (v : State) (t : ℕ) (oldfd newfd : ℤ) :
    (krustVfsDup2 v t oldfd newfd).1.fs = v.fs := by
  unfold krustVfsDup2
  split
  · rfl
  · split_ifs <;> rfl

lemma close_fs (v : State) (t : ℕ) (fd : ℤ) : (krustVfsClose v t fd).1.fs = v.fs := by
  unfold krustVfsClose
  split
  · rfl
  dsimp only
  split_ifs <;> rfl

lemma write_fs (v : State) (t : ℕ) (who : Option Cred) (fd : ℤ) (size : ℕ) (n : ℤ) (ok : Bool) :
    ∃ sizes, (krustVfsWriteFd v t who fd size n ok).1.fs = { v.fs with size := sizes } := by
  unfold krustVfsWriteFd
  split
  · exact ⟨_, rfl⟩
  dsimp only
  split
  · exact ⟨_, rfl⟩
  · split_ifs <;> exact ⟨_, rfl⟩

lemma IsTree.step {op : Op} (h : IsTree v.fs) (hsa : TreeSafe v op) (hs : op.exec v = some v') :
    IsTree v'.fs := by
  cases op with
  | createDir who path ok =>
    obtain ⟨⟨s', r⟩, hc, rfl⟩ := map_eq_some_iff.mp hs
    exact h.status hsa hc
  | createFile who path size ok =>
    obtain ⟨⟨s', r⟩, hc, rfl⟩ := map_eq_some_iff.mp hs
    exact h.status hsa hc
  | createDevice who path ok =>
    obtain ⟨⟨s', r⟩, hc, rfl⟩ := map_eq_some_iff.mp hs
    exact h.status hsa hc
  | writeFile who path size ok =>
    obtain ⟨⟨s', r⟩, hc, rfl⟩ := map_eq_some_iff.mp hs
    exact h.writeFile hsa hc
  | symlink who target path ok =>
    obtain ⟨⟨s', r⟩, hc, rfl⟩ := map_eq_some_iff.mp hs
    unfold krustVfsSymlink at hc
    split at hc
    · cases hc
      exact h
    · exact h.status hsa hc
  | unlink who path =>
    obtain ⟨⟨s', r⟩, hc, rfl⟩ := map_eq_some_iff.mp hs
    exact h.unlink hsa hc
  | rmdir who path =>
    obtain ⟨⟨s', r⟩, hc, rfl⟩ := map_eq_some_iff.mp hs
    exact h.rmdir hc
  | rename who oldPath newPath =>
    obtain ⟨⟨s', r⟩, hc, rfl⟩ := map_eq_some_iff.mp hs
    exact h.rename hsa hc
  | removeNode path =>
    obtain ⟨⟨s', r⟩, hc, rfl⟩ := map_eq_some_iff.mp hs
    exact h.removeNode hsa hc
  | openRead t who path =>
    obtain ⟨⟨v', r⟩, hc, rfl⟩ := map_eq_some_iff.mp hs
    rw [open_fs hc]
    exact h
  | openWrite t who path ok =>
    obtain ⟨⟨v', r⟩, hc, rfl⟩ := map_eq_some_iff.mp hs
    exact h.openWrite hsa hc
  | read t who fd size n =>
    cases hs
    rw [read_fs]
    exact h
  | write t who fd size n ok =>
    cases hs
    obtain ⟨sizes, hfs⟩ := write_fs v t who fd size n ok
    rw [hfs]
    exact h.setSize sizes
  | lseek t fd offset whence =>
    cases hs
    rw [lseek_fs]
    exact h
  | dup t oldfd =>
    cases hs
    rw [dup_fs]
    exact h
  | dup2 t oldfd newfd =>
    cases hs
    rw [dup2_fs]
    exact h
  | close t fd =>
    cases hs
    rw [close_fs]
    exact h
  | fork t child ok => cases hs; exact h
  | create t ok => cases hs; exact h
  | reap t => cases hs; exact h

lemma init_tree : IsTree krustVfsInit.fs := by
  have ho : ∀ d, krustVfsInit.fs.live d = true → d = root := by
    intro d hd
    by_contra hne
    have hf : krustVfsInit.fs.live d = false := by
      simp [krustVfsInit, hne]
    rw [hf] at hd
    cases hd
  refine ⟨fun _ => [], ⟨fun _ _ => rfl, fun _ _ => rfl, fun _ _ hc => ?_, fun _ hd => ?_,
    fun _ => nodup_nil, fun _ _ hc => ?_, ⟨rfl, rfl, rfl⟩, fun d hd => ?_⟩, fun n hn => ?_⟩
  · cases hc
  · exact absurd rfl hd
  · cases hc
  · rw [ho d hd]
    exact Nat.one_pos
  rw [ho n hn]
  exact .refl

end Steps

/-- In every run in which new names fit and are free, no file is unlinked as its own `.`, removed
nodes have no grandchildren, and renames go to a free proper name in a directory, the nodes form a
tree. -/
theorem safe_run_tree {v : State} (h : Reached TreeSafe v) : IsTree v.fs :=
  h.invariant (P := fun v => IsTree v.fs) init_tree fun hp hsa hs => hp.step hsa hs

theorem safe_run_tree_file : ∃ v, Reached TreeSafe v ∧ v.fs.parent 2 = some 1 ∧ IsTree v.fs := by
  have h1 : Reached TreeSafe _ := .step (.createDir none [47, 100] true) .start
    (fun parent _ => ⟨by decide, fun hu => by cases hu⟩) rfl
  have h2 := h1.step (.createFile none [47, 100, 47, 102] 0 true)
    (fun parent hp => by
      obtain rfl : 1 = parent := some.inj (some.inj hp)
      exact ⟨by decide, fun _ => rfl⟩) rfl
  exact ⟨_, h2, rfl, safe_run_tree h2⟩

/-- Creating the same file twice puts two nodes of one name in the root. -/
theorem create_file_duplicates : ∃ v, Reached (fun _ _ => True) v ∧ ¬ IsTree v.fs := by
  have h1 : Reached (fun _ _ => True) _ :=
    .step (.createFile none [47, 102] 0 true) .start trivial rfl
  have h2 := h1.step (.createFile none [47, 102] 0 true) trivial rfl
  refine ⟨_, h2, fun ⟨kids, ht⟩ => ?_⟩
  obtain ⟨l, hl, hli⟩ := linked_some (a := 2) (ht.linked 0 rfl)
  obtain ⟨l', hl', -⟩ := linked_some (a := 1) hli
  have hn := ht.names 0
  rw [hl, hl'] at hn
  exact (nodup_cons.mp hn).1 (mem_cons_self ..)

end Elitra.Vfs
