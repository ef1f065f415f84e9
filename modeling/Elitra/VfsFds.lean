import Elitra.VfsRun

namespace Elitra.Vfs
open Function LinkedList Option

/-- Every descriptor in use refers to a node that was not freed. -/
def FdsLive (v : State) : Prop :=
  ∀ t fd, (v.entry t fd).used = true →
    ∃ node, (v.entry t fd).node = some node ∧ v.fs.live node = true

/-- Some task has the node open. -/
def InUse (v : State) (node : ℕ) : Prop :=
  ∃ t fd, (v.entry t fd).used = true ∧ (v.entry t fd).node = some node

/-- The condition under which descriptors stay live: the nodes stay a tree, and no node that is
removed is open. -/
def FdSafe (v : State) (op : Op) : Prop :=
  TreeSafe v op ∧
    match op with
    | .unlink _ path => ∀ parent node, resolveParent v.fs path = some (some parent) →
        findChild v.fs parent (extractName path) = some (some node) → ¬ InUse v node
    | .rmdir _ path | .removeNode path => ∀ node l, krustVfsResolve v.fs path = some (some node) →
        Linked v.fs.next (v.fs.children node) l → ¬ InUse v node ∧ ∀ c ∈ l, ¬ InUse v c
    | _ => True

variable {target : CStr} {kind : NodeType}

section Nodes

variable {s s' : Fs} {who : Option Cred} {path : CStr} {ok : Bool} {r : ℤ}

variable {size : ℕ}

lemma createNode_live {want : Option ℕ} {unique : Bool} {n : Option ℕ}
    (hs : createNode s who path kind want unique target size ok = some (s', n)) :
    (∀ x, s.live x = true → s'.live x = true) ∧ ∀ x, n = some x → s'.live x = true := by
  rcases createNode_cases hs with ⟨rfl, rfl⟩ | ⟨parent, -, -, -, -, -, rfl, rfl⟩
  · exact ⟨fun _ h => h, fun _ h => by cases h⟩
  unfold addNode addChild
  dsimp only
  refine ⟨fun x hx => ?_, fun x hx => ?_⟩
  · by_cases hxf : x = s.fresh
    · rw [hxf, update_self]
    · rwa [update_of_ne hxf]
  · rw [← some.inj hx, update_self]

variable {x : ℕ}

lemma status_live {want : Option ℕ} {unique : Bool}
    (hs : status (createNode s who path kind want unique target size ok) = some (s', r))
    (hx : s.live x = true) : s'.live x = true := by
  obtain ⟨⟨s1, n⟩, hs1, heq⟩ := map_eq_some_iff.mp hs
  cases heq
  exact (createNode_live hs1).1 x hx

lemma writeFile_live (hs : krustVfsWriteFile s who path size ok = some (s', r))
    (hx : s.live x = true) : s'.live x = true := by
  rcases writeFile_cases hs with rfl | ⟨node, size', -, rfl⟩ | ⟨-, hs⟩
  · exact hx
  · exact hx
  · exact status_live hs hx

lemma cutLoop_live {p c fuel : ℕ} {prev curr : Option ℕ}
    (h : cutLoop s p c fuel prev curr = some s') : s'.live = s.live := by
  induction fuel generalizing prev curr with
  | zero =>
    cases curr with
    | none => cases h; rfl
    | some a => cases h
  | succ fuel ih =>
    cases curr with
    | none => cases h; rfl
    | some a =>
      unfold cutLoop at h
      split at h
      · cases h
        cases prev <;> rfl
      · exact ih h

lemma rename_live {oldPath newPath : CStr}
    (hs : krustVfsRename s who oldPath newPath = some (s', r)) : s'.live = s.live := by
  rcases rename_cases hs with rfl | ⟨node, oldParent, s1, -, -, -, -, hcut, hend⟩
  · rfl
  have hl := cutLoop_live hcut
  rcases hend with rfl | ⟨newParent, -, -, rfl⟩
  · exact hl
  · exact hl

lemma unlink_live (hs : krustVfsUnlink s who path = some (s', r)) (hx : s.live x = true)
    (hk : ∀ parent, resolveParent s path = some (some parent) →
      findChild s parent (extractName path) ≠ some (some x)) : s'.live x = true := by
  rcases unlink_cases hs with rfl | ⟨parent, node, s1, hp, -, hf, -, hcut, rfl⟩
  · exact hx
  have hne : x ≠ node := fun heq => hk parent hp (heq ▸ hf)
  unfold freeNode
  dsimp only
  rw [update_of_ne hne, cutLoop_live hcut]
  exact hx

lemma removeNode_live (ht : IsTree s) (hs : krustVfsRemoveNode s path = some (s', r))
    (hx : s.live x = true)
    (hk : ∀ node l, krustVfsResolve s path = some (some node) →
      Linked s.next (s.children node) l → x ≠ node ∧ x ∉ l) : s'.live x = true := by
  rcases removeNode_cases hs with
    rfl | ⟨node, parent, s1, members, hn, hr, hp, hcut, hm, rfl⟩
  · exact hx
  obtain ⟨kids, ht⟩ := ht
  have hf := ht.resolve_from hn
  have hmem := ht.mem_parent hf hr hp
  obtain ⟨hne, hnot⟩ := hk node _ hn (ht.linked node (ht.live_of_from hf))
  rw [hm.unique (ht.linked_cut hmem hcut), foldl_freeNode]
  unfold freeNode
  dsimp only
  rw [update_of_ne hne, if_neg hnot, cutLoop_live hcut]
  exact hx

lemma rmdir_live (ht : IsTree s) (hs : krustVfsRmdir s who path = some (s', r))
    (hx : s.live x = true)
    (hk : ∀ node l, krustVfsResolve s path = some (some node) →
      Linked s.next (s.children node) l → x ≠ node ∧ x ∉ l) : s'.live x = true := by
  rcases rmdir_cases hs with rfl | ⟨node, -, -, -, hs⟩
  · exact hx
  · exact removeNode_live ht hs hx hk

end Nodes

section Entries

variable {v v' : State} {t fd i : ℕ} {e : Entry} {who : Option Cred} {path : CStr} {ok : Bool} {r : ℤ}

lemma entry_set (v : State) (t fd : ℕ) (e : Entry) (t' fd' : ℕ) :
    (v.set t fd e).entry t' fd' = e ∨ (v.set t fd e).entry t' fd' = v.entry t' fd' := by
  unfold State.set State.entry
  dsimp only
  by_cases ht : t' = t
  · rw [ht, update_self]
    cases v.tables t with
    | none => exact .inr rfl
    | some f =>
      by_cases hfd : fd' = fd
      · rw [hfd]
        exact .inl (update_self ..)
      · exact .inr (update_of_ne hfd _ _)
  rw [update_of_ne ht]
  exact .inr rfl

lemma FdsLive.set (h : FdsLive v)
    (he : e.used = true → ∃ node, e.node = some node ∧ v.fs.live node = true) :
    FdsLive (v.set t fd e) := by
  intro t' fd' hu
  rcases entry_set v t fd e t' fd' with heq | heq
  · rw [heq] at hu ⊢
    exact he hu
  rw [heq] at hu ⊢
  exact h t' fd' hu

variable {x : ℤ}

lemma usedFd_used (h : usedFd v t x = some i) : (v.entry t i).used = true := by
  unfold usedFd at h
  split at h
  · cases h
  rename_i hnot
  cases h
  rw [not_or, not_or] at hnot
  simpa using hnot.2.2

section Live

variable (h : FdsLive v)
include h

lemma FdsLive.frame (ht : v'.tables = v.tables)
    (hl : ∀ x, InUse v x → v.fs.live x = true → v'.fs.live x = true) : FdsLive v' := by
  have he : ∀ t fd, v'.entry t fd = v.entry t fd := fun t fd => by
    unfold State.entry
    rw [ht]
  intro t fd hu
  rw [he] at hu ⊢
  obtain ⟨node, hn, hold⟩ := h t fd hu
  exact ⟨node, hn, hl node ⟨t, fd, hu, hn⟩ hold⟩

lemma FdsLive.openNode {node : ℕ} (hn : v.fs.live node = true) :
    FdsLive (openNode v t node).1 := by
  unfold Vfs.openNode
  split
  · exact h
  · exact h.set fun _ => ⟨node, rfl, hn⟩

lemma FdsLive.openRead (ht : IsTree v.fs)
    (hs : krustVfsOpen v t who path = some (v', r)) : FdsLive v' := by
  rcases open_cases hs with rfl | ⟨node, hn, rfl⟩
  · exact h
  obtain ⟨kids, ht⟩ := ht
  exact h.openNode (ht.live_of_from (ht.resolve_from hn))

lemma FdsLive.openWrite (ht : IsTree v.fs)
    (hs : krustVfsOpenWrite v t who path ok = some (v', r)) : FdsLive v' := by
  rcases openWrite_cases hs with rfl | ⟨node, hno, -, rfl⟩ | ⟨fs, n, -, hc, hend⟩
  · exact h
  · obtain ⟨kids, ht⟩ := ht
    have hf : FdsLive { v with
        fs := { v.fs with size := update v.fs.size node 0 } } :=
      h.frame rfl fun x _ hx => hx
    exact hf.openNode (ht.live_of_from (ht.resolve_from hno))
  obtain ⟨hold, hnew⟩ := createNode_live hc
  have hf : FdsLive { v with fs := fs } := h.frame rfl fun x _ hx => hold x hx
  rcases hend with ⟨-, rfl⟩ | ⟨node, hn, rfl⟩
  · exact hf
  · exact hf.openNode (hnew node hn)

lemma FdsLive.touch (hi : usedFd v t x = some i)
    (hn : e.node = (v.entry t i).node) : FdsLive (v.set t fd e) :=
  h.set fun _ => by
    rw [hn]
    exact h t i (usedFd_used hi)

lemma FdsLive.read {x n : ℤ} {size : ℕ} :
    FdsLive (krustVfsRead v t who x size n).1 := by
  unfold krustVfsRead
  split
  · exact h
  rename_i i hi
  dsimp only
  split
  · exact h
  split
  · exact h
  split
  · exact h.touch hi (by rfl)
  split
  · exact h
  · exact h.touch hi (by rfl)

lemma FdsLive.write {x n : ℤ} {size : ℕ} :
    FdsLive (krustVfsWriteFd v t who x size n ok).1 := by
  unfold krustVfsWriteFd
  split
  · exact h
  rename_i i hi
  dsimp only
  split
  · exact h
  rename_i node hn
  split
  · exact h
  split
  · exact h.touch hi (by rfl)
  split
  · exact h
  split
  · split
    · have hf : FdsLive { v with fs := { v.fs with
          size := update v.fs.size node
            (((v.entry t i).offset + size) % 2 ^ 32) } } :=
        h.frame rfl fun x _ hx => hx
      exact hf.touch (x := x) hi (by rfl)
    · exact h
  · exact h.touch hi (by rfl)

lemma FdsLive.lseek {x offset whence : ℤ} :
    FdsLive (krustVfsLseek v t x offset whence).1 := by
  unfold krustVfsLseek
  split
  · exact h
  rename_i i hi
  dsimp only
  split
  · exact h
  split_ifs
  · exact h
  · exact h.touch hi rfl

lemma FdsLive.double (hi : usedFd v t x = some i) :
    FdsLive ((v.set t fd { v.entry t i with used := true, refcount := 1 }).set t i
      (v.entry t i).retain) := by
  have hold := h t i (usedFd_used hi)
  have hf : FdsLive (v.set t fd { v.entry t i with used := true, refcount := 1 }) :=
    h.touch hi rfl
  exact hf.set fun _ => hold

lemma FdsLive.dup : FdsLive (krustVfsDup v t x).1 := by
  unfold krustVfsDup
  split
  · exact h
  rename_i i hi
  split
  · exact h
  · exact h.double hi

lemma FdsLive.dup2 {x y : ℤ} : FdsLive (krustVfsDup2 v t x y).1 := by
  unfold krustVfsDup2
  split
  · exact h
  rename_i i hi
  split_ifs
  · exact h
  · exact h
  · exact h.double hi

lemma FdsLive.close : FdsLive (krustVfsClose v t x).1 := by
  unfold krustVfsClose
  split
  · exact h
  rename_i i hi
  dsimp only
  split_ifs
  · exact h.touch hi rfl
  · exact h.set fun hu => by cases hu

lemma FdsLive.table (f : Option (ℕ → Entry)) (hf : ∀ g fd, f = some g → (g fd).used = true →
      ∃ node, (g fd).node = some node ∧ v.fs.live node = true) :
    FdsLive { v with tables := update v.tables t f } := by
  intro t' fd hu
  unfold State.entry at hu ⊢
  dsimp only at hu ⊢
  by_cases ht : t' = t
  · rw [ht, update_self] at hu ⊢
    cases f with
    | none => cases hu
    | some g => exact hf g fd rfl hu
  rw [update_of_ne ht] at hu ⊢
  exact h t' fd hu

lemma FdsLive.fork {child : ℕ} : FdsLive (forkTable v t child ok) := by
  unfold forkTable
  refine h.table _ fun g fd hg hu => ?_
  split at hg
  · obtain ⟨f, hf, rfl⟩ := map_eq_some_iff.mp hg
    have he : v.entry t fd = f fd := by
      unfold State.entry
      rw [hf]
      rfl
    have hold := h t fd
    rw [he] at hold
    unfold copyFdTable at hu ⊢
    split at hu
    · rename_i hc
      rw [if_pos hc]
      exact hold hc.1
    rename_i hp
    rw [if_neg hp]
    exact hold hu
  · cases hg

lemma FdsLive.create : FdsLive (newTable v t ok) := by
  unfold newTable
  refine h.table _ fun g fd hg hu => ?_
  split at hg
  · cases hg
    cases hu
  · cases hg

lemma FdsLive.reap : FdsLive (freeTable v t) := by
  unfold freeTable
  refine h.table _ fun g fd hg hu => ?_
  cases hg

lemma FdsLive.step {op : Op} (ht : IsTree v.fs) (hsa : FdSafe v op)
    (hs : op.exec v = some v') : FdsLive v' := by
  cases op with
  | createDir who path ok =>
    obtain ⟨⟨s', r⟩, hc, rfl⟩ := map_eq_some_iff.mp hs
    exact h.frame rfl fun x _ hx => status_live hc hx
  | createFile who path size ok =>
    obtain ⟨⟨s', r⟩, hc, rfl⟩ := map_eq_some_iff.mp hs
    exact h.frame rfl fun x _ hx => status_live hc hx
  | createDevice who path ok =>
    obtain ⟨⟨s', r⟩, hc, rfl⟩ := map_eq_some_iff.mp hs
    exact h.frame rfl fun x _ hx => status_live hc hx
  | writeFile who path size ok =>
    obtain ⟨⟨s', r⟩, hc, rfl⟩ := map_eq_some_iff.mp hs
    exact h.frame rfl fun x _ hx => writeFile_live hc hx
  | symlink who target path ok =>
    obtain ⟨⟨s', r⟩, hc, rfl⟩ := map_eq_some_iff.mp hs
    unfold krustVfsSymlink at hc
    split at hc
    · cases hc
      exact h
    · exact h.frame rfl fun x _ hx => status_live hc hx
  | unlink who path =>
    obtain ⟨⟨s', r⟩, hc, rfl⟩ := map_eq_some_iff.mp hs
    refine h.frame rfl fun x huse hx => unlink_live hc hx fun parent hp hf => ?_
    exact hsa.2 parent x hp hf huse
  | rmdir who path =>
    obtain ⟨⟨s', r⟩, hc, rfl⟩ := map_eq_some_iff.mp hs
    refine h.frame rfl fun x huse hx => rmdir_live ht hc hx fun node l hn hl => ?_
    obtain ⟨hse, hk⟩ := hsa.2 node l hn hl
    exact ⟨fun heq => hse (heq ▸ huse), fun hmem => hk x hmem huse⟩
  | rename who oldPath newPath =>
    obtain ⟨⟨s', r⟩, hc, rfl⟩ := map_eq_some_iff.mp hs
    refine h.frame rfl fun x _ hx => ?_
    rw [rename_live hc]
    exact hx
  | removeNode path =>
    obtain ⟨⟨s', r⟩, hc, rfl⟩ := map_eq_some_iff.mp hs
    refine h.frame rfl fun x huse hx => removeNode_live ht hc hx fun node l hn hl => ?_
    obtain ⟨hse, hk⟩ := hsa.2 node l hn hl
    exact ⟨fun heq => hse (heq ▸ huse), fun hmem => hk x hmem huse⟩
  | openRead t who path =>
    obtain ⟨⟨v', r⟩, hc, rfl⟩ := map_eq_some_iff.mp hs
    exact h.openRead ht hc
  | openWrite t who path ok =>
    obtain ⟨⟨v', r⟩, hc, rfl⟩ := map_eq_some_iff.mp hs
    exact h.openWrite ht hc
  | read t who x size n => cases hs; exact h.read
  | write t who x size n ok => cases hs; exact h.write
  | lseek t x offset whence => cases hs; exact h.lseek
  | dup t x => cases hs; exact h.dup
  | dup2 t x y => cases hs; exact h.dup2
  | close t x => cases hs; exact h.close
  | fork t child ok => cases hs; exact h.fork
  | create t ok => cases hs; exact h.create
  | reap t => cases hs; exact h.reap

end Live

end Entries

/-- In every run in which the nodes stay a tree and no node that is removed is open, every
descriptor in use refers to a node that was not freed. -/
theorem safe_run_fds {v : State} (h : Reached FdSafe v) : FdsLive v := by
  have hb : IsTree v.fs ∧ FdsLive v := by
    refine h.invariant (P := fun v => IsTree v.fs ∧ FdsLive v) ⟨init_tree, fun t fd hu => ?_⟩
      fun hp hsa hs => ⟨hp.1.step hsa.1 hs, hp.2.step hp.1 hsa hs⟩
    cases hu
  exact hb.2

theorem safe_run_fds_fork : ∃ v, Reached FdSafe v ∧ (v.entry 2 0).node = some 1 ∧ FdsLive v := by
  have h1 : Reached FdSafe _ := .step (.create 1 true) .start ⟨trivial, trivial⟩ rfl
  have h2 := h1.step (.createFile none [47, 102] 0 true)
    ⟨fun parent hp => by
      obtain rfl : 0 = parent := some.inj (some.inj hp)
      exact ⟨by decide, fun _ => rfl⟩, trivial⟩ rfl
  have h3 := h2.step (.openRead 1 none [47, 102]) ⟨trivial, trivial⟩ rfl
  have h4 := h3.step (.fork 1 2 true) ⟨trivial, trivial⟩ rfl
  exact ⟨_, h4, rfl, safe_run_fds h4⟩

/-- A file is unlinked while a task has it open. -/
theorem unlink_leaves_open_fd : ∃ v, Reached (fun _ _ => True) v ∧ ¬ FdsLive v := by
  have h1 : Reached (fun _ _ => True) _ := .step (.create 1 true) .start trivial rfl
  have h2 := h1.step (.createFile none [47, 102] 0 true) trivial rfl
  have h3 := h2.step (.openRead 1 none [47, 102]) trivial rfl
  have h4 := h3.step (.unlink none [47, 102]) trivial rfl
  refine ⟨_, h4, fun hl => ?_⟩
  obtain ⟨node, hn, hf⟩ := hl 1 0 rfl
  obtain rfl : 1 = node := some.inj hn
  cases hf

end Elitra.Vfs
