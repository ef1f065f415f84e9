import Elitra.Vfs

namespace Elitra.Vfs
open LinkedList Option

section Tree

variable {s s' : Fs} {who : Option Cred} {path : CStr} {ok : Bool} {r : ℤ}

/-- A node is made in a directory, under a name that was looked up where `unique` says so. -/
lemma createNode_cases {kind : NodeType} {want : Option ℕ} {unique : Bool} {target : CStr}
    {size : ℕ} {n : Option ℕ}
    (hs : createNode s who path kind want unique target size ok = some (s', n)) :
    (s' = s ∧ n = none) ∨
      ∃ parent, resolveParent s path = some (some parent) ∧ s.kind parent = .dir ∧
        (∀ w, want = some w → checkPermission s who parent w = true) ∧ extractName path ≠ [] ∧
        (unique = true → findChild s parent (extractName path) = some none) ∧
        s' = addNode s who (extractName path) kind parent target size ∧ n = some s.fresh := by
  unfold createNode at hs
  split at hs
  · cases hs
    exact .inl ⟨rfl, rfl⟩
  split at hs
  · cases hs
  · cases hs
    exact .inl ⟨rfl, rfl⟩
  rename_i parent hp
  split at hs
  · cases hs
    exact .inl ⟨rfl, rfl⟩
  rename_i hdir
  split at hs
  · cases hs
    exact .inl ⟨rfl, rfl⟩
  rename_i hc
  dsimp only at hs
  split at hs
  · cases hs
    exact .inl ⟨rfl, rfl⟩
  rename_i hn
  split at hs
  · cases hs
  · cases hs
    exact .inl ⟨rfl, rfl⟩
  rename_i hl
  split at hs
  · cases hs
    refine .inr ⟨parent, hp, not_not.mp hdir, fun w hw => ?_, hn,
      fun hu => ?_, rfl, rfl⟩
    · rw [hw] at hc
      simpa using hc
    · rwa [if_pos hu] at hl
  cases hs
  exact .inl ⟨rfl, rfl⟩

lemma writeFile_cases {size : ℕ} (hs : krustVfsWriteFile s who path size ok = some (s', r)) :
    s' = s ∨
      (∃ node size', checkPermission s who node 2 = true ∧
        s' = { s with size := Function.update s.size node size' }) ∨
      ((∀ node, krustVfsResolve s path = some (some node) → s.kind node ≠ .file) ∧
        krustVfsCreateFile s who path size ok = some (s', r)) := by
  unfold krustVfsWriteFile at hs
  split at hs
  · cases hs
    exact .inl rfl
  split at hs
  · cases hs
  · rename_i hno
    refine .inr (.inr ⟨fun node hn => ?_, hs⟩)
    rw [hno] at hn
    cases hn
  rename_i node hn
  split at hs
  · split at hs
    · cases hs
      exact .inl rfl
    rename_i hc
    have hw : checkPermission s who node 2 = true := by simpa using hc
    split at hs
    · cases hs
      exact .inr (.inl ⟨node, size, hw, rfl⟩)
    cases hs
    exact .inr (.inl ⟨node, 0, hw, rfl⟩)
  rename_i hk
  refine .inr (.inr ⟨fun node' hn' => ?_, hs⟩)
  rw [hn] at hn'
  obtain rfl : node = node' := some.inj (some.inj hn')
  exact hk

lemma unlink_cases (hs : krustVfsUnlink s who path = some (s', r)) :
    s' = s ∨
      ∃ parent node s1, resolveParent s path = some (some parent) ∧
        checkPermission s who parent 6 = true ∧
        findChild s parent (extractName path) = some (some node) ∧ s.kind node ≠ .dir ∧
        cutChild s parent node = some s1 ∧ s' = freeNode s1 node := by
  unfold krustVfsUnlink at hs
  split at hs
  · cases hs
    exact .inl rfl
  split at hs
  · cases hs
  · cases hs
    exact .inl rfl
  rename_i parent hp
  split at hs
  · cases hs
    exact .inl rfl
  rename_i hc
  split at hs
  · cases hs
  · cases hs
    exact .inl rfl
  rename_i node hf
  split at hs
  · cases hs
    exact .inl rfl
  rename_i hk
  obtain ⟨s1, hcut, heq⟩ := map_eq_some_iff.mp hs
  cases heq
  have hn : s.kind node ≠ .dir := fun hdir => hk (by rw [hdir]; decide)
  exact .inr ⟨parent, node, s1, hp, by simpa using hc, hf, hn, hcut, rfl⟩

lemma removeNode_cases (hs : krustVfsRemoveNode s path = some (s', r)) :
    s' = s ∨
      ∃ node parent s1 members, krustVfsResolve s path = some (some node) ∧ node ≠ root ∧
        s.parent node = some parent ∧ cutChild s parent node = some s1 ∧
        Linked s1.next (s1.children node) members ∧
        s' = freeNode (members.foldl freeNode s1) node := by
  unfold krustVfsRemoveNode at hs
  split at hs
  · cases hs
    exact .inl rfl
  split at hs
  · cases hs
  · cases hs
    exact .inl rfl
  rename_i node hn
  split at hs
  · cases hs
    exact .inl rfl
  rename_i hr
  split at hs
  · cases hs
    exact .inl rfl
  rename_i parent hp
  obtain ⟨s1, hcut, hs⟩ := bind_eq_some_iff.mp hs
  obtain ⟨members, hw, hs⟩ := bind_eq_some_iff.mp hs
  cases hs
  exact .inr ⟨node, parent, s1, members, hn, hr, hp, hcut, walkList_linked hw, rfl⟩

lemma rmdir_cases (hs : krustVfsRmdir s who path = some (s', r)) :
    s' = s ∨
      ∃ node, krustVfsResolve s path = some (some node) ∧ s.children node = none ∧
        (∀ p, s.parent node = some p → checkPermission s who p 2 = true) ∧
        krustVfsRemoveNode s path = some (s', r) := by
  unfold krustVfsRmdir at hs
  split at hs
  · cases hs
    exact .inl rfl
  split at hs
  · cases hs
  · cases hs
    exact .inl rfl
  rename_i node hn
  split at hs
  · cases hs
    exact .inl rfl
  split at hs
  · cases hs
    exact .inl rfl
  rename_i hc
  split at hs
  · cases hs
    exact .inl rfl
  rename_i he
  refine .inr ⟨node, hn, not_not.mp he, fun p hp => ?_, hs⟩
  rw [hp] at hc
  simpa using hc

lemma rename_cases {oldPath newPath : CStr}
    (hs : krustVfsRename s who oldPath newPath = some (s', r)) :
    s' = s ∨
      ∃ node oldParent s1, krustVfsResolve s oldPath = some (some node) ∧ node ≠ root ∧
        s.parent node = some oldParent ∧ checkPermission s who oldParent 6 = true ∧
        cutChild s oldParent node = some s1 ∧
        (s' = addChild s1 oldParent node ∨
          ∃ newParent, resolveParent s1 newPath = some (some newParent) ∧
            checkPermission s1 who newParent 6 = true ∧
            s' = moveNode s1 node newParent (extractName newPath)) := by
  unfold krustVfsRename at hs
  split at hs
  · cases hs
    exact .inl rfl
  split at hs
  · cases hs
  · cases hs
    exact .inl rfl
  rename_i node hn
  split at hs
  · cases hs
    exact .inl rfl
  rename_i hr
  split at hs
  · cases hs
    exact .inl rfl
  rename_i oldParent hp
  split at hs
  · cases hs
    exact .inl rfl
  rename_i hc
  obtain ⟨s1, hcut, hs⟩ := bind_eq_some_iff.mp hs
  obtain ⟨found, hf, hs⟩ := bind_eq_some_iff.mp hs
  refine .inr ⟨node, oldParent, s1, hn, hr, hp, by simpa using hc, hcut, ?_⟩
  cases found with
  | none =>
    cases hs
    exact .inl rfl
  | some newParent =>
    dsimp only at hs
    split at hs
    · cases hs
      exact .inl rfl
    rename_i hnew
    cases hs
    exact .inr ⟨newParent, hf, by simpa using hnew, rfl⟩

end Tree

section Open

variable {v v' : State} {t : ℕ} {who : Option Cred} {path : CStr} {ok : Bool} {r : ℤ}

lemma open_cases (hs : krustVfsOpen v t who path = some (v', r)) :
    v' = v ∨
      ∃ node, krustVfsResolve v.fs path = some (some node) ∧ v' = (openNode v t node).1 := by
  unfold krustVfsOpen at hs
  split at hs
  · cases hs
    exact .inl rfl
  split at hs
  · cases hs
  · cases hs
    exact .inl rfl
  rename_i node hn
  split at hs
  · cases hs
    exact .inl rfl
  split at hs
  · cases hs
    exact .inl rfl
  · exact .inr ⟨node, hn, (congrArg Prod.fst (some.inj hs)).symm⟩

/-- A file that was found is emptied and opened. Where none was found one is made, which is opened
if it could be made. -/
lemma openWrite_cases (hs : krustVfsOpenWrite v t who path ok = some (v', r)) :
    v' = v ∨
      (∃ node, krustVfsResolve v.fs path = some (some node) ∧
        checkPermission v.fs who node 2 = true ∧
        v' = (openNode { v with fs := { v.fs with size := Function.update v.fs.size node 0 } }
          t node).1) ∨
      ∃ fs n, krustVfsResolve v.fs path = some none ∧
        createNode v.fs who path .file (some 2) false [] 0 ok = some (fs, n) ∧
        ((n = none ∧ v' = { v with fs := fs }) ∨
          ∃ node, n = some node ∧ v' = (openNode { v with fs := fs } t node).1) := by
  unfold krustVfsOpenWrite at hs
  split at hs
  · cases hs
    exact .inl rfl
  split at hs
  · cases hs
  · rename_i hn
    obtain ⟨⟨fs, n⟩, hc, hs⟩ := bind_eq_some_iff.mp hs
    refine .inr (.inr ⟨fs, n, hn, hc, ?_⟩)
    cases n with
    | none =>
      cases hs
      exact .inl ⟨rfl, rfl⟩
    | some node =>
      exact .inr ⟨node, rfl, (congrArg Prod.fst (some.inj hs)).symm⟩
  rename_i node hno
  split at hs
  · split at hs
    · cases hs
      exact .inl rfl
    rename_i hch
    exact .inr (.inl ⟨node, hno, by simpa using hch, (congrArg Prod.fst (some.inj hs)).symm⟩)
  cases hs
  exact .inl rfl

end Open

end Elitra.Vfs
