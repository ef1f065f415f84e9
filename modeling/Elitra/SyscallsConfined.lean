import Elitra.Syscalls

namespace Elitra.Syscalls
open AccessLog List Signals Vfs

/-- The end of the lower half that `boot.asm` maps, two directories of 2 MB pages. The kernel image,
from 1 MB on, is in it. -/
def identityEnd : ℕ := 2 * 512 * 0x200000

def KernelAddr (x : ℕ) : Prop :=
  x < identityEnd ∨ (Heap.heapStart ≤ x ∧ x < Heap.heapStart + Heap.heapSize)

/-- Whatever a call touches through a pointer was accepted before at its full length, and nothing
that was accepted is the kernel's. -/
def Confined (es : List Event) : Prop :=
  Covered [] es ∧
    ∀ p n, Event.accept p n ∈ es → ∀ x, p ≤ x → x < p + n → ¬ KernelAddr x

/-- The bytes that a transfer moves if the descriptor is one of a block device. -/
def fdBlockBytes (k : Kernel) (fd : ℤ) (want size : ℕ) : ℕ :=
  match fdNode k fd want with
  | none => 0
  | some (_, node) =>
    if k.vfs.fs.kind node = .device then
      match k.device node with
      | some (.block sectorSize moved) => blockBytes sectorSize moved size
      | _ => 0
    else 0

def execveRanges (k : Kernel) (a : Args) (argc : ℕ) : List (ℕ × ℕ) :=
  (a.arg1, 256) :: (a.arg3, 8 * (argc + 1)) ::
    (List.range argc).map fun i => (argvAt k a.arg3 i, 1)

/-- Every argument that `execve` reads lies, with its null byte, in a range that it tested. -/
def ArgvHeld (k : Kernel) (a : Args) : Prop :=
  let argc := (toI32 a.arg2).toNat
  isUserRange a.arg1 256 = true → a.arg3 ≠ 0 → argc < 16 →
    isUserRange a.arg3 (8 * (argc + 1)) = true →
    (∀ i < argc, isUserRange (argvAt k a.arg3 i) 1 = true) → k.exec ≠ .early →
    ∀ i < argc, Holds (execveRanges k a argc) (argvAt k a.arg3 i) (argLen k a.arg3 i + 1)

/-- The condition that the calls do not test for themselves. -/
def Checked (k : Kernel) (a : Args) : ℕ → Prop
  | 5 => isUserRange a.arg2 a.arg3 = true →
      fdBlockBytes k (toI32 a.arg1) 4 (toU32 a.arg3) ≤ a.arg3
  | 19 => isUserRange a.arg2 a.arg3 = true →
      fdBlockBytes k (toI32 a.arg1) 2 (toU32 a.arg3) ≤ a.arg3
  | 29 => ArgvHeld k a
  | 33 => SigactionRefuses (toI32 a.arg1) a.arg2 ∨ a.arg3 = 0
  | 34 => False
  | 46 => k.cloned = false ∨ (a.arg3 = 0 ∧ a.arg5 = 0)
  | 78 => a.arg2 ≠ 0 → isUserRange a.arg2 a.arg3 = true →
      ∀ d ∈ dirents k a, d.1 + (20 + d.2) ≤ a.arg3
  | _ => True

section Accepted

variable {p n x : ℕ}

lemma kernelAddr_iff : KernelAddr x ↔ x < identityEnd := by
  unfold KernelAddr identityEnd Heap.heapStart Heap.heapSize
  omega

/-- An accepted range is free of kernel addresses when it starts above the kernel's mappings. -/
lemma accepted_clear_iff :
    (∀ y, p ≤ y → y < p + n → ¬ KernelAddr y) ↔ n = 0 ∨ identityEnd ≤ p := by
  simp only [kernelAddr_iff]
  constructor
  · intro h
    by_contra hb
    exact h p (Nat.le_refl p) (by omega) (by omega)
  intro h y hlow hh
  omega

end Accepted

variable {k : Kernel} {a : Args} {rs : List (ℕ × ℕ)}

lemma covered_string {src max : ℕ} {next : CStr → List Event} :
    Covered rs (copyStringFromUser k src max next) ↔
      (isUserRange src max = true →
        Covered ((src, max) :: rs) (next ((cstrAt k.mem src max).take (max - 1)))) := by
  simp only [copyStringFromUser, covered_guarded, covered_touch]
  exact forall_congr' fun _ => and_iff_right (holds_first (Nat.min_le_left _ _))

lemma covered_copyToUser {dst len : ℕ} : Covered rs (copyToUser dst len) := by
  simp [copyToUser, holds_cons]

lemma covered_copyCstr {dst : ℕ} {src : List ℕ} : Covered rs (copyCstrToUser dst src) := by
  simp only [copyCstrToUser, covered_guarded, covered_touches, forall_mem_singleton]
  intro _
  apply holds_first
  have hle := (takeWhile_sublist (l := src.take 64) (· ≠ 0)).length_le
  rw [length_take] at hle
  omega

lemma toU32_le (n : ℕ) : toU32 n ≤ n := Nat.mod_le n _

section Files

variable {fd : ℤ} {size n : ℕ}

lemma devRead_le_iff (h : size ≤ n) {d : Device} :
    devRead k size d ≤ n ↔
      (match d with | .block s m => blockBytes s m size | _ => 0) ≤ n := by
  cases d <;> simp only [devRead, Nat.zero_le, iff_true] <;> (try split_ifs) <;> omega

lemma devWrite_le_iff (h : size ≤ n) {d : Device} :
    devWrite size d ≤ n ↔
      (match d with | .block s m => blockBytes s m size | _ => 0) ≤ n := by
  cases d <;> simp only [devWrite, Nat.zero_le, iff_true] <;> omega

lemma vfsRead_le_iff (h : size ≤ n) :
    vfsRead k fd size ≤ n ↔ fdBlockBytes k fd 4 size ≤ n := by
  unfold vfsRead fdBlockBytes
  cases fdNode k fd 4 with
  | none => simp
  | some en =>
    dsimp only
    split
    · cases k.device en.2 with
      | none => simp
      | some d => exact (devRead_le_iff h).trans (by cases d <;> rfl)
    simp only [Nat.zero_le, iff_true]
    omega

lemma vfsWrite_le_iff (h : size ≤ n) :
    vfsWrite k fd size ≤ n ↔ fdBlockBytes k fd 2 size ≤ n := by
  unfold vfsWrite fdBlockBytes
  cases fdNode k fd 2 with
  | none => simp
  | some en =>
    dsimp only
    split
    · cases k.device en.2 with
      | none => simp
      | some d => exact (devWrite_le_iff h).trans (by cases d <;> rfl)
    simp only [Nat.zero_le, iff_true]
    split_ifs <;> omega

lemma vfsWriteFile_le {path : CStr} : vfsWriteFile k path size ≤ size := by
  unfold vfsWriteFile
  split <;> omega

lemma listLoop_le {s : Fs} {bufLen fuel total : ℕ} {c : Option ℕ} (h : total ≤ bufLen) :
    listLoop s bufLen fuel c total ≤ bufLen := by
  induction fuel generalizing c total with
  | zero => cases c <;> exact h
  | succ fuel ih =>
    cases c with
    | none => exact h
    | some c =>
      rw [listLoop]
      split
      · exact h
      apply ih
      omega

end Files

lemma sysWrite_covered : Covered rs (sysWrite k a) := by
  have hle := toU32_le a.arg2
  simp only [sysWrite, covered_guarded]
  intro _
  split
  · simp [holds_cons]
    omega
  · simp [holds_cons]

lemma sysPath_covered : Covered rs (sysPath k a) := by simp [sysPath, covered_string]

lemma sysTwoPaths_covered : Covered rs (sysTwoPaths k a) := by simp [sysTwoPaths, covered_string]

lemma sysOwnedPath_covered : Covered rs (sysOwnedPath k a) := by
  unfold sysOwnedPath
  split
  · exact covered_nil
  · exact sysPath_covered

lemma sysListdir_covered : Covered rs (sysListdir k a) := by
  simp only [sysListdir, covered_string, covered_guarded]
  intro _ _
  split
  · exact covered_nil
  rename_i dir _
  split
  · exact covered_nil
  have hle := toU32_le a.arg3
  have ht : listLoop k.vfs.fs (toU32 a.arg3) (toU32 a.arg3) (k.vfs.fs.children dir) 0 ≤
      toU32 a.arg3 := listLoop_le (Nat.zero_le _)
  rw [covered_touches, forall_mem_cons]
  refine ⟨holds_first (by omega), ?_⟩
  split
  · rw [forall_mem_singleton]
    exact holds_part (by omega)
  · exact fun _ hx => by cases hx

lemma sysWriteFile_covered : Covered rs (sysWriteFile k a) := by
  simp only [sysWriteFile, covered_string, covered_guarded, covered_touches, forall_mem_singleton]
  intro _ _
  exact holds_first (vfsWriteFile_le.trans (toU32_le a.arg3))

lemma sysStat_covered : Covered rs (sysStat k a) := by
  simp only [sysStat, covered_string, covered_guarded]
  intro _ _
  split
  · exact covered_nil
  · simp [statFields, holds_cons]

lemma sysPipe_covered : Covered rs (sysPipe k a) := by
  simp only [sysPipe, covered_guarded]
  intro _
  split <;> simp [holds_cons]

lemma sysPipeRead_covered : Covered rs (sysPipeRead k a) := by
  have hle := toU32_le a.arg3
  simp only [sysPipeRead, covered_guarded, covered_touches, forall_mem_singleton]
  exact fun _ => holds_first (by omega)

lemma sysPipeWrite_covered : Covered rs (sysPipeWrite k a) := by
  have hle := toU32_le a.arg3
  simp only [sysPipeWrite, covered_guarded, covered_touches, forall_mem_singleton]
  exact fun _ => holds_first (by omega)

lemma sysUname_covered : Covered rs (sysUname a) := by
  unfold sysUname
  split
  · exact covered_nil
  apply covered_copyCstr.append
  intro _
  apply covered_copyCstr.append
  intro _
  apply covered_copyCstr.append
  intro _
  apply covered_copyCstr.append
  intro _
  exact covered_copyCstr

lemma sysGetcwd_covered : Covered rs (sysGetcwd k a) := by
  simp only [sysGetcwd, covered_guarded]
  intro _
  split
  · simp
  simp [holds_cons]
  omega

lemma sysTime_covered : Covered rs (sysTime a) :=
  covered_guarded.mpr fun _ => covered_copyToUser

lemma sysWaitpid_covered : Covered rs (sysWaitpid k a) := by
  unfold sysWaitpid
  split
  · exact covered_guarded.mpr fun _ => covered_copyToUser
  · exact covered_nil

lemma sysPoll_covered : Covered rs (sysPoll k a) := by
  unfold sysPoll
  split
  · exact covered_nil
  simp only [covered_guarded, covered_touches, mem_flatMap, mem_range]
  rintro _ x ⟨i, hi, hx⟩
  rw [mem_cons] at hx
  rcases hx with rfl | hx
  · exact holds_part (by omega)
  split at hx
  · cases hx
  rw [mem_singleton] at hx
  subst hx
  exact holds_part (by omega)

/-- After the test of a pointer that may be null the range is held, and what was held still is. -/
lemma covered_guardedSome {p n : ℕ} {next : List Event}
    (h : ∀ rs', (p ≠ 0 → Holds rs' p n) → (∀ q m, Holds rs q m → Holds rs' q m) → Covered rs' next) :
    Covered rs (guardedSome p n next) := by
  unfold guardedSome
  by_cases hp : p = 0
  · rw [if_pos hp]
    exact h rs (fun hne => absurd hp hne) fun _ _ hq => hq
  rw [if_neg hp, covered_guarded]
  intro _
  exact h _ (fun _ => holds_first (Nat.le_refl n)) fun _ _ hq => holds_cons.mpr (.inr hq)

lemma mem_unless_null {p n : ℕ} {x : ℕ × ℕ} (hx : x ∈ if p = 0 then [] else [(p, n)]) :
    p ≠ 0 ∧ x = (p, n) := by
  split at hx
  · cases hx
  rename_i hp
  exact ⟨hp, mem_singleton.mp hx⟩

lemma sysSelect_covered : Covered rs (sysSelect a) := by
  unfold sysSelect
  dsimp only
  split
  · exact covered_nil
  apply covered_guardedSome
  intro rs2 h2 _
  apply covered_guardedSome
  intro rs3 h3 k3
  apply covered_guardedSome
  intro rs4 _ k4
  apply covered_guardedSome
  intro rs5 _ k5
  apply covered_touches.mpr
  intro x hx
  rcases mem_append.mp hx with hx | hx
  · obtain ⟨hne, rfl⟩ := mem_unless_null hx
    exact k5 _ _ (k4 _ _ (k3 _ _ (h2 hne)))
  obtain ⟨hne, rfl⟩ := mem_unless_null hx
  exact k5 _ _ (k4 _ _ (h3 hne))

lemma sysAffinity_covered : Covered rs (sysAffinity a) := by
  unfold sysAffinity
  split
  · exact covered_nil
  · exact covered_guarded.mpr fun _ => covered_copyToUser

lemma sysConnect_covered : Covered rs (sysConnect a) := by simp [sysConnect, holds_cons]

lemma sysSendto_covered : Covered rs (sysSendto a) := by simp [sysSendto, holds_cons]

lemma sysRecvfrom_covered : Covered rs (sysRecvfrom k a) := by
  simp only [sysRecvfrom, covered_guarded]
  intro _
  split
  · exact covered_nil
  rw [covered_touches_append]
  split <;> simp [holds_cons]

lemma covered_tested {p n : ℕ} {next : List Event}
    (h : ∀ rs', (p ≠ 0 → isUserRange p n = true → Holds rs' p n) →
      (∀ q m, Holds rs q m → Holds rs' q m) → Covered rs' next) :
    Covered rs ((if p ≠ 0 ∧ isUserRange p n then [.accept p n] else []) ++ next) := by
  by_cases hp : p ≠ 0 ∧ isUserRange p n = true
  · rw [if_pos hp]
    exact h _ (fun _ _ => holds_first (Nat.le_refl n)) fun _ _ hq => holds_cons.mpr (.inr hq)
  rw [if_neg hp]
  exact h rs (fun hne hr => absurd ⟨hne, hr⟩ hp) fun _ _ hq => hq

lemma sysAccept_covered : Covered rs (sysAccept k a) := by
  unfold sysAccept
  apply covered_tested
  intro rs2 h2 _
  apply covered_tested
  intro rs3 h3 k3
  split
  · rename_i hall
    apply covered_touches.mpr
    intro x hx
    rcases mem_append.mp hx with hx | hx
    · obtain ⟨hne, rfl⟩ := mem_unless_null hx
      exact k3 _ _ (h2 hne (hall.1.resolve_left hne))
    obtain ⟨hne, rfl⟩ := mem_unless_null hx
    exact h3 hne (hall.2.1.resolve_left hne)
  · exact covered_nil

lemma sysIoctl_covered : Covered rs (sysIoctl k a) := by
  unfold sysIoctl
  split_ifs <;> simp [holds_cons]

lemma sysPollMs_covered : Covered rs (sysPollMs a) := by
  unfold sysPollMs
  split
  · exact covered_nil
  simp only [covered_guarded, covered_touches, mem_append, mem_flatMap, mem_map,
    mem_range, mem_cons, not_mem_nil, or_false]
  rintro _ x (⟨i, hi, rfl | rfl⟩ | ⟨i, hi, rfl⟩)
  all_goals exact holds_part (by omega)

lemma sysClockGettime_covered : Covered rs (sysClockGettime a) := by
  unfold sysClockGettime
  split_ifs <;> simp [holds_cons]

lemma sysNanosleep_covered : Covered rs (sysNanosleep a) := by
  unfold sysNanosleep
  split
  · exact covered_nil
  rw [covered_guarded]
  intro _
  rw [covered_touches_append]
  split <;> simp [holds_cons]

lemma sysReadlink_covered : Covered rs (sysReadlink k a) := by
  have hle := toU32_le a.arg3
  simp only [sysReadlink, covered_string]
  intro _
  split
  · exact covered_nil
  rw [covered_guarded]
  intro _
  split
  · exact covered_nil
  split
  · simp
  simp [holds_cons]
  omega

lemma sysSetenv_covered : Covered rs (sysSetenv k a) := by simp [sysSetenv, covered_string]

lemma sysGetenv_covered : Covered rs (sysGetenv k a) := by
  simp only [sysGetenv, covered_string]
  intro _
  split
  · exact covered_nil
  rw [covered_guarded]
  intro _
  split <;> simp [holds_cons] <;> omega

lemma sysRead_covered_iff : Covered [] (sysRead k a) ↔ Checked k a 5 := by
  simp only [sysRead, covered_guarded, covered_touches, forall_mem_singleton, Checked]
  apply forall_congr'
  intro _
  rw [← vfsRead_le_iff (toU32_le a.arg3)]
  simpa using holds_single (p := a.arg2) (i := 0)

lemma sysWriteFd_covered_iff : Covered [] (sysWriteFd k a) ↔ Checked k a 19 := by
  simp only [sysWriteFd, covered_guarded, covered_touches, forall_mem_singleton, Checked]
  apply forall_congr'
  intro _
  rw [← vfsWrite_le_iff (toU32_le a.arg3)]
  simpa using holds_single (p := a.arg2) (i := 0)

lemma sysSigaction_covered_iff : Covered [] (sysSigaction a) ↔ Checked k a 33 := by
  simp only [sysSigaction, Checked]
  split <;> rename_i h <;> simp [h]

lemma sysClone_covered_iff : Covered [] (sysClone k a) ↔ Checked k a 46 := by
  unfold sysClone Checked
  cases k.cloned with
  | false => simp
  | true =>
    rw [if_pos rfl, covered_touches]
    by_cases h3 : a.arg3 = 0
    · by_cases h5 : a.arg5 = 0 <;> simp [h3, h5]
    rw [if_neg h3, singleton_append, forall_mem_cons]
    simp [h3]

lemma sysGetdents_covered_iff : Covered [] (sysGetdents k a) ↔ Checked k a 78 := by
  simp only [sysGetdents, Checked]
  split
  · rename_i h
    rcases h with h | h
    · simp [dirents, h]
    · simp [h]
  rename_i h
  push Not at h
  simp only [covered_guarded, covered_touches, forall_mem_map, holds_single, h.2, ne_eq,
    not_false_eq_true, forall_const]

/-- The test of the arguments reads their pointers, which lie in the range of `argv`; what follows
runs with one more byte accepted for each argument. -/
lemma covered_argvLoop {argv : ℕ} {next : List Event} {is : List ℕ}
    (h : ∀ i ∈ is, Holds rs (argv + 8 * i) 8) :
    Covered rs (argvLoop k argv next is) ↔
      ((∀ i ∈ is, isUserRange (argvAt k argv i) 1 = true) →
        Covered ((is.map fun i => (argvAt k argv i, 1)).reverse ++ rs) next) := by
  induction is generalizing rs with
  | nil => simp [argvLoop]
  | cons i is ih =>
    rw [forall_mem_cons] at h
    rw [argvLoop, covered_touch, and_iff_right h.1, covered_guarded,
      ih fun j hj => (h.2 j hj).cons _]
    simp only [forall_mem_cons, and_imp, map_cons, reverse_cons, append_assoc, singleton_append]

lemma covered_execveReads {argc argv : ℕ} (ha : argv ≠ 0)
    (h : ∀ i < argc, Holds rs (argv + 8 * i) 8) :
    Covered rs (execveReads k argc argv) ↔
      (argc < 16 → k.exec ≠ .early →
        ∀ i < argc, Holds rs (argvAt k argv i) (argLen k argv i + 1)) := by
  unfold execveReads
  split
  · rename_i hs
    simp only [covered_nil, true_iff]
    intro hlt he i hi
    rcases hs with h' | h' | h' | h'
    · exact absurd h' he
    · omega
    · exact absurd h' ha
    · omega
  rename_i hgo
  push Not at hgo
  rw [covered_touches_append]
  constructor
  · intro hc _ _ i hi
    exact hc.1 (argvAt k argv i, argLen k argv i + 1)
      (mem_flatMap.mpr ⟨i, mem_range.mpr hi, by simp⟩)
  intro hh
  have hh := hh hgo.2.2.2 hgo.1
  refine ⟨fun x hx => ?_, covered_touches.mpr fun x hx => ?_⟩
  · obtain ⟨i, hi, hx⟩ := mem_flatMap.mp hx
    rw [mem_range] at hi
    simp only [mem_cons, not_mem_nil, or_false] at hx
    rcases hx with rfl | rfl
    · exact h i hi
    · exact hh i hi
  -- the copy reads a part of what was measured
  split at hx
  · split at hx
    · obtain ⟨i, hi, rfl⟩ := mem_map.mp hx
      obtain ⟨r, hr, hlow, hhi⟩ := hh i (mem_range.mp hi)
      exact ⟨r, hr, hlow, by omega⟩
    · cases hx
  · cases hx

lemma sysExecve_covered_iff : Covered [] (sysExecve k a) ↔ Checked k a 29 := by
  simp only [sysExecve, Checked, ArgvHeld, covered_string]
  apply forall_congr'
  intro _
  generalize har : (toI32 a.arg2).toNat = argc
  split
  · rename_i hn
    have hnil : execveReads k argc a.arg3 = [] := by
      unfold execveReads
      rw [if_pos (.inr (hn.imp_right .inl))]
    rw [hnil]
    simp only [covered_nil, true_iff]
    intro h3 _ _ _ _ i hi
    rcases hn with h | h
    · omega
    · exact absurd h h3
  rename_i hs
  push Not at hs
  have hptr : ∀ i < argc, ∀ rs', Holds ((a.arg3, 8 * (argc + 1)) :: rs') (a.arg3 + 8 * i) 8 :=
    fun i hi rs' => holds_part (by omega)
  rw [covered_guarded]
  simp only [hs.2, ne_eq, not_false_eq_true, forall_const]
  rw [covered_argvLoop fun i hi => hptr i (mem_range.mp hi) _, covered_execveReads hs.2 fun i hi =>
      (hptr i hi [(a.arg1, 256)]).mono fun r hr => mem_append_right _ hr]
  have hsa : ∀ r, r ∈ ((range argc).map fun i => (argvAt k a.arg3 i, 1)).reverse ++
      [(a.arg3, 8 * (argc + 1)), (a.arg1, 256)] ↔ r ∈ execveRanges k a argc := by
    intro r
    simp only [execveRanges, mem_append, mem_reverse, mem_cons, not_mem_nil, or_false]
    rw [or_comm, or_assoc, or_left_comm]
  simp only [holds_congr hsa, mem_range]
  exact ⟨fun h hlt hra ha => h hra ha hlt, fun h hra ha hlt => h hlt hra ha⟩

lemma checked_of_ne {num : ℕ} (h5 : num ≠ 5) (h19 : num ≠ 19) (h29 : num ≠ 29) (h33 : num ≠ 33)
    (h34 : num ≠ 34) (h46 : num ≠ 46) (h78 : num ≠ 78) : Checked k a num := by
  unfold Checked
  split
  · exact absurd rfl h5
  · exact absurd rfl h19
  · exact absurd rfl h29
  · exact absurd rfl h33
  · exact absurd rfl h34
  · exact absurd rfl h46
  · exact absurd rfl h78
  · exact True.intro

/-- The dispatcher keeps to accepted ranges exactly when the caller has met the condition. -/
lemma dispatch_covered_iff {rsp num : ℕ} :
    Covered [] (dispatch k a rsp num) ↔ Checked k a num := by
  unfold dispatch
  split
  · exact iff_of_true sysWrite_covered trivial
  · exact iff_of_true sysPath_covered trivial
  · exact sysRead_covered_iff
  · exact iff_of_true sysListdir_covered trivial
  · exact iff_of_true sysWriteFile_covered trivial
  · exact iff_of_true sysPath_covered trivial
  · exact iff_of_true sysPath_covered trivial
  · exact iff_of_true sysPath_covered trivial
  · exact iff_of_true sysTwoPaths_covered trivial
  · exact iff_of_true sysStat_covered trivial
  · exact iff_of_true sysPipe_covered trivial
  · exact iff_of_true sysPipeRead_covered trivial
  · exact iff_of_true sysPipeWrite_covered trivial
  · exact sysWriteFd_covered_iff
  · exact iff_of_true sysUname_covered trivial
  · exact iff_of_true sysPath_covered trivial
  · exact iff_of_true sysGetcwd_covered trivial
  · exact iff_of_true sysPath_covered trivial
  · exact iff_of_true sysTime_covered trivial
  · exact sysExecve_covered_iff
  · exact iff_of_true sysWaitpid_covered trivial
  · exact sysSigaction_covered_iff
  · simp [sysSigreturn, Checked]
  · exact iff_of_true sysPoll_covered trivial
  · exact iff_of_true sysSelect_covered trivial
  · exact sysClone_covered_iff
  · exact iff_of_true sysAffinity_covered trivial
  · exact iff_of_true sysConnect_covered trivial
  · exact iff_of_true sysSendto_covered trivial
  · exact iff_of_true sysRecvfrom_covered trivial
  · exact iff_of_true sysAccept_covered trivial
  · exact iff_of_true sysIoctl_covered trivial
  · exact iff_of_true sysPollMs_covered trivial
  · exact iff_of_true sysClockGettime_covered trivial
  · exact iff_of_true sysNanosleep_covered trivial
  · exact iff_of_true sysOwnedPath_covered trivial
  · exact iff_of_true sysOwnedPath_covered trivial
  · exact sysGetdents_covered_iff
  · exact iff_of_true sysTwoPaths_covered trivial
  · exact iff_of_true sysReadlink_covered trivial
  · exact iff_of_true sysSetenv_covered trivial
  · exact iff_of_true sysGetenv_covered trivial
  -- the numbers of the calls without a pointer
  apply iff_of_true trivial
  apply checked_of_ne <;> assumption

/-- No handler is entered on the way into the call, whose frame would be pushed unchecked. -/
def Undisturbed (k : Kernel) (r : Regs) : Prop :=
  ∀ sig, (deliverSignals k.task.sig r).2 ≠ .enters sig

lemma checked_of_gt {num : ℕ} (h : 83 < num) : Checked k a num := by
  apply checked_of_ne <;> omega

lemma covered_numbered_iff {rsp num : ℕ} :
    Covered [] (if 83 < num then [] else dispatch k a rsp num) ↔ Checked k a num := by
  split
  · rename_i h
    exact iff_of_true trivial (checked_of_gt h)
  · exact dispatch_covered_iff

lemma handler_covered_iff {r : Regs} :
    Covered [] (syscallHandlerC k a r) ↔ Undisturbed k r ∧ Checked k a r.rax := by
  unfold syscallHandlerC delivery Undisturbed
  -- only an entered handler touches memory before the dispatch, with nothing accepted yet
  cases (deliverSignals k.task.sig r).2 with
  | enters sig => simp [covered_touches_append]
  | nothing => simpa using covered_numbered_iff
  | exits sig => simpa using covered_numbered_iff

/-- A call keeps out of the kernel's memory, and inside what it tested, exactly when no handler is
entered before it, the condition of its number holds, and each range that passed the test is empty
or above the kernel's mappings. -/
theorem handler_confined_iff (k : Kernel) (a : Args) (r : Regs) :
    Confined (syscallHandlerC k a r) ↔
      (Undisturbed k r ∧ Checked k a r.rax) ∧
        ∀ p n, Event.accept p n ∈ syscallHandlerC k a r → n = 0 ∨ identityEnd ≤ p := by
  unfold Confined
  simp only [accepted_clear_iff, handler_covered_iff]

/-- A task without signals, files or memory of its own. -/
def idleKernel : Kernel where
  task := ⟨1, ⟨0, 0⟩, -1, -1, [slash], [], Sig.new⟩
  mem := fun _ => 0
  vfs := krustVfsInit
  device := fun _ => none
  pipeIn := fun _ => 0
  pipeOut := fun _ => 0
  freePipe := true
  allocates := true
  received := fun _ => none
  connecting := fun _ => false
  reaped := false
  cloned := true
  exec := .early

/-- `sigaction` stores the old handler at 1 MB, the start of the kernel image, without a test; and
`write` is allowed to read the image, because the test accepts it. -/
theorem sigaction_writes_kernel_image :
    KernelAddr 0x100000 ∧
      syscallHandlerC idleKernel ⟨2, 0x400000, 0x100000, 0, 0⟩ ⟨0, 0, 0, 0, 0, 33, 0⟩ =
        [.touch 0x100000 8] ∧
      ¬ Confined (syscallHandlerC idleKernel ⟨2, 0x400000, 0x100000, 0, 0⟩
        ⟨0, 0, 0, 0, 0, 33, 0⟩) ∧
      syscallHandlerC idleKernel ⟨0x100000, 8, 0, 0, 0⟩ ⟨0, 0, 0, 0, 0, 0, 0⟩ =
        [.accept 0x100000 8, .touch 0x100000 8, .touch 0x100000 8] ∧
      ¬ Confined (syscallHandlerC idleKernel ⟨0x100000, 8, 0, 0, 0⟩ ⟨0, 0, 0, 0, 0, 0, 0⟩) := by
  have hi : KernelAddr 0x100000 := .inl (by decide)
  have hsig : syscallHandlerC idleKernel ⟨2, 0x400000, 0x100000, 0, 0⟩ ⟨0, 0, 0, 0, 0, 33, 0⟩ =
      [.touch 0x100000 8] := by decide
  have hw : syscallHandlerC idleKernel ⟨0x100000, 8, 0, 0, 0⟩ ⟨0, 0, 0, 0, 0, 0, 0⟩ =
      [.accept 0x100000 8, .touch 0x100000 8, .touch 0x100000 8] := by decide
  refine ⟨hi, hsig, ?_, hw, ?_⟩
  · rw [hsig]
    exact fun h => not_holds_nil h.1.1
  rw [hw]
  exact fun h => h.2 0x100000 8 mem_cons_self 0x100000 (Nat.le_refl _) (by decide) hi

end Elitra.Syscalls
