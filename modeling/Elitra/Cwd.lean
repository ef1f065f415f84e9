import Elitra.Vfs
import Mathlib.Data.List.Infix

namespace Elitra.Cwd
open List Option Vfs

def Absolute (path : CStr) : Prop := path.head? = some slash

instance (path : CStr) : Decidable (Absolute path) := inferInstanceAs (Decidable (_ = _))

/-- `copy_string_from_user` into a buffer of 256 bytes. -/
def copyStringFromUser (path : CStr) : CStr := path.take 255

/-- `chdir`: the new string, or nothing for a failure. -/
def sysChdir (fs : Fs) (path : CStr) : Option (Option CStr) :=
  match krustVfsResolve fs (copyStringFromUser path) with
  | none => none
  | some none => some none
  | some (some node) =>
    if fs.kind node = .dir then some (some ((copyStringFromUser path).take 127)) else some none

def sysGetcwd (cwd : CStr) (size : ℕ) : Option CStr :=
  if size = 0 then none else some (cwd.take (size - 1))

/-- What a call looks up: a node, or the directory that a path's last name is in. -/
inductive Lookup where
  | node (path : CStr)
  | parent (path : CStr)

def Lookup.path : Lookup → CStr
  | node path => path
  | parent path => path

def Lookup.find (fs : Fs) : Lookup → Option (Option ℕ)
  | node path => krustVfsResolve fs (copyStringFromUser path)
  | parent path => resolveParent fs (copyStringFromUser path)

inductive Call where
  | openRead (path : CStr)
  | openWrite (path : CStr)
  | writeFile (path : CStr)
  | createDir (path : CStr)
  | unlink (path : CStr)
  | rename (oldPath newPath : CStr)
  | execve (path : CStr)

def binDir : CStr := [47, 98, 105, 110, 47]
def elf : CStr := [46, 101, 108, 102]

/-- Everything a call may look up. `execve` goes on in `/bin` when it finds no file under a name that
is short enough. -/
def Call.lookups : Call → List Lookup
  | openRead path => [.node path]
  | openWrite path => [.node path, .parent path]
  | writeFile path => [.node path, .parent path]
  | createDir path => [.parent path]
  | unlink path => [.parent path]
  | rename oldPath newPath => [.node oldPath, .parent newPath]
  | execve path =>
    if path.length < 55 then [.node path, .node (binDir ++ path ++ elf)] else [.node path]

/-- Where a path starts for a task whose directory is `dir`. -/
def base (dir : ℕ) (path : CStr) : ℕ := if Absolute path then root else dir

/-- What a lookup means for a task whose directory is `dir`. -/
def Lookup.findAt (fs : Fs) (dir : ℕ) : Lookup → Option (Option ℕ)
  | node path => resolvePath fs 6 (base dir path) path
  | parent path =>
    if slash ∈ path then
      resolvePath fs 6 (base dir path) (path.reverse.dropWhile (· ≠ slash)).tail.reverse
    else some (some dir)

/-- The directory that a path leads to from `dir`. -/
def dirAt (fs : Fs) (dir : ℕ) (path : CStr) : Option ℕ :=
  (resolvePath fs 6 (base dir path) path).join.filter fun node => fs.kind node = .dir

/-- A task's string, and as a history variable the directory that its `chdir` calls reached one after
another. -/
structure Task where
  cwd : CStr
  dir : Option ℕ

def start : Task := ⟨[slash], some root⟩

def Task.chdir (fs : Fs) (s : Task) (path : CStr) : Option Task :=
  match sysChdir fs path with
  | some (some cwd) => some ⟨cwd, s.dir.bind fun dir => dirAt fs dir path⟩
  | _ => none

def chdirs (fs : Fs) (paths : List CStr) : Option Task := paths.foldlM (Task.chdir fs) start

/-- `getcwd` returns an absolute path of the directory that was reached. -/
def GetcwdRight (fs : Fs) (s : Task) : Prop :=
  ∃ dir path, s.dir = some dir ∧ sysGetcwd s.cwd 128 = some path ∧ Absolute path ∧
    krustVfsResolve fs path = some (some dir)

/-- A call resolves its relative paths against `dir`. -/
def Call.Follows (fs : Fs) (dir : ℕ) (c : Call) : Prop :=
  ∀ l ∈ c.lookups, ¬ Absolute l.path → l.find fs = l.findAt fs dir

/-- The paths of a call fit into the kernel's buffer. -/
def Call.Fits (c : Call) : Prop := ∀ l ∈ c.lookups, l.path.length ≤ 255

/-- An absolute path whose first 127 bytes lead to the same directory. -/
def Plain (fs : Fs) (path : CStr) : Prop :=
  Absolute path ∧ ∃ dir, dirAt fs root path = some dir ∧
    krustVfsResolve fs (path.take 127) = some (some dir)

section Runs

variable {fs : Fs} {s s' : Task} {path : CStr} {dir node : ℕ}

lemma dirAt_of_absolute (h : Absolute path) (dir : ℕ) : dirAt fs dir path = dirAt fs root path := by
  unfold dirAt base
  rw [if_pos h, if_pos h]

lemma kind_dirAt (h : dirAt fs dir path = some node) : fs.kind node = .dir := by
  have hk := filter_eq_some_iff.mp h
  simpa using hk.2

lemma chdir_inv (h : s.chdir fs path = some s') :
    s' = ⟨path.take 127, s.dir.bind fun dir => dirAt fs dir path⟩ := by
  unfold Task.chdir sysChdir at h
  split at h
  · rename_i cwd hcwd
    cases h
    split at hcwd
    · cases hcwd
    · cases hcwd
    split at hcwd
    · cases hcwd
      simp [copyStringFromUser, take_take]
    · cases hcwd
  · cases h

lemma chdir_getcwdRight_iff (h : s.chdir fs path = some s') (hs : GetcwdRight fs s) :
    GetcwdRight fs s' ↔ Plain fs path := by
  obtain ⟨before, -, hb, -⟩ := hs
  have hs' := chdir_inv h
  rw [hb, bind_some] at hs'
  subst hs'
  have hcwd : sysGetcwd (path.take 127) 128 = some (path.take 127) := by
    simp [sysGetcwd, take_take]
  have hh : Absolute (path.take 127) ↔ Absolute path := by
    unfold Absolute
    cases path <;> simp
  constructor
  · rintro ⟨dir, cwd, hdir, hget, habs, hr⟩
    rw [hcwd] at hget
    cases hget
    have habs := hh.mp habs
    rw [dirAt_of_absolute habs] at hdir
    exact ⟨habs, dir, hdir, hr⟩
  rintro ⟨habs, dir, hdir, hr⟩
  refine ⟨dir, path.take 127, ?_, hcwd, hh.mpr habs, hr⟩
  rw [dirAt_of_absolute habs]
  exact hdir

lemma getcwdRight_start (fs : Fs) : GetcwdRight fs start := by
  refine ⟨root, [slash], rfl, rfl, rfl, ?_⟩
  simp [krustVfsResolve, resolvePath, segments, walkPath]

lemma chdirs_concat (fs : Fs) (paths : List CStr) (path : CStr) :
    chdirs fs (paths ++ [path]) = (chdirs fs paths).bind fun s => s.chdir fs path := by
  simp [chdirs, foldlM_append]

/-- `getcwd` is right after every call of a sequence if and only if every path is plain. -/
lemma chdirs_getcwdRight_iff (paths : List CStr) (h : chdirs fs paths = some s) :
    (∀ before s', before <+: paths → chdirs fs before = some s' → GetcwdRight fs s') ↔
      ∀ path ∈ paths, Plain fs path := by
  induction paths using reverseRecOn generalizing s with
  | nil =>
    refine iff_of_true ?_ (by simp)
    intro before s' hb hs'
    rw [prefix_nil] at hb
    subst hb
    cases hs'
    exact getcwdRight_start fs
  | append_singleton paths path ih =>
    rw [chdirs_concat] at h
    obtain ⟨mid, hmid, hl⟩ := bind_eq_some_iff.mp h
    have hrun : chdirs fs (paths ++ [path]) = some s := by
      rw [chdirs_concat, hmid]
      exact hl
    simp only [mem_append, mem_singleton, or_imp, forall_and, forall_eq]
    rw [← ih hmid]
    constructor
    · intro hall
      have hold : ∀ before s', before <+: paths → chdirs fs before = some s' → GetcwdRight fs s' :=
        fun before s' hb => hall before s' (hb.trans (prefix_append _ _))
      refine ⟨hold, ?_⟩
      have hr := hold paths mid (prefix_refl _) hmid
      exact (chdir_getcwdRight_iff hl hr).mp (hall _ s (prefix_refl _) hrun)
    intro hall before s' hb hs'
    rcases prefix_concat_iff.mp hb with heq | hpre
    · rw [heq, hrun] at hs'
      cases hs'
      have hr := hall.1 paths mid (prefix_refl _) hmid
      exact (chdir_getcwdRight_iff hl hr).mpr hall.2
    · exact hall.1 before s' hpre hs'

lemma kind_of_chdirs (hr : fs.kind root = .dir) (paths : List CStr)
    (h : chdirs fs paths = some s) (hdir : s.dir = some dir) : fs.kind dir = .dir := by
  cases paths using reverseRecOn with
  | nil =>
    cases h
    cases hdir
    exact hr
  | append_singleton paths path =>
    rw [chdirs_concat] at h
    obtain ⟨mid, -, hl⟩ := bind_eq_some_iff.mp h
    rw [chdir_inv hl] at hdir
    obtain ⟨before, -, hat⟩ := bind_eq_some_iff.mp hdir
    exact kind_dirAt hat

lemma resolvePath_dot (h : fs.kind dir = .dir) : resolvePath fs 6 dir dot = some (some dir) := by
  simp [resolvePath, segments, walkPath, findChild, dot, slash, h]

lemma find_eq_findAt_root (l : Lookup) (hfit : l.path.length ≤ 255) :
    l.find fs = l.findAt fs root := by
  cases l with
  | node path =>
    have hc : copyStringFromUser path = path := take_of_length_le hfit
    simp only [Lookup.find, Lookup.findAt, krustVfsResolve, base]
    rw [hc, ite_self]
    split
    · rename_i he
      rw [he]
      rfl
    · rfl
  | parent path =>
    have hc : copyStringFromUser path = path := take_of_length_le hfit
    have hbuf : path.take 255 = path := hc
    simp only [Lookup.find, Lookup.findAt, resolveParent, base]
    rw [hc, hbuf, ite_self]

lemma follows_iff_root (hr : fs.kind root = .dir) (hdir : fs.kind dir = .dir) :
    (∀ c : Call, c.Fits → c.Follows fs dir) ↔ dir = root := by
  constructor
  · intro hall
    have hdot := hall (.openRead dot) (by simp [Call.Fits, Call.lookups, Lookup.path, dot])
      (.node dot) (by simp [Call.lookups]) (by decide)
    have hf : (Lookup.node dot).find fs = some (some root) := resolvePath_dot hr
    have hat : (Lookup.node dot).findAt fs dir = some (some dir) := resolvePath_dot hdir
    rw [hf, hat] at hdot
    exact (some.inj (some.inj hdot)).symm
  intro hdir c hfi l hl _
  rw [hdir]
  exact find_eq_findAt_root l (hfi l hl)

/-- After a sequence of successful `chdir` calls: `getcwd` was right all along exactly when every path
was absolute and is not changed by the cut to 127 bytes, and the calls resolve relative paths against
the directory that was reached exactly when this is the root. -/
theorem chdirs_right_iff (fs : Fs) (hroot : fs.kind root = .dir) (paths : List CStr) (s : Task)
    (h : chdirs fs paths = some s) :
    ((∀ before s', before <+: paths → chdirs fs before = some s' → GetcwdRight fs s') ↔
        ∀ path ∈ paths, Plain fs path) ∧
      ∀ dir, s.dir = some dir → ((∀ c : Call, c.Fits → c.Follows fs dir) ↔ dir = root) := by
  refine ⟨chdirs_getcwdRight_iff paths h, ?_⟩
  intro dir hdir
  exact follows_iff_root hroot (kind_of_chdirs hroot paths h hdir)

/-- A tree with one directory `/d` and in it another `/d/d`. -/
def nested : Fs where
  kind := fun _ => .dir
  name := fun n => if n = root then [] else [100]
  linkTarget := fun _ => []
  parent := fun n => some (n - 1)
  children := fun n => if n < 2 then some (n + 1) else none
  next := fun _ => none
  size := fun _ => 0
  uid := fun _ => 0
  gid := fun _ => 0
  mode := fun _ => NodeType.dir.mode
  live := fun n => n < 3
  fresh := 3

theorem chdirs_right_iff_nested :
    chdirs nested [[slash, 100], [slash]] = some ⟨[slash], some root⟩ ∧
      ((∀ before s', before <+: [[slash, 100], [slash]] → chdirs nested before = some s' →
          GetcwdRight nested s') ∧
        ∀ c : Call, c.Fits → c.Follows nested root) := by
  have hrun : chdirs nested [[slash, 100], [slash]] = some ⟨[slash], some root⟩ := rfl
  have h := chdirs_right_iff nested rfl _ _ hrun
  refine ⟨hrun, h.1.mpr ?_, (h.2 root rfl).mpr rfl⟩
  intro path hp
  rcases mem_pair.mp hp with rfl | rfl
  · exact ⟨rfl, 1, rfl, rfl⟩
  · exact ⟨rfl, root, rfl, rfl⟩

/-- After `chdir("/d")` the path `d` still is `/d`, not `/d/d`; after `chdir("d")` twice, which
succeeds, `getcwd` returns `d`. -/
theorem chdir_then_relative :
    (chdirs nested [[slash, 100]] = some ⟨[slash, 100], some 1⟩ ∧
        (Lookup.node [100]).find nested = some (some 1) ∧
        (Lookup.node [100]).findAt nested 1 = some (some 2)) ∧
      chdirs nested [[100], [100]] = some ⟨[100], some 2⟩ ∧
        ¬ GetcwdRight nested ⟨[100], some 2⟩ := by
  refine ⟨⟨rfl, rfl, rfl⟩, rfl, ?_⟩
  rintro ⟨dir, path, -, hget, habs, -⟩
  cases hget
  exact absurd habs (by decide)

end Runs

end Elitra.Cwd
