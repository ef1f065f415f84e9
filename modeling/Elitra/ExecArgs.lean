import Elitra.Vma

namespace Elitra.Exec
open Function List Option Vmm

/-- An address space as the kernel's stores see it: the bytes of its mapped pages, and the pages
that the fault handler maps, cleared, when they are touched. -/
structure View where
  byte : ℕ → Option (BitVec 8)
  backed : ℕ → Bool

namespace View

/-- An access to an address. `none`: the fault is not resolved. -/
def touch (s : View) (v : ℕ) : Option View :=
  if (s.byte v).isSome then some s
  else if s.backed (v / 4096) then
    some { s with byte := fun x => if x / 4096 = v / 4096 then (s.byte x).or (some 0) else s.byte x }
  else none

def store (s : View) (v : ℕ) (b : BitVec 8) : Option View :=
  (s.touch v).map fun s => { s with byte := update s.byte v (some b) }

def write (s : View) (v : ℕ) : List (BitVec 8) → Option View
  | [] => some s
  | b :: bs => (s.store v b).bind fun s => s.write (v + 1) bs

/-- `memcpy` inside one address space. -/
def copy (s : View) (dst src : ℕ) : ℕ → Option View
  | 0 => some s
  | n + 1 =>
    (s.touch src).bind fun s => (s.store dst ((s.byte src).getD 0)).bind fun s =>
      s.copy (dst + 1) (src + 1) n

end View

def wordBytes (w : ℕ) : List (BitVec 8) := (List.range 8).map fun k => BitVec.ofNat 8 (w / 256 ^ k)

/-- An argument: where the caller has it, and the bytes before its NUL. -/
structure Arg where
  ptr : ℕ
  text : List (BitVec 8)
  deriving DecidableEq

def ustackSize : ℕ := ustackPages * pageSize

def untilNull : List (Option Arg) → List Arg
  | some a :: rest => a :: untilNull rest
  | _ => []

/-- `argv_buf` with `argv_lens`, as far as `real_argc` goes; `argc` is the length of the array. -/
def argvBuf (argv : List (Option Arg)) : List Arg := if argv.length < 16 then untilNull argv else []

def strSize (args : List Arg) : ℕ := (args.map fun a => a.text.length + 1).sum

/-- The loop that stores the array from `arr` on and the strings from `str` on, with the entry that
ends the array. -/
def copyArgs (arr str : ℕ) : List Arg → View → Option View
  | [], s => s.write arr (wordBytes 0)
  | a :: rest, s =>
    (s.write arr (wordBytes str)).bind fun s => (s.copy str a.ptr a.text.length).bind fun s =>
      (s.store (str + a.text.length) 0).bind fun s =>
        copyArgs (arr + 8) (str + a.text.length + 1) rest s

/-- The part of `krust_sched_create_elf` and `krust_sched_execve` that puts the arguments on the
user stack, with `argv_ptr`. -/
def placeArgs (s : View) (args : List Arg) : Option (View × ℕ) :=
  if args.length = 0 then some (s, 0)
  else if strSize args + (args.length + 1) * 8 ≤ ustackSize - 16 then
    (copyArgs (ustackBase + strSize args) ustackBase args s).map fun s =>
      (s, ustackBase + strSize args)
  else some (s, 0)

/-- The registers a program starts with, as far as arguments and stack go. -/
structure Entry where
  rax : ℕ
  rbx : ℕ
  rsp : ℕ
  deriving DecidableEq, Repr

/-- `krust_sched_create_elf` from the copy of the arguments to `build_user_frame`. -/
def createElfEntry (s : View) (argv : List (Option Arg)) : Option (Entry × View) :=
  (placeArgs s (argvBuf argv)).map fun r =>
    (⟨(argvBuf argv).length, r.2, ustackVaddr + pageSize⟩, r.1)

/-- `krust_sched_execve` from the copy of the arguments on. The frame it builds at the top of the
kernel stack is the caller's own where the system call came in at the top (`onTop`); of that frame
`rax` is then set to 0. -/
def execveEntry (s : View) (argv : List (Option Arg)) (onTop : Bool) (rbx : ℕ) :
    Option (Entry × View) :=
  (placeArgs s (argvBuf argv)).map fun r =>
    (⟨0, if onTop then r.2 else rbx, ustackVaddr + pageSize⟩, r.1)

/-- The bytes stand at the address. -/
def Holds (s : View) (a : ℕ) (bs : List (BitVec 8)) : Prop := ∀ k < bs.length, s.byte (a + k) = bs[k]?

/-- The array at `arr` has a pointer for each argument, to a copy of its text with a NUL, and then a
null pointer; `ptrs` are these pointers. -/
structure Listed (s : View) (arr : ℕ) (args : List Arg) (ptrs : List ℕ) : Prop where
  length : ptrs.length = args.length
  pointer : ∀ (i p : ℕ), ptrs[i]? = some p → Holds s (arr + 8 * i) (wordBytes p)
  text : ∀ (i p : ℕ) (a : Arg), ptrs[i]? = some p → args[i]? = some a → Holds s p (a.text ++ [0])
  last : Holds s (arr + 8 * args.length) (wordBytes 0)

def Between (low high : ℕ) (args : List Arg) (ptrs : List ℕ) : Prop :=
  ∀ (i p : ℕ) (a : Arg), ptrs[i]? = some p → args[i]? = some a →
    low ≤ p ∧ p + a.text.length + 1 ≤ high

/-- What a program is to find: its argument count, the array with the strings, and all of it from
`low` on and below the stack pointer. -/
structure Received (low : ℕ) (e : Entry) (s : View) (args : List Arg) (ptrs : List ℕ) : Prop where
  argc : e.rax = args.length
  listed : Listed s e.rbx args ptrs
  strings : Between low e.rsp args ptrs
  array : low ≤ e.rbx ∧ e.rbx + 8 * (args.length + 1) ≤ e.rsp

/-- The program starts as it should, its arguments above the guard page. -/
def Delivered (result : Option (Entry × View)) (args : List Arg) : Prop :=
  ∃ e s ptrs, result = some (e, s) ∧ Received (ustackBase + pageSize) e s args ptrs

variable {v : ℕ}

section Memory

variable {s s' : View}

/-- The bytes outside the window stay. -/
def Keeps (s s' : View) (W : ℕ → Prop) : Prop :=
  ∀ x b, ¬W x → s.byte x = some b → s'.byte x = some b

variable {W W₁ W₂ : ℕ → Prop}

lemma Keeps.refl (s : View) (W : ℕ → Prop) : Keeps s s W := fun _ _ _ h => h

lemma Keeps.trans {s1 : View} (h1 : Keeps s s1 W₁) (h2 : Keeps s1 s' W₂)
    (hin1 : ∀ x, W₁ x → W x) (hin2 : ∀ x, W₂ x → W x) : Keeps s s' W :=
  fun x b hx hb => h2 x b (mt (hin2 x) hx) (h1 x b (mt (hin1 x) hx) hb)

variable {bs : List (BitVec 8)}

lemma Holds.mono {a : ℕ} (h : Holds s a bs) (hke : Keeps s s' W)
    (hout : ∀ k < bs.length, ¬W (a + k)) : Holds s' a bs := by
  intro k hk
  have hb := h k hk
  rw [getElem?_eq_getElem hk] at hb ⊢
  exact hke _ _ (hout k hk) hb

lemma touch_keeps (h : s.touch v = some s') : Keeps s s' fun _ => False := by
  unfold View.touch at h
  split_ifs at h
  · exact some.inj h ▸ Keeps.refl s _
  intro x b _ hb
  rw [← some.inj h]
  dsimp only
  split_ifs
  · rw [hb]
    rfl
  · exact hb

variable {b : BitVec 8}

lemma store_keeps (h : s.store v b = some s') : Keeps s s' (· = v) ∧ s'.byte v = some b := by
  unfold View.store at h
  rw [map_eq_some_iff] at h
  obtain ⟨s1, ht, rfl⟩ := h
  refine ⟨fun x c hx hc => ?_, update_self ..⟩
  dsimp only
  rw [update_of_ne hx]
  exact touch_keeps ht x c id hc

lemma Holds.cons (hb : s.byte v = some b) (hbs : Holds s (v + 1) bs) : Holds s v (b :: bs) := by
  intro k hk
  cases k with
  | zero => exact hb
  | succ k =>
    rw [show v + (k + 1) = v + 1 + k by omega, getElem?_cons_succ]
    exact hbs k (Nat.lt_of_succ_lt_succ hk)

lemma write_keeps (h : s.write v bs = some s') :
    Keeps s s' (fun x => v ≤ x ∧ x < v + bs.length) ∧ Holds s' v bs := by
  induction bs generalizing s v with
  | nil =>
    obtain rfl := some.inj h
    exact ⟨Keeps.refl s _, fun k hk => absurd hk (Nat.not_lt_zero k)⟩
  | cons b bs ih =>
    rw [View.write, bind_eq_some_iff] at h
    obtain ⟨s1, hs, hw⟩ := h
    obtain ⟨hk1, hb⟩ := store_keeps hs
    obtain ⟨hk2, hbs⟩ := ih hw
    rw [length_cons]
    exact ⟨hk1.trans hk2 (by omega) (by omega), Holds.cons (hk2 v b (by omega) hb) hbs⟩

lemma copy_keeps {dst src n : ℕ} (h : s.copy dst src n = some s') :
    Keeps s s' fun x => dst ≤ x ∧ x < dst + n := by
  induction n generalizing s dst src with
  | zero => exact some.inj h ▸ Keeps.refl s _
  | succ n ih =>
    rw [View.copy, bind_eq_some_iff] at h
    obtain ⟨s1, ht, h⟩ := h
    rw [bind_eq_some_iff] at h
    obtain ⟨s2, hs, hc⟩ := h
    have hk : Keeps s s2 fun x => dst ≤ x ∧ x < dst + (n + 1) :=
      (touch_keeps ht).trans (store_keeps hs).1 (fun _ => False.elim) (by omega)
    exact hk.trans (ih hc) (fun _ hx => hx) (by omega)

end Memory

lemma wordBytes_length (w : ℕ) : (wordBytes w).length = 8 := by
  rw [wordBytes, length_map, length_range]

lemma wordBytes_inj {p q : ℕ} (hp : p < 2 ^ 32) (hq : q < 2 ^ 32)
    (h : wordBytes p = wordBytes q) : p = q := by
  have hbyte (k : ℕ) (hk : k < 8) : p / 256 ^ k % 256 = q / 256 ^ k % 256 := by
    have hget := congrArg (fun l => (l.getD k 0).toNat) h
    simpa [wordBytes, hk] using hget
  have h0 := hbyte 0 (by omega)
  have h1 := hbyte 1 (by omega)
  have h2 := hbyte 2 (by omega)
  have h3 := hbyte 3 (by omega)
  norm_num at h0 h1 h2 h3 hp hq
  omega

lemma strSize_cons (a : Arg) (rest : List Arg) :
    strSize (a :: rest) = a.text.length + 1 + strSize rest := by
  rw [strSize, map_cons, sum_cons, strSize]

section Copies

variable {args : List Arg} {s s' : View} {arr str : ℕ}

/-- The loop writes strings and array, the strings below the array. -/
lemma copyArgs_keeps (h : copyArgs arr str args s = some s') (hstr : str + strSize args ≤ arr) :
    Keeps s s' fun x => arr ≤ x ∨ x < str + strSize args := by
  induction args generalizing s arr str with
  | nil => exact (Keeps.refl s _).trans (write_keeps h).1 (fun _ hx => hx) fun _ hx => .inl hx.1
  | cons a rest ih =>
    rw [strSize_cons] at hstr ⊢
    rw [copyArgs, bind_eq_some_iff] at h
    obtain ⟨s1, hw, h⟩ := h
    rw [bind_eq_some_iff] at h
    obtain ⟨s2, hc, h⟩ := h
    rw [bind_eq_some_iff] at h
    obtain ⟨s3, hs, hrest⟩ := h
    have hk2 : Keeps s s2 fun x => arr ≤ x ∨ x < str + (a.text.length + 1 + strSize rest) :=
      (write_keeps hw).1.trans (copy_keeps hc) (by omega) (by omega)
    have hk3 := hk2.trans (store_keeps hs).1 (fun _ hx => hx) (by omega)
    exact hk3.trans (ih hrest (by omega)) (fun _ hx => hx) (by omega)

/-- The first entry of the array points to where the strings begin. -/
lemma copyArgs_first {a : Arg} (h : copyArgs arr str (a :: args) s = some s')
    (hstr : str + strSize (a :: args) ≤ arr) : Holds s' arr (wordBytes str) := by
  rw [strSize_cons] at hstr
  rw [copyArgs, bind_eq_some_iff] at h
  obtain ⟨s1, hw, h⟩ := h
  rw [bind_eq_some_iff] at h
  obtain ⟨s2, hc, h⟩ := h
  rw [bind_eq_some_iff] at h
  obtain ⟨s3, hs, hrest⟩ := h
  have hword := wordBytes_length str
  have h2 := (write_keeps hw).2.mono (copy_keeps hc) (by omega)
  have h3 := h2.mono (store_keeps hs).1 (by omega)
  exact h3.mono (copyArgs_keeps hrest (by omega)) (by omega)

lemma Holds.unique {bs bs' : List (BitVec 8)} (h : Holds s v bs) (h' : Holds s v bs')
    (hlen : bs.length = bs'.length) : bs = bs' := by
  refine ext_getElem? fun k => ?_
  rcases Nat.lt_or_ge k bs.length with hk | hk
  · rw [← h k hk, ← h' k (hlen ▸ hk)]
  · rw [getElem?_eq_none hk, getElem?_eq_none (hlen ▸ hk)]

/-- Arguments that were placed begin in the guard page. -/
lemma placeArgs_not_received {e : Entry} {ptrs : List ℕ} {p : ℕ} (hne : args ≠ [])
    (h : placeArgs s args = some (s', p)) (hrsp : e.rsp = ustackVaddr + pageSize)
    (hrbx : e.rbx = p) : ¬ Received (ustackBase + pageSize) e s' args ptrs := by
  intro hr
  have htop : ustackVaddr + pageSize < 2 ^ 32 := by decide
  have hbase : ustackBase < 2 ^ 32 := by decide
  have hpage : 0 < pageSize := by decide
  have hpos : ¬args.length = 0 := fun h => hne (length_eq_zero_iff.mp h)
  have harr := hr.array.1
  rw [placeArgs, if_neg hpos] at h
  split_ifs at h
  · rw [map_eq_some_iff] at h
    obtain ⟨s1, hc, hp⟩ := h
    obtain ⟨rfl, rfl⟩ := Prod.mk.inj hp
    obtain ⟨a, rest, rfl⟩ := exists_cons_of_ne_nil hne
    obtain ⟨q, qs, rfl⟩ := exists_cons_of_length_pos (by rw [hr.listed.length]; omega)
    have hfirst := hr.listed.pointer 0 q rfl
    rw [hrbx, Nat.mul_zero, Nat.add_zero] at hfirst
    have hq := hr.strings 0 q a rfl rfl
    have heq := wordBytes_inj (by omega) hbase
      (hfirst.unique (copyArgs_first hc le_rfl) (by simp only [wordBytes_length]))
    omega
  · obtain ⟨-, rfl⟩ := Prod.mk.inj (some.inj h)
    omega

end Copies

lemma untilNull_map (args : List Arg) : untilNull (args.map some) = args := by
  induction args with
  | nil => rfl
  | cons a rest ih => rw [map_cons, untilNull, ih]

lemma argvBuf_map (args : List Arg) :
    argvBuf (args.map some) = if args.length < 16 then args else [] := by
  rw [argvBuf, length_map, untilNull_map]

/-- No arguments are delivered as they should be. `krust_sched_create_elf` puts the first string at
the foot of the guard page and makes no array for none, for sixteen or for those that do not fit.
`krust_sched_execve` starts the program with the count 0, and with a null array if there are none;
the one exception is a caller whose own `rbx` the program finds. -/
theorem arguments_not_delivered (s : View) (args : List Arg) :
    ¬ Delivered (createElfEntry s (args.map some)) args ∧
      ∀ (onTop : Bool) (rbx : ℕ), args ≠ [] ∨ onTop = true →
        ¬ Delivered (execveEntry s (args.map some) onTop rbx) args := by
  have hbase : 0 < ustackBase + pageSize := by decide
  constructor
  · rintro ⟨e, s', ptrs, h, hr⟩
    rw [createElfEntry, map_eq_some_iff] at h
    obtain ⟨⟨s1, p⟩, hplace, he⟩ := h
    obtain ⟨rfl, rfl⟩ := Prod.mk.inj he
    rw [argvBuf_map] at hplace hr
    by_cases hne : args = []
    · subst hne
      obtain ⟨-, rfl⟩ := Prod.mk.inj (some.inj hplace)
      exact absurd hr.array.1 (by dsimp only; omega)
    split_ifs at hplace hr with hlen
    · exact placeArgs_not_received hne hplace rfl rfl hr
    · exact hne (length_eq_zero_iff.mp hr.argc.symm)
  · rintro onTop rbx hwhen ⟨e, s', ptrs, h, hr⟩
    rw [execveEntry, map_eq_some_iff] at h
    obtain ⟨⟨s1, p⟩, hplace, he⟩ := h
    obtain ⟨rfl, rfl⟩ := Prod.mk.inj he
    have hnil : args = [] := length_eq_zero_iff.mp hr.argc.symm
    subst hnil
    obtain ⟨-, rfl⟩ := Prod.mk.inj (some.inj hplace)
    have htop := hwhen.resolve_left fun h => h rfl
    have harr : ustackBase + pageSize ≤ if onTop then 0 else rbx := hr.array.1
    rw [if_pos htop] at harr
    omega

/-- A new stack: the pages above the lowest are mapped and clear; `low` is a page of the kernel that
both address spaces have. -/
def freshStack (low : ℕ → Option (BitVec 8)) (backed : ℕ → Bool) : View where
  byte v := if ustackBase + pageSize ≤ v ∧ v < ustackVaddr + pageSize then some 0 else low v
  backed := backed

/-- The page of the kernel that holds the text "a" at 0x1000. -/
def letterA (v : ℕ) : Option (BitVec 8) := if v = 0x1000 then some 97 else none

/-- The page is neither mapped nor given by the fault handler. -/
structure Guarded (s : View) (g : ℕ) : Prop where
  unmapped : ∀ v, v / 4096 = g → s.byte v = none
  unbacked : s.backed g = false

section Guard

variable {s s' : View} {g : ℕ}

lemma Guarded.touch (hs : Guarded s g) (h : s.touch v = some s') : Guarded s' g ∧ v / 4096 ≠ g := by
  unfold View.touch at h
  split_ifs at h with hm hb
  · refine ⟨some.inj h ▸ hs, fun hv => ?_⟩
    rw [hs.unmapped v hv] at hm
    exact Bool.false_ne_true hm
  have hv : v / 4096 ≠ g := by
    intro hv
    rw [hv, hs.unbacked] at hb
    exact Bool.false_ne_true hb
  rw [← some.inj h]
  refine ⟨⟨fun x hx => ?_, hs.unbacked⟩, hv⟩
  dsimp only
  rw [if_neg (by omega)]
  exact hs.unmapped x hx

lemma Guarded.store {b : BitVec 8} (hs : Guarded s g) (h : s.store v b = some s') :
    Guarded s' g ∧ v / 4096 ≠ g := by
  unfold View.store at h
  rw [map_eq_some_iff] at h
  obtain ⟨s1, ht, rfl⟩ := h
  obtain ⟨hs1, hv⟩ := hs.touch ht
  refine ⟨⟨fun x hx => ?_, hs1.unbacked⟩, hv⟩
  dsimp only
  rw [update_of_ne (by rintro rfl; exact hv hx)]
  exact hs1.unmapped x hx

lemma Guarded.write {bs : List (BitVec 8)} (hs : Guarded s g)
    (h : s.write v bs = some s') : Guarded s' g := by
  induction bs generalizing s v with
  | nil => exact some.inj h ▸ hs
  | cons b bs ih =>
    rw [View.write, bind_eq_some_iff] at h
    obtain ⟨s1, hst, hr⟩ := h
    exact ih (hs.store hst).1 hr

lemma Guarded.copy {dst src n : ℕ} (hs : Guarded s g) (hdst : dst / 4096 = g)
    (h : s.copy dst src (n + 1) = some s') : False := by
  rw [View.copy, bind_eq_some_iff] at h
  obtain ⟨s1, ht, h⟩ := h
  rw [bind_eq_some_iff] at h
  obtain ⟨s2, hst, -⟩ := h
  exact ((hs.touch ht).1.store hst).2 hdst

/-- With the lowest page of the stack left unmapped the copy of any arguments faults: that page is
where the first string goes. -/
lemma Guarded.placeArgs {args : List Arg} (hs : Guarded s (ustackBase / 4096)) (hne : args ≠ [])
    (hfit : strSize args + (args.length + 1) * 8 ≤ ustackSize - 16) :
    placeArgs s args = none := by
  have hpos : ¬args.length = 0 := fun h => hne (length_eq_zero_iff.mp h)
  rw [Exec.placeArgs, if_neg hpos, if_pos hfit, map_eq_none_iff, eq_none_iff_forall_ne_some]
  intro s' h
  cases args with
  | nil => exact hne rfl
  | cons a rest =>
    rw [copyArgs, bind_eq_some_iff] at h
    obtain ⟨s1, hw, h⟩ := h
    rw [bind_eq_some_iff] at h
    obtain ⟨s2, hc, h⟩ := h
    have hs1 := hs.write hw
    cases hlen : a.text.length with
    | zero =>
      -- an empty string: its NUL goes there
      rw [hlen, View.copy] at hc
      rw [hlen, bind_eq_some_iff] at h
      obtain ⟨s3, hst, -⟩ := h
      have hs2 : Guarded s2 (ustackBase / 4096) := some.inj hc ▸ hs1
      exact (hs2.store hst).2 rfl
    | succ n =>
      rw [hlen] at hc
      exact hs1.copy rfl hc

end Guard

lemma freshStack_guarded : Guarded (freshStack letterA fun _ => false) (ustackBase / 4096) := by
  refine ⟨fun v hv => ?_, rfl⟩
  have hb : ustackBase = 0xBFFF1 * 4096 := by decide
  have hp : pageSize = 4096 := rfl
  rw [freshStack]
  dsimp only
  rw [if_neg (by omega), letterA, if_neg (by omega)]

/-- The new stack as it is made, without its lowest page: one argument, and the copy faults. With
sixteen the count is 0, and `krust_sched_execve` sets it to 0 for one as well. -/
theorem create_elf_arguments_lost :
    createElfEntry (freshStack letterA fun _ => false) [some ⟨0x1000, [97]⟩] = none ∧
      execveEntry (freshStack letterA fun _ => false) [some ⟨0x1000, [97]⟩] true 0 = none ∧
      (createElfEntry (freshStack letterA fun _ => false)
        (List.replicate 16 (some ⟨0x1000, [97]⟩))).map Prod.fst =
          some ⟨0, 0, ustackVaddr + pageSize⟩ ∧
      ∀ (s : View) (argv : List (Option Arg)) (onTop : Bool) (rbx : ℕ) (r : Entry × View),
        execveEntry s argv onTop rbx = some r → r.1.rax = 0 := by
  have hpl : placeArgs (freshStack letterA fun _ => false) [⟨0x1000, [97]⟩] = none :=
    freshStack_guarded.placeArgs (cons_ne_nil _ _) (by decide)
  have hbuf : argvBuf [some ⟨0x1000, [97]⟩] = [⟨0x1000, [97]⟩] := by decide
  refine ⟨?_, ?_, ?_, fun s argv onTop rbx r hr => ?_⟩
  · rw [createElfEntry, hbuf, hpl, map_none]
  · rw [execveEntry, hbuf, hpl, map_none]
  · have hn : argvBuf (replicate 16 (some ⟨0x1000, [97]⟩)) = [] := by decide
    rw [createElfEntry, hn]
    rfl
  rw [execveEntry, map_eq_some_iff] at hr
  obtain ⟨p, -, hp⟩ := hr
  rw [← hp]

end Elitra.Exec
