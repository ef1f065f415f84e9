import Elitra.Syscalls

namespace Elitra.Environ
open Function List Option
open Syscalls (isUserRange)

abbrev Byte := BitVec 8

/-- A string of fewer than `n` bytes. -/
structure Str (n : ℕ) where
  bytes : List Byte
  short : bytes.length < n
  noNul : 0 ∉ bytes
  deriving DecidableEq

abbrev Name := Str 64
abbrev Value := Str 256

/-- `env_keys` and `env_vals` up to `env_count`; a value without memory is a null pointer. -/
abbrev Vars := List (Name × Option Value)

def error : ℕ := 0xFFFFFFFF

/-- The loop that compares a stored name with the one in the buffer, for a number of bytes. -/
def sameName : ℕ → List Byte → List Byte → Bool
  | 0, _, _ => true
  | j + 1, a, b =>
    if a.headD 0 ≠ b.headD 0 then false
    else if a.headD 0 = 0 then true
    else sameName j a.tail b.tail

/-- The loop of `setenv`: the value of the first variable of the name is replaced. -/
def replace (name : Name) (value : Option Value) : Vars → Option Vars
  | [] => none
  | kv :: rest =>
    if sameName 64 kv.1.bytes name.bytes then some ((kv.1, value) :: rest)
    else (replace name value rest).map (kv :: ·)

/-- The arguments of `setenv` with the addresses they are read from, and whether there is memory for
a copy of each. -/
structure SetArgs where
  name : Name
  value : Value
  nameAddr : ℕ
  valueAddr : ℕ
  nameMemory : Bool
  valueMemory : Bool

def SetArgs.readable (a : SetArgs) : Bool := isUserRange a.nameAddr 64 && isUserRange a.valueAddr 256

def sysSetenv (vars : Vars) (a : SetArgs) : Vars × ℕ :=
  if !a.readable then (vars, error)
  else
    match replace a.name (if a.valueMemory then some a.value else none) vars with
    | some vars' => (vars', 0)
    | none =>
      if vars.length < 32 then
        if a.nameMemory && a.valueMemory then (vars ++ [(a.name, some a.value)], 0)
        else (vars, error)
      else (vars, 0)

/-- The arguments of `getenv`, with the memory of the task at the call. -/
structure GetArgs where
  name : Name
  nameAddr : ℕ
  buf : ℕ
  size : ℕ
  mem : Mem

def GetArgs.valid (a : GetArgs) : Bool :=
  isUserRange a.nameAddr 64 && a.buf != 0 && a.size != 0 && isUserRange a.buf a.size

/-- The copy loop of `getenv`: each byte of the buffer is read and written back. -/
def copyBack (mem : Mem) (buf len : ℕ) : Mem :=
  (List.range len).foldl (fun m j => update m (buf + j) (m (buf + j))) mem

def sysGetenv (vars : Vars) (a : GetArgs) : Mem × ℕ :=
  if !a.valid then (a.mem, error)
  else
    match vars.find? fun kv => sameName 64 kv.1.bytes a.name.bytes with
    | none => (a.mem, error)
    | some (_, none) => (update a.mem a.buf 0, 0)
    | some (_, some value) =>
      let copyLen := min value.bytes.length (a.size - 1)
      (update (copyBack a.mem a.buf copyLen) (a.buf + copyLen) 0, copyLen)

/-- The values of the last `setenv` of each name that returned 0. -/
abbrev Spec := Name → Option Value

def HoldsAt (mem : Mem) (buf : ℕ) (w : List Byte) : Prop := ∀ i ≤ w.length, mem (buf + i) = w.getD i 0

inductive Call where
  | setenv (a : SetArgs)
  | getenv (a : GetArgs)

def lookup (vars : Vars) (name : Name) : Option (Option Value) :=
  (vars.find? fun kv => kv.1 = name).map (·.2)

def Call.next (vars : Vars) : Call → Vars
  | setenv a => (sysSetenv vars a).1
  | getenv _ => vars

def Call.specNext (vars : Vars) (spec : Spec) : Call → Spec
  | setenv a =>
    if (sysSetenv vars a).2 = 0 then update spec a.name (some a.value) else spec
  | getenv _ => spec

/-- A `setenv` has stored its pair or returns an error; a `getenv` with a good buffer writes the last
value that was set, cut to the buffer, and returns the length, or an error if there is none. -/
def Call.Right (vars : Vars) (spec : Spec) : Call → Prop
  | setenv a => (sysSetenv vars a).2 = error ∨
      ((sysSetenv vars a).2 = 0 ∧ lookup (sysSetenv vars a).1 a.name = some (some a.value))
  | getenv a => a.valid = true →
      (spec a.name = none → (sysGetenv vars a).2 = error) ∧
      ∀ value, spec a.name = some value →
        HoldsAt (sysGetenv vars a).1 a.buf (value.bytes.take (a.size - 1)) ∧
          (sysGetenv vars a).2 = (value.bytes.take (a.size - 1)).length

/-- What `getenv` should write is already in its buffer; `setenv` finds memory for the new value of a
name it has, and room for a name it has not. -/
def Call.Lucky (vars : Vars) : Call → Prop
  | setenv a => a.readable = true →
      (lookup vars a.name ≠ none → a.valueMemory = true) ∧
        (lookup vars a.name = none → vars.length < 32)
  | getenv a => a.valid = true → ∀ value, lookup vars a.name = some (some value) →
      ∀ i < (value.bytes.take (a.size - 1)).length,
        a.mem (a.buf + i) = (value.bytes.take (a.size - 1)).getD i 0

def AllRight : Vars → Spec → List Call → Prop
  | _, _, [] => True
  | vars, spec, c :: calls => c.Right vars spec ∧ AllRight (c.next vars) (c.specNext vars spec) calls

def AllLucky : Vars → List Call → Prop
  | _, [] => True
  | vars, c :: calls => c.Lucky vars ∧ AllLucky (c.next vars) calls

lemma sameName_iff {n : ℕ} {a b : List Byte} (ha : a.length < n) (hb : b.length < n)
    (hna : 0 ∉ a) (hnb : 0 ∉ b) : sameName n a b = true ↔ a = b := by
  induction n generalizing a b with
  | zero => omega
  | succ n ih =>
    have hh : ∀ {x : Byte} {l : List Byte}, 0 ∉ x :: l → x ≠ 0 :=
      fun hl heq => hl (heq ▸ mem_cons_self ..)
    rw [sameName]
    cases a with
    | nil =>
      cases b with
      | nil => exact iff_of_true rfl rfl
      | cons y b =>
        rw [headD_nil, headD_cons, if_pos (hh hnb).symm]
        exact iff_of_false (by decide) (by simp)
    | cons x a =>
      cases b with
      | nil =>
        rw [headD_nil, headD_cons, if_pos (hh hna)]
        exact iff_of_false (by decide) (by simp)
      | cons y b =>
        rw [headD_cons, headD_cons, tail_cons, tail_cons, if_neg (hh hna)]
        by_cases hxy : x = y
        · rw [if_neg (not_not.mpr hxy), hxy, cons_inj_right]
          exact ih (Nat.lt_of_succ_lt_succ ha) (Nat.lt_of_succ_lt_succ hb)
            (fun h => hna (mem_cons_of_mem _ h)) fun h => hnb (mem_cons_of_mem _ h)
        rw [if_pos hxy]
        exact iff_of_false (by decide) fun h => hxy (cons.inj h).1

lemma sameName_eq (a b : Name) : sameName 64 a.bytes b.bytes = decide (a = b) := by
  rw [Bool.eq_iff_iff, sameName_iff a.short b.short a.noNul b.noNul, decide_eq_true_iff]
  constructor
  · intro h
    cases a
    cases b
    cases h
    rfl
  · exact fun h => congrArg Str.bytes h

section Lookup

variable {vars vars' : Vars} {name n : Name} {value : Option Value}

lemma lookup_cons (kv : Name × Option Value) (vars : Vars) (name : Name) :
    lookup (kv :: vars) name = if kv.1 = name then some kv.2 else lookup vars name := by
  unfold lookup
  by_cases h : kv.1 = name
  · rw [if_pos h, find?_cons_of_pos (by simpa using h)]
    rfl
  · rw [if_neg h, find?_cons_of_neg (by simpa using h)]

lemma lookup_append (vars : Vars) (kv : Name × Option Value) (name : Name)
    (h : lookup vars kv.1 = none) :
    lookup (vars ++ [kv]) name = if kv.1 = name then some kv.2 else lookup vars name := by
  induction vars with
  | nil => exact lookup_cons kv [] name
  | cons kv' vars ih =>
    rw [lookup_cons] at h
    split at h
    · cases h
    rename_i hne
    rw [cons_append, lookup_cons, lookup_cons, ih h]
    by_cases hn : kv.1 = name
    · rw [if_pos hn, if_pos hn, if_neg fun heq => hne (heq.trans hn.symm)]
    · rw [if_neg hn, if_neg hn]

lemma replace_cons (kv : Name × Option Value) (vars : Vars) :
    replace name value (kv :: vars) =
      if kv.1 = name then some ((kv.1, value) :: vars)
      else (replace name value vars).map (kv :: ·) := by
  rw [replace, sameName_eq]
  by_cases h : kv.1 = name
  · rw [if_pos h, if_pos (decide_eq_true h)]
  · rw [if_neg h, if_neg (by simpa using h)]

lemma replace_none_iff : replace name value vars = none ↔ lookup vars name = none := by
  induction vars with
  | nil => exact iff_of_true rfl rfl
  | cons kv vars ih =>
    rw [replace_cons, lookup_cons]
    by_cases h : kv.1 = name
    · rw [if_pos h, if_pos h]
      simp
    · rw [if_neg h, if_neg h, map_eq_none_iff, ih]

lemma lookup_replace (h : replace name value vars = some vars') :
    lookup vars' n = if name = n then some value else lookup vars n := by
  induction vars generalizing vars' with
  | nil => cases h
  | cons kv vars ih =>
    rw [replace_cons] at h
    split at h
    · rename_i hkv
      cases h
      rw [lookup_cons, lookup_cons, hkv]
      dsimp only
      by_cases hn : name = n
      · rw [if_pos hn, if_pos hn]
      · rw [if_neg hn, if_neg hn, if_neg hn]
    rename_i hkv
    obtain ⟨rest, hr, rfl⟩ := map_eq_some_iff.mp h
    rw [lookup_cons, lookup_cons, ih hr]
    by_cases hn : name = n
    · rw [if_pos hn, if_pos hn, if_neg fun heq => hkv (heq.trans hn.symm)]
    · rw [if_neg hn, if_neg hn]

end Lookup

section Calls

variable {vars : Vars} {spec : Spec}

/-- The variables hold exactly what was set, and no null value. -/
def Agree (vars : Vars) (spec : Spec) : Prop := ∀ name, lookup vars name = (spec name).map some

variable {a : SetArgs}

lemma sysSetenv_of_not_readable (h : a.readable = false) :
    sysSetenv vars a = (vars, error) := by
  rw [sysSetenv, h]
  rfl

lemma sysSetenv_known (h : a.readable = true) (hk : lookup vars a.name ≠ none) :
    (sysSetenv vars a).2 = 0 ∧ ∀ n, lookup (sysSetenv vars a).1 n =
      if a.name = n then some (if a.valueMemory then some a.value else none) else lookup vars n := by
  obtain ⟨vars', hr⟩ := ne_none_iff_exists'.mp (mt replace_none_iff.mp hk)
  rw [sysSetenv, h, hr]
  exact ⟨rfl, fun n => lookup_replace hr⟩

lemma sysSetenv_new (h : a.readable = true) (hnew : lookup vars a.name = none) :
    sysSetenv vars a =
      if vars.length < 32 then
        if a.nameMemory && a.valueMemory then (vars ++ [(a.name, some a.value)], 0)
        else (vars, error)
      else (vars, 0) := by
  rw [sysSetenv, h, replace_none_iff.mpr hnew]
  rfl

lemma setenv_right_iff (spec : Spec) (a : SetArgs) :
    (Call.setenv a).Right vars spec ↔ (Call.setenv a).Lucky vars := by
  cases hr : a.readable with
  | false =>
    refine iff_of_true (.inl ?_) fun h => absurd (hr.symm.trans h) (by decide)
    rw [sysSetenv_of_not_readable hr]
  | true =>
    by_cases hnew : lookup vars a.name = none
    · have hl : (Call.setenv a).Lucky vars ↔ vars.length < 32 :=
        ⟨fun h => (h hr).2 hnew, fun h _ => ⟨fun hne => absurd hnew hne, fun _ => h⟩⟩
      rw [hl, Call.Right, sysSetenv_new hr hnew]
      by_cases hro : vars.length < 32
      · rw [if_pos hro]
        refine iff_of_true ?_ hro
        split
        · refine .inr ⟨rfl, ?_⟩
          rw [lookup_append _ _ _ hnew, if_pos rfl]
        · exact .inl rfl
      rw [if_neg hro]
      refine iff_of_false ?_ hro
      rintro (herr | ⟨-, hs⟩)
      · cases herr
      rw [hnew] at hs
      cases hs
    obtain ⟨hret, hlo⟩ := sysSetenv_known hr hnew
    have hl : (Call.setenv a).Lucky vars ↔ a.valueMemory = true :=
      ⟨fun h => (h hr).1 hnew, fun h _ => ⟨fun _ => h, fun hn => absurd hn hnew⟩⟩
    rw [hl, Call.Right, hret, hlo, if_pos rfl]
    cases a.valueMemory with
    | true => exact iff_of_true (.inr ⟨rfl, rfl⟩) rfl
    | false =>
      refine iff_of_false ?_ (by decide)
      rintro (herr | ⟨-, hs⟩)
      · cases herr
      · cases hs

lemma copyBack_eq (mem : Mem) (buf len : ℕ) : copyBack mem buf len = mem := by
  unfold copyBack
  induction len with
  | zero => rfl
  | succ len ih =>
    rw [range_succ, foldl_append, ih]
    exact update_eq_self ..

lemma holdsAt_update (mem : Mem) (buf : ℕ) (w : List Byte) :
    HoldsAt (update mem (buf + w.length) 0) buf w ↔
      ∀ i < w.length, mem (buf + i) = w.getD i 0 := by
  constructor
  · intro h i hi
    have hw := h i (Nat.le_of_lt hi)
    rwa [update_of_ne (by omega)] at hw
  intro h i hi
  rcases Nat.lt_or_eq_of_le hi with hlt | rfl
  · rw [update_of_ne (by omega)]
    exact h i hlt
  rw [update_self]
  simp

lemma find_name (vars : Vars) (name : Name) :
    (vars.find? fun kv => sameName 64 kv.1.bytes name.bytes) = vars.find? fun kv => kv.1 = name := by
  congr 1
  funext kv
  exact sameName_eq kv.1 name

lemma sysGetenv_unknown {a : GetArgs} (h : lookup vars a.name = none) :
    (sysGetenv vars a).2 = error := by
  have hf : (vars.find? fun kv => kv.1 = a.name) = none := map_eq_none_iff.mp h
  rw [sysGetenv, find_name, hf]
  split <;> rfl

lemma sysGetenv_known {a : GetArgs} {value : Value} (hv : a.valid = true)
    (h : lookup vars a.name = some (some value)) :
    sysGetenv vars a =
      (update a.mem (a.buf + (value.bytes.take (a.size - 1)).length) 0,
        (value.bytes.take (a.size - 1)).length) := by
  obtain ⟨kv, hf, hva⟩ := map_eq_some_iff.mp h
  obtain ⟨key, v⟩ := kv
  cases hva
  rw [sysGetenv, hv, find_name, hf, length_take, Nat.min_comm]
  dsimp only [Bool.not_true, if_false]
  rw [copyBack_eq]
  rfl

lemma getenv_right_iff (ha : Agree vars spec) (a : GetArgs) :
    (Call.getenv a).Right vars spec ↔ (Call.getenv a).Lucky vars := by
  unfold Call.Right Call.Lucky
  refine forall_congr' fun hva => ?_
  have hl := ha a.name
  cases hs : spec a.name with
  | none =>
    rw [hs] at hl
    refine iff_of_true ⟨fun _ => sysGetenv_unknown hl, fun value hv => ?_⟩ fun value hv => ?_
    · cases hv
    rw [hl] at hv
    cases hv
  | some value =>
    rw [hs] at hl
    rw [sysGetenv_known hva hl, hl]
    constructor
    · intro hr value' hv'
      cases hv'
      exact (holdsAt_update ..).mp (hr.2 value rfl).1
    intro hlu
    refine ⟨fun hn => (nomatch hn), fun value' hv' => ?_⟩
    cases hv'
    exact ⟨(holdsAt_update ..).mpr (hlu value rfl), rfl⟩

/-- One call: it is right exactly if it is lucky, as long as the calls before it were. -/
lemma Call.right_iff (ha : Agree vars spec) (c : Call) : c.Right vars spec ↔ c.Lucky vars := by
  cases c with
  | setenv a => exact setenv_right_iff spec a
  | getenv a => exact getenv_right_iff ha a

lemma Agree.step (ha : Agree vars spec) {c : Call} (hl : c.Lucky vars) :
    Agree (c.next vars) (c.specNext vars spec) := by
  cases c with
  | getenv a => exact ha
  | setenv a =>
    intro name
    rw [Call.next, Call.specNext]
    have hset : ∀ n, update spec a.name (some a.value) n =
        if a.name = n then some a.value else spec n := by
      intro n
      by_cases hn : a.name = n
      · rw [if_pos hn, ← hn, update_self]
      · rw [if_neg hn, update_of_ne (Ne.symm hn)]
    cases hr : a.readable with
    | false =>
      rw [sysSetenv_of_not_readable hr]
      exact ha name
    | true =>
      by_cases hnew : lookup vars a.name = none
      · rw [sysSetenv_new hr hnew, if_pos ((hl hr).2 hnew)]
        split
        · rw [if_pos rfl, hset, lookup_append _ _ _ hnew, ha name]
          split <;> rfl
        · exact ha name
      obtain ⟨hret, hlo⟩ := sysSetenv_known hr hnew
      rw [hret, if_pos rfl, hlo, hset, (hl hr).1 hnew, ha name]
      split <;> rfl

lemma allRight_iff (ha : Agree vars spec) (calls : List Call) :
    AllRight vars spec calls ↔ AllLucky vars calls := by
  induction calls generalizing vars spec with
  | nil => exact Iff.rfl
  | cons c calls ih =>
    rw [AllRight, AllLucky, c.right_iff ha]
    exact and_congr_right fun hl => ih (ha.step hl)

/-- A run of calls from the empty environment behaves like a map exactly if every `getenv` finds the
bytes it should write in its buffer, no replaced value lacks memory and no name comes as the 33rd. -/
theorem environment_right_iff (calls : List Call) :
    AllRight [] (fun _ => none) calls ↔ AllLucky [] calls :=
  allRight_iff (fun _ => rfl) calls

def nameA : Name := ⟨[65], by decide, by decide⟩
def valueX : Value := ⟨[120], by decide, by decide⟩

/-- `setenv("A", "x")`. -/
def setA (memory : Bool) : SetArgs := ⟨nameA, valueX, 0x2000, 0x3000, memory, memory⟩

def getA : GetArgs := ⟨nameA, 0x2000, 0x4000, 16, fun _ => 0⟩

/-- `getenv` returns 1 and leaves the zeros; a `setenv` without memory or without room returns 0. -/
theorem getenv_copies_nothing :
    ¬ AllRight [] (fun _ => none) [.setenv (setA true), .getenv getA] ∧
      sysSetenv [] (setA true) = ([(nameA, some valueX)], 0) ∧
      (sysGetenv [(nameA, some valueX)] getA).2 = 1 ∧
      (sysGetenv [(nameA, some valueX)] getA).1 0x4000 = 0 ∧
      sysSetenv [(nameA, some valueX)] (setA false) = ([(nameA, none)], 0) ∧
      sysSetenv (List.replicate 32 (⟨[66], by decide, by decide⟩, none)) (setA true) =
        (List.replicate 32 (⟨[66], by decide, by decide⟩, none), 0) := by
  refine ⟨fun hr => ?_, rfl, rfl, rfl, rfl, rfl⟩
  have hw := (hr.2.1 rfl).2 valueX rfl
  exact absurd (hw.1 0 (Nat.zero_le _)) (by decide)

end Calls

end Elitra.Environ
