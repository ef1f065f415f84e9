import Elitra.Linked
import Mathlib.Algebra.Ring.Nat
import Mathlib.Data.List.Perm.Basic
import Mathlib.Data.List.Range

namespace Elitra.Virtio
open Function LinkedList List

def queueSize : ℕ := 128
def descFNext : ℕ := 1
def descFWrite : ℕ := 2

structure VirtqDesc where
  addr : ℕ
  len : ℕ
  flags : ℕ
  next : ℕ

/-- A descriptor leaves the free list or goes back to it. -/
inductive Use where
  | alloc (i : ℕ)
  | free (i : ℕ)

/-- The device with its queue. `log` is a history variable: what `alloc_desc` and `free_desc` did,
the last call first. -/
structure VirtIOBlkDevice where
  queueReady : Bool
  desc : ℕ → VirtqDesc
  availIdx : ℕ
  availRing : ℕ → ℕ
  usedIdx : ℕ
  usedRing : ℕ → ℕ
  freeBitmap : ℕ → ℕ
  freeHead : ℕ
  numFree : ℕ
  lastUsed : ℕ
  log : List Use

/-- The device after `init`, which clears the rings and calls `init_free_list`. -/
def init : VirtIOBlkDevice where
  queueReady := true
  desc := fun _ => ⟨0, 0, 0, 0⟩
  availIdx := 0
  availRing := fun _ => 0
  usedIdx := 0
  usedRing := fun _ => 0
  freeBitmap := fun i => if i < queueSize - 1 then i + 1 else 0xFFFF
  freeHead := 0
  numFree := queueSize
  lastUsed := 0
  log := []

def allocDesc (d : VirtIOBlkDevice) : Option (ℕ × VirtIOBlkDevice) :=
  if d.numFree = 0 then none
  else
    let idx := d.freeHead
    some (idx, { d with
      freeHead := d.freeBitmap idx
      freeBitmap := update d.freeBitmap idx 0xFFFF
      numFree := d.numFree - 1
      log := .alloc idx :: d.log })

def freeDesc (d : VirtIOBlkDevice) (idx : ℕ) : VirtIOBlkDevice :=
  { d with
    freeBitmap := update d.freeBitmap idx d.freeHead
    freeHead := idx
    numFree := d.numFree + 1
    log := .free idx :: d.log }

def setDesc (d : VirtIOBlkDevice) (i : ℕ) (e : VirtqDesc) : VirtIOBlkDevice :=
  { d with desc := update d.desc i e }

/-- The inner loop of `submit_wait`; `none` if it takes more steps than `fuel`. -/
def freeChain : ℕ → VirtIOBlkDevice → ℕ → Option VirtIOBlkDevice
  | 0, _, _ => none
  | fuel + 1, d, cur =>
    let e := d.desc cur
    let d := freeDesc d cur
    if e.flags &&& descFNext = 0 then some d else freeChain fuel d e.next

/-- The outer loop of `submit_wait`, for `n` elements of the used ring. -/
def reclaim : ℕ → VirtIOBlkDevice → Option VirtIOBlkDevice
  | 0, d => some d
  | n + 1, d => do
    let d ← freeChain queueSize d (d.usedRing (d.lastUsed % queueSize) % 2 ^ 16)
    reclaim n { d with lastUsed := (d.lastUsed + 1) % 2 ^ 16 }

/-- How often `last_used` steps until it is `used_idx`. -/
def unread (d : VirtIOBlkDevice) : ℕ := (d.usedIdx + 2 ^ 16 - d.lastUsed) % 2 ^ 16

def publish (d : VirtIOBlkDevice) (head : ℕ) : VirtIOBlkDevice :=
  { d with
    availRing := update d.availRing (d.availIdx % queueSize) head
    availIdx := (d.availIdx + 1) % 2 ^ 16 }

def deviceReturn (d : VirtIOBlkDevice) (head : ℕ) : VirtIOBlkDevice :=
  { d with
    usedRing := update d.usedRing (d.usedIdx % queueSize) head
    usedIdx := (d.usedIdx + 1) % 2 ^ 16 }

/-- `submit_wait`: the device returns the heads `returned` before `used_idx` is read for the last
time, none of them if the wait timed out. -/
def submitWait (d : VirtIOBlkDevice) (head : ℕ) (returned : List ℕ) : Option VirtIOBlkDevice :=
  let d := returned.foldl deviceReturn (publish d head)
  reclaim (unread d) d

/-- What a request finds: the length of its buffer, the two frames (0 if there is none) and whether
the first could be mapped. -/
structure Request where
  len : ℕ
  frame : ℕ
  virtOk : Bool
  dataFrame : ℕ

/-- `read_sectors` and `write_sectors` up to `submit_wait`, with the head of the chain unless the
request failed. -/
def prepare (dataFlags : ℕ) (d : VirtIOBlkDevice) (r : Request) : VirtIOBlkDevice × Option ℕ :=
  if !d.queueReady then (d, none)
  else
    match allocDesc d with
    | none => (d, none)
    | some (head, d) =>
      if r.frame = 0 ∨ r.virtOk = false then (freeDesc d head, none)
      else
        let d := setDesc d head { d.desc head with addr := r.frame, len := 16, flags := descFNext }
        match allocDesc d with
        | none => (freeDesc d head, none)
        | some (data, d) =>
          if r.dataFrame = 0 then (freeDesc (freeDesc d data) head, none)
          else
            let d := setDesc d data ⟨r.dataFrame, r.len, dataFlags, 0⟩
            (setDesc d head { d.desc head with next := data }, some head)

def transferSectors (dataFlags : ℕ) (d : VirtIOBlkDevice) (r : Request) (returned : List ℕ) :
    Option (VirtIOBlkDevice × Bool) :=
  match prepare dataFlags d r with
  | (d, none) => some (d, false)
  | (d, some head) => (submitWait d head returned).map (·, true)

inductive Kind where
  | read
  | write

def Kind.dataFlags : Kind → ℕ
  | .read => descFWrite
  | .write => 0

def readSectors : VirtIOBlkDevice → Request → List ℕ → Option (VirtIOBlkDevice × Bool) :=
  transferSectors Kind.read.dataFlags

def writeSectors : VirtIOBlkDevice → Request → List ℕ → Option (VirtIOBlkDevice × Bool) :=
  transferSectors Kind.write.dataFlags

/-- The driver, and the heads that were submitted and that the device has not put into the used ring
yet. -/
structure System where
  dev : VirtIOBlkDevice
  held : List ℕ

def Kind.transfer : Kind → VirtIOBlkDevice → Request → List ℕ → Option (VirtIOBlkDevice × Bool)
  | .read => readSectors
  | .write => writeSectors

/-- What the device may return while a request waits: each head that it holds, at most once. -/
def Returnable (s : System) (k : Kind) (r : Request) (returned : List ℕ) : Prop :=
  (prepare k.dataFlags s.dev r).2.elim (returned = [])
    fun head => List.Subperm returned (head :: s.held)

def System.after (s : System) (k : Kind) (r : Request) (returned : List ℕ) (d : VirtIOBlkDevice) :
    System :=
  ⟨d, ((prepare k.dataFlags s.dev r).2.toList ++ s.held).diff returned⟩

/-- The states that reads and writes and the device lead to. -/
inductive Reached : System → Prop
  | init : Reached ⟨init, []⟩
  | device {s : System} (head : ℕ) : Reached s → head ∈ s.held →
      Reached ⟨deviceReturn s.dev head, s.held.erase head⟩
  | request {s : System} (k : Kind) (r : Request) (returned : List ℕ) (d : VirtIOBlkDevice)
      (ok : Bool) : Reached s → Returnable s k r returned →
      k.transfer s.dev r returned = some (d, ok) → Reached (s.after k r returned d)

/-- The heads in the used ring that `submit_wait` has not come to yet. -/
def waiting (d : VirtIOBlkDevice) : List ℕ :=
  (List.range (unread d)).map fun i => d.usedRing ((d.lastUsed + i) % queueSize)

def chain (desc : ℕ → VirtqDesc) (head : ℕ) : List ℕ := [head, (desc head).next]

/-- A link of the free list; `0xFFFF` ends it. -/
def link (x : ℕ) : Option ℕ := if x = 0xFFFF then none else some x

def IsFreeList (d : VirtIOBlkDevice) (free : List ℕ) : Prop :=
  Linked (fun i => link (d.freeBitmap i)) (link d.freeHead) free

def inUse : List Use → List ℕ
  | [] => []
  | .alloc i :: log => i :: inUse log
  | .free i :: log => (inUse log).erase i

/-- No descriptor is taken while it is in use, and only those in use are freed. -/
def Orderly : List Use → Prop
  | [] => True
  | .alloc i :: log => i ∉ inUse log ∧ Orderly log
  | .free i :: log => i ∈ inUse log ∧ Orderly log

section Ownership

variable {d : VirtIOBlkDevice} {fl used : List ℕ} {i : ℕ}

/-- The free list and the descriptors in use share out the queue. -/
structure Owned (d : VirtIOBlkDevice) (fl used : List ℕ) : Prop where
  linked : IsFreeList d fl
  count : fl.length = d.numFree
  perm : (fl ++ used).Perm (List.range queueSize)
  orderly : Orderly d.log
  busy : (inUse d.log).Perm used

lemma Owned.congr {used' : List ℕ} (h : Owned d fl used) (hp : used.Perm used') :
    Owned d fl used' :=
  ⟨h.linked, h.count, (hp.symm.append_left fl).trans h.perm, h.orderly, h.busy.trans hp⟩

lemma Owned.nodup (h : Owned d fl used) : (fl ++ used).Nodup :=
  h.perm.nodup_iff.mpr nodup_range

lemma Owned.lt (h : Owned d fl used) (hi : i ∈ fl ++ used) : i < queueSize :=
  mem_range.mp (h.perm.mem_iff.mp hi)

lemma link_of_lt (hi : i < queueSize) : link i = some i := by
  apply if_neg
  unfold queueSize at hi
  omega

lemma link_update (f : ℕ → ℕ) (i x : ℕ) :
    (fun j => link (update f i x j)) = update (fun j => link (f j)) i (link x) := by
  funext j
  by_cases hj : j = i
  · rw [hj, update_self, update_self]
  · rw [update_of_ne hj, update_of_ne hj]

lemma allocDesc_none (h : Owned d [] used) : allocDesc d = none := by
  have hc : d.numFree = 0 := h.count.symm
  unfold allocDesc
  rw [if_pos hc]

/-- The device after the head `i` of its free list was taken. -/
def popFree (d : VirtIOBlkDevice) (i : ℕ) : VirtIOBlkDevice :=
  { d with
    freeHead := d.freeBitmap i
    freeBitmap := update d.freeBitmap i 0xFFFF
    numFree := d.numFree - 1
    log := .alloc i :: d.log }

lemma allocDesc_cons (h : Owned d (i :: fl) used) : allocDesc d = some (i, popFree d i) := by
  have hc := h.count
  rw [length_cons] at hc
  have hh : d.freeHead = i := by
    have hl := h.linked.1
    unfold link at hl
    split at hl
    · cases hl
    · exact Option.some.inj hl
  unfold allocDesc popFree
  rw [if_neg (by omega), hh]

lemma Owned.alloc (h : Owned d (i :: fl) used) : Owned (popFree d i) fl (i :: used) := by
  have hn := h.nodup
  rw [cons_append, nodup_cons] at hn
  have hnot : i ∉ inUse d.log := by
    intro hmem
    exact hn.1 (mem_append_right _ (h.busy.mem_iff.mp hmem))
  have hc := h.count
  rw [length_cons] at hc
  refine ⟨?_, ?_, perm_middle.trans h.perm, ⟨hnot, h.orderly⟩, h.busy.cons i⟩
  · unfold IsFreeList popFree
    rw [link_update]
    exact Linked.cut_first h.linked _
  unfold popFree
  dsimp only
  omega

lemma Owned.release (h : Owned d fl (i :: used)) : Owned (freeDesc d i) (i :: fl) used := by
  have hn := perm_middle.nodup_iff.mp h.nodup
  have hf : i ∉ fl := by
    intro hmem
    exact (nodup_cons.mp hn).1 (mem_append_left _ hmem)
  have hlt : i < queueSize := h.lt (mem_append_right _ (mem_cons_self ..))
  have hmem : i ∈ inUse d.log := h.busy.mem_iff.mpr (mem_cons_self ..)
  refine ⟨?_, ?_, perm_middle.symm.trans h.perm, ⟨hmem, h.orderly⟩, ?_⟩
  · unfold IsFreeList freeDesc
    rw [link_update, link_of_lt hlt]
    refine ⟨rfl, ?_⟩
    rw [update_self]
    exact Linked.update h.linked hf _
  · unfold freeDesc
    rw [length_cons, h.count]
  have hp := h.busy.erase i
  rw [erase_cons_head] at hp
  exact hp

end Ownership

variable {heads : List ℕ} {desc : ℕ → VirtqDesc} {i : ℕ} {d' : VirtIOBlkDevice}

section Invariant

variable {d : VirtIOBlkDevice} {held wait fl : List ℕ} {head : ℕ}

/-- A chain of two: the head goes on, its successor does not. -/
def IsChain (desc : ℕ → VirtqDesc) (head : ℕ) : Prop :=
  (desc head).flags &&& descFNext ≠ 0 ∧ (desc (desc head).next).flags &&& descFNext = 0

/-- The free list is `fl`, the device holds the chains of `held`, and those of `wait` are in the used
ring from `last_used` on. -/
structure Inv (d : VirtIOBlkDevice) (held wait fl : List ℕ) : Prop where
  owned : Owned d fl ((held ++ wait).flatMap (chain d.desc))
  chains : ∀ head ∈ held ++ wait, IsChain d.desc head
  last : d.lastUsed < 2 ^ 16
  idx : d.usedIdx = (d.lastUsed + wait.length) % 2 ^ 16
  ring : ∀ i (hi : i < wait.length), d.usedRing ((d.lastUsed + i) % queueSize) = wait[i]

lemma length_chains (desc : ℕ → VirtqDesc) (heads : List ℕ) :
    (heads.flatMap (chain desc)).length = 2 * heads.length := by
  induction heads with
  | nil => rfl
  | cons head heads ih =>
    rw [flatMap_cons, length_append, ih, length_cons]
    simp only [chain, length_cons, length_nil]
    omega

section Rounds

variable (h : Inv d held wait fl)
include h

lemma Inv.length :
    fl.length + 2 * (held.length + wait.length) = queueSize := by
  have hlen := h.owned.perm.length_eq
  rw [length_append, length_chains, length_append, length_range] at hlen
  exact hlen

lemma Inv.unread : unread d = wait.length := by
  have hlen := h.length
  have hl := h.last
  unfold Virtio.unread
  rw [h.idx]
  unfold queueSize at hlen
  omega

lemma Inv.waiting : waiting d = wait := by
  unfold Virtio.waiting
  rw [h.unread]
  apply ext_getElem
  · rw [length_map, length_range]
  intro i hi hi'
  rw [getElem_map, getElem_range]
  exact h.ring i hi'

lemma Inv.deviceReturn (hh : head ∈ held) :
    Inv (deviceReturn d head) (held.erase head) (wait ++ [head]) fl := by
  have hp : (held ++ wait).Perm (held.erase head ++ (wait ++ [head])) := by
    rw [← append_assoc]
    exact ((perm_cons_erase hh).append_right wait).trans
      (perm_append_singleton _ _).symm
  have hlen := h.length
  have hpos := length_pos_of_mem hh
  refine ⟨?_, ?_, h.last, ?_, ?_⟩
  · have ho := h.owned.congr (hp.flatMap_right _)
    exact ⟨ho.linked, ho.count, ho.perm, ho.orderly, ho.busy⟩
  · intro x hx
    exact h.chains x (hp.mem_iff.mpr hx)
  · unfold Virtio.deviceReturn
    dsimp only
    rw [h.idx, length_append, length_singleton]
    omega
  intro i hi
  rw [length_append, length_singleton] at hi
  unfold Virtio.deviceReturn
  dsimp only
  rw [h.idx]
  unfold queueSize at hlen ⊢
  by_cases heq : i = wait.length
  · -- the slot that the device writes now
    subst heq
    have hs : (d.lastUsed + wait.length) % 128 =
        (d.lastUsed + wait.length) % 2 ^ 16 % 128 := by omega
    rw [hs, update_self]
    simp
  have hlt : i < wait.length := by omega
  have hs : (d.lastUsed + i) % 128 ≠ (d.lastUsed + wait.length) % 2 ^ 16 % 128 := by omega
  rw [update_of_ne hs, getElem_append_left hlt]
  exact h.ring i hlt

lemma Inv.returned {returned : List ℕ} (hsub : List.Subperm returned held) :
    Inv (returned.foldl Virtio.deviceReturn d) (held.diff returned) (wait ++ returned) fl := by
  induction returned generalizing d held wait with
  | nil =>
    rw [append_nil]
    exact h
  | cons head returned ih =>
    have hh : head ∈ held := hsub.subset (mem_cons_self ..)
    have hr : List.Subperm returned (held.erase head) := by
      have hc := hsub.erase head
      rwa [erase_cons_head] at hc
    have hs := ih (h.deviceReturn hh) hr
    rw [append_assoc] at hs
    rw [diff_cons]
    exact hs

end Rounds

lemma freeChain_chain (hc : IsChain d.desc head) :
    freeChain queueSize d head = some (freeDesc (freeDesc d head) (d.desc head).next) := by
  unfold queueSize freeChain
  dsimp only
  rw [if_neg hc.1]
  unfold freeChain
  exact if_pos hc.2

lemma Inv.reclaim (h : Inv d held wait fl) :
    ∃ d' fl', reclaim wait.length d = some d' ∧ Inv d' held [] fl' := by
  induction wait generalizing d fl with
  | nil => exact ⟨d, fl, rfl, h⟩
  | cons head wait ih =>
    have hlt : head < queueSize := by
      apply h.owned.lt (mem_append_right _ (mem_flatMap.mpr ⟨head, ?_, ?_⟩))
      · simp
      · exact mem_cons_self ..
    have hid : d.usedRing (d.lastUsed % queueSize) % 2 ^ 16 = head := by
      have hf := h.ring 0 (by simp)
      rw [Nat.add_zero] at hf
      rw [hf, getElem_cons_zero, Nat.mod_eq_of_lt]
      unfold queueSize at hlt
      omega
    have hc := h.chains head (by simp)
    have hp : ((held ++ head :: wait).flatMap (chain d.desc)).Perm
        (head :: (d.desc head).next :: (held ++ wait).flatMap (chain d.desc)) :=
      perm_middle.flatMap_right _
    have ho := ((h.owned.congr hp).release).release
    have hn : Inv { freeDesc (freeDesc d head) (d.desc head).next with
        lastUsed := (d.lastUsed + 1) % 2 ^ 16 } held wait ((d.desc head).next :: head :: fl) := by
      refine ⟨⟨ho.linked, ho.count, ho.perm, ho.orderly, ho.busy⟩, ?_, ?_, ?_, ?_⟩
      · intro x hx
        exact h.chains x (by simp only [mem_append, mem_cons] at hx ⊢; tauto)
      · exact Nat.mod_lt _ (by decide)
      · have hidx := h.idx
        rw [length_cons] at hidx
        change d.usedIdx = ((d.lastUsed + 1) % 2 ^ 16 + wait.length) % 2 ^ 16
        omega
      intro i hi
      have hr := h.ring (i + 1) (by simpa using hi)
      rw [getElem_cons_succ] at hr
      rw [← hr]
      change d.usedRing (((d.lastUsed + 1) % 2 ^ 16 + i) % 128) =
        d.usedRing ((d.lastUsed + (i + 1)) % 128)
      congr 1
      omega
    obtain ⟨d', fl', hrec, hinv⟩ := ih hn
    refine ⟨d', fl', ?_, hinv⟩
    rw [length_cons, Virtio.reclaim, hid, freeChain_chain hc]
    exact hrec

lemma mem_chains_of_mem (hh : head ∈ heads) :
    head ∈ heads.flatMap (chain desc) ∧ (desc head).next ∈ heads.flatMap (chain desc) :=
  ⟨mem_flatMap.mpr ⟨head, hh, by simp [chain]⟩, mem_flatMap.mpr ⟨head, hh, by simp [chain]⟩⟩

lemma chains_update (hi : i ∉ heads.flatMap (chain desc)) (e : VirtqDesc) :
    heads.flatMap (chain (update desc i e)) = heads.flatMap (chain desc) ∧
      ∀ head ∈ heads, IsChain desc head → IsChain (update desc i e) head := by
  have hne : ∀ head ∈ heads, head ≠ i ∧ (desc head).next ≠ i := by
    intro head hh
    have hmem : head ∈ heads.flatMap (chain desc) ∧ (desc head).next ∈ heads.flatMap (chain desc) :=
      mem_chains_of_mem hh
    exact ⟨fun heq => hi (heq ▸ hmem.1), fun heq => hi (heq ▸ hmem.2)⟩
  constructor
  · apply flatMap_congr
    intro head hh
    unfold chain
    rw [update_of_ne (hne head hh).1]
  intro head hh hc
  unfold IsChain
  rw [update_of_ne (hne head hh).1, update_of_ne (hne head hh).2]
  exact hc

lemma Owned.setDesc {used : List ℕ} (h : Owned d fl used) (i : ℕ) (e : VirtqDesc) :
    Owned (setDesc d i e) fl used :=
  ⟨h.linked, h.count, h.perm, h.orderly, h.busy⟩

lemma Owned.not_mem_used {used : List ℕ} (h : Owned d fl (i :: used)) : i ∉ used :=
  (nodup_cons.mp (h.nodup.sublist (sublist_append_right _ _))).1

lemma Inv.of_owned {held' fl' : List ℕ} (h : Inv d held wait fl)
    (ho : Owned d' fl' ((held' ++ wait).flatMap (chain d'.desc)))
    (hc : ∀ head ∈ held' ++ wait, IsChain d'.desc head) (hl : d'.lastUsed = d.lastUsed)
    (hidx : d'.usedIdx = d.usedIdx) (hr : d'.usedRing = d.usedRing) :
    Inv d' held' wait fl' := by
  refine ⟨ho, hc, ?_, ?_, ?_⟩
  · rw [hl]
    exact h.last
  · rw [hl, hidx]
    exact h.idx
  rw [hl, hr]
  exact h.ring

lemma and_next_dataFlags (k : Kind) : k.dataFlags &&& descFNext = 0 := by
  cases k <;> rfl

lemma Inv.newChain {fl' : List ℕ} {j : ℕ} {header data : VirtqDesc} (h : Inv d held wait fl)
    (ho : Owned d' fl' (j :: i :: (held ++ wait).flatMap (chain d.desc)))
    (hd : d'.desc = update d.desc i header) (hhe : header.flags = descFNext)
    (hda : data.flags &&& descFNext = 0) (hl : d'.lastUsed = d.lastUsed)
    (hidx : d'.usedIdx = d.usedIdx) (hr : d'.usedRing = d.usedRing) :
    Inv (Virtio.setDesc (Virtio.setDesc d' j data) i
      { (Virtio.setDesc d' j data).desc i with next := j }) (i :: held) wait fl' := by
  have hj := ho.not_mem_used
  rw [mem_cons, not_or] at hj
  have hi : i ∉ (held ++ wait).flatMap (chain d.desc) := by
    have hn := ho.nodup.sublist (sublist_append_right _ _)
    exact (nodup_cons.mp (nodup_cons.mp hn).2).1
  have hij : i ≠ j := fun heq => hj.1 heq.symm
  -- the other chains hold neither of the two, whatever is written to them
  obtain ⟨hs1, hk1⟩ := chains_update hi header
  obtain ⟨hs2, hk2⟩ := chains_update (by rw [hs1]; exact hj.2) data
  obtain ⟨hs3, hk3⟩ := chains_update (by rw [hs2, hs1]; exact hi)
    { (update (update d.desc i header) j data) i with next := j }
  refine h.of_owned ?_ ?_ hl hidx hr
  · refine ((ho.setDesc j data).setDesc i _).congr ?_
    unfold Virtio.setDesc
    dsimp only
    rw [hd, cons_append, flatMap_cons, hs3, hs2, hs1]
    unfold chain
    rw [update_self]
    exact List.Perm.swap ..
  unfold Virtio.setDesc
  dsimp only
  rw [hd]
  intro head hh
  rw [cons_append, mem_cons] at hh
  rcases hh with rfl | hh
  · unfold IsChain
    rw [update_self]
    dsimp only
    rw [update_of_ne hij.symm, update_self, update_of_ne hij, update_self, hhe]
    exact ⟨by decide, hda⟩
  · exact hk3 head hh (hk2 head hh (hk1 head hh (h.chains head hh)))

lemma Inv.prepare (h : Inv d held wait fl) (k : Kind) (r : Request) :
    ∃ d' fl', (prepare k.dataFlags d r = (d', none) ∧ Inv d' held wait fl') ∨
      ∃ head, prepare k.dataFlags d r = (d', some head) ∧ Inv d' (head :: held) wait fl' := by
  unfold Virtio.prepare
  cases hr : d.queueReady with
  | false => exact ⟨d, fl, .inl ⟨rfl, h⟩⟩
  | true =>
    rw [if_neg (by decide)]
    cases fl with
    | nil =>
      rw [allocDesc_none h.owned]
      exact ⟨d, [], .inl ⟨rfl, h⟩⟩
    | cons i fl =>
      rw [allocDesc_cons h.owned]
      dsimp only
      have hf := h.owned.alloc
      have hi := hf.not_mem_used
      by_cases hfr : r.frame = 0 ∨ r.virtOk = false
      · rw [if_pos hfr]
        exact ⟨_, _, .inl ⟨rfl, h.of_owned hf.release h.chains rfl rfl rfl⟩⟩
      rw [if_neg hfr]
      generalize hhe : ({ (popFree d i).desc i with
        addr := r.frame, len := 16, flags := descFNext } : VirtqDesc) = header
      have hfl : header.flags = descFNext := by rw [← hhe]
      obtain ⟨hsa, hk⟩ := chains_update hi header
      have hset := hf.setDesc i header
      cases fl with
      | nil =>
        rw [allocDesc_none hset]
        refine ⟨_, [i], .inl ⟨rfl, h.of_owned ?_ ?_ rfl rfl rfl⟩⟩
        · exact hset.release.congr (.of_eq hsa.symm)
        · exact fun head hh => hk head hh (h.chains head hh)
      | cons j fl =>
        rw [allocDesc_cons hset]
        dsimp only
        have hs := hset.alloc
        have hj := hs.not_mem_used
        by_cases hd : r.dataFrame = 0
        · rw [if_pos hd]
          refine ⟨_, i :: j :: fl, .inl ⟨rfl, h.of_owned ?_ ?_ rfl rfl rfl⟩⟩
          · exact hs.release.release.congr (.of_eq hsa.symm)
          · exact fun head hh => hk head hh (h.chains head hh)
        rw [if_neg hd]
        refine ⟨_, fl, .inr ⟨i, rfl, ?_⟩⟩
        exact h.newChain hs rfl hfl (and_next_dataFlags k) rfl rfl rfl

lemma Inv.request (h : Inv d held wait fl) {k : Kind} {r : Request} {returned : List ℕ}
    (hret : Returnable ⟨d, held⟩ k r returned) :
    ∃ d' ok wait' fl', transferSectors k.dataFlags d r returned = some (d', ok) ∧
      (ok = true → wait' = []) ∧
      Inv d' (System.after ⟨d, held⟩ k r returned d').held wait' fl' := by
  unfold Returnable at hret
  unfold transferSectors System.after
  obtain ⟨d', fl', ⟨hp, hinv⟩ | ⟨head, hp, hinv⟩⟩ := h.prepare k r
  · dsimp only at hret ⊢
    rw [hp] at hret ⊢
    obtain rfl : returned = [] := hret
    exact ⟨d', false, wait, fl', rfl, fun hok => (by cases hok), hinv⟩
  dsimp only at hret ⊢
  rw [hp] at hret ⊢
  have hpub : Inv (publish d' head) (head :: held) wait fl' :=
    hinv.of_owned ⟨hinv.owned.linked, hinv.owned.count, hinv.owned.perm, hinv.owned.orderly,
      hinv.owned.busy⟩ hinv.chains rfl rfl rfl
  have hall := hpub.returned hret
  obtain ⟨d'', fl'', hrec, hend⟩ := hall.reclaim
  refine ⟨d'', true, [], fl'', ?_, fun _ => rfl, hend⟩
  dsimp only
  unfold submitWait
  dsimp only
  rw [hall.unread, hrec]
  rfl

lemma linked_init (n a : ℕ) (hn : a + n = queueSize) :
    Linked (fun i => link (init.freeBitmap i)) (link (if a < queueSize then a else 0xFFFF))
      (List.range' a n) := by
  induction n generalizing a with
  | zero =>
    rw [if_neg (by omega)]
    rfl
  | succ n ih =>
    have hlt : a < queueSize := by omega
    rw [if_pos hlt, link_of_lt hlt, range'_succ]
    refine ⟨rfl, ?_⟩
    have hne : init.freeBitmap a = if a + 1 < queueSize then a + 1 else 0xFFFF := by
      unfold Virtio.init queueSize
      dsimp only
      split_ifs <;> omega
    dsimp only
    rw [hne]
    exact ih (a + 1) (by omega)

lemma Inv.init : Inv init [] [] (List.range queueSize) := by
  refine ⟨⟨?_, length_range, ?_, trivial, .refl _⟩, ?_, by decide, rfl, ?_⟩
  · have hl := linked_init queueSize 0 (Nat.zero_add _)
    rw [if_pos (by decide), ← range_eq_range'] at hl
    exact hl
  · exact .of_eq (append_nil _)
  · intro head hh
    cases hh
  intro i hi
  cases hi

lemma Kind.transfer_eq (k : Kind) : k.transfer = transferSectors k.dataFlags := by
  cases k <;> rfl

lemma Reached.inv {s : System} (h : Reached s) : ∃ wait fl, Inv s.dev s.held wait fl := by
  induction h with
  | init => exact ⟨[], _, Inv.init⟩
  | device head _ hh ih =>
    obtain ⟨wait, fl, hinv⟩ := ih
    exact ⟨_, fl, hinv.deviceReturn hh⟩
  | request k r returned d ok _ hret hc ih =>
    obtain ⟨wait, fl, hinv⟩ := ih
    obtain ⟨d', ok', wait', fl', hc', -, hinv'⟩ := hinv.request hret
    rw [Kind.transfer_eq, hc', Option.some.injEq, Prod.mk.injEq] at hc
    rw [← hc.1]
    exact ⟨wait', fl', hinv'⟩

end Invariant

end Elitra.Virtio
