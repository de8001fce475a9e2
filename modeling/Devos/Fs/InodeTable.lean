import Devos.Basic
import Devos.Library.Runs
import Mathlib.Data.List.FinRange
import Mathlib.Data.Fin.Basic
import Mathlib.Logic.Function.Basic

/-! `iget`, `iput` and `get_empty_inode` on the table of inodes in memory, by processes that are switched
where these calls sleep. -/

namespace Devos.Fs

open Runs

abbrev nrInode : ℕ := 32

/-- `d_inode`; the fields besides `i_nlinks` are only copied here. -/
structure DInode where
  iNlinks : Byte
  other : List Byte
  deriving DecidableEq

structure InodeEntry where
  iDev : Word
  iNum : Word
  iCount : Word
  iLock : Bool
  iDirt : Bool
  dinode : DInode

def zeroEntry : InodeEntry := ⟨0, 0, 0, false, false, ⟨0, []⟩⟩

/-- Where a process sleeps in `iget` or `iput`. An `iget` that found its inode releases the empty entry it had
taken before and gives back `ret`. -/
inductive InodeCall where
  | outside
  | emptyWait (dev nr : Word) (k : Fin nrInode)
  | emptyWrite (dev nr : Word) (k : Fin nrInode)
  | scanWait (dev nr : Word) (empty i : Fin nrInode)
  | readLock (k : Fin nrInode)
  | reading (k : Fin nrInode)
  | putWait (k : Fin nrInode) (ret : Option (Fin nrInode))
  | putWrite (k : Fin nrInode) (ret : Option (Fin nrInode))
  | truncating (k : Fin nrInode) (ret : Option (Fin nrInode))

/-- The table, the inodes on the disk, and the processes with the references they hold between calls.
`unsaved` tells which entries have changed since they were last read or written back; `reused` has the
entries that `get_empty_inode` has cleared and `freed` those of `free_inode`. No code reads these three. -/
structure Inodes (P : Type*) where
  entry : Fin nrInode → InodeEntry
  last : Fin nrInode
  disk : Word → Word → DInode
  call : P → InodeCall
  refs : P → List (Fin nrInode)
  unsaved : Fin nrInode → Bool
  reused : List (InodeEntry × Bool)
  freed : List (InodeEntry × Bool)

namespace Inodes

variable {P : Type*} [DecidableEq P]

section Updates

variable (s : Inodes P) (x : P) (k : Fin nrInode)

def setCall (c : InodeCall) : Inodes P := { s with call := Function.update s.call x c }

def setLock (b : Bool) : Inodes P :=
  { s with entry := Function.update s.entry k { s.entry k with iLock := b } }

def setCount (c : Word) : Inodes P :=
  { s with entry := Function.update s.entry k { s.entry k with iCount := c } }

/-- A change to the inode, `i_dirt = 1`. -/
def modify (d : DInode) : Inodes P :=
  { s with
    entry := Function.update s.entry k { s.entry k with dinode := d, iDirt := true }
    unsaved := Function.update s.unsaved k true }

-- `write_inode` from the return of `bread` on
def writeBack : Inodes P :=
  { s with
    entry := Function.update s.entry k { s.entry k with iDirt := false, iLock := false }
    disk := Function.update s.disk (s.entry k).iDev
      (Function.update (s.disk (s.entry k).iDev) (s.entry k).iNum (s.entry k).dinode)
    unsaved := Function.update s.unsaved k false }

-- `read_inode` from the return of `bread` on
def readIn : Inodes P :=
  { s with
    entry := Function.update s.entry k
      { s.entry k with dinode := s.disk (s.entry k).iDev (s.entry k).iNum, iLock := false }
    unsaved := Function.update s.unsaved k false }

def assign (dev nr : Word) : Inodes P :=
  { s with entry := Function.update s.entry k { s.entry k with iDev := dev, iNum := nr } }

-- `memset(inode,0,sizeof(*inode)); inode->i_count = 1;`
def clear : Inodes P :=
  { s with
    entry := Function.update s.entry k { zeroEntry with iCount := 1 }
    unsaved := Function.update s.unsaved k false
    reused := s.reused ++ [(s.entry k, s.unsaved k)] }

def erase : Inodes P :=
  { s with
    entry := Function.update s.entry k zeroEntry
    unsaved := Function.update s.unsaved k false
    freed := if (s.entry k).iDev = 0 then s.freed else s.freed ++ [(s.entry k, s.unsaved k)] }

def finish (ret : Option (Fin nrInode)) : Inodes P :=
  { s with
    call := Function.update s.call x .outside
    refs := Function.update s.refs x (ret.toList ++ s.refs x) }

end Updates

variable (s : Inodes P) (x : P)

-- `iput` from `repeat:` on, the inode not locked
def putLoop (k : Fin nrInode) (ret : Option (Fin nrInode)) : Inodes P :=
  if (s.entry k).dinode.iNlinks = 0 then s.setCall x (.truncating k ret)
  else if (s.entry k).iDirt then (s.setLock k true).setCall x (.putWrite k ret)
  else (s.setCount k ((s.entry k).iCount - 1)).finish x ret

/-- `iput` behind its `wait_on_inode`; `none` for a panic. -/
def putReady (k : Fin nrInode) (ret : Option (Fin nrInode)) : Option (Inodes P) :=
  if (s.entry k).iCount = 0 then none
  else if (s.entry k).iDev = 0 ∨ 1 < (s.entry k).iCount then
    some ((s.setCount k ((s.entry k).iCount - 1)).finish x ret)
  else some (s.putLoop x k ret)

def iput (k : Fin nrInode) (ret : Option (Fin nrInode)) : Option (Inodes P) :=
  if (s.entry k).iLock then some (s.setCall x (.putWait k ret)) else s.putReady x k ret

/-- `iput` after `truncate`. The checks on the inode bitmap, which can only panic, are left out. -/
def freeInode (k : Fin nrInode) (ret : Option (Fin nrInode)) : Option (Inodes P) :=
  if (s.entry k).iDev = 0 then some ((s.erase k).finish x ret)
  else if 1 < (s.entry k).iCount then none
  else if (s.entry k).dinode.iNlinks ≠ 0 then none
  else some ((s.erase k).finish x ret)

def Is (dev nr : Word) (i : Fin nrInode) : Prop := (s.entry i).iDev = dev ∧ (s.entry i).iNum = nr

instance (dev nr : Word) (i : Fin nrInode) : Decidable (s.Is dev nr i) := inferInstanceAs (Decidable (_ ∧ _))

def find (dev nr : Word) : Option (Fin nrInode) := (List.finRange nrInode).find? fun i => s.Is dev nr i

-- the loop of `iget` from the start of the table on, with the empty entry `k` in hand
def scan (dev nr : Word) (k : Fin nrInode) : Option (Inodes P) :=
  match s.find dev nr with
  | some i =>
    if (s.entry i).iLock then some (s.setCall x (.scanWait dev nr k i))
    else (s.setCount i ((s.entry i).iCount + 1)).iput x k (some i)
  | none =>
    let s := s.assign k dev nr
    if (s.entry k).iLock then some (s.setCall x (.readLock k))
    else some ((s.setLock k true).setCall x (.reading k))

-- `get_empty_inode` behind its first `wait_on_inode`, then the rest of `iget`
def emptyReady (dev nr : Word) (k : Fin nrInode) (again : Option (Inodes P)) : Option (Inodes P) :=
  if (s.entry k).iDirt then some ((s.setLock k true).setCall x (.emptyWrite dev nr k))
  else if (s.entry k).iCount = 0 then (s.clear k).scan x dev nr k
  else again

/-- The search of `get_empty_inode`, round the table from the entry it took last. -/
def unused : Option (Fin nrInode) :=
  ((List.finRange nrInode).map (s.last + ·)).find? fun k => (s.entry k).iCount = 0

-- the entry that `unused` finds has the count 0, so the loop is not taken again here
def getEmpty (dev nr : Word) : Option (Inodes P) :=
  match s.unused with
  | none => none
  | some k =>
    let s := { s with last := k }
    if (s.entry k).iLock then some (s.setCall x (.emptyWait dev nr k)) else s.emptyReady x dev nr k none

def resume : Option (Inodes P) :=
  match s.call x with
  | .outside => none
  | .emptyWait dev nr k =>
    if (s.entry k).iLock then some s else s.emptyReady x dev nr k (s.getEmpty x dev nr)
  | .emptyWrite dev nr k => (s.writeBack k).emptyReady x dev nr k ((s.writeBack k).getEmpty x dev nr)
  | .scanWait dev nr k i =>
    if (s.entry i).iLock then some s
    else if s.Is dev nr i then (s.setCount i ((s.entry i).iCount + 1)).iput x k (some i)
    else s.scan x dev nr k
  | .readLock k =>
    if (s.entry k).iLock then some s else some ((s.setLock k true).setCall x (.reading k))
  | .reading k => some ((s.readIn k).finish x (some k))
  | .putWait k ret => if (s.entry k).iLock then some s else s.putReady x k ret
  | .putWrite k ret => some ((s.writeBack k).putLoop x k ret)
  | .truncating k ret => s.freeInode x k ret

end Inodes

inductive InodeEvent (P : Type*) where
  | iget (x : P) (dev nr : Word)
  | iput (x : P) (k : Fin nrInode)
  | resume (x : P)
  | hold (x : P) (k : Fin nrInode)
  | modify (x : P) (k : Fin nrInode) (d : DInode)
  | truncate (x : P) (d : DInode)

section Processes

variable {P : Type*} [DecidableEq P]

/-- Besides the calls: `get_dir` takes a second reference, and who holds an inode, or truncates it, may
change it. -/
inductive InodeStep : Inodes P → InodeEvent P → Inodes P → Prop
  | iget {s s' x dev nr} : s.call x = .outside → dev ≠ 0 → s.getEmpty x dev nr = some s' →
      InodeStep s (.iget x dev nr) s'
  | iput {s s' x k} : s.call x = .outside → k ∈ s.refs x →
      Inodes.iput { s with refs := Function.update s.refs x ((s.refs x).erase k) } x k none = some s' →
      InodeStep s (.iput x k) s'
  | resume {s s' x} : s.call x ≠ .outside → s.resume x = some s' → InodeStep s (.resume x) s'
  | hold {s x k} : s.call x = .outside → k ∈ s.refs x →
      InodeStep s (.hold x k) { s.setCount k ((s.entry k).iCount + 1) with
        refs := Function.update s.refs x (k :: s.refs x) }
  | modify {s x k d} : k ∈ s.refs x → InodeStep s (.modify x k d) (s.modify k d)
  | truncate {s x k ret d} : s.call x = .truncating k ret → InodeStep s (.truncate x d) (s.modify k d)

def inodeSystem (P : Type*) [DecidableEq P] : System (Inodes P) (InodeEvent P) where
  init s := s.entry = (fun _ => zeroEntry) ∧ s.call = (fun _ => .outside) ∧ s.refs = (fun _ => []) ∧
    s.unsaved = (fun _ => false) ∧ s.reused = [] ∧ s.freed = []
  step := InodeStep

end Processes

namespace Inodes

variable {P : Type*}

/-- No inode of the disk is in the table twice; an entry that has changed is marked dirty; what was cleared for
another inode had no user and nothing to write back, and what was freed had no links. -/
structure Sound (s : Inodes P) : Prop where
  unique : ∀ i j, (s.entry i).iDev ≠ 0 → (s.entry i).iDev = (s.entry j).iDev →
    (s.entry i).iNum = (s.entry j).iNum → i = j
  dirty : ∀ k, s.unsaved k = true → (s.entry k).iDirt = true
  reused : ∀ e ∈ s.reused, e.1.iCount = 0 ∧ e.1.iDirt = false ∧ e.2 = false
  freed : ∀ e ∈ s.freed, e.1.dinode.iNlinks = 0

section Steps

variable {s s' : Inodes P} {x : P} {k : Fin nrInode} {ret : Option (Fin nrInode)} {dev nr : Word}

/-- A step that leaves device and number of every entry alone. -/
lemma Sound.keep (h : Sound s) (hdev : ∀ k, (s'.entry k).iDev = (s.entry k).iDev)
    (hnum : ∀ k, (s'.entry k).iNum = (s.entry k).iNum)
    (hdirty : ∀ k, s'.unsaved k = true → (s'.entry k).iDirt = true) (hreused : s'.reused = s.reused)
    (hfreed : s'.freed = s.freed) : Sound s' := by
  refine ⟨?_, hdirty, ?_, ?_⟩
  · intro i j hi hd hn
    rw [hdev] at hi
    rw [hdev, hdev] at hd
    rw [hnum, hnum] at hn
    exact h.unique i j hi hd hn
  · rw [hreused]
    exact h.reused
  · rw [hfreed]
    exact h.freed

/-- One entry changes, but not in device and number, and is still dirty if it has to be. -/
lemma Sound.entry (h : Sound s) {e : InodeEntry} (hentry : s'.entry = Function.update s.entry k e)
    (hdev : e.iDev = (s.entry k).iDev) (hnum : e.iNum = (s.entry k).iNum)
    (hunsaved : ∀ j, j ≠ k → s'.unsaved j = s.unsaved j) (hdirty : s'.unsaved k = true → e.iDirt = true)
    (hreused : s'.reused = s.reused) (hfreed : s'.freed = s.freed) : Sound s' := by
  have hself : s'.entry k = e := by rw [hentry, Function.update_self]
  have hother : ∀ j, j ≠ k → s'.entry j = s.entry j := by
    intro j hj
    rw [hentry, Function.update_of_ne hj]
  refine h.keep ?_ ?_ ?_ hreused hfreed
  · intro j
    by_cases hj : j = k
    · rw [hj, hself, hdev]
    · rw [hother j hj]
  · intro j
    by_cases hj : j = k
    · rw [hj, hself, hnum]
    · rw [hother j hj]
  · intro j hu
    by_cases hj : j = k
    · rw [hj] at hu ⊢
      rw [hself]
      exact hdirty hu
    · rw [hother j hj]
      rw [hunsaved j hj] at hu
      exact h.dirty j hu

lemma Sound.setLock (h : Sound s) (k : Fin nrInode) (b : Bool) : Sound (s.setLock k b) :=
  h.entry rfl rfl rfl (fun _ _ => rfl) (h.dirty k) rfl rfl

lemma Sound.setCount (h : Sound s) (k : Fin nrInode) (c : Word) : Sound (s.setCount k c) :=
  h.entry rfl rfl rfl (fun _ _ => rfl) (h.dirty k) rfl rfl

lemma Sound.modify (h : Sound s) (k : Fin nrInode) (d : DInode) : Sound (s.modify k d) :=
  h.entry rfl rfl rfl (fun _ hj => Function.update_of_ne hj _ _) (fun _ => rfl) rfl rfl

lemma unsaved_self (s : Inodes P) (k : Fin nrInode) : Function.update s.unsaved k false k = false :=
  Function.update_self _ _ _

lemma Sound.writeBack (h : Sound s) (k : Fin nrInode) : Sound (s.writeBack k) := by
  refine h.entry rfl rfl rfl (fun _ hj => Function.update_of_ne hj _ _) ?_ rfl rfl
  intro hu
  exact absurd ((unsaved_self s k).symm.trans hu) Bool.false_ne_true

lemma Sound.readIn (h : Sound s) (k : Fin nrInode) : Sound (s.readIn k) := by
  refine h.entry rfl rfl rfl (fun _ hj => Function.update_of_ne hj _ _) ?_ rfl rfl
  intro hu
  exact absurd ((unsaved_self s k).symm.trans hu) Bool.false_ne_true

/-- One entry loses its inode. -/
lemma Sound.vacate (h : Sound s) {e : InodeEntry} (hentry : s'.entry = Function.update s.entry k e)
    (hdev : e.iDev = 0) (hunsaved : s'.unsaved = Function.update s.unsaved k false)
    (hreused : ∀ e ∈ s'.reused, e.1.iCount = 0 ∧ e.1.iDirt = false ∧ e.2 = false)
    (hfreed : ∀ e ∈ s'.freed, e.1.dinode.iNlinks = 0) : Sound s' := by
  have hself : (s'.entry k).iDev = 0 := by rw [hentry, Function.update_self, hdev]
  have hother : ∀ j, j ≠ k → s'.entry j = s.entry j := by
    intro j hj
    rw [hentry, Function.update_of_ne hj]
  refine ⟨?_, ?_, hreused, hfreed⟩
  · intro i j hi hd hn
    have hik : i ≠ k := by
      rintro rfl
      exact hi hself
    have hjk : j ≠ k := by
      rintro rfl
      exact hi (hd.trans hself)
    rw [hother i hik] at hi hd hn
    rw [hother j hjk] at hd hn
    exact h.unique i j hi hd hn
  · intro j hu
    by_cases hj : j = k
    · rw [hj, hunsaved, unsaved_self] at hu
      cases hu
    · rw [hunsaved, Function.update_of_ne hj] at hu
      rw [hother j hj]
      exact h.dirty j hu

lemma Sound.clear (h : Sound s) (hcount : (s.entry k).iCount = 0) (hclean : (s.entry k).iDirt = false) :
    Sound (s.clear k) := by
  refine h.vacate rfl rfl rfl ?_ h.freed
  intro e he
  rcases List.mem_append.mp he with he | he
  · exact h.reused e he
  · rw [List.mem_singleton.mp he]
    refine ⟨hcount, hclean, ?_⟩
    cases hu : s.unsaved k with
    | false => rfl
    | true => exact absurd (h.dirty k hu) (by rw [hclean]; exact Bool.false_ne_true)

lemma Sound.erase (h : Sound s) (hlinks : (s.entry k).iDev = 0 ∨ (s.entry k).dinode.iNlinks = 0) :
    Sound (s.erase k) := by
  refine h.vacate rfl rfl rfl h.reused ?_
  intro e he
  simp only [Inodes.erase] at he
  split at he
  next => exact h.freed e he
  next hdev =>
    rcases List.mem_append.mp he with he | he
    · exact h.freed e he
    · rw [List.mem_singleton.mp he]
      exact hlinks.resolve_left hdev

lemma Sound.assign (h : Sound s) (hnone : s.find dev nr = none) : Sound (s.assign k dev nr) := by
  have habsent : ∀ i, ¬ s.Is dev nr i := by
    intro i
    simpa using List.find?_eq_none.mp hnone i (List.mem_finRange i)
  have hself : (s.assign k dev nr).entry k = { s.entry k with iDev := dev, iNum := nr } :=
    Function.update_self _ _ _
  have hother : ∀ j, j ≠ k → (s.assign k dev nr).entry j = s.entry j := fun j hj => Function.update_of_ne hj _ _
  refine ⟨?_, ?_, h.reused, h.freed⟩
  · intro i j hi hd hn
    by_cases hik : i = k
    · by_cases hjk : j = k
      · rw [hik, hjk]
      · rw [hik, hself, hother j hjk] at hd hn
        exact absurd ⟨hd.symm, hn.symm⟩ (habsent j)
    · rw [hother i hik] at hi hd hn
      by_cases hjk : j = k
      · rw [hjk, hself] at hd hn
        exact absurd ⟨hd, hn⟩ (habsent i)
      · rw [hother j hjk] at hd hn
        exact h.unique i j hi hd hn
  · intro j hu
    by_cases hj : j = k
    · rw [hj, hself]
      rw [hj] at hu
      exact h.dirty k hu
    · rw [hother j hj]
      exact h.dirty j hu

lemma Sound.setLast (h : Sound s) (k : Fin nrInode) : Sound { s with last := k } :=
  ⟨h.unique, h.dirty, h.reused, h.freed⟩

lemma Sound.setRefs (h : Sound s) (refs : P → List (Fin nrInode)) : Sound { s with refs := refs } :=
  ⟨h.unique, h.dirty, h.reused, h.freed⟩

variable [DecidableEq P]

lemma Sound.setCall (h : Sound s) (c : InodeCall) : Sound (s.setCall x c) :=
  h.keep (fun _ => rfl) (fun _ => rfl) h.dirty rfl rfl

lemma Sound.finish (h : Sound s) (ret : Option (Fin nrInode)) : Sound (s.finish x ret) :=
  h.keep (fun _ => rfl) (fun _ => rfl) h.dirty rfl rfl

lemma Sound.putLoop (h : Sound s) : Sound (s.putLoop x k ret) := by
  unfold Inodes.putLoop
  split
  · exact h.setCall _
  · split
    · exact (h.setLock k true).setCall _
    · exact (h.setCount k _).finish ret

lemma Sound.putReady (h : Sound s) (hs : s.putReady x k ret = some s') : Sound s' := by
  unfold Inodes.putReady at hs
  split_ifs at hs
  · cases hs
    exact (h.setCount k _).finish ret
  · cases hs
    exact h.putLoop

lemma Sound.iput (h : Sound s) (hs : s.iput x k ret = some s') : Sound s' := by
  unfold Inodes.iput at hs
  split at hs
  · cases hs
    exact h.setCall _
  · exact h.putReady hs

lemma Sound.freeInode (h : Sound s) (hs : s.freeInode x k ret = some s') : Sound s' := by
  unfold Inodes.freeInode at hs
  split_ifs at hs with hdev _ hlinks
  · cases hs
    exact (h.erase (Or.inl hdev)).finish ret
  · cases hs
    exact (h.erase (Or.inr (not_not.mp hlinks))).finish ret

lemma Sound.scan (h : Sound s) (hs : s.scan x dev nr k = some s') : Sound s' := by
  unfold Inodes.scan at hs
  split at hs
  next i _ =>
    split at hs
    · cases hs
      exact h.setCall _
    · exact (h.setCount i _).iput hs
  next hnone =>
    have ha := h.assign (k := k) hnone
    dsimp only at hs
    split at hs
    · cases hs
      exact ha.setCall _
    · cases hs
      exact (ha.setLock k true).setCall _

lemma Sound.emptyReady {again : Option (Inodes P)} (h : Sound s) (hagain : again = some s' → Sound s')
    (hs : s.emptyReady x dev nr k again = some s') : Sound s' := by
  unfold Inodes.emptyReady at hs
  split_ifs at hs with hdirt hcount
  · cases hs
    exact (h.setLock k true).setCall _
  · exact (h.clear hcount (by simpa using hdirt)).scan hs
  · exact hagain hs

lemma Sound.getEmpty (h : Sound s) (hs : s.getEmpty x dev nr = some s') : Sound s' := by
  unfold Inodes.getEmpty at hs
  split at hs
  · cases hs
  next k _ =>
    dsimp only at hs
    split at hs
    · cases hs
      exact (h.setLast k).setCall _
    · exact (h.setLast k).emptyReady (fun hnone => by cases hnone) hs

lemma Sound.resume (h : Sound s) (hs : s.resume x = some s') : Sound s' := by
  unfold Inodes.resume at hs
  split at hs
  · cases hs
  · split at hs
    · cases hs
      exact h
    · exact h.emptyReady (fun hg => h.getEmpty hg) hs
  next k _ => exact (h.writeBack k).emptyReady (fun hg => (h.writeBack k).getEmpty hg) hs
  · split at hs
    · cases hs
      exact h
    · split at hs
      · exact (h.setCount _ _).iput hs
      · exact h.scan hs
  · split at hs
    · cases hs
      exact h
    · cases hs
      exact (h.setLock _ true).setCall _
  next k _ =>
    cases hs
    exact (h.readIn k).finish _
  · split at hs
    · cases hs
      exact h
    · exact h.putReady hs
  next k ret _ =>
    cases hs
    exact (h.writeBack k).putLoop
  · exact h.freeInode hs

lemma Sound.step (h : Sound s) {e : InodeEvent P} (hstep : InodeStep s e s') : Sound s' := by
  cases hstep with
  | iget _ _ hs => exact h.getEmpty hs
  | iput _ _ hs => exact (h.setRefs _).iput hs
  | resume _ hs => exact h.resume hs
  | hold => exact (h.setCount _ _).setRefs _
  | modify => exact h.modify _ _
  | truncate => exact h.modify _ _

end Steps

lemma sound_of_reach [DecidableEq P] {s : Inodes P} (h : (inodeSystem P).Reach (fun _ _ => True) s) : Sound s := by
  refine System.Reach.invariant ?_ (fun _ _ _ hs _ hstep => hs.step hstep) h
  rintro s ⟨hentry, _, _, hunsaved, hreused, hfreed⟩
  refine ⟨?_, ?_, ?_, ?_⟩
  · intro i j hi
    rw [hentry] at hi
    exact absurd rfl hi
  · intro k hk
    rw [hunsaved] at hk
    cases hk
  · rw [hreused]
    exact fun e he => absurd he List.not_mem_nil
  · rw [hfreed]
    exact fun e he => absurd he List.not_mem_nil

end Inodes

variable {P : Type*} [DecidableEq P]

lemma resume_step {s s' : Inodes P} {x : P} (h : s.resume x = some s') : InodeStep s (.resume x) s' := by
  refine .resume ?_ h
  intro hout
  rw [Inodes.resume, hout] at h
  cases h

/-- No inode of the disk is twice in the table. What `get_empty_inode` took for another inode had no user and no
change that was not written back; only inodes without links have been dropped otherwise. -/
theorem inode_table_sound {s : Inodes P} (h : (inodeSystem P).Reach (fun _ _ => True) s) :
    (∀ i j, (s.entry i).iDev ≠ 0 → (s.entry i).iDev = (s.entry j).iDev →
      (s.entry i).iNum = (s.entry j).iNum → i = j) ∧
    (∀ e ∈ s.reused, e.1.iCount = 0 ∧ e.1.iDirt = false ∧ e.2 = false) ∧
    ∀ e ∈ s.freed, e.1.dinode.iNlinks = 0 := by
  have hs := Inodes.sound_of_reach h
  exact ⟨hs.unique, hs.reused, hs.freed⟩

def emptyInodes : Inodes Unit where
  entry _ := zeroEntry
  last := 0
  disk _ _ := ⟨1, []⟩
  call _ := .outside
  refs _ := []
  unsaved _ := false
  reused := []
  freed := []

lemma emptyInodes_reach : (inodeSystem Unit).Reach (fun _ _ => True) emptyInodes :=
  .start ⟨rfl, rfl, rfl, rfl, rfl, rfl⟩

theorem inode_table_sound_iget :
    ∃ s : Inodes Unit, s.refs () = [0] ∧ ∀ e ∈ s.reused, e.1.iCount = 0 ∧ e.1.iDirt = false ∧ e.2 = false := by
  have hbegin : InodeStep emptyInodes (.iget () 1 2) _ := .iget rfl (by decide) rfl
  have hread : (inodeSystem Unit).Reach (fun _ _ => True) _ := .next emptyInodes_reach trivial hbegin
  have hheld : (inodeSystem Unit).Reach (fun _ _ => True) _ :=
    .next hread trivial (resume_step rfl : InodeStep _ (.resume ()) _)
  exact ⟨_, rfl, (inode_table_sound hheld).2.1⟩

/-- The last link goes, and the inode is dropped with a change that is not on the disk. -/
theorem inode_dropped_dirty :
    ¬ ∀ s : Inodes Unit, (inodeSystem Unit).Reach (fun _ _ => True) s →
      ∀ e ∈ s.reused ++ s.freed, e.2 = false := by
  intro hall
  have hbegin : InodeStep emptyInodes (.iget () 1 2) _ := .iget rfl (by decide) rfl
  have hread : (inodeSystem Unit).Reach (fun _ _ => True) _ := .next emptyInodes_reach trivial hbegin
  have hheld : (inodeSystem Unit).Reach (fun _ _ => True) _ :=
    .next hread trivial (resume_step rfl : InodeStep _ (.resume ()) _)
  have hunlinked : (inodeSystem Unit).Reach (fun _ _ => True) _ :=
    .next hheld trivial (.modify (List.mem_cons_self) : InodeStep _ (.modify () 0 ⟨0, []⟩) _)
  have hput : (inodeSystem Unit).Reach (fun _ _ => True) _ :=
    .next hunlinked trivial (.iput rfl (List.mem_cons_self) rfl : InodeStep _ (.iput () 0) _)
  have hfreed : (inodeSystem Unit).Reach (fun _ _ => True) _ :=
    .next hput trivial (resume_step rfl : InodeStep _ (.resume ()) _)
  have hsaved := hall _ hfreed (_, true) (List.mem_append_right _ List.mem_cons_self)
  cases hsaved

end Devos.Fs
