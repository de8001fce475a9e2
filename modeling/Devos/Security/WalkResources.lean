import Devos.Fs.InodeTable
import Devos.Security.Directory
import Mathlib.Data.Fintype.Card

/-! What `encrypt_directory` and `decrypt_directory` hold: a place on the stack and a reference to its inode for each
directory that waits, and the inode and a buffer of the directory they are in. -/

namespace Devos.Security

open Fs Loops

/-- `inode_table`, for a process that no other disturbs. -/
structure InodeSlots where
  iDev : Fin Fs.nrInode → Word
  iNum : Fin Fs.nrInode → Word
  iCount : Fin Fs.nrInode → ℕ
  lastAllocatedInode : Fin Fs.nrInode

namespace InodeSlots

variable (s : InodeSlots)

def Is (dev nr : Word) (k : Fin Fs.nrInode) : Prop := s.iDev k = dev ∧ s.iNum k = nr

instance (dev nr : Word) (k : Fin Fs.nrInode) : Decidable (s.Is dev nr k) := inferInstanceAs (Decidable (_ ∧ _))

def setCount (k : Fin Fs.nrInode) (c : ℕ) : InodeSlots := { s with iCount := Function.update s.iCount k c }

def assign (k : Fin Fs.nrInode) (dev nr : Word) : InodeSlots :=
  { s with iDev := Function.update s.iDev k dev, iNum := Function.update s.iNum k nr }

/-- The search of `get_empty_inode`, round the table from the entry it took last. -/
def unused : Option (Fin Fs.nrInode) :=
  ((List.finRange Fs.nrInode).map (s.lastAllocatedInode + ·)).find? fun k => s.iCount k = 0

def getEmptyInode : Except Fault (Fin Fs.nrInode × InodeSlots) :=
  match s.unused with
  | none => .error .panic
  | some k => .ok (k, { (s.assign k 0 0).setCount k 1 with lastAllocatedInode := k })

/-- `iput`, of an inode with links. -/
def iput (k : Fin Fs.nrInode) : Except Fault InodeSlots :=
  if s.iCount k = 0 then .error .panic else .ok (s.setCount k (s.iCount k - 1))

def iget (dev nr : Word) : Except Fault (Fin Fs.nrInode × InodeSlots) :=
  if dev = 0 then .error .panic
  else s.getEmptyInode.bind fun (empty, s) =>
    match (List.finRange Fs.nrInode).find? fun k => s.Is dev nr k with
    | some k => ((s.setCount k (s.iCount k + 1)).iput empty).map (k, ·)
    | none => .ok (empty, s.assign empty dev nr)

end InodeSlots

/-- What the walks find: the entries of a directory from the third to the last before one without an inode. -/
structure DirDisk where
  dev : Word
  entries : Word → List DirEntry
  isDir : Word → Bool
  block : Word → Word

/-- `handed` has the files and directories given to `encrypt_file` or `decrypt_file`, which give back each buffer that
they take. -/
structure Traversal where
  inodes : InodeSlots
  bCount : Word → ℕ
  stack : List (Fin Fs.nrInode)
  handed : List Word

namespace Traversal

variable (d : DirDisk) (q : Direction) (root : Fin Fs.nrInode) (w : Traversal)

def hand (n : Word) : Traversal := { w with handed := w.handed ++ [n] }

def setInodes (s : InodeSlots) : Traversal := { w with inodes := s }

def bread (b : Word) : Traversal := { w with bCount := Function.update w.bCount b (w.bCount b + 1) }

def brelse (b : Word) : Except Fault Traversal :=
  if w.bCount b = 0 then .error .panic else .ok { w with bCount := Function.update w.bCount b (w.bCount b - 1) }

/-- `push_func`, to an array that ends. -/
def push (k : Fin Fs.nrInode) : Except Fault Traversal :=
  if w.stack.length < stackSize then .ok { w with stack := k :: w.stack } else .error .overrun

/-- A turn of the loop over the entries of a directory. -/
def entry (e : DirEntry) : Except Fault Traversal :=
  if e.name = hiddenMark then .ok w
  else (w.inodes.iget d.dev e.inode).bind fun (tmp, s) =>
    if d.isDir e.inode then (w.setInodes s).push tmp
    else (s.iput tmp).map fun s => (w.hand e.inode).setInodes s

def scan : List DirEntry → Traversal → Except Fault Traversal
  | [], w => .ok w
  | e :: es, w => (w.entry d e).bind (scan es)

/-- `decrypt_directory` decrypts a directory first. -/
def handFirst (n : Word) : Traversal :=
  match q with
  | .encr => w
  | .decr => w.hand n

/-- `encrypt_directory` encrypts a directory last. -/
def handLast (n : Word) : Traversal :=
  match q with
  | .encr => w.hand n
  | .decr => w

/-- A turn of the loop over the stack, from `pop_func` on. -/
def visit (currentNode : Fin Fs.nrInode) : Except Fault Traversal :=
  let n := w.inodes.iNum currentNode
  (scan d (d.entries n) ((handFirst q w n).bread (d.block n))).bind fun w =>
    ((handLast q w n).brelse (d.block n)).bind fun w =>
      if currentNode = root then .ok w else (w.inodes.iput currentNode).map w.setInodes

def pass : Pass Traversal (Except Fault Traversal) :=
  match w.stack with
  | [] => .leave (.ok w)
  | currentNode :: stack =>
    match visit d q root { w with stack := stack } currentNode with
    | .error e => .leave (.error e)
    | .ok w => .again w

end Traversal

/-- The entries of a directory, with those of the directories among them. -/
inductive DirTree where
  | nil
  | hidden (e : DirEntry) (rest : DirTree)
  | file (e : DirEntry) (rest : DirTree)
  | dir (e : DirEntry) (below rest : DirTree)

namespace DirTree

def list : DirTree → List DirEntry
  | nil => []
  | hidden e rest => e :: rest.list
  | file e rest => e :: rest.list
  | dir e _ rest => e :: rest.list

/-- The directories among the entries. -/
def tops : DirTree → List Word
  | nil => []
  | hidden _ rest => rest.tops
  | file _ rest => rest.tops
  | dir e _ rest => e.inode :: rest.tops

def dirs : DirTree → List Word
  | nil => []
  | hidden _ rest => rest.dirs
  | file _ rest => rest.dirs
  | dir e below rest => e.inode :: (below.dirs ++ rest.dirs)

/-- The disk has the tree. -/
def On (d : DirDisk) : DirTree → Prop
  | nil => True
  | hidden e rest => e.name = hiddenMark ∧ rest.On d
  | file e rest => e.name ≠ hiddenMark ∧ d.isDir e.inode = false ∧ rest.On d
  | dir e below rest =>
    e.name ≠ hiddenMark ∧ d.isDir e.inode = true ∧ d.entries e.inode = below.list ∧ below.On d ∧ rest.On d

/-- At each entry that is looked up fewer inodes are held than are free: `base` for the directories that wait, `own`
for the one with the entries, and `cost` for each further directory. -/
def Fits (cost : Word → ℕ) (free : ℕ) : ℕ → ℕ → DirTree → Prop
  | _, _, nil => True
  | own, base, hidden _ rest => Fits cost free own base rest
  | own, base, file _ rest => base + own < free ∧ Fits cost free own base rest
  | own, base, dir e below rest =>
    base + own < free ∧ Fits cost free (cost e.inode) base below ∧ Fits cost free own (base + cost e.inode) rest

end DirTree

namespace InodeSlots

variable {s s' s₀ : InodeSlots} {dev nr : Word} {k j : Fin Fs.nrInode}

/-- How many inodes are not in use. -/
def free (s : InodeSlots) : ℕ := (Finset.univ.filter fun k => s.iCount k = 0).card

/-- The number of inodes that a reference takes: none if the inode is in use. -/
def cost (s : InodeSlots) (dev nr : Word) : ℕ := if ∃ k, s.Is dev nr k ∧ s.iCount k ≠ 0 then 0 else 1

/-- No inode is in the table twice. -/
def Unique (s : InodeSlots) : Prop := ∀ k j, s.iDev k ≠ 0 → s.iDev k = s.iDev j → s.iNum k = s.iNum j → k = j

@[simp] lemma setCount_self {c : ℕ} : (s.setCount k c).iCount k = c := Function.update_self _ _ _

@[simp] lemma setCount_of_ne {c : ℕ} (h : j ≠ k) : (s.setCount k c).iCount j = s.iCount j := Function.update_of_ne h _ _

lemma Unique.eq_of_is (h : s.Unique) (hdev : dev ≠ 0) (hk : s.Is dev nr k) (hj : s.Is dev nr j) : k = j :=
  h k j (hk.1 ▸ hdev) (hk.1.trans hj.1.symm) (hk.2.trans hj.2.symm)

lemma unused_none_iff : s.unused = none ↔ s.free = 0 := by
  rw [unused, List.find?_eq_none, free, Finset.card_eq_zero, Finset.filter_eq_empty_iff]
  constructor
  · intro h k _ hk
    refine h k (List.mem_map.mpr ⟨k - s.lastAllocatedInode, List.mem_finRange _, ?_⟩) (decide_eq_true hk)
    exact add_sub_cancel _ _
  · intro h k _ hk
    exact h (Finset.mem_univ k) (of_decide_eq_true hk)

lemma count_of_unused (h : s.unused = some k) : s.iCount k = 0 := by
  rw [unused] at h
  simpa using List.find?_some h

lemma free_congr (h : ∀ k, s'.iCount k = 0 ↔ s.iCount k = 0) : s'.free = s.free := by
  rw [free, free]
  exact congrArg Finset.card (Finset.filter_congr fun k _ => h k)

/-- One more inode in use. -/
lemma free_succ (hk : s.iCount k = 0) (hk' : s'.iCount k ≠ 0) (h : ∀ j, j ≠ k → (s'.iCount j = 0 ↔ s.iCount j = 0)) :
    s'.free + 1 = s.free := by
  have herase : (Finset.univ.filter fun j => s'.iCount j = 0) =
      (Finset.univ.filter fun j => s.iCount j = 0).erase k := by
    ext j
    rw [Finset.mem_erase, Finset.mem_filter, Finset.mem_filter]
    by_cases hj : j = k
    · subst hj
      exact iff_of_false (fun hm => hk' hm.2) (fun hm => hm.1 rfl)
    · rw [h j hj]
      exact ⟨fun hm => ⟨hj, hm⟩, fun hm => hm.2⟩
  rw [free, free, herase]
  exact Finset.card_erase_add_one (Finset.mem_filter.mpr ⟨Finset.mem_univ k, hk⟩)

lemma iget_panics (h : s.free = 0) : s.iget dev nr = .error .panic := by
  rw [iget, getEmptyInode, unused_none_iff.mpr h]
  exact ite_self _

/-- A reference more to an inode, and no change to the others that are in use. -/
lemma iget_spec (h : s.Unique) (hdev : dev ≠ 0) (hfree : s.free ≠ 0) :
    ∃ k s', s.iget dev nr = .ok (k, s') ∧ s'.Is dev nr k ∧ s'.iCount = Function.update s.iCount k (s.iCount k + 1) ∧
      (∀ j, s.iCount j ≠ 0 → s'.iDev j = s.iDev j ∧ s'.iNum j = s.iNum j) ∧ s'.Unique := by
  obtain ⟨m, hm⟩ := Option.ne_none_iff_exists'.mp (mt unused_none_iff.mp hfree)
  have hzero := count_of_unused hm
  let t : InodeSlots := { (s.assign m 0 0).setCount m 1 with lastAllocatedInode := m }
  have hempty : s.getEmptyInode = .ok (m, t) := by
    rw [getEmptyInode, hm]
  have hdevs : ∀ j, j ≠ m → t.iDev j = s.iDev j := fun j hj => Function.update_of_ne hj _ _
  have hnums : ∀ j, j ≠ m → t.iNum j = s.iNum j := fun j hj => Function.update_of_ne hj _ _
  have hm₀ : t.iDev m = 0 := Function.update_self _ _ _
  have hkeys : ∀ j, s.iCount j ≠ 0 → t.iDev j = s.iDev j ∧ t.iNum j = s.iNum j := by
    intro j hj
    have hne : j ≠ m := fun h => hj (h ▸ hzero)
    exact ⟨hdevs j hne, hnums j hne⟩
  have hunique : t.Unique := by
    intro i j hi hd hn
    have hi' : i ≠ m := fun h => hi (h ▸ hm₀)
    have hj' : j ≠ m := fun h => hi (hd.trans (h ▸ hm₀))
    rw [hdevs i hi'] at hi hd
    rw [hdevs j hj'] at hd
    rw [hnums i hi', hnums j hj'] at hn
    exact h i j hi hd hn
  rw [iget, if_neg hdev, hempty, Except.bind]
  dsimp only
  cases hfind : (List.finRange Fs.nrInode).find? fun k => t.Is dev nr k with
  | some k =>
    have hk : t.Is dev nr k := by simpa using List.find?_some hfind
    have hkm : k ≠ m := fun h => hdev (hk.1.symm.trans (h ▸ hm₀))
    have hcount : (t.setCount k (t.iCount k + 1)).iCount m = 1 :=
      (setCount_of_ne hkm.symm).trans setCount_self
    have hcountk : t.iCount k = s.iCount k := Function.update_of_ne hkm _ _
    refine ⟨k, (t.setCount k (t.iCount k + 1)).setCount m 0, ?_, hk, ?_, hkeys, hunique⟩
    · dsimp only
      rw [iput, if_neg (by rw [hcount]; decide), hcount]
      rfl
    · change Function.update (Function.update (Function.update s.iCount m 1) k (t.iCount k + 1)) m 0 = _
      funext j
      by_cases hjm : j = m
      · rw [hjm, Function.update_self, Function.update_of_ne hkm.symm, hzero]
      · rw [Function.update_of_ne hjm, hcountk]
        by_cases hjk : j = k
        · rw [hjk, Function.update_self, Function.update_self]
        · rw [Function.update_of_ne hjk, Function.update_of_ne hjm, Function.update_of_ne hjk]
  | none =>
    have hnone : ∀ j, ¬t.Is dev nr j := fun j hj =>
      List.find?_eq_none.mp hfind j (List.mem_finRange j) (decide_eq_true hj)
    have hdevs' : ∀ j, j ≠ m → (t.assign m dev nr).iDev j = t.iDev j := fun j hj => Function.update_of_ne hj _ _
    have hnums' : ∀ j, j ≠ m → (t.assign m dev nr).iNum j = t.iNum j := fun j hj => Function.update_of_ne hj _ _
    have hm' : (t.assign m dev nr).Is dev nr m := ⟨Function.update_self _ _ _, Function.update_self _ _ _⟩
    refine ⟨m, t.assign m dev nr, rfl, hm', ?_, fun j hj => ?_, fun i j hi hd hn => ?_⟩
    · rw [hzero]
      rfl
    · have hne : j ≠ m := fun h => hj (h ▸ hzero)
      rw [hdevs' j hne, hnums' j hne]
      exact hkeys j hj
    · by_cases him : i = m
      · by_cases hjm : j = m
        · rw [him, hjm]
        · subst him
          rw [hm'.1, hdevs' j hjm] at hd
          rw [hm'.2, hnums' j hjm] at hn
          exact absurd ⟨hd.symm, hn.symm⟩ (hnone j)
      · by_cases hjm : j = m
        · subst hjm
          rw [hm'.1, hdevs' i him] at hd
          rw [hm'.2, hnums' i him] at hn
          exact absurd ⟨hd, hn⟩ (hnone i)
        · rw [hdevs' i him] at hi hd
          rw [hdevs' j hjm] at hd
          rw [hnums' i him, hnums' j hjm] at hn
          exact hunique i j hi hd hn

/-- The inodes that the references of `held` take. -/
def costs (s₀ : InodeSlots) (dev : Word) (held : List (Fin Fs.nrInode × Word)) : ℕ :=
  (held.map fun x => s₀.cost dev x.2).sum

/-- The table `s` is `s₀` with a reference to each inode of `held` more. -/
structure Holding (s₀ : InodeSlots) (dev : Word) (held : List (Fin Fs.nrInode × Word)) (s : InodeSlots) : Prop where
  unique : s.Unique
  count : ∀ k, s.iCount k = s₀.iCount k + (held.map Prod.fst).count k
  key : ∀ k, s₀.iCount k ≠ 0 → s.iDev k = s₀.iDev k ∧ s.iNum k = s₀.iNum k
  key_held : ∀ x ∈ held, s.Is dev x.2 x.1
  nodup : (held.map Prod.fst).Nodup
  free : s.free + s₀.costs dev held = s₀.free

variable {held held' : List (Fin Fs.nrInode × Word)}

@[simp] lemma costs_cons : s₀.costs dev ((k, nr) :: held) = s₀.cost dev nr + s₀.costs dev held := by simp [costs]

/-- A reference takes an inode if there was none to it at the start. -/
lemma cost_eq (hunique : s.Unique) (hdev : dev ≠ 0)
    (hkeys : ∀ k, s₀.iCount k ≠ 0 → s.iDev k = s₀.iDev k ∧ s.iNum k = s₀.iNum k) (hk : s.Is dev nr k) :
    s₀.cost dev nr = if s₀.iCount k = 0 then 1 else 0 := by
  split_ifs with hused
  · apply if_neg
    rintro ⟨j, hj, hne⟩
    have hj' : s.Is dev nr j := ⟨(hkeys j hne).1.trans hj.1, (hkeys j hne).2.trans hj.2⟩
    exact hne (hunique.eq_of_is hdev hj' hk ▸ hused)
  · exact if_pos ⟨k, ⟨(hkeys k hused).1.symm.trans hk.1, (hkeys k hused).2.symm.trans hk.2⟩, hused⟩

lemma Holding.start (h : s₀.Unique) : Holding s₀ dev [] s₀ :=
  ⟨h, fun _ => rfl, fun _ _ => ⟨rfl, rfl⟩, fun _ hx => absurd hx List.not_mem_nil, List.nodup_nil, rfl⟩

lemma Holding.perm (h : Holding s₀ dev held s) (hperm : held.Perm held') : Holding s₀ dev held' s := by
  have hfst := hperm.map Prod.fst
  refine ⟨h.unique, fun k => ?_, h.key, fun x hx => h.key_held x (hperm.mem_iff.mpr hx), hfst.nodup_iff.mp h.nodup, ?_⟩
  · rw [h.count, hfst.count_eq]
  · rw [costs, ← (hperm.map fun x => s₀.cost dev x.2).sum_eq]
    exact h.free

lemma Holding.not_mem (h : Holding s₀ dev held s) (hnr : ∀ x ∈ held, x.2 ≠ nr) (hk : s.Is dev nr k) :
    k ∉ held.map Prod.fst := by
  intro hmem
  obtain ⟨x, hx, rfl⟩ := List.mem_map.mp hmem
  exact hnr x hx ((h.key_held x hx).2.symm.trans hk.2)

/-- The reference is to an inode in use, or it takes one. -/
lemma Holding.iget (h : Holding s₀ dev held s) (hdev : dev ≠ 0) (hnr : ∀ x ∈ held, x.2 ≠ nr)
    (hfits : s₀.costs dev held < s₀.free) :
    ∃ k s', s.iget dev nr = .ok (k, s') ∧ Holding s₀ dev ((k, nr) :: held) s' := by
  have hfree := h.free
  obtain ⟨k, s', hrun, hk, hcount, hkeys, hunique⟩ := @iget_spec s dev nr h.unique hdev (by omega)
  have hself : s'.iCount k = s.iCount k + 1 := by rw [hcount, Function.update_self]
  have hother : ∀ j, j ≠ k → s'.iCount j = s.iCount j := fun j hj => by rw [hcount, Function.update_of_ne hj]
  have hnot : k ∉ held.map Prod.fst := by
    intro hmem
    have hused : s.iCount k ≠ 0 := by
      rw [h.count]
      have hpos := List.count_pos_iff.mpr hmem
      omega
    exact h.not_mem hnr ⟨(hkeys k hused).1.symm.trans hk.1, (hkeys k hused).2.symm.trans hk.2⟩ hmem
  have hcount₀ : s.iCount k = s₀.iCount k := by
    rw [h.count, List.count_eq_zero_of_not_mem hnot]
    rfl
  have hkey₀ : ∀ j, s₀.iCount j ≠ 0 → s'.iDev j = s₀.iDev j ∧ s'.iNum j = s₀.iNum j := by
    intro j hj
    obtain ⟨hd, hn⟩ := hkeys j (by rw [h.count]; omega)
    exact ⟨hd.trans (h.key j hj).1, hn.trans (h.key j hj).2⟩
  refine ⟨k, s', hrun, hunique, fun j => ?_, hkey₀, fun x hx => ?_, ?_, ?_⟩
  · rw [List.map_cons]
    by_cases hj : j = k
    · subst hj
      rw [hself, h.count, List.count_cons_self, Nat.add_assoc]
    · rw [hother j hj, h.count, List.count_cons_of_ne (Ne.symm hj)]
  · rcases List.mem_cons.mp hx with rfl | hx
    · exact hk
    · have hused : s.iCount x.1 ≠ 0 := by
        rw [h.count]
        have hpos := List.count_pos_iff.mpr (List.mem_map_of_mem (f := Prod.fst) hx)
        omega
      exact ⟨(hkeys x.1 hused).1.trans (h.key_held x hx).1, (hkeys x.1 hused).2.trans (h.key_held x hx).2⟩
  · rw [List.map_cons, List.nodup_cons]
    exact ⟨hnot, h.nodup⟩
  · rw [costs_cons]
    have hcost := cost_eq hunique hdev hkey₀ hk
    by_cases hused : s₀.iCount k = 0
    · rw [if_pos hused] at hcost
      have hsucc := free_succ (hcount₀.trans hused) (by rw [hself]; exact Nat.succ_ne_zero _)
        fun j hj => by rw [hother j hj]
      omega
    · rw [if_neg hused] at hcost
      have hsame : s'.free = s.free := by
        apply free_congr
        intro j
        by_cases hj : j = k
        · subst hj
          omega
        · rw [hother j hj]
      omega

lemma Holding.iput (h : Holding s₀ dev ((k, nr) :: held) s) (hdev : dev ≠ 0) :
    ∃ s', s.iput k = .ok s' ∧ Holding s₀ dev held s' := by
  obtain ⟨hunique, hcounts, hkeys, hheld, hnodup, hfree⟩ := h
  rw [List.map_cons, List.nodup_cons] at hnodup
  have hk : s.Is dev nr k := hheld (k, nr) List.mem_cons_self
  have hcount : s.iCount k = s₀.iCount k + 1 := by
    rw [hcounts, List.map_cons, List.count_cons_self, List.count_eq_zero_of_not_mem hnodup.1]
  refine ⟨s.setCount k (s₀.iCount k), ?_, hunique, fun j => ?_, hkeys,
    fun x hx => hheld x (List.mem_cons_of_mem _ hx), hnodup.2, ?_⟩
  · rw [InodeSlots.iput, hcount, if_neg (Nat.succ_ne_zero _), Nat.add_sub_cancel]
  · by_cases hj : j = k
    · subst hj
      rw [setCount_self, List.count_eq_zero_of_not_mem hnodup.1]
      rfl
    · rw [setCount_of_ne hj, hcounts, List.map_cons, List.count_cons_of_ne (Ne.symm hj)]
  · rw [costs_cons] at hfree
    have hcost := cost_eq hunique hdev hkeys hk
    by_cases hused : s₀.iCount k = 0
    · rw [if_pos hused] at hcost
      have hsucc : s.free + 1 = (s.setCount k (s₀.iCount k)).free :=
        free_succ (setCount_self.trans hused) (by omega) fun j hj => by rw [setCount_of_ne hj]
      omega
    · rw [if_neg hused] at hcost
      have hsame : (s.setCount k (s₀.iCount k)).free = s.free := by
        apply free_congr
        intro j
        by_cases hj : j = k
        · subst hj
          rw [setCount_self]
          omega
        · rw [setCount_of_ne hj]
      omega

end InodeSlots

end Devos.Security
