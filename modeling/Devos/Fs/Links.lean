import Devos.Library.Runs
import Devos.Fs.Mkdir

/-! Link counts over runs of `open`, `link`, `unlink`, `mkdir` and `rmdir`, on directories as lists of
entries. -/

namespace Devos.Fs

open Runs

structure Entry where
  inode : Word
  name : List Byte

/-- Inodes and directories. `opens` counts the references that are held between the calls; the entries
of a directory are those below its `size`. -/
structure Tree where
  iMode : Word → Word
  iNlinks : Word → Byte
  imap : Word → Bool
  imapBits : ℕ
  nInodes : ℕ
  opens : Word → ℕ
  size : Word → ℕ
  entry : Word → ℕ → Entry

def eacces : ℤ := 13
def enotdir : ℤ := 20
def eisdir : ℤ := 21
def ebadf : ℤ := 9
def enotempty : ℤ := 39

def iRegular : Word := 0o100000

/-- What a call finds besides the tree: the rights of the process, whether `new_block` has a zone, and
whether the new blocks can be read and hold the entry. -/
structure Chance where
  superUser : Bool
  search : Word → Bool
  write : Word → Bool
  access : Word → Bool
  zone : Bool
  room : Bool

namespace Tree

variable (s : Tree)

def isDir (n : Word) : Bool := sIsDir (s.iMode n)

/-- The inode that entry `k` of `d` names, 0 for a free entry. -/
def named (d : Word) (k : ℕ) : Word := if k < s.size d then (s.entry d k).inode else 0

/-- What `get_dir` can come to: `permission` turns every directory without links away. -/
def Live (d : Word) : Prop := s.imap d = true ∧ s.isDir d = true ∧ s.iNlinks d ≠ 0

instance (d : Word) : Decidable (s.Live d) := inferInstanceAs (Decidable (_ ∧ _))

def setLinks (n : Word) (links : Byte) : Tree := { s with iNlinks := Function.update s.iNlinks n links }

def setMode (n mode : Word) : Tree := { s with iMode := Function.update s.iMode n mode }

def setOpens (n : Word) (count : ℕ) : Tree := { s with opens := Function.update s.opens n count }

def setEntry (d : Word) (k : ℕ) (e : Entry) : Tree :=
  { s with
    entry := Function.update s.entry d (Function.update (s.entry d) k e)
    size := Function.update s.size d (max (s.size d) (k + 1)) }

def hold (n : Word) : Tree := s.setOpens n (s.opens n + 1)

def findEntry (d : Word) (name : List Byte) : Option ℕ :=
  if name = [] then none
  else (List.range (s.size d)).find? fun k =>
    decide ((s.entry d k).inode ≠ 0 ∧ (s.entry d k).name = name.take nameLen)

def freeEntry (d : Word) : ℕ :=
  ((List.range (s.size d)).find? fun k => decide ((s.entry d k).inode = 0)).getD (s.size d)

def enter (d n : Word) (name : List Byte) : Tree := s.setEntry d (s.freeEntry d) ⟨n, name.take nameLen⟩

def clear (d : Word) (k : ℕ) : Tree := s.setEntry d k { s.entry d k with inode := 0 }

def newInode : Option Word :=
  match (List.range s.imapBits).find? fun j => !s.imap (BitVec.ofNat 16 j) with
  | none => none
  | some j => if s.nInodes < j then none else some (BitVec.ofNat 16 j)

-- the inode is cleared in memory when `new_inode` takes it
def allot (n mode : Word) (links : Byte) : Tree :=
  { s with
    imap := Function.update s.imap n true
    iMode := Function.update s.iMode n mode
    iNlinks := Function.update s.iNlinks n links
    opens := Function.update s.opens n 0
    size := Function.update s.size n 0 }

/-- `iput` of the reference that a call has taken. -/
def iput (n : Word) : Tree :=
  if s.opens n = 0 ∧ s.iNlinks n = 0 then { s with imap := Function.update s.imap n false } else s

/-- Whether `get_dir` returns `d`. -/
def Entered (c : Chance) (d : Word) : Prop := s.Live d ∧ c.search d = true

instance (c : Chance) (d : Word) : Decidable (s.Entered c d) := inferInstanceAs (Decidable (_ ∧ _))

-- the reference to a live directory goes back without effect unless its count has changed
def openNamei (c : Chance) (d : Word) (name : List Byte) (creat excl : Bool) (mode : Word) : ℤ × Tree :=
  if ¬ s.Entered c d then (-enoent, s)
  else if name = [] then if creat ∨ ¬ c.access d then (-eisdir, s) else (0, s.hold d)
  else
    match s.findEntry d name with
    | none =>
      if ¬ creat then (-enoent, s)
      else if ¬ c.write d then (-eacces, s)
      else
        match s.newInode with
        | none => (-enospc, s)
        | some n =>
          let s := s.allot n (iRegular ||| mode &&& 0o777) 1
          if ¬ c.room then (-enospc, (s.setLinks n (s.iNlinks n - 1)).iput n)
          else (0, (s.enter d n name).hold n)
    | some k =>
      let n := (s.entry d k).inode
      if excl then (-eexist, s)
      else if ¬ c.access n then (-eperm, s.iput n)
      else (0, s.hold n)

def close (n : Word) : ℤ × Tree :=
  if s.opens n = 0 then (-ebadf, s) else (0, (s.setOpens n (s.opens n - 1)).iput n)

def namei (c : Chance) (d : Word) (name : List Byte) : Option Word :=
  if ¬ s.Entered c d then none
  else if name = [] then some d
  else (s.findEntry d name).map fun k => (s.entry d k).inode

def sysLink (c : Chance) (oldDir : Word) (oldName : List Byte) (d : Word) (name : List Byte) : ℤ × Tree :=
  match s.namei c oldDir oldName with
  | none => (-enoent, s)
  | some n =>
    if ¬ sIsReg (s.iMode n) then (-eperm, s.iput n)
    else if ¬ s.Entered c d then (-eacces, s.iput n)
    else if name = [] then (-eperm, s.iput n)
    else if ¬ c.write d then (-eacces, s.iput n)
    else
      match s.findEntry d name with
      | some _ => (-eexist, s.iput n)
      | none =>
        if ¬ c.room then (-enospc, s.iput n)
        else (0, ((s.enter d n name).setLinks n (s.iNlinks n + 1)).iput n)

def sysUnlink (c : Chance) (d : Word) (name : List Byte) : ℤ × Tree :=
  if ¬ s.Entered c d then (-enoent, s)
  else if name = [] then (-enoent, s)
  else if ¬ c.write d then (-eperm, s)
  else
    match s.findEntry d name with
    | none => (-enoent, s)
    | some k =>
      let n := (s.entry d k).inode
      if ¬ sIsReg (s.iMode n) then (-eperm, s.iput n)
      else
        let links := if s.iNlinks n = 0 then 1 else s.iNlinks n
        (0, ((s.clear d k).setLinks n (links - 1)).iput n)

def dots (n d : Word) : Tree := (s.setEntry n 0 ⟨n, [46]⟩).setEntry n 1 ⟨d, [46, 46]⟩

def sysMkdir (c : Chance) (d : Word) (name : List Byte) (mode : Word) : Except Fault (ℤ × Tree) :=
  if ¬ c.superUser then .ok (-eperm, s)
  else if ¬ s.Entered c d then .ok (-enoent, s)
  else if name = [] then .ok (-enoent, s)
  else if ¬ c.write d then .ok (-eperm, s)
  else
    match s.findEntry d name with
    | some _ => .ok (-eexist, s)
    | none =>
      match s.newInode with
      | none => .ok (-enospc, s)
      | some n =>
        if ¬ c.zone then
          let s := s.allot n 0 1
          .ok (-enospc, (s.setLinks n (s.iNlinks n - 1)).iput n)
        else
          let s := ((s.allot n 0 1).dots n d).setLinks n 2
          -- the new block is freed by the call, and once more by `truncate`
          if ¬ c.room then .error .panic
          else
            let s := (s.setMode n (iDirectory ||| mode &&& 0o777)).enter d n name
            .ok (0, ((s.setLinks d (s.iNlinks d + 1)).iput d).iput n)

def emptyDir (n : Word) : Bool :=
  2 ≤ s.size n ∧ (s.entry n 0).inode = n ∧ (s.entry n 1).inode ≠ 0 ∧ (s.entry n 0).name = [46] ∧
    (s.entry n 1).name = [46, 46] ∧ ∀ k < s.size n, 2 ≤ k → (s.entry n k).inode = 0

def sysRmdir (c : Chance) (d : Word) (name : List Byte) : ℤ × Tree :=
  if ¬ c.superUser then (-eperm, s)
  else if ¬ s.Entered c d then (-enoent, s)
  else if name = [] then (-enoent, s)
  else
    match s.findEntry d name with
    | none => (-enoent, s)
    | some k =>
      let n := (s.entry d k).inode
      if ¬ c.write d then (-eperm, s)
      else if n = d then (-eperm, s.iput n)
      else if ¬ s.isDir n then (-enotdir, s.iput n)
      else if ¬ s.emptyDir n then (-enotempty, s.iput n)
      else (0, ((((s.clear d k).setLinks n 0).setLinks d (s.iNlinks d - 1)).iput d).iput n)

end Tree

end Devos.Fs
