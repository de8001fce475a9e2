import Devos.Security.TableCalls

/-! The life of inode numbers, from `new_inode` to `free_inode`, beside the table of encrypted files. -/

namespace Devos.Kernel

open Security Runs

/-- The inodes of the root device. `born` counts how often a number has been given out, and
`encrypted` is the count at which it was last put into the table: both are history. -/
structure Life where
  imap : Word → Bool
  imapBits : ℕ
  nInodes : ℕ
  isDir : Word → Bool
  nlinks : Word → ℕ
  opens : Word → ℕ
  table : HashTable
  born : Word → ℕ
  encrypted : Word → ℕ

namespace Life

def findFirstZero (s : Life) : Option ℕ :=
  (List.range s.imapBits).find? (fun j => !s.imap (BitVec.ofNat 16 j))

def newInode (s : Life) : Option (Word × Life) :=
  match s.findFirstZero with
  | none => none
  | some j =>
    if s.nInodes < j then none
    else
      let i : Word := BitVec.ofNat 16 j
      some (i, { s with
        imap := Function.update s.imap i true
        nlinks := Function.update s.nlinks i 1
        born := Function.update s.born i (s.born i + 1) })

def iput (s : Life) (i : Word) : Life :=
  if s.opens i = 0 ∧ s.nlinks i = 0 then { s with imap := Function.update s.imap i false } else s

def setLinks (s : Life) (i : Word) (k : ℕ) : Life :=
  { s with nlinks := Function.update s.nlinks i k }

def setOpens (s : Life) (i : Word) (k : ℕ) : Life :=
  { s with opens := Function.update s.opens i k }

def Named (s : Life) (i : Word) : Prop := i ≠ 0 ∧ s.imap i = true ∧ 0 < s.nlinks i

end Life

section Steps

variable {s : Life}

end Steps

end Devos.Kernel
