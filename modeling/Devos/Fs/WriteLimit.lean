import Devos.Fs.BlockPath
import Devos.Fs.PlainFile

/-! A write at any position: how far it gets, and when it comes to the end of the block map. -/

namespace Devos.Fs

open Loops Security

section Affords

variable {v v' : Volume} {inode inode' : MInode} {r : Ref} {z : Word} {l : List Ref} {i n : ℕ}

end Affords

/-- `key_to_use` can be used by the block routines. -/
def Fits (key : CString) : Prop := 0 < key.strlen ∧ key.strlen < keySize

section Cipher

variable {keys : KeyView} {table : HashTable} {iNum : Word} {scratchD scratchE b b' : Block} {isEncr e f : Bool}
  {c chunk : ℕ} {buf : ℕ → Byte} {key : CString}

end Cipher

section Steps

variable {keys : ℕ → KeyView} {table : HashTable} {v w : Volume} {inode inode' : MInode} {isEncr f : Bool}
  {iNum : Word} {a n last : ℕ}

end Steps

section Loop

variable {keys : ℕ → KeyView} {table : HashTable} {scratchD scratchE : ℕ → Block} {buf : ℕ → Byte} {count : ℕ}
  {s : Writing}

end Loop

/-- The call comes back with a negative error or with how many of `count` bytes it has written. -/
def Answers (count : ℤ) (x : Except Fault WriteResult) : Prop :=
  ∃ r, x = .ok r ∧ (r.value < 0 ∨ 0 ≤ r.value ∧ r.value ≤ count)

section Calls

variable {keys : ℕ → KeyView} {table : HashTable} {scratchD scratchE : ℕ → Block} {v : Volume} {inode : MInode}
  {append : Bool} {fPos count : ℕ} {buf : ℕ → Byte}

end Calls

end Devos.Fs
