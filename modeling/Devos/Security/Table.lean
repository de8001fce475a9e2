import Devos.Basic
import Devos.Library.Loops
import Devos.Library.LinearProbing

/-! The table of encrypted files of `security.c`. -/

namespace Devos.Security

open Loops

abbrev tableSize : ℕ := 61
abbrev hkeySize : ℕ := 14

instance neZero_tableSize : NeZero tableSize := ⟨by decide⟩

abbrev HKey := Fin hkeySize → Byte

/-- `struct e_dir`: an inode number, 0 in a free slot, and the digest of the key. -/
structure EDir where
  iNum : Word
  hKey : HKey
  deriving DecidableEq

abbrev HashTable := Fin tableSize → EDir

def errAlrEnc : ℤ := -1
def errNotFnd : ℤ := -1
def errRm : ℤ := -1
def succRm : ℤ := 1
def einval : ℤ := 22

/-- `(HASH1(n) + i*HASH2(n)) % TABLE_SIZE`. The body of `HASH2` is `1+(x%(TABLE_SIZE-1))` without
parentheses around it, so `i` multiplies the 1 only. -/
def probe (n : Word) (i : ℕ) : Fin tableSize :=
  Fin.ofNat tableSize (n.toNat % tableSize + i * 1 + n.toNat % (tableSize - 1))

def compareHash (hash1 hash2 : HKey) : ℤ := if hash1 = hash2 then 1 else -einval

def addBody (self : HashTable) (value : EDir) (i : ℕ) : Pass ℕ (ℤ × HashTable) :=
  let index := probe value.iNum i
  if (self index).iNum = value.iNum then .leave (errAlrEnc, self)
  else if (self index).iNum ≠ 0 then .again (i + 1)
  else .leave (index, Function.update self index value)

/-- `add_func`; probes repeat after `tableSize` passes, so `none` means that it never returns. -/
def addFunc (self : HashTable) (value : EDir) : Option (ℤ × HashTable) :=
  iterate (addBody self value) tableSize 0

def searchBody (self : HashTable) (n : Word) (i : ℕ) : Pass ℕ ℤ :=
  let index := probe n i
  if (self index).iNum = n then .leave index
  else if (self index).iNum ≠ 0 then .again (i + 1)
  else .leave errNotFnd

def searchFunc (self : HashTable) (n : Word) : Option ℤ := iterate (searchBody self n) tableSize 0

def free (self : HashTable) (index : Fin tableSize) : HashTable :=
  Function.update self index { self index with iNum := 0 }

structure Removing where
  table : HashTable
  i : ℕ
  index : Fin tableSize
  found : Bool

def Removing.advance (n : Word) (s : Removing) : Removing :=
  { s with index := probe n s.i, i := s.i + 1 }

def removeBody (n : Word) (hashToUse : HKey) (s : Removing) : Pass Removing (ℤ × HashTable) :=
  if (s.table s.index).iNum = 0 then .leave (if s.found then succRm else errRm, s.table)
  else if (s.table s.index).iNum = n ∧ s.found = false then
    if compareHash hashToUse (s.table s.index).hKey = -einval then .leave (-einval, s.table)
    else
      -- this branch steps the index itself, and the end of the loop steps it once more
      .again (({ s with found := true, table := free s.table s.index }.advance n).advance n)
  else if s.found then
    match addFunc (free s.table s.index) (s.table s.index) with
    | some (_, table) => .again ({ s with table := table }.advance n)
    | none => .again s
  else .again (s.advance n)

def removeStart (self : HashTable) (n : Word) : Removing := ⟨self, 1, probe n 0, false⟩

-- enough for every call that returns at all
def removePasses : ℕ := tableSize * tableSize * tableSize + 3 * tableSize

/-- `remove_func`; `none` means that it never returns. -/
def removeFunc (self : HashTable) (n : Word) (hashToUse : HKey) : Option (ℤ × HashTable) :=
  iterate (removeBody n hashToUse) removePasses (removeStart self n)

def anyHKey : HKey := fun _ => 0

def emptyTable : HashTable := fun _ => ⟨0, anyHKey⟩

end Devos.Security
