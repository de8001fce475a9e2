import Devos.Basic
import Devos.Library.ExchangeSort

/-! The block cipher of `security.c`: a columnar transposition under `key_to_use`. -/

namespace Devos.Security

open Loops ExchangeSort

abbrev keySize : ℕ := 32

def isPowerOfTwo (num : ℕ) : Bool :=
  if num < 2 then false else num &&& (num - 1) = 0

def Accepted (key : CString) : Prop := isPowerOfTwo key.strlen = true

instance (key : CString) : Decidable (Accepted key) := inferInstanceAs (Decidable (_ = true))

/-- Building the matrix: byte `i` goes to cell `k`, and `k` steps by `colSize` modulo
`blockSize - 1`. The array is a local one, so its cells start out as `scratch`. -/
def buildMatrix (colSize : ℕ) (scratch data : Block) : Block :=
  let filled := forLoop 0 blockSize
    (fun i (s : Block × ℕ) => (s.1.setByte s.2 (data.byte i), (s.2 + colSize) % (blockSize - 1)))
    (scratch, 0)
  filled.1.setByte 0 (data.byte 0)

def columnOffsets (colSize : ℕ) : ℕ → ℕ := fun i => i * colSize

def copyBack (keyLen colSize : ℕ) (matrix : Block) (columns : ℕ → ℕ) (buffer : Block) : Block :=
  (forLoop 0 colSize
    (fun i (s : Block × ℕ) =>
      forLoop 0 keyLen (fun j s => (s.1.setByte s.2 (matrix.byte (columns j + i)), s.2 + 1)) s)
    (buffer, 0)).1

structure Columns where
  key : ℕ → Byte
  columns : ℕ → ℕ
  currMin : ℤ

def sortColumns (keyLen : ℕ) (s : Columns) : Columns :=
  forLoop 0 keyLen
    (fun i s =>
      forLoop i keyLen
        (fun j s =>
          if (s.key j).toInt < s.currMin then
            { columns := exchange s.columns i j, currMin := (s.key j).toInt, key := exchange s.key i j }
          else s)
        { s with currMin := (s.key i).toInt })
    s

def encryptBlock (keyToUse : CString) (scratch data buffer : Block) : Except Fault Block :=
  let keyLen := keyToUse.strlen
  if keySize ≤ keyLen then .error .overrun       -- `strcpy` runs past `key[KEY_SIZE]`
  else if keyLen = 0 then .error .divide
  else
    let colSize := blockSize / keyLen
    let sorted := sortColumns keyLen
      { key := keyToUse.char, columns := columnOffsets colSize, currMin := 0 }
    .ok (copyBack keyLen colSize (buildMatrix colSize scratch data) sorted.columns buffer)

def sortKey (keyLen : ℕ) (key : ℕ → Byte) : ℕ → Byte :=
  forLoop 0 keyLen
    (fun i key =>
      forLoop i keyLen
        (fun j key => if (key j).toInt < (key i).toInt then exchange key i j else key)
        key)
    key

structure Rearranged where
  sortedKey : ℕ → Byte
  columns : ℕ → ℕ

def rearrange (keyLen : ℕ) (keyToUse : ℕ → Byte) (s : Rearranged) : Rearranged :=
  forLoop 0 keyLen
    (fun i s =>
      forLoop i keyLen
        (fun j s =>
          if keyToUse i = s.sortedKey j then
            { sortedKey := exchange s.sortedKey i j, columns := exchange s.columns i j }
          else s)
        s)
    s

def decryptBlock (keyToUse : CString) (scratch data buffer : Block) : Except Fault Block :=
  let keyLen := keyToUse.strlen
  if keySize ≤ keyLen then .error .overrun
  else if keyLen = 0 then .error .divide
  else
    let colSize := blockSize / keyLen
    let columns := rearrange keyLen keyToUse.char
      { sortedKey := sortKey keyLen keyToUse.char, columns := columnOffsets colSize }
    .ok (copyBack keyLen colSize (buildMatrix colSize scratch data) columns.columns buffer)

def keyAB : CString := ⟨[0x61, 0x62], by decide⟩

end Devos.Security
