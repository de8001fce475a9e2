import Devos.Security.TableCalls
import Devos.Security.Cipher
import Devos.Fs.Layout

/-! `file_read` and `file_write` of `file_dev.c`. -/

namespace Devos.Fs

open Loops Security LinearProbing

def error : ℤ := 99

/-- The two keys of a transfer: `effective` is the string that the local variable `key` points to,
the current process's own key if it has one and else the global key; `keyToUse` is the string that
the block routines find through the global pointer. -/
structure KeyView where
  effective : CString
  keyToUse : CString

def isEncrypted (keys : KeyView) (table : HashTable) (iNum : Word) : Except Fault Bool :=
  if 0 < keys.effective.strlen then
    match searchFunc table iNum with
    | none => .error .hang
    | some index => .ok (index ≠ errNotFnd)
  else .ok false

section Lookup

variable {table : HashTable} {n : Word} {keys : KeyView}

lemma isEncrypted_absent (hn : n ≠ 0) (hno : ¬ Stored table n) {found : Bool}
    (h : isEncrypted keys table n = .ok found) : found = false := by
  rw [isEncrypted] at h
  split at h
  next =>
    cases hs : searchFunc table n with
    | none =>
      rw [hs] at h
      cases h
    | some r =>
      rw [hs] at h
      cases h
      by_cases hex : ∃ z, (table z).iNum = n ∨ (table z).iNum = 0
      · rcases found_or_missing hn hex with ⟨z, hz⟩ | ⟨z, hz⟩
        · exact absurd ⟨z, ((found_iff hn).mp hz).1⟩ hno
        · rw [searchFunc_missing hn hz] at hs
          cases hs
          simp
      · push Not at hex
        rw [searchFunc_none hex] at hs
        cases hs
  next =>
    cases h
    rfl

end Lookup

structure Reading where
  fPos : ℕ
  left : ℕ
  out : List Byte

/-- Where `file_read` copies from: `nr` bytes into the buffer, or the start of the local array
`decrypted`. -/
def readSource (keys : KeyView) (table : HashTable) (iNum : Word) (scratch data : Block) (nr : ℕ) :
    Except Fault (ℕ → Byte) :=
  (isEncrypted keys table iNum).bind fun encrypted =>
    if encrypted then
      (decryptBlock keys.keyToUse scratch data scratch).map (fun decrypted k => decrypted.byte k)
    else .ok (fun k => data.byte (nr + k))

def readChunk (s : Reading) : ℕ := min (blockSize - s.fPos % blockSize) s.left

def Reading.take (s : Reading) (p : ℕ → Byte) : Reading where
  fPos := s.fPos + readChunk s
  left := s.left - readChunk s
  out := s.out ++ (List.range (readChunk s)).map p

def readBody (keys : ℕ → KeyView) (table : HashTable) (scratch : ℕ → Block) (v : Volume)
    (inode : MInode) (s : Reading) : Pass Reading (Except Fault Reading) :=
  if s.left = 0 then .leave (.ok s)
  else
    let block := s.fPos / blockSize
    match bmap v inode block with
    | .error f => .leave (.error f)
    | .ok nr =>
      if nr = 0 then .again (s.take (fun _ => 0))
      else if ¬ v.readable nr then .leave (.ok s)
      else
        match readSource (keys block) table inode.iNum (scratch block) (v.data nr)
          (s.fPos % blockSize) with
        | .error f => .leave (.error f)
        | .ok p => .again (s.take p)

structure ReadResult where
  value : ℤ
  fPos : ℕ
  out : List Byte

def fileRead (keys : ℕ → KeyView) (table : HashTable) (scratch : ℕ → Block) (v : Volume)
    (inode : MInode) (fPos count : ℕ) : Except Fault ReadResult :=
  if count = 0 then .ok ⟨0, fPos, []⟩
  else
    ((iterate (readBody keys table scratch v inode) (count + 1) ⟨fPos, count, []⟩).getD
      (.error .hang)).map fun s =>
        ⟨if count - s.left = 0 then -error else (count - s.left : ℕ), s.fPos, s.out⟩

structure Writing where
  pos : ℕ
  i : ℕ
  isEncr : Bool
  volume : Volume
  inode : MInode

def overlay (b : Block) (c chunk : ℕ) (buf : ℕ → Byte) : Block := fun x =>
  if c ≤ x.val ∧ x.val < c + chunk then buf (x.val - c) else b x

def writeBuffer (keys : KeyView) (table : HashTable) (iNum : Word) (scratchD scratchE : Block)
    (isEncr : Bool) (b : Block) (c chunk : ℕ) (buf : ℕ → Byte) : Except Fault (Bool × Block) :=
  (isEncrypted keys table iNum).bind fun encrypted =>
    (if encrypted then decryptBlock keys.keyToUse scratchD b b else .ok b).bind fun b =>
      let b := overlay b c chunk buf
      if isEncr || encrypted then (encryptBlock keys.keyToUse scratchE b b).map (fun b => (true, b))
      else .ok (false, b)

def MInode.grow (inode : MInode) (pos : ℕ) : MInode :=
  { inode with iSize := max inode.iSize pos }

def writeBody (keys : ℕ → KeyView) (table : HashTable) (scratchD scratchE : ℕ → Block)
    (buf : ℕ → Byte) (count : ℕ) (s : Writing) : Pass Writing (Except Fault Writing) :=
  if count ≤ s.i then .leave (.ok s)
  else
    let n := s.pos / blockSize
    match createBlock s.volume s.inode n with
    | .error f => .leave (.error f)
    | .ok (block, v, inode) =>
      if block = 0 ∨ ¬ v.readable block then .leave (.ok { s with volume := v, inode := inode })
      else
        let c := s.pos % blockSize
        let chunk := min (blockSize - c) (count - s.i)
        match writeBuffer (keys n) table inode.iNum (scratchD n) (scratchE n) s.isEncr (v.data block)
          c chunk (fun k => buf (s.i + k)) with
        | .error f => .leave (.error f)
        | .ok (isEncr, b) => .again
          { pos := s.pos + chunk, i := s.i + chunk, isEncr := isEncr, volume := v.put block b,
            inode := inode.grow (s.pos + chunk) }

structure WriteResult where
  value : ℤ
  fPos : ℕ
  volume : Volume
  inode : MInode

def fileWrite (keys : ℕ → KeyView) (table : HashTable) (scratchD scratchE : ℕ → Block) (v : Volume)
    (inode : MInode) (append : Bool) (fPos : ℕ) (buf : ℕ → Byte) (count : ℕ) :
    Except Fault WriteResult :=
  ((iterate (writeBody keys table scratchD scratchE buf count) (count + 1)
    ⟨if append then inode.iSize else fPos, 0, false, v, inode⟩).getD (.error .hang)).map fun s =>
      ⟨if s.i = 0 then -1 else s.i, if append then fPos else s.pos, s.volume, s.inode⟩

end Devos.Fs
