import Devos.Library.Runs
import Devos.Fs.PlainIO

/-! A plain file as a byte sequence, over runs of `sys_read`, `file_write`, `sys_lseek` and `truncate`. -/

namespace Devos.Fs

open Loops Security LinearProbing Runs

/-- A byte sequence, continued with zeros behind its end. -/
structure ByteFile where
  size : ℕ
  byte : ℕ → Byte
  blank : ∀ q, size ≤ q → byte q = 0

namespace ByteFile

def empty : ByteFile := ⟨0, fun _ => 0, fun _ _ => rfl⟩

lemma blank_write (f : ByteFile) (pos n : ℕ) (buf : ℕ → Byte) (q : ℕ)
    (hq : (if n = 0 then f.size else max f.size (pos + n)) ≤ q) :
    (if pos ≤ q ∧ q < pos + n then buf (q - pos) else f.byte q) = 0 := by
  rw [if_neg, f.blank]
  · split at hq <;> omega
  · split at hq <;> omega

def write (f : ByteFile) (pos n : ℕ) (buf : ℕ → Byte) : ByteFile where
  size := if n = 0 then f.size else max f.size (pos + n)
  byte q := if pos ≤ q ∧ q < pos + n then buf (q - pos) else f.byte q
  blank := f.blank_write pos n buf

def read (f : ByteFile) (pos n : ℕ) : List Byte := (List.range n).map fun j => f.byte (pos + j)

end ByteFile

/-- The calls on one file through the descriptors `ι`. Each finds the keys and the table of its time;
`other` is what happens to the rest of the device in between. -/
inductive FileCall (ι : Type*) where
  | read (fd : ι) (keys : ℕ → KeyView) (table : HashTable) (scratch : ℕ → Block) (count : ℕ)
  | write (fd : ι) (append : Bool) (keys : ℕ → KeyView) (table : HashTable) (scratchD scratchE : ℕ → Block)
      (buf : ℕ → Byte) (count : ℕ)
  | lseek (fd : ι) (offset : BitVec 32) (origin : ℤ)
  | truncate (busy : Word → Bool)
  | other (v : Volume)

inductive Reply where
  | read (value : ℤ) (out : List Byte)
  | value (value : ℤ)
  | none

-- `i_size` is unsigned, so behind the end of the file the count that remains is not positive
def sysRead (keys : ℕ → KeyView) (table : HashTable) (scratch : ℕ → Block) (v : Volume) (inode : MInode)
    (fPos count : ℕ) : Except Fault ReadResult :=
  let count := if inode.iSize < count + fPos then inode.iSize - fPos else count
  if count = 0 then .ok ⟨0, fPos, []⟩ else fileRead keys table scratch v inode fPos count

def seekTo (fPos : ℕ) (pos : BitVec 32) : ℤ × ℕ :=
  if pos.toInt < 0 then (-einval, fPos) else (pos.toNat, pos.toNat)

def sysLseek (iSize fPos : ℕ) (offset : BitVec 32) (origin : ℤ) : ℤ × ℕ :=
  if origin = 0 then seekTo fPos offset
  else if origin = 1 then seekTo fPos (BitVec.ofNat 32 fPos + offset)
  else if origin = 2 then seekTo fPos (BitVec.ofNat 32 iSize + offset)
  else (-einval, fPos)

structure OpenFile (ι : Type*) where
  volume : Volume
  inode : MInode
  fPos : ι → ℕ

structure ByteState (ι : Type*) where
  file : ByteFile
  fPos : ι → ℕ

/-- The file keeps its blocks, whatever happens to the others. -/
structure KeepsBlocks (v : Volume) (inode : MInode) (v' : Volume) : Prop where
  firstDataZone : v'.firstDataZone = v.firstDataZone
  nZones : v'.nZones = v.nZones
  zmapBits : v'.zmapBits = v.zmapBits
  zmap_zero : v'.zmap 0 = true
  marked : ∀ r, refAt v inode r ≠ 0 → v'.zmap (v.bit (refAt v inode r)) = true
  data : ∀ r, refAt v inode r ≠ 0 → v'.data (refAt v inode r) = v.data (refAt v inode r)

def Probed (keys : ℕ → KeyView) (table : HashTable) : Prop :=
  ∀ j, 0 < (keys j).effective.strlen → ∃ z, (table z).iNum = 0

namespace OpenFile

variable {ι : Type*}

def call [DecidableEq ι] (s : OpenFile ι) : FileCall ι → Except Fault (Reply × OpenFile ι)
  | .read fd keys table scratch count =>
    (sysRead keys table scratch s.volume s.inode (s.fPos fd) count).map fun r =>
      (.read r.value r.out, { s with fPos := Function.update s.fPos fd r.fPos })
  | .write fd append keys table scratchD scratchE buf count =>
    (fileWrite keys table scratchD scratchE s.volume s.inode append (s.fPos fd) buf count).map fun r =>
      (.value r.value, ⟨r.volume, r.inode, Function.update s.fPos fd r.fPos⟩)
  | .lseek fd offset origin =>
    let r := sysLseek s.inode.iSize (s.fPos fd) offset origin
    .ok (.value r.1, { s with fPos := Function.update s.fPos fd r.2 })
  | .truncate busy =>
    (Fs.truncate busy s.volume s.inode).map fun r => (.none, { s with volume := r.1, inode := r.2 })
  | .other v => .ok (.none, { s with volume := v })

def start (s : OpenFile ι) (fd : ι) (append : Bool) : ℕ := if append then s.inode.iSize else s.fPos fd

def bound (s : OpenFile ι) (fd : ι) (count : ℕ) : ℕ := min count (s.inode.iSize - s.fPos fd)

/-- The search in the table ends, a read finds its index blocks, a write stays below the last block. -/
def Fine (s : OpenFile ι) : FileCall ι → Prop
  | .read fd keys table _ count => Probed keys table ∧ ∀ j, Touched (s.fPos fd) (s.bound fd count) j →
    IndexReadable s.volume s.inode j ∨ zoneAt s.volume s.inode j = 0
  | .write fd append keys table _ _ _ count =>
    Probed keys table ∧ s.start fd append + count ≤ maxBlocks * blockSize
  | .lseek _ _ _ => True
  | .truncate _ => True
  | .other _ => True

/-- A read only falls short in front of a data block that cannot be read. -/
def Complete (s : OpenFile ι) : FileCall ι → Reply → Prop
  | .read fd _ _ _ count, .read _ out => out.length = s.bound fd count ∨
    Unreadable s.volume s.inode ((s.fPos fd + out.length) / blockSize)
  | _, _ => True

structure Sound (s : OpenFile ι) : Prop where
  regular : sIsReg s.inode.iMode = true
  num_ne : s.inode.iNum ≠ 0
  consistent : Consistent s.volume s.inode
  held : Held s.volume s.inode
  size_le : s.inode.iSize ≤ maxBlocks * blockSize

structure Shows (s : OpenFile ι) (b : ByteState ι) : Prop where
  size : b.file.size = s.inode.iSize
  bytes : ∀ q, b.file.byte q = storedByte s.volume s.inode q
  fPos : b.fPos = s.fPos

end OpenFile

section Systems

variable (ι : Type*) [DecidableEq ι]

end Systems

section Calls

variable {ι : Type*} [DecidableEq ι] {s s' : OpenFile ι} {b : ByteState ι}

lemma held_empty (v : Volume) {inode : MInode} (h : ∀ k, inode.iZone k = 0) : Held v inode :=
  ⟨fun r h₀ => absurd (refAt_zero v h r) h₀, fun r _ h₀ => absurd (refAt_zero v h r) h₀⟩

end Calls

end Devos.Fs
