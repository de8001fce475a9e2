import Devos.Fs.FileWrite
import Devos.Security.Files
import Devos.Library.Runs

/-! `encrypt_file` or `decrypt_file` on a file that other processes read and write at the same time.
A process gives way to the others where `bread` sleeps, between finding a block and working on it. -/

namespace Devos.Kernel

open Security Fs Runs

inductive Walker where
  | waiting
  | at (i : ℕ)
  | found (i : ℕ) (block : Word)
  | done (i : ℕ)

inductive Mode where
  | encrypt
  | decrypt

structure Pending where
  pos : ℕ
  i : ℕ
  isEncr : Bool
  count : ℕ
  buf : ℕ → Byte

inductive Transfer where
  | idle
  | read (s : Reading)
  | readFound (s : Reading) (nr : Word)
  | write (s : Pending)
  | writeFound (s : Pending) (block : Word)

/-- `plain` is history: the bytes of the file's blocks as the writes, each block at the moment it was
worked on, have left them. -/
structure World (ι : Type*) where
  table : HashTable
  volume : Volume
  inode : MInode
  walker : Walker
  procs : ι → Transfer
  plain : ℕ → Block

inductive Act (ι : Type*) where
  | start
  | find
  | transform
  | call (p : ι)
  | lookUp (p : ι)
  | copy (p : ι)
  | store (p : ι)
  | leave (p : ι)

structure Job where
  mode : Mode
  key : Key
  hKey : HKey

def Job.keys (q : Job) : KeyView := ⟨q.key.toCString, q.key.toCString⟩

def Job.transform (q : Job) (scratch b : Block) : Except Fault Block :=
  match q.mode with
  | .encrypt => encryptBlock q.key.toCString scratch b b
  | .decrypt => decryptBlock q.key.toCString scratch b b

def Job.enter (q : Job) (table : HashTable) (n : Word) (table' : HashTable) : Prop :=
  match q.mode with
  | .encrypt => ∃ status, addFunc table ⟨n, q.hKey⟩ = some (status, table') ∧ status ≠ errAlrEnc
  | .decrypt => removeFunc table n q.hKey = some (succRm, table')

def Pending.block (s : Pending) : ℕ := s.pos / blockSize

def Pending.chunk (s : Pending) : ℕ := min (blockSize - s.pos % blockSize) (s.count - s.i)

def Pending.advance (s : Pending) (isEncr : Bool) : Pending :=
  { s with pos := s.pos + s.chunk, i := s.i + s.chunk, isEncr := isEncr }

section

variable {ι : Type*} [DecidableEq ι]

def World.set (w : World ι) (p : ι) (t : Transfer) : World ι :=
  { w with procs := Function.update w.procs p t }

lemma World.procs_set (w : World ι) (p : ι) (t : Transfer) : (w.set p t).procs p = t := by
  simp only [World.set, Function.update_self]

/-- One stretch of execution between two points where a process may sleep. -/
inductive Interleaved (q : Job) (w : World ι) : Act ι → World ι → Prop
  | start {table} : w.walker = .waiting → q.enter w.table w.inode.iNum table →
      Interleaved q w .start { w with table := table, walker := .at 0 }
  | find {i block} : w.walker = .at i → bmap w.volume w.inode i = .ok block → block ≠ 0 →
      w.volume.readable block = true → Interleaved q w .find { w with walker := .found i block }
  | stop {i block} : w.walker = .at i → bmap w.volume w.inode i = .ok block →
      (block = 0 ∨ w.volume.readable block = false) →
      Interleaved q w .find { w with walker := .done i }
  | transform {i block scratch b} : w.walker = .found i block →
      q.transform scratch (w.volume.data block) = .ok b →
      Interleaved q w .transform { w with walker := .at (i + 1), volume := w.volume.put block b }
  | callRead {p fPos count} : w.procs p = .idle →
      Interleaved q w (.call p) (w.set p (.read ⟨fPos, count, []⟩))
  | callWrite {p pos count buf} : w.procs p = .idle →
      Interleaved q w (.call p) (w.set p (.write ⟨pos, 0, false, count, buf⟩))
  | readHole {p s} : w.procs p = .read s → s.left ≠ 0 →
      bmap w.volume w.inode (s.fPos / blockSize) = .ok 0 →
      Interleaved q w (.copy p) (w.set p (.read (s.take fun _ => 0)))
  | readFind {p s nr} : w.procs p = .read s → s.left ≠ 0 →
      bmap w.volume w.inode (s.fPos / blockSize) = .ok nr → nr ≠ 0 → w.volume.readable nr = true →
      Interleaved q w (.lookUp p) (w.set p (.readFound s nr))
  | readBad {p s nr} : w.procs p = .read s → s.left ≠ 0 →
      bmap w.volume w.inode (s.fPos / blockSize) = .ok nr → nr ≠ 0 → w.volume.readable nr = false →
      Interleaved q w (.leave p) (w.set p .idle)
  | readCopy {p s nr scratch src} : w.procs p = .readFound s nr →
      readSource q.keys w.table w.inode.iNum scratch (w.volume.data nr) (s.fPos % blockSize) = .ok src →
      Interleaved q w (.copy p) (w.set p (.read (s.take src)))
  | readDone {p s} : w.procs p = .read s → s.left = 0 → Interleaved q w (.leave p) (w.set p .idle)
  | writeFind {p s block v inode} : w.procs p = .write s → s.i < s.count →
      createBlock w.volume w.inode s.block = .ok (block, v, inode) → block ≠ 0 →
      v.readable block = true →
      Interleaved q w (.lookUp p)
        { w.set p (.writeFound s block) with volume := v, inode := inode }
  | writeFull {p s block v inode} : w.procs p = .write s → s.i < s.count →
      createBlock w.volume w.inode s.block = .ok (block, v, inode) →
      (block = 0 ∨ v.readable block = false) →
      Interleaved q w (.leave p) { w.set p .idle with volume := v, inode := inode }
  | writeStore {p s block scratchD scratchE isEncr b} : w.procs p = .writeFound s block →
      writeBuffer q.keys w.table w.inode.iNum scratchD scratchE s.isEncr (w.volume.data block)
        (s.pos % blockSize) s.chunk (fun k => s.buf (s.i + k)) = .ok (isEncr, b) →
      Interleaved q w (.store p)
        { w.set p (.write (s.advance isEncr)) with
          volume := w.volume.put block b
          inode := w.inode.grow (s.pos + s.chunk)
          plain := Function.update w.plain s.block
            (overlay (w.plain s.block) (s.pos % blockSize) s.chunk (fun k => s.buf (s.i + k))) }
  | writeDone {p s} : w.procs p = .write s → s.count ≤ s.i →
      Interleaved q w (.leave p) (w.set p .idle)

-- the last cell of the matrix is never written, and `lostCell` is the one that should go there
def Lost (key : CString) (y : ℕ) : Prop := y = lastCell ∨ y = lostCell key

def Agrees (key : CString) (b plain : Block) : Prop :=
  ∀ y, y < blockSize → ¬ Lost key y → b.byte y = plain.byte y

def Shows (key : CString) (b plain : Block) : Prop :=
  ∀ x, x < blockSize → x ≠ lastCell → encryptCell key x ≠ lastCell →
    b.byte x = plain.byte (encryptCell key x)

def Job.Before (q : Job) (w : World ι) : Prop :=
  match q.mode with
  | .encrypt => ¬ Stored w.table w.inode.iNum ∧ ∀ j, stored w.volume w.inode j = w.plain j
  | .decrypt => (∃ z, scheme.Found (view w.table) w.inode.iNum z ∧
      ∀ z', (w.table z').iNum = w.inode.iNum → z' = z) ∧
        ∀ j, Shows q.key.toCString (stored w.volume w.inode j) (w.plain j)

def raceSystem (ι : Type*) [DecidableEq ι] (q : Job) : System (World ι) (Act ι) where
  init w := w.inode.iNum ≠ 0 ∧ Consistent w.volume w.inode ∧ w.walker = .waiting ∧
    (∀ p, w.procs p = .idle) ∧ q.Before w
  step := Interleaved q

end

end Devos.Kernel
