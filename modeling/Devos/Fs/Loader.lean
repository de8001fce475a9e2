import Devos.Fs.FileBlock
import Devos.Fs.PlainIO
import Devos.Library.StringMoves
import Devos.Library.Longs

/-! `load_elf_binary`: the sections of a file, from the last header to the first, and what it reads as their headers. -/

namespace Devos.Fs

open Loops Longs StringMoves

structure Elf32Ehdr where
  magic : List Byte
  eType : ℕ
  eMachine : ℕ
  eEntry : ℕ
  eShoff : ℕ
  eEhsize : ℕ
  eShentsize : ℕ
  eShnum : ℕ

/-- `*((Elf32_Ehdr *) bh->b_data)` -/
def Elf32Ehdr.read (b : Block) : Elf32Ehdr where
  magic := (List.range 4).map b.byte
  eType := (b.word 8).toNat
  eMachine := (b.word 9).toNat
  eEntry := longAt b.byte 24
  eShoff := longAt b.byte 32
  eEhsize := (b.word 20).toNat
  eShentsize := (b.word 23).toNat
  eShnum := (b.word 24).toNat

def isValidElf (ex : Elf32Ehdr) : Prop := ex.magic = [0x7f, 0x45, 0x4c, 0x46] ∧ ex.eType = 2 ∧ ex.eMachine = 3

instance (ex : Elf32Ehdr) : Decidable (isValidElf ex) := inferInstanceAs (Decidable (_ ∧ _ ∧ _))

@[ext]
structure Elf32Shdr where
  shName : ℕ
  shType : ℕ
  shFlags : ℕ
  shAddr : ℕ
  shOffset : ℕ
  shSize : ℕ
  shLink : ℕ
  shInfo : ℕ
  shAddralign : ℕ
  shEntsize : ℕ
  deriving DecidableEq

namespace Elf32Shdr

abbrev bytes : ℕ := 40

/-- The ten words at an address. -/
def read (f : ℕ → Byte) : Elf32Shdr :=
  ⟨longAt f 0, longAt f 4, longAt f 8, longAt f 12, longAt f 16, longAt f 20, longAt f 24, longAt f 28, longAt f 32,
    longAt f 36⟩

/-- The header that a hole of the file has. -/
def blank : Elf32Shdr := ⟨0, 0, 0, 0, 0, 0, 0, 0, 0, 0⟩

lemma read_congr {f g : ℕ → Byte} (h : ∀ i < bytes, f i = g i) : read f = read g := by
  have hlong : ∀ a, a + 4 ≤ bytes → longAt f a = longAt g a := fun a ha => longAt_congr fun j hj => h _ (by omega)
  rw [read, hlong 0 (by decide), hlong 4 (by decide), hlong 8 (by decide), hlong 12 (by decide), hlong 16 (by decide),
    hlong 20 (by decide), hlong 24 (by decide), hlong 28 (by decide), hlong 32 (by decide), hlong 36 (by decide)]
  rfl

end Elf32Shdr

abbrev shtProgbits : ℕ := 1

abbrev shtNobits : ℕ := 8

/-- `bread` and the file for one call, what is in memory behind a buffer, and the limit of the data segment. A store
from the limit on does not come back. -/
structure Source where
  volume : Volume
  inode : MInode
  behind : Word → ℕ → Byte
  limit : ℕ

namespace Source

variable (x : Source)

def block (n : ℕ) : Except Fault (Option Word) := readFileBlock x.volume x.inode n

def userData : Window Fault := ⟨0, x.limit, .overrun⟩

/-- The byte at `bh->b_data + i`. -/
def bufferByte (z : Word) (i : ℕ) : Byte :=
  if i < blockSize then (x.volume.data z).byte i else x.behind z (i - blockSize)

/-- `cp_block`, in whole words. -/
def cpBlock (src : ℕ → Byte) (dest size : ℕ) (m : ℕ → Byte) : Except Fault (ℕ → Byte) :=
  x.userData.put dest (4 * (size / 4)) src m

/-- The loop of `copy_section` over the blocks behind the first, `n` turns at most; `none` for the -1. -/
def copyRest : ℕ → ℕ → ℕ → ℕ → (ℕ → Byte) → Except Fault (Option (ℕ → Byte))
  | 0, _, _, _, _ => .error .hang
  | n + 1, blockNum, dest, size, m =>
    if size = 0 then .ok (some m)
    else (x.block blockNum).bind fun bh => bh.elim (.ok none) fun z =>
      let cpSize := if size < blockSize then size else blockSize
      (x.cpBlock (x.bufferByte z) dest (cpSize + 3) m).bind
        (copyRest n (blockNum + 1) (dest + cpSize) (size - cpSize))

def copySection (start dest size : ℕ) (m : ℕ → Byte) : Except Fault (Option (ℕ → Byte)) :=
  (x.block (start / blockSize)).bind fun bh => bh.elim (.ok none) fun z =>
    let blockOffset := start % blockSize
    let cpSize := if size < blockSize - blockOffset then size else blockSize - blockOffset
    (x.cpBlock (fun i => x.bufferByte z (blockOffset + i)) dest (cpSize + 3) m).bind
      (x.copyRest size (start / blockSize + 1) (dest + cpSize) (size - cpSize))

def createBssSection (dest size : ℕ) (m : ℕ → Byte) : Except Fault (ℕ → Byte) :=
  x.userData.stores 1 (fun _ => 0) size dest m

end Source

/-- The variables of `load_elf_binary` between two turns of its loop, and the memory of the process. -/
structure Loading where
  lb : ℕ
  bht : Option Word
  memory : ℕ → Byte
  bSize : ℕ

/-- The header number `k` in the file; sums are unsigned. -/
def Elf32Ehdr.entry (ex : Elf32Ehdr) (k : ℕ) : ℕ := (ex.eShoff + k * ex.eShentsize) % 2 ^ 32

namespace Source

variable (x : Source)

/-- The block of the table, which stays where it is as long as the next header is in it too. -/
def loadTable (off : ℕ) (s : Loading) : Except Fault (Option Loading) :=
  if off / blockSize ≠ s.lb then
    (x.block (off / blockSize)).map fun bht => bht.map fun z => { s with lb := off / blockSize, bht := some z }
  else .ok (some s)

/-- `*((Elf32_Shdr *)(bht->b_data + off%BLOCK_SIZE))` -/
def header (off : ℕ) (s : Loading) : Except Fault Elf32Shdr :=
  match s.bht with
  | none => .error .badPointer
  | some z =>
    if off % blockSize + Elf32Shdr.bytes ≤ blockSize then
      .ok (.read fun i => (x.volume.data z).byte (off % blockSize + i))
    else .error .overrun

def nextHeader (off : ℕ) (s : Loading) : Except Fault (Option (Loading × Elf32Shdr)) :=
  (x.loadTable off s).bind fun t => t.elim (.ok none) fun s => (x.header off s).map fun h => some (s, h)

/-- The size of the program reaches up to the end of the section. -/
def grow (h : Elf32Shdr) (m : ℕ → Byte) (s : Loading) : Loading :=
  { s with memory := m, bSize := max s.bSize ((h.shAddr + h.shSize) % 2 ^ 32) }

def loadSection (h : Elf32Shdr) (s : Loading) : Except Fault (Option Loading) :=
  if h.shSize = 0 ∨ h.shAddr = 0 then .ok (some s)
  else if h.shType = shtProgbits then
    (x.copySection h.shOffset h.shAddr h.shSize s.memory).map fun m => m.map fun m => grow h m s
  else if h.shType = shtNobits then (x.createBssSection h.shAddr h.shSize s.memory).map fun m => some (grow h m s)
  else .ok (some s)

def loadTurn (ex : Elf32Ehdr) (k : ℕ) (s : Loading) : Except Fault (Option Loading) :=
  (x.nextHeader (ex.entry k) s).bind fun r => r.elim (.ok none) fun (s, h) => x.loadSection h s

/-- `while(nsect--)` -/
def loadSections (ex : Elf32Ehdr) : ℕ → Loading → Except Fault (Option Loading)
  | 0, s => .ok (some s)
  | k + 1, s => (x.loadTurn ex k s).bind fun r => r.elim (.ok none) (loadSections ex k)

def loadStart (ex : Elf32Ehdr) (m : ℕ → Byte) : Loading := ⟨0, none, m, ex.eEhsize + ex.eShnum * ex.eShentsize⟩

/-- The header of the file, of which the first block is `bh`. -/
def ehdr (bh : Word) : Elf32Ehdr := .read (x.volume.data bh)

/-- `load_elf_binary`, with `bh` the first block of the file: the entry point and the size of the program, and its
memory; `none` for the -1. -/
def loadElfBinary (bh : Word) (m : ℕ → Byte) : Except Fault (Option (ℕ × ℕ × (ℕ → Byte))) :=
  let ex := x.ehdr bh
  if ¬isValidElf ex ∨ ex.eShnum ≤ 1 then .ok none
  else (x.loadSections ex ex.eShnum (loadStart ex m)).map fun r => r.map fun s => (ex.eEntry, s.bSize, s.memory)

end Source

section Results

variable {α β : Type*} {e : Except Fault (Option α)} {r : β}

/-- A step that does not give up, and what comes after it. -/
lemma bind_elim_ok {f : α → Except Fault (Option β)} (h : (e.bind fun o => o.elim (.ok none) f) = .ok (some r)) :
    ∃ a, e = .ok (some a) ∧ f a = .ok (some r) := by
  obtain ⟨o, ho, h⟩ := bind_eq_ok h
  cases o with
  | none => cases h
  | some a => exact ⟨a, ho, h⟩

lemma map_map_ok {f : α → β} (h : (e.map fun o => o.map f) = .ok (some r)) : ∃ a, e = .ok (some a) ∧ f a = r := by
  obtain ⟨o, ho, h⟩ := map_eq_ok h
  cases o with
  | none => cases h
  | some a => exact ⟨a, ho, Option.some.inj h⟩

end Results

end Devos.Fs
