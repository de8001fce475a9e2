import Mathlib.Data.BitVec
import Mathlib.Data.Nat.Notation
import Mathlib.Tactic.Lemma

/-! Bytes, words, blocks and strings of the kernel, and the ways in which a kernel path can fail
to come back. -/

namespace Devos

/-- A C `char`; comparisons of characters go through `toInt`, since `char` is signed. -/
abbrev Byte := BitVec 8

abbrev Word := BitVec 16

abbrev blockSize : ℕ := 1024

abbrev Block := Fin blockSize → Byte

def Block.byte (b : Block) (k : ℕ) : Byte := b (Fin.ofNat blockSize k)

def Block.setByte (b : Block) (k : ℕ) (c : Byte) : Block :=
  Function.update b (Fin.ofNat blockSize k) c

def Block.zero : Block := fun _ => 0

-- `NR_TASKS` and `NR_FILE`
instance nrTasks_neZero : NeZero 64 := ⟨by decide⟩

instance nrInode_neZero : NeZero 32 := ⟨by decide⟩

instance two_neZero : NeZero 2 := ⟨by decide⟩

instance pageEntries_neZero : NeZero 1024 := ⟨by decide⟩

structure CString where
  chars : List Byte
  nulFree : (0 : Byte) ∉ chars
  deriving DecidableEq

namespace CString

def strlen (s : CString) : ℕ := s.chars.length

def char (s : CString) (i : ℕ) : Byte := s.chars.getD i 0

def empty : CString := ⟨[], by simp⟩

end CString

/-- Why a kernel path does not come back: a `panic`, a division by zero, a write past a local
array, a dereference of a pointer to nothing, a loop without end. -/
inductive Fault where
  | panic
  | divide
  | overrun
  | badPointer
  | hang
  deriving DecidableEq, Repr

lemma Block.byte_of_fin (b : Block) (x : Fin blockSize) : b.byte x = b x := by
  simp [Block.byte]

lemma Block.byte_lt (b : Block) {k : ℕ} (hk : k < blockSize) : b.byte k = b ⟨k, hk⟩ := by
  simp only [Block.byte, Fin.ofNat, Nat.mod_eq_of_lt hk]

lemma Block.byte_setByte (b : Block) {k x : ℕ} (c : Byte) (hk : k < blockSize) (hx : x < blockSize) :
    (b.setByte k c).byte x = if x = k then c else b.byte x := by
  rw [Block.byte_lt _ hx, Block.byte_lt _ hx]
  simp only [Block.setByte, Function.update_apply, Fin.ofNat, Nat.mod_eq_of_lt hk, Fin.mk.injEq]

lemma Block.ext_byte {b b' : Block} (h : ∀ x, x < blockSize → b.byte x = b'.byte x) : b = b' := by
  funext x
  have hx := h x x.isLt
  rwa [Block.byte_of_fin, Block.byte_of_fin] at hx

end Devos
