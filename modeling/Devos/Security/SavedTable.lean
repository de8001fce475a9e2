import Devos.Security.TableCalls
import Devos.Fs.Inode

/-! The copy of the table in the block of the reserved inode. -/

namespace Devos.Security

open LinearProbing Fs

instance neZero_hkeySize : NeZero hkeySize := ⟨by decide⟩

def EDir.byte (e : EDir) (k : ℕ) : Byte :=
  if k = 0 then BitVec.ofNat 8 e.iNum.toNat
  else if k = 1 then BitVec.ofNat 8 (e.iNum.toNat / 256)
  else e.hKey (Fin.ofNat hkeySize (k - 2))

-- `*(current_dir++) = enc_table.values[i]` in `sys_sync`, 16 bytes an entry; the rest of the block stays
def saveTable (self : HashTable) (b : Block) : Block := fun x =>
  if x.val / 16 < tableSize then
    (self (Fin.ofNat tableSize (x.val / 16))).byte (x.val % 16)
  else b x

-- `enc_table.values[i] = *(current_dir++)` in `load_hash_table`
def loadTable (b : Block) : HashTable := fun i =>
  ⟨b.word (8 * i), fun j => b.byte (16 * i + 2 + j)⟩

lemma saveTable_byte (self : HashTable) (b : Block) (i : Fin tableSize) {k : ℕ} (hk : k < 16) :
    (saveTable self b).byte (16 * i + k) = (self i).byte k := by
  have hi := i.isLt
  have hlt : 16 * i + k < blockSize := by
    have : blockSize = 1024 := rfl
    change i.val < 61 at hi
    omega
  have hdiv : (16 * i + k) / 16 = i := by
    rw [Nat.mul_add_div (by decide), Nat.div_eq_of_lt hk, Nat.add_zero]
  have hmod : (16 * i + k) % 16 = k := by
    rw [Nat.mul_add_mod, Nat.mod_eq_of_lt hk]
  rw [Block.byte_lt _ hlt, saveTable]
  dsimp only
  rw [hdiv, hmod, if_pos hi]
  congr 2
  exact Fin.ext (Nat.mod_eq_of_lt hi)

theorem loadTable_saveTable (self : HashTable) (b : Block) : loadTable (saveTable self b) = self := by
  funext i
  have hbyte : ∀ k, k < 16 → (saveTable self b).byte (16 * i + k) = (self i).byte k :=
    fun k hk => saveTable_byte self b i hk
  have hnum : (saveTable self b).word (8 * i) = (self i).iNum := by
    have h₀ := hbyte 0 (by decide)
    have h₁ := hbyte 1 (by decide)
    rw [Block.word, show 2 * (8 * i.val) = 16 * i.val + 0 by omega, h₀, Nat.add_zero, h₁]
    apply BitVec.eq_of_toNat_eq
    have := (self i).iNum.isLt
    simp only [EDir.byte, if_true, one_ne_zero, if_false, BitVec.toNat_ofNat]
    omega
  have hkey : ∀ j : Fin hkeySize, (saveTable self b).byte (16 * i + 2 + j) = (self i).hKey j := by
    intro j
    have hj := j.isLt
    change j.val < 14 at hj
    rw [Nat.add_assoc, hbyte (2 + j) (by omega), EDir.byte, if_neg (by omega), if_neg (by omega),
      Nat.add_sub_cancel_left]
    congr 1
    exact Fin.ext (Nat.mod_eq_of_lt hj)
  rw [loadTable, hnum, funext hkey]

end Devos.Security
