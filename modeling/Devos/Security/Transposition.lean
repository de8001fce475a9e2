import Devos.Security.Cipher
import Mathlib.Data.Nat.ModEq
import Mathlib.Tactic.Ring

/-! What the two block routines compute: each output byte is a byte of the same row of the input,
except for the one cell that the stepping never fills. -/

namespace Devos.Security

open Loops ExchangeSort Equiv

/-- The cell that stepping modulo `blockSize - 1` does not reach. -/
abbrev lastCell : ℕ := 1023

lemma blockSize_eq : blockSize = lastCell + 1 := rfl

/-- A key that `set_key` takes and that the key arrays hold together with its terminator. -/
structure Key extends CString where
  accepted : Accepted toCString
  fits : toCString.strlen < keySize

lemma isPowerOfTwo_iff (n : ℕ) : isPowerOfTwo n = true ↔ 2 ≤ n ∧ n.isPowerOfTwo := by
  by_cases hn : n < 2
  · simp [isPowerOfTwo, hn]
  · simp [isPowerOfTwo, hn, ← Nat.and_sub_one_eq_zero_iff_isPowerOfTwo (show n ≠ 0 by omega)]
    omega

lemma strlen_mul (key : Key) : key.strlen * (blockSize / key.strlen) = blockSize := by
  obtain ⟨_, k, hk⟩ := (isPowerOfTwo_iff _).mp key.accepted
  have hlt : k < 5 := by
    have hf := key.fits
    rw [hk] at hf
    exact (Nat.pow_lt_pow_iff_right (by norm_num)).mp (hf.trans_eq (by norm_num))
  rw [hk]
  exact Nat.mul_div_cancel' (Nat.pow_dvd_pow 2 (show k ≤ 10 by omega))

lemma strlen_pos (key : Key) : 0 < key.strlen := by
  have := ((isPowerOfTwo_iff _).mp key.accepted).1
  omega

section Matrix

variable {keyLen colSize : ℕ}

lemma step_cancel (hsize : keyLen * colSize = blockSize) (t : ℕ) :
    t * colSize % lastCell * keyLen % lastCell = t % lastCell := by
  have he : t * colSize * keyLen = t + lastCell * t := by
    rw [Nat.mul_assoc, Nat.mul_comm colSize, hsize]
    ring
  rw [Nat.mod_mul_mod, he, Nat.add_mul_mod_self_left]

def Filled (colSize : ℕ) (scratch data : Block) (i : ℕ) (s : Block × ℕ) : Prop :=
  s.2 = i * colSize % lastCell ∧ s.1.byte lastCell = scratch.byte lastCell ∧
    ∀ t, 0 < t → t < i → t < lastCell → s.1.byte (t * colSize % lastCell) = data.byte t

lemma filled_step (hsize : keyLen * colSize = blockSize) {scratch data : Block} {i : ℕ} {s : Block × ℕ}
    (hi : i < blockSize) (hs : Filled colSize scratch data i s) :
    Filled colSize scratch data (i + 1)
      (s.1.setByte s.2 (data.byte i), (s.2 + colSize) % (blockSize - 1)) := by
  obtain ⟨hk, hl, hd⟩ := hs
  have hb := blockSize_eq
  have hlt : s.2 < lastCell := by rw [hk]; exact Nat.mod_lt _ (by decide)
  refine ⟨?_, ?_, ?_⟩
  · change (s.2 + colSize) % lastCell = _
    rw [hk, Nat.mod_add_mod, Nat.succ_mul]
  · rw [Block.byte_setByte _ _ (by omega) (by decide), if_neg (by omega), hl]
  · intro t h₀ ht hl'
    have hc : t * colSize % lastCell < lastCell := Nat.mod_lt _ (by decide)
    rw [Block.byte_setByte _ _ (by omega) (by omega)]
    split
    next he =>
      have hm := step_cancel hsize t
      rw [he, hk, step_cancel hsize, Nat.mod_eq_of_lt hl'] at hm
      have : i = t := by
        rcases Nat.lt_succ_iff_lt_or_eq.mp (show i < lastCell + 1 from hi) with hi' | rfl
        · rwa [Nat.mod_eq_of_lt hi'] at hm
        · rw [Nat.mod_self] at hm; omega
      rw [this]
    next hne =>
      refine hd t h₀ (lt_of_le_of_ne (by omega) ?_) hl'
      rintro rfl
      exact hne hk.symm

lemma filled_all (hsize : keyLen * colSize = blockSize) (scratch data : Block) :
    Filled colSize scratch data blockSize
      (forLoop 0 blockSize
        (fun i (s : Block × ℕ) => (s.1.setByte s.2 (data.byte i), (s.2 + colSize) % (blockSize - 1)))
        (scratch, 0)) := by
  refine forLoop_induction (P := Filled colSize scratch data) (Nat.zero_le _)
    ⟨by simp, rfl, by omega⟩ ?_
  intro i s _ hi hs
  exact filled_step hsize hi hs

lemma buildMatrix_byte (hsize : keyLen * colSize = blockSize) (scratch data : Block) {x : ℕ}
    (hx : x < lastCell) :
    (buildMatrix colSize scratch data).byte x = data.byte (x * keyLen % lastCell) := by
  have hb := blockSize_eq
  rw [buildMatrix, Block.byte_setByte _ _ (by decide) (by omega)]
  split
  next h => rw [h]; simp
  next h =>
    have hback : x * keyLen % lastCell * colSize % lastCell = x := by
      rw [step_cancel (by rw [Nat.mul_comm, hsize]), Nat.mod_eq_of_lt hx]
    have hpos : 0 < x * keyLen % lastCell := by
      rw [Nat.pos_iff_ne_zero]
      intro h₀
      rw [h₀, Nat.zero_mul, Nat.zero_mod] at hback
      exact h hback.symm
    have hlt : x * keyLen % lastCell < lastCell := Nat.mod_lt _ (by decide)
    have hf := (filled_all hsize scratch data).2.2 _ hpos (hlt.trans (by decide)) hlt
    rwa [hback] at hf

lemma buildMatrix_last (hsize : keyLen * colSize = blockSize) (scratch data : Block) :
    (buildMatrix colSize scratch data).byte lastCell = scratch.byte lastCell := by
  rw [buildMatrix, Block.byte_setByte _ _ (by decide) (by decide), if_neg (by decide)]
  exact (filled_all hsize scratch data).2.1

lemma buildMatrix_column (hsize : keyLen * colSize = blockSize) (scratch data : Block) {j r : ℕ}
    (hj : j < keyLen) (hr : r < colSize) :
    (buildMatrix colSize scratch data).byte (j * colSize + r) =
      if r * keyLen + j = lastCell then scratch.byte lastCell else data.byte (r * keyLen + j) := by
  have hb := blockSize_eq
  have hcell : (j * colSize + r) * keyLen = r * keyLen + j + lastCell * j := by
    rw [Nat.add_mul, Nat.mul_assoc, Nat.mul_comm colSize, hsize]
    ring
  have hle : r * keyLen + j ≤ lastCell := by
    have h₁ : r * keyLen + keyLen ≤ colSize * keyLen := by
      rw [← Nat.succ_mul]
      exact Nat.mul_le_mul_right _ hr
    have h₂ : colSize * keyLen = blockSize := by rw [Nat.mul_comm, hsize]
    omega
  have hle' : j * colSize + r ≤ lastCell := by
    have h₁ : j * colSize + colSize ≤ keyLen * colSize := by
      rw [← Nat.succ_mul]
      exact Nat.mul_le_mul_right _ hj
    omega
  rcases Nat.lt_or_eq_of_le hle' with hlt | he
  · rw [buildMatrix_byte hsize _ _ hlt, hcell, Nat.add_mul_mod_self_left]
    rcases Nat.lt_or_eq_of_le hle with hlt' | he'
    · rw [Nat.mod_eq_of_lt hlt', if_neg hlt'.ne]
    · exfalso
      have hm : (j * colSize + r) * keyLen % lastCell = 0 := by
        rw [hcell, he', Nat.add_mul_mod_self_left, Nat.mod_self]
      have hsize' : colSize * keyLen = blockSize := by rw [Nat.mul_comm, hsize]
      have hz := step_cancel hsize' (j * colSize + r)
      rw [hm, Nat.zero_mul, Nat.zero_mod, Nat.mod_eq_of_lt hlt] at hz
      have hj₀ : j = 0 := by
        by_contra hne
        have := Nat.mul_pos (Nat.pos_of_ne_zero hne) (Nat.zero_lt_of_lt hr)
        omega
      have hr₀ : r = 0 := by omega
      rw [hj₀, hr₀, Nat.zero_mul] at he'
      omega
  · have hm : r * keyLen + j = lastCell := by
      have hh := hcell
      rw [he] at hh
      have hk : r * keyLen + j + lastCell * j = lastCell * keyLen := hh.symm
      have hj' : j + 1 ≤ keyLen := hj
      have : lastCell * (j + 1) ≤ lastCell * keyLen := Nat.mul_le_mul_left _ hj'
      have : lastCell * (j + 1) = lastCell * j + lastCell := Nat.mul_succ _ _
      omega
    rw [he, buildMatrix_last hsize, if_pos hm]

end Matrix

section CopyBack

variable {keyLen colSize : ℕ}

def Copied (keyLen : ℕ) (matrix : Block) (columns : ℕ → ℕ) (buffer : Block) (k : ℕ) (s : Block × ℕ) :
    Prop :=
  s.2 = k ∧ ∀ x, x < blockSize → s.1.byte x =
    if x < k then matrix.byte (columns (x % keyLen) + x / keyLen) else buffer.byte x

lemma copied_step {matrix buffer : Block} {columns : ℕ → ℕ} {i j : ℕ} {s : Block × ℕ}
    (hj : j < keyLen) (hk : i * keyLen + j < blockSize)
    (hs : Copied keyLen matrix columns buffer (i * keyLen + j) s) :
    Copied keyLen matrix columns buffer (i * keyLen + j + 1)
      (s.1.setByte s.2 (matrix.byte (columns j + i)), s.2 + 1) := by
  obtain ⟨hk', hb⟩ := hs
  have hmod : (i * keyLen + j) % keyLen = j := by
    rw [Nat.mul_comm, Nat.mul_add_mod, Nat.mod_eq_of_lt hj]
  have hdiv : (i * keyLen + j) / keyLen = i := by
    rw [Nat.mul_comm, Nat.mul_add_div (by omega), Nat.div_eq_of_lt hj, Nat.add_zero]
  refine ⟨by rw [hk'], ?_⟩
  intro x hx
  rw [hk', Block.byte_setByte _ _ hk hx]
  by_cases hxk : x = i * keyLen + j
  · rw [if_pos hxk, if_pos (by omega), hxk, hmod, hdiv]
  · rw [if_neg hxk, hb x hx]
    by_cases hlt : x < i * keyLen + j
    · rw [if_pos hlt, if_pos (by omega)]
    · rw [if_neg hlt, if_neg (by omega)]

lemma copyBack_byte (hsize : keyLen * colSize = blockSize) (matrix buffer : Block) (columns : ℕ → ℕ)
    {x : ℕ} (hx : x < blockSize) :
    (copyBack keyLen colSize matrix columns buffer).byte x =
      matrix.byte (columns (x % keyLen) + x / keyLen) := by
  have hall : Copied keyLen matrix columns buffer (colSize * keyLen)
      (forLoop 0 colSize
        (fun i (s : Block × ℕ) =>
          forLoop 0 keyLen (fun j s => (s.1.setByte s.2 (matrix.byte (columns j + i)), s.2 + 1)) s)
        (buffer, 0)) := by
    refine forLoop_induction (P := fun i s => Copied keyLen matrix columns buffer (i * keyLen) s)
      (Nat.zero_le _) ⟨by simp, fun x _ => by simp⟩ ?_
    intro i s _ hi hs
    have hrow : i * keyLen + keyLen ≤ blockSize := by
      rw [← hsize, ← Nat.succ_mul, Nat.mul_comm keyLen]
      exact Nat.mul_le_mul_right _ hi
    rw [Nat.succ_mul]
    refine forLoop_induction (P := fun j s => Copied keyLen matrix columns buffer (i * keyLen + j) s)
      (Nat.zero_le _) hs ?_
    intro j s _ hj hs
    exact copied_step hj (by omega) hs
  have hh := hall.2 x hx
  rwa [if_pos (by rw [Nat.mul_comm, hsize]; exact hx)] at hh

end CopyBack

section Order

variable (key : CString)

def encryptOrder : Perm ℕ := order (fun x => (key.char x).toInt) key.strlen

def decryptOrder : Perm ℕ := recover key.char (key.char ∘ encryptOrder key) key.strlen

lemma encryptOrder_below : Below key.strlen (encryptOrder key) := order_below

lemma decryptOrder_below : Below key.strlen (decryptOrder key) := recover_below

lemma sortColumns_eq (columns : ℕ → ℕ) (m : ℤ) :
    (sortColumns key.strlen ⟨key.char, columns, m⟩).columns = columns ∘ encryptOrder key := by
  have hsim : (sortColumns key.strlen ⟨key.char, columns, m⟩).key = key.char ∘ encryptOrder key ∧
      (sortColumns key.strlen ⟨key.char, columns, m⟩).columns = columns ∘ encryptOrder key := by
    refine forLoop_simulation
      (fun (s : Columns) (p : Perm ℕ) => s.key = key.char ∘ p ∧ s.columns = columns ∘ p)
      ⟨rfl, rfl⟩ ?_
    rintro i s p - - ⟨hk, hc⟩
    -- within round `i` the running minimum is the key at the front
    let R (s : Columns) (p : Perm ℕ) : Prop :=
      s.key = key.char ∘ p ∧ s.columns = columns ∘ p ∧ s.currMin = (key.char (p i)).toInt
    suffices hround : R
        (forLoop i key.strlen
          (fun j s =>
            if (s.key j).toInt < s.currMin then
              { columns := exchange s.columns i j, currMin := (s.key j).toInt, key := exchange s.key i j }
            else s)
          { s with currMin := (s.key i).toInt })
        (forLoop i key.strlen (promote (fun x => (key.char x).toInt) i) p) from
      ⟨hround.1, hround.2.1⟩
    refine forLoop_simulation R ⟨hk, hc, by rw [hk]; rfl⟩ ?_
    · rintro j s p - - ⟨hk, hc, hm⟩
      have hj : (s.key j).toInt = (key.char (p j)).toInt := by rw [hk]; rfl
      by_cases hlt : (key.char (p j)).toInt < (key.char (p i)).toInt
      · have hlt' : (s.key j).toInt < s.currMin := by rwa [hj, hm]
        simp only [promote, if_pos hlt, if_pos hlt']
        exact ⟨by rw [hk, exchange_comp], by rw [hc, exchange_comp], by rw [hj]; simp⟩
      · have hge : ¬ (s.key j).toInt < s.currMin := by rwa [hj, hm]
        simp only [promote, if_neg hlt, if_neg hge]
        exact ⟨hk, hc, hm⟩
  exact hsim.2

lemma sortKey_eq : sortKey key.strlen key.char = key.char ∘ encryptOrder key := by
  refine forLoop_simulation (fun (k : ℕ → Byte) (p : Perm ℕ) => k = key.char ∘ p) rfl ?_
  rintro i k p - - hk
  refine forLoop_simulation (fun (k : ℕ → Byte) (p : Perm ℕ) => k = key.char ∘ p) hk ?_
  rintro j k p - - rfl
  by_cases hlt : (key.char (p j)).toInt < (key.char (p i)).toInt
  · simp only [promote, Function.comp_apply, if_pos hlt, exchange_comp]
  · simp only [promote, Function.comp_apply, if_neg hlt]

lemma rearrange_eq (columns : ℕ → ℕ) :
    (rearrange key.strlen key.char ⟨sortKey key.strlen key.char, columns⟩).columns =
      columns ∘ decryptOrder key := by
  have hsim : (rearrange key.strlen key.char ⟨sortKey key.strlen key.char, columns⟩).sortedKey =
        (key.char ∘ encryptOrder key) ∘ decryptOrder key ∧
      (rearrange key.strlen key.char ⟨sortKey key.strlen key.char, columns⟩).columns =
        columns ∘ decryptOrder key := by
    let R (s : Rearranged) (q : Perm ℕ) : Prop :=
      s.sortedKey = (key.char ∘ encryptOrder key) ∘ q ∧ s.columns = columns ∘ q
    refine forLoop_simulation R ⟨sortKey_eq key, rfl⟩ ?_
    rintro i s q - - hs
    refine forLoop_simulation R hs ?_
    rintro j s q - - ⟨hk, hc⟩
    by_cases heq : key.char i = (key.char ∘ encryptOrder key) (q j)
    · have heq' : key.char i = s.sortedKey j := by rw [hk]; exact heq
      simp only [fetch, if_pos heq, if_pos heq']
      exact ⟨by rw [hk, exchange_comp], by rw [hc, exchange_comp]⟩
    · have hne : ¬ key.char i = s.sortedKey j := by rw [hk]; exact heq
      simp only [fetch, if_neg heq, if_neg hne]
      exact ⟨hk, hc⟩
  exact hsim.2

end Order

def cell (keyLen : ℕ) (p : Perm ℕ) (x : ℕ) : ℕ := x / keyLen * keyLen + p (x % keyLen)

section Cell

variable {keyLen : ℕ} {p q : Perm ℕ}

lemma cell_div (hpos : 0 < keyLen) (hp : Below keyLen p) (x : ℕ) :
    cell keyLen p x / keyLen = x / keyLen := by
  rw [cell, Nat.mul_comm, Nat.mul_add_div hpos, Nat.div_eq_of_lt (hp.lt (Nat.mod_lt _ hpos)),
    Nat.add_zero]

lemma cell_mod (hpos : 0 < keyLen) (hp : Below keyLen p) (x : ℕ) :
    cell keyLen p x % keyLen = p (x % keyLen) := by
  rw [cell, Nat.mul_comm, Nat.mul_add_mod, Nat.mod_eq_of_lt (hp.lt (Nat.mod_lt _ hpos))]

lemma cell_mul (hpos : 0 < keyLen) (hq : Below keyLen q) (x : ℕ) :
    cell keyLen (p * q) x = cell keyLen p (cell keyLen q x) := by
  rw [cell, cell, cell_div hpos hq, cell_mod hpos hq, Perm.mul_apply]

lemma cell_one (x : ℕ) : cell keyLen 1 x = x := by
  rw [cell, Perm.one_apply, Nat.mul_comm, Nat.div_add_mod]

lemma cell_lt {colSize : ℕ} (hpos : 0 < keyLen) (hsize : keyLen * colSize = blockSize)
    (hp : Below keyLen p) {x : ℕ} (hx : x < blockSize) : cell keyLen p x < blockSize := by
  have hrow : x / keyLen < colSize := by
    rw [Nat.div_lt_iff_lt_mul hpos, Nat.mul_comm, hsize]
    exact hx
  have hend : x / keyLen * keyLen + keyLen ≤ colSize * keyLen := by
    rw [← Nat.succ_mul]
    exact Nat.mul_le_mul_right _ hrow
  have hc := hp.lt (Nat.mod_lt x hpos)
  rw [← hsize, Nat.mul_comm keyLen, cell]
  omega

lemma cell_injective (hpos : 0 < keyLen) (hp : Below keyLen p) :
    Function.Injective (cell keyLen p) := by
  intro x y h
  have hs : p.symm * p = 1 := by ext z; simp
  have hh := congrArg (cell keyLen p.symm) h
  rwa [← cell_mul hpos hp, ← cell_mul hpos hp, hs, cell_one, cell_one] at hh

end Cell

def transpose (keyLen : ℕ) (p : Perm ℕ) (scratch data : Block) : Block := fun x =>
  if cell keyLen p x = lastCell then scratch.byte lastCell else data.byte (cell keyLen p x)

lemma transpose_byte (keyLen : ℕ) (p : Perm ℕ) (scratch data : Block) {x : ℕ} (hx : x < blockSize) :
    (transpose keyLen p scratch data).byte x =
      if cell keyLen p x = lastCell then scratch.byte lastCell else data.byte (cell keyLen p x) := by
  rw [Block.byte_lt _ hx]
  rfl

lemma copyBack_eq {keyLen colSize : ℕ} (hpos : 0 < keyLen) (hsize : keyLen * colSize = blockSize)
    {p : Perm ℕ} (hp : Below keyLen p) (scratch data buffer : Block) :
    copyBack keyLen colSize (buildMatrix colSize scratch data) (columnOffsets colSize ∘ p) buffer =
      transpose keyLen p scratch data := by
  apply Block.ext_byte
  intro x hx
  have hrow : x / keyLen < colSize := by
    rw [Nat.div_lt_iff_lt_mul hpos, Nat.mul_comm, hsize]
    exact hx
  rw [copyBack_byte hsize _ _ _ hx, transpose_byte _ _ _ _ hx]
  exact buildMatrix_column hsize scratch data (hp.lt (Nat.mod_lt _ hpos)) hrow

theorem encryptBlock_eq (key : Key) (scratch data buffer : Block) :
    encryptBlock key.toCString scratch data buffer =
      .ok (transpose key.strlen (encryptOrder key.toCString) scratch data) := by
  simp only [encryptBlock, if_neg (Nat.not_le.mpr key.fits), if_neg (strlen_pos key).ne', sortColumns_eq]
  rw [copyBack_eq (strlen_pos key) (strlen_mul key) (encryptOrder_below _)]

theorem decryptBlock_eq (key : Key) (scratch data buffer : Block) :
    decryptBlock key.toCString scratch data buffer =
      .ok (transpose key.strlen (decryptOrder key.toCString) scratch data) := by
  simp only [decryptBlock, if_neg (Nat.not_le.mpr key.fits), if_neg (strlen_pos key).ne', rearrange_eq]
  rw [copyBack_eq (strlen_pos key) (strlen_mul key) (decryptOrder_below _)]

def sampleKey : Key := ⟨keyAB, by decide, by decide⟩

def swapKey : Key := ⟨⟨[0x62, 0x61], by decide⟩, by decide, by decide⟩

end Devos.Security
