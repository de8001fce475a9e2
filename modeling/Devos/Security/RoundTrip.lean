import Devos.Security.Transposition
import Mathlib.Data.List.GetD

/-! Decrypting an encrypted block: two cells of the block do not survive the unfilled cell of the
two matrices, all others do. -/

namespace Devos.Security

open ExchangeSort Equiv

lemma char_injective {key : CString} (hd : key.chars.Nodup) {x y : ℕ} (hx : x < key.strlen)
    (hy : y < key.strlen) (h : key.char x = key.char y) : x = y := by
  simp only [CString.char, CString.strlen] at hx hy h
  rw [List.getD_eq_getElem _ _ hx, List.getD_eq_getElem _ _ hy] at h
  exact (List.Nodup.getElem_inj_iff hd).mp h

def Inverse (key : CString) : Prop := encryptOrder key * decryptOrder key = 1

theorem inverse_of_nodup {key : CString} (hd : key.chars.Nodup) : Inverse key :=
  recover_inverse (encryptOrder_below key) (fun _ _ hx hy h => char_injective hd hx hy h)
    (fun _ _ => rfl)

/-- The cell of the plain block that ends up in the last cell of the encrypted one. -/
def lostCell (key : CString) : ℕ := cell key.strlen (encryptOrder key) lastCell

section Cells

variable (key : Key)

lemma encryptCell_lt {x : ℕ} (hx : x < blockSize) :
    cell key.strlen (encryptOrder key.toCString) x < blockSize :=
  cell_lt (strlen_pos key) (strlen_mul key) (encryptOrder_below _) hx

lemma decryptCell_lt {x : ℕ} (hx : x < blockSize) :
    cell key.strlen (decryptOrder key.toCString) x < blockSize :=
  cell_lt (strlen_pos key) (strlen_mul key) (decryptOrder_below _) hx

variable {key}

lemma encryptCell_decryptCell (hinv : Inverse key.toCString) (x : ℕ) :
    cell key.strlen (encryptOrder key.toCString) (cell key.strlen (decryptOrder key.toCString) x) = x := by
  rw [← cell_mul (strlen_pos key) (decryptOrder_below _), hinv, cell_one]

lemma decryptCell_eq_last (hinv : Inverse key.toCString) (x : ℕ) :
    cell key.strlen (decryptOrder key.toCString) x = lastCell ↔ x = lostCell key.toCString := by
  constructor
  · intro h
    rw [lostCell, ← h, encryptCell_decryptCell hinv]
  · rintro rfl
    apply cell_injective (strlen_pos key) (encryptOrder_below key.toCString)
    rw [encryptCell_decryptCell hinv]
    rfl

end Cells

lemma lostCell_eq (key : Key) :
    lostCell key.toCString = blockSize - key.strlen + encryptOrder key.toCString (key.strlen - 1) := by
  have hb := blockSize_eq
  have hpos := strlen_pos key
  have hsize := strlen_mul key
  have hlast : lastCell = (blockSize / key.strlen - 1) * key.strlen + (key.strlen - 1) := by
    have hc : 0 < blockSize / key.strlen := by
      rw [Nat.pos_iff_ne_zero]
      intro h₀
      rw [h₀] at hsize
      omega
    have hm : (blockSize / key.strlen - 1) * key.strlen + key.strlen = blockSize := by
      rw [← Nat.succ_mul, show (blockSize / key.strlen - 1).succ = blockSize / key.strlen by omega,
        Nat.mul_comm, hsize]
    omega
  have hlt : key.strlen - 1 < key.strlen := by omega
  have hdiv : lastCell / key.strlen * key.strlen + key.strlen = blockSize := by
    have hd : lastCell / key.strlen = blockSize / key.strlen - 1 := by
      rw [hlast, Nat.mul_comm, Nat.mul_add_div hpos, Nat.div_eq_of_lt hlt, Nat.add_zero]
    rw [hd]
    omega
  have hmod : lastCell % key.strlen = key.strlen - 1 := by
    rw [hlast, Nat.mul_comm, Nat.mul_add_mod, Nat.mod_eq_of_lt hlt]
  rw [lostCell, cell, hmod]
  omega

theorem decrypt_encrypt_byte {key : Key} (hinv : Inverse key.toCString) (scratchE scratchD data : Block)
    {x : ℕ} (hx : x < blockSize) :
    (transpose key.strlen (decryptOrder key.toCString) scratchD
        (transpose key.strlen (encryptOrder key.toCString) scratchE data)).byte x =
      if x = lostCell key.toCString then scratchD.byte lastCell
      else if x = lastCell then scratchE.byte lastCell else data.byte x := by
  rw [transpose_byte _ _ _ _ hx, transpose_byte _ _ _ _ (decryptCell_lt key hx),
    encryptCell_decryptCell hinv]
  simp only [decryptCell_eq_last hinv]

def roundTrip (key : CString) (scratchE scratchD data bufferE bufferD : Block) : Except Fault Block :=
  (encryptBlock key scratchE data bufferE).bind
    (fun encrypted => decryptBlock key scratchD encrypted bufferD)

theorem roundTrip_eq_iff (key : Key) (hinv : Inverse key.toCString)
    (scratchE scratchD data bufferE bufferD : Block) :
    roundTrip key.toCString scratchE scratchD data bufferE bufferD = .ok data ↔
      data.byte (lostCell key.toCString) = scratchD.byte lastCell ∧
        (lostCell key.toCString ≠ lastCell → data.byte lastCell = scratchE.byte lastCell) := by
  have hlt : lostCell key.toCString < blockSize := encryptCell_lt key (by decide)
  simp only [roundTrip, encryptBlock_eq, Except.bind, decryptBlock_eq, Except.ok.injEq]
  constructor
  · intro h
    refine ⟨?_, ?_⟩
    · have hb := decrypt_encrypt_byte hinv scratchE scratchD data hlt
      rwa [h, if_pos rfl] at hb
    · intro hne
      have hb := decrypt_encrypt_byte hinv scratchE scratchD data (show lastCell < blockSize by decide)
      rwa [h, if_neg hne.symm, if_pos rfl] at hb
  · rintro ⟨hlost, hlast⟩
    apply Block.ext_byte
    intro x hx
    rw [decrypt_encrypt_byte hinv _ _ _ hx]
    split
    next h => rw [h, hlost]
    next h =>
      split
      next h' => rw [h', hlast (by rintro he; exact h (h'.trans he.symm))]
      next => rfl

def IsLargest (key : CString) (m : ℕ) : Prop :=
  m < key.strlen ∧ ∀ j, j < key.strlen → (key.char j).toInt ≤ (key.char m).toInt

lemma encryptOrder_last_isLargest (key : Key) :
    IsLargest key.toCString (encryptOrder key.toCString (key.strlen - 1)) := by
  have hpos := strlen_pos key
  have hp : Below key.strlen (encryptOrder key.toCString) := encryptOrder_below _
  refine ⟨hp.lt (show key.strlen - 1 < key.strlen by omega), ?_⟩
  intro j hj
  have hs : (encryptOrder key.toCString).symm j < key.strlen := hp.symm.lt hj
  have hle : (key.char (encryptOrder key.toCString ((encryptOrder key.toCString).symm j))).toInt ≤
      (key.char (encryptOrder key.toCString (key.strlen - 1))).toInt :=
    order_sorted (fun x => (key.char x).toInt)
      (show (encryptOrder key.toCString).symm j ≤ key.strlen - 1 by omega) (by omega)
  rwa [Equiv.apply_symm_apply] at hle

lemma isLargest_unique {key : CString} (hd : key.chars.Nodup) {m m' : ℕ} (h : IsLargest key m)
    (h' : IsLargest key m') : m = m' :=
  char_injective hd h.1 h'.1 (BitVec.eq_of_toInt_eq (le_antisymm (h'.2 m h.1) (h.2 m' h'.1)))

/-- The round trip succeeds exactly for keys that fit their array and blocks whose bytes in the two
cells that get lost happen to be the ones left over on the stack. -/
theorem roundTrip_iff (key : CString) (hk : Accepted key) (hd : key.chars.Nodup)
    (scratchE scratchD data bufferE bufferD : Block) :
    roundTrip key scratchE scratchD data bufferE bufferD = .ok data ↔
      key.strlen < keySize ∧ ∃ m, IsLargest key m ∧
        if m + 1 = key.strlen then data.byte lastCell = scratchD.byte lastCell
        else data.byte lastCell = scratchE.byte lastCell ∧
          data.byte (blockSize - key.strlen + m) = scratchD.byte lastCell := by
  by_cases hfit : key.strlen < keySize
  · let k : Key := ⟨key, hk, hfit⟩
    have hpos : 0 < key.strlen := strlen_pos k
    have hb := blockSize_eq
    have hbound : key.strlen < 32 := hfit
    have hlargest : IsLargest key (encryptOrder key (key.strlen - 1)) := encryptOrder_last_isLargest k
    have hlost : lostCell key = blockSize - key.strlen + encryptOrder key (key.strlen - 1) := lostCell_eq k
    have hiff := roundTrip_eq_iff k (inverse_of_nodup hd) scratchE scratchD data bufferE bufferD
    rw [hiff]
    change data.byte (lostCell key) = _ ∧ (lostCell key ≠ lastCell → _) ↔ _
    have hcell : ∀ m, IsLargest key m → lostCell key = blockSize - key.strlen + m ∧
        (lostCell key = lastCell ↔ m + 1 = key.strlen) := by
      intro m hm
      have he : lostCell key = blockSize - key.strlen + m := by
        rw [hlost, isLargest_unique hd hlargest hm]
      have hlast : lastCell = 1023 := rfl
      exact ⟨he, by rw [he]; omega⟩
    constructor
    · rintro ⟨h₁, h₂⟩
      refine ⟨hfit, _, hlargest, ?_⟩
      obtain ⟨hc, hl⟩ := hcell _ hlargest
      split
      next he => rwa [hl.mpr he] at h₁
      next hne =>
        rw [← hc]
        exact ⟨h₂ (fun h => hne (hl.mp h)), h₁⟩
    · rintro ⟨_, m, hm, hif⟩
      obtain ⟨hc, hl⟩ := hcell m hm
      by_cases he : m + 1 = key.strlen
      · rw [if_pos he] at hif
        rw [hl.mpr he]
        exact ⟨hif, fun hne => absurd rfl hne⟩
      · rw [if_neg he, ← hc] at hif
        exact ⟨hif.2, fun _ => hif.1⟩
  · constructor
    · intro h
      simp [roundTrip, encryptBlock, Nat.not_lt.mp hfit, Except.bind] at h
    · exact fun h => absurd h.1 hfit

theorem roundTrip_iff_keyAB :
    Accepted keyAB ∧ keyAB.chars.Nodup ∧
      roundTrip keyAB Block.zero Block.zero Block.zero Block.zero Block.zero = .ok Block.zero :=
  ⟨by decide, by decide,
    (roundTrip_iff keyAB (by decide) (by decide) Block.zero Block.zero Block.zero Block.zero
      Block.zero).mpr ⟨by decide, 1, by unfold IsLargest; decide, rfl⟩⟩

theorem roundTrip_fails :
    ¬ ∀ key : CString, Accepted key → key.chars.Nodup →
      ∀ scratchE scratchD data bufferE bufferD : Block,
        roundTrip key scratchE scratchD data bufferE bufferD = .ok data := by
  intro h
  have hd : keyAB.chars.Nodup := by decide
  have hr := h keyAB (by decide) hd Block.zero (fun _ => 1) Block.zero Block.zero Block.zero
  have hb := ((roundTrip_eq_iff sampleKey (inverse_of_nodup hd)
    _ _ _ _ _).mp hr).1
  exact absurd hb (by simp [Block.byte, Block.zero])

end Devos.Security
