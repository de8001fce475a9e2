import Devos.Kernel.Keys
import Devos.Security.EncryptFile
import Devos.Security.RoundTrip

/-! What the digest that `compare_hash` looks at says about the key that it was made from. -/

namespace Devos.Kernel

open Loops ExchangeSort LinearProbing Security Fs

/-- `decrypt_block` takes each byte from the same cell under either key. -/
def PutsAlike (k₁ k₂ : CString) : Prop :=
  ∀ x, x < blockSize → cell k₁.strlen (decryptOrder k₁) x = cell k₂.strlen (decryptOrder k₂) x

/-- Whenever a file encrypted under `k₁` is decrypted with `k₂`, this does to its blocks what
decrypting it with `k₁` would have done. -/
def Protects (k₁ k₂ : Key) : Prop :=
  ∀ (scratch : ℕ → Block) (table : HashTable) (v : Volume) (inode : MInode) (r : FileResult),
    Consistent v inode → inode.iNum ≠ 0 →
    (∃ z, scheme.Found (view table) inode.iNum z ∧ (table z).hKey = hash k₁.toCString) →
    decryptFile k₂.toCString (hash k₂.toCString) scratch table v inode = .ok r → r.status = succRm →
    ∃ r', decryptFile k₁.toCString (hash k₁.toCString) scratch table v inode = .ok r' ∧
      r'.volume = r.volume

section Blocks

variable {k₁ k₂ : Key}

lemma decryptBlock_congr (h : PutsAlike k₁.toCString k₂.toCString) (scratch data buffer : Block) :
    decryptBlock k₁.toCString scratch data buffer = decryptBlock k₂.toCString scratch data buffer := by
  rw [decryptBlock_eq, decryptBlock_eq]
  congr 1
  apply Block.ext_byte
  intro x hx
  rw [transpose_byte _ _ _ _ hx, transpose_byte _ _ _ _ hx]
  exact (h x hx) ▸ rfl

lemma exists_told_apart (h : ¬ PutsAlike k₁.toCString k₂.toCString) :
    ∃ data, decryptBlock k₁.toCString Block.zero data data ≠
      decryptBlock k₂.toCString Block.zero data data := by
  rw [PutsAlike] at h
  push Not at h
  obtain ⟨x, hx, hne⟩ := h
  have hb := blockSize_eq
  have h₁ : cell k₁.strlen (decryptOrder k₁.toCString) x < blockSize := decryptCell_lt k₁ hx
  have h₂ : cell k₂.strlen (decryptOrder k₂.toCString) x < blockSize := decryptCell_lt k₂ hx
  -- mark a cell that one of the keys sends to `x` and that is not the last one
  obtain ⟨c, hc, hlast, hone⟩ : ∃ c, c < blockSize ∧ c ≠ lastCell ∧
      ((c = cell k₁.strlen (decryptOrder k₁.toCString) x ∧
          c ≠ cell k₂.strlen (decryptOrder k₂.toCString) x) ∨
        c ≠ cell k₁.strlen (decryptOrder k₁.toCString) x ∧
          c = cell k₂.strlen (decryptOrder k₂.toCString) x) := by
    by_cases hl : cell k₁.strlen (decryptOrder k₁.toCString) x = lastCell
    · exact ⟨_, h₂, fun hl' => hne (hl.trans hl'.symm), Or.inr ⟨hne.symm, rfl⟩⟩
    · exact ⟨_, h₁, hl, Or.inl ⟨rfl, hne⟩⟩
  have hmark : ∀ k : Key, ∃ b, decryptBlock k.toCString Block.zero (Block.zero.setByte c 1)
      (Block.zero.setByte c 1) = .ok b ∧
      b.byte x = if c = cell k.strlen (decryptOrder k.toCString) x then 1 else 0 := by
    intro k
    refine ⟨_, decryptBlock_eq k _ _ _, ?_⟩
    have hlt : cell k.strlen (decryptOrder k.toCString) x < blockSize := decryptCell_lt k hx
    rw [transpose_byte _ _ _ _ hx, Block.byte_setByte _ _ hc hlt]
    by_cases hl : cell k.strlen (decryptOrder k.toCString) x = lastCell
    · rw [if_pos hl, if_neg (fun he => hlast (he.trans hl))]
      rfl
    · rw [if_neg hl]
      exact if_congr eq_comm rfl rfl
  obtain ⟨b₁, hb₁, hx₁⟩ := hmark k₁
  obtain ⟨b₂, hb₂, hx₂⟩ := hmark k₂
  refine ⟨Block.zero.setByte c 1, fun he => ?_⟩
  rw [hb₁, hb₂] at he
  cases he
  rw [hx₁] at hx₂
  rcases hone with ⟨hp, hn⟩ | ⟨hn, hp⟩
  · rw [if_pos hp, if_neg hn] at hx₂
    exact absurd hx₂ (by decide)
  · rw [if_neg hn, if_pos hp] at hx₂
    exact absurd hx₂ (by decide)

end Blocks

def oneBlockFile : MInode := directFile 7 ![5, 0, 0, 0, 0, 0, 0, 0, 0] 1024

lemma oneBlockFile_consistent (data : Block) : Consistent (fullVolume fun _ => data) oneBlockFile :=
  consistent_direct _ 7 1024 rfl rfl (by decide)

lemma oneBlockFile_walk {transform : ℕ → Block → Except Fault Block} {data : Block} {s : Walk}
    (h : walk transform (fullVolume fun _ => data) oneBlockFile = .ok s) :
    transform 0 data = .ok (s.volume.data 5) := by
  obtain ⟨hs, _, hm⟩ := walk_spec (oneBlockFile_consistent data) h
  have hzone : zoneAt (fullVolume fun _ => data) oneBlockFile 0 = 5 := rfl
  have hfirst : Mapped (fullVolume fun _ => data) oneBlockFile 0 :=
    ⟨trivial, by rw [hzone]; decide, rfl⟩
  have ht := hs.transformed 0 ((hs.reaches_first hm).mpr hfirst)
  rw [hzone] at ht
  exact ht

-- `k₁` alone in the table, under the digest that the two keys share
lemma not_protects {k₁ k₂ : Key} (hhash : hash k₁.toCString = hash k₂.toCString)
    (hne : ¬ PutsAlike k₁.toCString k₂.toCString) : ¬ Protects k₁ k₂ := by
  intro h
  obtain ⟨data, hdata⟩ := exists_told_apart hne
  have hc := oneBlockFile_consistent data
  have hn : oneBlockFile.iNum ≠ 0 := by decide
  let table := Function.update emptyTable (probe 7 0) ⟨7, hash k₁.toCString⟩
  have hfound : scheme.Found (view table) oneBlockFile.iNum (probe 7 0) := found_alone hn _
  have hkey : (table (probe 7 0)).hKey = hash k₁.toCString := by
    simp only [table, Function.update_self]
  obtain ⟨r, hr, hst⟩ := decryptFile_returns k₂ hc hn ⟨_, hfound, hkey.trans hhash⟩
  obtain ⟨r', hr', hv⟩ := h (fun _ => Block.zero) table _ oneBlockFile r hc hn ⟨_, hfound, hkey⟩ hr hst
  rcases decryptFile_cases hn hr with ⟨_, s, _, _, _, hwalk, _, hs, _⟩ | ⟨hno, _⟩
  · rcases decryptFile_cases hn hr' with ⟨_, s', _, _, _, hwalk', _, hs', _⟩ | ⟨hno, _⟩
    · apply hdata
      rw [oneBlockFile_walk hwalk, oneBlockFile_walk hwalk', ← hs, ← hs', hv]
    · exact hno ⟨_, hfound, hkey⟩
  · exact hno ⟨_, hfound, hkey.trans hhash⟩

/-- `compare_hash` keeps a wrong key from scrambling the files of another one exactly when the digests
differ or the two keys do the same to every block. -/
theorem protects_iff (k₁ k₂ : Key) :
    Protects k₁ k₂ ↔
      (hash k₁.toCString = hash k₂.toCString → PutsAlike k₁.toCString k₂.toCString) := by
  constructor
  · intro h hhash
    by_contra hne
    exact not_protects hhash hne h
  · intro h scratch table v inode r hc hn hz hr hst
    obtain ⟨z, hz, hkey⟩ := hz
    have hhash : hash k₁.toCString = hash k₂.toCString := by
      rcases decryptFile_cases hn hr with ⟨z', _, hz', hkey', _⟩ | ⟨_, hbad, _⟩
      · rw [← hkey, ← hkey', Scheme.found_unique hz hz']
      · rw [hst] at hbad
        rcases hbad with hbad | hbad
        · exact absurd hbad (by decide)
        · exact absurd hbad (by decide)
    refine ⟨r, ?_, rfl⟩
    have hsame : (fun i b => decryptBlock k₁.toCString (scratch i) b b) =
        fun i b => decryptBlock k₂.toCString (scratch i) b b := by
      funext i b
      exact decryptBlock_congr (h hhash) _ _ _
    rw [decryptFile, hsame, hhash]
    exact hr

section Order

variable {k₁ k₂ : Key}

lemma decryptOrder_eq (hlen : k₁.strlen = k₂.strlen) (h : PutsAlike k₁.toCString k₂.toCString) {j : ℕ}
    (hj : j < k₁.strlen) : decryptOrder k₁.toCString j = decryptOrder k₂.toCString j := by
  have hsize : k₁.strlen ≤ blockSize := by
    have hf := k₁.fits
    have hb : keySize ≤ blockSize := by decide
    exact hf.le.trans hb
  have hx := h j (hj.trans_le hsize)
  rw [cell, cell, ← hlen, Nat.div_eq_of_lt hj, Nat.mod_eq_of_lt hj, Nat.zero_mul, Nat.zero_add,
    Nat.zero_add] at hx
  exact hx

/-- `decrypt_block` takes column `j` from the rank of character `j`. -/
lemma lt_of_decryptOrder {k : Key} (hd : k.chars.Nodup) {i j : ℕ} (hi : i < k.strlen)
    (h : decryptOrder k.toCString j < decryptOrder k.toCString i) :
    (k.char j).toInt ≤ (k.char i).toInt := by
  have hback : ∀ x, encryptOrder k.toCString (decryptOrder k.toCString x) = x := by
    intro x
    rw [← Equiv.Perm.mul_apply, inverse_of_nodup hd, Equiv.Perm.one_apply]
  have hs := order_sorted (fun x => (k.char x).toInt) h.le ((decryptOrder_below k.toCString).lt hi)
  change (k.char (encryptOrder k.toCString _)).toInt ≤ (k.char (encryptOrder k.toCString _)).toInt at hs
  rwa [hback, hback] at hs

end Order

-- the fourteen characters that the digest of a longer key reads
def headChars : List Byte := [97, 98, 99, 100, 101, 102, 103, 104, 105, 106, 107, 108, 109, 110]

def longKey (c d : Byte) : List Byte := headChars ++ [c, d]

def keyOP : Key := ⟨⟨longKey 111 112, by decide⟩, by decide, by decide⟩

def keyPO : Key := ⟨⟨longKey 112 111, by decide⟩, by decide, by decide⟩

set_option maxRecDepth 4096 in
lemma keyOP_nodup : keyOP.chars.Nodup := by decide

set_option maxRecDepth 4096 in
lemma keyPO_nodup : keyPO.chars.Nodup := by decide

lemma hash_congr {s t : CString} (hs : hkeySize ≤ s.strlen) (ht : hkeySize ≤ t.strlen)
    (h : ∀ j, j < hkeySize → s.char j = t.char j) : hash s = hash t := by
  funext i
  have hloop : forLoop 0 (i.val + 1)
        (fun j (h : BitVec 32) => h * 33 + (s.char (j % s.strlen)).signExtend 32) 5381 =
      forLoop 0 (i.val + 1)
        (fun j (h : BitVec 32) => h * 33 + (t.char (j % t.strlen)).signExtend 32) 5381 := by
    refine forLoop_simulation (fun (x y : BitVec 32) => x = y) rfl ?_
    rintro j x y - hj rfl
    have hj' : j < hkeySize := by
      have := i.isLt
      omega
    rw [Nat.mod_eq_of_lt (hj'.trans_le hs), Nat.mod_eq_of_lt (hj'.trans_le ht), h j hj']
  simp only [hash, hloop]

theorem wrong_key_accepted : ¬ ∀ k₁ k₂ : Key, Protects k₁ k₂ := by
  intro hall
  have hhash : hash keyOP.toCString = hash keyPO.toCString := by
    refine hash_congr (by decide) (by decide) ?_
    intro j hj
    exact (List.getD_append headChars [111, 112] 0 j hj).trans
      (List.getD_append headChars [112, 111] 0 j hj).symm
  refine not_protects hhash (fun h => ?_) (hall keyOP keyPO)
  have h₁ := lt_of_decryptOrder keyOP_nodup (i := 14) (j := 15) (by decide)
  have h₂ := lt_of_decryptOrder keyPO_nodup (i := 15) (j := 14) (by decide)
  have hop : keyOP.strlen = 16 := rfl
  have hpo : keyPO.strlen = 16 := rfl
  have h14 : decryptOrder keyOP.toCString 14 = decryptOrder keyPO.toCString 14 :=
    decryptOrder_eq (hop.trans hpo.symm) h (by omega)
  have h15 : decryptOrder keyOP.toCString 15 = decryptOrder keyPO.toCString 15 :=
    decryptOrder_eq (hop.trans hpo.symm) h (by omega)
  rw [← h14, ← h15] at h₂
  have hdown : ¬ (keyOP.char 15).toInt ≤ (keyOP.char 14).toInt := by decide
  have hup : ¬ (keyPO.char 14).toInt ≤ (keyPO.char 15).toInt := by decide
  have hinj : decryptOrder keyOP.toCString 14 ≠ decryptOrder keyOP.toCString 15 :=
    (decryptOrder keyOP.toCString).injective.ne (by decide)
  rcases Nat.lt_or_gt_of_ne hinj with hlt | hgt
  · exact hup (h₂ hlt)
  · exact hdown (h₁ hgt)

end Devos.Kernel
