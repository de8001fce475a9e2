import Devos.Security.RoundTrip
import Mathlib.Data.List.Sort

/-! What the two block routines do to the columns: a transposition by an order of the key, and its inverse where no
character of the key comes twice. -/

namespace Devos.Security

open ExchangeSort Equiv

/-- The rearrangement of `encrypt_block` and after it that of `decrypt_block`. -/
def rearrangeBack (keyToUse : CString) (columns : ℕ → ℕ) : Except Fault (ℕ → ℕ) :=
  let keyLen := keyToUse.strlen
  if keySize ≤ keyLen then .error .overrun
  else
    let sorted := sortColumns keyLen { key := keyToUse.char, columns := columns, currMin := 0 }
    .ok (rearrange keyLen keyToUse.char
      { sortedKey := sortKey keyLen keyToUse.char, columns := sorted.columns }).columns

section Inverses

variable {key : CString} {x y : ℕ}

lemma rearrangeBack_eq (hfits : key.strlen < keySize) (columns : ℕ → ℕ) :
    rearrangeBack key columns = .ok (columns ∘ ⇑(encryptOrder key * decryptOrder key)) := by
  simp only [rearrangeBack, if_neg (not_le.mpr hfits), sortColumns_eq, rearrange_eq]
  rfl

lemma rearrangeBack_iff : (∀ columns, rearrangeBack key columns = .ok columns) ↔ key.strlen < keySize ∧ Inverse key := by
  constructor
  · intro h
    have hfits : key.strlen < keySize := by
      by_contra hlong
      have herror := h id
      rw [rearrangeBack, if_pos (not_lt.mp hlong)] at herror
      cases herror
    refine ⟨hfits, ?_⟩
    have hid := h id
    rw [rearrangeBack_eq hfits, Except.ok.injEq] at hid
    ext x
    exact congrFun hid x
  · rintro ⟨hfits, hinv⟩ columns
    rw [rearrangeBack_eq hfits, hinv]
    rfl

/-- The characters of a key in their order. -/
def sortedChars (key : CString) : CString :=
  ⟨key.chars.mergeSort fun a b => a.toInt ≤ b.toInt, fun h => key.nulFree ((List.mergeSort_perm _ _).mem_iff.mp h)⟩

lemma sortedChars_perm (key : CString) : (sortedChars key).chars.Perm key.chars := List.mergeSort_perm _ _

lemma sortedChars_le (hxy : x ≤ y) (hy : y < (sortedChars key).strlen) :
    ((sortedChars key).char x).toInt ≤ ((sortedChars key).char y).toInt := by
  have hpairs : (sortedChars key).chars.Pairwise fun a b => a.toInt ≤ b.toInt := by
    have hsorted : (key.chars.mergeSort fun a b => a.toInt ≤ b.toInt).Pairwise
        fun a b => decide (a.toInt ≤ b.toInt) = true := by
      apply List.pairwise_mergeSort
      · intro a b c hab hbc
        exact decide_eq_true ((of_decide_eq_true hab).trans (of_decide_eq_true hbc))
      · intro a b
        simpa using le_total a.toInt b.toInt
    exact hsorted.imp fun h => of_decide_eq_true h
  rcases Nat.lt_or_eq_of_le hxy with hlt | rfl
  · rw [CString.strlen] at hy
    rw [CString.char, CString.char, List.getD_eq_getElem _ _ (hlt.trans hy), List.getD_eq_getElem _ _ hy]
    exact List.pairwise_iff_getElem.mp hpairs x y (hlt.trans hy) hy hlt
  · exact le_refl _

/-- Characters in order and one of them twice: nothing is moved by the sorting, but something by the search. -/
lemma sorted_not_inverse (hrepeated : ¬key.chars.Nodup) : ¬Inverse (sortedChars key) := by
  have hnot : ¬(sortedChars key).chars.Nodup := fun h => hrepeated ((sortedChars_perm key).nodup_iff.mp h)
  generalize hs : sortedChars key = s at hnot
  have hsorted : ∀ x y, x ≤ y → y < s.strlen → (s.char x).toInt ≤ (s.char y).toInt := by
    intro x y hxy hy
    rw [← hs] at hy ⊢
    exact sortedChars_le hxy hy
  have hnext : ∀ x y, x < y → y < s.strlen → s.char x = s.char y → s.char x = s.char (x + 1) := by
    intro x y hxy hy heq
    apply BitVec.eq_of_toInt_eq
    apply le_antisymm
    · exact hsorted x (x + 1) (Nat.le_succ x) (by omega)
    · rw [heq]
      exact hsorted (x + 1) y hxy hy
  have hex : ∃ i, i + 1 < s.strlen ∧ s.char i = s.char (i + 1) := by
    by_contra hno
    apply hnot
    rw [List.Nodup, List.pairwise_iff_getElem]
    intro x y hx hy hxy heq
    have hchar : s.char x = s.char y := by
      rw [CString.char, CString.char, List.getD_eq_getElem _ _ hx, List.getD_eq_getElem _ _ hy, heq]
    have hlen : y < s.strlen := hy
    exact hno ⟨x, by omega, hnext x y hxy hy hchar⟩
  classical
  obtain ⟨hi, heq⟩ := Nat.find_spec hex
  have hfirst : ∀ a b, a < Nat.find hex → a < b → b < s.strlen → s.char a ≠ s.char b := by
    intro a b ha hab hb heq
    exact Nat.find_min hex ha ⟨by omega, hnext a b hab hb heq⟩
  have horder : encryptOrder s = 1 := order_of_sorted hsorted
  intro hinv
  have hmoved := recover_repeated hi heq hfirst
  have hdecrypt : decryptOrder s = 1 := by
    rw [Inverse, horder, one_mul] at hinv
    exact hinv
  rw [decryptOrder, horder] at hdecrypt
  have hsame : recover s.char s.char s.strlen (Nat.find hex) = Nat.find hex := congrFun (congrArg _ hdecrypt) _
  omega

lemma inverse_of_chars (hd : key.chars.Nodup) {key' : CString} (hperm : key'.chars.Perm key.chars) : Inverse key' :=
  inverse_of_nodup (hperm.nodup_iff.mpr hd)

/-- The two rearrangements are inverse whatever the order of the characters of the key if and only if no two of them are
the same, and fit. -/
theorem columns_inverse_iff (key : CString) :
    (∀ key' : CString, key'.chars.Perm key.chars → ∀ columns, rearrangeBack key' columns = .ok columns) ↔
      key.strlen < keySize ∧ key.chars.Nodup := by
  constructor
  · intro h
    refine ⟨(rearrangeBack_iff.mp (h key (List.Perm.refl _))).1, ?_⟩
    by_contra hrepeated
    exact sorted_not_inverse hrepeated (rearrangeBack_iff.mp (h _ (sortedChars_perm key))).2
  · rintro ⟨hfits, hd⟩ key' hperm
    refine rearrangeBack_iff.mpr ⟨?_, inverse_of_chars hd hperm⟩
    rw [CString.strlen, hperm.length_eq]
    exact hfits

def keyAA : CString := ⟨[0x61, 0x61], by decide⟩

/-- With the key `aa` the two columns change places. -/
theorem columns_not_inverse :
    ¬∀ key : CString, Accepted key → ∀ columns, rearrangeBack key columns = .ok columns := by
  intro h
  have hback := h keyAA (by decide) id
  have hcolumns : (rearrange 2 keyAA.char ⟨sortKey 2 keyAA.char, (sortColumns 2 ⟨keyAA.char, id, 0⟩).columns⟩).columns =
      id := Except.ok.inj hback
  exact absurd (congrFun hcolumns 0) (by decide)

end Inverses

section Transposition

/-- The order of the columns, on the columns alone. -/
def columnOrder (key : Key) : Perm (Fin key.strlen) where
  toFun j := ⟨encryptOrder key.toCString j, (encryptOrder_below _).lt j.isLt⟩
  invFun j := ⟨(encryptOrder key.toCString).symm j, (encryptOrder_below _).symm.lt j.isLt⟩
  left_inv j := by simp
  right_inv j := by simp

/-- Each row of a block is read in an order of its columns in which the characters of the key do not fall. -/
theorem encryptBlock_transposes (key : Key) :
    ∃ p : Perm (Fin key.strlen),
      (∀ i j, i ≤ j → (key.char (p i)).toInt ≤ (key.char (p j)).toInt) ∧
      ∀ scratch data buffer, ∃ out, encryptBlock key.toCString scratch data buffer = .ok out ∧
        ∀ r < blockSize / key.strlen, ∀ j, r * key.strlen + (p j).val ≠ 1023 →
          out.byte (r * key.strlen + j.val) = data.byte (r * key.strlen + (p j).val) := by
  refine ⟨columnOrder key, ?_, ?_⟩
  · intro i j hij
    exact order_sorted (fun x => (key.char x).toInt) hij j.isLt
  · intro scratch data buffer
    refine ⟨_, encryptBlock_eq key scratch data buffer, ?_⟩
    intro r hr j hlast
    have hpos := strlen_pos key
    have hsize := strlen_mul key
    have hrow : r * key.strlen + key.strlen ≤ blockSize := by
      rw [← Nat.succ_mul, ← hsize, Nat.mul_comm key.strlen]
      exact Nat.mul_le_mul_right _ hr
    have hdiv : (r * key.strlen + j.val) / key.strlen = r := by
      rw [Nat.mul_comm, Nat.mul_add_div hpos, Nat.div_eq_of_lt j.isLt, Nat.add_zero]
    have hmod : (r * key.strlen + j.val) % key.strlen = j.val := by
      rw [Nat.mul_comm, Nat.mul_add_mod, Nat.mod_eq_of_lt j.isLt]
    have hcell : cell key.strlen (encryptOrder key.toCString) (r * key.strlen + j.val) =
        r * key.strlen + (columnOrder key j).val := by
      rw [cell, hdiv, hmod]
      rfl
    have hj := j.isLt
    rw [transpose_byte _ _ _ _ (by omega), hcell, if_neg hlast]

end Transposition

end Devos.Security
