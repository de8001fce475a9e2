import Devos.Kernel.Keys
import Mathlib.Data.List.GetD

/-! The arrays that a new key is copied through, by `keyset` and by `keygen`. -/

namespace Devos.Kernel

open Loops Security

/-- `char key[KEY_SIZE]` -/
abbrev KeyArray := Fin keySize → Byte

namespace KeyArray

def get (a : KeyArray) (k : ℕ) : Byte := a (Fin.ofNat keySize k)

def put (k : ℕ) (c : Byte) (a : KeyArray) : Except Fault KeyArray :=
  if k < keySize then .ok (Function.update a (Fin.ofNat keySize k) c) else .error .overrun

/-- `strlen`, which reads past an array without a terminator. -/
def strlen (a : KeyArray) : Except Fault ℕ :=
  if h : ∃ k, k < keySize ∧ a.get k = 0 then .ok (Nat.find h) else .error .overrun

def strcpy (dest src : KeyArray) : Except Fault KeyArray :=
  src.strlen.bind fun len => forLoopE (fun k => put k (src.get k)) dest (len + 1)

def hash (str : KeyArray) : Except Fault HKey :=
  str.strlen.bind fun l =>
    if l = 0 then .error .divide
    else .ok fun i =>
      -- the characters are signed
      let h : BitVec 32 := forLoop 0 (i + 1) (fun j h => h * 33 + (str.get (j % l)).signExtend 32) 5381
      BitVec.ofNat 8 (0x41 + h.toNat % 25)

end KeyArray

def userspaceStringCpy (kernelStr : KeyArray) (usrStr : CString) : Except Fault KeyArray :=
  (forLoopE (fun k => KeyArray.put k (usrStr.char k)) kernelStr usrStr.strlen).bind (KeyArray.put usrStr.strlen 0)

/-- What `set_key` reads and sets: the key of the current process and its digest, those of the kernel, the times, and
whether `key_to_use` and `hash_to_use` are those of the process. -/
structure KeyStore where
  key : KeyArray
  hKey : HKey
  kTimeout : ℕ
  encryptionKey : KeyArray
  globalHKey : HKey
  globalTimeout : ℕ
  ownInUse : Bool
  jiffies : ℕ

def KeyStore.assign (s : KeyStore) : KeyStore := { s with ownInUse := s.key.get 0 ≠ 0 }

def setKey (key : KeyArray) (globKey : ℤ) (s : KeyStore) : Except Fault (KeyStore × ℤ) :=
  key.strlen.bind fun len =>
    if isPowerOfTwo len then
      if globKey = kLocal then
        (s.key.strcpy key).bind fun copy => key.hash.map fun digest =>
          ({ s with key := copy, hKey := digest, kTimeout := s.jiffies + hz * lockTimeout }.assign, 0)
      else
        (s.encryptionKey.strcpy key).bind fun copy => copy.hash.map fun digest =>
          ({ s with
              encryptionKey := copy, globalHKey := digest
              globalTimeout := s.jiffies + hz * glokTimeout }.assign, 0)
    else .ok (s, 1)

/-- The local variables of `rnd_key_gen`. -/
structure Drawing where
  key : KeyArray
  charSet : ℕ → Byte
  setLen : ℕ

/-- A turn of the loop of `rnd_key_gen`, with what `RDTSC` has given. -/
def draw (reading : BitVec 32) (k : ℕ) (s : Drawing) : Except Fault Drawing :=
  if s.setLen = 0 then .error .divide
  else
    let index := reading.toNat % s.setLen
    let last := s.setLen - 1
    (s.key.put k (s.charSet index)).map fun key =>
      ⟨key, Function.update (Function.update s.charSet index (s.charSet last)) last 0, last⟩

/-- `0x2 << level`; the processor takes the shift modulo 32. -/
def keyLength (level : BitVec 32) : ℕ := ((2 : BitVec 32) <<< (level.toNat % 32)).toNat

def rndKeyGen (readings : ℕ → BitVec 32) (level : BitVec 32) (key : KeyArray) : Except Fault KeyArray :=
  let start := ⟨key, fun k => Sys.charSet.getD k 0, Sys.charSet.length⟩
  (forLoopE (fun k => draw (readings k) k) start (keyLength level)).bind fun s => s.key.put (keyLength level) 0

/-- `array` is what the local array has in it before. -/
def sysKeyset (key : CString) (globFlag : ℤ) (array : KeyArray) (s : KeyStore) : Except Fault (KeyStore × ℤ) :=
  (userspaceStringCpy array key).bind fun key => setKey key globFlag s

def sysKeygen (level : BitVec 32) (readings : ℕ → BitVec 32) (array : KeyArray) (s : KeyStore) :
    Except Fault (KeyStore × ℤ) :=
  (rndKeyGen readings level array).bind fun key => (setKey key kGlobal s).map fun (s, _) => (s, 1)

/-- The key that a call sets: that of the process, or that of the kernel. -/
def KeyStore.stored (s : KeyStore) (globKey : ℤ) : KeyArray := if globKey = kLocal then s.key else s.encryptionKey

/-- A string whose length is a power of two. -/
def KeyArray.WellFormed (a : KeyArray) : Prop := ∃ n, a.strlen = .ok n ∧ isPowerOfTwo n = true

inductive KeyCall where
  | keyset (key : CString) (globFlag : ℤ)
  | keygen (level : BitVec 32) (readings : ℕ → BitVec 32)

namespace KeyCall

def run (array : KeyArray) (s : KeyStore) : KeyCall → Except Fault (KeyStore × ℤ)
  | keyset key globFlag => sysKeyset key globFlag array s
  | keygen level readings => sysKeygen level readings array s

def globKey : KeyCall → ℤ
  | keyset _ globFlag => globFlag
  | keygen _ _ => kGlobal

/-- The new key fits, and it or else the one stored before has an accepted length. -/
def Fits (s : KeyStore) : KeyCall → Prop
  | keyset key globFlag => key.strlen < keySize ∧ (isPowerOfTwo key.strlen = true ∨ (s.stored globFlag).WellFormed)
  | keygen level _ => level.toNat % 32 < 4 ∨ level.toNat % 32 = 31 ∧ (s.stored kGlobal).WellFormed

end KeyCall

namespace KeyArray

variable {a b : KeyArray} {c : Byte} {k n : ℕ} {f : ℕ → Byte}

lemma put_of_lt (hk : k < keySize) (c : Byte) (a : KeyArray) :
    put k c a = .ok (Function.update a (Fin.ofNat keySize k) c) := if_pos hk

lemma put_of_le (hk : keySize ≤ k) (c : Byte) (a : KeyArray) : put k c a = .error .overrun := if_neg (not_lt.mpr hk)

lemma get_update {j : ℕ} (hk : k < keySize) (hj : j < keySize) :
    get (Function.update a (Fin.ofNat keySize k) c) j = if j = k then c else a.get j := by
  rw [get, get, Function.update_apply]
  apply if_congr _ rfl rfl
  rw [Fin.ext_iff, Fin.val_ofNat, Fin.val_ofNat, Nat.mod_eq_of_lt hj, Nat.mod_eq_of_lt hk]

/-- A loop that copies what fits. -/
lemma copy_of_le (hn : n ≤ keySize) (a : KeyArray) :
    ∃ b, forLoopE (fun k => put k (f k)) a n = .ok b ∧ ∀ k < keySize, b.get k = if k < n then f k else a.get k := by
  induction n with
  | zero => exact ⟨a, rfl, fun _ _ => rfl⟩
  | succ n ih =>
    obtain ⟨b, hb, hget⟩ := ih (by omega)
    refine ⟨_, by rw [forLoopE, hb]; exact put_of_lt (by omega) (f n) b, ?_⟩
    intro k hk
    rw [get_update (by omega) hk, hget k hk]
    by_cases hkn : k = n
    · rw [if_pos hkn, if_pos (by omega), hkn]
    · rw [if_neg hkn]
      exact if_congr (by omega) rfl rfl

lemma copy_of_lt (hn : keySize < n) (a : KeyArray) : forLoopE (fun k => put k (f k)) a n = .error .overrun := by
  obtain ⟨b, hb, _⟩ := copy_of_le (f := f) (le_refl keySize) a
  apply forLoopE_error_of_le (m := keySize + 1) _ hn
  rw [forLoopE, hb]
  exact put_of_le (le_refl keySize) _ _

/-- The array has a string of `n` characters. -/
structure Holds (a : KeyArray) (n : ℕ) : Prop where
  fits : n < keySize
  chars : ∀ k < n, a.get k ≠ 0
  nul : a.get n = 0

lemma strlen_eq_ok : a.strlen = .ok n ↔ a.Holds n := by
  unfold strlen
  constructor
  · intro h
    split_ifs at h with hex
    obtain rfl := Except.ok.inj h
    obtain ⟨hfits, hnul⟩ := Nat.find_spec hex
    refine ⟨hfits, ?_, hnul⟩
    intro k hk hzero
    exact Nat.find_min hex hk ⟨by omega, hzero⟩
  · intro h
    have hex : ∃ k, k < keySize ∧ a.get k = 0 := ⟨n, h.fits, h.nul⟩
    rw [dif_pos hex, Except.ok.injEq, Nat.find_eq_iff]
    exact ⟨⟨h.fits, h.nul⟩, fun k hk hzero => h.chars k hk hzero.2⟩

lemma Holds.strcpy (h : b.Holds n) (a : KeyArray) : ∃ d, a.strcpy b = .ok d ∧ d.Holds n := by
  obtain ⟨d, hd, hget⟩ := copy_of_le (f := b.get) (n := n + 1) h.fits a
  refine ⟨d, by rw [KeyArray.strcpy, strlen_eq_ok.mpr h]; exact hd, h.fits, ?_, ?_⟩
  · intro k hk
    rw [hget k (hk.trans h.fits), if_pos (by omega)]
    exact h.chars k hk
  · rw [hget n h.fits, if_pos (by omega)]
    exact h.nul

lemma Holds.hash (h : a.Holds n) (hpos : n ≠ 0) : ∃ digest, a.hash = .ok digest := by
  rw [KeyArray.hash, strlen_eq_ok.mpr h, Except.bind, if_neg hpos]
  exact ⟨_, rfl⟩

end KeyArray

section Calls

variable {a : KeyArray} {s : KeyStore} {str : CString} {n : ℕ}

lemma char_ne_zero {k : ℕ} (hk : k < str.strlen) : str.char k ≠ 0 := by
  intro hzero
  rw [CString.char, List.getD_eq_getElem _ _ hk] at hzero
  apply str.nulFree
  rw [← hzero]
  exact List.getElem_mem hk

lemma userspaceStringCpy_of_lt (h : str.strlen < keySize) (a : KeyArray) :
    ∃ b, userspaceStringCpy a str = .ok b ∧ b.Holds str.strlen := by
  obtain ⟨b, hb, hget⟩ := KeyArray.copy_of_le (f := str.char) h.le a
  refine ⟨_, by rw [userspaceStringCpy, hb]; exact KeyArray.put_of_lt h 0 b, h, ?_, ?_⟩
  · intro k hk
    rw [KeyArray.get_update h (hk.trans h), if_neg hk.ne, hget k (hk.trans h), if_pos hk]
    exact char_ne_zero hk
  · rw [KeyArray.get_update h h, if_pos rfl]

lemma userspaceStringCpy_of_le (h : keySize ≤ str.strlen) (a : KeyArray) :
    userspaceStringCpy a str = .error .overrun := by
  rw [userspaceStringCpy]
  rcases Nat.lt_or_eq_of_le h with hlt | heq
  · rw [KeyArray.copy_of_lt hlt]
    rfl
  · obtain ⟨b, hb, _⟩ := KeyArray.copy_of_le (f := str.char) heq.ge a
    rw [hb]
    exact KeyArray.put_of_le h 0 b

/-- A key of an accepted length is stored, and another one changes nothing. -/
lemma setKey_spec (h : a.Holds n) (globKey : ℤ) (s : KeyStore) :
    ∃ s' r, setKey a globKey s = .ok (s', r) ∧
      if isPowerOfTwo n then (s'.stored globKey).Holds n ∧ r = 0 else s' = s ∧ r = 1 := by
  rw [setKey, KeyArray.strlen_eq_ok.mpr h, Except.bind]
  by_cases hpow : isPowerOfTwo n = true
  · have hpos : n ≠ 0 := by
      rintro rfl
      exact absurd hpow (by decide)
    rw [if_pos hpow]
    by_cases hlocal : globKey = kLocal
    · obtain ⟨d, hd, hholds⟩ := h.strcpy s.key
      obtain ⟨digest, hdigest⟩ := h.hash hpos
      rw [if_pos hlocal, hd, Except.bind, hdigest]
      refine ⟨_, _, rfl, ?_⟩
      rw [if_pos hpow, KeyStore.stored, if_pos hlocal]
      exact ⟨hholds, rfl⟩
    · obtain ⟨d, hd, hholds⟩ := h.strcpy s.encryptionKey
      obtain ⟨digest, hdigest⟩ := hholds.hash hpos
      rw [if_neg hlocal, hd, Except.bind, hdigest]
      refine ⟨_, _, rfl, ?_⟩
      rw [if_pos hpow, KeyStore.stored, if_neg hlocal]
      exact ⟨hholds, rfl⟩
  · rw [if_neg hpow]
    refine ⟨s, 1, rfl, ?_⟩
    rw [if_neg hpow]
    exact ⟨rfl, rfl⟩

/-- The characters left and the characters drawn after `k` turns. -/
structure Drawn (s : Drawing) (k : ℕ) : Prop where
  setLen : s.setLen + k = 61
  charSet : ∀ i < s.setLen, s.charSet i ≠ 0
  key : ∀ i < k, s.key.get i ≠ 0

lemma draw_spec {s : Drawing} {k : ℕ} (h : Drawn s k) (hk : k < keySize) (reading : BitVec 32) :
    ∃ s', draw reading k s = .ok s' ∧ Drawn s' (k + 1) := by
  have hlen := h.setLen
  dsimp only [keySize] at hk
  have hpos : s.setLen ≠ 0 := by omega
  have hindex : reading.toNat % s.setLen < s.setLen := Nat.mod_lt _ (Nat.pos_of_ne_zero hpos)
  rw [draw, if_neg hpos]
  dsimp only
  rw [KeyArray.put_of_lt hk]
  refine ⟨_, rfl, ?_, ?_, ?_⟩
  · dsimp only
    omega
  · intro i hi
    dsimp only at hi ⊢
    rw [Function.update_of_ne (by omega), Function.update_apply]
    split_ifs
    · exact h.charSet _ (by omega)
    · exact h.charSet i (by omega)
  · intro i hi
    dsimp only
    rw [KeyArray.get_update hk (by dsimp only [keySize]; omega)]
    split_ifs with hik
    · exact h.charSet _ hindex
    · exact h.key i (by omega)

lemma draws_spec (readings : ℕ → BitVec 32) (key : KeyArray) (hn : n ≤ keySize) :
    ∃ s, forLoopE (fun k => draw (readings k) k) ⟨key, fun k => Sys.charSet.getD k 0, Sys.charSet.length⟩ n = .ok s ∧
      Drawn s n := by
  have hlength : Sys.charSet.length = 61 := rfl
  have hchars : ∀ c ∈ Sys.charSet, c ≠ 0 := by decide
  refine forLoopE_induction (P := fun k s => Drawn s k) ⟨hlength, ?_, fun _ hk => absurd hk (Nat.not_lt_zero _)⟩ ?_
  · intro k hk
    dsimp only at hk ⊢
    rw [List.getD_eq_getElem _ _ hk]
    exact hchars _ (List.getElem_mem hk)
  exact fun k s hk hs => draw_spec hs (by omega) (readings k)

lemma rndKeyGen_of_lt {level : BitVec 32} (h : keyLength level < keySize) (readings : ℕ → BitVec 32) (key : KeyArray) :
    ∃ a, rndKeyGen readings level key = .ok a ∧ a.Holds (keyLength level) := by
  obtain ⟨s, hs, hdrawn⟩ := draws_spec readings key h.le
  refine ⟨_, by rw [rndKeyGen, hs]; exact KeyArray.put_of_lt h 0 s.key, h, ?_, ?_⟩
  · intro k hk
    rw [KeyArray.get_update h (hk.trans h), if_neg hk.ne]
    exact hdrawn.key k hk
  · rw [KeyArray.get_update h h, if_pos rfl]

lemma rndKeyGen_of_le {level : BitVec 32} (h : keySize ≤ keyLength level) (readings : ℕ → BitVec 32) (key : KeyArray) :
    rndKeyGen readings level key = .error .overrun := by
  obtain ⟨s, hs, hdrawn⟩ := draws_spec readings key (le_refl keySize)
  rw [rndKeyGen]
  rcases Nat.lt_or_eq_of_le h with hlt | heq
  · have hlen := hdrawn.setLen
    dsimp only [keySize] at hlen
    have hnext : draw (readings keySize) keySize s = .error .overrun := by
      rw [draw, if_neg (by omega)]
      dsimp only
      rw [KeyArray.put_of_le (le_refl keySize)]
      rfl
    rw [forLoopE_error_of_le (m := keySize + 1) (by rw [forLoopE, hs]; exact hnext) hlt]
    rfl
  · rw [← heq, hs]
    exact KeyArray.put_of_le (le_refl keySize) 0 s.key

lemma keyLength_eq (level : BitVec 32) :
    keyLength level = if level.toNat % 32 = 31 then 0 else 2 ^ (level.toNat % 32 + 1) := by
  have hlt : level.toNat % 32 < 32 := Nat.mod_lt _ (by decide)
  have hpow : 2 <<< (level.toNat % 32) = 2 ^ (level.toNat % 32 + 1) := by
    rw [Nat.shiftLeft_eq, Nat.pow_succ, Nat.mul_comm]
  rw [keyLength, BitVec.toNat_shiftLeft]
  change 2 <<< (level.toNat % 32) % 2 ^ 32 = _
  rw [hpow]
  split_ifs with h
  · rw [h]
    rfl
  · exact Nat.mod_eq_of_lt (Nat.pow_lt_pow_right (by decide) (by omega))

lemma setKey_wellFormed (h : a.Holds n) (globKey : ℤ) (s : KeyStore) :
    ∃ s' r, setKey a globKey s = .ok (s', r) ∧
      ((s'.stored globKey).WellFormed ↔ isPowerOfTwo n = true ∨ (s.stored globKey).WellFormed) := by
  obtain ⟨s', r, hrun, hcase⟩ := setKey_spec h globKey s
  refine ⟨s', r, hrun, ?_⟩
  by_cases hpow : isPowerOfTwo n = true
  · rw [if_pos hpow] at hcase
    exact iff_of_true ⟨n, KeyArray.strlen_eq_ok.mpr hcase.1, hpow⟩ (Or.inl hpow)
  · rw [if_neg hpow] at hcase
    rw [hcase.1]
    exact (or_iff_right hpow).symm

/-- A call puts a key of an accepted length where it belongs, and nothing next to it, if and only if it fits. -/
theorem installs_key_iff (call : KeyCall) (array : KeyArray) (s : KeyStore) :
    (∃ s' r, call.run array s = .ok (s', r) ∧ (s'.stored call.globKey).WellFormed) ↔ call.Fits s := by
  cases call with
  | keyset key globFlag =>
    change (∃ s' r, sysKeyset key globFlag array s = .ok (s', r) ∧ (s'.stored globFlag).WellFormed) ↔
      key.strlen < keySize ∧ (isPowerOfTwo key.strlen = true ∨ (s.stored globFlag).WellFormed)
    rcases Nat.lt_or_ge key.strlen keySize with hlt | hge
    · obtain ⟨b, hb, hholds⟩ := userspaceStringCpy_of_lt hlt array
      obtain ⟨s', r, hrun, hiff⟩ := setKey_wellFormed hholds globFlag s
      have hcall : sysKeyset key globFlag array s = .ok (s', r) := by
        rw [sysKeyset, hb]
        exact hrun
      rw [hcall]
      simp [hlt, hiff]
    · have hcall : sysKeyset key globFlag array s = .error .overrun := by
        rw [sysKeyset, userspaceStringCpy_of_le hge]
        rfl
      rw [hcall]
      simp [hge]
  | keygen level readings =>
    change (∃ s' r, sysKeygen level readings array s = .ok (s', r) ∧ (s'.stored kGlobal).WellFormed) ↔
      (level.toNat % 32 < 4 ∨ level.toNat % 32 = 31 ∧ (s.stored kGlobal).WellFormed)
    have hlength := keyLength_eq level
    have hmod : level.toNat % 32 < 32 := Nat.mod_lt _ (by decide)
    generalize level.toNat % 32 = k at hlength hmod
    by_cases hlt : keyLength level < keySize
    · obtain ⟨b, hb, hholds⟩ := rndKeyGen_of_lt hlt readings array
      obtain ⟨s', r, hrun, hiff⟩ := setKey_wellFormed hholds kGlobal s
      have hcall : sysKeygen level readings array s = .ok (s', 1) := by
        rw [sysKeygen, hb, Except.bind, hrun]
        rfl
      have hcases : k < 4 ∧ isPowerOfTwo (keyLength level) = true ∨ k = 31 ∧ isPowerOfTwo (keyLength level) = false := by
        rw [hlength] at hlt ⊢
        have hall : ∀ k < 32, (if k = 31 then 0 else 2 ^ (k + 1)) < keySize →
            k < 4 ∧ isPowerOfTwo (if k = 31 then 0 else 2 ^ (k + 1)) = true ∨
              k = 31 ∧ isPowerOfTwo (if k = 31 then 0 else 2 ^ (k + 1)) = false := by decide
        exact hall k hmod hlt
      rw [hcall]
      rcases hcases with ⟨hk, hpow⟩ | ⟨rfl, hpow⟩
      · simp [hiff, hpow, hk]
      · simp [hiff, hpow]
    · have hcall : sysKeygen level readings array s = .error .overrun := by
        rw [sysKeygen, rndKeyGen_of_le (not_lt.mp hlt)]
        rfl
      have hk : ¬(k < 4 ∨ k = 31) := by
        rw [hlength] at hlt
        have hall : ∀ k < 32, ¬(if k = 31 then 0 else 2 ^ (k + 1)) < keySize → ¬(k < 4 ∨ k = 31) := by decide
        exact hall k hmod hlt
      rw [hcall]
      have hnone : ¬(k < 4 ∨ k = 31 ∧ (s.stored kGlobal).WellFormed) := fun h => hk (h.imp_right And.left)
      simp [hnone]

def keyOf32 : CString := ⟨List.replicate 32 0x61, by decide⟩

/-- A key of 32 characters has its terminator behind the array of `sys_keyset`. -/
theorem long_key_overruns : ¬∀ (call : KeyCall) (array : KeyArray) (s : KeyStore),
    ∃ s' r, call.run array s = .ok (s', r) ∧ (s'.stored call.globKey).WellFormed := by
  intro h
  have hlong : keySize ≤ keyOf32.strlen := by decide
  obtain ⟨s', r, hrun, _⟩ := h (.keyset keyOf32 kGlobal) (fun _ => 0)
    ⟨fun _ => 0, anyHKey, 0, fun _ => 0, anyHKey, 0, false, 0⟩
  have hcall : ∀ s, sysKeyset keyOf32 kGlobal (fun _ => 0) s = .error .overrun := by
    intro s
    rw [sysKeyset, userspaceStringCpy_of_le hlong]
    rfl
  cases (hcall _).symm.trans hrun

end Calls

end Devos.Kernel
