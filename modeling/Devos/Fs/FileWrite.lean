import Devos.Fs.Allocation
import Devos.Fs.FileRead
import Devos.Security.RoundTrip

/-! When `file_write` leaves an encrypted file the encryption of its bytes. -/

namespace Devos.Fs

open Loops Security LinearProbing

def encryptCell (key : CString) (x : ℕ) : ℕ := cell key.strlen (encryptOrder key) x

def decryptCell (key : CString) (x : ℕ) : ℕ := cell key.strlen (decryptOrder key) x

/-- The blocks of the file are the encryption of the bytes `plain`; the byte at the end of each block
is in none of them. -/
def Encrypts (key : CString) (v : Volume) (inode : MInode) (plain : ℕ → Byte) : Prop :=
  ∀ i x, x < blockSize → encryptCell key x ≠ lastCell →
    (stored v inode i).byte x = plain (blockSize * i + encryptCell key x)

def StaysCoherent (key : CString) (v : Volume) (inode : MInode) (v' : Volume) (inode' : MInode)
    (pos n : ℕ) : Prop :=
  ∀ plain, Encrypts key v inode plain →
    ∃ plain', Encrypts key v' inode' plain' ∧ ∀ q, ¬ (pos ≤ q ∧ q < pos + n) → plain' q = plain q

def firstIn (pos j : ℕ) : ℕ := pos - blockSize * j

def endIn (pos n j : ℕ) : ℕ := min (pos + n - blockSize * j) blockSize

/-- How a block is written: as it stands without a key, decrypted before and encrypted after under
one, or, when the key is gone but an earlier block of the same write had one, only encrypted. -/
inductive Handling where
  | plain
  | rewrite
  | encryptOnly

def handling (keys : ℕ → KeyView) (pos j : ℕ) : Handling :=
  if 0 < (keys j).effective.strlen then .rewrite
  else if ∃ m, m < j ∧ pos / blockSize ≤ m ∧ 0 < (keys m).effective.strlen then .encryptOnly
  else .plain

inductive Origin where
  | user (u : ℕ)
  | stored (x : ℕ)
  | scratchD
  | scratchE

def origin (h : Handling) (keyToUse : CString) (lo hi x : ℕ) : Origin :=
  match h with
  | .plain => if lo ≤ x ∧ x < hi then .user x else .stored x
  | .encryptOnly =>
    if encryptCell keyToUse x = lastCell then .scratchE
    else if lo ≤ encryptCell keyToUse x ∧ encryptCell keyToUse x < hi then .user (encryptCell keyToUse x)
    else .stored (encryptCell keyToUse x)
  | .rewrite =>
    if encryptCell keyToUse x = lastCell then .scratchE
    else if lo ≤ encryptCell keyToUse x ∧ encryptCell keyToUse x < hi then .user (encryptCell keyToUse x)
    else if decryptCell keyToUse (encryptCell keyToUse x) = lastCell then .scratchD
    else .stored (decryptCell keyToUse (encryptCell keyToUse x))

def Origin.value (buf : ℕ → Byte) (old scratchD scratchE : Block) : Origin → Byte
  | .user u => buf u
  | .stored x => old.byte x
  | .scratchD => scratchD.byte lastCell
  | .scratchE => scratchE.byte lastCell

lemma value_congr {h : Handling} {keyToUse : CString} {lo hi x : ℕ} {buf buf' : ℕ → Byte}
    {old scratchD scratchE : Block} (hbuf : ∀ u, lo ≤ u → buf u = buf' u) :
    (origin h keyToUse lo hi x).value buf old scratchD scratchE =
      (origin h keyToUse lo hi x).value buf' old scratchD scratchE := by
  cases h with
  | plain =>
    rw [origin]
    split
    next hu => exact hbuf _ hu.1
    next => rfl
  | encryptOnly =>
    rw [origin]
    split
    next => rfl
    next =>
      split
      next hu => exact hbuf _ hu.1
      next => rfl
  | rewrite =>
    rw [origin]
    split
    next => rfl
    next =>
      split
      next hu => exact hbuf _ hu.1
      next => split <;> rfl

section Buffer

variable {keys : KeyView} {table : HashTable} {iNum : Word} {scratchD scratchE b b' : Block}
  {isEncr f : Bool} {c chunk : ℕ} {buf : ℕ → Byte}

lemma overlay_byte (b : Block) (c chunk : ℕ) (buf : ℕ → Byte) {x : ℕ} (hx : x < blockSize) :
    (overlay b c chunk buf).byte x = if c ≤ x ∧ x < c + chunk then buf (x - c) else b.byte x := by
  rw [Block.byte_lt _ hx, Block.byte_lt _ hx]
  rfl

lemma key_of_encryptBlock {key : CString} (hacc : 0 < key.strlen → Accepted key)
    (h : encryptBlock key scratchE b b = .ok b') :
    ∃ k : Key, k.toCString = key ∧ b' = transpose key.strlen (encryptOrder key) scratchE b := by
  by_cases hfit : keySize ≤ key.strlen
  · rw [encryptBlock, if_pos hfit] at h
    cases h
  · by_cases hpos : key.strlen = 0
    · rw [encryptBlock, if_neg hfit, if_pos hpos] at h
      cases h
    · let k : Key := ⟨key, hacc (Nat.pos_of_ne_zero hpos), not_le.mp hfit⟩
      have he : encryptBlock k.toCString scratchE b b = .ok b' := h
      rw [encryptBlock_eq] at he
      cases he
      exact ⟨k, rfl, rfl⟩

lemma isEncrypted_found (hn : iNum ≠ 0) (hin : ∃ z, scheme.Found (view table) iNum z) :
    isEncrypted keys table iNum = .ok (decide (0 < keys.effective.strlen)) := by
  obtain ⟨z, hz⟩ := hin
  have hne : (z : ℤ) ≠ errNotFnd := (errNotFnd_ne z).symm
  by_cases hk : 0 < keys.effective.strlen
  · rw [isEncrypted, if_pos hk, searchFunc_found hn hz]
    simp only [hne, ne_eq, not_false_eq_true, decide_true, hk]
  · rw [isEncrypted, if_neg hk]
    simp only [hk, decide_false]

lemma writeBuffer_spec (hn : iNum ≠ 0) (hin : ∃ z, scheme.Found (view table) iNum z)
    (hacc : 0 < keys.keyToUse.strlen → Accepted keys.keyToUse)
    (h : writeBuffer keys table iNum scratchD scratchE isEncr b c chunk buf = .ok (f, b')) :
    f = (isEncr || decide (0 < keys.effective.strlen)) ∧ ∀ x, x < blockSize →
      b'.byte x = (origin
        (if 0 < keys.effective.strlen then .rewrite else if isEncr then .encryptOnly else .plain)
        keys.keyToUse c (c + chunk) x).value (fun u => buf (u - c)) b scratchD scratchE := by
  rw [writeBuffer, isEncrypted_found hn hin] at h
  by_cases hk : 0 < keys.effective.strlen
  · simp only [hk, decide_true, Except.bind, if_true, Bool.or_true] at h
    cases hd : decryptBlock keys.keyToUse scratchD b b with
    | error e =>
      rw [hd] at h
      cases h
    | ok d =>
      rw [hd] at h
      dsimp only at h
      cases he : encryptBlock keys.keyToUse scratchE (overlay d c chunk buf) (overlay d c chunk buf) with
      | error e =>
        rw [he] at h
        cases h
      | ok e =>
        rw [he] at h
        cases h
        obtain ⟨k, hkey, rfl⟩ := key_of_encryptBlock hacc he
        rw [← hkey, decryptBlock_eq] at hd
        have hd := Except.ok.inj hd
        refine ⟨by simp only [hk, decide_true, Bool.or_true], ?_⟩
        intro x hx
        have hu : encryptCell k.toCString x < blockSize := encryptCell_lt k hx
        rw [transpose_byte _ _ _ _ hx, ← hkey, if_pos hk, origin]
        change (if encryptCell k.toCString x = lastCell then _ else
          (overlay d c chunk buf).byte (encryptCell k.toCString x)) = _
        rw [overlay_byte _ _ _ _ hu, ← hd, transpose_byte _ _ _ _ hu]
        change _ = (if encryptCell k.toCString x = lastCell then Origin.scratchE else
          if _ then _ else if decryptCell k.toCString (encryptCell k.toCString x) = lastCell then _ else
            _).value _ _ _ _
        split_ifs <;> first | rfl | contradiction
  · simp only [hk, decide_false, Except.bind, Bool.or_false, Bool.false_eq_true, if_false] at h
    cases hflag : isEncr with
    | true =>
      rw [hflag] at h
      simp only [if_true] at h
      cases he : encryptBlock keys.keyToUse scratchE (overlay b c chunk buf) (overlay b c chunk buf) with
      | error e =>
        rw [he] at h
        cases h
      | ok e =>
        rw [he] at h
        cases h
        obtain ⟨k, hkey, rfl⟩ := key_of_encryptBlock hacc he
        refine ⟨rfl, ?_⟩
        intro x hx
        have hu : encryptCell k.toCString x < blockSize := encryptCell_lt k hx
        rw [transpose_byte _ _ _ _ hx, ← hkey, if_neg hk, if_pos rfl, origin]
        change (if encryptCell k.toCString x = lastCell then _ else
          (overlay b c chunk buf).byte (encryptCell k.toCString x)) = _
        rw [overlay_byte _ _ _ _ hu]
        split_ifs <;> rfl
    | false =>
      rw [hflag] at h
      cases h
      refine ⟨by simp only [hk, decide_false, Bool.or_false], ?_⟩
      intro x hx
      rw [if_neg hk, if_neg Bool.false_ne_true, origin, overlay_byte _ _ _ _ hx]
      split_ifs <;> rfl

end Buffer

def Touched (pos n j : ℕ) : Prop := firstIn pos j < endIn pos n j

instance (pos n j : ℕ) : Decidable (Touched pos n j) := Nat.decLt _ _

def writtenByte (keys : ℕ → KeyView) (scratchD scratchE : ℕ → Block) (v : Volume) (inode : MInode)
    (pos : ℕ) (buf : ℕ → Byte) (n j x : ℕ) : Byte :=
  (origin (handling keys pos j) (keys j).keyToUse (firstIn pos j) (endIn pos n j) x).value
    (fun u => buf (blockSize * j + u - pos)) (stored v inode j) (scratchD j) (scratchE j)

section Loop

variable {keys : ℕ → KeyView} {table : HashTable} {scratchD scratchE : ℕ → Block} {v : Volume}
  {inode : MInode} {pos count : ℕ} {buf : ℕ → Byte} {s s' : Writing}

structure HasWritten (keys : ℕ → KeyView) (scratchD scratchE : ℕ → Block) (v : Volume) (inode : MInode)
    (pos count : ℕ) (buf : ℕ → Byte) (s : Writing) : Prop where
  pos_eq : s.pos = pos + s.i
  le : s.i ≤ count
  boundary : s.i = 0 ∨ s.i = count ∨ s.pos % blockSize = 0
  iNum : s.inode.iNum = inode.iNum
  consistent : Consistent s.volume s.inode
  flag : s.isEncr = true ↔ ∃ j, Touched pos s.i j ∧ 0 < (keys j).effective.strlen
  blocks : ∀ j x, x < blockSize → (stored s.volume s.inode j).byte x =
    if Touched pos s.i j then writtenByte keys scratchD scratchE v inode pos buf s.i j x
    else (stored v inode j).byte x

lemma stored_put (hc : Consistent v inode) {i : ℕ} (hi : i < maxBlocks) (hz : zoneAt v inode i ≠ 0)
    (b : Block) (j : ℕ) : stored (v.put (zoneAt v inode i) b) inode j =
      if j = i then b else stored v inode j := by
  rw [stored, content_put hc hi hz, Function.update_apply]
  split <;> rfl

lemma refAt_grow (v : Volume) (inode : MInode) (pos : ℕ) (r : Ref) :
    refAt v (inode.grow pos) r = refAt v inode r := refAt_size v inode _ r

lemma consistent_grow (hc : Consistent v inode) (pos : ℕ) : Consistent v (inode.grow pos) := hc.size _

lemma stored_size (v : Volume) (inode : MInode) (k i : ℕ) :
    stored v { inode with iSize := k } i = stored v inode i := by
  rw [stored, stored, content, content, zoneAt, zoneAt, refAt_size]

lemma stored_grow (v : Volume) (inode : MInode) (pos i : ℕ) :
    stored v (inode.grow pos) i = stored v inode i := stored_size v inode _ i

lemma round_bounds (hs : HasWritten keys scratchD scratchE v inode pos count buf s) (hlt : s.i < count) :
    (∀ j, j ≠ s.pos / blockSize → endIn pos
        (s.i + min (blockSize - s.pos % blockSize) (count - s.i)) j = endIn pos s.i j) ∧
      ¬ Touched pos s.i (s.pos / blockSize) ∧
      firstIn pos (s.pos / blockSize) = s.pos % blockSize ∧
      endIn pos (s.i + min (blockSize - s.pos % blockSize) (count - s.i)) (s.pos / blockSize) =
        s.pos % blockSize + min (blockSize - s.pos % blockSize) (count - s.i) ∧
      0 < min (blockSize - s.pos % blockSize) (count - s.i) := by
  have hpos := hs.pos_eq
  have hb : s.i = 0 ∨ s.i = count ∨ s.pos % 1024 = 0 := hs.boundary
  have hbs : blockSize = 1024 := rfl
  simp only [firstIn, endIn, Touched, hbs]
  refine ⟨fun j hj => ?_, ?_, ?_, ?_, ?_⟩ <;> omega

lemma touched_before (hs : HasWritten keys scratchD scratchE v inode pos count buf s)
    (hlt : s.i < count) (j : ℕ) :
    Touched pos s.i j ↔ j < s.pos / blockSize ∧ pos / blockSize ≤ j := by
  have hpos := hs.pos_eq
  have hb : s.i = 0 ∨ s.i = count ∨ s.pos % 1024 = 0 := hs.boundary
  have hbs : blockSize = 1024 := rfl
  simp only [firstIn, endIn, Touched, hbs]
  omega

lemma handling_eq (hs : HasWritten keys scratchD scratchE v inode pos count buf s) (hlt : s.i < count) :
    handling keys pos (s.pos / blockSize) =
      if 0 < (keys (s.pos / blockSize)).effective.strlen then .rewrite
      else if s.isEncr then .encryptOnly else .plain := by
  have hflag : s.isEncr = true ↔ ∃ m, m < s.pos / blockSize ∧ pos / blockSize ≤ m ∧
      0 < (keys m).effective.strlen := by
    rw [hs.flag]
    simp only [touched_before hs hlt, and_assoc]
  rw [handling]
  simp only [hflag]

lemma HasWritten.keeps (hs : HasWritten keys scratchD scratchE v inode pos count buf s) {v₁ : Volume}
    {inode₁ : MInode} (hk : Keeps s.volume s.inode v₁ inode₁) :
    HasWritten keys scratchD scratchE v inode pos count buf
      { s with volume := v₁, inode := inode₁ } where
  pos_eq := hs.pos_eq
  le := hs.le
  boundary := hs.boundary
  iNum := hk.iNum.trans hs.iNum
  consistent := hk.consistent
  flag := hs.flag
  blocks j x hx := by
    dsimp only
    rw [hk.same]
    exact hs.blocks j x hx

lemma hasWritten_put (hn : inode.iNum ≠ 0) (hin : ∃ z, scheme.Found (view table) inode.iNum z)
    (hacc : ∀ j, 0 < (keys j).keyToUse.strlen → Accepted (keys j).keyToUse)
    (hs : HasWritten keys scratchD scratchE v inode pos count buf s) (hlt : s.i < count)
    (hmax : s.pos / blockSize < maxBlocks) (hz : zoneAt s.volume s.inode (s.pos / blockSize) ≠ 0)
    {f : Bool} {b : Block}
    (h : writeBuffer (keys (s.pos / blockSize)) table s.inode.iNum (scratchD (s.pos / blockSize))
      (scratchE (s.pos / blockSize)) s.isEncr
      (s.volume.data (zoneAt s.volume s.inode (s.pos / blockSize))) (s.pos % blockSize)
      (min (blockSize - s.pos % blockSize) (count - s.i)) (fun k => buf (s.i + k)) = .ok (f, b)) :
    HasWritten keys scratchD scratchE v inode pos count buf
      { pos := s.pos + min (blockSize - s.pos % blockSize) (count - s.i)
        i := s.i + min (blockSize - s.pos % blockSize) (count - s.i)
        isEncr := f
        volume := s.volume.put (zoneAt s.volume s.inode (s.pos / blockSize)) b
        inode := s.inode.grow (s.pos + min (blockSize - s.pos % blockSize) (count - s.i)) } := by
  obtain ⟨hother, hnot, hfirst, hend, hchunk⟩ := round_bounds hs hlt
  have hpos := hs.pos_eq
  have hb : s.i = 0 ∨ s.i = count ∨ s.pos % 1024 = 0 := hs.boundary
  rw [hs.iNum] at h
  obtain ⟨hf, hbytes⟩ := writeBuffer_spec hn hin (hacc _) h
  generalize hchunk_eq : min (blockSize - s.pos % blockSize) (count - s.i) = chunk at *
  have hc : chunk = min (1024 - s.pos % 1024) (count - s.i) := hchunk_eq.symm
  have htouched : ∀ j, Touched pos (s.i + chunk) j ↔ Touched pos s.i j ∨ j = s.pos / blockSize := by
    intro j
    by_cases hj : j = s.pos / blockSize
    · refine iff_of_true ?_ (Or.inr hj)
      rw [hj, Touched, hfirst, hend]
      omega
    · rw [Touched, Touched, hother j hj]
      exact (or_iff_left hj).symm
  have hput : ∀ j, stored (s.volume.put (zoneAt s.volume s.inode (s.pos / blockSize)) b)
      (s.inode.grow (s.pos + chunk)) j = if j = s.pos / blockSize then b else stored s.volume s.inode j := by
    intro j
    rw [stored_grow, stored_put hs.consistent hmax hz]
  refine ⟨?_, ?_, ?_, hs.iNum, ?_, ?_, ?_⟩
  · change s.pos + chunk = pos + (s.i + chunk)
    omega
  · change s.i + chunk ≤ count
    omega
  · change s.i + chunk = 0 ∨ s.i + chunk = count ∨ (s.pos + chunk) % 1024 = 0
    omega
  · exact consistent_grow (consistent_put hs.consistent (blockRef_isData _) b) _
  · change f = true ↔ _
    rw [hf, Bool.or_eq_true, hs.flag, decide_eq_true_eq]
    simp only [htouched, or_and_right, exists_or, exists_eq_left]
  · intro j x hx
    change (stored _ (s.inode.grow (s.pos + chunk)) j).byte x = if Touched pos (s.i + chunk) j then _ else _
    rw [hput]
    by_cases hj : j = s.pos / blockSize
    · subst hj
      have hold : stored v inode (s.pos / blockSize) =
          s.volume.data (zoneAt s.volume s.inode (s.pos / blockSize)) := by
        apply Block.ext_byte
        intro y hy
        have hsame := hs.blocks (s.pos / blockSize) y hy
        rw [if_neg hnot, stored_eq _ _ hmax, if_neg hz] at hsame
        exact hsame.symm
      have hbuf : ∀ u, s.pos % blockSize ≤ u → buf (blockSize * (s.pos / blockSize) + u - pos) =
          buf (s.i + (u - s.pos % blockSize)) := by
        intro u hu
        have hu' : s.pos % 1024 ≤ u := hu
        congr 1
        change 1024 * (s.pos / 1024) + u - pos = s.i + (u - s.pos % 1024)
        omega
      rw [if_pos rfl, if_pos ((htouched _).mpr (Or.inr rfl)), hbytes x hx, ← handling_eq hs hlt,
        writtenByte, hfirst, hend, hold]
      exact value_congr fun u hu => (hbuf u hu).symm
    · rw [if_neg hj, hs.blocks j x hx]
      simp only [htouched, or_iff_left hj]
      by_cases ht : Touched pos s.i j
      · rw [if_pos ht, if_pos ht, writtenByte, writtenByte, hother j hj]
      · rw [if_neg ht, if_neg ht]

lemma hasWritten_body (hn : inode.iNum ≠ 0) (hin : ∃ z, scheme.Found (view table) inode.iNum z)
    (hacc : ∀ j, 0 < (keys j).keyToUse.strlen → Accepted (keys j).keyToUse)
    (hs : HasWritten keys scratchD scratchE v inode pos count buf s) :
    (∀ s', writeBody keys table scratchD scratchE buf count s = .again s' →
      HasWritten keys scratchD scratchE v inode pos count buf s') ∧
    ∀ r, writeBody keys table scratchD scratchE buf count s = .leave r →
      ∀ s', r = .ok s' → HasWritten keys scratchD scratchE v inode pos count buf s' := by
  rw [writeBody]
  by_cases hle : count ≤ s.i
  · rw [if_pos hle]
    refine ⟨fun s' h => (by cases h), ?_⟩
    rintro r h s' rfl
    cases h
    exact hs
  · rw [if_neg hle]
    dsimp only
    cases hcb : createBlock s.volume s.inode (s.pos / blockSize) with
    | error e =>
      refine ⟨fun s' h => (by cases h), ?_⟩
      rintro r h s' rfl
      cases h
    | ok res =>
      obtain ⟨block, v₁, inode₁⟩ := res
      obtain ⟨hk, hblock⟩ := createBlock_spec hs.consistent hcb
      have hs₁ := hs.keeps hk
      dsimp only
      by_cases hstop : block = 0 ∨ ¬ v₁.readable block = true
      · rw [if_pos hstop]
        refine ⟨fun s' h => (by cases h), ?_⟩
        rintro r h s' rfl
        cases h
        exact hs₁
      · rw [if_neg hstop]
        have h₀ : block ≠ 0 := (not_or.mp hstop).1
        obtain ⟨hmax, hz⟩ := hblock h₀
        cases hw : writeBuffer (keys (s.pos / blockSize)) table inode₁.iNum (scratchD (s.pos / blockSize))
          (scratchE (s.pos / blockSize)) s.isEncr (v₁.data block) (s.pos % blockSize)
          (min (blockSize - s.pos % blockSize) (count - s.i)) (fun k => buf (s.i + k)) with
        | error e =>
          refine ⟨fun s' h => (by cases h), ?_⟩
          rintro r h s' rfl
          cases h
        | ok res =>
          obtain ⟨f, b⟩ := res
          refine ⟨?_, fun r h => (by cases h)⟩
          intro s' h
          cases h
          rw [hz] at hw h₀ ⊢
          exact hasWritten_put hn hin hacc hs₁ (not_le.mp hle) hmax h₀ hw

theorem fileWrite_spec (hc : Consistent v inode) (hn : inode.iNum ≠ 0)
    (hin : ∃ z, scheme.Found (view table) inode.iNum z)
    (hacc : ∀ j, 0 < (keys j).keyToUse.strlen → Accepted (keys j).keyToUse) {append : Bool} {fPos : ℕ}
    {r : WriteResult}
    (h : fileWrite keys table scratchD scratchE v inode append fPos buf count = .ok r) :
    ∀ j x, x < blockSize → (stored r.volume r.inode j).byte x =
      if Touched (if append then inode.iSize else fPos) r.value.toNat j then
        writtenByte keys scratchD scratchE v inode (if append then inode.iSize else fPos) buf
          r.value.toNat j x
      else (stored v inode j).byte x := by
  generalize hpos : (if append then inode.iSize else fPos) = pos
  rw [fileWrite, hpos] at h
  cases hit : iterate (writeBody keys table scratchD scratchE buf count) (count + 1)
    ⟨pos, 0, false, v, inode⟩ with
  | none =>
    rw [hit] at h
    cases h
  | some res =>
    rw [hit, Option.getD_some] at h
    have hstart : HasWritten keys scratchD scratchE v inode pos count buf ⟨pos, 0, false, v, inode⟩ := by
      have hnone : ∀ j, ¬ Touched pos 0 j := by
        intro j
        have hbs : blockSize = 1024 := rfl
        simp only [Touched, firstIn, endIn, hbs]
        omega
      refine ⟨rfl, Nat.zero_le _, Or.inl rfl, rfl, hc, ?_, ?_⟩
      · simp only [hnone, false_and, exists_const, Bool.false_eq_true]
      · intro j x _
        rw [if_neg (hnone j)]
    have hend : ∀ s', res = .ok s' → HasWritten keys scratchD scratchE v inode pos count buf s' := by
      refine iterate_invariant (HasWritten keys scratchD scratchE v inode pos count buf)
        (Q := fun r => ∀ s', r = .ok s' → HasWritten keys scratchD scratchE v inode pos count buf s')
        ?_ ?_ hstart hit
      · exact fun s s' hs hb => (hasWritten_body hn hin hacc hs).1 s' hb
      · exact fun s r hs hb => (hasWritten_body hn hin hacc hs).2 r hb
    cases res with
    | error e => cases h
    | ok s =>
      cases h
      have hs := hend s rfl
      have hvalue : (if s.i = 0 then -1 else (s.i : ℤ)).toNat = s.i := by
        split <;> omega
      dsimp only
      rw [hvalue]
      exact hs.blocks

end Loop

section Coherence

variable {key : Key} {v v' : Volume} {inode inode' : MInode} {pos n : ℕ}

def keptCell (key : CString) (y : ℕ) : ℕ := cell key.strlen (encryptOrder key).symm y

lemma keptCell_encryptCell (key : Key) (x : ℕ) :
    keptCell key.toCString (encryptCell key.toCString x) = x := by
  rw [keptCell, encryptCell, ← cell_mul (strlen_pos key) (encryptOrder_below _)]
  have hone : (encryptOrder key.toCString).symm * encryptOrder key.toCString = 1 := by
    ext y
    simp
  rw [hone, cell_one]

def plainOf (key : CString) (v : Volume) (inode : MInode) (q : ℕ) : Byte :=
  (stored v inode (q / blockSize)).byte (keptCell key (q % blockSize))

lemma plainOf_cell (key : Key) (v : Volume) (inode : MInode) (i : ℕ) {x : ℕ} (hx : x < blockSize) :
    plainOf key.toCString v inode (blockSize * i + encryptCell key.toCString x) =
      (stored v inode i).byte x := by
  have hlt : encryptCell key.toCString x < 1024 := encryptCell_lt key hx
  have hdiv : (1024 * i + encryptCell key.toCString x) / 1024 = i := by omega
  have hmod : (1024 * i + encryptCell key.toCString x) % 1024 = encryptCell key.toCString x := by omega
  rw [plainOf, hdiv, hmod, keptCell_encryptCell]

lemma inRange_iff {j y : ℕ} (hy : y < blockSize) :
    (pos ≤ blockSize * j + y ∧ blockSize * j + y < pos + n) ↔ firstIn pos j ≤ y ∧ y < endIn pos n j := by
  have hbs : blockSize = 1024 := rfl
  simp only [firstIn, endIn, hbs] at hy ⊢
  omega

lemma staysCoherent_iff
    (hrest : ∀ j x, x < blockSize → ¬ Touched pos n j →
      (stored v' inode' j).byte x = (stored v inode j).byte x) :
    StaysCoherent key.toCString v inode v' inode' pos n ↔
      ∀ j x, Touched pos n j → x < blockSize → encryptCell key.toCString x ≠ lastCell →
        ¬ (firstIn pos j ≤ encryptCell key.toCString x ∧ encryptCell key.toCString x < endIn pos n j) →
        (stored v' inode' j).byte x = (stored v inode j).byte x := by
  constructor
  · intro h j x _ hx hlost hout
    obtain ⟨plain', henc, hsame⟩ := h (plainOf key.toCString v inode)
      (fun i x hx _ => (plainOf_cell key v inode i hx).symm)
    have hlt : encryptCell key.toCString x < blockSize := encryptCell_lt key hx
    rw [henc j x hx hlost, hsame _ (fun hin => hout ((inRange_iff hlt).mp hin)),
      plainOf_cell key v inode j hx]
  · intro h plain henc
    refine ⟨fun q => if pos ≤ q ∧ q < pos + n then plainOf key.toCString v' inode' q else plain q, ?_,
      fun q hq => if_neg hq⟩
    intro j x hx hlost
    dsimp only
    by_cases hin : pos ≤ blockSize * j + encryptCell key.toCString x ∧
        blockSize * j + encryptCell key.toCString x < pos + n
    · rw [if_pos hin, plainOf_cell key v' inode' j hx]
    · rw [if_neg hin, ← henc j x hx hlost]
      by_cases ht : Touched pos n j
      · exact h j x ht hx hlost (fun hw => hin ((inRange_iff (encryptCell_lt key hx)).mpr hw))
      · exact hrest j x hx ht

/-- In every block that the write reaches, a cell that keeps a byte outside the range gets back the
byte it had. -/
def Undisturbed (key : CString) (keys : ℕ → KeyView) (scratchD scratchE : ℕ → Block) (v : Volume)
    (inode : MInode) (pos : ℕ) (buf : ℕ → Byte) (n : ℕ) : Prop :=
  ∀ j x, Touched pos n j → x < blockSize → encryptCell key x ≠ lastCell →
    ¬ (firstIn pos j ≤ encryptCell key x ∧ encryptCell key x < endIn pos n j) →
    writtenByte keys scratchD scratchE v inode pos buf n j x = (stored v inode j).byte x

variable {keys : ℕ → KeyView} {table : HashTable} {scratchD scratchE : ℕ → Block} {append : Bool}
  {fPos count : ℕ} {buf : ℕ → Byte} {r : WriteResult}

lemma fileWrite_undisturbed (key : Key) (hc : Consistent v inode) (hn : inode.iNum ≠ 0)
    (hin : ∃ z, scheme.Found (view table) inode.iNum z)
    (hacc : ∀ j, 0 < (keys j).keyToUse.strlen → Accepted (keys j).keyToUse)
    (h : fileWrite keys table scratchD scratchE v inode append fPos buf count = .ok r) :
    StaysCoherent key.toCString v inode r.volume r.inode (if append then inode.iSize else fPos)
        r.value.toNat ↔
      Undisturbed key.toCString keys scratchD scratchE v inode
        (if append then inode.iSize else fPos) buf r.value.toNat := by
  have hspec := fileWrite_spec hc hn hin hacc h
  rw [staysCoherent_iff]
  · refine forall_congr' fun j => forall_congr' fun x => forall_congr' fun ht => forall_congr' fun hx => ?_
    rw [hspec j x hx, if_pos ht]
  · intro j x hx ht
    rw [hspec j x hx, if_neg ht]

theorem undisturbed_own_iff (hd : key.chars.Nodup) :
    Undisturbed key.toCString (ownView key) scratchD scratchE v inode pos buf n ↔
      ∀ j, Touched pos n j → lostCell key.toCString = lastCell ∨
        (firstIn pos j ≤ lostCell key.toCString ∧ lostCell key.toCString < endIn pos n j) ∨
        (scratchD j).byte lastCell = (stored v inode j).byte lastCell := by
  have hinv := inverse_of_nodup hd
  have hback : ∀ x, decryptCell key.toCString (encryptCell key.toCString x) = x := by
    intro x
    apply cell_injective (strlen_pos key) (encryptOrder_below key.toCString)
    exact encryptCell_decryptCell hinv (encryptCell key.toCString x)
  have hwritten : ∀ j x, encryptCell key.toCString x ≠ lastCell →
      ¬ (firstIn pos j ≤ encryptCell key.toCString x ∧ encryptCell key.toCString x < endIn pos n j) →
      writtenByte (ownView key) scratchD scratchE v inode pos buf n j x =
        if x = lastCell then (scratchD j).byte lastCell else (stored v inode j).byte x := by
    intro j x hlost hout
    have hk : 0 < (ownView key j).effective.strlen := strlen_pos key
    rw [writtenByte, handling, if_pos hk, origin]
    change (if encryptCell key.toCString x = lastCell then Origin.scratchE else
      if firstIn pos j ≤ encryptCell key.toCString x ∧ encryptCell key.toCString x < endIn pos n j then
        Origin.user (encryptCell key.toCString x)
      else if decryptCell key.toCString (encryptCell key.toCString x) = lastCell then .scratchD
      else .stored (decryptCell key.toCString (encryptCell key.toCString x))).value _ _ _ _ = _
    rw [if_neg hlost, if_neg hout, hback]
    split <;> rfl
  constructor
  · intro h j ht
    by_cases hlast : lostCell key.toCString = lastCell
    · exact Or.inl hlast
    · by_cases hin : firstIn pos j ≤ lostCell key.toCString ∧ lostCell key.toCString < endIn pos n j
      · exact Or.inr (Or.inl hin)
      · have hj := h j lastCell ht (by decide) hlast hin
        rw [hwritten j lastCell hlast hin, if_pos rfl] at hj
        exact Or.inr (Or.inr hj)
  · intro h j x ht _ hlost hout
    rw [hwritten j x hlost hout]
    split
    next hx =>
      subst hx
      rcases h j ht with hlast | hin | hsame
      · exact absurd hlast hlost
      · exact absurd hin hout
      · exact hsame
    next => rfl

end Coherence

/-- A write keeps an encrypted file coherent exactly when it leaves the cells that keep other bytes
undisturbed. -/
theorem fileWrite_coherent_iff (key : Key) {keys : ℕ → KeyView} {table : HashTable}
    {scratchD scratchE : ℕ → Block} {v : Volume} {inode : MInode} {append : Bool} {fPos count : ℕ}
    {buf : ℕ → Byte} {r : WriteResult} (hc : Consistent v inode) (hn : inode.iNum ≠ 0)
    (hin : ∃ z, scheme.Found (view table) inode.iNum z)
    (hacc : ∀ j, 0 < (keys j).keyToUse.strlen → Accepted (keys j).keyToUse)
    (h : fileWrite keys table scratchD scratchE v inode append fPos buf count = .ok r) :
    StaysCoherent key.toCString v inode r.volume r.inode (if append then inode.iSize else fPos)
        r.value.toNat ↔
      Undisturbed key.toCString keys scratchD scratchE v inode
        (if append then inode.iSize else fPos) buf r.value.toNat :=
  fileWrite_undisturbed key hc hn hin hacc h

lemma sampleFile_consistent : Consistent sampleVolume sampleFile :=
  consistent_direct _ 7 2048 rfl rfl (by decide)

def noKey : ℕ → KeyView := fun _ => ⟨.empty, .empty⟩

/-- One byte at the start of a file whose first block is there. -/
lemma fileWrite_first {keys : ℕ → KeyView} {table : HashTable} {scratchD scratchE : ℕ → Block} {v : Volume}
    {inode : MInode} {z : Word} {f : Bool} {b : Block} {buf : ℕ → Byte}
    (hcb : createBlock v inode 0 = .ok (z, v, inode)) (hblock : ¬ (z = 0 ∨ ¬ v.readable z = true))
    (h : writeBuffer (keys 0) table inode.iNum (scratchD 0) (scratchE 0) false (v.data z) 0 1
      (fun k => buf (0 + k)) = .ok (f, b)) :
    fileWrite keys table scratchD scratchE v inode false 0 buf 1 = .ok ⟨1, 1, v.put z b, inode.grow 1⟩ := by
  have hgo : writeBody keys table scratchD scratchE buf 1 ⟨0, 0, false, v, inode⟩ =
      .again ⟨1, 1, f, v.put z b, inode.grow 1⟩ := by
    have hcb' : createBlock v inode (0 / blockSize) = .ok (z, v, inode) := hcb
    have hw : writeBuffer (keys (0 / blockSize)) table inode.iNum (scratchD (0 / blockSize))
        (scratchE (0 / blockSize)) false (v.data z) (0 % blockSize) (min (blockSize - 0 % blockSize) (1 - 0))
        (fun k => buf (0 + k)) = .ok (f, b) := h
    rw [writeBody, if_neg (by change ¬ 1 ≤ 0; decide)]
    simp only [hcb', if_neg hblock, hw]
    rfl
  have hleave : writeBody keys table scratchD scratchE buf 1 ⟨1, 1, f, v.put z b, inode.grow 1⟩ =
      .leave (.ok ⟨1, 1, f, v.put z b, inode.grow 1⟩) := if_pos (le_refl 1)
  rw [fileWrite, if_neg Bool.false_ne_true, iterate_again hgo, iterate_leave hleave]
  rfl

lemma fileWrite_sampleFile {keys : ℕ → KeyView} {f : Bool} {b : Block}
    (h : writeBuffer (keys 0) sampleTable 7 Block.zero Block.zero false (sampleVolume.data 5) 0 1
      (fun _ => 9) = .ok (f, b)) :
    fileWrite keys sampleTable (fun _ => Block.zero) (fun _ => Block.zero) sampleVolume sampleFile false 0
      (fun _ => 9) 1 = .ok ⟨1, 1, sampleVolume.put 5 b, sampleFile.grow 1⟩ :=
  fileWrite_first rfl (by decide) h

theorem fileWrite_coherent_sampleFile :
    ∃ r, fileWrite (ownView sampleKey) sampleTable (fun _ => Block.zero) (fun _ => Block.zero)
        sampleVolume sampleFile false 0 (fun _ => 9) 1 = .ok r ∧
      StaysCoherent keyAB sampleVolume sampleFile r.volume r.inode 0 1 := by
  have hbuffer : ∃ f b, writeBuffer (ownView sampleKey 0) sampleTable 7 Block.zero Block.zero false
      (sampleVolume.data 5) 0 1 (fun _ => 9) = .ok (f, b) := by
    have hd := decryptBlock_eq sampleKey Block.zero (sampleVolume.data 5) (sampleVolume.data 5)
    rw [writeBuffer, isEncrypted_found (by decide) sampleTable_found]
    simp only [Except.bind, ownView, hd, encryptBlock_eq, Except.map]
    exact ⟨_, _, rfl⟩
  obtain ⟨f, b, hb⟩ := hbuffer
  have hr := fileWrite_sampleFile hb
  refine ⟨_, hr, ?_⟩
  have hacc : ∀ j, 0 < (ownView sampleKey j).keyToUse.strlen → Accepted (ownView sampleKey j).keyToUse :=
    fun _ _ => sampleKey.accepted
  refine (fileWrite_coherent_iff sampleKey sampleFile_consistent (by decide) sampleTable_found hacc hr).mpr ?_
  refine (undisturbed_own_iff (by decide)).mpr fun j _ => Or.inl ?_
  decide

theorem fileWrite_scrambles :
    ¬ ∀ (key : Key) (keys : ℕ → KeyView) (table : HashTable) (scratchD scratchE : ℕ → Block)
      (v : Volume) (inode : MInode) (append : Bool) (fPos count : ℕ) (buf : ℕ → Byte) (r : WriteResult),
      Consistent v inode → inode.iNum ≠ 0 → (∃ z, scheme.Found (view table) inode.iNum z) →
      (∀ j, 0 < (keys j).keyToUse.strlen → Accepted (keys j).keyToUse) →
      fileWrite keys table scratchD scratchE v inode append fPos buf count = .ok r →
      StaysCoherent key.toCString v inode r.volume r.inode (if append then inode.iSize else fPos)
        r.value.toNat := by
  intro h
  have hr : fileWrite noKey sampleTable (fun _ => Block.zero) (fun _ => Block.zero) sampleVolume sampleFile
      false 0 (fun _ => 9) 1 = .ok ⟨1, 1, _, sampleFile.grow 1⟩ := fileWrite_sampleFile rfl
  have hacc : ∀ j, 0 < (noKey j).keyToUse.strlen → Accepted (noKey j).keyToUse :=
    fun _ hpos => absurd hpos (lt_irrefl 0)
  have hstays := h swapKey _ _ _ _ _ _ _ _ _ _ _ sampleFile_consistent (by decide) sampleTable_found hacc hr
  have hsame := (fileWrite_undisturbed swapKey sampleFile_consistent (by decide) sampleTable_found hacc
    hr).mp hstays 0 0 (by decide) (by decide) (by decide) (by decide)
  exact absurd hsame (by decide)

end Devos.Fs
