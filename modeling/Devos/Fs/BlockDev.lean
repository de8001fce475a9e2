import Devos.Fs.FileWrite

/-! `block_write` and `block_read` of `block_dev.c`. -/

namespace Devos.Fs

open Loops

def eio : ℤ := 5

/-- The blocks of a device, as `bread` finds them. -/
structure BlockDevice where
  data : ℤ → Block
  readable : ℤ → Bool

def BlockDevice.byte (d : BlockDevice) (q : ℤ) : Byte := (d.data (q / blockSize)).byte (q % blockSize).toNat

/-- The local variables of the loop, with what the characters have been moved to. -/
structure Transfer (σ : Type*) where
  block : ℤ
  offset : ℤ
  pos : BitVec 32
  count : ℕ
  done : ℕ
  state : σ

structure Transferred (σ : Type*) where
  value : ℤ
  pos : BitVec 32
  state : σ

section Loop

variable {σ : Type*}

/-- A turn of the loop; `move` is the loop over the characters in it, from an offset in a block. -/
def transferBody (readable : ℤ → Bool) (move : ℤ → ℕ → ℕ → ℕ → σ → σ) (s : Transfer σ) :
    Pass (Transfer σ) (Except Fault (Transferred σ)) :=
  if s.count = 0 then .leave (.ok ⟨s.done, s.pos, s.state⟩)
  else if ¬readable s.block then .leave (.ok ⟨if s.done ≠ 0 then s.done else -eio, s.pos, s.state⟩)
  else
    let chars := if s.count < blockSize then s.count else blockSize
    -- the pointer leaves the data of the buffer
    if s.offset < 0 ∨ blockSize < s.offset + chars then .leave (.error .overrun)
    else .again ⟨s.block + 1, 0, s.pos + BitVec.ofNat 32 chars, s.count - chars, s.done + chars,
      move s.block s.offset.toNat chars s.done s.state⟩

def transfer (readable : ℤ → Bool) (move : ℤ → ℕ → ℕ → ℕ → σ → σ) (block offset : ℤ) (pos : BitVec 32) (count : ℕ)
    (state : σ) : Except Fault (Transferred σ) :=
  (iterate (transferBody readable move) (count + 1) ⟨block, offset, pos, count, 0, state⟩).getD (.error .hang)

end Loop

def putChars (buf : ℕ → Byte) (block : ℤ) (offset chars written : ℕ) (d : BlockDevice) : BlockDevice :=
  { d with data := Function.update d.data block (overlay (d.data block) offset chars fun k => buf (written + k)) }

def getChars (d : BlockDevice) (block : ℤ) (offset chars _read : ℕ) (out : List Byte) : List Byte :=
  out ++ (List.range chars).map fun k => (d.data block).byte (offset + k)

/-- `*pos` is signed here. -/
def blockWrite (d : BlockDevice) (pos : BitVec 32) (buf : ℕ → Byte) (count : ℤ) : Except Fault (Transferred BlockDevice) :=
  transfer d.readable (putChars buf) (pos.toInt.tdiv blockSize) (pos.toInt.tmod blockSize) pos count.toNat d

/-- `*pos` is unsigned here. -/
def blockRead (d : BlockDevice) (pos : BitVec 32) (count : ℤ) : Except Fault (Transferred (List Byte)) :=
  transfer d.readable (getChars d) (pos.toNat / blockSize) (pos.toNat % blockSize) pos count.toNat []

/-- `n` characters have been moved: all, or as many as there are before a block that cannot be read. -/
structure Moved {σ : Type*} (readable : ℤ → Bool) (start : ℤ) (pos : BitVec 32) (count : ℤ) (r : Transferred σ) (n : ℕ) :
    Prop where
  le : n ≤ count.toNat
  value : r.value = n ∨ n = 0 ∧ r.value = -eio
  pos : r.pos = pos + BitVec.ofNat 32 n
  complete : n = count.toNat ∨ readable ((start + n).tdiv blockSize) = false

def WritesBytes (d : BlockDevice) (pos : BitVec 32) (buf : ℕ → Byte) (count : ℤ) : Prop :=
  ∃ r n, blockWrite d pos buf count = .ok r ∧ Moved d.readable pos.toInt pos count r n ∧
    ∀ q, r.state.byte q = if pos.toInt ≤ q ∧ q < pos.toInt + n then buf (q - pos.toInt).toNat else d.byte q

def ReadsBytes (d : BlockDevice) (pos : BitVec 32) (count : ℤ) : Prop :=
  ∃ r n, blockRead d pos count = .ok r ∧ Moved d.readable pos.toNat pos count r n ∧
    r.state = (List.range n).map fun k : ℕ => d.byte (pos.toNat + k)

/-- The first block has room for the first lot of characters, or there is none. -/
def FirstFits (readable : ℤ → Bool) (block offset : ℤ) (count : ℤ) : Prop :=
  count ≤ 0 ∨ readable block = false ∨ offset = 0 ∨ 0 ≤ offset ∧ offset + count ≤ blockSize

section Transfers

variable {σ : Type*} {readable : ℤ → Bool} {move : ℤ → ℕ → ℕ → ℕ → σ → σ} {block offset start : ℤ} {pos : BitVec 32}
  {count : ℤ} {state : σ} {Q : ℕ → σ → Prop}

/-- The state of the loop after `s.done` characters. -/
structure Moving (readable : ℤ → Bool) (start : ℤ) (pos : BitVec 32) (count : ℤ) (Q : ℕ → σ → Prop) (s : Transfer σ) :
    Prop where
  done : s.done + s.count = count.toNat
  pos : s.pos = pos + BitVec.ofNat 32 s.done
  block : s.count ≠ 0 → s.block = (start + s.done).tdiv blockSize
  offset : s.count ≠ 0 → s.offset = (start + s.done).tmod blockSize
  fits : s.count ≠ 0 → readable s.block = false ∨ s.offset = 0 ∨ 0 ≤ s.offset ∧ s.offset + s.count ≤ blockSize
  moved : Q s.done s.state

lemma Moving.body {s : Transfer σ} (h : Moving readable start pos count Q s)
    (hmove : ∀ (b : ℤ) (o chars done : ℕ) (s : σ), o + chars ≤ blockSize → blockSize * b + o = start + done →
      Q done s → Q (done + chars) (move b o chars done s)) :
    (∃ s', transferBody readable move s = .again s' ∧ Moving readable start pos count Q s' ∧ s'.count < s.count) ∨
      ∃ r n, transferBody readable move s = .leave (.ok r) ∧ Moved readable start pos count r n ∧ Q n r.state := by
  have hdone := h.done
  rw [transferBody]
  by_cases hcount : s.count = 0
  · refine Or.inr ⟨_, s.done, if_pos hcount, ⟨by omega, Or.inl rfl, h.pos, Or.inl (by omega)⟩, h.moved⟩
  · have hblock := h.block hcount
    have hoffset := h.offset hcount
    have hplace := Int.mul_tdiv_add_tmod (start + s.done) blockSize
    rw [← hblock, ← hoffset] at hplace
    rw [if_neg hcount]
    by_cases hread : readable s.block = true
    · have hfits := (h.fits hcount).resolve_left (by rw [hread]; simp)
      rw [if_neg (not_not.mpr hread)]
      obtain ⟨chars, hchars⟩ : ∃ chars, chars = if s.count < blockSize then s.count else blockSize := ⟨_, rfl⟩
      rw [← hchars]
      have hroom : 0 ≤ s.offset ∧ s.offset + chars ≤ blockSize ∧ 0 < chars ∧ chars ≤ s.count ∧
          (s.count - chars ≠ 0 → s.offset = 0 ∧ chars = blockSize) := by
        dsimp only [blockSize] at hfits hchars ⊢
        split_ifs at hchars <;> omega
      obtain ⟨h₀, hlast, hpos, hle, hmore⟩ := hroom
      have hoff : ((s.offset.toNat : ℕ) : ℤ) = s.offset := Int.toNat_of_nonneg h₀
      have hnext : s.count - chars ≠ 0 → start + ((s.done + chars : ℕ) : ℤ) = blockSize * (s.block + 1) := by
        intro hne
        obtain ⟨hzero, hfull⟩ := hmore hne
        rw [hzero, Int.add_zero] at hplace
        rw [Int.mul_add, Int.mul_one, hplace, hfull, Int.natCast_add, Int.add_assoc]
      left
      dsimp only
      rw [if_neg (by omega)]
      refine ⟨_, rfl, ⟨?_, ?_, ?_, ?_, fun _ => Or.inr (Or.inl rfl), ?_⟩,
        show s.count - chars < s.count by omega⟩
      · dsimp only
        omega
      · dsimp only
        rw [h.pos, BitVec.ofNat_add, BitVec.add_assoc]
      · intro hne
        dsimp only at hne ⊢
        rw [hnext hne, Int.mul_tdiv_cancel_left _ (by decide)]
      · intro hne
        dsimp only at hne ⊢
        rw [hnext hne, Int.mul_tmod_right]
      · apply hmove _ _ _ _ _ (by omega) _ h.moved
        rw [hoff]
        exact hplace
    · right
      rw [if_pos hread]
      refine ⟨_, s.done, rfl, ⟨by omega, ?_, h.pos, Or.inr ?_⟩, h.moved⟩
      · dsimp only
        split_ifs with hne
        · exact Or.inl rfl
        · exact Or.inr ⟨not_not.mp hne, rfl⟩
      · rw [← hblock]
        simpa using hread

/-- A transfer whose first block has room moves the characters, and one that has not leaves the buffer. -/
lemma transfer_spec (hfits : FirstFits readable (start.tdiv blockSize) (start.tmod blockSize) count) (hQ : Q 0 state)
    (hmove : ∀ (b : ℤ) (o chars done : ℕ) (s : σ), o + chars ≤ blockSize → blockSize * b + o = start + done →
      Q done s → Q (done + chars) (move b o chars done s)) :
    ∃ r n, transfer readable move (start.tdiv blockSize) (start.tmod blockSize) pos count.toNat state = .ok r ∧
      Moved readable start pos count r n ∧ Q n r.state := by
  have hstart : Moving readable start pos count Q
      ⟨start.tdiv blockSize, start.tmod blockSize, pos, count.toNat, 0, state⟩ := by
    refine ⟨Nat.zero_add _, by simp, by simp, by simp, ?_, hQ⟩
    intro hne
    dsimp only at hne ⊢
    rcases hfits with hle | hread | hzero | hroom
    · omega
    · exact Or.inl hread
    · exact Or.inr (Or.inl hzero)
    · exact Or.inr (Or.inr (by omega))
  have hagain : ∀ s s', Moving readable start pos count Q s → transferBody readable move s = .again s' →
      Moving readable start pos count Q s' ∧ s'.count < s.count := by
    intro s s' hs hb
    rcases hs.body hmove with ⟨t, ht, hnext⟩ | ⟨r, n, hleave, _⟩
    · rw [ht] at hb
      cases hb
      exact hnext
    · rw [hleave] at hb
      cases hb
  obtain ⟨r, hr⟩ := iterate_of_variant (Moving readable start pos count Q) Transfer.count hagain hstart
    (Nat.lt_succ_self count.toNat)
  have hend : ∃ t n, r = .ok t ∧ Moved readable start pos count t n ∧ Q n t.state := by
    refine iterate_invariant (Moving readable start pos count Q)
      (Q := fun r => ∃ t n, r = .ok t ∧ Moved readable start pos count t n ∧ Q n t.state)
      (fun s s' hs hb => (hagain s s' hs hb).1) ?_ hstart hr
    intro s r hs hb
    rcases hs.body hmove with ⟨t, ht, _⟩ | ⟨t, n, hleave, hmoved⟩
    · rw [ht] at hb
      cases hb
    · rw [hleave] at hb
      cases hb
      exact ⟨t, n, rfl, hmoved⟩
  obtain ⟨t, n, rfl, hmoved⟩ := hend
  exact ⟨t, n, by rw [transfer, hr]; rfl, hmoved⟩

lemma transfer_overrun (hfits : ¬FirstFits readable block offset count) :
    transfer readable move block offset pos count.toNat state = .error .overrun := by
  rw [FirstFits, not_or, not_or, not_or] at hfits
  obtain ⟨hcount, hread, hoffset, hroom⟩ := hfits
  have hout : offset < 0 ∨
      (blockSize : ℤ) < offset + ((if count.toNat < blockSize then count.toNat else blockSize : ℕ) : ℤ) := by
    dsimp only [blockSize] at hroom ⊢
    split_ifs <;> omega
  have hbody : transferBody readable move ⟨block, offset, pos, count.toNat, 0, state⟩ = .leave (.error .overrun) := by
    rw [transferBody, if_neg (by dsimp only; omega), if_neg (by simpa using hread)]
    exact if_pos hout
  rw [transfer, iterate_leave hbody]
  rfl

end Transfers

section Devices

variable {d : BlockDevice} {pos : BitVec 32} {buf : ℕ → Byte} {count : ℤ}

lemma byte_of_block {b : ℤ} {x : ℕ} (hx : x < blockSize) : d.byte (blockSize * b + x) = (d.data b).byte x := by
  have hdiv : (blockSize * b + x : ℤ) / blockSize = b := by
    dsimp only [blockSize] at hx ⊢
    omega
  have hmod : ((blockSize * b + x : ℤ) % blockSize).toNat = x := by
    dsimp only [blockSize] at hx ⊢
    omega
  rw [BlockDevice.byte, hdiv, hmod]

lemma byte_putChars {b q start : ℤ} {o chars done : ℕ} {w : BlockDevice} (hroom : o + chars ≤ blockSize)
    (hplace : blockSize * b + o = start + done) :
    (putChars buf b o chars done w).byte q =
      if start + done ≤ q ∧ q < start + done + chars then buf (q - start).toNat else w.byte q := by
  have hsize : (blockSize : ℤ) = 1024 := rfl
  have hlt : (q % blockSize).toNat < blockSize := by
    rw [hsize]
    have := Int.emod_lt_of_pos q (show (0 : ℤ) < 1024 by decide)
    omega
  rw [BlockDevice.byte, BlockDevice.byte, putChars]
  dsimp only
  rw [hsize] at hplace hlt ⊢
  by_cases hb : q / 1024 = b
  · rw [hb, Function.update_self, overlay_byte _ _ _ _ hlt]
    by_cases hin : start + done ≤ q ∧ q < start + done + chars
    · rw [if_pos hin, if_pos (by omega)]
      congr 1
      omega
    · rw [if_neg hin, if_neg (by omega)]
  · rw [Function.update_of_ne hb, if_neg (by omega)]

theorem writesBytes_iff :
    WritesBytes d pos buf count ↔ FirstFits d.readable (pos.toInt.tdiv blockSize) (pos.toInt.tmod blockSize) count := by
  constructor
  · rintro ⟨r, n, hrun, _⟩
    by_contra hfits
    rw [blockWrite, transfer_overrun hfits] at hrun
    cases hrun
  · intro hfits
    refine transfer_spec hfits (Q := fun (n : ℕ) (w : BlockDevice) => ∀ q, w.byte q =
      if pos.toInt ≤ q ∧ q < pos.toInt + n then buf (q - pos.toInt).toNat else d.byte q) ?_ ?_
    · intro q
      rw [if_neg (by omega)]
    · intro b o chars done w hroom hplace hw q
      rw [byte_putChars hroom hplace, hw q]
      split_ifs <;> first | rfl | omega

theorem readsBytes_iff :
    ReadsBytes d pos count ↔ FirstFits d.readable (pos.toNat / blockSize) (pos.toNat % blockSize) count := by
  have hdiv : (pos.toNat : ℤ).tdiv blockSize = pos.toNat / blockSize := Int.tdiv_eq_ediv_of_nonneg (by omega)
  have hmod : (pos.toNat : ℤ).tmod blockSize = pos.toNat % blockSize := Int.tmod_eq_emod_of_nonneg (by omega)
  constructor
  · rintro ⟨r, n, hrun, _⟩
    by_contra hfits
    rw [blockRead, transfer_overrun hfits] at hrun
    cases hrun
  · intro hfits
    rw [ReadsBytes, blockRead, ← hdiv, ← hmod]
    rw [← hdiv, ← hmod] at hfits
    refine transfer_spec hfits (Q := fun n out => out = (List.range n).map fun k : ℕ => d.byte (pos.toNat + k)) rfl ?_
    intro b o chars done out hroom hplace hout
    rw [getChars, hout, List.range_add, List.map_append, List.map_map]
    congr 1
    apply List.map_congr_left
    intro k hk
    have hlt := List.mem_range.mp hk
    have hq : (pos.toNat : ℤ) + ((done + k : ℕ) : ℤ) = blockSize * b + ((o + k : ℕ) : ℤ) := by
      rw [Int.natCast_add, Int.natCast_add, ← Int.add_assoc, ← Int.add_assoc, hplace]
    rw [Function.comp_apply, hq, byte_of_block (by omega)]

/-- A transfer to or from a block device moves just the bytes from the position on, in the data of the buffers, if
and only if it starts at a block, or ends within the first block, or nothing of it can be done. -/
theorem blockDevice_bytes_iff (d : BlockDevice) (pos : BitVec 32) (buf : ℕ → Byte) (count : ℤ) :
    WritesBytes d pos buf count ∧ ReadsBytes d pos count ↔
      FirstFits d.readable (pos.toInt.tdiv blockSize) (pos.toInt.tmod blockSize) count ∧
        FirstFits d.readable (pos.toNat / blockSize) (pos.toNat % blockSize) count :=
  and_congr writesBytes_iff readsBytes_iff

def blankDevice : BlockDevice := ⟨fun _ => Block.zero, fun _ => true⟩

/-- A full block from position 1 on goes one byte past the end of the first buffer. -/
theorem unaligned_transfer_overruns :
    ¬∀ (d : BlockDevice) (pos : BitVec 32) (buf : ℕ → Byte) (count : ℤ), WritesBytes d pos buf count ∧ ReadsBytes d pos count := by
  intro h
  have hfits := writesBytes_iff.mp (h blankDevice 1 (fun _ => 7) 1024).1
  rw [FirstFits] at hfits
  exact absurd hfits (by decide)

end Devices

end Devos.Fs
