import Devos.Fs.Bitmap

/-! `new_block` with the buffer of the block that it hands out. -/

namespace Devos.Fs

/-- The buffers of the blocks of a device; `busy` tells which have another user. -/
structure BlockBuffers where
  data : ℕ → Block
  upToDate : ℕ → Bool
  dirt : ℕ → Bool
  busy : ℕ → Bool

/-- `clear_block`, and the buffer is up to date and is to be written. -/
def BlockBuffers.clear (c : BlockBuffers) (block : ℕ) : BlockBuffers :=
  { c with
    data := Function.update c.data block Block.zero
    upToDate := Function.update c.upToDate block true
    dirt := Function.update c.dirt block true }

def SuperBlock.newBlockBuffer (sb : SuperBlock) (c : BlockBuffers) : Except Fault (ℕ × SuperBlock × BlockBuffers) :=
  match scan sb.sZmap with
  | none => .ok (0, sb, c)
  | some (i, j, bh) =>
    if bh.bit j then .error .panic
    else
      let sb := { sb with sZmap := Function.update sb.sZmap i (some (bh.setBit j)) }
      let z := j + i * 8192 + sb.sFirstdatazone.toNat - 1
      if sb.sNzones.toNat ≤ z then .ok (0, sb, c)
      else if c.busy z then .error .panic
      else .ok (z, sb, c.clear z)

/-- The bit of a zone. -/
def SuperBlock.zoneBit (sb : SuperBlock) (z : ℕ) : ℕ := z + 1 - sb.sFirstdatazone.toNat

/-- The zone is marked in use. -/
def SuperBlock.Used (sb : SuperBlock) (z : ℕ) : Prop := marked sb.sZmap (sb.zoneBit z) = true

/-- A call that hands nothing out leaves the map as it is and has found no free zone, and one that hands out a zone
changes the bit of that zone and clears its buffer. -/
def SuperBlock.AllocatesCleanly (sb : SuperBlock) (c : BlockBuffers) : Prop :=
  ∀ z sb' c', sb.newBlockBuffer c = .ok (z, sb', c') →
    (z = 0 → (∀ y, sb.sFirstdatazone.toNat ≤ y → y < sb.sNzones.toNat → sb.Used y) ∧
      ∀ k, marked sb'.sZmap k = marked sb.sZmap k) ∧
    (z ≠ 0 → (∀ k, k ≠ sb.zoneBit z → marked sb'.sZmap k = marked sb.sZmap k) ∧
      c'.data z = Block.zero ∧ c'.upToDate z = true)

/-- Some clear bit stands for a zone, or no bit is clear and each zone has its bit. -/
def SuperBlock.BitsInRange (sb : SuperBlock) : Prop :=
  (∃ k, Clear sb.sZmap k ∧ k + sb.sFirstdatazone.toNat - 1 < sb.sNzones.toNat) ∨
    (∀ k, ¬Clear sb.sZmap k) ∧ ∀ y, sb.sFirstdatazone.toNat ≤ y → y < sb.sNzones.toNat → sb.Used y

section NewBlock

variable {sb sb' : SuperBlock} {c c' : BlockBuffers} {z : ℕ}

lemma newBlockBuffer_eq (sb : SuperBlock) (c : BlockBuffers) :
    (sb.newBlockBuffer c).map (fun r => (r.1, r.2.1)) = sb.newBlock c.busy := by
  rw [SuperBlock.newBlockBuffer, SuperBlock.newBlock]
  cases scan sb.sZmap with
  | none => rfl
  | some found =>
    dsimp only
    split_ifs <;> rfl

lemma newBlockBuffer_ok (h : sb.newBlockBuffer c = .ok (z, sb', c')) : sb.newBlock c.busy = .ok (z, sb') := by
  rw [← newBlockBuffer_eq, h]
  rfl

lemma newBlockBuffer_clear (h : sb.newBlockBuffer c = .ok (z, sb', c')) (hz : z ≠ 0) : c' = c.clear z := by
  rw [SuperBlock.newBlockBuffer] at h
  cases hscan : scan sb.sZmap with
  | none =>
    rw [hscan] at h
    cases h
    exact absurd rfl hz
  | some found =>
    rw [hscan] at h
    dsimp only at h
    split_ifs at h
    · cases h
      exact absurd rfl hz
    · cases h
      rfl

/-- Without a free zone, and with a clear bit behind the last one, the call sets that bit. -/
lemma newBlockBuffer_leaves (hclear : ∃ k, Clear sb.sZmap k)
    (hrange : ∀ k, Clear sb.sZmap k → sb.sNzones.toNat ≤ k + sb.sFirstdatazone.toNat - 1) :
    ∃ n sb', sb.newBlockBuffer c = .ok (0, sb', c) ∧ marked sb.sZmap n = false ∧ marked sb'.sZmap n = true := by
  rw [SuperBlock.newBlockBuffer]
  cases hscan : scan sb.sZmap with
  | none =>
    obtain ⟨k, hk⟩ := hclear
    exact absurd hk (scan_none hscan k)
  | some found =>
    obtain ⟨i, j, bh⟩ := found
    have hf := scan_some hscan
    have hset := marked_update hf.map_eq hf.bit_lt fun k hk => bit_setBit bh hf.bit_lt hk
    refine ⟨j + i * 8192, { sb with sZmap := Function.update sb.sZmap i (some (bh.setBit j)) }, ?_,
      hf.clear.not_marked, by rw [hset, if_pos rfl]⟩
    dsimp only
    rw [if_neg (by rw [hf.bit_eq]; simp), if_pos (hrange _ hf.clear)]

/-- `new_block` leaves no trace of a failure if and only if the first clear bit of the map stands for a zone, or no
bit is clear. -/
theorem allocatesCleanly_iff (hfirst : 1 < sb.sFirstdatazone.toNat) (c : BlockBuffers) :
    sb.AllocatesCleanly c ↔ sb.BitsInRange := by
  constructor
  · intro h
    by_cases hclear : ∃ k, Clear sb.sZmap k
    · left
      by_contra hnone
      push Not at hnone
      obtain ⟨n, sb', hrun, hbefore, hafter⟩ := newBlockBuffer_leaves (c := c) hclear hnone
      have hsame := ((h 0 sb' c hrun).1 rfl).2 n
      rw [hbefore, hafter] at hsame
      cases hsame
    · push Not at hclear
      have hrun : sb.newBlockBuffer c = .ok (0, sb, c) := by
        rw [SuperBlock.newBlockBuffer]
        cases hscan : scan sb.sZmap with
        | none => rfl
        | some found => exact absurd (scan_some hscan).clear (hclear _)
      exact Or.inr ⟨hclear, ((h 0 sb c hrun).1 rfl).1⟩
  · intro h z sb' c' hrun
    rcases SuperBlock.newBlock_cases (newBlockBuffer_ok hrun) with ⟨rfl, rfl, hfull⟩ | ⟨n, map, rfl, hclear, hbefore, hset, hz⟩
    · refine ⟨fun _ => ⟨?_, fun _ => rfl⟩, fun hz => absurd rfl hz⟩
      rcases h with ⟨k, hk, _⟩ | ⟨_, hused⟩
      · exact absurd hk (hfull k)
      · exact hused
    · have hrange : n + sb.sFirstdatazone.toNat - 1 < sb.sNzones.toNat := by
        rcases h with ⟨k, hk, hlt⟩ | ⟨hfull, _⟩
        · have hnk : ¬k < n := fun hkn => hbefore k hkn hk
          omega
        · exact absurd hclear (hfull n)
      have hzone : z = n + sb.sFirstdatazone.toNat - 1 := by
        rcases hz with ⟨_, hge⟩ | ⟨hz, _⟩
        · omega
        · exact hz
      refine ⟨fun h₀ => by omega, fun hne => ?_⟩
      rw [newBlockBuffer_clear hrun hne]
      refine ⟨?_, Function.update_self _ _ _, Function.update_self _ _ _⟩
      intro k hk
      rw [hset k, if_neg]
      rintro rfl
      apply hk
      rw [SuperBlock.zoneBit]
      omega

def cleanBuffers : BlockBuffers := ⟨fun _ => Block.zero, fun _ => false, fun _ => false, fun _ => false⟩

/-- The small device with two zones more, both of them free. -/
theorem allocatesCleanly_small : { smallDisk with sNzones := 8 }.AllocatesCleanly cleanBuffers := by
  have hclear : Clear smallDisk.sZmap 2 := ⟨by decide, fun _ => 3, rfl, by decide⟩
  exact (allocatesCleanly_iff (by decide) cleanBuffers).mpr (Or.inl ⟨2, hclear, by decide⟩)

/-- The first clear bit stands for zone 6, one behind the last: it is set, and 0 is returned. -/
theorem failed_new_block_sets_bit : ¬∀ sb : SuperBlock, 1 < sb.sFirstdatazone.toNat → ∀ c, sb.AllocatesCleanly c := by
  intro hall
  have hclean := hall smallDisk (by decide) cleanBuffers 0 _ cleanBuffers rfl
  have hsame := (hclean.1 rfl).2 2
  revert hsame
  decide

end NewBlock

end Devos.Fs
