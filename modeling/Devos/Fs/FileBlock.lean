import Devos.Fs.Layout

/-! The block map that `exec.c` keeps for itself, beside that of `inode.c`. -/

namespace Devos.Fs

def Volume.buffer (v : Volume) (block : Word) : Option Word :=
  if v.readable block then some block else none

-- `*((unsigned short *) bh->b_data + k)`
def tableEntry (v : Volume) (table : Word) (k : ℤ) : Except Fault Word :=
  if k < 0 ∨ 512 ≤ k then .error .overrun else .ok ((v.data table).word k.toNat)

/-- `read_file_block_ind`: the block whose buffer comes back, `none` for `NULL`. -/
def readFileBlockInd (v : Volume) (ind : Word) (blockNum : ℤ) : Except Fault (Option Word) :=
  if ¬ v.readable ind then .ok none
  else do
    let block ← tableEntry v ind blockNum
    if block ≠ 0 then .ok (v.buffer block) else .ok none

def readFileBlock (v : Volume) (inode : MInode) (blockNum : ℕ) : Except Fault (Option Word) :=
  if blockNum ≤ 6 then .ok (v.buffer (inode.zone blockNum))
  else
    let blockNum : ℤ := blockNum - 7
    if blockNum < 512 then readFileBlockInd v (inode.zone 7) blockNum
    else
      let blockNum := blockNum - 512
      if 512 * 512 < blockNum then .error .panic
      else if inode.zone 8 = 0 then .ok none
      else if ¬ v.readable (inode.zone 8) then .ok none
      else do
        let table ← tableEntry v (inode.zone 8) (blockNum / 512)
        -- meant as `blockNum % 512`; from 512 on the result is negative
        let blockNum := if 512 ≤ blockNum then blockNum - (blockNum - 1) * 512 else blockNum
        readFileBlockInd v table blockNum

/-- The buffer of the block that `bmap` found, `NULL` where it found none. -/
def mappedBuffer (v : Volume) (b : Word) : Option Word := if b = 0 then none else v.buffer b

def indirect (v : Volume) (table : Word) (k : ℕ) : Word :=
  if table ≠ 0 ∧ v.readable table = true then (v.data table).word k else 0

section Reading

variable {v : Volume} {inode : MInode} {n : ℕ}

@[simp] lemma mappedBuffer_zero (v : Volume) : mappedBuffer v 0 = none := rfl

lemma indirect_entryAt (v : Volume) (table : Word) (k : ℕ) :
    indirect v table k = if v.readable table = true then entryAt v table k else 0 := by
  by_cases ht : table = 0
  · rw [indirect, entryAt_zero ht, ite_self, if_neg (fun h => h.1 ht)]
  · rw [indirect, entryAt_ne ht]
    simp only [ne_eq, ht, not_false_eq_true, true_and]

lemma bmap_direct (h : n < 7) : bmap v inode n = .ok (inode.zone n) := by
  have hmax : maxBlocks = 262663 := rfl
  rw [bmap_eq (by omega), if_pos (indexReadable_direct h), zoneAt, blockRef, if_pos h]
  rfl

lemma bmap_single (h₁ : ¬ n < 7) (h₂ : n - 7 < 512) :
    bmap v inode n = .ok (indirect v (inode.zone 7) (n - 7)) := by
  have hmax : maxBlocks = 262663 := rfl
  rw [bmap_eq (by omega), zoneAt_single h₁ h₂, indirect_entryAt]
  simp only [indexReadable_single h₁ h₂]

lemma bmap_double (hn : n < maxBlocks) (h₁ : ¬ n < 7) (h₂ : ¬ n - 7 < 512) :
    bmap v inode n =
      .ok (indirect v (indirect v (inode.zone 8) ((n - 7 - 512) / 512)) ((n - 7 - 512) % 512)) := by
  rw [bmap_eq hn, zoneAt_leaf hn h₁ h₂, indirect_entryAt v (inode.zone 8)]
  simp only [indexReadable_leaf h₁ h₂]
  by_cases hr : v.readable (inode.zone 8) = true
  · simp only [hr, true_and, if_true, indirect_entryAt]
  · simp only [hr, false_and, if_false, indirect, ne_eq, not_true_eq_false, Bool.false_eq_true]

lemma tableEntry_of_lt (v : Volume) (table : Word) {k : ℕ} (hk : k < 512) :
    tableEntry v table k = .ok ((v.data table).word k) := by
  rw [tableEntry, if_neg (by omega), Int.toNat_natCast]

lemma readFileBlockInd_of_lt (v : Volume) (table : Word) {k : ℕ} (hk : k < 512) :
    readFileBlockInd v table k =
      .ok (if v.readable table = true then mappedBuffer v ((v.data table).word k) else none) := by
  rw [readFileBlockInd, tableEntry_of_lt v table hk]
  by_cases hr : v.readable table = true
  · rw [if_neg (not_not.mpr hr), if_pos hr, mappedBuffer]
    change (if _ ≠ 0 then _ else _) = _
    rw [ite_not]
    split <;> rfl
  · rw [if_pos hr, if_neg hr]

lemma readFileBlockInd_outside (v : Volume) (table : Word) {k : ℤ} (hk : k < 0) :
    readFileBlockInd v table k = if v.readable table = true then .error .overrun else .ok none := by
  rw [readFileBlockInd, tableEntry, if_pos (Or.inl hk)]
  by_cases hr : v.readable table = true
  · rw [if_neg (not_not.mpr hr), if_pos hr]
    rfl
  · rw [if_pos hr, if_neg hr]

/-- Taken for a table of block numbers, block 0 gives no buffer for entry `k`. -/
def NoBufferAtZero (v : Volume) (k : ℕ) : Prop :=
  v.readable 0 = true → mappedBuffer v ((v.data 0).word k) = none

lemma ind_agrees (v : Volume) (table : Word) {k : ℕ} (hk : k < 512) :
    readFileBlockInd v table k = .ok (mappedBuffer v (indirect v table k)) ↔
      (table = 0 → NoBufferAtZero v k) := by
  rw [readFileBlockInd_of_lt v table hk, Except.ok.injEq]
  by_cases ht : table = 0
  · have hnone : indirect v table k = 0 := if_neg (fun h => h.1 ht)
    rw [hnone, mappedBuffer_zero, NoBufferAtZero, ← ht, ite_eq_right_iff]
    exact ⟨fun h _ => h, fun h => h rfl⟩
  · refine iff_of_true ?_ (fun h => absurd h ht)
    by_cases hr : v.readable table = true
    · rw [indirect, if_pos hr, if_pos ⟨ht, hr⟩]
    · rw [indirect, if_neg hr, if_neg (fun h => hr h.2), mappedBuffer_zero]

def secondTable (v : Volume) (inode : MInode) (n : ℕ) : Word :=
  (v.data (inode.zone 8)).word ((n - 519) / 512)

/-- Where `read_file_block` follows the map: the zone is there (or block 0 gives nothing in its place),
and below the double indirect block the first table is used, or none can be read. -/
def FollowsMap (v : Volume) (inode : MInode) (n : ℕ) : Prop :=
  if n < 7 then inode.zone n = 0 → v.readable 0 = false
  else if n < 519 then inode.zone 7 = 0 → NoBufferAtZero v (n - 7)
  else inode.zone 8 ≠ 0 → v.readable (inode.zone 8) = true →
    if n - 519 < 512 then secondTable v inode n = 0 → NoBufferAtZero v (n - 519)
    else v.readable (secondTable v inode n) = false

lemma agrees_direct (h : n < 7) :
    readFileBlock v inode n = .ok (mappedBuffer v (inode.zone n)) ↔
      (inode.zone n = 0 → v.readable 0 = false) := by
  rw [readFileBlock, if_pos (by omega), Except.ok.injEq]
  by_cases hz : inode.zone n = 0
  · rw [hz, mappedBuffer_zero, Volume.buffer]
    simp
  · rw [mappedBuffer, if_neg hz]
    exact iff_of_true rfl (fun h => absurd h hz)

lemma readFileBlock_single (h₁ : ¬ n < 7) (h₂ : n < 519) :
    readFileBlock v inode n = readFileBlockInd v (inode.zone 7) ((n - 7 : ℕ) : ℤ) := by
  rw [readFileBlock, if_neg (by omega)]
  change (if (n : ℤ) - 7 < 512 then _ else _) = _
  rw [if_pos (by omega), Nat.cast_sub (by omega)]
  rfl

lemma readFileBlock_double (hn : n < maxBlocks) (h : ¬ n < 519) :
    readFileBlock v inode n =
      if inode.zone 8 = 0 ∨ ¬ v.readable (inode.zone 8) then .ok none
      else readFileBlockInd v (secondTable v inode n)
        (if n - 519 < 512 then ((n - 519 : ℕ) : ℤ) else ((n - 519 : ℕ) : ℤ) - (((n - 519 : ℕ) : ℤ) - 1) * 512) := by
  have hmax : n < 262663 := hn
  have hm : (n : ℤ) - 7 - 512 = ((n - 519 : ℕ) : ℤ) := by omega
  rw [readFileBlock, if_neg (by omega)]
  change (if (n : ℤ) - 7 < 512 then _ else _) = _
  rw [if_neg (by omega)]
  simp only [hm]
  rw [if_neg (by omega)]
  by_cases hz : inode.zone 8 = 0
  · rw [if_pos hz, if_pos (Or.inl hz)]
  · rw [if_neg hz]
    by_cases hr : v.readable (inode.zone 8) = true
    · have htable : tableEntry v (inode.zone 8) (((n - 519 : ℕ) : ℤ) / 512) = .ok (secondTable v inode n) := by
        have hdiv : ((n - 519 : ℕ) : ℤ) / 512 = ((n - 519) / 512 : ℕ) := by omega
        rw [hdiv, tableEntry_of_lt v _ (by omega), secondTable]
      rw [if_neg (not_not.mpr hr), if_neg (not_or.mpr ⟨hz, not_not.mpr hr⟩), htable]
      have hindex : (if (512 : ℤ) ≤ ((n - 519 : ℕ) : ℤ) then ((n - 519 : ℕ) : ℤ) - (((n - 519 : ℕ) : ℤ) - 1) * 512
          else ((n - 519 : ℕ) : ℤ)) = if n - 519 < 512 then ((n - 519 : ℕ) : ℤ)
            else ((n - 519 : ℕ) : ℤ) - (((n - 519 : ℕ) : ℤ) - 1) * 512 := by
        by_cases hlt : n - 519 < 512
        · rw [if_pos hlt, if_neg (by omega)]
        · rw [if_neg hlt, if_pos (by omega)]
      rw [← hindex]
      rfl
    · rw [if_pos hr, if_pos (Or.inr hr)]

lemma readFileBlock_agrees {b : Word} (h : bmap v inode n = .ok b) :
    readFileBlock v inode n = .ok (mappedBuffer v b) ↔ FollowsMap v inode n := by
  have hn := bmap_ok_lt h
  by_cases h₁ : n < 7
  · rw [bmap_direct h₁] at h
    cases h
    rw [agrees_direct h₁, FollowsMap, if_pos h₁]
  · by_cases h₂ : n < 519
    · rw [bmap_single h₁ (by omega)] at h
      cases h
      rw [readFileBlock_single h₁ h₂, ind_agrees _ _ (by omega), FollowsMap, if_neg h₁, if_pos h₂]
    · have hm : n - 7 - 512 = n - 519 := by omega
      rw [bmap_double hn h₁ (by omega), hm] at h
      cases h
      rw [readFileBlock_double hn h₂, FollowsMap, if_neg h₁, if_neg h₂]
      by_cases hz : inode.zone 8 ≠ 0 ∧ v.readable (inode.zone 8) = true
      · have htable : indirect v (inode.zone 8) ((n - 519) / 512) = secondTable v inode n := if_pos hz
        rw [if_neg (not_or.mpr ⟨hz.1, not_not.mpr hz.2⟩), htable]
        simp only [hz.1, hz.2, ne_eq, not_false_eq_true, forall_const]
        by_cases hlt : n - 519 < 512
        · rw [if_pos hlt, if_pos hlt, Nat.mod_eq_of_lt hlt, ind_agrees _ _ hlt]
        · rw [if_neg hlt, if_neg hlt, readFileBlockInd_outside _ _ (by omega)]
          by_cases hr : v.readable (secondTable v inode n) = true
          · rw [if_pos hr, hr]
            simp
          · have hnone : indirect v (secondTable v inode n) ((n - 519) % 512) = 0 := if_neg (fun h => hr h.2)
            rw [if_neg hr, hnone, mappedBuffer_zero]
            simpa using hr
      · have hempty : indirect v (inode.zone 8) ((n - 519) / 512) = 0 := if_neg hz
        have hnone : indirect v 0 ((n - 519) % 512) = 0 := if_neg (fun h => h.1 rfl)
        have hor : inode.zone 8 = 0 ∨ ¬ v.readable (inode.zone 8) = true := by
          rw [or_iff_not_imp_left]
          exact fun hne hr => hz ⟨hne, hr⟩
        rw [if_pos hor, hempty, hnone, mappedBuffer_zero]
        refine iff_of_true rfl ?_
        -- no `absurd` here: looking at the goal below the arrows unfolds `n - 519`
        rcases hor with h₀ | hr
        · simp [h₀]
        · simp [hr]

/-- Both maps name the same block of the device, or none, and no index leaves its table. -/
theorem file_block_agrees_iff {b : Word} (h : bmap v inode n = .ok b) :
    readFileBlock v inode n = .ok (mappedBuffer v b) ↔ FollowsMap v inode n :=
  readFileBlock_agrees h

section Example

/-- A file whose double indirect block is 10, with the second table in block 11. -/
def twoTables : Volume where
  data z := if z = 10 then Block.zero.setWord 1 11 else if z = 11 then Block.zero.setWord 0 12 else Block.zero
  readable _ := true
  zmap _ := true
  zmapBits := 8192
  firstDataZone := 9
  nZones := 1440

def twoTablesInode : MInode where
  iMode := 0o100644
  iSize := 1032 * 1024
  iZone k := if k = 8 then 10 else 0
  iNum := 2

end Example

theorem file_block_agrees_iff_hole :
    bmap twoTables twoTablesInode 7 = .ok 0 ∧
      (readFileBlock twoTables twoTablesInode 7 = .ok (mappedBuffer twoTables 0) ↔
        FollowsMap twoTables twoTablesInode 7) :=
  ⟨by rfl, file_block_agrees_iff (by rfl)⟩

theorem file_block_disagrees :
    (bmap twoTables twoTablesInode 1031 = .ok 12 ∧
      readFileBlock twoTables twoTablesInode 1031 = .error .overrun) ∧
    (bmap twoTables twoTablesInode 3 = .ok 0 ∧ readFileBlock twoTables twoTablesInode 3 = .ok (some 0)) :=
  ⟨⟨by rfl, by rfl⟩, by rfl, by rfl⟩

end Reading

end Devos.Fs
