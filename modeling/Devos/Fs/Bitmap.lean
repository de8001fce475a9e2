import Devos.Fs.Volume
import Devos.Library.Runs
import Mathlib.Data.List.Range
import Mathlib.Tactic.NormNum

/-! The inode and zone bitmaps of a mounted device, and the four calls that work on them. -/

namespace Devos

def Block.bit (b : Block) (nr : ℕ) : Bool := (b.byte (nr / 8)).getLsbD (nr % 8)

def Block.setBit (b : Block) (nr : ℕ) : Block :=
  b.setByte (nr / 8) (b.byte (nr / 8) ||| BitVec.twoPow 8 (nr % 8))

def Block.clearBit (b : Block) (nr : ℕ) : Block :=
  b.setByte (nr / 8) (b.byte (nr / 8) &&& ~~~BitVec.twoPow 8 (nr % 8))

section Bits

variable (b : Block) {nr k : ℕ}

lemma byte_setBit (c : Byte) {t u : ℕ} (ht : t < 8) :
    (c ||| BitVec.twoPow 8 t).getLsbD u = if u = t then true else c.getLsbD u := by
  rw [BitVec.getLsbD_or, BitVec.getLsbD_twoPow]
  by_cases heq : u = t
  · simp [heq, ht]
  · simp [heq, Ne.symm heq]

lemma byte_clearBit (c : Byte) {t u : ℕ} (ht : t < 8) (hu : u < 8) :
    (c &&& ~~~BitVec.twoPow 8 t).getLsbD u = if u = t then false else c.getLsbD u := by
  rw [BitVec.getLsbD_and, BitVec.getLsbD_not, BitVec.getLsbD_twoPow]
  by_cases heq : u = t
  · simp [heq, ht]
  · simp [heq, Ne.symm heq, hu]

lemma bit_setByte (c : Byte) (hnr : nr < 8192) (hk : k < 8192) :
    (b.setByte (nr / 8) c).bit k = if k / 8 = nr / 8 then c.getLsbD (k % 8) else b.bit k := by
  have hsize : blockSize = 1024 := rfl
  rw [Block.bit, Block.byte_setByte _ _ (by omega) (by omega), apply_ite (fun x => BitVec.getLsbD x (k % 8))]
  rfl

lemma bit_setBit (hnr : nr < 8192) (hk : k < 8192) :
    (b.setBit nr).bit k = if k = nr then true else b.bit k := by
  rw [Block.setBit, bit_setByte b _ hnr hk, byte_setBit _ (Nat.mod_lt _ (by norm_num))]
  by_cases hbyte : k / 8 = nr / 8
  · rw [if_pos hbyte, ← hbyte]
    split_ifs <;> first | rfl | omega
  · rw [if_neg hbyte, if_neg (by omega)]

lemma bit_clearBit (hnr : nr < 8192) (hk : k < 8192) :
    (b.clearBit nr).bit k = if k = nr then false else b.bit k := by
  rw [Block.clearBit, bit_setByte b _ hnr hk, byte_clearBit _ (Nat.mod_lt _ (by norm_num)) (Nat.mod_lt _ (by norm_num))]
  by_cases hbyte : k / 8 = nr / 8
  · rw [if_pos hbyte, ← hbyte]
    split_ifs <;> first | rfl | omega
  · rw [if_neg hbyte, if_neg (by omega)]

end Bits

namespace Fs

-- `lodsl; notl; bsfl`, a long at a time; `words` longs are left at bit `c`
def firstZeroFrom (b : Block) : ℕ → ℕ → ℕ
  | 0, c => c
  | words + 1, c =>
    match (List.range 32).find? fun t => !b.bit (c + t) with
    | some t => c + t
    | none => firstZeroFrom b words (c + 32)

/-- `find_first_zero`: 8192 when every bit is set. -/
def findFirstZero (b : Block) : ℕ := firstZeroFrom b 256 0

/-- The loop over the blocks of a map from slot `i` on: the slot, the bit and the block. -/
def scanFrom (map : ℕ → Option Block) : ℕ → ℕ → Option (ℕ × ℕ × Block)
  | 0, _ => none
  | slots + 1, i =>
    match map i with
    | none => scanFrom map slots (i + 1)
    | some bh =>
      if findFirstZero bh < 8192 then some (i, findFirstZero bh, bh) else scanFrom map slots (i + 1)

def scan (map : ℕ → Option Block) : Option (ℕ × ℕ × Block) := scanFrom map 8 0

structure SuperBlock where
  sDev : Word
  sNinodes : Word
  sNzones : Word
  sImapBlocks : ℕ
  sZmapBlocks : ℕ
  sFirstdatazone : Word
  sImap : ℕ → Option Block
  sZmap : ℕ → Option Block

structure InodeSlot where
  iDev : Word
  iNum : Word
  iCount : ℕ
  iNlinks : ℕ
  iDirt : Bool

def zeroSlot : InodeSlot := ⟨0, 0, 0, 0, false⟩

/-- `busy` tells whose buffers have another user. A buffer in use keeps the block from being freed. -/
def SuperBlock.freeBlock (sb : SuperBlock) (busy : ℕ → Bool) (block : ℕ) : Except Fault SuperBlock :=
  if block < sb.sFirstdatazone.toNat ∨ sb.sNzones.toNat ≤ block then .error .panic
  else if busy block then .ok sb
  else
    let block := block - (sb.sFirstdatazone.toNat - 1)
    match sb.sZmap (block / 8192) with
    | none => .error .badPointer
    | some bh =>
      if ¬ bh.bit (block % 8192) then .error .panic
      else .ok { sb with sZmap := Function.update sb.sZmap (block / 8192) (some (bh.clearBit (block % 8192))) }

def SuperBlock.newBlock (sb : SuperBlock) (busy : ℕ → Bool) : Except Fault (ℕ × SuperBlock) :=
  match scan sb.sZmap with
  | none => .ok (0, sb)
  | some (i, j, bh) =>
    if bh.bit j then .error .panic
    else
      let sb := { sb with sZmap := Function.update sb.sZmap i (some (bh.setBit j)) }
      let z := j + i * 8192 + sb.sFirstdatazone.toNat - 1
      if sb.sNzones.toNat ≤ z then .ok (0, sb)
      else if busy z then .error .panic
      else .ok (z, sb)

def SuperBlock.freeInode (sb : SuperBlock) (inode : InodeSlot) : Except Fault (InodeSlot × SuperBlock) :=
  if inode.iDev = 0 then .ok (zeroSlot, sb)
  else if 1 < inode.iCount then .error .panic
  else if inode.iNlinks ≠ 0 then .error .panic
  else if inode.iDev ≠ sb.sDev then .error .panic
  else if inode.iNum.toNat < 1 ∨ sb.sNinodes.toNat < inode.iNum.toNat then .error .panic
  else
    match sb.sImap (inode.iNum.toNat / 8192) with
    | none => .error .panic
    | some bh =>
      if ¬ bh.bit (inode.iNum.toNat % 8192) then .error .panic
      else
        .ok (zeroSlot, { sb with
          sImap := Function.update sb.sImap (inode.iNum.toNat / 8192)
            (some (bh.clearBit (inode.iNum.toNat % 8192))) })

def SuperBlock.newInode (sb : SuperBlock) : Except Fault (Option InodeSlot × SuperBlock) :=
  match scan sb.sImap with
  | none => .ok (none, sb)
  | some (i, j, bh) =>
    if sb.sNinodes.toNat < j + i * 8192 then .ok (none, sb)
    else if bh.bit j then .error .panic
    else
      .ok (some ⟨sb.sDev, BitVec.ofNat 16 (j + i * 8192), 1, 1, true⟩,
        { sb with sImap := Function.update sb.sImap i (some (bh.setBit j)) })

/-- Bit `k` of a map, counted over all its blocks. -/
def marked (map : ℕ → Option Block) (k : ℕ) : Bool := (map (k / 8192)).any fun b => b.bit (k % 8192)

def Clear (map : ℕ → Option Block) (k : ℕ) : Prop :=
  k < 65536 ∧ ∃ b, map (k / 8192) = some b ∧ b.bit (k % 8192) = false

section Maps

variable {map : ℕ → Option Block} {b b' : Block} {i j k : ℕ}

lemma marked_eq (h : map (k / 8192) = some b) : marked map k = b.bit (k % 8192) := by
  rw [marked, h]
  rfl

lemma exists_of_marked (h : marked map k = true) : ∃ b, map (k / 8192) = some b ∧ b.bit (k % 8192) = true := by
  rw [marked, Option.any_eq_true] at h
  exact h

lemma Clear.not_marked (h : Clear map k) : marked map k = false := by
  obtain ⟨_, b, hb, hbit⟩ := h
  rw [marked_eq hb, hbit]

lemma marked_update {c : Bool} (hi : map i = some b) (hj : j < 8192)
    (hb : ∀ k, k < 8192 → b'.bit k = if k = j then c else b.bit k) (k : ℕ) :
    marked (Function.update map i (some b')) k = if k = j + i * 8192 then c else marked map k := by
  by_cases hk : k / 8192 = i
  · have hmap : Function.update map i (some b') (k / 8192) = some b' := by rw [hk, Function.update_self]
    rw [marked_eq hmap, hb _ (Nat.mod_lt _ (by norm_num)), marked_eq (hk ▸ hi)]
    split_ifs <;> first | rfl | omega
  · rw [if_neg (by omega), marked, Function.update_of_ne hk, marked]

/-- Up to bit `r` every bit of the block is set, and `r` is clear unless it is the end. -/
structure FirstZero (b : Block) (r : ℕ) : Prop where
  le : r ≤ 8192
  set : ∀ k, k < r → b.bit k = true
  clear : r < 8192 → b.bit r = false

lemma firstZeroFrom_spec {words c : ℕ} (hc : c + 32 * words = 8192) (hset : ∀ k, k < c → b.bit k = true) :
    FirstZero b (firstZeroFrom b words c) := by
  induction words generalizing c with
  | zero => exact ⟨by rw [firstZeroFrom]; omega, hset, fun h => by rw [firstZeroFrom] at h; omega⟩
  | succ words ih =>
    rw [firstZeroFrom]
    cases hfind : (List.range 32).find? fun t => !b.bit (c + t) with
    | none =>
      have hall := List.find?_eq_none.mp hfind
      refine ih (by omega) ?_
      intro k hk
      by_cases hlt : k < c
      · exact hset k hlt
      · have hbit := hall (k - c) (List.mem_range.mpr (by omega))
        rw [show c + (k - c) = k by omega] at hbit
        simpa using hbit
    | some t =>
      obtain ⟨hbit, ⟨ht, hbefore⟩⟩ := List.find?_range_eq_some.mp hfind
      have ht := List.mem_range.mp ht
      refine ⟨show c + t ≤ 8192 by omega, ?_, fun _ => by simpa using hbit⟩
      intro k hk
      change k < c + t at hk
      by_cases hlt : k < c
      · exact hset k hlt
      · have hbit := hbefore (k - c) (by omega)
        rw [show c + (k - c) = k by omega] at hbit
        simpa using hbit

lemma findFirstZero_spec (b : Block) : FirstZero b (findFirstZero b) :=
  firstZeroFrom_spec (by norm_num) (fun k hk => absurd hk (Nat.not_lt_zero k))

lemma not_clear_of_full (hfull : ¬ findFirstZero b < 8192) (hmap : map i = some b) (hk : k / 8192 = i) :
    ¬ Clear map k := by
  rintro ⟨_, b', hb', hbit⟩
  rw [hk, hmap] at hb'
  cases hb'
  have hlt : k % 8192 < 8192 := Nat.mod_lt _ (by norm_num)
  rw [(findFirstZero_spec b).set _ (by omega)] at hbit
  cases hbit

lemma scanFrom_none {slots : ℕ} (h : scanFrom map slots i = none) {k : ℕ} (hlo : i ≤ k / 8192)
    (hhi : k / 8192 < i + slots) : ¬ Clear map k := by
  induction slots generalizing i with
  | zero => omega
  | succ slots ih =>
    rw [scanFrom] at h
    cases hmap : map i with
    | none =>
      rw [hmap] at h
      by_cases hk : k / 8192 = i
      · rintro ⟨_, b, hb, _⟩
        rw [hk, hmap] at hb
        cases hb
      · exact ih h (by omega) (by omega)
    | some b =>
      simp only [hmap] at h
      split at h
      next => cases h
      next hfull =>
        by_cases hk : k / 8192 = i
        · exact not_clear_of_full hfull hmap hk
        · exact ih h (by omega) (by omega)

structure Found (map : ℕ → Option Block) (lo hi i j : ℕ) (bh : Block) : Prop where
  le : lo ≤ i
  lt : i < hi
  map_eq : map i = some bh
  bit_lt : j < 8192
  bit_eq : bh.bit j = false
  first : ∀ k, lo ≤ k / 8192 → k < j + i * 8192 → ¬ Clear map k

lemma scanFrom_some {slots : ℕ} {bh : Block} {i₀ : ℕ} (h : scanFrom map slots i₀ = some (i, j, bh)) :
    Found map i₀ (i₀ + slots) i j bh := by
  induction slots generalizing i₀ with
  | zero => cases h
  | succ slots ih =>
    rw [scanFrom] at h
    have hlater : scanFrom map slots (i₀ + 1) = some (i, j, bh) →
        (∀ k, k / 8192 = i₀ → ¬ Clear map k) → Found map i₀ (i₀ + (slots + 1)) i j bh := by
      intro h' hslot
      have hf := ih h'
      refine ⟨by have := hf.le; omega, by have := hf.lt; omega, hf.map_eq, hf.bit_lt, hf.bit_eq, ?_⟩
      intro k hlo hk
      by_cases heq : k / 8192 = i₀
      · exact hslot k heq
      · exact hf.first k (by omega) hk
    cases hmap : map i₀ with
    | none =>
      rw [hmap] at h
      refine hlater h ?_
      rintro k hk ⟨_, b, hb, _⟩
      rw [hk, hmap] at hb
      cases hb
    | some b =>
      simp only [hmap] at h
      split at h
      next hlt =>
        cases h
        have hz := findFirstZero_spec bh
        refine ⟨le_rfl, by omega, hmap, hlt, hz.clear hlt, ?_⟩
        rintro k hlo hk ⟨_, b', hb', hbit⟩
        have hslot : k / 8192 = i := by omega
        rw [hslot, hmap] at hb'
        cases hb'
        rw [hz.set _ (by omega)] at hbit
        cases hbit
      next hfull => exact hlater h (fun k hk => not_clear_of_full hfull hmap hk)

lemma scan_none (h : scan map = none) (k : ℕ) : ¬ Clear map k := by
  by_cases hk : k < 65536
  · exact scanFrom_none h (Nat.zero_le _) (by omega)
  · exact fun hc => hk hc.1

lemma scan_some {bh : Block} (h : scan map = some (i, j, bh)) : Found map 0 8 i j bh := scanFrom_some h

lemma Found.clear {bh : Block} (h : Found map 0 8 i j bh) : Clear map (j + i * 8192) := by
  have hi := h.lt
  have hj := h.bit_lt
  have hdiv : (j + i * 8192) / 8192 = i := by omega
  have hmod : (j + i * 8192) % 8192 = j := by omega
  exact ⟨by omega, bh, by rw [hdiv]; exact h.map_eq, by rw [hmod]; exact h.bit_eq⟩

end Maps

section Calls

variable {sb sb' : SuperBlock} {busy : ℕ → Bool}

/-- A map has got bit `n` set to `c`, and is as it was elsewhere. -/
def BitSet (map map' : ℕ → Option Block) (n : ℕ) (c : Bool) : Prop :=
  ∀ k, marked map' k = if k = n then c else marked map k

lemma SuperBlock.newBlock_cases {z : ℕ} (h : sb.newBlock busy = .ok (z, sb')) :
    (z = 0 ∧ sb' = sb ∧ ∀ k, ¬ Clear sb.sZmap k) ∨
    ∃ n map, sb' = { sb with sZmap := map } ∧ Clear sb.sZmap n ∧ (∀ k, k < n → ¬ Clear sb.sZmap k) ∧
      BitSet sb.sZmap map n true ∧
      (z = 0 ∧ sb.sNzones.toNat ≤ n + sb.sFirstdatazone.toNat - 1 ∨
        z = n + sb.sFirstdatazone.toNat - 1 ∧ z < sb.sNzones.toNat) := by
  unfold SuperBlock.newBlock at h
  split at h
  next hscan =>
    cases h
    exact Or.inl ⟨rfl, rfl, scan_none hscan⟩
  next i j bh hscan =>
    have hf := scan_some hscan
    right
    simp only [hf.bit_eq, Bool.false_eq_true, if_false] at h
    have hset : BitSet sb.sZmap (Function.update sb.sZmap i (some (bh.setBit j))) (j + i * 8192) true :=
      marked_update hf.map_eq hf.bit_lt (fun k hk => bit_setBit bh hf.bit_lt hk)
    have hfirst : ∀ k, k < j + i * 8192 → ¬ Clear sb.sZmap k := fun k hk => hf.first k (Nat.zero_le _) hk
    split at h
    next hge =>
      cases h
      exact ⟨_, _, rfl, hf.clear, hfirst, hset, Or.inl ⟨rfl, hge⟩⟩
    next hlt =>
      split at h
      next => cases h
      next =>
        cases h
        exact ⟨_, _, rfl, hf.clear, hfirst, hset, Or.inr ⟨rfl, not_le.mp hlt⟩⟩

lemma SuperBlock.newInode_cases {r : Option InodeSlot} (h : sb.newInode = .ok (r, sb')) :
    (r = none ∧ sb' = sb) ∨
    ∃ n map, sb' = { sb with sImap := map } ∧ Clear sb.sImap n ∧ n ≤ sb.sNinodes.toNat ∧
      BitSet sb.sImap map n true ∧ r = some ⟨sb.sDev, BitVec.ofNat 16 n, 1, 1, true⟩ := by
  unfold SuperBlock.newInode at h
  split at h
  next =>
    cases h
    exact Or.inl ⟨rfl, rfl⟩
  next i j bh hscan =>
    have hf := scan_some hscan
    split at h
    next =>
      cases h
      exact Or.inl ⟨rfl, rfl⟩
    next hle =>
      simp only [hf.bit_eq, Bool.false_eq_true, if_false] at h
      cases h
      exact Or.inr ⟨_, _, rfl, hf.clear, not_lt.mp hle,
        marked_update hf.map_eq hf.bit_lt (fun k hk => bit_setBit bh hf.bit_lt hk), rfl⟩

lemma bitSet_clear {map : ℕ → Option Block} {bh : Block} {n : ℕ} (hmap : map (n / 8192) = some bh) :
    BitSet map (Function.update map (n / 8192) (some (bh.clearBit (n % 8192)))) n false := by
  have hlt : n % 8192 < 8192 := Nat.mod_lt _ (by norm_num)
  have hn : n % 8192 + n / 8192 * 8192 = n := by omega
  intro k
  rw [marked_update hmap hlt (fun k hk => bit_clearBit bh hlt hk) k, hn]

lemma SuperBlock.freeBlock_ok {block : ℕ} (hlo : sb.sFirstdatazone.toNat ≤ block) (hhi : block < sb.sNzones.toNat)
    (hbusy : busy block = false)
    (hbit : marked sb.sZmap (block - (sb.sFirstdatazone.toNat - 1)) = true) :
    ∃ map, sb.freeBlock busy block = .ok { sb with sZmap := map } ∧
      BitSet sb.sZmap map (block - (sb.sFirstdatazone.toNat - 1)) false := by
  obtain ⟨bh, hbh, hset⟩ := exists_of_marked hbit
  refine ⟨_, ?_, bitSet_clear hbh⟩
  rw [SuperBlock.freeBlock, if_neg (by omega), if_neg (by simp [hbusy])]
  simp only [hbh, hset, not_true_eq_false, if_false]

lemma SuperBlock.freeInode_ok {inode : InodeSlot} (hdev : inode.iDev ≠ 0) (hsuper : inode.iDev = sb.sDev)
    (hcount : inode.iCount ≤ 1) (hlinks : inode.iNlinks = 0) (hlo : 1 ≤ inode.iNum.toNat)
    (hhi : inode.iNum.toNat ≤ sb.sNinodes.toNat) (hbit : marked sb.sImap inode.iNum.toNat = true) :
    ∃ map, sb.freeInode inode = .ok (zeroSlot, { sb with sImap := map }) ∧
      BitSet sb.sImap map inode.iNum.toNat false := by
  obtain ⟨bh, hbh, hset⟩ := exists_of_marked hbit
  refine ⟨_, ?_, bitSet_clear hbh⟩
  rw [SuperBlock.freeInode, if_neg hdev, if_neg (by omega), if_neg (by simp [hlinks]), if_neg (by simp [hsuper]),
    if_neg (by omega)]
  simp only [hbh, hset, not_true_eq_false, if_false]

lemma SuperBlock.freeBlock_range {block : ℕ} (h : sb.freeBlock busy block = .ok sb') :
    sb.sFirstdatazone.toNat ≤ block ∧ block < sb.sNzones.toNat := by
  by_contra hne
  rw [SuperBlock.freeBlock, if_pos (by omega)] at h
  cases h

lemma SuperBlock.freeInode_cases {inode : InodeSlot} {r : InodeSlot} (h : sb.freeInode inode = .ok (r, sb')) :
    (inode.iDev = 0 ∧ sb' = sb) ∨
    inode.iDev ≠ 0 ∧ inode.iDev = sb.sDev ∧ inode.iCount ≤ 1 ∧ inode.iNlinks = 0 ∧
      1 ≤ inode.iNum.toNat ∧ inode.iNum.toNat ≤ sb.sNinodes.toNat := by
  unfold SuperBlock.freeInode at h
  split_ifs at h with h₀ h₁ h₂ h₃ h₄
  · cases h
    exact Or.inl ⟨h₀, rfl⟩
  · exact Or.inr ⟨h₀, not_not.mp h₃, by omega, not_not.mp h₂, by omega, by omega⟩

end Calls

/-- The device with what its users hold: `zones` and `inodes` are the numbers that were marked when it was
mounted or handed out since, and not freed again. -/
structure Allocator where
  sb : SuperBlock
  zones : ℕ → Bool
  inodes : ℕ → Bool

inductive AllocCall where
  | newBlock (busy : ℕ → Bool)
  | freeBlock (block : ℕ) (busy : ℕ → Bool)
  | newInode
  | freeInode (inode : InodeSlot)

inductive AllocStep : Allocator → AllocCall → Allocator → Prop
  | newBlock {s busy z sb} : s.sb.newBlock busy = .ok (z, sb) →
      AllocStep s (.newBlock busy)
        { s with sb := sb, zones := if z = 0 then s.zones else Function.update s.zones z true }
  | freeBlock {s block busy sb} : s.zones block = true → busy block = false →
      s.sb.freeBlock busy block = .ok sb →
      AllocStep s (.freeBlock block busy) { s with sb := sb, zones := Function.update s.zones block false }
  | newInode {s r sb} : s.sb.newInode = .ok (r, sb) →
      AllocStep s .newInode
        { s with sb := sb, inodes := r.elim s.inodes fun inode => Function.update s.inodes inode.iNum.toNat true }
  | freeInode {s inode r sb} : (inode.iDev ≠ 0 → s.inodes inode.iNum.toNat = true) →
      s.sb.freeInode inode = .ok (r, sb) →
      AllocStep s (.freeInode inode)
        { s with
          sb := sb
          inodes := if inode.iDev = 0 then s.inodes else Function.update s.inodes inode.iNum.toNat false }

/-- What `do_mount` leaves: the map blocks the superblock names, with bit 0 of both maps set. The data
zones come after the maps. -/
structure Mounted (sb : SuperBlock) : Prop where
  imap : ∀ i, (sb.sImap i).isSome ↔ i < sb.sImapBlocks
  zmap : ∀ i, (sb.sZmap i).isSome ↔ i < sb.sZmapBlocks
  imap_le : sb.sImapBlocks ≤ 8
  zmap_le : sb.sZmapBlocks ≤ 8
  imap_zero : marked sb.sImap 0 = true
  zmap_zero : marked sb.sZmap 0 = true
  data_zone : 2 + sb.sImapBlocks + sb.sZmapBlocks ≤ sb.sFirstdatazone.toNat

def allocSystem : Runs.System Allocator AllocCall where
  init s := Mounted s.sb ∧
    (∀ z, s.zones z = (decide (s.sb.sFirstdatazone.toNat ≤ z + 1) &&
      marked s.sb.sZmap (z + 1 - s.sb.sFirstdatazone.toNat))) ∧
    ∀ n, s.inodes n = marked s.sb.sImap n
  step := AllocStep

/-- A `new_block` that sets a bit sets one that stands for a zone of the device: some such bit is clear, or no
bit of the map is. -/
def FindsZone (s : Allocator) : AllocCall → Prop
  | .newBlock _ =>
    (∃ k, Clear s.sb.sZmap k ∧ k + s.sb.sFirstdatazone.toNat - 1 < s.sb.sNzones.toNat) ∨
      ∀ k, ¬ Clear s.sb.sZmap k
  | _ => True

structure Exact (s : Allocator) : Prop where
  zone : ∀ k, marked s.sb.sZmap k = s.zones (k + s.sb.sFirstdatazone.toNat - 1)
  inode : ∀ n, marked s.sb.sImap n = s.inodes n
  zone_zero : marked s.sb.sZmap 0 = true
  inode_zero : marked s.sb.sImap 0 = true
  data_zone : 1 ≤ s.sb.sFirstdatazone.toNat

section Runs

variable {s s' : Allocator}

lemma Clear.ne_zero {map : ℕ → Option Block} {n : ℕ} (h : Clear map n) (h₀ : marked map 0 = true) : n ≠ 0 := by
  rintro rfl
  rw [h.not_marked] at h₀
  cases h₀

lemma update_bit {f : ℕ → Bool} {z n : ℕ} (c : Bool) : Function.update f z c n = if n = z then c else f n :=
  Function.update_apply _ _ _ _

lemma Exact.newBlock (h : Exact s) {busy : ℕ → Bool} {z : ℕ} {sb : SuperBlock}
    (hcall : s.sb.newBlock busy = .ok (z, sb)) (hok : FindsZone s (.newBlock busy)) :
    Exact { s with sb := sb, zones := if z = 0 then s.zones else Function.update s.zones z true } := by
  have hdata := h.data_zone
  rcases SuperBlock.newBlock_cases hcall with ⟨rfl, rfl, _⟩ | ⟨n, map, rfl, hclear, hfirst, hset, hz⟩
  · exact ⟨h.zone, h.inode, h.zone_zero, h.inode_zero, h.data_zone⟩
  · have hz : z = n + s.sb.sFirstdatazone.toNat - 1 := by
      rcases hz with ⟨_, hge⟩ | ⟨hz, _⟩
      · rcases hok with ⟨k, hk, hlt⟩ | hfull
        · have hnk : ¬ k < n := fun hkn => hfirst k hkn hk
          omega
        · exact absurd hclear (hfull n)
      · exact hz
    have hn := hclear.ne_zero h.zone_zero
    refine ⟨?_, h.inode, ?_, h.inode_zero, h.data_zone⟩
    · intro k
      have hz₀ : z ≠ 0 := by omega
      change marked map k = (if z = 0 then s.zones else Function.update s.zones z true)
        (k + s.sb.sFirstdatazone.toNat - 1)
      rw [hset k, if_neg hz₀, update_bit, h.zone k]
      by_cases hk : k = n
      · rw [if_pos hk, if_pos (by omega)]
      · rw [if_neg hk, if_neg (by omega)]
    · change marked map 0 = true
      rw [hset 0, if_neg (Ne.symm hn)]
      exact h.zone_zero

lemma Exact.newInode (h : Exact s) {r : Option InodeSlot} {sb : SuperBlock}
    (hcall : s.sb.newInode = .ok (r, sb)) :
    Exact { s with
      sb := sb
      inodes := r.elim s.inodes fun inode => Function.update s.inodes inode.iNum.toNat true } := by
  rcases SuperBlock.newInode_cases hcall with ⟨rfl, rfl⟩ | ⟨n, map, rfl, hclear, hle, hset, rfl⟩
  · exact ⟨h.zone, h.inode, h.zone_zero, h.inode_zero, h.data_zone⟩
  · have hlt := s.sb.sNinodes.isLt
    have hnum : (BitVec.ofNat 16 n).toNat = n := by
      rw [BitVec.toNat_ofNat, Nat.mod_eq_of_lt (by omega)]
    have hn := hclear.ne_zero h.inode_zero
    refine ⟨h.zone, ?_, h.zone_zero, ?_, h.data_zone⟩
    · intro k
      change marked map k = Function.update s.inodes (BitVec.ofNat 16 n).toNat true k
      rw [hset k, hnum, update_bit, h.inode k]
    · change marked map 0 = true
      rw [hset 0, if_neg (Ne.symm hn)]
      exact h.inode_zero

lemma Exact.freeBlock (h : Exact s) {block : ℕ} {busy : ℕ → Bool} {sb : SuperBlock}
    (hused : s.zones block = true) (hbusy : busy block = false)
    (hcall : s.sb.freeBlock busy block = .ok sb) :
    Exact { s with sb := sb, zones := Function.update s.zones block false } := by
  have hdata := h.data_zone
  obtain ⟨hlo, hhi⟩ := SuperBlock.freeBlock_range hcall
  have hback : block - (s.sb.sFirstdatazone.toNat - 1) + s.sb.sFirstdatazone.toNat - 1 = block := by omega
  have hbit : marked s.sb.sZmap (block - (s.sb.sFirstdatazone.toNat - 1)) = true := by
    rw [h.zone, hback, hused]
  obtain ⟨map, hmap, hset⟩ := SuperBlock.freeBlock_ok hlo hhi hbusy hbit
  rw [hmap] at hcall
  cases hcall
  refine ⟨?_, h.inode, ?_, h.inode_zero, h.data_zone⟩
  · intro k
    change marked map k = Function.update s.zones block false (k + s.sb.sFirstdatazone.toNat - 1)
    rw [hset k, update_bit, h.zone k]
    by_cases hk : k = block - (s.sb.sFirstdatazone.toNat - 1)
    · rw [if_pos hk, if_pos (by omega)]
    · rw [if_neg hk, if_neg (by omega)]
  · change marked map 0 = true
    rw [hset 0, if_neg (by omega)]
    exact h.zone_zero

lemma Exact.freeInode (h : Exact s) {inode r : InodeSlot} {sb : SuperBlock}
    (hused : inode.iDev ≠ 0 → s.inodes inode.iNum.toNat = true)
    (hcall : s.sb.freeInode inode = .ok (r, sb)) :
    Exact { s with
      sb := sb
      inodes := if inode.iDev = 0 then s.inodes else Function.update s.inodes inode.iNum.toNat false } := by
  rcases SuperBlock.freeInode_cases hcall with ⟨h₀, rfl⟩ | ⟨hdev, hsuper, hcount, hlinks, hlo, hhi⟩
  · rw [if_pos h₀]
    exact ⟨h.zone, h.inode, h.zone_zero, h.inode_zero, h.data_zone⟩
  · have hbit : marked s.sb.sImap inode.iNum.toNat = true := by rw [h.inode, hused hdev]
    obtain ⟨map, hmap, hset⟩ := SuperBlock.freeInode_ok hdev hsuper hcount hlinks hlo hhi hbit
    rw [hmap] at hcall
    cases hcall
    rw [if_neg hdev]
    refine ⟨h.zone, ?_, h.zone_zero, ?_, h.data_zone⟩
    · intro k
      change marked map k = Function.update s.inodes inode.iNum.toNat false k
      rw [hset k, update_bit, h.inode k]
    · change marked map 0 = true
      rw [hset 0, if_neg (by omega)]
      exact h.inode_zero

lemma exact_of_mounted (h : allocSystem.init s) : Exact s := by
  obtain ⟨hm, hzones, hinodes⟩ := h
  have hdata := hm.data_zone
  refine ⟨?_, fun n => (hinodes n).symm, hm.zmap_zero, hm.imap_zero, by omega⟩
  intro k
  have hback : k + s.sb.sFirstdatazone.toNat - 1 + 1 - s.sb.sFirstdatazone.toNat = k := by omega
  rw [hzones, hback, decide_eq_true (by omega), Bool.true_and]

lemma exact_of_reach (h : allocSystem.Reach FindsZone s) : Exact s := by
  refine Runs.System.Reach.invariant (fun _ => exact_of_mounted) ?_ h
  intro s e s' hs hok hstep
  cases hstep with
  | newBlock hcall => exact hs.newBlock hcall hok
  | freeBlock hused hbusy hcall => exact hs.freeBlock hused hbusy hcall
  | newInode hcall => exact hs.newInode hcall
  | freeInode hused hcall => exact hs.freeInode hused hcall

/-- In every run in which each `new_block` that sets a bit sets one of the device, the maps mark just the
numbers in use, what is handed out is in range and was not in use, and a free clears the bit of its number. -/
theorem allocators_exact (h : allocSystem.Reach FindsZone s) :
    (∀ k, marked s.sb.sZmap k = s.zones (k + s.sb.sFirstdatazone.toNat - 1)) ∧
    (∀ n, marked s.sb.sImap n = s.inodes n) ∧
    (∀ busy z sb, s.sb.newBlock busy = .ok (z, sb) → z ≠ 0 →
      s.sb.sFirstdatazone.toNat ≤ z ∧ z < s.sb.sNzones.toNat ∧ s.zones z = false) ∧
    (∀ inode sb, s.sb.newInode = .ok (some inode, sb) →
      1 ≤ inode.iNum.toNat ∧ inode.iNum.toNat ≤ s.sb.sNinodes.toNat ∧ s.inodes inode.iNum.toNat = false) ∧
    (∀ busy block, s.zones block = true → busy block = false → s.sb.sFirstdatazone.toNat ≤ block →
      block < s.sb.sNzones.toNat → ∃ map, s.sb.freeBlock busy block = .ok { s.sb with sZmap := map } ∧
        BitSet s.sb.sZmap map (block - (s.sb.sFirstdatazone.toNat - 1)) false) ∧
    ∀ inode, s.inodes inode.iNum.toNat = true → inode.iDev ≠ 0 → inode.iDev = s.sb.sDev →
      inode.iCount ≤ 1 → inode.iNlinks = 0 → 1 ≤ inode.iNum.toNat →
      inode.iNum.toNat ≤ s.sb.sNinodes.toNat →
      ∃ map, s.sb.freeInode inode = .ok (zeroSlot, { s.sb with sImap := map }) ∧
        BitSet s.sb.sImap map inode.iNum.toNat false := by
  have he := exact_of_reach h
  have hdata := he.data_zone
  refine ⟨he.zone, he.inode, ?_, ?_, ?_, ?_⟩
  · intro busy z sb hcall hz
    rcases SuperBlock.newBlock_cases hcall with ⟨hz₀, _⟩ | ⟨n, map, rfl, hclear, _, _, ⟨hz₀, _⟩ | ⟨hz', hlt⟩⟩
    · exact absurd hz₀ hz
    · exact absurd hz₀ hz
    · have hn := hclear.ne_zero he.zone_zero
      refine ⟨by omega, hlt, ?_⟩
      rw [hz', ← he.zone, hclear.not_marked]
  · intro inode sb hcall
    rcases SuperBlock.newInode_cases hcall with ⟨hnone, _⟩ | ⟨n, map, rfl, hclear, hle, _, hsome⟩
    · cases hnone
    · have hn := hclear.ne_zero he.inode_zero
      have hlt := s.sb.sNinodes.isLt
      have hnum : inode.iNum.toNat = n := by
        cases hsome
        change (BitVec.ofNat 16 n).toNat = n
        rw [BitVec.toNat_ofNat, Nat.mod_eq_of_lt (by omega)]
      rw [hnum]
      exact ⟨by omega, hle, by rw [← he.inode, hclear.not_marked]⟩
  · intro busy block hused hbusy hlo hhi
    refine SuperBlock.freeBlock_ok hlo hhi hbusy ?_
    rw [he.zone, show block - (s.sb.sFirstdatazone.toNat - 1) + s.sb.sFirstdatazone.toNat - 1 = block by omega,
      hused]
  · intro inode hused hdev hsuper hcount hlinks hlo hhi
    exact SuperBlock.freeInode_ok hdev hsuper hcount hlinks hlo hhi (by rw [he.inode, hused])

end Runs

/-- The zone map of a volume is that of the map blocks taken one after the other. -/
structure OneMap (v : Volume) (sb : SuperBlock) : Prop where
  bits : v.zmapBits = 8192 * sb.sZmapBlocks
  zmap : ∀ k, v.zmap k = marked sb.sZmap k
  present : ∀ i, (sb.sZmap i).isSome ↔ i < sb.sZmapBlocks
  blocks : sb.sZmapBlocks ≤ 8
  firstDataZone : v.firstDataZone = sb.sFirstdatazone.toNat
  nZones : v.nZones = sb.sNzones.toNat

section Volumes

variable {v : Volume} {sb sb' : SuperBlock}

lemma OneMap.clear_iff (h : OneMap v sb) {k : ℕ} : Clear sb.sZmap k ↔ k < v.zmapBits ∧ v.zmap k = false := by
  have hblocks := h.blocks
  rw [h.bits, h.zmap]
  constructor
  · intro hc
    obtain ⟨b, hb, _⟩ := hc.2
    have hlt := (h.present (k / 8192)).mp (by rw [hb]; rfl)
    exact ⟨by omega, hc.not_marked⟩
  · rintro ⟨hk, hbit⟩
    obtain ⟨b, hb⟩ := Option.isSome_iff_exists.mp ((h.present (k / 8192)).mpr (by omega))
    rw [marked_eq hb] at hbit
    exact ⟨by omega, b, hb, hbit⟩

/-- On map blocks `new_block` hands out what the volume's allocator does, and leaves the same map. -/
theorem newBlock_refines (h : OneMap v sb) {busy : ℕ → Bool} {z : ℕ} (hcall : sb.newBlock busy = .ok (z, sb')) :
    v.newBlock.1.toNat = z ∧ ∀ k, v.newBlock.2.zmap k = marked sb'.sZmap k := by
  rcases SuperBlock.newBlock_cases hcall with ⟨rfl, rfl, hfull⟩ | ⟨n, map, rfl, hclear, hfirst, hset, hz⟩
  · have hnone : v.findFirstZero = none := by
      apply List.find?_eq_none.mpr
      intro k hk
      have hk' := List.mem_range.mp hk
      by_contra hbit
      exact hfull k (h.clear_iff.mpr ⟨hk', by simpa using hbit⟩)
    have hcall : v.newBlock = (0, v) := by rw [Volume.newBlock, hnone]
    rw [hcall]
    exact ⟨rfl, h.zmap⟩
  · have hsome : v.findFirstZero = some n := by
      have hn := h.clear_iff.mp hclear
      apply List.find?_range_eq_some.mpr
      refine ⟨by simp [hn.2], List.mem_range.mpr hn.1, ?_⟩
      intro k hk
      by_contra hbit
      exact hfirst k hk (h.clear_iff.mpr ⟨by omega, by simpa using hbit⟩)
    have hmap : ∀ k, v.newBlock.2.zmap k = marked map k := by
      have hzmap : v.newBlock.2.zmap = Function.update v.zmap n true := by
        rw [Volume.newBlock, hsome]
        dsimp only
        split <;> rfl
      intro k
      rw [hzmap, hset k, update_bit, h.zmap]
    refine ⟨?_, hmap⟩
    rw [Volume.newBlock, hsome]
    dsimp only
    rw [h.nZones, h.firstDataZone]
    rcases hz with ⟨rfl, hge⟩ | ⟨hz, hlt⟩
    · rw [if_pos hge]
      rfl
    · have hmax := sb.sNzones.isLt
      rw [if_neg (by omega), hz, BitVec.toNat_ofNat, Nat.mod_eq_of_lt (by omega)]

end Volumes

/-- Two blocks in use (the reserved bit and zone 5) and the rest of the map clear, on a device of six zones. -/
def smallDisk : SuperBlock where
  sDev := 1
  sNinodes := 10
  sNzones := 6
  sImapBlocks := 1
  sZmapBlocks := 1
  sFirstdatazone := 5
  sImap i := if i = 0 then some fun _ => 3 else none
  sZmap i := if i = 0 then some fun _ => 3 else none

def smallMounted : Allocator where
  sb := smallDisk
  zones z := decide (5 ≤ z + 1) && marked smallDisk.sZmap (z + 1 - 5)
  inodes n := marked smallDisk.sImap n

lemma smallMounted_init : allocSystem.init smallMounted := by
  refine ⟨⟨?_, ?_, by decide, by decide, by decide, by decide, by decide⟩, fun _ => rfl, fun _ => rfl⟩
  · intro i
    by_cases hi : i = 0 <;> simp [smallMounted, smallDisk, hi]
  · intro i
    by_cases hi : i = 0 <;> simp [smallMounted, smallDisk, hi]

theorem allocators_exact_new_inode :
    ∃ s : Allocator, s.inodes 2 = true ∧ smallMounted.inodes 2 = false ∧ marked s.sb.sImap 2 = s.inodes 2 := by
  have hstep : AllocStep smallMounted .newInode _ := .newInode rfl
  have hok : FindsZone smallMounted .newInode := trivial
  have hreach := Runs.System.Reach.next (.start smallMounted_init) hok hstep
  exact ⟨_, rfl, rfl, (allocators_exact hreach).2.1 2⟩

/-- The first clear bit stands for zone 6, one behind the last: it is set, and no zone is handed out. -/
theorem new_block_marks_unused :
    ¬ ∀ s, allocSystem.Reach (fun _ _ => True) s →
      ∀ k, marked s.sb.sZmap k = s.zones (k + s.sb.sFirstdatazone.toNat - 1) := by
  intro hall
  have hstep : AllocStep smallMounted (.newBlock fun _ => false) _ := .newBlock rfl
  have hmark := hall _ (.next (.start smallMounted_init) trivial hstep) 2
  revert hmark
  decide

end Fs

end Devos
