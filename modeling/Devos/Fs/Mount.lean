import Devos.Fs.Volume
import Mathlib.Data.Fin.VecNotation

/-! `do_mount`, with the table of super-blocks and the buffers of the device. -/

namespace Devos.Fs

/-- A pointer to a buffer: to nothing, to the buffer of a block of the device, or whatever the disk has in its place. -/
inductive BufferPtr where
  | null
  | buffer (block : ℕ)
  | raw (addr : BitVec 32)
  deriving DecidableEq

/-- `struct super_block` -/
structure SuperEntry where
  sNinodes : Word
  sNzones : Word
  sImapBlocks : Word
  sZmapBlocks : Word
  sFirstdatazone : Word
  sLogZoneSize : Word
  sMaxSize : BitVec 32
  sMagic : Word
  sImap : Fin 8 → BufferPtr
  sZmap : Fin 8 → BufferPtr
  sDev : Word
  sIsup : BitVec 32
  sImount : BitVec 32
  sTime : BitVec 32
  sRdOnly : Byte
  sDirt : Byte

/-- The table and the buffers of the device: their data, their counts, and the blocks that can be read. -/
structure Mounts where
  superBlock : Fin 8 → SuperEntry
  data : ℕ → Block
  count : ℕ → ℕ
  readable : ℕ → Bool

/-- `SUPER_MAGIC` -/
def superMagic : Word := 0x137F

def dwordAt (b : Block) (k : ℕ) : BitVec 32 := b.word (k + 1) ++ b.word k

/-- `*((struct super_block *) bh->b_data)`, with the fields that are meant for memory only. -/
def superOf (b : Block) : SuperEntry where
  sNinodes := b.word 0
  sNzones := b.word 1
  sImapBlocks := b.word 2
  sZmapBlocks := b.word 3
  sFirstdatazone := b.word 4
  sLogZoneSize := b.word 5
  sMaxSize := dwordAt b 6
  sMagic := b.word 8
  sImap i := .raw (dwordAt b (10 + 2 * i.val))
  sZmap i := .raw (dwordAt b (26 + 2 * i.val))
  sDev := b.word 42
  sIsup := dwordAt b 44
  sImount := dwordAt b 46
  sTime := dwordAt b 48
  sRdOnly := b.byte 100
  sDirt := b.byte 101

/-- The fields that `do_mount` sets when it has everything. -/
def SuperEntry.filled (e : SuperEntry) (imap zmap : Fin 8 → BufferPtr) (dev : Word) : SuperEntry :=
  { e with
    sImap := imap, sZmap := zmap, sDev := dev, sIsup := 0, sImount := 0, sTime := 0, sRdOnly := 0, sDirt := 0 }

namespace Mounts

def setEntry (s : Mounts) (p : Fin 8) (e : SuperEntry) : Mounts :=
  { s with superBlock := Function.update s.superBlock p e }

def bread (s : Mounts) (block : ℕ) : BufferPtr × Mounts :=
  if s.readable block then (.buffer block, { s with count := Function.update s.count block (s.count block + 1) })
  else (.null, s)

def brelse (s : Mounts) : BufferPtr → Except Fault Mounts
  | .null => .ok s
  | .buffer block =>
    if s.count block = 0 then .error .panic
    else .ok { s with count := Function.update s.count block (s.count block - 1) }
  | .raw _ => .error .badPointer

/-- One of the two loops that read a map, with `n` blocks to come; with the map it gives the next `block`. -/
def loadMap : ℕ → ℕ → ℕ → (Fin 8 → BufferPtr) → Mounts → Except Fault (ℕ × (Fin 8 → BufferPtr) × Mounts)
  | 0, _, block, map, s => .ok (block, map, s)
  | n + 1, i, block, map, s =>
    if hi : i < 8 then
      match s.bread block with
      | (.null, s) => .ok (block, Function.update map ⟨i, hi⟩ .null, s)
      | (bh, s) => loadMap n (i + 1) (block + 1) (Function.update map ⟨i, hi⟩ bh) s
    else .error .overrun

/-- `for(i=0;i<I_MAP_SLOTS;i++) brelse(p->s_imap[i]);` with `n` slots to come. -/
def releaseMap (map : Fin 8 → BufferPtr) : ℕ → ℕ → Mounts → Except Fault Mounts
  | 0, _, s => .ok s
  | n + 1, i, s =>
    if hi : i < 8 then do
      let s ← s.brelse (map ⟨i, hi⟩)
      releaseMap map n (i + 1) s
    else .error .overrun

/-- `p->s_imap[0]->b_data[0] |= 1;` -/
def markFirst (s : Mounts) : BufferPtr → Except Fault Mounts
  | .buffer block =>
    .ok { s with data := Function.update s.data block ((s.data block).setByte 0 ((s.data block).byte 0 ||| 1)) }
  | .null => .error .badPointer
  | .raw _ => .error .badPointer

/-- `do_mount` once block 1 has been copied into the entry `p`, with its magic number right. -/
def loadMaps (s : Mounts) (dev : Word) (p : Fin 8) (e : SuperEntry) : Except Fault (Option (Fin 8) × Mounts) := do
  let (block, imap, s) ← loadMap e.sImapBlocks.toNat 0 2 (fun _ => .null) s
  let (block, zmap, s) ← loadMap e.sZmapBlocks.toNat 0 block (fun _ => .null) s
  if block ≠ 2 + e.sImapBlocks.toNat + e.sZmapBlocks.toNat then
    let s ← releaseMap imap 8 0 s
    let s ← releaseMap zmap 8 0 s
    return (none, s.setEntry p { e with sImap := imap, sZmap := zmap, sDev := 0 })
  let s ← s.markFirst (imap 0)
  let s ← s.markFirst (zmap 0)
  return (some p, s.setEntry p (e.filled imap zmap dev))

/-- The search for a free entry. -/
def freeEntry (s : Mounts) : Option (Fin 8) := (List.finRange 8).find? fun p => (s.superBlock p).sDev = 0

def doMount (s : Mounts) (dev : Word) : Except Fault (Option (Fin 8) × Mounts) :=
  match s.freeEntry with
  -- `p->s_dev = -1;` comes before the test whether `p` is an entry
  | none => .error .overrun
  | some p =>
    let s := s.setEntry p { s.superBlock p with sDev := -1 }
    match s.bread 1 with
    | (.null, s) => .ok (none, s)
    | (bh, s) => do
      let e := superOf (s.data 1)
      let s ← (s.setEntry p e).brelse bh
      if e.sMagic ≠ superMagic then return (none, s.setEntry p { e with sDev := 0 })
      s.loadMaps dev p e

/-- The entries in use before or after are the same. -/
def SameInUse (s s' : Mounts) : Prop :=
  ∀ q, (s.superBlock q).sDev ≠ 0 ∨ (s'.superBlock q).sDev ≠ 0 → s'.superBlock q = s.superBlock q

/-- The first `n` slots have the buffers of the blocks from `start` on, the others nothing. -/
def Loaded (map : Fin 8 → BufferPtr) (start n : ℕ) : Prop :=
  n ≤ 8 ∧ ∀ i : Fin 8, map i = if i.val < n then .buffer (start + i.val) else .null

/-- `p` is the entry of the device now, with its maps. -/
structure Mapped (s s' : Mounts) (dev : Word) (p : Fin 8) : Prop where
  others : ∀ q, q ≠ p → s'.superBlock q = s.superBlock q
  sDev : (s'.superBlock p).sDev = dev
  imap : Loaded (s'.superBlock p).sImap 2 (s'.superBlock p).sImapBlocks.toNat
  zmap : Loaded (s'.superBlock p).sZmap (2 + (s'.superBlock p).sImapBlocks.toNat) (s'.superBlock p).sZmapBlocks.toNat
  held : ∀ i : Fin 8, ∀ block, (s'.superBlock p).sImap i = .buffer block ∨ (s'.superBlock p).sZmap i = .buffer block →
    0 < s'.count block

/-- An entry that was free is the entry of the device now. -/
structure Mounted (s s' : Mounts) (dev : Word) (p : Fin 8) : Prop extends Mapped s s' dev p where
  free : (s.superBlock p).sDev = 0

/-- `do_mount` comes back, without a write outside the arrays, and has mounted the device or changed nothing. -/
def Harmless (s : Mounts) (dev : Word) : Prop :=
  (∃ p s', s.doMount dev = .ok (some p, s') ∧ Mounted s s' dev p) ∨
    ∃ s', s.doMount dev = .ok (none, s') ∧ SameInUse s s' ∧ s'.count = s.count

/-- One of the blocks of the maps cannot be read and the loops come to it before they leave the slots, or each map has
one block at least and eight at most. -/
def MapsFit (readable : ℕ → Bool) (imapBlocks zmapBlocks : ℕ) : Prop :=
  (∃ i, i < 8 ∧ i < imapBlocks ∧ readable (2 + i) = false) ∨
    (imapBlocks ≤ 8 ∧ ∃ i, i < 8 ∧ i < zmapBlocks ∧ readable (2 + imapBlocks + i) = false) ∨
    (1 ≤ imapBlocks ∧ imapBlocks ≤ 8 ∧ 1 ≤ zmapBlocks ∧ zmapBlocks ≤ 8)

/-- A free entry, a super-block that can be read, and maps that fit if its magic number is right. -/
def Mountable (s : Mounts) : Prop :=
  (∃ p, (s.superBlock p).sDev = 0) ∧ s.readable 1 = true ∧
    ((superOf (s.data 1)).sMagic = superMagic →
      MapsFit s.readable (superOf (s.data 1)).sImapBlocks.toNat (superOf (s.data 1)).sZmapBlocks.toNat)

/-- `n` buffers from `start` on have another user. -/
def hold (s : Mounts) (start n : ℕ) : Mounts :=
  { s with count := fun k => s.count k + if start ≤ k ∧ k < start + n then 1 else 0 }

def slots (start n : ℕ) (i : Fin 8) : BufferPtr := if i.val < n then .buffer (start + i.val) else .null

/-- The loop that is to read `n` blocks from `start` on into `room` slots reads `r`, since it has them all or the next one
cannot be read. -/
structure Loads (readable : ℕ → Bool) (room start n r : ℕ) : Prop where
  fits : r ≤ room
  le : r ≤ n
  all : ∀ k, k < r → readable (start + k) = true
  stops : r = n ∨ r < room ∧ r < n ∧ readable (start + r) = false

section Maps

variable {s : Mounts} {start n i r block : ℕ}

@[simp] lemma hold_zero (s : Mounts) (start : ℕ) : s.hold start 0 = s := by
  have hcount : (fun k => s.count k + if start ≤ k ∧ k < start + 0 then 1 else 0) = s.count := by
    funext k
    rw [if_neg (by omega), Nat.add_zero]
  rw [hold, hcount]

lemma hold_succ (s : Mounts) (start n : ℕ) : (s.hold start 1).hold (start + 1) n = s.hold start (n + 1) := by
  simp only [hold, Mounts.mk.injEq, true_and, and_true]
  funext k
  split_ifs <;> omega

lemma bread_eq (s : Mounts) (block : ℕ) :
    s.bread block = if s.readable block then (.buffer block, s.hold block 1) else (.null, s) := by
  have hcount : Function.update s.count block (s.count block + 1) =
      fun k => s.count k + if block ≤ k ∧ k < block + 1 then 1 else 0 := by
    funext k
    rw [Function.update_apply]
    split_ifs <;> first | omega | simp_all
  rw [bread, hcount]
  rfl

lemma brelse_hold (s : Mounts) (block n : ℕ) :
    (s.hold block (n + 1)).brelse (.buffer block) = .ok (s.hold (block + 1) n) := by
  have hself : (s.hold block (n + 1)).count block = s.count block + 1 := by
    rw [hold]
    exact congrArg (s.count block + ·) (if_pos (by omega))
  have hcount : Function.update (s.hold block (n + 1)).count block (s.count block) =
      fun k => s.count k + if block + 1 ≤ k ∧ k < block + 1 + n then 1 else 0 := by
    funext k
    rw [Function.update_apply, hold]
    dsimp only
    split_ifs with hk <;> first | omega | simp_all
  rw [brelse, hself, if_neg (by omega), Nat.add_sub_cancel, hcount]
  rfl

lemma update_slots (start : ℕ) (hi : i < 8) :
    Function.update (slots start i) ⟨i, hi⟩ (.buffer (start + i)) = slots start (i + 1) := by
  funext k
  rw [Function.update_apply]
  simp only [slots, Fin.ext_iff]
  split_ifs <;> first | omega | simp_all

lemma update_slots_null (start : ℕ) (hi : i < 8) :
    Function.update (slots start i) ⟨i, hi⟩ .null = slots start i := by
  funext k
  rw [Function.update_apply]
  simp only [slots, Fin.ext_iff]
  split_ifs <;> first | omega | simp_all

/-- The loop from slot `i` on reads what it can, or goes on behind the last slot. -/
lemma loadMap_spec (n i : ℕ) (s : Mounts) (start : ℕ) :
    (∃ r, Loads s.readable (8 - i) (start + i) n r ∧
      loadMap n i (start + i) (slots start i) s = .ok (start + (i + r), slots start (i + r), s.hold (start + i) r)) ∨
    (8 < i + n ∧ (∀ k, i + k < 8 → s.readable (start + i + k) = true) ∧
      loadMap n i (start + i) (slots start i) s = .error .overrun) := by
  induction n generalizing i s with
  | zero =>
    left
    refine ⟨0, ⟨Nat.zero_le _, le_refl _, by simp, Or.inl rfl⟩, ?_⟩
    rw [hold_zero]
    rfl
  | succ n ih =>
    by_cases hi : i < 8
    · cases hread : s.readable (start + i) with
      | false =>
        left
        refine ⟨0, ⟨Nat.zero_le _, Nat.zero_le _, by simp, Or.inr ⟨by omega, by omega, hread⟩⟩, ?_⟩
        rw [loadMap, dif_pos hi, bread_eq, hread, hold_zero]
        simp only [Bool.false_eq_true, if_false, update_slots_null, Nat.add_zero]
      | true =>
        have hstep : loadMap (n + 1) i (start + i) (slots start i) s =
            loadMap n (i + 1) (start + (i + 1)) (slots start (i + 1)) (s.hold (start + i) 1) := by
          rw [loadMap, dif_pos hi, bread_eq, hread]
          simp only [if_true, update_slots]
          rfl
        rw [hstep]
        have hbehind : ∀ k, (s.hold (start + i) 1).readable (start + (i + 1) + k) = s.readable (start + i + (k + 1)) := by
          intro k
          rw [hold]
          exact congrArg s.readable (by omega)
        rcases ih (i + 1) (s.hold (start + i) 1) with ⟨r, hloads, hrun⟩ | ⟨hn, hall, hrun⟩
        · left
          have hfits := hloads.fits
          refine ⟨r + 1, ⟨by omega, Nat.succ_le_succ hloads.le, ?_, ?_⟩, ?_⟩
          · intro k hk
            cases k with
            | zero => exact hread
            | succ k =>
              rw [← hbehind]
              exact hloads.all k (by omega)
          · rcases hloads.stops with rfl | ⟨hroom, hr, hstop⟩
            · exact Or.inl rfl
            · rw [hbehind] at hstop
              exact Or.inr ⟨by omega, by omega, hstop⟩
          · rw [hrun, ← Nat.add_assoc start i 1, hold_succ, Nat.add_right_comm i 1 r]
            rfl
        · right
          refine ⟨by omega, ?_, hrun⟩
          intro k hk
          cases k with
          | zero => exact hread
          | succ k =>
            rw [← hbehind]
            exact hall k (by omega)
    · right
      refine ⟨by omega, fun k hk => absurd hk (by omega), ?_⟩
      rw [loadMap, dif_neg hi]

/-- What has been read is given back. -/
lemma releaseMap_hold (n i m : ℕ) (s : Mounts) (start : ℕ) (hn : i + n ≤ 8) (hm : m ≤ i + n) :
    releaseMap (slots start m) n i (s.hold (start + i) (m - i)) = .ok s := by
  induction n generalizing i with
  | zero =>
    rw [Nat.sub_eq_zero_of_le (show m ≤ i from hm), hold_zero]
    rfl
  | succ n ih =>
    have hrest := ih (i + 1) (by omega) (by omega)
    rw [releaseMap, dif_pos (by omega)]
    by_cases hi : i < m
    · have hslot : slots start m ⟨i, by omega⟩ = .buffer (start + i) := if_pos hi
      have hleft : m - i = m - (i + 1) + 1 := by omega
      rw [hslot, hleft, brelse_hold]
      exact hrest
    · have hslot : slots start m ⟨i, by omega⟩ = .null := if_neg hi
      have hleft : m - i = m - (i + 1) := by omega
      rw [Nat.sub_eq_zero_of_le (by omega), hold_zero] at hrest
      rw [hslot, hleft, Nat.sub_eq_zero_of_le (by omega), hold_zero]
      exact hrest

lemma loaded_slots (start : ℕ) (hn : n ≤ 8) : Loaded (slots start n) start n := ⟨hn, fun _ => rfl⟩

/-- All of a map, or a run that stops at a block that cannot be read. -/
lemma loadMap_eq (n : ℕ) (s : Mounts) (start : ℕ) :
    (∃ r, Loads s.readable 8 start n r ∧ loadMap n 0 start (fun _ => .null) s = .ok (start + r, slots start r, s.hold start r)) ∨
    (8 < n ∧ (∀ k, k < 8 → s.readable (start + k) = true) ∧ loadMap n 0 start (fun _ => .null) s = .error .overrun) := by
  have hnone : slots start 0 = fun _ => .null := rfl
  rcases loadMap_spec n 0 s start with ⟨r, hloads, hrun⟩ | ⟨hn, hall, hrun⟩
  · left
    rw [Nat.zero_add] at hrun
    exact ⟨r, hloads, hrun⟩
  · right
    simp only [Nat.zero_add, Nat.add_zero] at hn hall hrun
    exact ⟨hn, hall, hrun⟩

lemma hold_comm (s : Mounts) (start n start' n' : ℕ) :
    (s.hold start n).hold start' n' = (s.hold start' n').hold start n := by
  simp only [hold, Nat.add_right_comm]

lemma releaseMap_all (s : Mounts) (start : ℕ) (hr : r ≤ 8) : releaseMap (slots start r) 8 0 (s.hold start r) = .ok s :=
  releaseMap_hold 8 0 r s start (by omega) (by omega)

end Maps

section Calls

variable {s s' : Mounts} {dev : Word} {p : Fin 8} {e : SuperEntry} {r₁ r₂ : ℕ}

/-- `loadMaps` once the loops have read `r₁` and `r₂` blocks. -/
lemma loadMaps_read
    (h₁ : loadMap e.sImapBlocks.toNat 0 2 (fun _ => .null) s = .ok (2 + r₁, slots 2 r₁, s.hold 2 r₁))
    (h₂ : loadMap e.sZmapBlocks.toNat 0 (2 + r₁) (fun _ => .null) (s.hold 2 r₁) =
      .ok (2 + r₁ + r₂, slots (2 + r₁) r₂, (s.hold 2 r₁).hold (2 + r₁) r₂)) :
    s.loadMaps dev p e =
      if 2 + r₁ + r₂ ≠ 2 + e.sImapBlocks.toNat + e.sZmapBlocks.toNat then do
        let s ← releaseMap (slots 2 r₁) 8 0 ((s.hold 2 r₁).hold (2 + r₁) r₂)
        let s ← releaseMap (slots (2 + r₁) r₂) 8 0 s
        return (none, s.setEntry p { e with sImap := slots 2 r₁, sZmap := slots (2 + r₁) r₂, sDev := 0 })
      else do
        let s ← ((s.hold 2 r₁).hold (2 + r₁) r₂).markFirst (slots 2 r₁ 0)
        let s ← s.markFirst (slots (2 + r₁) r₂ 0)
        return (some p, s.setEntry p (e.filled (slots 2 r₁) (slots (2 + r₁) r₂) dev)) := by
  rw [loadMaps, h₁]
  simp only [bind, Except.bind, h₂]

/-- A block of the maps cannot be read: the entry is free again. -/
lemma loadMaps_stops
    (h₁ : loadMap e.sImapBlocks.toNat 0 2 (fun _ => .null) s = .ok (2 + r₁, slots 2 r₁, s.hold 2 r₁))
    (h₂ : loadMap e.sZmapBlocks.toNat 0 (2 + r₁) (fun _ => .null) (s.hold 2 r₁) =
      .ok (2 + r₁ + r₂, slots (2 + r₁) r₂, (s.hold 2 r₁).hold (2 + r₁) r₂))
    (hr₁ : r₁ ≤ 8) (hr₂ : r₂ ≤ 8) (hstop : r₁ + r₂ ≠ e.sImapBlocks.toNat + e.sZmapBlocks.toNat) :
    ∃ e', e'.sDev = 0 ∧ s.loadMaps dev p e = .ok (none, s.setEntry p e') := by
  refine ⟨{ e with sImap := slots 2 r₁, sZmap := slots (2 + r₁) r₂, sDev := 0 }, rfl, ?_⟩
  rw [loadMaps_read h₁ h₂, if_pos (by omega), hold_comm, releaseMap_all _ _ hr₁]
  simp only [bind, Except.bind, releaseMap_all _ _ hr₂]
  rfl

lemma slots_block {start n block : ℕ} {i : Fin 8} (h : slots start n i = .buffer block) :
    start ≤ block ∧ block < start + n := by
  rw [slots] at h
  split_ifs at h with hi
  obtain rfl := BufferPtr.buffer.inj h
  omega

lemma mapped_slots (hr₁ : r₁ ≤ 8) (hr₂ : r₂ ≤ 8) (ha : r₁ = e.sImapBlocks.toNat) (hb : r₂ = e.sZmapBlocks.toNat)
    (hentry : s'.superBlock = Function.update s.superBlock p (e.filled (slots 2 r₁) (slots (2 + r₁) r₂) dev))
    (hcount : s'.count = ((s.hold 2 r₁).hold (2 + r₁) r₂).count) : Mapped s s' dev p := by
  have hself : s'.superBlock p = e.filled (slots 2 r₁) (slots (2 + r₁) r₂) dev := by
    rw [hentry, Function.update_self]
  refine ⟨?_, ?_, ?_, ?_, ?_⟩
  · intro q hq
    rw [hentry, Function.update_of_ne hq]
  · rw [hself]
    rfl
  · have hloaded := loaded_slots 2 hr₁
    rw [hself]
    subst ha
    exact hloaded
  · have hloaded := loaded_slots (2 + r₁) hr₂
    rw [hself]
    subst ha hb
    exact hloaded
  · intro i block h
    rw [hself] at h
    rw [hcount]
    simp only [hold]
    rcases h with h | h
    · have hblock : 2 ≤ block ∧ block < 2 + r₁ := slots_block h
      rw [if_pos hblock]
      omega
    · have hblock : 2 + r₁ ≤ block ∧ block < 2 + r₁ + r₂ := slots_block h
      rw [if_pos hblock]
      omega

/-- The maps are there. -/
lemma loadMaps_loaded
    (h₁ : loadMap e.sImapBlocks.toNat 0 2 (fun _ => .null) s = .ok (2 + r₁, slots 2 r₁, s.hold 2 r₁))
    (h₂ : loadMap e.sZmapBlocks.toNat 0 (2 + r₁) (fun _ => .null) (s.hold 2 r₁) =
      .ok (2 + r₁ + r₂, slots (2 + r₁) r₂, (s.hold 2 r₁).hold (2 + r₁) r₂))
    (hr₁ : r₁ ≤ 8) (hr₂ : r₂ ≤ 8) (ha : r₁ = e.sImapBlocks.toNat) (hb : r₂ = e.sZmapBlocks.toNat) (hpos₁ : 0 < r₁)
    (hpos₂ : 0 < r₂) : ∃ s', s.loadMaps dev p e = .ok (some p, s') ∧ Mapped s s' dev p := by
  have hfirst : slots 2 r₁ 0 = .buffer (2 + 0) := if_pos hpos₁
  have hsecond : slots (2 + r₁) r₂ 0 = .buffer (2 + r₁ + 0) := if_pos hpos₂
  obtain ⟨s', hrun, hentry, hcount⟩ : ∃ s', s.loadMaps dev p e = .ok (some p, s') ∧
      s'.superBlock = Function.update s.superBlock p (e.filled (slots 2 r₁) (slots (2 + r₁) r₂) dev) ∧
        s'.count = ((s.hold 2 r₁).hold (2 + r₁) r₂).count := by
    rw [loadMaps_read h₁ h₂, if_neg (not_not.mpr (by omega)), hfirst, hsecond]
    exact ⟨_, rfl, rfl, rfl⟩
  exact ⟨s', hrun, mapped_slots hr₁ hr₂ ha hb hentry hcount⟩

/-- A map without blocks has no first buffer. -/
lemma loadMaps_empty
    (h₁ : loadMap e.sImapBlocks.toNat 0 2 (fun _ => .null) s = .ok (2 + r₁, slots 2 r₁, s.hold 2 r₁))
    (h₂ : loadMap e.sZmapBlocks.toNat 0 (2 + r₁) (fun _ => .null) (s.hold 2 r₁) =
      .ok (2 + r₁ + r₂, slots (2 + r₁) r₂, (s.hold 2 r₁).hold (2 + r₁) r₂))
    (hall : r₁ + r₂ = e.sImapBlocks.toNat + e.sZmapBlocks.toNat) (hnone : r₁ = 0 ∨ r₂ = 0) :
    s.loadMaps dev p e = .error .badPointer := by
  rw [loadMaps_read h₁ h₂, if_neg (not_not.mpr (by omega))]
  by_cases hr₁ : 0 < r₁
  · have hfirst : slots 2 r₁ 0 = .buffer (2 + 0) := if_pos hr₁
    have hsecond : slots (2 + r₁) r₂ 0 = .null := if_neg (show ¬0 < r₂ by omega)
    rw [hfirst, hsecond]
    rfl
  · have hfirst : slots 2 r₁ 0 = .null := if_neg hr₁
    rw [hfirst]
    rfl

lemma Loads.mapsFit {readable : ℕ → Bool} {a b : ℕ} (h₁ : Loads readable 8 2 a r₁) (h₂ : Loads readable 8 (2 + r₁) b r₂) :
    MapsFit readable a b ↔ r₁ + r₂ ≠ a + b ∨ 0 < r₁ ∧ 0 < r₂ := by
  have hle₁ := h₁.le
  have hle₂ := h₂.le
  have hfits₁ := h₁.fits
  have hfits₂ := h₂.fits
  constructor
  · intro h
    by_contra hnone
    have ha : r₁ = a := by omega
    have hb : r₂ = b := by omega
    subst ha hb
    rcases h with ⟨i, _, hi, hread⟩ | ⟨_, i, _, hi, hread⟩ | h
    · rw [h₁.all i hi] at hread
      cases hread
    · rw [h₂.all i hi] at hread
      cases hread
    · omega
  · intro h
    rcases h₁.stops with rfl | ⟨hroom, hlt, hread⟩
    · rcases h₂.stops with rfl | ⟨hroom, hlt, hread⟩
      · exact Or.inr (Or.inr (by omega))
      · exact Or.inr (Or.inl ⟨hfits₁, r₂, hroom, hlt, hread⟩)
    · exact Or.inl ⟨r₁, hroom, hlt, hread⟩

/-- The maps fit if and only if `loadMaps` comes back, with the entry free again or with both maps. -/
lemma loadMaps_cases (s : Mounts) (dev : Word) (p : Fin 8) (e : SuperEntry) :
    MapsFit s.readable e.sImapBlocks.toNat e.sZmapBlocks.toNat ∧
      ((∃ e', e'.sDev = 0 ∧ s.loadMaps dev p e = .ok (none, s.setEntry p e')) ∨
        ∃ s', s.loadMaps dev p e = .ok (some p, s') ∧ Mapped s s' dev p) ∨
    ¬MapsFit s.readable e.sImapBlocks.toNat e.sZmapBlocks.toNat ∧ ∃ fault, s.loadMaps dev p e = .error fault := by
  rcases loadMap_eq e.sImapBlocks.toNat s 2 with ⟨r₁, hloads₁, h₁⟩ | ⟨hlarge, hall, h₁⟩
  · rcases loadMap_eq e.sZmapBlocks.toNat (s.hold 2 r₁) (2 + r₁) with ⟨r₂, hloads₂, h₂⟩ | ⟨hlarge, hall, h₂⟩
    · have hfit := hloads₁.mapsFit hloads₂
      by_cases hstop : r₁ + r₂ = e.sImapBlocks.toNat + e.sZmapBlocks.toNat
      · by_cases hpos : 0 < r₁ ∧ 0 < r₂
        · left
          have hle₁ := hloads₁.le
          have hle₂ := hloads₂.le
          exact ⟨hfit.mpr (Or.inr hpos), Or.inr
            (loadMaps_loaded h₁ h₂ hloads₁.fits hloads₂.fits (by omega) (by omega) hpos.1 hpos.2)⟩
        · right
          exact ⟨fun h => (hfit.mp h).elim (fun hne => hne hstop) hpos, _, loadMaps_empty h₁ h₂ hstop (by omega)⟩
      · left
        exact ⟨hfit.mpr (Or.inl hstop), Or.inl (loadMaps_stops h₁ h₂ hloads₁.fits hloads₂.fits hstop)⟩
    · right
      have hread : s.readable (2 + r₁) = true := hall 0 (by omega)
      obtain rfl : r₁ = e.sImapBlocks.toNat := by
        rcases hloads₁.stops with heq | ⟨_, _, hstop⟩
        · exact heq
        · rw [hread] at hstop
          cases hstop
      refine ⟨?_, .overrun, ?_⟩
      · rintro (⟨i, _, hi, hread⟩ | ⟨_, i, hi, _, hread⟩ | h)
        · rw [hloads₁.all i hi] at hread
          cases hread
        · have hread' := hall i hi
          rw [show (s.hold 2 e.sImapBlocks.toNat).readable = s.readable from rfl, hread] at hread'
          cases hread'
        · omega
      · rw [loadMaps, h₁]
        simp only [bind, Except.bind, h₂]
  · right
    refine ⟨?_, .overrun, ?_⟩
    · rintro (⟨i, hi, _, hread⟩ | ⟨hsmall, _⟩ | h)
      · rw [hall i hi] at hread
        cases hread
      · omega
      · omega
    · rw [loadMaps, h₁]
      rfl

lemma freeEntry_some (h : s.freeEntry = some p) : (s.superBlock p).sDev = 0 := by
  have hfound := List.find?_some h
  simpa using hfound

lemma freeEntry_none (h : s.freeEntry = none) (p : Fin 8) : (s.superBlock p).sDev ≠ 0 := by
  have hall := List.find?_eq_none.mp h p (List.mem_finRange p)
  simpa using hall

lemma setEntry_setEntry (s : Mounts) (p : Fin 8) (e e' : SuperEntry) :
    (s.setEntry p e).setEntry p e' = s.setEntry p e' := by
  simp only [setEntry, Function.update_idem]

lemma sameInUse_setEntry (hp : (s.superBlock p).sDev = 0) : SameInUse s (s.setEntry p e) ↔ e.sDev = 0 := by
  have hself : (s.setEntry p e).superBlock p = e := Function.update_self ..
  constructor
  · intro h
    by_contra he
    have hsame := h p (Or.inr (by rwa [hself]))
    rw [hself] at hsame
    rw [hsame] at he
    exact he hp
  · intro he q hq
    by_cases hqp : q = p
    · subst hqp
      rw [hself, he, hp] at hq
      simp at hq
    · exact Function.update_of_ne hqp e s.superBlock

lemma doMount_free (h : s.freeEntry = some p) (dev : Word) :
    s.doMount dev =
      if s.readable 1 = true then
        if (superOf (s.data 1)).sMagic ≠ superMagic then .ok (none, s.setEntry p { superOf (s.data 1) with sDev := 0 })
        else (s.setEntry p (superOf (s.data 1))).loadMaps dev p (superOf (s.data 1))
      else .ok (none, s.setEntry p { s.superBlock p with sDev := -1 }) := by
  have hbrelse : ∀ e, (((s.setEntry p e).hold 1 1).setEntry p (superOf (s.data 1))).brelse (.buffer 1) =
      .ok (s.setEntry p (superOf (s.data 1))) := by
    intro e
    have hclaim : ((s.setEntry p e).hold 1 1).setEntry p (superOf (s.data 1)) =
        (s.setEntry p (superOf (s.data 1))).hold 1 (0 + 1) := by
      simp only [setEntry, hold, Function.update_idem, Nat.zero_add]
    rw [hclaim, brelse_hold, hold_zero]
  rw [doMount, h]
  dsimp only
  rw [bread_eq]
  by_cases hread : s.readable 1 = true
  · have hread' : (s.setEntry p { s.superBlock p with sDev := -1 }).readable 1 = true := hread
    have hdata : ((s.setEntry p { s.superBlock p with sDev := -1 }).hold 1 1).data 1 = s.data 1 := rfl
    rw [if_pos hread', if_pos hread]
    dsimp only
    rw [hdata, hbrelse]
    simp only [bind, Except.bind]
    split_ifs
    · rw [setEntry_setEntry]
      rfl
    · rfl
  · have hread' : ¬(s.setEntry p { s.superBlock p with sDev := -1 }).readable 1 = true := hread
    rw [if_neg hread', if_neg hread]

theorem harmless_iff (s : Mounts) (dev : Word) : Harmless s dev ↔ Mountable s := by
  cases hfree : s.freeEntry with
  | none =>
    refine iff_of_false ?_ ?_
    · rintro (⟨p, s', hrun, _⟩ | ⟨s', hrun, _⟩)
      · rw [doMount, hfree] at hrun
        cases hrun
      · rw [doMount, hfree] at hrun
        cases hrun
    · rintro ⟨⟨p, hp⟩, _⟩
      exact freeEntry_none hfree p hp
  | some p =>
    have hp := freeEntry_some hfree
    have hrun := doMount_free hfree dev
    by_cases hread : s.readable 1 = true
    · rw [if_pos hread] at hrun
      by_cases hmagic : (superOf (s.data 1)).sMagic = superMagic
      · rw [if_neg (not_not.mpr hmagic)] at hrun
        have hmount : Mountable s ↔
            MapsFit s.readable (superOf (s.data 1)).sImapBlocks.toNat (superOf (s.data 1)).sZmapBlocks.toNat :=
          ⟨fun h => h.2.2 hmagic, fun h => ⟨⟨p, hp⟩, hread, fun _ => h⟩⟩
        rw [hmount]
        rcases loadMaps_cases (s.setEntry p (superOf (s.data 1))) dev p (superOf (s.data 1)) with
          ⟨hfit, ⟨e', he', hmaps⟩ | ⟨s', hmaps, hmapped⟩⟩ | ⟨hfit, fault, hmaps⟩
        · rw [hmaps, setEntry_setEntry] at hrun
          exact iff_of_true (Or.inr ⟨_, hrun, (sameInUse_setEntry hp).mpr he', rfl⟩) hfit
        · rw [hmaps] at hrun
          refine iff_of_true (Or.inl ⟨p, s', hrun, ⟨?_, hmapped.sDev, hmapped.imap, hmapped.zmap, hmapped.held⟩, hp⟩) hfit
          exact fun q hq => (hmapped.others q hq).trans (Function.update_of_ne hq _ _)
        · rw [hmaps] at hrun
          refine iff_of_false ?_ hfit
          rintro (⟨p, s', hrun', _⟩ | ⟨s', hrun', _⟩)
          · rw [hrun] at hrun'
            cases hrun'
          · rw [hrun] at hrun'
            cases hrun'
      · rw [if_pos hmagic] at hrun
        exact iff_of_true (Or.inr ⟨_, hrun, (sameInUse_setEntry hp).mpr rfl, rfl⟩)
          ⟨⟨p, hp⟩, hread, fun h => absurd h hmagic⟩
    · rw [if_neg hread] at hrun
      refine iff_of_false ?_ fun h => hread h.2.1
      rintro (⟨p, s', hrun', _⟩ | ⟨s', hrun', hsame, _⟩)
      · rw [hrun] at hrun'
        cases hrun'
      · rw [hrun] at hrun'
        cases hrun'
        have hdev : (-1 : Word) = 0 := (sameInUse_setEntry hp).mp hsame
        revert hdev
        decide

/-- No device is mounted, and block 1 of this one cannot be read. -/
def unreadable : Mounts where
  superBlock _ := superOf Block.zero
  data _ := Block.zero
  count _ := 0
  readable _ := false

/-- The entry that was tried stays in use. -/
theorem unreadable_keeps_entry : ¬Harmless unreadable 0x301 := by
  have hfree : unreadable.freeEntry = some 0 := by decide
  have hrun := doMount_free hfree 0x301
  rw [if_neg (show ¬unreadable.readable 1 = true by decide)] at hrun
  rintro (⟨p, s', hrun', _⟩ | ⟨s', hrun', hsame, _⟩)
  · rw [hrun] at hrun'
    cases hrun'
  · rw [hrun] at hrun'
    cases hrun'
    have hdev : (-1 : Word) = 0 := (sameInUse_setEntry (freeEntry_some hfree)).mp hsame
    revert hdev
    decide

end Calls

end Mounts

end Devos.Fs
