import Devos.Fs.Volume

/-! In-memory inodes and the block map of `inode.c`. -/

namespace Devos.Fs

-- the number of zones of an inode
instance neZero_zones : NeZero 9 := ⟨by decide⟩

structure MInode where
  iMode : Word
  iSize : ℕ
  iZone : Fin 9 → Word
  iNum : Word

def MInode.zone (inode : MInode) (k : ℕ) : Word := inode.iZone (Fin.ofNat 9 k)

def MInode.setZone (inode : MInode) (k : ℕ) (z : Word) : MInode :=
  { inode with iZone := Function.update inode.iZone (Fin.ofNat 9 k) z }

def sIfmt : Word := 0o170000

def sIsDir (m : Word) : Bool := m &&& sIfmt = 0o040000

def sIsReg (m : Word) : Bool := m &&& sIfmt = 0o100000

lemma isDir_of_mode (mode perms : Word) :
    sIsDir (mode ||| perms &&& 0o777) = sIsDir mode := by
  have hmask : (0o777 : Word) &&& sIfmt = 0#16 := by decide
  rw [sIsDir, sIsDir, BitVec.and_or_distrib_right, BitVec.and_assoc, hmask, BitVec.and_zero, BitVec.or_zero]

lemma regular_not_dir {m : Word} (h : sIsReg m = true) : sIsDir m = false := by
  rw [sIsReg, decide_eq_true_eq] at h
  rw [sIsDir, h]
  decide

abbrev maxBlocks : ℕ := 7 + 512 + 512 * 512

-- `if (create && !inode->i_zone[k]) inode->i_zone[k] = new_block(dev);`
def createZone (create : Bool) (v : Volume) (inode : MInode) (k : ℕ) : Volume × MInode :=
  if create ∧ inode.zone k = 0 then (v.newBlock.2, inode.setZone k v.newBlock.1) else (v, inode)

def createEntry (create : Bool) (v : Volume) (holder : Word) (k : ℕ) : Word × Volume :=
  let i := (v.data holder).word k
  if create ∧ i = 0 then
    let (i, v) := v.newBlock
    if i ≠ 0 then (i, v.put holder ((v.data holder).setWord k i)) else (i, v)
  else (i, v)

-- `_bmap`
def bmapCreate (create : Bool) (v : Volume) (inode : MInode) (block : ℕ) :
    Except Fault (Word × Volume × MInode) :=
  if maxBlocks ≤ block then .error .panic
  else if block < 7 then
    let (v, inode) := createZone create v inode block
    .ok (inode.zone block, v, inode)
  else if block - 7 < 512 then
    let (v, inode) := createZone create v inode 7
    if inode.zone 7 = 0 ∨ ¬ v.readable (inode.zone 7) then .ok (0, v, inode)
    else
      let (i, v) := createEntry create v (inode.zone 7) (block - 7)
      .ok (i, v, inode)
  else
    let (v, inode) := createZone create v inode 8
    if inode.zone 8 = 0 ∨ ¬ v.readable (inode.zone 8) then .ok (0, v, inode)
    else
      let (i, v) := createEntry create v (inode.zone 8) ((block - 7 - 512) / 512)
      if i = 0 ∨ ¬ v.readable i then .ok (0, v, inode)
      else
        let (i, v) := createEntry create v i ((block - 7 - 512) % 512)
        .ok (i, v, inode)

def bmap (v : Volume) (inode : MInode) (block : ℕ) : Except Fault Word :=
  (bmapCreate false v inode block).map Prod.fst

def createBlock (v : Volume) (inode : MInode) (block : ℕ) : Except Fault (Word × Volume × MInode) :=
  bmapCreate true v inode block

end Devos.Fs
