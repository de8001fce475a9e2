import Devos.Basic

/-! The root device through the buffer cache, and the allocation of its blocks. -/

namespace Devos

def Block.word (b : Block) (k : ℕ) : Word :=
  BitVec.ofNat 16 ((b.byte (2 * k)).toNat + 256 * (b.byte (2 * k + 1)).toNat)

def Block.setWord (b : Block) (k : ℕ) (w : Word) : Block :=
  (b.setByte (2 * k) (BitVec.ofNat 8 w.toNat)).setByte (2 * k + 1) (BitVec.ofNat 8 (w.toNat / 256))

lemma Block.word_zero (k : ℕ) : Block.zero.word k = 0 := rfl

lemma Block.word_setWord (b : Block) (w : Word) {k l : ℕ} (hk : k < 512) (hl : l < 512) :
    (b.setWord k w).word l = if l = k then w else b.word l := by
  have hsize : blockSize = 1024 := rfl
  simp only [Block.word, Block.setWord]
  rw [Block.byte_setByte _ _ (by omega) (by omega), Block.byte_setByte _ _ (by omega) (by omega),
    Block.byte_setByte _ _ (by omega) (by omega), Block.byte_setByte _ _ (by omega) (by omega)]
  by_cases hlk : l = k
  · subst hlk
    rw [if_neg (by omega), if_pos rfl, if_pos rfl, if_pos rfl]
    apply BitVec.eq_of_toNat_eq
    have := w.isLt
    simp only [BitVec.toNat_ofNat]
    omega
  · rw [if_neg (by omega), if_neg (by omega), if_neg (by omega), if_neg (by omega), if_neg hlk]

namespace Fs

/-- `data` and `readable` are what `bread` finds; bit `j` of the zone map stands for block
`j + firstDataZone - 1`. -/
structure Volume where
  data : Word → Block
  readable : Word → Bool
  zmap : ℕ → Bool
  zmapBits : ℕ
  firstDataZone : ℕ
  nZones : ℕ

namespace Volume

def bread (v : Volume) (block : Word) : Option Block :=
  if v.readable block then some (v.data block) else none

def put (v : Volume) (block : Word) (b : Block) : Volume :=
  { v with data := Function.update v.data block b }

@[simp] lemma put_data_self (v : Volume) (z : Word) (b : Block) : (v.put z b).data z = b :=
  Function.update_self _ _ _

lemma put_data_of_ne (v : Volume) {z z' : Word} (b : Block) (h : z' ≠ z) :
    (v.put z b).data z' = v.data z' :=
  Function.update_of_ne h _ _

def findFirstZero (v : Volume) : Option ℕ := (List.range v.zmapBits).find? (fun j => !v.zmap j)

/-- `new_block`: 0 when no bit is free, or when the bit found lies behind the last zone. -/
def newBlock (v : Volume) : Word × Volume :=
  match v.findFirstZero with
  | none => (0, v)
  | some j =>
    let v := { v with zmap := Function.update v.zmap j true }
    if v.nZones ≤ j + v.firstDataZone - 1 then (0, v)
    else
      let block : Word := BitVec.ofNat 16 (j + v.firstDataZone - 1)
      (block, { v with
        data := Function.update v.data block Block.zero
        readable := Function.update v.readable block true })

end Volume

end Fs

end Devos
