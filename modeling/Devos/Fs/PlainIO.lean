import Devos.Fs.FileWrite
import Devos.Fs.Ownership

/-! `file_read` and `file_write` on a file whose blocks are plain. -/

namespace Devos.Fs

open Loops Security LinearProbing

def storedByte (v : Volume) (inode : MInode) (q : ℕ) : Byte :=
  (stored v inode (q / blockSize)).byte (q % blockSize)

section Reading

variable {keys : ℕ → KeyView} {table : HashTable} {scratch : ℕ → Block} {v : Volume} {inode : MInode}
  {fPos count : ℕ}

structure Copied (v : Volume) (inode : MInode) (fPos count : ℕ) (s : Reading) (done : ℕ) : Prop where
  fPos_eq : s.fPos = fPos + done
  left_eq : done + s.left = count
  out_eq : s.out = (List.range done).map fun j => storedByte v inode (fPos + j)

lemma copied_step {s : Reading} {done : ℕ} (hs : Copied v inode fPos count s done) (hleft : s.left ≠ 0)
    {p : ℕ → Byte} (hp : ∀ k, k < readChunk s → p k = storedByte v inode (s.fPos + k)) :
    Copied v inode fPos count (s.take p) (done + readChunk s) ∧ 0 < readChunk s := by
  have hpos := hs.fPos_eq
  have hsum := hs.left_eq
  have hchunk : readChunk s = min (1024 - s.fPos % 1024) s.left := rfl
  refine ⟨⟨?_, ?_, ?_⟩, by omega⟩
  · change s.fPos + readChunk s = _
    omega
  · change done + readChunk s + (s.left - readChunk s) = _
    omega
  · change s.out ++ _ = _
    rw [hs.out_eq, List.range_add, List.map_append, List.map_map]
    congr 1
    apply List.map_congr_left
    intro k hk
    rw [hp k (List.mem_range.mp hk), hpos, Function.comp_apply, Nat.add_assoc]

end Reading

lemma createBlock_held {v v' : Volume} {inode inode' : MInode} {i : ℕ} {z : Word} (hh : Held v inode)
    (hc : Consistent v inode) (h : createBlock v inode i = .ok (z, v', inode')) : Held v' inode' := by
  obtain ⟨hg, _⟩ := createBlock_growth hc h
  exact (hg.extends hc).held hh (hg.keeps hc).consistent.distinct

section Writing

variable {keys : ℕ → KeyView} {table : HashTable} {scratchD scratchE : ℕ → Block} {v : Volume}
  {inode : MInode} {pos count : ℕ} {buf : ℕ → Byte} {s s' : Writing}

/-- What the loop of `file_write` has done when no key was involved. -/
structure Wrote (v : Volume) (inode : MInode) (pos count : ℕ) (buf : ℕ → Byte) (s : Writing) : Prop where
  written : HasWritten noKey (fun _ => Block.zero) (fun _ => Block.zero) v inode pos count buf s
  held : Held s.volume s.inode
  iMode : s.inode.iMode = inode.iMode
  iSize : s.inode.iSize = if s.i = 0 then inode.iSize else max inode.iSize s.pos

lemma Wrote.isEncr (hs : Wrote v inode pos count buf s) : s.isEncr = false := by
  rw [Bool.eq_false_iff]
  intro h
  obtain ⟨_, _, hk⟩ := hs.written.flag.mp h
  exact absurd hk (lt_irrefl 0)

lemma Wrote.keeps (hs : Wrote v inode pos count buf s) {z : Word} {v₁ : Volume} {inode₁ : MInode}
    (h : createBlock s.volume s.inode (s.pos / blockSize) = .ok (z, v₁, inode₁)) :
    Wrote v inode pos count buf { s with volume := v₁, inode := inode₁ } where
  written := hs.written.keeps (createBlock_spec hs.written.consistent h).1
  held := createBlock_held hs.held hs.written.consistent h
  iMode := (createBlock_iMode hs.written.consistent h).trans hs.iMode
  iSize := (createBlock_spec hs.written.consistent h).1.iSize.trans hs.iSize

end Writing

end Devos.Fs
