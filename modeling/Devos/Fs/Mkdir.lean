import Devos.Fs.Entries
import Devos.Fs.FileDev
import Devos.Fs.Ownership

/-! `sys_mkdir`, and what a call that fails leaves behind. -/

namespace Devos.Fs

open Loops

structure Disk extends Device where
  iNlinks : Word → Byte
  imap : ℕ → Bool
  imapBits : ℕ
  nInodes : ℕ

-- nobody else holds a block that has just been allocated
def nobody : Word → Bool := fun _ => false

namespace Disk

def setVolume (s : Disk) (v : Volume) : Disk := { s with volume := v }

def setImap (s : Disk) (num : Word) (b : Bool) : Disk :=
  { s with imap := Function.update s.imap num.toNat b }

def findFirstInode (s : Disk) : Option ℕ := (List.range s.imapBits).find? fun j => !s.imap j

def newInode (s : Disk) : Option (Word × Disk) :=
  match s.findFirstInode with
  | none => none
  | some j =>
    if s.nInodes < j then none
    else some (BitVec.ofNat 16 j, { s with imap := Function.update s.imap j true })

def freeInode (s : Disk) (num : Word) : Except Fault Disk :=
  if num.toNat < 1 ∨ s.nInodes < num.toNat then .error .panic
  else if s.imap num.toNat = false then .error .panic
  else .ok (s.setImap num false)

/-- `iput` of the only reference to an inode that has no links. -/
def iputUnlinked (s : Disk) (inode : MInode) : Except Fault Disk :=
  (truncate nobody s.volume inode).bind fun r => (s.setVolume r.1).freeInode inode.iNum

end Disk

-- `strcpy` copies the end of the string too
def dotEntries (num parent : Word) (b : Block) : Block :=
  let b := Block.setBytes (b.setWord 0 num) 2 [46] 2
  Block.setBytes (b.setWord 8 parent) 18 [46, 46] 3

/-- What the call finds besides the disk: the caller's rights, the directory and the name that
`dir_namei` gets from the path, and whether `bread` gets the block of the new directory. -/
structure MkdirCall where
  superUser : Bool
  dirNamei : Option (Word × List Byte)
  mayWrite : Bool
  mode : Word
  newReadable : Bool

def eperm : ℤ := 1
def enoent : ℤ := 2
def eexist : ℤ := 17
def enospc : ℤ := 28

def iDirectory : Word := 0o040000

namespace Disk

def newDirectory (c : MkdirCall) (num z : Word) : MInode :=
  { iMode := iDirectory ||| c.mode &&& 0o777, iSize := 32, iZone := firstZone z, iNum := num }

/-- The volume with the block of the new directory. -/
def withDots (s : Disk) (num d : Word) : Volume :=
  let v := s.volume.newBlock.2
  let z := s.volume.newBlock.1
  v.put z (dotEntries num (s.inodes d).iNum (v.data z))

def makeDirectory (c : MkdirCall) (s : Disk) (d : Word) (name : List Byte) : Except Fault (ℤ × Disk) :=
  match s.newInode with
  | none => .ok (-enospc, s)
  | some (num, s₁) =>
    let z := s.volume.newBlock.1
    let v := s.volume.newBlock.2
    let inode := { newDirectory c num z with iMode := 0 }
    if z = 0 then ((s₁.setVolume v).iputUnlinked inode).map fun s => (-enospc, s)
    else if ¬ c.newReadable then
      (freeBlock nobody v z).bind fun v => ((s₁.setVolume v).iputUnlinked inode).map fun s => (-error, s)
    else
      match addEntry (s.withDots num d) (s.inodes d) name with
      | .error f => .error f
      | .ok (none, v, dir) =>
        (freeBlock nobody v z).bind fun v =>
          (iputUnlinked { s₁ with volume := v, inodes := Function.update s.inodes d dir }
            (newDirectory c num z)).map fun s => (-enospc, s)
      | .ok (some p, _) =>
        .ok (0, { s₁ with
          volume := p.volume.put p.block ((p.volume.data p.block).setWord (8 * p.k) num)
          inodes := Function.update (Function.update s.inodes d p.dir) num (newDirectory c num z)
          iNlinks := Function.update (Function.update s.iNlinks d (s.iNlinks d + 1)) num 2 })

def sysMkdir (c : MkdirCall) (s : Disk) : Except Fault (ℤ × Disk) :=
  if c.superUser = false then .ok (-eperm, s)
  else
    match c.dirNamei with
    | none => .ok (-enoent, s)
    | some (d, name) =>
      if name = [] then .ok (-enoent, s)
      else if c.mayWrite = false then .ok (-eperm, s)
      else
        match findEntry s.volume (s.inodes d) name with
        | .error f => .error f
        | .ok (some _) => .ok (-eexist, s)
        | .ok none => makeDirectory c s d name

/-- Nothing has happened to the maps, the inodes, their links and the blocks in use. -/
structure Untouched (s s' : Disk) : Prop where
  zmap : s'.volume.zmap = s.volume.zmap
  imap : s'.imap = s.imap
  inodes : s'.inodes = s.inodes
  iNlinks : s'.iNlinks = s.iNlinks
  data : ∀ z, s.volume.firstDataZone ≤ z.toNat → s.volume.zmap (s.volume.bit z) = true →
    s'.volume.data z = s.volume.data z

def Harmless (c : MkdirCall) (s : Disk) : Prop :=
  ∃ r s', sysMkdir c s = .ok (r, s') ∧ (r = 0 ∨ r < 0 ∧ Untouched s s')

structure Sound (c : MkdirCall) (s : Disk) : Prop where
  owned : Owned s.toDevice
  imap_zero : s.imap 0 = true
  nInodes_lt : s.nInodes < 65536
  isDir : ∀ d name, c.dirNamei = some (d, name) → sIsDir (s.inodes d).iMode = true

/-- The call is answered before it takes an inode. -/
def Answered (c : MkdirCall) (s : Disk) : Prop :=
  c.superUser = false ∨ c.dirNamei = none ∨ ∃ d name, c.dirNamei = some (d, name) ∧
    (name = [] ∨ c.mayWrite = false ∨ ∃ p, findEntry s.volume (s.inodes d) name = .ok (some p))

/-- There is no zone for the new directory; or there is one, its block cannot be read or the parent
has room for the entry. -/
def ZoneFits (c : MkdirCall) (s : Disk) (num d : Word) : Prop :=
  s.volume.findFirstZero = none ∨ s.volume.newBlock.1 ≠ 0 ∧
    (c.newReadable = false ∨ EntryRoom (s.withDots num d) (s.inodes d))

def Fits (c : MkdirCall) (s : Disk) : Prop :=
  Answered c s ∨ ∃ d name, c.dirNamei = some (d, name) ∧
    findEntry s.volume (s.inodes d) name = .ok none ∧
      ∀ num s₁, s.newInode = some (num, s₁) → ZoneFits c s num d

end Disk

section Undoing

variable {c : MkdirCall} {s s₁ : Disk} {num d : Word} {name : List Byte}

lemma untouched_refl (s : Disk) : s.Untouched s := ⟨rfl, rfl, rfl, rfl, fun _ _ _ => rfl⟩

lemma newInode_eq (hs : s.Sound c) (h : s.newInode = some (num, s₁)) :
    1 ≤ num.toNat ∧ num.toNat ≤ s.nInodes ∧ s.imap num.toNat = false ∧
      s₁ = s.setImap num true := by
  rw [Disk.newInode] at h
  cases hf : s.findFirstInode with
  | none =>
    rw [hf] at h
    cases h
  | some j =>
    rw [hf] at h
    dsimp only at h
    split at h
    next => cases h
    next hj =>
      cases h
      have hfree : s.imap j = false := by
        have hbit := List.find?_some hf
        simpa using hbit
      have hlt := hs.nInodes_lt
      have hval : (BitVec.ofNat 16 j).toNat = j := by
        rw [BitVec.toNat_ofNat]
        omega
      have hpos : j ≠ 0 := by
        rintro rfl
        rw [hs.imap_zero] at hfree
        cases hfree
      rw [Disk.setImap, hval]
      exact ⟨Nat.pos_of_ne_zero hpos, not_lt.mp hj, hfree, rfl⟩

lemma freeInode_eq (hpos : 1 ≤ num.toNat) (hle : num.toNat ≤ s.nInodes) (hset : s.imap num.toNat = true) :
    s.freeInode num = .ok (s.setImap num false) := by
  have hin : ¬ (num.toNat < 1 ∨ s.nInodes < num.toNat) := by omega
  rw [Disk.freeInode, if_neg hin, if_neg (by rw [hset]; exact Bool.noConfusion)]

/-- Giving back the new inode while its mode is still 0 only undoes `new_inode`. -/
lemma iputUnlinked_new (hs : s.Sound c) (h : s.newInode = some (num, s₁)) (v : Volume) {inode : MInode}
    (hmode : inode.iMode = 0) (hnum : inode.iNum = num) :
    (s₁.setVolume v).iputUnlinked inode = .ok (s.setVolume v) := by
  obtain ⟨hpos, hle, hfree, rfl⟩ := newInode_eq hs h
  have hplain : ¬ (sIsReg inode.iMode = true ∨ sIsDir inode.iMode = true) := by
    rw [hmode]
    decide
  have hset : ((s.setImap num true).setVolume v).imap num.toNat = true := Function.update_self _ _ _
  have hfreed := freeInode_eq hpos (s := (s.setImap num true).setVolume v) hle hset
  rw [Disk.iputUnlinked, truncate, if_pos hplain, Except.bind, hnum]
  refine hfreed.trans ?_
  simp only [Disk.setVolume, Disk.setImap, Function.update_idem]
  rw [← hfree, Function.update_eq_self]

lemma newBlock_zero (h : s.volume.findFirstZero = none) : s.volume.newBlock = (0, s.volume) := by
  rw [Volume.newBlock, h]

lemma newBlock_marks {v : Volume} {j : ℕ} (h : v.findFirstZero = some j) :
    v.zmap j = false ∧ v.newBlock.2.zmap j = true := by
  have hbit := List.find?_some h
  refine ⟨by simpa using hbit, ?_⟩
  rw [Volume.newBlock, h]
  dsimp only
  split
  next => exact Function.update_self _ _ _
  next => exact Function.update_self _ _ _

lemma newBlock_zmap {v : Volume} {inode : MInode} (hc : Consistent v inode) (h₀ : v.newBlock.1 ≠ 0) :
    v.newBlock.2.zmap = Function.update v.zmap (v.bit v.newBlock.1) true := by
  have hpos := hc.firstDataZone_pos
  have hlast := hc.nZones_lt
  rw [Volume.newBlock] at h₀ ⊢
  cases hf : v.findFirstZero with
  | none =>
    rw [hf] at h₀
    exact absurd rfl h₀
  | some j =>
    rw [hf] at h₀
    dsimp only at h₀ ⊢
    split at h₀
    next => exact absurd rfl h₀
    next hlt =>
      have hbit : v.bit (BitVec.ofNat 16 (j + v.firstDataZone - 1)) = j := by
        rw [Volume.bit, BitVec.toNat_ofNat]
        omega
      rw [if_neg hlt, hbit]

/-- A block that is given back at once leaves nothing behind. -/
lemma freeBlock_new (hs : s.Sound c) (h₀ : s.volume.newBlock.1 ≠ 0) :
    ∃ v, freeBlock nobody s.volume.newBlock.2 s.volume.newBlock.1 = .ok v ∧ s.Untouched (s.setVolume v) := by
  have hc := hs.owned.consistent 0
  have ht : Taken s.volume s.volume.newBlock.1 s.volume.newBlock.2 :=
    (newBlock_cases hc).resolve_left fun h => h₀ h.1
  have hzmap := newBlock_zmap hc h₀
  have hbit : s.volume.newBlock.2.bit s.volume.newBlock.1 = s.volume.bit s.volume.newBlock.1 := by
    rw [Volume.bit, Volume.bit, ht.firstDataZone]
  have hused := ht.inUse hc h₀
  have hrange : ¬ (s.volume.newBlock.1.toNat < s.volume.newBlock.2.firstDataZone ∨
      s.volume.newBlock.2.nZones ≤ s.volume.newBlock.1.toNat) :=
    not_or.mpr ⟨not_lt.mpr hused.first, not_le.mpr hused.lt⟩
  have hset : ¬ s.volume.newBlock.2.zmap (s.volume.newBlock.2.bit s.volume.newBlock.1) = false := by
    rw [hused.set]
    exact Bool.noConfusion
  have hfree : ¬ nobody s.volume.newBlock.1 = true := Bool.noConfusion
  rw [freeBlock, if_neg hrange, if_neg hfree, if_neg (not_le.mpr hused.bit_lt), if_neg hset]
  refine ⟨_, rfl, ?_, rfl, rfl, rfl, ?_⟩
  · simp only [Disk.setVolume]
    rw [hbit, hzmap, Function.update_idem, ← ht.free_bit hc, Function.update_eq_self]
  · intro z _ hmarked
    exact ht.data_of_ne (ht.ne_of_marked hc hmarked)

lemma freeBlock_cleared {v : Volume} {z : Word} (hrange : ¬ (z.toNat < v.firstDataZone ∨ v.nZones ≤ z.toNat))
    (hbits : ¬ v.zmapBits ≤ v.bit z) (hclear : v.zmap (v.bit z) = false) :
    freeBlock nobody v z = .error .panic := by
  have hfree : ¬ nobody z = true := Bool.noConfusion
  rw [freeBlock, if_neg hrange, if_neg hfree, if_neg hbits, if_pos hclear]

lemma truncate_freed {v v' : Volume} {inode : MInode} {z : Word} (hf : freeBlock nobody v z = .ok v')
    (h₀ : z ≠ 0) (hmode : sIsDir inode.iMode = true) (hz : inode.zone 0 = z) :
    truncate nobody v' inode = .error .panic := by
  have htwice : freeBlock nobody v' z = .error .panic := by
    rw [freeBlock] at hf
    split at hf
    next => cases hf
    next hrange =>
      split_ifs at hf with hbusy hbits
      · exact absurd hbusy Bool.false_ne_true
      cases hf
      exact freeBlock_cleared hrange hbits (Function.update_self _ _ _)
  have hfirst : freeZone nobody 0 (v', inode) = .error .panic := by
    rw [freeZone]
    dsimp only
    rw [hz, if_neg h₀, htwice]
    rfl
  rw [truncate, if_neg (not_not.mpr (Or.inr hmode)), forLoopE_error hfirst 6]
  rfl

lemma newDirectory_isDir (c : MkdirCall) (num z : Word) :
    sIsDir (Disk.newDirectory c num z).iMode = true := by
  rw [Disk.newDirectory]
  exact isDir_of_mode iDirectory c.mode

end Undoing

section Mkdir

variable {c : MkdirCall} {s s₁ : Disk} {num d : Word} {name : List Byte}

lemma withDots_consistent (hs : s.Sound c) (hd : sIsDir (s.inodes d).iMode = true)
    (h₀ : s.volume.newBlock.1 ≠ 0) (num : Word) : Consistent (s.withDots num d) (s.inodes d) := by
  have hplain : (s.inodes d).blocks = s.inodes d := if_neg (not_special (Or.inr hd))
  have hc := hs.owned.consistent d
  rw [hplain] at hc
  have ht : Taken s.volume s.volume.newBlock.1 s.volume.newBlock.2 :=
    (newBlock_cases hc).resolve_left fun h => h₀ h.1
  have hkept : Consistent s.volume.newBlock.2 (s.inodes d) := by
    have hrefs := refAt_newBlock hc
    refine ⟨ht.firstDataZone ▸ hc.firstDataZone_pos, ht.nZones ▸ hc.nZones_lt, ht.zmap 0 hc.zmap_zero, ?_, ?_⟩
    · intro r h
      rw [hrefs] at h ⊢
      rw [ht.firstDataZone]
      obtain ⟨hle, hbit⟩ := hc.used r h
      exact ⟨hle, ht.zmap _ hbit⟩
    · intro r r' h he
      rw [hrefs] at h
      rw [hrefs, hrefs] at he
      exact hc.distinct r r' h he
  refine consistent_congr hkept rfl (refAt_congr fun r _ _ => Volume.put_data_of_ne _ _ ?_)
  rw [refAt_newBlock hc]
  exact ht.fresh hc r

/-- When the entry cannot be added, the block of the new directory is freed twice. -/
lemma makeDirectory_noEntry (hnew : s.newInode = some (num, s₁)) (h₀ : s.volume.newBlock.1 ≠ 0)
    (hread : c.newReadable = true)
    (hno : ¬ ∃ p w, addEntry (s.withDots num d) (s.inodes d) name = .ok (some p, w)) (r : ℤ × Disk) :
    Disk.makeDirectory c s d name ≠ .ok r := by
  rw [Disk.makeDirectory, hnew]
  dsimp only
  rw [if_neg h₀, if_neg (not_not.mpr hread)]
  cases hadd : addEntry (s.withDots num d) (s.inodes d) name with
  | error f => exact fun h => (by cases h)
  | ok x =>
    obtain ⟨p | p, v, dir⟩ := x
    · dsimp only
      cases hfree : freeBlock nobody v s.volume.newBlock.1 with
      | error f => exact fun h => (by cases h)
      | ok v' =>
        rw [Except.bind, Disk.iputUnlinked]
        dsimp only
        rw [truncate_freed hfree h₀ (newDirectory_isDir c num _) rfl]
        exact fun h => (by cases h)
    · exact absurd ⟨p, _, hadd⟩ hno

lemma makeDirectory_iff (hs : s.Sound c) (hd : sIsDir (s.inodes d).iMode = true) (hname : name ≠ []) :
    (∃ r s', Disk.makeDirectory c s d name = .ok (r, s') ∧ (r = 0 ∨ r < 0 ∧ s.Untouched s')) ↔
      ∀ num s₁, s.newInode = some (num, s₁) → Disk.ZoneFits c s num d := by
  cases hnew : s.newInode with
  | none =>
    refine iff_of_true ⟨-enospc, s, ?_, Or.inr ⟨by decide, untouched_refl s⟩⟩ fun _ _ h => (by cases h)
    rw [Disk.makeDirectory, hnew]
  | some x =>
    obtain ⟨num, s₁⟩ := x
    have honly : (∀ n t, some (num, s₁) = some (n, t) → Disk.ZoneFits c s n d) ↔ Disk.ZoneFits c s num d :=
      ⟨fun h => h num s₁ rfl, fun h n t he => by cases he; exact h⟩
    rw [honly, Disk.ZoneFits]
    by_cases h₀ : s.volume.newBlock.1 = 0
    · have hmake : Disk.makeDirectory c s d name = .ok (-enospc, s.setVolume s.volume.newBlock.2) := by
        rw [Disk.makeDirectory, hnew]
        dsimp only
        rw [if_pos h₀, iputUnlinked_new hs hnew _ rfl rfl]
        rfl
      rw [hmake]
      constructor
      · rintro ⟨r, s', he, hr⟩
        cases he
        obtain ⟨_, hu⟩ := hr.resolve_left (by decide)
        left
        rw [Option.eq_none_iff_forall_not_mem]
        intro j hj
        obtain ⟨hfree, hset⟩ := newBlock_marks hj
        rw [← congrFun hu.zmap j] at hfree
        exact Bool.noConfusion (hfree.symm.trans hset)
      · rintro (hnone | ⟨h, _⟩)
        · refine ⟨_, _, rfl, Or.inr ⟨by decide, ?_⟩⟩
          rw [newBlock_zero hnone]
          exact untouched_refl s
        · exact absurd h₀ h
    · by_cases hread : c.newReadable = true
      · have hzone : s.volume.findFirstZero ≠ none := by
          intro hnone
          rw [newBlock_zero hnone] at h₀
          exact h₀ rfl
        have hroom : (s.volume.findFirstZero = none ∨ s.volume.newBlock.1 ≠ 0 ∧
            (c.newReadable = false ∨ EntryRoom (s.withDots num d) (s.inodes d))) ↔
              EntryRoom (s.withDots num d) (s.inodes d) := by
          simp only [hzone, ne_eq, h₀, not_false_eq_true, hread, Bool.true_eq_false, false_or, true_and]
        rw [hroom, ← addEntry_iff (withDots_consistent hs hd h₀ num) hname]
        constructor
        · rintro ⟨r, s', he, _⟩
          by_contra hno
          exact makeDirectory_noEntry hnew h₀ hread hno _ he
        · rintro ⟨p, w, hadd⟩
          have hmake : ∃ s', Disk.makeDirectory c s d name = .ok (0, s') := by
            rw [Disk.makeDirectory, hnew]
            dsimp only
            rw [if_neg h₀, if_neg (not_not.mpr hread), hadd]
            exact ⟨_, rfl⟩
          obtain ⟨s', hs'⟩ := hmake
          exact ⟨0, s', hs', Or.inl rfl⟩
      · have hfree := Bool.eq_false_iff.mpr hread
        refine iff_of_true ?_ (Or.inr ⟨h₀, Or.inl hfree⟩)
        obtain ⟨v, hv, hu⟩ := freeBlock_new hs h₀
        refine ⟨-error, s.setVolume v, ?_, Or.inr ⟨by decide, hu⟩⟩
        rw [Disk.makeDirectory, hnew]
        dsimp only
        rw [if_neg h₀, if_pos hread, hv, Except.bind, iputUnlinked_new hs hnew v rfl rfl]
        rfl

lemma harmless_of_answered (h : s.Answered c) : s.Harmless c := by
  have hanswer : ∀ e : ℤ, 0 < e → Disk.sysMkdir c s = .ok (-e, s) → s.Harmless c :=
    fun e he hcall => ⟨-e, s, hcall, Or.inr ⟨by omega, untouched_refl s⟩⟩
  by_cases hsuper : c.superUser = false
  · exact hanswer eperm (by decide) (by rw [Disk.sysMkdir, if_pos hsuper])
  · rcases h with h | hnone | ⟨d, name, hdir, h⟩
    · exact absurd h hsuper
    · refine hanswer enoent (by decide) ?_
      rw [Disk.sysMkdir, if_neg hsuper, hnone]
    · by_cases hname : name = []
      · refine hanswer enoent (by decide) ?_
        rw [Disk.sysMkdir, if_neg hsuper, hdir]
        exact if_pos hname
      · by_cases hwrite : c.mayWrite = false
        · refine hanswer eperm (by decide) ?_
          rw [Disk.sysMkdir, if_neg hsuper, hdir]
          dsimp only
          rw [if_neg hname, if_pos hwrite]
        · obtain ⟨p, hp⟩ := (h.resolve_left hname).resolve_left hwrite
          refine hanswer eexist (by decide) ?_
          rw [Disk.sysMkdir, if_neg hsuper, hdir]
          dsimp only
          rw [if_neg hname, if_neg hwrite, hp]

lemma sysMkdir_of_not_answered (h : ¬ s.Answered c) : ∃ d name, c.dirNamei = some (d, name) ∧ name ≠ [] ∧
    Disk.sysMkdir c s = match findEntry s.volume (s.inodes d) name with
      | .error f => .error f
      | .ok (some _) => .ok (-eexist, s)
      | .ok none => Disk.makeDirectory c s d name := by
  obtain ⟨hsuper, h⟩ := not_or.mp h
  obtain ⟨hsome, h⟩ := not_or.mp h
  cases hdir : c.dirNamei with
  | none => exact absurd hdir hsome
  | some x =>
    obtain ⟨d, name⟩ := x
    have hname : name ≠ [] := fun he => h ⟨d, name, hdir, Or.inl he⟩
    have hwrite : ¬ c.mayWrite = false := fun he => h ⟨d, name, hdir, Or.inr (Or.inl he)⟩
    refine ⟨d, name, rfl, hname, ?_⟩
    rw [Disk.sysMkdir, if_neg hsuper, hdir]
    dsimp only
    rw [if_neg hname, if_neg hwrite]

end Mkdir

lemma harmless_iff_fits {c : MkdirCall} {s : Disk} (hs : s.Sound c) : s.Harmless c ↔ s.Fits c := by
  by_cases ha : s.Answered c
  · exact iff_of_true (harmless_of_answered ha) (Or.inl ha)
  · obtain ⟨d, name, hdir, hname, hcall⟩ := sysMkdir_of_not_answered ha
    have hfits : s.Fits c ↔ findEntry s.volume (s.inodes d) name = .ok none ∧
        ∀ num s₁, s.newInode = some (num, s₁) → s.ZoneFits c num d := by
      rw [Disk.Fits, hdir]
      constructor
      · rintro (h | ⟨_, _, he, hrest⟩)
        · exact absurd h ha
        · cases he
          exact hrest
      · exact fun h => Or.inr ⟨d, name, rfl, h⟩
    rw [hfits, Disk.Harmless, hcall]
    cases hfind : findEntry s.volume (s.inodes d) name with
    | error f =>
      refine iff_of_false ?_ fun h => (by cases h.1)
      rintro ⟨_, _, h, _⟩
      cases h
    | ok p =>
      cases p with
      | some p =>
        have hanswer : s.Answered c := Or.inr (Or.inr ⟨d, name, hdir, Or.inr (Or.inr ⟨p, hfind⟩)⟩)
        exact absurd hanswer ha
      | none =>
        rw [eq_self_iff_true, true_and]
        exact makeDirectory_iff hs (hs.isDir d name hdir) hname

/-- A call of `sys_mkdir` that fails leaves everything as it was exactly when it fits. -/
theorem mkdir_harmless_iff (c : MkdirCall) (s : Disk) (hs : s.Sound c) : s.Harmless c ↔ s.Fits c :=
  harmless_iff_fits hs

-- "." and "..", and 62 files
def crowdedBlock : Block := fun x =>
  if x.val % 16 = 0 then BitVec.ofNat 8 (max (x.val / 16) 1)
  else if x.val % 16 = 2 then (if x.val / 16 ≤ 1 then 46 else BitVec.ofNat 8 (48 + x.val / 16))
  else if x.val = 19 then 46 else 0

def crowdedInodes (n : Word) : MInode :=
  if n = 1 then ⟨0o040000, 1024, firstZone 5, 1⟩ else ⟨0o100000, 0, firstZone 0, n⟩

def crowdedDisk (zmap : ℕ → Bool) : Disk where
  volume := { fullVolume (fun _ => crowdedBlock) with zmap := zmap }
  inodes := crowdedInodes
  iNlinks n := if n = 1 then 2 else if n < 64 then 1 else 0
  imap j := decide (j < 64)
  imapBits := 8192
  nInodes := 100

def crowdedCall : MkdirCall := ⟨true, some (1, [122]), true, 0o755, true⟩

lemma crowded_noEntry (zmap : ℕ → Bool) :
    findEntry (crowdedDisk zmap).volume (crowdedInodes 1) [122] = .ok none := rfl

lemma crowded_ref (zmap : ℕ → Bool) {n : Word} {r : Ref} (h : (crowdedDisk zmap).ref n r ≠ 0) :
    n = 1 ∧ r = .zone 0 ∧ (crowdedDisk zmap).ref n r = 5 := by
  have hdir : sIsDir 0o040000 = true := by decide
  have hreg : sIsReg 0o100000 = true := by decide
  by_cases hn : n = 1
  · subst hn
    have hspecial : ¬ (crowdedInodes 1).special := not_special (Or.inr hdir)
    have hplain : (crowdedInodes 1).blocks = crowdedInodes 1 := if_neg hspecial
    change refAt _ (crowdedInodes 1).blocks r ≠ 0 at h
    change _ ∧ _ ∧ refAt _ (crowdedInodes 1).blocks r = 5
    rw [hplain] at h ⊢
    exact ⟨rfl, refAt_firstZone rfl h⟩
  · have hfile : crowdedInodes n = ⟨0o100000, 0, firstZone 0, n⟩ := if_neg hn
    have hplain : (crowdedInodes n).blocks = crowdedInodes n := by
      rw [hfile]
      exact if_neg (not_special (Or.inl hreg))
    change refAt _ (crowdedInodes n).blocks r ≠ 0 at h
    rw [hplain, hfile] at h
    exact absurd (refAt_firstZone rfl h).2 h

lemma crowded_owned {zmap : ℕ → Bool} (h₀ : zmap 0 = true) (h₅ : zmap 5 = true) :
    Owned (crowdedDisk zmap).toDevice where
  firstDataZone_pos := Nat.one_pos
  nZones_lt := show 8192 < 65536 by omega
  zmap_zero := h₀
  used n r h := by
    rw [(crowded_ref zmap h).2.2]
    exact ⟨show 1 ≤ 5 by decide, show 5 < 8192 by decide, show 5 < 8192 by decide, h₅⟩
  once n r n' r' h he := by
    obtain ⟨rfl, rfl, _⟩ := crowded_ref zmap h
    obtain ⟨rfl, rfl, _⟩ := crowded_ref zmap (he ▸ h)
    exact ⟨rfl, rfl⟩

lemma crowded_sound {zmap : ℕ → Bool} (h₀ : zmap 0 = true) (h₅ : zmap 5 = true) :
    (crowdedDisk zmap).Sound crowdedCall where
  owned := crowded_owned h₀ h₅
  imap_zero := rfl
  nInodes_lt := show 100 < 65536 by decide
  isDir d name h := by
    cases h
    have hdir : sIsDir 0o040000 = true := by decide
    exact hdir

theorem mkdir_harmless_crowdedDisk : (crowdedDisk fun _ => true).Harmless crowdedCall := by
  have hnone : (crowdedDisk fun _ => true).volume.findFirstZero = none :=
    List.find?_eq_none.mpr fun _ _ h => by cases h
  refine (mkdir_harmless_iff crowdedCall (crowdedDisk fun _ => true) (crowded_sound rfl rfl)).mpr ?_
  exact Or.inr ⟨1, [122], rfl, crowded_noEntry _, fun _ _ _ => Or.inl hnone⟩

-- zone 6 is the last free one
def lastZone (j : ℕ) : Bool := decide (j ≠ 6)

lemma lastZone_findFirstZero : (crowdedDisk lastZone).volume.findFirstZero = some 6 := by
  refine List.find?_range_eq_some.mpr ⟨rfl, List.mem_range.mpr (show 6 < 8192 by decide), ?_⟩
  intro j hj
  change (!!decide (j ≠ 6)) = true
  simp only [Bool.not_not, decide_eq_true_eq]
  omega

lemma lastZone_newBlock : (crowdedDisk lastZone).volume.newBlock.1 = 6 ∧
    (crowdedDisk lastZone).volume.newBlock.2.zmap = Function.update lastZone 6 true ∧
    (crowdedDisk lastZone).volume.newBlock.2.data 5 = crowdedBlock := by
  rw [Volume.newBlock, lastZone_findFirstZero]
  exact ⟨rfl, rfl, rfl⟩

lemma crowded_noRoom {v : Volume} (hfull : v.findFirstZero = none) (hblock : v.data 5 = crowdedBlock) :
    ¬ EntryRoom v (crowdedInodes 1) := by
  have hlive : ∀ k : Fin 64, entryInode crowdedBlock k ≠ 0 := by decide
  rintro ⟨i, hbefore, z, v', dir', hb, h₀, _, hfree⟩
  rcases lt_trichotomy i 64 with hlt | rfl | hgt
  · rw [entryBlock, if_pos (by omega)] at hb
    cases hb
    rcases hfree with hsize | hfree
    · change 1024 ≤ 16 * i at hsize
      omega
    · change entryInode (v.data 5) (i % 64) = 0 at hfree
      rw [hblock] at hfree
      exact hlive ⟨i % 64, Nat.mod_lt _ (by decide)⟩ hfree
  · have hnone : v.newBlock.1 = 0 := by rw [Volume.newBlock, hfull]
    have hcreate : entryBlock v (crowdedInodes 1) 1 =
        .ok (v.newBlock.1, v.newBlock.2, (crowdedInodes 1).setZone 1 v.newBlock.1) := rfl
    have hz := hcreate.symm.trans hb
    cases hz
    exact h₀ hnone
  · exact (hbefore 64 hgt).1.2.1 rfl

lemma withDots_zmap (s : Disk) (num d : Word) : (s.withDots num d).zmap = s.volume.newBlock.2.zmap := rfl

lemma lastZone_noRoom (num : Word) : ¬ EntryRoom ((crowdedDisk lastZone).withDots num 1) (crowdedInodes 1) := by
  obtain ⟨hz, hzmap, hdata⟩ := lastZone_newBlock
  refine crowded_noRoom ?_ ?_
  · rw [Volume.findFirstZero, List.find?_eq_none]
    intro j _
    rw [withDots_zmap, hzmap, Function.update_apply]
    by_cases hj : j = 6
    · rw [if_pos hj]
      exact Bool.false_ne_true
    · rw [if_neg hj, lastZone, decide_eq_true hj]
      exact Bool.false_ne_true
  · have hne : (5 : Word) ≠ (crowdedDisk lastZone).volume.newBlock.1 := by
      rw [hz]
      decide
    rw [Disk.withDots, Volume.put_data_of_ne _ _ hne, hdata]

lemma crowded_newInode : ∃ s₁, (crowdedDisk lastZone).newInode = some (64, s₁) := by
  have hfind : (crowdedDisk lastZone).findFirstInode = some 64 := by
    refine List.find?_range_eq_some.mpr ⟨rfl, List.mem_range.mpr (show 64 < 8192 by decide), ?_⟩
    intro j hj
    change (!!decide (j < 64)) = true
    rw [Bool.not_not]
    exact decide_eq_true hj
  rw [Disk.newInode, hfind]
  exact ⟨_, rfl⟩

theorem mkdir_frees_twice : ¬ ∀ (c : MkdirCall) (s : Disk), s.Sound c → s.Harmless c := by
  intro h
  have hs : (crowdedDisk lastZone).Sound crowdedCall := crowded_sound rfl rfl
  have hfits := (harmless_iff_fits hs).mp (h _ _ hs)
  rcases hfits with (hsuper | hnone | ⟨d, name, hdir, hanswer⟩) | ⟨d, name, hdir, _, hzone⟩
  · cases hsuper
  · cases hnone
  · cases hdir
    rcases hanswer with hname | hwrite | ⟨p, hp⟩
    · cases hname
    · cases hwrite
    · cases (crowded_noEntry lastZone).symm.trans hp
  · cases hdir
    obtain ⟨s₁, hnew⟩ := crowded_newInode
    rcases hzone 64 s₁ hnew with hnone | ⟨_, hread | hroom⟩
    · cases lastZone_findFirstZero.symm.trans hnone
    · cases hread
    · exact lastZone_noRoom 64 hroom

end Devos.Fs
