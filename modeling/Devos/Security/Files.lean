import Devos.Security.TableCalls
import Devos.Security.Cipher
import Devos.Fs.Layout

/-! Encrypting and decrypting the blocks of one file, as in `security.c`. -/

namespace Devos.Security

open Loops Fs

structure Walk where
  i : ℕ
  volume : Volume
  log : List Word

/-- One round of `while ((block = bmap(inode,i++)) && (buff_head = bread(dev,block)))`. The local
arrays of the cipher start out with what the stack holds, so `transform` depends on the round. -/
def walkBody (transform : ℕ → Block → Except Fault Block) (inode : MInode) (s : Walk) :
    Pass Walk (Except Fault Walk) :=
  match bmap s.volume inode s.i with
  | .error f => .leave (.error f)
  | .ok block =>
    if block = 0 ∨ ¬ s.volume.readable block then .leave (.ok s)
    else
      match transform s.i (s.volume.data block) with
      | .error f => .leave (.error f)
      | .ok b => .again { i := s.i + 1, volume := s.volume.put block b, log := s.log ++ [block] }

def walkStart (v : Volume) : Walk := ⟨0, v, []⟩

/-- The whole loop; `bmap` panics beyond the last possible block, so it always ends. -/
def walk (transform : ℕ → Block → Except Fault Block) (v : Volume) (inode : MInode) :
    Except Fault Walk :=
  (iterate (walkBody transform inode) (maxBlocks + 1) (walkStart v)).getD (.error .hang)

structure FileResult where
  status : ℤ
  table : HashTable
  volume : Volume
  log : List Word

def encryptFile (keyToUse : CString) (scratch : ℕ → Block) (table : HashTable) (v : Volume)
    (inode : MInode) (newDir : EDir) : Except Fault FileResult :=
  match addFunc table newDir with
  | none => .error .hang
  | some (status, table) =>
    if status = errAlrEnc then .ok ⟨status, table, v, []⟩
    else (walk (fun i b => encryptBlock keyToUse (scratch i) b b) v inode).map
      (fun s => ⟨status, table, s.volume, s.log⟩)

def decryptFile (keyToUse : CString) (hashToUse : HKey) (scratch : ℕ → Block) (table : HashTable)
    (v : Volume) (inode : MInode) : Except Fault FileResult :=
  match removeFunc table inode.iNum hashToUse with
  | none => .error .hang
  | some (status, table) =>
    if status = -einval then .ok ⟨status, table, v, []⟩
    else if status = errRm then .ok ⟨status, table, v, []⟩
    else (walk (fun i b => decryptBlock keyToUse (scratch i) b b) v inode).map
      (fun s => ⟨status, table, s.volume, s.log⟩)

section Walking

variable {transform : ℕ → Block → Except Fault Block} {v : Volume} {inode : MInode}

lemma walk_ends (transform : ℕ → Block → Except Fault Block) (v : Volume) (inode : MInode) :
    ∃ r, iterate (walkBody transform inode) (maxBlocks + 1) (walkStart v) = some r := by
  refine iterate_of_variant (fun s => s.i ≤ maxBlocks) (fun s => maxBlocks - s.i) ?_ (Nat.zero_le _)
    (Nat.lt_succ_of_le (Nat.sub_le _ _))
  intro s s' hs hb
  rw [walkBody] at hb
  split at hb
  next => cases hb
  next block hblock =>
    have hlt : s.i < maxBlocks := by
      by_contra hge
      rw [bmap, bmapCreate, if_pos (not_lt.mp hge)] at hblock
      cases hblock
    split_ifs at hb
    split at hb
    next => cases hb
    next =>
      cases hb
      exact ⟨hlt, by dsimp only; omega⟩

structure Walked (transform : ℕ → Block → Except Fault Block) (v : Volume) (inode : MInode) (s : Walk) :
    Prop where
  le : s.i ≤ maxBlocks
  mapped : ∀ j, j < s.i → Mapped v inode j
  log : s.log = (List.range s.i).map (zoneAt v inode)
  consistent : Consistent s.volume inode
  bmap_eq : ∀ j, bmap s.volume inode j = bmap v inode j
  zone_eq : ∀ j, zoneAt s.volume inode j = zoneAt v inode j
  readable : s.volume.readable = v.readable
  same : s.volume = { v with data := s.volume.data }
  transformed : ∀ j, j < s.i →
    transform j (v.data (zoneAt v inode j)) = .ok (s.volume.data (zoneAt v inode j))
  kept : ∀ z, z ∉ s.log → s.volume.data z = v.data z

lemma walked_start (hc : Consistent v inode) : Walked transform v inode (walkStart v) where
  le := Nat.zero_le _
  mapped _ hj := absurd hj (Nat.not_lt_zero _)
  log := rfl
  consistent := hc
  bmap_eq _ := rfl
  zone_eq _ := rfl
  readable := rfl
  same := rfl
  transformed _ hj := absurd hj (Nat.not_lt_zero _)
  kept _ _ := rfl

/-- A walk that stopped short of block `s.i` has reached the blocks with none missing up to them. -/
lemma Walked.reaches_iff {s : Walk} (hs : Walked transform v inode s) (hm : ¬ Mapped v inode s.i) {i : ℕ} :
    i < s.i ↔ ∀ j, j ≤ i → Mapped v inode j := by
  constructor
  · intro hi j hj
    exact hs.mapped j (hj.trans_lt hi)
  · intro hall
    by_contra hge
    exact hm (hall s.i (not_lt.mp hge))

lemma Walked.reaches_first {s : Walk} (hs : Walked transform v inode s) (hm : ¬ Mapped v inode s.i) :
    0 < s.i ↔ Mapped v inode 0 := by
  rw [hs.reaches_iff hm]
  simp only [Nat.le_zero, forall_eq]

lemma walked_step (hc : Consistent v inode) {s : Walk} (hs : Walked transform v inode s) :
    (∃ s', walkBody transform inode s = .again s' ∧ s'.i = s.i + 1 ∧ Walked transform v inode s') ∨
      (∃ f, walkBody transform inode s = .leave (.error f) ∧
        (maxBlocks ≤ s.i ∨ ∃ b, transform s.i b = .error f)) ∨
      walkBody transform inode s = .leave (.ok s) ∧ s.i < maxBlocks ∧ ¬ Mapped v inode s.i := by
  cases hb : bmap v inode s.i with
  | error f =>
    refine Or.inr (Or.inl ⟨f, by rw [walkBody, hs.bmap_eq, hb], Or.inl ?_⟩)
    by_contra hlt
    rw [bmap_eq (not_le.mp hlt)] at hb
    cases hb
  | ok block =>
    have hlt := bmap_ok_lt hb
    by_cases hm : Mapped v inode s.i
    · obtain ⟨h₀, hr⟩ := (mapped_of_bmap hb).mpr hm
      have hz := zone_of_bmap hb h₀
      have hgo : ¬ (block = 0 ∨ ¬ s.volume.readable block = true) := by
        rw [hs.readable]
        exact not_or.mpr ⟨h₀, not_not.mpr hr⟩
      have hnew : block ∉ s.log := by
        rw [hs.log, List.mem_map]
        rintro ⟨j, hj, he⟩
        have hj := List.mem_range.mp hj
        have := zone_injective hc (hj.trans hlt) hlt (hs.mapped j hj).2.1 (he.trans hz)
        omega
      cases ht : transform s.i (s.volume.data block) with
      | error f =>
        refine Or.inr (Or.inl ⟨f, ?_, Or.inr ⟨_, ht⟩⟩)
        rw [walkBody, hs.bmap_eq, hb]
        simp only [if_neg hgo, ht]
      | ok b =>
        refine Or.inl ⟨⟨s.i + 1, s.volume.put block b, s.log ++ [block]⟩, ?_, rfl, ?_⟩
        · rw [walkBody, hs.bmap_eq, hb]
          simp only [if_neg hgo, ht]
        · have hz' : block = zoneAt s.volume inode s.i := hz.trans (hs.zone_eq s.i).symm
          have hsame : s.volume.put block b = { v with data := (s.volume.put block b).data } :=
            congrArg (fun w : Volume => w.put block b) hs.same
          refine ⟨hlt, ?_, ?_, ?_, ?_, ?_, hs.readable, hsame, ?_, ?_⟩
          · intro j hj
            rcases Nat.lt_succ_iff_lt_or_eq.mp hj with hj | rfl
            · exact hs.mapped j hj
            · exact hm
          · rw [List.range_succ, List.map_append, ← hs.log, hz]
            rfl
          · rw [hz']
            exact consistent_put hs.consistent (blockRef_isData s.i) b
          · intro j
            rw [hz', bmap_put hs.consistent, hs.bmap_eq]
          · intro j
            rw [hz', ← hs.zone_eq j]
            exact refAt_put hs.consistent (blockRef_isData s.i) b (blockRef j)
          · intro j hj
            rcases Nat.lt_succ_iff_lt_or_eq.mp hj with hj | rfl
            · have hne : zoneAt v inode j ≠ block := by
                intro he
                have := zone_injective hc (hj.trans hlt) hlt (hs.mapped j hj).2.1 (he.trans hz)
                omega
              rw [Volume.put_data_of_ne _ _ hne]
              exact hs.transformed j hj
            · rw [← hz, Volume.put_data_self, ← hs.kept block hnew, ht]
          · intro z hzlog
            simp only [List.mem_append, List.mem_singleton, not_or] at hzlog
            rw [Volume.put_data_of_ne _ _ hzlog.2, hs.kept z hzlog.1]
    · refine Or.inr (Or.inr ⟨?_, hlt, hm⟩)
      have hstop : block = 0 ∨ ¬ s.volume.readable block = true := by
        rw [hs.readable]
        by_contra hgo
        obtain ⟨h₁, h₂⟩ := not_or.mp hgo
        exact hm ((mapped_of_bmap hb).mp ⟨h₁, not_not.mp h₂⟩)
      rw [walkBody, hs.bmap_eq, hb]
      simp only [if_pos hstop]

variable (transform) in
lemma walk_cases (hc : Consistent v inode) :
    (∃ s, walk transform v inode = .ok s ∧ Walked transform v inode s ∧ s.i < maxBlocks ∧
        ¬ Mapped v inode s.i) ∨
      ∃ s f, walk transform v inode = .error f ∧ Walked transform v inode s ∧
        (maxBlocks ≤ s.i ∨ ∃ b, transform s.i b = .error f) := by
  obtain ⟨r, hr⟩ := walk_ends transform v inode
  rw [walk, hr, Option.getD_some]
  refine iterate_invariant (Walked transform v inode)
    (Q := fun r => (∃ s, r = .ok s ∧ Walked transform v inode s ∧ s.i < maxBlocks ∧
        ¬ Mapped v inode s.i) ∨
      ∃ s f, r = .error f ∧ Walked transform v inode s ∧
        (maxBlocks ≤ s.i ∨ ∃ b, transform s.i b = .error f)) ?_ ?_ (walked_start hc) hr
  · intro s s' hs hb
    rcases walked_step hc hs with ⟨s₁, h₁, _, hs₁⟩ | ⟨f, h₁, _⟩ | ⟨h₁, _⟩
    all_goals
      rw [h₁] at hb
      cases hb
    exact hs₁
  · intro s r hs hb
    rcases walked_step hc hs with ⟨s₁, h₁, _⟩ | ⟨f, h₁, hf⟩ | ⟨h₁, hm⟩
    all_goals
      rw [h₁] at hb
      cases hb
    · exact Or.inr ⟨s, f, rfl, hs, hf⟩
    · exact Or.inl ⟨s, rfl, hs, hm⟩

theorem walk_spec (hc : Consistent v inode) {s : Walk} (h : walk transform v inode = .ok s) :
    Walked transform v inode s ∧ s.i < maxBlocks ∧ ¬ Mapped v inode s.i := by
  rcases walk_cases transform hc with ⟨s', h', hs⟩ | ⟨_, _, h', _⟩
  all_goals
    rw [h] at h'
    cases h'
  exact hs

theorem walk_returns (hc : Consistent v inode) (ht : ∀ i b, ∃ b', transform i b = .ok b') :
    ∃ s, walk transform v inode = .ok s := by
  rcases walk_cases transform hc with ⟨s, h, _⟩ | ⟨s, f, _, hs, hge | ⟨b, hf⟩⟩
  · exact ⟨s, h⟩
  · obtain ⟨i, hi, hnot⟩ := exists_not_mapped hc
    exact absurd (hs.mapped i (hi.trans_le hge)) hnot
  · obtain ⟨b', hb'⟩ := ht s.i b
    rw [hb'] at hf
    cases hf

end Walking

end Devos.Security
