import Devos.Fs.Inode
import Mathlib.Data.Fintype.Card

/-! The places of an inode that refer to blocks, and the data blocks of a file as a function of the
block number. -/

namespace Devos.Fs

/-- A place that holds a block number: a zone of the inode, an entry of its single indirect block,
an entry of its double indirect block, or an entry of a block listed there. -/
inductive Ref where
  | zone (k : Fin 9)
  | single (k : Fin 512)
  | table (k : Fin 512)
  | leaf (k l : Fin 512)
  deriving DecidableEq

def Ref.IsData : Ref → Prop
  | .zone k => k.val < 7
  | .single _ => True
  | .table _ => False
  | .leaf _ _ => True

def entryAt (v : Volume) (holder : Word) (k : ℕ) : Word :=
  if holder = 0 then 0 else (v.data holder).word k

def refAt (v : Volume) (inode : MInode) : Ref → Word
  | .zone k => inode.iZone k
  | .single k => entryAt v (inode.iZone 7) k
  | .table k => entryAt v (inode.iZone 8) k
  | .leaf k l => entryAt v (entryAt v (inode.iZone 8) k) l

def blockRef (i : ℕ) : Ref :=
  if i < 7 then .zone (Fin.ofNat 9 i)
  else if i - 7 < 512 then .single (Fin.ofNat 512 (i - 7))
  else .leaf (Fin.ofNat 512 ((i - 7 - 512) / 512)) (Fin.ofNat 512 ((i - 7 - 512) % 512))

def zoneAt (v : Volume) (inode : MInode) (i : ℕ) : Word := refAt v inode (blockRef i)

def content (v : Volume) (inode : MInode) (i : ℕ) : Option Block :=
  if i < maxBlocks ∧ zoneAt v inode i ≠ 0 then some (v.data (zoneAt v inode i)) else none

def IndexReadable (v : Volume) (inode : MInode) (i : ℕ) : Prop :=
  if i < 7 then True
  else if i - 7 < 512 then v.readable (inode.zone 7) = true
  else v.readable (inode.zone 8) = true ∧
    v.readable (entryAt v (inode.zone 8) ((i - 7 - 512) / 512)) = true

instance (v : Volume) (inode : MInode) (i : ℕ) : Decidable (IndexReadable v inode i) := by
  unfold IndexReadable
  infer_instance

/-- Every block of the file is marked in the zone map and used in one place only. -/
structure Consistent (v : Volume) (inode : MInode) : Prop where
  firstDataZone_pos : 0 < v.firstDataZone
  nZones_lt : v.nZones < 65536
  zmap_zero : v.zmap 0 = true
  used : ∀ r, refAt v inode r ≠ 0 → v.firstDataZone ≤ (refAt v inode r).toNat ∧
    v.zmap ((refAt v inode r).toNat - v.firstDataZone + 1) = true
  distinct : ∀ r r', refAt v inode r ≠ 0 → refAt v inode r = refAt v inode r' → r = r'

lemma blockRef_isData (i : ℕ) : (blockRef i).IsData := by
  unfold blockRef
  split
  next h =>
    simp only [Ref.IsData, Fin.ofNat]
    omega
  next => split <;> trivial

lemma blockRef_injective {i j : ℕ} (hi : i < maxBlocks) (hj : j < maxBlocks)
    (h : blockRef i = blockRef j) : i = j := by
  have hmax : maxBlocks = 262663 := rfl
  simp only [blockRef] at h
  split_ifs at h
  · simp only [Ref.zone.injEq, Fin.ofNat, Fin.mk.injEq] at h
    omega
  · simp only [Ref.single.injEq, Fin.ofNat, Fin.mk.injEq] at h
    omega
  · simp only [Ref.leaf.injEq, Fin.ofNat, Fin.mk.injEq] at h
    omega

section Reading

variable {v : Volume} {inode : MInode}

lemma createEntry_read (v : Volume) (holder : Word) (k : ℕ) :
    createEntry false v holder k = ((v.data holder).word k, v) := by
  simp only [createEntry, Bool.false_eq_true, false_and, if_false]

lemma createZone_read (v : Volume) (inode : MInode) (k : ℕ) :
    createZone false v inode k = (v, inode) := by
  simp only [createZone, Bool.false_eq_true, false_and, if_false]

lemma zoneAt_single {i : ℕ} (h₁ : ¬ i < 7) (h₂ : i - 7 < 512) :
    zoneAt v inode i = entryAt v (inode.zone 7) (i - 7) := by
  rw [zoneAt, blockRef, if_neg h₁, if_pos h₂, refAt, Fin.val_ofNat, Nat.mod_eq_of_lt h₂]
  rfl

lemma zoneAt_leaf {i : ℕ} (hi : i < maxBlocks) (h₁ : ¬ i < 7) (h₂ : ¬ i - 7 < 512) :
    zoneAt v inode i =
      entryAt v (entryAt v (inode.zone 8) ((i - 7 - 512) / 512)) ((i - 7 - 512) % 512) := by
  have hmax : maxBlocks = 262663 := rfl
  rw [zoneAt, blockRef, if_neg h₁, if_neg h₂, refAt, Fin.val_ofNat, Fin.val_ofNat, Nat.mod_mod,
    Nat.mod_eq_of_lt (by omega)]
  rfl

lemma indexReadable_direct {i : ℕ} (h₁ : i < 7) : IndexReadable v inode i := by
  rw [IndexReadable, if_pos h₁]
  trivial

lemma indexReadable_single {i : ℕ} (h₁ : ¬ i < 7) (h₂ : i - 7 < 512) :
    IndexReadable v inode i ↔ v.readable (inode.zone 7) = true := by
  rw [IndexReadable, if_neg h₁, if_pos h₂]

lemma indexReadable_leaf {i : ℕ} (h₁ : ¬ i < 7) (h₂ : ¬ i - 7 < 512) :
    IndexReadable v inode i ↔ v.readable (inode.zone 8) = true ∧
      v.readable (entryAt v (inode.zone 8) ((i - 7 - 512) / 512)) = true := by
  rw [IndexReadable, if_neg h₁, if_neg h₂]

lemma entryAt_zero {holder : Word} (h : holder = 0) (k : ℕ) : entryAt v holder k = 0 := by
  rw [entryAt, if_pos h]

lemma entryAt_ne {holder : Word} (h : holder ≠ 0) (k : ℕ) :
    entryAt v holder k = (v.data holder).word k := by
  rw [entryAt, if_neg h]

theorem bmap_eq {i : ℕ} (hi : i < maxBlocks) :
    bmap v inode i = .ok (if IndexReadable v inode i then zoneAt v inode i else 0) := by
  simp only [bmap, bmapCreate, if_neg (Nat.not_le.mpr hi), createZone_read, createEntry_read]
  by_cases h₁ : i < 7
  · rw [if_pos h₁, if_pos (indexReadable_direct h₁), zoneAt, blockRef, if_pos h₁]
    rfl
  · by_cases h₂ : i - 7 < 512
    · rw [if_neg h₁, if_pos h₂]
      simp only [indexReadable_single h₁ h₂, zoneAt_single h₁ h₂]
      by_cases hz : inode.zone 7 = 0
      · rw [if_pos (Or.inl hz), entryAt_zero hz, ite_self]
        rfl
      · by_cases hr : v.readable (inode.zone 7) = true
        · rw [if_neg (not_or.mpr ⟨hz, not_not.mpr hr⟩), if_pos hr, entryAt_ne hz]
          rfl
        · rw [if_pos (Or.inr hr), if_neg hr]
          rfl
    · rw [if_neg h₁, if_neg h₂]
      simp only [indexReadable_leaf h₁ h₂, zoneAt_leaf hi h₁ h₂]
      by_cases hz : inode.zone 8 = 0
      · rw [if_pos (Or.inl hz), entryAt_zero hz, entryAt_zero rfl, ite_self]
        rfl
      · by_cases hr : v.readable (inode.zone 8) = true
        · rw [if_neg (not_or.mpr ⟨hz, not_not.mpr hr⟩), entryAt_ne hz]
          by_cases he : (v.data (inode.zone 8)).word ((i - 7 - 512) / 512) = 0
          · rw [if_pos (Or.inl he), entryAt_zero he, ite_self]
            rfl
          · by_cases hr' : v.readable ((v.data (inode.zone 8)).word ((i - 7 - 512) / 512)) = true
            · rw [if_neg (not_or.mpr ⟨he, not_not.mpr hr'⟩), if_pos ⟨hr, hr'⟩, entryAt_ne he]
              rfl
            · rw [if_pos (Or.inr hr'), if_neg (fun h => hr' h.2)]
              rfl
        · rw [if_pos (Or.inr hr), if_neg (fun h => hr h.1)]
          rfl

lemma content_eq_some {i : ℕ} {b : Block} :
    content v inode i = some b ↔
      i < maxBlocks ∧ zoneAt v inode i ≠ 0 ∧ v.data (zoneAt v inode i) = b := by
  rw [content]
  split
  next h => rw [Option.some.injEq, ← and_assoc, and_iff_right h]
  next h =>
    refine iff_of_false (by simp) ?_
    rintro ⟨h₁, h₂, _⟩
    exact h ⟨h₁, h₂⟩

def Mapped (v : Volume) (inode : MInode) (i : ℕ) : Prop :=
  IndexReadable v inode i ∧ zoneAt v inode i ≠ 0 ∧ v.readable (zoneAt v inode i) = true

instance (v : Volume) (inode : MInode) (i : ℕ) : Decidable (Mapped v inode i) := by
  unfold Mapped
  infer_instance

def Allocated (v : Volume) (inode : MInode) (i : ℕ) : Prop := i < maxBlocks ∧ zoneAt v inode i ≠ 0

lemma bmap_ok_lt {i : ℕ} {block : Word} (h : bmap v inode i = .ok block) : i < maxBlocks := by
  by_contra hge
  rw [bmap, bmapCreate, if_pos (not_lt.mp hge)] at h
  cases h

lemma mapped_of_bmap {i : ℕ} {block : Word} (h : bmap v inode i = .ok block) :
    (block ≠ 0 ∧ v.readable block = true) ↔ Mapped v inode i := by
  rw [bmap_eq (bmap_ok_lt h)] at h
  cases h
  by_cases hr : IndexReadable v inode i
  · rw [if_pos hr]
    exact (and_iff_right hr).symm
  · rw [if_neg hr]
    exact iff_of_false (fun h => h.1 rfl) (fun h => hr h.1)

lemma zone_of_bmap {i : ℕ} {block : Word} (h : bmap v inode i = .ok block) (h₀ : block ≠ 0) :
    block = zoneAt v inode i := by
  rw [bmap_eq (bmap_ok_lt h)] at h
  cases h
  by_contra hne
  split_ifs at h₀ hne
  · exact hne rfl
  · exact h₀ rfl

lemma zone_injective (hc : Consistent v inode) {i j : ℕ} (hi : i < maxBlocks) (hj : j < maxBlocks)
    (h₀ : zoneAt v inode i ≠ 0) (h : zoneAt v inode i = zoneAt v inode j) : i = j :=
  blockRef_injective hi hj (hc.distinct _ _ h₀ h)

lemma exists_not_mapped (hc : Consistent v inode) : ∃ i, i < maxBlocks ∧ ¬ Mapped v inode i := by
  by_contra hall
  push Not at hall
  let f (i : Fin maxBlocks) : Fin (2 ^ 16) := (zoneAt v inode i).toFin
  have hf : Function.Injective f := by
    intro i j hij
    have he : zoneAt v inode i = zoneAt v inode j := BitVec.eq_of_toFin_eq hij
    exact Fin.ext (zone_injective hc i.isLt j.isLt (hall i i.isLt).2.1 he)
  have hcard := Fintype.card_le_of_injective f hf
  rw [Fintype.card_fin, Fintype.card_fin] at hcard
  exact absurd hcard (by decide)

end Reading

section Writing

variable {v : Volume} {inode : MInode}

lemma entryAt_congr {v' : Volume} {holder : Word} (h : holder ≠ 0 → v'.data holder = v.data holder)
    (k : ℕ) : entryAt v' holder k = entryAt v holder k := by
  by_cases h₀ : holder = 0
  · rw [entryAt_zero h₀, entryAt_zero h₀]
  · rw [entryAt_ne h₀, entryAt_ne h₀, h h₀]

theorem refAt_congr {v' : Volume} (h : ∀ r : Ref, ¬ r.IsData → refAt v inode r ≠ 0 →
    v'.data (refAt v inode r) = v.data (refAt v inode r)) (r : Ref) :
    refAt v' inode r = refAt v inode r := by
  cases r with
  | zone k => rfl
  | single k => exact entryAt_congr (h (.zone 7) (by simp [Ref.IsData])) k
  | table k => exact entryAt_congr (h (.zone 8) (by simp [Ref.IsData])) k
  | leaf k l =>
    have htable : entryAt v' (inode.iZone 8) k = entryAt v (inode.iZone 8) k :=
      entryAt_congr (h (.zone 8) (by simp [Ref.IsData])) k
    change entryAt _ (entryAt _ _ _) l = entryAt v (entryAt v (inode.iZone 8) k) l
    rw [htable]
    exact entryAt_congr (h (.table k) id) l

lemma refAt_size (v : Volume) (inode : MInode) (k : ℕ) (r : Ref) :
    refAt v { inode with iSize := k } r = refAt v inode r := by
  cases r <;> rfl

lemma Consistent.size (hc : Consistent v inode) (k : ℕ) : Consistent v { inode with iSize := k } where
  firstDataZone_pos := hc.firstDataZone_pos
  nZones_lt := hc.nZones_lt
  zmap_zero := hc.zmap_zero
  used r h₀ := by
    rw [refAt_size] at h₀ ⊢
    exact hc.used r h₀
  distinct r r' h₀ he := by
    rw [refAt_size] at h₀
    rw [refAt_size, refAt_size] at he
    exact hc.distinct r r' h₀ he

lemma consistent_congr {v' : Volume} (hc : Consistent v inode)
    (hv : v' = { v with data := v'.data }) (hr : ∀ r, refAt v' inode r = refAt v inode r) :
    Consistent v' inode where
  firstDataZone_pos := by
    rw [hv]
    exact hc.firstDataZone_pos
  nZones_lt := by
    rw [hv]
    exact hc.nZones_lt
  zmap_zero := by
    rw [hv]
    exact hc.zmap_zero
  used r h := by
    rw [hr] at h ⊢
    rw [hv]
    exact hc.used r h
  distinct r₁ r₂ h he := by
    rw [hr, hr] at he
    rw [hr] at h
    exact hc.distinct r₁ r₂ h he

lemma indexReadable_congr {v' : Volume} (hread : v'.readable = v.readable)
    (hr : ∀ r, refAt v' inode r = refAt v inode r) {i : ℕ} (hi : i < maxBlocks) :
    IndexReadable v' inode i ↔ IndexReadable v inode i := by
  by_cases h₁ : i < 7
  · exact iff_of_true (indexReadable_direct h₁) (indexReadable_direct h₁)
  · by_cases h₂ : i - 7 < 512
    · rw [indexReadable_single h₁ h₂, indexReadable_single h₁ h₂, hread]
    · have hmax : maxBlocks = 262663 := rfl
      have hlt : (i - 7 - 512) / 512 < 512 := by omega
      have htable : entryAt v' (inode.zone 8) ((i - 7 - 512) / 512) =
          entryAt v (inode.zone 8) ((i - 7 - 512) / 512) := hr (.table ⟨(i - 7 - 512) / 512, hlt⟩)
      rw [indexReadable_leaf h₁ h₂, indexReadable_leaf h₁ h₂, htable, hread]

lemma mapped_congr {v' : Volume} (hread : v'.readable = v.readable)
    (hr : ∀ r, refAt v' inode r = refAt v inode r) {i : ℕ} (hi : i < maxBlocks) :
    Mapped v' inode i ↔ Mapped v inode i := by
  have hzone : zoneAt v' inode i = zoneAt v inode i := hr _
  rw [Mapped, Mapped, indexReadable_congr hread hr hi, hzone, hread]

theorem refAt_put (hc : Consistent v inode) {r : Ref} (hr : r.IsData) (b : Block) (r' : Ref) :
    refAt (v.put (refAt v inode r) b) inode r' = refAt v inode r' := by
  refine refAt_congr ?_ r'
  intro s hs h₀
  rw [Volume.put_data_of_ne]
  intro he
  exact hs (hc.distinct s r h₀ he ▸ hr)

lemma consistent_put (hc : Consistent v inode) {r : Ref} (hr : r.IsData) (b : Block) :
    Consistent (v.put (refAt v inode r) b) inode :=
  consistent_congr hc rfl (refAt_put hc hr b)

theorem content_put (hc : Consistent v inode) {i : ℕ} (hi : i < maxBlocks)
    (hz : zoneAt v inode i ≠ 0) (b : Block) :
    content (v.put (zoneAt v inode i) b) inode = Function.update (content v inode) i (some b) := by
  have hzone : ∀ j, zoneAt (v.put (zoneAt v inode i) b) inode j = zoneAt v inode j :=
    fun j => refAt_put hc (blockRef_isData i) b (blockRef j)
  funext j
  by_cases hj : j = i
  · rw [hj, Function.update_self, content_eq_some, hzone]
    exact ⟨hi, hz, Volume.put_data_self _ _ _⟩
  · rw [Function.update_of_ne hj]
    simp only [content, hzone]
    by_cases h : j < maxBlocks ∧ zoneAt v inode j ≠ 0
    · rw [if_pos h, if_pos h, Volume.put_data_of_ne]
      intro he
      exact hj (blockRef_injective h.1 hi (hc.distinct _ _ h.2 he))
    · rw [if_neg h, if_neg h]

lemma bmap_put (hc : Consistent v inode) {i j : ℕ} (b : Block) :
    bmap (v.put (zoneAt v inode i) b) inode j = bmap v inode j := by
  by_cases hj : j < maxBlocks
  · have hrefs : ∀ r, refAt (v.put (zoneAt v inode i) b) inode r = refAt v inode r :=
      refAt_put hc (blockRef_isData i) b
    have hzone : zoneAt (v.put (zoneAt v inode i) b) inode j = zoneAt v inode j := hrefs (blockRef j)
    rw [bmap_eq hj, bmap_eq hj, hzone]
    have hread : (v.put (zoneAt v inode i) b).readable = v.readable := rfl
    simp only [indexReadable_congr hread hrefs hj]
  · rw [bmap, bmap, bmapCreate, bmapCreate, if_pos (not_lt.mp hj), if_pos (not_lt.mp hj)]

end Writing

def firstZone (z : Word) : Fin 9 → Word := fun k => if k = 0 then z else 0

lemma firstZone_injective (z : Word) (j k : Fin 9) (h₀ : firstZone z j ≠ 0)
    (h : firstZone z j = firstZone z k) : j = k := by
  have hzero : ∀ k, firstZone z k ≠ 0 → k = 0 := by
    intro k hk
    by_contra hne
    exact hk (if_neg hne)
  rw [hzero j h₀, hzero k (h ▸ h₀)]

lemma refAt_firstZone {v : Volume} {inode : MInode} {z : Word} {r : Ref} (h : inode.iZone = firstZone z)
    (h₀ : refAt v inode r ≠ 0) : r = .zone 0 ∧ refAt v inode r = z := by
  have h₇ : inode.iZone 7 = 0 := congrFun h 7
  have h₈ : inode.iZone 8 = 0 := congrFun h 8
  cases r with
  | zone k =>
    change inode.iZone k ≠ 0 at h₀
    change _ ∧ inode.iZone k = z
    rw [h] at h₀ ⊢
    by_cases hk : k = 0
    · rw [hk]
      exact ⟨rfl, rfl⟩
    · exact absurd (if_neg hk) h₀
  | single k => exact absurd (entryAt_zero h₇ k) h₀
  | table k => exact absurd (entryAt_zero h₈ k) h₀
  | leaf k l => exact absurd (entryAt_zero (entryAt_zero h₈ k) l) h₀

def fullVolume (data : Word → Block) : Volume where
  data := data
  readable _ := true
  zmap _ := true
  zmapBits := 8192
  firstDataZone := 1
  nZones := 8192

def directFile (num : Word) (zones : Fin 9 → Word) (size : ℕ) : MInode := ⟨0o100000, size, zones, num⟩

lemma consistent_direct (data : Word → Block) (num : Word) {zones : Fin 9 → Word} (size : ℕ)
    (h₇ : zones 7 = 0) (h₈ : zones 8 = 0)
    (hd : ∀ j k, zones j ≠ 0 → zones j = zones k → j = k) :
    Consistent (fullVolume data) (directFile num zones size) := by
  have hzone : ∀ r, refAt (fullVolume data) (directFile num zones size) r ≠ 0 →
      ∃ k, r = .zone k ∧ refAt (fullVolume data) (directFile num zones size) r = zones k := by
    intro r hr
    cases r with
    | zone k => exact ⟨k, rfl, rfl⟩
    | single k => exact absurd (entryAt_zero h₇ k) hr
    | table k => exact absurd (entryAt_zero h₈ k) hr
    | leaf k l => exact absurd (entryAt_zero (entryAt_zero h₈ k) l) hr
  refine ⟨Nat.one_pos, show 8192 < 65536 by omega, rfl, ?_, ?_⟩
  · intro r hr
    refine ⟨?_, rfl⟩
    change 0 < _
    rw [Nat.pos_iff_ne_zero]
    intro h₀
    exact hr (BitVec.eq_of_toNat_eq h₀)
  · intro r r' hr he
    obtain ⟨k, rfl, hk⟩ := hzone r hr
    obtain ⟨k', rfl, hk'⟩ := hzone r' (he ▸ hr)
    rw [hk] at hr
    rw [hd k k' hr (hk.symm.trans (he.trans hk'))]

end Devos.Fs
