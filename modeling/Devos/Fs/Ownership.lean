import Devos.Library.Runs
import Devos.Fs.Truncate

/-! The blocks of the whole device: `create_block` and `truncate` leave each of them one owner. -/

namespace Devos.Fs

open Loops Runs

/-- What an allocation for one file leaves to the others. -/
structure Extends (v : Volume) (inode : MInode) (v' : Volume) (inode' : MInode) : Prop where
  refs : ∀ r, refAt v' inode' r ≠ refAt v inode r → refAt v inode r = 0 ∧
    v.zmap (v.bit (refAt v' inode' r)) = false ∧ InUse v' (refAt v' inode' r)
  data : ∀ z, v.firstDataZone ≤ z.toNat → v.zmap (v.bit z) = true →
    (∀ r : Ref, ¬ r.IsData → refAt v inode r ≠ z) → v'.data z = v.data z
  zmap : ∀ j, v.zmap j = true → v'.zmap j = true
  zmapBits : v'.zmapBits = v.zmapBits
  firstDataZone : v'.firstDataZone = v.firstDataZone
  nZones : v'.nZones = v.nZones
  iMode : inode'.iMode = inode.iMode

section NewBlock

variable {v v' v'' : Volume} {inode inode' inode'' : MInode} {z : Word} {r : Ref}

lemma bit_eq (hc : Consistent v inode) (hz : v.firstDataZone ≤ z.toNat) :
    v.bit z = z.toNat - v.firstDataZone + 1 := by
  have hpos := hc.firstDataZone_pos
  rw [Volume.bit]
  omega

lemma Held.consistent (hh : Held v inode) (hpos : 0 < v.firstDataZone) (hlast : v.nZones < 65536)
    (hzero : v.zmap 0 = true) : Consistent v inode := by
  refine ⟨hpos, hlast, hzero, ?_, hh.distinct⟩
  intro r h₀
  have hfirst := (hh.used r h₀).first
  have hset := (hh.used r h₀).set
  rw [Volume.bit] at hset
  refine ⟨hfirst, ?_⟩
  rwa [show (refAt v inode r).toNat - v.firstDataZone + 1 =
    (refAt v inode r).toNat - (v.firstDataZone - 1) by omega]

lemma newBlock_zmapBits (v : Volume) : v.newBlock.2.zmapBits = v.zmapBits := by
  rw [Volume.newBlock]
  cases v.findFirstZero with
  | none => rfl
  | some j =>
    dsimp only
    split <;> rfl

lemma newBlock_range (hc : Consistent v inode) (h₀ : v.newBlock.1 ≠ 0) :
    v.newBlock.1.toNat < v.nZones ∧ v.bit v.newBlock.1 < v.zmapBits := by
  rw [Volume.newBlock] at h₀ ⊢
  cases hf : v.findFirstZero with
  | none =>
    rw [hf] at h₀
    exact absurd rfl h₀
  | some j =>
    rw [hf] at h₀
    dsimp only at h₀ ⊢
    have hj : j < v.zmapBits := List.mem_range.mp (List.mem_of_find?_eq_some hf)
    split at h₀
    next => exact absurd rfl h₀
    next hlt =>
      have hlast := hc.nZones_lt
      have hpos := hc.firstDataZone_pos
      rw [if_neg hlt, Volume.bit, BitVec.toNat_ofNat]
      omega

lemma Taken.inUse (hc : Consistent v inode) (h₀ : v.newBlock.1 ≠ 0)
    (ht : Taken v v.newBlock.1 v.newBlock.2) : InUse v.newBlock.2 v.newBlock.1 := by
  obtain ⟨hlt, hbit⟩ := newBlock_range hc h₀
  obtain ⟨hfirst, hset⟩ := ht.used
  have hbit' : v.newBlock.2.bit v.newBlock.1 = v.bit v.newBlock.1 := by
    rw [Volume.bit, Volume.bit, ht.firstDataZone]
  refine ⟨?_, ?_, ?_, ?_⟩
  · rw [ht.firstDataZone]
    exact hfirst
  · rw [ht.nZones]
    exact hlt
  · rw [hbit', newBlock_zmapBits]
    exact hbit
  · rw [hbit', bit_eq hc hfirst]
    exact hset

lemma Taken.free_bit (hc : Consistent v inode) (ht : Taken v z v') : v.zmap (v.bit z) = false := by
  rw [bit_eq hc ht.used.1]
  exact ht.free

lemma Taken.ne_of_marked (hc : Consistent v inode) (ht : Taken v z v') {z' : Word}
    (hz : v.zmap (v.bit z') = true) : z' ≠ z := by
  rintro rfl
  rw [ht.free_bit hc] at hz
  cases hz

lemma Extends.refl (v : Volume) (inode : MInode) : Extends v inode v inode :=
  ⟨fun _ h => absurd rfl h, fun _ _ _ _ => rfl, fun _ h => h, rfl, rfl, rfl, rfl⟩

lemma Extends.bit_eq (h : Extends v inode v' inode') (z : Word) : v'.bit z = v.bit z := by
  rw [Volume.bit, Volume.bit, h.firstDataZone]

lemma Extends.inUse (h : Extends v inode v' inode') (hz : InUse v z) : InUse v' z := by
  refine ⟨?_, ?_, ?_, ?_⟩
  · rw [h.firstDataZone]
    exact hz.first
  · rw [h.nZones]
    exact hz.lt
  · rw [h.bit_eq, h.zmapBits]
    exact hz.bit_lt
  · rw [h.bit_eq]
    exact h.zmap _ hz.set

lemma Extends.trans (h : Extends v inode v' inode') (h' : Extends v' inode' v'' inode'') :
    Extends v inode v'' inode'' where
  refs r hr := by
    by_cases hr' : refAt v'' inode'' r = refAt v' inode' r
    · rw [hr'] at hr ⊢
      obtain ⟨h₀, hfree, hused⟩ := h.refs r hr
      exact ⟨h₀, hfree, h'.inUse hused⟩
    · obtain ⟨h₀, hfree, hused⟩ := h'.refs r hr'
      have hold : refAt v inode r = 0 := by
        by_contra hne
        exact hne (h.refs r (fun he => hne (he ▸ h₀))).1
      refine ⟨hold, ?_, hused⟩
      rw [h.bit_eq] at hfree
      by_contra hset
      rw [h.zmap _ (by simpa using hset)] at hfree
      cases hfree
  data z hz hset hindex := by
    have hset' := h.zmap _ hset
    rw [← h.bit_eq] at hset'
    rw [h'.data z (by rw [h.firstDataZone]; exact hz) hset', h.data z hz hset hindex]
    intro r hr he
    by_cases hold : refAt v' inode' r = refAt v inode r
    · exact hindex r hr (hold.symm.trans he)
    · have hfree := (h.refs r hold).2.1
      rw [he, hset] at hfree
      cases hfree
  zmap j hj := h'.zmap j (h.zmap j hj)
  zmapBits := h'.zmapBits.trans h.zmapBits
  firstDataZone := h'.firstDataZone.trans h.firstDataZone
  nZones := h'.nZones.trans h.nZones
  iMode := h'.iMode.trans h.iMode

lemma refAt_newBlock (hc : Consistent v inode) (r : Ref) :
    refAt v.newBlock.2 inode r = refAt v inode r := by
  rcases newBlock_cases hc with ⟨_, hm⟩ | ht
  · exact refAt_congr (fun r _ _ => congrFun hm.data (refAt v inode r)) r
  · exact refAt_congr (fun r _ _ => ht.data_of_ne (ht.fresh hc r)) r

lemma newBlock_extends (hc : Consistent v inode) : Extends v inode v.newBlock.2 inode := by
  have hr := refAt_newBlock hc
  rcases newBlock_cases hc with ⟨_, hm⟩ | ht
  · exact ⟨fun r h => absurd (hr r) h, fun z _ _ _ => congrFun hm.data z, hm.zmap, newBlock_zmapBits v,
      hm.firstDataZone, hm.nZones, rfl⟩
  · exact ⟨fun r h => absurd (hr r) h, fun z _ hset _ => ht.data_of_ne (ht.ne_of_marked hc hset), ht.zmap,
      newBlock_zmapBits v, ht.firstDataZone, ht.nZones, rfl⟩

lemma Extends.held (h : Extends v inode v' inode') (hh : Held v inode)
    (hd : ∀ r r', refAt v' inode' r ≠ 0 → refAt v' inode' r = refAt v' inode' r' → r = r') :
    Held v' inode' where
  used r h₀ := by
    by_cases hr : refAt v' inode' r = refAt v inode r
    · rw [hr] at h₀ ⊢
      exact h.inUse (hh.used r h₀)
    · exact (h.refs r hr).2.2
  distinct := hd

lemma Grown.extends {r₀ : Ref} (hc : Consistent v inode) (ht : Taken v v.newBlock.1 v.newBlock.2)
    (hg : Grown v inode r₀ v.newBlock.1 v' inode')
    (hsame : v' = { v.newBlock.2 with data := v'.data })
    (hdata : ∀ z, v.zmap (v.bit z) = true → (∀ r : Ref, ¬ r.IsData → refAt v inode r ≠ z) →
      v'.data z = v.data z) (hmode : inode'.iMode = inode.iMode) : Extends v inode v' inode' where
  refs r hr := by
    rw [hg.refAt_eq] at hr ⊢
    by_cases hr₀ : r = r₀
    · rw [if_pos hr₀]
      refine ⟨hr₀ ▸ hg.vacant, ht.free_bit hc, ?_⟩
      have hused := ht.inUse hc hg.ne_zero
      rw [hsame]
      exact ⟨hused.first, hused.lt, hused.bit_lt, hused.set⟩
    · rw [if_neg hr₀] at hr
      exact absurd rfl hr
  data z _ := hdata z
  zmap := hg.zmap
  zmapBits := by
    rw [hsame]
    exact newBlock_zmapBits v
  firstDataZone := hg.firstDataZone
  nZones := hg.nZones
  iMode := hmode

lemma createZone_extends (hc : Consistent v inode) (k : Fin 9)
    (h : createZone true v inode k = (v', inode')) : Extends v inode v' inode' := by
  have hk : Fin.ofNat 9 k.val = k := by simp
  by_cases h₀ : inode.zone k = 0
  · rw [createZone, if_pos ⟨rfl, h₀⟩] at h
    cases h
    have hvacant : inode.iZone k = 0 := by rwa [MInode.zone, hk] at h₀
    rcases newBlock_cases hc with ⟨hz, _⟩ | ht
    · rw [hz, setZone_zero hvacant]
      exact newBlock_extends hc
    · exact (ht.grown_zone hc hvacant).extends hc ht rfl
        (fun z hset _ => ht.data_of_ne (ht.ne_of_marked hc hset)) rfl
  · rw [createZone, if_neg (fun hh => h₀ hh.2)] at h
    cases h
    exact .refl v inode

lemma createEntry_extends (hc : Consistent v inode) {r p : Ref} {k : Fin 512} (hr : r.holder = some (p, k))
    (h₀ : refAt v inode p ≠ 0) (h : createEntry true v (refAt v inode p) k = (z, v')) :
    Extends v inode v' inode := by
  by_cases hw : (v.data (refAt v inode p)).word k = 0
  · rw [createEntry, if_pos ⟨rfl, hw⟩] at h
    rcases newBlock_cases hc with ⟨hz, _⟩ | ht
    · simp only [hz, ne_eq, not_true_eq_false, if_false] at h
      cases h
      exact newBlock_extends hc
    · simp only [if_pos ht.ne_zero] at h
      cases h
      refine (ht.grown_entry hc hr h₀ hw).extends hc ht rfl ?_ rfl
      intro z hset hindex
      rw [Volume.put_data_of_ne _ _ (hindex p (holder_not_isData hr)).symm,
        ht.data_of_ne (ht.ne_of_marked hc hset)]
  · rw [createEntry, if_neg (fun hh => hw hh.2)] at h
    cases h
    exact .refl v inode

lemma Growth.extends (hc : Consistent v inode) (h : Growth v inode v' inode') :
    Extends v inode v' inode' := by
  induction h with
  | refl => exact .refl v inode
  | zone k hg hz ih => exact ih.trans (createZone_extends (hg.keeps hc).consistent k hz)
  | entry hg hr h₀ he ih => exact ih.trans (createEntry_extends (hg.keeps hc).consistent hr h₀ he)

lemma createBlock_iMode {i : ℕ} (hc : Consistent v inode) (h : createBlock v inode i = .ok (z, v', inode')) :
    inode'.iMode = inode.iMode :=
  ((createBlock_growth hc h).1.extends hc).iMode

end NewBlock

def sIsChr (m : Word) : Bool := m &&& sIfmt = 0o020000

def sIsBlk (m : Word) : Bool := m &&& sIfmt = 0o060000

def MInode.special (inode : MInode) : Prop := sIsChr inode.iMode = true ∨ sIsBlk inode.iMode = true

instance (inode : MInode) : Decidable inode.special := inferInstanceAs (Decidable (_ ∨ _))

/-- `i_zone[0]` of a special file is a device number and no block. -/
def MInode.blocks (inode : MInode) : MInode := if inode.special then inode.setZone 0 0 else inode

structure Device where
  volume : Volume
  inodes : Word → MInode

namespace Device

/-- The block that place `r` of inode `n` refers to. -/
def ref (d : Device) (n : Word) (r : Ref) : Word := refAt d.volume (d.inodes n).blocks r

def put (d : Device) (n : Word) (v : Volume) (inode : MInode) : Device :=
  ⟨v, Function.update d.inodes n inode⟩

end Device

inductive ZoneOp where
  | create (n : Word) (block : ℕ)
  | truncate (n : Word)

inductive ZoneStep (d : Device) : ZoneOp → Device → Prop
  | create {n block z v inode} : block < maxBlocks →
      createBlock d.volume (d.inodes n) block = .ok (z, v, inode) →
      ZoneStep d (.create n block) (d.put n v inode)
  | truncate {n busy v inode} : truncate busy d.volume (d.inodes n) = .ok (v, inode) →
      ZoneStep d (.truncate n) (d.put n v inode)

/-- Every block that an inode refers to is in range and marked in the zone map, and referred to from
one place of one inode. -/
structure Owned (d : Device) : Prop where
  firstDataZone_pos : 0 < d.volume.firstDataZone
  nZones_lt : d.volume.nZones < 65536
  zmap_zero : d.volume.zmap 0 = true
  used : ∀ n r, d.ref n r ≠ 0 → InUse d.volume (d.ref n r)
  once : ∀ n r n' r', d.ref n r ≠ 0 → d.ref n r = d.ref n' r' → n = n' ∧ r = r'

def zoneSystem : System Device ZoneOp where
  init := Owned
  step := ZoneStep

section Masked

variable {v v' : Volume} {inode inode' : MInode}

lemma special_congr (h : inode'.iMode = inode.iMode) : inode'.special ↔ inode.special := by
  rw [MInode.special, MInode.special, h]

lemma zone_blocks (inode : MInode) {k : ℕ} (hk : k < 9) (h₀ : inode.special → k ≠ 0) :
    inode.blocks.zone k = inode.zone k := by
  rw [MInode.blocks]
  split
  next hs =>
    have hne : Fin.ofNat 9 k ≠ Fin.ofNat 9 0 := by
      intro he
      have hv : k % 9 = 0 := congrArg Fin.val he
      exact h₀ hs (by omega)
    exact Function.update_of_ne hne _ _
  next => rfl

lemma setZone_blocks (inode : MInode) {k : ℕ} (hk : k < 9) (h₀ : inode.special → k ≠ 0) (z : Word) :
    (inode.setZone k z).blocks = inode.blocks.setZone k z := by
  have hs : (inode.setZone k z).special ↔ inode.special := Iff.rfl
  rw [MInode.blocks, MInode.blocks]
  by_cases h : inode.special
  · have hne : Fin.ofNat 9 k ≠ Fin.ofNat 9 0 := by
      intro he
      have hv : k % 9 = 0 := congrArg Fin.val he
      exact h₀ h (by omega)
    rw [if_pos (hs.mpr h), if_pos h]
    simp only [MInode.setZone]
    rw [Function.update_comm hne]
  · rw [if_neg (fun h' => h (hs.mp h')), if_neg h]

lemma createZone_blocks (create : Bool) (v : Volume) (inode : MInode) {k : ℕ} (hk : k < 9)
    (h₀ : inode.special → k ≠ 0) : createZone create v inode.blocks k =
      ((createZone create v inode k).1, (createZone create v inode k).2.blocks) := by
  rw [createZone, createZone, zone_blocks inode hk h₀]
  split
  next => rw [setZone_blocks inode hk h₀]
  next => rfl

lemma createZone_special {k : ℕ} (create : Bool) (v : Volume) (inode : MInode) :
    (createZone create v inode k).2.special ↔ inode.special := by
  rw [createZone]
  split
  next => exact Iff.rfl
  next => exact Iff.rfl

lemma createBlock_blocks {i : ℕ} {z : Word} (h₀ : inode.special → i ≠ 0)
    (h : createBlock v inode i = .ok (z, v', inode')) :
    createBlock v inode.blocks i = .ok (z, v', inode'.blocks) := by
  rw [createBlock, bmapCreate] at h ⊢
  split_ifs at h ⊢ with hmax h₁ h₂
  · cases h
    rw [createZone_blocks true v inode (by omega) h₀]
    dsimp only
    rw [zone_blocks _ (by omega) (fun hs => h₀ ((createZone_special true v inode).mp hs))]
    rfl
  · rw [createZone_blocks true v inode (by omega) (fun _ => by omega)]
    dsimp only at h ⊢
    rw [zone_blocks _ (by omega) (fun _ => by omega)]
    split_ifs at h ⊢
    · cases h
      rfl
    · cases h
      rfl
  · rw [createZone_blocks true v inode (by omega) (fun _ => by omega)]
    dsimp only at h ⊢
    rw [zone_blocks _ (by omega) (fun _ => by omega)]
    split_ifs at h ⊢
    · cases h
      rfl
    · cases h
      rfl
    · cases h
      rfl

end Masked

section Device

variable {d d' : Device} {n : Word}

lemma Owned.held (h : Owned d) (n : Word) : Held d.volume (d.inodes n).blocks :=
  ⟨h.used n, fun r r' h₀ he => (h.once n r n r' h₀ he).2⟩

lemma Owned.consistent (h : Owned d) (n : Word) : Consistent d.volume (d.inodes n).blocks :=
  (h.held n).consistent h.firstDataZone_pos h.nZones_lt h.zmap_zero

lemma ref_put_self (d : Device) (n : Word) (v : Volume) (inode : MInode) (r : Ref) :
    (d.put n v inode).ref n r = refAt v inode.blocks r := by
  rw [Device.ref, Device.put]
  dsimp only
  rw [Function.update_self]

lemma ref_put_of_ne (d : Device) {n m : Word} (hm : m ≠ n) (v : Volume) (inode : MInode) (r : Ref) :
    (d.put n v inode).ref m r = refAt v (d.inodes m).blocks r := by
  rw [Device.ref, Device.put]
  dsimp only
  rw [Function.update_of_ne hm]

/-- Inode `n` changes, and all it refers to from then on is what it referred to before or was free. -/
lemma Owned.put (h : Owned d) {v : Volume} {inode : MInode}
    (hfirst : v.firstDataZone = d.volume.firstDataZone) (hzones : v.nZones = d.volume.nZones)
    (hzero : v.zmap 0 = true) (hother : ∀ m, m ≠ n → ∀ r, refAt v (d.inodes m).blocks r = d.ref m r)
    (hused : ∀ m, m ≠ n → ∀ r, d.ref m r ≠ 0 → InUse v (d.ref m r)) (hheld : Held v inode.blocks)
    (hnew : ∀ r, refAt v inode.blocks r ≠ 0 → refAt v inode.blocks r = d.ref n r ∨
      d.volume.zmap (d.volume.bit (refAt v inode.blocks r)) = false) : Owned (d.put n v inode) := by
  have hkept : ∀ m, m ≠ n → ∀ r, (d.put n v inode).ref m r = d.ref m r := by
    intro m hm r
    rw [ref_put_of_ne d hm]
    exact hother m hm r
  have hcross : ∀ m, m ≠ n → ∀ r r', refAt v inode.blocks r ≠ 0 → refAt v inode.blocks r ≠ d.ref m r' := by
    intro m hm r r' h₀ he
    rcases hnew r h₀ with hr | hfree
    · exact hm (h.once n r m r' (hr ▸ h₀) (hr.symm.trans he)).1.symm
    · rw [he] at h₀ hfree
      rw [(h.used m r' h₀).set] at hfree
      cases hfree
  refine ⟨?_, ?_, hzero, ?_, ?_⟩
  · change 0 < v.firstDataZone
    rw [hfirst]
    exact h.firstDataZone_pos
  · change v.nZones < 65536
    rw [hzones]
    exact h.nZones_lt
  · intro m r h₀
    change InUse v _
    by_cases hm : m = n
    · subst hm
      rw [ref_put_self] at h₀ ⊢
      exact hheld.used r h₀
    · rw [hkept m hm] at h₀ ⊢
      exact hused m hm r h₀
  · intro m r m' r' h₀ heq
    by_cases hm : m = n <;> by_cases hm' : m' = n
    · rw [hm, ref_put_self] at h₀ heq
      rw [hm', ref_put_self] at heq
      exact ⟨hm.trans hm'.symm, hheld.distinct r r' h₀ heq⟩
    · rw [hm, ref_put_self] at h₀ heq
      rw [hkept m' hm'] at heq
      exact absurd heq (hcross m' hm' r r' h₀)
    · rw [heq] at h₀
      rw [hm', ref_put_self] at h₀ heq
      rw [hkept m hm] at heq
      exact absurd heq.symm (hcross m hm r' r h₀)
    · rw [hkept m hm] at h₀ heq
      rw [hkept m' hm'] at heq
      exact h.once m r m' r' h₀ heq

lemma Owned.extend (h : Owned d) {v : Volume} {inode : MInode}
    (he : Extends d.volume (d.inodes n).blocks v inode.blocks)
    (hd : ∀ r r', refAt v inode.blocks r ≠ 0 → refAt v inode.blocks r = refAt v inode.blocks r' → r = r') :
    Owned (d.put n v inode) := by
  refine h.put he.firstDataZone he.nZones (he.zmap 0 h.zmap_zero) ?_ ?_ ⟨?_, hd⟩ ?_
  · intro m hm r
    refine refAt_congr ?_ r
    intro r _ h₀
    have hused := h.used m r h₀
    refine he.data _ hused.first hused.set ?_
    intro r' _ he'
    exact hm (h.once m r n r' h₀ he'.symm).1
  · intro m _ r h₀
    exact he.inUse (h.used m r h₀)
  · intro r h₀
    by_cases hr : refAt v inode.blocks r = refAt d.volume (d.inodes n).blocks r
    · rw [hr] at h₀ ⊢
      exact he.inUse (h.used n r h₀)
    · exact (he.refs r hr).2.2
  · intro r _
    by_cases hr : refAt v inode.blocks r = refAt d.volume (d.inodes n).blocks r
    · exact Or.inl hr
    · exact Or.inr (he.refs r hr).2.1

lemma Owned.release (h : Owned d) {v : Volume} {inode : MInode}
    (hf : Freed d.volume (Blocks d.volume (d.inodes n).blocks) v) (hempty : ∀ r, refAt v inode.blocks r = 0) :
    Owned (d.put n v inode) := by
  have hdata : v.data = d.volume.data := by rw [hf.same]
  have hnone : ∀ r, ¬ refAt v inode.blocks r ≠ 0 := fun r h₀ => h₀ (hempty r)
  refine h.put (by rw [hf.same]) (by rw [hf.same]) (hf.zmap_zero h.firstDataZone_pos h.zmap_zero) ?_ ?_
    ⟨fun r h₀ => absurd h₀ (hnone r), fun r _ h₀ => absurd h₀ (hnone r)⟩ fun r h₀ => absurd h₀ (hnone r)
  · intro m _ r
    exact refAt_congr (fun r _ _ => congrFun hdata _) r
  · intro m hm r h₀
    refine hf.inUse (h.used m r h₀) ?_
    rintro ⟨_, r', he⟩
    exact hm (h.once m r n r' h₀ he.symm).1

lemma put_self (d : Device) (n : Word) : d.put n d.volume (d.inodes n) = d := by
  rw [Device.put, Function.update_eq_self]

lemma Owned.create (h : Owned d) {block : ℕ} {z : Word} {v : Volume} {inode : MInode}
    (hs : createBlock d.volume (d.inodes n) block = .ok (z, v, inode)) : Owned (d.put n v inode) := by
  have hc := h.consistent n
  by_cases h₀ : (d.inodes n).special → block ≠ 0
  · obtain ⟨hg, _⟩ := createBlock_growth hc (createBlock_blocks h₀ hs)
    exact h.extend (hg.extends hc) (hg.keeps hc).consistent.distinct
  · push Not at h₀
    obtain ⟨hspecial, rfl⟩ := h₀
    -- the device number of a special file is 0, and a block takes its place
    have hmask : ∀ z, ((d.inodes n).setZone 0 z).blocks = (d.inodes n).blocks := by
      intro z
      have hs : ((d.inodes n).setZone 0 z).special := hspecial
      rw [MInode.blocks, if_pos hs, MInode.blocks, if_pos hspecial]
      simp only [MInode.setZone, Function.update_idem]
    rw [createBlock, bmapCreate, if_neg (by decide), if_pos (by decide), createZone] at hs
    by_cases hz : (d.inodes n).zone 0 = 0
    · rw [if_pos ⟨rfl, hz⟩] at hs
      cases hs
      refine h.extend ?_ ?_
      · rw [hmask]
        exact newBlock_extends hc
      · rw [hmask]
        intro r r'
        rw [refAt_newBlock hc, refAt_newBlock hc]
        exact (h.held n).distinct r r'
    · rw [if_neg fun hh => hz hh.2] at hs
      cases hs
      rwa [put_self]

lemma not_special {inode : MInode} (h : sIsReg inode.iMode = true ∨ sIsDir inode.iMode = true) :
    ¬ inode.special := by
  simp only [MInode.special, sIsReg, sIsDir, sIsChr, sIsBlk, decide_eq_true_eq] at h ⊢
  rintro (hs | hs)
  all_goals
    rw [hs] at h
    exact absurd h (by decide)

lemma Owned.truncates (h : Owned d) (busy : Word → Bool) (n : Word) :
    ∃ v inode, truncate busy d.volume (d.inodes n) = .ok (v, inode) ∧ Owned (d.put n v inode) := by
  by_cases hmode : sIsReg (d.inodes n).iMode = true ∨ sIsDir (d.inodes n).iMode = true
  · have hplain : ∀ inode : MInode, inode.iMode = (d.inodes n).iMode → inode.blocks = inode :=
      fun inode hm => if_neg (fun hs => not_special hmode ((special_congr hm).mp hs))
    have hheld := h.held n
    rw [hplain _ rfl] at hheld
    obtain ⟨v, hv, hfreed⟩ := truncate_spec busy hheld hmode
    refine ⟨v, _, hv, h.release ?_ ?_⟩
    · rwa [hplain _ rfl]
    · rw [hplain (d.inodes n).emptied rfl]
      exact refAt_zero v fun _ => rfl
  · refine ⟨d.volume, d.inodes n, by rw [truncate, if_pos hmode], ?_⟩
    rwa [put_self]

lemma Owned.step (h : Owned d) {op : ZoneOp} (hs : ZoneStep d op d') : Owned d' := by
  cases hs with
  | create _ hc => exact h.create hc
  | @truncate n busy v inode ht =>
    obtain ⟨v', inode', ht', howned⟩ := h.truncates busy n
    rw [ht] at ht'
    cases ht'
    exact howned

lemma createBlock_returns (v : Volume) (inode : MInode) {i : ℕ} (hi : i < maxBlocks) :
    ∃ z v' inode', createBlock v inode i = .ok (z, v', inode') := by
  rw [createBlock, bmapCreate, if_neg (not_le.mpr hi)]
  split
  next => exact ⟨_, _, _, rfl⟩
  next =>
    split
    next =>
      dsimp only
      split <;> exact ⟨_, _, _, rfl⟩
    next =>
      dsimp only
      split
      next => exact ⟨_, _, _, rfl⟩
      next => split <;> exact ⟨_, _, _, rfl⟩

end Device

/-- In every run of `create_block` and `truncate` each block of each inode is in the data zone, marked
in the zone map and referred to from one place only, and both calls return. -/
theorem zones_owned (d : Device) (hd : zoneSystem.Reach (fun _ _ => True) d) :
    Owned d ∧ (∀ n block, block < maxBlocks → ∃ d', ZoneStep d (.create n block) d') ∧
      ∀ busy n, ∃ v inode, truncate busy d.volume (d.inodes n) = .ok (v, inode) ∧
        ZoneStep d (.truncate n) (d.put n v inode) := by
  have howned : Owned d := by
    refine System.Reach.invariant (I := Owned) (fun _ h => h) ?_ hd
    exact fun _ _ _ h _ hs => Owned.step h hs
  refine ⟨howned, ?_, ?_⟩
  · intro n block hblock
    obtain ⟨z, v, inode, hs⟩ := createBlock_returns d.volume (d.inodes n) hblock
    exact ⟨_, .create hblock hs⟩
  · intro busy n
    obtain ⟨v, inode, hv, _⟩ := howned.truncates busy n
    exact ⟨v, inode, hv, .truncate hv⟩

def twoZones (n : Word) : Fin 9 → Word :=
  fun k => if n = 7 ∧ k = 0 then 5 else if n = 7 ∧ k = 1 then 6 else 0

-- one file with two blocks
def twoBlocks : Device where
  volume := fullVolume fun _ => Block.zero
  inodes n := directFile n (twoZones n) 2048

lemma twoBlocks_ref {n : Word} {r : Ref} (h : twoBlocks.ref n r ≠ 0) :
    n = 7 ∧ (r = .zone 0 ∧ twoBlocks.ref n r = 5 ∨ r = .zone 1 ∧ twoBlocks.ref n r = 6) := by
  by_cases hn : n = 7
  · subst hn
    refine ⟨rfl, ?_⟩
    cases r with
    | zone k =>
      have : ∀ k : Fin 9, twoBlocks.ref 7 (.zone k) ≠ 0 →
          Ref.zone k = .zone 0 ∧ twoBlocks.ref 7 (.zone k) = 5 ∨
            Ref.zone k = .zone 1 ∧ twoBlocks.ref 7 (.zone k) = 6 := by decide
      exact this k h
    | single k => exact absurd (entryAt_zero (v := twoBlocks.volume) rfl k) h
    | table k => exact absurd (entryAt_zero (v := twoBlocks.volume) rfl k) h
    | leaf k l =>
      have h₀ : entryAt twoBlocks.volume 0 k = 0 := entryAt_zero rfl k
      exact absurd (entryAt_zero (v := twoBlocks.volume) h₀ l) h
  · have hzones : ∀ k, (twoBlocks.inodes n).blocks.iZone k = 0 := by
      intro k
      have hmode : sIsReg 0o100000 = true := by decide
      have hplain : ¬ (twoBlocks.inodes n).special := not_special (Or.inl hmode)
      rw [MInode.blocks, if_neg hplain]
      change twoZones n k = 0
      rw [twoZones, if_neg (fun h => hn h.1), if_neg (fun h => hn h.1)]
    exact absurd (refAt_zero _ hzones r) h

lemma twoBlocks_owned : Owned twoBlocks where
  firstDataZone_pos := Nat.one_pos
  nZones_lt := show 8192 < 65536 by omega
  zmap_zero := rfl
  used n r h := by
    rcases (twoBlocks_ref h).2 with ⟨_, he⟩ | ⟨_, he⟩
    all_goals
      rw [he]
      exact inUse_full _ (by decide) (by decide)
  once n r n' r' h he := by
    obtain ⟨rfl, hr⟩ := twoBlocks_ref h
    obtain ⟨rfl, hr'⟩ := twoBlocks_ref (he ▸ h)
    refine ⟨rfl, ?_⟩
    rcases hr with ⟨rfl, h₁⟩ | ⟨rfl, h₁⟩
    all_goals
      rcases hr' with ⟨rfl, h₂⟩ | ⟨rfl, h₂⟩
      all_goals first
        | rfl
        | rw [h₁, h₂] at he
          exact absurd he (by decide)

theorem zones_owned_twoBlocks :
    ∃ d, zoneSystem.Reach (fun _ _ => True) d ∧ d.ref 7 (.zone 0) = 0 ∧ Owned d := by
  have hmode : sIsReg (twoBlocks.inodes 7).iMode = true ∨ sIsDir (twoBlocks.inodes 7).iMode = true :=
    Or.inl (by decide)
  obtain ⟨v, hv, _⟩ := truncate_spec (fun _ => false) (twoBlocks_owned.held 7) hmode
  have hreach : zoneSystem.Reach (fun _ _ => True) (twoBlocks.put 7 v (twoBlocks.inodes 7).emptied) :=
    .next (.start twoBlocks_owned) trivial (.truncate hv)
  refine ⟨_, hreach, ?_, (zones_owned _ hreach).1⟩
  rw [ref_put_self]
  exact refAt_zero v (fun _ => rfl) _

end Devos.Fs
