import Devos.Library.Loops
import Devos.Fs.Allocation

/-! `free_block` of `bitmap.c` and `truncate.c`, and that they give back the blocks of one file. -/

namespace Devos.Fs

open Loops

-- `block -= sb->s_firstdatazone - 1`
def Volume.bit (v : Volume) (block : Word) : ℕ := block.toNat - (v.firstDataZone - 1)

/-- `busy` tells for which blocks the cache has a buffer that someone else holds. What a free block
holds does not matter, since `new_block` clears it. -/
def freeBlock (busy : Word → Bool) (v : Volume) (block : Word) : Except Fault Volume :=
  if block.toNat < v.firstDataZone ∨ v.nZones ≤ block.toNat then .error .panic
  else if busy block then .ok v
  else if v.zmapBits ≤ v.bit block then .error .badPointer
  else if v.zmap (v.bit block) = false then .error .panic
  else .ok { v with zmap := Function.update v.zmap (v.bit block) false }

def freeListed (busy : Word → Bool) (free : Volume → Word → Except Fault Volume) (v : Volume)
    (block : Word) : Except Fault Volume :=
  if block = 0 then .ok v
  else
    (if v.readable block then
        forLoopE (fun i w =>
          if (v.data block).word i = 0 then .ok w else free w ((v.data block).word i)) v 512
      else .ok v).bind fun v => freeBlock busy v block

def freeInd (busy : Word → Bool) : Volume → Word → Except Fault Volume :=
  freeListed busy (freeBlock busy)

def freeDind (busy : Word → Bool) : Volume → Word → Except Fault Volume :=
  freeListed busy (freeInd busy)

def freeZone (busy : Word → Bool) (i : ℕ) (s : Volume × MInode) : Except Fault (Volume × MInode) :=
  if s.2.zone i = 0 then .ok s
  else (freeBlock busy s.1 (s.2.zone i)).map fun v => (v, s.2.setZone i 0)

def truncate (busy : Word → Bool) (v : Volume) (inode : MInode) : Except Fault (Volume × MInode) :=
  if ¬ (sIsReg inode.iMode = true ∨ sIsDir inode.iMode = true) then .ok (v, inode)
  else
    (forLoopE (freeZone busy) (v, inode) 7).bind fun s =>
    (freeInd busy s.1 (s.2.zone 7)).bind fun v =>
    (freeDind busy v (s.2.zone 8)).map fun v =>
      (v, { (s.2.setZone 7 0).setZone 8 0 with iSize := 0 })

structure InUse (v : Volume) (z : Word) : Prop where
  first : v.firstDataZone ≤ z.toNat
  lt : z.toNat < v.nZones
  bit_lt : v.bit z < v.zmapBits
  set : v.zmap (v.bit z) = true

/-- Some bits of the zone map have been cleared, all of them for blocks of `S`. -/
structure Freed (v : Volume) (S : Set Word) (v' : Volume) : Prop where
  same : v' = { v with zmap := v'.zmap }
  old : ∀ j, v'.zmap j = true → v.zmap j = true
  cleared : ∀ j, v.zmap j = true → v'.zmap j = true ∨ ∃ z ∈ S, InUse v z ∧ v.bit z = j

section Free

variable {v v' v'' w : Volume} {S T : Set Word} {z z' block : Word} {busy : Word → Bool}

lemma bit_injective (hz : v.firstDataZone ≤ z.toNat) (hz' : v.firstDataZone ≤ z'.toNat)
    (h : v.bit z = v.bit z') : z = z' := by
  apply BitVec.eq_of_toNat_eq
  simp only [Volume.bit] at h
  omega

lemma inUse_full (data : Word → Block) (h₁ : 1 ≤ z.toNat) (h₂ : z.toNat < 8192) : InUse (fullVolume data) z :=
  ⟨h₁, h₂, h₂, rfl⟩

lemma Freed.refl (v : Volume) (S : Set Word) : Freed v S v := ⟨rfl, fun _ h => h, fun _ h => Or.inl h⟩

lemma Freed.bit_eq (h : Freed v S v') (z : Word) : v'.bit z = v.bit z := by
  rw [h.same]
  rfl

lemma Freed.of_inUse (h : Freed v S v') (hz : InUse v' z) : InUse v z := by
  have hset := hz.set
  have hbit := hz.bit_lt
  have hfirst := hz.first
  have hlt := hz.lt
  rw [h.bit_eq] at hset hbit
  rw [h.same] at hbit hfirst hlt
  exact ⟨hfirst, hlt, hbit, h.old _ hset⟩

lemma Freed.inUse (h : Freed v S v') (hz : InUse v z) (hnot : z ∉ S) : InUse v' z := by
  have hset : v'.zmap (v.bit z) = true := by
    rcases h.cleared _ hz.set with hset | ⟨z', hz', hused, hbit⟩
    · exact hset
    · rw [bit_injective hused.first hz.first hbit] at hz'
      exact absurd hz' hnot
  refine ⟨?_, ?_, ?_, ?_⟩
  · rw [h.same]
    exact hz.first
  · rw [h.same]
    exact hz.lt
  · rw [h.bit_eq, h.same]
    exact hz.bit_lt
  · rw [h.bit_eq]
    exact hset

lemma Freed.zmap_zero (h : Freed v S v') (hpos : 0 < v.firstDataZone) (hzero : v.zmap 0 = true) :
    v'.zmap 0 = true := by
  rcases h.cleared 0 hzero with hset | ⟨z, _, hused, hbit⟩
  · exact hset
  · have hfirst := hused.first
    rw [Volume.bit] at hbit
    omega

lemma Freed.trans (h : Freed v S v') (h' : Freed v' T v'') : Freed v (S ∪ T) v'' where
  same := by
    rw [h'.same, h.same]
  old j hj := h.old j (h'.old j hj)
  cleared j hj := by
    rcases h.cleared j hj with hj | ⟨z, hz, hused, hbit⟩
    · rcases h'.cleared j hj with hj | ⟨z, hz, hused, hbit⟩
      · exact Or.inl hj
      · exact Or.inr ⟨z, Or.inr hz, h.of_inUse hused, (h.bit_eq z).symm.trans hbit⟩
    · exact Or.inr ⟨z, Or.inl hz, hused, hbit⟩

lemma Freed.mono (h : Freed v S v') (hST : S ⊆ T) : Freed v T v' :=
  ⟨h.same, h.old, fun j hj => (h.cleared j hj).imp_right
    (fun ⟨z, hz, hused, hbit⟩ => ⟨z, hST hz, hused, hbit⟩)⟩

lemma freeBlock_spec (busy : Word → Bool) (hz : InUse v z) :
    ∃ v', freeBlock busy v z = .ok v' ∧ Freed v {z} v' := by
  have hrange : ¬ (z.toNat < v.firstDataZone ∨ v.nZones ≤ z.toNat) :=
    not_or.mpr ⟨not_lt.mpr hz.first, not_le.mpr hz.lt⟩
  have hset : ¬ v.zmap (v.bit z) = false := by
    rw [hz.set]
    decide
  rw [freeBlock, if_neg hrange]
  by_cases hbusy : busy z = true
  · exact ⟨v, if_pos hbusy, .refl v _⟩
  · rw [if_neg hbusy, if_neg (not_le.mpr hz.bit_lt), if_neg hset]
    refine ⟨_, rfl, rfl, ?_, ?_⟩
    · intro j hj
      by_cases hb : j = v.bit z
      · rw [hb]
        exact hz.set
      · dsimp only at hj
        rwa [Function.update_of_ne hb] at hj
    · intro j hj
      by_cases hb : j = v.bit z
      · exact Or.inr ⟨z, rfl, hz, hb.symm⟩
      · left
        dsimp only
        rwa [Function.update_of_ne hb]

/-- `S i` is what freeing entry `i` gives back. -/
lemma freeListed_spec (busy : Word → Bool) {free : Volume → Word → Except Fault Volume} (S : ℕ → Set Word)
    (hblock : block ≠ 0 → InUse v block) (hnot : ∀ i, i < 512 → block ∉ S i)
    (hdisjoint : ∀ i j, i < 512 → j < 512 → ∀ z, z ∈ S i → z ∈ S j → i = j)
    (hfree : ∀ i, i < 512 → block ≠ 0 → (v.data block).word i ≠ 0 →
      ∀ T w, Freed v T w → (∀ z ∈ S i, z ∉ T) →
        ∃ w', free w ((v.data block).word i) = .ok w' ∧ Freed w (S i) w') :
    ∃ v', freeListed busy free v block = .ok v' ∧
      Freed v {z | block ≠ 0 ∧ (z = block ∨ ∃ i, i < 512 ∧ z ∈ S i)} v' := by
  rw [freeListed]
  by_cases h₀ : block = 0
  · exact ⟨v, if_pos h₀, .refl v _⟩
  · rw [if_neg h₀]
    have hentries : ∃ w, (if v.readable block then
        forLoopE (fun i w =>
          if (v.data block).word i = 0 then .ok w else free w ((v.data block).word i)) v 512
        else .ok v) = .ok w ∧ Freed v {z | ∃ i, i < 512 ∧ z ∈ S i} w := by
      by_cases hr : v.readable block = true
      · rw [if_pos hr]
        refine forLoopE_induction (P := fun n w => Freed v {z | ∃ i, i < n ∧ z ∈ S i} w) (.refl v _) ?_
        intro i w hi hw
        by_cases he : (v.data block).word i = 0
        · exact ⟨w, if_pos he, hw.mono fun z ⟨j, hj, hz⟩ => ⟨j, by omega, hz⟩⟩
        · have hout : ∀ z ∈ S i, z ∉ {z | ∃ j, j < i ∧ z ∈ S j} := by
            rintro z hz ⟨j, hj, hz'⟩
            have := hdisjoint i j hi (hj.trans hi) z hz hz'
            omega
          obtain ⟨w', hw', hfreed⟩ := hfree i hi h₀ he _ w hw hout
          refine ⟨w', by rw [if_neg he, hw'], (hw.trans hfreed).mono ?_⟩
          rintro z (⟨j, hj, hz⟩ | hz)
          · exact ⟨j, by omega, hz⟩
          · exact ⟨i, by omega, hz⟩
      · exact ⟨v, if_neg hr, .refl v _⟩
    obtain ⟨w, hw, hfreed⟩ := hentries
    have hused : InUse w block := by
      refine hfreed.inUse (hblock h₀) ?_
      rintro ⟨i, hi, hz⟩
      exact hnot i hi hz
    obtain ⟨v', hv', hlast⟩ := freeBlock_spec busy hused
    refine ⟨v', by rw [hw, Except.bind, hv'], (hfreed.trans hlast).mono ?_⟩
    rintro z (⟨i, hi, hz⟩ | hz)
    · exact ⟨h₀, Or.inr ⟨i, hi, hz⟩⟩
    · exact ⟨h₀, Or.inl hz⟩

end Free

def Ref.level : Ref → ℕ
  | .zone _ => 0
  | .single _ => 1
  | .table _ => 1
  | .leaf _ _ => 2

/-- `r` is `p`, or stands in an indirect block that is reached through `p`. -/
inductive Ref.Below (p : Ref) : Ref → Prop
  | self : Below p p
  | entry {r q : Ref} {k : Fin 512} : r.holder = some (q, k) → Below p q → Below p r

section Tree

variable {p q r c c' : Ref} {k : Fin 512}

lemma level_holder (h : r.holder = some (p, k)) : r.level = p.level + 1 := by
  cases r <;> cases h <;> rfl

lemma level_below (h : p.Below r) : p.level ≤ r.level := by
  induction h with
  | self => exact le_refl _
  | entry hr _ ih =>
    rw [level_holder hr]
    omega

lemma below_of_child (hc : c.holder = some (p, k)) (h : c.Below r) : p.Below r := by
  induction h with
  | self => exact .entry hc .self
  | entry hr _ ih => exact .entry hr ih

lemma not_below_child (hc : c.holder = some (p, k)) : ¬ c.Below p := by
  intro h
  have hle := level_below h
  rw [level_holder hc] at hle
  omega

lemma below_unique (h : c.Below r) (h' : c'.Below r) (hlevel : c.level = c'.level) : c = c' := by
  induction h with
  | self =>
    cases h' with
    | self => rfl
    | entry hr hq =>
      have hle := level_below hq
      rw [level_holder hr] at hlevel
      omega
  | @entry r q k hr hq ih =>
    cases h' with
    | self =>
      have hle := level_below hq
      rw [level_holder hr] at hlevel
      omega
    | entry hr' hq' =>
      rw [hr] at hr'
      cases hr'
      exact ih hq'

end Tree

/-- Every block of the file is in range and marked in the zone map, and used in one place only. -/
structure Held (v : Volume) (inode : MInode) : Prop where
  used : ∀ r, refAt v inode r ≠ 0 → InUse v (refAt v inode r)
  distinct : ∀ r r', refAt v inode r ≠ 0 → refAt v inode r = refAt v inode r' → r = r'

def Under (v : Volume) (inode : MInode) (p : Ref) : Set Word :=
  {z | z ≠ 0 ∧ ∃ r, p.Below r ∧ refAt v inode r = z}

def FreesUnder (v : Volume) (inode : MInode) (free : Volume → Word → Except Fault Volume) (p : Ref) :
    Prop :=
  ∀ T w, Freed v T w → (∀ z ∈ Under v inode p, z ∉ T) →
    ∃ w', free w (refAt v inode p) = .ok w' ∧ Freed w (Under v inode p) w'

section Truncating

variable {v w : Volume} {inode : MInode} {p c : Ref} {k : Fin 512}
  {free : Volume → Word → Except Fault Volume}

lemma under_child (hc : c.holder = some (p, k)) : Under v inode c ⊆ Under v inode p :=
  fun _ ⟨h₀, r, hr, he⟩ => ⟨h₀, r, below_of_child hc hr, he⟩

lemma freeBlock_under (busy : Word → Bool) (hh : Held v inode) (h₀ : refAt v inode p ≠ 0) :
    FreesUnder v inode (freeBlock busy) p := by
  intro T w hw hT
  have hmem : refAt v inode p ∈ Under v inode p := ⟨h₀, p, .self, rfl⟩
  obtain ⟨w', hw', hfreed⟩ := freeBlock_spec busy (hw.inUse (hh.used p h₀) (hT _ hmem))
  refine ⟨w', hw', hfreed.mono ?_⟩
  rintro z rfl
  exact hmem

lemma freeListed_under (busy : Word → Bool) (hh : Held v inode)
    (hchild : ∀ k : Fin 512, ∃ c : Ref, c.holder = some (p, k))
    (hfree : ∀ c k, c.holder = some (p, k) → refAt v inode c ≠ 0 → FreesUnder v inode free c) :
    FreesUnder v inode (freeListed busy free) p := by
  intro T w hw hT
  choose c hc using hchild
  have hdata : w.data = v.data := by rw [hw.same]
  let S (i : ℕ) : Set Word := {z | ∃ hi : i < 512, z ∈ Under v inode (c ⟨i, hi⟩)}
  have hsub : ∀ i, S i ⊆ Under v inode p := fun i z ⟨hi, hz⟩ => under_child (hc ⟨i, hi⟩) hz
  have hentry : ∀ (i : ℕ) (hi : i < 512), refAt v inode p ≠ 0 →
      (w.data (refAt v inode p)).word i = refAt v inode (c ⟨i, hi⟩) := by
    intro i hi h₀
    rw [refAt_of_holder (hc ⟨i, hi⟩), entryAt_ne h₀, hdata]
  have hlist : ∃ w', freeListed busy free w (refAt v inode p) = .ok w' ∧
      Freed w {z | refAt v inode p ≠ 0 ∧ (z = refAt v inode p ∨ ∃ i, i < 512 ∧ z ∈ S i)} w' := by
    refine freeListed_spec busy S ?_ ?_ ?_ ?_
    · exact fun h₀ => hw.inUse (hh.used p h₀) (hT _ ⟨h₀, p, .self, rfl⟩)
    · rintro i _ ⟨hi, h₀, r, hr, he⟩
      rw [← hh.distinct p r h₀ he.symm] at hr
      exact not_below_child (hc ⟨i, hi⟩) hr
    · rintro i j _ _ z ⟨hi, h₀, r, hr, he⟩ ⟨hj, _, r', hr', he'⟩
      rw [← hh.distinct r r' (he ▸ h₀) (he.trans he'.symm)] at hr'
      have hcc := below_unique hr hr' (by rw [level_holder (hc ⟨i, hi⟩), level_holder (hc ⟨j, hj⟩)])
      have hk := hc ⟨i, hi⟩
      rw [hcc, hc ⟨j, hj⟩] at hk
      cases hk
      rfl
    · intro i hi h₀ hne T' w' hw' hT'
      rw [hentry i hi h₀] at hne ⊢
      obtain ⟨w'', hw'', hfreed⟩ := hfree _ _ (hc ⟨i, hi⟩) hne (T ∪ T') w' (hw.trans hw') (by
        rintro z hz (hz' | hz')
        · exact hT z (under_child (hc ⟨i, hi⟩) hz) hz'
        · exact hT' z ⟨hi, hz⟩ hz')
      exact ⟨w'', hw'', hfreed.mono fun z hz => ⟨hi, hz⟩⟩
  obtain ⟨w', hw', hfreed⟩ := hlist
  refine ⟨w', hw', hfreed.mono ?_⟩
  rintro z ⟨h₀, rfl | ⟨i, _, hz⟩⟩
  · exact ⟨h₀, p, .self, rfl⟩
  · exact hsub i hz

lemma freeInd_under (busy : Word → Bool) (hh : Held v inode)
    (hchild : ∀ k : Fin 512, ∃ c : Ref, c.holder = some (p, k)) :
    FreesUnder v inode (freeInd busy) p :=
  freeListed_under busy hh hchild fun _ _ _ h₀ => freeBlock_under busy hh h₀

lemma freeDind_under (busy : Word → Bool) (hh : Held v inode) :
    FreesUnder v inode (freeDind busy) (.zone 8) := by
  refine freeListed_under busy hh (fun k => ⟨.table k, rfl⟩) ?_
  intro c k hc _
  cases c with
  | table k => exact freeInd_under busy hh fun l => ⟨.leaf k l, rfl⟩
  | zone k => cases hc
  | single k => cases hc
  | leaf k l => cases hc

def MInode.emptied (inode : MInode) : MInode := { inode with iZone := fun _ => 0, iSize := 0 }

lemma refAt_zero (v : Volume) {inode : MInode} (h : ∀ k, inode.iZone k = 0) (r : Ref) :
    refAt v inode r = 0 := by
  cases r with
  | zone k => exact h k
  | single k => exact entryAt_zero (h 7) k
  | table k => exact entryAt_zero (h 8) k
  | leaf k l => exact entryAt_zero (entryAt_zero (h 8) k) l

def Blocks (v : Volume) (inode : MInode) : Set Word := {z | z ≠ 0 ∧ ∃ r, refAt v inode r = z}

def MInode.cut (inode : MInode) (i : ℕ) : MInode :=
  { inode with iZone := fun k => if k.val < i then 0 else inode.iZone k }

lemma cut_zone (inode : MInode) {i : ℕ} (hi : i < 9) :
    (inode.cut i).zone i = inode.iZone (Fin.ofNat 9 i) := by
  have hk : (Fin.ofNat 9 i).val = i := Nat.mod_eq_of_lt hi
  change (if (Fin.ofNat 9 i).val < i then 0 else inode.iZone (Fin.ofNat 9 i)) = _
  rw [if_neg (by omega)]

lemma cut_setZone (inode : MInode) {i : ℕ} (hi : i < 9) : (inode.cut i).setZone i 0 = inode.cut (i + 1) := by
  have hk : (Fin.ofNat 9 i).val = i := Nat.mod_eq_of_lt hi
  rw [MInode.setZone, MInode.cut, MInode.cut]
  congr 1
  funext k
  by_cases hki : k = Fin.ofNat 9 i
  · rw [hki, Function.update_self, if_pos (by omega)]
  · have hne : k.val ≠ i := fun h => hki (Fin.ext (h.trans hk.symm))
    rw [Function.update_of_ne hki]
    exact if_congr (by omega) rfl rfl

lemma cut_all (inode : MInode) : { inode.cut 9 with iSize := 0 } = inode.emptied := by
  have hzones : (inode.cut 9).iZone = fun _ => 0 := funext fun k => if_pos k.isLt
  exact congrArg (fun z => ({ inode with iZone := z, iSize := 0 } : MInode)) hzones

def Direct (inode : MInode) (i : ℕ) : Set Word := {z | z ≠ 0 ∧ ∃ k : Fin 9, k.val < i ∧ inode.iZone k = z}

lemma freeZone_spec (busy : Word → Bool) (hh : Held v inode) {i : ℕ} (hi : i < 9)
    (hw : Freed v (Direct inode i) w) :
    ∃ w', freeZone busy i (w, inode.cut i) = .ok (w', inode.cut (i + 1)) ∧
      Freed v (Direct inode (i + 1)) w' := by
  have hk : (Fin.ofNat 9 i).val = i := Nat.mod_eq_of_lt hi
  rw [freeZone]
  dsimp only
  by_cases h₀ : (inode.cut i).zone i = 0
  · refine ⟨w, ?_, hw.mono fun z ⟨hz, k, hk, he⟩ => ⟨hz, k, by omega, he⟩⟩
    rw [if_pos h₀, ← cut_setZone inode hi, MInode.setZone]
    congr 2
    rw [← h₀]
    exact congrArg (fun z => { inode.cut i with iZone := z })
      (Function.update_eq_self (Fin.ofNat 9 i) (inode.cut i).iZone).symm
  · rw [if_neg h₀, cut_setZone inode hi]
    rw [cut_zone inode hi] at h₀ ⊢
    have hout : inode.iZone (Fin.ofNat 9 i) ∉ Direct inode i := by
      rintro ⟨_, k, hki, he⟩
      have hr := hh.distinct (.zone (Fin.ofNat 9 i)) (.zone k) h₀ he.symm
      cases hr
      omega
    obtain ⟨w', hw', hfreed⟩ :=
      freeBlock_spec busy (hw.inUse (hh.used (.zone (Fin.ofNat 9 i)) h₀) hout)
    change freeBlock busy w (inode.iZone (Fin.ofNat 9 i)) = _ at hw'
    refine ⟨w', by rw [hw', Except.map], (hw.trans hfreed).mono ?_⟩
    rintro z (⟨hz, k, hki, he⟩ | rfl)
    · exact ⟨hz, k, by omega, he⟩
    · exact ⟨h₀, Fin.ofNat 9 i, by omega, rfl⟩

theorem truncate_spec (busy : Word → Bool) (hh : Held v inode)
    (hmode : sIsReg inode.iMode = true ∨ sIsDir inode.iMode = true) :
    ∃ v', truncate busy v inode = .ok (v', inode.emptied) ∧ Freed v (Blocks v inode) v' := by
  have hloop : ∃ s, forLoopE (freeZone busy) (v, inode) 7 = .ok s ∧
      Freed v (Direct inode 7) s.1 ∧ s.2 = inode.cut 7 := by
    refine forLoopE_induction (P := fun i (s : Volume × MInode) => Freed v (Direct inode i) s.1 ∧ s.2 = inode.cut i)
      ⟨.refl v _, rfl⟩ ?_
    rintro i ⟨w, inode'⟩ hi ⟨hw, rfl⟩
    obtain ⟨w', hw', hfreed⟩ := freeZone_spec busy hh (by omega) hw
    exact ⟨_, hw', hfreed, rfl⟩
  obtain ⟨⟨w, inode'⟩, hw, hfreed, rfl⟩ := hloop
  have hdirect : ∀ p : Ref, p.level = 0 → (∀ k : Fin 9, k.val < 7 → p ≠ .zone k) →
      ∀ z ∈ Under v inode p, z ∉ Direct inode 7 := by
    rintro p hp hne z ⟨h₀, r, hr, he⟩ ⟨_, k, hk, he'⟩
    have hrk : r = .zone k := hh.distinct r (.zone k) (he ▸ h₀) (he.trans he'.symm)
    subst hrk
    exact hne k hk (below_unique hr .self hp)
  have hsplit : ∀ z ∈ Under v inode (.zone 8), z ∉ Under v inode (.zone 7) := by
    rintro z ⟨h₀, r, hr, he⟩ ⟨_, r', hr', he'⟩
    rw [hh.distinct r r' (he ▸ h₀) (he.trans he'.symm)] at hr
    cases below_unique hr hr' rfl
  obtain ⟨w₁, hw₁, hfreed₁⟩ := freeInd_under busy hh (fun k => ⟨.single k, rfl⟩) (Direct inode 7) w hfreed
    (hdirect (.zone 7) rfl (by rintro k hk h; cases h; exact absurd hk (by decide)))
  obtain ⟨w₂, hw₂, hfreed₂⟩ := freeDind_under busy hh (Direct inode 7 ∪ Under v inode (.zone 7)) w₁
    (hfreed.trans hfreed₁) (by
      rintro z hz (hz' | hz')
      · exact hdirect (.zone 8) rfl (by rintro k hk h; cases h; exact absurd hk (by decide)) z hz hz'
      · exact hsplit z hz hz')
  refine ⟨w₂, ?_, ((hfreed.trans hfreed₁).trans hfreed₂).mono ?_⟩
  · have hlast : { ((inode.cut 7).setZone 7 0).setZone 8 0 with iSize := 0 } = inode.emptied := by
      rw [cut_setZone inode (by decide), cut_setZone inode (by decide), cut_all]
    have h₇ : (inode.cut 7).zone 7 = refAt v inode (.zone 7) := cut_zone inode (by decide)
    have h₈ : (inode.cut 7).zone 8 = refAt v inode (.zone 8) := rfl
    rw [truncate, if_neg (not_not.mpr hmode), hw]
    simp only [Except.bind, h₇, hw₁, h₈, hw₂, Except.map, hlast]
  · rintro z ((⟨hz, k, _, he⟩ | ⟨hz, r, _, he⟩) | ⟨hz, r, _, he⟩)
    · exact ⟨hz, .zone k, he⟩
    · exact ⟨hz, r, he⟩
    · exact ⟨hz, r, he⟩

end Truncating

end Devos.Fs
