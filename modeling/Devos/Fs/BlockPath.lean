import Devos.Fs.Ownership

/-! The places that `create_block` goes through on its way to a block, and what it fills in there. -/

namespace Devos.Fs

open Loops

/-- The bits of the zone map that are clear and stand for zones of the device. -/
def Volume.freeBits (v : Volume) : Finset ℕ :=
  (Finset.range v.zmapBits).filter fun j => v.zmap j = false ∧ j + v.firstDataZone - 1 < v.nZones

def Volume.free (v : Volume) : ℕ := v.freeBits.card

/-- Place `r` keeps its block, or gets a new one, or there is none. -/
inductive Fill (v : Volume) (inode : MInode) (r : Ref) : Word → Volume → MInode → Prop
  | kept : refAt v inode r ≠ 0 → Fill v inode r (refAt v inode r) v inode
  | refused {v'} : refAt v inode r = 0 → v.free = 0 → Marked v v' → v'.readable = v.readable →
      Fill v inode r 0 v' inode
  | given {z v' inode'} : Grown v inode r z v' inode' → v'.readable = Function.update v.readable z true →
      v'.free + 1 = v.free → Fill v inode r z v' inode'

/-- The places of `l` are filled in one after the other, and at the end place `r`, as long as each block can be read. -/
inductive Fills : Volume → MInode → List Ref → Ref → Word → Volume → MInode → Prop
  | last {v inode r z v' inode'} : Fill v inode r z v' inode' → Fills v inode [] r z v' inode'
  | stop {v inode p l r z v' inode'} : Fill v inode p z v' inode' → z = 0 ∨ ¬v'.readable z = true →
      Fills v inode (p :: l) r 0 v' inode'
  | next {v inode p l r z₁ v₁ inode₁ z v' inode'} : Fill v inode p z₁ v₁ inode₁ → z₁ ≠ 0 →
      v₁.readable z₁ = true → Fills v₁ inode₁ l r z v' inode' → Fills v inode (p :: l) r z v' inode'

/-- The index blocks on the way to a place. -/
def Ref.path : Ref → List Ref
  | .zone _ => []
  | .single _ => [.zone 7]
  | .table _ => [.zone 8]
  | .leaf k _ => [.zone 8, .table k]

def indexPath (i : ℕ) : List Ref := (blockRef i).path

/-- What `bmap` finds. -/
def mapAt (v : Volume) (inode : MInode) (i : ℕ) : Word := if IndexReadable v inode i then zoneAt v inode i else 0

section Blocks

variable {v v' : Volume} {inode inode' : MInode} {z : Word} {r p : Ref} {i j : ℕ}

lemma mem_freeBits : j ∈ v.freeBits ↔ j < v.zmapBits ∧ v.zmap j = false ∧ j + v.firstDataZone - 1 < v.nZones := by
  simp [Volume.freeBits]

/-- A block is given out if and only if there is a free one. -/
lemma newBlock_free (hc : Consistent v inode) :
    v.newBlock.1 = 0 ∧ v.free = 0 ∧ Marked v v.newBlock.2 ∧ v.newBlock.2.readable = v.readable ∨
      Taken v v.newBlock.1 v.newBlock.2 ∧ v.newBlock.2.readable = Function.update v.readable v.newBlock.1 true ∧
        v.newBlock.2.free + 1 = v.free := by
  have hcases := newBlock_cases hc
  rw [Volume.newBlock] at hcases ⊢
  cases hf : v.findFirstZero with
  | none =>
    refine Or.inl ⟨rfl, ?_, ⟨rfl, fun _ h => h, rfl, rfl⟩, rfl⟩
    apply Finset.card_eq_zero.mpr
    apply Finset.eq_empty_of_forall_notMem
    intro k hk
    obtain ⟨hlt, hclear, _⟩ := mem_freeBits.mp hk
    have hset := List.find?_eq_none.mp hf k (List.mem_range.mpr hlt)
    simp [hclear] at hset
  | some j =>
    rw [hf] at hcases
    obtain ⟨hclear, hmem, hfirst⟩ := List.find?_range_eq_some.mp hf
    have hclear : v.zmap j = false := by simpa using hclear
    have hlt := List.mem_range.mp hmem
    dsimp only at hcases ⊢
    by_cases hge : v.nZones ≤ j + v.firstDataZone - 1
    · rw [if_pos hge] at hcases ⊢
      refine Or.inl ⟨rfl, ?_, ?_, rfl⟩
      · apply Finset.card_eq_zero.mpr
        apply Finset.eq_empty_of_forall_notMem
        intro k hk
        obtain ⟨_, hk', hzone⟩ := mem_freeBits.mp hk
        have hkj : ¬k < j := by
          intro hkj
          have hset := hfirst k hkj
          simp [hk'] at hset
        omega
      · rcases hcases with ⟨_, hm⟩ | ht
        · exact hm
        · exact absurd rfl ht.ne_zero
    · rw [if_neg hge] at hcases ⊢
      refine Or.inr ⟨?_, rfl, ?_⟩
      · rcases hcases with ⟨hz, _⟩ | ht
        · -- bit 0 is set, so the zone is not 0
          have hpos : j ≠ 0 := by
            rintro rfl
            rw [hc.zmap_zero] at hclear
            cases hclear
          have hval := congrArg BitVec.toNat hz
          have hlast := hc.nZones_lt
          have hfirst := hc.firstDataZone_pos
          rw [BitVec.toNat_ofNat] at hval
          change _ = 0 at hval
          omega
        · exact ht
      · have hbit : j ∈ v.freeBits := mem_freeBits.mpr ⟨hlt, hclear, not_le.mp hge⟩
        rw [Volume.free, Volume.free, ← Finset.card_erase_add_one hbit]
        congr 2
        ext k
        rw [mem_freeBits, Finset.mem_erase, mem_freeBits]
        dsimp only
        by_cases hk : k = j
        · simp [hk]
        · simp [hk]

lemma createZone_fill (hc : Consistent v inode) (k : Fin 9) (h : createZone true v inode k = (v', inode')) :
    Fill v inode (.zone k) (inode'.zone k) v' inode' := by
  have hk : Fin.ofNat 9 k.val = k := by simp
  have hzone : ∀ inode : MInode, inode.zone k = inode.iZone k := fun inode => by rw [MInode.zone, hk]
  rw [hzone]
  by_cases h₀ : inode.iZone k = 0
  · rw [createZone, if_pos ⟨rfl, (hzone inode).trans h₀⟩] at h
    cases h
    rcases newBlock_free hc with ⟨hz, hfree, hm, hread⟩ | ⟨ht, hread, hfree⟩
    · rw [hz, setZone_zero h₀, h₀]
      exact .refused h₀ hfree hm hread
    · have hself : (inode.setZone k v.newBlock.1).iZone k = v.newBlock.1 := by
        rw [MInode.setZone, hk]
        exact Function.update_self k _ _
      rw [hself]
      exact .given (ht.grown_zone hc h₀) hread hfree
  · rw [createZone, if_neg fun hh => h₀ ((hzone inode).symm.trans hh.2)] at h
    cases h
    exact .kept h₀

lemma createEntry_fill (hc : Consistent v inode) {k : Fin 512} (hr : r.holder = some (p, k))
    (h₀ : refAt v inode p ≠ 0) (h : createEntry true v (refAt v inode p) k = (z, v')) :
    Fill v inode r z v' inode := by
  have href : refAt v inode r = (v.data (refAt v inode p)).word k := by
    rw [refAt_of_holder hr, entryAt_ne h₀]
  by_cases hw : (v.data (refAt v inode p)).word k = 0
  · rw [createEntry, if_pos ⟨rfl, hw⟩] at h
    rcases newBlock_free hc with ⟨hz, hfree, hm, hread⟩ | ⟨ht, hread, hfree⟩
    · simp only [hz, ne_eq, not_true_eq_false, if_false] at h
      cases h
      exact .refused (href.trans hw) hfree hm hread
    · simp only [if_pos ht.ne_zero] at h
      cases h
      exact .given (ht.grown_entry hc hr h₀ hw) hread hfree
  · rw [createEntry, if_neg fun hh => hw hh.2] at h
    cases h
    rw [← href] at hw ⊢
    exact .kept hw

namespace Fill

variable (h : Fill v inode r z v' inode')
include h

lemma keeps (hc : Consistent v inode) : Keeps v inode v' inode' := by
  cases h with
  | kept _ => exact .refl hc
  | refused _ _ hm _ => exact hm.keeps hc
  | given hg _ _ => exact hg.keeps hc

lemma refAt_eq (q : Ref) : refAt v' inode' q = if q = r then z else refAt v inode q := by
  cases h with
  | kept _ =>
    split
    next hq => rw [hq]
    next => rfl
  | refused h₀ _ hm _ =>
    rw [refAt_congr fun q _ _ => congrFun hm.data _]
    split
    next hq => rw [hq, h₀]
    next => rfl
  | given hg _ _ => exact hg.refAt_eq q

lemma refAt_self : refAt v' inode' r = z := by rw [h.refAt_eq, if_pos rfl]

lemma refAt_of_ne {q : Ref} (hq : q ≠ r) : refAt v' inode' q = refAt v inode q := by rw [h.refAt_eq, if_neg hq]

lemma readable_old {q : Ref} : v'.readable (refAt v inode q) = v.readable (refAt v inode q) := by
  cases h with
  | kept _ => rfl
  | refused _ _ _ hread => rw [hread]
  | given hg hread _ => rw [hread, Function.update_of_ne (hg.fresh q)]

lemma of_ne_zero (h₀ : refAt v inode r ≠ 0) : z = refAt v inode r ∧ v' = v ∧ inode' = inode := by
  cases h with
  | kept _ => exact ⟨rfl, rfl, rfl⟩
  | refused hz _ _ _ => exact absurd hz h₀
  | given hg _ _ => exact absurd hg.vacant h₀

lemma eq_zero_iff : z = 0 ↔ refAt v inode r = 0 ∧ v.free = 0 := by
  cases h with
  | kept h₀ => exact iff_of_false h₀ fun hh => h₀ hh.1
  | refused h₀ hfree _ _ => exact iff_of_true rfl ⟨h₀, hfree⟩
  | given hg _ hfree => exact iff_of_false hg.ne_zero fun hh => by omega

end Fill

lemma indexPath_eq (i : ℕ) :
    indexPath i =
      if i < 7 then []
      else if i - 7 < 512 then [.zone 7]
      else [.zone 8, .table (Fin.ofNat 512 ((i - 7 - 512) / 512))] := by
  rw [indexPath, blockRef]
  split_ifs <;> rfl

lemma indexReadable_iff (hi : i < maxBlocks) :
    IndexReadable v inode i ↔ ∀ r ∈ indexPath i, v.readable (refAt v inode r) = true := by
  have hmax : maxBlocks = 262663 := rfl
  rw [indexPath_eq]
  by_cases h₁ : i < 7
  · simp [h₁, indexReadable_direct h₁]
  · by_cases h₂ : i - 7 < 512
    · rw [if_neg h₁, if_pos h₂, indexReadable_single h₁ h₂, List.forall_mem_singleton]
      rfl
    · have hq : (i - 7 - 512) / 512 < 512 := by omega
      rw [if_neg h₁, if_neg h₂, indexReadable_leaf h₁ h₂, List.forall_mem_cons, List.forall_mem_singleton]
      simp only [refAt, Fin.val_ofNat, Nat.mod_eq_of_lt hq]
      rfl

lemma indexPath_not_isData (hp : p ∈ indexPath i) : ¬p.IsData := by
  rw [indexPath_eq] at hp
  split_ifs at hp
  · cases hp
  · rw [List.mem_singleton.mp hp]
    simp [Ref.IsData]
  · simp only [List.mem_cons, List.not_mem_nil, or_false] at hp
    rcases hp with rfl | rfl <;> simp [Ref.IsData]

lemma blockRef_notMem_indexPath : blockRef j ∉ indexPath i := fun h => indexPath_not_isData h (blockRef_isData j)

/-- Where an index block is missing, so is the block. -/
lemma zoneAt_of_index (hp : p ∈ indexPath i) (h₀ : refAt v inode p = 0) : zoneAt v inode i = 0 := by
  rw [indexPath_eq] at hp
  split_ifs at hp with h₁ h₂
  · cases hp
  · rw [List.mem_singleton.mp hp] at h₀
    rw [zoneAt, blockRef, if_neg h₁, if_pos h₂]
    exact entryAt_zero h₀ _
  · simp only [List.mem_cons, List.not_mem_nil, or_false] at hp
    rw [zoneAt, blockRef, if_neg h₁, if_neg h₂]
    rcases hp with rfl | rfl
    · exact entryAt_zero (entryAt_zero h₀ _) _
    · exact entryAt_zero h₀ _

/-- A fill at another place leaves the block where it is. -/
lemma Fill.mapAt_eq (h : Fill v inode r z v' inode') (hi : i < maxBlocks) (hr : r ≠ blockRef i) :
    mapAt v' inode' i = mapAt v inode i := by
  have hzone : zoneAt v' inode' i = zoneAt v inode i := h.refAt_of_ne hr.symm
  by_cases hvacant : refAt v inode r = 0
  swap
  · obtain ⟨_, rfl, rfl⟩ := h.of_ne_zero hvacant
    rfl
  rw [mapAt, mapAt, hzone]
  by_cases h₀ : zoneAt v inode i = 0
  · rw [h₀, ite_self, ite_self]
  · have hindex : IndexReadable v' inode' i ↔ IndexReadable v inode i := by
      rw [indexReadable_iff hi, indexReadable_iff hi]
      apply forall₂_congr
      intro p hp
      have hpr : p ≠ r := by
        rintro rfl
        exact h₀ (zoneAt_of_index hp hvacant)
      rw [h.refAt_of_ne hpr, h.readable_old]
    simp only [hindex]

lemma createBlock_fills (hc : Consistent v inode) (hi : i < maxBlocks)
    (h : createBlock v inode i = .ok (z, v', inode')) :
    Fills v inode (indexPath i) (blockRef i) z v' inode' := by
  rw [createBlock, bmapCreate, if_neg (not_le.mpr hi)] at h
  rw [indexPath_eq, blockRef]
  split at h
  next h₁ =>
    cases h
    rw [if_pos h₁, if_pos h₁]
    have hk : (Fin.ofNat 9 i).val = i := Nat.mod_eq_of_lt (by omega)
    have hfill := createZone_fill hc (Fin.ofNat 9 i) rfl
    rw [hk] at hfill
    exact .last hfill
  next h₁ =>
  rw [if_neg h₁, if_neg h₁]
  split at h
  next h₂ =>
    rw [if_pos h₂, if_pos h₂]
    cases hz : createZone true v inode 7 with
    | mk v₁ inode₁ =>
      have hfill := createZone_fill hc 7 hz
      rw [hz] at h
      dsimp only at h
      split at h
      next hstop =>
        cases h
        exact .stop hfill hstop
      next hgo =>
        cases h
        obtain ⟨h₀, hread⟩ := not_or.mp hgo
        have hr : (Ref.single (Fin.ofNat 512 (i - 7))).holder = some (.zone 7, Fin.ofNat 512 (i - 7)) := rfl
        have hk : (Fin.ofNat 512 (i - 7)).val = i - 7 := Nat.mod_eq_of_lt h₂
        refine .next hfill h₀ (not_not.mp hread) (.last (createEntry_fill (hfill.keeps hc).consistent hr h₀ ?_))
        rw [hk]
        rfl
  next h₂ =>
    rw [if_neg h₂, if_neg h₂]
    have hmax : maxBlocks = 262663 := rfl
    have hq : (Fin.ofNat 512 ((i - 7 - 512) / 512)).val = (i - 7 - 512) / 512 := Nat.mod_eq_of_lt (by omega)
    have hm : (Fin.ofNat 512 ((i - 7 - 512) % 512)).val = (i - 7 - 512) % 512 :=
      Nat.mod_eq_of_lt (Nat.mod_lt _ (by omega))
    cases hz : createZone true v inode 8 with
    | mk v₁ inode₁ =>
      have hfill := createZone_fill hc 8 hz
      have hc₁ := (hfill.keeps hc).consistent
      rw [hz] at h
      dsimp only at h
      split at h
      next hstop =>
        cases h
        exact .stop hfill hstop
      next hgo =>
        obtain ⟨h₀, hread⟩ := not_or.mp hgo
        refine .next hfill h₀ (not_not.mp hread) ?_
        have hr : (Ref.table (Fin.ofNat 512 ((i - 7 - 512) / 512))).holder = some (.zone 8, _) := rfl
        cases he : createEntry true v₁ (inode₁.zone 8) ((i - 7 - 512) / 512) with
        | mk t v₂ =>
          have hfill₂ := createEntry_fill hc₁ hr h₀ (hq.symm ▸ he)
          rw [he] at h
          dsimp only at h
          split at h
          next hstop =>
            cases h
            exact .stop hfill₂ hstop
          next hgo₂ =>
            cases h
            obtain ⟨ht, hread₂⟩ := not_or.mp hgo₂
            refine .next hfill₂ ht (not_not.mp hread₂) (.last ?_)
            have hr₂ : (Ref.leaf (Fin.ofNat 512 ((i - 7 - 512) / 512)) (Fin.ofNat 512 ((i - 7 - 512) % 512))).holder =
              some (.table (Fin.ofNat 512 ((i - 7 - 512) / 512)), _) := rfl
            have hself := hfill₂.refAt_self
            refine createEntry_fill (hfill₂.keeps hc₁).consistent hr₂ (by rwa [hself]) ?_
            rw [hself, hm]

section Paths

variable {l : List Ref}

lemma Fills.keeps (h : Fills v inode l r z v' inode') (hc : Consistent v inode) : Keeps v inode v' inode' := by
  induction h with
  | last hfill => exact hfill.keeps hc
  | stop hfill _ => exact hfill.keeps hc
  | next hfill _ _ _ ih => exact (hfill.keeps hc).trans (ih (hfill.keeps hc).consistent)

lemma Fills.refAt_last (h : Fills v inode l r z v' inode') (hz : z ≠ 0) : refAt v' inode' r = z := by
  induction h with
  | last hfill => exact hfill.refAt_self
  | stop _ _ => exact absurd rfl hz
  | next _ _ _ _ ih => exact ih hz

lemma Fills.readable_old (h : Fills v inode l r z v' inode') (hc : Consistent v inode) {q : Ref}
    (hq : refAt v inode q ≠ 0) : v'.readable (refAt v inode q) = v.readable (refAt v inode q) := by
  induction h with
  | last hfill => exact hfill.readable_old
  | stop hfill _ => exact hfill.readable_old
  | next hfill _ _ _ ih =>
    have hstable := (hfill.keeps hc).stable q hq
    rw [← hstable] at hq ⊢
    rw [ih (hfill.keeps hc).consistent hq, hstable, hfill.readable_old]

/-- The index blocks can all be read in the end. -/
lemma Fills.index_readable (h : Fills v inode l r z v' inode') (hc : Consistent v inode) (hz : z ≠ 0) :
    ∀ p ∈ l, refAt v' inode' p ≠ 0 ∧ v'.readable (refAt v' inode' p) = true := by
  induction h with
  | last _ => exact fun p hp => absurd hp List.not_mem_nil
  | stop _ _ => exact absurd rfl hz
  | @next v inode p l r z₁ v₁ inode₁ z v' inode' hfill hz₁ hread hrest ih =>
    have hc₁ := (hfill.keeps hc).consistent
    intro q hq
    rcases List.mem_cons.mp hq with rfl | hq
    · have hself := hfill.refAt_self
      rw [← hself] at hz₁ hread
      rw [(hrest.keeps hc₁).stable q hz₁, hrest.readable_old hc₁ hz₁]
      exact ⟨hz₁, hread⟩
    · exact ih hc₁ hz q hq

lemma Fills.mapAt_eq (h : Fills v inode l r z v' inode') (hj : j < maxBlocks) (hl : blockRef j ∉ l)
    (hr : z = 0 ∨ blockRef j ≠ r) : mapAt v' inode' j = mapAt v inode j := by
  induction h with
  | @last v inode r z v' inode' hfill =>
    by_cases hjr : blockRef j = r
    · obtain rfl := hr.resolve_right (not_not.mpr hjr)
      -- the place stays empty, and nothing else changes
      subst hjr
      have hvacant : zoneAt v inode j = 0 := (hfill.eq_zero_iff.mp rfl).1
      have hvacant' : zoneAt v' inode' j = 0 := hfill.refAt_self
      rw [mapAt, mapAt, hvacant, hvacant', ite_self, ite_self]
    · exact hfill.mapAt_eq hj (Ne.symm hjr)
  | stop hfill _ => exact hfill.mapAt_eq hj (List.ne_of_not_mem_cons hl).symm
  | next hfill _ _ _ ih =>
    exact (ih (List.not_mem_of_not_mem_cons hl) hr).trans (hfill.mapAt_eq hj (List.ne_of_not_mem_cons hl).symm)

end Paths

lemma bmap_of_mapAt {w : Volume} {inode₁ : MInode} (h : j < maxBlocks → mapAt w inode₁ j = mapAt v inode j) :
    bmap w inode₁ j = bmap v inode j := by
  by_cases hj : j < maxBlocks
  · rw [bmap_eq hj, bmap_eq hj]
    exact congrArg Except.ok (h hj)
  · rw [bmap, bmap, bmapCreate, bmapCreate, if_pos (not_lt.mp hj), if_pos (not_lt.mp hj)]

/-- `create_block` returns what `bmap` finds from then on, and `bmap` finds every other block where it was. -/
theorem createBlock_bmap (hc : Consistent v inode) (hi : i < maxBlocks) :
    ∃ z v' inode', createBlock v inode i = .ok (z, v', inode') ∧
      (z ≠ 0 → bmap v' inode' i = .ok z ∧ (∀ j, j ≠ i → bmap v' inode' j = bmap v inode j) ∧
        ∀ w, w ≠ 0 → bmap v inode i = .ok w → z = w) ∧
      (z = 0 → ∀ j, bmap v' inode' j = bmap v inode j) := by
  obtain ⟨z, v', inode', hrun⟩ := createBlock_returns v inode hi
  have hfills := createBlock_fills hc hi hrun
  refine ⟨z, v', inode', hrun, ?_, ?_⟩
  · intro hz
    have hzone : zoneAt v' inode' i = z := hfills.refAt_last hz
    have hmap : bmap v' inode' i = .ok z := by
      have hread : IndexReadable v' inode' i :=
        (indexReadable_iff hi).mpr fun p hp => (hfills.index_readable hc hz p hp).2
      rw [bmap_eq hi, if_pos hread, hzone]
    refine ⟨hmap, ?_, ?_⟩
    · intro j hj
      apply bmap_of_mapAt
      intro hlt
      exact hfills.mapAt_eq hlt blockRef_notMem_indexPath (Or.inr fun he => hj (blockRef_injective hlt hi he))
    · intro w hw hold
      have hfound := zone_of_bmap hold hw
      have hne : zoneAt v inode i ≠ 0 := hfound ▸ hw
      rw [← hzone, hfound]
      exact (hfills.keeps hc).stable _ hne
  · intro hz j
    apply bmap_of_mapAt
    exact fun hlt => hfills.mapAt_eq hlt blockRef_notMem_indexPath (Or.inl hz)

/-- A block that the file has, and one that it has not. -/
theorem createBlock_bmap_direct :
    ∃ z v' inode', createBlock (fullVolume fun _ => Block.zero) (directFile 7 (firstZone 5) 1024) 3 = .ok (z, v', inode') ∧
      (z = 0 → bmap v' inode' 0 = .ok 5) := by
  have hc : Consistent (fullVolume fun _ => Block.zero) (directFile 7 (firstZone 5) 1024) :=
    consistent_direct _ 7 1024 rfl rfl (firstZone_injective 5)
  obtain ⟨z, v', inode', hrun, _, hzero⟩ := createBlock_bmap hc (show 3 < maxBlocks by decide)
  exact ⟨z, v', inode', hrun, fun hz => hzero hz 0⟩

end Blocks

end Devos.Fs
