import Devos.Fs.Layout

/-! The blocks that `new_block` gives out, and what `create_block` makes of a file. -/

namespace Devos.Fs

def Ref.holder : Ref → Option (Ref × Fin 512)
  | .zone _ => none
  | .single k => some (.zone 7, k)
  | .table k => some (.zone 8, k)
  | .leaf k l => some (.table k, l)

section Holders

variable {v : Volume} {inode : MInode} {r r' p : Ref} {k : Fin 512}

lemma refAt_of_holder (h : r.holder = some (p, k)) : refAt v inode r = entryAt v (refAt v inode p) k := by
  cases r <;> cases h <;> rfl

lemma holder_injective {x : Ref × Fin 512} (h : r.holder = some x) (h' : r'.holder = some x) : r = r' := by
  cases r <;> cases r' <;> cases h <;> cases h' <;> rfl

lemma holder_not_isData (h : r.holder = some (p, k)) : ¬ p.IsData := by
  cases r <;> cases h <;> simp [Ref.IsData]

lemma holder_ne (h : r.holder = some (p, k)) : r ≠ p := by
  rintro rfl
  cases r <;> cases h

end Holders

def stored (v : Volume) (inode : MInode) (i : ℕ) : Block := (content v inode i).getD Block.zero

lemma stored_eq (v : Volume) (inode : MInode) {i : ℕ} (hi : i < maxBlocks) :
    stored v inode i = if zoneAt v inode i = 0 then Block.zero else v.data (zoneAt v inode i) := by
  rw [stored, content]
  by_cases hz : zoneAt v inode i = 0
  · rw [if_pos hz, if_neg (fun h => h.2 hz)]
    rfl
  · rw [if_neg hz, if_pos ⟨hi, hz⟩]
    rfl

lemma stored_of_ge (v : Volume) (inode : MInode) {i : ℕ} (hi : maxBlocks ≤ i) :
    stored v inode i = Block.zero := by
  rw [stored, content, if_neg (fun h => absurd h.1 (not_lt.mpr hi))]
  rfl

structure Keeps (v : Volume) (inode : MInode) (v' : Volume) (inode' : MInode) : Prop where
  consistent : Consistent v' inode'
  same : ∀ i, stored v' inode' i = stored v inode i
  stable : ∀ r, refAt v inode r ≠ 0 → refAt v' inode' r = refAt v inode r
  iSize : inode'.iSize = inode.iSize
  iNum : inode'.iNum = inode.iNum

lemma Keeps.refl {v : Volume} {inode : MInode} (hc : Consistent v inode) : Keeps v inode v inode :=
  ⟨hc, fun _ => rfl, fun _ _ => rfl, rfl, rfl⟩

lemma Keeps.trans {v v' v'' : Volume} {inode inode' inode'' : MInode} (h : Keeps v inode v' inode')
    (h' : Keeps v' inode' v'' inode'') : Keeps v inode v'' inode'' where
  consistent := h'.consistent
  same i := (h'.same i).trans (h.same i)
  stable r hr := by
    have hr' := h.stable r hr
    exact (h'.stable r (hr' ▸ hr)).trans hr'
  iSize := h'.iSize.trans h.iSize
  iNum := h'.iNum.trans h.iNum

structure Grown (v : Volume) (inode : MInode) (r₀ : Ref) (z : Word) (v' : Volume) (inode' : MInode) :
    Prop where
  vacant : refAt v inode r₀ = 0
  held : ∀ (p : Ref) (k : Fin 512), r₀.holder = some (p, k) → refAt v inode p ≠ 0
  ne_zero : z ≠ 0
  fresh : ∀ r, refAt v inode r ≠ z
  zone : ∀ k, inode'.iZone k = if Ref.zone k = r₀ then z else inode.iZone k
  entry : ∀ (r p : Ref) (k : Fin 512), r.holder = some (p, k) → refAt v inode p ≠ 0 →
    (v'.data (refAt v inode p)).word k = if r = r₀ then z else (v.data (refAt v inode p)).word k
  blank : v'.data z = Block.zero
  data : ∀ r, r.IsData → refAt v inode r ≠ 0 → v'.data (refAt v inode r) = v.data (refAt v inode r)
  used : v.firstDataZone ≤ z.toNat ∧ v'.zmap (z.toNat - v.firstDataZone + 1) = true
  zmap : ∀ j, v.zmap j = true → v'.zmap j = true
  firstDataZone : v'.firstDataZone = v.firstDataZone
  nZones : v'.nZones = v.nZones
  iSize : inode'.iSize = inode.iSize
  iNum : inode'.iNum = inode.iNum

namespace Grown

variable {v v' : Volume} {inode inode' : MInode} {r₀ : Ref} {z : Word}

lemma refAt_entry (hg : Grown v inode r₀ z v' inode') {r p : Ref} {k : Fin 512}
    (hr : r.holder = some (p, k))
    (hp : refAt v' inode' p = if p = r₀ then z else refAt v inode p) :
    refAt v' inode' r = if r = r₀ then z else refAt v inode r := by
  rw [refAt_of_holder hr, hp, refAt_of_holder hr]
  by_cases hpr : p = r₀
  · rw [if_pos hpr, entryAt_ne hg.ne_zero, hg.blank, Block.word_zero, if_neg (hpr ▸ holder_ne hr), hpr,
      hg.vacant, entryAt_zero rfl]
  · rw [if_neg hpr]
    by_cases h₀ : refAt v inode p = 0
    · have hne : r ≠ r₀ := by
        rintro rfl
        exact hg.held p k hr h₀
      rw [if_neg hne, h₀, entryAt_zero rfl, entryAt_zero rfl]
    · rw [entryAt_ne h₀, entryAt_ne h₀, hg.entry r p k hr h₀]

theorem refAt_eq (hg : Grown v inode r₀ z v' inode') (r : Ref) :
    refAt v' inode' r = if r = r₀ then z else refAt v inode r := by
  cases r with
  | zone k => exact hg.zone k
  | single k => exact hg.refAt_entry (p := .zone 7) (k := k) rfl (hg.zone 7)
  | table k => exact hg.refAt_entry (p := .zone 8) (k := k) rfl (hg.zone 8)
  | leaf k l =>
    exact hg.refAt_entry (p := .table k) (k := l) rfl
      (hg.refAt_entry (p := .zone 8) (k := k) rfl (hg.zone 8))

lemma consistent (hg : Grown v inode r₀ z v' inode') (hc : Consistent v inode) :
    Consistent v' inode' where
  firstDataZone_pos := hg.firstDataZone ▸ hc.firstDataZone_pos
  nZones_lt := hg.nZones ▸ hc.nZones_lt
  zmap_zero := hg.zmap 0 hc.zmap_zero
  used r h := by
    rw [hg.refAt_eq] at h ⊢
    rw [hg.firstDataZone]
    by_cases hr : r = r₀
    · rw [if_pos hr]
      exact hg.used
    · rw [if_neg hr] at h ⊢
      obtain ⟨hle, hbit⟩ := hc.used r h
      exact ⟨hle, hg.zmap _ hbit⟩
  distinct r r' h he := by
    rw [hg.refAt_eq] at h
    rw [hg.refAt_eq, hg.refAt_eq] at he
    by_cases hr : r = r₀
    · by_cases hr' : r' = r₀
      · rw [hr, hr']
      · rw [if_pos hr, if_neg hr'] at he
        exact absurd he.symm (hg.fresh r')
    · rw [if_neg hr] at h he
      by_cases hr' : r' = r₀
      · rw [if_pos hr'] at he
        exact absurd he (hg.fresh r)
      · rw [if_neg hr'] at he
        exact hc.distinct r r' h he

theorem keeps (hg : Grown v inode r₀ z v' inode') (hc : Consistent v inode) : Keeps v inode v' inode' where
  consistent := hg.consistent hc
  same i := by
    by_cases hi : i < maxBlocks
    · rw [stored_eq v' inode' hi, stored_eq v inode hi, zoneAt, zoneAt, hg.refAt_eq]
      by_cases hr : blockRef i = r₀
      · rw [if_pos hr, hr, hg.vacant, if_pos rfl, if_neg hg.ne_zero, hg.blank]
      · rw [if_neg hr]
        by_cases h₀ : refAt v inode (blockRef i) = 0
        · rw [if_pos h₀, if_pos h₀]
        · rw [if_neg h₀, if_neg h₀, hg.data _ (blockRef_isData i) h₀]
    · rw [stored_of_ge v' inode' (not_lt.mp hi), stored_of_ge v inode (not_lt.mp hi)]
  stable r hr := by
    have hne : r ≠ r₀ := by
      rintro rfl
      exact hr hg.vacant
    rw [hg.refAt_eq, if_neg hne]
  iSize := hg.iSize
  iNum := hg.iNum

end Grown

structure Marked (v v' : Volume) : Prop where
  data : v'.data = v.data
  zmap : ∀ j, v.zmap j = true → v'.zmap j = true
  firstDataZone : v'.firstDataZone = v.firstDataZone
  nZones : v'.nZones = v.nZones

structure Taken (v : Volume) (z : Word) (v' : Volume) : Prop where
  ne_zero : z ≠ 0
  free : v.zmap (z.toNat - v.firstDataZone + 1) = false
  used : v.firstDataZone ≤ z.toNat ∧ v'.zmap (z.toNat - v.firstDataZone + 1) = true
  data : v'.data = Function.update v.data z Block.zero
  zmap : ∀ j, v.zmap j = true → v'.zmap j = true
  firstDataZone : v'.firstDataZone = v.firstDataZone
  nZones : v'.nZones = v.nZones

section NewBlock

variable {v : Volume} {inode : MInode}

theorem newBlock_cases (hc : Consistent v inode) :
    (v.newBlock.1 = 0 ∧ Marked v v.newBlock.2) ∨ Taken v v.newBlock.1 v.newBlock.2 := by
  rw [Volume.newBlock]
  cases hf : v.findFirstZero with
  | none => exact Or.inl ⟨rfl, rfl, fun _ h => h, rfl, rfl⟩
  | some j =>
    have hfree : v.zmap j = false := by
      have hbit := List.find?_some hf
      simpa using hbit
    have hset : ∀ l, v.zmap l = true → Function.update v.zmap j true l = true := by
      intro l hl
      by_cases hlj : l = j
      · rw [hlj, Function.update_self]
      · rw [Function.update_of_ne hlj, hl]
    have hpos : j ≠ 0 := by
      rintro rfl
      rw [hc.zmap_zero] at hfree
      cases hfree
    dsimp only
    split
    next => exact Or.inl ⟨rfl, rfl, hset, rfl, rfl⟩
    next hlt =>
      have hfirst := hc.firstDataZone_pos
      have hlast := hc.nZones_lt
      have hval : (BitVec.ofNat 16 (j + v.firstDataZone - 1)).toNat = j + v.firstDataZone - 1 := by
        rw [BitVec.toNat_ofNat]
        omega
      have hindex : (BitVec.ofNat 16 (j + v.firstDataZone - 1)).toNat - v.firstDataZone + 1 = j := by
        rw [hval]
        omega
      refine Or.inr ⟨?_, ?_, ⟨?_, ?_⟩, rfl, hset, rfl, rfl⟩
      · intro h₀
        have hzero := congrArg BitVec.toNat h₀
        rw [hval] at hzero
        change _ = 0 at hzero
        omega
      · rw [hindex, hfree]
      · rw [hval]
        omega
      · rw [hindex]
        exact Function.update_self j true v.zmap

lemma Taken.fresh (hc : Consistent v inode) {z : Word} {v' : Volume} (ht : Taken v z v') (r : Ref) :
    refAt v inode r ≠ z := by
  rintro rfl
  have hbit := (hc.used r ht.ne_zero).2
  rw [ht.free] at hbit
  cases hbit

lemma Taken.data_of_ne {z z' : Word} {v' : Volume} (ht : Taken v z v') (h : z' ≠ z) :
    v'.data z' = v.data z' := by
  rw [ht.data, Function.update_of_ne h]

lemma Marked.keeps (hc : Consistent v inode) {v' : Volume} (hm : Marked v v') : Keeps v inode v' inode := by
  have hr : ∀ r, refAt v' inode r = refAt v inode r :=
    refAt_congr (fun r _ _ => congrFun hm.data (refAt v inode r))
  refine ⟨⟨hm.firstDataZone ▸ hc.firstDataZone_pos, hm.nZones ▸ hc.nZones_lt, hm.zmap 0 hc.zmap_zero,
    ?_, ?_⟩, ?_, fun r _ => hr r, rfl, rfl⟩
  · intro r h
    rw [hr] at h ⊢
    rw [hm.firstDataZone]
    obtain ⟨hle, hbit⟩ := hc.used r h
    exact ⟨hle, hm.zmap _ hbit⟩
  · intro r r' h he
    rw [hr] at h
    rw [hr, hr] at he
    exact hc.distinct r r' h he
  · intro i
    rw [stored, stored, content, content, zoneAt, zoneAt, hr, hm.data]

end NewBlock

/-- The steps that `create_block` is made of. -/
inductive Growth (v₀ : Volume) (inode₀ : MInode) : Volume → MInode → Prop
  | refl : Growth v₀ inode₀ v₀ inode₀
  | zone {v inode v' inode'} (k : Fin 9) : Growth v₀ inode₀ v inode →
      createZone true v inode k = (v', inode') → Growth v₀ inode₀ v' inode'
  | entry {v inode v' z} {r p : Ref} {k : Fin 512} : Growth v₀ inode₀ v inode → r.holder = some (p, k) →
      refAt v inode p ≠ 0 → createEntry true v (refAt v inode p) k = (z, v') → Growth v₀ inode₀ v' inode

section CreateBlock

variable {v v' : Volume} {inode inode' : MInode}

lemma setZone_zero {k : Fin 9} (h : inode.iZone k = 0) : inode.setZone k 0 = inode := by
  rw [MInode.setZone]
  have hk : Fin.ofNat 9 k.val = k := by simp
  rw [hk, ← h, Function.update_eq_self]

lemma Taken.grown_zone {z : Word} (hc : Consistent v inode) {k : Fin 9} (h₀ : inode.iZone k = 0)
    (ht : Taken v z v') : Grown v inode (.zone k) z v' (inode.setZone k z) := by
  have hk : Fin.ofNat 9 k.val = k := by simp
  refine ⟨h₀, ?_, ht.ne_zero, ht.fresh hc, ?_, ?_, ?_, ?_, ht.used, ht.zmap,
    ht.firstDataZone, ht.nZones, rfl, rfl⟩
  · intro p l hp
    cases hp
  · intro l
    simp only [MInode.setZone, hk, Function.update_apply, Ref.zone.injEq]
  · intro r p l hr _
    have hne : r ≠ .zone k := by
      rintro rfl
      cases hr
    rw [if_neg hne, ht.data_of_ne (ht.fresh hc p)]
  · rw [ht.data, Function.update_self]
  · intro r _ _
    exact ht.data_of_ne (ht.fresh hc r)

lemma createZone_keeps (hc : Consistent v inode) (k : Fin 9)
    (h : createZone true v inode k = (v', inode')) : Keeps v inode v' inode' := by
  have hk : Fin.ofNat 9 k.val = k := by simp
  by_cases h₀ : inode.zone k = 0
  · rw [createZone, if_pos ⟨rfl, h₀⟩] at h
    cases h
    have hvacant : inode.iZone k = 0 := by rwa [MInode.zone, hk] at h₀
    rcases newBlock_cases hc with ⟨hz, hm⟩ | ht
    · rw [hz, setZone_zero hvacant]
      exact hm.keeps hc
    · exact (ht.grown_zone hc hvacant).keeps hc
  · rw [createZone, if_neg (fun hh => h₀ hh.2)] at h
    cases h
    exact .refl hc

lemma Taken.grown_entry {z : Word} (hc : Consistent v inode) {r p : Ref} {k : Fin 512}
    (hr : r.holder = some (p, k)) (h₀ : refAt v inode p ≠ 0)
    (hw : (v.data (refAt v inode p)).word k = 0) (ht : Taken v z v') :
    Grown v inode r z
      (v'.put (refAt v inode p) ((v'.data (refAt v inode p)).setWord k z)) inode := by
  have href : refAt v inode r = (v.data (refAt v inode p)).word k := by
    rw [refAt_of_holder hr, entryAt_ne h₀]
  have hdata : v'.data (refAt v inode p) = v.data (refAt v inode p) := ht.data_of_ne (ht.fresh hc p)
  refine ⟨href.trans hw, ?_, ht.ne_zero, ht.fresh hc, ?_, ?_, ?_, ?_, ht.used, ht.zmap,
    ht.firstDataZone, ht.nZones, rfl, rfl⟩
  · intro p' k' hr'
    rw [hr] at hr'
    cases hr'
    exact h₀
  · intro l
    have hne : Ref.zone l ≠ r := by
      rintro rfl
      cases hr
    rw [if_neg hne]
  · intro r' p' l hr' hp'
    by_cases hpp : p' = p
    · subst hpp
      rw [Volume.put_data_self, Block.word_setWord _ _ k.isLt l.isLt, hdata]
      by_cases hl : l = k
      · subst hl
        rw [if_pos rfl, if_pos (holder_injective hr' hr)]
      · have hne : r' ≠ r := by
          rintro rfl
          rw [hr] at hr'
          cases hr'
          exact hl rfl
        rw [if_neg (fun he => hl (Fin.ext he)), if_neg hne]
    · have hne : r' ≠ r := by
        rintro rfl
        rw [hr] at hr'
        cases hr'
        exact hpp rfl
      rw [if_neg hne, Volume.put_data_of_ne _ _ (fun he => hpp (hc.distinct p' p hp' he)),
        ht.data_of_ne (ht.fresh hc p')]
  · rw [Volume.put_data_of_ne _ _ (ht.fresh hc p).symm, ht.data, Function.update_self]
  · intro r' hd hr₀
    have hne : refAt v inode r' ≠ refAt v inode p := by
      intro he
      exact holder_not_isData hr (hc.distinct r' p hr₀ he ▸ hd)
    rw [Volume.put_data_of_ne _ _ hne, ht.data_of_ne (ht.fresh hc r')]

lemma createEntry_keeps (hc : Consistent v inode) {r p : Ref} {k : Fin 512} (hr : r.holder = some (p, k))
    (h₀ : refAt v inode p ≠ 0) {z : Word} (h : createEntry true v (refAt v inode p) k = (z, v')) :
    Keeps v inode v' inode ∧ (z ≠ 0 → z = refAt v' inode r) := by
  have href : refAt v inode r = (v.data (refAt v inode p)).word k := by
    rw [refAt_of_holder hr, entryAt_ne h₀]
  by_cases hw : (v.data (refAt v inode p)).word k = 0
  · rw [createEntry, if_pos ⟨rfl, hw⟩] at h
    rcases newBlock_cases hc with ⟨hz, hm⟩ | ht
    · simp only [hz, ne_eq, not_true_eq_false, if_false] at h
      cases h
      exact ⟨hm.keeps hc, fun hne => absurd rfl hne⟩
    · simp only [if_pos ht.ne_zero] at h
      cases h
      have hg := ht.grown_entry hc hr h₀ hw
      refine ⟨hg.keeps hc, fun _ => ?_⟩
      rw [hg.refAt_eq, if_pos rfl]
  · rw [createEntry, if_neg (fun hh => hw hh.2)] at h
    cases h
    exact ⟨.refl hc, fun _ => href.symm⟩

lemma Growth.keeps (hc : Consistent v inode) (h : Growth v inode v' inode') : Keeps v inode v' inode' := by
  induction h with
  | refl => exact .refl hc
  | zone k _ hz ih => exact ih.trans (createZone_keeps ih.consistent k hz)
  | entry _ hr h₀ he ih => exact ih.trans (createEntry_keeps ih.consistent hr h₀ he).1

theorem createBlock_growth (hc : Consistent v inode) {i : ℕ} {z : Word}
    (h : createBlock v inode i = .ok (z, v', inode')) :
    Growth v inode v' inode' ∧ (z ≠ 0 → i < maxBlocks ∧ z = zoneAt v' inode' i) := by
  rw [createBlock, bmapCreate] at h
  split at h
  next => cases h
  next hlt =>
  have hi := not_le.mp hlt
  split at h
  next h₁ =>
    cases h
    refine ⟨.zone ⟨i, by omega⟩ .refl rfl, fun _ => ⟨hi, ?_⟩⟩
    rw [zoneAt, blockRef, if_pos h₁]
    rfl
  next h₁ =>
  split at h
  next h₂ =>
    cases hz : createZone true v inode 7 with
    | mk v₁ inode₁ =>
      rw [hz] at h
      have hg : Growth v inode v₁ inode₁ := .zone 7 .refl hz
      dsimp only at h
      split at h
      next =>
        cases h
        exact ⟨hg, fun hne => absurd rfl hne⟩
      next hgo =>
        cases h
        have hr : (Ref.single ⟨i - 7, h₂⟩).holder = some (.zone 7, ⟨i - 7, h₂⟩) := rfl
        have hp := (not_or.mp hgo).1
        refine ⟨.entry hg hr hp rfl, fun hne => ⟨hi, ?_⟩⟩
        rw [zoneAt_single h₁ h₂]
        exact (createEntry_keeps (hg.keeps hc).consistent hr hp rfl).2 hne
  next h₂ =>
    have hmax : maxBlocks = 262663 := rfl
    have hq : (i - 7 - 512) / 512 < 512 := by omega
    have hm : (i - 7 - 512) % 512 < 512 := Nat.mod_lt _ (by omega)
    cases hz : createZone true v inode 8 with
    | mk v₁ inode₁ =>
      rw [hz] at h
      have hg : Growth v inode v₁ inode₁ := .zone 8 .refl hz
      dsimp only at h
      split at h
      next =>
        cases h
        exact ⟨hg, fun hne => absurd rfl hne⟩
      next hgo =>
        cases he : createEntry true v₁ (inode₁.zone 8) ((i - 7 - 512) / 512) with
        | mk t v₂ =>
          rw [he] at h
          have hr : (Ref.table ⟨_, hq⟩).holder = some (.zone 8, ⟨_, hq⟩) := rfl
          have hp := (not_or.mp hgo).1
          have hg₂ : Growth v inode v₂ inode₁ := .entry hg hr hp he
          dsimp only at h
          split at h
          next =>
            cases h
            exact ⟨hg₂, fun hne => absurd rfl hne⟩
          next hgo₂ =>
            have ht : t ≠ 0 := (not_or.mp hgo₂).1
            cases he₂ : createEntry true v₂ t ((i - 7 - 512) % 512) with
            | mk z₁ v₃ =>
              rw [he₂] at h
              cases h
              have hr₂ : (Ref.leaf ⟨_, hq⟩ ⟨_, hm⟩).holder = some (.table ⟨_, hq⟩, ⟨_, hm⟩) := rfl
              rw [(createEntry_keeps (hg.keeps hc).consistent hr hp he).2 ht] at he₂ ht
              refine ⟨.entry hg₂ hr₂ ht he₂, fun hne => ⟨hi, ?_⟩⟩
              rw [zoneAt_leaf hi h₁ h₂]
              exact (createEntry_keeps (hg₂.keeps hc).consistent hr₂ ht he₂).2 hne

theorem createBlock_spec (hc : Consistent v inode) {i : ℕ} {z : Word}
    (h : createBlock v inode i = .ok (z, v', inode')) :
    Keeps v inode v' inode' ∧ (z ≠ 0 → i < maxBlocks ∧ z = zoneAt v' inode' i) := by
  obtain ⟨hg, hz⟩ := createBlock_growth hc h
  exact ⟨hg.keeps hc, hz⟩

end CreateBlock

end Devos.Fs
