import Devos.Fs.Truncate

/-! When nobody else holds the blocks of a file, `truncate` gives back every one of them. -/

namespace Devos.Fs

open Loops

/-- No bit has been set. -/
structure Fewer (v v' : Volume) : Prop where
  same : v' = { v with zmap := v'.zmap }
  zmap : ∀ j, v'.zmap j = true → v.zmap j = true

def Cleared (v v' : Volume) (z : Word) : Prop := v'.zmap (v.bit z) = false

section Clearing

variable {v v' v'' w w' : Volume} {z block : Word} {busy : Word → Bool} {inode inode' : MInode}
  {free : Volume → Word → Except Fault Volume}

namespace Fewer

lemma refl (v : Volume) : Fewer v v := ⟨rfl, fun _ h => h⟩

lemma trans (h : Fewer v v') (h' : Fewer v' v'') : Fewer v v'' := by
  refine ⟨?_, fun j hj => h.zmap j (h'.zmap j hj)⟩
  rw [h'.same, h.same]

lemma data (h : Fewer v v') : v'.data = v.data := by rw [h.same]

lemma readable (h : Fewer v v') : v'.readable = v.readable := by rw [h.same]

lemma bit (h : Fewer v v') (z : Word) : v'.bit z = v.bit z := by
  rw [h.same]
  rfl

lemma cleared (h : Fewer v' v'') (hz : Cleared v v' z) : Cleared v v'' z := by
  apply Bool.eq_false_iff.mpr
  intro hset
  have hset' := h.zmap _ hset
  rw [hz] at hset'
  cases hset'

lemma cleared_of (h : Fewer v v') (hz : Cleared v' v'' z) : Cleared v v'' z := by rwa [Cleared, h.bit] at hz

end Fewer

/-- What a loop clears in one turn stays cleared. -/
lemma forLoopE_clears {body : ℕ → Volume → Except Fault Volume} {n : ℕ} {S : ℕ → Set Word}
    (hbody : ∀ i < n, ∀ w w', Fewer v w → body i w = .ok w' → Fewer w w' ∧ ∀ z ∈ S i, Cleared w w' z)
    (hrun : forLoopE body v n = .ok v') : Fewer v v' ∧ ∀ i < n, ∀ z ∈ S i, Cleared v v' z := by
  induction n generalizing v' with
  | zero =>
    cases hrun
    exact ⟨.refl v, fun _ hi => absurd hi (Nat.not_lt_zero _)⟩
  | succ n ih =>
    obtain ⟨w, hw, hturn⟩ := bind_eq_ok hrun
    obtain ⟨hfewer, hcleared⟩ := ih (fun i hi => hbody i (by omega)) hw
    obtain ⟨hfewer', hnow⟩ := hbody n (by omega) w v' hfewer hturn
    refine ⟨hfewer.trans hfewer', ?_⟩
    intro i hi z hz
    rcases Nat.lt_succ_iff_lt_or_eq.mp hi with hlt | rfl
    · exact hfewer'.cleared (hcleared i hlt z hz)
    · exact hfewer.cleared_of (hnow z hz)

lemma freeBlock_clears (hrun : freeBlock busy v block = .ok v') :
    Fewer v v' ∧ (busy block = false → Cleared v v' block) := by
  rw [freeBlock] at hrun
  split_ifs at hrun with _ hbusy
  · cases hrun
    refine ⟨.refl v, fun h => ?_⟩
    rw [h] at hbusy
    cases hbusy
  · cases hrun
    refine ⟨⟨rfl, ?_⟩, fun _ => Function.update_self _ _ _⟩
    intro j hj
    dsimp only at hj
    by_cases hb : j = v.bit block
    · rw [hb, Function.update_self] at hj
      cases hj
    · rwa [Function.update_of_ne hb] at hj

/-- A block with entries is cleared, and so is all that the entries stand for. -/
lemma freeListed_clears {S : ℕ → Set Word} (hread : block ≠ 0 → v.readable block = true)
    (hfree : ∀ i < 512, ∀ w w', Fewer v w → (v.data block).word i ≠ 0 → free w ((v.data block).word i) = .ok w' →
      Fewer w w' ∧ ∀ z ∈ S i, Cleared w w' z)
    (hrun : freeListed busy free v block = .ok v') :
    Fewer v v' ∧ (block ≠ 0 → (busy block = false → Cleared v v' block) ∧
      ∀ i < 512, (v.data block).word i ≠ 0 → ∀ z ∈ S i, Cleared v v' z) := by
  rw [freeListed] at hrun
  by_cases h₀ : block = 0
  · rw [if_pos h₀] at hrun
    cases hrun
    exact ⟨.refl v, fun h => absurd h₀ h⟩
  · rw [if_neg h₀, if_pos (hread h₀)] at hrun
    obtain ⟨w, hloop, hlast⟩ := bind_eq_ok hrun
    have hentries := forLoopE_clears (S := fun i => {z | (v.data block).word i ≠ 0 ∧ z ∈ S i}) (v := v) ?_ hloop
    · obtain ⟨hw, hcleared⟩ := hentries
      obtain ⟨hw', hself⟩ := freeBlock_clears hlast
      refine ⟨hw.trans hw', fun _ => ⟨fun hbusy => hw.cleared_of (hself hbusy), ?_⟩⟩
      intro i hi hne z hz
      exact hw'.cleared (hcleared i hi z ⟨hne, hz⟩)
    · intro i hi w w' hw hturn
      by_cases he : (v.data block).word i = 0
      · rw [if_pos he] at hturn
        cases hturn
        exact ⟨.refl w, fun z hz => absurd he hz.1⟩
      · rw [if_neg he] at hturn
        obtain ⟨hw', hnow⟩ := hfree i hi w w' hw he hturn
        exact ⟨hw', fun z hz => hnow z hz.2⟩

/-- The entries of a block. -/
def Entries (v : Volume) (block : Word) : Set Word := {z | z ≠ 0 ∧ ∃ k < 512, (v.data block).word k = z}

lemma freeInd_clears (hread : block ≠ 0 → v.readable block = true)
    (hbusy : block ≠ 0 → ∀ z, z = block ∨ z ∈ Entries v block → busy z = false)
    (hrun : freeInd busy v block = .ok v') :
    Fewer v v' ∧ (block ≠ 0 → Cleared v v' block ∧ ∀ z ∈ Entries v block, Cleared v v' z) := by
  by_cases h₀ : block = 0
  · rw [freeInd, freeListed, if_pos h₀] at hrun
    cases hrun
    exact ⟨.refl v, fun h => absurd h₀ h⟩
  have hlist := freeListed_clears (S := fun i => {(v.data block).word i}) hread ?_ hrun
  · obtain ⟨hv, hcleared⟩ := hlist
    refine ⟨hv, fun h₀ => ⟨(hcleared h₀).1 (hbusy h₀ block (Or.inl rfl)), ?_⟩⟩
    rintro z ⟨hz, k, hk, rfl⟩
    exact (hcleared h₀).2 k hk hz _ rfl
  · intro i hi w w' hw he hturn
    obtain ⟨hw', hnow⟩ := freeBlock_clears hturn
    refine ⟨hw', ?_⟩
    rintro z rfl
    exact hnow (hbusy h₀ _ (Or.inr ⟨he, i, hi, rfl⟩))

lemma freeDind_clears (hread : block ≠ 0 → v.readable block = true)
    (hentries : block ≠ 0 → ∀ z ∈ Entries v block, v.readable z = true)
    (hbusy : block ≠ 0 → ∀ z, z = block ∨ z ∈ Entries v block ∨ (∃ t ∈ Entries v block, z ∈ Entries v t) →
      busy z = false)
    (hrun : freeDind busy v block = .ok v') :
    Fewer v v' ∧ (block ≠ 0 → Cleared v v' block ∧
      ∀ t ∈ Entries v block, Cleared v v' t ∧ ∀ z ∈ Entries v t, Cleared v v' z) := by
  by_cases h₀ : block = 0
  · rw [freeDind, freeListed, if_pos h₀] at hrun
    cases hrun
    exact ⟨.refl v, fun h => absurd h₀ h⟩
  have hlist := freeListed_clears
    (S := fun i => {z | z = (v.data block).word i ∨ z ∈ Entries v ((v.data block).word i)}) hread ?_ hrun
  · obtain ⟨hv, hcleared⟩ := hlist
    refine ⟨hv, fun h₀ => ⟨(hcleared h₀).1 (hbusy h₀ block (Or.inl rfl)), ?_⟩⟩
    rintro t ⟨ht, k, hk, rfl⟩
    have hall := (hcleared h₀).2 k hk ht
    exact ⟨hall _ (Or.inl rfl), fun z hz => hall z (Or.inr hz)⟩
  · intro i hi w w' hw he hturn
    have hmem : (v.data block).word i ∈ Entries v block := ⟨he, i, hi, rfl⟩
    have hsame : ∀ t, Entries w t = Entries v t := fun t => by rw [Entries, hw.data, Entries]
    have hread' : w.readable ((v.data block).word i) = true := by
      rw [hw.readable]
      exact hentries h₀ _ hmem
    have hbusy' : ∀ z, z = (v.data block).word i ∨ z ∈ Entries w ((v.data block).word i) → busy z = false := by
      intro z hz
      rw [hsame] at hz
      rcases hz with rfl | hz
      · exact hbusy h₀ _ (Or.inr (Or.inl hmem))
      · exact hbusy h₀ z (Or.inr (Or.inr ⟨_, hmem, hz⟩))
    obtain ⟨hw', hnow⟩ := freeInd_clears (fun _ => hread') (fun _ => hbusy') hturn
    rw [hsame] at hnow
    refine ⟨hw', ?_⟩
    rintro z (rfl | hz)
    · exact (hnow he).1
    · exact (hnow he).2 z hz

/-- The direct blocks are cleared, and the rest of the inode stays. -/
lemma freeZones_clears {n : ℕ} (hn : n ≤ 9) (hbusy : ∀ k : Fin 9, inode.iZone k ≠ 0 → busy (inode.iZone k) = false)
    (hrun : forLoopE (freeZone busy) (v, inode) n = .ok (v', inode')) :
    Fewer v v' ∧ inode' = inode.cut n ∧
      ∀ k : Fin 9, k.val < n → inode.iZone k ≠ 0 → Cleared v v' (inode.iZone k) := by
  induction n generalizing v' inode' with
  | zero =>
    cases hrun
    refine ⟨.refl v, ?_, fun _ hk => absurd hk (Nat.not_lt_zero _)⟩
    rw [MInode.cut]
    simp
  | succ n ih =>
    obtain ⟨⟨w, inode₁⟩, hw, hturn⟩ := bind_eq_ok hrun
    obtain ⟨hfewer, rfl, hcleared⟩ := ih (by omega) hw
    have hkn : (Fin.ofNat 9 n).val = n := Nat.mod_eq_of_lt (by omega)
    have hlast : ∀ k : Fin 9, k.val < n + 1 → ¬k.val < n → k = Fin.ofNat 9 n := by
      intro k hk hk'
      apply Fin.ext
      omega
    rw [freeZone] at hturn
    dsimp only at hturn
    by_cases h₀ : (inode.cut n).zone n = 0
    · rw [if_pos h₀] at hturn
      cases hturn
      refine ⟨hfewer, ?_, ?_⟩
      · rw [← cut_setZone inode (by omega), MInode.setZone, ← h₀]
        exact congrArg (fun z => { inode.cut n with iZone := z })
          (Function.update_eq_self (Fin.ofNat 9 n) (inode.cut n).iZone).symm
      · intro k hk hne
        by_cases hlt : k.val < n
        · exact hcleared k hlt hne
        · rw [cut_zone inode (by omega), ← hlast k hk hlt] at h₀
          exact absurd h₀ hne
    · rw [if_neg h₀, cut_setZone inode (by omega)] at hturn
      rw [cut_zone inode (by omega)] at h₀ hturn
      obtain ⟨u, hfree, heq⟩ := map_eq_ok hturn
      cases heq
      obtain ⟨hfewer', hnow⟩ := freeBlock_clears hfree
      refine ⟨hfewer.trans hfewer', rfl, ?_⟩
      intro k hk hne
      by_cases hlt : k.val < n
      · exact hfewer'.cleared (hcleared k hlt hne)
      · rw [hlast k hk hlt]
        exact hfewer.cleared_of (hnow (hbusy _ h₀))

end Clearing

section Truncating

variable {v v' : Volume} {inode : MInode} {busy : Word → Bool}

/-- All that the inode refers to, and all that its index blocks refer to. -/
lemma blocks_cases {z : Word} (hz : z ∈ Blocks v inode) :
    (∃ k : Fin 9, inode.iZone k = z) ∨ inode.iZone 7 ≠ 0 ∧ z ∈ Entries v (inode.iZone 7) ∨
      inode.iZone 8 ≠ 0 ∧ ∃ t ∈ Entries v (inode.iZone 8), z = t ∨ z ∈ Entries v t := by
  obtain ⟨h₀, r, rfl⟩ := hz
  have hentry : ∀ {holder : Word} (k : Fin 512), entryAt v holder k ≠ 0 →
      holder ≠ 0 ∧ entryAt v holder k ∈ Entries v holder := by
    intro holder k hne
    have hholder : holder ≠ 0 := by
      rintro rfl
      exact hne (entryAt_zero rfl k)
    exact ⟨hholder, hne, k, k.isLt, (entryAt_ne hholder k).symm⟩
  cases r with
  | zone k => exact Or.inl ⟨k, rfl⟩
  | single k => exact Or.inr (Or.inl (hentry k h₀))
  | table k =>
    obtain ⟨h₈, hmem⟩ := hentry k h₀
    exact Or.inr (Or.inr ⟨h₈, _, hmem, Or.inl rfl⟩)
  | leaf k l =>
    obtain ⟨ht, hmem⟩ := hentry l h₀
    obtain ⟨h₈, hmem'⟩ := hentry k ht
    exact Or.inr (Or.inr ⟨h₈, _, hmem', Or.inr hmem⟩)

/-- An entry of a block that is listed in the inode is in a place of its own. -/
lemma entries_ref {p : Ref} {z : Word} (hchild : ∀ k, ∃ c : Ref, c.holder = some (p, k)) (hp : refAt v inode p ≠ 0)
    (hz : z ∈ Entries v (refAt v inode p)) : ∃ (c : Ref) (k : Fin 512), c.holder = some (p, k) ∧ refAt v inode c = z := by
  obtain ⟨_, k, hk, rfl⟩ := hz
  obtain ⟨c, hc⟩ := hchild ⟨k, hk⟩
  exact ⟨c, ⟨k, hk⟩, hc, by rw [refAt_of_holder hc, entryAt_ne hp]⟩

lemma entries_table {z : Word} (h₈ : refAt v inode (.zone 8) ≠ 0) (hz : z ∈ Entries v (refAt v inode (.zone 8))) :
    ∃ k, refAt v inode (.table k) = z := by
  obtain ⟨c, k, hc, rfl⟩ := entries_ref (fun k => ⟨.table k, rfl⟩) h₈ hz
  cases c <;> cases hc
  exact ⟨k, rfl⟩

/-- None of the blocks is held, and those with entries can be read. -/
structure Freeable (busy : Word → Bool) (v : Volume) (inode : MInode) : Prop where
  idle : ∀ z ∈ Blocks v inode, busy z = false
  readable : ∀ r : Ref, ¬r.IsData → refAt v inode r ≠ 0 → v.readable (refAt v inode r) = true

lemma freeInd_single {w w' : Volume} (h : Freeable busy v inode) (hw : Fewer v w)
    (hrun : freeInd busy w (refAt v inode (.zone 7)) = .ok w') :
    Fewer w w' ∧ (refAt v inode (.zone 7) ≠ 0 → Cleared v w' (refAt v inode (.zone 7)) ∧
      ∀ z ∈ Entries v (refAt v inode (.zone 7)), Cleared v w' z) := by
  have hsame : ∀ t, Entries w t = Entries v t := fun t => by rw [Entries, hw.data, Entries]
  have hread : refAt v inode (.zone 7) ≠ 0 → w.readable (refAt v inode (.zone 7)) = true := by
    rw [hw.readable]
    exact h.readable (.zone 7) (by simp [Ref.IsData])
  obtain ⟨hw', hclear⟩ := freeInd_clears hread (fun h₀ z hz => by
    rw [hsame] at hz
    rcases hz with rfl | hz
    · exact h.idle _ ⟨h₀, _, rfl⟩
    · obtain ⟨c, k, _, rfl⟩ := entries_ref (fun k => ⟨.single k, rfl⟩) h₀ hz
      exact h.idle _ ⟨hz.1, c, rfl⟩) hrun
  rw [hsame] at hclear
  refine ⟨hw', fun h₀ => ?_⟩
  obtain ⟨hself, hentries⟩ := hclear h₀
  exact ⟨hw.cleared_of hself, fun z hz => hw.cleared_of (hentries z hz)⟩

lemma freeDind_double {w w' : Volume} (h : Freeable busy v inode) (hw : Fewer v w)
    (hrun : freeDind busy w (refAt v inode (.zone 8)) = .ok w') :
    Fewer w w' ∧ (refAt v inode (.zone 8) ≠ 0 → Cleared v w' (refAt v inode (.zone 8)) ∧
      ∀ t ∈ Entries v (refAt v inode (.zone 8)), Cleared v w' t ∧ ∀ z ∈ Entries v t, Cleared v w' z) := by
  have hsame : ∀ t, Entries w t = Entries v t := fun t => by rw [Entries, hw.data, Entries]
  have hread : refAt v inode (.zone 8) ≠ 0 → w.readable (refAt v inode (.zone 8)) = true := by
    rw [hw.readable]
    exact h.readable (.zone 8) (by simp [Ref.IsData])
  obtain ⟨hw', hclear⟩ := freeDind_clears hread
    (fun h₀ z hz => by
      rw [hsame] at hz
      rw [hw.readable]
      obtain ⟨k, rfl⟩ := entries_table h₀ hz
      exact h.readable _ (by simp [Ref.IsData]) hz.1)
    (fun h₀ z hz => by
      simp only [hsame] at hz
      rcases hz with rfl | hz | ⟨t, ht, hz⟩
      · exact h.idle _ ⟨h₀, _, rfl⟩
      · obtain ⟨k, rfl⟩ := entries_table h₀ hz
        exact h.idle _ ⟨hz.1, _, rfl⟩
      · obtain ⟨k, rfl⟩ := entries_table h₀ ht
        obtain ⟨c, l, _, rfl⟩ := entries_ref (fun l => ⟨.leaf k l, rfl⟩) ht.1 hz
        exact h.idle _ ⟨hz.1, c, rfl⟩) hrun
  simp only [hsame] at hclear
  refine ⟨hw', fun h₀ => ?_⟩
  obtain ⟨hself, htables⟩ := hclear h₀
  refine ⟨hw.cleared_of hself, fun t ht => ?_⟩
  exact ⟨hw.cleared_of (htables t ht).1, fun z hz => hw.cleared_of ((htables t ht).2 z hz)⟩

lemma truncate_clears (h : Freeable busy v inode) (hmode : sIsReg inode.iMode = true ∨ sIsDir inode.iMode = true)
    {inode' : MInode} (hrun : truncate busy v inode = .ok (v', inode')) : ∀ z ∈ Blocks v inode, Cleared v v' z := by
  rw [truncate, if_neg (not_not.mpr hmode)] at hrun
  obtain ⟨⟨w, inode₁⟩, hzones, hrun⟩ := bind_eq_ok hrun
  obtain ⟨w₁, hind, hrun⟩ := bind_eq_ok hrun
  obtain ⟨w₂, hdind, heq⟩ := map_eq_ok hrun
  obtain ⟨rfl, _⟩ := Prod.mk.inj heq
  obtain ⟨hw, rfl, hdirect⟩ := freeZones_clears (by decide) (fun k hk => h.idle _ ⟨hk, .zone k, rfl⟩) hzones
  have h₇ : (inode.cut 7).zone 7 = refAt v inode (.zone 7) := cut_zone inode (by decide)
  have h₈ : (inode.cut 7).zone 8 = refAt v inode (.zone 8) := rfl
  dsimp only at hind hdind
  rw [h₇] at hind
  rw [h₈] at hdind
  obtain ⟨hw₁, hsingle⟩ := freeInd_single h hw hind
  obtain ⟨hw₂, hdouble⟩ := freeDind_double h (hw.trans hw₁) hdind
  intro z hz
  rcases blocks_cases hz with ⟨k, rfl⟩ | ⟨hne, hmem⟩ | ⟨hne, t, ht, hzt⟩
  · by_cases hk : k.val < 7
    · exact (hw₁.trans hw₂).cleared (hdirect k hk hz.1)
    · have hlast : k = 7 ∨ k = 8 := by omega
      rcases hlast with rfl | rfl
      · exact hw₂.cleared (hsingle hz.1).1
      · exact (hdouble hz.1).1
  · exact hw₂.cleared ((hsingle hne).2 z hmem)
  · obtain ⟨hself, hentries⟩ := (hdouble hne).2 t ht
    rcases hzt with rfl | hzt
    · exact hself
    · exact hentries z hzt

/-- `truncate` clears the bits of all blocks of the file and no others, and leaves an empty file. -/
theorem truncate_exact (hh : Held v inode) (hmode : sIsReg inode.iMode = true ∨ sIsDir inode.iMode = true)
    (h : Freeable busy v inode) :
    ∃ v' inode', truncate busy v inode = .ok (v', inode') ∧
      (∀ z ∈ Blocks v inode, v.zmap (v.bit z) = true ∧ v'.zmap (v.bit z) = false) ∧
      (∀ j, (∀ z ∈ Blocks v inode, v.bit z ≠ j) → v'.zmap j = v.zmap j) ∧
      (∀ i < maxBlocks, bmap v' inode' i = .ok 0) ∧ inode'.iSize = 0 := by
  obtain ⟨v', hrun, hfreed⟩ := truncate_spec busy hh hmode
  refine ⟨v', inode.emptied, hrun, ?_, ?_, ?_, rfl⟩
  · intro z hz
    refine ⟨?_, truncate_clears h hmode hrun z hz⟩
    obtain ⟨h₀, r, rfl⟩ := hz
    exact (hh.used r h₀).set
  · intro j hj
    cases hset : v.zmap j with
    | true =>
      rcases hfreed.cleared j hset with hset' | ⟨z, hz, _, hbit⟩
      · exact hset'
      · exact absurd hbit (hj z hz)
    | false =>
      apply Bool.eq_false_iff.mpr
      intro hset'
      rw [hfreed.old j hset'] at hset
      cases hset
  · intro i hi
    have hzone : zoneAt v' inode.emptied i = 0 := refAt_zero v' (fun _ => rfl) _
    rw [bmap_eq hi, hzone, ite_self]

/-- A file with one block. -/
theorem truncate_exact_direct :
    ∃ v' inode', truncate (fun _ => false) (fullVolume fun _ => Block.zero) (directFile 7 (firstZone 5) 1024) =
        .ok (v', inode') ∧ v'.zmap 5 = false ∧ inode'.iSize = 0 := by
  have hheld : Held (fullVolume fun _ => Block.zero) (directFile 7 (firstZone 5) 1024) := by
    refine ⟨?_, ?_⟩
    · intro r h₀
      rw [(refAt_firstZone rfl h₀).2]
      exact inUse_full _ (by decide) (by decide)
    · intro r r' h₀ heq
      obtain ⟨hr, _⟩ := refAt_firstZone rfl h₀
      obtain ⟨hr', _⟩ := refAt_firstZone rfl (heq ▸ h₀)
      exact hr.trans hr'.symm
  have hmem : (5 : Word) ∈ Blocks (fullVolume fun _ => Block.zero) (directFile 7 (firstZone 5) 1024) :=
    ⟨by decide, .zone 0, rfl⟩
  obtain ⟨v', inode', hrun, hclear, _, _, hsize⟩ :=
    truncate_exact hheld (Or.inl (by decide)) ⟨fun _ _ => rfl, fun _ _ _ => rfl⟩
  exact ⟨v', inode', hrun, (hclear 5 hmem).2, hsize⟩

end Truncating

end Devos.Fs
