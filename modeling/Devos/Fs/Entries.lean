import Devos.Fs.Allocation
import Devos.Library.Loops

/-! `find_entry` and `add_entry` of `namei.c` on the blocks of a directory. -/

namespace Devos.Fs

open Loops

abbrev nameLen : ℕ := 14

namespace Block

def setBytes (b : Block) (from_ : ℕ) (bytes : List Byte) (n : ℕ) : Block := fun x =>
  if from_ ≤ x.val ∧ x.val < from_ + n then bytes.getD (x.val - from_) 0 else b x

end Block

def entryInode (b : Block) (k : ℕ) : Word := b.word (8 * k)

-- the length is cut to `NAME_LEN` by the callers
def matchEntry (name : List Byte) (b : Block) (k : ℕ) : Prop :=
  entryInode b k ≠ 0 ∧ (name.length < nameLen → b.byte (16 * k + 2 + name.length) = 0) ∧
    ∀ x, x < name.length → name.getD x 0 = b.byte (16 * k + 2 + x)

instance (name : List Byte) (b : Block) (k : ℕ) : Decidable (matchEntry name b k) := by
  unfold matchEntry
  infer_instance

structure Finding where
  i : ℕ
  block : Word

-- behind a block that cannot be had, `find_entry` goes on with a null `bh` while entries remain
def findEntryBody (v : Volume) (dir : MInode) (name : List Byte) (s : Finding) :
    Pass Finding (Except Fault (Option (Word × ℕ))) :=
  if dir.iSize / 16 ≤ s.i then .leave (.ok none)
  else
    match (if s.i ≠ 0 ∧ s.i % 64 = 0 then bmap v dir (s.i / 64) else .ok s.block) with
    | .error f => .leave (.error f)
    | .ok block =>
      if block = 0 ∨ ¬ v.readable block then
        .leave (if dir.iSize / 16 ≤ s.i + 64 then .ok none else .error .badPointer)
      else if matchEntry name (v.data block) (s.i % 64) then .leave (.ok (some (block, s.i % 64)))
      else .again ⟨s.i + 1, block⟩

def findEntry (v : Volume) (dir : MInode) (name : List Byte) : Except Fault (Option (Word × ℕ)) :=
  if name = [] ∨ dir.zone 0 = 0 ∨ ¬ v.readable (dir.zone 0) then .ok none
  else
    (iterate (findEntryBody v dir (name.take nameLen)) (dir.iSize / 16 + 1) ⟨0, dir.zone 0⟩).getD
      (.error .hang)

structure Adding where
  i : ℕ
  block : Word
  volume : Volume
  dir : MInode

/-- The place that `add_entry` has found for a name, and what it has made of the directory. -/
structure Added where
  block : Word
  k : ℕ
  volume : Volume
  dir : MInode

-- an entry behind the end is cleared, and the directory grows by it
def Adding.take (name : List Byte) (i : ℕ) (block : Word) (v : Volume) (dir : MInode) : Added :=
  let b := v.data block
  let b := if dir.iSize ≤ 16 * i then b.setWord (8 * (i % 64)) 0 else b
  let dir := if dir.iSize ≤ 16 * i then { dir with iSize := 16 * (i + 1) } else dir
  ⟨block, i % 64, v.put block (Block.setBytes b (16 * (i % 64) + 2) name nameLen), dir⟩

def addEntryBody (name : List Byte) (s : Adding) :
    Pass Adding (Except Fault (Option Added × Volume × MInode)) :=
  match (if s.i ≠ 0 ∧ s.i % 64 = 0 then createBlock s.volume s.dir (s.i / 64)
      else .ok (s.block, s.volume, s.dir)) with
  | .error f => .leave (.error f)
  | .ok (block, v, dir) =>
    if block = 0 then .leave (.ok (none, v, dir))
    else if ¬ v.readable block then .leave (.error .badPointer)
    else if dir.iSize ≤ 16 * s.i ∨ entryInode (v.data block) (s.i % 64) = 0 then
      .leave (.ok (some (Adding.take name s.i block v dir), v, dir))
    else .again ⟨s.i + 1, block, v, dir⟩

def addEntry (v : Volume) (dir : MInode) (name : List Byte) :
    Except Fault (Option Added × Volume × MInode) :=
  if name = [] ∨ dir.zone 0 = 0 ∨ ¬ v.readable (dir.zone 0) then .ok (none, v, dir)
  else
    (iterate (addEntryBody (name.take nameLen)) (64 * maxBlocks + 1) ⟨0, dir.zone 0, v, dir⟩).getD
      (.error .hang)

def Live (v : Volume) (dir : MInode) (i : ℕ) : Prop :=
  Mapped v dir (i / 64) ∧ 16 * i < dir.iSize ∧ entryInode (v.data (zoneAt v dir (i / 64))) (i % 64) ≠ 0

def entryBlock (v : Volume) (dir : MInode) (k : ℕ) : Except Fault (Word × Volume × MInode) :=
  if k = 0 then .ok (dir.zone 0, v, dir) else createBlock v dir k

/-- Behind live entries comes one that is free, in a block that is there or that can be had. -/
def EntryRoom (v : Volume) (dir : MInode) : Prop :=
  ∃ i, (∀ j, j < i → Live v dir j) ∧ ∃ z v' dir', entryBlock v dir (i / 64) = .ok (z, v', dir') ∧ z ≠ 0 ∧
    v'.readable z = true ∧ (dir'.iSize ≤ 16 * i ∨ entryInode (v'.data z) (i % 64) = 0)

section Blocks

variable {v v' : Volume} {inode inode' : MInode} {i : ℕ} {z : Word}

lemma createZone_of_ne (create : Bool) (v : Volume) {k : ℕ} (h : inode.zone k ≠ 0) :
    createZone create v inode k = (v, inode) := by
  rw [createZone, if_neg (fun hh => h hh.2)]

lemma createEntry_of_ne (create : Bool) {holder : Word} {k : ℕ} (h : (v.data holder).word k ≠ 0) :
    createEntry create v holder k = ((v.data holder).word k, v) := by
  rw [createEntry, if_neg (fun hh => h hh.2)]

lemma createBlock_of_zone (hi : i < maxBlocks) (hz : zoneAt v inode i ≠ 0) :
    createBlock v inode i = .ok (if IndexReadable v inode i then zoneAt v inode i else 0, v, inode) := by
  rw [createBlock, bmapCreate, if_neg (not_le.mpr hi)]
  by_cases h₁ : i < 7
  · have hzone : inode.zone i ≠ 0 := by rwa [zoneAt, blockRef, if_pos h₁] at hz
    rw [if_pos h₁, if_pos (indexReadable_direct h₁), createZone_of_ne true v hzone, zoneAt, blockRef, if_pos h₁]
    rfl
  · by_cases h₂ : i - 7 < 512
    · rw [zoneAt_single h₁ h₂] at hz ⊢
      have h₇ : inode.zone 7 ≠ 0 := fun h => hz (entryAt_zero h _)
      rw [entryAt_ne h₇] at hz ⊢
      rw [if_neg h₁, if_pos h₂, createZone_of_ne true v h₇]
      simp only [indexReadable_single h₁ h₂]
      by_cases hr : v.readable (inode.zone 7) = true
      · rw [if_neg (not_or.mpr ⟨h₇, not_not.mpr hr⟩), if_pos hr, createEntry_of_ne true hz]
      · rw [if_pos (Or.inr hr), if_neg hr]
    · rw [zoneAt_leaf hi h₁ h₂] at hz ⊢
      have ht : entryAt v (inode.zone 8) ((i - 7 - 512) / 512) ≠ 0 := fun h => hz (entryAt_zero h _)
      have h₈ : inode.zone 8 ≠ 0 := fun h => ht (entryAt_zero h _)
      simp only [indexReadable_leaf h₁ h₂]
      rw [entryAt_ne h₈] at ht hz ⊢
      rw [entryAt_ne ht] at hz ⊢
      rw [if_neg h₁, if_neg h₂, createZone_of_ne true v h₈]
      by_cases hr : v.readable (inode.zone 8) = true
      · dsimp only
        rw [if_neg (not_or.mpr ⟨h₈, not_not.mpr hr⟩), createEntry_of_ne true ht]
        by_cases hr' : v.readable ((v.data (inode.zone 8)).word ((i - 7 - 512) / 512)) = true
        · dsimp only
          rw [if_neg (not_or.mpr ⟨ht, not_not.mpr hr'⟩), if_pos ⟨hr, hr'⟩, createEntry_of_ne true hz]
        · dsimp only
          rw [if_pos (Or.inr hr'), if_neg (fun h => hr' h.2)]
      · dsimp only
        rw [if_pos (Or.inr hr), if_neg (fun h => hr h.1)]

lemma entryBlock_mapped {k : ℕ} (hk : k < maxBlocks) (hm : Mapped v inode k) :
    entryBlock v inode k = .ok (zoneAt v inode k, v, inode) := by
  rw [entryBlock]
  split
  next h₀ =>
    rw [h₀]
    rfl
  next => rw [createBlock_of_zone hk hm.2.1, if_pos hm.1]

lemma entryBlock_live (hc : Consistent v inode) {k j : ℕ} (h : entryBlock v inode k = .ok (z, v', inode'))
    (h₀ : z ≠ 0) (hr : v'.readable z = true) (hlive : entryInode (v'.data z) j ≠ 0) :
    z = zoneAt v inode k ∧ v' = v ∧ inode' = inode ∧ Mapped v inode k := by
  rw [entryBlock] at h
  split at h
  next hk =>
    cases h
    rw [hk]
    exact ⟨rfl, rfl, rfl, indexReadable_direct (by decide), h₀, hr⟩
  next =>
    obtain ⟨hkeeps, hz⟩ := createBlock_spec hc h
    obtain ⟨hlt, hz⟩ := hz h₀
    by_cases hzone : zoneAt v inode k = 0
    · have hsame := hkeeps.same k
      rw [stored_eq v' inode' hlt, stored_eq v inode hlt, if_pos hzone, ← hz, if_neg h₀] at hsame
      rw [hsame] at hlive
      exact absurd (Block.word_zero _) hlive
    · rw [createBlock_of_zone hlt hzone] at h
      cases h
      split_ifs at h₀ hr ⊢ with hi
      · exact ⟨rfl, rfl, rfl, hi, h₀, hr⟩
      · exact absurd rfl h₀

end Blocks

section Adding

variable {v : Volume} {dir : MInode} {name : List Byte} {s s' : Adding}

structure Scanned (v : Volume) (dir : MInode) (s : Adding) : Prop where
  volume_eq : s.volume = v
  dir_eq : s.dir = dir
  live : ∀ j, j < s.i → Live v dir j
  current : ¬ (s.i ≠ 0 ∧ s.i % 64 = 0) → s.block = zoneAt v dir (s.i / 64) ∧ Mapped v dir (s.i / 64)

lemma mapped_lt (hc : Consistent v dir) {i : ℕ} (hlive : ∀ j, j < i → Live v dir j) :
    i / 64 < maxBlocks := by
  obtain ⟨k, hk, hnot⟩ := exists_not_mapped hc
  by_contra hge
  have hlt : k * 64 < i := by omega
  have hmapped := (hlive _ hlt).1
  rw [Nat.mul_div_cancel _ (by decide)] at hmapped
  exact hnot hmapped

lemma scanned_block (hc : Consistent v dir) (hs : Scanned v dir s) :
    (if s.i ≠ 0 ∧ s.i % 64 = 0 then createBlock s.volume s.dir (s.i / 64)
      else .ok (s.block, s.volume, s.dir)) = entryBlock v dir (s.i / 64) := by
  rw [hs.volume_eq, hs.dir_eq]
  by_cases hb : s.i ≠ 0 ∧ s.i % 64 = 0
  · rw [if_pos hb, entryBlock, if_neg (by omega)]
  · obtain ⟨hz, hm⟩ := hs.current hb
    rw [if_neg hb, hz, entryBlock_mapped (mapped_lt hc hs.live) hm]

lemma scanned_start (h₀ : dir.zone 0 ≠ 0) (hr : v.readable (dir.zone 0) = true) :
    Scanned v dir ⟨0, dir.zone 0, v, dir⟩ where
  volume_eq := rfl
  dir_eq := rfl
  live j hj := absurd hj (Nat.not_lt_zero j)
  current _ := by
    change _ = zoneAt v dir (0 / 64) ∧ Mapped v dir (0 / 64)
    rw [Nat.zero_div]
    exact ⟨rfl, indexReadable_direct (by decide), h₀, hr⟩

lemma addEntryBody_scanned (hc : Consistent v dir) (name : List Byte) (hs : Scanned v dir s) :
    (∃ s', addEntryBody name s = .again s' ∧ s'.i = s.i + 1 ∧ Scanned v dir s' ∧ Live v dir s.i) ∨
      (∃ p w, addEntryBody name s = .leave (.ok (some p, w)) ∧ EntryRoom v dir) ∨
      ∃ r, addEntryBody name s = .leave r ∧ (∀ p w, r ≠ .ok (some p, w)) ∧
        ¬ ∃ z v' dir', entryBlock v dir (s.i / 64) = .ok (z, v', dir') ∧ z ≠ 0 ∧ v'.readable z = true := by
  rw [addEntryBody, scanned_block hc hs]
  cases hb : entryBlock v dir (s.i / 64) with
  | error f =>
    refine Or.inr (Or.inr ⟨_, rfl, fun _ _ h => (by cases h), ?_⟩)
    rintro ⟨z, v', dir', h, _⟩
    cases h
  | ok r =>
    obtain ⟨z, v', dir'⟩ := r
    dsimp only
    by_cases h₀ : z = 0
    · refine Or.inr (Or.inr ⟨_, if_pos h₀, fun _ _ h => (by cases h), ?_⟩)
      rintro ⟨_, _, _, h, hne, _⟩
      cases h
      exact hne h₀
    · rw [if_neg h₀]
      by_cases hr : v'.readable z = true
      · rw [if_neg (not_not.mpr hr)]
        by_cases hfree : dir'.iSize ≤ 16 * s.i ∨ entryInode (v'.data z) (s.i % 64) = 0
        · exact Or.inr (Or.inl ⟨_, _, if_pos hfree, s.i, hs.live, z, v', dir', hb, h₀, hr, hfree⟩)
        · rw [if_neg hfree]
          obtain ⟨hsize, hlive⟩ := not_or.mp hfree
          obtain ⟨rfl, rfl, rfl, hm⟩ := entryBlock_live hc hb h₀ hr hlive
          have hnow : Live v' dir' s.i := ⟨hm, not_le.mp hsize, hlive⟩
          refine Or.inl ⟨_, rfl, rfl, ⟨rfl, rfl, ?_, ?_⟩, hnow⟩
          · intro j hj
            rcases Nat.lt_succ_iff_lt_or_eq.mp hj with hj | rfl
            · exact hs.live j hj
            · exact hnow
          · intro hin
            have hsame : (s.i + 1) / 64 = s.i / 64 := by
              change ¬ (s.i + 1 ≠ 0 ∧ (s.i + 1) % 64 = 0) at hin
              omega
            change _ = zoneAt v' dir' ((s.i + 1) / 64) ∧ Mapped v' dir' ((s.i + 1) / 64)
            rw [hsame]
            exact ⟨rfl, hm⟩
      · refine Or.inr (Or.inr ⟨_, if_pos hr, fun _ _ h => (by cases h), ?_⟩)
        rintro ⟨_, _, _, h, _, hread⟩
        cases h
        exact hr hread

lemma entryRoom_first (h : EntryRoom v dir) : dir.zone 0 ≠ 0 ∧ v.readable (dir.zone 0) = true := by
  obtain ⟨i, hlive, z, v', dir', hz, hne, hread, _⟩ := h
  rcases Nat.eq_zero_or_pos i with rfl | hi
  · cases hz
    exact ⟨hne, hread⟩
  · exact (hlive 0 hi).1.2

lemma addEntry_room (hc : Consistent v dir) (hname : name ≠ []) (h₀ : dir.zone 0 ≠ 0)
    (hr : v.readable (dir.zone 0) = true) :
    (∃ p w, addEntry v dir name = .ok (some p, w)) ↔ EntryRoom v dir := by
  have hgo : ¬ (name = [] ∨ dir.zone 0 = 0 ∨ ¬ v.readable (dir.zone 0) = true) := by
    rintro (h | h | h)
    · exact hname h
    · exact h₀ h
    · exact h hr
  rw [addEntry, if_neg hgo]
  have hstart := scanned_start h₀ hr
  have hbound : ∀ s, Scanned v dir s → s.i < 64 * maxBlocks := by
    intro s hs
    have hlt := mapped_lt hc hs.live
    change s.i < 64 * 262663
    change s.i / 64 < 262663 at hlt
    omega
  have hagain : ∀ s s', Scanned v dir s → addEntryBody (name.take nameLen) s = .again s' →
      Scanned v dir s' ∧ 64 * maxBlocks - s'.i < 64 * maxBlocks - s.i := by
    intro s s' hs hb
    have hlt := hbound s hs
    rcases addEntryBody_scanned hc _ hs with ⟨s₁, h₁, hi, hs₁, _⟩ | ⟨_, _, h₁, _⟩ | ⟨_, h₁, _⟩
    all_goals
      rw [h₁] at hb
      cases hb
    exact ⟨hs₁, by omega⟩
  obtain ⟨r, hit⟩ := iterate_of_variant (Scanned v dir) (fun s => 64 * maxBlocks - s.i) hagain hstart
    (Nat.lt_succ_of_le (Nat.sub_le _ _))
  rw [hit, Option.getD_some]
  constructor
  · refine iterate_invariant (Scanned v dir) (Q := fun r => (∃ p w, r = .ok (some p, w)) → EntryRoom v dir)
      (fun s s' hs hb => (hagain s s' hs hb).1) ?_ hstart hit
    rintro s r hs hb ⟨p, w, rfl⟩
    rcases addEntryBody_scanned hc _ hs with ⟨_, h₁, _⟩ | ⟨_, _, _, hroom⟩ | ⟨_, h₁, hno, _⟩
    · rw [h₁] at hb
      cases hb
    · exact hroom
    · rw [h₁] at hb
      cases hb
      exact absurd rfl (hno p w)
  · rintro ⟨i, hlive, z, v', dir', hz, hne, hread, hfree⟩
    have hhere : ∀ j, j ≤ i → ∃ z v' dir', entryBlock v dir (j / 64) = .ok (z, v', dir') ∧ z ≠ 0 ∧
        v'.readable z = true := by
      intro j hj
      rcases hj.lt_or_eq with hlt | rfl
      · have hm := (hlive j hlt).1
        exact ⟨_, _, _, entryBlock_mapped (mapped_lt hc fun l hl => hlive l (hl.trans hlt)) hm, hm.2⟩
      · exact ⟨z, v', dir', hz, hne, hread⟩
    have hnot : ¬ Live v dir i := by
      rintro ⟨hm, hsize, hentry⟩
      rw [entryBlock_mapped (mapped_lt hc hlive) hm] at hz
      cases hz
      exact hfree.elim (not_le.mpr hsize) hentry
    -- the loop does not pass place `i`
    refine iterate_invariant (fun s => Scanned v dir s ∧ s.i ≤ i)
      (Q := fun r => ∃ p w, r = .ok (some p, w)) ?_ ?_ ⟨hstart, Nat.zero_le i⟩ hit
    · rintro s s' ⟨hs, hi⟩ hb
      rcases addEntryBody_scanned hc (name.take nameLen) hs with ⟨s₁, h₁, hi₁, hs₁, hl⟩ | ⟨_, _, h₁, _⟩ |
        ⟨_, h₁, _⟩
      all_goals
        rw [h₁] at hb
        cases hb
      refine ⟨hs₁, ?_⟩
      have hne : s.i ≠ i := fun he => hnot (he ▸ hl)
      omega
    · rintro s r ⟨hs, hi⟩ hb
      rcases addEntryBody_scanned hc (name.take nameLen) hs with ⟨_, h₁, _⟩ | ⟨p, w, h₁, _⟩ |
        ⟨_, _, _, hno⟩
      · rw [h₁] at hb
        cases hb
      · rw [h₁] at hb
        cases hb
        exact ⟨p, w, rfl⟩
      · exact absurd (hhere s.i hi) hno

theorem addEntry_iff (hc : Consistent v dir) (hname : name ≠ []) :
    (∃ p w, addEntry v dir name = .ok (some p, w)) ↔ EntryRoom v dir := by
  by_cases hfirst : dir.zone 0 ≠ 0 ∧ v.readable (dir.zone 0) = true
  · exact addEntry_room hc hname hfirst.1 hfirst.2
  · refine iff_of_false ?_ fun h => hfirst (entryRoom_first h)
    rintro ⟨p, w, h⟩
    have hstop : name = [] ∨ dir.zone 0 = 0 ∨ ¬ v.readable (dir.zone 0) = true :=
      Or.inr (not_and_or.mp hfirst |>.imp_left not_not.mp)
    rw [addEntry, if_pos hstop] at h
    cases h

end Adding

end Devos.Fs
