import Devos.Fs.Entries
import Devos.Fs.OwnWrites

/-! The entries of a directory as numbered slots with names, and what `find_entry` and `add_entry` do to
them. -/

namespace Devos.Fs

open Loops

/-- The name in entry `k` of a block: up to the first 0, or all 14 bytes. -/
def nameAt (b : Block) (k : ℕ) : List Byte :=
  ((List.range nameLen).map fun x => b.byte (16 * k + 2 + x)).takeWhile (· ≠ 0)

section Names

variable {b b' : Block} {k l : ℕ} {name : List Byte}

lemma takeWhile_eq_iff {α : Type*} {p : α → Bool} {l a : List α} (ha : ∀ y ∈ a, p y = true) :
    l.takeWhile p = a ↔ a <+: l ∧ ∀ h : a.length < l.length, p l[a.length] = false := by
  induction l generalizing a with
  | nil =>
    rw [List.takeWhile_nil, List.prefix_nil, eq_comm]
    exact (and_iff_left fun h => absurd h (Nat.not_lt_zero _)).symm
  | cons x l ih =>
    cases a with
    | nil => simp [List.takeWhile_cons]
    | cons y a =>
      have hy := ha y List.mem_cons_self
      rw [List.takeWhile_cons, List.cons_prefix_cons, and_assoc]
      by_cases hx : y = x
      · subst hx
        rw [if_pos hy, List.cons.injEq, ih fun z hz => ha z (List.mem_cons_of_mem _ hz)]
        simp
      · refine iff_of_false ?_ fun h => hx h.1
        split
        · rw [List.cons.injEq]
          exact fun h => hx h.1.symm
        · exact fun h => by cases h

lemma prefix_range_iff {n : ℕ} {f : ℕ → Byte} :
    name <+: (List.range n).map f ↔ name.length ≤ n ∧ ∀ x, x < name.length → name.getD x 0 = f x := by
  rw [List.prefix_iff_getElem?]
  constructor
  · intro h
    have hlen : name.length ≤ n := by
      by_contra hgt
      have hlast := h n (not_le.mp hgt)
      simp at hlast
    refine ⟨hlen, fun x hx => ?_⟩
    have hxx := h x hx
    rw [List.getElem?_map, List.getElem?_range (by omega), Option.map_some, Option.some.injEq] at hxx
    rw [List.getD_eq_getElem _ _ hx, hxx]
  · rintro ⟨hlen, h⟩ x hx
    rw [List.getElem?_map, List.getElem?_range (by omega), Option.map_some, ← h x hx, List.getD_eq_getElem _ _ hx]

lemma nameAt_iff (hname : ∀ c ∈ name, c ≠ 0) (hlen : name.length ≤ nameLen) :
    nameAt b k = name ↔ (name.length < nameLen → b.byte (16 * k + 2 + name.length) = 0) ∧
      ∀ x, x < name.length → name.getD x 0 = b.byte (16 * k + 2 + x) := by
  rw [nameAt, takeWhile_eq_iff (by simpa using hname), prefix_range_iff, and_iff_right hlen, and_comm]
  simp

lemma matchEntry_iff (hname : ∀ c ∈ name, c ≠ 0) (hlen : name.length ≤ nameLen) :
    matchEntry name b k ↔ entryInode b k ≠ 0 ∧ nameAt b k = name := by
  rw [nameAt_iff hname hlen]
  rfl

lemma nameAt_congr (h : ∀ x, x < nameLen → b'.byte (16 * l + 2 + x) = b.byte (16 * k + 2 + x)) :
    nameAt b' l = nameAt b k := by
  rw [nameAt, nameAt]
  congr 1
  refine List.map_congr_left fun x hx => h x (List.mem_range.mp hx)

lemma setBytes_byte (b : Block) (lo : ℕ) (bytes : List Byte) (n : ℕ) {x : ℕ} (hx : x < blockSize) :
    (Block.setBytes b lo bytes n).byte x = if lo ≤ x ∧ x < lo + n then bytes.getD (x - lo) 0 else b.byte x := by
  rw [Block.byte_lt _ hx, Block.byte_lt _ hx]
  rfl

lemma entryInode_setWord (b : Block) (n : Word) (hk : k < 64) (hl : l < 64) :
    entryInode (b.setWord (8 * k) n) l = if l = k then n else entryInode b l := by
  rw [entryInode, Block.word_setWord _ _ (by omega) (by omega)]
  exact if_congr (by omega) rfl rfl

lemma nameAt_setWord (b : Block) (n : Word) (hk : k < 64) (hl : l < 64) :
    nameAt (b.setWord (8 * k) n) l = nameAt b l := by
  refine nameAt_congr fun x hx => ?_
  have hbs : blockSize = 1024 := rfl
  have hx' : x < 14 := hx
  rw [Block.setWord, Block.byte_setByte _ _ (by omega) (by omega), Block.byte_setByte _ _ (by omega) (by omega),
    if_neg (by omega), if_neg (by omega)]

lemma entryInode_setBytes (b : Block) (name : List Byte) (hl : l < 64) :
    entryInode (Block.setBytes b (16 * k + 2) name nameLen) l = entryInode b l := by
  have hbs : blockSize = 1024 := rfl
  have hnl : nameLen = 14 := rfl
  rw [entryInode, entryInode, Block.word, Block.word, setBytes_byte _ _ _ _ (by omega),
    setBytes_byte _ _ _ _ (by omega), if_neg (by omega), if_neg (by omega)]

lemma nameAt_setBytes_of_ne (b : Block) (name : List Byte) (hl : l < 64) (hne : l ≠ k) :
    nameAt (Block.setBytes b (16 * k + 2) name nameLen) l = nameAt b l := by
  refine nameAt_congr fun x hx => ?_
  have hbs : blockSize = 1024 := rfl
  have hnl : nameLen = 14 := rfl
  rw [setBytes_byte _ _ _ _ (by omega), if_neg (by omega)]

lemma nameAt_setBytes (b : Block) (hname : ∀ c ∈ name, c ≠ 0) (hlen : name.length ≤ nameLen) (hk : k < 64) :
    nameAt (Block.setBytes b (16 * k + 2) name nameLen) k = name := by
  have hbs : blockSize = 1024 := rfl
  have hbyte : ∀ x, x < nameLen →
      (Block.setBytes b (16 * k + 2) name nameLen).byte (16 * k + 2 + x) = name.getD x 0 := by
    intro x hx
    have hx' : x < 14 := hx
    rw [setBytes_byte _ _ _ _ (by omega), if_pos (by omega)]
    congr 1
    omega
  rw [nameAt_iff hname hlen]
  refine ⟨fun hlt => ?_, fun x hx => (hbyte x (by omega)).symm⟩
  rw [hbyte _ hlt]
  exact List.getD_eq_default _ _ le_rfl

end Names

/-- All blocks that the inode refers to can be read. -/
def AllReadable (v : Volume) (inode : MInode) : Prop :=
  ∀ r, refAt v inode r ≠ 0 → v.readable (refAt v inode r) = true

/-- A directory of whole entries, without holes, in blocks that can be read. -/
structure Filled (v : Volume) (dir : MInode) : Prop where
  consistent : Consistent v dir
  readable : AllReadable v dir
  whole : 16 ∣ dir.iSize
  mapped : ∀ i, 16 * i < dir.iSize → i / 64 < maxBlocks ∧ zoneAt v dir (i / 64) ≠ 0

/-- What entry `k` of a block holds, when it is live. -/
def entryOf (b : Block) (k : ℕ) : Option (List Byte × Word) :=
  if entryInode b k ≠ 0 then some (nameAt b k, entryInode b k) else none

def entrySlot (v : Volume) (dir : MInode) (i : ℕ) : Option (List Byte × Word) :=
  if 16 * i < dir.iSize then entryOf (stored v dir (i / 64)) (i % 64) else none

section Readable

variable {v v' : Volume} {inode inode' : MInode} {i : ℕ}

lemma AllReadable.index (h : AllReadable v inode) (hi : i < maxBlocks) (hz : zoneAt v inode i ≠ 0) :
    IndexReadable v inode i := by
  by_cases h₁ : i < 7
  · exact indexReadable_direct h₁
  · by_cases h₂ : i - 7 < 512
    · rw [zoneAt_single h₁ h₂] at hz
      rw [indexReadable_single h₁ h₂]
      exact h (.zone 7) fun h₀ => hz (entryAt_zero h₀ _)
    · rw [zoneAt_leaf hi h₁ h₂] at hz
      rw [indexReadable_leaf h₁ h₂]
      have hmax : maxBlocks = 262663 := rfl
      have hlt : (i - 7 - 512) / 512 < 512 := by omega
      have ht : refAt v inode (.table ⟨_, hlt⟩) ≠ 0 := fun h₀ => hz (entryAt_zero h₀ _)
      exact ⟨h (.zone 8) fun h₀ => ht (entryAt_zero h₀ _), h _ ht⟩

lemma AllReadable.mapped (h : AllReadable v inode) (hi : i < maxBlocks) (hz : zoneAt v inode i ≠ 0) :
    Mapped v inode i := ⟨h.index hi hz, hz, h _ hz⟩

lemma newBlock_readable (v : Volume) {z : Word} (hz : v.readable z = true ∨ z = v.newBlock.1 ∧ z ≠ 0) :
    v.newBlock.2.readable z = true := by
  rw [Volume.newBlock] at hz ⊢
  cases hf : v.findFirstZero with
  | none =>
    rw [hf] at hz
    rcases hz with hz | ⟨hz, h₀⟩
    · exact hz
    · exact absurd hz h₀
  | some j =>
    rw [hf] at hz
    dsimp only at hz ⊢
    split at hz
    next hge =>
      rw [if_pos hge]
      rcases hz with hz | ⟨hz, h₀⟩
      · exact hz
      · exact absurd hz h₀
    next hlt =>
      rw [if_neg hlt]
      dsimp only
      rw [Function.update_apply]
      split
      · rfl
      next hne =>
        rcases hz with hz | ⟨hz, _⟩
        · exact hz
        · exact absurd hz hne

/-- What a step of `create_block` leaves is what was there, and the new block. -/
lemma Grown.allReadable {r₀ : Ref} (hg : Grown v inode r₀ v.newBlock.1 v' inode')
    (hread : v'.readable = v.newBlock.2.readable) (h : AllReadable v inode) : AllReadable v' inode' := by
  intro r h₀
  rw [hg.refAt_eq] at h₀ ⊢
  rw [hread]
  by_cases hr : r = r₀
  · rw [if_pos hr]
    exact newBlock_readable v (Or.inr ⟨rfl, hg.ne_zero⟩)
  · rw [if_neg hr] at h₀ ⊢
    exact newBlock_readable v (Or.inl (h r h₀))

lemma newBlock_allReadable (hc : Consistent v inode) (h : AllReadable v inode) :
    AllReadable v.newBlock.2 inode := by
  intro r h₀
  rw [refAt_newBlock hc] at h₀ ⊢
  exact newBlock_readable v (Or.inl (h r h₀))

lemma createZone_allReadable (hc : Consistent v inode) (h : AllReadable v inode) (k : Fin 9)
    (hs : createZone true v inode k = (v', inode')) : AllReadable v' inode' := by
  have hk : Fin.ofNat 9 k.val = k := by simp
  by_cases h₀ : inode.zone k = 0
  · rw [createZone, if_pos ⟨rfl, h₀⟩] at hs
    cases hs
    have hvacant : inode.iZone k = 0 := by rwa [MInode.zone, hk] at h₀
    rcases newBlock_cases hc with ⟨hz, _⟩ | ht
    · rw [hz, setZone_zero hvacant]
      exact newBlock_allReadable hc h
    · exact (ht.grown_zone hc hvacant).allReadable rfl h
  · rw [createZone_of_ne true v h₀] at hs
    cases hs
    exact h

lemma createEntry_allReadable (hc : Consistent v inode) (h : AllReadable v inode) {r p : Ref} {k : Fin 512}
    {z : Word} (hr : r.holder = some (p, k)) (h₀ : refAt v inode p ≠ 0)
    (hs : createEntry true v (refAt v inode p) k = (z, v')) : AllReadable v' inode := by
  by_cases hw : (v.data (refAt v inode p)).word k = 0
  · rw [createEntry, if_pos ⟨rfl, hw⟩] at hs
    rcases newBlock_cases hc with ⟨hz, _⟩ | ht
    · simp only [hz, ne_eq, not_true_eq_false, if_false] at hs
      cases hs
      exact newBlock_allReadable hc h
    · simp only [if_pos ht.ne_zero] at hs
      cases hs
      exact (ht.grown_entry hc hr h₀ hw).allReadable rfl h
  · rw [createEntry_of_ne true hw] at hs
    cases hs
    exact h

lemma createBlock_allReadable (hc : Consistent v inode) (h : AllReadable v inode) {z : Word}
    (hs : createBlock v inode i = .ok (z, v', inode')) : AllReadable v' inode' := by
  have hgrow : ∀ {v' inode'}, Growth v inode v' inode' → AllReadable v' inode' := by
    intro v' inode' hg
    induction hg with
    | refl => exact h
    | zone k hg hz ih => exact createZone_allReadable (hg.keeps hc).consistent ih k hz
    | entry hg hr h₀ he ih => exact createEntry_allReadable (hg.keeps hc).consistent ih hr h₀ he
  exact hgrow (createBlock_growth hc hs).1

end Readable

section Find

variable {v : Volume} {dir : MInode} {name : List Byte} {i : ℕ}

lemma stored_mapped {k : ℕ} (hk : k < maxBlocks) (hz : zoneAt v dir k ≠ 0) :
    stored v dir k = v.data (zoneAt v dir k) := by
  rw [stored_eq v dir hk, if_neg hz]

lemma Filled.block (hf : Filled v dir) (hi : 16 * i < dir.iSize) : stored v dir (i / 64) =
    v.data (zoneAt v dir (i / 64)) :=
  stored_mapped (hf.mapped i hi).1 (hf.mapped i hi).2

lemma Filled.lt_iff (hf : Filled v dir) : i < dir.iSize / 16 ↔ 16 * i < dir.iSize := by
  obtain ⟨n, hn⟩ := hf.whole
  rw [hn]
  omega

/-- `find_entry` has passed the entries before `i` and stands in the block of entry `i`, unless this is the
first of a block. -/
structure Searched (v : Volume) (dir : MInode) (name : List Byte) (s : Finding) : Prop where
  passed : ∀ j, j < s.i → ¬ matchEntry name (stored v dir (j / 64)) (j % 64)
  current : ¬ (s.i ≠ 0 ∧ s.i % 64 = 0) → s.block = zoneAt v dir (s.i / 64)

lemma findEntryBody_searched (hf : Filled v dir) {s : Finding} (hs : Searched v dir name s) :
    (¬ 16 * s.i < dir.iSize ∧ findEntryBody v dir name s = .leave (.ok none)) ∨
      16 * s.i < dir.iSize ∧ matchEntry name (stored v dir (s.i / 64)) (s.i % 64) ∧
        findEntryBody v dir name s = .leave (.ok (some (zoneAt v dir (s.i / 64), s.i % 64))) ∨
      16 * s.i < dir.iSize ∧ ∃ s', s'.i = s.i + 1 ∧ Searched v dir name s' ∧
        findEntryBody v dir name s = .again s' := by
  rw [findEntryBody]
  by_cases hi : 16 * s.i < dir.iSize
  · obtain ⟨hlt, h₀⟩ := hf.mapped s.i hi
    have hblock : (if s.i ≠ 0 ∧ s.i % 64 = 0 then bmap v dir (s.i / 64) else .ok s.block) =
        .ok (zoneAt v dir (s.i / 64)) := by
      split
      next => rw [bmap_eq hlt, if_pos (hf.readable.index hlt h₀)]
      next hin => rw [hs.current hin]
    have hread : ¬ (zoneAt v dir (s.i / 64) = 0 ∨ ¬ v.readable (zoneAt v dir (s.i / 64)) = true) := by
      rintro (hz | hr)
      · exact h₀ hz
      · exact hr (hf.readable _ h₀)
    refine Or.inr ?_
    rw [if_neg (not_le.mpr (hf.lt_iff.mpr hi)), hblock, hf.block hi]
    dsimp only
    rw [if_neg hread]
    by_cases hm : matchEntry name (v.data (zoneAt v dir (s.i / 64))) (s.i % 64)
    · exact Or.inl ⟨hi, hm, if_pos hm⟩
    · rw [if_neg hm]
      refine Or.inr ⟨hi, _, rfl, ⟨?_, ?_⟩, rfl⟩
      · intro j hj
        rcases Nat.lt_succ_iff_lt_or_eq.mp hj with hj | rfl
        · exact hs.passed j hj
        · rwa [hf.block hi]
      · intro hin
        change ¬ (s.i + 1 ≠ 0 ∧ (s.i + 1) % 64 = 0) at hin
        change _ = zoneAt v dir ((s.i + 1) / 64)
        rw [show (s.i + 1) / 64 = s.i / 64 by omega]
  · exact Or.inl ⟨hi, if_pos (not_lt.mp (fun h => hi (hf.lt_iff.mp h)))⟩

/-- The first entry that matches, or none. -/
theorem findEntry_spec (hf : Filled v dir) (hname : name ≠ []) :
    (findEntry v dir name = .ok none ∧
      ∀ i, 16 * i < dir.iSize → ¬ matchEntry (name.take nameLen) (stored v dir (i / 64)) (i % 64)) ∨
      ∃ i, 16 * i < dir.iSize ∧ matchEntry (name.take nameLen) (stored v dir (i / 64)) (i % 64) ∧
        findEntry v dir name = .ok (some (zoneAt v dir (i / 64), i % 64)) := by
  by_cases hfirst : dir.zone 0 = 0 ∨ ¬ v.readable (dir.zone 0) = true
  · have hempty : ∀ i, ¬ 16 * i < dir.iSize := by
      intro i hi
      have h₀ : zoneAt v dir 0 ≠ 0 := (hf.mapped 0 (by omega)).2
      rcases hfirst with hz | hr
      · exact h₀ hz
      · exact hr (hf.readable (blockRef 0) h₀)
    exact Or.inl ⟨by rw [findEntry, if_pos (Or.inr hfirst)], fun i hi => absurd hi (hempty i)⟩
  · have hgo : ¬ (name = [] ∨ dir.zone 0 = 0 ∨ ¬ v.readable (dir.zone 0) = true) := not_or.mpr ⟨hname, hfirst⟩
    have hstart : Searched v dir (name.take nameLen) ⟨0, dir.zone 0⟩ :=
      ⟨fun j hj => absurd hj (Nat.not_lt_zero j), fun _ => congrArg (zoneAt v dir) (Nat.zero_div 64).symm⟩
    have hagain : ∀ s s', Searched v dir (name.take nameLen) s →
        findEntryBody v dir (name.take nameLen) s = .again s' →
        Searched v dir (name.take nameLen) s' ∧ dir.iSize / 16 - s'.i < dir.iSize / 16 - s.i := by
      intro s s' hs hb
      rcases findEntryBody_searched hf hs with ⟨_, he⟩ | ⟨_, _, he⟩ | ⟨hi, s₁, hi₁, hs₁, he⟩
      all_goals
        rw [he] at hb
        cases hb
      have hlt := hf.lt_iff.mpr hi
      exact ⟨hs₁, by omega⟩
    obtain ⟨r, hit⟩ := iterate_of_variant (Searched v dir (name.take nameLen)) (fun s => dir.iSize / 16 - s.i)
      hagain hstart (Nat.lt_succ_of_le (Nat.sub_le _ _))
    have hfind : findEntry v dir name = r := by rw [findEntry, if_neg hgo, hit, Option.getD_some]
    rw [hfind]
    refine iterate_invariant (Searched v dir (name.take nameLen))
      (Q := fun r => (r = .ok none ∧ ∀ i, 16 * i < dir.iSize →
        ¬ matchEntry (name.take nameLen) (stored v dir (i / 64)) (i % 64)) ∨
          ∃ i, 16 * i < dir.iSize ∧ matchEntry (name.take nameLen) (stored v dir (i / 64)) (i % 64) ∧
            r = .ok (some (zoneAt v dir (i / 64), i % 64)))
      (fun s s' hs hb => (hagain s s' hs hb).1) ?_ hstart hit
    intro s r hs hb
    rcases findEntryBody_searched hf hs with ⟨hend, he⟩ | ⟨hi, hm, he⟩ | ⟨_, _, _, _, he⟩
    all_goals
      rw [he] at hb
      cases hb
    · refine Or.inl ⟨rfl, fun i hi => hs.passed i ?_⟩
      omega
    · exact Or.inr ⟨s.i, hi, hm, rfl⟩

end Find

/-- `de->inode = n` at the entry that `add_entry` has found. -/
def Added.fill (p : Added) (n : Word) : Volume :=
  p.volume.put p.block ((p.volume.data p.block).setWord (8 * p.k) n)

section Write

variable {v v' : Volume} {dir dir' : MInode} {name : List Byte} {b : Block} {z n : Word} {i j k l : ℕ}

lemma entryOf_setWord (b : Block) (n : Word) (hk : k < 64) (hl : l < 64) :
    entryOf (b.setWord (8 * k) n) l =
      if l = k then (if n ≠ 0 then some (nameAt b k, n) else none) else entryOf b l := by
  rw [entryOf, entryInode_setWord b n hk hl, nameAt_setWord b n hk hl]
  by_cases hlk : l = k
  · subst hlk
    rw [if_pos rfl, if_pos rfl]
  · rw [if_neg hlk, if_neg hlk, entryOf]

lemma entryOf_setBytes (b : Block) (name : List Byte) (hl : l < 64) (hne : l ≠ k) :
    entryOf (Block.setBytes b (16 * k + 2) name nameLen) l = entryOf b l := by
  rw [entryOf, entryInode_setBytes b name hl, nameAt_setBytes_of_ne b name hl hne, entryOf]

lemma Filled.put (hf : Filled v dir) (k : ℕ) (b : Block) : Filled (v.put (zoneAt v dir k) b) dir := by
  have hrefs := refAt_put hf.consistent (blockRef_isData k) b
  refine ⟨consistent_put hf.consistent (blockRef_isData k) b, ?_, hf.whole, ?_⟩
  · intro r h₀
    change refAt (v.put (refAt v dir (blockRef k)) b) dir r ≠ 0 at h₀
    change v.readable (refAt (v.put (refAt v dir (blockRef k)) b) dir r) = true
    rw [hrefs] at h₀ ⊢
    exact hf.readable r h₀
  · intro i hi
    refine ⟨(hf.mapped i hi).1, ?_⟩
    have hz := (hf.mapped i hi).2
    rwa [← show zoneAt (v.put (zoneAt v dir k) b) dir (i / 64) = zoneAt v dir (i / 64) from hrefs _] at hz

/-- Only entry `i` of the directory changes with its block. -/
lemma slot_put (hf : Filled v dir) (hi : 16 * i < dir.iSize)
    (hb : ∀ l, l < 64 → l ≠ i % 64 → entryOf b l = entryOf (stored v dir (i / 64)) l) :
    entrySlot (v.put (zoneAt v dir (i / 64)) b) dir = Function.update (entrySlot v dir) i (entryOf b (i % 64)) := by
  obtain ⟨hlt, h₀⟩ := hf.mapped i hi
  funext j
  rw [entrySlot, stored_put hf.consistent hlt h₀]
  by_cases hj : j = i
  · rw [hj, Function.update_self, if_pos hi, if_pos rfl]
  · rw [Function.update_of_ne hj, entrySlot]
    by_cases hblock : j / 64 = i / 64
    · rw [if_pos hblock, hb (j % 64) (Nat.mod_lt _ (by decide)) (by omega), hblock]
    · rw [if_neg hblock]

/-- `find_entry` and then `de->inode = 0`. -/
lemma slot_clear (hf : Filled v dir) (hi : 16 * i < dir.iSize) :
    entrySlot (v.put (zoneAt v dir (i / 64)) ((v.data (zoneAt v dir (i / 64))).setWord (8 * (i % 64)) 0)) dir =
      Function.update (entrySlot v dir) i none := by
  have hmod : i % 64 < 64 := Nat.mod_lt _ (by decide)
  rw [slot_put hf hi, entryOf_setWord _ _ hmod hmod, if_pos rfl, if_neg (by decide)]
  intro l hl hne
  rw [entryOf_setWord _ _ hmod hl, if_neg hne, hf.block hi]

lemma entryBlock_filled (hf : Filled v dir) (h : entryBlock v dir k = .ok (z, v', dir')) :
    Filled v' dir' ∧ (∀ j, stored v' dir' j = stored v dir j) ∧ dir'.iSize = dir.iSize ∧
      (z ≠ 0 → k < maxBlocks ∧ z = zoneAt v' dir' k ∧ v'.readable z = true) := by
  rw [entryBlock] at h
  split at h
  next hk =>
    cases h
    refine ⟨hf, fun _ => rfl, rfl, fun h₀ => ?_⟩
    rw [hk]
    exact ⟨by decide, rfl, hf.readable (blockRef 0) h₀⟩
  next =>
    obtain ⟨hkeeps, hz⟩ := createBlock_spec hf.consistent h
    have hread := createBlock_allReadable hf.consistent hf.readable h
    refine ⟨⟨hkeeps.consistent, hread, hkeeps.iSize ▸ hf.whole, ?_⟩, hkeeps.same, hkeeps.iSize, fun h₀ => ?_⟩
    · intro i hi
      rw [hkeeps.iSize] at hi
      obtain ⟨hlt, h₀⟩ := hf.mapped i hi
      refine ⟨hlt, ?_⟩
      rw [zoneAt, hkeeps.stable _ h₀]
      exact h₀
    · obtain ⟨hlt, he⟩ := hz h₀
      refine ⟨hlt, he, ?_⟩
      rw [he] at h₀ ⊢
      exact hread _ h₀

lemma slot_congr (hstored : ∀ j, stored v' dir' j = stored v dir j) (hsize : dir'.iSize = dir.iSize) :
    entrySlot v' dir' = entrySlot v dir := by
  funext i
  rw [entrySlot, entrySlot, hstored, hsize]

/-- `add_entry` has taken place `i`, the first that is not live. -/
structure TakenAt (v : Volume) (dir : MInode) (i : ℕ) (z : Word) (v' : Volume) (dir' : MInode) : Prop where
  live : ∀ j, j < i → Live v dir j
  block : entryBlock v dir (i / 64) = .ok (z, v', dir')
  ne_zero : z ≠ 0
  free : dir'.iSize ≤ 16 * i ∨ entryInode (v'.data z) (i % 64) = 0

def AddResult (v : Volume) (dir : MInode) (name : List Byte)
    (r : Except Fault (Option Added × Volume × MInode)) : Prop :=
  (∃ v' dir', r = .ok (none, v', dir') ∧ Filled v' dir' ∧ entrySlot v' dir' = entrySlot v dir) ∨
    ∃ i z v' dir', r = .ok (some (Adding.take name i z v' dir'), v', dir') ∧ TakenAt v dir i z v' dir'

lemma entryBlock_returns (v : Volume) (dir : MInode) (hk : k < maxBlocks) :
    ∃ z v' dir', entryBlock v dir k = .ok (z, v', dir') := by
  rw [entryBlock]
  split
  · exact ⟨_, _, _, rfl⟩
  · exact createBlock_returns v dir hk

lemma addEntryBody_filled (hf : Filled v dir) (name : List Byte) {s : Adding} (hs : Scanned v dir s) :
    (∃ s', addEntryBody name s = .again s' ∧ s'.i = s.i + 1 ∧ Scanned v dir s') ∨
      ∃ r, addEntryBody name s = .leave r ∧ AddResult v dir name r := by
  rcases addEntryBody_scanned hf.consistent name hs with ⟨s', he, hi, hs', _⟩ | hleave
  · exact Or.inl ⟨s', he, hi, hs'⟩
  · have hno : ∀ s', addEntryBody name s ≠ .again s' := by
      intro s' he
      rcases hleave with ⟨_, _, he', _⟩ | ⟨_, he', _⟩
      all_goals
        rw [he'] at he
        cases he
    obtain ⟨z, v', dir', hb⟩ := entryBlock_returns v dir (mapped_lt hf.consistent hs.live)
    obtain ⟨hf', hstored, hsize, hblock⟩ := entryBlock_filled hf hb
    right
    rw [addEntryBody, scanned_block hf.consistent hs, hb] at hno ⊢
    dsimp only at hno ⊢
    by_cases h₀ : z = 0
    · rw [if_pos h₀]
      exact ⟨_, rfl, Or.inl ⟨v', dir', rfl, hf', slot_congr hstored hsize⟩⟩
    · have hread := (hblock h₀).2.2
      rw [if_neg h₀, if_neg (not_not.mpr hread)] at hno ⊢
      by_cases hfree : dir'.iSize ≤ 16 * s.i ∨ entryInode (v'.data z) (s.i % 64) = 0
      · rw [if_pos hfree]
        exact ⟨_, rfl, Or.inr ⟨s.i, z, v', dir', rfl, hs.live, hb, h₀, hfree⟩⟩
      · rw [if_neg hfree] at hno
        exact absurd rfl (hno _)

/-- On a filled directory `add_entry` returns, and takes the first place that is not live. -/
theorem addEntry_filled (hf : Filled v dir) (name : List Byte) :
    AddResult v dir (name.take nameLen) (addEntry v dir name) := by
  rw [addEntry]
  by_cases hstop : name = [] ∨ dir.zone 0 = 0 ∨ ¬ v.readable (dir.zone 0) = true
  · rw [if_pos hstop]
    exact Or.inl ⟨v, dir, rfl, hf, rfl⟩
  · rw [if_neg hstop]
    obtain ⟨_, hfirst⟩ := not_or.mp hstop
    obtain ⟨hzone, hread⟩ := not_or.mp hfirst
    have hstart := scanned_start hzone (not_not.mp hread)
    have hagain : ∀ s s', Scanned v dir s → addEntryBody (name.take nameLen) s = .again s' →
        Scanned v dir s' ∧ 64 * maxBlocks - s'.i < 64 * maxBlocks - s.i := by
      intro s s' hs hb
      have hlt := mapped_lt hf.consistent hs.live
      have hmax : maxBlocks = 262663 := rfl
      rcases addEntryBody_filled hf (name.take nameLen) hs with ⟨s₁, h₁, hi, hs₁⟩ | ⟨_, h₁, _⟩
      all_goals
        rw [h₁] at hb
        cases hb
      exact ⟨hs₁, by omega⟩
    obtain ⟨r, hit⟩ := iterate_of_variant (Scanned v dir) (fun s => 64 * maxBlocks - s.i) hagain hstart
      (Nat.lt_succ_of_le (Nat.sub_le _ _))
    rw [hit, Option.getD_some]
    refine iterate_invariant (Scanned v dir) (Q := AddResult v dir (name.take nameLen))
      (fun s s' hs hb => (hagain s s' hs hb).1) ?_ hstart hit
    intro s r hs hb
    rcases addEntryBody_filled hf (name.take nameLen) hs with ⟨_, h₁, _⟩ | ⟨_, h₁, hr⟩
    all_goals
      rw [h₁] at hb
      cases hb
    exact hr

/-- The block of the entry as `add_entry` and its caller leave it. -/
def filledBlock (clear : Bool) (name : List Byte) (k : ℕ) (n : Word) (b : Block) : Block :=
  (Block.setBytes (if clear then b.setWord (8 * k) 0 else b) (16 * k + 2) name nameLen).setWord (8 * k) n

lemma entryOf_filledBlock (clear : Bool) (b : Block) (hname : ∀ c ∈ name, c ≠ 0) (hlen : name.length ≤ nameLen)
    (hn : n ≠ 0) (hk : k < 64) (hl : l < 64) :
    entryOf (filledBlock clear name k n b) l = if l = k then some (name, n) else entryOf b l := by
  rw [filledBlock, entryOf_setWord _ _ hk hl, nameAt_setBytes _ hname hlen hk, if_pos hn]
  by_cases hlk : l = k
  · rw [if_pos hlk, if_pos hlk]
  · rw [if_neg hlk, if_neg hlk, entryOf_setBytes _ _ hl hlk]
    split
    · rw [entryOf_setWord _ _ hk hl, if_neg hlk]
    · rfl

lemma put_put_block (v : Volume) (z : Word) (b b' : Block) : (v.put z b).put z b' = v.put z b' := by
  rw [Volume.put, Volume.put, Volume.put, Function.update_idem]

lemma take_fill (name : List Byte) (i : ℕ) (z n : Word) (v : Volume) (dir : MInode) :
    (Adding.take name i z v dir).fill n =
      v.put z (filledBlock (decide (dir.iSize ≤ 16 * i)) name (i % 64) n (v.data z)) := by
  rw [Added.fill]
  unfold Adding.take
  dsimp only
  rw [put_put_block, Volume.put_data_self]
  simp only [filledBlock, decide_eq_true_eq]

lemma stored_eq_of_zoneAt (h : ∀ k, zoneAt v dir' k = zoneAt v dir k) (k : ℕ) :
    stored v dir' k = stored v dir k := by
  rw [stored, stored, content, content, h]

/-- The directory that `add_entry` leaves reaches up to the place, and no further than before behind it. -/
lemma take_dir (hf : Filled v dir) (ht : TakenAt v dir i z v' dir') (name : List Byte) :
    Filled v' (Adding.take name i z v' dir').dir ∧ 16 * i < (Adding.take name i z v' dir').dir.iSize ∧
      (∀ k, zoneAt v' (Adding.take name i z v' dir').dir k = zoneAt v' dir' k) ∧
      ∀ j, j ≠ i → (16 * j < (Adding.take name i z v' dir').dir.iSize ↔ 16 * j < dir.iSize) := by
  obtain ⟨hf', _, hsize, hblock⟩ := entryBlock_filled hf ht.block
  obtain ⟨hlt, hz, _⟩ := hblock ht.ne_zero
  unfold Adding.take
  dsimp only
  by_cases hend : dir'.iSize ≤ 16 * i
  · rw [if_pos hend]
    have hlast : dir.iSize = 16 * i := by
      obtain ⟨m, hm⟩ := hf.whole
      rcases Nat.eq_zero_or_pos i with rfl | hi
      · omega
      · have hbefore := (ht.live (i - 1) (by omega)).2.1
        omega
    refine ⟨⟨hf'.consistent.size _, ?_, Dvd.intro _ rfl, ?_⟩, ?_, fun k => refAt_size _ _ _ _, ?_⟩
    · intro r h₀
      rw [refAt_size] at h₀ ⊢
      exact hf'.readable r h₀
    · intro j hj
      change 16 * j < 16 * (i + 1) at hj
      change _ ∧ refAt v' { dir' with iSize := _ } (blockRef (j / 64)) ≠ 0
      rw [refAt_size]
      rcases Nat.lt_or_ge j i with hji | hji
      · exact hf'.mapped j (by omega)
      · rw [show j = i by omega]
        exact ⟨hlt, fun h₀ => ht.ne_zero (hz.trans h₀)⟩
    · change 16 * i < 16 * (i + 1)
      omega
    · intro j hj
      change 16 * j < 16 * (i + 1) ↔ _
      omega
  · rw [if_neg hend]
    exact ⟨hf', not_le.mp hend, fun _ => rfl, fun j _ => by rw [hsize]⟩

/-- The place becomes the entry of the name, and every other entry stays. -/
lemma slot_fill (hf : Filled v dir) (ht : TakenAt v dir i z v' dir') (hname : ∀ c ∈ name, c ≠ 0)
    (hlen : name.length ≤ nameLen) (hn : n ≠ 0) :
    Filled ((Adding.take name i z v' dir').fill n) (Adding.take name i z v' dir').dir ∧
      entrySlot v dir i = none ∧
      entrySlot ((Adding.take name i z v' dir').fill n) (Adding.take name i z v' dir').dir =
        Function.update (entrySlot v dir) i (some (name, n)) := by
  obtain ⟨hf', hstored, hsize, hblock⟩ := entryBlock_filled hf ht.block
  obtain ⟨hlt, hz, _⟩ := hblock ht.ne_zero
  obtain ⟨hfill, hi, hzones, hrest⟩ := take_dir hf ht name
  have hmod : i % 64 < 64 := Nat.mod_lt _ (by decide)
  have hdata : v'.data z = stored v dir (i / 64) := by
    rw [← hstored, stored_mapped hlt (hz ▸ ht.ne_zero), ← hz]
  rw [take_fill, hdata]
  generalize (Adding.take name i z v' dir').dir = d at hfill hi hzones hrest
  have hz' : z = zoneAt v' d (i / 64) := hz.trans (hzones _).symm
  have hold : ∀ k, stored v' d k = stored v dir k := fun k => (stored_eq_of_zoneAt hzones k).trans (hstored k)
  refine ⟨?_, ?_, ?_⟩
  · rw [hz']
    exact hfill.put _ _
  · rw [entrySlot]
    split
    · rename_i hlive
      rcases ht.free with hend | hfree
      · omega
      · rw [hdata] at hfree
        exact if_neg (not_not.mpr hfree)
    · rfl
  · rw [hz', slot_put hfill hi, entryOf_filledBlock _ _ hname hlen hn hmod hmod, if_pos rfl]
    · funext j
      by_cases hj : j = i
      · rw [hj, Function.update_self, Function.update_self]
      · rw [Function.update_of_ne hj, Function.update_of_ne hj, entrySlot, entrySlot, hold]
        exact if_congr (hrest j hj) rfl rfl
    · intro l hl hne
      rw [entryOf_filledBlock _ _ hname hlen hn hmod hl, if_neg hne, hold]

end Write

end Devos.Fs
