import Devos.Fs.Loader

/-! The headers that `load_elf_binary` uses, beside those that the file has. -/

namespace Devos.Fs

open Loops Longs

namespace Source

/-- The variables at the head of the loop, with the headers below a number to go. -/
inductive Comes (x : Source) (ex : Elf32Ehdr) (m : ℕ → Byte) : ℕ → Loading → Prop
  | start : Comes x ex m ex.eShnum (loadStart ex m)
  | turn {k s s'} : Comes x ex m (k + 1) s → x.loadTurn ex k s = .ok (some s') → Comes x ex m k s'

/-- Where the file has its header number `k`, with no end to the offsets. -/
def place (ex : Elf32Ehdr) (k : ℕ) : ℕ := ex.eShoff + k * ex.eShentsize

def fileHeader (x : Source) (ex : Elf32Ehdr) (k : ℕ) : Elf32Shdr :=
  .read fun i => storedByte x.volume x.inode (place ex k + i)

/-- No pointer is used before there is a block, nor beyond a block or a table of block numbers, and a header that is
used is the one of the file. -/
def ReadsHeader (x : Source) (ex : Elf32Ehdr) (k : ℕ) (s : Loading) : Prop :=
  x.nextHeader (ex.entry k) s ≠ .error .badPointer ∧ x.nextHeader (ex.entry k) s ≠ .error .overrun ∧
    ∀ s' h, x.nextHeader (ex.entry k) s = .ok (some (s', h)) →
      place ex k + Elf32Shdr.bytes ≤ x.inode.iSize ∧ h = x.fileHeader ex k

def ReadsTable (x : Source) (ex : Elf32Ehdr) (m : ℕ → Byte) : Prop :=
  ∀ k s, x.Comes ex m (k + 1) s → x.ReadsHeader ex k s

/-- `read_file_block` stays in the tables of block numbers; and the header is not beyond the end of the block that it
finds, nor of the file, and is in the block that the file has there, or is blank as in a hole. -/
def EntryFound (x : Source) (ex : Elf32Ehdr) (k : ℕ) : Prop :=
  match x.block (ex.entry k / blockSize) with
  | .error f => f = .panic
  | .ok none => True
  | .ok (some z) =>
    ex.entry k % blockSize + Elf32Shdr.bytes ≤ blockSize ∧ place ex k + Elf32Shdr.bytes ≤ x.inode.iSize ∧
      (FollowsMap x.volume x.inode (ex.entry k / blockSize) ∨
        Elf32Shdr.read (fun i => (x.volume.data z).byte (ex.entry k % blockSize + i)) = .blank)

section Found

variable {v : Volume} {inode : MInode} {n : ℕ} {z : Word} {f : Fault}

lemma zoneAt_of_strays (hn : n < maxBlocks) (h : readFileBlock v inode n = .ok (some z))
    (hstray : ¬FollowsMap v inode n) : zoneAt v inode n = 0 := by
  have hmax : maxBlocks = 262663 := rfl
  unfold FollowsMap at hstray
  split_ifs at hstray with h₁ h₂ h₃
  · push Not at hstray
    rw [zoneAt, blockRef, if_pos h₁]
    exact hstray.1
  · push Not at hstray
    rw [zoneAt_single h₁ (by omega), hstray.1, entryAt_zero rfl]
  · push Not at hstray
    obtain ⟨hne, _, hzero, _⟩ := hstray
    have hm : n - 7 - 512 = n - 519 := by omega
    have htable : entryAt v (inode.zone 8) ((n - 7 - 512) / 512) = 0 := by
      rw [entryAt_ne hne, hm]
      exact hzero
    rw [zoneAt_leaf hn h₁ (by omega), htable, entryAt_zero rfl]
  · push Not at hstray
    obtain ⟨hne, hr, hsecond⟩ := hstray
    replace hsecond := Bool.eq_true_of_not_eq_false hsecond
    rw [readFileBlock_double hn (by omega), if_neg (not_or.mpr ⟨hne, not_not.mpr hr⟩), if_neg h₃,
      readFileBlockInd_outside _ _ (by omega), if_pos hsecond] at h
    cases h

/-- A block that is found is the block of the file, or the file has a hole. -/
lemma stored_of_found (hn : n < maxBlocks) (h : readFileBlock v inode n = .ok (some z)) :
    (FollowsMap v inode n → stored v inode n = v.data z) ∧ (¬FollowsMap v inode n → stored v inode n = Block.zero) := by
  rw [stored_eq v inode hn]
  constructor
  · intro hfollow
    have hagree := (readFileBlock_agrees (bmap_eq (v := v) hn)).mpr hfollow
    rw [h, Except.ok.injEq] at hagree
    split_ifs at hagree with hindex
    · unfold mappedBuffer Volume.buffer at hagree
      split_ifs at hagree with hz hr
      rw [if_neg hz, Option.some.inj hagree]
    · cases hagree
  · intro hstray
    rw [if_pos (zoneAt_of_strays hn h hstray)]

lemma tableEntry_error {k : ℤ} (h : tableEntry v z k = .error f) : f = .overrun := by
  unfold tableEntry at h
  split_ifs at h
  cases h
  rfl

lemma readFileBlockInd_error {k : ℤ} (h : readFileBlockInd v z k = .error f) : f = .overrun := by
  unfold readFileBlockInd at h
  by_cases hr : v.readable z = true
  · rw [if_neg (not_not.mpr hr)] at h
    cases hentry : tableEntry v z k with
    | error g =>
      rw [hentry] at h
      cases h
      exact tableEntry_error hentry
    | ok block =>
      rw [hentry] at h
      change (if block ≠ 0 then _ else _) = _ at h
      split_ifs at h
  · rw [if_pos hr] at h
    cases h

/-- The index that `read_file_block` gives to the second table. -/
def secondIndex (n : ℕ) : ℤ := if 512 ≤ (n : ℤ) - 519 then (n : ℤ) - 519 - ((n : ℤ) - 519 - 1) * 512 else (n : ℤ) - 519

/-- What `read_file_block` does behind the blocks that need one table at most. -/
lemma readFileBlock_behind (h : ¬n < 519) : readFileBlock v inode n =
    if 512 * 512 < (n : ℤ) - 519 then .error .panic
    else if inode.zone 8 = 0 ∨ ¬v.readable (inode.zone 8) then .ok none
    else (tableEntry v (inode.zone 8) (((n : ℤ) - 519) / 512)).bind fun table =>
      readFileBlockInd v table (secondIndex n) := by
  have hm : (n : ℤ) - 7 - 512 = (n : ℤ) - 519 := by omega
  rw [readFileBlock, if_neg (by omega)]
  change (if (n : ℤ) - 7 < 512 then _ else _) = _
  rw [if_neg (by omega)]
  simp only [hm]
  by_cases hz : inode.zone 8 = 0
  · rw [if_pos hz, if_pos (Or.inl hz)]
  · by_cases hr : v.readable (inode.zone 8) = true
    · rw [if_neg hz, if_neg (not_not.mpr hr), if_neg (not_or.mpr ⟨hz, not_not.mpr hr⟩)]
      rfl
    · rw [if_neg hz, if_pos hr, if_pos (Or.inr hr)]

lemma readFileBlock_error (h : readFileBlock v inode n = .error f) : f = .panic ∨ f = .overrun := by
  by_cases h₁ : n < 7
  · rw [readFileBlock, if_pos (by omega)] at h
    cases h
  · by_cases h₂ : n < 519
    · rw [readFileBlock_single h₁ h₂] at h
      exact Or.inr (readFileBlockInd_error h)
    · rw [readFileBlock_behind h₂] at h
      split_ifs at h
      · cases h
        exact Or.inl rfl
      · cases hentry : tableEntry v (inode.zone 8) (((n : ℤ) - 519) / 512) with
        | error g =>
          rw [hentry] at h
          cases h
          exact Or.inr (tableEntry_error hentry)
        | ok table =>
          rw [hentry] at h
          exact Or.inr (readFileBlockInd_error h)

lemma readFileBlock_lt (h : readFileBlock v inode n = .ok (some z)) : n < maxBlocks := by
  have hmax : maxBlocks = 262663 := rfl
  by_contra hge
  rw [readFileBlock_behind (by omega)] at h
  have hindex : ¬512 * 512 < (n : ℤ) - 519 → tableEntry v (inode.zone 8) (((n : ℤ) - 519) / 512) = .error .overrun :=
    fun hpanic => if_pos (Or.inr (by omega))
  split_ifs at h with hpanic
  · cases h
  · rw [hindex hpanic] at h
    cases h

end Found

section Table

variable {x : Source} {ex : Elf32Ehdr} {m : ℕ → Byte} {s s' : Loading} {off k : ℕ} {z : Word} {h : Elf32Shdr}

/-- The block that stays is the one with the number that stays, or there is none yet. -/
structure Cached (x : Source) (s : Loading) : Prop where
  block : ∀ z, s.bht = some z → x.block s.lb = .ok (some z)
  first : s.bht = none → s.lb = 0

lemma nextHeader_null (hs : s.bht = none) (hc : Cached x s) (hoff : off / blockSize = 0) :
    x.nextHeader off s = .error .badPointer := by
  have hlb := hc.first hs
  rw [nextHeader, loadTable, if_neg (not_not.mpr (hoff.trans hlb.symm))]
  change (x.header off s).map _ = _
  rw [header, hs]
  rfl

/-- With a block, or for a header that is not in block 0, it makes no difference what stays. -/
lemma nextHeader_eq (hc : Cached x s) (hready : s.bht ≠ none ∨ off / blockSize ≠ 0) :
    x.nextHeader off s = (x.block (off / blockSize)).bind fun bht => bht.elim (.ok none) fun z =>
      if off % blockSize + Elf32Shdr.bytes ≤ blockSize then
        .ok (some ({ s with lb := off / blockSize, bht := some z },
          .read fun i => (x.volume.data z).byte (off % blockSize + i)))
      else .error .overrun := by
  have hheader : ∀ (t : Loading) z, t.bht = some z → (x.header off t).map (fun h => some (t, h)) =
      if off % blockSize + Elf32Shdr.bytes ≤ blockSize then
        .ok (some (t, .read fun i => (x.volume.data z).byte (off % blockSize + i)))
      else .error .overrun := by
    intro t z ht
    rw [header, ht]
    dsimp only
    split_ifs <;> rfl
  rw [nextHeader, loadTable]
  by_cases hsame : off / blockSize = s.lb
  · rw [if_neg (not_not.mpr hsame)]
    cases hs : s.bht with
    | none => exact absurd (hsame.trans (hc.first hs)) (hready.resolve_left (not_not.mpr hs))
    | some z =>
      have hstay : { s with lb := off / blockSize, bht := some z } = s := by rw [hsame, ← hs]
      rw [hsame, hc.block z hs, ← hsame]
      change (x.header off s).map _ = (if _ then _ else _)
      rw [hheader s z hs, hstay]
  · rw [if_pos hsame]
    cases x.block (off / blockSize) with
    | error f => rfl
    | ok bht =>
      cases bht with
      | none => rfl
      | some z => exact hheader _ z rfl

lemma entry_of_inside (hsize : x.inode.iSize < 2 ^ 32) (h : place ex k + Elf32Shdr.bytes ≤ x.inode.iSize) :
    ex.entry k = place ex k := by
  unfold place at h
  exact Nat.mod_eq_of_lt (by omega)

lemma fileHeader_eq (hin : place ex k % blockSize + Elf32Shdr.bytes ≤ blockSize) : x.fileHeader ex k =
    .read fun i => (stored x.volume x.inode (place ex k / blockSize)).byte (place ex k % blockSize + i) := by
  apply Elf32Shdr.read_congr
  intro i hi
  change place ex k % 1024 + 40 ≤ 1024 at hin
  change i < 40 at hi
  have hdiv : (place ex k + i) / 1024 = place ex k / 1024 := by omega
  have hmod : (place ex k + i) % 1024 = place ex k % 1024 + i := by omega
  rw [storedByte, hdiv, hmod]

lemma readsHeader_iff (hc : Cached x s) (hready : s.bht ≠ none ∨ ex.entry k / blockSize ≠ 0)
    (hsize : x.inode.iSize < 2 ^ 32) : x.ReadsHeader ex k s ↔ x.EntryFound ex k := by
  unfold ReadsHeader EntryFound
  rw [nextHeader_eq hc hready]
  cases hb : x.block (ex.entry k / blockSize) with
  | error f =>
    have hnone : ∀ g : Option Word → Except Fault (Option (Loading × Elf32Shdr)),
        (Except.error f : Except Fault (Option Word)).bind g = .error f := fun _ => rfl
    rw [hnone]
    rcases readFileBlock_error hb with rfl | rfl
    · simp
    · simp
  | ok bht =>
    cases bht with
    | none =>
      have hnone : ∀ g : Word → Except Fault (Option (Loading × Elf32Shdr)),
          (Except.ok none : Except Fault (Option Word)).bind (fun b => b.elim (.ok none) g) = .ok none := fun _ => rfl
      rw [hnone]
      simp
    | some z =>
      have hsome : ∀ g : Word → Except Fault (Option (Loading × Elf32Shdr)),
          (Except.ok (some z) : Except Fault (Option Word)).bind (fun b => b.elim (.ok none) g) = g z := fun _ => rfl
      rw [hsome]
      by_cases hin : ex.entry k % blockSize + Elf32Shdr.bytes ≤ blockSize
      · simp only [if_pos hin]
        have hkeep : ∀ h : place ex k + Elf32Shdr.bytes ≤ x.inode.iSize,
            (Elf32Shdr.read (fun i => (x.volume.data z).byte (ex.entry k % blockSize + i)) = x.fileHeader ex k ↔
              FollowsMap x.volume x.inode (ex.entry k / blockSize) ∨
                Elf32Shdr.read (fun i => (x.volume.data z).byte (ex.entry k % blockSize + i)) = .blank) := by
          intro hinside
          have hplace := entry_of_inside hsize hinside
          have hfound := stored_of_found (readFileBlock_lt hb) hb
          rw [hplace] at hin hfound
          rw [fileHeader_eq hin, hplace]
          by_cases hfollow : FollowsMap x.volume x.inode (place ex k / blockSize)
          · rw [hfound.1 hfollow]
            exact iff_of_true rfl (Or.inl hfollow)
          · rw [hfound.2 hfollow, or_iff_right hfollow]
            exact Iff.rfl
        constructor
        · rintro ⟨_, _, hall⟩
          obtain ⟨hinside, hsame⟩ := hall _ _ rfl
          exact ⟨hin, hinside, (hkeep hinside).mp hsame⟩
        · rintro ⟨_, hinside, hfound⟩
          refine ⟨by simp, by simp, fun s' h heq => ?_⟩
          cases heq
          exact ⟨hinside, (hkeep hinside).mpr hfound⟩
      · simp only [if_neg hin]
        simp [hin]

lemma loadTurn_ok (h : x.loadTurn ex k s = .ok (some s')) :
    ∃ t g, x.nextHeader (ex.entry k) s = .ok (some (t, g)) ∧ x.loadSection g t = .ok (some s') := by
  obtain ⟨r, hr, h⟩ := bind_elim_ok h
  exact ⟨r.1, r.2, hr, h⟩

lemma nextHeader_ok {t : Loading} (hc : Cached x s) (hn : x.nextHeader off s = .ok (some (t, h))) :
    ∃ z, x.block (off / blockSize) = .ok (some z) ∧ t = { s with lb := off / blockSize, bht := some z } ∧
      off % blockSize + Elf32Shdr.bytes ≤ blockSize ∧
      h = .read fun i => (x.volume.data z).byte (off % blockSize + i) := by
  have hready : s.bht ≠ none ∨ off / blockSize ≠ 0 := by
    by_contra hno
    obtain ⟨hs, hoff⟩ := not_or.mp hno
    rw [nextHeader_null (not_not.mp hs) hc (not_not.mp hoff)] at hn
    cases hn
  rw [nextHeader_eq hc hready] at hn
  obtain ⟨z, hb, hn⟩ := bind_elim_ok hn
  split_ifs at hn with hin
  cases hn
  exact ⟨z, hb, rfl, hin, rfl⟩

lemma loadSection_keeps (hl : x.loadSection h s = .ok (some s')) : s'.lb = s.lb ∧ s'.bht = s.bht := by
  unfold loadSection at hl
  split_ifs at hl
  · cases hl
    exact ⟨rfl, rfl⟩
  · obtain ⟨r, _, rfl⟩ := map_map_ok hl
    exact ⟨rfl, rfl⟩
  · obtain ⟨r, _, hr⟩ := map_eq_ok hl
    cases hr
    exact ⟨rfl, rfl⟩
  · cases hl
    exact ⟨rfl, rfl⟩

lemma Cached.turn (hc : Cached x s) (h : x.loadTurn ex k s = .ok (some s')) : Cached x s' ∧ s'.bht ≠ none := by
  obtain ⟨t, g, hn, hl⟩ := loadTurn_ok h
  obtain ⟨z, hb, rfl, _⟩ := nextHeader_ok hc hn
  obtain ⟨hlb, hbht⟩ := loadSection_keeps hl
  refine ⟨⟨fun y hy => ?_, fun hnone => ?_⟩, ?_⟩
  · rw [hbht] at hy
    cases hy
    rw [hlb]
    exact hb
  · rw [hbht] at hnone
    cases hnone
  · rw [hbht]
    exact Option.some_ne_none z

lemma Comes.cached {n : ℕ} (h : x.Comes ex m n s) : Cached x s ∧ (s.bht ≠ none ∨ n = ex.eShnum) := by
  induction h with
  | start => exact ⟨⟨fun _ hz => absurd hz (Option.some_ne_none _).symm, fun _ => rfl⟩, Or.inr rfl⟩
  | turn _ hturn ih =>
    obtain ⟨hc, hsome⟩ := ih.1.turn hturn
    exact ⟨hc, Or.inl hsome⟩

/-- For every header of a file with more than one section: the headers that are used are those of the file, and no
pointer is used where it must not be, if and only if the last header is not in block 0 and each header that the loop
comes to is found. -/
theorem readsTable_iff (hn : 1 < ex.eShnum) (hsize : x.inode.iSize < 2 ^ 32) :
    x.ReadsTable ex m ↔ ex.entry (ex.eShnum - 1) / blockSize ≠ 0 ∧ ∀ k s, x.Comes ex m (k + 1) s → x.EntryFound ex k := by
  have hlast : x.Comes ex m (ex.eShnum - 1 + 1) (loadStart ex m) := by
    rw [Nat.sub_add_cancel hn.le]
    exact Comes.start
  have hready : ex.entry (ex.eShnum - 1) / blockSize ≠ 0 → ∀ k s, x.Comes ex m (k + 1) s →
      s.bht ≠ none ∨ ex.entry k / blockSize ≠ 0 := by
    intro hne k s hk
    rcases hk.cached.2 with hsome | heq
    · exact Or.inl hsome
    · rw [← heq] at hne
      exact Or.inr hne
  constructor
  · intro hall
    have hne : ex.entry (ex.eShnum - 1) / blockSize ≠ 0 := by
      intro hzero
      exact (hall _ _ hlast).1 (nextHeader_null rfl hlast.cached.1 hzero)
    exact ⟨hne, fun k s hk => (readsHeader_iff hk.cached.1 (hready hne k s hk) hsize).mp (hall k s hk)⟩
  · rintro ⟨hne, hall⟩ k s hk
    exact (readsHeader_iff hk.cached.1 (hready hne k s hk) hsize).mpr (hall k s hk)

end Table

section Example

/-- The bytes of a number, the lowest first. -/
def little (n w : ℕ) : List Byte := (List.range n).map fun i => BitVec.ofNat 8 (w / 256 ^ i)

def elfHeader (shoff shnum : ℕ) : List Byte :=
  [0x7f, 0x45, 0x4c, 0x46, 1, 1, 1] ++ List.replicate 9 0 ++ little 2 2 ++ little 2 3 ++ little 4 1 ++ little 4 0x1000 ++
    little 4 0 ++ little 4 shoff ++ little 4 0 ++ little 2 52 ++ little 4 0 ++ little 2 40 ++ little 2 shnum ++ little 2 0

/-- A file of three blocks, which are the blocks 10 to 12 of the device. -/
def threeBlocks (bytes : ℕ → List Byte) : Source where
  volume := ⟨fun z i => (bytes (z.toNat - 10)).getD i 0, fun _ => true, fun _ => true, 8192, 9, 1440⟩
  inode := ⟨0o100755, 3 * blockSize, fun k => if k < 3 then BitVec.ofNat 16 (10 + k) else 0, 2⟩
  behind := fun _ _ => 0
  limit := 0x4000000

/-- Only the header, with a table of `shnum` entries. -/
def bareFile (shoff shnum : ℕ) : Source := threeBlocks fun k => if k = 0 then elfHeader shoff shnum else []

end Example

/-- Two headers behind the ELF header in the first block; and two of which the second begins in one block and ends in
the next. -/
theorem table_misread :
    (¬∀ (x : Source) (bh : Word) (m : ℕ → Byte), isValidElf (x.ehdr bh) → 1 < (x.ehdr bh).eShnum →
      x.inode.iSize < 2 ^ 32 → (∀ k < (x.ehdr bh).eShnum, place (x.ehdr bh) k + Elf32Shdr.bytes ≤ blockSize) →
      x.ReadsTable (x.ehdr bh) m) ∧
    ¬∀ (x : Source) (bh : Word) (m : ℕ → Byte), isValidElf (x.ehdr bh) → 1 < (x.ehdr bh).eShnum →
      x.inode.iSize < 2 ^ 32 → (∀ k < (x.ehdr bh).eShnum, blockSize ≤ place (x.ehdr bh) k ∧
        place (x.ehdr bh) k + Elf32Shdr.bytes ≤ x.inode.iSize) → x.ReadsTable (x.ehdr bh) m := by
  constructor
  · intro hall
    have hread := hall (bareFile 52 2) 10 (fun _ => 0) (by decide) (by decide) (by decide) (by decide) 1 _ Comes.start
    exact hread.1 rfl
  · intro hall
    have hread := hall (bareFile 1980 2) 10 (fun _ => 0) (by decide) (by decide) (by decide) (by decide) 1 _ Comes.start
    exact hread.2.1 rfl

/-- A table that has its last header behind the first block. -/
theorem readsTable_behind :
    (bareFile 1024 2).ReadsTable ((bareFile 1024 2).ehdr 10) (fun _ => 0) ↔
      ((bareFile 1024 2).ehdr 10).entry (((bareFile 1024 2).ehdr 10).eShnum - 1) / blockSize ≠ 0 ∧
        ∀ k s, (bareFile 1024 2).Comes ((bareFile 1024 2).ehdr 10) (fun _ => 0) (k + 1) s →
          (bareFile 1024 2).EntryFound ((bareFile 1024 2).ehdr 10) k :=
  readsTable_iff (by decide) (by decide)

end Source

end Devos.Fs
