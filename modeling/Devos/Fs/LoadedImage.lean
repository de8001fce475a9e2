import Devos.Fs.SectionTable
import Devos.Library.Patches

/-! What `load_elf_binary` leaves in the memory of the process. -/

namespace Devos.Fs

open Loops StringMoves Patches

namespace Source

/-- The byte `i` of what `read_file_block` finds. -/
def found (x : Source) (n i : ℕ) : Byte :=
  match x.block n with
  | .ok (some z) => x.bufferByte z i
  | _ => 0

/-- How far `copy_section` copies: whole words of the part in the first block, and of the rest. -/
def reach (start size : ℕ) : ℕ :=
  if start % blockSize + size ≤ blockSize then 4 * ((size + 3) / 4)
  else blockSize - start % blockSize + 4 * ((size - (blockSize - start % blockSize) + 3) / 4)

/-- The byte `i` of what it copies; behind the last one of the section the buffer goes on. -/
def copied (x : Source) (start size i : ℕ) : Byte :=
  let j := min i (size - 1)
  x.found ((start + j) / blockSize) ((start + j) % blockSize + (i - j))

def span (dest n : ℕ) (f : ℕ → Byte) (a : ℕ) : Option Byte := if dest ≤ a ∧ a < dest + n then some (f (a - dest)) else none

/-- What `copy_section` puts over the memory. -/
def copies (x : Source) (start dest size : ℕ) : ℕ → Option Byte := span dest (reach start size) (x.copied start size)

/-- What a section puts over the memory. -/
def brings (x : Source) (h : Elf32Shdr) : ℕ → Option Byte :=
  if h.shSize = 0 ∨ h.shAddr = 0 then fun _ => none
  else if h.shType = shtProgbits then x.copies h.shOffset h.shAddr h.shSize
  else if h.shType = shtNobits then span h.shAddr h.shSize fun _ => 0
  else fun _ => none

section Copying

variable {x : Source} {start dest size n b a o : ℕ} {z : Word} {m m' : ℕ → Byte}

lemma reach_zero (start : ℕ) (h : start % blockSize ≤ blockSize) : reach start 0 = 0 := if_pos h

lemma le_reach (start size : ℕ) : size ≤ reach start size ∧ reach start size ≤ size + 3 := by
  unfold reach
  dsimp only [blockSize]
  split_ifs <;> omega

lemma span_of_not {f : ℕ → Byte} (h : ¬(dest ≤ a ∧ a < dest + n)) : span dest n f a = none := if_neg h

lemma found_of_block {k i : ℕ} (hb : x.block k = .ok (some z)) : x.found k i = x.bufferByte z i := by
  rw [found, hb]

/-- What is copied from the first block, and from its buffer behind the section. -/
lemma copied_first {i : ℕ} (hb : x.block (start / blockSize) = .ok (some z)) (ho : start % blockSize = o)
    (hi : o + min i (size - 1) < blockSize) : x.copied start size i = x.bufferByte z (o + i) := by
  change start % 1024 = o at ho
  change o + min i (size - 1) < 1024 at hi
  have hdiv : (start + min i (size - 1)) / 1024 = start / 1024 := by omega
  have hmod : (start + min i (size - 1)) % 1024 + (i - min i (size - 1)) = o + i := by omega
  rw [copied, hdiv, hmod, found_of_block hb]

/-- What is copied behind the first block. -/
lemma copied_behind {i cp : ℕ} (hcp : cp < size) (hi : cp ≤ i) :
    x.copied (start + cp) (size - cp) (i - cp) = x.copied start size i := by
  have hmin : min (i - cp) (size - cp - 1) = min i (size - 1) - cp := by omega
  have hsum : start + cp + (min i (size - 1) - cp) = start + min i (size - 1) := by omega
  have hback : i - cp - (min i (size - 1) - cp) = i - min i (size - 1) := by omega
  rw [copied, copied, hmin, hsum, hback]

/-- The part in the first block and then the rest. -/
lemma copies_rest {cp : ℕ} (hb : x.block (start / blockSize) = .ok (some z)) (ho : start % blockSize = o)
    (hcp : cp = if size < blockSize - o then size else blockSize - o) (hsize : 0 < size) :
    patch (x.copies (start + cp) (dest + cp) (size - cp))
        (patch (span dest (4 * ((cp + 3) / 4)) fun i => x.bufferByte z (o + i)) m) =
      patch (x.copies start dest size) m := by
  rw [patch_patch]
  congr 1
  funext a
  have hlt : start % 1024 < 1024 := Nat.mod_lt _ (by decide)
  change start % 1024 = o at ho
  change cp = if size < 1024 - o then size else 1024 - o at hcp
  by_cases hone : o + size ≤ 1024
  · have hall : cp = size := by
      split_ifs at hcp
      · exact hcp
      · omega
    subst hall
    have hreach : reach start cp = 4 * ((cp + 3) / 4) := if_pos (by rw [← ho] at hone; exact hone)
    have hnone : x.copies (start + cp) (dest + cp) (cp - cp) a = none := by
      rw [Nat.sub_self, copies, reach_zero _ (Nat.mod_lt _ (by decide)).le]
      exact span_of_not (by omega)
    rw [hnone, Option.none_or, copies, hreach]
    unfold span
    by_cases ha : dest ≤ a ∧ a < dest + 4 * ((cp + 3) / 4)
    · rw [if_pos ha, if_pos ha, copied_first hb ho (by dsimp only [blockSize]; omega)]
    · rw [if_neg ha, if_neg ha]
  · have hfull : cp = 1024 - o := by
      split_ifs at hcp
      · omega
      · exact hcp
    have hmod : (start + cp) % 1024 = 0 := by omega
    have hrest : reach (start + cp) (size - cp) = 4 * ((size - cp + 3) / 4) := by
      unfold reach
      dsimp only [blockSize]
      rw [hmod]
      split_ifs <;> omega
    have hreach : reach start size = cp + reach (start + cp) (size - cp) := by
      rw [hrest, hfull, ← ho]
      exact if_neg (by rw [← ho] at hone; exact hone)
    unfold copies span
    rw [hreach, hrest]
    by_cases hlast : dest + cp ≤ a ∧ a < dest + cp + 4 * ((size - cp + 3) / 4)
    · have hsub : a - (dest + cp) = a - dest - cp := by omega
      rw [if_pos hlast, Option.some_or, if_pos (by omega), hsub, copied_behind (by omega) (by omega)]
    · rw [if_neg hlast, Option.none_or]
      by_cases hfirst : dest ≤ a ∧ a < dest + cp
      · rw [if_pos (by omega), if_pos (by omega), copied_first hb ho (by dsimp only [blockSize]; omega)]
      · rw [if_neg (by omega), if_neg (by omega)]

lemma cpBlock_ok {f : ℕ → Byte} (h : x.cpBlock f dest n m = .ok m') : m' = patch (span dest (4 * (n / 4)) f) m := by
  unfold cpBlock Window.put at h
  split_ifs at h
  cases h
  funext c
  unfold patch span
  split_ifs <;> rfl

lemma copies_zero (start dest : ℕ) : x.copies start dest 0 = fun _ => none := by
  funext a
  rw [copies, reach_zero _ (Nat.mod_lt _ (by decide)).le]
  exact span_of_not (by omega)

/-- The block that comes next, unless nothing is left. -/
lemma copies_next {start' cp : ℕ} (h : size ≤ cp ∨ start' = start + cp) :
    x.copies start' (dest + cp) (size - cp) = x.copies (start + cp) (dest + cp) (size - cp) := by
  rcases h with hle | rfl
  · rw [Nat.sub_eq_zero_of_le hle, copies_zero, copies_zero]
  · rfl

lemma copyRest_memory (h : x.copyRest n b dest size m = .ok (some m')) :
    m' = patch (x.copies (blockSize * b) dest size) m := by
  induction n generalizing b dest size m with
  | zero => cases h
  | succ n ih =>
    rw [copyRest] at h
    by_cases hzero : size = 0
    · rw [if_pos hzero] at h
      cases h
      rw [hzero, copies_zero, patch_none fun _ => rfl]
    · rw [if_neg hzero] at h
      obtain ⟨z, hb, h⟩ := bind_elim_ok h
      obtain ⟨m₁, hm₁, h⟩ := bind_eq_ok h
      have hdiv : blockSize * b / blockSize = b := Nat.mul_div_cancel_left b (by decide)
      have hmod : blockSize * b % blockSize = 0 := Nat.mul_mod_right _ _
      obtain ⟨c, hcp⟩ : ∃ c, c = if size < blockSize then size else blockSize := ⟨_, rfl⟩
      have hrest : patch (x.copies (blockSize * b + c) (dest + c) (size - c))
          (patch (span dest (4 * ((c + 3) / 4)) fun i => x.bufferByte z (0 + i)) m) = _ :=
        copies_rest (by rw [hdiv]; exact hb) hmod hcp (Nat.pos_of_ne_zero hzero)
      have hbytes : (fun i => x.bufferByte z (0 + i)) = x.bufferByte z := by
        funext i
        rw [Nat.zero_add]
      have hnext : size ≤ c ∨ blockSize * (b + 1) = blockSize * b + c := by
        dsimp only [blockSize] at hcp ⊢
        split_ifs at hcp <;> omega
      rw [hbytes] at hrest
      rw [← hcp] at hm₁ h
      rw [ih h, cpBlock_ok hm₁, copies_next hnext, hrest]

lemma copySection_memory (hsize : 0 < size) (h : x.copySection start dest size m = .ok (some m')) :
    m' = patch (x.copies start dest size) m := by
  obtain ⟨z, hb, h⟩ := bind_elim_ok h
  obtain ⟨m₁, hm₁, h⟩ := bind_eq_ok h
  have hlt : start % blockSize < blockSize := Nat.mod_lt _ (by decide)
  obtain ⟨c, hcp⟩ : ∃ c, c = if size < blockSize - start % blockSize then size else blockSize - start % blockSize :=
    ⟨_, rfl⟩
  have hrest : patch (x.copies (start + c) (dest + c) (size - c)) (patch (span dest (4 * ((c + 3) / 4))
      fun i => x.bufferByte z (start % blockSize + i)) m) = _ := copies_rest hb rfl hcp hsize
  have hnext : size ≤ c ∨ blockSize * (start / blockSize + 1) = start + c := by
    dsimp only [blockSize] at hlt hcp ⊢
    split_ifs at hcp <;> omega
  rw [← hcp] at hm₁ h
  rw [copyRest_memory h, cpBlock_ok hm₁, copies_next hnext, hrest]

/-- Every block of the section has been found. -/
lemma copyRest_blocks (h : x.copyRest n b dest size m = .ok (some m')) (hj : o < size) :
    ∃ z, x.block (b + o / blockSize) = .ok (some z) := by
  induction n generalizing b dest size m o with
  | zero => cases h
  | succ n ih =>
    rw [copyRest, if_neg (by omega)] at h
    obtain ⟨z, hb, h⟩ := bind_elim_ok h
    by_cases hfirst : o < blockSize
    · rw [Nat.div_eq_of_lt hfirst]
      exact ⟨z, hb⟩
    · obtain ⟨m₁, _, h⟩ := bind_eq_ok h
      have hnext : o - blockSize < size - if size < blockSize then size else blockSize := by
        dsimp only [blockSize] at hfirst ⊢
        rw [if_neg (by omega)]
        omega
      have hdiv : b + 1 + (o - blockSize) / blockSize = b + o / blockSize := by
        dsimp only [blockSize] at hfirst ⊢
        omega
      rw [← hdiv]
      exact ih h hnext

lemma copySection_blocks (h : x.copySection start dest size m = .ok (some m')) (hj : o < size) :
    ∃ z, x.block ((start + o) / blockSize) = .ok (some z) := by
  obtain ⟨z, hb, h⟩ := bind_elim_ok h
  by_cases hfirst : start % blockSize + o < blockSize
  · have hdiv : (start + o) / blockSize = start / blockSize := by
      dsimp only [blockSize] at hfirst ⊢
      omega
    rw [hdiv]
    exact ⟨z, hb⟩
  · obtain ⟨m₁, _, h⟩ := bind_eq_ok h
    have hlt : start % blockSize < blockSize := Nat.mod_lt _ (by decide)
    have hnext : o - (blockSize - start % blockSize) <
        size - if size < blockSize - start % blockSize then size else blockSize - start % blockSize := by
      dsimp only [blockSize] at hfirst hlt ⊢
      rw [if_neg (by omega)]
      omega
    have hdiv : start / blockSize + 1 + (o - (blockSize - start % blockSize)) / blockSize =
        (start + o) / blockSize := by
      dsimp only [blockSize] at hfirst hlt ⊢
      omega
    rw [← hdiv]
    exact copyRest_blocks h hnext

lemma stores_ok {w : Window Fault} (h : w.stores 1 (fun _ => (0 : Byte)) n dest m = .ok m') :
    m' = patch (span dest n fun _ => 0) m := by
  induction n generalizing dest m with
  | zero =>
    cases h
    exact (patch_none fun _ => span_of_not (by omega)).symm
  | succ n ih =>
    obtain ⟨m₁, hm₁, h⟩ := bind_eq_ok h
    unfold Window.put at hm₁
    split_ifs at hm₁
    cases hm₁
    rw [ih h]
    funext c
    unfold patch span
    by_cases hc : dest + 1 ≤ c ∧ c < dest + 1 + n
    · rw [if_pos hc, if_pos (by omega)]
      rfl
    · rw [if_neg hc]
      by_cases hfirst : c = dest
      · rw [if_pos (by omega)]
        exact if_pos (by omega)
      · rw [if_neg (by omega)]
        exact if_neg (by omega)

end Copying

section Sections

variable {x : Source} {ex : Elf32Ehdr} {h : Elf32Shdr} {s s' r : Loading} {m m' : ℕ → Byte} {n k : ℕ} {bh : Word}

lemma loadSection_memory (hl : x.loadSection h s = .ok (some s')) : s'.memory = patch (x.brings h) s.memory := by
  unfold loadSection at hl
  unfold brings
  split_ifs at hl ⊢ with hskip
  · cases hl
    exact (patch_none fun _ => rfl).symm
  · obtain ⟨hsize, _⟩ := not_or.mp hskip
    obtain ⟨u, hu, rfl⟩ := map_map_ok hl
    exact copySection_memory (Nat.pos_of_ne_zero hsize) hu
  · obtain ⟨u, hu, hs'⟩ := map_eq_ok hl
    cases hs'
    exact stores_ok hu
  · cases hl
    exact (patch_none fun _ => rfl).symm

/-- The header number `k` as the loader reads it. -/
def foundHeader (x : Source) (ex : Elf32Ehdr) (k : ℕ) : Elf32Shdr :=
  match x.block (ex.entry k / blockSize) with
  | .ok (some z) => .read fun i => (x.volume.data z).byte (ex.entry k % blockSize + i)
  | _ => .blank

/-- What the sections put over the memory, the last one first. -/
lemma loadSections_memory (hc : Cached x s) (hl : x.loadSections ex n s = .ok (some r)) :
    r.memory = patch (topOf (fun k => x.brings (x.foundHeader ex k)) n) s.memory := by
  induction n generalizing s with
  | zero =>
    cases hl
    exact patch_topOf_zero.symm
  | succ n ih =>
    obtain ⟨u, hu, hl⟩ := bind_elim_ok hl
    obtain ⟨t, g, hn, hg⟩ := loadTurn_ok hu
    obtain ⟨z, hb, rfl, _, hread⟩ := nextHeader_ok hc hn
    have hfound : x.foundHeader ex n = g := by
      rw [foundHeader, hb, hread]
    rw [ih (hc.turn hu).1 hl, patch_topOf_succ, hfound, loadSection_memory hg]

/-- Each of the headers has been read, and its section has been loaded. -/
lemma loadSections_each (hc : Cached x s) (hl : x.loadSections ex n s = .ok (some r)) (hk : k < n) :
    (∃ z, x.block (ex.entry k / blockSize) = .ok (some z)) ∧ ex.entry k % blockSize + Elf32Shdr.bytes ≤ blockSize ∧
      ∃ t t', x.loadSection (x.foundHeader ex k) t = .ok (some t') := by
  induction n generalizing s with
  | zero => exact absurd hk (Nat.not_lt_zero k)
  | succ n ih =>
    obtain ⟨u, hu, hl⟩ := bind_elim_ok hl
    rcases Nat.lt_succ_iff_lt_or_eq.mp hk with hlt | rfl
    · exact ih (hc.turn hu).1 hl hlt
    · obtain ⟨t, g, hn, hg⟩ := loadTurn_ok hu
      obtain ⟨z, hb, rfl, hin, hread⟩ := nextHeader_ok hc hn
      have hfound : x.foundHeader ex k = g := by
        rw [foundHeader, hb, hread]
      exact ⟨⟨z, hb⟩, hin, _, u, hfound ▸ hg⟩

/-- A header is read as it is, or it is in a hole of the file or beyond all files. -/
lemma foundHeader_or {z : Word} (hb : x.block (ex.entry k / blockSize) = .ok (some z))
    (hin : ex.entry k % blockSize + Elf32Shdr.bytes ≤ blockSize) :
    x.foundHeader ex k = x.fileHeader ex k ∨ x.fileHeader ex k = .blank := by
  have hmax : maxBlocks = 262663 := rfl
  by_cases hwrap : place ex k < 2 ^ 32
  · have hplace : ex.entry k = place ex k := Nat.mod_eq_of_lt hwrap
    have hfound := stored_of_found (readFileBlock_lt hb) hb
    rw [foundHeader, hb]
    rw [hplace] at hin hfound ⊢
    rw [fileHeader_eq hin]
    by_cases hfollow : FollowsMap x.volume x.inode (place ex k / blockSize)
    · rw [hfound.1 hfollow]
      exact Or.inl rfl
    · rw [hfound.2 hfollow]
      exact Or.inr rfl
  · right
    have hzero : ∀ i, storedByte x.volume x.inode (place ex k + i) = 0 := by
      intro i
      have hbeyond : ¬((place ex k + i) / 1024 < maxBlocks) := by omega
      rw [storedByte, stored, content, if_neg fun h => hbeyond h.1]
      rfl
    rw [fileHeader]
    simp only [hzero]
    rfl

end Sections

section Image

variable {x : Source} {ex : Elf32Ehdr} {m m' : ℕ → Byte} {k a : ℕ} {b c : Byte} {bh : Word}

/-- The byte that section `k` of the file has for an address. -/
def Promises (x : Source) (ex : Elf32Ehdr) (k a : ℕ) (b : Byte) : Prop :=
  ∃ i < (x.fileHeader ex k).shSize, a = (x.fileHeader ex k).shAddr + i ∧
    ((x.fileHeader ex k).shType = shtProgbits ∧ (x.fileHeader ex k).shAddr ≠ 0 ∧
        b = storedByte x.volume x.inode ((x.fileHeader ex k).shOffset + i) ∨
      (x.fileHeader ex k).shType = shtNobits ∧ b = 0)

/-- The memory has for every section what the file has for it. -/
def ImageOf (x : Source) (ex : Elf32Ehdr) (m : ℕ → Byte) : Prop := ∀ k < ex.eShnum, ∀ a b, x.Promises ex k a b → m a = b

/-- The first of the sections, as they are read, that reaches the address brings the byte; or none does, and it has been
there before. -/
def Shows (x : Source) (ex : Elf32Ehdr) (m : ℕ → Byte) (a : ℕ) (b : Byte) : Prop :=
  (∃ k < ex.eShnum, x.brings (x.foundHeader ex k) a = some b ∧ ∀ j < k, x.brings (x.foundHeader ex j) a = none) ∨
    (∀ k < ex.eShnum, x.brings (x.foundHeader ex k) a = none) ∧ m a = b

/-- None of the sections in front reaches the address. -/
def Free (x : Source) (ex : Elf32Ehdr) (k a : ℕ) : Prop := ∀ j < k, x.brings (x.foundHeader ex j) a = none

/-- Where a section in front reaches an address, the first of them brings the byte that is promised. Elsewhere
`read_file_block` follows the map, or finds a zero for a hole; and a section without bytes at address 0, which is not
loaded, has its zeros from others or from before. -/
structure Unspoiled (x : Source) (ex : Elf32Ehdr) (m : ℕ → Byte) : Prop where
  reached : ∀ k < ex.eShnum, ∀ a b, x.Promises ex k a b → ∀ j < k, ∀ c, x.brings (x.foundHeader ex j) a = some c →
    x.Free ex j a → c = b
  followed : ∀ k < ex.eShnum, (x.fileHeader ex k).shType = shtProgbits → (x.fileHeader ex k).shAddr ≠ 0 →
    ∀ i < (x.fileHeader ex k).shSize, x.Free ex k ((x.fileHeader ex k).shAddr + i) →
      FollowsMap x.volume x.inode (((x.fileHeader ex k).shOffset + i) / blockSize) ∨
        x.found (((x.fileHeader ex k).shOffset + i) / blockSize) (((x.fileHeader ex k).shOffset + i) % blockSize) = 0
  bare : ∀ k < ex.eShnum, (x.fileHeader ex k).shType = shtNobits → (x.fileHeader ex k).shAddr = 0 →
    ∀ a < (x.fileHeader ex k).shSize, x.Free ex k a → x.Shows ex m a 0

/-- The loop of a file that has been loaded. -/
lemma loadElfBinary_ok {e size : ℕ} (hl : x.loadElfBinary bh m = .ok (some (e, size, m'))) :
    ∃ r, x.loadSections (x.ehdr bh) (x.ehdr bh).eShnum (loadStart (x.ehdr bh) m) = .ok (some r) ∧ m' = r.memory := by
  unfold loadElfBinary at hl
  dsimp only at hl
  split_ifs at hl
  · cases hl
  · obtain ⟨u, hu, hl⟩ := map_map_ok hl
    cases hl
    exact ⟨u, hu, rfl⟩

/-- What is in memory when the sections have been loaded. -/
lemma loaded_shows {r : Loading} (hl : x.loadSections ex ex.eShnum (loadStart ex m) = .ok (some r)) (a : ℕ) (b : Byte) :
    r.memory a = b ↔ x.Shows ex m a b := by
  rw [loadSections_memory Comes.start.cached.1 hl]
  exact patch_topOf_iff

lemma shows_first (hk : k < ex.eShnum) (hc : x.brings (x.foundHeader ex k) a = some c) (hfree : x.Free ex k a) :
    x.Shows ex m a b ↔ c = b := by
  constructor
  · rintro (⟨j, _, hb, hj⟩ | ⟨hnone, _⟩)
    · rcases lt_trichotomy j k with hlt | rfl | hgt
      · rw [hfree j hlt] at hb
        cases hb
      · rw [hc] at hb
        exact Option.some.inj hb
      · rw [hj k hgt] at hc
        cases hc
    · rw [hnone k hk] at hc
      cases hc
  · rintro rfl
    exact Or.inl ⟨k, hk, hc, hfree⟩

lemma free_or_reached (x : Source) (ex : Elf32Ehdr) (k a : ℕ) :
    x.Free ex k a ∨ ∃ j < k, ∃ c, x.brings (x.foundHeader ex j) a = some c ∧ x.Free ex j a := by
  cases htop : topOf (fun j => x.brings (x.foundHeader ex j)) k a with
  | none => exact Or.inl (topOf_eq_none.mp htop)
  | some c =>
    obtain ⟨j, hj, hc, hfirst⟩ := topOf_eq_some.mp htop
    exact Or.inr ⟨j, hj, c, hc, hfirst⟩

lemma brings_progbits {h : Elf32Shdr} {i : ℕ} (htype : h.shType = shtProgbits) (haddr : h.shAddr ≠ 0) (hi : i < h.shSize) :
    x.brings h (h.shAddr + i) =
      some (x.found ((h.shOffset + i) / blockSize) ((h.shOffset + i) % blockSize)) := by
  have hreach := (le_reach h.shOffset h.shSize).1
  have hmin : min i (h.shSize - 1) = i := by omega
  rw [brings, if_neg (by omega), if_pos htype, copies, span, if_pos (by omega), Nat.add_sub_cancel_left, copied, hmin,
    Nat.sub_self, Nat.add_zero]

lemma brings_nobits {h : Elf32Shdr} {i : ℕ} (htype : h.shType = shtNobits) (haddr : h.shAddr ≠ 0) (hi : i < h.shSize) :
    x.brings h (h.shAddr + i) = some 0 := by
  have hother : ¬h.shType = shtProgbits := by
    rw [htype]
    decide
  rw [brings, if_neg (by omega), if_neg hother, if_pos htype, span, if_pos (by omega)]

/-- What a loaded section has from the file where it follows the map, and where it does not. -/
lemma found_eq_iff {q : ℕ} {z : Word} (hb : x.block (q / blockSize) = .ok (some z)) :
    x.found (q / blockSize) (q % blockSize) = storedByte x.volume x.inode q ↔
      FollowsMap x.volume x.inode (q / blockSize) ∨ x.found (q / blockSize) (q % blockSize) = 0 := by
  have hfound := stored_of_found (readFileBlock_lt hb) hb
  have hbyte : x.found (q / blockSize) (q % blockSize) = (x.volume.data z).byte (q % blockSize) := by
    rw [found_of_block hb, bufferByte, if_pos (Nat.mod_lt _ (by decide))]
  by_cases hfollow : FollowsMap x.volume x.inode (q / blockSize)
  · rw [hbyte, storedByte, hfound.1 hfollow]
    exact iff_of_true rfl (Or.inl hfollow)
  · rw [storedByte, hfound.2 hfollow, or_iff_right hfollow]
    exact Iff.rfl

/-- For every file that is loaded: the bytes of its sections are in memory, and zeros for those without, if and only
if no section is spoiled by one in front of it, or by the blocks that are found for it. -/
theorem image_iff {e size : ℕ} (hl : x.loadElfBinary bh m = .ok (some (e, size, m'))) :
    x.ImageOf (x.ehdr bh) m' ↔ x.Unspoiled (x.ehdr bh) m := by
  obtain ⟨r, hr, rfl⟩ := loadElfBinary_ok hl
  generalize x.ehdr bh = ex at *
  have hshows := loaded_shows hr
  have hfound : ∀ k < ex.eShnum, (x.fileHeader ex k).shType ≠ 0 → x.foundHeader ex k = x.fileHeader ex k := by
    intro k hk htype
    obtain ⟨⟨z, hb⟩, hin, _⟩ := loadSections_each Comes.start.cached.1 hr hk
    rcases foundHeader_or hb hin with heq | hblank
    · exact heq
    · rw [hblank] at htype
      exact absurd rfl htype
  have hown : ∀ k < ex.eShnum, (x.fileHeader ex k).shType = shtProgbits → (x.fileHeader ex k).shAddr ≠ 0 →
      ∀ i < (x.fileHeader ex k).shSize,
        x.brings (x.foundHeader ex k) ((x.fileHeader ex k).shAddr + i) =
          some (x.found (((x.fileHeader ex k).shOffset + i) / blockSize) (((x.fileHeader ex k).shOffset + i) % blockSize)) ∧
        ∃ z, x.block (((x.fileHeader ex k).shOffset + i) / blockSize) = .ok (some z) := by
    intro k hk htype haddr i hi
    obtain ⟨_, _, t, t', hload⟩ := loadSections_each Comes.start.cached.1 hr hk
    rw [hfound k hk (by rw [htype]; decide)] at hload ⊢
    refine ⟨brings_progbits htype haddr hi, ?_⟩
    rw [loadSection, if_neg (by omega), if_pos htype] at hload
    obtain ⟨u, hu, _⟩ := map_map_ok hload
    exact copySection_blocks hu hi
  constructor
  · intro himage
    constructor
    · intro k hk a b hp j hj c hc hfree
      exact (shows_first (hj.trans hk) hc hfree).mp ((hshows a b).mp (himage k hk a b hp))
    · intro k hk htype haddr i hi hfree
      obtain ⟨hbrings, z, hb⟩ := hown k hk htype haddr i hi
      have hbyte := himage k hk _ _ ⟨i, hi, rfl, Or.inl ⟨htype, haddr, rfl⟩⟩
      exact (found_eq_iff hb).mp ((shows_first hk hbrings hfree).mp ((hshows _ _).mp hbyte))
    · intro k hk htype haddr a ha _
      exact (hshows a 0).mp (himage k hk a 0 ⟨a, ha, by rw [haddr, Nat.zero_add], Or.inr ⟨htype, rfl⟩⟩)
  · intro hun k hk a b hp
    rw [hshows]
    rcases free_or_reached x ex k a with hfree | ⟨j, hj, c, hc, hfree⟩
    · obtain ⟨i, hi, rfl, ⟨htype, haddr, rfl⟩ | ⟨htype, rfl⟩⟩ := hp
      · obtain ⟨hbrings, z, hb⟩ := hown k hk htype haddr i hi
        exact (shows_first hk hbrings hfree).mpr ((found_eq_iff hb).mpr (hun.followed k hk htype haddr i hi hfree))
      · by_cases haddr : (x.fileHeader ex k).shAddr = 0
        · rw [haddr, Nat.zero_add] at hfree ⊢
          exact hun.bare k hk htype haddr i hi hfree
        · have hbrings : x.brings (x.foundHeader ex k) ((x.fileHeader ex k).shAddr + i) = some 0 := by
            rw [hfound k hk (by rw [htype]; decide)]
            exact brings_nobits htype haddr hi
          exact (shows_first hk hbrings hfree).mpr rfl
    · exact (shows_first (hj.trans hk) hc hfree).mpr (hun.reached k hk a b hp j hj c hc hfree)

lemma brings_eq_some {h : Elf32Shdr} (hb : x.brings h a = some c) :
    h.shAddr ≠ 0 ∧ h.shAddr ≤ a ∧ a < h.shAddr + h.shSize + 3 := by
  have hreach := (le_reach h.shOffset h.shSize).2
  unfold brings at hb
  split_ifs at hb with hskip hprog hbss
  · unfold copies span at hb
    split_ifs at hb with ha
    exact ⟨fun hzero => hskip (Or.inr hzero), ha.1, by omega⟩
  · unfold span at hb
    split_ifs at hb with ha
    exact ⟨fun hzero => hskip (Or.inr hzero), ha.1, by omega⟩

/-- Three bytes between a section and the next one in memory are enough, if that one has the higher number. -/
theorem unspoiled_of_gaps (hfound : ∀ k < ex.eShnum, x.foundHeader ex k = x.fileHeader ex k)
    (hgaps : ∀ k < ex.eShnum, ∀ j < k, (x.fileHeader ex j).shAddr ≠ 0 → (x.fileHeader ex k).shAddr ≠ 0 →
      (x.fileHeader ex j).shAddr + (x.fileHeader ex j).shSize + 3 ≤ (x.fileHeader ex k).shAddr ∨
        (x.fileHeader ex k).shAddr + (x.fileHeader ex k).shSize ≤ (x.fileHeader ex j).shAddr)
    (hmap : ∀ n, FollowsMap x.volume x.inode n)
    (hbare : ∀ k < ex.eShnum, (x.fileHeader ex k).shType = shtNobits → (x.fileHeader ex k).shAddr ≠ 0) :
    x.Unspoiled ex m where
  reached k hk a b hp j hj c hc _ := by
    rw [hfound j (hj.trans hk)] at hc
    obtain ⟨hne, hlo, hhi⟩ := brings_eq_some hc
    obtain ⟨i, hi, rfl, hkind⟩ := hp
    have haddr : (x.fileHeader ex k).shAddr ≠ 0 := by
      rcases hkind with ⟨_, haddr, _⟩ | ⟨htype, _⟩
      · exact haddr
      · exact hbare k hk htype
    rcases hgaps k hk j hj hne haddr with hbelow | habove
    · omega
    · omega
  followed k hk _ _ i _ _ := Or.inl (hmap _)
  bare k hk htype haddr := absurd haddr (hbare k hk htype)

end Image

section Example

/-- The ranges of the sections that have an address are disjoint. -/
def Apart (x : Source) (ex : Elf32Ehdr) : Prop :=
  ∀ k < ex.eShnum, ∀ j < k, (x.fileHeader ex j).shAddr = 0 ∨ (x.fileHeader ex k).shAddr = 0 ∨
    (x.fileHeader ex j).shAddr + (x.fileHeader ex j).shSize ≤ (x.fileHeader ex k).shAddr ∨
      (x.fileHeader ex k).shAddr + (x.fileHeader ex k).shSize ≤ (x.fileHeader ex j).shAddr

instance (x : Source) (ex : Elf32Ehdr) : Decidable (x.Apart ex) :=
  inferInstanceAs (Decidable (∀ k < ex.eShnum, ∀ j < k, _ ∨ _ ∨ _ ∨ _))

def elfSection (type addr offset size : ℕ) : List Byte :=
  little 4 0 ++ little 4 type ++ little 4 0 ++ little 4 addr ++ little 4 offset ++ little 4 size ++ List.replicate 16 0

/-- Data of `size` bytes from the first block, and `bss` bytes right behind it in memory. -/
def neighbours (size bss : ℕ) : Source :=
  threeBlocks fun k =>
    if k = 0 then elfHeader 1024 3 ++ List.replicate 48 0 ++ [1, 2, 3, 4, 5, 6, 7, 8]
    else if k = 1 then
      elfSection 0 0 0 0 ++ elfSection shtProgbits 0x1000 100 size ++ elfSection shtNobits (0x1000 + size) 0 bss
    else []

end Example

/-- `.bss` behind five bytes of `.data`, which are copied as eight. -/
theorem data_spills_over : ¬∀ (x : Source) (bh : Word) (m m' : ℕ → Byte) (e size : ℕ), x.Apart (x.ehdr bh) →
    x.loadElfBinary bh m = .ok (some (e, size, m')) → x.ImageOf (x.ehdr bh) m' := by
  intro hall
  obtain ⟨e, size, m', hl, hbyte⟩ : ∃ e size m', (neighbours 5 3).loadElfBinary 10 (fun _ => 0) =
      .ok (some (e, size, m')) ∧ m' 0x1005 = 6 := ⟨_, _, _, rfl, rfl⟩
  have himage := hall (neighbours 5 3) 10 _ m' e size (by decide) hl
  have hzero : m' 0x1005 = 0 := himage 2 (by decide) 0x1005 0 ⟨0, by decide, rfl, Or.inr ⟨rfl, rfl⟩⟩
  rw [hbyte] at hzero
  exact absurd hzero (by decide)

/-- With eight bytes of data. -/
theorem image_of_words : ∃ e size m', (neighbours 8 3).loadElfBinary 10 (fun _ => 0) = .ok (some (e, size, m')) ∧
    ((neighbours 8 3).ImageOf ((neighbours 8 3).ehdr 10) m' ↔
      (neighbours 8 3).Unspoiled ((neighbours 8 3).ehdr 10) fun _ => 0) := ⟨_, _, _, rfl, image_iff rfl⟩

end Source

end Devos.Fs
