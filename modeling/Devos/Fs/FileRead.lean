import Devos.Fs.FileDev
import Devos.Security.Transposition

/-! What `file_read` returns for an encrypted file. -/

namespace Devos.Fs

open Loops Security LinearProbing

def Hole (v : Volume) (inode : MInode) (i : ℕ) : Prop :=
  ¬ (IndexReadable v inode i ∧ zoneAt v inode i ≠ 0)

def Unreadable (v : Volume) (inode : MInode) (i : ℕ) : Prop :=
  IndexReadable v inode i ∧ zoneAt v inode i ≠ 0 ∧ v.readable (zoneAt v inode i) = false

instance (v : Volume) (inode : MInode) (i : ℕ) : Decidable (Hole v inode i) := by
  unfold Hole
  infer_instance

def plainBlock (key : Key) (scratch : ℕ → Block) (v : Volume) (inode : MInode) (i : ℕ) : Block :=
  if Hole v inode i then Block.zero
  else transpose key.strlen (decryptOrder key.toCString) (scratch i) (v.data (zoneAt v inode i))

def plainByte (key : Key) (scratch : ℕ → Block) (v : Volume) (inode : MInode) (q : ℕ) : Byte :=
  (plainBlock key scratch v inode (q / blockSize)).byte (q % blockSize)

def readByte (key : Key) (scratch : ℕ → Block) (v : Volume) (inode : MInode) (fPos j : ℕ) : Byte :=
  if (fPos + j) / blockSize = fPos / blockSize then
    (plainBlock key scratch v inode (fPos / blockSize)).byte j
  else plainByte key scratch v inode (fPos + j)

def readValue (count m : ℕ) : ℤ := if count = 0 then 0 else if m = 0 then -error else m

/-- The result holds the file's plain bytes from `fPos` on, up to the end of the range or up to a
block that cannot be read. -/
def ReadsPlain (key : Key) (scratch : ℕ → Block) (v : Volume) (inode : MInode) (fPos count : ℕ)
    (r : ReadResult) : Prop :=
  ∃ m, m ≤ count ∧ (m = count ∨ Unreadable v inode ((fPos + m) / blockSize)) ∧
    r = ⟨readValue count m, fPos + m, (List.range m).map (fun j => plainByte key scratch v inode (fPos + j))⟩

/-- The read starts on a block boundary, in a hole or on an unreadable block, or the bytes it wants
from its first block happen to repeat the ones at the start of that block. -/
def StartsWell (key : Key) (scratch : ℕ → Block) (v : Volume) (inode : MInode) (fPos count : ℕ) : Prop :=
  fPos % blockSize = 0 ∨ Hole v inode (fPos / blockSize) ∨ Unreadable v inode (fPos / blockSize) ∨
    ∀ j, j < blockSize - fPos % blockSize → j < count →
      (plainBlock key scratch v inode (fPos / blockSize)).byte j =
        (plainBlock key scratch v inode (fPos / blockSize)).byte (fPos % blockSize + j)

section

variable {key : Key} {scratch : ℕ → Block} {table : HashTable} {v : Volume} {inode : MInode}

def ownView (key : Key) : ℕ → KeyView := fun _ => ⟨key.toCString, key.toCString⟩

lemma isEncrypted_own (hn : inode.iNum ≠ 0) (hin : ∃ z, scheme.Found (view table) inode.iNum z)
    (i : ℕ) : isEncrypted (ownView key i) table inode.iNum = .ok true := by
  obtain ⟨z, hz⟩ := hin
  have hne : (z : ℤ) ≠ errNotFnd := (errNotFnd_ne z).symm
  rw [isEncrypted, ownView, if_pos (strlen_pos key), searchFunc_found hn hz]
  simp only [hne, ne_eq, not_false_eq_true, decide_true]

lemma readBody_mapped (hn : inode.iNum ≠ 0) (hin : ∃ z, scheme.Found (view table) inode.iNum z)
    {s : Reading} (hleft : s.left ≠ 0) (hlt : s.fPos / blockSize < maxBlocks)
    (hr : ¬ Unreadable v inode (s.fPos / blockSize)) :
    readBody (ownView key) table scratch v inode s =
      .again (s.take fun k => (plainBlock key scratch v inode (s.fPos / blockSize)).byte k) := by
  rw [readBody, if_neg hleft]
  simp only [bmap_eq hlt]
  by_cases hh : Hole v inode (s.fPos / blockSize)
  · have hz : (if IndexReadable v inode (s.fPos / blockSize) then zoneAt v inode (s.fPos / blockSize)
        else 0) = 0 := by
      rw [ite_eq_right_iff]
      intro hi
      by_contra hne
      exact hh ⟨hi, hne⟩
    rw [if_pos hz, plainBlock, if_pos hh]
    rfl
  · obtain ⟨hi, hz⟩ := not_not.mp hh
    have hread : v.readable (zoneAt v inode (s.fPos / blockSize)) = true := by
      by_contra hne
      exact hr ⟨hi, hz, by simpa using hne⟩
    have hsource : readSource (ownView key (s.fPos / blockSize)) table inode.iNum
        (scratch (s.fPos / blockSize)) (v.data (zoneAt v inode (s.fPos / blockSize)))
        (s.fPos % blockSize) =
        .ok fun k => (plainBlock key scratch v inode (s.fPos / blockSize)).byte k := by
      rw [readSource, isEncrypted_own hn hin, plainBlock, if_neg hh]
      simp only [Except.bind, if_true, ownView, decryptBlock_eq, Except.map]
    simp only [if_pos hi, if_neg hz, hread, not_true_eq_false, if_false, hsource]

lemma readBody_unreadable {keys : ℕ → KeyView} {s : Reading} (hleft : s.left ≠ 0)
    (hlt : s.fPos / blockSize < maxBlocks) (hr : Unreadable v inode (s.fPos / blockSize)) :
    readBody keys table scratch v inode s = .leave (.ok s) := by
  obtain ⟨hi, hz, hread⟩ := hr
  rw [readBody, if_neg hleft]
  simp only [bmap_eq hlt, if_pos hi, if_neg hz, hread, Bool.false_eq_true, not_false_eq_true, if_true]

structure HasRead (key : Key) (scratch : ℕ → Block) (v : Volume) (inode : MInode) (fPos count : ℕ)
    (s : Reading) (done : ℕ) : Prop where
  fPos_eq : s.fPos = fPos + done
  left_eq : done + s.left = count
  out_eq : s.out = (List.range done).map (readByte key scratch v inode fPos)
  boundary : done = 0 ∨ s.left = 0 ∨ s.fPos % blockSize = 0
  first : done = 0 ∨
    min (blockSize - fPos % blockSize) count ≤ done ∧ ¬ Unreadable v inode (fPos / blockSize)

lemma hasRead_step {fPos count done : ℕ} {s : Reading}
    (hs : HasRead key scratch v inode fPos count s done) (hleft : s.left ≠ 0)
    (hr : ¬ Unreadable v inode (s.fPos / blockSize)) :
    HasRead key scratch v inode fPos count
        (s.take fun k => (plainBlock key scratch v inode (s.fPos / blockSize)).byte k)
        (done + readChunk s) ∧ 0 < readChunk s := by
  have hpos := hs.fPos_eq
  have hsum := hs.left_eq
  have hchunk : readChunk s = min (1024 - s.fPos % 1024) s.left := rfl
  have hbound : done = 0 ∨ s.left = 0 ∨ s.fPos % 1024 = 0 := hs.boundary
  refine ⟨⟨?_, ?_, ?_, ?_, ?_⟩, by omega⟩
  · change s.fPos + readChunk s = _
    omega
  · change done + readChunk s + (s.left - readChunk s) = _
    omega
  · have hnew : ∀ k, k < readChunk s → readByte key scratch v inode fPos (done + k) =
        (plainBlock key scratch v inode (s.fPos / blockSize)).byte k := by
      intro k hk
      rcases Nat.eq_zero_or_pos done with h₀ | h₀
      · have hblock : (fPos + (done + k)) / 1024 = fPos / 1024 := by omega
        rw [readByte, if_pos hblock, hpos, h₀, Nat.add_zero, Nat.zero_add]
      · have hblock : ¬ (fPos + (done + k)) / 1024 = fPos / 1024 := by omega
        have hdiv : (fPos + (done + k)) / 1024 = s.fPos / 1024 := by omega
        have hmod : (fPos + (done + k)) % 1024 = k := by omega
        rw [readByte, if_neg hblock, plainByte, hdiv, hmod]
    change s.out ++ _ = _
    rw [hs.out_eq, List.range_add, List.map_append, List.map_map]
    congr 1
    apply List.map_congr_left
    intro k hk
    exact (hnew k (List.mem_range.mp hk)).symm
  · change _ ∨ s.left - readChunk s = 0 ∨ (s.fPos + readChunk s) % 1024 = 0
    omega
  · right
    rcases Nat.eq_zero_or_pos done with h₀ | h₀
    · rw [h₀, Nat.add_zero] at hpos
      refine ⟨?_, hpos ▸ hr⟩
      change min (1024 - fPos % 1024) count ≤ _
      omega
    · obtain ⟨hle, hu⟩ := hs.first.resolve_left h₀.ne'
      exact ⟨hle.trans (Nat.le_add_right _ _), hu⟩

variable (key scratch v) in
theorem fileRead_eq (hn : inode.iNum ≠ 0) (hin : ∃ z, scheme.Found (view table) inode.iNum z)
    {fPos count : ℕ} (hsize : fPos + count ≤ maxBlocks * blockSize) :
    ∃ m, m ≤ count ∧ (m = count ∨ m < count ∧ Unreadable v inode ((fPos + m) / blockSize)) ∧
      (m = 0 ∨ min (blockSize - fPos % blockSize) count ≤ m ∧ ¬ Unreadable v inode (fPos / blockSize)) ∧
      fileRead (ownView key) table scratch v inode fPos count =
        .ok ⟨readValue count m, fPos + m, (List.range m).map (readByte key scratch v inode fPos)⟩ := by
  by_cases hcount : count = 0
  · exact ⟨0, Nat.zero_le _, Or.inl hcount.symm, Or.inl rfl, by
      rw [fileRead, if_pos hcount, readValue, if_pos hcount]; rfl⟩
  · let I (s : Reading) : Prop := ∃ done, HasRead key scratch v inode fPos count s done
    have hblock : ∀ s, I s → s.left ≠ 0 → s.fPos / blockSize < maxBlocks := by
      rintro s ⟨done, hs⟩ hleft
      have := hs.fPos_eq
      have := hs.left_eq
      have hmax : fPos + count ≤ 262663 * 1024 := hsize
      change s.fPos / 1024 < 262663
      omega
    have hstart : I ⟨fPos, count, []⟩ := ⟨0, rfl, Nat.zero_add _, rfl, Or.inl rfl, Or.inl rfl⟩
    have hagain : ∀ s s', I s → readBody (ownView key) table scratch v inode s = .again s' →
        I s' ∧ s'.left < s.left := by
      rintro s s' ⟨done, hs⟩ hb
      have hleft : s.left ≠ 0 := by
        intro h₀
        rw [readBody, if_pos h₀] at hb
        cases hb
      have hlt := hblock s ⟨done, hs⟩ hleft
      by_cases hr : Unreadable v inode (s.fPos / blockSize)
      · rw [readBody_unreadable hleft hlt hr] at hb
        cases hb
      · rw [readBody_mapped hn hin hleft hlt hr] at hb
        cases hb
        obtain ⟨hstep, hpos⟩ := hasRead_step hs hleft hr
        exact ⟨⟨_, hstep⟩, show s.left - readChunk s < s.left by omega⟩
    obtain ⟨r, hr⟩ := iterate_of_variant I Reading.left hagain hstart (Nat.lt_succ_self count)
    have hexit : ∃ s done, r = .ok s ∧ HasRead key scratch v inode fPos count s done ∧
        (s.left = 0 ∨ s.left ≠ 0 ∧ Unreadable v inode (s.fPos / blockSize)) := by
      refine iterate_invariant I (Q := fun r => ∃ s done, r = .ok s ∧
        HasRead key scratch v inode fPos count s done ∧
          (s.left = 0 ∨ s.left ≠ 0 ∧ Unreadable v inode (s.fPos / blockSize)))
        (fun s s' hs hb => (hagain s s' hs hb).1) ?_ hstart hr
      rintro s r ⟨done, hs⟩ hb
      by_cases hleft : s.left = 0
      · rw [readBody, if_pos hleft] at hb
        cases hb
        exact ⟨s, done, rfl, hs, Or.inl hleft⟩
      · have hlt := hblock s ⟨done, hs⟩ hleft
        by_cases hu : Unreadable v inode (s.fPos / blockSize)
        · rw [readBody_unreadable hleft hlt hu] at hb
          cases hb
          exact ⟨s, done, rfl, hs, Or.inr ⟨hleft, hu⟩⟩
        · rw [readBody_mapped hn hin hleft hlt hu] at hb
          cases hb
    obtain ⟨s, done, rfl, hs, hend⟩ := hexit
    have hsum := hs.left_eq
    refine ⟨done, by omega, ?_, hs.first, ?_⟩
    · rcases hend with h | ⟨h, hu⟩
      · exact Or.inl (by omega)
      · rw [hs.fPos_eq] at hu
        exact Or.inr ⟨by omega, hu⟩
    · rw [fileRead, if_neg hcount, hr]
      simp only [Option.getD_some, Except.map, readValue, if_neg hcount]
      rw [show count - s.left = done by omega, hs.fPos_eq, hs.out_eq]

variable (key scratch v inode) in
lemma readByte_first {fPos j : ℕ} (hj : j < blockSize - fPos % blockSize) :
    readByte key scratch v inode fPos j = (plainBlock key scratch v inode (fPos / blockSize)).byte j ∧
      plainByte key scratch v inode (fPos + j) =
        (plainBlock key scratch v inode (fPos / blockSize)).byte (fPos % blockSize + j) := by
  have hj' : j < 1024 - fPos % 1024 := hj
  have hdiv : (fPos + j) / 1024 = fPos / 1024 := by omega
  have hmod : (fPos + j) % 1024 = fPos % 1024 + j := by omega
  exact ⟨by rw [readByte, if_pos hdiv], by rw [plainByte, hdiv, hmod]⟩

lemma readByte_later {fPos j : ℕ} (hj : ¬ j < blockSize - fPos % blockSize) :
    readByte key scratch v inode fPos j = plainByte key scratch v inode (fPos + j) := by
  have hj' : ¬ j < 1024 - fPos % 1024 := hj
  have hdiv : ¬ (fPos + j) / 1024 = fPos / 1024 := by omega
  rw [readByte, if_neg hdiv]

lemma startsWell_iff {fPos count m : ℕ} (hend : m = count ∨ m < count ∧ Unreadable v inode ((fPos + m) / blockSize))
    (hfirst : m = 0 ∨
      min (blockSize - fPos % blockSize) count ≤ m ∧ ¬ Unreadable v inode (fPos / blockSize)) :
    (∀ j, j < m → readByte key scratch v inode fPos j = plainByte key scratch v inode (fPos + j)) ↔
      StartsWell key scratch v inode fPos count := by
  constructor
  · intro h
    by_cases hu : Unreadable v inode (fPos / blockSize)
    · exact Or.inr (Or.inr (Or.inl hu))
    · refine Or.inr (Or.inr (Or.inr fun j hj hc => ?_))
      have hle : min (blockSize - fPos % blockSize) count ≤ m := by
        rcases hfirst with rfl | ⟨hle, _⟩
        · rcases hend with he | ⟨_, hu'⟩
          · omega
          · exact absurd hu' hu
        · exact hle
      obtain ⟨h₁, h₂⟩ := readByte_first key scratch v inode hj
      rw [← h₁, ← h₂]
      exact h j (lt_of_lt_of_le (lt_min hj hc) hle)
  · intro h j hj
    by_cases hlt : j < blockSize - fPos % blockSize
    · obtain ⟨h₁, h₂⟩ := readByte_first key scratch v inode hlt
      rw [h₁, h₂]
      rcases h with h₀ | hh | hu | hall
      · rw [h₀, Nat.zero_add]
      · rw [plainBlock, if_pos hh]
        rfl
      · obtain ⟨_, hu'⟩ := hfirst.resolve_left (by omega)
        exact absurd hu hu'
      · exact hall j hlt (by omega)
    · exact readByte_later hlt

def readSplit (keys : ℕ → KeyView) (table : HashTable) (scratch : ℕ → Block) (v : Volume)
    (inode : MInode) : ℕ → List ℕ → Except Fault (List Byte)
  | _, [] => .ok []
  | fPos, count :: counts =>
    (fileRead keys table scratch v inode fPos count).bind fun r =>
      (readSplit keys table scratch v inode r.fPos counts).map (fun out => r.out ++ out)

def SplitsWell (key : Key) (scratch : ℕ → Block) (v : Volume) (inode : MInode) : ℕ → List ℕ → Prop
  | _, [] => True
  | fPos, count :: counts =>
    StartsWell key scratch v inode fPos count ∧ SplitsWell key scratch v inode (fPos + count) counts

lemma readSplit_plain (hn : inode.iNum ≠ 0) (hin : ∃ z, scheme.Found (view table) inode.iNum z)
    (hread : ∀ i, ¬ Unreadable v inode i) {counts : List ℕ} {fPos : ℕ}
    (hsize : fPos + counts.sum ≤ maxBlocks * blockSize)
    (hwell : SplitsWell key scratch v inode fPos counts) :
    readSplit (ownView key) table scratch v inode fPos counts =
      .ok ((List.range counts.sum).map fun j => plainByte key scratch v inode (fPos + j)) := by
  induction counts generalizing fPos with
  | nil => rfl
  | cons count counts ih =>
    rw [List.sum_cons] at hsize ⊢
    obtain ⟨m, _, hend, hfirst, hr⟩ := fileRead_eq key scratch v hn hin
      (show fPos + count ≤ maxBlocks * blockSize by omega)
    have hm : m = count := hend.resolve_right fun h => hread _ h.2
    have hplain := (startsWell_iff hend hfirst).mpr hwell.1
    rw [readSplit, hr]
    simp only [Except.bind, hm, ih (by omega) hwell.2, Except.map]
    rw [List.range_add, List.map_append, List.map_map]
    congr 2
    · apply List.map_congr_left
      intro j hj
      exact hplain j (hm ▸ List.mem_range.mp hj)
    · apply List.map_congr_left
      intro j _
      rw [Function.comp_apply, Nat.add_assoc]

end

lemma fileRead_iff (key : Key) (scratch : ℕ → Block) {table : HashTable} (v : Volume)
    {inode : MInode} (hn : inode.iNum ≠ 0) (hin : ∃ z, scheme.Found (view table) inode.iNum z)
    {fPos count : ℕ} (hle : fPos + count ≤ maxBlocks * blockSize) :
    ∃ r, fileRead (ownView key) table scratch v inode fPos count = .ok r ∧
      (ReadsPlain key scratch v inode fPos count r ↔ StartsWell key scratch v inode fPos count) := by
  obtain ⟨m, hm, hend, hfirst, hr⟩ := fileRead_eq key scratch v hn hin hle
  refine ⟨_, hr, ?_⟩
  rw [← startsWell_iff hend hfirst]
  constructor
  · rintro ⟨m', _, _, he⟩ j hj
    have hpos : fPos + m = fPos + m' := congrArg ReadResult.fPos he
    have hout := congrArg ReadResult.out he
    rw [← Nat.add_left_cancel hpos] at hout
    exact List.map_inj_left.mp hout j (List.mem_range.mpr hj)
  · intro h
    refine ⟨m, hm, hend.imp_right And.right, ?_⟩
    congr 1
    apply List.map_congr_left
    intro j hj
    exact h j (List.mem_range.mp hj)

/-- `file_read` returns the plain bytes of an encrypted file exactly when it starts well, and so do
consecutive reads that all start well. -/
theorem fileRead_plain_iff (key : Key) (scratch : ℕ → Block) (table : HashTable) (v : Volume)
    (inode : MInode) (hn : inode.iNum ≠ 0) (hin : ∃ z, scheme.Found (view table) inode.iNum z)
    (hsize : inode.iSize ≤ maxBlocks * blockSize) :
    (∀ fPos count, fPos + count ≤ inode.iSize →
      ∃ r, fileRead (ownView key) table scratch v inode fPos count = .ok r ∧
        (ReadsPlain key scratch v inode fPos count r ↔ StartsWell key scratch v inode fPos count)) ∧
    ∀ fPos counts, fPos + counts.sum ≤ inode.iSize → (∀ i, ¬ Unreadable v inode i) →
      SplitsWell key scratch v inode fPos counts →
      readSplit (ownView key) table scratch v inode fPos counts =
        .ok ((List.range counts.sum).map fun j => plainByte key scratch v inode (fPos + j)) :=
  ⟨fun _ _ hle => fileRead_iff key scratch v hn hin (hle.trans hsize),
    fun _ _ hle hread hwell => readSplit_plain hn hin hread (hle.trans hsize) hwell⟩

def sampleTable : HashTable := Function.update emptyTable (probe 7 0) ⟨7, anyHKey⟩

lemma sampleTable_found : ∃ z, scheme.Found (view sampleTable) 7 z :=
  ⟨probe 7 0, found_alone (by decide) anyHKey⟩

def sampleVolume : Volume := fullVolume fun _ => Block.zero.setByte 1 1

def sampleFile : MInode := directFile 7 ![5, 6, 0, 0, 0, 0, 0, 0, 0] 2048

theorem fileRead_plain_sampleFile :
    ∃ r, fileRead (ownView sampleKey) sampleTable (fun _ => Block.zero) sampleVolume sampleFile 1024 7 =
        .ok r ∧
      ReadsPlain sampleKey (fun _ => Block.zero) sampleVolume sampleFile 1024 7 r := by
  obtain ⟨r, hr, hiff⟩ := (fileRead_plain_iff sampleKey (fun _ => Block.zero) sampleTable sampleVolume
    sampleFile (by decide) sampleTable_found (by decide)).1 1024 7 (by decide)
  exact ⟨r, hr, hiff.mpr (Or.inl rfl)⟩

theorem fileRead_ignores_offset :
    ¬ ∀ (key : Key) (scratch : ℕ → Block) (table : HashTable) (v : Volume) (inode : MInode),
      inode.iNum ≠ 0 → (∃ z, scheme.Found (view table) inode.iNum z) →
      inode.iSize ≤ maxBlocks * blockSize → ∀ fPos count, fPos + count ≤ inode.iSize →
      ∃ r, fileRead (ownView key) table scratch v inode fPos count = .ok r ∧
        ReadsPlain key scratch v inode fPos count r := by
  intro h
  have hn : sampleFile.iNum ≠ 0 := by decide
  have hlast : 1 + 1 ≤ maxBlocks * blockSize := by decide
  obtain ⟨r, hr, hplain⟩ := h sampleKey (fun _ => Block.zero) sampleTable sampleVolume sampleFile hn
    sampleTable_found (by decide) 1 1 (by decide)
  obtain ⟨r', hr', hiff⟩ :=
    fileRead_iff sampleKey (fun _ => Block.zero) sampleVolume hn sampleTable_found hlast
  rw [hr] at hr'
  cases hr'
  rcases hiff.mp hplain with h₀ | hh | ⟨_, _, hu⟩ | hall
  · exact absurd h₀ (by decide)
  · exact absurd hh (by decide)
  · cases hu
  · exact absurd (hall 0 (by decide) (by decide)) (by decide)

end Devos.Fs
