import Devos.Fs.DirectorySlots
import Devos.Fs.FileBlock
import Devos.Fs.Links

/-! `minix_getdents`, which hands out a directory an entry at a time. -/

namespace Devos.Fs

open Loops

/-- What a call puts into the `struct dirent`; the name is put with its terminator. -/
structure Dirent where
  dIno : BitVec 32
  dReclen : Word
  dName : List Byte
  deriving DecidableEq

structure Listed where
  value : ℤ
  fPos : ℕ
  dirent : Option Dirent

/-- The variables of the inner loop. -/
structure Listing where
  fPos : ℕ
  offset : ℕ

def wordAt (b : Block) (offset : ℕ) : Word :=
  BitVec.ofNat 16 ((b.byte offset).toNat + 256 * (b.byte (offset + 1)).toNat)

/-- The characters that the loop over `NAME_LEN` copies. -/
def entryName (b : Block) (offset : ℕ) : List Byte :=
  ((List.range nameLen).map fun i => b.byte (offset + 2 + i)).takeWhile (· ≠ 0)

def direntOf (b : Block) (offset : ℕ) : Dirent :=
  ⟨(wordAt b offset).setWidth 32, BitVec.ofNat 16 (entryName b offset).length, entryName b offset ++ [0]⟩

/-- What the body of the inner loop finds at an offset; `none` sends it on. -/
def liveAt (b : Block) (offset : ℕ) : Option Dirent :=
  if wordAt b offset ≠ 0 then
    if (entryName b offset).length ≠ 0 then some (direntOf b offset) else none
  else none

/-- A turn of the inner loop: it leaves with a position, or the function returns. -/
def entryBody (b : Block) (iSize : ℕ) (s : Listing) : Pass Listing (ℕ ⊕ Listed) :=
  if ¬(s.offset < blockSize ∧ s.fPos < iSize) then .leave (.inl s.fPos)
  else
    match liveAt b s.offset with
    | some d => .leave (.inr ⟨(entryName b s.offset).length, s.fPos + 16, some d⟩)
    | none => .again ⟨s.fPos + 16, s.offset + 16⟩

def blockBody (v : Volume) (inode : MInode) (fPos : ℕ) : Pass ℕ (Except Fault Listed) :=
  if ¬fPos < inode.iSize then .leave (.ok ⟨0, fPos, none⟩)
  else
    let offset := fPos % blockSize
    match readFileBlock v inode (fPos / blockSize) with
    | .error f => .leave (.error f)
    | .ok none => .again (fPos + (blockSize - offset))
    | .ok (some block) =>
      match iterate (entryBody (v.data block) inode.iSize) (blockSize / 16 + 1) ⟨fPos, offset⟩ with
      | none => .leave (.error .hang)
      | some (.inl fPos) => .again fPos
      | some (.inr r) => .leave (.ok r)

def minixGetdents (v : Volume) (inode : MInode) (fPos : ℕ) : Except Fault Listed :=
  if ¬sIsDir inode.iMode = true then .ok ⟨-ebadf, fPos, none⟩
  else (iterate (blockBody v inode) (inode.iSize + 1) fPos).getD (.error .hang)

/-- The calls from a position on, until one returns 0, and what they hand out. -/
inductive Lists (v : Volume) (inode : MInode) : ℕ → List Dirent → Prop
  | done {fPos fPos'} : minixGetdents v inode fPos = .ok ⟨0, fPos', none⟩ → Lists v inode fPos []
  | entry {fPos fPos' n d l} : minixGetdents v inode fPos = .ok ⟨n, fPos', some d⟩ → n ≠ 0 → Lists v inode fPos' l →
      Lists v inode fPos (d :: l)

def entryCount (inode : MInode) : ℕ := (inode.iSize + 15) / 16

/-- Entry `k` of the directory, when it is live. -/
def liveEntry (v : Volume) (inode : MInode) (k : ℕ) : Option Dirent :=
  let b := v.data (zoneAt v inode (k / 64))
  let name := nameAt b (k % 64)
  if entryInode b (k % 64) ≠ 0 ∧ name ≠ [] then
    some ⟨(entryInode b (k % 64)).setWidth 32, BitVec.ofNat 16 name.length, name ++ [0]⟩
  else none

def liveEntries (v : Volume) (inode : MInode) : List Dirent :=
  (List.range (entryCount inode)).filterMap (liveEntry v inode)

/-- The blocks are in the direct and the single indirect range, and can be read. -/
def Listable (v : Volume) (inode : MInode) : Prop := ∀ i, blockSize * i < inode.iSize → i < 519 ∧ Mapped v inode i

section Entries

variable {v : Volume} {inode : MInode} {b : Block} {k n : ℕ}

lemma readFileBlock_mapped {i : ℕ} (hi : i < 519) (h : Mapped v inode i) :
    readFileBlock v inode i = .ok (some (zoneAt v inode i)) := by
  obtain ⟨hindex, hzone, hread⟩ := h
  have hmax : maxBlocks = 262663 := rfl
  have hbuffer : v.buffer (zoneAt v inode i) = some (zoneAt v inode i) := if_pos hread
  by_cases h₁ : i < 7
  · have hz : zoneAt v inode i = inode.zone i := by
      rw [zoneAt, blockRef, if_pos h₁]
      rfl
    rw [readFileBlock, if_pos (by omega), ← hz, hbuffer]
  · have h₂ : i - 7 < 512 := by omega
    have hz : zoneAt v inode i = entryAt v (inode.zone 7) (i - 7) := zoneAt_single h₁ h₂
    have h₇ : inode.zone 7 ≠ 0 := by
      intro h₀
      rw [hz, entryAt_zero h₀] at hzone
      exact hzone rfl
    rw [readFileBlock_single h₁ hi, readFileBlockInd_of_lt v _ h₂, if_pos ((indexReadable_single h₁ h₂).mp hindex),
      ← entryAt_ne h₇, ← hz, mappedBuffer, if_neg hzone, hbuffer]

/-- The inner loop comes to an end. -/
lemma entry_returns (b : Block) (iSize : ℕ) {s : Listing} (hs : s.offset % 16 = 0) :
    ∃ r, iterate (entryBody b iSize) (blockSize / 16 + 1) s = some r := by
  apply iterate_of_variant (fun s => s.offset % 16 = 0) (fun s => (blockSize - s.offset) / 16) _ hs
  · have : (blockSize - s.offset) / 16 ≤ blockSize / 16 := Nat.div_le_div_right (Nat.sub_le _ _)
    omega
  · intro s s' hs hb
    rw [entryBody] at hb
    split_ifs at hb with hend
    obtain ⟨hlt, _⟩ := hend
    cases hlive : liveAt b s.offset with
    | some d =>
      rw [hlive] at hb
      cases hb
    | none =>
      rw [hlive] at hb
      cases hb
      dsimp only [blockSize] at *
      omega

end Entries

section Calls

variable {v : Volume} {inode : MInode} {k : ℕ}

lemma liveAt_some {b : Block} {offset : ℕ} {d : Dirent} (h : liveAt b offset = some d) :
    ((entryName b offset).length : ℤ) ≠ 0 := by
  rw [liveAt] at h
  split_ifs at h with _ hname
  exact_mod_cast hname

lemma liveAt_entry (v : Volume) (inode : MInode) (k : ℕ) :
    liveAt (v.data (zoneAt v inode (k / 64))) (16 * (k % 64)) = liveEntry v inode k := by
  have hword : wordAt (v.data (zoneAt v inode (k / 64))) (16 * (k % 64)) =
      entryInode (v.data (zoneAt v inode (k / 64))) (k % 64) := by
    simp only [wordAt, entryInode, Block.word, ← Nat.mul_assoc, Nat.reduceMul]
  have hname : entryName (v.data (zoneAt v inode (k / 64))) (16 * (k % 64)) =
      nameAt (v.data (zoneAt v inode (k / 64))) (k % 64) := rfl
  simp only [liveAt, liveEntry, direntOf, hword, hname, ne_eq, List.length_eq_zero_iff, ite_and]

/-- A turn of the outer loop at entry `k`. -/
lemma blockBody_eq (h : Listable v inode) (hk : 16 * k < inode.iSize) :
    blockBody v inode (16 * k) =
      match iterate (entryBody (v.data (zoneAt v inode (k / 64))) inode.iSize) (blockSize / 16 + 1)
        ⟨16 * k, 16 * (k % 64)⟩ with
      | none => .leave (.error .hang)
      | some (.inl fPos) => .again fPos
      | some (.inr r) => .leave (.ok r) := by
  have hdiv : 16 * k / blockSize = k / 64 := by
    dsimp only [blockSize]
    omega
  have hmod : 16 * k % blockSize = 16 * (k % 64) := by
    dsimp only [blockSize]
    omega
  obtain ⟨hi, hmapped⟩ := h (k / 64) (by dsimp only [blockSize]; omega)
  rw [blockBody, if_neg (not_not.mpr hk), hdiv, hmod]
  dsimp only
  rw [readFileBlock_mapped hi hmapped]

lemma blockBody_live (h : Listable v inode) (hk : 16 * k < inode.iSize) {d : Dirent} (hlive : liveEntry v inode k = some d) :
    ∃ n : ℤ, n ≠ 0 ∧ blockBody v inode (16 * k) = .leave (.ok ⟨n, 16 * (k + 1), some d⟩) := by
  refine ⟨_, liveAt_some ((liveAt_entry v inode k).trans hlive), ?_⟩
  have hroom : 16 * (k % 64) < blockSize := by
    dsimp only [blockSize]
    omega
  have hbody : entryBody (v.data (zoneAt v inode (k / 64))) inode.iSize ⟨16 * k, 16 * (k % 64)⟩ =
      .leave (.inr ⟨(entryName (v.data (zoneAt v inode (k / 64))) (16 * (k % 64))).length, 16 * k + 16, some d⟩) := by
    rw [entryBody, if_neg (not_not.mpr ⟨hroom, hk⟩)]
    dsimp only
    rw [liveAt_entry, hlive]
  rw [blockBody_eq h hk, iterate_leave hbody]
  rfl

/-- An entry that is not live is passed over. -/
lemma iterate_dead (h : Listable v inode) (hk : 16 * k < inode.iSize) (hdead : liveEntry v inode k = none) {n : ℕ}
    {r : Except Fault Listed} (hr : iterate (blockBody v inode) (n + 1) (16 * (k + 1)) = some r) :
    iterate (blockBody v inode) (n + 2) (16 * k) = some r := by
  have hroom : 16 * (k % 64) < blockSize := by
    dsimp only [blockSize]
    omega
  have hbody : entryBody (v.data (zoneAt v inode (k / 64))) inode.iSize ⟨16 * k, 16 * (k % 64)⟩ =
      .again ⟨16 * (k + 1), 16 * (k % 64) + 16⟩ := by
    rw [entryBody, if_neg (not_not.mpr ⟨hroom, hk⟩)]
    dsimp only
    rw [liveAt_entry, hdead]
    rfl
  obtain ⟨t, ht⟩ := entry_returns (v.data (zoneAt v inode (k / 64))) inode.iSize
    (s := ⟨16 * k, 16 * (k % 64)⟩) (by dsimp only; omega)
  have hnext := ht
  rw [iterate_again hbody] at hnext
  have hturn := blockBody_eq h hk
  rw [ht] at hturn
  by_cases hmore : 16 * (k % 64) + 16 < blockSize ∧ 16 * (k + 1) < inode.iSize
  · -- the next entry is in the same block, and the inner loop goes on with it
    have hdiv : (k + 1) / 64 = k / 64 := by
      dsimp only [blockSize] at hmore
      omega
    have hmod : 16 * ((k + 1) % 64) = 16 * (k % 64) + 16 := by
      dsimp only [blockSize] at hmore
      omega
    have hturn' := blockBody_eq h hmore.2
    rw [hdiv, hmod, iterate_mono hnext (Nat.le_succ _)] at hturn'
    have hsame : blockBody v inode (16 * k) = blockBody v inode (16 * (k + 1)) := hturn.trans hturn'.symm
    have hr := iterate_mono hr (Nat.le_succ _)
    rw [iterate, hsame]
    rwa [iterate] at hr
  · have hleave : entryBody (v.data (zoneAt v inode (k / 64))) inode.iSize ⟨16 * (k + 1), 16 * (k % 64) + 16⟩ =
        .leave (.inl (16 * (k + 1))) := if_pos hmore
    have hcount : blockSize / 16 = 63 + 1 := rfl
    rw [hcount, iterate_leave hleave] at hnext
    cases hnext
    rw [iterate_again hturn]
    exact hr

lemma iterate_end (hk : inode.iSize ≤ 16 * k) (n : ℕ) :
    iterate (blockBody v inode) (n + 1) (16 * k) = some (.ok ⟨0, 16 * k, none⟩) :=
  iterate_leave (if_pos (not_lt.mpr hk))

/-- The calls from entry `k` on come back, with `m` entries still ahead. -/
lemma call_returns (h : Listable v inode) {m : ℕ} (hk : k + m = entryCount inode) :
    ∃ r, iterate (blockBody v inode) (m + 1) (16 * k) = some r := by
  induction m generalizing k with
  | zero =>
    have hend : inode.iSize ≤ 16 * k := by
      unfold entryCount at hk
      omega
    exact ⟨_, iterate_end hend 0⟩
  | succ m ih =>
    have hlt : 16 * k < inode.iSize := by
      unfold entryCount at hk
      omega
    cases hlive : liveEntry v inode k with
    | some d =>
      obtain ⟨n, _, hb⟩ := blockBody_live h hlt hlive
      exact ⟨_, iterate_leave hb⟩
    | none =>
      obtain ⟨r, hr⟩ := ih (k := k + 1) (by omega)
      exact ⟨r, iterate_dead h hlt hlive hr⟩

lemma minixGetdents_of_iterate (hdir : sIsDir inode.iMode = true) {n : ℕ} {r : Except Fault Listed}
    (hn : n ≤ entryCount inode + 1) (hr : iterate (blockBody v inode) n (16 * k) = some r) :
    minixGetdents v inode (16 * k) = r := by
  have hfuel : n ≤ inode.iSize + 1 := by
    unfold entryCount at hn
    omega
  rw [minixGetdents, if_neg (not_not.mpr hdir), iterate_mono hr hfuel, Option.getD_some]

lemma getdents_live (hdir : sIsDir inode.iMode = true) (h : Listable v inode) (hk : 16 * k < inode.iSize) {d : Dirent}
    (hlive : liveEntry v inode k = some d) :
    ∃ n : ℤ, n ≠ 0 ∧ minixGetdents v inode (16 * k) = .ok ⟨n, 16 * (k + 1), some d⟩ := by
  obtain ⟨n, hn, hb⟩ := blockBody_live h hk hlive
  exact ⟨n, hn, minixGetdents_of_iterate hdir (Nat.succ_le_succ (Nat.zero_le _)) (iterate_leave hb)⟩

lemma getdents_dead (hdir : sIsDir inode.iMode = true) (h : Listable v inode) (hk : k < entryCount inode)
    (hdead : liveEntry v inode k = none) : minixGetdents v inode (16 * k) = minixGetdents v inode (16 * (k + 1)) := by
  have hlt : 16 * k < inode.iSize := by
    unfold entryCount at hk
    omega
  obtain ⟨r, hr⟩ := call_returns h (k := k + 1) (m := entryCount inode - (k + 1)) (by omega)
  have hnext := minixGetdents_of_iterate hdir (by omega) hr
  rw [hnext]
  exact minixGetdents_of_iterate hdir (by omega) (iterate_dead h hlt hdead hr)

lemma getdents_end (hdir : sIsDir inode.iMode = true) (hk : k = entryCount inode) :
    minixGetdents v inode (16 * k) = .ok ⟨0, 16 * k, none⟩ := by
  have hend : inode.iSize ≤ 16 * k := by
    unfold entryCount at hk
    omega
  exact minixGetdents_of_iterate hdir (Nat.succ_le_succ (Nat.zero_le _)) (iterate_end hend 0)

/-- The list that the calls give depends on the first call only. -/
lemma Lists.of_eq {p q : ℕ} {l : List Dirent} (hl : Lists v inode q l)
    (h : minixGetdents v inode p = minixGetdents v inode q) : Lists v inode p l := by
  cases hl with
  | done hq => exact .done (h.trans hq)
  | entry hq hn hl => exact .entry (h.trans hq) hn hl

lemma Lists.unique {p : ℕ} {l l' : List Dirent} (hl : Lists v inode p l) (hl' : Lists v inode p l') : l = l' := by
  induction hl generalizing l' with
  | done hp =>
    cases hl' with
    | done _ => rfl
    | entry hq =>
      rw [hp] at hq
      cases hq
  | entry hp hn _ ih =>
    cases hl' with
    | done hq =>
      rw [hp] at hq
      cases hq
    | entry hq _ hl' =>
      rw [hp] at hq
      cases hq
      rw [ih hl']

lemma lists_from (hdir : sIsDir inode.iMode = true) (h : Listable v inode) {m : ℕ} (hk : k + m = entryCount inode) :
    Lists v inode (16 * k) ((List.range' k m).filterMap (liveEntry v inode)) := by
  induction m generalizing k with
  | zero => exact .done (getdents_end hdir hk)
  | succ m ih =>
    have hrest := ih (k := k + 1) (by omega)
    have hlt : 16 * k < inode.iSize := by
      unfold entryCount at hk
      omega
    rw [List.range'_succ]
    cases hlive : liveEntry v inode k with
    | some d =>
      obtain ⟨n, hn, hcall⟩ := getdents_live hdir h hlt hlive
      rw [List.filterMap_cons_some hlive]
      exact .entry hcall hn hrest
    | none =>
      rw [List.filterMap_cons_none hlive]
      exact hrest.of_eq (getdents_dead hdir h (by omega) hlive)

end Calls

theorem getdents_lists {v : Volume} {inode : MInode} (hdir : sIsDir inode.iMode = true) (h : Listable v inode)
    (l : List Dirent) : Lists v inode 0 l ↔ l = liveEntries v inode := by
  have hall : Lists v inode 0 (liveEntries v inode) := by
    rw [liveEntries, List.range_eq_range']
    exact lists_from (k := 0) hdir h (Nat.zero_add _)
  constructor
  · intro hl
    exact hl.unique hall
  · rintro rfl
    exact hall

/-- Three entries, of which the one in the middle is live. -/
def nameBlock : Block := fun x => if x.val = 2 then 98 else if x.val = 16 then 7 else if x.val = 18 then 97 else 0

def smallDir : MInode := ⟨0o040000, 48, firstZone 5, 7⟩

theorem getdents_lists_one :
    Lists (fullVolume fun _ => nameBlock) smallDir 0 [⟨7, 1, [97, 0]⟩] := by
  have hlist : Listable (fullVolume fun _ => nameBlock) smallDir := by
    intro i hi
    have hsize : smallDir.iSize = 48 := rfl
    obtain rfl : i = 0 := by
      dsimp only [blockSize] at hi
      omega
    exact ⟨by decide, indexReadable_direct (by decide), by decide, rfl⟩
  exact (getdents_lists (by decide) hlist _).mpr (by decide)

end Devos.Fs
