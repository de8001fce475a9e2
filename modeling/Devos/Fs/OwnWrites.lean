import Devos.Fs.Entries
import Devos.Fs.FileWrite
import Devos.Fs.Ownership

/-! What a call writes through one inode leaves every other file as it was. -/

namespace Devos.Fs

open Loops Security

/-- File `n` has the same inode and the same data in all its blocks. -/
structure SameFile (n : Word) (d d' : Device) : Prop where
  inode : d'.inodes n = d.inodes n
  data : ∀ r, d.ref n r ≠ 0 → d'.volume.data (d.ref n r) = d.volume.data (d.ref n r)

section SameFile

variable {n m : Word} {d d' d'' : Device}

lemma SameFile.refl (n : Word) (d : Device) : SameFile n d d := ⟨rfl, fun _ _ => rfl⟩

lemma SameFile.ref (h : SameFile n d d') (r : Ref) : d'.ref n r = d.ref n r := by
  rw [Device.ref, h.inode]
  exact refAt_congr (fun r _ => h.data r) r

lemma SameFile.trans (h : SameFile n d d') (h' : SameFile n d' d'') : SameFile n d d'' := by
  refine ⟨h'.inode.trans h.inode, ?_⟩
  intro r h₀
  have hr := h.ref r
  rw [← hr, h'.data r (by rwa [hr]), hr]
  exact h.data r h₀

lemma SameFile.content (h : SameFile n d d') (i : ℕ) :
    content d'.volume (d'.inodes n).blocks i = content d.volume (d.inodes n).blocks i := by
  have hz : zoneAt d'.volume (d'.inodes n).blocks i = zoneAt d.volume (d.inodes n).blocks i := h.ref _
  rw [Fs.content, Fs.content, hz]
  by_cases h₀ : i < maxBlocks ∧ zoneAt d.volume (d.inodes n).blocks i ≠ 0
  · rw [if_pos h₀, if_pos h₀]
    exact congrArg some (h.data _ h₀.2)
  · rw [if_neg h₀, if_neg h₀]

lemma put_put (d : Device) (n : Word) (v v' : Volume) (inode inode' : MInode) :
    (d.put n v inode).put n v' inode' = d.put n v' inode' := by
  rw [Device.put, Device.put, Device.put, Function.update_idem]

lemma sameFile_put (hm : m ≠ n) {v : Volume} {inode : MInode}
    (hdata : ∀ r, d.ref m r ≠ 0 → v.data (d.ref m r) = d.volume.data (d.ref m r)) :
    SameFile m d (d.put n v inode) := ⟨Function.update_of_ne hm _ _, hdata⟩

end SameFile

/-- Blocks taken for one inode, data put into its blocks, and changes of its size. -/
inductive OwnWrites (v₀ : Volume) (inode₀ : MInode) : Volume → MInode → Prop
  | refl : OwnWrites v₀ inode₀ v₀ inode₀
  | create {v inode block z v' inode'} : OwnWrites v₀ inode₀ v inode →
      createBlock v inode block = .ok (z, v', inode') → OwnWrites v₀ inode₀ v' inode'
  | put {v inode r} (b : Block) : OwnWrites v₀ inode₀ v inode → r.IsData → refAt v inode r ≠ 0 →
      OwnWrites v₀ inode₀ (v.put (refAt v inode r) b) inode
  | size {v inode} (size : ℕ) : OwnWrites v₀ inode₀ v inode →
      OwnWrites v₀ inode₀ v { inode with iSize := size }

section Frame

variable {d : Device} {n m : Word} {v : Volume} {inode : MInode}

lemma blocks_of_plain (h : ¬ inode.special) : inode.blocks = inode := if_neg h

lemma Owned.create_sameFile (h : Owned d) (hn : ¬ (d.inodes n).special) (hm : m ≠ n) {block : ℕ} {z : Word}
    (hs : createBlock d.volume (d.inodes n) block = .ok (z, v, inode)) :
    SameFile m d (d.put n v inode) := by
  have hc := h.consistent n
  rw [blocks_of_plain hn] at hc
  have he := (createBlock_growth hc hs).1.extends hc
  refine sameFile_put hm fun r h₀ => ?_
  have hused := h.used m r h₀
  refine he.data _ hused.first hused.set ?_
  intro r' _ he'
  have hr' : d.ref n r' = refAt d.volume (d.inodes n) r' := by rw [Device.ref, blocks_of_plain hn]
  exact hm (h.once m r n r' h₀ (by rw [hr', he'])).1

lemma Owned.same_refs (h : Owned d) (hfirst : v.firstDataZone = d.volume.firstDataZone)
    (hzones : v.nZones = d.volume.nZones) (hbits : v.zmapBits = d.volume.zmapBits)
    (hzmap : v.zmap = d.volume.zmap) (hself : ∀ r, refAt v inode.blocks r = d.ref n r)
    (hother : ∀ m, m ≠ n → ∀ r, refAt v (d.inodes m).blocks r = d.ref m r) : Owned (d.put n v inode) := by
  have hused : ∀ m r, d.ref m r ≠ 0 → InUse v (d.ref m r) := by
    intro m r h₀
    have hu := h.used m r h₀
    have hbit : v.bit (d.ref m r) = d.volume.bit (d.ref m r) := by rw [Volume.bit, Volume.bit, hfirst]
    refine ⟨by rw [hfirst]; exact hu.first, by rw [hzones]; exact hu.lt, ?_, ?_⟩
    · rw [hbit, hbits]
      exact hu.bit_lt
    · rw [hbit, hzmap]
      exact hu.set
  refine h.put hfirst hzones (by rw [hzmap]; exact h.zmap_zero) hother (fun m _ r => hused m r) ⟨?_, ?_⟩ ?_
  · intro r h₀
    rw [hself] at h₀ ⊢
    exact hused n r h₀
  · intro r r' h₀ he
    rw [hself] at h₀
    rw [hself, hself] at he
    exact (h.once n r n r' h₀ he).2
  · exact fun r _ => Or.inl (hself r)

/-- One file's data goes to none of the blocks of another. -/
lemma Owned.put_data (h : Owned d) (hn : ¬ (d.inodes n).special) {r : Ref} (hr : r.IsData) (b : Block) :
    Owned (d.put n (d.volume.put (refAt d.volume (d.inodes n) r) b) (d.inodes n)) ∧
      ∀ m, m ≠ n → SameFile m d (d.put n (d.volume.put (refAt d.volume (d.inodes n) r) b) (d.inodes n)) := by
  have href : refAt d.volume (d.inodes n) r = d.ref n r := by rw [Device.ref, blocks_of_plain hn]
  have hdata : ∀ m, m ≠ n → ∀ r', d.ref m r' ≠ 0 →
      (d.volume.put (refAt d.volume (d.inodes n) r) b).data (d.ref m r') = d.volume.data (d.ref m r') := by
    intro m hm r' h₀'
    refine Volume.put_data_of_ne _ _ fun he => ?_
    exact hm (h.once m r' n r h₀' (he.trans href)).1
  refine ⟨h.same_refs rfl rfl rfl rfl ?_ ?_, fun m hm => sameFile_put hm (hdata m hm)⟩
  · intro r'
    have hc := h.consistent n
    rw [blocks_of_plain hn] at hc
    rw [Device.ref, blocks_of_plain hn]
    exact refAt_put hc hr b r'
  · exact fun m hm r' => refAt_congr (fun r _ => hdata m hm r) r'

lemma Owned.put_size (h : Owned d) (n : Word) (hn : ¬ (d.inodes n).special) (size : ℕ) :
    Owned (d.put n d.volume { d.inodes n with iSize := size }) := by
  refine h.same_refs rfl rfl rfl rfl ?_ fun _ _ _ => rfl
  intro r
  have hsize : ¬ ({ d.inodes n with iSize := size } : MInode).special := hn
  rw [blocks_of_plain hsize, Device.ref, blocks_of_plain hn]
  exact refAt_size _ _ _ r

/-- What is written through inode `n` leaves each block one owner and all other files as they were. -/
theorem OwnWrites.frame (h : Owned d) (hn : ¬ (d.inodes n).special)
    (hw : OwnWrites d.volume (d.inodes n) v inode) :
    Owned (d.put n v inode) ∧ inode.iMode = (d.inodes n).iMode ∧
      ∀ m, m ≠ n → SameFile m d (d.put n v inode) := by
  have hself : ∀ v inode, (d.put n v inode).inodes n = inode := fun _ _ => Function.update_self _ _ _
  have hplain : ∀ {inode : MInode}, inode.iMode = (d.inodes n).iMode → ¬ inode.special :=
    fun hm hs => hn ((special_congr hm).mp hs)
  induction hw with
  | refl =>
    rw [put_self]
    exact ⟨h, rfl, fun m _ => .refl m d⟩
  | @create v inode block z v' inode' _ hc ih =>
    obtain ⟨howned, hmode, hsame⟩ := ih
    have hs : ¬ ((d.put n v inode).inodes n).special := by
      rw [hself]
      exact hplain hmode
    have hcreate : createBlock (d.put n v inode).volume ((d.put n v inode).inodes n) block = .ok (z, v', inode') := by
      rw [hself]
      exact hc
    have hcons := howned.consistent n
    rw [hself, blocks_of_plain (hplain hmode)] at hcons
    have hnext := howned.create hcreate
    rw [put_put] at hnext
    refine ⟨hnext, (createBlock_iMode hcons hc).trans hmode, fun m hm => ?_⟩
    have hother := howned.create_sameFile hs hm hcreate
    rw [put_put] at hother
    exact (hsame m hm).trans hother
  | @put v inode r b _ hr _ ih =>
    obtain ⟨howned, hmode, hsame⟩ := ih
    have hs : ¬ ((d.put n v inode).inodes n).special := by
      rw [hself]
      exact hplain hmode
    obtain ⟨hnext, hother⟩ := howned.put_data hs hr b
    rw [put_put, hself] at hnext
    refine ⟨hnext, hmode, fun m hm => ?_⟩
    have hkeep := hother m hm
    rw [put_put, hself] at hkeep
    exact (hsame m hm).trans hkeep
  | @size v inode k _ ih =>
    obtain ⟨howned, hmode, hsame⟩ := ih
    have hs : ¬ ((d.put n v inode).inodes n).special := by
      rw [hself]
      exact hplain hmode
    have hnext := howned.put_size n hs k
    rw [put_put, hself] at hnext
    refine ⟨hnext, hmode, fun m hm => (hsame m hm).trans ⟨?_, fun _ _ => rfl⟩⟩
    simp only [Device.put, Function.update_of_ne hm]

lemma Owned.truncate_freed (h : Owned d) {busy : Word → Bool}
    (ht : truncate busy d.volume (d.inodes n) = .ok (v, inode)) :
    Freed d.volume (Blocks d.volume (d.inodes n).blocks) v := by
  by_cases hmode : sIsReg (d.inodes n).iMode = true ∨ sIsDir (d.inodes n).iMode = true
  · have hheld := h.held n
    rw [blocks_of_plain (not_special hmode)] at hheld ⊢
    obtain ⟨v', ht', hfreed⟩ := truncate_spec busy hheld hmode
    rw [ht] at ht'
    cases ht'
    exact hfreed
  · rw [truncate, if_pos hmode] at ht
    cases ht
    exact .refl _ _

/-- `truncate` frees the blocks of one file and leaves the data of all. -/
lemma Freed.sameFile {S : Set Word} (hf : Freed d.volume S v) (hm : m ≠ n) (inode : MInode) :
    SameFile m d (d.put n v inode) :=
  sameFile_put hm fun r _ => by rw [hf.same]

lemma Owned.wiped (h : Owned d) (hf : Freed d.volume (Blocks d.volume (d.inodes n).blocks) v)
    (hzone : ∀ k, inode.iZone k = 0) : Owned (d.put n v inode) := by
  refine h.release hf (refAt_zero v ?_)
  intro k
  rw [MInode.blocks]
  split
  · by_cases hk : k = Fin.ofNat 9 0
    · subst hk
      exact Function.update_self (Fin.ofNat 9 0) 0 inode.iZone
    · exact (Function.update_of_ne hk _ _).trans (hzone k)
  · exact hzone k

end Frame

section Calls

variable {v : Volume} {inode : MInode}

lemma OwnWrites.trans {v' v'' : Volume} {inode' inode'' : MInode} (h : OwnWrites v inode v' inode')
    (h' : OwnWrites v' inode' v'' inode'') : OwnWrites v inode v'' inode'' := by
  induction h' with
  | refl => exact h
  | create _ hc ih => exact .create ih hc
  | put b _ hr h₀ ih => exact .put b ih hr h₀
  | size k _ ih => exact .size k ih

lemma OwnWrites.consistent {v' : Volume} {inode' : MInode} (hc : Consistent v inode)
    (h : OwnWrites v inode v' inode') : Consistent v' inode' := by
  induction h with
  | refl => exact hc
  | create _ hs ih => exact (createBlock_spec ih hs).1.consistent
  | put b _ hr _ ih => exact consistent_put ih hr b
  | size k _ ih => exact ih.size k

variable {keys : ℕ → KeyView} {table : HashTable} {scratchD scratchE : ℕ → Block} {buf : ℕ → Byte} {count : ℕ}

lemma writeBody_ownWrites {s : Writing} (hc : Consistent s.volume s.inode) :
    (∀ s', writeBody keys table scratchD scratchE buf count s = .again s' →
        OwnWrites s.volume s.inode s'.volume s'.inode) ∧
      ∀ s', writeBody keys table scratchD scratchE buf count s = .leave (.ok s') →
        OwnWrites s.volume s.inode s'.volume s'.inode := by
  rw [writeBody]
  by_cases hle : count ≤ s.i
  · rw [if_pos hle]
    refine ⟨fun s' h => (by cases h), fun s' h => ?_⟩
    cases h
    exact .refl
  · rw [if_neg hle]
    dsimp only
    cases hcb : createBlock s.volume s.inode (s.pos / blockSize) with
    | error e => exact ⟨fun s' h => (by cases h), fun s' h => (by cases h)⟩
    | ok res =>
      obtain ⟨block, v₁, inode₁⟩ := res
      have hw : OwnWrites s.volume s.inode v₁ inode₁ := .create .refl hcb
      dsimp only
      by_cases hstop : block = 0 ∨ ¬ v₁.readable block = true
      · rw [if_pos hstop]
        refine ⟨fun s' h => (by cases h), fun s' h => ?_⟩
        cases h
        exact hw
      · rw [if_neg hstop]
        have h₀ : block ≠ 0 := (not_or.mp hstop).1
        obtain ⟨_, rfl⟩ := (createBlock_spec hc hcb).2 h₀
        cases writeBuffer (keys (s.pos / blockSize)) table inode₁.iNum (scratchD (s.pos / blockSize))
          (scratchE (s.pos / blockSize)) s.isEncr (v₁.data (zoneAt v₁ inode₁ (s.pos / blockSize)))
          (s.pos % blockSize) (min (blockSize - s.pos % blockSize) (count - s.i)) (fun k => buf (s.i + k)) with
        | error e => exact ⟨fun s' h => (by cases h), fun s' h => (by cases h)⟩
        | ok res =>
          refine ⟨fun s' h => ?_, fun s' h => (by cases h)⟩
          cases h
          exact .size _ (.put _ hw (blockRef_isData _) h₀)

theorem fileWrite_ownWrites {append : Bool} {fPos : ℕ} {r : WriteResult} (hc : Consistent v inode)
    (h : fileWrite keys table scratchD scratchE v inode append fPos buf count = .ok r) :
    OwnWrites v inode r.volume r.inode := by
  obtain ⟨s, hs, rfl⟩ := map_eq_ok h
  cases hit : iterate (writeBody keys table scratchD scratchE buf count) (count + 1)
    ⟨if append then inode.iSize else fPos, 0, false, v, inode⟩ with
  | none =>
    rw [hit] at hs
    cases hs
  | some res =>
    rw [hit, Option.getD_some] at hs
    subst hs
    refine iterate_invariant (fun s => OwnWrites v inode s.volume s.inode)
      (Q := fun res => ∀ s, res = .ok s → OwnWrites v inode s.volume s.inode) ?_ ?_ .refl hit s rfl
    · exact fun s s' hw hb => hw.trans ((writeBody_ownWrites (hw.consistent hc)).1 s' hb)
    · rintro s res hw hb s' rfl
      exact hw.trans ((writeBody_ownWrites (hw.consistent hc)).2 s' hb)

end Calls

def OwnBlock (v : Volume) (inode : MInode) (z : Word) : Prop :=
  z ≠ 0 ∧ ∃ r : Ref, r.IsData ∧ refAt v inode r = z

section Entries

variable {v v' : Volume} {dir dir' : MInode} {name : List Byte} {z : Word}

lemma OwnWrites.put_block (h : OwnWrites v dir v' dir') (hz : OwnBlock v' dir' z) (b : Block) :
    OwnWrites v dir (v'.put z b) dir' := by
  obtain ⟨h₀, r, hr, rfl⟩ := hz
  exact .put b h hr h₀

lemma OwnBlock.put (hc : Consistent v dir) {z' : Word} (hz : OwnBlock v dir z) (hz' : OwnBlock v dir z')
    (b : Block) : OwnBlock (v.put z' b) dir z := by
  obtain ⟨h₀, r, hr, he⟩ := hz
  obtain ⟨_, r', hr', rfl⟩ := hz'
  exact ⟨h₀, r, hr, (refAt_put hc hr' b r).trans he⟩

lemma OwnBlock.size (hz : OwnBlock v dir z) (k : ℕ) : OwnBlock v { dir with iSize := k } z := by
  obtain ⟨h₀, r, hr, he⟩ := hz
  exact ⟨h₀, r, hr, (refAt_size v dir k r).trans he⟩

lemma ownBlock_created (hc : Consistent v dir) {i : ℕ} (h : createBlock v dir i = .ok (z, v', dir'))
    (h₀ : z ≠ 0) : OwnBlock v' dir' z :=
  ⟨h₀, blockRef i, blockRef_isData i, ((createBlock_spec hc h).2 h₀).2.symm⟩

/-- Where `add_entry` has put the name, and that it wrote nothing but the directory. -/
structure AddedOwn (v : Volume) (dir : MInode) (a : Added) : Prop where
  writes : OwnWrites v dir a.volume a.dir
  block : OwnBlock a.volume a.dir a.block

lemma take_own (hc : Consistent v' dir') (hw : OwnWrites v dir v' dir') (hz : OwnBlock v' dir' z) (i : ℕ) :
    AddedOwn v dir (Adding.take name i z v' dir') := by
  have hput : ∀ b, OwnWrites v dir (v'.put z b) dir' := hw.put_block hz
  have hblock : ∀ b, OwnBlock (v'.put z b) dir' z := hz.put hc hz
  unfold Adding.take
  by_cases hend : dir'.iSize ≤ 16 * i
  · simp only [if_pos hend]
    exact ⟨.size _ (hput _), (hblock _).size _⟩
  · simp only [if_neg hend]
    exact ⟨hput _, hblock _⟩

def Adding.Own (v : Volume) (dir : MInode) (s : Adding) : Prop :=
  OwnWrites v dir s.volume s.dir ∧ OwnBlock s.volume s.dir s.block

def AddResultOwn (v : Volume) (dir : MInode) (r : Except Fault (Option Added × Volume × MInode)) : Prop :=
  ∀ a v' dir', r = .ok (a, v', dir') → OwnWrites v dir v' dir' ∧ ∀ x, a = some x → AddedOwn v dir x

lemma addEntryBody_own (hc : Consistent v dir) {s : Adding} (hs : s.Own v dir) :
    (∀ s', addEntryBody name s = .again s' → s'.Own v dir) ∧
      ∀ r, addEntryBody name s = .leave r → AddResultOwn v dir r := by
  obtain ⟨hw, hblock⟩ := hs
  have hstep : ∀ z v' dir', (if s.i ≠ 0 ∧ s.i % 64 = 0 then createBlock s.volume s.dir (s.i / 64)
      else .ok (s.block, s.volume, s.dir)) = .ok (z, v', dir') →
      OwnWrites v dir v' dir' ∧ (z ≠ 0 → OwnBlock v' dir' z) := by
    intro z v' dir' h
    split at h
    · exact ⟨.create hw h, ownBlock_created (hw.consistent hc) h⟩
    · cases h
      exact ⟨hw, fun _ => hblock⟩
  rw [addEntryBody]
  generalize (if s.i ≠ 0 ∧ s.i % 64 = 0 then createBlock s.volume s.dir (s.i / 64)
    else .ok (s.block, s.volume, s.dir)) = found at hstep ⊢
  cases found with
  | error e => exact ⟨fun s' h => (by cases h), fun r h => by cases h; exact fun _ _ _ h => (by cases h)⟩
  | ok res =>
    obtain ⟨z, v', dir'⟩ := res
    obtain ⟨hw', hz⟩ := hstep z v' dir' rfl
    dsimp only
    by_cases h₀ : z = 0
    · rw [if_pos h₀]
      refine ⟨fun s' h => (by cases h), fun r h a v₁ dir₁ hr => ?_⟩
      cases h
      cases hr
      exact ⟨hw', fun x h => (by cases h)⟩
    · rw [if_neg h₀]
      have hown := hz h₀
      by_cases hread : v'.readable z = true
      · rw [if_neg (not_not.mpr hread)]
        by_cases hfree : dir'.iSize ≤ 16 * s.i ∨ entryInode (v'.data z) (s.i % 64) = 0
        · rw [if_pos hfree]
          refine ⟨fun s' h => (by cases h), fun r h a v₁ dir₁ hr => ?_⟩
          cases h
          cases hr
          exact ⟨hw', fun x hx => by cases hx; exact take_own (hw'.consistent hc) hw' hown s.i⟩
        · rw [if_neg hfree]
          refine ⟨fun s' h => ?_, fun r h => (by cases h)⟩
          cases h
          exact ⟨hw', hown⟩
      · rw [if_pos hread]
        refine ⟨fun s' h => (by cases h), fun r h a v₁ dir₁ hr => ?_⟩
        cases h
        cases hr

theorem addEntry_own (hc : Consistent v dir) : AddResultOwn v dir (addEntry v dir name) := by
  rw [addEntry]
  by_cases hstop : name = [] ∨ dir.zone 0 = 0 ∨ ¬ v.readable (dir.zone 0) = true
  · rw [if_pos hstop]
    intro a v' dir' h
    cases h
    exact ⟨.refl, fun x h => (by cases h)⟩
  · rw [if_neg hstop]
    have hzone : dir.zone 0 ≠ 0 := fun h => hstop (Or.inr (Or.inl h))
    have hstart : Adding.Own v dir ⟨0, dir.zone 0, v, dir⟩ := ⟨.refl, hzone, .zone 0, Nat.succ_pos 6, rfl⟩
    cases hit : iterate (addEntryBody (name.take nameLen)) (64 * maxBlocks + 1) ⟨0, dir.zone 0, v, dir⟩ with
    | none =>
      intro a v' dir' h
      cases h
    | some res =>
      rw [Option.getD_some]
      exact iterate_invariant (Adding.Own v dir) (fun s s' hs => (addEntryBody_own hc hs).1 s')
        (fun s r hs => (addEntryBody_own hc hs).2 r) hstart hit

end Entries

end Devos.Fs
