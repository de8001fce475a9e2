import Devos.Library.Runs
import Devos.Security.EncryptFile
import Devos.Security.SavedTable

/-! Runs of `encr`, `decr`, `sync` and `load_table`, and when a reload keeps the table true. -/

namespace Devos.Kernel

open Loops LinearProbing Security Fs Runs

/-- `layers n` lists the digests under which the blocks of file `n` are encrypted, the last one
first; it is history. -/
structure Saving where
  table : HashTable
  volume : Volume
  layers : Word → List HKey

inductive SaveEvent where
  | encr (inode : MInode) (hashToUse : HKey)
  | decr (inode : MInode) (hashToUse : HKey)
  | sync
  | load

/-- One file of a call of `sys_encr` or `sys_decr`, or a call of one of the other two; `encInode` is the
reserved inode. -/
inductive SaveStep (encInode : MInode) (s : Saving) : SaveEvent → Saving → Prop
  | encr {inode hashToUse keyToUse scratch r} : inode.iNum ≠ 0 →
      encryptFile keyToUse scratch s.table s.volume inode ⟨inode.iNum, hashToUse⟩ = .ok r →
      SaveStep encInode s (.encr inode hashToUse) ⟨r.table, r.volume,
        if r.status = errAlrEnc then s.layers
        else Function.update s.layers inode.iNum (hashToUse :: s.layers inode.iNum)⟩
  | decr {inode hashToUse keyToUse scratch r} : inode.iNum ≠ 0 →
      decryptFile keyToUse hashToUse scratch s.table s.volume inode = .ok r →
      SaveStep encInode s (.decr inode hashToUse) ⟨r.table, r.volume,
        if r.status = succRm then Function.update s.layers inode.iNum (s.layers inode.iNum).tail
        else s.layers⟩
  | sync {b} : s.volume.bread (encInode.iZone 0) = some b →
      SaveStep encInode s .sync
        { s with volume := s.volume.put (encInode.iZone 0) (saveTable s.table b) }
  | load {b} : s.volume.bread (encInode.iZone 0) = some b →
      SaveStep encInode s .load { s with table := loadTable b }

/-- The table lists exactly the files that are encrypted, with the digests of their keys. -/
def Listed (s : Saving) : Prop :=
  ∀ n, n ≠ 0 → ∀ hKey, Scheme.Holds (view s.table) ⟨n, hKey⟩ ↔ hKey ∈ s.layers n

def SameEntries (t t' : HashTable) : Prop := ∀ e, Scheme.Holds (view t) e ↔ Scheme.Holds (view t') e

def saving (encInode : MInode) : System Saving SaveEvent where
  init s := Listed s ∧ (∀ n, (s.layers n).length ≤ 1) ∧ scheme.Distinct (view s.table)
  step := SaveStep encInode

/-- The saved copy that a reload reads has the entries of the table, each number once, and a file in
the table is found there when it is to be encrypted. -/
def Saved (encInode : MInode) (s : Saving) : SaveEvent → Prop
  | .encr inode _ => Stored s.table inode.iNum → ∃ z, scheme.Found (view s.table) inode.iNum z
  | .load => SameEntries (loadTable (s.volume.data (encInode.iZone 0))) s.table ∧
      scheme.Distinct (view (loadTable (s.volume.data (encInode.iZone 0))))
  | _ => True

structure Tidy (s : Saving) : Prop where
  listed : Listed s
  once : ∀ n, (s.layers n).length ≤ 1
  distinct : scheme.Distinct (view s.table)

section Steps

variable {encInode : MInode} {s s' : Saving}

lemma holds_ne {t : HashTable} {e : EDir} (h : Scheme.Holds (view t) e) : e.iNum ≠ 0 := by
  obtain ⟨z, hz⟩ := h
  obtain ⟨h₀, rfl⟩ := view_eq_some.mp hz
  exact h₀

lemma bread_data {v : Volume} {z : Word} {b : Block} (h : v.bread z = some b) : v.data z = b := by
  rw [Volume.bread] at h
  split at h
  next => exact Option.some.inj h
  next => cases h

lemma Tidy.layers_nil (hs : Tidy s) {n : Word} (hn : n ≠ 0) (h : ¬ Stored s.table n) : s.layers n = [] := by
  rw [List.eq_nil_iff_forall_not_mem]
  intro hKey hmem
  exact h ((stored_iff hn).mpr ⟨_, (hs.listed n hn hKey).mpr hmem, rfl⟩)

lemma Tidy.layers_eq (hs : Tidy s) {n : Word} (hn : n ≠ 0) {z : Fin tableSize} (hz : (s.table z).iNum = n) :
    s.layers n = [(s.table z).hKey] := by
  have hheld : Scheme.Holds (view s.table) ⟨n, (s.table z).hKey⟩ :=
    ⟨z, view_eq_some.mpr ⟨by rwa [hz], by rw [← hz]⟩⟩
  have hmem := (hs.listed n hn _).mp hheld
  have hone := hs.once n
  cases hl : s.layers n with
  | nil =>
    rw [hl] at hmem
    cases hmem
  | cons hKey rest =>
    rw [hl] at hmem hone
    have hrest : rest = [] := List.length_eq_zero_iff.mp (by simpa using hone)
    rw [hrest, List.mem_singleton] at hmem
    rw [hrest, hmem]

lemma Tidy.add (hs : Tidy s) {n : Word} (hn : n ≠ 0) (hno : ¬ Stored s.table n) {w : Fin tableSize}
    (hw : (s.table w).iNum = 0) (v : Volume) (hKey : HKey) :
    Tidy ⟨Function.update s.table w ⟨n, hKey⟩, v,
      Function.update s.layers n (hKey :: s.layers n)⟩ := by
  have hview := view_update s.table w (e := ⟨n, hKey⟩) hn
  have hold : ∀ z, z ≠ w → view (Function.update s.table w ⟨n, hKey⟩) z = view s.table z := by
    intro z hz
    rw [hview, Function.update_of_ne hz]
  have hnew : view (Function.update s.table w ⟨n, hKey⟩) w = some ⟨n, hKey⟩ := by
    rw [hview, Function.update_self]
  have hnot : ∀ z e, view s.table z = some e → e.iNum ≠ n := by
    intro z e hz he
    exact hno ((stored_iff hn).mpr ⟨e, ⟨z, hz⟩, he⟩)
  refine ⟨?_, ?_, ?_⟩
  · intro m hm k
    change Scheme.Holds (view (Function.update s.table w ⟨n, hKey⟩)) _ ↔
      k ∈ Function.update s.layers n (hKey :: s.layers n) m
    by_cases hmn : m = n
    · subst hmn
      rw [Function.update_self, hs.layers_nil hm hno, List.mem_singleton]
      constructor
      · rintro ⟨z, hz⟩
        by_cases hzw : z = w
        · rw [hzw, hnew] at hz
          cases hz
          rfl
        · rw [hold z hzw] at hz
          exact absurd rfl (hnot z _ hz)
      · rintro rfl
        exact ⟨w, hnew⟩
    · rw [Function.update_of_ne hmn, ← hs.listed m hm k]
      constructor
      · rintro ⟨z, hz⟩
        by_cases hzw : z = w
        · rw [hzw, hnew] at hz
          cases hz
          exact absurd rfl hmn
        · rw [hold z hzw] at hz
          exact ⟨z, hz⟩
      · rintro ⟨z, hz⟩
        have hzw : z ≠ w := by
          rintro rfl
          rw [view_eq_none.mpr hw] at hz
          cases hz
        exact ⟨z, by rw [hold z hzw, hz]⟩
  · intro m
    change (Function.update s.layers n (hKey :: s.layers n) m).length ≤ 1
    by_cases hmn : m = n
    · subst hmn
      rw [Function.update_self, hs.layers_nil hn hno, List.length_singleton]
    · rw [Function.update_of_ne hmn]
      exact hs.once m
  · intro z z' e e' hz hz' he
    by_cases hzw : z = w
    · by_cases hzw' : z' = w
      · rw [hzw, hzw']
      · rw [hold z' hzw'] at hz'
        rw [hzw, hnew] at hz
        cases hz
        exact absurd he.symm (hnot z' e' hz')
    · rw [hold z hzw] at hz
      by_cases hzw' : z' = w
      · rw [hzw', hnew] at hz'
        cases hz'
        exact absurd he (hnot z e hz)
      · rw [hold z' hzw'] at hz'
        exact hs.distinct z z' e e' hz hz' he

lemma Tidy.remove (hs : Tidy s) {n : Word} (hn : n ≠ 0) {x : Fin tableSize} (hx : (s.table x).iNum = n)
    {t' : HashTable}
    (hscan : scheme.Scan (Function.update (view s.table) x none) (ahead x 2) (view t')) (v : Volume) :
    Tidy ⟨t', v, Function.update s.layers n (s.layers n).tail⟩ := by
  have hvx : view s.table x = some (s.table x) := view_eq_some.mpr ⟨by rwa [hx], rfl⟩
  have hback : ∀ z e, Function.update (view s.table) x none z = some e ↔ z ≠ x ∧ view s.table z = some e := by
    intro z e
    by_cases hzx : z = x
    · rw [hzx, Function.update_self]
      exact iff_of_false (by simp) (fun h => h.1 rfl)
    · rw [Function.update_of_ne hzx]
      exact (and_iff_right hzx).symm
  have hd : scheme.Distinct (Function.update (view s.table) x none) := by
    intro z z' e e' hz hz'
    exact hs.distinct z z' e e' ((hback z e).mp hz).2 ((hback z' e').mp hz').2
  obtain ⟨hdist, hholds⟩ := Scheme.scan_holds hd hscan
  have htail : (s.layers n).tail = [] := by rw [hs.layers_eq hn hx, List.tail_cons]
  refine ⟨?_, ?_, hdist⟩
  · intro m hm k
    change Scheme.Holds (view t') _ ↔ k ∈ Function.update s.layers n (s.layers n).tail m
    rw [hholds]
    by_cases hmn : m = n
    · subst hmn
      rw [Function.update_self, htail]
      refine iff_of_false ?_ List.not_mem_nil
      rintro ⟨z, hz⟩
      obtain ⟨hzx, hz⟩ := (hback z _).mp hz
      exact hzx (hs.distinct z x _ _ hz hvx hx.symm)
    · rw [Function.update_of_ne hmn, ← hs.listed m hm k]
      constructor
      · rintro ⟨z, hz⟩
        exact ⟨z, ((hback z _).mp hz).2⟩
      · rintro ⟨z, hz⟩
        refine ⟨z, (hback z _).mpr ⟨?_, hz⟩⟩
        rintro rfl
        rw [hvx] at hz
        rw [Option.some.inj hz] at hx
        exact hmn hx
  · intro m
    change (Function.update s.layers n (s.layers n).tail m).length ≤ 1
    by_cases hmn : m = n
    · subst hmn
      rw [Function.update_self, htail]
      exact Nat.zero_le 1
    · rw [Function.update_of_ne hmn]
      exact hs.once m

lemma Tidy.step (hs : Tidy s) {e : SaveEvent} (hok : Saved encInode s e) (h : SaveStep encInode s e s') :
    Tidy s' := by
  cases h with
  | @encr inode hashToUse keyToUse scratch r hn hr =>
    rcases encryptFile_cases hn hr with ⟨_, rfl⟩ | ⟨w, _, hw, _, rfl⟩
    · rw [if_pos rfl]
      exact ⟨hs.listed, hs.once, hs.distinct⟩
    · have hno : ¬ Stored s.table inode.iNum := by
        intro hst
        obtain ⟨z, hz⟩ := hok hst
        exact Scheme.found_not_missing hz hw
      have hst : ¬ (w : ℤ) = errAlrEnc := (errNotFnd_ne w).symm
      dsimp only
      rw [if_neg hst]
      exact hs.add hn hno (view_eq_none.mp hw.1) _ hashToUse
  | @decr inode hashToUse keyToUse scratch r hn hr =>
    rcases decryptFile_cases hn hr with ⟨z, _, hz, _, hscan, _, hst, _⟩ | ⟨_, hst, ht, _⟩
    · rw [if_pos hst]
      exact hs.remove hn ((found_iff hn).mp hz).1 hscan _
    · have hne : r.status ≠ succRm := by
        rcases hst with hst | hst
        all_goals
          rw [hst]
          decide
      rw [if_neg hne, ht]
      exact ⟨hs.listed, hs.once, hs.distinct⟩
  | sync _ => exact ⟨hs.listed, hs.once, hs.distinct⟩
  | @load b hb =>
    obtain ⟨hsame, hdist⟩ := hok
    rw [bread_data hb] at hsame hdist
    refine ⟨fun n hn hKey => ?_, hs.once, hdist⟩
    exact (hsame ⟨n, hKey⟩).trans (hs.listed n hn hKey)

end Steps

lemma tidy_of_reach {encInode : MInode} {s : Saving} (h : (saving encInode).Reach (Saved encInode) s) :
    Tidy s := by
  refine System.Reach.invariant ?_ ?_ h
  · rintro s ⟨hl, ho, hd⟩
    exact ⟨hl, ho, hd⟩
  · exact fun _ _ _ hs hok hstep => hs.step hok hstep

/-- In runs whose reloads read a copy that is up to date, the table lists exactly the encrypted files;
a reload from such a state keeps that so exactly when the copy has the entries of the table. -/
theorem listed_of_saved (encInode : MInode) (s : Saving)
    (hreach : (saving encInode).Reach (Saved encInode) s) :
    Listed s ∧ ∀ s', SaveStep encInode s .load s' →
      (Listed s' ↔ SameEntries (loadTable (s.volume.data (encInode.iZone 0))) s.table) := by
  have hs := tidy_of_reach hreach
  refine ⟨hs.listed, ?_⟩
  rintro _ (_ | _ | _ | @⟨b, hb⟩)
  rw [bread_data hb]
  constructor
  · intro hl e
    by_cases hn : e.iNum = 0
    · exact iff_of_false (fun h => holds_ne h hn) (fun h => holds_ne h hn)
    · exact (hl e.iNum hn e.hKey).trans (hs.listed e.iNum hn e.hKey).symm
  · intro hsame n hn hKey
    exact (hsame ⟨n, hKey⟩).trans (hs.listed n hn hKey)

-- inode 126, with the saved table in block 9
def encInode : MInode := directFile 126 ![9, 0, 0, 0, 0, 0, 0, 0, 0] 1024

def unsaved : Saving := ⟨emptyTable, zeroVolume, fun _ => []⟩

lemma unsaved_init : (saving encInode).init unsaved := by
  refine ⟨?_, fun _ => Nat.zero_le 1, ?_⟩
  · intro n _ hKey
    refine iff_of_false ?_ List.not_mem_nil
    rintro ⟨z, hz⟩
    cases hz
  · rintro z z' e e' hz
    cases hz

lemma encr_denseFile : ∃ s, SaveStep encInode unsaved (.encr denseFile anyHKey) s ∧
    s.layers 7 = [anyHKey] ∧ s.volume.bread (encInode.iZone 0) = some Block.zero := by
  have hn : denseFile.iNum ≠ 0 := by decide
  have hret : ∃ r, encryptFile keyAB (fun _ => Block.zero) emptyTable zeroVolume denseFile
      ⟨7, anyHKey⟩ = .ok r :=
    encryptFile_returns sampleKey denseFile_consistent hn ⟨0, rfl⟩
  obtain ⟨r, hr⟩ := hret
  refine ⟨_, .encr hn hr, ?_⟩
  rcases encryptFile_cases hn hr with ⟨⟨z, ⟨e, he, _⟩, _⟩, _⟩ | ⟨w, s, _, hwalk, rfl⟩
  · cases he
  · obtain ⟨hs, _, hm⟩ := walk_spec denseFile_consistent hwalk
    have hst : ¬ (w : ℤ) = errAlrEnc := (errNotFnd_ne w).symm
    refine ⟨?_, ?_⟩
    · dsimp only
      rw [if_neg hst]
      exact Function.update_self (7 : Word) _ _
    · have hnot : (9 : Word) ∉ s.log := by
        rw [hs.log, List.mem_map]
        rintro ⟨j, hj, he⟩
        have hmapped := hs.mapped j (List.mem_range.mp hj)
        have hj₂ := denseFile_allocated ⟨hs.le.trans_lt' (List.mem_range.mp hj), hmapped.2.1⟩
        have : ∀ k : Fin 2, zoneAt zeroVolume denseFile k ≠ 9 := by decide
        exact this ⟨j, hj₂⟩ he
      have hdata : s.volume.data 9 = Block.zero := hs.kept 9 hnot
      have hread : s.volume.readable 9 = true := by
        rw [hs.readable]
        rfl
      change s.volume.bread 9 = _
      rw [Volume.bread, if_pos hread, hdata]

theorem listed_of_saved_denseFile : ∃ s, (saving encInode).Reach (Saved encInode) s ∧
    s.layers 7 = [anyHKey] ∧ Listed s := by
  obtain ⟨s₁, hencr, hlayers, hbread⟩ := encr_denseFile
  have hfree : Saved encInode unsaved (.encr denseFile anyHKey) := by
    rintro ⟨z, hz⟩
    cases hz
  have hreach₁ : (saving encInode).Reach (Saved encInode) s₁ := .next (.start unsaved_init) hfree hencr
  let v := s₁.volume.put (encInode.iZone 0) (saveTable s₁.table Block.zero)
  have hsync : SaveStep encInode s₁ .sync { s₁ with volume := v } := .sync hbread
  have hsynced : Saved encInode s₁ .sync := trivial
  have hreach₂ : (saving encInode).Reach (Saved encInode) { s₁ with volume := v } :=
    .next hreach₁ hsynced hsync
  have hcopy : loadTable (v.data (encInode.iZone 0)) = s₁.table := by
    rw [Volume.put_data_self, loadTable_saveTable]
  have hread : v.bread (encInode.iZone 0) = some (v.data (encInode.iZone 0)) := by
    rw [Volume.bread] at hbread ⊢
    split at hbread
    next h => exact if_pos h
    next => cases hbread
  have hsaved : Saved encInode { s₁ with volume := v } .load := by
    refine ⟨?_, ?_⟩
    · dsimp only
      rw [hcopy]
      exact fun e => Iff.rfl
    · dsimp only
      rw [hcopy]
      exact (tidy_of_reach hreach₁).distinct
  have hreach₃ := hreach₂.next hsaved (.load hread)
  exact ⟨_, hreach₃, hlayers, (listed_of_saved encInode _ hreach₃).1⟩

theorem reload_forgets :
    ¬ ∀ s s', (saving encInode).Reach (fun _ _ => True) s → SaveStep encInode s .load s' → Listed s' := by
  intro h
  obtain ⟨s, hencr, hlayers, hbread⟩ := encr_denseFile
  have hreach : (saving encInode).Reach (fun _ _ => True) s := .next (.start unsaved_init) trivial hencr
  have hlisted := h s _ hreach (.load hbread)
  have hmem : anyHKey ∈ s.layers 7 := by
    rw [hlayers]
    exact List.mem_singleton_self anyHKey
  obtain ⟨z, hz⟩ := (hlisted 7 (by decide) anyHKey).mpr hmem
  have hzero : (loadTable Block.zero z).iNum = 0 := rfl
  exact (view_eq_some.mp hz).1 hzero

end Devos.Kernel
