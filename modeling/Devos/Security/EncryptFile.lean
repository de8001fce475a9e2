import Devos.Security.Files
import Devos.Security.Transposition

/-! Which files `encrypt_file` encrypts completely. -/

namespace Devos.Security

open Loops LinearProbing Fs

/-- Every allocated data block has been encrypted exactly once and the inode is in the table, or
nothing has changed. -/
def AllOrNothing (keyToUse : CString) (scratch : ℕ → Block) (table : HashTable) (v : Volume)
    (inode : MInode) (r : FileResult) : Prop :=
  (Stored r.table inode.iNum ∧ ∀ i, Allocated v inode i →
      r.log.count (zoneAt v inode i) = 1 ∧
        encryptBlock keyToUse (scratch i) (v.data (zoneAt v inode i)) (v.data (zoneAt v inode i)) =
          .ok (r.volume.data (zoneAt v inode i))) ∨
    r.log = [] ∧ r.volume = v ∧ r.table = table

section

variable {transform : ℕ → Block → Except Fault Block} {v : Volume} {inode : MInode}

lemma Walked.count_eq_one (hc : Consistent v inode) {s : Walk} (hs : Walked transform v inode s)
    {i : ℕ} (hi : i < s.i) : s.log.count (zoneAt v inode i) = 1 := by
  rw [hs.log]
  apply List.count_eq_one_of_mem
  · rw [List.nodup_map_iff_inj_on List.nodup_range]
    intro j hj k hk he
    have hj := List.mem_range.mp hj
    have hk := List.mem_range.mp hk
    exact zone_injective hc (hj.trans_le hs.le) (hk.trans_le hs.le) (hs.mapped j hj).2.1 he
  · exact List.mem_map_of_mem (List.mem_range.mpr hi)

lemma Walked.count_eq_zero (hc : Consistent v inode) {s : Walk} (hs : Walked transform v inode s)
    {i : ℕ} (hi : s.i ≤ i) (ha : Allocated v inode i) : s.log.count (zoneAt v inode i) = 0 := by
  rw [List.count_eq_zero, hs.log, List.mem_map]
  rintro ⟨j, hj, he⟩
  have hj := List.mem_range.mp hj
  have := zone_injective hc ha.1 (hj.trans_le hs.le) ha.2 he.symm
  omega

lemma Walked.all_iff {s : Walk} (hs : Walked transform v inode s) (hm : ¬ Mapped v inode s.i) :
    (∀ i, Allocated v inode i → i < s.i) ↔
      ∀ i, Allocated v inode i → ∀ j, j ≤ i → Mapped v inode j :=
  forall₂_congr fun _ _ => hs.reaches_iff hm

end

lemma encryptFile_cases {keyToUse : CString} {scratch : ℕ → Block} {table : HashTable} {v : Volume}
    {inode : MInode} {hKey : HKey} (hn : inode.iNum ≠ 0) {r : FileResult}
    (h : encryptFile keyToUse scratch table v inode ⟨inode.iNum, hKey⟩ = .ok r) :
    ((∃ z, scheme.Found (view table) inode.iNum z) ∧ r = ⟨errAlrEnc, table, v, []⟩) ∨
      ∃ (w : Fin tableSize) (s : Walk), scheme.Missing (view table) inode.iNum w ∧
        walk (fun i b => encryptBlock keyToUse (scratch i) b b) v inode = .ok s ∧
        r = ⟨w, Function.update table w ⟨inode.iNum, hKey⟩, s.volume, s.log⟩ := by
  rw [encryptFile] at h
  cases hadd : addFunc table ⟨inode.iNum, hKey⟩ with
  | none =>
    rw [hadd] at h
    cases h
  | some res =>
    obtain ⟨status, table'⟩ := res
    rw [hadd] at h
    rcases addFunc_cases hn hadd with ⟨w, hw, rfl, rfl⟩ | ⟨z, hz, rfl, rfl⟩
    · have hne : ¬ (w : ℤ) = errAlrEnc := (errNotFnd_ne w).symm
      simp only [if_neg hne] at h
      cases hwalk : walk (fun i b => encryptBlock keyToUse (scratch i) b b) v inode with
      | error f =>
        rw [hwalk] at h
        cases h
      | ok s =>
        rw [hwalk] at h
        cases h
        exact Or.inr ⟨w, s, hw, rfl, rfl⟩
    · simp only [if_true] at h
      cases h
      exact Or.inl ⟨⟨z, hz⟩, rfl⟩

lemma decryptFile_cases {keyToUse : CString} {hashToUse : HKey} {scratch : ℕ → Block}
    {table : HashTable} {v : Volume} {inode : MInode} (hn : inode.iNum ≠ 0) {r : FileResult}
    (h : decryptFile keyToUse hashToUse scratch table v inode = .ok r) :
    (∃ (z : Fin tableSize) (s : Walk), scheme.Found (view table) inode.iNum z ∧
        (table z).hKey = hashToUse ∧
        scheme.Scan (Function.update (view table) z none) (ahead z 2) (view r.table) ∧
        walk (fun i b => decryptBlock keyToUse (scratch i) b b) v inode = .ok s ∧
        r.status = succRm ∧ r.volume = s.volume ∧ r.log = s.log) ∨
      (¬ ∃ z, scheme.Found (view table) inode.iNum z ∧ (table z).hKey = hashToUse) ∧
        (r.status = -einval ∨ r.status = errRm) ∧ r.table = table ∧ r.volume = v ∧ r.log = [] := by
  rw [decryptFile] at h
  cases hr : removeFunc table inode.iNum hashToUse with
  | none =>
    rw [hr] at h
    cases h
  | some res =>
    obtain ⟨status, table'⟩ := res
    rw [hr] at h
    rcases removeFunc_cases hn hr with ⟨z, hz, hh, rfl, hscan⟩ | ⟨z, hz, hh, rfl, rfl⟩ |
      ⟨w, hw, rfl, rfl⟩
    · have h₁ : ¬ succRm = -einval := by decide
      have h₂ : ¬ succRm = errRm := by decide
      simp only [if_neg h₁, if_neg h₂] at h
      cases hwalk : walk (fun i b => decryptBlock keyToUse (scratch i) b b) v inode with
      | error f =>
        rw [hwalk] at h
        cases h
      | ok s =>
        rw [hwalk] at h
        cases h
        exact Or.inl ⟨z, s, hz, hh, hscan, rfl, rfl, rfl, rfl⟩
    · simp only [if_true] at h
      cases h
      refine Or.inr ⟨?_, Or.inl rfl, rfl, rfl, rfl⟩
      rintro ⟨z', hz', hh'⟩
      have hzz : z = z' := Scheme.found_unique hz hz'
      exact hh (hzz ▸ hh')
    · have h₁ : ¬ errRm = -einval := by decide
      simp only [if_neg h₁, if_true] at h
      cases h
      refine Or.inr ⟨?_, Or.inr rfl, rfl, rfl, rfl⟩
      rintro ⟨z, hz, _⟩
      exact Scheme.found_not_missing hz hw

/-- `encrypt_file` is all or nothing exactly when the file is in the table already or has no hole
and no unreadable block before an allocated one. -/
theorem encryptFile_allOrNothing_iff {keyToUse : CString} {scratch : ℕ → Block} {table : HashTable}
    {v : Volume} {inode : MInode} {hKey : HKey} {r : FileResult} (hc : Consistent v inode)
    (hn : inode.iNum ≠ 0)
    (h : encryptFile keyToUse scratch table v inode ⟨inode.iNum, hKey⟩ = .ok r) :
    AllOrNothing keyToUse scratch table v inode r ↔
      (∃ z, scheme.Found (view table) inode.iNum z) ∨
        ∀ i, Allocated v inode i → ∀ j, j ≤ i → Mapped v inode j := by
  rcases encryptFile_cases hn h with ⟨hfound, rfl⟩ | ⟨w, s, hw, hwalk, rfl⟩
  · exact iff_of_true (Or.inr ⟨rfl, rfl, rfl⟩) (Or.inl hfound)
  · obtain ⟨hs, _, hm⟩ := walk_spec hc hwalk
    have hw' : (Function.update table w ⟨inode.iNum, hKey⟩ w).iNum = inode.iNum := by
      rw [Function.update_self]
    have hnot : ¬ ∃ z, scheme.Found (view table) inode.iNum z :=
      fun ⟨_, hz⟩ => Scheme.found_not_missing hz hw
    rw [or_iff_right hnot, ← hs.all_iff hm]
    constructor
    · rintro (⟨_, hall⟩ | ⟨_, _, htable⟩)
      · intro i ha
        by_contra hge
        have hone := (hall i ha).1
        have hzero := hs.count_eq_zero hc (not_lt.mp hge) ha
        dsimp only at hone
        omega
      · dsimp only at htable
        rw [htable, view_eq_none.mp hw.1] at hw'
        exact absurd hw'.symm hn
    · intro hall
      refine Or.inl ⟨⟨w, hw'⟩, fun i ha => ?_⟩
      exact ⟨hs.count_eq_one hc (hall i ha), hs.transformed i (hall i ha)⟩

theorem encryptFile_returns (key : Key) {scratch : ℕ → Block} {table : HashTable} {v : Volume}
    {inode : MInode} {hKey : HKey} (hc : Consistent v inode) (hn : inode.iNum ≠ 0)
    (hfree : ∃ z, (table z).iNum = 0) :
    ∃ r, encryptFile key.toCString scratch table v inode ⟨inode.iNum, hKey⟩ = .ok r := by
  obtain ⟨f, hf⟩ := hfree
  have hadd : ∃ status table', addFunc table ⟨inode.iNum, hKey⟩ = some (status, table') := by
    rcases found_or_missing (t := table) hn ⟨f, Or.inr hf⟩ with ⟨z, hz⟩ | ⟨w, hw⟩
    · exact ⟨_, _, addFunc_found (e := ⟨inode.iNum, hKey⟩) hn hz⟩
    · exact ⟨_, _, addFunc_missing (e := ⟨inode.iNum, hKey⟩) hn hw⟩
  obtain ⟨status, table', hadd⟩ := hadd
  have hwalk : ∃ s, walk (fun i b => encryptBlock key.toCString (scratch i) b b) v inode = .ok s :=
    walk_returns hc (fun i b => ⟨_, encryptBlock_eq key (scratch i) b b⟩)
  obtain ⟨s, hs⟩ := hwalk
  rw [encryptFile, hadd]
  by_cases hst : status = errAlrEnc
  · exact ⟨⟨status, table', v, []⟩, by simp only [if_pos hst]⟩
  · exact ⟨⟨status, table', s.volume, s.log⟩, by simp only [if_neg hst, hs, Except.map]⟩

theorem decryptFile_returns (key : Key) {hashToUse : HKey} {scratch : ℕ → Block} {table : HashTable}
    {v : Volume} {inode : MInode} (hc : Consistent v inode) (hn : inode.iNum ≠ 0)
    (hz : ∃ z, scheme.Found (view table) inode.iNum z ∧ (table z).hKey = hashToUse) :
    ∃ r, decryptFile key.toCString hashToUse scratch table v inode = .ok r ∧ r.status = succRm := by
  obtain ⟨z, hz, hh⟩ := hz
  obtain ⟨t', hr, _⟩ := removeFunc_found hn hz hh
  have hwalk : ∃ s, walk (fun i b => decryptBlock key.toCString (scratch i) b b) v inode = .ok s :=
    walk_returns hc (fun i b => ⟨_, decryptBlock_eq key (scratch i) b b⟩)
  obtain ⟨s, hs⟩ := hwalk
  have h₁ : ¬ succRm = -einval := by decide
  have h₂ : ¬ succRm = errRm := by decide
  refine ⟨⟨succRm, t', s.volume, s.log⟩, ?_, rfl⟩
  simp only [decryptFile, hr, if_neg h₁, if_neg h₂, hs, Except.map]

def zeroVolume : Volume := fullVolume (fun _ => Block.zero)

def denseFile : MInode := directFile 7 ![5, 6, 0, 0, 0, 0, 0, 0, 0] 2048

lemma denseFile_consistent : Consistent zeroVolume denseFile :=
  consistent_direct _ 7 2048 rfl rfl (by decide)

lemma denseFile_allocated {i : ℕ} (h : Allocated zeroVolume denseFile i) : i < 2 := by
  obtain ⟨hi, hz⟩ := h
  by_contra hge
  apply hz
  by_cases h₁ : i < 7
  · have : ∀ k : Fin 7, 2 ≤ k.val → zoneAt zeroVolume denseFile k = 0 := by decide
    exact this ⟨i, h₁⟩ (not_lt.mp hge)
  · by_cases h₂ : i - 7 < 512
    · rw [zoneAt_single h₁ h₂]
      rfl
    · rw [zoneAt_leaf hi h₁ h₂]
      rfl

theorem encryptFile_allOrNothing_denseFile :
    ∃ r, encryptFile keyAB (fun _ => Block.zero) emptyTable zeroVolume denseFile ⟨7, anyHKey⟩ = .ok r ∧
      AllOrNothing keyAB (fun _ => Block.zero) emptyTable zeroVolume denseFile r := by
  have hret : ∃ r, encryptFile keyAB (fun _ => Block.zero) emptyTable zeroVolume denseFile
      ⟨7, anyHKey⟩ = .ok r :=
    encryptFile_returns sampleKey denseFile_consistent (by decide) ⟨0, rfl⟩
  obtain ⟨r, hr⟩ := hret
  refine ⟨r, hr, (encryptFile_allOrNothing_iff denseFile_consistent (by decide) hr).mpr (Or.inr ?_)⟩
  intro i hi j hj
  have hlt := denseFile_allocated hi
  have : ∀ k : Fin 2, Mapped zeroVolume denseFile k := by decide
  exact this ⟨j, by omega⟩

def sparseFile : MInode := directFile 7 ![5, 0, 6, 0, 0, 0, 0, 0, 0] 3072

lemma sparseFile_consistent : Consistent zeroVolume sparseFile :=
  consistent_direct _ 7 3072 rfl rfl (by decide)

theorem encryptFile_stops_at_hole :
    ¬ ∀ (keyToUse : CString) (scratch : ℕ → Block) (table : HashTable) (v : Volume) (inode : MInode)
      (hKey : HKey) (r : FileResult), Consistent v inode → inode.iNum ≠ 0 →
      encryptFile keyToUse scratch table v inode ⟨inode.iNum, hKey⟩ = .ok r →
      AllOrNothing keyToUse scratch table v inode r := by
  intro h
  have hret : ∃ r, encryptFile keyAB (fun _ => Block.zero) emptyTable zeroVolume sparseFile
      ⟨7, anyHKey⟩ = .ok r :=
    encryptFile_returns sampleKey sparseFile_consistent (by decide) ⟨0, rfl⟩
  obtain ⟨r, hr⟩ := hret
  have hall := h _ _ _ _ _ _ r sparseFile_consistent (by decide) hr
  rcases encryptFile_cases (by decide) hr with ⟨⟨z, hz⟩, _⟩ | ⟨w, s, hw, hwalk, rfl⟩
  · obtain ⟨⟨e, he, _⟩, _⟩ := hz
    cases he
  · obtain ⟨hs, _, hm⟩ := walk_spec sparseFile_consistent hwalk
    have hle : s.i ≤ 1 := by
      by_contra hlt
      exact absurd (hs.mapped 1 (not_le.mp hlt)) (by decide)
    have ha : Allocated zeroVolume sparseFile 2 := ⟨by decide, by decide⟩
    have hzero := hs.count_eq_zero sparseFile_consistent (show s.i ≤ 2 by omega) ha
    rcases hall with ⟨_, hall⟩ | ⟨_, _, htable⟩
    · have hone := (hall 2 ha).1
      dsimp only at hone
      omega
    · have hw' := congrFun htable w
      dsimp only at hw'
      rw [Function.update_self] at hw'
      have hnum : (7 : Word) = 0 := congrArg EDir.iNum hw'
      exact absurd hnum (by decide)

end Devos.Security
