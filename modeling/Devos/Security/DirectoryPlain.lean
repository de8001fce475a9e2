import Devos.Security.DirectoryFrame

/-! When the directory walks read no directory that is in the table. -/

namespace Devos.Security

open Loops LinearProbing Fs Runs

/-- The directory whose entries are read is not in the table at that moment. -/
def PlainScan (s : WalkState) : Prop :=
  ∀ stack dir k, s.place = .scan stack dir k → ¬ Stored s.table dir

/-- `encr` finds its target in the table if it is there, and pushes directories that are not in the
table, each of them once; `decr` opens directories that `decrypt_file` has decrypted or that are not in
the table. -/
def MeetsPlain (q : Request) (s : WalkState) (e : WalkEvent) : Prop :=
  match q.direction with
  | .encr => (Stored s.table q.target → ∃ z, scheme.Found (view s.table) q.target z) ∧
      ∀ stack dir k d, s.place = .scan stack dir k → Reads q s dir k d → d.inode ≠ 0 →
        d.name ≠ hiddenMark → q.isDir d.inode → ¬ Stored s.table d.inode ∧ d.inode ∉ dir :: stack
  | .decr => ∀ stack dir h, s.place = .next (dir :: stack) → e = .handed dir h →
      Stored s.table dir → ∃ z, scheme.Found (view s.table) dir z ∧ (s.table z).hKey = h ∧
        ∀ z', (s.table z').iNum = dir → z' = z

def Place.Plain (q : Request) (table : HashTable) : Place → Prop
  | .file => True
  | .next stack => q.direction = .encr → stack.Nodup ∧ ∀ n ∈ stack, Stored table n →
      n = q.target ∧ ¬ ∃ z, scheme.Found (view table) n z
  | .opened _ dir => q.direction = .decr ∧ ¬ Stored table dir
  | .scan stack dir _ => ¬ Stored table dir ∧
      (q.direction = .encr → (dir :: stack).Nodup ∧ ∀ n ∈ stack, ¬ Stored table n)
  | .done => True

structure PlainWalk (q : Request) (s : WalkState) : Prop where
  dirs : s.place.Holds (fun n => n ≠ 0 ∧ q.isDir n)
  plain : s.place.Plain q s.table

section Steps

variable {q : Request} {s s' : WalkState} {keyToUse : CString} {hashToUse : HKey} {scratch : ℕ → Block}
  {n : Word} {r : FileResult}

lemma stored_encr (hd : q.direction = .encr) (hn : n ≠ 0) (hnum : (q.inodes n).iNum = n)
    (h : q.transformFile keyToUse hashToUse scratch s n = .ok r) {m : Word}
    (hst : Stored r.table m) : Stored s.table m ∨ m = n := by
  rw [Request.transformFile, hd] at h
  have h' : encryptFile keyToUse scratch s.table s.volume (q.inodes n)
      ⟨(q.inodes n).iNum, hashToUse⟩ = .ok r := by rwa [hnum]
  rcases encryptFile_cases (by rwa [hnum]) h' with ⟨_, rfl⟩ | ⟨w, _, _, _, rfl⟩
  · exact Or.inl hst
  · obtain ⟨z, hz⟩ := hst
    by_cases hzw : z = w
    · rw [hzw] at hz
      dsimp only at hz
      rw [Function.update_self] at hz
      exact Or.inr (hz.symm.trans hnum)
    · dsimp only at hz
      rw [Function.update_of_ne hzw] at hz
      exact Or.inl ⟨z, hz⟩

lemma stored_decr (hd : q.direction = .decr) (hn : n ≠ 0) (hnum : (q.inodes n).iNum = n)
    (h : q.transformFile keyToUse hashToUse scratch s n = .ok r) {m : Word} (hm : m ≠ 0)
    (hst : Stored r.table m) : Stored s.table m := by
  rw [Request.transformFile, hd] at h
  rcases decryptFile_cases (by rwa [hnum]) h with ⟨z, _, _, _, hscan, _⟩ | ⟨_, _, ht, _⟩
  · obtain ⟨y, _, hy⟩ := stored_scan hscan hm hst
    exact ⟨y, hy⟩
  · rwa [ht] at hst

lemma absent_decr (hd : q.direction = .decr) (hn : n ≠ 0) (hnum : (q.inodes n).iNum = n)
    (h : q.transformFile keyToUse hashToUse scratch s n = .ok r)
    (hok : Stored s.table n → ∃ z, scheme.Found (view s.table) n z ∧ (s.table z).hKey = hashToUse ∧
      ∀ z', (s.table z').iNum = n → z' = z) : ¬ Stored r.table n := by
  rw [Request.transformFile, hd] at h
  rcases decryptFile_cases (by rwa [hnum]) h with ⟨z, _, hz, _, hscan, _⟩ | ⟨hno, _, ht, _⟩
  · rw [hnum] at hz
    have hzn := ((found_iff hn).mp hz).1
    obtain ⟨x, _, _, hone⟩ := hok ⟨z, hzn⟩
    rw [← hone z hzn] at hone
    exact absent_after_scan hn hone hscan
  · rw [ht]
    intro hst
    obtain ⟨z, hz, hh, _⟩ := hok hst
    apply hno
    rw [hnum]
    exact ⟨z, hz, hh⟩

lemma start_plain {h : HKey} {table : HashTable} {place : Place} (ht : q.target ≠ 0)
    (hstart : q.start h table = some place) : place.Plain q table := by
  rw [Request.start] at hstart
  split_ifs at hstart with hdir
  · obtain ⟨index, hsearch, rfl⟩ := Option.map_eq_some_iff.mp hstart
    cases hd : q.direction with
    | encr =>
      dsimp only
      split_ifs with hindex
      · trivial
      · intro _
        refine ⟨List.nodup_singleton _, ?_⟩
        intro n hn _
        rw [List.mem_singleton.mp hn]
        refine ⟨rfl, ?_⟩
        rintro ⟨z, hz⟩
        rw [searchFunc_found ht hz] at hsearch
        exact hindex (Option.some.inj hsearch ▸ (errNotFnd_ne z).symm)
    | decr =>
      dsimp only
      split_ifs
      · trivial
      · trivial
      · intro he
        rw [hd] at he
        cases he
  · cases hstart
    trivial

lemma PlainWalk.step (hnum : ∀ n, (q.inodes n).iNum = n) (hs : PlainWalk q s) {e : WalkEvent}
    (hok : MeetsPlain q s e) (h : WalkStep q s e s') : PlainWalk q s' := by
  refine ⟨walkStep_holds hs.dirs (fun _ _ _ _ _ _ hne hdir => ⟨hne, hdir⟩) h, ?_⟩
  obtain ⟨hdirs, hplain⟩ := hs
  cases h with
  | file hp hh =>
    obtain ⟨_, _, _, _, rfl⟩ := hh
    trivial
  | empty hp => trivial
  | @pop stack dir hp hd _ =>
    rw [hp] at hplain
    obtain ⟨hnodup, hstored⟩ := hplain hd
    rw [MeetsPlain, hd] at hok
    have hno : ∀ n ∈ dir :: stack, ¬ Stored s.table n := by
      intro n hn hst
      obtain ⟨rfl, hmiss⟩ := hstored n hn hst
      exact hmiss (hok.1 hst)
    exact ⟨hno dir (List.mem_cons_self ..),
      fun _ => ⟨hnodup, fun n hn => hno n (List.mem_cons_of_mem _ hn)⟩⟩
  | @popDecr stack dir hKey _ hp hd hh =>
    obtain ⟨_, _, r, hr, rfl⟩ := hh
    rw [hp] at hdirs
    rw [MeetsPlain, hd] at hok
    exact ⟨hd, absent_decr hd (hdirs dir (List.mem_cons_self ..)).1 (hnum dir) hr
      (hok stack dir hKey hp rfl)⟩
  | opened hp _ =>
    rw [hp] at hplain
    refine ⟨hplain.2, fun he => ?_⟩
    rw [hplain.1] at he
    cases he
  | hidden hp _ _ _ =>
    rw [hp] at hplain
    exact hplain
  | @push stack dir k d hp hr hne hname hdir _ =>
    rw [hp] at hplain
    refine ⟨hplain.1, fun hd => ?_⟩
    obtain ⟨hnodup, hstored⟩ := hplain.2 hd
    rw [MeetsPlain, hd] at hok
    obtain ⟨hnew, hnot⟩ := hok.2 stack dir k d hp hr hne hname hdir
    rw [List.mem_cons, not_or] at hnot
    refine ⟨?_, ?_⟩
    · rw [List.nodup_cons] at hnodup ⊢
      rw [List.mem_cons, not_or, List.nodup_cons]
      exact ⟨⟨fun he => hnot.1 he.symm, hnodup.1⟩, hnot.2, hnodup.2⟩
    · intro n hn
      rcases List.mem_cons.mp hn with rfl | hn
      · exact hnew
      · exact hstored n hn
  | @entry stack dir k d hKey _ hp _ hne _ hfile hh =>
    obtain ⟨_, _, r, hr, rfl⟩ := hh
    rw [hp] at hplain hdirs
    cases hd : q.direction with
    | encr =>
      obtain ⟨hnodup, hstored⟩ := hplain.2 hd
      have hkeep : ∀ n, n ≠ 0 ∧ q.isDir n → ¬ Stored s.table n → ¬ Stored r.table n := by
        intro n hn hno hst
        rcases stored_encr hd hne (hnum _) hr hst with hst | rfl
        · exact hno hst
        · exact hfile hn.2
      exact ⟨hkeep dir hdirs.1 hplain.1, fun _ => ⟨hnodup, fun n hn =>
        hkeep n (hdirs.2.2 n hn) (hstored n hn)⟩⟩
    | decr =>
      refine ⟨fun hst => hplain.1 (stored_decr hd hne (hnum _) hr hdirs.1.1 hst), fun he => ?_⟩
      rw [hd] at he
      cases he
  | @last stack dir k d hKey _ hp _ _ hd hh =>
    obtain ⟨_, _, r, hr, rfl⟩ := hh
    rw [hp] at hplain hdirs
    intro _
    obtain ⟨hnodup, hstored⟩ := hplain.2 hd
    rw [List.nodup_cons] at hnodup
    refine ⟨hnodup.2, fun n hn hst => ?_⟩
    rcases stored_encr hd hdirs.1.1 (hnum _) hr hst with hst | rfl
    · exact absurd hst (hstored n hn)
    · exact absurd hn hnodup.1
  | @lastDecr stack dir k d hp _ _ hd =>
    intro he
    rw [hd] at he
    cases he

end Steps

/-- Calls that meet no encrypted directory on their way read the entries of a directory only while it
is not in the table. -/
theorem scans_plain (q : Request) (v : Volume) (ht : q.target ≠ 0)
    (hnum : ∀ n, (q.inodes n).iNum = n) (s : WalkState)
    (hs : (walkSystem q v).Reach (MeetsPlain q) s) : PlainScan s := by
  have hwalk : PlainWalk q s := by
    refine System.Reach.invariant ?_ ?_ hs
    · rintro s ⟨_, _, hKey, hstart⟩
      exact ⟨start_holds (fun hdir => ⟨ht, hdir⟩) hstart, start_plain ht hstart⟩
    · exact fun _ _ _ hs hok hstep => hs.step hnum hok hstep
  intro stack dir k hp
  have hplain := hwalk.plain
  rw [hp] at hplain
  exact hplain.1

-- directory 2 has the block 5 with one entry, directory 3 with the block 6
def nestedDisk : Request where
  direction := .encr
  inodes n := ⟨0o040000, 48, ![if n = 2 then 5 else if n = 3 then 6 else 0, 0, 0, 0, 0, 0, 0, 0, 0], n⟩
  target := 2

def nestedVolume : Volume :=
  fullVolume fun z => if z = 5 then (Block.zero.setWord 16 3).setByte 34 97 else Block.zero

lemma nestedDisk_consistent : Consistent nestedVolume (nestedDisk.inodes 2) := by
  have hd : Consistent nestedVolume (directFile 2 ![5, 0, 0, 0, 0, 0, 0, 0, 0] 48) :=
    consistent_direct _ 2 48 rfl rfl (by decide)
  exact ⟨hd.firstDataZone_pos, hd.nZones_lt, hd.zmap_zero, hd.used, hd.distinct⟩

def nestedTable : HashTable := Function.update emptyTable (probe 3 0) ⟨3, anyHKey⟩

def nestedStart (table : HashTable) : WalkState := ⟨table, nestedVolume, [], .next [2]⟩

theorem scans_plain_nestedDisk :
    ∃ s : WalkState, s.place = .scan [] 2 2 ∧ PlainScan s := by
  have hinit : (walkSystem nestedDisk nestedVolume).init (nestedStart emptyTable) :=
    ⟨rfl, rfl, anyHKey, rfl⟩
  have hok : MeetsPlain nestedDisk (nestedStart emptyTable) .look := by
    refine ⟨?_, ?_⟩
    · rintro ⟨z, hz⟩
      cases hz
    · intro stack dir k d hp
      cases hp
  have hreach := System.Reach.next (.start hinit) hok (.pop rfl rfl rfl)
  exact ⟨_, rfl, scans_plain nestedDisk nestedVolume (by decide) (fun _ => rfl) _ hreach⟩

theorem scans_ciphertext :
    ¬ ∀ (q : Request) (v : Volume), q.target ≠ 0 → (∀ n, (q.inodes n).iNum = n) →
      ∀ s, (walkSystem q v).Reach (fun _ _ => True) s → PlainScan s := by
  intro h
  have hinit : (walkSystem nestedDisk nestedVolume).init (nestedStart nestedTable) :=
    ⟨rfl, rfl, anyHKey, rfl⟩
  let s₁ := (nestedStart nestedTable).at (.scan [] 2 2)
  let s₂ := s₁.at (.scan [3] 2 3)
  have h₁ : WalkStep nestedDisk (nestedStart nestedTable) .look s₁ := .pop rfl rfl rfl
  have h₂ : WalkStep nestedDisk s₁ .look s₂ :=
    .push (e := ⟨3, 97⟩) rfl (fun _ => rfl) (by decide) (by decide) (by decide) (by decide)
  have hret : ∃ r, encryptFile keyAB (fun _ => Block.zero) nestedTable nestedVolume
      (nestedDisk.inodes 2) ⟨2, anyHKey⟩ = .ok r :=
    encryptFile_returns sampleKey nestedDisk_consistent (by decide) ⟨0, rfl⟩
  obtain ⟨r, hr⟩ := hret
  have h₃ : WalkStep nestedDisk s₂ (.handed 2 anyHKey) (s₂.after r (.next [3])) :=
    .last (e := ⟨0, 0⟩) rfl (fun _ => rfl) rfl rfl ⟨keyAB, fun _ => Block.zero, r, hr, rfl⟩
  have hkept : Stored r.table 3 ∧ r.volume.readable = nestedVolume.readable := by
    rcases encryptFile_cases (by decide) hr with ⟨_, rfl⟩ | ⟨w, s, hw, hwalk, rfl⟩
    · exact ⟨⟨probe 3 0, rfl⟩, rfl⟩
    · obtain ⟨hs, _⟩ := walk_spec nestedDisk_consistent hwalk
      refine ⟨⟨probe 3 0, ?_⟩, hs.readable⟩
      have hne : probe 3 0 ≠ w := by
        rintro rfl
        exact absurd (view_eq_none.mp hw.1) (by decide)
      dsimp only
      rw [Function.update_of_ne hne]
      rfl
  have h₄ : WalkStep nestedDisk (s₂.after r (.next [3])) .look
      ((s₂.after r (.next [3])).at (.scan [] 3 2)) := by
    refine .pop rfl rfl ?_
    change r.volume.readable _ = true
    rw [hkept.2]
    rfl
  have hreach : (walkSystem nestedDisk nestedVolume).Reach (fun _ _ => True)
      ((s₂.after r (.next [3])).at (.scan [] 3 2)) :=
    .next (.next (.next (.next (.start hinit) trivial h₁) trivial h₂) trivial h₃) trivial h₄
  exact h nestedDisk nestedVolume (by decide) (fun _ => rfl) _ hreach [] 3 2 rfl hkept.1

end Devos.Security
