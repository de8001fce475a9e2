import Devos.Security.Directory

/-! Which blocks of the device a call of `sys_encr` or `sys_decr` touches. -/

namespace Devos.Security

open Loops Fs Runs

/-- The zones of a regular file or a directory are blocks; `i_zone[0]` of any other inode is a device
number. -/
def Request.HasBlocks (q : Request) (n : Word) : Prop :=
  sIsReg (q.inodes n).iMode = true ∨ sIsDir (q.inodes n).iMode = true

/-- The inodes of the named tree. `entries` lists what each directory holds, with `.` and `..` in the
first two places. -/
inductive InTree (q : Request) (entries : Word → ℕ → DirEntry) : Word → Prop
  | target : InTree q entries q.target
  | entry {dir k} : InTree q entries dir → q.isDir dir → 2 ≤ k → (entries dir k).inode ≠ 0 →
      InTree q entries (entries dir k).inode

def TreeBlock (q : Request) (entries : Word → ℕ → DirEntry) (v : Volume) (z : Word) : Prop :=
  ∃ n, InTree q entries n ∧ q.HasBlocks n ∧
    ∃ i, Allocated v (q.inodes n) i ∧ zoneAt v (q.inodes n) i = z

/-- No two files share a block, and an inode without blocks has nothing behind its device number. -/
structure WellFormed (q : Request) (v : Volume) : Prop where
  target_ne : q.target ≠ 0
  number : ∀ n, (q.inodes n).iNum = n
  consistent : ∀ n, q.HasBlocks n → Consistent v (q.inodes n)
  unshared : ∀ n m r r', q.HasBlocks n → q.HasBlocks m → refAt v (q.inodes n) r ≠ 0 →
    refAt v (q.inodes n) r = refAt v (q.inodes m) r' → n = m
  device : ∀ n, ¬ q.HasBlocks n → ∀ k, k ≠ 0 → (q.inodes n).iZone k = 0

/-- What is handed over is turned away by the table, or has no readable first block, or is a regular
file or directory of the tree, or its device number is also the number of a block of the tree. -/
def StaysInside (q : Request) (entries : Word → ℕ → DirEntry) (v : Volume) (s : WalkState) :
    WalkEvent → Prop
  | .look => True
  | .handed n h => Refused q s.table n h ∨ ¬ Mapped s.volume (q.inodes n) 0 ∨
      q.HasBlocks n ∧ InTree q entries n ∨ ¬ q.HasBlocks n ∧ TreeBlock q entries v (q.dirBlock n)

/-- A directory is scanned only within a block that holds its own entries, and what is handed over is
no special file. -/
def Legible (q : Request) (entries : Word → ℕ → DirEntry) (s : WalkState) (e : WalkEvent) : Prop :=
  (∀ stack dir k, s.place = .scan stack dir k → k < dirEntriesPerBlock ∧
    dirEntry (s.volume.data (q.dirBlock dir)) k = entries dir k) ∧
  ∀ n h, e = .handed n h → q.HasBlocks n

def Place.Holds (P : Word → Prop) : Place → Prop
  | .file => True
  | .next stack => ∀ n ∈ stack, P n
  | .opened stack dir => P dir ∧ ∀ n ∈ stack, P n
  | .scan stack dir k => P dir ∧ 2 ≤ k ∧ ∀ n ∈ stack, P n
  | .done => True

section Steps

variable {q : Request} {s s' : WalkState} {e : WalkEvent}

lemma walkStep_look (h : WalkStep q s .look s') : s'.volume = s.volume ∧ s'.log = s.log := by
  cases h <;> exact ⟨rfl, rfl⟩

lemma walkStep_handed {n : Word} {h : HKey} (hstep : WalkStep q s (.handed n h) s') :
    (n = q.target ∨ (∀ P, s.place.Holds P → P n) ∨ ∃ stack dir k e, s.place = .scan stack dir k ∧
      Reads q s dir k e ∧ e.inode ≠ 0 ∧ e.inode = n) ∧ ∃ place, Hands q s n h place s' := by
  cases hstep with
  | file _ hh => exact ⟨Or.inl rfl, _, hh⟩
  | popDecr hp _ hh =>
    refine ⟨Or.inr (Or.inl fun P hP => ?_), _, hh⟩
    rw [hp] at hP
    exact hP n (List.mem_cons_self ..)
  | entry hp hr hne _ _ hh => exact ⟨Or.inr (Or.inr ⟨_, _, _, _, hp, hr, hne, rfl⟩), _, hh⟩
  | last hp _ _ _ hh =>
    refine ⟨Or.inr (Or.inl fun P hP => ?_), _, hh⟩
    rw [hp] at hP
    exact hP.1

lemma walkStep_holds {P : Word → Prop} (hs : s.place.Holds P)
    (hpush : ∀ stack dir k e, s.place = .scan stack dir k → Reads q s dir k e → e.inode ≠ 0 →
      q.isDir e.inode → P e.inode)
    (h : WalkStep q s e s') : s'.place.Holds P := by
  cases h with
  | file _ hh =>
    obtain ⟨_, _, _, _, rfl⟩ := hh
    trivial
  | empty _ => trivial
  | pop hp _ _ =>
    rw [hp] at hs
    exact ⟨hs _ (List.mem_cons_self ..), le_refl 2, fun n hn => hs n (List.mem_cons_of_mem _ hn)⟩
  | popDecr hp _ hh =>
    obtain ⟨_, _, _, _, rfl⟩ := hh
    rw [hp] at hs
    exact ⟨hs _ (List.mem_cons_self ..), fun n hn => hs n (List.mem_cons_of_mem _ hn)⟩
  | opened hp _ =>
    rw [hp] at hs
    exact ⟨hs.1, le_refl 2, hs.2⟩
  | hidden hp _ _ _ =>
    rw [hp] at hs
    exact ⟨hs.1, hs.2.1.trans (Nat.le_succ _), hs.2.2⟩
  | push hp hr hne _ hdir _ =>
    have hnew := hpush _ _ _ _ hp hr hne hdir
    rw [hp] at hs
    refine ⟨hs.1, hs.2.1.trans (Nat.le_succ _), ?_⟩
    intro n hn
    rcases List.mem_cons.mp hn with rfl | hn
    · exact hnew
    · exact hs.2.2 n hn
  | entry hp _ _ _ _ hh =>
    obtain ⟨_, _, _, _, rfl⟩ := hh
    rw [hp] at hs
    exact ⟨hs.1, hs.2.1.trans (Nat.le_succ _), hs.2.2⟩
  | last hp _ _ _ hh =>
    obtain ⟨_, _, _, _, rfl⟩ := hh
    rw [hp] at hs
    exact hs.2.2
  | lastDecr hp _ _ _ =>
    rw [hp] at hs
    exact hs.2.2

lemma start_holds {P : Word → Prop} (hP : q.isDir q.target → P q.target) {h : HKey}
    {table : HashTable} {place : Place} (hstart : q.start h table = some place) : place.Holds P := by
  rw [Request.start] at hstart
  split_ifs at hstart with hdir
  · have hone : ∀ n ∈ [q.target], P n := by
      intro n hn
      rw [List.mem_singleton.mp hn]
      exact hP hdir
    obtain ⟨index, _, rfl⟩ := Option.map_eq_some_iff.mp hstart
    cases q.direction with
    | encr =>
      dsimp only
      split_ifs
      · trivial
      · exact hone
    | decr =>
      dsimp only
      split_ifs
      · trivial
      · trivial
      · exact hone
  · cases hstart
    trivial

end Steps

section Blocks

variable {transform : ℕ → Block → Except Fault Block} {v : Volume} {inode : MInode} {w : Walk}

structure WalkLog (v : Volume) (inode : MInode) (w : Walk) : Prop where
  same : w.volume = { v with data := w.volume.data }
  kept : ∀ z, z ∉ w.log → w.volume.data z = v.data z
  first : Mapped v inode 0 → inode.iZone 0 ∈ w.log
  none : ¬ Mapped v inode 0 → w.log = []

lemma walkLog_of_consistent (hc : Consistent v inode) (h : walk transform v inode = .ok w) :
    WalkLog v inode w ∧ ∀ z ∈ w.log, ∃ i, Allocated v inode i ∧ zoneAt v inode i = z := by
  obtain ⟨hw, hlt, hstop⟩ := walk_spec hc h
  have hlog : ∀ z, z ∈ w.log ↔ ∃ i, i < w.i ∧ zoneAt v inode i = z := by
    intro z
    rw [hw.log, List.mem_map]
    simp only [List.mem_range]
  refine ⟨⟨hw.same, hw.kept, ?_, ?_⟩, ?_⟩
  · intro hm
    exact (hlog _).mpr ⟨0, (hw.reaches_first hstop).mpr hm, rfl⟩
  · intro hm
    have h₀ : w.i = 0 := by
      by_contra hne
      exact hm (hw.mapped 0 (Nat.pos_of_ne_zero hne))
    rw [hw.log, h₀]
    rfl
  · intro z hz
    obtain ⟨i, hi, rfl⟩ := (hlog z).mp hz
    exact ⟨i, ⟨hi.trans_le hw.le, (hw.mapped i hi).2.1⟩, rfl⟩

lemma walkLog_of_device (hdev : ∀ k, k ≠ 0 → inode.iZone k = 0) (h : walk transform v inode = .ok w) :
    WalkLog v inode w ∧ ∀ z ∈ w.log, z = inode.iZone 0 := by
  have hzero : ∀ u : Volume, bmap u inode 0 = .ok (inode.iZone 0) := fun u => rfl
  have hone : ∀ u : Volume, bmap u inode 1 = .ok 0 := fun u => congrArg Except.ok (hdev 1 (by decide))
  have hmapped : Mapped v inode 0 ↔ ¬ (inode.iZone 0 = 0 ∨ ¬ v.readable (inode.iZone 0) = true) := by
    rw [not_or, not_not, ← mapped_of_bmap (hzero v)]
  rw [walk] at h
  by_cases hm : Mapped v inode 0
  · cases ht : transform 0 (v.data (inode.iZone 0)) with
    | error f =>
      have hleave : walkBody transform inode (walkStart v) = .leave (.error f) := by
        rw [walkBody]
        simp only [walkStart, hzero, if_neg (hmapped.mp hm), ht]
      rw [iterate_leave hleave] at h
      cases h
    | ok b =>
      let s : Walk := ⟨1, v.put (inode.iZone 0) b, [inode.iZone 0]⟩
      have hgo : walkBody transform inode (walkStart v) = .again s := by
        rw [walkBody]
        simp only [walkStart, hzero, if_neg (hmapped.mp hm), ht]
        rfl
      have hleave : walkBody transform inode s = .leave (.ok s) := by
        rw [walkBody]
        simp only [s, hone, true_or, if_true]
      rw [iterate_again hgo, iterate_leave hleave, Option.getD_some] at h
      have hws : s = w := Except.ok.inj h
      rw [← hws]
      refine ⟨⟨rfl, ?_, fun _ => List.mem_singleton_self _, fun hn => absurd hm hn⟩, ?_⟩
      · intro z hz
        exact Volume.put_data_of_ne _ _ (fun he => hz (List.mem_singleton.mpr he))
      · intro z hz
        exact List.mem_singleton.mp hz
  · have hstop := not_not.mp (mt hmapped.mpr hm)
    have hleave : walkBody transform inode (walkStart v) = .leave (.ok (walkStart v)) := by
      rw [walkBody]
      simp only [walkStart, hzero]
      exact if_pos hstop
    rw [iterate_leave hleave] at h
    cases h
    exact ⟨⟨rfl, fun _ _ => rfl, fun hn => absurd hn hm, fun _ => rfl⟩, fun z hz => by cases hz⟩

end Blocks

section Frame

variable {q : Request} {entries : Word → ℕ → DirEntry} {v : Volume} {s s' : WalkState} {e : WalkEvent}

structure Framed (q : Request) (entries : Word → ℕ → DirEntry) (v : Volume) (s : WalkState) : Prop where
  same : s.volume = { v with data := s.volume.data }
  log : ∀ z ∈ s.log, TreeBlock q entries v z
  kept : ∀ z, ¬ TreeBlock q entries v z → s.volume.data z = v.data z
  nonzero : s.place.Holds (· ≠ 0)

lemma Framed.refAt_eq (hw : WellFormed q v) (hs : Framed q entries v s) {n : Word} (hn : q.HasBlocks n)
    (r : Ref) : refAt s.volume (q.inodes n) r = refAt v (q.inodes n) r := by
  refine refAt_congr ?_ r
  intro r' hr' h₀
  refine hs.kept _ ?_
  rintro ⟨m, _, hm, i, _, hi⟩
  have hnm := hw.unshared n m r' (blockRef i) hn hm h₀ hi.symm
  subst hnm
  have hr := (hw.consistent n hn).distinct r' (blockRef i) h₀ hi.symm
  exact hr' (hr ▸ blockRef_isData i)

lemma Framed.consistent (hw : WellFormed q v) (hs : Framed q entries v s) {n : Word}
    (hn : q.HasBlocks n) : Consistent s.volume (q.inodes n) :=
  consistent_congr (hw.consistent n hn) hs.same (hs.refAt_eq hw hn)

lemma hands_iff (hw : WellFormed q v) (hs : Framed q entries v s) {n : Word} (hn : n ≠ 0) {h : HKey}
    {place : Place} (hh : Hands q s n h place s') :
    ((∀ z ∈ s'.log, TreeBlock q entries v z) ↔ StaysInside q entries v s (.handed n h)) ∧
      s'.volume = { v with data := s'.volume.data } ∧
      ∀ z, z ∉ s'.log → s'.volume.data z = s.volume.data z := by
  obtain ⟨keyToUse, scratch, r, hr, rfl⟩ := hh
  have hlog : (∀ z ∈ (s.after r place).log, TreeBlock q entries v z) ↔
      ∀ z ∈ r.log, TreeBlock q entries v z := by
    constructor
    · exact fun hall z hz => hall z (List.mem_append_right _ hz)
    · intro hall z hz
      exact (List.mem_append.mp hz).elim (hs.log z) (hall z)
  have hnotin : ∀ z, z ∉ (s.after r place).log → z ∉ r.log :=
    fun z hz hmem => hz (List.mem_append_right _ hmem)
  rw [hlog]
  rcases transformFile_cases hn (hw.number n) hr with ⟨href, hv, hnil⟩ | ⟨hnot, t, w, hwalk, hv, hl⟩
  · refine ⟨iff_of_true ?_ (Or.inl href), ?_, ?_⟩
    · rw [hnil]
      exact fun z hz => absurd hz (List.not_mem_nil)
    · change r.volume = { v with data := r.volume.data }
      rw [hv]
      exact hs.same
    · intro z _
      exact congrFun (congrArg Volume.data hv) z
  · have hframe : WalkLog s.volume (q.inodes n) w →
        r.volume = { v with data := r.volume.data } ∧
          ∀ z, z ∉ (s.after r place).log → r.volume.data z = s.volume.data z := by
      intro hw'
      refine ⟨?_, ?_⟩
      · rw [hv]
        exact hw'.same.trans (congrArg (fun u : Volume => { u with data := w.volume.data }) hs.same)
      · intro z hz
        rw [hv]
        exact hw'.kept z (hl ▸ hnotin z hz)
    by_cases hb : q.HasBlocks n
    · obtain ⟨hw', hall⟩ := walkLog_of_consistent (hs.consistent hw hb) hwalk
      refine ⟨?_, hframe hw'⟩
      have hdata : ∀ z ∈ w.log, ∃ i, Allocated v (q.inodes n) i ∧ zoneAt v (q.inodes n) i = z := by
        intro z hz
        obtain ⟨i, ⟨hi, h₀⟩, hzi⟩ := hall z hz
        rw [zoneAt, hs.refAt_eq hw hb] at h₀ hzi
        exact ⟨i, ⟨hi, h₀⟩, hzi⟩
      rw [hl, StaysInside]
      constructor
      · intro htree
        by_cases hm : Mapped s.volume (q.inodes n) 0
        · have hz := hw'.first hm
          obtain ⟨m, hm', hbm, i, _, hi⟩ := htree _ hz
          have hnm := hw.unshared n m (.zone 0) (blockRef i) hb hbm hm.2.1 hi.symm
          exact Or.inr (Or.inr (Or.inl ⟨hb, hnm ▸ hm'⟩))
        · exact Or.inr (Or.inl hm)
      · rintro (href | hm | ⟨_, hin⟩ | ⟨hnb, _⟩) z hz
        · exact absurd href hnot
        · rw [hw'.none hm] at hz
          cases hz
        · obtain ⟨i, hi⟩ := hdata z hz
          exact ⟨n, hin, hb, i, hi⟩
        · exact absurd hb hnb
    · obtain ⟨hw', hall⟩ := walkLog_of_device (hw.device n hb) hwalk
      refine ⟨?_, hframe hw'⟩
      rw [hl, StaysInside]
      constructor
      · intro htree
        by_cases hm : Mapped s.volume (q.inodes n) 0
        · exact Or.inr (Or.inr (Or.inr ⟨hb, htree _ (hw'.first hm)⟩))
        · exact Or.inr (Or.inl hm)
      · rintro (href | hm | ⟨hb', _⟩ | ⟨_, htree⟩) z hz
        · exact absurd href hnot
        · rw [hw'.none hm] at hz
          cases hz
        · exact absurd hb' hb
        · rw [hall z hz]
          exact htree

lemma framed_step (hw : WellFormed q v) (hs : Framed q entries v s) (h : WalkStep q s e s') :
    ((∀ z ∈ s'.log, TreeBlock q entries v z) ↔ StaysInside q entries v s e) ∧
      (StaysInside q entries v s e → Framed q entries v s') := by
  have hholds : s'.place.Holds (· ≠ 0) := walkStep_holds hs.nonzero (fun _ _ _ _ _ _ hne _ => hne) h
  cases e with
  | look =>
    obtain ⟨hv, hl⟩ := walkStep_look h
    refine ⟨iff_of_true ?_ trivial, fun _ => ⟨?_, ?_, ?_, hholds⟩⟩
    · rw [hl]
      exact hs.log
    · rw [hv]
      exact hs.same
    · rw [hl]
      exact hs.log
    · rw [hv]
      exact hs.kept
  | handed n hKey =>
    obtain ⟨hwho, place, hh⟩ := walkStep_handed h
    have hn : n ≠ 0 := by
      rcases hwho with rfl | hP | ⟨_, _, _, _, _, _, hne, rfl⟩
      · exact hw.target_ne
      · exact hP _ hs.nonzero
      · exact hne
    obtain ⟨hiff, hsame, hkept⟩ := hands_iff hw hs hn hh
    refine ⟨hiff, fun hin => ⟨hsame, hiff.mpr hin, ?_, hholds⟩⟩
    intro z hz
    rw [hkept z (fun hmem => hz (hiff.mpr hin z hmem)), hs.kept z hz]

lemma framed_of_reach (hw : WellFormed q v)
    (h : (walkSystem q v).Reach (StaysInside q entries v) s) : Framed q entries v s := by
  refine System.Reach.invariant (I := Framed q entries v) ?_ ?_ h
  · rintro s ⟨rfl, hlog, hKey, hstart⟩
    refine ⟨rfl, ?_, fun _ _ => rfl, start_holds (fun _ => hw.target_ne) hstart⟩
    rw [hlog]
    exact fun z hz => absurd hz List.not_mem_nil
  · intro s e s' hs hok hstep
    exact (framed_step hw hs hstep).2 hok

lemma inTree_of_reads (hs : s.place.Holds (fun n => InTree q entries n ∧ q.isDir n))
    {stack : List Word} {dir : Word} {k : ℕ} {d : DirEntry} (hp : s.place = .scan stack dir k)
    (hok : k < dirEntriesPerBlock ∧ dirEntry (s.volume.data (q.dirBlock dir)) k = entries dir k)
    (hr : Reads q s dir k d) (hne : d.inode ≠ 0) : InTree q entries d.inode := by
  rw [hp] at hs
  have he : d = entries dir k := (hr hok.1).trans hok.2
  rw [he] at hne ⊢
  exact .entry hs.1.1 hs.1.2 hs.2.1 hne

lemma staysInside_of_legible (h : (walkSystem q v).Reach (Legible q entries) s) :
    (walkSystem q v).Reach (StaysInside q entries v) s ∧
      s.place.Holds (fun n => InTree q entries n ∧ q.isDir n) := by
  induction h with
  | start h =>
    obtain ⟨_, _, hKey, hstart⟩ := id h
    exact ⟨.start h, start_holds (fun hdir => ⟨.target, hdir⟩) hstart⟩
  | @next s e s' _ hok hstep ih =>
    obtain ⟨hreach, hholds⟩ := ih
    have hread : ∀ stack dir k d, s.place = .scan stack dir k → Reads q s dir k d → d.inode ≠ 0 →
        InTree q entries d.inode :=
      fun stack dir k d hp hr hne => inTree_of_reads hholds hp (hok.1 stack dir k hp) hr hne
    refine ⟨.next hreach ?_ hstep, walkStep_holds hholds (fun stack dir k d hp hr hne hdir =>
      ⟨hread stack dir k d hp hr hne, hdir⟩) hstep⟩
    cases e with
    | look => trivial
    | handed n hKey =>
      refine Or.inr (Or.inr (Or.inl ⟨hok.2 n hKey rfl, ?_⟩))
      rcases (walkStep_handed hstep).1 with rfl | hP | ⟨stack, dir, k, d, hp, hr, hne, rfl⟩
      · exact .target
      · exact (hP _ hholds).1
      · exact hread stack dir k d hp hr hne

/-- Calls whose steps stay inside change blocks of the tree only, and a step that does not touches a
block outside; those calls that read directories as such and meet no special file stay inside. -/
theorem walk_touches_tree (hw : WellFormed q v) (entries : Word → ℕ → DirEntry) :
    (∀ s, (walkSystem q v).Reach (StaysInside q entries v) s →
      ∀ z, ¬ TreeBlock q entries v z → s.volume.data z = v.data z) ∧
    (∀ s, (walkSystem q v).Reach (StaysInside q entries v) s → ∀ e s', WalkStep q s e s' →
      ((∀ z ∈ s'.log, TreeBlock q entries v z) ↔ StaysInside q entries v s e)) ∧
    ∀ s, (walkSystem q v).Reach (Legible q entries) s →
      (walkSystem q v).Reach (StaysInside q entries v) s := by
  refine ⟨fun s hs => (framed_of_reach hw hs).kept, fun s hs e s' hstep => ?_, fun s hs => ?_⟩
  · exact (framed_step hw (framed_of_reach hw hs) hstep).1
  · exact (staysInside_of_legible hs).1

end Frame

-- the regular file 8 has the block 1024; the console, inode 9, is the device 0x400
def consoleZones (n : Word) (k : Fin 9) : Word := if k = 0 ∧ (n = 8 ∨ n = 9) then 0x400 else 0

def consoleDisk (target : Word) : Request where
  direction := .encr
  inodes n := ⟨if n = 8 then 0o100000 else 0o020000, 1024, consoleZones n, n⟩
  target := target

def consoleVolume : Volume := fullVolume fun _ => Block.zero.setByte 1 1

lemma consoleZones_of_ne (n : Word) {k : Fin 9} (hk : k ≠ 0) : consoleZones n k = 0 :=
  if_neg (fun h => hk h.1)

lemma consoleDisk_consistent (target n : Word) :
    Consistent consoleVolume ((consoleDisk target).inodes n) := by
  have hd : Consistent consoleVolume (directFile n (consoleZones n) 1024) := by
    refine consistent_direct _ n 1024 (consoleZones_of_ne n (by decide))
      (consoleZones_of_ne n (by decide)) ?_
    intro j k hj he
    have hj₀ : j = 0 := by
      by_contra hne
      exact hj (consoleZones_of_ne n hne)
    have hk₀ : k = 0 := by
      by_contra hne
      exact hj (he.trans (consoleZones_of_ne n hne))
    rw [hj₀, hk₀]
  exact ⟨hd.firstDataZone_pos, hd.nZones_lt, hd.zmap_zero, hd.used, hd.distinct⟩

lemma consoleDisk_hasBlocks {target n : Word} (h : (consoleDisk target).HasBlocks n) : n = 8 := by
  by_contra hne
  have hmode : ((consoleDisk target).inodes n).iMode = 0o020000 := if_neg hne
  rw [Request.HasBlocks, hmode] at h
  exact absurd h (by decide)

lemma consoleDisk_wellFormed {target : Word} (ht : target ≠ 0) :
    WellFormed (consoleDisk target) consoleVolume where
  target_ne := ht
  number _ := rfl
  consistent n _ := consoleDisk_consistent target n
  unshared _ _ _ _ hn hm _ _ := (consoleDisk_hasBlocks hn).trans (consoleDisk_hasBlocks hm).symm
  device n _ _ hk := consoleZones_of_ne n hk

lemma consoleDisk_inTree {target n : Word} {entries : Word → ℕ → DirEntry}
    (h : InTree (consoleDisk target) entries n) : n = target := by
  cases h with
  | target => rfl
  | @entry dir _ _ hdir _ _ =>
    exfalso
    by_cases hd : dir = 8
    · have hmode : ((consoleDisk target).inodes dir).iMode = 0o100000 := if_pos hd
      rw [Request.isDir, hmode] at hdir
      exact absurd hdir (by decide)
    · have hmode : ((consoleDisk target).inodes dir).iMode = 0o020000 := if_neg hd
      rw [Request.isDir, hmode] at hdir
      exact absurd hdir (by decide)

def consoleStart : WalkState := ⟨emptyTable, consoleVolume, [], .file⟩

lemma consoleDisk_encrypts {target : Word} (ht : target = 8 ∨ target = 9) :
    ∃ s, WalkStep (consoleDisk target) consoleStart (.handed target anyHKey) s ∧
      (s.volume.data 0x400).byte 0 = 1 := by
  have hn : ((consoleDisk target).inodes target).iNum ≠ 0 := by
    rcases ht with rfl | rfl <;> decide
  have hc := consoleDisk_consistent target target
  have hret : ∃ r, encryptFile swapKey.toCString (fun _ => Block.zero) emptyTable consoleVolume
      ((consoleDisk target).inodes target) ⟨target, anyHKey⟩ = .ok r :=
    encryptFile_returns swapKey hc hn ⟨0, rfl⟩
  obtain ⟨r, hr⟩ := hret
  refine ⟨consoleStart.after r .done, .file rfl ⟨_, _, r, hr, rfl⟩, ?_⟩
  rcases encryptFile_cases hn hr with ⟨⟨z, ⟨e, he, _⟩, _⟩, _⟩ | ⟨w, s, _, hwalk, rfl⟩
  · cases he
  · obtain ⟨hs, _, hstop⟩ := walk_spec hc hwalk
    have hzone : ((consoleDisk target).inodes target).iZone 0 = 0x400 := if_pos ⟨rfl, ht⟩
    have hpos : 0 < s.i := by
      refine (hs.reaches_first hstop).mpr ⟨trivial, ?_, rfl⟩
      change ((consoleDisk target).inodes target).iZone 0 ≠ 0
      rw [hzone]
      decide
    have ht := hs.transformed 0 hpos
    change encryptBlock _ _ (consoleVolume.data (((consoleDisk target).inodes target).iZone 0)) _ =
      .ok (s.volume.data (((consoleDisk target).inodes target).iZone 0)) at ht
    rw [encryptBlock_eq, hzone] at ht
    change (s.volume.data 0x400).byte 0 = 1
    rw [← Except.ok.inj ht]
    decide

lemma consoleDisk_start {target : Word} (hmode : ¬ (consoleDisk target).isDir target) :
    (walkSystem (consoleDisk target) consoleVolume).init consoleStart :=
  ⟨rfl, rfl, anyHKey, if_neg hmode⟩

theorem walk_touches_tree_file : ∃ s : WalkState, (s.volume.data 0x400).byte 0 = 1 ∧
    ∀ z, ¬ TreeBlock (consoleDisk 8) (fun _ _ => ⟨0, 0⟩) consoleVolume z →
      s.volume.data z = consoleVolume.data z := by
  obtain ⟨s, hstep, hbyte⟩ := consoleDisk_encrypts (Or.inl rfl)
  have hin : StaysInside (consoleDisk 8) (fun _ _ => ⟨0, 0⟩) consoleVolume consoleStart
      (.handed 8 anyHKey) := Or.inr (Or.inr (Or.inl ⟨Or.inl rfl, .target⟩))
  have hreach := System.Reach.next (.start (consoleDisk_start (by decide))) hin hstep
  have hw : WellFormed (consoleDisk 8) consoleVolume := consoleDisk_wellFormed (by decide)
  exact ⟨s, hbyte, (walk_touches_tree hw _).1 s hreach⟩

theorem walk_touches_other_file :
    ¬ ∀ (q : Request) (v : Volume) (entries : Word → ℕ → DirEntry), WellFormed q v →
      ∀ s, (walkSystem q v).Reach (fun _ _ => True) s →
        ∀ z, ¬ TreeBlock q entries v z → s.volume.data z = v.data z := by
  intro h
  obtain ⟨s, hstep, hbyte⟩ := consoleDisk_encrypts (Or.inr rfl)
  have hreach : (walkSystem (consoleDisk 9) consoleVolume).Reach (fun _ _ => True) s :=
    .next (.start (consoleDisk_start (by decide))) trivial hstep
  have hw : WellFormed (consoleDisk 9) consoleVolume := consoleDisk_wellFormed (by decide)
  have hout : ¬ TreeBlock (consoleDisk 9) (fun _ _ => ⟨0, 0⟩) consoleVolume 0x400 := by
    rintro ⟨n, hin, hb, _⟩
    have h₈ := consoleDisk_hasBlocks hb
    rw [consoleDisk_inTree hin] at h₈
    exact absurd h₈ (by decide)
  have hsame := h (consoleDisk 9) consoleVolume _ hw s hreach 0x400 hout
  rw [hsame] at hbyte
  exact absurd hbyte (by decide)

end Devos.Security
