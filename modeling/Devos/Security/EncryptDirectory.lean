import Devos.Security.DirectoryFrame

/-! `encrypt_directory`, and what the files that it has handed to `encrypt_file` come to. -/

namespace Devos.Security

open Loops LinearProbing Fs

abbrev nrInode : ℕ := 32

/-- A call of `encrypt_directory`: `scratch` is what the cipher's local arrays hold, `held` the inodes of
the disk that somebody has in memory, and `others` the other inodes in memory. -/
structure EncrCall extends Request where
  key : Key
  hashToUse : HKey
  scratch : Word → ℕ → Block
  held : Finset Word
  others : ℕ

structure Sweep where
  table : HashTable
  volume : Volume
  log : List Word
  stack : List Word

namespace EncrCall

variable (c : EncrCall)

/-- The inodes in memory while `dir` is scanned. -/
def inUse (dir : Word) (stack : List Word) : ℕ := (c.held ∪ insert dir stack.toFinset).card + c.others

def hand (s : Sweep) (n : Word) : Except Fault Sweep :=
  (encryptFile c.key.toCString (c.scratch n) s.table s.volume (c.inodes n) ⟨n, c.hashToUse⟩).map fun r =>
    { s with table := r.table, volume := r.volume, log := s.log ++ r.log }

def visit (dir : Word) (e : DirEntry) (s : Sweep) : Except Fault Sweep :=
  if e.name = hiddenMark then .ok s
  -- `get_empty_inode` finds no free inode
  else if nrInode ≤ c.inUse dir s.stack then .error .panic
  else if c.isDir e.inode then
    if s.stack.length < stackSize then .ok { s with stack := e.inode :: s.stack } else .error .overrun
  else c.hand s e.inode

def scanBody (dir : Word) (s : Sweep × ℕ) : Pass (Sweep × ℕ) (Except Fault Sweep) :=
  -- the pointer has left the block
  if dirEntriesPerBlock ≤ s.2 then .leave (.error .overrun)
  else
    let e := dirEntry (s.1.volume.data (c.dirBlock dir)) s.2
    if e.inode = 0 then .leave (.ok s.1)
    else
      match c.visit dir e s.1 with
      | .error f => .leave (.error f)
      | .ok s' => .again (s', s.2 + 1)

def scan (dir : Word) (s : Sweep) : Except Fault Sweep :=
  (iterate (c.scanBody dir) dirEntriesPerBlock (s, 2)).getD (.error .hang)

def round (s : Sweep) : Pass Sweep (Except Fault Sweep) :=
  match s.stack with
  | [] => .leave (.ok s)
  | dir :: stack =>
    if s.volume.readable (c.dirBlock dir) = false then .leave (.error .badPointer)
    else
      match (c.scan dir { s with stack := stack }).bind fun s => c.hand s dir with
      | .error f => .leave (.error f)
      | .ok s' => .again s'

def encryptDirectory (passes : ℕ) (table : HashTable) (v : Volume) : Except Fault Sweep :=
  match searchFunc table c.target with
  | none => .error .hang
  | some index =>
    if index ≠ errNotFnd then .ok ⟨table, v, [], []⟩
    else (iterate c.round passes ⟨table, v, [], [c.target]⟩).getD (.error .hang)

section Steps

variable {c : EncrCall} {dir : Word} {stack : List Word} {s u s' : Sweep} {k : ℕ} {e : DirEntry} {f : Fault}

lemma scanBody_end (hk : k < dirEntriesPerBlock) (he : dirEntry (s.volume.data (c.dirBlock dir)) k = e)
    (hz : e.inode = 0) : c.scanBody dir (s, k) = .leave (.ok s) := by
  subst he
  exact (if_neg (not_le.mpr hk)).trans (if_pos hz)

lemma scanBody_ok (hk : k < dirEntriesPerBlock) (he : dirEntry (s.volume.data (c.dirBlock dir)) k = e)
    (hz : e.inode ≠ 0) (hv : c.visit dir e s = .ok s') : c.scanBody dir (s, k) = .again (s', k + 1) := by
  subst he
  rw [scanBody, if_neg (not_le.mpr hk)]
  dsimp only
  rw [if_neg hz, hv]

lemma scanBody_error (hk : k < dirEntriesPerBlock) (he : dirEntry (s.volume.data (c.dirBlock dir)) k = e)
    (hz : e.inode ≠ 0) (hv : c.visit dir e s = .error f) : c.scanBody dir (s, k) = .leave (.error f) := by
  subst he
  rw [scanBody, if_neg (not_le.mpr hk)]
  dsimp only
  rw [if_neg hz, hv]

lemma round_unreadable (hs : s.stack = dir :: stack) (hread : s.volume.readable (c.dirBlock dir) = false) :
    c.round s = .leave (.error .badPointer) := by
  rw [round, hs]
  exact if_pos hread

lemma round_ok (hs : s.stack = dir :: stack) (hread : s.volume.readable (c.dirBlock dir) ≠ false)
    (hscan : c.scan dir { s with stack := stack } = .ok u) (hhand : c.hand u dir = .ok s') :
    c.round s = .again s' := by
  rw [round, hs]
  dsimp only
  rw [if_neg hread, hscan, Except.bind, hhand]

lemma round_error (hs : s.stack = dir :: stack) (hread : s.volume.readable (c.dirBlock dir) ≠ false)
    (hscan : c.scan dir { s with stack := stack } = .error f) : c.round s = .leave (.error f) := by
  rw [round, hs]
  dsimp only
  rw [if_neg hread, hscan, Except.bind]

end Steps

end EncrCall

/-- The state after the inodes of `done` have been handed over. -/
structure Swept (c : EncrCall) (table : HashTable) (v : Volume) (done : Finset Word) (s : Sweep) : Prop where
  blocks : ∀ n ∈ done, c.HasBlocks n
  same : s.volume = { v with data := s.volume.data }
  log : ∀ z ∈ s.log, ∃ n ∈ done, ∃ i, Allocated v (c.inodes n) i ∧ zoneAt v (c.inodes n) i = z
  kept : ∀ z, z ∉ s.log → s.volume.data z = v.data z
  once : ∀ n ∈ done, ∀ i, Allocated v (c.inodes n) i → (∀ j, j ≤ i → Mapped v (c.inodes n) j) →
    s.log.count (zoneAt v (c.inodes n) i) = 1 ∧
      encryptBlock c.key.toCString (c.scratch n i) (v.data (zoneAt v (c.inodes n) i))
        (v.data (zoneAt v (c.inodes n) i)) = .ok (s.volume.data (zoneAt v (c.inodes n) i))
  never : ∀ n ∈ done, ∀ i, Allocated v (c.inodes n) i → ¬ (∀ j, j ≤ i → Mapped v (c.inodes n) j) →
    s.log.count (zoneAt v (c.inodes n) i) = 0
  found : ∀ n ∈ done, ∃ z, scheme.Found (view s.table) n z
  stored : ∀ n, n ≠ 0 → Stored s.table n → Stored table n ∨ n ∈ done
  filled : entries s.table = entries table + done.card

section Handing

variable {c : EncrCall} {table : HashTable} {v : Volume} {done : Finset Word} {s : Sweep} {n m : Word}

lemma Swept.refAt_eq (hw : WellFormed c.toRequest v) (hs : Swept c table v done s) (hn : c.HasBlocks n)
    (r : Ref) : refAt s.volume (c.inodes n) r = refAt v (c.inodes n) r := by
  refine refAt_congr ?_ r
  intro r' hr' h₀
  refine hs.kept _ fun hz => ?_
  obtain ⟨m, hm, i, _, hi⟩ := hs.log _ hz
  have hnm := hw.unshared n m r' (blockRef i) hn (hs.blocks m hm) h₀ hi.symm
  subst hnm
  have hr := (hw.consistent n hn).distinct r' (blockRef i) h₀ hi.symm
  exact hr' (hr ▸ blockRef_isData i)

lemma Swept.consistent (hw : WellFormed c.toRequest v) (hs : Swept c table v done s) (hn : c.HasBlocks n) :
    Consistent s.volume (c.inodes n) :=
  consistent_congr (hw.consistent n hn) hs.same (hs.refAt_eq hw hn)

lemma Swept.readable (hs : Swept c table v done s) : s.volume.readable = v.readable := by
  rw [hs.same]

lemma Swept.mapped_iff (hw : WellFormed c.toRequest v) (hs : Swept c table v done s) (hn : c.HasBlocks n)
    {i : ℕ} (hi : i < maxBlocks) : Mapped s.volume (c.inodes n) i ↔ Mapped v (c.inodes n) i :=
  mapped_congr hs.readable (hs.refAt_eq hw hn) hi

/-- The blocks of another file are not in the log of this one. -/
lemma Swept.untouched (hw : WellFormed c.toRequest v) (hs : Swept c table v done s) (hn : c.HasBlocks n)
    (hnot : n ∉ done) {r : Ref} (h₀ : refAt v (c.inodes n) r ≠ 0) : refAt v (c.inodes n) r ∉ s.log := by
  intro hz
  obtain ⟨m, hm, i, _, hi⟩ := hs.log _ hz
  exact hnot (hw.unshared n m r (blockRef i) hn (hs.blocks m hm) h₀ hi.symm ▸ hm)

lemma update_free {t : HashTable} {w a : Fin tableSize} {e : EDir} (hw : (t w).iNum = 0) (ha : (t a).iNum ≠ 0) :
    Function.update t w e a = t a := by
  refine Function.update_of_ne ?_ _ _
  rintro rfl
  exact ha hw

lemma found_update {t : HashTable} {w z : Fin tableSize} {e : EDir} (hw : (t w).iNum = 0)
    (hz : scheme.Found (view t) m z) : scheme.Found (view (Function.update t w e)) m z := by
  obtain ⟨⟨f, hf, hk⟩, hp⟩ := hz
  have h₀ := view_eq_some.mp hf
  refine ⟨⟨f, view_eq_some.mpr ?_, hk⟩, passes_iff.mpr fun a ha => ?_⟩
  · rw [update_free hw h₀.1]
    exact h₀
  · rw [update_free hw (passes_iff.mp hp a ha).2]
    exact passes_iff.mp hp a ha

lemma found_new {t : HashTable} {w : Fin tableSize} {h : HKey} (hn : n ≠ 0) (hw : scheme.Missing (view t) n w) :
    scheme.Found (view (Function.update t w ⟨n, h⟩)) n w := by
  rw [missing_iff, passes_iff] at hw
  refine (found_iff hn).mpr ⟨by rw [Function.update_self], passes_iff.mpr fun a ha => ?_⟩
  rw [update_free hw.1 (hw.2 a ha).2]
  exact hw.2 a ha

lemma Swept.again (hs : Swept c table v done s) (hn : n ≠ 0) (hin : n ∈ done) : c.hand s n = .ok s := by
  obtain ⟨z, hz⟩ := hs.found n hin
  have hadd : addFunc s.table ⟨n, c.hashToUse⟩ = some (errAlrEnc, s.table) :=
    addFunc_found (e := ⟨n, c.hashToUse⟩) hn hz
  rw [EncrCall.hand, encryptFile, hadd]
  simp only [if_true, Except.map, List.append_nil]

section NewFile

variable (hw : WellFormed c.toRequest v) (hs : Swept c table v done s) (hb : c.HasBlocks n) {u : Walk}
  (hwalk : walk (fun i b => encryptBlock c.key.toCString (c.scratch n i) b b) s.volume (c.inodes n) = .ok u)
include hw hs hb hwalk

lemma Swept.reaches_iff {i : ℕ} (hi : i < maxBlocks) : i < u.i ↔ ∀ j, j ≤ i → Mapped v (c.inodes n) j := by
  obtain ⟨hu, _, hstop⟩ := walk_spec (hs.consistent hw hb) hwalk
  rw [hu.reaches_iff hstop]
  exact forall₂_congr fun j hj => hs.mapped_iff hw hb (hj.trans_lt hi)

lemma Swept.walk_log {z : Word} (hz : z ∈ u.log) :
    ∃ i, Allocated v (c.inodes n) i ∧ zoneAt v (c.inodes n) i = z := by
  obtain ⟨hu, _, _⟩ := walk_spec (hs.consistent hw hb) hwalk
  rw [hu.log] at hz
  obtain ⟨i, hi, he⟩ := List.mem_map.mp hz
  have hi := List.mem_range.mp hi
  have hlt := hi.trans_le hu.le
  have hall := (hs.reaches_iff hw hb hwalk hlt).mp hi
  exact ⟨i, ⟨hlt, (hall i le_rfl).2.1⟩, (hs.refAt_eq hw hb (blockRef i)).symm.trans he⟩

lemma Swept.walks_never {i : ℕ} (hi : Allocated v (c.inodes n) i)
    (hall : ¬ ∀ j, j ≤ i → Mapped v (c.inodes n) j) : u.log.count (zoneAt v (c.inodes n) i) = 0 := by
  have hc := hs.consistent hw hb
  obtain ⟨hu, _, _⟩ := walk_spec hc hwalk
  have hge := not_lt.mp (mt (hs.reaches_iff hw hb hwalk hi.1).mp hall)
  have hzone : zoneAt s.volume (c.inodes n) i = zoneAt v (c.inodes n) i := hs.refAt_eq hw hb (blockRef i)
  have hzero := hu.count_eq_zero hc hge ⟨hi.1, hzone ▸ hi.2⟩
  rwa [hzone] at hzero

variable (hnot : n ∉ done)
include hnot

lemma Swept.not_walked (hm : m ∈ done) {i : ℕ} (hi : Allocated v (c.inodes m) i) :
    zoneAt v (c.inodes m) i ∉ u.log := by
  intro hz
  obtain ⟨j, _, hj⟩ := hs.walk_log hw hb hwalk hz
  exact hnot (hw.unshared m n (blockRef i) (blockRef j) (hs.blocks m hm) hb hi.2 hj.symm ▸ hm)

lemma Swept.walks_once {i : ℕ} (hi : Allocated v (c.inodes n) i) (hall : ∀ j, j ≤ i → Mapped v (c.inodes n) j) :
    u.log.count (zoneAt v (c.inodes n) i) = 1 ∧
      encryptBlock c.key.toCString (c.scratch n i) (v.data (zoneAt v (c.inodes n) i))
        (v.data (zoneAt v (c.inodes n) i)) = .ok (u.volume.data (zoneAt v (c.inodes n) i)) := by
  have hc := hs.consistent hw hb
  obtain ⟨hu, _, _⟩ := walk_spec hc hwalk
  have hlt := (hs.reaches_iff hw hb hwalk hi.1).mpr hall
  have hzone : zoneAt s.volume (c.inodes n) i = zoneAt v (c.inodes n) i := hs.refAt_eq hw hb (blockRef i)
  have hdata : s.volume.data (zoneAt v (c.inodes n) i) = v.data (zoneAt v (c.inodes n) i) :=
    hs.kept _ (hs.untouched hw hb hnot hi.2)
  have hone := hu.count_eq_one hc hlt
  have htrans := hu.transformed i hlt
  rw [hzone] at hone htrans
  rw [hdata] at htrans
  exact ⟨hone, htrans⟩

lemma Swept.with_new (hn : n ≠ 0) {w : Fin tableSize} (hmiss : scheme.Missing (view s.table) n w) :
    Swept c table v (insert n done)
      ⟨Function.update s.table w ⟨n, c.hashToUse⟩, u.volume, s.log ++ u.log, s.stack⟩ := by
  obtain ⟨hu, _, _⟩ := walk_spec (hs.consistent hw hb) hwalk
  have hfree := (missing_iff.mp hmiss).1
  have hown : ∀ i, Allocated v (c.inodes n) i → s.log.count (zoneAt v (c.inodes n) i) = 0 :=
    fun i hi => List.count_eq_zero.mpr (hs.untouched hw hb hnot hi.2)
  have hother : ∀ m ∈ done, ∀ i, Allocated v (c.inodes m) i → u.log.count (zoneAt v (c.inodes m) i) = 0 :=
    fun m hm i hi => List.count_eq_zero.mpr (hs.not_walked hw hb hwalk hnot hm hi)
  refine ⟨?_, ?_, ?_, ?_, ?_, ?_, ?_, ?_, ?_⟩
  · intro m hm
    rcases Finset.mem_insert.mp hm with rfl | hm
    · exact hb
    · exact hs.blocks m hm
  · exact hu.same.trans (congrArg (fun x : Volume => { x with data := u.volume.data }) hs.same)
  · intro z hz
    rcases List.mem_append.mp hz with hz | hz
    · obtain ⟨m, hm, hi⟩ := hs.log z hz
      exact ⟨m, Finset.mem_insert_of_mem hm, hi⟩
    · exact ⟨n, Finset.mem_insert_self _ _, hs.walk_log hw hb hwalk hz⟩
  · intro z hz
    rw [List.mem_append, not_or] at hz
    exact (hu.kept z hz.2).trans (hs.kept z hz.1)
  · intro m hm i hi hall
    dsimp only
    rw [List.count_append]
    rcases Finset.mem_insert.mp hm with rfl | hm
    · obtain ⟨hone, htrans⟩ := hs.walks_once hw hb hwalk hnot hi hall
      rw [hown i hi, hone]
      exact ⟨rfl, htrans⟩
    · rw [hother m hm i hi, hu.kept _ (hs.not_walked hw hb hwalk hnot hm hi)]
      exact hs.once m hm i hi hall
  · intro m hm i hi hall
    dsimp only
    rw [List.count_append]
    rcases Finset.mem_insert.mp hm with rfl | hm
    · rw [hown i hi, hs.walks_never hw hb hwalk hi hall]
    · rw [hother m hm i hi, hs.never m hm i hi hall]
  · intro m hm
    rcases Finset.mem_insert.mp hm with rfl | hm
    · exact ⟨w, found_new hn hmiss⟩
    · obtain ⟨z, hz⟩ := hs.found m hm
      exact ⟨z, found_update hfree hz⟩
  · rintro m hm ⟨z, hz⟩
    dsimp only at hz
    by_cases hzw : z = w
    · subst hzw
      rw [Function.update_self] at hz
      exact Or.inr (hz ▸ Finset.mem_insert_self _ _)
    · rw [Function.update_of_ne hzw] at hz
      exact (hs.stored m hm ⟨z, hz⟩).imp_right Finset.mem_insert_of_mem
  · dsimp only
    rw [entries_update hfree hn, hs.filled, Finset.card_insert_of_notMem hnot]
    rfl

end NewFile

lemma Swept.hand_new (hw : WellFormed c.toRequest v) (hs : Swept c table v done s) (hn : n ≠ 0)
    (hb : c.HasBlocks n) (hplain : ¬ Stored table n) (hnot : n ∉ done)
    (hroom : entries table + done.card < tableSize) :
    ∃ s', c.hand s n = .ok s' ∧ s'.stack = s.stack ∧ Swept c table v (insert n done) s' := by
  have hnum := hw.number n
  have hfree := entries_lt_iff.mp (hs.filled.trans_lt hroom)
  have hret : ∃ r, encryptFile c.key.toCString (c.scratch n) s.table s.volume (c.inodes n)
      ⟨(c.inodes n).iNum, c.hashToUse⟩ = .ok r :=
    encryptFile_returns c.key (hs.consistent hw hb) (hnum.symm ▸ hn) hfree
  obtain ⟨r, hr⟩ := hret
  rcases encryptFile_cases (hnum.symm ▸ hn) hr with ⟨⟨z, hz⟩, _⟩ | ⟨w, u, hmiss, hwalk, rfl⟩
  · rw [hnum] at hz
    rcases hs.stored n hn ⟨z, ((found_iff hn).mp hz).1⟩ with h | h
    · exact absurd h hplain
    · exact absurd h hnot
  · rw [hnum] at hr hmiss
    have hhand : c.hand s n =
        .ok ⟨Function.update s.table w ⟨n, c.hashToUse⟩, u.volume, s.log ++ u.log, s.stack⟩ := by
      rw [EncrCall.hand, hr]
      rfl
    exact ⟨_, hhand, rfl, hs.with_new hw hb hwalk hnot hn hmiss⟩

lemma Swept.hand (hw : WellFormed c.toRequest v) (hs : Swept c table v done s) (hn : n ≠ 0)
    (hb : c.HasBlocks n) (hplain : ¬ Stored table n)
    (hroom : n ∉ done → entries table + done.card < tableSize) :
    ∃ s', c.hand s n = .ok s' ∧ s'.stack = s.stack ∧ Swept c table v (insert n done) s' := by
  by_cases hin : n ∈ done
  · rw [Finset.insert_eq_of_mem hin]
    exact ⟨s, hs.again hn hin, rfl, hs⟩
  · exact hs.hand_new hw hn hb hplain hin (hroom hin)

lemma Swept.data_eq (hw : WellFormed c.toRequest v) (hs : Swept c table v done s) (hn : c.HasBlocks n)
    (hnot : n ∉ done) (h₀ : c.dirBlock n ≠ 0) : s.volume.data (c.dirBlock n) = v.data (c.dirBlock n) :=
  hs.kept _ (hs.untouched (r := .zone 0) hw hn hnot h₀)

lemma swept_start (c : EncrCall) (table : HashTable) (v : Volume) (stack : List Word) :
    Swept c table v ∅ ⟨table, v, [], stack⟩ where
  blocks _ h := absurd h (Finset.notMem_empty _)
  same := rfl
  log _ h := absurd h List.not_mem_nil
  kept _ _ := rfl
  once _ h := absurd h (Finset.notMem_empty _)
  never _ h := absurd h (Finset.notMem_empty _)
  found _ h := absurd h (Finset.notMem_empty _)
  stored _ _ h := Or.inl h
  filled := rfl

lemma Swept.congr (hs : Swept c table v done s) (stack : List Word) :
    Swept c table v done { s with stack := stack } := ⟨hs.1, hs.2, hs.3, hs.4, hs.5, hs.6, hs.7, hs.8, hs.9⟩

end Handing

end Devos.Security
