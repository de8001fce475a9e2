import Devos.Fs.DescriptorCounts

/-! `sys_dup2`, a `sys_close` and then a `dupfd`, and when the two together are atomic. -/

namespace Devos.Fs

open Security Runs

variable {ι : Type*}

/-- `others` is what the other tasks do to the file table while `sys_close` sleeps in `iput`. -/
def sysDup2 (others : FileTable ι → FileTable ι) (t : FileTask) (files : FileTable ι) (oldfd newfd : ℕ) :
    Except Fault (FileTask × FileTable ι × ℤ) :=
  match sysClose t files newfd with
  | .error f => .error f
  | .ok (t, files, _, inode) => .ok (dupfd t (if inode.isSome then others files else files) oldfd newfd)

def FileTask.file (t : FileTask) (fd : ℕ) : Option (Fin nrFile) := if h : fd < nrOpen then t.filp ⟨fd, h⟩ else none

/-- The call has given `newfd` what `oldfd` had, or has failed and changed neither a slot nor a count. -/
def Dup2Atomic (t : FileTask) (files : FileTable ι) (oldfd newfd : ℕ) (r : Except Fault (FileTask × FileTable ι × ℤ)) :
    Prop :=
  ∃ t' files' value, r = .ok (t', files', value) ∧
    (value = newfd ∧ t.file oldfd ≠ none ∧ t'.file oldfd = t.file oldfd ∧ t'.file newfd = t.file oldfd ∨
      value < 0 ∧ t'.filp = t.filp ∧ ∀ f, (files' f).fCount = (files f).fCount)

section Slots

variable {t : FileTask} {files : FileTable ι} {f : Fin nrFile} {fd arg n : ℕ}

lemma file_eq (h : fd < nrOpen) : t.file fd = t.filp ⟨fd, h⟩ := dif_pos h

lemma file_lt (h : t.file fd = some f) : fd < nrOpen := by
  by_contra hge
  rw [FileTask.file, dif_neg hge] at h
  cases h

lemma file_setFilp (t : FileTask) (i : Fin nrOpen) (g : Option (Fin nrFile)) (n : ℕ) :
    (t.setFilp i g).file n = if n = i then g else t.file n := by
  simp only [FileTask.file, FileTask.setFilp, Function.update_apply, Fin.ext_iff]
  by_cases hn : n = i.val
  · simp [hn]
  · simp [hn]

variable (files) in
lemma sysClose_closed (h : t.file n = none) :
    ∃ t', sysClose t files n = .ok (t', files, -einval, none) ∧ t'.filp = t.filp := by
  by_cases hn : n < nrOpen
  · rw [file_eq hn] at h
    refine ⟨t.keepOnExec ⟨n, hn⟩, ?_, rfl⟩
    rw [sysClose, dif_pos hn]
    simp [FileTask.keepOnExec, h]
  · exact ⟨t, dif_neg hn, rfl⟩

/-- Of an open descriptor `sys_close` leaves nothing, whatever becomes of the file. -/
lemma sysClose_open (h : t.file n = some f) (hcount : (files f).fCount ≠ 0) :
    ∃ t' files' inode, sysClose t files n = .ok (t', files', 0, inode) ∧
      ∀ m, t'.file m = if m = n then none else t.file m := by
  have hn := file_lt h
  rw [file_eq hn] at h
  have hslots : ∀ m, ((t.keepOnExec ⟨n, hn⟩).setFilp ⟨n, hn⟩ none).file m = if m = n then none else t.file m :=
    fun m => file_setFilp _ _ _ m
  have hself : (files.setCount f ((files f).fCount - 1) f).fCount = (files f).fCount - 1 := by
    simp [FileTable.setCount]
  refine ⟨_, files.setCount f ((files f).fCount - 1),
    if (files f).fCount - 1 ≠ 0 then none else (files.setCount f ((files f).fCount - 1) f).fInode, ?_, hslots⟩
  rw [sysClose, dif_pos hn]
  simp only [show (t.keepOnExec ⟨n, hn⟩).filp ⟨n, hn⟩ = some f from h]
  rw [if_neg hcount, hself]
  split_ifs <;> rfl

lemma sysClose_uncounted (h : t.file n = some f) (hcount : (files f).fCount = 0) :
    sysClose t files n = .error .panic := by
  have hn := file_lt h
  rw [file_eq hn] at h
  rw [sysClose, dif_pos hn]
  simp [FileTask.keepOnExec, h, hcount]

variable (files arg) in
lemma dupfd_closed (h : t.file fd = none) : dupfd t files fd arg = (t, files, -ebadf) := by
  by_cases hn : fd < nrOpen
  · rw [file_eq hn] at h
    rw [dupfd, dif_pos hn, h]
  · exact dif_neg hn

variable (files) in
lemma dupfd_outside (h : t.file fd = some f) (harg : nrOpen ≤ arg) : dupfd t files fd arg = (t, files, -einval) := by
  have hn := file_lt h
  rw [file_eq hn] at h
  rw [dupfd, dif_pos hn, h]
  exact if_pos harg

lemma freeFd_self (harg : arg < nrOpen) (h : t.file arg = none) : t.freeFd arg = some ⟨arg, harg⟩ := by
  rw [file_eq harg] at h
  rw [FileTask.freeFd, List.find?_eq_some_iff_getElem]
  refine ⟨by simp [h], arg, by simpa using harg, by simp, ?_⟩
  intro j hj
  have hlt : ¬ arg ≤ j := by omega
  simp [hlt]

variable (files) in
lemma dupfd_free (h : t.file fd = some f) (harg : arg < nrOpen) (hfree : t.file arg = none) :
    ∃ t' files', dupfd t files fd arg = (t', files', (arg : ℤ)) ∧ ∀ m, t'.file m = if m = arg then some f else t.file m := by
  have hn := file_lt h
  rw [file_eq hn] at h
  refine ⟨_, files.setCount f ((files f).fCount + 1), ?_, fun m => file_setFilp (t.keepOnExec ⟨arg, harg⟩) ⟨arg, harg⟩ (some f) m⟩
  rw [dupfd, dif_pos hn, h]
  dsimp only
  rw [if_neg (Nat.not_le.mpr harg), freeFd_self harg hfree]

end Slots

section Atomic

variable {t t' : FileTask} {files files' : FileTable ι} {oldfd newfd : ℕ}

/-- A `newfd` that is closed. -/
lemma dup2_of_closed (others : FileTable ι → FileTable ι) (h : t.file newfd = none) :
    Dup2Atomic t files oldfd newfd (sysDup2 others t files oldfd newfd) := by
  obtain ⟨t', hclose, hfilp⟩ := sysClose_closed files h
  have hfile : ∀ m, t'.file m = t.file m := by
    intro m
    rw [FileTask.file, FileTask.file, hfilp]
  have hrun : sysDup2 others t files oldfd newfd = .ok (dupfd t' files oldfd newfd) := by
    rw [sysDup2, hclose]
    rfl
  cases hold : t.file oldfd with
  | none =>
    have hdup := dupfd_closed files newfd ((hfile oldfd).trans hold)
    exact ⟨t', files, -ebadf, hrun.trans (congrArg _ hdup), .inr ⟨by decide, hfilp, fun _ => rfl⟩⟩
  | some f =>
    have hold' := (hfile oldfd).trans hold
    by_cases hlt : newfd < nrOpen
    · obtain ⟨t'', files'', hdup, hslots⟩ := dupfd_free files hold' hlt ((hfile newfd).trans h)
      have hne : oldfd ≠ newfd := by
        rintro rfl
        rw [h] at hold
        cases hold
      refine ⟨t'', files'', newfd, hrun.trans (congrArg _ hdup), .inl ⟨rfl, by simp [hold], ?_, ?_⟩⟩
      · rw [hslots, if_neg hne, hfile]
      · rw [hslots, if_pos rfl, hold]
    · have hdup := dupfd_outside files hold' (Nat.not_lt.mp hlt)
      exact ⟨t', files, -einval, hrun.trans (congrArg _ hdup), .inr ⟨by decide, hfilp, fun _ => rfl⟩⟩

/-- A `newfd` that is open is closed before `oldfd` is looked at. -/
lemma dup2_of_open (others : FileTable ι → FileTable ι) {g : Fin nrFile} (h : t.file newfd = some g)
    (hcount : (files g).fCount ≠ 0) :
    Dup2Atomic t files oldfd newfd (sysDup2 others t files oldfd newfd) ↔ oldfd ≠ newfd ∧ t.file oldfd ≠ none := by
  obtain ⟨t', files', inode, hclose, hslots⟩ := sysClose_open h hcount
  have hrun : sysDup2 others t files oldfd newfd =
      .ok (dupfd t' (if inode.isSome then others files' else files') oldfd newfd) := by
    rw [sysDup2, hclose]
  have hnew : t'.file newfd = none := (hslots newfd).trans (if_pos rfl)
  constructor
  · rintro ⟨t'', files'', value, hr, hout⟩
    by_contra hbad
    have hold : t'.file oldfd = none := by
      rw [hslots]
      split_ifs with heq
      · rfl
      · by_contra hne
        exact hbad ⟨heq, hne⟩
    rw [hrun, dupfd_closed _ _ hold] at hr
    cases hr
    rcases hout with ⟨hvalue, _⟩ | ⟨_, hfilp, _⟩
    · have : ebadf = 9 := rfl
      omega
    · rw [FileTask.file, hfilp] at hnew
      rw [FileTask.file, hnew] at h
      cases h
  · rintro ⟨hne, hold⟩
    obtain ⟨f, hf⟩ := Option.ne_none_iff_exists'.mp hold
    have hf' : t'.file oldfd = some f := by rw [hslots, if_neg hne, hf]
    obtain ⟨t'', files'', hdup, hslots'⟩ :=
      dupfd_free (if inode.isSome then others files' else files') hf' (file_lt h) hnew
    refine ⟨t'', files'', newfd, hrun.trans (congrArg _ hdup), .inl ⟨rfl, hold, ?_, ?_⟩⟩
    · rw [hslots', if_neg hne, hf', hf]
    · rw [hslots', if_pos rfl, hf]

end Atomic

theorem dup2_atomic_iff (others : FileTable ι → FileTable ι) (t : FileTask) (files : FileTable ι) (oldfd newfd : ℕ) :
    Dup2Atomic t files oldfd newfd (sysDup2 others t files oldfd newfd) ↔
      ∀ g, t.file newfd = some g → (files g).fCount ≠ 0 ∧ oldfd ≠ newfd ∧ t.file oldfd ≠ none := by
  cases hnew : t.file newfd with
  | none => exact iff_of_true (dup2_of_closed others hnew) (fun _ h => by cases h)
  | some g =>
    simp only [Option.some.injEq, forall_eq']
    by_cases hcount : (files g).fCount = 0
    · refine iff_of_false ?_ (fun h => h.1 hcount)
      rintro ⟨_, _, _, hr, _⟩
      rw [sysDup2, sysClose_uncounted hnew hcount] at hr
      cases hr
    · rw [dup2_of_open others hnew hcount]
      exact (and_iff_right hcount).symm

/-- In a task between two calls the count is never 0. -/
theorem dup2_atomic_of_reach {s : FileSys ι} (h : (descriptorSystem ι).Reach (fun _ _ => True) s) {x : Fin nrTasks}
    {t : FileTask} (hx : s.task x = some (t, .ready)) (others : FileTable ι → FileTable ι) (oldfd newfd : ℕ) :
    Dup2Atomic t s.files oldfd newfd (sysDup2 others t s.files oldfd newfd) ↔
      (t.file newfd ≠ none → oldfd ≠ newfd ∧ t.file oldfd ≠ none) := by
  cases hnew : t.file newfd with
  | none => exact iff_of_true (dup2_of_closed others hnew) (fun hne => absurd rfl hne)
  | some g =>
    have hn := file_lt hnew
    have hslot : s.slot (x, ⟨newfd, hn⟩) = some g := by
      rw [← hnew, file_eq hn]
      exact congrFun (slot_row hx) ⟨newfd, hn⟩
    rw [dup2_of_open others hnew ((counted_of_reach h).fCount_ne_zero hslot)]
    simp

/-- Descriptor 1 alone is open. -/
def oneOpen : FileTask where
  filp fd := if fd.val = 1 then some ⟨0, by decide⟩ else none
  closeOnExec _ := false
  leader := false
  tty := -1

def oneFile : FileTable Unit := fun f => ⟨0o100000, 0, if f.val = 0 then 1 else 0, some (), 0⟩

/-- `dup2(1, 1)` closes descriptor 1. -/
theorem dup2_self_closes : ¬ Dup2Atomic oneOpen oneFile 1 1 (sysDup2 id oneOpen oneFile 1 1) := by
  have hnew : oneOpen.file 1 = some ⟨0, by decide⟩ := rfl
  rw [dup2_of_open id hnew (by decide)]
  exact fun h => h.1 rfl

end Devos.Fs
