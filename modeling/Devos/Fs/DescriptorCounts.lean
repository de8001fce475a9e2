import Devos.Fs.Descriptors
import Devos.Library.RefCount

/-! Any number of tasks at the file table: `f_count` is the number of slots that refer to an entry. -/

namespace Devos.Fs

open Security RefCount Runs

variable {ι : Type*}

/-- Where a task stands between two calls, or in a call that has been cut where it sleeps. -/
inductive Pending where
  | ready
  | opening (fd : Fin nrOpen) (f : Fin nrFile) (flag : Word)
  | piping (p : PipeEnds)
  | dup2 (oldfd newfd : ℕ)
  | execing (i : ℕ)
  | exiting (i : ℕ)
  | zombie

structure FileSys (ι : Type*) where
  task : Fin nrTasks → Option (FileTask × Pending)
  files : FileTable ι

namespace FileSys

def put (s : FileSys ι) (x : Fin nrTasks) (t : FileTask) (p : Pending) (files : FileTable ι) : FileSys ι where
  task := Function.update s.task x (some (t, p))
  files := files

def slot (s : FileSys ι) (q : Fin nrTasks × Fin nrOpen) : Option (Fin nrFile) :=
  (s.task q.1).bind fun e => e.1.filp q.2

end FileSys

inductive FileEvent (ι : Type*) where
  | openReserve (x : Fin nrTasks) (flag : Word)
  | openFinish (x : Fin nrTasks) (r : Except ℤ (Opened ι))
  | close (x : Fin nrTasks) (fd : ℕ)
  | dup (x : Fin nrTasks) (fd arg : ℕ)
  | dup2 (x : Fin nrTasks) (oldfd newfd : ℕ)
  | setCloseOnExec (x : Fin nrTasks) (fd : ℕ) (bit : Bool)
  | pipeReserve (x : Fin nrTasks)
  | pipeFinish (x : Fin nrTasks) (inode : Option ι)
  | fork (x y : Fin nrTasks)
  | exec (x : Fin nrTasks)
  | exit (x : Fin nrTasks)
  | release (x : Fin nrTasks)

/-- `dup2` after its `sys_close`, and each round of the loops of `do_execve` and `do_exit`, is a step of its
own, since `sys_close` sleeps at its end. A `fork` without memory changes nothing and is left out. -/
inductive FileStep : FileSys ι → FileEvent ι → FileSys ι → Prop
  | openReserve {s x t flag t' files' fd f} : s.task x = some (t, .ready) →
      openReserve t s.files = (t', files', .ok (fd, f)) →
      FileStep s (.openReserve x flag) (s.put x t' (.opening fd f flag) files')
  | openRefused {s x t flag t' files' e} : s.task x = some (t, .ready) →
      openReserve t s.files = (t', files', .error e) →
      FileStep s (.openReserve x flag) (s.put x t' .ready files')
  | openFinish {s x t fd f flag r t' files' value} : s.task x = some (t, .opening fd f flag) →
      openFinish t s.files fd f flag r = (t', files', value) →
      FileStep s (.openFinish x r) (s.put x t' .ready files')
  | close {s x t fd t' files' value inode} : s.task x = some (t, .ready) →
      sysClose t s.files fd = .ok (t', files', value, inode) →
      FileStep s (.close x fd) (s.put x t' .ready files')
  | dup {s x t fd arg t' files' value} : s.task x = some (t, .ready) →
      dupfd t s.files fd arg = (t', files', value) →
      FileStep s (.dup x fd arg) (s.put x t' .ready files')
  | dup2 {s x t oldfd newfd t' files' value inode} : s.task x = some (t, .ready) →
      sysClose t s.files newfd = .ok (t', files', value, inode) →
      FileStep s (.dup2 x oldfd newfd) (s.put x t' (.dup2 oldfd newfd) files')
  | dup2End {s x t oldfd newfd t' files' value} : s.task x = some (t, .dup2 oldfd newfd) →
      dupfd t s.files oldfd newfd = (t', files', value) →
      FileStep s (.dup2 x oldfd newfd) (s.put x t' .ready files')
  | setCloseOnExec {s x t fd bit t' value} : s.task x = some (t, .ready) →
      setCloseOnExec t fd bit = (t', value) →
      FileStep s (.setCloseOnExec x fd bit) (s.put x t' .ready s.files)
  | pipeReserve {s x t t' files' p} : s.task x = some (t, .ready) →
      pipeReserve t s.files = (t', files', some p) →
      FileStep s (.pipeReserve x) (s.put x t' (.piping p) files')
  | pipeRefused {s x t t' files'} : s.task x = some (t, .ready) →
      pipeReserve t s.files = (t', files', none) →
      FileStep s (.pipeReserve x) (s.put x t' .ready files')
  | pipeFinish {s x t p inode t' files' value} : s.task x = some (t, .piping p) →
      pipeFinish t s.files p inode = (t', files', value) →
      FileStep s (.pipeFinish x inode) (s.put x t' .ready files')
  | fork {s x y t} : s.task x = some (t, .ready) → s.task y = none →
      FileStep s (.fork x y) (s.put y { t with leader := false } .ready (copyFiles t s.files))
  | exec {s x t} : s.task x = some (t, .ready) → FileStep s (.exec x) (s.put x t (.execing 0) s.files)
  | execClose {s x t t' files' value inode} {i : Fin nrOpen} : s.task x = some (t, .execing i) →
      t.closeOnExec i = true → sysClose t s.files i = .ok (t', files', value, inode) →
      FileStep s (.exec x) (s.put x t' (.execing (i + 1)) files')
  | execKeep {s x t} {i : Fin nrOpen} : s.task x = some (t, .execing i) → t.closeOnExec i = false →
      FileStep s (.exec x) (s.put x t (.execing (i + 1)) s.files)
  | execEnd {s x t} : s.task x = some (t, .execing nrOpen) →
      FileStep s (.exec x) (s.put x { t with closeOnExec := fun _ => false } .ready s.files)
  | exit {s x t} : s.task x = some (t, .ready) → FileStep s (.exit x) (s.put x t (.exiting 0) s.files)
  | exitClose {s x t t' files' value inode} {i : Fin nrOpen} : s.task x = some (t, .exiting i) →
      t.filp i ≠ none → sysClose t s.files i = .ok (t', files', value, inode) →
      FileStep s (.exit x) (s.put x t' (.exiting (i + 1)) files')
  | exitSkip {s x t} {i : Fin nrOpen} : s.task x = some (t, .exiting i) → t.filp i = none →
      FileStep s (.exit x) (s.put x t (.exiting (i + 1)) s.files)
  | exitEnd {s x t} : s.task x = some (t, .exiting nrOpen) →
      FileStep s (.exit x) (s.put x t .zombie s.files)
  | release {s x t} : s.task x = some (t, .zombie) →
      FileStep s (.release x) { s with task := Function.update s.task x none }

/-- Task 0 alone, without open files. -/
def descriptorSystem (ι : Type*) : System (FileSys ι) (FileEvent ι) where
  init s := (∀ f, (s.files f).fCount = 0) ∧
    ∃ t : FileTask, (∀ fd, t.filp fd = none) ∧ s.task = fun x => if x = 0 then some (t, .ready) else none
  step := FileStep

abbrev Slots := Fin nrOpen → Option (Fin nrFile)

/-- One task's slots and the counts change alike, and an entry in use that the task does not refer to keeps its
count and gets no slot of the task. -/
structure Balanced (σ : Slots) (files : FileTable ι) (σ' : Slots) (files' : FileTable ι) : Prop where
  count : ∀ f, (files' f).fCount.toNat + refs σ f = (files f).fCount.toNat + refs σ' f
  apart : ∀ f, (files f).fCount ≠ 0 → (∀ fd, σ fd ≠ some f) →
    (files' f).fCount = (files f).fCount ∧ ∀ fd, σ' fd ≠ some f

section Balance

variable {σ σ' σ'' : Slots} {files files' files'' : FileTable ι} {fd : Fin nrOpen} {f g : Fin nrFile} {c : Word}

@[simp] lemma fCount_setCount_self : (files.setCount f c f).fCount = c := by
  rw [FileTable.setCount, Function.update_self]

lemma fCount_setCount_of_ne (h : g ≠ f) : (files.setCount f c g).fCount = (files g).fCount := by
  rw [FileTable.setCount, Function.update_of_ne h]

lemma Balanced.of_counts (h : ∀ f, (files' f).fCount = (files f).fCount) : Balanced σ files σ files' :=
  ⟨fun f => by rw [h], fun f _ hno => ⟨h f, hno⟩⟩

lemma Balanced.trans (h : Balanced σ files σ' files') (h' : Balanced σ' files' σ'' files'') :
    Balanced σ files σ'' files'' := by
  refine ⟨?_, ?_⟩
  · intro f
    have := h.count f
    have := h'.count f
    omega
  · intro f h₀ hno
    obtain ⟨hcount, hno'⟩ := h.apart f h₀ hno
    obtain ⟨hcount', hno''⟩ := h'.apart f (by rwa [hcount]) hno'
    exact ⟨hcount'.trans hcount, hno''⟩

lemma Balanced.set (hfd : σ fd = none) (hf : (files f).fCount = 0 ∨ ∃ fd', σ fd' = some f)
    (hlt : (files f).fCount.toNat + 1 < 65536) :
    Balanced σ files (Function.update σ fd (some f)) (files.setCount f ((files f).fCount + 1)) := by
  have hnext : ((files f).fCount + 1).toNat = (files f).fCount.toNat + 1 := by
    rw [BitVec.toNat_add]
    exact Nat.mod_eq_of_lt hlt
  refine ⟨?_, ?_⟩
  · intro g
    rw [refs_set hfd]
    by_cases hg : g = f
    · rw [hg, fCount_setCount_self, hnext, if_pos rfl]
      omega
    · rw [fCount_setCount_of_ne hg, if_neg hg, Nat.add_zero]
  · intro g h₀ hno
    have hg : g ≠ f := by
      rintro rfl
      rcases hf with hz | ⟨fd', hfd'⟩
      · exact h₀ hz
      · exact hno fd' hfd'
    refine ⟨fCount_setCount_of_ne hg, ?_⟩
    intro fd'
    by_cases heq : fd' = fd
    · rw [heq, Function.update_self]
      exact fun he => hg (Option.some.inj he).symm
    · rw [Function.update_of_ne heq]
      exact hno fd'

lemma Balanced.clear (hfd : σ fd = some f) (hc : c.toNat + 1 = (files f).fCount.toNat) :
    Balanced σ files (Function.update σ fd none) (files.setCount f c) := by
  refine ⟨?_, ?_⟩
  · intro g
    have hclear := refs_clear hfd g
    by_cases hg : g = f
    · rw [hg, fCount_setCount_self]
      rw [hg, if_pos rfl] at hclear
      omega
    · rw [fCount_setCount_of_ne hg]
      rw [if_neg hg] at hclear
      omega
  · intro g _ hno
    have hg : g ≠ f := by
      rintro rfl
      exact hno fd hfd
    refine ⟨fCount_setCount_of_ne hg, ?_⟩
    intro fd'
    by_cases heq : fd' = fd
    · rw [heq, Function.update_self]
      simp
    · rw [Function.update_of_ne heq]
      exact hno fd'

end Balance

section Calls

variable {t t' : FileTask} {files files' : FileTable ι} {fd : Fin nrOpen} {f : Fin nrFile}

lemma freeFd_spec {lo : ℕ} (h : t.freeFd lo = some fd) : t.filp fd = none := by
  have hfound := List.find?_some h
  simp only [Bool.and_eq_true, Option.isNone_iff_eq_none] at hfound
  exact hfound.2

lemma free_spec (h : files.free = some f) : (files f).fCount = 0 := by
  simpa using List.find?_some h

lemma openReserve_refused {e : ℤ} (h : openReserve t files = (t', files', .error e)) :
    t'.filp = t.filp ∧ files' = files := by
  unfold openReserve at h
  split at h
  · cases h
    exact ⟨rfl, rfl⟩
  · dsimp only at h
    split at h
    · cases h
      exact ⟨rfl, rfl⟩
    · cases h

lemma openReserve_ok (h : openReserve t files = (t', files', .ok (fd, f))) :
    Balanced t.filp files t'.filp files' ∧ t'.filp fd = some f ∧ (files' f).fCount = 1 := by
  unfold openReserve at h
  split at h
  · cases h
  next fd' hfd =>
    dsimp only at h
    split at h
    · cases h
    next f' hf =>
      cases h
      have hzero := free_spec hf
      refine ⟨Balanced.set (freeFd_spec hfd) (Or.inl hzero) (by rw [hzero]; decide), ?_, ?_⟩
      · exact Function.update_self _ _ _
      · rw [fCount_setCount_self, hzero]
        rfl

lemma openFail_balanced (hfd : t.filp fd = some f) (hone : (files f).fCount = 1) :
    Balanced t.filp files (openFail t files fd f).1.filp (openFail t files fd f).2 :=
  Balanced.clear hfd (by rw [hone]; rfl)

lemma openFinish_balanced {flag : Word} {r : Except ℤ (Opened ι)} {value : ℤ} (hfd : t.filp fd = some f)
    (hone : (files f).fCount = 1) (h : openFinish t files fd f flag r = (t', files', value)) :
    Balanced t.filp files t'.filp files' := by
  have hfail := openFail_balanced hfd hone
  unfold openFinish at h
  split at h
  · cases h
    exact hfail
  next o =>
    split at h
    · cases h
      exact hfail
    · have hkeep : ∀ g, (Function.update files f ⟨o.iMode, flag, 1, some o.inode, 0⟩ g).fCount =
          (files g).fCount := by
        intro g
        by_cases hg : g = f
        · rw [hg, Function.update_self, hone]
        · rw [Function.update_of_ne hg]
      cases h
      have hfilp : (if sIsChr o.iMode = true ∧ major o.rdev = 4 ∧ t.leader = true ∧ t.tty < 0 then
          { t with tty := minor o.rdev } else t).filp = t.filp := by split <;> rfl
      rw [hfilp]
      exact Balanced.of_counts hkeep

lemma sysClose_balanced {n : ℕ} {value : ℤ} {inode : Option ι}
    (h : sysClose t files n = .ok (t', files', value, inode)) :
    Balanced t.filp files t'.filp files' := by
  unfold sysClose at h
  split at h
  next hn =>
    dsimp only at h
    split at h
    · cases h
      exact Balanced.of_counts fun _ => rfl
    next f hf =>
      split at h
      · cases h
      next hne =>
        have hclear : Balanced t.filp files (Function.update t.filp ⟨n, hn⟩ none)
            (files.setCount f ((files f).fCount - 1)) := by
          refine Balanced.clear hf ?_
          have hpos : (files f).fCount.toNat ≠ 0 := fun hz => hne (BitVec.eq_of_toNat_eq hz)
          have hlt := (files f).fCount.isLt
          rw [BitVec.toNat_sub]
          change (2 ^ 16 - 1 + (files f).fCount.toNat) % 2 ^ 16 + 1 = _
          omega
        split at h
        · cases h
          exact hclear
        · cases h
          exact hclear
  next =>
    cases h
    exact Balanced.of_counts fun _ => rfl

lemma sysClose_filp {n : ℕ} {value : ℤ} {inode : Option ι}
    (h : sysClose t files n = .ok (t', files', value, inode)) (hn : n < nrOpen) :
    t'.filp = Function.update t.filp ⟨n, hn⟩ none := by
  unfold sysClose at h
  rw [dif_pos hn] at h
  dsimp only at h
  split at h
  next hnone =>
    cases h
    have hsame : Function.update t.filp ⟨n, hn⟩ none = t.filp := by
      change t.filp ⟨n, hn⟩ = none at hnone
      rw [← hnone, Function.update_eq_self]
    exact hsame.symm
  next =>
    split at h
    · cases h
    · split at h
      · cases h
        rfl
      · cases h
        rfl

lemma sysClose_closeOnExec {n : ℕ} {value : ℤ} {inode : Option ι}
    (h : sysClose t files n = .ok (t', files', value, inode)) (hn : n < nrOpen) :
    t'.closeOnExec = Function.update t.closeOnExec ⟨n, hn⟩ false := by
  unfold sysClose at h
  rw [dif_pos hn] at h
  dsimp only at h
  split at h
  · cases h
    rfl
  · split at h
    · cases h
    · split at h
      · cases h
        rfl
      · cases h
        rfl

lemma dupfd_balanced {n arg : ℕ} {value : ℤ} (hlt : ∀ f, (files f).fCount.toNat + 1 < 65536)
    (h : dupfd t files n arg = (t', files', value)) : Balanced t.filp files t'.filp files' := by
  have hsame : Balanced t.filp files t.filp files := Balanced.of_counts fun _ => rfl
  unfold dupfd at h
  split at h
  next hn =>
    split at h
    · cases h
      exact hsame
    next f hf =>
      split at h
      · cases h
        exact hsame
      · split at h
        · cases h
          exact hsame
        next fd hfd =>
          cases h
          exact Balanced.set (freeFd_spec hfd) (Or.inr ⟨_, hf⟩) (hlt f)
  next =>
    cases h
    exact hsame

lemma setCloseOnExec_filp {n : ℕ} {bit : Bool} {value : ℤ} (h : setCloseOnExec t n bit = (t', value)) :
    t'.filp = t.filp := by
  unfold setCloseOnExec at h
  split at h
  · split at h
    · cases h
      rfl
    · cases h
      rfl
  · cases h
    rfl

end Calls

section Picking

variable {σ α : Type*} {free : σ → α → Bool} {take : ℕ → σ → α → σ} {s : σ}

/-- Nothing, one place or two places have been taken, each free at that time. -/
inductive Picked (free : σ → α → Bool) (take : ℕ → σ → α → σ) (s : σ) : List α × σ → Prop
  | none : Picked free take s ([], s)
  | one {i} : free s i = true → Picked free take s ([i], take 0 s i)
  | two {i j} : free s i = true → free (take 0 s i) j = true → Picked free take s ([i, j], take 1 (take 0 s i) j)

lemma pickTwo_spec (free : σ → α → Bool) (take : ℕ → σ → α → σ) (range : List α) (s : σ) :
    Picked free take s (pickTwo free take range s) := by
  unfold pickTwo
  refine List.foldlRecOn range _ .none ?_
  intro r hr i _
  split
  next hi =>
    cases hr with
    | none => exact .one hi.2
    | one h₁ => exact .two h₁ hi.2
    | two => exact absurd hi.1 (by simp)
  next => exact hr

end Picking

section Pipes

variable {t t' : FileTask} {files files' : FileTable ι} {p : PipeEnds}

/-- The places a pipe holds while `get_pipe_inode` sleeps. -/
structure PipeHeld (t : FileTask) (files : FileTable ι) (p : PipeEnds) : Prop where
  slot₀ : t.filp p.fd₀ = some p.f₀
  slot₁ : t.filp p.fd₁ = some p.f₁
  count₀ : (files p.f₀).fCount = 1
  count₁ : (files p.f₁).fCount = 1
  ne : p.fd₀ ≠ p.fd₁
  ne' : p.f₀ ≠ p.f₁

inductive PipeFiles (files : FileTable ι) : List (Fin nrFile) × FileTable ι → Prop
  | none : PipeFiles files ([], files)
  | one {f₀} : (files f₀).fCount = 0 → PipeFiles files ([f₀], files.setCount f₀ 1)
  | two {f₀ f₁} : f₀ ≠ f₁ → (files f₀).fCount = 0 → (files f₁).fCount = 0 →
      PipeFiles files ([f₀, f₁], (files.setCount f₀ 1).setCount f₁ 1)

lemma pipeFiles_spec (files : FileTable ι) : PipeFiles files (pipeFiles files) := by
  have hone : ∀ {files : FileTable ι} {f}, (files f).fCount = 0 →
      files.setCount f ((files f).fCount + 1) = files.setCount f 1 := by
    intro files f hf
    rw [hf]
    rfl
  have hpick : Picked _ _ files (pipeFiles files) := pickTwo_spec _ _ _ _
  generalize pipeFiles files = r at hpick ⊢
  cases hpick with
  | none => exact .none
  | one h₀ =>
    have h₀ := of_decide_eq_true h₀
    rw [hone h₀]
    exact .one h₀
  | @two f₀ f₁ h₀ h₁ =>
    have h₀ := of_decide_eq_true h₀
    have h₁ := of_decide_eq_true h₁
    rw [hone h₁]
    rw [hone h₀] at h₁ ⊢
    have hne : f₀ ≠ f₁ := by
      rintro rfl
      rw [fCount_setCount_self] at h₁
      cases h₁
    rw [fCount_setCount_of_ne hne.symm] at h₁
    exact .two hne h₀ h₁

inductive PipeSlots (t : FileTask) (f₀ f₁ : Fin nrFile) : List (Fin nrOpen) × FileTask → Prop
  | none : PipeSlots t f₀ f₁ ([], t)
  | one {fd₀} : t.filp fd₀ = none → PipeSlots t f₀ f₁ ([fd₀], t.setFilp fd₀ (some f₀))
  | two {fd₀ fd₁} : fd₀ ≠ fd₁ → t.filp fd₀ = none → t.filp fd₁ = none →
      PipeSlots t f₀ f₁ ([fd₀, fd₁], (t.setFilp fd₀ (some f₀)).setFilp fd₁ (some f₁))

lemma pipeSlots_spec (t : FileTask) (f₀ f₁ : Fin nrFile) : PipeSlots t f₀ f₁ (pipeSlots t f₀ f₁) := by
  have hpick : Picked _ _ t (pipeSlots t f₀ f₁) := pickTwo_spec _ _ _ _
  generalize pipeSlots t f₀ f₁ = r at hpick ⊢
  cases hpick with
  | none => exact .none
  | one h₀ => exact .one (Option.isNone_iff_eq_none.mp h₀)
  | @two fd₀ fd₁ h₀ h₁ =>
    have h₀ := Option.isNone_iff_eq_none.mp h₀
    have h₁ : Function.update t.filp fd₀ (some f₀) fd₁ = none := Option.isNone_iff_eq_none.mp h₁
    have hne : fd₀ ≠ fd₁ := by
      rintro rfl
      rw [Function.update_self] at h₁
      cases h₁
    rw [Function.update_of_ne hne.symm] at h₁
    exact .two hne h₀ h₁

lemma setCount_undo {f : Fin nrFile} (h : (files f).fCount = 0) (c : Word) :
    (files.setCount f c).setCount f 0 = files := by
  have hf : { files f with fCount := 0 } = files f := by rw [← h]
  rw [FileTable.setCount, FileTable.setCount, Function.update_self, Function.update_idem, hf,
    Function.update_eq_self]

lemma setCount_comm {f g : Fin nrFile} (h : f ≠ g) (c d : Word) :
    (files.setCount f c).setCount g d = (files.setCount g d).setCount f c := by
  simp only [FileTable.setCount]
  rw [Function.update_of_ne h.symm, Function.update_of_ne h, Function.update_comm h]

lemma setCount_undo_two {f g : Fin nrFile} (hne : f ≠ g) (hf : (files f).fCount = 0) (hg : (files g).fCount = 0) :
    ((((files.setCount f 1).setCount g 1).setCount f 0).setCount g 0) = files := by
  rw [setCount_comm hne.symm, setCount_undo hf, setCount_undo hg]

lemma pipeReserve_refused (h : pipeReserve t files = (t', files', none)) : t'.filp = t.filp ∧ files' = files := by
  have hfiles := pipeFiles_spec files
  unfold pipeReserve at h
  generalize pipeFiles files = r at hfiles h
  cases hfiles with
  | none =>
    cases h
    exact ⟨rfl, rfl⟩
  | one h₀ =>
    cases h
    exact ⟨rfl, setCount_undo h₀ 1⟩
  | @two f₀ f₁ hne h₀ h₁ =>
    have hslots := pipeSlots_spec t f₀ f₁
    dsimp only at h
    generalize pipeSlots t f₀ f₁ = r at hslots h
    cases hslots with
    | none =>
      cases h
      exact ⟨rfl, setCount_undo_two hne h₀ h₁⟩
    | one hfd₀ =>
      cases h
      refine ⟨?_, setCount_undo_two hne h₀ h₁⟩
      change Function.update (Function.update t.filp _ _) _ none = t.filp
      rw [Function.update_idem, ← hfd₀, Function.update_eq_self]
    | two => cases h

lemma pipeReserve_ok (h : pipeReserve t files = (t', files', some p)) :
    Balanced t.filp files t'.filp files' ∧ PipeHeld t' files' p := by
  have hfiles := pipeFiles_spec files
  unfold pipeReserve at h
  generalize pipeFiles files = r at hfiles h
  cases hfiles with
  | none => cases h
  | one => cases h
  | @two f₀ f₁ hne h₀ h₁ =>
    have hslots := pipeSlots_spec t f₀ f₁
    dsimp only at h
    generalize pipeSlots t f₀ f₁ = r at hslots h
    cases hslots with
    | none => cases h
    | one => cases h
    | @two fd₀ fd₁ hfd hfd₀ hfd₁ =>
      cases h
      have hfirst : Balanced t.filp files (Function.update t.filp fd₀ (some f₀)) (files.setCount f₀ 1) := by
        have hset : Balanced t.filp files _ _ := Balanced.set hfd₀ (Or.inl h₀) (by rw [h₀]; decide)
        rwa [h₀] at hset
      have h₁' : (files.setCount f₀ 1 f₁).fCount = 0 := by rw [fCount_setCount_of_ne hne.symm, h₁]
      have hfd₁' : Function.update t.filp fd₀ (some f₀) fd₁ = none := by
        rw [Function.update_of_ne hfd.symm, hfd₁]
      have hsecond := Balanced.set hfd₁' (Or.inl h₁') (by rw [h₁']; decide)
      rw [h₁'] at hsecond
      refine ⟨hfirst.trans hsecond, ?_, ?_, ?_, ?_, hfd, hne⟩
      · change Function.update (Function.update t.filp fd₀ (some f₀)) fd₁ (some f₁) fd₀ = some f₀
        rw [Function.update_of_ne hfd, Function.update_self]
      · exact Function.update_self _ _ _
      · change ((files.setCount f₀ 1).setCount f₁ 1 f₀).fCount = 1
        rw [fCount_setCount_of_ne hne, fCount_setCount_self]
      · exact fCount_setCount_self

lemma pipeFinish_balanced {inode : Option ι} {value : ℤ} (hp : PipeHeld t files p)
    (h : pipeFinish t files p inode = (t', files', value)) : Balanced t.filp files t'.filp files' := by
  unfold pipeFinish at h
  split at h
  · cases h
    have hfirst : Balanced t.filp files (Function.update t.filp p.fd₁ none) (files.setCount p.f₁ 0) :=
      Balanced.clear hp.slot₁ (by rw [hp.count₁]; rfl)
    have hslot : Function.update t.filp p.fd₁ none p.fd₀ = some p.f₀ := by
      rw [Function.update_of_ne hp.ne, hp.slot₀]
    have hcount : (files.setCount p.f₁ 0 p.f₀).fCount = 1 := by
      rw [fCount_setCount_of_ne hp.ne', hp.count₀]
    exact hfirst.trans (Balanced.clear hslot (by rw [hcount]; rfl))
  · cases h
    refine Balanced.of_counts ?_
    intro f
    by_cases h₁ : f = p.f₁
    · rw [h₁, Function.update_self]
      change (Function.update files p.f₀ _ p.f₁).fCount = _
      rw [Function.update_of_ne hp.ne'.symm]
    · rw [Function.update_of_ne h₁]
      by_cases h₀ : f = p.f₀
      · rw [h₀, Function.update_self]
      · rw [Function.update_of_ne h₀]

end Pipes

lemma copyFiles_count {t : FileTask} {files : FileTable ι} {f : Fin nrFile}
    (hlt : ∀ f, (files f).fCount.toNat + nrOpen < 65536) :
    (copyFiles t files f).fCount.toNat = (files f).fCount.toNat + refs t.filp f := by
  have hlist : ∀ (l : List (Fin nrOpen)) (files : FileTable ι),
      (∀ f, (files f).fCount.toNat + l.length < 65536) →
      ((l.foldl (fun files i => (t.filp i).elim files fun f => files.setCount f ((files f).fCount + 1)) files)
        f).fCount.toNat = (files f).fCount.toNat + l.countP fun i => t.filp i = some f := by
    intro l
    induction l with
    | nil => exact fun _ _ => rfl
    | cons i l ih =>
      intro files hlt
      rw [List.foldl_cons, List.countP_cons]
      cases hi : t.filp i with
      | none =>
        rw [Option.elim_none, ih files (fun g => by have := hlt g; rw [List.length_cons] at this; omega)]
        simp
      | some g =>
        have hnext : ((files g).fCount + 1).toNat = (files g).fCount.toNat + 1 := by
          have := hlt g
          rw [List.length_cons] at this
          rw [BitVec.toNat_add]
          exact Nat.mod_eq_of_lt (by change _ + 1 < 65536; omega)
        have hcount : ∀ h, (files.setCount g ((files g).fCount + 1) h).fCount.toNat =
            (files h).fCount.toNat + if h = g then 1 else 0 := by
          intro h
          by_cases hh : h = g
          · rw [hh, fCount_setCount_self, hnext, if_pos rfl]
          · rw [fCount_setCount_of_ne hh, if_neg hh, Nat.add_zero]
        have hlt' : ∀ h, (files.setCount g ((files g).fCount + 1) h).fCount.toNat + l.length < 65536 := by
          intro h
          have := hlt h
          rw [List.length_cons] at this
          rw [hcount h]
          split <;> omega
        rw [Option.elim_some, ih _ hlt', hcount f]
        by_cases hf : f = g
        · rw [hf, if_pos rfl, if_pos (by simp)]
          omega
        · rw [if_neg hf, if_neg (by simpa using Ne.symm hf)]
          omega
  have hall := hlist (List.finRange nrOpen) files (by simpa using hlt)
  rw [refs_fin]
  exact hall

def Pending.Holds (t : FileTask) (files : FileTable ι) : Pending → Prop
  | .opening fd f _ => t.filp fd = some f ∧ (files f).fCount = 1
  | .piping p => PipeHeld t files p
  | .exiting i => ∀ fd : Fin nrOpen, fd.val < i → t.filp fd = none
  | .zombie => ∀ fd, t.filp fd = none
  | _ => True

structure Counted (s : FileSys ι) : Prop where
  count : ∀ f, (s.files f).fCount.toNat = refs s.slot f
  pending : ∀ x t p, s.task x = some (t, p) → p.Holds t s.files

section Tasks

variable {s s' : FileSys ι} {x y : Fin nrTasks} {t t' u : FileTask} {p p' q : Pending} {files' : FileTable ι}
  {f : Fin nrFile}

lemma Counted.count_le (h : Counted s) (f : Fin nrFile) : (s.files f).fCount.toNat ≤ 1280 := by
  have hle := refs_le s.slot f
  rw [Fintype.card_prod, Fintype.card_fin, Fintype.card_fin] at hle
  rw [h.count f]
  exact hle

/-- The row of a task in the table of all slots. -/
lemma slot_row (hx : s.task x = some (t, p)) : (fun fd => s.slot (x, fd)) = t.filp := by
  funext fd
  rw [FileSys.slot, hx]
  rfl

lemma slot_none (hx : s.task x = none) (fd : Fin nrOpen) : s.slot (x, fd) = none := by
  rw [FileSys.slot, hx]
  rfl

lemma put_task_self (s : FileSys ι) (x : Fin nrTasks) : (s.put x t' p' files').task x = some (t', p') :=
  Function.update_self _ _ _

lemma put_task_of_ne (h : y ≠ x) : (s.put x t' p' files').task y = s.task y := Function.update_of_ne h _ _

lemma slot_put_row : (fun fd => (s.put x t' p' files').slot (x, fd)) = t'.filp := slot_row (put_task_self s x)

lemma slot_put_of_ne (h : y ≠ x) (fd : Fin nrOpen) : (s.put x t' p' files').slot (y, fd) = s.slot (y, fd) := by
  rw [FileSys.slot, put_task_of_ne h, FileSys.slot]

/-- All references to an entry, before and after the slots of one task change. -/
lemma refs_put (s : FileSys ι) (x : Fin nrTasks) (t' : FileTask) (p' : Pending) (files' : FileTable ι)
    (f : Fin nrFile) :
    refs (s.put x t' p' files').slot f + refs (fun fd => s.slot (x, fd)) f = refs s.slot f + refs t'.filp f := by
  have hrest : ∀ y, y ≠ x → ∀ fd, (s.put x t' p' files').slot (y, fd) = s.slot (y, fd) :=
    fun y hy fd => slot_put_of_ne hy fd
  have hrow := refs_row hrest f
  rwa [slot_put_row] at hrow

lemma Counted.fCount_ne_zero (h : Counted s) {a : Fin nrTasks × Fin nrOpen} (ha : s.slot a = some f) :
    (s.files f).fCount ≠ 0 := by
  intro hz
  have hpos := refs_pos ha
  rw [← h.count f, hz] at hpos
  exact absurd hpos (Nat.lt_irrefl 0)

/-- An entry with one user is not referred to by any other task. -/
lemma Counted.not_slot (h : Counted s) (hone : (s.files f).fCount = 1) {fd : Fin nrOpen}
    (hy : s.slot (y, fd) = some f) (hne : y ≠ x) (fd' : Fin nrOpen) : s.slot (x, fd') ≠ some f := by
  intro hx
  have hrefs : refs s.slot f = 1 := by
    rw [← h.count f, hone]
    rfl
  exact hne (Prod.mk.inj (eq_of_refs_one hrefs hy hx)).1

lemma Holds.mono (hq : q.Holds u s.files)
    (hkeep : ∀ fd f, u.filp fd = some f → (s.files f).fCount = 1 → (files' f).fCount = 1) :
    q.Holds u files' := by
  cases q with
  | ready => trivial
  | opening fd f flag => exact ⟨hq.1, hkeep fd f hq.1 hq.2⟩
  | piping p =>
    exact ⟨hq.slot₀, hq.slot₁, hkeep _ _ hq.slot₀ hq.count₀, hkeep _ _ hq.slot₁ hq.count₁, hq.ne, hq.ne'⟩
  | dup2 => trivial
  | execing => trivial
  | exiting => exact hq
  | zombie => exact hq

lemma Counted.put (h : Counted s) (hx : s.task x = some (t, p))
    (hb : Balanced t.filp s.files t'.filp files') (hp' : p'.Holds t' files') :
    Counted (s.put x t' p' files') := by
  refine ⟨?_, ?_⟩
  · intro f
    have hrow := refs_put s x t' p' files' f
    rw [slot_row hx] at hrow
    have hcount := h.count f
    have hbal := hb.count f
    change (files' f).fCount.toNat = _
    omega
  · intro y u q hy
    by_cases hne : y = x
    · rw [hne, put_task_self] at hy
      cases hy
      exact hp'
    · rw [put_task_of_ne hne] at hy
      refine Holds.mono (h.pending y u q hy) ?_
      intro fd f hfd hone
      have hslot : s.slot (y, fd) = some f := by rw [FileSys.slot, hy]; exact hfd
      have hno : ∀ fd', t.filp fd' ≠ some f := by
        intro fd'
        have := h.not_slot hone hslot hne fd'
        rwa [FileSys.slot, hx] at this
      exact (hb.apart f (h.fCount_ne_zero hslot) hno).1.trans hone

lemma Counted.fork (h : Counted s) (hx : s.task x = some (t, .ready)) (hy : s.task y = none)
    (hfilp : t'.filp = t.filp) : Counted (s.put y t' .ready (copyFiles t s.files)) := by
  have hlt : ∀ f, (s.files f).fCount.toNat + nrOpen < 65536 := by
    intro f
    have := h.count_le f
    change _ + 20 < 65536
    omega
  refine ⟨?_, ?_⟩
  · intro f
    have hrow := refs_put s y t' .ready (copyFiles t s.files) f
    have hzero : refs (fun fd => s.slot (y, fd)) f = 0 := refs_eq_zero fun fd => by rw [slot_none hy]; simp
    rw [hzero, hfilp] at hrow
    change (copyFiles t s.files f).fCount.toNat = _
    rw [copyFiles_count hlt, h.count f]
    omega
  · intro z u q hz
    by_cases hne : z = y
    · rw [hne, put_task_self] at hz
      cases hz
      trivial
    · rw [put_task_of_ne hne] at hz
      by_cases hzx : z = x
      · rw [hzx, hx] at hz
        cases hz
        trivial
      · refine Holds.mono (h.pending z u q hz) ?_
        intro fd f hfd hone
        have hslot : s.slot (z, fd) = some f := by rw [FileSys.slot, hz]; exact hfd
        have hno : refs t.filp f = 0 := by
          rw [← slot_row hx]
          exact refs_eq_zero (h.not_slot hone hslot hzx)
        apply BitVec.eq_of_toNat_eq
        change (copyFiles t s.files f).fCount.toNat = _
        rw [copyFiles_count hlt, hno, hone, Nat.add_zero]

lemma Counted.release (h : Counted s) (hx : s.task x = some (t, .zombie)) :
    Counted { s with task := Function.update s.task x none } := by
  have hnone : ∀ fd, t.filp fd = none := h.pending x t _ hx
  refine ⟨?_, ?_⟩
  · intro f
    have hslot : (FileSys.slot { s with task := Function.update s.task x none }) = s.slot := by
      funext q
      simp only [FileSys.slot]
      by_cases hq : q.1 = x
      · rw [hq, hx, Function.update_self]
        exact (hnone q.2).symm
      · rw [Function.update_of_ne hq]
    rw [hslot]
    exact h.count f
  · intro y u q hy
    by_cases hne : y = x
    · rw [hne] at hy
      simp only [Function.update_self] at hy
      cases hy
    · simp only [Function.update_of_ne hne] at hy
      exact h.pending y u q hy

lemma Counted.quiet (h : Counted s) (hx : s.task x = some (t, p)) (hfilp : t'.filp = t.filp)
    (hp' : p'.Holds t' s.files) : Counted (s.put x t' p' s.files) := by
  refine h.put hx ?_ hp'
  rw [hfilp]
  exact Balanced.of_counts fun _ => rfl

lemma exiting_next {i : Fin nrOpen} (h : ∀ fd : Fin nrOpen, fd.val < i.val → t.filp fd = none)
    (hkeep : ∀ fd, t.filp fd = none → t'.filp fd = none) (hi : t'.filp i = none) (fd : Fin nrOpen)
    (hfd : fd.val < i.val + 1) : t'.filp fd = none := by
  by_cases heq : fd = i
  · rw [heq, hi]
  · have hne : fd.val ≠ i.val := fun hv => heq (Fin.ext hv)
    exact hkeep fd (h fd (by omega))

lemma Counted.step (h : Counted s) {e : FileEvent ι} (hstep : FileStep s e s') : Counted s' := by
  have hlt : ∀ f, (s.files f).fCount.toNat + 1 < 65536 := by
    intro f
    have := h.count_le f
    omega
  cases hstep with
  | openReserve hx hcall =>
    obtain ⟨hb, hslot, hone⟩ := openReserve_ok hcall
    exact h.put hx hb ⟨hslot, hone⟩
  | openRefused hx hcall =>
    obtain ⟨hfilp, rfl⟩ := openReserve_refused hcall
    exact h.quiet hx hfilp trivial
  | openFinish hx hcall =>
    obtain ⟨hslot, hone⟩ := h.pending _ _ _ hx
    exact h.put hx (openFinish_balanced hslot hone hcall) trivial
  | close hx hcall => exact h.put hx (sysClose_balanced hcall) trivial
  | dup hx hcall => exact h.put hx (dupfd_balanced hlt hcall) trivial
  | dup2 hx hcall => exact h.put hx (sysClose_balanced hcall) trivial
  | dup2End hx hcall => exact h.put hx (dupfd_balanced hlt hcall) trivial
  | setCloseOnExec hx hcall => exact h.quiet hx (setCloseOnExec_filp hcall) trivial
  | pipeReserve hx hcall =>
    obtain ⟨hb, hheld⟩ := pipeReserve_ok hcall
    exact h.put hx hb hheld
  | pipeRefused hx hcall =>
    obtain ⟨hfilp, rfl⟩ := pipeReserve_refused hcall
    exact h.quiet hx hfilp trivial
  | pipeFinish hx hcall => exact h.put hx (pipeFinish_balanced (h.pending _ _ _ hx) hcall) trivial
  | fork hx hy => exact h.fork hx hy rfl
  | exec hx => exact h.quiet hx rfl trivial
  | execClose hx _ hcall => exact h.put hx (sysClose_balanced hcall) trivial
  | execKeep hx => exact h.quiet hx rfl trivial
  | execEnd hx => exact h.quiet hx rfl trivial
  | exit hx => exact h.quiet hx rfl (fun _ hfd => absurd hfd (Nat.not_lt_zero _))
  | @exitClose _ _ _ _ _ _ i hx _ hcall =>
    refine h.put hx (sysClose_balanced hcall) ?_
    have hfilp := sysClose_filp hcall i.isLt
    refine exiting_next (h.pending _ _ _ hx) ?_ ?_
    · intro fd hfd
      rw [hfilp]
      by_cases heq : fd = i
      · rw [heq, Function.update_self]
      · rw [Function.update_of_ne heq, hfd]
    · rw [hfilp, Function.update_self]
  | exitSkip hx hnone => exact h.quiet hx rfl (exiting_next (h.pending _ _ _ hx) (fun _ => id) hnone)
  | exitEnd hx => exact h.quiet hx rfl (fun fd => h.pending _ _ _ hx fd fd.isLt)
  | release hx => exact h.release hx

end Tasks

lemma counted_of_reach {s : FileSys ι} (h : (descriptorSystem ι).Reach (fun _ _ => True) s) : Counted s := by
  refine System.Reach.invariant ?_ (fun _ _ _ hs _ hstep => hs.step hstep) h
  rintro s ⟨hcount, t, hnone, htask⟩
  have hslot : ∀ q, s.slot q = none := by
    intro q
    rw [FileSys.slot, htask]
    dsimp only
    split
    · exact hnone q.2
    · rfl
  refine ⟨?_, ?_⟩
  · intro f
    rw [hcount f, refs_eq_zero (fun q => by rw [hslot q]; simp)]
    rfl
  · intro x u p hx
    rw [htask] at hx
    dsimp only at hx
    split at hx
    · cases hx
      trivial
    · cases hx

/-- In every reachable state `f_count` is the number of slots that refer to the entry, over all tasks, and no
slot refers to an entry with `f_count` 0. -/
theorem descriptors_counted {s : FileSys ι} (h : (descriptorSystem ι).Reach (fun _ _ => True) s) :
    (∀ f, (s.files f).fCount.toNat =
      (Finset.univ.filter fun q : Fin nrTasks × Fin nrOpen => s.slot q = some f).card) ∧
    ∀ q f, s.slot q = some f → (s.files f).fCount ≠ 0 :=
  ⟨(counted_of_reach h).count, fun _ _ hq => (counted_of_reach h).fCount_ne_zero hq⟩

def bootFiles : FileSys Unit where
  task x := if x = 0 then some (⟨fun _ => none, fun _ => false, false, -1⟩, .ready) else none
  files _ := ⟨0, 0, 0, none, 0⟩

theorem descriptors_counted_open :
    ∃ s : FileSys Unit, s.slot (0, 0) = some 0 ∧ (s.files 0).fCount ≠ 0 := by
  have hinit : (descriptorSystem Unit).init bootFiles := ⟨fun _ => rfl, _, fun _ => rfl, rfl⟩
  have hstep : FileStep bootFiles (.openReserve 0 0) _ := .openReserve rfl rfl
  have hreach : (descriptorSystem Unit).Reach (fun _ _ => True) _ := .next (.start hinit) trivial hstep
  exact ⟨_, rfl, (descriptors_counted hreach).2 (0, 0) 0 rfl⟩

end Devos.Fs
