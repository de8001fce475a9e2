import Devos.Fs.DescriptorCounts
import Devos.Fs.OpenNamei
import Devos.Fs.PlainFile

/-! One process and its children at the open files of a disk: what they can do to a file that they may not
write to. -/

namespace Devos.Fs

open Loops Security Runs RefCount

inductive Node where
  | disk (n : Word)
  | pipe (i : ℕ)
  deriving DecidableEq

structure Users where
  files : FileSys Node
  store : Store
  family : Fin nrTasks → Bool

inductive WriteTo where
  | nothing
  | raw (f : Fin nrFile) (rdev : Word)
  | file (f : Fin nrFile) (n : Word)

/-- What a call of `sys_write` writes to, as far as it is on a disk. -/
def sysWrite (t : FileTask) (files : FileTable Node) (s : Store) (fd : ℕ) (count : ℤ) : Except Fault WriteTo :=
  if h : fd < nrOpen then
    match t.filp ⟨fd, h⟩ with
    | none => .ok .nothing
    | some f =>
      if count ≤ 0 then .ok .nothing
      else
        match (files f).fInode with
        | none => .error .badPointer
        | some (.pipe _) => .ok .nothing
        | some (.disk n) =>
          if sIsChr (s.inodes n).iMode then .ok .nothing
          else if sIsBlk (s.inodes n).iMode then .ok (.raw f ((s.inodes n).zone 0))
          else if sIsReg (s.inodes n).iMode then .ok (.file f n)
          else .ok .nothing
  else .ok .nothing

def FileTable.setPos {ι : Type*} (files : FileTable ι) (f : Fin nrFile) (pos : ℤ) : FileTable ι :=
  Function.update files f { files f with fPos := pos }

def opened (s : Store) (r : Except ℤ Word) : Except ℤ (Opened Node) :=
  r.map fun n => ⟨.disk n, (s.inodes n).iMode, (s.inodes n).zone 0⟩

-- a process without a terminal cannot open `/dev/tty`
def ttyRelease (busy : Word → Word → Bool) (t : FileTask) (s : Store) (r : Except ℤ Word) : Except Fault Store :=
  match r with
  | .ok n => if sIsChr (s.inodes n).iMode ∧ major ((s.inodes n).zone 0) = 5 ∧ t.tty < 0 then s.iput busy n else .ok s
  | .error _ => .ok s

def Store.release (busy : Word → Word → Bool) (s : Store) : Option Node → Except Fault Store
  | some (.disk n) => s.iput busy n
  | _ => .ok s

inductive UserEvent where
  | openReserve (x : Fin nrTasks) (flag : Word)
  | openFinish (x : Fin nrTasks) (pathname : List Byte) (mode : Word)
  | close (x : Fin nrTasks) (fd : ℕ)
  | dup (x : Fin nrTasks) (fd arg : ℕ)
  | dup2 (x : Fin nrTasks) (oldfd newfd : ℕ)
  | fork (x y : Fin nrTasks)
  | lseek (x : Fin nrTasks) (fd : Fin nrOpen) (offset : BitVec 32) (origin : ℤ)
  | write (x : Fin nrTasks) (fd : ℕ) (count : ℤ) (buf : ℕ → Byte)

/-- `block_write` on another device, and inside of its first buffer. -/
def Apart (dev rdev : Word) (fPos count : ℤ) : Prop :=
  rdev ≠ dev ∧ fPos.toNat % blockSize + min count.toNat blockSize ≤ blockSize

/-- The calls of the family on the file system of device `dev`. What `block_write` does to that device, or to
other buffers when it runs behind its own, is left open. -/
inductive UserStep (c : Caller) (dev : Word) : Users → UserEvent → Users → Prop
  | openReserve {s x flag files'} : s.family x = true → FileStep s.files (.openReserve x flag) files' →
      UserStep c dev s (.openReserve x flag) { s with files := files' }
  | openFinish {s x pathname mode t fd f flag busy store r store' t' files' value} : s.family x = true →
      s.files.task x = some (t, .opening fd f flag) →
      s.store.openNamei c busy pathname flag mode = .ok (store, r) →
      ttyRelease busy t store r = .ok store' →
      openFinish t s.files.files fd f flag (opened store r) = (t', files', value) →
      UserStep c dev s (.openFinish x pathname mode)
        { s with files := s.files.put x t' .ready files', store := store' }
  | close {s x fd t t' files' value inode busy store'} : s.family x = true →
      s.files.task x = some (t, .ready) → sysClose t s.files.files fd = .ok (t', files', value, inode) →
      s.store.release busy inode = .ok store' →
      UserStep c dev s (.close x fd) { s with files := s.files.put x t' .ready files', store := store' }
  | dup {s x fd arg files'} : s.family x = true → FileStep s.files (.dup x fd arg) files' →
      UserStep c dev s (.dup x fd arg) { s with files := files' }
  | dup2 {s x oldfd newfd t t' files' value inode busy store'} : s.family x = true →
      s.files.task x = some (t, .ready) → sysClose t s.files.files newfd = .ok (t', files', value, inode) →
      s.store.release busy inode = .ok store' →
      UserStep c dev s (.dup2 x oldfd newfd)
        { s with files := s.files.put x t' (.dup2 oldfd newfd) files', store := store' }
  | dup2End {s x oldfd newfd t t' files' value} : s.family x = true →
      s.files.task x = some (t, .dup2 oldfd newfd) →
      dupfd t s.files.files oldfd newfd = (t', files', value) →
      UserStep c dev s (.dup2 x oldfd newfd) { s with files := s.files.put x t' .ready files' }
  | fork {s x y files'} : s.family x = true → FileStep s.files (.fork x y) files' →
      UserStep c dev s (.fork x y) { s with files := files', family := Function.update s.family y true }
  | lseek {s x fd offset origin t f n} : s.family x = true → s.files.task x = some (t, .ready) →
      t.filp fd = some f → (s.files.files f).fInode = some (.disk n) →
      UserStep c dev s (.lseek x fd offset origin)
        { s with files := s.files.put x t .ready (s.files.files.setPos f
          (sysLseek (s.store.inodes n).iSize (s.files.files f).fPos.toNat offset origin).2) }
  | writeNothing {s x fd count buf t} : s.family x = true → s.files.task x = some (t, .ready) →
      sysWrite t s.files.files s.store fd count = .ok .nothing → UserStep c dev s (.write x fd count buf) s
  | writeFile {s x fd count buf t f n keys table scratchD scratchE r} : s.family x = true →
      s.files.task x = some (t, .ready) → sysWrite t s.files.files s.store fd count = .ok (.file f n) →
      fileWrite keys table scratchD scratchE s.store.volume (s.store.inodes n)
        (decide ((s.files.files f).fFlags &&& oAppend ≠ 0)) (s.files.files f).fPos.toNat buf count.toNat = .ok r →
      UserStep c dev s (.write x fd count buf)
        { s with
          files := s.files.put x t .ready (s.files.files.setPos f r.fPos)
          store := s.store.setInode n r.volume r.inode }
  | writeApart {s x fd count buf t f rdev pos} : s.family x = true → s.files.task x = some (t, .ready) →
      sysWrite t s.files.files s.store fd count = .ok (.raw f rdev) →
      Apart dev rdev (s.files.files f).fPos count →
      UserStep c dev s (.write x fd count buf) { s with files := s.files.put x t .ready (s.files.files.setPos f pos) }
  | writeRaw {s x fd count buf t f rdev pos store'} : s.family x = true → s.files.task x = some (t, .ready) →
      sysWrite t s.files.files s.store fd count = .ok (.raw f rdev) →
      ¬ Apart dev rdev (s.files.files f).fPos count →
      UserStep c dev s (.write x fd count buf)
        { s with files := s.files.put x t .ready (s.files.files.setPos f pos), store := store' }

def userSystem (c : Caller) (dev : Word) (s₀ : Users) : System Users UserEvent where
  init s := s = s₀
  step := UserStep c dev

/-- A file is written to through descriptors that have been opened for that, a block device does not reach the
file system, and no call gives back the last reference to the file when it has lost its links. -/
def Obeys (dev t : Word) (s : Users) : UserEvent → Prop
  | .write x fd count _ => ∀ task p w, s.files.task x = some (task, p) →
      sysWrite task s.files.files s.store fd count = .ok w →
      (∀ f, w = .file f t → AsksWrite (s.files.files f).fFlags) ∧
        ∀ f rdev, w = .raw f rdev → Apart dev rdev (s.files.files f).fPos count
  | .openFinish .. => s.store.Outlasts t []
  | .close x fd => ∀ fd' f, fd'.val = fd → s.files.slot (x, fd') = some f →
      (s.files.files f).fCount = 1 → (s.files.files f).fInode = some (.disk t) → s.store.Outlasts t [t]
  | .dup2 x _ fd => ∀ fd' f, fd'.val = fd → s.files.slot (x, fd') = some f →
      (s.files.files f).fCount = 1 → (s.files.files f).fInode = some (.disk t) → s.store.Outlasts t [t]
  | _ => True

def RowReadOnly (t : Word) (files : FileTable Node) (task : FileTask) (p : Pending) : Prop :=
  ∀ fd f, task.filp fd = some f → (∀ flag, p ≠ .opening fd f flag) →
    (files f).fInode = some (.disk t) → ¬ AsksWrite (files f).fFlags

/-- The family's descriptors of file `t` have been opened to read alone, and it may not write to it. -/
structure Denied (c : Caller) (t : Word) (s : Users) : Prop where
  counted : Counted s.files
  allotted : s.store.Allotted t
  denied : s.store.permission c t mayWrite = 0
  readOnly : ∀ x task p, s.family x = true → s.files.task x = some (task, p) → RowReadOnly t s.files.files task p

def SameEntries {ι : Type*} (files files' : FileTable ι) : Prop :=
  ∀ f, (files' f).fInode = (files f).fInode ∧ (files' f).fFlags = (files f).fFlags

section Entries

variable {ι : Type*} {t t' : FileTask} {files files' : FileTable ι} {fd : Fin nrOpen} {f : Fin nrFile}

lemma SameEntries.refl (files : FileTable ι) : SameEntries files files := fun _ => ⟨rfl, rfl⟩

lemma SameEntries.trans {files'' : FileTable ι} (h : SameEntries files files') (h' : SameEntries files' files'') :
    SameEntries files files'' :=
  fun f => ⟨(h' f).1.trans (h f).1, (h' f).2.trans (h f).2⟩

lemma sameEntries_update (f : Fin nrFile) {e : File ι} (hi : e.fInode = (files f).fInode)
    (hf : e.fFlags = (files f).fFlags) : SameEntries files (Function.update files f e) := by
  intro g
  by_cases hg : g = f
  · rw [hg, Function.update_self]
    exact ⟨hi, hf⟩
  · rw [Function.update_of_ne hg]
    exact ⟨rfl, rfl⟩

lemma sameEntries_setCount (files : FileTable ι) (f : Fin nrFile) (c : Word) :
    SameEntries files (files.setCount f c) := sameEntries_update f rfl rfl

lemma sameEntries_setPos (files : FileTable ι) (f : Fin nrFile) (pos : ℤ) :
    SameEntries files (files.setPos f pos) := sameEntries_update f rfl rfl

lemma slot_of_set {g : Fin nrFile} {fd' : Fin nrOpen} (h : Function.update t.filp fd (some f) fd' = some g) :
    t.filp fd' = some g ∨ fd' = fd ∧ g = f := by
  by_cases hfd : fd' = fd
  · rw [hfd, Function.update_self] at h
    exact Or.inr ⟨hfd, (Option.some.inj h).symm⟩
  · rw [Function.update_of_ne hfd] at h
    exact Or.inl h

lemma slot_of_clear {g : Fin nrFile} {fd' : Fin nrOpen} (h : Function.update t.filp fd none fd' = some g) :
    fd' ≠ fd ∧ t.filp fd' = some g := by
  by_cases hfd : fd' = fd
  · rw [hfd, Function.update_self] at h
    cases h
  · rw [Function.update_of_ne hfd] at h
    exact ⟨hfd, h⟩

lemma openReserve_slots (h : openReserve t files = (t', files', .ok (fd, f))) : SameEntries files files' ∧
    ∀ fd' g, t'.filp fd' = some g → t.filp fd' = some g ∨ fd' = fd ∧ g = f := by
  unfold openReserve at h
  split at h
  · cases h
  · dsimp only at h
    split at h
    · cases h
    · cases h
      exact ⟨sameEntries_setCount _ _ _, fun _ _ => slot_of_set⟩

/-- `sys_close` takes slots away, and gives back the inode of an entry that had its last one. -/
lemma sysClose_slots {n : ℕ} {value : ℤ} {inode : Option ι} (h : sysClose t files n = .ok (t', files', value, inode)) :
    SameEntries files files' ∧ (∀ fd g, t'.filp fd = some g → t.filp fd = some g) ∧
      (inode ≠ none → ∃ fd' g, fd'.val = n ∧ t.filp fd' = some g ∧ (files g).fCount = 1 ∧
        inode = (files g).fInode) := by
  unfold sysClose at h
  split at h
  next hn =>
    dsimp only at h
    split at h
    · cases h
      exact ⟨.refl files, fun _ _ => id, fun hne => absurd rfl hne⟩
    next g hg =>
      split at h
      · cases h
      next hne =>
        have hslots : ∀ fd g', Function.update t.filp ⟨n, hn⟩ none fd = some g' → t.filp fd = some g' :=
          fun fd g' he => (slot_of_clear he).2
        have hsame := sameEntries_setCount files g ((files g).fCount - 1)
        split at h
        · cases h
          exact ⟨hsame, hslots, fun hnone => absurd rfl hnone⟩
        next hzero =>
          cases h
          refine ⟨hsame, hslots, fun _ => ⟨⟨n, hn⟩, g, rfl, hg, ?_, (hsame g).1⟩⟩
          rw [fCount_setCount_self, not_not] at hzero
          exact sub_eq_zero.mp hzero
  next =>
    cases h
    exact ⟨.refl files, fun _ _ => id, fun hne => absurd rfl hne⟩

lemma dupfd_slots {n arg : ℕ} {value : ℤ} (h : dupfd t files n arg = (t', files', value)) :
    SameEntries files files' ∧ ∀ fd g, t'.filp fd = some g → ∃ fd', t.filp fd' = some g := by
  have hsame : SameEntries files files ∧ ∀ fd g, t.filp fd = some g → ∃ fd', t.filp fd' = some g :=
    ⟨.refl files, fun fd g hg => ⟨fd, hg⟩⟩
  unfold dupfd at h
  split at h
  next hn =>
    split at h
    · cases h
      exact hsame
    next f hf =>
      split at h
      · cases h
        exact hsame
      · split at h
        · cases h
          exact hsame
        · cases h
          refine ⟨sameEntries_setCount _ _ _, fun fd g hg => ?_⟩
          rcases slot_of_set hg with hg | ⟨_, rfl⟩
          · exact ⟨fd, hg⟩
          · exact ⟨_, hf⟩
  next =>
    cases h
    exact hsame

/-- A call of `sys_open` that fails clears the slot; one that succeeds fills the entry. -/
lemma openFinish_slots {flag : Word} {r : Except ℤ (Opened ι)} {value : ℤ}
    (h : openFinish t files fd f flag r = (t', files', value)) :
    (SameEntries files files' ∧ ∀ fd' g, t'.filp fd' = some g → fd' ≠ fd ∧ t.filp fd' = some g) ∨
      t'.filp = t.filp ∧ (∀ g, g ≠ f → files' g = files g) ∧ (files' f).fFlags = flag ∧
        ∃ o, r = .ok o ∧ (files' f).fInode = some o.inode := by
  have hfail : SameEntries files (openFail t files fd f).2 ∧
      ∀ fd' g, (openFail t files fd f).1.filp fd' = some g → fd' ≠ fd ∧ t.filp fd' = some g :=
    ⟨sameEntries_setCount _ _ _, fun _ _ => slot_of_clear⟩
  unfold openFinish at h
  split at h
  · cases h
    exact Or.inl hfail
  next o =>
    split at h
    · cases h
      exact Or.inl hfail
    · cases h
      refine Or.inr ⟨?_, fun g hg => Function.update_of_ne hg _ _, ?_, o, rfl, ?_⟩
      · split <;> rfl
      · rw [Function.update_self]
      · rw [Function.update_self]

lemma copyFiles_slots (t : FileTask) (files : FileTable ι) : SameEntries files (copyFiles t files) := by
  have hlist : ∀ (l : List (Fin nrOpen)) (files : FileTable ι), SameEntries files
      (l.foldl (fun files i => (t.filp i).elim files fun f => files.setCount f ((files f).fCount + 1)) files) := by
    intro l
    induction l with
    | nil => exact fun files => .refl files
    | cons i l ih =>
      intro files
      rw [List.foldl_cons]
      refine SameEntries.trans ?_ (ih _)
      cases t.filp i with
      | none => exact .refl files
      | some f => exact sameEntries_setCount _ _ _
  exact hlist _ files

end Entries

section Denied

variable {c : Caller} {dev t : Word} {s s' : Users} {x : Fin nrTasks} {task task' : FileTask} {p p' : Pending}
  {files' : FileTable Node} {store' : Store}

lemma RowReadOnly.slots (h : RowReadOnly t s.files.files task p) (hp : ∀ fd f flag, p ≠ .opening fd f flag)
    (hsame : SameEntries s.files.files files')
    (hslots : ∀ fd f, task'.filp fd = some f → (∀ flag, p' ≠ .opening fd f flag) → ∃ fd', task.filp fd' = some f) :
    RowReadOnly t files' task' p' := by
  intro fd f hfd hpend hinode
  obtain ⟨fd', hfd'⟩ := hslots fd f hfd hpend
  rw [(hsame f).1] at hinode
  rw [(hsame f).2]
  exact h fd' f hfd' (hp fd' f) hinode

lemma Denied.put (h : Denied c t s) (hk : s.store.Kept t store')
    (hcounted : Counted (s.files.put x task' p' files')) (hrow : RowReadOnly t files' task' p')
    (hothers : ∀ y, y ≠ x → ∀ fd f, s.files.slot (y, fd) = some f →
      (files' f).fInode = (s.files.files f).fInode ∧ (files' f).fFlags = (s.files.files f).fFlags)
    (family : Fin nrTasks → Bool) (hfamily : ∀ y, y ≠ x → family y = s.family y) :
    Denied c t ⟨s.files.put x task' p' files', store', family⟩ := by
  refine ⟨hcounted, hk.allotted, by rw [hk.permission, h.denied], ?_⟩
  intro y u q hy htask
  by_cases hne : y = x
  · subst hne
    rw [put_task_self] at htask
    cases htask
    exact hrow
  · change (s.files.put x task' p' files').task y = some (u, q) at htask
    rw [put_task_of_ne hne] at htask
    intro fd f hfd hpend hinode
    obtain ⟨hi, hf⟩ := hothers y hne fd f (by rw [FileSys.slot, htask]; exact hfd)
    change (files' f).fInode = _ at hinode
    change ¬ AsksWrite (files' f).fFlags
    rw [hi] at hinode
    rw [hf]
    have hy' : s.family y = true := (hfamily y hne).symm.trans hy
    exact h.readOnly y u q hy' htask fd f hfd hpend hinode

lemma ttyRelease_kept {store : Store} {busy : Word → Word → Bool} {r : Except ℤ Word} (h : store.Allotted t)
    (ho : store.Outlasts t r.toOption.toList) (hs : ttyRelease busy task store r = .ok store') :
    store.Kept t store' := by
  unfold ttyRelease at hs
  split at hs
  · split at hs
    · exact (iput_kept h ho hs).1
    · cases hs
      exact h.kept
  · cases hs
    exact h.kept

/-- What `sys_close` gives back can be spared. -/
lemma release_kept {busy : Word → Word → Bool} {inode : Option Node} (h : s.store.Allotted t)
    (ho : inode = some (.disk t) → s.store.Outlasts t [t]) (hs : s.store.release busy inode = .ok store') :
    s.store.Kept t store' := by
  unfold Store.release at hs
  split at hs
  next n => exact (iput_frame h (fun hn => ho (by rw [hn])) hs).1
  next =>
    cases hs
    exact h.kept

lemma Denied.put_same (h : Denied c t s) (hk : s.store.Kept t store')
    (hcounted : Counted (s.files.put x task' p' files')) (hsame : SameEntries s.files.files files')
    (hrow : RowReadOnly t files' task' p') :
    Denied c t { s with files := s.files.put x task' p' files', store := store' } :=
  h.put hk hcounted hrow (fun _ _ _ f _ => hsame f) s.family fun _ _ => rfl

lemma Denied.close (h : Denied c t s) (hx : s.family x = true) (htask : s.files.task x = some (task, .ready))
    {fd : ℕ} {value : ℤ} {inode : Option Node} {busy : Word → Word → Bool}
    (hcall : sysClose task s.files.files fd = .ok (task', files', value, inode))
    (hput : s.store.release busy inode = .ok store')
    (hlast : ∀ fd' f, fd'.val = fd → s.files.slot (x, fd') = some f →
      (s.files.files f).fCount = 1 → (s.files.files f).fInode = some (.disk t) → s.store.Outlasts t [t])
    (hcounted : Counted (s.files.put x task' p' files')) :
    s.store.Kept t store' ∧ Denied c t { s with files := s.files.put x task' p' files', store := store' } := by
  obtain ⟨hsame, hslots, hinode⟩ := sysClose_slots hcall
  have hk : s.store.Kept t store' := by
    refine release_kept h.allotted ?_ hput
    intro he
    obtain ⟨fd', g, hfd, hg, hone, hi⟩ := hinode (by rw [he]; simp)
    exact hlast fd' g hfd (by rw [FileSys.slot, htask]; exact hg) hone (hi.symm.trans he)
  refine ⟨hk, h.put_same hk hcounted hsame ?_⟩
  exact (h.readOnly x task _ hx htask).slots (fun _ _ _ he => by cases he) hsame
    fun fd f hfd _ => ⟨fd, hslots fd f hfd⟩

/-- A step that only moves the position of an open file. -/
lemma Denied.setPos (h : Denied c t s) (hx : s.family x = true) (htask : s.files.task x = some (task, .ready))
    (hk : s.store.Kept t store') (f : Fin nrFile) (pos : ℤ) :
    Denied c t { s with files := s.files.put x task .ready (s.files.files.setPos f pos), store := store' } := by
  have hsame := sameEntries_setPos s.files.files f pos
  have hcount : ∀ g, (s.files.files.setPos f pos g).fCount = (s.files.files g).fCount := by
    intro g
    by_cases hg : g = f
    · rw [hg, FileTable.setPos, Function.update_self]
    · rw [FileTable.setPos, Function.update_of_ne hg]
  refine h.put_same hk (h.counted.put htask (Balanced.of_counts hcount) trivial) hsame ?_
  exact (h.readOnly x task _ hx htask).slots (fun _ _ _ he => by cases he) hsame fun fd f hfd _ => ⟨fd, hfd⟩

lemma sysWrite_file {fd : ℕ} {count : ℤ} {f : Fin nrFile} {n : Word}
    (h : sysWrite task s.files.files s.store fd count = .ok (.file f n)) :
    sIsReg (s.store.inodes n).iMode = true ∧ (s.files.files f).fInode = some (.disk n) ∧
      ∃ fd', task.filp fd' = some f := by
  unfold sysWrite at h
  split at h
  · split at h
    · cases h
    next g hg =>
      split at h
      · cases h
      · split at h
        · cases h
        · cases h
        next m hm =>
          split at h
          · cases h
          · split at h
            · cases h
            · split at h
              next hreg =>
                cases h
                exact ⟨hreg, hm, _, hg⟩
              next => cases h
  · cases h

lemma Denied.finish (h : Denied c t s) (hx : s.family x = true) {fd : Fin nrOpen} {f : Fin nrFile} {flag : Word}
    (htask : s.files.task x = some (task, .opening fd f flag)) {store : Store} {r : Except ℤ Word} {value : ℤ}
    (hread : r = .ok t → ¬ AsksWrite flag) (hk : s.store.Kept t store')
    (hcall : openFinish task s.files.files fd f flag (opened store r) = (task', files', value)) :
    Denied c t { s with files := s.files.put x task' .ready files', store := store' } := by
  obtain ⟨hslot, hone⟩ := h.counted.pending _ _ _ htask
  have hcounted : Counted (s.files.put x task' .ready files') := h.counted.step (.openFinish htask hcall)
  have hrow := h.readOnly x task _ hx htask
  have hmine : ∀ fd', task.filp fd' = s.files.slot (x, fd') := by
    intro fd'
    rw [FileSys.slot, htask]
    rfl
  have hrefs : refs s.files.slot f = 1 := by
    rw [← h.counted.count f, hone]
    rfl
  have hpend : ∀ fd' g, fd' ≠ fd → ∀ flag', Pending.opening fd f flag ≠ .opening fd' g flag' := by
    intro fd' g hne flag' he
    cases he
    exact hne rfl
  rcases openFinish_slots hcall with ⟨hsame, hslots⟩ | ⟨hfilp, hrest, hflags, o, ho, hinode⟩
  · refine h.put_same hk hcounted hsame ?_
    intro fd' g hg _ hi
    obtain ⟨hne, hg'⟩ := hslots fd' g hg
    rw [(hsame g).1] at hi
    rw [(hsame g).2]
    exact hrow fd' g hg' (hpend fd' g hne) hi
  · refine h.put hk hcounted ?_ ?_ s.family fun _ _ => rfl
    · intro fd' g hg _ hi
      rw [hfilp] at hg
      by_cases hgf : g = f
      · subst hgf
        obtain ⟨n, hn, he⟩ := map_eq_ok ho
        rw [hinode, ← he] at hi
        cases hi
        rw [hflags]
        exact hread hn
      · rw [hrest g hgf] at hi ⊢
        have hne : fd' ≠ fd := by
          rintro rfl
          rw [hslot] at hg
          exact hgf (Option.some.inj hg).symm
        exact hrow fd' g hg (hpend fd' g hne) hi
    · intro y hy fd' g hg
      have hgf : g ≠ f := by
        rintro rfl
        have heq := eq_of_refs_one hrefs hg ((hmine fd).symm.trans hslot)
        exact hy (Prod.mk.inj heq).1
      rw [hrest g hgf]
      exact ⟨rfl, rfl⟩

/-- A call of the family that obeys leaves the file, and the family denied. -/
lemma Denied.step (h : Denied c t s) {e : UserEvent} (hok : Obeys dev t s e) (hs : UserStep c dev s e s') :
    s.store.Kept t s'.store ∧ Denied c t s' := by
  have hsame := h.allotted.kept
  cases hs with
  | openReserve hx hstep =>
    refine ⟨hsame, ?_⟩
    have hcounted := h.counted.step hstep
    cases hstep with
    | openReserve htask hcall =>
      obtain ⟨hentries, hslots⟩ := openReserve_slots hcall
      refine h.put_same hsame hcounted hentries ?_
      refine (h.readOnly _ _ _ hx htask).slots (fun _ _ _ he => by cases he) hentries ?_
      intro fd g hg hpend
      rcases hslots fd g hg with hg | ⟨rfl, rfl⟩
      · exact ⟨fd, hg⟩
      · exact absurd rfl (hpend _)
    | openRefused htask hcall =>
      obtain ⟨hfilp, rfl⟩ := openReserve_refused hcall
      refine h.put_same hsame hcounted (.refl _) ?_
      refine (h.readOnly _ _ _ hx htask).slots (fun _ _ _ he => by cases he) (.refl _) fun fd g hg _ => ⟨fd, ?_⟩
      rwa [hfilp] at hg
  | openFinish hx htask hopen htty hcall =>
    have ho := openNamei_opening h.allotted hok h.denied hopen
    have hk := ho.kept.trans (ttyRelease_kept ho.kept.allotted ho.outlasts htty)
    exact ⟨hk, h.finish hx htask ho.readOnly hk hcall⟩
  | close hx htask hcall hput =>
    exact h.close hx htask hcall hput hok (h.counted.step (.close htask hcall))
  | dup hx hstep =>
    refine ⟨hsame, ?_⟩
    have hcounted := h.counted.step hstep
    cases hstep with
    | dup htask hcall =>
      obtain ⟨hentries, hslots⟩ := dupfd_slots hcall
      refine h.put_same hsame hcounted hentries ?_
      exact (h.readOnly _ _ _ hx htask).slots (fun _ _ _ he => by cases he) hentries fun fd g hg _ => hslots fd g hg
  | dup2 hx htask hcall hput =>
    exact h.close hx htask hcall hput hok (h.counted.step (.dup2 htask hcall))
  | dup2End hx htask hcall =>
    obtain ⟨hentries, hslots⟩ := dupfd_slots hcall
    refine ⟨hsame, h.put_same hsame (h.counted.step (.dup2End htask hcall)) hentries ?_⟩
    exact (h.readOnly _ _ _ hx htask).slots (fun _ _ _ he => by cases he) hentries fun fd g hg _ => hslots fd g hg
  | fork hx hstep =>
    refine ⟨hsame, ?_⟩
    have hcounted := h.counted.step hstep
    cases hstep with
    | fork htask _ =>
      refine h.put hsame hcounted ?_ (fun _ _ _ f _ => copyFiles_slots _ _ f) _
        fun y hy => Function.update_of_ne hy _ _
      exact (h.readOnly _ _ _ hx htask).slots (fun _ _ _ he => by cases he) (copyFiles_slots _ _)
        fun fd g hg _ => ⟨fd, hg⟩
  | lseek hx htask _ _ => exact ⟨hsame, h.setPos hx htask hsame _ _⟩
  | writeNothing _ _ _ => exact ⟨hsame, h⟩
  | writeFile hx htask hto hwrite =>
    rename_i task f n _ _ _ _ _
    obtain ⟨hreg, hinode, fd', hfd⟩ := sysWrite_file hto
    have hne : n ≠ t := by
      rintro rfl
      have hask : AsksWrite (s.files.files f).fFlags := (hok _ _ _ htask hto).1 f rfl
      exact h.readOnly _ _ _ hx htask fd' f hfd (fun _ he => by cases he) hinode hask
    have hplain := not_special (Or.inl hreg)
    have hc := h.allotted.owned.consistent n
    rw [blocks_of_plain hplain] at hc
    have hk := kept_writes h.allotted hne hplain (fileWrite_ownWrites hc hwrite)
    exact ⟨hk, h.setPos hx htask hk _ _⟩
  | writeApart hx htask _ _ => exact ⟨hsame, h.setPos hx htask hsame _ _⟩
  | writeRaw _ htask hto hraw => exact absurd ((hok _ _ _ htask hto).2 _ _ rfl) hraw

end Denied

/-- In every run of `open`, `dup`, `fork`, `lseek`, `write` and `close` calls of a process and its children that
writes to a file only through descriptors opened for that, a file that `permission` denies them keeps its size
and its contents. -/
theorem denied_file_unchanged {c : Caller} {dev t : Word} {s₀ s : Users} (h₀ : Denied c t s₀)
    (h : (userSystem c dev s₀).Reach (Obeys dev t) s) :
    (s.store.inodes t).iSize = (s₀.store.inodes t).iSize ∧
      ∀ i, content s.store.volume (s.store.inodes t).blocks i =
        content s₀.store.volume (s₀.store.inodes t).blocks i := by
  have hrun : s₀.store.Kept t s.store ∧ Denied c t s := by
    refine System.Reach.invariant (I := fun s => s₀.store.Kept t s.store ∧ Denied c t s) ?_ ?_ h
    · rintro s rfl
      exact ⟨h₀.allotted.kept, h₀⟩
    · rintro s e s' ⟨hk, hd⟩ hok hs
      obtain ⟨hk', hd'⟩ := hd.step hok hs
      exact ⟨hk.trans hk', hd'⟩
  exact ⟨congrArg MInode.iSize hrun.1.same.inode, hrun.1.same.content⟩

-- a directory with the one name "x", and the file of that name
def guestZones (n : Word) : Fin 9 → Word := firstZone (if n = 1 then 4 else if n = 7 then 5 else 0)

def guestStore : Store where
  volume := fullVolume fun z => if z = 4 then Block.setBytes (Block.zero.setWord 0 7) 2 [120] nameLen else Block.zero
  inodes n := ⟨if n = 1 then 0o040555 else 0o100444, if n = 1 then 16 else 1024, guestZones n, n⟩
  iNlinks n := if n = 1 then 2 else 1
  imap j := decide (j < 8)
  imapBits := 8192
  nInodes := 100
  iUid _ := 0
  iGid _ := 0
  iCount n := if n = 1 then 2 else 0

def guest : Caller := ⟨5, 5, 5, 5, 0, 1, 1⟩

def guestTask : FileTask := ⟨fun _ => none, fun _ => false, false, -1⟩

def guestUsers : Users where
  files := ⟨fun x => if x = 0 then some (guestTask, .ready) else none, fun _ => ⟨0, 0, 0, none, 0⟩⟩
  store := guestStore
  family x := decide (x = 0)

lemma guest_plain (n : Word) : ¬ (guestStore.inodes n).special := by
  by_cases h₁ : n = 1
  · have hdir : sIsDir 0o040555 = true := by decide
    refine not_special (Or.inr ?_)
    change sIsDir (if n = 1 then 0o040555 else 0o100444) = true
    rwa [if_pos h₁]
  · have hreg : sIsReg 0o100444 = true := by decide
    refine not_special (Or.inl ?_)
    change sIsReg (if n = 1 then 0o040555 else 0o100444) = true
    rwa [if_neg h₁]

lemma guest_ref {n : Word} {r : Ref} (h : guestStore.ref n r ≠ 0) :
    r = .zone 0 ∧ (n = 1 ∧ guestStore.ref n r = 4 ∨ n = 7 ∧ guestStore.ref n r = 5) := by
  rw [Device.ref, blocks_of_plain (guest_plain n)] at h ⊢
  obtain ⟨hzone, he⟩ := refAt_firstZone rfl h
  refine ⟨hzone, ?_⟩
  rw [he] at h ⊢
  by_cases h₁ : n = 1
  · exact Or.inl ⟨h₁, if_pos h₁⟩
  · by_cases h₇ : n = 7
    · exact Or.inr ⟨h₇, (if_neg h₁).trans (if_pos h₇)⟩
    · exact absurd ((if_neg h₁).trans (if_neg h₇)) h

lemma guest_owned : Owned guestStore.toDevice where
  firstDataZone_pos := Nat.one_pos
  nZones_lt := show 8192 < 65536 by omega
  zmap_zero := rfl
  used n r h := by
    rcases (guest_ref h).2 with ⟨_, he⟩ | ⟨_, he⟩
    all_goals
      rw [he]
      exact inUse_full _ (by decide) (by decide)
  once n r n' r' h he := by
    obtain ⟨rfl, hn⟩ := guest_ref h
    obtain ⟨rfl, hn'⟩ := guest_ref (he ▸ h)
    refine ⟨?_, rfl⟩
    rcases hn with ⟨rfl, h₁⟩ | ⟨rfl, h₁⟩
    all_goals
      rcases hn' with ⟨rfl, h₂⟩ | ⟨rfl, h₂⟩
      all_goals first
        | rfl
        | rw [h₁, h₂] at he
          exact absurd he (by decide)

lemma guest_denied : Denied guest 7 guestUsers where
  counted := counted_of_reach (.start ⟨fun _ => rfl, guestTask, fun _ => rfl, rfl⟩)
  allotted := ⟨guest_owned, rfl, show 100 < 65536 by decide⟩
  denied := by decide
  readOnly x task p _ htask fd f hfd := by
    change (if x = 0 then some (guestTask, Pending.ready) else none) = _ at htask
    split at htask
    · cases htask
      cases hfd
    · cases htask

def guestOpened : Store := ((guestStore.iget 1).setCount 1 2).iget 7

lemma guest_opens : guestStore.openNamei guest (fun _ _ => false) [120] 0 0 = .ok (guestOpened, .ok 7) := rfl

def guestSlot : FileTask := (guestTask.keepOnExec 0).setFilp 0 (some 0)

def guestPending : Users :=
  { guestUsers with files := guestUsers.files.put 0 guestSlot (.opening 0 0 0) (guestUsers.files.files.setCount 0 1) }

/-- The guest has opened the file to read it. -/
lemma guest_reach (ok : Users → UserEvent → Prop) (h₁ : ok guestUsers (.openReserve 0 0))
    (h₂ : ∀ s : Users, s.store = guestStore → ok s (.openFinish 0 [120] 0)) :
    ∃ s, (userSystem guest 3 guestUsers).Reach ok s ∧ s.family 0 = true ∧ s.store = guestOpened ∧
      s.files.task 0 = some (guestSlot, .ready) ∧
        s.files.files 0 = ⟨0o100444, 0, 1, some (.disk 7), 0⟩ := by
  have hreserve : UserStep guest 3 guestUsers (.openReserve 0 0) guestPending :=
    .openReserve rfl (.openReserve rfl rfl)
  have htty : ttyRelease (fun _ _ => false) guestSlot guestOpened (.ok 7) = .ok guestOpened := rfl
  have hcall : openFinish guestSlot (guestUsers.files.files.setCount 0 1) 0 0 0 (opened guestOpened (.ok 7)) =
      (guestSlot, _, 0) := rfl
  have hfinish : UserStep guest 3 guestPending (.openFinish 0 [120] 0) _ :=
    .openFinish rfl rfl guest_opens htty hcall
  exact ⟨_, .next (.next (.start rfl) h₁ hreserve) (h₂ _ rfl) hfinish, rfl, rfl, rfl, rfl⟩

theorem denied_file_unchanged_opened : ∃ s : Users, (s.files.files 0).fInode = some (.disk 7) ∧
    (s.store.inodes 7).iSize = 1024 ∧ content s.store.volume (s.store.inodes 7).blocks 0 = some Block.zero := by
  have hlinks : guestStore.Outlasts 7 [] := Or.inl (by decide)
  obtain ⟨s, hreach, _, _, _, hfile⟩ := guest_reach (Obeys 3 7) trivial fun s hs => by
    change s.store.Outlasts 7 []
    rwa [hs]
  obtain ⟨hsize, hcontent⟩ := denied_file_unchanged guest_denied hreach
  exact ⟨s, by rw [hfile], hsize, (hcontent 0).trans rfl⟩

theorem denied_file_written :
    ¬ ∀ (c : Caller) (dev t : Word) (s₀ s : Users), ¬ c.superUser → Denied c t s₀ →
      (userSystem c dev s₀).Reach (fun _ _ => True) s →
      (s.store.inodes t).iSize = (s₀.store.inodes t).iSize ∧
        ∀ i, content s.store.volume (s.store.inodes t).blocks i =
          content s₀.store.volume (s₀.store.inodes t).blocks i := by
  intro h
  obtain ⟨s, hreach, hfamily, hstore, htask, hfile⟩ := guest_reach (fun _ _ => True) trivial fun _ _ => trivial
  have hto : sysWrite guestSlot s.files.files s.store 0 1 = .ok (.file 0 7) := by
    have hslot : guestSlot.filp ⟨0, by decide⟩ = some 0 := rfl
    rw [sysWrite, dif_pos (by decide), hslot]
    simp only [hfile, hstore]
    rfl
  have hwrite : fileWrite noKey sampleTable (fun _ => Block.zero) (fun _ => Block.zero) s.store.volume
      (s.store.inodes 7) (decide ((s.files.files 0).fFlags &&& oAppend ≠ 0)) (s.files.files 0).fPos.toNat
      (fun _ => 9) (1 : ℤ).toNat =
        .ok ⟨1, 1, guestStore.volume.put 5 (overlay Block.zero 0 1 fun _ => 9), guestStore.inodes 7⟩ := by
    rw [hfile, hstore]
    exact fileWrite_first rfl (by decide) rfl
  have hrun := hreach.next trivial (.writeFile hfamily htask hto hwrite)
  have hsame := (h guest 3 7 guestUsers _ (by decide) guest_denied hrun).2 0
  have hold : content guestStore.volume (guestStore.inodes 7).blocks 0 = some Block.zero := rfl
  have hnew : content (guestStore.volume.put 5 (overlay Block.zero 0 1 fun _ => 9)) (guestStore.inodes 7).blocks 0 =
      some (overlay Block.zero 0 1 fun _ => 9) := rfl
  have hinode : Function.update s.store.inodes 7 (guestStore.inodes 7) 7 = guestStore.inodes 7 :=
    Function.update_self _ _ _
  have hkept : content (guestStore.volume.put 5 (overlay Block.zero 0 1 fun _ => 9))
      (Function.update s.store.inodes 7 (guestStore.inodes 7) 7).blocks 0 = some Block.zero := hsame.trans hold
  rw [hinode, hnew] at hkept
  have hbyte : overlay Block.zero 0 1 (fun _ => 9) = Block.zero := Option.some.inj hkept
  exact absurd (congrFun hbyte 0) (by decide)

end Devos.Fs
