import Devos.Fs.Links
import Devos.Fs.Ownership

/-! Open files: the calls of `open.c`, `fcntl.c`, `pipe.c`, `fork.c`, `exec.c` and `exit.c` that work on
`filp` and on `file_table`. A call that can sleep is cut where it does. -/

namespace Devos.Fs

open Security

abbrev nrOpen : ℕ := 20
abbrev nrFile : ℕ := 64
abbrev nrTasks : ℕ := 64

def emfile : ℤ := 24

/-- An entry of `file_table`; `ι` stands for the inodes in memory. -/
structure File (ι : Type*) where
  fMode : Word
  fFlags : Word
  fCount : Word
  fInode : Option ι
  fPos : ℤ

/-- The fields of a task that these calls read or set. -/
structure FileTask where
  filp : Fin nrOpen → Option (Fin nrFile)
  closeOnExec : Fin nrOpen → Bool
  leader : Bool
  tty : ℤ

/-- What `open_namei` found. -/
structure Opened (ι : Type*) where
  inode : ι
  iMode : Word
  rdev : Word

abbrev FileTable (ι : Type*) := Fin nrFile → File ι

variable {ι : Type*}

def FileTable.setCount (files : FileTable ι) (f : Fin nrFile) (c : Word) : FileTable ι :=
  Function.update files f { files f with fCount := c }

namespace FileTask

def setFilp (t : FileTask) (fd : Fin nrOpen) (f : Option (Fin nrFile)) : FileTask :=
  { t with filp := Function.update t.filp fd f }

def keepOnExec (t : FileTask) (fd : Fin nrOpen) : FileTask :=
  { t with closeOnExec := Function.update t.closeOnExec fd false }

def freeFd (t : FileTask) (lo : ℕ) : Option (Fin nrOpen) :=
  (List.finRange nrOpen).find? fun fd => decide (lo ≤ fd) && (t.filp fd).isNone

end FileTask

def FileTable.free (files : FileTable ι) : Option (Fin nrFile) :=
  (List.finRange nrFile).find? fun f => (files f).fCount = 0

-- `sys_open` up to `open_namei`, which sleeps
def openReserve (t : FileTask) (files : FileTable ι) :
    FileTask × FileTable ι × Except ℤ (Fin nrOpen × Fin nrFile) :=
  match t.freeFd 0 with
  | none => (t, files, .error (-einval))
  | some fd =>
    let t := t.keepOnExec fd
    match files.free with
    | none => (t, files, .error (-einval))
    | some f => (t.setFilp fd (some f), files.setCount f ((files f).fCount + 1), .ok (fd, f))

def openFail (t : FileTask) (files : FileTable ι) (fd : Fin nrOpen) (f : Fin nrFile) : FileTask × FileTable ι :=
  (t.setFilp fd none, files.setCount f 0)

def major (dev : Word) : ℕ := dev.toNat / 256

def minor (dev : Word) : ℕ := dev.toNat % 256

-- `sys_open` from the return of `open_namei` on
def openFinish (t : FileTask) (files : FileTable ι) (fd : Fin nrOpen) (f : Fin nrFile) (flag : Word)
    (r : Except ℤ (Opened ι)) : FileTask × FileTable ι × ℤ :=
  match r with
  | .error e =>
    let (t, files) := openFail t files fd f
    (t, files, e)
  | .ok o =>
    if sIsChr o.iMode ∧ major o.rdev = 5 ∧ t.tty < 0 then
      let (t, files) := openFail t files fd f
      (t, files, -eperm)
    else
      let t := if sIsChr o.iMode ∧ major o.rdev = 4 ∧ t.leader ∧ t.tty < 0 then { t with tty := minor o.rdev } else t
      (t, Function.update files f ⟨o.iMode, flag, 1, some o.inode, 0⟩, fd)

/-- `sys_close`; the inode that comes back is the one to release, which can sleep. -/
def sysClose (t : FileTask) (files : FileTable ι) (fd : ℕ) :
    Except Fault (FileTask × FileTable ι × ℤ × Option ι) :=
  if h : fd < nrOpen then
    let t := t.keepOnExec ⟨fd, h⟩
    match t.filp ⟨fd, h⟩ with
    | none => .ok (t, files, -einval, none)
    | some f =>
      let t := t.setFilp ⟨fd, h⟩ none
      if (files f).fCount = 0 then .error .panic
      else
        let files := files.setCount f ((files f).fCount - 1)
        if (files f).fCount ≠ 0 then .ok (t, files, 0, none) else .ok (t, files, 0, (files f).fInode)
  else .ok (t, files, -einval, none)

def dupfd (t : FileTask) (files : FileTable ι) (fd arg : ℕ) : FileTask × FileTable ι × ℤ :=
  if h : fd < nrOpen then
    match t.filp ⟨fd, h⟩ with
    | none => (t, files, -ebadf)
    | some f =>
      if nrOpen ≤ arg then (t, files, -einval)
      else
        match t.freeFd arg with
        | none => (t, files, -emfile)
        | some fd' =>
          ((t.keepOnExec fd').setFilp fd' (some f), files.setCount f ((files f).fCount + 1), fd')
  else (t, files, -ebadf)

def setCloseOnExec (t : FileTask) (fd : ℕ) (bit : Bool) : FileTask × ℤ :=
  if h : fd < nrOpen then
    match t.filp ⟨fd, h⟩ with
    | none => (t, -ebadf)
    | some _ => ({ t with closeOnExec := Function.update t.closeOnExec ⟨fd, h⟩ bit }, 0)
  else (t, -ebadf)

-- `for (i=0; j<2 && i<N; i++) if (free) take;`
def pickTwo {σ α : Type*} (free : σ → α → Bool) (take : ℕ → σ → α → σ) (range : List α) (s : σ) : List α × σ :=
  range.foldl (fun r i => if r.1.length < 2 ∧ free r.2 i then (r.1 ++ [i], take r.1.length r.2 i) else r) ([], s)

def pipeFiles (files : FileTable ι) : List (Fin nrFile) × FileTable ι :=
  pickTwo (fun files i => (files i).fCount = 0) (fun _ files i => files.setCount i ((files i).fCount + 1))
    (List.finRange nrFile) files

def pipeSlots (t : FileTask) (f₀ f₁ : Fin nrFile) : List (Fin nrOpen) × FileTask :=
  pickTwo (fun t i => (t.filp i).isNone) (fun j t i => t.setFilp i (some (if j = 0 then f₀ else f₁)))
    (List.finRange nrOpen) t

/-- The slots and entries that a pipe has taken before `get_pipe_inode`, which sleeps. -/
structure PipeEnds where
  fd₀ : Fin nrOpen
  fd₁ : Fin nrOpen
  f₀ : Fin nrFile
  f₁ : Fin nrFile

def pipeReserve (t : FileTask) (files : FileTable ι) : FileTask × FileTable ι × Option PipeEnds :=
  match pipeFiles files with
  | (f₀ :: f₁ :: _, files) =>
    match pipeSlots t f₀ f₁ with
    | (fd₀ :: fd₁ :: _, t) => (t, files, some ⟨fd₀, fd₁, f₀, f₁⟩)
    | (fd₀ :: [], t) => (t.setFilp fd₀ none, (files.setCount f₀ 0).setCount f₁ 0, none)
    | ([], t) => (t, (files.setCount f₀ 0).setCount f₁ 0, none)
  | (f₀ :: [], files) => (t, files.setCount f₀ 0, none)
  | ([], files) => (t, files, none)

def pipeFinish (t : FileTask) (files : FileTable ι) (p : PipeEnds) (inode : Option ι) :
    FileTask × FileTable ι × ℤ :=
  match inode with
  | none => ((t.setFilp p.fd₁ none).setFilp p.fd₀ none, (files.setCount p.f₁ 0).setCount p.f₀ 0, -1)
  | some inode =>
    let files := Function.update files p.f₀ { files p.f₀ with fInode := some inode, fPos := 0, fMode := 1 }
    (t, Function.update files p.f₁ { files p.f₁ with fInode := some inode, fPos := 0, fMode := 2 }, 0)

/-- `copy_process`, as far as files go: the child has the parent's slots and each open file one more user. -/
def copyFiles (t : FileTask) (files : FileTable ι) : FileTable ι :=
  (List.finRange nrOpen).foldl
    (fun files i => (t.filp i).elim files fun f => files.setCount f ((files f).fCount + 1))
    files

end Devos.Fs
