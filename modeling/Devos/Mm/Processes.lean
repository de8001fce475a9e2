import Devos.Mm.Faults
import Devos.Fs.Descriptors
import Devos.Fs.InodeTable
import Devos.Kernel.Reaping

/-! Processes and pipes as the owners of pages: `kernel/fork.c`, `kernel/exit.c`, page faults, and what `iput` and
`sys_pipe` do to the page of a pipe. The contents of a task structure are kept beside the memory. -/

namespace Devos.Mm

open Runs RefCount Kernel Pages

def eagain : ℤ := 11

/-- The base and the limit of the code and of the data are those in the local descriptor table. -/
structure Task where
  page : ℕ
  pid : ℤ
  father : ℤ
  phase : Phase
  codeBase : ℕ
  codeLimit : ℕ
  dataBase : ℕ
  dataLimit : ℕ
  files : Fs.FileTask
  pwd : Option (Fin Fs.nrInode)
  root : Option (Fin Fs.nrInode)

/-- `iSize` of a pipe is its page. -/
structure MInode where
  iCount : ℕ
  iPipe : Bool
  iSize : ℕ

/-- `areas` has the arguments of the calls of `verify_area` that each process has made in its running system call.
No code reads it. -/
structure Machine where
  task : Fin 64 → Option Task
  pages : Pages
  fileTable : Fs.FileTable (Fin Fs.nrInode)
  inode : Fin Fs.nrInode → MInode
  areas : Fin 64 → List (ℕ × ℤ)

/-- The place of a linear address. -/
def placeOf (address : ℕ) : Place := (Fin.ofNat 1024 (address / 2 ^ 22), Fin.ofNat 1024 (address / 2 ^ 12))

def Task.place (t : Task) (a : ℕ) : Place := placeOf (t.dataBase + a)

/-- The turns of the loop of `verify_area`, of which the last is the first after which `size` is not positive. -/
def areaTurns (addr : ℕ) (size : ℤ) : ℕ :=
  ((Int.bmod (size + (addr % 4096 : ℕ)) (2 ^ 32) + 4095) / 4096).toNat

namespace Pages

/-- The loop of `verify_area`; `false` for the `do_exit` of `un_wp_page`, which does not return. -/
def verifyFrom : ℕ → ℕ → Pages → Pages × Bool
  | 0, _, m => (m, true)
  | n + 1, start, m =>
    match m.writeVerify (placeOf start).1 (placeOf start).2 with
    | (m, true) => verifyFrom n (start + 4096) m
    | (m, false) => (m, false)

/-- `verify_area`; addresses go round at the end of memory, by `placeOf`. -/
def verifyArea (base addr : ℕ) (size : ℤ) (m : Pages) : Pages × Bool :=
  m.verifyFrom (areaTurns addr size) (addr / 4096 * 4096 + base)

/-- The entry that the processor reads for a place. -/
def entry (m : Pages) (x : Place) : ℕ := Longs.long m.mem (frame (Longs.long m.mem 0 x.1)) x.2

end Pages

def copyMem (nr : Fin 64) (t : Task) (m : Pages) : Except Fault (Pages × Bool) :=
  if t.dataBase ≠ t.codeBase then .error .panic
  else if t.dataLimit < t.codeLimit then .error .panic
  else
    (m.copyPageTables t.dataBase (nr.val * 0x4000000) t.dataLimit).bind fun (m, copied) =>
      if copied then .ok (m, true)
      else (m.freePageTables (nr.val * 0x4000000) t.dataLimit).map (·, false)

namespace Machine

def put (s : Machine) (i : Fin 64) (t : Task) : Machine := { s with task := Function.update s.task i (some t) }

def setInode (s : Machine) (k : Fin Fs.nrInode) (i : MInode) : Machine :=
  { s with inode := Function.update s.inode k i }

/-- `if (inode) inode->i_count++` -/
def hold (s : Machine) : Option (Fin Fs.nrInode) → Machine
  | none => s
  | some k => s.setInode k { s.inode k with iCount := (s.inode k).iCount + 1 }

/-- `copy_process` of the task `t`, for which `find_empty_process` has found the slot `nr` and the number `pid`. -/
def copyProcess (nr : Fin 64) (t : Task) (pid : ℤ) (s : Machine) : Except Fault (Machine × ℤ) :=
  match s.pages.getFreePage with
  | none => .ok (s, -eagain)
  | some (p, m) =>
    (copyMem nr t m).bind fun (m, copied) =>
      if copied then
        let s := { s with pages := m, fileTable := Fs.copyFiles t.files s.fileTable }
        let base := nr.val * 0x4000000
        .ok (((s.hold t.pwd).hold t.root).put nr
          { t with
            page := p, pid := pid, father := t.pid, phase := .alive, codeBase := base, dataBase := base,
            files := { t.files with leader := false } }, pid)
      else (m.freePage p).map fun m => ({ s with pages := m }, -eagain)

/-- `iput`, on the counts and on the page of a pipe. -/
def iput (k : Option (Fin Fs.nrInode)) (s : Machine) : Except Fault Machine :=
  match k with
  | none => .ok s
  | some k =>
    let i := s.inode k
    if i.iCount = 0 then .error .panic
    else if i.iPipe ∧ i.iCount = 1 then
      (s.pages.freePage i.iSize).map fun m => { s with pages := m }.setInode k { i with iCount := 0, iPipe := false }
    else .ok (s.setInode k { i with iCount := i.iCount - 1 })

def sysClose (c : Fin 64) (t : Task) (fd : ℕ) (s : Machine) : Except Fault Machine :=
  (Fs.sysClose t.files s.fileTable fd).bind fun (files, fileTable, _, inode) =>
    iput inode ({ s with fileTable := fileTable }.put c { t with files := files })

/-- `get_pipe_inode`, for which `get_empty_inode` has found `k`. -/
def getPipeInode (k : Fin Fs.nrInode) (s : Machine) : Machine × Option (Fin Fs.nrInode) :=
  match s.pages.getFreePage with
  | none => (s.setInode k ⟨0, false, 0⟩, none)
  | some (p, m) => ({ s with pages := m }.setInode k ⟨2, true, p⟩, some k)

/-- `sys_pipe` but for its stores to the memory of the caller. -/
def sysPipe (c : Fin 64) (t : Task) (k : Fin Fs.nrInode) (s : Machine) : Machine :=
  match Fs.pipeReserve t.files s.fileTable with
  | (files, fileTable, none) => { s with fileTable := fileTable }.put c { t with files := files }
  | (files, fileTable, some ends) =>
    let (s, inode) := s.getPipeInode k
    let (files, fileTable, _) := Fs.pipeFinish files fileTable ends inode
    { s with fileTable := fileTable }.put c { t with files := files }

/-- `do_exit` up to the first call that may sleep. -/
def beginExit (c : Fin 64) (t : Task) (s : Machine) : Except Fault Machine :=
  (s.pages.freePageTables t.codeBase t.codeLimit).bind fun m =>
    (m.freePageTables t.dataBase t.dataLimit).map fun m =>
      let orphan (u : Task) : Task := if u.father = t.pid then { u with father := 0 } else u
      { s with pages := m, task := fun i => (s.task i).map orphan }.put c { orphan t with phase := .exiting }

def release (i : Fin 64) (t : Task) (s : Machine) : Except Fault Machine :=
  if i = 0 then .error .panic
  else (s.pages.freePage t.page).map fun m => { s with pages := m, task := Function.update s.task i none }

/-- `do_exit` after its `sys_close`s. -/
def endExit (c : Fin 64) (t : Task) (s : Machine) : Except Fault Machine :=
  (s.iput t.pwd).bind fun s => (s.iput t.root).bind fun s =>
    if t.father ≠ 0 then .ok (s.put c { t with phase := .zombie, pwd := none, root := none }) else s.release c t

/-- How a page fault or `verify_area` ends: `do_exit` when there was no memory. -/
def settle (c : Fin 64) (t : Task) (r : Pages × Bool) (s : Machine) : Except Fault Machine :=
  if r.2 then .ok { s with pages := r.1 } else beginExit c t { s with pages := r.1 }

/-- A system call starts, and nothing is verified. -/
def enter (s : Machine) (c : Fin 64) : Machine := { s with areas := Function.update s.areas c [] }

end Machine

inductive Event where
  | fork (c nr : Fin 64) (pid : ℤ)
  | beginExit (c : Fin 64)
  | close (c : Fin 64) (fd : ℕ)
  | endExit (c : Fin 64)
  | wait (c j : Fin 64)
  | noPage (c : Fin 64) (a : ℕ)
  | wpPage (c : Fin 64) (a : ℕ)
  | pipe (c : Fin 64) (k : Fin Fs.nrInode)
  | enter (c : Fin 64)
  | verify (c : Fin 64) (addr : ℕ) (size : ℤ)
  | store (c : Fin 64) (a : ℕ) (b : Byte)
  | kernelStore (c : Fin 64) (a : ℕ) (b : Byte)

/-- The processor lets a process store where the entry is writable, and the kernel where there is a page. -/
inductive MachineStep : Machine → Event → Machine → Prop
  | fork {s c nr pid t s' r} : s.task c = some t → t.phase = .alive → nr ≠ 0 → s.task nr = none →
      s.copyProcess nr t pid = .ok (s', r) → MachineStep s (.fork c nr pid) ((s'.enter c).enter nr)
  | beginExit {s c t s'} : s.task c = some t → t.phase = .alive → s.beginExit c t = .ok s' →
      MachineStep s (.beginExit c) s'
  | close {s c t fd s'} : s.task c = some t → t.phase ≠ .zombie → s.sysClose c t fd = .ok s' →
      MachineStep s (.close c fd) s'
  | endExit {s c t s'} : s.task c = some t → t.phase = .exiting → (∀ fd, t.files.filp fd = none) →
      s.endExit c t = .ok s' → MachineStep s (.endExit c) s'
  | wait {s c j t u s'} : s.task c = some t → t.phase = .alive → s.task j = some u → u.father = t.pid →
      u.phase = .zombie → s.release j u = .ok s' → MachineStep s (.wait c j) s'
  | noPage {s c t a s'} : s.task c = some t → t.phase = .alive → a < t.dataLimit →
      s.pages.walk (t.place a) = none →
      s.settle c t (s.pages.doNoPage (t.place a).1 (t.place a).2) = .ok s' → MachineStep s (.noPage c a) s'
  | wpPage {s c t a p s'} : s.task c = some t → t.phase = .alive → a < t.dataLimit →
      s.pages.walk (t.place a) = some p → ¬writable (s.pages.entry (t.place a)) →
      s.settle c t (s.pages.doWpPage (t.place a).1 (t.place a).2) = .ok s' → MachineStep s (.wpPage c a) s'
  | pipe {s c t k} : s.task c = some t → t.phase = .alive → (s.inode k).iCount = 0 →
      MachineStep s (.pipe c k) (s.sysPipe c t k)
  | enter {s c t} : s.task c = some t → t.phase = .alive → MachineStep s (.enter c) (s.enter c)
  | verify {s c t addr size m} : s.task c = some t → t.phase = .alive →
      s.pages.verifyArea t.dataBase addr size = (m, true) →
      MachineStep s (.verify c addr size)
        { s with pages := m, areas := Function.update s.areas c ((addr, size) :: s.areas c) }
  | verifyKilled {s c t addr size m s'} : s.task c = some t → t.phase = .alive →
      s.pages.verifyArea t.dataBase addr size = (m, false) →
      s.settle c t (m, false) = .ok s' → MachineStep s (.verify c addr size) s'
  | store {s c t a b p} : s.task c = some t → t.phase = .alive → a < t.dataLimit →
      s.pages.walk (t.place a) = some p → writable (s.pages.entry (t.place a)) →
      MachineStep s (.store c a b) { s with pages := s.pages.store (t.place a) (a % 4096) b }
  | kernelStore {s c t a b p} : s.task c = some t → t.phase = .alive → a < t.dataLimit →
      s.pages.walk (t.place a) = some p →
      MachineStep s (.kernelStore c a b) { s with pages := s.pages.store (t.place a) (a % 4096) b }

end Devos.Mm
