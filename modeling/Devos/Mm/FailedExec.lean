import Devos.Mm.ExecArguments
import Devos.Fs.DescriptorCounts
import Devos.Fs.Loader
import Devos.Fs.Mkdir
import Devos.Kernel.Privileges

/-! `fs/exec.c`, `do_execve` over the memory and the files of its caller, and what a call leaves of them that comes back
with an error. -/

namespace Devos.Mm

open Loops RefCount Kernel Machine Pages
open Fs (enoent eacces pageSize maxArgPages nrOpen)

def enoexec : ℤ := 8

/-- What `namei` has found, with the device of the file. -/
structure ExecFile where
  slot : Fin Fs.nrInode
  inode : Fs.MInode
  iUid : Word
  iGid : Word
  volume : Fs.Volume
  behind : Word → ℕ → Byte

/-- A call, with the number of bytes of the name that `namei` reads. -/
structure Execve where
  filename : ℕ
  argv : ℕ
  envp : ℕ
  nameBytes : ℕ
  found : Option ExecFile

/-- The caller with its machine. -/
structure Caller where
  machine : Machine
  ids : Ids
  sigFn : Fin 32 → ℕ

/-- How a call gets to the point of no return: not at all, or with pages for its `n` strings. -/
inductive Begun where
  | refused (s : Machine) (r : ℤ)
  | passed (s : Machine) (page : Fin maxArgPages → Option ℕ) (n : ℕ)

namespace ExecFile

variable (x : ExecFile)

/-- The tests of `i_mode`, the bit of the class of the caller last. -/
def Executable (p : Ids) : Prop :=
  let i := x.inode.iMode
  let i :=
    if p.uid ≠ 0 ∧ p.euid ≠ 0 then if p.euid = x.iUid then i >>> 6 else if p.egid = x.iGid then i >>> 3 else i
    else if i &&& 0o111 ≠ 0 then 1 else i
  i &&& 1 ≠ 0

instance (p : Ids) : Decidable (x.Executable p) := inferInstanceAs (Decidable (_ ≠ _))

/-- The first block of the file. -/
def firstBlock : Option Word := x.volume.buffer (x.inode.zone 0)

/-- The error for which the file is not read. -/
def refusal (p : Ids) : Option ℤ :=
  if ¬Fs.sIsReg x.inode.iMode then some (-eacces)
  else if ¬x.Executable p then some (-enoexec)
  else if x.firstBlock = none then some (-eacces)
  else none

def source (limit : ℕ) : Fs.Source := ⟨x.volume, x.inode, x.behind, limit⟩

/-- `load_elf_binary` gives up on the header of the file, before any store. -/
def BadHeader (bh : Word) : Prop :=
  ¬Fs.isValidElf (.read (x.volume.data bh)) ∨ (Fs.Elf32Ehdr.read (x.volume.data bh)).eShnum ≤ 1

end ExecFile

/-- `do_execve` up to the point of no return. -/
def Caller.begin (t : Task) (e : Execve) (u : Caller) : Option Begun :=
  (t.getFsBytes e.nameBytes e.filename u.machine.pages).bind fun (m, _) =>
    match e.found with
    | none => some (.refused { u.machine with pages := m } (-enoent))
    | some x =>
      let s := { u.machine with pages := m }.hold (some x.slot)
      match x.refusal u.ids with
      | some r => (s.iput (some x.slot)).toOption.map (.refused · r)
      | none =>
        (t.count e.argv m).bind fun (m, argc) => (t.count e.envp m).bind fun (m, envc) =>
          (ArgPool.copyStrings t e.envp envc (pageSize * maxArgPages) ⟨m, fun _ => none⟩).bind fun (a, p) =>
            (a.copyStrings t e.argv argc p).bind fun (a, p) =>
              if p = 0 then
                a.freeAll.toOption.bind fun m =>
                  ({ s with pages := m }.iput (some x.slot)).toOption.map (.refused · (-1))
              else some (.passed { s with pages := a.pages } a.page (argc + envc))

namespace Machine

/-- A call that fails from here on forgets the pages for its arguments. -/
def forget (page : Fin maxArgPages → Option ℕ) (s : Machine) : Machine :=
  { s with pages.lost := (List.finRange maxArgPages).filterMap page ++ s.pages.lost }

/-- `if ((current->close_on_exec>>i)&1) sys_close(i);` -/
def closeOnExec (c : Fin 64) (i : ℕ) (s : Machine) : Except Fault Machine :=
  match s.task c with
  | none => .ok s
  | some t => if h : i < nrOpen then if t.files.closeOnExec ⟨i, h⟩ then s.sysClose c t i else .ok s else .ok s

def dropTables (c : Fin 64) (s : Machine) : Except Fault Machine :=
  match s.task c with
  | none => .ok s
  | some t =>
    (s.pages.freePageTables t.codeBase t.codeLimit).bind fun m =>
      (m.freePageTables t.dataBase t.dataLimit).map fun m =>
        { s with pages := m }.put c { t with files := { t.files with closeOnExec := fun _ => false } }

/-- From the point of no return to the call of `load_elf_binary`, but for the signal handlers. -/
def dropImage (c : Fin 64) (s : Machine) : Except Fault Machine :=
  (forLoopE (closeOnExec c) s nrOpen).bind (dropTables c)

end Machine

namespace Task

variable (t : Task)

/-- The kernel may store wherever there is a page. -/
def putFsByte (a : ℕ) (b : Byte) (m : Pages) : Option Pages :=
  (t.getFsByte a m).map fun (m, _) => m.store (t.place a) (a % pageSize) b

/-- Stores of `load_elf_binary` before it gives up: any that come back. -/
inductive Stored (m : Pages) : Pages → Prop
  | refl : Stored m m
  | next {m' m'' a b} : Stored m m' → t.putFsByte a b m' = some m'' → Stored m m''

/-- The data segment. -/
def image (m : Pages) (a : ℕ) : Byte := m.look (t.place a) (a % pageSize)

end Task

/-- A call that comes back with the error `r`; from behind the point of no return with the number of its strings. -/
inductive ExecveFails (c : Fin 64) (t : Task) (e : Execve) (u : Caller) : Option ℕ → Caller → ℤ → Prop
  | refused {s r} : u.begin t e = some (.refused s r) → ExecveFails c t e u none { u with machine := s } r
  | unloadable {s page n x bh s₁ m s'} : u.begin t e = some (.passed s page n) → e.found = some x →
      x.firstBlock = some bh → (s.forget page).dropImage c = .ok s₁ →
      (x.source t.dataLimit).loadElfBinary bh (t.image s₁.pages) = .ok none → t.Stored s₁.pages m →
      (x.BadHeader bh → m = s₁.pages) → { s₁ with pages := m }.iput (some x.slot) = .ok s' →
      ExecveFails c t e u (some n) { u with machine := s', sigFn := fun _ => 0 } (-eacces)

/-- What the caller had before the call it has after it: the entries of its page tables, its memory, handlers and
descriptors; and no page is in use that nothing refers to. Page 0 is the page directory, and a page that a read of the
call has brought in is zero. -/
structure Kept (c : Fin 64) (t : Task) (u u' : Caller) : Prop where
  tables : ∀ a < t.dataLimit, ∀ w, u.machine.pages.mapping (t.place a) = some w → present w →
    u'.machine.pages.mapping (t.place a) = some w
  memory : ∀ a < t.dataLimit, u.machine.pages.walk (t.place a) ≠ some 0 →
    t.image u'.machine.pages a = t.image u.machine.pages a
  handlers : u'.sigFn = u.sigFn
  descriptors : (∀ t', u'.machine.task c = some t' → t'.files.filp = t.files.filp) ∧
    u'.machine.fileTable = u.machine.fileTable
  arguments : ∀ p, lowMem ≤ p → p < highMemory → u'.machine.references p = 0 → p ∉ u.machine.pages.lost →
    u'.machine.pages.memMap p = 0

/-- The file that `namei` has found is not read beyond its header. -/
def Execve.BadHeader (e : Execve) : Prop := ∃ x bh, e.found = some x ∧ x.firstBlock = some bh ∧ x.BadHeader bh

/-- What a caller with `n` strings has to lose behind the point of no return: a handler, an open descriptor that is
marked, the pages for its strings, or, when nothing is loaded, its memory. -/
def Loses (t : Task) (e : Execve) (u : Caller) (n : ℕ) : Prop :=
  (∃ i, u.sigFn i ≠ 0) ∨ (∃ fd, t.files.closeOnExec fd = true ∧ t.files.filp fd ≠ none) ∨ 0 < n ∨
    e.BadHeader ∧ ∃ a < t.dataLimit, ∃ w, u.machine.pages.mapping (t.place a) = some w ∧ present w

/-- What is true of the machine in front of the point of no return. -/
inductive BegunFrom (c : Fin 64) (t : Task) (s : Machine) : Begun → Prop
  | refused {m r} : Counted s.owners m → Undisturbed (t.Segment c) s.pages m →
      BegunFrom c t s (.refused { s with pages := m } r)
  | passed {a k n} : Copying (t.Segment c) s.owners s.pages a → (0 < n → ∃ j, (a.page j).isSome) →
      BegunFrom c t s (.passed { s.hold (some k) with pages := a.pages } a.page n)

section Beginning

variable {c : Fin 64} {t : Task} {e : Execve} {u : Caller} {s : Machine} {m : Pages} {k : Fin Fs.nrInode} {r : ℤ}

/-- An inode that was not held is not of a pipe, so its release frees nothing. -/
lemma Machine.Sound.iput_hold (h : Sound s) (k : Fin Fs.nrInode) (m : Pages) :
    ({ s.hold (some k) with pages := m } : Machine).iput (some k) = .ok { s with pages := m } := by
  have hinode : ({ s.hold (some k) with pages := m } : Machine).inode k =
      { s.inode k with iCount := (s.inode k).iCount + 1 } := Function.update_self _ _ _
  have hlast : ¬((s.inode k).iPipe = true ∧ (s.inode k).iCount + 1 = 1) := by
    rintro ⟨hpipe, hone⟩
    rw [h.unused k (by omega)] at hpipe
    cases hpipe
  rw [Machine.iput, hinode]
  dsimp only
  rw [if_neg (Nat.succ_ne_zero _), if_neg hlast, Nat.add_sub_cancel]
  change Except.ok { s with pages := m, inode := Function.update (Function.update s.inode k _) k (s.inode k) } = _
  rw [Function.update_idem, Function.update_eq_self]

lemma Machine.Sound.begin (h : Sound u.machine) (ht : u.machine.task c = some t) {b : Begun}
    (hb : u.begin t e = some b) : BegunFrom c t u.machine b := by
  have hp := h.placed c t ht
  obtain ⟨⟨m, name⟩, hname, hb⟩ := Option.bind_eq_some_iff.mp hb
  obtain ⟨hc, hu⟩ := hp.getFsBytes _ _ _ _ _ _ h.counted hname
  dsimp only at hb
  cases hfound : e.found with
  | none =>
    rw [hfound] at hb
    obtain rfl := Option.some.inj hb
    exact .refused hc hu
  | some x =>
    rw [hfound] at hb
    dsimp only at hb
    cases hrefusal : x.refusal u.ids with
    | some r =>
      rw [hrefusal] at hb
      obtain ⟨s, hput, rfl⟩ := Option.map_eq_some_iff.mp hb
      change (({ u.machine.hold (some x.slot) with pages := m } : Machine).iput (some x.slot)).toOption = some s at hput
      rw [h.iput_hold] at hput
      obtain rfl := Option.some.inj hput
      exact .refused hc hu
    | none =>
      rw [hrefusal] at hb
      obtain ⟨⟨m₁, argc⟩, hargc, hb⟩ := Option.bind_eq_some_iff.mp hb
      obtain ⟨⟨m₂, envc⟩, henvc, hb⟩ := Option.bind_eq_some_iff.mp hb
      obtain ⟨⟨a₁, p₁⟩, henv, hb⟩ := Option.bind_eq_some_iff.mp hb
      obtain ⟨⟨a, p⟩, harg, hb⟩ := Option.bind_eq_some_iff.mp hb
      obtain ⟨hc₁, hu₁⟩ := hp.count _ _ _ _ _ hc hargc
      obtain ⟨hc₂, hu₂⟩ := hp.count _ _ _ _ _ hc₁ henvc
      have hstart : Copying (t.Segment c) u.machine.owners u.machine.pages ⟨m₂, fun _ => none⟩ := by
        refine ⟨?_, (hu.trans hu₁).trans hu₂⟩
        rw [held_empty]
        exact hc₂
      have henvs := hstart.copyStrings hp henv
      have hargs := henvs.copying.copyStrings hp harg
      dsimp only at hb
      split_ifs at hb with hzero
      · obtain ⟨m₃, hfree, hb⟩ := Option.bind_eq_some_iff.mp hb
        obtain ⟨m₃', hfree', hc₃, hu₃⟩ := hargs.copying.freeAll
        rw [hfree'] at hfree
        obtain rfl := Option.some.inj hfree
        obtain ⟨s, hput, rfl⟩ := Option.map_eq_some_iff.mp hb
        change (({ u.machine.hold (some x.slot) with pages := m₃' } : Machine).iput (some x.slot)).toOption = some s
          at hput
        rw [h.iput_hold] at hput
        obtain rfl := Option.some.inj hput
        exact .refused hc₃ hu₃
      · obtain rfl := Option.some.inj hb
        refine .passed hargs.copying fun hn => ?_
        by_cases hargc : 0 < argc
        · exact hargs.taken ⟨hargc, hzero⟩
        · obtain rfl : argc = 0 := by omega
          obtain ⟨rfl, rfl⟩ := Prod.mk.inj (Option.some.inj harg)
          exact henvs.taken ⟨by omega, hzero⟩

/-- A call that is refused in front of the point of no return. -/
lemma Machine.Sound.kept (h : Sound u.machine) (ht : u.machine.task c = some t) (hc : Counted u.machine.owners m)
    (hu : Undisturbed (t.Segment c) u.machine.pages m) :
    Kept c t u { u with machine := { u.machine with pages := m } } := by
  have hp := h.placed c t ht
  constructor
  · intro a ha w hw hpresent
    by_cases hhigh : 16 ≤ (t.place a).1.val
    · exact hu.entries _ hhigh w hw hpresent
    · rw [h.counted.mapping_kernel (not_le.mp hhigh)] at hw
      rw [hc.mapping_kernel (not_le.mp hhigh)]
      exact hw
  · intro a ha hzero
    by_cases hhigh : 16 ≤ (t.place a).1.val
    · exact congrFun (hu.looks _ hhigh hzero).2 _
    · obtain ⟨p, hlo, hwalk⟩ := (place_certain h.counted hp ha).resolve_left hhigh
      have hsame := h.counted.walk_kernel hc (not_le.mp hhigh)
      have hmem : m.mem p = u.machine.pages.mem p := by
        refine hu.low p ?_ hlo
        rintro rfl
        exact hzero hwalk
      rw [Task.image, Task.image, look, look, hsame, hwalk]
      exact congrFun hmem _
  · rfl
  · refine ⟨fun t' ht' => ?_, rfl⟩
    obtain rfl := Option.some.inj (ht.symm.trans ht')
    rfl
  · intro p hlo hhi href hlost
    have hcount := hc.counts p hlo hhi
    have hgone := List.count_eq_zero_of_not_mem hlost
    change refs m.mapped p + refs m.table p + refs u.machine.taskPage p + refs u.machine.pipePage p = 0 at href
    rw [owners] at hcount
    change m.memMap p = 0
    omega

end Beginning

section Dropping

variable {c : Fin 64} {t : Task} {s s' : Machine} {page : Fin maxArgPages → Option ℕ} {m : Pages}

lemma owners_forget (page : Fin maxArgPages → Option ℕ) (s : Machine) :
    (s.forget page).owners = held s.owners page := by
  funext p
  have hcount : ((List.finRange maxArgPages).filterMap page).count p = refs page p := by
    rw [List.count_filterMap, refs_fin]
    exact List.countP_congr fun i _ => by rw [beq_iff_eq, decide_eq_true_eq]
  change refs s.taskPage p + refs s.pipePage p +
    ((List.finRange maxArgPages).filterMap page ++ s.pages.lost).count p = _
  rw [List.count_append, hcount, held, owners]
  omega

lemma Machine.Sound.forget (h : Sound s) (hc : Counted (held s.owners page) m) (hlost : m.lost = s.pages.lost)
    (hcovered : ∀ d p, m.table d = some p → s.Covers d) : Sound (({ s with pages := m } : Machine).forget page) := by
  refine ⟨?_, h.placed, hcovered, h.unused⟩
  rw [owners_forget, owners_setPages hlost]
  exact hc.setLost _

/-- The turns of the loop over the descriptors in front of `i` are done. -/
structure Closing (c : Fin 64) (t : Task) (lost : List ℕ) (i : ℕ) (s : Machine) : Prop where
  sound : Sound s
  lost : s.pages.lost = lost
  task : ∃ t', s.task c = some t' ∧ Keeps t t' ∧ t'.phase = t.phase ∧
    (∀ fd, fd.val < i → t.files.closeOnExec fd = true → t'.files.filp fd = none) ∧
    ∀ fd, i ≤ fd.val → t'.files.closeOnExec fd = t.files.closeOnExec fd

lemma Closing.step {lost : List ℕ} {i : ℕ} (h : Closing c t lost i s) (hs : s.closeOnExec c i = .ok s') :
    Closing c t lost (i + 1) s' := by
  obtain ⟨u, hu, hkeep, hphase, hclosed, hmarked⟩ := h.task
  rw [Machine.closeOnExec, hu] at hs
  dsimp only at hs
  split_ifs at hs with hi hmark
  · have hcalm := h.sound.sysClose hu hs
    obtain ⟨⟨files, fileTable, value, inode⟩, hclose, hput⟩ := bind_eq_ok hs
    have hset := h.sound.calm_setFiles hu files fileTable
    have htask := (hset.sound.iput hput).2
    have hfilp := Fs.sysClose_filp hclose hi
    have hbits := Fs.sysClose_closeOnExec hclose hi
    refine ⟨hcalm.sound, hcalm.only.lost.trans h.lost, { u with files := files }, ?_, ?_, hphase, ?_, ?_⟩
    · rw [htask, task_put, if_pos rfl]
    · exact ⟨hkeep.page, hkeep.codeBase, hkeep.codeLimit, hkeep.dataBase, hkeep.dataLimit⟩
    · intro fd hfd hmark
      change files.filp fd = none
      rw [hfilp]
      by_cases hat : fd = ⟨i, hi⟩
      · rw [hat, Function.update_self]
      · rw [Function.update_of_ne hat]
        have hne : fd.val ≠ i := fun hv => hat (Fin.ext hv)
        exact hclosed fd (by omega) hmark
    · intro fd hfd
      change files.closeOnExec fd = _
      have hat : fd ≠ ⟨i, hi⟩ := fun heq => by
        rw [heq] at hfd
        exact absurd hfd (Nat.not_succ_le_self i)
      rw [hbits, Function.update_of_ne hat]
      exact hmarked fd (by omega)
  · obtain rfl := Except.ok.inj hs
    refine ⟨h.sound, h.lost, u, hu, hkeep, hphase, ?_, fun fd hfd => hmarked fd (by omega)⟩
    intro fd hfd hbit
    by_cases hat : fd.val = i
    · obtain rfl : fd = ⟨i, hi⟩ := Fin.ext hat
      rw [hmarked _ (le_refl i)] at hmark
      exact absurd hbit hmark
    · exact hclosed fd (by omega) hbit
  · obtain rfl := Except.ok.inj hs
    exact ⟨h.sound, h.lost, u, hu, hkeep, hphase, fun fd hfd => hclosed fd (by omega),
      fun fd hfd => hmarked fd (by omega)⟩

/-- What is true when `load_elf_binary` is called, and as long as it stores. -/
structure Dropped (c : Fin 64) (t : Task) (lost : List ℕ) (s : Machine) : Prop where
  sound : Sound s
  lost : s.pages.lost = lost
  task : ∃ t', s.task c = some t' ∧ Keeps t t' ∧ t'.phase = t.phase ∧
    ∀ fd, t.files.closeOnExec fd = true → t'.files.filp fd = none
  opens : ∀ a < t.dataLimit, Open s.pages (t.place a)
  user : c ≠ 0

lemma Machine.Sound.dropImage (h : Sound s) (ht : s.task c = some t) (hs : s.dropImage c = .ok s') :
    Dropped c t s.pages.lost s' ∧ ∀ a < t.dataLimit, s'.pages.table (t.place a).1 = none := by
  obtain ⟨s₁, hloop, hs⟩ := bind_eq_ok hs
  have hstart : Closing c t s.pages.lost 0 s :=
    ⟨h, rfl, t, ht, ⟨rfl, rfl, rfl, rfl, rfl⟩, rfl, fun _ hlt => absurd hlt (Nat.not_lt_zero _), fun _ _ => rfl⟩
  have hclosing := forLoopE_invariant (P := Closing c t s.pages.lost) hstart (fun i s₁ s₂ h₁ h₂ => h₁.step h₂) hloop
  obtain ⟨u, hu, hkeep, hphase, hclosed, _⟩ := hclosing.task
  rw [dropTables, hu] at hs
  obtain ⟨m₁, hcode, hs⟩ := bind_eq_ok hs
  obtain ⟨m₂, hdata, rfl⟩ := map_eq_ok hs
  obtain ⟨hc, hcount, hon, hnone, hkept⟩ := hclosing.sound.freeSegments hu hcode hdata
  have hlost : m₂.lost = s.pages.lost := hon.lost.trans hclosing.lost
  have hpages := hclosing.sound.setPages hcount hon.lost fun d p hd => hclosing.sound.covered d p (hkept d p hd)
  have hgone : ∀ a < t.dataLimit, m₂.table (t.place a).1 = none := by
    intro a ha
    have hplace : t.place a = u.place a := by rw [Task.place, Task.place, hkeep.dataBase]
    rw [hplace]
    exact hnone _ ((hclosing.sound.placed c u hu).row_place (hkeep.dataLimit ▸ ha)).2
  refine ⟨⟨?_, hlost, ⟨_, (task_put c).trans (if_pos rfl), ?_, hphase, ?_⟩, ?_, hc⟩, hgone⟩
  · exact hpages.put hu ⟨rfl, rfl, rfl, rfl, rfl⟩ fun halive' => Or.inl halive'
  · exact ⟨hkeep.page, hkeep.codeBase, hkeep.codeLimit, hkeep.dataBase, hkeep.dataLimit⟩
  · exact fun fd hbit => hclosed fd fd.isLt hbit
  · intro a ha p hp
    cases (hgone a ha).symm.trans hp

lemma Dropped.store {lost : List ℕ} {a : ℕ} {b : Byte} (h : Dropped c t lost { s with pages := m })
    (halive : t.phase = .alive) {m' : Pages} (hr : t.putFsByte a b m = some m') :
    Dropped c t lost { s with pages := m' } := by
  obtain ⟨u, hu, hkeep, hphase, hclosed⟩ := h.task
  have hp : Placed c t := (h.sound.placed c u hu).keep
    ⟨hkeep.page.symm, hkeep.codeBase.symm, hkeep.codeLimit.symm, hkeep.dataBase.symm, hkeep.dataLimit.symm⟩
  have hplace : ∀ a, u.place a = t.place a := fun a => by rw [Task.place, Task.place, hkeep.dataBase]
  obtain ⟨⟨m₁, b'⟩, hread, rfl⟩ := Option.map_eq_some_iff.mp hr
  obtain ⟨hc₁, hsame⟩ := hp.getFsByte a _ _ _ _ h.sound.counted hread
  obtain ⟨ha, ⟨p, hwalk⟩, hcases⟩ := hp.getFsByte_cases h.sound.counted hread
  have hopens : ∀ x, Open m x → Open m₁ x := by
    rcases hcases with rfl | ⟨_, hf⟩
    · exact fun _ hx => hx
    · exact hf.opens
  have hread' : Sound { s with pages := m₁ } := by
    apply h.sound.setPages hc₁ hsame.lost
    intro d q hd
    rcases hsame.tables d q hd with hold | hrow
    · exact h.sound.covered d q hold
    · exact ⟨c, u, hu, hphase.trans halive, by rw [hkeep.dataLimit]; exact hrow⟩
  have hopen : Open m₁ (u.place a) := by
    rw [hplace]
    exact hopens _ (h.opens a ha)
  rw [← hplace] at hwalk ⊢
  obtain ⟨q, hc₂, hon, _, _, htable, _, hopens', _⟩ :=
    hread'.store (b := b) hu h.user (hkeep.dataLimit ▸ ha) hwalk hopen
  refine ⟨hread'.setPages hc₂ hon.lost fun d r hd => hread'.covered d r (by rw [← htable]; exact hd),
    (hon.lost.trans hsame.lost).trans h.lost, ⟨u, hu, hkeep, hphase, hclosed⟩, ?_, h.user⟩
  exact fun a' ha' => hopens' _ (hopens _ (h.opens a' ha'))

lemma Dropped.stored {lost : List ℕ} (h : Dropped c t lost s) (halive : t.phase = .alive) (hst : t.Stored s.pages m) :
    Dropped c t lost { s with pages := m } := by
  induction hst with
  | refl => exact h
  | next _ hr ih => exact ih.store halive hr

end Dropping

section Result

variable {c : Fin 64} {t : Task} {e : Execve} {u u' : Caller} {passed : Option ℕ} {r : ℤ}

/-- The machine at the point of no return, when the pages for the arguments will be forgotten. -/
lemma Machine.Sound.forgotten {s : Machine} {a : ArgPool} (h : Sound s) (ht : s.task c = some t)
    (halive : t.phase = .alive) (k : Fin Fs.nrInode) (hcopy : Copying (t.Segment c) s.owners s.pages a) :
    Sound (({ s.hold (some k) with pages := a.pages } : Machine).forget a.page) := by
  have hpipe : (s.hold (some k)).pipePage = s.pipePage := by
    rw [Machine.hold, pipePage_setInode]
    exact Function.update_eq_self k s.pipePage
  have howners : (s.hold (some k)).owners = s.owners := owners_congr rfl hpipe rfl
  refine (h.hold (some k)).1.forget ?_ hcopy.same.lost fun d p hd => ?_
  · rw [howners]
    exact hcopy.counted
  · rcases hcopy.same.tables d p hd with hold | hrow
    · exact h.covered d p hold
    · exact ⟨c, t, ht, halive, hrow⟩

/-- Behind the point of no return the caller has lost what it can lose. -/
lemma Dropped.not_kept {page : Fin maxArgPages → Option ℕ} {n : ℕ} {s : Machine} {k : Option (Fin Fs.nrInode)}
    {s' : Machine} (h : Dropped c t ((List.finRange maxArgPages).filterMap page ++ u.machine.pages.lost) s)
    (htaken : 0 < n → ∃ j, (page j).isSome) (hbad : e.BadHeader → ∀ a < t.dataLimit, s.pages.table (t.place a).1 = none)
    (hput : s.iput k = .ok s') (hl : Loses t e u n) :
    ¬Kept c t u { u with machine := s', sigFn := fun _ => 0 } := by
  intro hkept
  obtain ⟨hcalm, htask⟩ := h.sound.iput hput
  rcases hl with ⟨i, hi⟩ | ⟨fd, hbit, hopen⟩ | hn | ⟨hheader, a, ha, w, hw, hpresent⟩
  · exact hi (congrFun hkept.handlers i).symm
  · obtain ⟨v, hv, _, _, hclosed⟩ := h.task
    have hsame := hkept.descriptors.1 v (by rw [← hv]; exact congrFun htask c)
    exact hopen (by rw [← hsame, hclosed fd hbit])
  · obtain ⟨j, hj⟩ := htaken hn
    obtain ⟨p, hp⟩ := Option.isSome_iff_exists.mp hj
    have hmem : p ∈ (List.finRange maxArgPages).filterMap page :=
      List.mem_filterMap.mpr ⟨j, List.mem_finRange j, hp⟩
    have hlost : s'.pages.lost = (List.finRange maxArgPages).filterMap page ++ u.machine.pages.lost :=
      hcalm.only.lost.trans h.lost
    have hforgotten := List.count_pos_iff.mpr hmem
    have howner : s'.owners p = refs s'.taskPage p + refs s'.pipePage p +
        (((List.finRange maxArgPages).filterMap page).count p + u.machine.pages.lost.count p) := by
      rw [owners, hlost, List.count_append]
    have hheld : s'.owners p ≠ 0 := by omega
    obtain ⟨hlo, hhi⟩ := hcalm.sound.counted.own_range p hheld
    obtain ⟨hmapped, htable, hone⟩ := hcalm.sound.counted.of_own hheld
    have hused := hcalm.sound.counted.own_once p hheld
    have hrefs : s'.references p = 0 := by
      rw [references]
      omega
    have hfree := hkept.arguments p hlo hhi hrefs (List.count_eq_zero.mp (by omega))
    exact absurd (hused.symm.trans hfree) (by decide)
  · obtain ⟨v, hv, hkeep, _⟩ := h.task
    have hhigh : 16 ≤ (t.place a).1.val := by
      rw [Task.place, ← hkeep.dataBase]
      exact (h.sound.placed c v hv).high h.user (hkeep.dataLimit ▸ ha)
    have hgone : s'.pages.table (t.place a).1 = none := by
      rw [hcalm.only.table_eq]
      exact hbad hheader a ha
    have hsame := hkept.tables a ha w hw hpresent
    rw [mapping_eq hhigh] at hsame
    change (s'.pages.table (t.place a).1).map _ = _ at hsame
    rw [hgone] at hsame
    cases hsame

/-- For every file, argument list and memory: a call that comes back with an error has left the caller as it was if and
only if it has not got to the point of no return. -/
theorem execve_kept_iff (h : Sound u.machine) (ht : u.machine.task c = some t) (halive : t.phase = .alive)
    (hf : ExecveFails c t e u passed u' r) (hl : ∀ n, passed = some n → Loses t e u n) :
    Kept c t u u' ↔ passed = none := by
  cases hf with
  | refused hb =>
    refine ⟨fun _ => rfl, fun _ => ?_⟩
    cases h.begin ht hb with
    | refused hc hu => exact h.kept ht hc hu
  | @unloadable s page n x bh s₁ m s' hb hfound hfirst hdrop _ hstored hnothing hput =>
    refine ⟨fun hkept => absurd hkept ?_, by rintro ⟨⟩⟩
    cases h.begin ht hb with
    | @passed a k _ hcopy htaken =>
      obtain ⟨hdropped, hgone⟩ := (h.forgotten ht halive k hcopy).dropImage ht hdrop
      have hlost : (({ u.machine.hold (some k) with pages := a.pages } : Machine).forget a.page).pages.lost =
          (List.finRange maxArgPages).filterMap a.page ++ u.machine.pages.lost := congrArg (_ ++ ·) hcopy.same.lost
      rw [hlost] at hdropped
      refine (hdropped.stored halive hstored).not_kept htaken ?_ hput (hl n rfl)
      rintro ⟨x', bh', hfound', hfirst', hbad⟩
      obtain rfl := Option.some.inj (hfound.symm.trans hfound')
      obtain rfl := Option.some.inj (hfirst.symm.trans hfirst')
      rw [hnothing hbad]
      exact hgone

end Result

section Example

/-- Process 1 of `crowded`, with the name `a` at address 0. -/
def named : Machine :=
  { crowded with pages := crowded.pages.store ((plainTask 1 513 0x4000000).place 0) (0 % 4096) 97 }

/-- A regular file that all may execute, of zeros. -/
def zeros : ExecFile where
  slot := 0
  inode := ⟨0o100755, 1024, fun _ => 100, 2⟩
  iUid := 0
  iGid := 0
  volume := ⟨fun _ => Block.zero, fun _ => true, fun _ => true, 1024, 20, 1000⟩
  behind _ _ := 0

/-- `execve("a", NULL, NULL)` -/
def callZeros : Execve := ⟨0, 0, 0, 2, some zeros⟩

/-- The caller has set all handlers. -/
def handling : Caller := ⟨named, ⟨0, 0, 0, 0, 0, 0⟩, fun _ => 1⟩

lemma named_reads : Sound named ∧ named.pages.walk ((plainTask 1 513 0x4000000).place 0) = some 516 := by
  have ha : 0 < (plainTask 1 513 0x4000000).dataLimit := by
    dsimp only [plainTask]
    omega
  have hhigh : 16 ≤ ((plainTask 1 513 0x4000000).place 0).1.val :=
    (init_crowded.1.placed 1 _ task_crowded_one).high (by decide) ha
  obtain ⟨hwalk, hw⟩ := crowded_address_zero
  have hopen := init_crowded.1.open_of_writable task_crowded_one (by decide) ha hwalk hw
  obtain ⟨q, hc, hon, _, _, htable, hmapped, _⟩ :=
    init_crowded.1.store (b := 97) task_crowded_one (by decide) ha hwalk hopen
  refine ⟨init_crowded.1.setPages hc hon.lost fun d p hd => init_crowded.1.covered d p (by rw [← htable]; exact hd), ?_⟩
  rw [walk_eq_mapped hhigh] at hwalk ⊢
  exact (congrFun hmapped _).trans hwalk

/-- The two bytes of the name are read without a fault. -/
lemma named_name : ∃ v, (plainTask 1 513 0x4000000).getFsBytes 2 0 named.pages = some (named.pages, v) := by
  have hone : (plainTask 1 513 0x4000000).place 1 = (plainTask 1 513 0x4000000).place 0 := placeOf_congr (by decide)
  have hread : ∀ a < 2, (plainTask 1 513 0x4000000).getFsByte a named.pages =
      some (named.pages, named.pages.mem 516 (a % pageSize)) := by
    intro a ha
    have hplace : (plainTask 1 513 0x4000000).place a = (plainTask 1 513 0x4000000).place 0 := by
      rcases (by omega : a = 0 ∨ a = 1) with rfl | rfl
      · rfl
      · exact hone
    rw [Task.getFsByte, if_neg (by dsimp only [plainTask]; omega), hplace, named_reads.2]
  have hlast : (plainTask 1 513 0x4000000).getFsBytes 1 1 named.pages =
      some (named.pages, (named.pages.mem 516 1).toNat + 256 * 0) := by
    rw [Task.getFsBytes, hread 1 (by decide)]
    rfl
  refine ⟨(named.pages.mem 516 0).toNat + 256 * ((named.pages.mem 516 1).toNat + 256 * 0), ?_⟩
  rw [Task.getFsBytes, hread 0 (by decide), Option.bind_some]
  dsimp only
  rw [hlast]
  rfl

/-- Without marked descriptors only the tables go. -/
lemma Machine.Sound.dropImage_unmarked {c : Fin 64} {t : Task} {s : Machine} (h : Sound s) (ht : s.task c = some t)
    (hc : c ≠ 0) (hbits : ∀ fd, t.files.closeOnExec fd = false) : ∃ m files,
      s.dropImage c = .ok ({ s with pages := m }.put c { t with files := files }) := by
  have hturn : ∀ i, s.closeOnExec c i = .ok s := by
    intro i
    rw [Machine.closeOnExec, ht]
    dsimp only
    split_ifs with hi hbit
    · rw [hbits] at hbit
      cases hbit
    · rfl
    · rfl
  have hloop : ∃ s₁, forLoopE (closeOnExec c) s nrOpen = .ok s₁ ∧ s₁ = s := by
    apply forLoopE_induction (P := fun _ s₁ => s₁ = s) rfl
    rintro i s₁ _ rfl
    exact ⟨s₁, hturn i, rfl⟩
  obtain ⟨s₁, hloop, rfl⟩ := hloop
  obtain ⟨m₁, m₂, hcode, hdata⟩ := h.freeSegments_returns ht hc
  refine ⟨m₂, { t.files with closeOnExec := fun _ => false }, ?_⟩
  rw [Machine.dropImage, hloop]
  change dropTables c s₁ = _
  rw [dropTables, ht]
  dsimp only
  rw [hcode]
  change (m₁.freePageTables t.dataBase t.dataLimit).map _ = _
  rw [hdata]
  rfl

lemma zeros_fails : ∃ u', ExecveFails 1 (plainTask 1 513 0x4000000) callZeros handling (some 0) u' (-eacces) ∧
    u'.sigFn = fun _ => 0 := by
  have hsound := named_reads.1
  obtain ⟨v, hname⟩ := named_name
  have hbegin : handling.begin (plainTask 1 513 0x4000000) callZeros =
      some (.passed (named.hold (some 0)) (fun _ => none) 0) := by
    rw [Caller.begin]
    change ((plainTask 1 513 0x4000000).getFsBytes 2 0 named.pages).bind _ = _
    rw [hname]
    rfl
  have hstart : Copying ((plainTask 1 513 0x4000000).Segment 1) named.owners named.pages
      ⟨named.pages, fun _ => none⟩ := by
    refine ⟨?_, .refl _⟩
    rw [held_empty]
    exact hsound.counted
  obtain ⟨m, files, hdrop⟩ := (hsound.forgotten (c := 1) task_crowded_one rfl 0 hstart).dropImage_unmarked (c := 1)
    task_crowded_one (by decide) fun _ => rfl
  have hbad : ¬Fs.isValidElf (.read Block.zero) := by decide
  have hload : ∀ l m, (zeros.source l).loadElfBinary 100 m = .ok none := by
    intro l m
    rw [Fs.Source.loadElfBinary]
    exact if_pos (Or.inl hbad)
  exact ⟨_, .unloadable hbegin rfl rfl hdrop (hload _ _) .refl (fun _ => rfl) rfl, rfl⟩

/-- A file of zeros is found to be none of the format when the handlers are gone. -/
theorem handlers_lost : ¬∀ (c : Fin 64) (t : Task) (e : Execve) (u u' : Caller) (passed : Option ℕ) (r : ℤ),
    Sound u.machine → u.machine.task c = some t → t.phase = .alive → ExecveFails c t e u passed u' r →
    Kept c t u u' := by
  intro hall
  obtain ⟨u', hf, hnull⟩ := zeros_fails
  have hkept := hall _ _ _ _ _ _ _ named_reads.1 task_crowded_one rfl hf
  have hone : (1 : ℕ) = 0 := by
    have hsame := congrFun hkept.handlers 0
    rw [hnull] at hsame
    exact hsame.symm
  exact absurd hone (by decide)

theorem execve_kept_zeros : ∃ u', ExecveFails 1 (plainTask 1 513 0x4000000) callZeros handling (some 0) u' (-eacces) ∧
    (Kept 1 (plainTask 1 513 0x4000000) handling u' ↔ some 0 = none) := by
  obtain ⟨u', hf, _⟩ := zeros_fails
  have hlose : ∀ n, some 0 = some n → Loses (plainTask 1 513 0x4000000) callZeros handling n :=
    fun _ _ => Or.inl ⟨0, Nat.one_ne_zero⟩
  exact ⟨u', hf, execve_kept_iff named_reads.1 task_crowded_one rfl hf hlose⟩

end Example

end Devos.Mm
