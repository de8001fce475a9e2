import Devos.Basic
import Devos.Library.Runs
import Mathlib.Data.List.FinRange

/-! Processes as `fork`, `exit` and `waitpid` see them: who is whose father, and who takes a dead
child out of the table. -/

namespace Devos.Kernel

open Runs

/-- `exiting` is a process in `do_exit` that has given its children away. -/
inductive Phase where
  | alive
  | exiting
  | zombie
  deriving DecidableEq

structure Process where
  pid : ℤ
  father : ℤ
  pgrp : ℤ
  phase : Phase
  deriving DecidableEq

structure ProcessTable where
  task : Fin 64 → Option Process
  lastPid : ℤ

namespace ProcessTable

-- `last_pid` is a `long`: past its largest value it is negative
def nextPid (lastPid : ℤ) : ℤ := if lastPid + 1 < 2 ^ 31 then lastPid + 1 else 1

def pidUsed (s : ProcessTable) (pid : ℤ) : Bool := (List.finRange 64).any fun i => (s.task i).any fun p => p.pid = pid

/-- The loop `goto repeat`, at most `fuel` times. -/
def findPid (s : ProcessTable) : ℕ → ℤ → Option ℤ
  | 0, _ => none
  | fuel + 1, lastPid =>
    if s.pidUsed (nextPid lastPid) then s.findPid fuel (nextPid lastPid) else some (nextPid lastPid)

def findEmptyProcess (s : ProcessTable) : Option (ℤ × Option (Fin 64)) :=
  (s.findPid 65 s.lastPid).map fun pid =>
    (pid, (List.finRange 64).find? fun i => i ≠ 0 ∧ s.task i = none)

def put (s : ProcessTable) (i : Fin 64) (p : Process) : ProcessTable :=
  { s with task := Function.update s.task i (some p) }

def release (s : ProcessTable) (i : Fin 64) : ProcessTable :=
  { s with task := Function.update s.task i none }

/-- What `copy_process` makes of its caller `p`. -/
def copyProcess (s : ProcessTable) (p : Process) (pid : ℤ) (i : Fin 64) : ProcessTable :=
  { s with lastPid := pid }.put i { p with pid := pid, father := p.pid }

def giveAway (pid : ℤ) (p : Process) : Process := if p.father = pid then { p with father := 0 } else p

/-- `do_exit` up to the first call that may sleep. -/
def beginExit (s : ProcessTable) (i : Fin 64) (p : Process) : ProcessTable :=
  { s with task := fun j => (s.task j).map (giveAway p.pid) }.put i { giveAway p.pid p with phase := .exiting }

def endExit (s : ProcessTable) (i : Fin 64) (p : Process) : ProcessTable :=
  if p.father ≠ 0 then s.put i { p with phase := .zombie } else s.release i

/-- The test of `sys_waitpid` on one task. -/
def selects (current : Process) (pid : ℤ) (p : Process) : Bool :=
  (pid = -1 || p.pid = pid || (pid = 0 && p.pgrp = current.pgrp) || (pid < 0 && p.pgrp = -pid)) &&
    (p.father = current.pid && p.phase = .zombie)

def findZombie (s : ProcessTable) (i : Fin 64) (current : Process) (pid : ℤ) : Option (Fin 64) :=
  (List.finRange 64).reverse.find? fun j => j ≠ 0 ∧ j ≠ i ∧ (s.task j).any (selects current pid)

/-- One scan; without a zombie the call returns or sleeps. -/
def sysWaitpid (s : ProcessTable) (i : Fin 64) (current : Process) (pid : ℤ) : ProcessTable :=
  match s.findZombie i current pid with
  | none => s
  | some j => s.release j

end ProcessTable

inductive ProcessCall where
  | fork (i : Fin 64)
  | beginExit (i : Fin 64)
  | endExit (i : Fin 64)
  | waitpid (i : Fin 64) (pid : ℤ)
  deriving DecidableEq

/-- Task 0 runs `main`, which forks and pauses and neither exits nor waits. -/
inductive ProcessStep (s : ProcessTable) : ProcessCall → ProcessTable → Prop
  | fork {i p pid j} : s.task i = some p → p.phase = .alive → s.findEmptyProcess = some (pid, some j) →
      ProcessStep s (.fork i) (s.copyProcess p pid j)
  | noFork {i p pid j} : s.task i = some p → p.phase = .alive → s.findEmptyProcess = some (pid, j) →
      ProcessStep s (.fork i) { s with lastPid := pid }
  | beginExit {i p} : i ≠ 0 → s.task i = some p → p.phase = .alive → ProcessStep s (.beginExit i) (s.beginExit i p)
  | endExit {i p} : s.task i = some p → p.phase = .exiting → ProcessStep s (.endExit i) (s.endExit i p)
  | waitpid {i p pid} : i ≠ 0 → s.task i = some p → p.phase = .alive →
      ProcessStep s (.waitpid i pid) (s.sysWaitpid i p pid)

/-- `task[0]` and nothing else. -/
def bootTable : ProcessTable where
  task i := if i = 0 then some ⟨0, -1, 0, .alive⟩ else none
  lastPid := 0

def processSystem : System ProcessTable ProcessCall where
  init s := s = bootTable
  step := ProcessStep

namespace ProcessTable

/-- A process that exits has waited for its dead children. -/
def NoZombieChild (s : ProcessTable) : ProcessCall → Prop
  | .beginExit i => ∀ p, s.task i = some p → ∀ j z, s.task j = some z → z.father = p.pid → z.phase ≠ .zombie
  | _ => True

/-- What every call keeps. -/
structure Orderly (s : ProcessTable) : Prop where
  idle : ∃ p, s.task 0 = some p ∧ p.pid = 0 ∧ p.father = -1 ∧ p.phase = .alive
  pid_pos : ∀ i p, i ≠ 0 → s.task i = some p → 0 < p.pid
  pid_inj : ∀ i j p q, s.task i = some p → s.task j = some q → p.pid = q.pid → i = j
  father : ∀ i p, i ≠ 0 → s.task i = some p →
    p.father = 0 ∨ ∃ j q, j ≠ 0 ∧ s.task j = some q ∧ q.pid = p.father ∧ q.phase = .alive
  lastPid : 0 ≤ s.lastPid

section Steps

variable {s s' : ProcessTable} {i j k : Fin 64} {p q : Process} {pid : ℤ}

lemma nextPid_pos {lastPid : ℤ} (h : 0 ≤ lastPid) : 0 < nextPid lastPid := by
  unfold nextPid
  split <;> omega

lemma pidUsed_false (h : s.pidUsed pid = false) (hi : s.task i = some p) : p.pid ≠ pid := by
  intro he
  have hused : s.pidUsed pid = true := by
    simp only [pidUsed, List.any_eq_true, List.mem_finRange, true_and]
    exact ⟨i, by simp [hi, he]⟩
  rw [h] at hused
  cases hused

lemma findPid_spec (s : ProcessTable) (fuel : ℕ) {lastPid : ℤ} (h₀ : 0 ≤ lastPid)
    (h : s.findPid fuel lastPid = some pid) : 0 < pid ∧ s.pidUsed pid = false := by
  induction fuel generalizing lastPid with
  | zero => cases h
  | succ fuel ih =>
    have hpos := nextPid_pos h₀
    unfold findPid at h
    split_ifs at h with hused
    · exact ih hpos.le h
    · cases h
      exact ⟨hpos, by simpa using hused⟩

lemma findEmptyProcess_spec (hs : Orderly s) {o : Option (Fin 64)} (h : s.findEmptyProcess = some (pid, o)) :
    0 < pid ∧ s.pidUsed pid = false ∧ ∀ j, o = some j → j ≠ 0 ∧ s.task j = none := by
  simp only [findEmptyProcess, Option.map_eq_some_iff, Prod.mk.injEq] at h
  obtain ⟨pid', hfind, rfl, rfl⟩ := h
  obtain ⟨hpos, hfree⟩ := findPid_spec s 65 hs.lastPid hfind
  refine ⟨hpos, hfree, ?_⟩
  intro j hj
  simpa using List.find?_some hj

lemma giveAway_pid (pid : ℤ) (p : Process) : (giveAway pid p).pid = p.pid := by
  unfold giveAway
  split <;> rfl

lemma giveAway_phase (pid : ℤ) (p : Process) : (giveAway pid p).phase = p.phase := by
  unfold giveAway
  split <;> rfl

lemma giveAway_father (pid : ℤ) (p : Process) :
    (giveAway pid p).father = if p.father = pid then 0 else p.father := by
  unfold giveAway
  split <;> rfl

lemma Orderly.ne_zero (hs : Orderly s) (hi : s.task i = some p) (hp : p.phase ≠ .alive) : i ≠ 0 := by
  rintro rfl
  obtain ⟨q, hq, _, _, hphase⟩ := hs.idle
  rw [hi] at hq
  cases hq
  exact hp hphase

/-- A slot that was free gets a child of a living process. -/
lemma Orderly.copyProcess (hs : Orderly s) (hi : s.task i = some p) (hp : p.phase = .alive)
    (hfind : s.findEmptyProcess = some (pid, some j)) : Orderly (s.copyProcess p pid j) := by
  obtain ⟨hpos, hfree, hslot⟩ := findEmptyProcess_spec hs hfind
  obtain ⟨hj, hnone⟩ := hslot j rfl
  have hnew : (s.copyProcess p pid j).task j = some { p with pid := pid, father := p.pid } :=
    Function.update_self ..
  have hold : ∀ k, k ≠ j → (s.copyProcess p pid j).task k = s.task k := fun k hk => Function.update_of_ne hk ..
  have hkept : ∀ k q, s.task k = some q → (s.copyProcess p pid j).task k = some q := by
    intro k q hk
    rw [hold k, hk]
    rintro rfl
    rw [hnone] at hk
    cases hk
  refine ⟨?_, ?_, ?_, ?_, hpos.le⟩
  · obtain ⟨q, hq, hrest⟩ := hs.idle
    exact ⟨q, hkept 0 q hq, hrest⟩
  · intro k q hk hq
    by_cases hkj : k = j
    · rw [hkj, hnew] at hq
      cases hq
      exact hpos
    · rw [hold k hkj] at hq
      exact hs.pid_pos k q hk hq
  · intro k l q r hq hr he
    by_cases hkj : k = j <;> by_cases hlj : l = j
    · rw [hkj, hlj]
    · rw [hkj, hnew] at hq
      rw [hold l hlj] at hr
      cases hq
      exact absurd he.symm (pidUsed_false hfree hr)
    · rw [hlj, hnew] at hr
      rw [hold k hkj] at hq
      cases hr
      exact absurd he (pidUsed_false hfree hq)
    · rw [hold k hkj] at hq
      rw [hold l hlj] at hr
      exact hs.pid_inj k l q r hq hr he
  · intro k q hk hq
    by_cases hkj : k = j
    · rw [hkj, hnew] at hq
      cases hq
      by_cases hi₀ : i = 0
      · left
        obtain ⟨r, hr, hzero, _⟩ := hs.idle
        rw [← hi₀, hi] at hr
        cases hr
        exact hzero
      · exact Or.inr ⟨i, p, hi₀, hkept i p hi, rfl, hp⟩
    · rw [hold k hkj] at hq
      rcases hs.father k q hk hq with h₀ | ⟨l, r, hl, hr, hrest⟩
      · exact Or.inl h₀
      · exact Or.inr ⟨l, r, hl, hkept l r hr, hrest⟩

lemma beginExit_self (s : ProcessTable) (i : Fin 64) (p : Process) :
    (s.beginExit i p).task i = some { giveAway p.pid p with phase := .exiting } := Function.update_self ..

lemma beginExit_other (hk : k ≠ i) : (s.beginExit i p).task k = (s.task k).map (giveAway p.pid) :=
  Function.update_of_ne hk ..

lemma beginExit_task (hi : s.task i = some p) (hk : (s.beginExit i p).task k = some q) :
    ∃ r, s.task k = some r ∧ q.pid = r.pid ∧ (q.father = if r.father = p.pid then 0 else r.father) ∧
      q.phase = if k = i then .exiting else r.phase := by
  by_cases hki : k = i
  · rw [hki, beginExit_self] at hk
    cases hk
    refine ⟨p, ?_, giveAway_pid .., giveAway_father .., by simp [hki]⟩
    rw [hki, hi]
  · rw [beginExit_other hki, Option.map_eq_some_iff] at hk
    obtain ⟨r, hr, rfl⟩ := hk
    refine ⟨r, hr, giveAway_pid .., giveAway_father .., ?_⟩
    rw [if_neg hki]
    exact giveAway_phase ..

lemma Orderly.beginExit (hs : Orderly s) (hi₀ : i ≠ 0) (hi : s.task i = some p) : Orderly (s.beginExit i p) := by
  have hpos := hs.pid_pos i p hi₀ hi
  refine ⟨?_, ?_, ?_, ?_, hs.lastPid⟩
  · obtain ⟨q, hq, hpid, hfather, hphase⟩ := hs.idle
    refine ⟨giveAway p.pid q, ?_, ?_, ?_, ?_⟩
    · rw [beginExit_other hi₀.symm, hq]
      rfl
    · rw [giveAway_pid, hpid]
    · rw [giveAway_father, hfather, if_neg (by omega)]
    · rw [giveAway_phase, hphase]
  · intro k q hk hq
    obtain ⟨r, hr, hpid, _⟩ := beginExit_task hi hq
    rw [hpid]
    exact hs.pid_pos k r hk hr
  · intro k l q r hq hr he
    obtain ⟨q', hq', hqpid, _⟩ := beginExit_task hi hq
    obtain ⟨r', hr', hrpid, _⟩ := beginExit_task hi hr
    rw [hqpid, hrpid] at he
    exact hs.pid_inj k l q' r' hq' hr' he
  · intro k q hk hq
    obtain ⟨r, hr, _, hfather, _⟩ := beginExit_task hi hq
    rw [hfather]
    by_cases hchild : r.father = p.pid
    · simp [hchild]
    · rw [if_neg hchild]
      rcases hs.father k r hk hr with h₀ | ⟨l, t, hl, ht, hpid, hphase⟩
      · exact Or.inl h₀
      · have hli : l ≠ i := by
          rintro rfl
          rw [hi] at ht
          cases ht
          exact hchild hpid.symm
        refine Or.inr ⟨l, giveAway p.pid t, hl, ?_, ?_, ?_⟩
        · rw [beginExit_other hli, ht]
          rfl
        · rw [giveAway_pid, hpid]
        · rw [giveAway_phase, hphase]

/-- Nobody's father changes in a way that its children see once it has given them away. -/
lemma Orderly.settle (hs : Orderly s) (hi : s.task i = some p) (hp : p.phase ≠ .alive)
    (hother : ∀ k, k ≠ i → s'.task k = s.task k) (hlast : s'.lastPid = s.lastPid)
    (hself : ∀ q, s'.task i = some q → q.pid = p.pid ∧ q.father = p.father) : Orderly s' := by
  have hi₀ := hs.ne_zero hi hp
  have hback : ∀ k q, s'.task k = some q → ∃ r, s.task k = some r ∧ q.pid = r.pid ∧ q.father = r.father := by
    intro k q hq
    by_cases hki : k = i
    · rw [hki] at hq ⊢
      exact ⟨p, hi, hself q hq⟩
    · rw [hother k hki] at hq
      exact ⟨q, hq, rfl, rfl⟩
  refine ⟨?_, ?_, ?_, ?_, hlast ▸ hs.lastPid⟩
  · rw [hother 0 hi₀.symm]
    exact hs.idle
  · intro k q hk hq
    obtain ⟨r, hr, hpid, _⟩ := hback k q hq
    rw [hpid]
    exact hs.pid_pos k r hk hr
  · intro k l q r hq hr he
    obtain ⟨q', hq', hqpid, _⟩ := hback k q hq
    obtain ⟨r', hr', hrpid, _⟩ := hback l r hr
    rw [hqpid, hrpid] at he
    exact hs.pid_inj k l q' r' hq' hr' he
  · intro k q hk hq
    obtain ⟨r, hr, _, hfather⟩ := hback k q hq
    rw [hfather]
    rcases hs.father k r hk hr with h₀ | ⟨l, t, hl, ht, hpid, hphase⟩
    · exact Or.inl h₀
    · have hli : l ≠ i := by
        rintro rfl
        rw [hi] at ht
        cases ht
        exact hp hphase
      exact Or.inr ⟨l, t, hl, (hother l hli).trans ht, hpid, hphase⟩

lemma put_other (hk : k ≠ i) : (s.put i p).task k = s.task k := Function.update_of_ne hk ..

lemma put_self (s : ProcessTable) (i : Fin 64) (p : Process) : (s.put i p).task i = some p := Function.update_self ..

lemma release_other (hk : k ≠ i) : (s.release i).task k = s.task k := Function.update_of_ne hk ..

lemma release_self (s : ProcessTable) (i : Fin 64) : (s.release i).task i = none := Function.update_self ..

lemma Orderly.release (hs : Orderly s) (hi : s.task i = some p) (hp : p.phase ≠ .alive) : Orderly (s.release i) := by
  apply hs.settle hi hp (fun k => release_other) rfl
  simp [release_self]

lemma Orderly.endExit (hs : Orderly s) (hi : s.task i = some p) (hp : p.phase = .exiting) :
    Orderly (s.endExit i p) := by
  unfold ProcessTable.endExit
  split_ifs
  · apply hs.settle hi (by simp [hp]) (fun k => put_other) rfl
    intro q hq
    rw [put_self] at hq
    cases hq
    exact ⟨rfl, rfl⟩
  · exact hs.release hi (by simp [hp])

lemma selects_zombie (h : selects p pid q = true) : q.father = p.pid ∧ q.phase = .zombie := by
  simp only [selects, Bool.and_eq_true, decide_eq_true_eq] at h
  exact h.2

/-- What `sys_waitpid` takes out of the table is a dead child of its caller. -/
lemma findZombie_spec (h : s.findZombie i p pid = some j) :
    j ≠ 0 ∧ ∃ z, s.task j = some z ∧ selects p pid z = true := by
  have hfound := List.find?_some h
  simp only [ne_eq, Option.any_eq_true, Bool.decide_and, Bool.and_eq_true, decide_eq_true_eq] at hfound
  exact ⟨hfound.1, hfound.2.2⟩

lemma sysWaitpid_cases (s : ProcessTable) (i : Fin 64) (p : Process) (pid : ℤ) :
    s.sysWaitpid i p pid = s ∨ ∃ j z, j ≠ 0 ∧ s.task j = some z ∧ z.father = p.pid ∧ z.phase = .zombie ∧
      s.sysWaitpid i p pid = s.release j := by
  unfold sysWaitpid
  split
  · exact Or.inl rfl
  · next j hfind =>
    obtain ⟨hj, z, hz, hsel⟩ := findZombie_spec hfind
    obtain ⟨hfather, hphase⟩ := selects_zombie hsel
    exact Or.inr ⟨j, z, hj, hz, hfather, hphase, rfl⟩

theorem Orderly.step (hs : Orderly s) {e : ProcessCall} (h : ProcessStep s e s') : Orderly s' := by
  cases h with
  | fork hi hp hfind => exact hs.copyProcess hi hp hfind
  | noFork _ _ hfind =>
    obtain ⟨hpos, _⟩ := findEmptyProcess_spec hs hfind
    exact ⟨hs.idle, hs.pid_pos, hs.pid_inj, hs.father, hpos.le⟩
  | beginExit hi₀ hi => exact hs.beginExit hi₀ hi
  | endExit hi hp => exact hs.endExit hi hp
  | @waitpid i p pid _ _ _ =>
    rcases sysWaitpid_cases s i p pid with he | ⟨j, z, _, hz, _, hphase, he⟩
    · rw [he]
      exact hs
    · rw [he]
      exact hs.release hz (by simp [hphase])

/-- Somebody is left who may wait for each zombie. -/
def Waited (s : ProcessTable) : Prop := ∀ i z, s.task i = some z → z.phase = .zombie → z.father ≠ 0

/-- A zombie that was given to task 0. -/
def Orphaned (s : ProcessTable) (i : Fin 64) (z : Process) : Prop :=
  s.task i = some z ∧ z.phase = .zombie ∧ z.father = 0

lemma Orphaned.step (hs : Orderly s) (hz : Orphaned s i q) {e : ProcessCall} (h : ProcessStep s e s') :
    Orphaned s' i q := by
  obtain ⟨hi, hphase, hfather⟩ := hz
  refine ⟨?_, hphase, hfather⟩
  cases h with
  | @fork k p pid j _ _ hfind =>
    obtain ⟨_, _, hslot⟩ := findEmptyProcess_spec hs hfind
    have hij : i ≠ j := by
      rintro rfl
      rw [(hslot i rfl).2] at hi
      cases hi
    exact (put_other hij).trans hi
  | noFork => exact hi
  | @beginExit k p hk₀ hk hp =>
    have hik : i ≠ k := by
      rintro rfl
      rw [hi] at hk
      cases hk
      rw [hphase] at hp
      cases hp
    have hpos := hs.pid_pos k p hk₀ hk
    rw [beginExit_other hik, hi, Option.map_some, giveAway, if_neg (by omega)]
  | @endExit k p hk hp =>
    have hik : i ≠ k := by
      rintro rfl
      rw [hi] at hk
      cases hk
      rw [hphase] at hp
      cases hp
    unfold ProcessTable.endExit
    split_ifs
    · rw [put_other hik, hi]
    · rw [release_other hik, hi]
  | @waitpid k p pid hk₀ hk _ =>
    have hpos := hs.pid_pos k p hk₀ hk
    rcases sysWaitpid_cases s k p pid with he | ⟨j, z, _, hz, hzfather, _, he⟩
    · rw [he, hi]
    · have hij : i ≠ j := by
        rintro rfl
        rw [hi] at hz
        cases hz
        omega
      rw [he, release_other hij, hi]

lemma Waited.release (hw : Waited s) (i : Fin 64) : Waited (s.release i) := by
  intro k z hk
  by_cases hki : k = i
  · rw [hki, release_self] at hk
    cases hk
  · rw [release_other hki] at hk
    exact hw k z hk

lemma Waited.put (hw : Waited s) (hp : p.phase = .zombie → p.father ≠ 0) : Waited (s.put i p) := by
  intro k z hk
  by_cases hki : k = i
  · rw [hki, put_self] at hk
    cases hk
    exact hp
  · rw [put_other hki] at hk
    exact hw k z hk

lemma Waited.beginExit (hw : Waited s) (hi : s.task i = some p) (hp : p.phase = .alive) :
    Waited (s.beginExit i p) ↔ NoZombieChild s (.beginExit i) := by
  constructor
  · intro h p' hp' j z hj hchild hphase
    rw [hi] at hp'
    cases hp'
    have hji : j ≠ i := by
      rintro rfl
      rw [hi] at hj
      cases hj
      rw [hp] at hphase
      cases hphase
    apply h j (giveAway p.pid z)
    · rw [beginExit_other hji, hj]
      rfl
    · rw [giveAway_phase, hphase]
    · rw [giveAway_father, if_pos hchild]
  · intro h k q hk hphase
    obtain ⟨r, hr, _, hfather, hqphase⟩ := beginExit_task hi hk
    rw [hphase] at hqphase
    split_ifs at hqphase
    rw [hfather, if_neg]
    · exact hw k r hr hqphase.symm
    · intro hchild
      exact h p hi k r hr hchild hqphase.symm

theorem Waited.step (hw : Waited s) {e : ProcessCall} (h : ProcessStep s e s') :
    Waited s' ↔ NoZombieChild s e := by
  cases h with
  | fork _ hp _ =>
    apply iff_of_true _ trivial
    apply Waited.put (s := { s with lastPid := _ }) hw
    simp [hp]
  | noFork => exact iff_of_true hw trivial
  | beginExit _ hi hp => exact hw.beginExit hi hp
  | endExit =>
    apply iff_of_true _ trivial
    unfold ProcessTable.endExit
    split_ifs with hfather
    · exact hw.put fun _ => hfather
    · exact hw.release _
  | @waitpid i p pid _ _ _ =>
    apply iff_of_true _ trivial
    rcases sysWaitpid_cases s i p pid with he | ⟨j, _, _, _, _, _, he⟩
    · rw [he]
      exact hw
    · rw [he]
      exact hw.release j

end Steps

lemma bootTable_task {i : Fin 64} {p : Process} (h : bootTable.task i = some p) : i = 0 ∧ p = ⟨0, -1, 0, .alive⟩ := by
  dsimp only [bootTable] at h
  split_ifs at h with hi
  cases h
  exact ⟨hi, rfl⟩

lemma bootTable_orderly : Orderly bootTable := by
  refine ⟨⟨_, rfl, rfl, rfl, rfl⟩, ?_, ?_, ?_, le_refl 0⟩
  · intro i p hi hp
    exact absurd (bootTable_task hp).1 hi
  · intro i j p q hp hq _
    rw [(bootTable_task hp).1, (bootTable_task hq).1]
  · intro i p hi hp
    exact absurd (bootTable_task hp).1 hi

lemma orderly_of_reach {ok : ProcessTable → ProcessCall → Prop} {s : ProcessTable} (hs : processSystem.Reach ok s) :
    Orderly s := by
  apply hs.invariant (I := Orderly)
  · rintro s rfl
    exact bootTable_orderly
  · exact fun s e s' hs _ hstep => hs.step hstep

/-- Task 0 has forked `init`, which has forked. -/
def family : ProcessTable :=
  (bootTable.copyProcess ⟨0, -1, 0, .alive⟩ 1 1).copyProcess ⟨1, 0, 0, .alive⟩ 2 2

lemma reach_family {ok : ProcessTable → ProcessCall → Prop} (hok : ∀ s i, ok s (.fork i)) :
    processSystem.Reach ok family := by
  have hinit : ProcessStep bootTable (.fork 0) (bootTable.copyProcess ⟨0, -1, 0, .alive⟩ 1 1) :=
    .fork rfl rfl (by decide)
  have hchild : ProcessStep (bootTable.copyProcess ⟨0, -1, 0, .alive⟩ 1 1) (.fork 1) family :=
    .fork rfl rfl (by decide)
  exact .next (.next (.start rfl) (hok _ _) hinit) (hok _ _) hchild

end ProcessTable

end Devos.Kernel
