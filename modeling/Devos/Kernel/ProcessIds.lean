import Devos.Kernel.Reaping
import Devos.Library.Loops
import Mathlib.Data.Fintype.Pigeonhole

/-! The pids that `find_empty_process` chooses and `copy_process` gives away. -/

namespace Devos.Kernel.ProcessTable

open Loops Runs

/-- A pass from `repeat` on, at this `last_pid`. -/
def pidRound (s : ProcessTable) (lastPid : ℤ) : Pass ℤ ℤ :=
  if s.pidUsed (nextPid lastPid) then .again (nextPid lastPid) else .leave (nextPid lastPid)

/-- `copy_process` from `memcpy` on, which has the pid from `last_pid` and returns it. -/
def copyCurrent (s : ProcessTable) (p : Process) (nr : Fin 64) : ProcessTable × ℤ :=
  (s.put nr { p with pid := s.lastPid, father := p.pid }, s.lastPid)

/-- The search for a pid comes to an end, with one that no task has; the child of every task has it. -/
def Chooses (s : ProcessTable) (pid : ℤ) : Prop :=
  Returns s.pidRound s.lastPid pid ∧ 0 < pid ∧ (∀ i p, s.task i = some p → p.pid ≠ pid) ∧
    (∃ nr, s.findEmptyProcess = some (pid, nr)) ∧
    ∀ p nr, (({ s with lastPid := pid }).copyCurrent p nr).2 = pid ∧
      ∃ q, (({ s with lastPid := pid }).copyCurrent p nr).1.task nr = some q ∧ q.pid = pid

def Distinct (s : ProcessTable) : Prop := ∀ i j p q, s.task i = some p → s.task j = some q → p.pid = q.pid → i = j

section Search

variable {s : ProcessTable} {pid lastPid : ℤ}

/-- The candidate after `n + 1` increments. -/
def candidate (lastPid : ℤ) (n : ℕ) : ℤ := nextPid^[n + 1] lastPid

lemma candidate_succ (lastPid : ℤ) (n : ℕ) : candidate lastPid (n + 1) = candidate (nextPid lastPid) n :=
  Function.iterate_succ_apply ..

/-- The candidates go round the positive values of a `long`. -/
lemma candidate_eq (h₀ : 0 ≤ lastPid) (h : lastPid < 2 ^ 31) (n : ℕ) :
    candidate lastPid n = (lastPid + n) % (2 ^ 31 - 1) + 1 := by
  induction n generalizing lastPid with
  | zero =>
    change nextPid lastPid = _
    unfold nextPid
    split_ifs <;> omega
  | succ n ih =>
    rw [candidate_succ]
    have hnext : 0 ≤ nextPid lastPid ∧ nextPid lastPid < 2 ^ 31 := by
      unfold nextPid
      split_ifs <;> omega
    rw [ih hnext.1 hnext.2]
    unfold nextPid
    split_ifs <;> omega

lemma findPid_none {fuel : ℕ} (h : s.findPid fuel lastPid = none) {n : ℕ} (hn : n < fuel) :
    s.pidUsed (candidate lastPid n) = true := by
  induction fuel generalizing lastPid n with
  | zero => exact absurd hn (Nat.not_lt_zero n)
  | succ fuel ih =>
    rw [findPid] at h
    split_ifs at h with hused
    cases n with
    | zero => exact hused
    | succ n =>
      rw [candidate_succ]
      exact ih h (Nat.lt_of_succ_lt_succ hn)

lemma pidUsed_true (h : s.pidUsed pid = true) : ∃ i p, s.task i = some p ∧ p.pid = pid := by
  simp only [pidUsed, List.any_eq_true, List.mem_finRange, true_and] at h
  obtain ⟨i, hi⟩ := h
  obtain ⟨p, hp, hpid⟩ := (Option.any_eq_true _ _).mp hi
  exact ⟨i, p, hp, of_decide_eq_true hpid⟩

/-- 65 candidates are too many for 64 tasks. -/
lemma findPid_some (h₀ : 0 ≤ lastPid) (h : lastPid < 2 ^ 31) : ∃ pid, s.findPid 65 lastPid = some pid := by
  cases hfind : s.findPid 65 lastPid with
  | some pid => exact ⟨pid, rfl⟩
  | none =>
    exfalso
    have hall : ∀ n : Fin 65, ∃ i p, s.task i = some p ∧ p.pid = candidate lastPid n :=
      fun n => pidUsed_true (findPid_none hfind n.isLt)
    choose slot task htask hpid using hall
    obtain ⟨n, m, hne, heq⟩ := Fintype.exists_ne_map_eq_of_card_lt slot (by simp)
    have hsame : task n = task m := by
      have hn := htask n
      rw [heq, htask m] at hn
      exact (Option.some.inj hn).symm
    have hcand : candidate lastPid n = candidate lastPid m := by
      rw [← hpid n, ← hpid m, hsame]
    rw [candidate_eq h₀ h, candidate_eq h₀ h] at hcand
    have hn := n.isLt
    have hm := m.isLt
    exact hne (Fin.ext (by omega))

lemma findPid_eq_iterate (s : ProcessTable) (fuel : ℕ) (lastPid : ℤ) :
    s.findPid fuel lastPid = iterate s.pidRound fuel lastPid := by
  induction fuel generalizing lastPid with
  | zero => rfl
  | succ fuel ih =>
    rw [findPid, iterate, pidRound]
    split_ifs with hused
    · exact ih _
    · rfl

lemma findPid_lt {fuel : ℕ} (h : s.findPid fuel lastPid = some pid) : pid < 2 ^ 31 := by
  induction fuel generalizing lastPid with
  | zero => cases h
  | succ fuel ih =>
    rw [findPid] at h
    split_ifs at h
    · exact ih h
    · obtain rfl := Option.some.inj h
      unfold nextPid
      split_ifs <;> omega

end Search

section Runs

variable {s s' : ProcessTable} {p : Process} {pid : ℤ} {nr : Fin 64}

/-- The global is what `copyProcess` has for an argument. -/
lemma copyCurrent_eq (s : ProcessTable) (p : Process) (pid : ℤ) (nr : Fin 64) :
    ({ s with lastPid := pid }).copyCurrent p nr = (s.copyProcess p pid nr, pid) := rfl

lemma findEmptyProcess_lt {o : Option (Fin 64)} (h : s.findEmptyProcess = some (pid, o)) : pid < 2 ^ 31 := by
  simp only [findEmptyProcess, Option.map_eq_some_iff, Prod.mk.injEq] at h
  obtain ⟨pid', hfind, rfl, _⟩ := h
  exact findPid_lt hfind

lemma lastPid_lt {ok : ProcessTable → ProcessCall → Prop} (h : processSystem.Reach ok s) : s.lastPid < 2 ^ 31 := by
  refine h.invariant (I := fun s => s.lastPid < 2 ^ 31) ?_ fun s e s' hs _ hstep => ?_
  · rintro s rfl
    decide
  · change ProcessStep s e s' at hstep
    cases hstep with
    | fork _ _ hfind => exact findEmptyProcess_lt hfind
    | noFork _ _ hfind => exact findEmptyProcess_lt hfind
    | beginExit => exact hs
    | @endExit i p _ _ =>
      unfold endExit
      split_ifs <;> exact hs
    | @waitpid i p pid _ _ _ =>
      unfold sysWaitpid
      split <;> exact hs

end Runs

/-- In every run `find_empty_process` finds a positive pid that is free, `copy_process` gives it to the child, and no
two tasks have the same pid. -/
theorem pids_unique {s : ProcessTable} (h : processSystem.Reach (fun _ _ => True) s) :
    (∃ pid, s.Chooses pid) ∧ s.Distinct := by
  have horder := orderly_of_reach h
  refine ⟨?_, horder.pid_inj⟩
  obtain ⟨pid, hfind⟩ := findPid_some (s := s) horder.lastPid (lastPid_lt h)
  have hfound : s.findEmptyProcess = some (pid, (List.finRange 64).find? fun i => i ≠ 0 ∧ s.task i = none) := by
    rw [findEmptyProcess, hfind]
    rfl
  obtain ⟨hpos, hfree, _⟩ := findEmptyProcess_spec horder hfound
  refine ⟨pid, ⟨65, ?_⟩, hpos, fun i p hi => pidUsed_false hfree hi, ⟨_, hfound⟩, fun p nr => ⟨rfl, ?_⟩⟩
  · rw [← findPid_eq_iterate, hfind]
  · rw [copyCurrent_eq]
    exact ⟨_, put_self .., rfl⟩

theorem pids_unique_family : (∃ pid, family.Chooses pid) ∧ family.Distinct := pids_unique (reach_family fun _ _ => trivial)

end Devos.Kernel.ProcessTable
