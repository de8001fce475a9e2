import Devos.Kernel.Scheduler
import Devos.Library.FlatMemory
import Devos.Library.Loops
import Mathlib.Data.Fintype.Card
import Mathlib.Data.List.Sort

/-! Signals: what `ret_from_sys_call` does with those that are pending before a task goes on in user mode. -/

namespace Devos.Kernel

open Loops FlatMemory

/-- What `system_call` and the timer interrupt leave on the kernel stack. -/
structure TrapFrame where
  eax : Long
  ebx : Long
  ecx : Long
  edx : Long
  fs : Long
  es : Long
  ds : Long
  eip : Long
  cs : Long
  eflags : Long
  oldesp : Long
  oldss : Long

/-- The fields of a task that signals use; a handler is 0 for the default and 1 for a signal that is ignored. -/
structure SignalTask where
  signal : Long
  sigRestorer : Long
  sigFn : Fin 32 → Long

abbrev sigchld : ℕ := 17

/-- `bsfl` -/
@[irreducible] def bsf (x : Long) : Option (Fin 32) := Fin.find? fun i => x.getLsbD i

def SignalTask.clear (t : SignalTask) (i : Fin 32) : SignalTask := { t with signal := t.signal &&& ~~~(1#32 <<< i.val) }

inductive Verdict where
  | goOn (t : SignalTask)
  | exit (code : ℕ) (t : SignalTask)
  -- with the number of the signal and the handler
  | handle (signr : ℕ) (handler : Long) (t : SignalTask)

/-- The signal `i` has been found, and its bit cleared; with `default_signal`. -/
def takeSignal (t : SignalTask) (i : Fin 32) : Pass SignalTask Verdict :=
  if t.sigFn i = 0 then if i + 1 = sigchld then .again t else .leave (.exit (i + 1) t)
  else if t.sigFn i = 1 then .again t
  else .leave (.handle (i + 1) (t.sigFn i) { t with sigFn := Function.update t.sigFn i 0 })

/-- From the label `2:` on. -/
def signalBody (t : SignalTask) : Pass SignalTask Verdict :=
  match bsf t.signal with
  | none => .leave (.goOn t)
  | some i => takeSignal (t.clear i) i

/-- What is written through `%fs` for the handler below the old stack pointer. -/
def TrapFrame.words (f : TrapFrame) (restorer : Long) (signr : ℕ) : List Long :=
  [restorer, BitVec.ofNat 32 signr, f.eax, f.ecx, f.edx, f.eflags, f.eip]

/-- What goes on after `ret_from_sys_call`, or the argument of `do_exit`. -/
inductive SignalOutcome where
  | resume (t : SignalTask) (f : TrapFrame) (m : Memory)
  | exit (code : ℕ) (t : SignalTask)

def Verdict.outcome (f : TrapFrame) (m : Memory) : Verdict → SignalOutcome
  | .goOn t => .resume t f m
  | .exit code t => .exit code t
  | .handle signr handler t =>
    .resume t { f with eip := handler, oldesp := f.oldesp - 28 }
      (storeWords m (f.oldesp - 28) (f.words t.sigRestorer signr))

/-- `none` if the loop would not end. -/
def retFromSysCall (first : Bool) (t : SignalTask) (f : TrapFrame) (m : Memory) : Option SignalOutcome :=
  if first ∨ f.cs &&& 3 = 0 ∨ f.oldss.setWidth 16 ≠ 0x17#16 then some (.resume t f m)
  else (iterate signalBody 33 t).map (Verdict.outcome f m)

namespace SignalTask

variable (t : SignalTask)

def Pending (i : Fin 32) : Prop := t.signal.getLsbD i = true

/-- Not ignored; the default for `SIGCHLD` is to ignore it as well. -/
def Due (i : Fin 32) : Prop := t.sigFn i ≠ 1 ∧ ¬ (t.sigFn i = 0 ∧ i + 1 = sigchld)

instance (i : Fin 32) : Decidable (t.Pending i) := inferInstanceAs (Decidable (_ = _))

instance (i : Fin 32) : Decidable (t.Due i) := inferInstanceAs (Decidable (_ ∧ _))

/-- The signal that is acted on. -/
structure First (i : Fin 32) : Prop where
  pending : t.Pending i
  due : t.Due i
  lowest : ∀ j, j < i → t.Pending j → ¬ t.Due j

/-- Only the signals above `i` are left. -/
def above (i : Fin 32) : SignalTask := { t with signal := t.signal >>> (i.val + 1) <<< (i.val + 1) }

variable {t} {t' : SignalTask} {i j : Fin 32}

lemma pending_clear : (t.clear i).Pending j ↔ t.Pending j ∧ j ≠ i := by
  unfold Pending clear
  have hbit : (1#32 <<< i.val).getLsbD j = decide (j = i) := by
    rw [BitVec.getLsbD_shiftLeft, BitVec.getLsbD_one]
    by_cases hj : j = i
    · subst hj
      simp
    · have hne : (j : ℕ) ≠ i := fun h => hj (Fin.ext h)
      simp [hj]
      omega
  rw [BitVec.getLsbD_and, BitVec.getLsbD_not, hbit]
  simp

lemma pending_above : (t.above i).Pending j ↔ t.Pending j ∧ i < j := by
  unfold Pending above
  rw [BitVec.getLsbD_shiftLeft, BitVec.getLsbD_ushiftRight, Fin.lt_def]
  by_cases hj : (j : ℕ) < i + 1
  · simp [hj]
    omega
  · have hsub : (i : ℕ) + 1 + (j - (i + 1)) = j := by omega
    simp [hj, hsub]
    omega

lemma eq_of_pending (hfn : t.sigFn = t'.sigFn) (hrestorer : t.sigRestorer = t'.sigRestorer)
    (h : ∀ i, t.Pending i ↔ t'.Pending i) : t = t' := by
  have hsignal : t.signal = t'.signal := by
    apply BitVec.eq_of_getLsbD_eq
    intro k hk
    exact Bool.eq_iff_iff.mpr (h ⟨k, hk⟩)
  cases t
  cases t'
  cases hfn
  cases hrestorer
  cases hsignal
  rfl

lemma bsf_none (h : bsf t.signal = none) (i : Fin 32) : ¬ t.Pending i := by
  unfold bsf at h
  have hi := Fin.find?_eq_none_iff.mp h i
  unfold Pending
  rw [hi]
  exact Bool.false_ne_true

lemma bsf_some (h : bsf t.signal = some i) : t.Pending i ∧ ∀ j, t.Pending j → i ≤ j := by
  unfold bsf at h
  obtain ⟨hi, hlow⟩ := Fin.find?_eq_some_iff.mp h
  refine ⟨hi, fun j hj => ?_⟩
  by_contra hlt
  have hclear := hlow j (not_le.mp hlt)
  unfold Pending at hj
  rw [hj] at hclear
  cases hclear

/-- What the loop has dropped so far were signals to ignore, all below those that are left. -/
structure Dropped (t t' : SignalTask) : Prop where
  sigFn : t'.sigFn = t.sigFn
  sigRestorer : t'.sigRestorer = t.sigRestorer
  kept : ∀ j, t'.Pending j → t.Pending j
  gone : ∀ j, t.Pending j → ¬ t'.Pending j → ¬ t.Due j ∧ ∀ k, t'.Pending k → j < k

lemma Dropped.lowest (h : Dropped t t') (hb : bsf t'.signal = some i) (hj : t.Pending j) (hlt : j < i) : ¬ t.Due j := by
  refine (h.gone j hj fun hj' => ?_).1
  exact absurd ((bsf_some hb).2 j hj') (not_le.mpr hlt)

lemma Dropped.clear (h : Dropped t t') (hb : bsf t'.signal = some i) (hdue : ¬ t.Due i) : Dropped t (t'.clear i) := by
  obtain ⟨hi, hlow⟩ := bsf_some hb
  refine ⟨h.sigFn, h.sigRestorer, fun j hj => h.kept j (pending_clear.mp hj).1, ?_⟩
  intro j hj hgone
  by_cases he : j = i
  · subst he
    refine ⟨hdue, fun k hk => ?_⟩
    obtain ⟨hk, hne⟩ := pending_clear.mp hk
    exact lt_of_le_of_ne (hlow k hk) (Ne.symm hne)
  · obtain ⟨hno, hbelow⟩ := h.gone j hj fun hj' => hgone (pending_clear.mpr ⟨hj', he⟩)
    exact ⟨hno, fun k hk => hbelow k (pending_clear.mp hk).1⟩

/-- Once one is found, what stays pending are the signals above it. -/
lemma Dropped.above (h : Dropped t t') (hb : bsf t'.signal = some i) : t'.clear i = t.above i := by
  obtain ⟨hi, hlow⟩ := bsf_some hb
  have hfn : (t'.clear i).sigFn = (t.above i).sigFn := h.sigFn
  have hrestorer : (t'.clear i).sigRestorer = (t.above i).sigRestorer := h.sigRestorer
  refine eq_of_pending hfn hrestorer fun j => ?_
  rw [pending_clear, pending_above]
  constructor
  · rintro ⟨hj, hne⟩
    exact ⟨h.kept j hj, lt_of_le_of_ne (hlow j hj) (Ne.symm hne)⟩
  · rintro ⟨hj, hlt⟩
    refine ⟨?_, Ne.symm (ne_of_lt hlt)⟩
    by_contra hgone
    exact absurd ((h.gone j hj hgone).2 i hi) (not_lt.mpr hlt.le)

/-- The state in which a signal is found to act on. -/
lemma Dropped.first (h : Dropped t t') (hb : bsf t'.signal = some i) (hdue : t.Due i) : t.First i :=
  ⟨h.kept i (bsf_some hb).1, hdue, fun _ hlt hj => h.lowest hb hj hlt⟩

end SignalTask

section Loop

open SignalTask

variable {t : SignalTask}

/-- What the loop comes to. -/
def Verdict.Correct (t : SignalTask) : Verdict → Prop
  | .goOn t' => (∀ j, t.Pending j → ¬ t.Due j) ∧ t' = { t with signal := 0 }
  | .exit code t' => ∃ i, t.First i ∧ t.sigFn i = 0 ∧ code = i + 1 ∧ t' = t.above i
  | .handle signr handler t' => ∃ i, t.First i ∧ t.sigFn i ≠ 0 ∧ signr = i + 1 ∧ handler = t.sigFn i ∧
      t' = { t.above i with sigFn := Function.update t.sigFn i 0 }

lemma signalBody_none (h : bsf t.signal = none) : signalBody t = .leave (.goOn t) := by
  simp only [signalBody, h]

lemma signalBody_some {i : Fin 32} (h : bsf t.signal = some i) : signalBody t = takeSignal (t.clear i) i := by
  simp only [signalBody, h]

lemma signalBody_again {t' t'' : SignalTask} (h : Dropped t t') (hb : signalBody t' = .again t'') :
    Dropped t t'' ∧ ∃ i, bsf t'.signal = some i ∧ t'' = t'.clear i := by
  cases hbsf : bsf t'.signal with
  | none =>
    rw [signalBody_none hbsf] at hb
    cases hb
  | some i =>
    have hfn : (t'.clear i).sigFn i = t.sigFn i := congrFun h.sigFn i
    rw [signalBody_some hbsf, takeSignal, hfn] at hb
    split_ifs at hb with hzero hchld hone
    · cases hb
      exact ⟨h.clear hbsf fun hdue => hdue.2 ⟨hzero, hchld⟩, i, rfl, rfl⟩
    · cases hb
      exact ⟨h.clear hbsf fun hdue => hdue.1 hone, i, rfl, rfl⟩

lemma signalBody_leave {t' : SignalTask} {v : Verdict} (h : Dropped t t') (hb : signalBody t' = .leave v) :
    v.Correct t := by
  cases hbsf : bsf t'.signal with
  | none =>
    rw [signalBody_none hbsf] at hb
    cases hb
    have hnone := bsf_none hbsf
    refine ⟨fun j hj => (h.gone j hj (hnone j)).1, eq_of_pending h.sigFn h.sigRestorer fun j => ?_⟩
    exact iff_of_false (hnone j) (by simp [Pending])
  | some i =>
    have hfn : (t'.clear i).sigFn i = t.sigFn i := congrFun h.sigFn i
    rw [signalBody_some hbsf, takeSignal, hfn] at hb
    split_ifs at hb with hzero hchld hone
    · cases hb
      have hdue : t.Due i := by
        refine ⟨?_, fun hc => hchld hc.2⟩
        rw [hzero]
        decide
      exact ⟨i, h.first hbsf hdue, hzero, rfl, h.above hbsf⟩
    · cases hb
      refine ⟨i, h.first hbsf ⟨hone, fun hc => hzero hc.1⟩, hzero, rfl, rfl, ?_⟩
      rw [h.above hbsf]
      rfl

def pendingCount (t : SignalTask) : ℕ := (Finset.univ.filter fun i => t.Pending i).card

lemma pendingCount_clear {i : Fin 32} (hi : t.Pending i) : pendingCount (t.clear i) < pendingCount t := by
  apply Finset.card_lt_card
  refine ⟨?_, ?_⟩
  · intro j hj
    simp only [Finset.mem_filter, Finset.mem_univ, true_and, pending_clear] at hj ⊢
    exact hj.1
  · intro hsub
    have hmem := hsub (Finset.mem_filter.mpr ⟨Finset.mem_univ i, hi⟩)
    simp [pending_clear] at hmem

/-- The loop ends, and what it comes to is fixed by the lowest signal that is neither ignored nor `SIGCHLD` by default. -/
theorem signalBody_returns (t : SignalTask) : ∃ v, iterate signalBody 33 t = some v ∧ v.Correct t := by
  have hstart : Dropped t t := ⟨rfl, rfl, fun _ hj => hj, fun _ hj hno => absurd hj hno⟩
  have hcount : pendingCount t < 33 := by
    have hle := Finset.card_filter_le (Finset.univ : Finset (Fin 32)) fun i => t.Pending i
    rw [Finset.card_fin] at hle
    unfold pendingCount
    omega
  have hstep : ∀ t₁ t₂, Dropped t t₁ → signalBody t₁ = .again t₂ →
      Dropped t t₂ ∧ pendingCount t₂ < pendingCount t₁ := by
    intro t₁ t₂ h hb
    obtain ⟨hnext, i, hi, rfl⟩ := signalBody_again h hb
    exact ⟨hnext, pendingCount_clear (bsf_some hi).1⟩
  obtain ⟨v, hv⟩ := iterate_of_variant (Dropped t) pendingCount hstep hstart hcount
  refine ⟨v, hv, ?_⟩
  exact iterate_invariant (Dropped t) (fun _ _ h hb => (signalBody_again h hb).1) (fun _ _ => signalBody_leave) hstart hv

variable {f : TrapFrame} {m : Memory} {i : Fin 32}

lemma SignalTask.First.unique {j : Fin 32} (hi : t.First i) (hj : t.First j) : i = j := by
  by_contra hne
  rcases lt_or_gt_of_ne hne with hlt | hlt
  · exact hj.lowest i hlt hi.pending hi.due
  · exact hi.lowest j hlt hj.pending hj.due

lemma iterate_signalBody (hi : t.First i) : iterate signalBody 33 t =
    some (if t.sigFn i = 0 then .exit (i + 1) (t.above i)
      else .handle (i + 1) (t.sigFn i) { t.above i with sigFn := Function.update t.sigFn i 0 }) := by
  obtain ⟨v, hv, hcorrect⟩ := signalBody_returns t
  rw [hv]
  cases v with
  | goOn t' => exact absurd hi.due (hcorrect.1 i hi.pending)
  | exit code t' =>
    obtain ⟨j, hj, hzero, rfl, rfl⟩ := hcorrect
    rw [hi.unique hj, if_pos hzero]
  | handle signr handler t' =>
    obtain ⟨j, hj, hzero, rfl, rfl, rfl⟩ := hcorrect
    rw [hi.unique hj, if_neg hzero]

/-- Before a task goes on in user mode: signals to ignore are dropped, and the lowest of the others either ends the task
or has its handler called, with all that the handler needs to go back below the old stack pointer. -/
theorem ret_from_sys_call (t : SignalTask) (m : Memory) (hcs : f.cs &&& 3 ≠ 0) (hss : f.oldss.setWidth 16 = 0x17#16) :
    ((∀ j, t.Pending j → ¬ t.Due j) → retFromSysCall false t f m = some (.resume { t with signal := 0 } f m)) ∧
      ∀ i, t.First i →
        (t.sigFn i = 0 → retFromSysCall false t f m = some (.exit (i + 1) (t.above i))) ∧
          (t.sigFn i ≠ 0 → ∃ m', retFromSysCall false t f m = some (.resume
              { t.above i with sigFn := Function.update t.sigFn i 0 }
              { f with eip := t.sigFn i, oldesp := f.oldesp - 28 } m') ∧
            (∀ k (hk : k < 7), load m' (f.oldesp - 28 + BitVec.ofNat 32 (4 * k)) =
              [t.sigRestorer, BitVec.ofNat 32 (i + 1), f.eax, f.ecx, f.edx, f.eflags, f.eip][k]) ∧
            ∀ x, 28 ≤ (x - (f.oldesp - 28)).toNat → m' x = m x) := by
  have hrun : retFromSysCall false t f m = (iterate signalBody 33 t).map (Verdict.outcome f m) := by
    rw [retFromSysCall, if_neg]
    rintro (h | h | h)
    · cases h
    · exact hcs h
    · exact h hss
  refine ⟨?_, fun i hi => ⟨?_, ?_⟩⟩
  · intro hnone
    obtain ⟨v, hv, hcorrect⟩ := signalBody_returns t
    rw [hrun, hv]
    cases v with
    | goOn t' =>
      obtain ⟨_, rfl⟩ := hcorrect
      rfl
    | exit code t' =>
      obtain ⟨j, hj, _⟩ := hcorrect
      exact absurd hj.due (hnone j hj.pending)
    | handle signr handler t' =>
      obtain ⟨j, hj, _⟩ := hcorrect
      exact absurd hj.due (hnone j hj.pending)
  · intro hzero
    rw [hrun, iterate_signalBody hi, if_pos hzero]
    rfl
  · intro hzero
    refine ⟨storeWords m (f.oldesp - 28) (f.words t.sigRestorer (i + 1)), ?_, ?_, ?_⟩
    · rw [hrun, iterate_signalBody hi, if_neg hzero]
      rfl
    · intro k hk
      exact load_storeWords (by simp [TrapFrame.words]) hk
    · exact fun x hx => storeWords_outside hx

/-- `SIGINT` with a handler and `SIGUSR1` ignored. -/
def interrupted : SignalTask where
  signal := 0x202
  sigRestorer := 0x1234
  sigFn i := if i = 1 then 0x4000 else 1

lemma interrupted_first : interrupted.First 1 := ⟨by decide, by decide, by decide⟩

theorem ret_from_sys_call_interrupted :
    ∃ m', retFromSysCall false interrupted ⟨5, 0, 0, 0, 0x17, 0x17, 0x17, 0x100, 0xf, 0, 0x9000, 0x17⟩ (fun _ => 0) =
        some (.resume { interrupted.above 1 with sigFn := Function.update interrupted.sigFn 1 0 }
          ⟨5, 0, 0, 0, 0x17, 0x17, 0x17, 0x4000, 0xf, 0, 0x9000 - 28, 0x17⟩ m') ∧
      load m' (0x9000 - 28 + BitVec.ofNat 32 (4 * 6)) = 0x100 := by
  obtain ⟨_, hfirst⟩ := ret_from_sys_call (f := ⟨5, 0, 0, 0, 0x17, 0x17, 0x17, 0x100, 0xf, 0, 0x9000, 0x17⟩)
    interrupted (fun _ => 0) (by decide) (by decide)
  obtain ⟨m', hrun, hwords, _⟩ := (hfirst 1 interrupted_first).2 (by decide)
  exact ⟨m', hrun, hwords 6 (by omega)⟩

end Loop

end Devos.Kernel
