import Devos.Basic
import Devos.Library.Pointers
import Devos.Library.Runs

/-! One wait queue, and the tasks that sleep on it. The list of the sleepers is in the variables `tmp`
of their calls. -/

namespace Devos.Kernel

open Pointers Runs

inductive TaskState where
  | running
  | interruptible
  | uninterruptible
  | zombie
  | stopped
  deriving DecidableEq

/-- The call that a task is inside of, with its `tmp`. -/
inductive SleepCall (T : Type*) where
  | sleepOn (tmp : Option T)
  | interruptibleSleepOn (tmp : Option T)

def SleepCall.tmp {T : Type*} : SleepCall T → Option T
  | .sleepOn tmp => tmp
  | .interruptibleSleepOn tmp => tmp

/-- `head` is the `*p` of the calls. -/
structure WaitQueue (T : Type*) where
  initTask : T
  head : Option T
  state : T → TaskState
  signal : T → Bool
  call : T → Option (SleepCall T)

namespace WaitQueue

variable {T : Type*} [DecidableEq T]

def setState (s : WaitQueue T) (t : T) (st : TaskState) : WaitQueue T :=
  { s with state := Function.update s.state t st }

/-- `if (tmp) tmp->state=0;` -/
def wakeTmp (s : WaitQueue T) : Option T → WaitQueue T
  | none => s
  | some u => s.setState u .running

def leave (s : WaitQueue T) (t : T) : WaitQueue T := { s with call := Function.update s.call t none }

/-- `tmp=*p; *p=current; current->state=` up to `schedule()`, which comes back when the task runs again. -/
def enqueue (s : WaitQueue T) (t : T) (st : TaskState) (c : Option T → SleepCall T) : WaitQueue T :=
  { s with
    head := some t
    call := Function.update s.call t (some (c s.head)) }.setState t st

def sleepOn (s : WaitQueue T) (t : T) : Except Fault (WaitQueue T) :=
  if t = s.initTask then .error .panic else .ok (s.enqueue t .uninterruptible .sleepOn)

def interruptibleSleepOn (s : WaitQueue T) (t : T) : Except Fault (WaitQueue T) :=
  if t = s.initTask then .error .panic else .ok (s.enqueue t .interruptible .interruptibleSleepOn)

def wakeUp (s : WaitQueue T) : WaitQueue T :=
  match s.head with
  | none => s
  | some h => { s.setState h .running with head := none }

/-- `*p && *p != current` -/
def OtherAtHead (s : WaitQueue T) (t : T) : Prop := s.head ≠ none ∧ s.head ≠ some t

instance (s : WaitQueue T) (t : T) : Decidable (s.OtherAtHead t) := inferInstanceAs (Decidable (_ ∧ _))

/-- A call from where `schedule()` comes back: to its end, or to the next `schedule()`. -/
def resume (s : WaitQueue T) (t : T) : Option (WaitQueue T) :=
  match s.call t with
  | none => none
  | some (.sleepOn tmp) => some ((s.leave t).wakeTmp tmp)
  | some (.interruptibleSleepOn tmp) =>
    -- `goto repeat`
    if s.OtherAtHead t then some ((s.wakeTmp s.head).setState t .interruptible)
    else some (({ s with head := none }.leave t).wakeTmp tmp)

def tmp (s : WaitQueue T) (t : T) : Option T := (s.call t).bind SleepCall.tmp

def Asleep (s : WaitQueue T) (t : T) : Prop := (s.call t).isSome ∧ s.state t ≠ .running

/-- Where the search for a sleeper starts: the head of the queue, and the runnable tasks. -/
def Root (s : WaitQueue T) (t : T) : Prop := s.head = some t ∨ s.state t = .running

def NoLostSleeper (s : WaitQueue T) : Prop := ∀ t, s.Asleep t → Reached s.tmp s.Root t

end WaitQueue

inductive QueueEvent (T : Type*) where
  | sleepOn (t : T)
  | interruptibleSleepOn (t : T)
  | wakeUp
  | setSignal (t : T) (pending : Bool)
  | checkSignal (t : T)
  | resume (t : T)
  | elsewhere (t : T) (st : TaskState)

open WaitQueue in
/-- `checkSignal` is what `schedule` does for a task that has a signal. A task outside of the calls may
do anything with its state. -/
inductive QueueStep {T : Type*} [DecidableEq T] (s : WaitQueue T) : QueueEvent T → WaitQueue T → Prop
  | sleepOn {t s'} : s.call t = none → s.state t = .running → s.sleepOn t = .ok s' → QueueStep s (.sleepOn t) s'
  | interruptibleSleepOn {t s'} : s.call t = none → s.state t = .running → s.interruptibleSleepOn t = .ok s' →
      QueueStep s (.interruptibleSleepOn t) s'
  | wakeUp : QueueStep s .wakeUp s.wakeUp
  | setSignal {t pending} : QueueStep s (.setSignal t pending) { s with signal := Function.update s.signal t pending }
  | checkSignal {t} : s.signal t = true → s.state t = .interruptible →
      QueueStep s (.checkSignal t) (s.setState t .running)
  | resume {t s'} : s.state t = .running → s.resume t = some s' → QueueStep s (.resume t) s'
  | elsewhere {t st} : s.call t = none → QueueStep s (.elsewhere t st) (s.setState t st)

/-- Only a task that is still linked goes to sleep again: the head of the queue or another runnable
task leads to it. -/
def StillLinked {T : Type*} [DecidableEq T] (s : WaitQueue T) : QueueEvent T → Prop
  | .resume t => ∀ tmp, s.call t = some (.interruptibleSleepOn tmp) → s.OtherAtHead t →
      Reached s.tmp (fun a => s.Root a ∧ a ≠ t) t
  | _ => True

namespace WaitQueue

section Steps

variable {T : Type*} [DecidableEq T] {s s' : WaitQueue T} {t u : T}

lemma wakeTmp_call (s : WaitQueue T) (o : Option T) : (s.wakeTmp o).call = s.call := by cases o <;> rfl

lemma wakeTmp_head (s : WaitQueue T) (o : Option T) : (s.wakeTmp o).head = s.head := by cases o <;> rfl

lemma setState_running : (s.setState u .running).state t = .running ↔ s.state t = .running ∨ t = u := by
  by_cases ht : t = u <;> simp [setState, ht]

lemma wakeTmp_running {o : Option T} :
    (s.wakeTmp o).state t = .running ↔ s.state t = .running ∨ o = some t := by
  cases o with
  | none => simp [wakeTmp]
  | some u => exact setState_running.trans (or_congr_right (by rw [Option.some_inj, eq_comm]))

omit [DecidableEq T] in
lemma tmp_of_none (h : s.call t = none) : s.tmp t = none := by simp [tmp, h]

omit [DecidableEq T] in
lemma tmp_of_some {c : SleepCall T} (h : s.call t = some c) : s.tmp t = c.tmp := by simp [tmp, h]

omit [DecidableEq T] in
lemma tmp_congr (h : s'.call = s.call) : s'.tmp = s.tmp := by
  funext a
  simp [tmp, h]

omit [DecidableEq T] in
/-- More tasks run, and the head is taken off only if it is one of them. -/
lemma NoLostSleeper.wake (h : NoLostSleeper s) (hcall : s'.call = s.call)
    (hrun : ∀ a, s.state a = .running → s'.state a = .running)
    (hhead : ∀ a, s.head = some a → s'.head = some a ∨ s'.state a = .running) : NoLostSleeper s' := by
  intro x hx
  have hasleep : s.Asleep x := by
    refine ⟨hcall ▸ hx.1, ?_⟩
    intro hr
    exact hx.2 (hrun x hr)
  apply (h x hasleep).mono
  · simp [tmp_congr hcall]
  · intro a ha
    apply Reached.root
    rcases ha with ha | hr
    · exact hhead a ha
    · exact Or.inr (hrun a hr)

lemma NoLostSleeper.enqueue (h : NoLostSleeper s) (hout : s.call t = none) {c : Option T → SleepCall T}
    (hc : ∀ o, (c o).tmp = o) (st : TaskState) : NoLostSleeper (s.enqueue t st c) := by
  intro x hx
  have hroot : Reached (s.enqueue t st c).tmp (s.enqueue t st c).Root t := .root (Or.inl rfl)
  have hself : (s.enqueue t st c).tmp t = s.head := by
    rw [← hc s.head]
    apply tmp_of_some
    exact Function.update_self ..
  by_cases hxt : x = t
  · rw [hxt]
    exact hroot
  · have hasleep : s.Asleep x := by simpa [Asleep, WaitQueue.enqueue, setState, hxt] using hx
    apply (h x hasleep).mono
    · intro a b hab
      have ha : a ≠ t := by
        rintro rfl
        rw [tmp_of_none hout] at hab
        cases hab
      simpa [tmp, WaitQueue.enqueue, setState, ha] using hab
    · intro a ha
      by_cases hat : a = t
      · rw [hat]
        exact hroot
      rcases ha with ha | hr
      · exact hroot.follow (hself.trans ha)
      · apply Reached.root
        right
        simpa [WaitQueue.enqueue, setState, hat] using hr

/-- A task leaves its call and wakes the one before it. -/
lemma NoLostSleeper.leave (h : NoLostSleeper s) {c : SleepCall T} (hcall : s.call t = some c)
    {head : Option T} (hhead : ∀ a, s.head = some a → a ≠ t → head = some a) :
    NoLostSleeper (({ s with head := head }.leave t).wakeTmp c.tmp) := by
  intro x hx
  have hstate : ∀ a, (({ s with head := head }.leave t).wakeTmp c.tmp).state a = .running ↔
      s.state a = .running ∨ c.tmp = some a := fun a => wakeTmp_running
  have hxt : x ≠ t := by
    rintro rfl
    simp [Asleep, wakeTmp_call, WaitQueue.leave] at hx
  have hasleep : s.Asleep x := by
    obtain ⟨hin, hstop⟩ := hx
    rw [ne_eq, hstate, not_or] at hstop
    refine ⟨?_, hstop.1⟩
    simpa [wakeTmp_call, WaitQueue.leave, hxt] using hin
  apply (h x hasleep).bypass _ _ _ hxt
  · intro a ha
    simp [tmp, wakeTmp_call, WaitQueue.leave, ha]
  · intro a ha hat
    rcases ha with ha | hr
    · left
      rw [wakeTmp_head]
      exact hhead a ha hat
    · exact Or.inr ((hstate a).mpr (Or.inl hr))
  · intro d hd
    rw [tmp_of_some hcall] at hd
    exact Or.inr ((hstate d).mpr (Or.inr hd))

/-- The state of a task outside of the calls does not matter. -/
lemma NoLostSleeper.elsewhere (h : NoLostSleeper s) (hout : s.call t = none) (st : TaskState) :
    NoLostSleeper (s.setState t st) := by
  intro x hx
  have hxt : x ≠ t := by
    rintro rfl
    simp [Asleep, setState, hout] at hx
  have hasleep : s.Asleep x := by simpa [Asleep, setState, hxt] using hx
  obtain ⟨a, ha, hlead⟩ := h x hasleep
  have hat : a ≠ t := by
    rintro rfl
    exact hxt (hlead.eq_of_none (tmp_of_none hout)).symm
  refine ⟨a, ?_, hlead⟩
  simpa [Root, setState, hat] using ha

/-- `goto repeat` with another task at the head. -/
lemma NoLostSleeper.again (h : NoLostSleeper s) (hcall : (s.call t).isSome) (hother : s.OtherAtHead t) :
    NoLostSleeper ((s.wakeTmp s.head).setState t .interruptible) ↔
      Reached s.tmp (fun a => s.Root a ∧ a ≠ t) t := by
  let s' := (s.wakeTmp s.head).setState t .interruptible
  have htmp : s'.tmp = s.tmp := tmp_congr (wakeTmp_call s s.head)
  have hself : s'.state t = .interruptible := Function.update_self ..
  have hstate : ∀ a, a ≠ t → (s'.state a = .running ↔ s.state a = .running ∨ s.head = some a) := by
    intro a ha
    have hsame : s'.state a = (s.wakeTmp s.head).state a := Function.update_of_ne ha ..
    rw [hsame]
    exact wakeTmp_running
  have hhead : s'.head = s.head := wakeTmp_head s s.head
  have hroot : s'.Root = fun a => s.Root a ∧ a ≠ t := by
    funext a
    apply propext
    change s'.head = some a ∨ s'.state a = .running ↔ (s.head = some a ∨ s.state a = .running) ∧ a ≠ t
    rw [hhead]
    by_cases ha : a = t
    · subst ha
      simp [hself, hother.2]
    · rw [hstate a ha]
      tauto
  have hin : s'.call = s.call := wakeTmp_call s s.head
  rw [← hroot, ← htmp]
  constructor
  · intro hno
    apply hno t
    rw [Asleep, hin, hself]
    exact ⟨hcall, by simp⟩
  · intro hreach x hx
    by_cases hxt : x = t
    · rw [hxt]
      exact hreach
    have hasleep : s.Asleep x := by
      refine ⟨hin ▸ hx.1, ?_⟩
      intro hr
      exact hx.2 ((hstate x hxt).mpr (Or.inl hr))
    apply (h x hasleep).mono
    · intro a b hab
      exact (congrFun htmp a).trans hab
    · intro a ha
      by_cases hat : a = t
      · rw [hat]
        exact hreach
      · rw [hroot]
        exact .root ⟨ha, hat⟩

lemma resume_sleepOn {tmp : Option T} (h : s.call t = some (.sleepOn tmp)) :
    s.resume t = some ((s.leave t).wakeTmp tmp) := by simp [resume, h]

lemma resume_again {tmp : Option T} (h : s.call t = some (.interruptibleSleepOn tmp)) (hother : s.OtherAtHead t) :
    s.resume t = some ((s.wakeTmp s.head).setState t .interruptible) := by simp [resume, h, hother]

lemma resume_last {tmp : Option T} (h : s.call t = some (.interruptibleSleepOn tmp)) (hother : ¬ s.OtherAtHead t) :
    s.resume t = some (({ s with head := none }.leave t).wakeTmp tmp) := by simp [resume, h, hother]

omit [DecidableEq T] in
lemma stillLinked_of_not {s : WaitQueue T} [DecidableEq T]
    (h : ∀ tmp, s.call t = some (.interruptibleSleepOn tmp) → ¬ s.OtherAtHead t) : StillLinked s (.resume t) :=
  fun tmp htmp hother => (h tmp htmp hother).elim

/-- What a call does from where it comes back. -/
lemma NoLostSleeper.resume (h : NoLostSleeper s) (hs : s.resume t = some s') :
    NoLostSleeper s' ↔ StillLinked s (.resume t) := by
  cases hcall : s.call t with
  | none => simp [WaitQueue.resume, hcall] at hs
  | some c =>
    cases c with
    | sleepOn tmp =>
      rw [resume_sleepOn hcall] at hs
      cases hs
      apply iff_of_true (h.leave hcall fun a ha _ => ha)
      apply stillLinked_of_not
      simp [hcall]
    | interruptibleSleepOn tmp =>
      by_cases hother : s.OtherAtHead t
      · rw [resume_again hcall hother] at hs
        cases hs
        refine (h.again (by simp [hcall]) hother).trans ?_
        exact ⟨fun hreach _ _ _ => hreach, fun hlinked => hlinked tmp hcall hother⟩
      · rw [resume_last hcall hother] at hs
        cases hs
        apply iff_of_true
        · apply h.leave hcall
          intro a ha hat
          apply (hother ⟨by simp [ha], _⟩).elim
          simp [ha, hat]
        · exact stillLinked_of_not fun _ _ => hother

theorem NoLostSleeper.step (h : NoLostSleeper s) {e : QueueEvent T} (hs : QueueStep s e s') :
    NoLostSleeper s' ↔ StillLinked s e := by
  cases hs with
  | resume _ hs => exact h.resume hs
  | sleepOn hout _ hs =>
    unfold WaitQueue.sleepOn at hs
    split_ifs at hs
    cases hs
    exact iff_of_true (h.enqueue hout (fun _ => rfl) _) trivial
  | interruptibleSleepOn hout _ hs =>
    unfold WaitQueue.interruptibleSleepOn at hs
    split_ifs at hs
    cases hs
    exact iff_of_true (h.enqueue hout (fun _ => rfl) _) trivial
  | wakeUp =>
    apply iff_of_true _ trivial
    unfold WaitQueue.wakeUp
    cases hhead : s.head with
    | none => exact h
    | some u =>
      refine h.wake (rfl : ({ s.setState u .running with head := none } : WaitQueue T).call = s.call) ?_ ?_
      · intro a ha
        exact setState_running.mpr (Or.inl ha)
      · intro a ha
        rw [hhead] at ha
        cases ha
        exact Or.inr (setState_running.mpr (Or.inr rfl))
  | setSignal => exact iff_of_true (h.wake rfl (fun _ ha => ha) fun _ ha => Or.inl ha) trivial
  | @checkSignal u _ _ =>
    apply iff_of_true _ trivial
    exact h.wake (rfl : (s.setState u .running).call = s.call) (fun _ ha => setState_running.mpr (Or.inl ha)) fun _ ha => Or.inl ha
  | elsewhere hout => exact iff_of_true (h.elsewhere hout _) trivial

end Steps

/-- Task 0 and two others, nobody asleep. -/
def quiet : WaitQueue (Fin 3) where
  initTask := 0
  head := none
  state _ := .running
  signal _ := false
  call _ := none

end WaitQueue

end Devos.Kernel
