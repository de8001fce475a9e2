import Devos.Basic
import Devos.Library.Runs

/-! The registers of the coprocessor, which a task switch leaves where they are: `math_state_restore` exchanges them
when the next task uses them. -/

namespace Devos.Kernel

open Runs

/-- What a `task_struct` holds for the coprocessor. `resumes` stands for a saved `eip` behind the `ljmp` of
`switch_to`, which a task has from its first switch on. -/
structure MathTask (F : Type*) where
  usedMath : Bool
  i387 : F
  resumes : Bool

/-- A page is free, or the `task_struct` of a task that can be chosen, or that of a zombie. -/
inductive TaskPage where
  | free
  | running
  | zombie
  deriving DecidableEq

structure MathState (P F : Type*) where
  st : F
  ts : Bool
  task : P → MathTask F
  page : P → TaskPage
  current : P
  lastTaskUsedMath : Option P

namespace MathState

variable {P F : Type*} [DecidableEq P] (init : F) (s : MathState P F)

def setTask (p : P) (t : MathTask F) : MathState P F := { s with task := Function.update s.task p t }

def setPage (p : P) (c : TaskPage) : MathState P F := { s with page := Function.update s.page p c }

/-- `fnsave` leaves the registers as `fninit` does. -/
def fnsave (p : P) : MathState P F :=
  { s.setTask p { s.task p with i387 := s.st } with st := init }

def frstor (p : P) : MathState P F := { s with st := (s.task p).i387 }

def fninit : MathState P F := { s with st := init }

def mathStateRestore : MathState P F :=
  let s := match s.lastTaskUsedMath with
    | some p => s.fnsave init p
    | none => s
  let s := if (s.task s.current).usedMath then s.frstor s.current
    else (s.fninit init).setTask s.current { s.task s.current with usedMath := true }
  { s with lastTaskUsedMath := some s.current }

def deviceNotAvailable : MathState P F :=
  let s := { s with ts := false }
  if s.lastTaskUsedMath = some s.current then s else s.mathStateRestore init

/-- The state in which an instruction for the coprocessor is carried out: with `TS` set it traps first. -/
def available : MathState P F := if s.ts then s.deviceNotAvailable init else s

/-- The hardware sets `TS` at every switch; what follows the `ljmp` is run by the task that goes on there. -/
def switchTo (p : P) : MathState P F :=
  if p = s.current then s
  else
    let s := { s.setTask s.current { s.task s.current with resumes := true } with current := p, ts := true }
    if (s.task p).resumes ∧ s.lastTaskUsedMath = some p then { s with ts := false } else s

/-- `copy_process` with the page `q` for the child; `copied` tells whether `copy_mem` succeeds. -/
def copyProcess (q : P) (copied : Bool) : MathState P F :=
  let s := s.setTask q { s.task s.current with resumes := false }
  let s := if s.lastTaskUsedMath = some s.current then (s.available init).fnsave init q else s
  s.setPage q (if copied then .running else .free)

def forgetMath : MathState P F :=
  if s.lastTaskUsedMath = some s.current then { s with lastTaskUsedMath := none } else s

def doExecve : MathState P F := s.forgetMath.setTask s.current { s.task s.current with usedMath := false }

/-- `do_exit`: a zombie for its father, or released when it has none; then `schedule`. -/
def doExit (father : Bool) (p : P) : MathState P F :=
  (s.forgetMath.setPage s.current (if father then .zombie else .free)).switchTo p

end MathState

inductive MathEvent (P F : Type*) where
  -- an instruction that finds the registers so and leaves them so
  | math (found left : F)
  | switchTo (p : P)
  | fork (q : P) (copied : Bool)
  | exec
  | exit (father : Bool) (p : P)
  | release (q : P)

section Step

variable {P F : Type*} [DecidableEq P]

/-- `schedule` chooses among the tasks that are running, and `get_free_page` gives a page that is free. -/
inductive MathStep (init : F) : MathState P F → MathEvent P F → MathState P F → Prop
  | math {s found left} : (s.available init).st = found →
      MathStep init s (.math found left) { s.available init with st := left }
  | switchTo {s p} : s.page p = .running → MathStep init s (.switchTo p) (s.switchTo p)
  | fork {s q copied} : s.page q = .free → MathStep init s (.fork q copied) (s.copyProcess init q copied)
  | exec {s} : MathStep init s .exec s.doExecve
  | exit {s father p} : s.page p = .running → p ≠ s.current →
      MathStep init s (.exit father p) (s.doExit father p)
  | release {s q} : s.page q = .zombie → MathStep init s (.release q) (s.setPage q .free)

/-- After `head.s`: one task, which has not used the coprocessor, and `TS` clear. -/
structure MathState.Boot (s : MathState P F) : Prop where
  ts : s.ts = false
  last : s.lastTaskUsedMath = none
  usedMath : (s.task s.current).usedMath = false
  page : ∀ p, s.page p = .running ↔ p = s.current

def mathSystem (init : F) : System (MathState P F) (MathEvent P F) where
  init s := s.Boot
  step := MathStep init

end Step

namespace MathState

variable {P F : Type*} [DecidableEq P] {init : F} {s s' : MathState P F} {p q : P}

/-- The registers as the task `p` will find them. -/
def view (init : F) (s : MathState P F) (p : P) : F :=
  if s.lastTaskUsedMath = some p ∨ p = s.current ∧ s.ts = false then s.st
  else if (s.task p).usedMath then (s.task p).i387 else init

/-- The current task uses registers that nobody will save. -/
def Loose (s : MathState P F) : Prop := s.ts = false ∧ s.lastTaskUsedMath = none

instance (s : MathState P F) : Decidable s.Loose := inferInstanceAs (Decidable (_ ∧ _))

/-- The task whose registers are in the coprocessor. -/
structure Owned (s : MathState P F) : Prop where
  last : ∀ p, s.lastTaskUsedMath = some p → s.page p = .running ∧ (s.task p).usedMath = true
  resumes : ∀ p, s.lastTaskUsedMath = some p → p ≠ s.current → (s.task p).resumes = true

structure Lazy (s : MathState P F) : Prop extends s.Owned where
  current : s.page s.current = .running
  ts : ∀ p, s.lastTaskUsedMath = some p → (s.ts = false ↔ p = s.current)
  loose : s.Loose → (s.task s.current).usedMath = false

/-- What a step makes of the registers that each task will find. -/
def nextView (init : F) (s : MathState P F) : MathEvent P F → P → F
  | .math _ left => Function.update (s.view init) s.current left
  | .switchTo p => if s.Loose ∧ p ≠ s.current then Function.update (s.view init) s.current init else s.view init
  | .fork q _ =>
    let child := if s.Loose then init else s.view init s.current
    Function.update (if s.lastTaskUsedMath = some s.current then Function.update (s.view init) s.current init
      else s.view init) q child
  | .exec =>
    if s.Loose ∨ s.lastTaskUsedMath = some s.current then s.view init
    else Function.update (s.view init) s.current init
  | _ => s.view init

lemma view_of_last (h : s.lastTaskUsedMath = some p) : s.view init p = s.st := if_pos (Or.inl h)

lemma view_of_current (h : s.ts = false) : s.view init s.current = s.st := if_pos (Or.inr ⟨rfl, h⟩)

lemma view_of_saved (hlast : s.lastTaskUsedMath ≠ some p) (hts : p = s.current → s.ts = true) :
    s.view init p = if (s.task p).usedMath then (s.task p).i387 else init := by
  unfold view
  rw [if_neg]
  rintro (h | ⟨h, hclear⟩)
  · exact hlast h
  · rw [hts h] at hclear
    cases hclear

/-- An instruction finds the registers of the current task, and the other tasks keep theirs. -/
structure Ready (init : F) (s s' : MathState P F) : Prop where
  st : s'.st = s.view init s.current
  ts : s'.ts = false
  page : s'.page = s.page
  current : s'.current = s.current
  last : s'.lastTaskUsedMath = if s.Loose then none else some s.current
  usedMath : (s'.task s.current).usedMath = !decide s.Loose
  others : ∀ p, p ≠ s.current → s'.view init p = s.view init p

lemma ready_of_last (h : s.Lazy) (hlast : s.lastTaskUsedMath = some s.current) :
    Ready init s { s with ts := false } := by
  have hloose : ¬ s.Loose := by
    rintro ⟨_, hnone⟩
    rw [hlast] at hnone
    cases hnone
  have hsaved : ∀ p, p ≠ s.current → s.lastTaskUsedMath ≠ some p := by
    rintro p hp hsome
    rw [hlast] at hsome
    exact hp (Option.some.inj hsome).symm
  refine ⟨(view_of_last hlast).symm, rfl, rfl, rfl, ?_, ?_, ?_⟩
  · rw [if_neg hloose]
    exact hlast
  · rw [decide_eq_false hloose]
    exact (h.last _ hlast).2
  · intro p hp
    rw [view_of_saved (hsaved p hp) (absurd · hp)]
    exact view_of_saved (s := { s with ts := false }) (hsaved p hp) (absurd · hp)

/-- `math_state_restore` in one piece. -/
lemma mathStateRestore_eq (hlast : s.lastTaskUsedMath ≠ some s.current) :
    s.mathStateRestore init =
      { s with
        st := if (s.task s.current).usedMath then (s.task s.current).i387 else init
        task := Function.update (match s.lastTaskUsedMath with
          | some l => Function.update s.task l { s.task l with i387 := s.st }
          | none => s.task) s.current { s.task s.current with usedMath := true }
        lastTaskUsedMath := some s.current } := by
  have hkept : ∀ t : P → MathTask F, (t s.current).usedMath = true →
      Function.update t s.current { t s.current with usedMath := true } = t := by
    intro t ht
    rw [← ht]
    exact Function.update_eq_self _ _
  cases hl : s.lastTaskUsedMath with
  | none =>
    cases hu : (s.task s.current).usedMath with
    | true => simp [mathStateRestore, hl, hu, frstor, hkept]
    | false => simp [mathStateRestore, hl, hu, fninit, setTask]
  | some l =>
    have hne : s.current ≠ l := by
      rintro rfl
      exact hlast hl
    cases hu : (s.task s.current).usedMath with
    | true =>
      have hupdate := hkept (Function.update s.task l { s.task l with i387 := s.st }) (by simpa [hne] using hu)
      simp only [Function.update_of_ne hne] at hupdate
      simp [mathStateRestore, hl, hu, hne, fnsave, setTask, frstor, hupdate]
    | false => simp [mathStateRestore, hl, hu, hne, fnsave, setTask, fninit]

/-- The trap with the registers of nobody, or of another task, in the coprocessor. -/
lemma ready_of_restore (h : s.Lazy) (hts : s.ts = true) (hlast : s.lastTaskUsedMath ≠ some s.current) :
    Ready init s (mathStateRestore init { s with ts := false }) := by
  have hloose : ¬ s.Loose := by
    rintro ⟨hclear, _⟩
    rw [hts] at hclear
    cases hclear
  have hcur : s.view init s.current = _ := view_of_saved hlast fun _ => hts
  rw [mathStateRestore_eq (s := { s with ts := false }) hlast]
  refine ⟨hcur.symm, rfl, rfl, rfl, (if_neg hloose).symm, ?_, ?_⟩
  · rw [decide_eq_false hloose]
    simp
  · intro p hp
    have hne : some s.current ≠ some p := fun hsome => hp (Option.some.inj hsome).symm
    rw [view_of_saved (s := { s with st := _, ts := false, task := _, lastTaskUsedMath := _ }) hne (absurd · hp)]
    cases hl : s.lastTaskUsedMath with
    | none =>
      rw [view_of_saved (by simp [hl]) (absurd · hp)]
      simp [hp]
    | some l =>
      by_cases hpl : p = l
      · subst hpl
        rw [view_of_last hl]
        simp [hp, (h.last p hl).2]
      · rw [view_of_saved (by simpa [hl] using Ne.symm hpl) (absurd · hp)]
        simp [hp, hpl]

theorem Lazy.available (h : s.Lazy) (init : F) : Ready init s (s.available init) := by
  unfold MathState.available
  cases hts : s.ts with
  | true =>
    rw [if_pos rfl]
    by_cases hlast : s.lastTaskUsedMath = some s.current
    · have hready : Ready init s _ := ready_of_last h hlast
      rwa [deviceNotAvailable, if_pos hlast]
    · have hready : Ready init s _ := ready_of_restore h hts hlast
      rwa [deviceNotAvailable, if_neg hlast]
  | false =>
    rw [if_neg Bool.false_ne_true]
    by_cases hloose : s.Loose
    · refine ⟨(view_of_current hts).symm, hts, rfl, rfl, ?_, ?_, fun _ _ => rfl⟩
      · rw [if_pos hloose]
        exact hloose.2
      · rw [h.loose hloose, decide_eq_true hloose]
        rfl
    · obtain ⟨l, hl⟩ := Option.ne_none_iff_exists'.mp fun hnone => hloose ⟨hts, hnone⟩
      have hcur := (h.ts l hl).mp hts
      subst hcur
      refine ⟨(view_of_current hts).symm, hts, rfl, rfl, ?_, ?_, fun _ _ => rfl⟩
      · rw [if_neg hloose, hl]
      · rw [(h.last _ hl).2, decide_eq_false hloose]
        rfl

variable {found left : F} {father copied : Bool} {e : MathEvent P F}

lemma Ready.lazy (h : s.Lazy) (hr : Ready init s s') : s'.Lazy := by
  have hlast : ∀ p, s'.lastTaskUsedMath = some p → p = s'.current ∧ ¬ s.Loose := by
    intro p hp
    rw [hr.last] at hp
    split_ifs at hp with hloose
    exact ⟨(Option.some.inj hp).symm.trans hr.current.symm, hloose⟩
  refine ⟨⟨?_, ?_⟩, ?_, ?_, ?_⟩
  · intro p hp
    obtain ⟨rfl, hloose⟩ := hlast p hp
    rw [hr.page, hr.current, hr.usedMath, decide_eq_false hloose]
    exact ⟨h.current, rfl⟩
  · intro p hp hne
    exact absurd (hlast p hp).1 hne
  · rw [hr.page, hr.current]
    exact h.current
  · intro p hp
    exact iff_of_true hr.ts (hlast p hp).1
  · rintro ⟨_, hnone⟩
    rw [hr.last] at hnone
    split_ifs at hnone with hloose
    rw [hr.current, hr.usedMath, decide_eq_true hloose]
    rfl

/-- The registers in the coprocessor are those of the current task. -/
lemma Ready.write (h : s.Lazy) (hr : Ready init s s') (left : F) :
    Lazy { s' with st := left } ∧
      view init { s' with st := left } = Function.update (s.view init) s.current left := by
  obtain ⟨⟨hlast, hresumes⟩, hcurrent, hts, hloose⟩ := hr.lazy h
  refine ⟨⟨⟨hlast, hresumes⟩, hcurrent, hts, hloose⟩, ?_⟩
  funext p
  by_cases hp : p = s.current
  · subst hp
    rw [Function.update_self, ← hr.current]
    exact view_of_current (s := { s' with st := left }) hr.ts
  · have hne : s'.lastTaskUsedMath ≠ some p := by
      rw [hr.last]
      split_ifs
      · exact fun hnone => by cases hnone
      · exact fun hsome => hp (Option.some.inj hsome).symm
    have hold : p = s'.current → s'.ts = true := fun hcur => absurd (hcur.trans hr.current) hp
    rw [Function.update_of_ne hp, ← hr.others p hp, view_of_saved hne hold]
    exact view_of_saved (s := { s' with st := left }) hne hold

omit [DecidableEq P] in
lemma Lazy.ts_of_not_last (h : s.Lazy) (hloose : ¬ s.Loose) (hlast : s.lastTaskUsedMath ≠ some s.current) :
    s.ts = true := by
  by_contra hclear
  cases hl : s.lastTaskUsedMath with
  | none => exact hloose ⟨by simpa using hclear, hl⟩
  | some l =>
    have hcur := (h.ts l hl).mp (by simpa using hclear)
    exact hlast (hl.trans (congrArg some hcur))

/-- `TS` stays set unless the registers are those of the task that goes on. -/
def turned (s : MathState P F) (p : P) : MathState P F :=
  { s.setTask s.current { s.task s.current with resumes := true } with
    current := p
    ts := decide (s.lastTaskUsedMath ≠ some p) }

lemma Owned.switchTo_eq (h : s.Owned) (hp : p ≠ s.current) : s.switchTo p = s.turned p := by
  unfold MathState.switchTo
  rw [if_neg hp]
  dsimp only
  have hkept : (Function.update s.task s.current { s.task s.current with resumes := true }) p = s.task p :=
    Function.update_of_ne hp _ _
  by_cases hlast : s.lastTaskUsedMath = some p
  · rw [if_pos ⟨(congrArg MathTask.resumes hkept).trans (h.resumes p hlast hp), hlast⟩]
    simp [turned, setTask, hlast]
  · rw [if_neg fun hc => hlast hc.2]
    simp [turned, setTask, hlast]

lemma turned_saved (s : MathState P F) (p q : P) :
    ((s.turned p).task q).usedMath = (s.task q).usedMath ∧ ((s.turned p).task q).i387 = (s.task q).i387 := by
  unfold turned setTask
  by_cases hq : q = s.current
  · subst hq
    simp
  · simp [hq]

lemma turned_resumes (s : MathState P F) (p q : P) :
    ((s.turned p).task q).resumes = (decide (q = s.current) || (s.task q).resumes) := by
  unfold turned setTask
  by_cases hq : q = s.current
  · subst hq
    simp
  · simp [hq]

lemma Owned.turned (h : s.Owned) (hp : s.page p = .running) : (s.turned p).Lazy := by
  refine ⟨⟨?_, ?_⟩, hp, ?_, ?_⟩
  · intro q hq
    rw [(turned_saved s p q).1]
    exact h.last q hq
  · intro q hq _
    rw [turned_resumes]
    by_cases hcur : q = s.current
    · simp [hcur]
    · simp [h.resumes q hq hcur]
  · intro q hq
    have hsome : s.lastTaskUsedMath = some q := hq
    change decide (s.lastTaskUsedMath ≠ some p) = false ↔ q = p
    rw [hsome]
    simp
  · rintro ⟨hclear, hnone⟩
    change decide (s.lastTaskUsedMath ≠ some p) = false at hclear
    rw [show s.lastTaskUsedMath = none from hnone] at hclear
    cases hclear

lemma view_turned_saved (hlast : s.lastTaskUsedMath ≠ some q) :
    (s.turned p).view init q = if (s.task q).usedMath then (s.task q).i387 else init := by
  have hts : q = p → (s.turned p).ts = true := by
    rintro rfl
    exact decide_eq_true hlast
  obtain ⟨hused, hi387⟩ := turned_saved s p q
  rw [view_of_saved (s := s.turned p) hlast hts, hused, hi387]

lemma view_turned_of_ne (hq : q ≠ s.current) : (s.turned p).view init q = s.view init q := by
  by_cases hlast : s.lastTaskUsedMath = some q
  · rw [view_of_last hlast]
    exact view_of_last (s := s.turned p) hlast
  · rw [view_turned_saved hlast, view_of_saved hlast (absurd · hq)]

/-- Registers that nobody saves are lost at the switch. -/
lemma Lazy.view_turned_current (h : s.Lazy) :
    (s.turned p).view init s.current = if s.Loose then init else s.view init s.current := by
  by_cases hlast : s.lastTaskUsedMath = some s.current
  · rw [if_neg fun hl => by simp [hl.2] at hlast, view_of_last hlast]
    exact view_of_last (s := s.turned p) hlast
  · rw [view_turned_saved hlast]
    by_cases hloose : s.Loose
    · rw [if_pos hloose, h.loose hloose]
      rfl
    · rw [if_neg hloose, view_of_saved hlast fun _ => h.ts_of_not_last hloose hlast]

theorem Lazy.switchTo (h : s.Lazy) (init : F) (hp : s.page p = .running) :
    (s.switchTo p).Lazy ∧ ((s.switchTo p).view init =
      if s.Loose ∧ p ≠ s.current then Function.update (s.view init) s.current init else s.view init) := by
  by_cases hcur : p = s.current
  · rw [MathState.switchTo, if_pos hcur, if_neg fun hloose => hloose.2 hcur]
    exact ⟨h, rfl⟩
  · rw [h.switchTo_eq hcur]
    refine ⟨h.turned hp, ?_⟩
    funext q
    by_cases hq : q = s.current
    · subst hq
      rw [h.view_turned_current]
      by_cases hloose : s.Loose <;> simp [hloose, hcur]
    · rw [view_turned_of_ne hq]
      by_cases hloose : s.Loose <;> simp [hloose, hcur, hq]

/-- A free page becomes the structure of a child. -/
def forked (s : MathState P F) (q : P) (child : MathTask F) (c : TaskPage) : MathState P F :=
  (s.setTask q child).setPage q c

lemma copyProcess_of_last (hlast : s.lastTaskUsedMath = some s.current) :
    s.copyProcess init q copied = { s with st := init, ts := false }.forked q
      { usedMath := (s.task s.current).usedMath, i387 := s.st, resumes := false }
      (if copied then .running else .free) := by
  cases hts : s.ts <;>
    simp [MathState.copyProcess, MathState.available, deviceNotAvailable, setTask, forked, hlast, hts, fnsave]

lemma Lazy.forked (h : s.Lazy) (init : F) (hq : s.page q = .free) (child : MathTask F) (c : TaskPage) :
    (s.forked q child c).Lazy ∧ ∀ p, (s.forked q child c).view init p =
      if p = q then (if child.usedMath then child.i387 else init) else s.view init p := by
  have hother : ∀ p, s.page p = .running → p ≠ q := by
    rintro p hp rfl
    rw [hq] at hp
    cases hp
  have hcur := hother s.current h.current
  have htask : ∀ p, p ≠ q → (s.forked q child c).task p = s.task p := fun p hp => Function.update_of_ne hp _ _
  have hpage : ∀ p, p ≠ q → (s.forked q child c).page p = s.page p := fun p hp => Function.update_of_ne hp _ _
  refine ⟨⟨⟨?_, ?_⟩, ?_, h.ts, ?_⟩, ?_⟩
  · intro p hp
    obtain ⟨hrun, hused⟩ := h.last p hp
    have hne := hother p hrun
    rw [htask p hne, hpage p hne]
    exact ⟨hrun, hused⟩
  · intro p hp hne
    rw [htask p (hother p (h.last p hp).1)]
    exact h.resumes p hp hne
  · exact (hpage _ hcur).trans h.current
  · intro hloose
    rw [show (s.forked q child c).current = s.current from rfl, htask _ hcur]
    exact h.loose hloose
  · intro p
    by_cases hp : p = q
    · subst hp
      have hlast : s.lastTaskUsedMath ≠ some p := fun hl => hother p (h.last p hl).1 rfl
      rw [if_pos rfl, view_of_saved (s := s.forked p child c) hlast fun he => absurd he.symm hcur]
      simp [MathState.forked, setTask, setPage]
    · rw [if_neg hp]
      unfold view
      rw [htask p hp]
      rfl

/-- The child gets what its parent has; the `fnsave` takes it from the parent. -/
theorem Lazy.copyProcess (h : s.Lazy) (hq : s.page q = .free) :
    (s.copyProcess init q copied).Lazy ∧
      (s.copyProcess init q copied).view init = s.nextView init (.fork q copied) := by
  have hcur : q ≠ s.current := by
    rintro rfl
    rw [h.current] at hq
    cases hq
  by_cases hlast : s.lastTaskUsedMath = some s.current
  · have hloose : ¬ s.Loose := by
      rintro ⟨_, hnone⟩
      rw [hlast] at hnone
      cases hnone
    have hused := (h.last _ hlast).2
    have hcleared : Lazy { s with st := init, ts := false } := by
      refine ⟨⟨h.last, h.resumes⟩, h.current, ?_, fun hl => absurd hl.2 (by simp [hlast])⟩
      intro p hp
      exact iff_of_true rfl (Option.some.inj (Eq.trans (Eq.symm hp) hlast))
    obtain ⟨hlazy, hview⟩ := hcleared.forked init hq
      { usedMath := (s.task s.current).usedMath, i387 := s.st, resumes := false } (if copied then .running else .free)
    rw [copyProcess_of_last hlast]
    refine ⟨hlazy, ?_⟩
    funext p
    rw [hview, nextView, if_pos hlast, if_neg hloose, view_of_last hlast]
    by_cases hp : p = q
    · subst hp
      rw [if_pos rfl, if_pos hused, Function.update_self]
    · rw [if_neg hp, Function.update_of_ne hp]
      by_cases hpc : p = s.current
      · subst hpc
        rw [Function.update_self]
        exact view_of_last (s := { s with st := init, ts := false }) hlast
      · have hne : s.lastTaskUsedMath ≠ some p := by
          rw [hlast]
          exact fun hsome => hpc (Option.some.inj hsome).symm
        rw [Function.update_of_ne hpc, view_of_saved hne (absurd · hpc)]
        exact view_of_saved (s := { s with st := init, ts := false }) hne (absurd · hpc)
  · have heq : s.copyProcess init q copied =
        s.forked q { s.task s.current with resumes := false } (if copied then .running else .free) := by
      simp [MathState.copyProcess, MathState.forked, setTask, hlast]
    obtain ⟨hlazy, hview⟩ := h.forked init hq { s.task s.current with resumes := false }
      (if copied then .running else .free)
    rw [heq]
    refine ⟨hlazy, ?_⟩
    funext p
    rw [hview, nextView, if_neg hlast]
    by_cases hp : p = q
    · subst hp
      rw [if_pos rfl, Function.update_self]
      by_cases hloose : s.Loose
      · rw [if_pos hloose, h.loose hloose]
        rfl
      · rw [if_neg hloose, view_of_saved hlast fun _ => h.ts_of_not_last hloose hlast]
    · rw [if_neg hp, Function.update_of_ne hp]

lemma forgetMath_last (s : MathState P F) (p : P) :
    s.forgetMath.lastTaskUsedMath = some p ↔ s.lastTaskUsedMath = some p ∧ p ≠ s.current := by
  unfold forgetMath
  split_ifs with hlast
  · rw [hlast]
    simp [eq_comm]
  · refine ⟨fun hp => ⟨hp, ?_⟩, And.left⟩
    rintro rfl
    exact hlast hp

lemma forgetMath_rest (s : MathState P F) : s.forgetMath.task = s.task ∧ s.forgetMath.page = s.page ∧
    s.forgetMath.current = s.current ∧ s.forgetMath.ts = s.ts ∧ s.forgetMath.st = s.st := by
  unfold forgetMath
  split_ifs <;> exact ⟨rfl, rfl, rfl, rfl, rfl⟩

lemma view_forgetMath_of_ne (hp : p ≠ s.current) : s.forgetMath.view init p = s.view init p := by
  obtain ⟨htask, _, hcurrent, hts, hst⟩ := forgetMath_rest s
  simp only [view, htask, hcurrent, hts, hst, forgetMath_last, ne_eq, hp, not_false_eq_true, and_true]

lemma Lazy.forgetMath (h : s.Lazy) : s.forgetMath.Owned := by
  obtain ⟨htask, hpage, hcurrent, _⟩ := forgetMath_rest s
  refine ⟨?_, ?_⟩
  · intro p hp
    rw [htask, hpage]
    exact h.last p ((forgetMath_last s p).mp hp).1
  · intro p hp hne
    rw [htask]
    exact h.resumes p ((forgetMath_last s p).mp hp).1 (hcurrent ▸ hne)

/-- The registers of the old program stay in use until the next switch when they were in the coprocessor. -/
theorem Lazy.doExecve (h : s.Lazy) : s.doExecve.Lazy ∧ s.doExecve.view init = s.nextView init .exec := by
  obtain ⟨htask, hpage, hcurrent, hts, hst⟩ := forgetMath_rest s
  have hexec : ∀ p, p ≠ s.current → s.doExecve.task p = s.task p := by
    intro p hp
    rw [← htask]
    exact Function.update_of_ne hp _ _
  have hused : (s.doExecve.task s.current).usedMath = false := by
    unfold MathState.doExecve setTask
    simp
  have hne : s.doExecve.lastTaskUsedMath ≠ some s.current := fun hl => ((forgetMath_last s _).mp hl).2 rfl
  refine ⟨⟨⟨?_, ?_⟩, ?_, ?_, ?_⟩, ?_⟩
  · intro p hp
    obtain ⟨hl, hp⟩ := (forgetMath_last s p).mp hp
    rw [hexec p hp]
    exact hpage ▸ h.last p hl
  · intro p hp _
    obtain ⟨hl, hp⟩ := (forgetMath_last s p).mp hp
    rw [hexec p hp]
    exact h.resumes p hl hp
  · exact (congrArg s.forgetMath.page hcurrent).trans (hpage ▸ h.current)
  · intro p hp
    obtain ⟨hl, _⟩ := (forgetMath_last s p).mp hp
    have hiff := h.ts p hl
    rwa [← hts, ← hcurrent] at hiff
  · rintro _
    exact (congrArg (fun q => (s.doExecve.task q).usedMath) hcurrent).trans hused
  · funext p
    by_cases hp : p = s.current
    · subst hp
      cases hclear : s.ts with
      | false =>
        have hkept : s.Loose ∨ s.lastTaskUsedMath = some s.current := by
          by_contra hother
          rw [not_or] at hother
          rw [h.ts_of_not_last hother.1 hother.2] at hclear
          cases hclear
        rw [nextView, if_pos hkept, view_of_current hclear, ← hst]
        exact if_pos (Or.inr ⟨hcurrent.symm, hts.trans hclear⟩)
      | true =>
        have hlost : ¬ (s.Loose ∨ s.lastTaskUsedMath = some s.current) := by
          rintro (hloose | hl)
          · rw [hloose.1] at hclear
            cases hclear
          · rw [(h.ts _ hl).mpr rfl] at hclear
            cases hclear
        rw [nextView, if_neg hlost, Function.update_self, view_of_saved hne fun _ => hts.trans hclear, hused]
        rfl
    · have hsame : s.doExecve.view init p = s.forgetMath.view init p := by
        simp only [view, MathState.doExecve, setTask, hcurrent, Function.update_of_ne hp]
      rw [hsame, view_forgetMath_of_ne hp, nextView]
      split_ifs
      · rfl
      · rw [Function.update_of_ne hp]

lemma turned_not_loose (s : MathState P F) (p : P) : ¬ (s.turned p).Loose := by
  rintro ⟨hclear, hnone⟩
  change decide (s.lastTaskUsedMath ≠ some p) = false at hclear
  rw [show s.lastTaskUsedMath = none from hnone] at hclear
  cases hclear

/-- The state in which `do_exit` calls `schedule`. -/
def leaving (s : MathState P F) (father : Bool) : MathState P F :=
  s.forgetMath.setPage s.current (if father then .zombie else .free)

lemma Lazy.owned_leaving (h : s.Lazy) (father : Bool) : (s.leaving father).Owned := by
  have howned := h.forgetMath
  refine ⟨?_, howned.resumes⟩
  intro q hq
  obtain ⟨hrun, hused⟩ := howned.last q hq
  exact ⟨(Function.update_of_ne ((forgetMath_last s q).mp hq).2 _ _).trans hrun, hused⟩

lemma Lazy.doExit_eq (h : s.Lazy) (father : Bool) (hcur : p ≠ s.current) :
    s.doExit father p = (s.leaving father).turned p := by
  apply (h.owned_leaving father).switchTo_eq
  change p ≠ s.forgetMath.current
  rwa [(forgetMath_rest s).2.2.1]

theorem Lazy.doExit (h : s.Lazy) (init : F) (father : Bool) (hp : s.page p = .running) (hcur : p ≠ s.current) :
    (s.doExit father p).Lazy ∧ ∀ q, (s.doExit father p).page q = .running →
      q ≠ s.current ∧ s.page q = .running ∧ (s.doExit father p).view init q = s.view init q := by
  obtain ⟨_, hpage, hcurrent, _⟩ := forgetMath_rest s
  rw [h.doExit_eq father hcur]
  refine ⟨(h.owned_leaving father).turned ((Function.update_of_ne hcur _ _).trans (hpage ▸ hp)), ?_⟩
  intro q hq
  have hrun : (s.leaving father).page q = .running := hq
  have hne : q ≠ s.current := by
    rintro rfl
    have hgone : (s.leaving father).page s.current = if father then .zombie else .free := Function.update_self _ _ _
    rw [hgone] at hrun
    split_ifs at hrun
  refine ⟨hne, ?_, ?_⟩
  · rw [← hpage, ← hrun]
    exact (Function.update_of_ne hne _ _).symm
  · rw [view_turned_of_ne, ← view_forgetMath_of_ne hne]
    · rfl
    · change q ≠ s.forgetMath.current
      rwa [hcurrent]

lemma Lazy.release (h : s.Lazy) (hq : s.page q = .zombie) :
    (s.setPage q .free).Lazy ∧ (s.setPage q .free).view init = s.view init := by
  have hkept : ∀ p, s.page p = .running → (s.setPage q .free).page p = .running := by
    intro p hp
    have hne : p ≠ q := by
      rintro rfl
      rw [hq] at hp
      cases hp
    exact (Function.update_of_ne hne _ _).trans hp
  refine ⟨⟨⟨?_, h.resumes⟩, hkept _ h.current, h.ts, h.loose⟩, rfl⟩
  intro p hp
  exact ⟨hkept p (h.last p hp).1, (h.last p hp).2⟩

theorem Lazy.step (h : s.Lazy) (hstep : MathStep init s e s') :
    s'.Lazy ∧ ∀ p, s'.page p = .running → s'.view init p = s.nextView init e p := by
  cases hstep with
  | math _ =>
    obtain ⟨hlazy, hview⟩ := (h.available init).write h _
    exact ⟨hlazy, fun p _ => congrFun hview p⟩
  | switchTo hp =>
    obtain ⟨hlazy, hview⟩ := h.switchTo init hp
    exact ⟨hlazy, fun p _ => congrFun hview p⟩
  | fork hq =>
    obtain ⟨hlazy, hview⟩ := h.copyProcess hq
    exact ⟨hlazy, fun p _ => congrFun hview p⟩
  | exec =>
    obtain ⟨hlazy, hview⟩ := h.doExecve
    exact ⟨hlazy, fun p _ => congrFun hview p⟩
  | @exit father _ hp hcur =>
    obtain ⟨hlazy, hview⟩ := h.doExit init father hp hcur
    exact ⟨hlazy, fun q hq => (hview q hq).2.2⟩
  | release hq =>
    obtain ⟨hlazy, hview⟩ := h.release hq
    exact ⟨hlazy, fun p _ => congrFun hview p⟩

omit [DecidableEq P] in
lemma Boot.lazy (h : s.Boot) : s.Lazy := by
  refine ⟨⟨?_, ?_⟩, (h.page _).mpr rfl, ?_, fun _ => h.usedMath⟩
  all_goals
    intro p hp
    rw [h.last] at hp
    cases hp

lemma lazy_of_reach {ok : MathState P F → MathEvent P F → Prop} (h : (mathSystem init).Reach ok s) : s.Lazy :=
  h.invariant (fun _ => Boot.lazy) fun _ _ _ hs _ hstep => (hs.step hstep).1

/-- In every run, forks and `execve` at any time included: what an instruction finds, what each step makes of the
registers of all tasks, and that they are saved only where a task lives. -/
theorem registers_of_step (h : (mathSystem init).Reach (fun _ _ => True) s) (hstep : MathStep init s e s') :
    (∀ found left, e = .math found left → found = s.view init s.current) ∧
      (∀ p, s'.page p = .running → s'.view init p = s.nextView init e p) ∧
      ∀ p, s'.lastTaskUsedMath = some p → s'.page p = .running := by
  have hlazy := lazy_of_reach h
  obtain ⟨hnext, hview⟩ := hlazy.step hstep
  refine ⟨?_, hview, fun p hp => (hnext.last p hp).1⟩
  rintro found left rfl
  cases hstep with
  | math hfound => rw [← hfound, (hlazy.available init).st]

end MathState

/-- Every task with registers of its own. -/
structure OwnRegisters (P F : Type*) where
  regs : P → F
  current : P

section Own

variable {P F : Type*} [DecidableEq P]

inductive OwnStep (init : F) : OwnRegisters P F → MathEvent P F → OwnRegisters P F → Prop
  | math {t found left} : t.regs t.current = found →
      OwnStep init t (.math found left) { t with regs := Function.update t.regs t.current left }
  | switchTo {t p} : OwnStep init t (.switchTo p) { t with current := p }
  | fork {t q copied} : OwnStep init t (.fork q copied) { t with regs := Function.update t.regs q (t.regs t.current) }
  | exec {t} : OwnStep init t .exec { t with regs := Function.update t.regs t.current init }
  | exit {t father p} : OwnStep init t (.exit father p) { t with current := p }
  | release {t q} : OwnStep init t (.release q) t

def ownSystem (init : F) : System (OwnRegisters P F) (MathEvent P F) where
  init t := t.regs t.current = init
  step := OwnStep init

namespace MathState

variable {init : F} {s s' : MathState P F} {e : MathEvent P F} {t : OwnRegisters P F}

/-- The task whose registers are in the coprocessor neither forks nor executes a program, and the first task does not
use the coprocessor before the first switch. -/
def Private (s : MathState P F) : MathEvent P F → Prop
  | .math _ _ => ¬ s.Loose
  | .fork _ _ => s.lastTaskUsedMath ≠ some s.current
  | .exec => s.lastTaskUsedMath ≠ some s.current
  | _ => True

/-- What a task will find after the next switch. -/
def kept (init : F) (s : MathState P F) (p : P) : F := if s.Loose ∧ p = s.current then init else s.view init p

structure Represents (init : F) (s : MathState P F) (t : OwnRegisters P F) : Prop where
  lazy : s.Lazy
  current : t.current = s.current
  regs : ∀ p, s.page p = .running → t.regs p = s.kept init p

lemma kept_of_not_loose (h : ¬ s.Loose) : s.kept init = s.view init := by
  funext p
  exact if_neg fun hl => h hl.1

lemma kept_of_ne {p : P} (hp : p ≠ s.current) : s.kept init p = s.view init p := if_neg fun hl => hp hl.2

lemma kept_current : s.kept init s.current = if s.Loose then init else s.view init s.current := by
  simp [kept]

lemma switchTo_current (s : MathState P F) (p : P) : (s.switchTo p).current = p ∧ (s.switchTo p).page = s.page := by
  unfold switchTo
  split_ifs with hp
  · exact ⟨hp.symm, rfl⟩
  · dsimp only
    split_ifs <;> exact ⟨rfl, rfl⟩

lemma Lazy.kept_switchTo {p : P} (h : s.Lazy) (hp : s.page p = .running) : (s.switchTo p).kept init = s.kept init := by
  obtain ⟨_, hview⟩ := h.switchTo init hp
  by_cases hcur : p = s.current
  · rw [MathState.switchTo, if_pos hcur]
  · have hloose : ¬ (s.switchTo p).Loose := by
      rw [h.switchTo_eq hcur]
      exact turned_not_loose s p
    rw [kept_of_not_loose hloose, hview]
    funext q
    by_cases hq : q = s.current
    · subst hq
      rw [kept_current]
      by_cases hl : s.Loose <;> simp [hl, hcur]
    · rw [kept_of_ne hq]
      by_cases hl : s.Loose <;> simp [hl, hcur, hq]

lemma Represents.step (h : Represents init s t) (hok : s.Private e) (hstep : MathStep init s e s') :
    ∃ t', OwnStep init t e t' ∧ Represents init s' t' := by
  obtain ⟨hlazy, hview⟩ := h.lazy.step hstep
  have hcurrent := h.regs _ h.lazy.current
  cases hstep with
  | @math found left hfound =>
    have hready := h.lazy.available init
    have hloose : ¬ Loose { s.available init with st := left } := by
      rintro ⟨_, hnone⟩
      have hlast := hready.last
      rw [if_neg hok, show (s.available init).lastTaskUsedMath = none from hnone] at hlast
      cases hlast
    rw [kept_of_not_loose hok] at hcurrent
    refine ⟨_, .math ?_, hlazy, h.current.trans hready.current.symm, ?_⟩
    · rw [← hfound, hready.st, h.current, hcurrent]
    · intro p hp
      rw [kept_of_not_loose hloose, hview p hp, nextView, h.current]
      have hrun : s.page p = .running := hready.page ▸ hp
      have hp := h.regs p hrun
      rw [kept_of_not_loose hok] at hp
      by_cases hpc : p = s.current
      · subst hpc
        simp
      · simp [hpc, hp]
  | @switchTo p hp =>
    obtain ⟨hnext, hpage⟩ := switchTo_current s p
    refine ⟨_, .switchTo, hlazy, hnext.symm, ?_⟩
    intro q hq
    rw [hpage] at hq
    rw [h.lazy.kept_switchTo hp]
    exact h.regs q hq
  | @fork q copied hq =>
    have heq : s.copyProcess init q copied =
        s.forked q { s.task s.current with resumes := false } (if copied then .running else .free) := by
      simp [copyProcess, forked, setTask, show s.lastTaskUsedMath ≠ some s.current from hok]
    have hcur : q ≠ s.current := by
      rintro rfl
      rw [h.lazy.current] at hq
      cases hq
    refine ⟨_, .fork, hlazy, ?_, ?_⟩
    · rw [heq]
      exact h.current
    · intro p hp
      have hkept : (s.copyProcess init q copied).kept init p =
          if s.Loose ∧ p = s.current then init else (s.copyProcess init q copied).view init p := by
        rw [heq]
        rfl
      rw [hkept, hview p hp, nextView, if_neg hok]
      change Function.update t.regs q (t.regs t.current) p = _
      by_cases hpq : p = q
      · subst hpq
        rw [Function.update_self, Function.update_self, if_neg fun hl => hcur hl.2, h.current, hcurrent, kept_current]
      · rw [Function.update_of_ne hpq, Function.update_of_ne hpq]
        rw [heq] at hp
        exact h.regs p ((Function.update_of_ne hpq _ _).symm.trans hp)
  | exec =>
    have hlast : s.lastTaskUsedMath ≠ some s.current := hok
    have heq : s.doExecve = s.setTask s.current { s.task s.current with usedMath := false } := by
      unfold doExecve forgetMath
      rw [if_neg hlast]
    refine ⟨_, .exec, hlazy, ?_, ?_⟩
    · rw [heq]
      exact h.current
    · intro p hp
      have hkept : s.doExecve.kept init p = if s.Loose ∧ p = s.current then init else s.doExecve.view init p := by
        rw [heq]
        rfl
      rw [hkept, hview p hp, nextView, h.current]
      have hrun : s.page p = .running := by
        rwa [heq] at hp
      have hregs := h.regs p hrun
      by_cases hpc : p = s.current
      · subst hpc
        by_cases hl : s.Loose <;> simp [hl, hlast]
      · rw [kept_of_ne hpc] at hregs
        by_cases hl : s.Loose <;> simp [hl, hlast, hpc, hregs]
  | @exit father p hp hcur =>
    obtain ⟨_, hleft⟩ := h.lazy.doExit init father hp hcur
    have heq := h.lazy.doExit_eq father hcur
    have hloose : ¬ (s.doExit father p).Loose := by
      rw [heq]
      exact turned_not_loose _ p
    refine ⟨_, .exit, hlazy, ?_, ?_⟩
    · rw [heq]
      rfl
    · intro q hq
      obtain ⟨hne, hrun, hsame⟩ := hleft q hq
      rw [kept_of_not_loose hloose, hsame, ← kept_of_ne hne]
      exact h.regs q hrun
  | @release q hq =>
    refine ⟨_, .release, hlazy, h.current, ?_⟩
    intro p hp
    have hne : p ≠ q := by
      rintro rfl
      have hgone : (s.setPage p .free).page p = .free := Function.update_self _ _ _
      rw [hgone] at hp
      cases hp
    exact h.regs p ((Function.update_of_ne hne _ _).symm.trans hp)

/-- Whatever is switched in between, an instruction finds the registers as the task itself has left them. -/
theorem own_registers (hs : s.Boot) {es : List (MathEvent P F)} (h : System.Trace (mathSystem init) Private s es s')
    (ht : t.regs t.current = init) (hcur : t.current = s.current) :
    ∃ t', System.Trace (ownSystem init) (fun _ _ => True) t es t' ∧ Represents init s' t' := by
  have hloose : s.Loose := ⟨hs.ts, hs.last⟩
  have hstart : Represents init s t := by
    refine ⟨hs.lazy, hcur, ?_⟩
    intro p hp
    rw [(hs.page p).mp hp, kept_current, if_pos hloose, ← hcur]
    exact ht
  exact System.Trace.simulates (N := ownSystem init) (fun _ _ _ _ hR hok hstep => hR.step hok hstep) h hstart

end MathState

end Own

section Examples

/-- The first task, with pages for two more; the registers are one number. -/
def bootMath : MathState (Fin 5) ℕ where
  st := 9
  ts := false
  task _ := ⟨false, 0, false⟩
  page p := if p = 0 then .running else .free
  current := 0
  lastTaskUsedMath := none

lemma bootMath_boot : bootMath.Boot := ⟨rfl, rfl, rfl, by decide⟩

end Examples

namespace MathState

theorem own_registers_twoTasks :
    let es : List (MathEvent (Fin 5) ℕ) :=
      [.fork 1 true, .switchTo 1, .math 0 5, .switchTo 0, .math 0 7, .switchTo 1, .math 5 6]
    ∃ t', System.Trace (ownSystem 0) (fun _ _ => True) ⟨fun _ => 0, 0⟩ es t' := by
  intro es
  obtain ⟨s', hs'⟩ : ∃ s', System.Trace (mathSystem 0) Private bootMath es s' := by
    have h₁ : System.Trace (mathSystem 0) Private bootMath [.fork 1 true] _ :=
      .snoc .nil (by unfold Private; decide) (MathStep.fork rfl)
    have h₂ := h₁.snoc (a := MathEvent.switchTo 1) trivial (MathStep.switchTo (p := 1) (by decide))
    have h₃ := h₂.snoc (a := MathEvent.math 0 5) (by unfold Private; decide) (MathStep.math (by decide))
    have h₄ := h₃.snoc (a := MathEvent.switchTo 0) trivial (MathStep.switchTo (p := 0) (by decide))
    have h₅ := h₄.snoc (a := MathEvent.math 0 7) (by unfold Private; decide) (MathStep.math (by decide))
    have h₆ := h₅.snoc (a := MathEvent.switchTo 1) trivial (MathStep.switchTo (p := 1) (by decide))
    exact ⟨_, h₆.snoc (a := MathEvent.math 5 6) (by unfold Private; decide) (MathStep.math (by decide))⟩
  obtain ⟨t', ht', _⟩ := own_registers (t := ⟨fun _ => 0, 0⟩) bootMath_boot hs' rfl rfl
  exact ⟨t', ht'⟩

/-- A task that forks with its registers in the coprocessor hands them to its child, and starts anew itself. -/
theorem registers_of_step_fork :
    ∃ s s' : MathState (Fin 5) ℕ, MathStep 0 s (.fork 2 true) s' ∧ s.view 0 1 = 5 ∧ s'.view 0 1 = 0 ∧
      s'.view 0 2 = 5 := by
  have h₁ : (mathSystem 0).Reach (fun _ _ => True) (bootMath.copyProcess 0 1 true) :=
    .next (.start bootMath_boot) trivial (MathStep.fork (q := 1) (by decide))
  have h₂ := h₁.next (a := MathEvent.switchTo 1) trivial (MathStep.switchTo (p := 1) (by decide))
  have h₃ := h₂.next (a := MathEvent.math 0 5) trivial (MathStep.math (by decide))
  have hfork : MathStep 0 { ((bootMath.copyProcess 0 1 true).switchTo 1).available 0 with st := 5 } (.fork 2 true) _ :=
    .fork (by decide)
  obtain ⟨_, hview, _⟩ := registers_of_step h₃ hfork
  refine ⟨_, _, hfork, by decide, ?_, ?_⟩
  · exact (hview 1 (by decide)).trans (by decide)
  · exact (hview 2 (by decide)).trans (by decide)

end MathState

end Devos.Kernel
