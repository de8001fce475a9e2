import Devos.Tty.OneLine

/-! The alarm of a process in `tty_read`, which uses it as a clock of its own and puts it back on its way out. -/

namespace Devos.Tty

open Runs

-- `ALRMMASK`
abbrev alrmMask : BitVec 32 := 1 <<< 13

/-- What `tty_read` reads besides the flags and characters of the line. -/
structure Timing where
  line : Line
  vtime : Byte
  vmin : Byte

/-- A call of `tty_read` with the clock and the alarm of its process, `asleep` in `sleep_if_empty`. The last three are
a record of the run: the clock at the start, if the alarm has gone off since, and if the call has ended in the inner
loop. -/
structure TimedRead where
  jiffies : BitVec 32
  alarm : BitVec 32
  signal : BitVec 32
  tty : TtyStruct
  reader : Reader
  asleep : Bool
  time : BitVec 32
  flag : Bool
  oldAlarm : BitVec 32
  start : BitVec 32
  wentOff : Bool
  atEof : Bool

namespace TimedRead

variable (m : Timing)

def empty (s : TimedRead) : Prop := s.tty.secondary.head = s.tty.secondary.tail

/-- `!oldalarm || time+jiffies<oldalarm` -/
def sooner (s : TimedRead) : Prop := s.oldAlarm = 0 ∨ (s.time + s.jiffies).slt s.oldAlarm

instance (s : TimedRead) : Decidable s.sooner := inferInstanceAs (Decidable (_ ∨ _))

def returned (s : TimedRead) : TimedRead :=
  { s with alarm := s.oldAlarm, reader := { s.reader with stage := .returned } }

/-- `tty_read` up to its outer loop, or all of it for no characters. -/
def enter (jiffies alarm signal : BitVec 32) (tty : TtyStruct) (nr : ℕ) : TimedRead :=
  let time := 10 * m.vtime.setWidth 32
  let timed := time ≠ 0 ∧ m.vmin = 0
  let reader := Reader.start nr (if timed then 1 else m.vmin.toNat)
  let s : TimedRead := ⟨jiffies, alarm, signal, tty, reader, false, time, false, alarm, jiffies, false, false⟩
  let s := if timed then if s.sooner then { s with flag := true, alarm := time + jiffies } else s else s
  if nr = 0 then s.returned else s

/-- The outer loop up to the inner one. -/
def check (s : TimedRead) : TimedRead :=
  if s.flag ∧ s.signal &&& alrmMask ≠ 0 then { s with signal := s.signal &&& ~~~alrmMask }.returned
  else if s.signal ≠ 0 then s.returned
  else if released m.line s.tty then { s with reader := { s.reader with stage := .copying } }
  else { s with asleep := s.tty.secondary.head = s.tty.secondary.tail }

/-- The alarm is set anew for the next character. -/
def rearm (s : TimedRead) : TimedRead :=
  if s.sooner then { s with flag := true, alarm := s.time + s.jiffies } else { s with flag := false, alarm := s.oldAlarm }

/-- A turn of the inner loop, and what is behind it if it is the last one. -/
def turn (s : TimedRead) : TimedRead :=
  let c := s.tty.secondary.cell s.tty.secondary.tail
  let (t, r) := readByte m.line s.tty s.reader
  let u := { s with tty := t, reader := r }
  if isChar c m.line.termios.veof ∧ m.line.termios.icanon then { u with atEof := true }
  else if r.stage = .copying then u
  else
    let u := if u.time ≠ 0 ∧ ¬m.line.termios.icanon then u.rearm else u
    if r.stage = .returned then u.returned else u

/-- The loop over the tasks in `schedule` has come to the process. -/
def goOff (s : TimedRead) : TimedRead := { s with alarm := 0, signal := s.signal ||| alrmMask, wentOff := true }

end TimedRead

inductive AlarmEvent
  | tick
  | signal (mask : BitVec 32)
  | input (t : TtyStruct)
  | goOff
  | wake
  | check
  | turn

/-- The process is not running in `sleep_if_empty` and where `put_fs_byte` has to bring in a page. -/
inductive AlarmStep (m : Timing) : TimedRead → AlarmEvent → TimedRead → Prop
  | tick {s} : AlarmStep m s .tick { s with jiffies := s.jiffies + 1 }
  | signal {s mask} : AlarmStep m s (.signal mask) { s with signal := s.signal ||| mask }
  | input {s t} : AlarmStep m s (.input t) { s with tty := t }
  | goOff {s} (hsleep : s.asleep = true ∨ s.reader.stage = .copying) (halarm : s.alarm ≠ 0)
    (hlate : s.alarm.slt s.jiffies) : AlarmStep m s .goOff s.goOff
  | wake {s} (hsleep : s.asleep = true) (hwake : s.signal ≠ 0 ∨ ¬s.empty) : AlarmStep m s .wake { s with asleep := false }
  | check {s} (hstage : s.reader.stage = .waiting) (hsleep : s.asleep = false) : AlarmStep m s .check (s.check m)
  | turn {s} (hstage : s.reader.stage = .copying) : AlarmStep m s .turn (s.turn m)

def alarmSystem (m : Timing) : System TimedRead AlarmEvent where
  init s := ∃ jiffies alarm signal tty nr, s = .enter m jiffies alarm signal tty nr
  step := AlarmStep m

namespace TimedRead

/-- The call had set the alarm before it looked at the queue. -/
def Replaced (m : Timing) (s : TimedRead) : Prop :=
  s.time ≠ 0 ∧ m.vmin = 0 ∧ (s.oldAlarm = 0 ∨ (s.time + s.start).slt s.oldAlarm)

instance (m : Timing) (s : TimedRead) : Decidable (s.Replaced m) := inferInstanceAs (Decidable (_ ∧ _))

/-- The alarm of a call in canonical mode. -/
def kept (m : Timing) (s : TimedRead) : BitVec 32 :=
  if s.wentOff then 0 else if s.Replaced m then s.time + s.start else s.oldAlarm

/-- The alarm is as it was if it has not gone off and was not replaced, or if there was none before and there is none
now. -/
def Untouched (m : Timing) (s : TimedRead) : Prop :=
  if s.wentOff then s.oldAlarm = 0 else s.Replaced m → s.oldAlarm = 0 ∧ s.time + s.start = 0

instance (m : Timing) (s : TimedRead) : Decidable (s.Untouched m) := inferInstanceAs (Decidable (ite _ _ _))

structure Settled (m : Timing) (s : TimedRead) : Prop where
  restored : s.reader.stage = .returned → s.atEof = false → s.alarm = s.oldAlarm
  canon : m.line.termios.icanon = true → s.reader.stage ≠ .returned ∨ s.atEof = true → s.alarm = s.kept m
  atEof : s.atEof = true → m.line.termios.icanon = true ∧ s.reader.stage = .returned
  asleep : s.asleep = true → s.reader.stage = .waiting

section Alarm

variable {m : Timing} {s s' : TimedRead} {e : AlarmEvent}

lemma kept_eq_iff : s.kept m = s.oldAlarm ↔ s.Untouched m := by
  unfold kept Untouched
  split_ifs with hoff hreplaced
  · exact eq_comm
  · constructor
    · intro heq _
      obtain hold | hsooner := hreplaced.2.2
      · exact ⟨hold, heq.trans hold⟩
      · rw [heq] at hsooner
        simp [BitVec.slt] at hsooner
    · intro h
      obtain ⟨hold, hzero⟩ := h hreplaced
      rw [hold, hzero]
  · simp [hreplaced]

/-- Any exit but the one from the inner loop. -/
lemma settled_returned (heof : s.atEof = false) (hawake : s.asleep = false) : Settled m s.returned where
  restored _ _ := rfl
  canon _ hin := by
    rcases hin with hstage | heof'
    · exact absurd rfl hstage
    · exact absurd heof' (by simp [returned, heof])
  atEof heof' := absurd heof' (by simp [returned, heof])
  asleep hasleep := absurd hasleep (by simp [returned, hawake])

lemma settled_going (hstage : s.reader.stage ≠ .returned) (heof : s.atEof = false)
    (hasleep : s.asleep = true → s.reader.stage = .waiting) (hcanon : m.line.termios.icanon = true → s.alarm = s.kept m) :
    Settled m s where
  restored hret := absurd hret hstage
  canon hc _ := hcanon hc
  atEof h := absurd h (by simp [heof])
  asleep := hasleep

lemma Settled.going (h : Settled m s) (hstage : s.reader.stage ≠ .returned) : s.atEof = false := by
  by_contra heof
  exact hstage (h.atEof (by simpa using heof)).2

lemma settled_enter (jiffies alarm signal : BitVec 32) (tty : TtyStruct) (nr : ℕ) :
    Settled m (enter m jiffies alarm signal tty nr) := by
  unfold enter
  dsimp only
  by_cases hnr : nr = 0
  · rw [if_pos hnr]
    apply settled_returned <;> split_ifs <;> rfl
  · rw [if_neg hnr]
    have hstage : ∀ k, (Reader.start nr k).stage ≠ .returned := by
      intro k
      rw [Reader.start, if_neg hnr]
      exact fun h => by cases h
    split_ifs with htimed hsooner
    · refine settled_going (hstage _) rfl (fun h => by cases h) fun _ => ?_
      rw [kept, if_neg Bool.false_ne_true, if_pos ⟨htimed.1, htimed.2, hsooner⟩]
    · refine settled_going (hstage _) rfl (fun h => by cases h) fun _ => ?_
      rw [kept, if_neg Bool.false_ne_true, if_neg fun h => hsooner h.2.2]
    · refine settled_going (hstage _) rfl (fun h => by cases h) fun _ => ?_
      rw [kept, if_neg Bool.false_ne_true, if_neg fun h => htimed ⟨h.1, h.2.1⟩]

lemma Settled.check (h : Settled m s) (hstage : s.reader.stage = .waiting) (hawake : s.asleep = false) :
    Settled m (s.check m) := by
  have hgoing : s.reader.stage ≠ .returned := by simp [hstage]
  have heof := h.going hgoing
  unfold TimedRead.check
  split_ifs
  · exact settled_returned heof hawake
  · exact settled_returned heof hawake
  · exact settled_going (fun hret => by cases hret) heof (fun hno => by simp [hawake] at hno) fun hc => h.canon hc (.inl hgoing)
  · exact settled_going hgoing heof (fun _ => hstage) fun hc => h.canon hc (.inl hgoing)

lemma rearm_same (s : TimedRead) : s.rearm = { s with alarm := s.rearm.alarm, flag := s.rearm.flag } := by
  unfold rearm
  split_ifs <;> rfl

lemma Settled.turn (h : Settled m s) (hstage : s.reader.stage = .copying) : Settled m (s.turn m) := by
  have hgoing : s.reader.stage ≠ .returned := by simp [hstage]
  have heof := h.going hgoing
  have hcanon := fun hc => h.canon hc (.inl hgoing)
  have hawake : s.asleep = false := by
    by_contra hasleep
    have hwaiting := h.asleep (by simpa using hasleep)
    rw [hstage] at hwaiting
    cases hwaiting
  have hnever : ∀ p, s.asleep = true → p := fun p hasleep => absurd hasleep (by simp [hawake])
  unfold TimedRead.turn
  cases hbyte : readByte m.line s.tty s.reader with
  | mk t r =>
    dsimp only
    by_cases hend : isChar (s.tty.secondary.cell s.tty.secondary.tail) m.line.termios.veof ∧ m.line.termios.icanon
    · rw [if_pos hend]
      have hret : r.stage = .returned := by
        unfold readByte at hbyte
        rw [if_pos hend] at hbyte
        obtain ⟨_, rfl⟩ := Prod.mk.inj hbyte
        rfl
      exact ⟨fun _ hno => (by cases hno), fun hc _ => hcanon hc, fun _ => ⟨hend.2, hret⟩, hnever _⟩
    · rw [if_neg hend]
      by_cases hcopying : r.stage = .copying
      · rw [if_pos hcopying]
        exact settled_going (by simp [hcopying]) heof (hnever _) hcanon
      · rw [if_neg hcopying]
        by_cases htimed : s.time ≠ 0 ∧ ¬m.line.termios.icanon = true
        · rw [if_pos htimed, rearm_same]
          split_ifs with hret
          · exact settled_returned heof hawake
          · exact settled_going hret heof (hnever _) fun hc => absurd hc htimed.2
        · rw [if_neg htimed]
          split_ifs with hret
          · exact settled_returned heof hawake
          · exact settled_going hret heof (hnever _) hcanon

lemma Settled.goOff (h : Settled m s) (hgoing : s.reader.stage ≠ .returned) : Settled m s.goOff := by
  refine settled_going hgoing (h.going hgoing) h.asleep fun _ => ?_
  unfold kept TimedRead.goOff
  rw [if_pos rfl]

lemma Settled.step (h : Settled m s) (hstep : AlarmStep m s e s') : Settled m s' := by
  cases hstep with
  | tick => exact ⟨h.restored, h.canon, h.atEof, h.asleep⟩
  | signal => exact ⟨h.restored, h.canon, h.atEof, h.asleep⟩
  | input => exact ⟨h.restored, h.canon, h.atEof, h.asleep⟩
  | wake => exact ⟨h.restored, h.canon, h.atEof, fun hno => by cases hno⟩
  | goOff hsleep =>
    apply h.goOff
    rcases hsleep with hasleep | hcopying
    · simp [h.asleep hasleep]
    · simp [hcopying]
  | check hstage hawake => exact h.check hstage hawake
  | turn hstage => exact h.turn hstage

lemma settled_of_reach (h : (alarmSystem m).Reach (fun _ _ => True) s) : Settled m s := by
  refine h.invariant ?_ fun s e s' hs _ hstep => hs.step hstep
  rintro _ ⟨jiffies, alarm, signal, tty, nr, rfl⟩
  exact settled_enter jiffies alarm signal tty nr

end Alarm

/-- A call that has come back has put the alarm back unless it has ended at an EOF character, with the alarm gone off or
replaced. -/
theorem alarm_restored_iff {m : Timing} {s : TimedRead} (h : (alarmSystem m).Reach (fun _ _ => True) s)
    (hret : s.reader.stage = .returned) : s.alarm = s.oldAlarm ↔ s.atEof = false ∨ s.Untouched m := by
  have hsettled := settled_of_reach h
  cases heof : s.atEof with
  | false => exact iff_of_true (hsettled.restored hret heof) (.inl rfl)
  | true =>
    rw [hsettled.canon (hsettled.atEof heof).1 (.inr heof), kept_eq_iff]
    exact (or_iff_right Bool.noConfusion).symm

/-- An EOF character in the queue, a process without an alarm. -/
def endOfFile (m : Timing) : TimedRead := ((enter m 0 0 0 (typedAhead [4]) 10).check m).turn m

lemma reach_endOfFile {m : Timing} (hwaiting : (enter m 0 0 0 (typedAhead [4]) 10).reader.stage = .waiting)
    (hawake : (enter m 0 0 0 (typedAhead [4]) 10).asleep = false)
    (hstage : ((enter m 0 0 0 (typedAhead [4]) 10).check m).reader.stage = .copying) :
    (alarmSystem m).Reach (fun _ _ => True) (endOfFile m) :=
  .next (.next (.start ⟨0, 0, 0, typedAhead [4], 10, rfl⟩) trivial (.check hwaiting hawake)) trivial (.turn hstage)

theorem alarm_restored_untimed : (endOfFile ⟨quietLine, 1, 1⟩).alarm = (endOfFile ⟨quietLine, 1, 1⟩).oldAlarm :=
  (alarm_restored_iff (reach_endOfFile (by decide) (by decide) (by decide)) (by decide)).mpr (.inr (by decide))

/-- With `VTIME` 1 and `VMIN` 0 the alarm of the call stays. -/
theorem alarm_left : ¬∀ m s, (alarmSystem m).Reach (fun _ _ => True) s → s.reader.stage = .returned →
    s.alarm = s.oldAlarm := by
  intro hall
  have halarm := hall ⟨quietLine, 1, 0⟩ _ (reach_endOfFile (by decide) (by decide) (by decide)) (by decide)
  revert halarm
  decide

end TimedRead

end Devos.Tty
