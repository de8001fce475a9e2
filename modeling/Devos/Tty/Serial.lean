import Devos.Tty.Newlines

/-! The serial line: calls of `tty_write` put characters into the write queue while the interrupt of the transmitter
takes them out, and turns itself off when there are none. -/

namespace Devos.Tty

open Runs

/-- Up to so many characters in the queue wake the process that waits for room. -/
abbrev startup : ℕ := 256

/-- One line with its calls of `tty_write`, of which `filling` is in the inner loop. `ier` is the interrupt enable
register; `tmp` stands in `interruptible_sleep_on`. `put` and `sent` are a record of what went into the queue and over
the wire. -/
structure SerialLine where
  crFlag : Bool
  writeQ : Ring Byte
  procList : Option (Fin 64)
  ier : Byte
  call : Fin 64 → Option WriteCall
  filling : Option (Fin 64)
  tmp : Fin 64 → Option (Fin 64)
  running : Fin 64 → Bool
  signal : Fin 64 → Bool
  put : List Byte
  sent : List Byte

/-- `other` is a call of `tty_write` on another line, which shares the flag. -/
inductive SerialEvent
  | enter (p : Fin 64) (buf : List Byte)
  | sleep (p : Fin 64)
  | start (p : Fin 64)
  | resume (p : Fin 64)
  | turn (p : Fin 64)
  | write (p : Fin 64)
  | leave (p : Fin 64)
  | signal (p : Fin 64)
  | other (crFlag : Bool)
  | transmit

namespace SerialLine

variable (s : SerialLine)

def setCall (p : Fin 64) (c : Option WriteCall) : SerialLine := { s with call := Function.update s.call p c }

def wake : Option (Fin 64) → SerialLine
  | none => s
  | some p => { s with running := Function.update s.running p true }

/-- To sleep in `interruptible_sleep_on(&queue->proc_list)`. -/
def sleepOn (p : Fin 64) (c : WriteCall) : SerialLine :=
  { s.setCall p (some { c with stage := .asleep }) with
    procList := some p
    tmp := Function.update s.tmp p s.procList
    running := Function.update s.running p false }

/-- The process leaves `interruptible_sleep_on` at the head of the list, and `sleep_if_full` when there is room. -/
def awake (p : Fin 64) (c : WriteCall) : SerialLine :=
  let s' := { s with procList := none }.wake (s.tmp p)
  if s'.signal p then s'.setCall p (some { c with stage := .interrupted })
  else if left s'.writeQ < 128 then s'.sleepOn p c
  else { s'.setCall p (some { c with stage := .ready }) with filling := some p }

/-- Behind another one in the list it wakes that one and sleeps again. -/
def behind (p q : Fin 64) : SerialLine :=
  { s.wake (some q) with running := Function.update (s.wake (some q)).running p false }

def turn (o : OutputFlags) (p : Fin 64) (c : WriteCall) (b : Byte) (bs : List Byte) : SerialLine :=
  let w := Filling.turn o b bs ⟨s.writeQ, s.crFlag, c, false⟩
  { s with
    crFlag := w.crFlag
    writeQ := w.queue
    call := Function.update s.call p (some w.call)
    put := s.put ++ w.call.sent.drop c.sent.length }

def rsWrite : SerialLine := if s.writeQ.head ≠ s.writeQ.tail then { s with ier := s.ier ||| 0x02 } else s

def writeBufferEmpty : SerialLine := { s.wake s.procList with ier := s.ier &&& 0x0d }

def writeChar : SerialLine :=
  if s.writeQ.size ttyBufSize = 0 then s.writeBufferEmpty
  else
    let s' := if startup < s.writeQ.size ttyBufSize then s else s.wake s.procList
    let s' := { s' with
      writeQ := s.writeQ.pop ttyBufSize
      sent := s.sent ++ [s.writeQ.cell s.writeQ.tail] }
    if s'.writeQ.head = s'.writeQ.tail then s'.writeBufferEmpty else s'

end SerialLine

/-- Interrupts come between any two turns of the inner loop. -/
inductive SerialStep (o : OutputFlags) : SerialLine → SerialEvent → SerialLine → Prop
  | enter {s p buf} : s.call p = none → SerialStep o s (.enter p buf)
      (s.setCall p (some ⟨1, buf, if buf = [] then .returned else .ready, buf, [], [], false⟩))
  | sleep {s p c} : s.filling = none → s.call p = some c → c.stage = .ready → left s.writeQ = 0 → s.signal p = false →
      SerialStep o s (.sleep p) (s.sleepOn p c)
  | start {s p c} : s.filling = none → s.call p = some c → c.stage = .ready → left s.writeQ ≠ 0 → s.signal p = false →
      SerialStep o s (.start p) { s with filling := some p }
  | behind {s p q c} : s.filling = none → s.call p = some c → c.stage = .asleep → s.running p = true →
      s.procList = some q → q ≠ p → SerialStep o s (.resume p) (s.behind p q)
  | awake {s p c} : s.filling = none → s.call p = some c → c.stage = .asleep → s.running p = true →
      (∀ q, s.procList = some q → q = p) → SerialStep o s (.resume p) (s.awake p c)
  | turn {s p c b bs} : s.filling = some p → s.call p = some c → c.buf = b :: bs → left s.writeQ ≠ 0 →
      SerialStep o s (.turn p) (s.turn o p c b bs)
  | write {s p c} : s.filling = some p → s.call p = some c → c.buf = [] ∨ left s.writeQ = 0 →
      SerialStep o s (.write p)
        { s.rsWrite.setCall p (some { c with stage := if c.buf = [] then .returned else .ready }) with filling := none }
  | interrupted {s p c} : s.filling = none → s.call p = some c → c.stage = .ready → s.signal p = true →
      SerialStep o s (.start p) (s.setCall p (some { c with stage := .interrupted }))
  | leave {s p c} : s.call p = some c → c.stage = .returned ∨ c.stage = .interrupted →
      SerialStep o s (.leave p) (s.setCall p none)
  | signal {s p} : SerialStep o s (.signal p)
      { s with signal := Function.update s.signal p true, running := Function.update s.running p true }
  | other {s crFlag} : SerialStep o s (.other crFlag) { s with crFlag := crFlag }
  | transmit {s} : s.ier &&& 0x02 ≠ 0 → SerialStep o s .transmit s.writeChar

/-- As `init` leaves the line. -/
def serialSystem (o : OutputFlags) : System SerialLine SerialEvent where
  init s := s.writeQ.Inside ttyBufSize ∧ s.writeQ.head = s.writeQ.tail ∧ s.procList = none ∧ s.ier = 0x0d ∧
    s.filling = none ∧ (∀ p, s.call p = none) ∧ s.put = [] ∧ s.sent = []
  step := SerialStep o

section Sending

variable {o : OutputFlags} {s s' : SerialLine} {e : SerialEvent} {p q : Fin 64} {c : WriteCall} {x : Option (Fin 64)}

namespace SerialLine

@[simp] lemma wake_writeQ : (s.wake x).writeQ = s.writeQ := by cases x <;> rfl

@[simp] lemma wake_procList : (s.wake x).procList = s.procList := by cases x <;> rfl

@[simp] lemma wake_ier : (s.wake x).ier = s.ier := by cases x <;> rfl

@[simp] lemma wake_filling : (s.wake x).filling = s.filling := by cases x <;> rfl

@[simp] lemma wake_put : (s.wake x).put = s.put := by cases x <;> rfl

@[simp] lemma wake_sent : (s.wake x).sent = s.sent := by cases x <;> rfl

lemma running_of_wake (h : (s.wake x).running p = false) : s.running p = false ∧ x ≠ some p := by
  cases x with
  | none => exact ⟨h, by simp⟩
  | some q =>
    by_cases hq : p = q
    · subst hq
      simp [wake] at h
    · refine ⟨?_, fun heq => hq (Option.some.inj heq).symm⟩
      simpa [wake, hq] using h

/-- A turn puts one character. -/
lemma turn_puts (c : WriteCall) (b : Byte) (bs : List Byte) :
    ∃ d, (s.turn o p c b bs).writeQ = s.writeQ.push ttyBufSize d ∧ (s.turn o p c b bs).put = s.put ++ [d] := by
  unfold turn Filling.turn
  dsimp only
  split_ifs
  all_goals exact ⟨_, rfl, by simp [Filling.put, Filling.advance]⟩

/-- What was put has been sent or waits, in order; while something waits the transmitter interrupts, unless a call has
yet to see to it, and the process at the head of the list has been woken once there was room. -/
structure Sending (s : SerialLine) : Prop where
  inside : s.writeQ.Inside ttyBufSize
  order : s.sent ++ s.writeQ.held ttyBufSize = s.put
  enabled : s.ier &&& 0x0d = 0x0d
  active : s.writeQ.head ≠ s.writeQ.tail → s.ier &&& 0x02 ≠ 0 ∨ s.filling ≠ none
  waiting : ∀ p, s.procList = some p → s.running p = false → startup ≤ s.writeQ.size ttyBufSize

/-- Nothing that the invariant is about changes, unless a process is woken. -/
lemma Sending.congr (h : s.Sending) (hq : s'.writeQ = s.writeQ) (hput : s'.put = s.put) (hsent : s'.sent = s.sent)
    (hier : s'.ier = s.ier) (hfilling : s.filling ≠ none → s'.filling ≠ none)
    (hwait : ∀ p, s'.procList = some p → s'.running p = false → s.procList = some p ∧ s.running p = false) :
    s'.Sending := by
  refine ⟨?_, ?_, ?_, ?_, ?_⟩
  · rw [hq]
    exact h.inside
  · rw [hq, hput, hsent]
    exact h.order
  · rw [hier]
    exact h.enabled
  · rw [hq, hier]
    exact fun hne => (h.active hne).imp_right hfilling
  · intro p hlist hrun
    rw [hq]
    exact h.waiting p (hwait p hlist hrun).1 (hwait p hlist hrun).2

lemma Sending.setCall (h : s.Sending) (p : Fin 64) (c : Option WriteCall) : (s.setCall p c).Sending :=
  h.congr rfl rfl rfl rfl id fun _ hlist hrun => ⟨hlist, hrun⟩

lemma Sending.wake (h : s.Sending) (x : Option (Fin 64)) : (s.wake x).Sending :=
  h.congr (by simp) (by simp) (by simp) (by simp) (by simp) fun p hlist hrun =>
    ⟨by simpa using hlist, (running_of_wake hrun).1⟩

lemma Sending.sleepOn (h : s.Sending) (hleft : left s.writeQ < 128) (p : Fin 64) (c : WriteCall) :
    (s.sleepOn p c).Sending := by
  refine ⟨h.inside, h.order, h.enabled, h.active, fun q hlist hrun => ?_⟩
  rw [left_eq h.inside] at hleft
  change 256 ≤ s.writeQ.size ttyBufSize
  rw [show ttyBufSize = 1024 from rfl] at hleft ⊢
  omega

lemma Sending.unlist (h : s.Sending) : ({ s with procList := none } : SerialLine).Sending :=
  h.congr rfl rfl rfl rfl id fun _ hlist _ => by cases hlist

lemma Sending.fill (h : s.Sending) (p : Fin 64) : ({ s with filling := some p } : SerialLine).Sending :=
  h.congr rfl rfl rfl rfl (fun _ => by simp) fun _ hlist hrun => ⟨hlist, hrun⟩

lemma Sending.awake (h : s.Sending) (p : Fin 64) (c : WriteCall) : (s.awake p c).Sending := by
  have hwake := h.unlist.wake (s.tmp p)
  unfold SerialLine.awake
  dsimp only
  split_ifs with hsignal hleft
  · exact hwake.setCall p _
  · exact hwake.sleepOn hleft p c
  · exact (hwake.setCall p _).fill p

lemma Sending.behind (h : s.Sending) (hlist : s.procList = some q) (hq : q ≠ p) : (s.behind p q).Sending := by
  refine (h.wake (some q)).congr rfl rfl rfl rfl id fun r hlist' hrun => ?_
  have hr : r = q := Option.some.inj (hlist'.symm.trans hlist)
  subst hr
  exact ⟨hlist', by simpa [SerialLine.behind, hq] using hrun⟩

lemma Sending.turn (h : s.Sending) (hleft : left s.writeQ ≠ 0) (hfilling : s.filling = some p) (b : Byte)
    (bs : List Byte) : (s.turn o p c b bs).Sending := by
  obtain ⟨d, hq, hput⟩ := turn_puts (s := s) (o := o) (p := p) c b bs
  rw [left_eq h.inside] at hleft
  have hfull : s.writeQ.size ttyBufSize ≠ ttyBufSize - 1 := by omega
  refine ⟨?_, ?_, h.enabled, fun _ => Or.inr ?_, fun p hlist hrun => ?_⟩
  · rw [hq]
    exact h.inside.push d
  · change s.sent ++ _ = _
    rw [hq, hput, h.inside.held_push hfull, ← List.append_assoc, h.order]
  · change s.filling ≠ none
    rw [hfilling]
    simp
  · rw [hq, h.inside.size_push hfull]
    exact (h.waiting p hlist hrun).trans (Nat.le_succ _)

lemma rsWrite_bits : ∀ ier : Byte,
    ier &&& 0x0d = 0x0d → (ier ||| 0x02) &&& 0x0d = 0x0d ∧ (ier ||| 0x02) &&& 0x02 ≠ 0 := by
  intro ier h
  constructor
  · rw [BitVec.and_or_distrib_right, h]
    rfl
  · intro hzero
    have hbit := congrArg (fun x => x.getLsbD 1) hzero
    simp at hbit

lemma Sending.write (h : s.Sending) : ({ s.rsWrite with filling := none } : SerialLine).Sending := by
  unfold SerialLine.rsWrite
  split_ifs with hne
  · have hbits := rsWrite_bits _ h.enabled
    exact ⟨h.inside, h.order, hbits.1, fun _ => Or.inl hbits.2, h.waiting⟩
  · exact ⟨h.inside, h.order, h.enabled, fun h => absurd h hne, h.waiting⟩

lemma Sending.bufferEmpty (h : s.Sending) (hempty : s.writeQ.head = s.writeQ.tail) : s.writeBufferEmpty.Sending := by
  have hwake := h.wake s.procList
  refine ⟨hwake.inside, hwake.order, ?_, fun hne => ?_, hwake.waiting⟩
  · change (s.ier &&& 0x0d) &&& 0x0d = 0x0d
    rw [h.enabled]
    rfl
  · have heq : (s.wake s.procList).writeQ.head = (s.wake s.procList).writeQ.tail := by simpa using hempty
    exact absurd heq hne

/-- The character at the tail goes out, and below the limit the process at the head of the list is woken. -/
def sendChar (s : SerialLine) : SerialLine :=
  { (if startup < s.writeQ.size ttyBufSize then s else s.wake s.procList) with
    writeQ := s.writeQ.pop ttyBufSize
    sent := s.sent ++ [s.writeQ.cell s.writeQ.tail] }

lemma Sending.sendChar (h : s.Sending) (hne : s.writeQ.head ≠ s.writeQ.tail) (hier : s.ier &&& 0x02 ≠ 0) :
    s.sendChar.Sending := by
  have hsize := h.inside.size_pop hne
  have hsent : (s.sent ++ [s.writeQ.cell s.writeQ.tail]) ++ (s.writeQ.pop ttyBufSize).held ttyBufSize = s.put := by
    rw [List.append_assoc, List.singleton_append, ← h.inside.held_pop hne]
    exact h.order
  unfold SerialLine.sendChar
  by_cases hroom : startup < s.writeQ.size ttyBufSize
  · rw [if_pos hroom]
    refine ⟨h.inside.pop, hsent, h.enabled, fun _ => Or.inl hier, fun p _ _ => ?_⟩
    change startup ≤ (s.writeQ.pop ttyBufSize).size ttyBufSize
    omega
  · rw [if_neg hroom]
    refine ⟨h.inside.pop, by simpa using hsent, by simpa using h.enabled, fun _ => Or.inl (by simpa using hier), ?_⟩
    intro p hlist hrun
    rw [wake_procList] at hlist
    exact absurd hlist (running_of_wake hrun).2

lemma writeChar_of_ne (h : s.writeQ.Inside ttyBufSize) (hne : s.writeQ.head ≠ s.writeQ.tail) :
    s.writeChar =
      if s.sendChar.writeQ.head = s.sendChar.writeQ.tail then s.sendChar.writeBufferEmpty else s.sendChar := by
  rw [writeChar, if_neg (mt h.size_eq_zero.mp hne)]
  rfl

lemma Sending.writeChar (h : s.Sending) (hier : s.ier &&& 0x02 ≠ 0) : s.writeChar.Sending := by
  by_cases hne : s.writeQ.head = s.writeQ.tail
  · rw [SerialLine.writeChar, if_pos (h.inside.size_eq_zero.mpr hne)]
    exact h.bufferEmpty hne
  · rw [writeChar_of_ne h.inside hne]
    split_ifs with hlast
    · exact (h.sendChar hne hier).bufferEmpty hlast
    · exact h.sendChar hne hier

lemma Sending.step (h : s.Sending) (hs : SerialStep o s e s') : s'.Sending := by
  cases hs with
  | enter _ => exact h.setCall _ _
  | sleep _ _ _ hleft _ => exact h.sleepOn (by omega) _ _
  | start _ _ _ _ _ => exact h.fill _
  | behind _ _ _ _ hlist hq => exact h.behind hlist hq
  | awake _ _ _ _ _ => exact h.awake _ _
  | turn hfilling _ _ hleft => exact h.turn hleft hfilling _ _
  | write _ _ _ => exact h.write.setCall _ _
  | interrupted _ _ _ _ => exact h.setCall _ _
  | leave _ _ => exact h.setCall _ _
  | @signal p =>
    refine h.congr rfl rfl rfl rfl id fun q hlist hrun => ⟨hlist, ?_⟩
    by_cases hq : q = p
    · subst hq
      simp at hrun
    · simpa [hq] using hrun
  | other => exact h.congr rfl rfl rfl rfl id fun _ hlist hrun => ⟨hlist, hrun⟩
  | transmit hier => exact h.writeChar hier

lemma sending_of_init (h : (serialSystem o).init s) : s.Sending := by
  obtain ⟨hinside, hempty, hlist, hier, _, _, hput, hsent⟩ := h
  refine ⟨hinside, ?_, ?_, fun hne => absurd hempty hne, fun p hp => ?_⟩
  · rw [hsent, hput, hinside.held_eq_nil hempty]
    rfl
  · rw [hier]
    rfl
  · rw [hlist] at hp
    cases hp

lemma sending_of_reach (h : (serialSystem o).Reach (fun _ _ => True) s) : s.Sending :=
  System.Reach.invariant (M := serialSystem o) (fun _ => sending_of_init) (fun _ _ _ hI _ hstep => hI.step hstep) h

lemma sendChar_procList : s.sendChar.procList = s.procList := by
  unfold sendChar
  split_ifs
  · rfl
  · exact wake_procList

lemma sendChar_ier : s.sendChar.ier = s.ier := by
  unfold sendChar
  split_ifs
  · rfl
  · exact wake_ier

lemma sendChar_put : s.sendChar.put = s.put := by
  unfold sendChar
  split_ifs
  · rfl
  · exact wake_put

lemma Sending.drain {n : ℕ} (h : s.Sending) (hsize : s.writeQ.size ttyBufSize = n + 1) (hier : s.ier &&& 0x02 ≠ 0) :
    ∃ s', (serialSystem o).Trace (fun _ _ => True) s (List.replicate (n + 1) .transmit) s' ∧ s'.sent = s.put ∧
      s'.writeQ.head = s'.writeQ.tail ∧ s'.ier &&& 0x02 = 0 ∧ ∀ p, s.procList = some p → s'.running p = true := by
  induction n generalizing s with
  | zero =>
    have hne : s.writeQ.head ≠ s.writeQ.tail := fun heq => by
      rw [h.inside.size_eq_zero.mpr heq] at hsize
      cases hsize
    have hpop := h.inside.size_pop hne
    have hlast : s.sendChar.writeQ.head = s.sendChar.writeQ.tail := h.inside.pop.size_eq_zero.mp (by omega)
    have hsend := h.sendChar hne hier
    have hstep : SerialStep o s .transmit s.writeChar := .transmit hier
    rw [writeChar_of_ne h.inside hne, if_pos hlast] at hstep
    refine ⟨_, .single trivial hstep, ?_, ?_, ?_, fun p hlist => ?_⟩
    · have horder := hsend.order
      rw [hsend.inside.held_eq_nil hlast, List.append_nil, sendChar_put] at horder
      rw [← horder]
      exact wake_sent
    · have hq : s.sendChar.writeBufferEmpty.writeQ = s.sendChar.writeQ := wake_writeQ
      rw [hq]
      exact hlast
    · change (s.sendChar.ier &&& 0x0d) &&& 0x02 = 0
      rw [hsend.enabled]
      rfl
    · change (s.sendChar.wake s.sendChar.procList).running p = true
      rw [sendChar_procList, hlist]
      exact Function.update_self _ _ _
  | succ n ih =>
    have hne : s.writeQ.head ≠ s.writeQ.tail := fun heq => by
      rw [h.inside.size_eq_zero.mpr heq] at hsize
      cases hsize
    have hpop := h.inside.size_pop hne
    have hsend := h.sendChar hne hier
    have hmore : ¬s.sendChar.writeQ.head = s.sendChar.writeQ.tail := fun heq => by
      have hzero := hsend.inside.size_eq_zero.mpr heq
      change (s.writeQ.pop ttyBufSize).size ttyBufSize = 0 at hzero
      omega
    have hstep : SerialStep o s .transmit s.writeChar := .transmit hier
    rw [writeChar_of_ne h.inside hne, if_neg hmore] at hstep
    obtain ⟨s', htrace, hsent, hempty, hoff, hwoken⟩ := ih hsend (by
      change (s.writeQ.pop ttyBufSize).size ttyBufSize = n + 1
      omega) (by rwa [sendChar_ier])
    refine ⟨s', ?_, hsent.trans sendChar_put, hempty, hoff, fun p hlist => hwoken p (sendChar_procList.trans hlist)⟩
    rw [List.replicate_succ, ← List.singleton_append]
    exact System.Trace.trans (.single trivial hstep) htrace

/-- From any state of a run in which no call is in its loop, as many interrupts as characters wait send them all; with
the last one the interrupt is turned off, and the head of the list has been woken. -/
theorem drained (h : (serialSystem o).Reach (fun _ _ => True) s) (hfilling : s.filling = none)
    (hne : s.writeQ.head ≠ s.writeQ.tail) :
    ∃ s', (serialSystem o).Trace (fun _ _ => True) s (List.replicate (s.writeQ.size ttyBufSize) .transmit) s' ∧
      s'.sent = s.put ∧ s'.writeQ.head = s'.writeQ.tail ∧ s'.ier &&& 0x02 = 0 ∧
      ∀ p, s.procList = some p → s'.running p = true := by
  have hs := sending_of_reach h
  have hier : s.ier &&& 0x02 ≠ 0 := (hs.active hne).resolve_right fun h => h hfilling
  obtain ⟨n, hn⟩ := Nat.exists_eq_succ_of_ne_zero (mt hs.inside.size_eq_zero.mp hne)
  rw [hn]
  exact hs.drain hn hier

section Examples

def plainFlags : OutputFlags := ⟨false, false, false, false, false, fun _ => false⟩

def bootSerial : SerialLine where
  crFlag := false
  writeQ := ⟨fun _ => 0, 0, 0⟩
  procList := none
  ier := 0x0d
  call _ := none
  filling := none
  tmp _ := none
  running _ := true
  signal _ := false
  put := []
  sent := []

lemma bootSerial_init : (serialSystem plainFlags).init bootSerial :=
  ⟨⟨by decide, by decide⟩, rfl, rfl, rfl, rfl, fun _ => rfl, rfl, rfl⟩

def letter : WriteCall := ⟨⟨1, by decide⟩, [65], .ready, [65], [], [], false⟩

/-- A call that is in its loop, and then with its character put. -/
def oneFilling : SerialLine := { bootSerial.setCall 0 (some letter) with filling := some 0 }

def oneWaiting : SerialLine :=
  { (oneFilling.turn plainFlags 0 letter 65 []).rsWrite.setCall 0
      (some { letter with buf := [], stage := .returned, done := [65], sent := [65] }) with filling := none }

lemma oneWaiting_reach : (serialSystem plainFlags).Reach (fun _ _ => True) oneWaiting := by
  have henter : SerialStep plainFlags bootSerial (.enter 0 [65]) (bootSerial.setCall 0 (some letter)) := .enter rfl
  have hstart : SerialStep plainFlags (bootSerial.setCall 0 (some letter)) (.start 0) oneFilling :=
    .start rfl rfl rfl (by decide) rfl
  have hturn : SerialStep plainFlags oneFilling (.turn 0) (oneFilling.turn plainFlags 0 letter 65 []) :=
    .turn rfl rfl rfl (by decide)
  have hwrite : SerialStep plainFlags (oneFilling.turn plainFlags 0 letter 65 []) (.write 0) oneWaiting :=
    .write (c := { letter with buf := [], done := [65], sent := [65] }) rfl rfl (Or.inl rfl)
  exact .next (.next (.next (.next (.start bootSerial_init) trivial henter) trivial hstart) trivial hturn)
    trivial hwrite

end Examples

theorem drained_letter : ∃ s', (serialSystem plainFlags).Trace (fun _ _ => True) oneWaiting
      (List.replicate (oneWaiting.writeQ.size ttyBufSize) .transmit) s' ∧ s'.sent = oneWaiting.put ∧
      s'.writeQ.head = s'.writeQ.tail ∧ s'.ier &&& 0x02 = 0 ∧ ∀ p, oneWaiting.procList = some p → s'.running p = true :=
  drained oneWaiting_reach rfl (by decide)

end SerialLine

end Sending

end Devos.Tty
