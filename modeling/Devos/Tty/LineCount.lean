import Devos.Tty.Consumed
import Devos.Library.Runs

/-! The count of the lines in the secondary queue: `copy_to_cooked` adds to it, `tty_read` takes from it, and a
reader waits for it. -/

namespace Devos.Tty

open Loops Runs

/-- `LEFT(queue)` -/
def left (q : Ring Byte) : ℕ := (q.tail + (ttyBufSize - q.head) + (ttyBufSize - 1)) % ttyBufSize

/-- A newline or the EOF character. -/
def endsLine (l : Line) (c : Byte) : Prop := c = 10 ∨ isChar c l.termios.veof

instance (l : Line) (c : Byte) : Decidable (endsLine l c) := inferInstanceAs (Decidable (_ ∨ _))

def linesIn (l : Line) (q : Ring Byte) : ℕ := (q.held ttyBufSize).countP fun c => endsLine l c

/-- What is left to do for a character when its echo is out. -/
inductive Pending
  | erase
  | put (c : Byte)

namespace Pending

def finish : Pending → TtyStruct → TtyStruct
  | erase => TtyStruct.unputSecondary
  | put c => (TtyStruct.putSecondary · c)

def echo (l : Line) (t : TtyStruct) : Pending → List Byte
  | erase => erasedEcho t.lastSecondary
  | put c => echoed l c

def endsLine (l : Line) : Pending → Prop
  | erase => False
  | put c => Tty.endsLine l c

instance (l : Line) : DecidablePred (endsLine l)
  | erase => inferInstanceAs (Decidable False)
  | put c => inferInstanceAs (Decidable (Tty.endsLine l c))

end Pending

/-- A turn of `copy_to_cooked` up to the echo. -/
def beginByte (l : Line) (c : Byte) (t : TtyStruct) : TtyStruct × Option Pending :=
  match mapped l c with
  | none => (t, none)
  | some c =>
    if l.termios.icanon ∧ isChar c l.termios.verase then (t, if lineStart l t then none else some .erase)
    else if l.termios.icanon ∧ isChar c l.termios.vstop then ({ t with stopped := true }, none)
    else if l.termios.icanon ∧ isChar c l.termios.vstart then ({ t with stopped := false }, none)
    else if ¬l.termios.isig ∧ isChar c l.termios.vintr then (t, none)
    else ({ t with data := if endsLine l c then (t.data + 1) % 2 ^ 32 else t.data }, some (.put c))

lemma copyByte_begin (l : Line) (write : TtyStruct → Except Fault TtyStruct) (c : Byte) (t : TtyStruct) :
    copyByte l write c t = match beginByte l c t with
      | (u, none) => .ok u
      | (u, some p) => (if l.termios.echo then echoWrite write (p.echo l t) u else .ok u).map p.finish := by
  unfold copyByte beginByte
  cases mapped l c with
  | none => rfl
  | some d =>
    have hdata : (if d = 10 ∨ isChar d l.termios.veof then { t with data := (t.data + 1) % 2 ^ 32 } else t) =
        { t with data := if endsLine l d then (t.data + 1) % 2 ^ 32 else t.data } := by
      by_cases hline : endsLine l d
      · rw [if_pos hline]
        exact if_pos hline
      · rw [if_neg hline]
        exact if_neg hline
    dsimp only
    rw [hdata]
    split_ifs <;> rfl

inductive ReadStage
  | waiting
  | copying
  | returned
deriving DecidableEq

/-- A call of `tty_read`: what it has put at `b - buf`, and how much it still wants. `minimum` is `VMIN` as the call
finds it. -/
structure Reader where
  nr : ℕ
  minimum : ℕ
  buf : List Byte
  stage : ReadStage

section Reading

variable (l : Line)

/-- The reader neither sleeps nor goes round. -/
def released (t : TtyStruct) : Prop :=
  ¬(t.secondary.head = t.secondary.tail ∨ l.termios.icanon ∧ t.data = 0 ∧ 20 < left t.secondary)

def Reader.start (nr minimum : ℕ) : Reader := ⟨nr, min minimum nr, [], if nr = 0 then .returned else .waiting⟩

/-- Behind the inner loop. -/
def Reader.leave (r : Reader) : Reader :=
  if r.nr = 0 ∨ (if l.termios.icanon then r.buf ≠ [] else r.minimum ≤ r.buf.length) then { r with stage := .returned }
  else { r with stage := .waiting }

/-- A turn of the inner loop. -/
def readByte (t : TtyStruct) (r : Reader) : TtyStruct × Reader :=
  let c := t.secondary.cell t.secondary.tail
  let t := { t with secondary := t.secondary.pop ttyBufSize }
  let t := if isChar c l.termios.veof ∨ c = 10 then { t with data := (t.data + (2 ^ 32 - 1)) % 2 ^ 32 } else t
  if isChar c l.termios.veof ∧ l.termios.icanon then (t, { r with stage := .returned })
  else
    let r := { r with buf := r.buf ++ [c], nr := r.nr - 1 }
    (t, if r.nr = 0 ∨ t.secondary.head = t.secondary.tail then r.leave l else r)

end Reading

def flush (q : Ring Byte) : Ring Byte := { q with head := q.tail }

def TtyStruct.flushes (t : TtyStruct) (input output : Bool) : TtyStruct :=
  { t with
    readQ := if input then flush t.readQ else t.readQ
    writeQ := if output then flush t.writeQ else t.writeQ }

/-- `set_termio` writes the first eight of the characters. -/
def Termios.setTermio (old new : Termios) : Termios := { new with vstart := old.vstart, vstop := old.vstop }

/-- A terminal with the turns of `copy_to_cooked` that have begun and with the calls of `tty_read`. A turn is still on
when `con_write`, which it has called for the echo, copies an answer of its own. -/
structure Terminal where
  tty : TtyStruct
  line : Line
  turns : List Pending
  reader : Fin 64 → Option Reader

/-- `output` is whatever goes into the write queue and from there to the device. -/
inductive LineEvent
  | key (c : Byte)
  | output (t : TtyStruct) (visible : Bool) (overlay : Overlay)
  | turn
  | finish
  | enter (i : Fin 64) (nr minimum : ℕ)
  | check (i : Fin 64)
  | read (i : Fin 64)
  | signal (i : Fin 64)
  | tcset (flushes : Bool) (new : Termios)
  | tcseta (flushes : Bool) (new : Termios)
  | tcflsh (input output : Bool)

/-- The input side is left alone. -/
structure TtyStruct.SameInput (t t' : TtyStruct) : Prop where
  readQ : t'.readQ = t.readQ
  secondary : t'.secondary = t.secondary
  data : t'.data = t.data
  stopped : t'.stopped = t.stopped

namespace Terminal

def put (s : Terminal) (i : Fin 64) (r : Reader) : Terminal := { s with reader := Function.update s.reader i (some r) }

def setTermios (s : Terminal) (flushes : Bool) (new : Termios) : Terminal :=
  { s with tty := s.tty.flushes flushes false, line := { s.line with termios := new } }

end Terminal

/-- Characters come in and are copied in interrupts too; all else waits until they are done. -/
inductive LineStep : Terminal → LineEvent → Terminal → Prop
  | key {s c} : LineStep s (.key c) { s with tty := s.tty.putRead c }
  | output {s t v o} (h : s.tty.SameInput t) :
    LineStep s (.output t v o) { s with tty := t, line := { s.line with visible := v, overlay := o } }
  | turn {s u p} (hne : s.tty.readQ.head ≠ s.tty.readQ.tail)
    (hroom : s.tty.secondary.size ttyBufSize ≠ ttyBufSize - 1)
    (h : beginByte s.line (s.tty.readQ.cell s.tty.readQ.tail) s.tty.getRead = (u, p)) :
    LineStep s .turn { s with tty := u, turns := p.toList ++ s.turns }
  | finish {s p ps} (h : s.turns = p :: ps) : LineStep s .finish { s with tty := p.finish s.tty, turns := ps }
  | enter {s i nr m} (hidle : s.turns = []) (h : s.reader i = none) :
    LineStep s (.enter i nr m) (s.put i (.start nr m))
  | check {s i r} (hidle : s.turns = []) (h : s.reader i = some r) (hstage : r.stage = .waiting)
    (hreleased : released s.line s.tty) : LineStep s (.check i) (s.put i { r with stage := .copying })
  | read {s i r t r'} (hidle : s.turns = []) (h : s.reader i = some r) (hstage : r.stage = .copying)
    (hbyte : readByte s.line s.tty r = (t, r')) : LineStep s (.read i) ({ s with tty := t }.put i r')
  | signal {s i r} (hidle : s.turns = []) (h : s.reader i = some r) (hstage : r.stage = .waiting) :
    LineStep s (.signal i) (s.put i { r with stage := .returned })
  | tcset {s f new} (hidle : s.turns = []) : LineStep s (.tcset f new) (s.setTermios f new)
  | tcseta {s f new} (hidle : s.turns = []) :
    LineStep s (.tcseta f new) (s.setTermios f (s.line.termios.setTermio new))
  | tcflsh {s i o} (hidle : s.turns = []) : LineStep s (.tcflsh i o) { s with tty := s.tty.flushes i o }

/-- A terminal as `tty_table` has it, with any settings. -/
structure Terminal.Fresh (s : Terminal) : Prop where
  inside : s.tty.secondary.Inside ttyBufSize
  empty : s.tty.secondary.head = s.tty.secondary.tail
  data : s.tty.data = 0
  turns : s.turns = []

def lineSystem : System Terminal LineEvent where
  init := Terminal.Fresh
  step := LineStep

/-- A new EOF character makes no difference to the number of lines; nothing that was copied during the echo has
filled the queue or ended in a line that would be erased; and nothing has erased the character that a reader has seen
in the queue. -/
def Terminal.Tame (s : Terminal) : LineEvent → Prop
  | .finish => match s.turns with
    | .erase :: _ => ¬lineStart s.line s.tty
    | .put _ :: _ => s.tty.secondary.size ttyBufSize ≠ ttyBufSize - 1
    | [] => True
  | .read _ => s.tty.secondary.head ≠ s.tty.secondary.tail
  | .tcset _ new => linesIn { s.line with termios := new } s.tty.secondary = linesIn s.line s.tty.secondary
  | .tcseta _ new =>
    linesIn { s.line with termios := s.line.termios.setTermio new } s.tty.secondary = linesIn s.line s.tty.secondary
  | _ => True

section Counting

variable {l : Line} {t u : TtyStruct} {q : Ring Byte} {s s' : Terminal} {c : Byte} {p : Option Pending}

lemma left_eq (h : q.Inside ttyBufSize) : left q = ttyBufSize - 1 - q.size ttyBufSize := by
  have h₁ := h.head_lt
  have h₂ := h.tail_lt
  rw [left, h.size_cases]
  dsimp only [ttyBufSize] at h₁ h₂ ⊢
  split_ifs <;> omega

lemma linesIn_le (l : Line) (q : Ring Byte) : linesIn l q < ttyBufSize := by
  have hlength := List.countP_le_length (p := fun c => endsLine l c) (l := q.held ttyBufSize)
  rw [Ring.length_held] at hlength
  exact Nat.lt_of_le_of_lt hlength (Ring.size_lt (Nat.succ_pos _) q)

lemma linesIn_push (h : q.Inside ttyBufSize) (hroom : q.size ttyBufSize ≠ ttyBufSize - 1) :
    linesIn l (q.push ttyBufSize c) = linesIn l q + if endsLine l c then 1 else 0 := by
  rw [linesIn, h.held_push hroom]
  simp [linesIn, List.countP_cons]

lemma linesIn_pop (h : q.Inside ttyBufSize) (hne : q.head ≠ q.tail) :
    linesIn l q = linesIn l (q.pop ttyBufSize) + if endsLine l (q.cell q.tail) then 1 else 0 := by
  rw [linesIn, h.held_pop hne]
  simp [linesIn, List.countP_cons]

lemma unput_inside (h : t.secondary.Inside ttyBufSize) : t.unputSecondary.secondary.Inside ttyBufSize := by
  unfold TtyStruct.unputSecondary
  exact ⟨Nat.mod_lt _ (Nat.succ_pos _), h.tail_lt⟩

lemma linesIn_unput (h : t.secondary.Inside ttyBufSize) (hstart : ¬lineStart l t) :
    linesIn l t.unputSecondary.secondary = linesIn l t.secondary := by
  unfold lineStart at hstart
  push Not at hstart
  obtain ⟨hne, hline, heof⟩ := hstart
  have hlast : ¬endsLine l t.lastSecondary := not_or.mpr ⟨hline, heof⟩
  have hback := h.held_back hne
  unfold TtyStruct.lastSecondary at hlast
  unfold linesIn TtyStruct.unputSecondary
  rw [hback, List.countP_append, List.countP_singleton, if_neg (by simpa only [decide_eq_true_eq] using hlast),
    Nat.add_zero]

/-- The lines in the queue and those on the way to it. -/
structure Terminal.Counted (s : Terminal) : Prop where
  inside : s.tty.secondary.Inside ttyBufSize
  data : s.tty.data = (linesIn s.line s.tty.secondary + s.turns.countP fun p => p.endsLine s.line) % 2 ^ 32

lemma beginByte_spec (h : beginByte l c t = (u, p)) : u.secondary = t.secondary ∧ (p = some .erase → ¬lineStart l t) ∧
    u.data = if ∃ q ∈ p, q.endsLine l then (t.data + 1) % 2 ^ 32 else t.data := by
  unfold beginByte at h
  cases hm : mapped l c with
  | none =>
    rw [hm] at h
    obtain ⟨rfl, rfl⟩ := Prod.mk.inj h
    simp
  | some d =>
    rw [hm] at h
    dsimp only at h
    split_ifs at h with h₁ h₂ h₃ h₄ h₅ h₆
    all_goals obtain ⟨rfl, rfl⟩ := Prod.mk.inj h
    all_goals simp_all [Pending.endsLine]

lemma readByte_spec {r r' : Reader} (h : readByte l t r = (u, r')) : u.secondary = t.secondary.pop ttyBufSize ∧
    u.data = if endsLine l (t.secondary.cell t.secondary.tail) then (t.data + (2 ^ 32 - 1)) % 2 ^ 32 else t.data := by
  have hend : isChar (t.secondary.cell t.secondary.tail) l.termios.veof ∨ t.secondary.cell t.secondary.tail = 10 ↔
      endsLine l (t.secondary.cell t.secondary.tail) := or_comm
  unfold readByte at h
  simp only [hend] at h
  by_cases hline : endsLine l (t.secondary.cell t.secondary.tail)
  · simp only [if_pos hline] at h ⊢
    split_ifs at h <;> cases h <;> simp
  · simp only [if_neg hline] at h ⊢
    split_ifs at h <;> cases h <;> simp

namespace Terminal

/-- What a step without characters for the secondary queue keeps. -/
lemma Counted.congr (h : s.Counted) (hinside : s'.tty.secondary.Inside ttyBufSize) (hdata : s'.tty.data = s.tty.data)
    (hturns : s'.turns.countP (fun p => p.endsLine s'.line) = s.turns.countP fun p => p.endsLine s.line)
    (hlines : linesIn s'.line s'.tty.secondary = linesIn s.line s.tty.secondary) : s'.Counted :=
  ⟨hinside, by rw [hdata, hlines, hturns, h.data]⟩

lemma Counted.turn (h : s.Counted)
    (hbegin : beginByte s.line c s.tty.getRead = (u, p)) :
    ({ s with tty := u, turns := p.toList ++ s.turns } : Terminal).Counted := by
  obtain ⟨hsecondary, _, hdata⟩ := beginByte_spec hbegin
  constructor
  · dsimp only
    rw [hsecondary]
    exact h.inside
  · have hcount := h.data
    have hsame : s.tty.getRead.data = s.tty.data := rfl
    have hqueue : s.tty.getRead.secondary = s.tty.secondary := rfl
    dsimp only
    rw [hdata, hsecondary, hsame, hqueue, List.countP_append]
    cases p with
    | none => simp [hcount]
    | some a =>
      by_cases ha : a.endsLine s.line
      · simp only [Option.mem_def, Option.some.injEq, exists_eq_left', ha, if_true, Option.toList_some,
          List.countP_singleton, decide_true]
        omega
      · simp [ha, hcount]

lemma Counted.finish {a : Pending} {ps : List Pending} (h : s.Counted) (hturns : s.turns = a :: ps)
    (hok : s.Tame .finish) : ({ s with tty := a.finish s.tty, turns := ps } : Terminal).Counted := by
  have hcount := h.data
  rw [hturns, List.countP_cons] at hcount
  unfold Tame at hok
  rw [hturns] at hok
  cases a with
  | erase =>
    refine ⟨unput_inside h.inside, ?_⟩
    have hdata : s.tty.unputSecondary.data = s.tty.data := by unfold TtyStruct.unputSecondary; rfl
    dsimp only [Pending.finish]
    have hno : ¬Pending.erase.endsLine s.line := id
    rw [linesIn_unput h.inside hok, hdata, hcount]
    simp [hno]
  | put d =>
    refine ⟨h.inside.push d, ?_⟩
    dsimp only [Pending.finish, TtyStruct.putSecondary]
    have hsame : (Pending.put d).endsLine s.line ↔ endsLine s.line d := Iff.rfl
    rw [linesIn_push h.inside hok, hcount]
    simp only [hsame, decide_eq_true_eq]
    split_ifs <;> omega

lemma Counted.read {i : Fin 64} {r r' : Reader} (h : s.Counted) (hidle : s.turns = [])
    (hne : s.tty.secondary.head ≠ s.tty.secondary.tail) (hbyte : readByte s.line s.tty r = (u, r')) :
    ({ s with tty := u }.put i r').Counted := by
  obtain ⟨hsecondary, hdata⟩ := readByte_spec hbyte
  constructor
  · change u.secondary.Inside _
    rw [hsecondary]
    exact h.inside.pop
  · have hcount := h.data
    have hbound := linesIn_le s.line (s.tty.secondary.pop ttyBufSize)
    rw [hidle, linesIn_pop h.inside hne] at hcount
    dsimp only [Terminal.put]
    rw [hdata, hsecondary, hidle]
    dsimp only [ttyBufSize, List.countP_nil] at hcount hbound ⊢
    split_ifs at hcount ⊢ <;> omega

theorem Counted.step {e : LineEvent} (h : s.Counted) (hok : s.Tame e) (hs : LineStep s e s') : s'.Counted := by
  have hnone : ∀ l : Line, s.turns = [] →
      s.turns.countP (fun p => p.endsLine l) = s.turns.countP fun p => p.endsLine s.line := by
    intro l hidle
    rw [hidle]
    rfl
  cases hs with
  | key => exact h.congr h.inside rfl rfl rfl
  | output hsame =>
    refine h.congr ?_ hsame.data rfl ?_
    · exact hsame.secondary ▸ h.inside
    · exact congrArg (linesIn s.line) hsame.secondary
  | turn _ _ hbegin => exact h.turn hbegin
  | finish hturns => exact h.finish hturns hok
  | enter => exact h.congr h.inside rfl rfl rfl
  | check => exact h.congr h.inside rfl rfl rfl
  | read hidle _ _ hbyte => exact h.read hidle hok hbyte
  | signal => exact h.congr h.inside rfl rfl rfl
  | tcset hidle => exact h.congr h.inside rfl (hnone _ hidle) hok
  | tcseta hidle => exact h.congr h.inside rfl (hnone _ hidle) hok
  | tcflsh => exact h.congr h.inside rfl rfl rfl

/-- What ends a turn is as the turn has found it, when nothing comes between. -/
lemma tame_finish {a : Pending} (hroom : s.tty.secondary.size ttyBufSize ≠ ttyBufSize - 1)
    (hbegin : beginByte s.line c s.tty.getRead = (u, some a)) :
    ({ s with tty := u, turns := a :: s.turns } : Terminal).Tame .finish := by
  obtain ⟨hsecondary, herase, _⟩ := beginByte_spec hbegin
  cases a with
  | erase =>
    have hstart := herase rfl
    unfold lineStart TtyStruct.lastSecondary at hstart
    change ¬(u.secondary.head = _ ∨ u.secondary.cell _ = _ ∨ isChar (u.secondary.cell _) _)
    rw [hsecondary]
    exact hstart
  | put d =>
    change u.secondary.size ttyBufSize ≠ _
    rw [hsecondary]
    exact hroom

lemma counted_of_reach (h : lineSystem.Reach Tame s) : s.Counted := by
  refine h.invariant ?_ fun _ _ _ hc hok hs => hc.step hok hs
  intro s hfresh
  refine ⟨hfresh.inside, ?_⟩
  rw [hfresh.data, hfresh.turns, linesIn, hfresh.inside.held_eq_nil hfresh.empty]
  rfl

end Terminal

end Counting

section Typing

variable {s : Terminal} {cs : List Byte} {c : Byte}

def quietLine : Line := { consoleLine with termios := { consoleLine.termios with echo := false } }

/-- What has been typed is in the secondary queue, and nothing else is under way. -/
structure Typed (s : Terminal) (cs : List Byte) : Prop where
  reach : lineSystem.Reach Terminal.Tame s
  line : s.line = quietLine
  turns : s.turns = []
  readQ : s.tty.readQ.Inside ttyBufSize
  empty : s.tty.readQ.head = s.tty.readQ.tail
  held : s.tty.secondary.held ttyBufSize = cs

lemma Typed.type (h : Typed s cs) (hroom : cs.length < ttyBufSize - 1)
    (hc : ∀ t, ∃ k, beginByte quietLine c t = ({ t with data := k }, some (.put c))) :
    ∃ s', Typed s' (cs ++ [c]) := by
  have hinside := (Terminal.counted_of_reach h.reach).inside
  have hsize : s.tty.secondary.size ttyBufSize ≠ ttyBufSize - 1 := by
    rw [← Ring.length_held, h.held]
    omega
  have hany : ∀ s : Terminal, s.Tame (.key c) ∧ s.Tame .turn := fun _ => ⟨trivial, trivial⟩
  have hkey : lineSystem.Reach Terminal.Tame { s with tty := s.tty.putRead c } := .next h.reach (hany s).1 LineStep.key
  have hne : (s.tty.putRead c).readQ.head ≠ (s.tty.putRead c).readQ.tail := by
    have hzero := h.readQ.size_eq_zero.mpr h.empty
    have hone := h.readQ.size_push (by rw [hzero]; decide) c
    intro heq
    have hnone := (h.readQ.push c).size_eq_zero.mpr heq
    omega
  have hcell : (s.tty.putRead c).readQ.cell (s.tty.putRead c).readQ.tail = c := by
    change Function.update s.tty.readQ.cell s.tty.readQ.head c s.tty.readQ.tail = c
    rw [← h.empty, Function.update_self]
  obtain ⟨k, hbegin⟩ := hc (s.tty.putRead c).getRead
  have hturn : lineSystem.Reach Terminal.Tame
      { s with tty := { (s.tty.putRead c).getRead with data := k }, turns := .put c :: s.turns } := by
    refine .next hkey (hany _).2 (LineStep.turn (s := { s with tty := s.tty.putRead c }) (p := some (.put c)) hne hsize ?_)
    change beginByte s.line ((s.tty.putRead c).readQ.cell (s.tty.putRead c).readQ.tail) _ = _
    rw [hcell, h.line]
    exact hbegin
  have hok : Terminal.Tame { s with
      tty := { (s.tty.putRead c).getRead with data := k }
      turns := .put c :: s.turns } .finish := hsize
  have hfinish := System.Reach.next hturn hok (LineStep.finish rfl)
  refine ⟨_, hfinish, h.line, h.turns, (h.readQ.push c).pop, ?_, ?_⟩
  · change (s.tty.readQ.head + 1) % ttyBufSize = (s.tty.readQ.tail + 1) % ttyBufSize
    rw [h.empty]
  · change (s.tty.secondary.push ttyBufSize c).held ttyBufSize = _
    rw [hinside.held_push hsize, h.held]

end Typing

section Calls

variable {l : Line} {t r : TtyStruct} {s s' s'' : Terminal} {write : TtyStruct → Except Fault TtyStruct} {e : LineEvent}

/-- There is a run from one terminal to the other. -/
def Leads (s s' : Terminal) : Prop := ∃ es, lineSystem.Trace (fun _ _ => True) s es s'

lemma Leads.refl (s : Terminal) : Leads s s := ⟨[], .nil⟩

lemma Leads.step (h : LineStep s e s') : Leads s s' := ⟨[e], .single trivial h⟩

lemma Leads.trans (h : Leads s s') (h' : Leads s' s'') : Leads s s'' := by
  obtain ⟨es, hes⟩ := h
  obtain ⟨es', hes'⟩ := h'
  exact ⟨es ++ es', System.Trace.trans hes hes'⟩

/-- What `f` does to a terminal is a run of it. -/
def Follows (l : Line) (f : TtyStruct → Except Fault TtyStruct) : Prop :=
  ∀ s r, s.line = l → f s.tty = .ok r → Leads s { s with tty := r }

lemma leads_output (h : s.tty.SameInput t) : Leads s { s with tty := t } :=
  .step (LineStep.output (v := s.line.visible) (o := s.line.overlay) h)

lemma leads_keys (cs : List Byte) (s : Terminal) : Leads s { s with tty := cs.foldl TtyStruct.putRead s.tty } := by
  induction cs generalizing s with
  | nil => exact .refl s
  | cons c cs ih => exact (Leads.step LineStep.key).trans (ih { s with tty := s.tty.putRead c })

lemma follows_copyByte (hw : Follows l write) (hl : s.line = l) (hne : s.tty.readQ.head ≠ s.tty.readQ.tail)
    (hroom : s.tty.secondary.size ttyBufSize ≠ ttyBufSize - 1)
    (hr : copyByte l write (s.tty.readQ.cell s.tty.readQ.tail) s.tty.getRead = .ok r) : Leads s { s with tty := r } := by
  subst hl
  rw [copyByte_begin] at hr
  cases hbegin : beginByte s.line (s.tty.readQ.cell s.tty.readQ.tail) s.tty.getRead with
  | mk u p =>
    have hturn := Leads.step (LineStep.turn hne hroom hbegin)
    rw [hbegin] at hr
    cases p with
    | none =>
      obtain rfl := Except.ok.inj hr
      exact hturn
    | some a =>
      obtain ⟨v, hv, rfl⟩ := map_eq_ok hr
      have hecho : Leads { s with tty := u, turns := a :: s.turns } { s with tty := v, turns := a :: s.turns } := by
        split_ifs at hv
        · have hput := leads_output (s := { s with tty := u, turns := a :: s.turns })
            (t := (a.echo s.line s.tty.getRead).foldl TtyStruct.putWrite u) (by rw [putWrites_eq]; exact ⟨rfl, rfl, rfl, rfl⟩)
          exact hput.trans (hw { s with
            tty := (a.echo s.line s.tty.getRead).foldl TtyStruct.putWrite u
            turns := a :: s.turns } v rfl hv)
        · obtain rfl := Except.ok.inj hv
          exact .refl _
      have hfinish := Leads.step (LineStep.finish (s := { s with tty := v, turns := a :: s.turns }) rfl)
      exact (hturn.trans hecho).trans hfinish

lemma follows_copyToCooked (hw : Follows l write) (m : ℕ) : Follows l (copyToCooked l write m) := by
  induction m with
  | zero => exact fun _ _ _ hr => by cases hr
  | succ m ih =>
    intro s r hl hr
    rw [copyToCooked] at hr
    split_ifs at hr with hexit
    · obtain rfl := Except.ok.inj hr
      exact .refl s
    · obtain ⟨hne, hroom⟩ := not_or.mp hexit
      obtain ⟨u, hu, hr⟩ := bind_eq_ok hr
      exact (follows_copyByte hw hl hne hroom hu).trans (ih { s with tty := u } r hl hr)

lemma follows_conLoop (hw : Follows l write) (n nr : ℕ) : Follows l (conLoop l write n nr) := by
  induction nr with
  | zero =>
    intro s r _ hr
    obtain rfl := Except.ok.inj hr
    exact .refl s
  | succ nr ih =>
    intro s r hl hr
    obtain ⟨u, hu, hr⟩ := bind_eq_ok hr
    obtain ⟨v, hv, hu⟩ := bind_eq_ok hu
    obtain ⟨c, _, rfl⟩ := conTake_ok hv
    have htake := leads_output (s := s) (t := s.tty.getWrite c) ⟨rfl, rfl, rfl, rfl⟩
    have hanswer : Leads { s with tty := s.tty.getWrite c } { s with tty := u } := by
      split_ifs at hu
      · have hkeys := leads_keys response { s with tty := s.tty.getWrite c }
        exact hkeys.trans (follows_copyToCooked hw n
          { s with tty := response.foldl TtyStruct.putRead (s.tty.getWrite c) } u hl hu)
      · obtain rfl := Except.ok.inj hu
        exact .refl _
    exact (htake.trans hanswer).trans (ih { s with tty := u } r hl hr)

lemma follows_conWrite (l : Line) (n : ℕ) : Follows l (conWrite l n) := by
  induction n with
  | zero => exact fun _ _ _ hr => by cases hr
  | succ n ih => exact fun s r hl hr => follows_conLoop ih n (s.tty.writeQ.size ttyBufSize) s r hl hr

/-- A call of `copy_to_cooked` on a console, with all that its echo copies, is a run of turns; and so is one on a
serial line, where `rs_write` leaves the queues alone. -/
theorem copyToCooked_turns (s : Terminal) (m n : ℕ) :
    (∀ r, copyToCooked s.line (conWrite s.line n) m s.tty = .ok r → Leads s { s with tty := r }) ∧
      ∀ r, copyToCooked s.line .ok m s.tty = .ok r → Leads s { s with tty := r } := by
  have hserial : Follows s.line .ok := by
    intro s' r _ hr
    obtain rfl := Except.ok.inj hr
    exact .refl s'
  constructor
  · exact fun r hr => follows_copyToCooked (follows_conWrite s.line n) m s r rfl hr
  · exact fun r hr => follows_copyToCooked hserial m s r rfl hr

end Calls

end Devos.Tty
