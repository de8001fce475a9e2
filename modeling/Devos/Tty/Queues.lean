import Devos.Tty.ScreenBounds
import Devos.Library.Ring

/-! The queues of a terminal: the console takes its output from one of them, and while it does, its
answers go through another and their echo comes back to the first. -/

namespace Devos.Tty

abbrev ttyBufSize : ℕ := 1024

/-- The flags and characters of `struct termios` that the input path looks at. -/
structure Termios where
  icrnl : Bool
  igncr : Bool
  inlcr : Bool
  iuclc : Bool
  icanon : Bool
  isig : Bool
  echo : Bool
  echoctl : Bool
  vintr : Byte
  veof : Byte
  verase : Byte
  vstart : Byte
  vstop : Byte

/-- What stays as it is during a call of `con_write`. `upperBefore` is what `isupper` finds in front of
its table, for a character below -1. -/
structure Line where
  termios : Termios
  visible : Bool
  overlay : Overlay
  upperBefore : Byte → Bool

/-- The queues and the console. The last three are a record of the run: what was taken from the write
queue, what was put into it, and if it was empty when something was taken. -/
structure TtyStruct where
  readQ : Ring Byte
  writeQ : Ring Byte
  secondary : Ring Byte
  data : ℕ
  stopped : Bool
  console : Console
  took : List Byte
  put : List Byte
  starved : Bool

def response : List Byte := [27, 91, 63, 49, 59, 50, 99]

def Line.settings (l : Line) : Settings := ⟨l.visible, l.termios.verase, l.overlay⟩

/-- A `signed char` compared with a character of `c_cc`. -/
def isChar (c cc : Byte) : Prop := c.toInt = cc.toNat

instance (c cc : Byte) : Decidable (isChar c cc) := inferInstanceAs (Decidable (_ = _))

def isupper (l : Line) (c : Byte) : Bool :=
  if -1 ≤ c.toInt then 65 ≤ c.toInt ∧ c.toInt ≤ 90 else l.upperBefore c

/-- `'a'+'A'` is what it adds. -/
def tolower (l : Line) (c : Byte) : Byte := if isupper l c then c + (97 + 65) else c

namespace TtyStruct

def getRead (t : TtyStruct) : TtyStruct := { t with readQ := t.readQ.pop ttyBufSize }

def putRead (t : TtyStruct) (c : Byte) : TtyStruct := { t with readQ := t.readQ.push ttyBufSize c }

def putWrite (t : TtyStruct) (c : Byte) : TtyStruct := { t with writeQ := t.writeQ.push ttyBufSize c, put := t.put ++ [c] }

/-- `GETCH(tty->write_q,c)`; the console is then `s`. -/
def getWrite (t : TtyStruct) (s : Console) : TtyStruct :=
  { t with
    writeQ := t.writeQ.pop ttyBufSize
    console := s
    took := t.took ++ [t.writeQ.cell t.writeQ.tail]
    starved := t.starved || t.writeQ.head == t.writeQ.tail }

def putSecondary (t : TtyStruct) (c : Byte) : TtyStruct := { t with secondary := t.secondary.push ttyBufSize c }

/-- `DEC(secondary.head)` -/
def unputSecondary (t : TtyStruct) : TtyStruct :=
  { t with secondary := { t.secondary with head := (t.secondary.head + (ttyBufSize - 1)) % ttyBufSize } }

def lastSecondary (t : TtyStruct) : Byte := t.secondary.cell ((t.secondary.head + (ttyBufSize - 1)) % ttyBufSize)

end TtyStruct

section Cooking

variable (l : Line)

/-- A character of the read queue with CR, NL and upper case turned as the flags say, `none` if that drops it. -/
def mapped (c : Byte) : Option Byte :=
  let lower := fun c => if l.termios.iuclc then tolower l c else c
  if c = 13 then if l.termios.icrnl then some (lower 10) else if l.termios.igncr then none else some (lower 13)
  else if c = 10 ∧ l.termios.inlcr then some (lower 13)
  else some (lower c)

/-- What is put into the write queue for a character. -/
def echoed (c : Byte) : List Byte :=
  if c = 10 then [10, 13]
  else if c.toInt < 32 then if l.termios.echoctl then [94, c + 64] else []
  else [c]

def erasedEcho (c : Byte) : List Byte := if c.toInt < 32 then [127, 127] else [127]

/-- Nothing to erase in the secondary queue. -/
def lineStart (t : TtyStruct) : Prop :=
  t.secondary.head = t.secondary.tail ∨ t.lastSecondary = 10 ∨ isChar t.lastSecondary l.termios.veof

instance (t : TtyStruct) : Decidable (lineStart l t) := inferInstanceAs (Decidable (_ ∨ _ ∨ _))

variable (write : TtyStruct → Except Fault TtyStruct)

/-- `PUTCH` for each of the characters, then `tty->write(tty)`. -/
def echoWrite (cs : List Byte) (t : TtyStruct) : Except Fault TtyStruct := write (cs.foldl TtyStruct.putWrite t)

/-- One turn of the loop of `copy_to_cooked`, `c` as it comes out of the read queue. `tty_intr` sends signals
and leaves the queues alone. -/
def copyByte (c : Byte) (t : TtyStruct) : Except Fault TtyStruct :=
  match mapped l c with
  | none => .ok t
  | some c =>
    if l.termios.icanon ∧ isChar c l.termios.verase then
      if lineStart l t then .ok t
      else (if l.termios.echo then echoWrite write (erasedEcho t.lastSecondary) t else .ok t).map TtyStruct.unputSecondary
    else if l.termios.icanon ∧ isChar c l.termios.vstop then .ok { t with stopped := true }
    else if l.termios.icanon ∧ isChar c l.termios.vstart then .ok { t with stopped := false }
    else if ¬l.termios.isig ∧ isChar c l.termios.vintr then .ok t
    else
      let t := if c = 10 ∨ isChar c l.termios.veof then { t with data := (t.data + 1) % 2 ^ 32 } else t
      (if l.termios.echo then echoWrite write (echoed l c) t else .ok t).map (TtyStruct.putSecondary · c)

/-- `copy_to_cooked`, for `n` turns at most. -/
def copyToCooked : ℕ → TtyStruct → Except Fault TtyStruct
  | 0, _ => .error .hang
  | n + 1, t =>
    if t.readQ.head = t.readQ.tail ∨ t.secondary.size ttyBufSize = ttyBufSize - 1 then .ok t
    else (copyByte l write (t.readQ.cell t.readQ.tail) t.getRead).bind (copyToCooked n)

/-- `respond` -/
def respond (n : ℕ) (t : TtyStruct) : Except Fault TtyStruct := copyToCooked l write n (response.foldl TtyStruct.putRead t)

/-- A character from the write queue on the screen. -/
def conTake (t : TtyStruct) : Except Fault TtyStruct :=
  (t.console.conByte l.settings (t.writeQ.cell t.writeQ.tail)).map t.getWrite

/-- The next character is the last of `ESC Z`. -/
def atQuery (t : TtyStruct) : Prop := t.console.state = .s1 ∧ t.writeQ.cell t.writeQ.tail = 90

instance (t : TtyStruct) : Decidable (atQuery t) := inferInstanceAs (Decidable (_ ∧ _))

/-- The loop of `con_write`, with `nr` characters to go. -/
def conLoop (n : ℕ) : ℕ → TtyStruct → Except Fault TtyStruct
  | 0, t => .ok t
  | nr + 1, t =>
    ((conTake l t).bind fun t' => if atQuery t then respond l write n t' else .ok t').bind (conLoop n nr)

end Cooking

/-- `con_write`, which fixes the number of its characters when it is called. It is also what `tty->write` is;
`n` is the depth to which it may call itself that way. -/
def conWrite (l : Line) : ℕ → TtyStruct → Except Fault TtyStruct
  | 0, _ => .error .hang
  | n + 1, t => conLoop l (conWrite l n) n (t.writeQ.size ttyBufSize) t

end Devos.Tty
