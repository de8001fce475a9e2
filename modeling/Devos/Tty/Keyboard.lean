import Devos.Tty.Panel
import Devos.Tty.Queues

/-! The keyboard: what a run of scan codes makes of modifiers, locks and lights, and what of it reaches the read
queue. -/

namespace Devos.Tty

open Runs

inductive ArrowKey
  | up
  | down
  | left
  | right
deriving DecidableEq

inductive KeyHandler
  | none
  | doSelf
  | ctrl
  | unctrl
  | alt
  | unalt
  | lshift
  | unlshift
  | rshift
  | unrshift
  | caps
  | uncaps
  | scroll
  | num
  | minus
  | cursor
  | func
  | arrow (d : ArrowKey)
  | f1Down
  | f1Up
  | f2
  | f3
  | space
deriving DecidableEq

def keyTable : List KeyHandler := List.flatten [
  -- 00-2A
  [.none], .replicate 28 .doSelf, [.ctrl], .replicate 12 .doSelf, [.lshift],
  -- 2B-37
  .replicate 10 .doSelf, [.minus, .rshift, .doSelf],
  -- 38-46
  [.alt, .space, .caps, .f1Down, .f2, .f3], .replicate 7 .func, [.num, .scroll],
  -- 47-53, the keypad
  [.cursor, .arrow .up, .cursor, .doSelf, .arrow .left, .cursor, .arrow .right, .doSelf, .cursor, .arrow .down, .cursor,
    .cursor, .cursor],
  -- 54-58
  [.none, .none, .doSelf, .func, .func],
  -- 59-FF, the codes of keys that are let go
  .replicate 68 .none, [.unctrl], .replicate 12 .none, [.unlshift], .replicate 11 .none,
  [.unrshift, .none, .unalt, .none, .uncaps, .f1Up], .replicate 68 .none]

def numTable : List Byte := chars "789 456 1230,"

def curTable : List Byte := chars "HA5 DGC YB623"

def funcTable : List (BitVec 32) :=
  [0x415b5b1b, 0x425b5b1b, 0x435b5b1b, 0x445b5b1b, 0x455b5b1b, 0x465b5b1b, 0x475b5b1b, 0x485b5b1b, 0x495b5b1b,
    0x4a5b5b1b, 0x4b5b5b1b, 0x4c5b5b1b]

/-- What an interrupt does apart from the keyboard's own variables. `putQueue` has `%ebx:%eax`. -/
inductive KeyAction
  | putQueue (x : BitVec 64)
  | printToClb (c : Byte)
  | f2Handle (f2Flag : PanelMode)
  | arrowHandle (d : ArrowKey) (f2Flag : PanelMode)
  | spaceHandle (f2Flag : PanelMode)
  | setLeds (leds : Byte)
  | reboot
deriving DecidableEq

def KeyAction.leds : KeyAction → Option Byte
  | .setLeds leds => some leds
  | _ => none

structure Keyboard where
  mode : Byte
  leds : Byte
  e0 : Byte
  f1Flag : Bool
  f2Flag : PanelMode
  f3Flag : Bool

namespace Keyboard

variable (k : Keyboard)

/-- `ctrl` and `alt`: the bit above is the other key of the two. -/
def press (al : Byte) : Keyboard := { k with mode := k.mode ||| if k.e0 = 0 then al else al + al }

def unpress (al : Byte) : Keyboard := { k with mode := k.mode &&& ~~~(if k.e0 = 0 then al else al + al) }

def caps : Keyboard × Option KeyAction :=
  if k.mode &&& 0x80 ≠ 0 then (k, none)
  else ({ k with leds := k.leds ^^^ 4, mode := (k.mode ^^^ 0x40) ||| 0x80 }, some (.setLeds (k.leds ^^^ 4)))

/-- `scroll` and `num` -/
def toggle (led : Byte) : Keyboard × Option KeyAction :=
  ({ k with leds := k.leds ^^^ led }, some (.setLeds (k.leds ^^^ led)))

def self (scan : Byte) : Option KeyAction :=
  (doSelf k.mode scan.toNat).map fun al => if k.f3Flag then .printToClb al else .putQueue (al.setWidth 64)

def minus (scan : Byte) : Option KeyAction := if k.e0 = 1 then some (.putQueue 47) else k.self scan

/-- `cur` -/
def cur (al : Byte) : BitVec 64 :=
  let c := curTable.getD al.toNat 0
  ((if 57 < c then (0 : Byte) else 126) ++ c ++ (0x5b1b : Word)).setWidth 64

def cursor (scan : Byte) : Option KeyAction :=
  let al := scan - 0x47
  if scan < 0x47 then none
  else if 12 < al then none
  else if al = 12 ∧ k.mode &&& 0x0c ≠ 0 ∧ k.mode &&& 0x30 ≠ 0 then some .reboot
  else if k.e0 = 1 ∨ k.leds &&& 0x02 = 0 ∨ k.mode &&& 0x03 ≠ 0 then some (.putQueue (cur al))
  else some (.putQueue ((numTable.getD al.toNat 0).setWidth 64))

/-- `%ecx` is what the interrupted code has there. -/
def func (ecx : BitVec 32) (scan : Byte) : Option KeyAction :=
  let al := scan - 0x3b
  let ok := fun al : Byte => if ecx.slt 4 then none else some (.putQueue ((funcTable.getD al.toNat 0).setWidth 64))
  if scan < 0x3b then none
  else if al ≤ 9 then ok al
  else if al - 18 < 10 then none
  else if 11 < al - 18 then none
  else ok (al - 18)

def f2 : Keyboard × Option KeyAction :=
  let f2Flag := if k.f2Flag = .explorer then .clipboard else .explorer
  ({ k with f2Flag := f2Flag }, some (.f2Handle f2Flag))

def handle (ecx : BitVec 32) (scan : Byte) : KeyHandler → Keyboard × Option KeyAction
  | .none => (k, none)
  | .doSelf => (k, k.self scan)
  | .ctrl => (k.press 0x04, none)
  | .unctrl => (k.unpress 0x04, none)
  | .alt => (k.press 0x10, none)
  | .unalt => (k.unpress 0x10, none)
  | .lshift => ({ k with mode := k.mode ||| 0x01 }, none)
  | .unlshift => ({ k with mode := k.mode &&& 0xfe }, none)
  | .rshift => ({ k with mode := k.mode ||| 0x02 }, none)
  | .unrshift => ({ k with mode := k.mode &&& 0xfd }, none)
  | .caps => k.caps
  | .uncaps => ({ k with mode := k.mode &&& 0x7f }, none)
  | .scroll => k.toggle 1
  | .num => k.toggle 2
  | .minus => (k, k.minus scan)
  | .cursor => (k, k.cursor scan)
  | .func => (k, func ecx scan)
  | .arrow d => (k, if k.f1Flag then some (.arrowHandle d k.f2Flag) else k.cursor scan)
  | .f1Down => ({ k with f1Flag := true }, none)
  | .f1Up => ({ k with f1Flag := false }, none)
  | .f2 => k.f2
  | .f3 => ({ k with f3Flag := !k.f3Flag }, none)
  | .space => (k, if k.f1Flag then some (.spaceHandle k.f2Flag) else k.self scan)

/-- `keyboard_interrupt`, up to the acknowledgement. -/
def interrupt (ecx : BitVec 32) (scan : Byte) : Keyboard × Option KeyAction :=
  if scan = 0xe0 then ({ k with e0 := 1 }, none)
  else if scan = 0xe1 then ({ k with e0 := 2 }, none)
  else
    let r := k.handle ecx scan (keyTable.getD scan.toNat .none)
    ({ r.1 with e0 := 0 }, r.2)

end Keyboard

section PutQueue

/-- The bytes that `put_queue` takes from `%ebx:%eax`, until `%eax` is zero. -/
def putBytes : ℕ → BitVec 64 → List Byte
  | 0, _ => []
  | n + 1, x => x.setWidth 8 :: if (x >>> 8).setWidth 32 = (0 : BitVec 32) then [] else putBytes n (x >>> 8)

/-- The loop of `put_queue`, `q` being the queue with the bytes so far and `r` as it was. -/
def putLoop (r : Ring Byte) : ℕ → Ring Byte → BitVec 64 → Ring Byte
  | 0, q, _ => { q with head := r.head }
  | n + 1, q, x =>
    let q := q.push ttyBufSize (x.setWidth 8)
    if q.head = q.tail then { q with head := r.head }
    else if (x >>> 8).setWidth 32 = (0 : BitVec 32) then q
    else putLoop r n q (x >>> 8)

def putQueue (r : Ring Byte) (x : BitVec 64) : Ring Byte := putLoop r 8 r x

end PutQueue

section System

/-- The keyboard with the console's read queue, the lights once they have been set, and what was taken from the queue.
`offered` is a record of what was to be put there, and if there was room for it. -/
structure KeyLine where
  keyboard : Keyboard
  readQ : Ring Byte
  lights : Option Byte
  dead : Bool
  offered : List (List Byte × Bool)
  taken : List Byte

/-- `put` is what `respond` and `space_handle` put into the queue, without a look at the room, and `take` the `GETCH` of
`copy_to_cooked`. -/
inductive KeyLineEvent
  | interrupt (ecx : BitVec 32) (scan : Byte)
  | put (cs : List Byte)
  | take

namespace KeyLine

variable (s : KeyLine)

def room (cs : List Byte) : Bool := s.readQ.size ttyBufSize + cs.length ≤ ttyBufSize - 1

def act : Option KeyAction → KeyLine
  | some (.putQueue x) =>
    { s with readQ := putQueue s.readQ x, offered := s.offered ++ [(putBytes 8 x, s.room (putBytes 8 x))] }
  | some (.setLeds leds) => { s with lights := some leds }
  | some .reboot => { s with dead := true }
  | _ => s

def scanned (ecx : BitVec 32) (scan : Byte) : KeyLine :=
  let r := s.keyboard.interrupt ecx scan
  { s with keyboard := r.1 }.act r.2

end KeyLine

inductive KeyLineStep : KeyLine → KeyLineEvent → KeyLine → Prop
  | interrupt {s ecx scan} : s.dead = false → KeyLineStep s (.interrupt ecx scan) (s.scanned ecx scan)
  | put {s cs} : s.dead = false → KeyLineStep s (.put cs)
      { s with readQ := cs.foldl (Ring.push ttyBufSize) s.readQ, offered := s.offered ++ [(cs, true)] }
  | take {s} : s.dead = false → s.readQ.head ≠ s.readQ.tail → KeyLineStep s .take
      { s with readQ := s.readQ.pop ttyBufSize, taken := s.taken ++ [s.readQ.cell s.readQ.tail] }

/-- The scan codes of a run, the latest first. -/
def codes : List KeyLineEvent → List Byte
  | [] => []
  | .interrupt _ scan :: es => codes es ++ [scan]
  | _ :: es => codes es

end System

section History

/-- A code with what came before it, 1 for E0 and 2 for E1. -/
structure Stroke where
  e0 : Byte
  scan : Byte

/-- Codes and strokes stand with the latest first. -/
def prefixOf : List Byte → Byte
  | [] => 0
  | c :: _ => if c = 0xe0 then 1 else if c = 0xe1 then 2 else 0

def strokes : List Byte → List Stroke
  | [] => []
  | c :: cs => if c = 0xe0 ∨ c = 0xe1 then strokes cs else ⟨prefixOf cs, c⟩ :: strokes cs

/-- The key is down if what came last of it is the code of its being pressed. -/
def isDown (fits : Byte → Bool) (scan : Byte) : List Stroke → Bool
  | [] => false
  | s :: l =>
    if fits s.e0 ∧ s.scan = scan then true
    else if fits s.e0 ∧ s.scan = scan ||| 0x80 then false
    else isDown fits scan l

/-- The keys that have a bit in `mode`. -/
inductive Modifier
  | lshift
  | rshift
  | lctrl
  | rctrl
  | lalt
  | ralt
  | caps

namespace Modifier

def bit : Modifier → ℕ
  | lshift => 0
  | rshift => 1
  | lctrl => 2
  | rctrl => 3
  | lalt => 4
  | ralt => 5
  | caps => 7

def scan : Modifier → Byte
  | lshift => 0x2a
  | rshift => 0x36
  | lctrl | rctrl => 0x1d
  | lalt | ralt => 0x38
  | caps => 0x3a

/-- The two keys of a pair differ by what comes before the code; for the others it does not matter. -/
def fits : Modifier → Byte → Bool
  | lctrl, e | lalt, e => e = 0
  | rctrl, e | ralt, e => e ≠ 0
  | _, _ => true

def held (m : Modifier) (l : List Stroke) : Bool := isDown m.fits m.scan l

end Modifier

/-- What turns over each time its key is pressed; caps lock does not while the key is held. -/
def locked (scan : Byte) (initially : Bool) : List Stroke → Bool
  | [] => initially
  | s :: l =>
    if s.scan = scan ∧ ¬(scan = 0x3a ∧ Modifier.caps.held l) then !locked scan initially l else locked scan initially l

def lights (l : List Stroke) : Byte :=
  (if locked 0x46 false l then 1 else 0) ||| (if locked 0x45 true l then 2 else 0) |||
    if locked 0x3a false l then 4 else 0

def panelMode (l : List Stroke) : PanelMode :=
  if l.all fun s => s.scan ≠ 0x3c then .off else if locked 0x3c false l then .explorer else .clipboard

/-- The variables say what the codes have been. -/
structure Reflects (cs : List Byte) (k : Keyboard) : Prop where
  e0 : k.e0 = prefixOf cs
  mode : ∀ m : Modifier, k.mode.getLsbD m.bit = m.held (strokes cs)
  capsLock : k.mode.getLsbD 6 = locked 0x3a false (strokes cs)
  leds : k.leds = lights (strokes cs)
  f1 : k.f1Flag = isDown (fun _ => true) 0x3b (strokes cs)
  f2 : k.f2Flag = panelMode (strokes cs)
  f3 : k.f3Flag = locked 0x3d false (strokes cs)

end History

section Strokes

variable {k k' : Keyboard} {ecx : BitVec 32} {scan : Byte} {cs : List Byte}

/-- All that a stroke makes of the variables. -/
structure Changes (k : Keyboard) (scan : Byte) (k' : Keyboard) : Prop where
  e0 : k'.e0 = 0
  mode : ∀ m : Modifier, k'.mode.getLsbD m.bit =
    if m.fits k.e0 ∧ scan = m.scan then true
    else if m.fits k.e0 ∧ scan = m.scan ||| 0x80 then false
    else k.mode.getLsbD m.bit
  capsLock : k'.mode.getLsbD 6 = (k.mode.getLsbD 6 ^^ (decide (scan = 0x3a) && !k.mode.getLsbD 7))
  leds : k'.leds = k.leds ^^^
    if scan = 0x46 then 1 else if scan = 0x45 then 2 else if scan = 0x3a ∧ k.mode.getLsbD 7 = false then 4 else 0
  f1 : k'.f1Flag = if scan = 0x3b then true else if scan = 0xbb then false else k.f1Flag
  f2 : k'.f2Flag = if scan = 0x3c then if k.f2Flag = .explorer then .clipboard else .explorer else k.f2Flag
  f3 : k'.f3Flag = (k.f3Flag ^^ decide (scan = 0x3d))

/-- The codes whose handlers change a variable. -/
def changing : List Byte :=
  [0x1d, 0x9d, 0x38, 0xb8, 0x2a, 0xaa, 0x36, 0xb6, 0x3a, 0xba, 0x46, 0x45, 0x3b, 0xbb, 0x3c, 0x3d]

def KeyHandler.changes : KeyHandler → Bool
  | .none | .doSelf | .minus | .cursor | .func | .arrow _ | .space => false
  | _ => true

lemma changes_table : keyTable.map KeyHandler.changes =
    (List.range 256).map fun n => (changing.map BitVec.toNat).elem n := by
  decide +kernel

lemma changes_iff (scan : Byte) : (keyTable.getD scan.toNat .none).changes = true ↔ scan ∈ changing := by
  have hentry : (keyTable.map KeyHandler.changes)[scan.toNat]? =
      ((List.range 256).map fun n => (changing.map BitVec.toNat).elem n)[scan.toNat]? := by rw [changes_table]
  rw [List.getElem?_map, List.getElem?_map, List.getElem?_range scan.isLt, Option.map_some] at hentry
  obtain ⟨h, hh, hchanges⟩ := Option.map_eq_some_iff.mp hentry
  rw [List.getD_eq_getElem?_getD, hh, Option.getD_some, hchanges, List.elem_iff,
    List.mem_map_of_injective fun _ _ => BitVec.eq_of_toNat_eq]

lemma handle_same {h : KeyHandler} (hh : h.changes = false) : (k.handle ecx scan h).1 = k := by
  cases h <;> first | rfl | cases hh

lemma changes_of_other (hscan : scan ∉ changing) : Changes k scan { k with e0 := 0 } := by
  simp only [changing, List.mem_cons, List.not_mem_nil, or_false, not_or] at hscan
  obtain ⟨h1d, h9d, h38, hb8, h2a, haa, h36, hb6, h3a, hba, h46, h45, h3b, hbb, h3c, h3d⟩ := hscan
  refine ⟨rfl, ?_, ?_, ?_, ?_, ?_, ?_⟩
  · intro m
    have hmake : scan ≠ m.scan := by cases m <;> assumption
    have hbreak : scan ≠ m.scan ||| 0x80 := by cases m <;> assumption
    rw [if_neg fun h => hmake h.2, if_neg fun h => hbreak h.2]
  · rw [decide_eq_false h3a, Bool.false_and, Bool.xor_false]
  · rw [if_neg h46, if_neg h45, if_neg fun h => h3a h.1]
    exact BitVec.xor_zero.symm
  · rw [if_neg h3b, if_neg hbb]
  · rw [if_neg h3c]
  · rw [decide_eq_false h3d, Bool.xor_false]

lemma changes_press {al : Byte} (hscan : scan = 0x1d ∧ al = 0x04 ∨ scan = 0x38 ∧ al = 0x10) :
    Changes k scan { k.press al with e0 := 0 } := by
  obtain ⟨rfl, rfl⟩ | ⟨rfl, rfl⟩ := hscan <;> by_cases he : k.e0 = 0#8
  all_goals
    refine ⟨rfl, fun m => ?_, ?_, ?_, rfl, rfl, ?_⟩
    · cases m <;> simp [Keyboard.press, he, Modifier.bit, Modifier.fits, Modifier.scan]
    all_goals simp [Keyboard.press, he]

lemma changes_unpress {al : Byte} (hscan : scan = 0x9d ∧ al = 0x04 ∨ scan = 0xb8 ∧ al = 0x10) :
    Changes k scan { k.unpress al with e0 := 0 } := by
  obtain ⟨rfl, rfl⟩ | ⟨rfl, rfl⟩ := hscan <;> by_cases he : k.e0 = 0#8
  all_goals
    refine ⟨rfl, fun m => ?_, ?_, ?_, rfl, rfl, ?_⟩
    · cases m <;> simp [Keyboard.unpress, he, Modifier.bit, Modifier.fits, Modifier.scan]
    all_goals simp [Keyboard.unpress, he]

lemma changes_shift {mask : Byte} (hscan : scan = 0x2a ∧ mask = 0x01 ∨ scan = 0x36 ∧ mask = 0x02) :
    Changes k scan { k with mode := k.mode ||| mask, e0 := 0 } := by
  obtain ⟨rfl, rfl⟩ | ⟨rfl, rfl⟩ := hscan
  all_goals
    refine ⟨rfl, fun m => ?_, ?_, ?_, rfl, rfl, ?_⟩
    · cases m <;> simp [Modifier.bit, Modifier.fits, Modifier.scan]
    all_goals simp

lemma changes_release {mask : Byte}
    (hscan : scan = 0xaa ∧ mask = 0xfe ∨ scan = 0xb6 ∧ mask = 0xfd ∨ scan = 0xba ∧ mask = 0x7f) :
    Changes k scan { k with mode := k.mode &&& mask, e0 := 0 } := by
  obtain ⟨rfl, rfl⟩ | ⟨rfl, rfl⟩ | ⟨rfl, rfl⟩ := hscan
  all_goals
    refine ⟨rfl, fun m => ?_, ?_, ?_, rfl, rfl, ?_⟩
    · cases m <;> simp [Modifier.bit, Modifier.fits, Modifier.scan]
    all_goals simp

lemma test_caps : k.mode &&& 0x80 ≠ 0 ↔ k.mode.getLsbD 7 = true := by
  rw [show (0x80 : Byte) = BitVec.twoPow 8 7 from rfl, BitVec.and_twoPow]
  split_ifs with h
  · simp [h]
  · simpa using h

lemma changes_caps : Changes k 0x3a { k.caps.1 with e0 := 0 } := by
  by_cases h : k.mode.getLsbD 7 = true
  · rw [show k.caps = (k, none) from if_pos (test_caps.mpr h)]
    refine ⟨rfl, fun m => ?_, ?_, ?_, rfl, rfl, (Bool.xor_false _).symm⟩
    · cases m
      case caps => exact h
      all_goals simp [Modifier.bit, Modifier.fits, Modifier.scan]
    · rw [h]
      exact (Bool.xor_false _).symm
    · rw [h]
      exact BitVec.xor_zero.symm
  · rw [show k.caps = ({ k with leds := k.leds ^^^ 4, mode := (k.mode ^^^ 0x40) ||| 0x80 },
      some (.setLeds (k.leds ^^^ 4))) from if_neg (mt test_caps.mp h)]
    refine ⟨rfl, fun m => ?_, ?_, ?_, rfl, rfl, (Bool.xor_false _).symm⟩
    · cases m <;> simp [Modifier.bit, Modifier.fits, Modifier.scan]
    · rw [Bool.not_eq_true] at h
      rw [h]
      simp
    · rw [Bool.not_eq_true] at h
      rw [h]
      rfl

lemma changes_toggle {led : Byte} (hscan : scan = 0x46 ∧ led = 1 ∨ scan = 0x45 ∧ led = 2) :
    Changes k scan { (k.toggle led).1 with e0 := 0 } := by
  obtain ⟨rfl, rfl⟩ | ⟨rfl, rfl⟩ := hscan
  all_goals
    refine ⟨rfl, fun m => ?_, ?_, ?_, rfl, rfl, ?_⟩
    · cases m <;> simp [Keyboard.toggle, Modifier.bit, Modifier.fits, Modifier.scan]
    all_goals simp [Keyboard.toggle]

lemma changes_flag {down : Bool} (hscan : scan = 0x3b ∧ down = true ∨ scan = 0xbb ∧ down = false) :
    Changes k scan { k with f1Flag := down, e0 := 0 } := by
  obtain ⟨rfl, rfl⟩ | ⟨rfl, rfl⟩ := hscan
  all_goals
    refine ⟨rfl, fun m => ?_, (Bool.xor_false _).symm, BitVec.xor_zero.symm, rfl, rfl, (Bool.xor_false _).symm⟩
    cases m <;> simp [Modifier.bit, Modifier.fits, Modifier.scan]

lemma changes_f2 : Changes k 0x3c { k.f2.1 with e0 := 0 } := by
  refine ⟨rfl, fun m => ?_, (Bool.xor_false _).symm, BitVec.xor_zero.symm, rfl, rfl, (Bool.xor_false _).symm⟩
  cases m <;> simp [Keyboard.f2, Modifier.bit, Modifier.fits, Modifier.scan]

lemma changes_f3 : Changes k 0x3d { k with f3Flag := !k.f3Flag, e0 := 0 } := by
  refine ⟨rfl, fun m => ?_, (Bool.xor_false _).symm, BitVec.xor_zero.symm, rfl, rfl, (Bool.xor_true _).symm⟩
  cases m <;> simp [Modifier.bit, Modifier.fits, Modifier.scan]

/-- One stroke, whatever the key. -/
theorem changes_interrupt (h0 : scan ≠ 0xe0) (h1 : scan ≠ 0xe1) : Changes k scan (k.interrupt ecx scan).1 := by
  have hhandle : (k.interrupt ecx scan).1 =
      { (k.handle ecx scan (keyTable.getD scan.toNat .none)).1 with e0 := 0 } := by
    rw [Keyboard.interrupt, if_neg h0, if_neg h1]
  rw [hhandle]
  by_cases hscan : scan ∈ changing
  · simp only [changing, List.mem_cons, List.not_mem_nil, or_false] at hscan
    rcases hscan with rfl | rfl | rfl | rfl | rfl | rfl | rfl | rfl | rfl | rfl | rfl | rfl | rfl | rfl | rfl | rfl
    · exact changes_press (Or.inl ⟨rfl, rfl⟩)
    · exact changes_unpress (Or.inl ⟨rfl, rfl⟩)
    · exact changes_press (Or.inr ⟨rfl, rfl⟩)
    · exact changes_unpress (Or.inr ⟨rfl, rfl⟩)
    · exact changes_shift (Or.inl ⟨rfl, rfl⟩)
    · exact changes_release (Or.inl ⟨rfl, rfl⟩)
    · exact changes_shift (Or.inr ⟨rfl, rfl⟩)
    · exact changes_release (Or.inr (Or.inl ⟨rfl, rfl⟩))
    · exact changes_caps
    · exact changes_release (Or.inr (Or.inr ⟨rfl, rfl⟩))
    · exact changes_toggle (Or.inl ⟨rfl, rfl⟩)
    · exact changes_toggle (Or.inr ⟨rfl, rfl⟩)
    · exact changes_flag (Or.inl ⟨rfl, rfl⟩)
    · exact changes_flag (Or.inr ⟨rfl, rfl⟩)
    · exact changes_f2
    · exact changes_f3
  · rw [handle_same (Bool.not_eq_true _ ▸ mt (changes_iff scan).mp hscan)]
    exact changes_of_other hscan

lemma locked_cons (s : Stroke) (l : List Stroke) (key : Byte) (initially : Bool) : locked key initially (s :: l) =
    (locked key initially l ^^ decide (s.scan = key ∧ ¬(key = 0x3a ∧ Modifier.caps.held l))) := by
  rw [locked]
  by_cases h : s.scan = key ∧ ¬(key = 0x3a ∧ Modifier.caps.held l)
  · rw [if_pos h, decide_eq_true h, Bool.xor_true]
  · rw [if_neg h, decide_eq_false h, Bool.xor_false]

lemma light_bits : ∀ a b c x y z : Bool,
    ((if a ^^ x then (1 : Byte) else 0) ||| (if b ^^ y then 2 else 0) ||| if c ^^ z then 4 else 0) =
      ((if a then 1 else 0) ||| (if b then 2 else 0) ||| if c then 4 else 0) ^^^
        ((if x then 1 else 0) ^^^ (if y then 2 else 0) ^^^ if z then 4 else 0) := by
  decide

lemma lights_cons (s : Stroke) (l : List Stroke) : lights (s :: l) = lights l ^^^
    if s.scan = 0x46 then 1 else if s.scan = 0x45 then 2
    else if s.scan = 0x3a ∧ Modifier.caps.held l = false then 4 else 0 := by
  rw [lights, locked_cons, locked_cons, locked_cons, light_bits, lights]
  congr 1
  by_cases h46 : s.scan = 0x46
  · simp [h46]
  by_cases h45 : s.scan = 0x45
  · simp [h45]
  by_cases h3a : s.scan = 0x3a
  · cases Modifier.caps.held l <;> simp [h3a]
  · have h46' : s.scan ≠ 0x46#8 := h46
    have h45' : s.scan ≠ 0x45#8 := h45
    have h3a' : s.scan ≠ 0x3a#8 := h3a
    simp [h46', h45', h3a']

lemma locked_of_never {l : List Stroke} {key : Byte} {initially : Bool} (h : ∀ s ∈ l, s.scan ≠ key) :
    locked key initially l = initially := by
  induction l with
  | nil => rfl
  | cons s l ih =>
    rw [locked, if_neg fun hs => h s List.mem_cons_self hs.1]
    exact ih fun t ht => h t (List.mem_cons_of_mem _ ht)

lemma panelMode_cons (s : Stroke) (l : List Stroke) : panelMode (s :: l) =
    if s.scan = 0x3c then if panelMode l = .explorer then .clipboard else .explorer else panelMode l := by
  by_cases hs : s.scan = 0x3c
  · have hsome : (s :: l).all (fun s => s.scan ≠ 0x3c) = false := by simp [hs]
    have hlock : locked 0x3c false (s :: l) = !locked 0x3c false l := by simp [locked_cons, hs]
    rw [if_pos hs, panelMode, hsome, hlock, panelMode]
    by_cases hall : (l.all fun s => s.scan ≠ 0x3c) = true
    · rw [if_pos hall, locked_of_never fun t ht => of_decide_eq_true (List.all_eq_true.mp hall t ht)]
      rfl
    · rw [if_neg hall]
      cases locked 0x3c false l <;> rfl
  · have hlock : locked 0x3c false (s :: l) = locked 0x3c false l := by
      rw [locked_cons, decide_eq_false fun h => hs h.1, Bool.xor_false]
    rw [if_neg hs, panelMode, panelMode, List.all_cons, decide_eq_true hs, Bool.true_and, hlock]

lemma Reflects.step (h : Reflects cs k) (ecx : BitVec 32) (c : Byte) : Reflects (c :: cs) (k.interrupt ecx c).1 := by
  by_cases h0 : c = 0xe0
  · subst h0
    exact ⟨rfl, h.mode, h.capsLock, h.leds, h.f1, h.f2, h.f3⟩
  by_cases h1 : c = 0xe1
  · subst h1
    exact ⟨rfl, h.mode, h.capsLock, h.leds, h.f1, h.f2, h.f3⟩
  have hcaps : k.mode.getLsbD 7 = Modifier.caps.held (strokes cs) := h.mode .caps
  have hc := @changes_interrupt k ecx c h0 h1
  have hstrokes : strokes (c :: cs) = ⟨k.e0, c⟩ :: strokes cs := by
    rw [strokes, if_neg (not_or.mpr ⟨h0, h1⟩), h.e0]
  refine ⟨?_, fun m => ?_, ?_, ?_, ?_, ?_, ?_⟩
  · rw [hc.e0, prefixOf, if_neg h0, if_neg h1]
  · rw [hc.mode, hstrokes, Modifier.held, isDown, h.mode m, Modifier.held]
  · rw [hc.capsLock, hstrokes, locked_cons, h.capsLock, hcaps]
    cases Modifier.caps.held (strokes cs) <;> simp
  · rw [hc.leds, hstrokes, lights_cons, h.leds, hcaps]
  · rw [hc.f1, hstrokes, isDown, h.f1]
    simp only [true_and]
    rfl
  · rw [hc.f2, hstrokes, panelMode_cons, h.f2]
  · rw [hc.f3, hstrokes, locked_cons, h.f3]
    simp

end Strokes

section Queue

variable {r q : Ring Byte} {x : BitVec 64} {n : ℕ} {done : List Byte}

lemma putLoop_inside (hr : r.Inside ttyBufSize) (hq : q.Inside ttyBufSize) : (putLoop r n q x).Inside ttyBufSize := by
  induction n generalizing q x with
  | zero => exact ⟨hr.head_lt, hq.tail_lt⟩
  | succ n ih =>
    rw [putLoop]
    split_ifs
    · exact ⟨hr.head_lt, hq.tail_lt⟩
    · exact hq.push _
    · exact ih (hq.push _)

/-- All of the bytes or none of them. -/
lemma putLoop_held (hq : q.Inside ttyBufSize) (htail : r.tail = q.tail)
    (hheld : q.held ttyBufSize = r.held ttyBufSize ++ done) (hn : n ≠ 0) (hx : x.toNat < 2 ^ (8 * n)) :
    (putLoop r n q x).held ttyBufSize =
      if q.size ttyBufSize + (putBytes n x).length ≤ ttyBufSize - 1 then q.held ttyBufSize ++ putBytes n x
      else r.held ttyBufSize := by
  induction n generalizing q x done with
  | zero => exact absurd rfl hn
  | succ n ih =>
    have hundo := hq.held_undo htail hheld (x.setWidth 8)
    have hpush := hq.push (x.setWidth 8)
    rw [putLoop, putBytes]
    by_cases hfull : q.size ttyBufSize = ttyBufSize - 1
    · rw [if_pos (hpush.size_eq_zero.mp (hq.size_push_full hfull _)), hundo, if_neg]
      rw [hfull, List.length_cons]
      omega
    · have hsize := hq.size_push hfull (x.setWidth 8)
      have hne : (q.push ttyBufSize (x.setWidth 8)).head ≠ (q.push ttyBufSize (x.setWidth 8)).tail := by
        intro heq
        rw [hpush.size_eq_zero.mpr heq] at hsize
        omega
      have hlt : q.size ttyBufSize < ttyBufSize := Ring.size_lt (by decide) q
      rw [if_neg hne]
      by_cases hlast : (x >>> 8).setWidth 32 = (0 : BitVec 32)
      · rw [if_pos hlast, if_pos hlast, hq.held_push hfull, if_pos]
        rw [List.length_singleton]
        omega
      · have hshift : (x >>> 8).toNat < 2 ^ (8 * n) := by
          rw [BitVec.toNat_ushiftRight, Nat.shiftRight_eq_div_pow]
          exact Nat.div_lt_of_lt_mul (by rwa [← pow_add, show 8 + 8 * n = 8 * (n + 1) by omega])
        have hn' : n ≠ 0 := by
          rintro rfl
          have hzero : x >>> 8 = 0 := BitVec.eq_of_toNat_eq (by simpa using hshift)
          rw [hzero] at hlast
          exact hlast rfl
        have hheld' : (q.push ttyBufSize (x.setWidth 8)).held ttyBufSize =
            r.held ttyBufSize ++ (done ++ [x.setWidth 8]) := by
          rw [hq.held_push hfull, hheld, List.append_assoc]
        rw [if_neg hlast, if_neg hlast, ih hpush htail hheld' hn' hshift, hsize, hq.held_push hfull, List.append_assoc,
          List.singleton_append, List.length_cons, Nat.add_assoc, Nat.add_comm 1]

end Queue

section Runs

variable {s s' : KeyLine} {es : List KeyLineEvent} {e : KeyLineEvent} {ok : KeyLine → KeyLineEvent → Prop}
  {ecx : BitVec 32} {scan : Byte}

/-- The lights show what the locks are. -/
structure Shows (cs : List Byte) (s : KeyLine) : Prop where
  reflects : Reflects cs s.keyboard
  lights : ∀ leds, s.lights = some leds → leds = s.keyboard.leds

/-- The queue after what has been taken: each sequence that there was room for, and no other byte. -/
structure Whole (s : KeyLine) : Prop where
  inside : s.readQ.Inside ttyBufSize
  held : s.taken ++ s.readQ.held ttyBufSize = (s.offered.filter Prod.snd).flatMap Prod.fst

lemma self_leds (k : Keyboard) : (k.self scan).bind KeyAction.leds = none := by
  rw [Keyboard.self]
  cases doSelf k.mode scan.toNat with
  | none => rfl
  | some al => cases k.f3Flag <;> rfl

lemma cursor_leds (k : Keyboard) : (k.cursor scan).bind KeyAction.leds = none := by
  unfold Keyboard.cursor
  dsimp only
  split_ifs <;> rfl

lemma func_leds : (Keyboard.func ecx scan).bind KeyAction.leds = none := by
  unfold Keyboard.func
  dsimp only
  split_ifs <;> rfl

/-- The command to the lights is sent whenever they change. -/
lemma handle_leds (k : Keyboard) (h : KeyHandler) :
    (k.handle ecx scan h).1.leds = ((k.handle ecx scan h).2.bind KeyAction.leds).getD k.leds := by
  have hself : k.leds = ((k.self scan).bind KeyAction.leds).getD k.leds := by rw [self_leds, Option.getD_none]
  have hcursor : k.leds = ((k.cursor scan).bind KeyAction.leds).getD k.leds := by rw [cursor_leds, Option.getD_none]
  cases h
  case doSelf => exact hself
  case minus =>
    change k.leds = ((k.minus scan).bind KeyAction.leds).getD k.leds
    unfold Keyboard.minus
    split_ifs
    · rfl
    · exact hself
  case cursor => exact hcursor
  case func => exact congrArg (Option.getD · k.leds) func_leds.symm
  case arrow d =>
    change k.leds =
      (Option.bind (if k.f1Flag then some (.arrowHandle d k.f2Flag) else k.cursor scan) KeyAction.leds).getD k.leds
    split_ifs
    · rfl
    · exact hcursor
  case space =>
    change k.leds =
      (Option.bind (if k.f1Flag then some (.spaceHandle k.f2Flag) else k.self scan) KeyAction.leds).getD k.leds
    split_ifs
    · rfl
    · exact hself
  case caps =>
    change k.caps.1.leds = (k.caps.2.bind KeyAction.leds).getD k.leds
    unfold Keyboard.caps
    split_ifs <;> rfl
  all_goals rfl

lemma interrupt_leds (k : Keyboard) :
    (k.interrupt ecx scan).1.leds = ((k.interrupt ecx scan).2.bind KeyAction.leds).getD k.leds := by
  unfold Keyboard.interrupt
  split_ifs
  · rfl
  · rfl
  · exact handle_leds k _

lemma act_lights (s : KeyLine) (a : Option KeyAction) : (s.act a).lights = (a.bind KeyAction.leds).or s.lights := by
  cases a with
  | none => rfl
  | some a => cases a <;> rfl

lemma act_keyboard (s : KeyLine) (a : Option KeyAction) : (s.act a).keyboard = s.keyboard := by
  cases a with
  | none => rfl
  | some a => cases a <;> rfl

/-- `room` is asked for where the code does not ask. -/
def Roomy (s : KeyLine) : KeyLineEvent → Prop
  | .put cs => s.room cs = true
  | _ => True

lemma Shows.step {cs : List Byte} (h : Shows cs s) (hstep : KeyLineStep s e s') : Shows (codes [e] ++ cs) s' := by
  cases hstep with
  | @interrupt ecx scan hdead =>
    refine ⟨?_, fun leds hleds => ?_⟩
    · rw [KeyLine.scanned, act_keyboard]
      exact h.reflects.step ecx scan
    · rw [KeyLine.scanned, act_lights] at hleds
      rw [KeyLine.scanned, act_keyboard]
      dsimp only at hleds ⊢
      rw [interrupt_leds]
      cases hcommand : (s.keyboard.interrupt ecx scan).2.bind KeyAction.leds with
      | none =>
        rw [hcommand, Option.none_or] at hleds
        exact h.lights leds hleds
      | some leds' =>
        rw [hcommand, Option.some_or] at hleds
        exact (Option.some.inj hleds).symm
  | put hdead => exact ⟨h.reflects, h.lights⟩
  | take hdead hne => exact ⟨h.reflects, h.lights⟩

lemma Whole.putQueue (h : Whole s) (x : BitVec 64) : Whole (s.act (some (.putQueue x))) := by
  refine ⟨putLoop_inside h.inside h.inside, ?_⟩
  have hheld := putLoop_held h.inside rfl (List.append_nil _).symm (n := 8) (by decide) x.isLt
  change s.taken ++ (putLoop s.readQ 8 s.readQ x).held ttyBufSize =
    ((s.offered ++ [(putBytes 8 x, s.room (putBytes 8 x))]).filter Prod.snd).flatMap Prod.fst
  rw [hheld, List.filter_append, List.flatMap_append, ← h.held, List.append_assoc]
  congr 1
  by_cases hroom : s.readQ.size ttyBufSize + (putBytes 8 x).length ≤ ttyBufSize - 1
  · rw [if_pos hroom, KeyLine.room, decide_eq_true hroom]
    simp
  · rw [if_neg hroom, KeyLine.room, decide_eq_false hroom]
    simp

lemma Whole.act (h : Whole s) (a : Option KeyAction) : Whole (s.act a) := by
  cases a with
  | none => exact h
  | some a =>
    cases a with
    | putQueue x => exact h.putQueue x
    | setLeds leds => exact ⟨h.inside, h.held⟩
    | reboot => exact ⟨h.inside, h.held⟩
    | _ => exact h

lemma Whole.step (h : Whole s) (hok : Roomy s e) (hstep : KeyLineStep s e s') : Whole s' := by
  cases hstep with
  | @interrupt ecx scan hdead =>
    have hsame : Whole { s with keyboard := (s.keyboard.interrupt ecx scan).1 } := ⟨h.inside, h.held⟩
    exact hsame.act _
  | @put cs hdead =>
    refine ⟨h.inside.pushes cs, ?_⟩
    change s.taken ++ (cs.foldl (Ring.push ttyBufSize) s.readQ).held ttyBufSize =
      ((s.offered ++ [(cs, true)]).filter Prod.snd).flatMap Prod.fst
    rw [h.inside.held_pushes (of_decide_eq_true hok), List.filter_append, List.flatMap_append, ← h.held,
      List.append_assoc]
    simp
  | take hdead hne =>
    refine ⟨h.inside.pop, ?_⟩
    change (s.taken ++ [s.readQ.cell s.readQ.tail]) ++ (s.readQ.pop ttyBufSize).held ttyBufSize = _
    rw [List.append_assoc, List.singleton_append, ← h.inside.held_pop hne]
    exact h.held

section Examples

end Examples

end Runs

end Devos.Tty
