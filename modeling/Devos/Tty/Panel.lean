import Devos.Fs.Inode
import Devos.Tty.Console
import Devos.Strings
import Devos.Library.Runs

/-! The panel in the corner of the console and the keys for it: F2 turns from the clipboard to the file explorer and
back, F1 is held for arrows and space, and F3 sends what is typed to the clipboard. -/

namespace Devos

namespace Tty

open Loops Runs

/-- `f2_flag` -/
inductive PanelMode
  | off
  | explorer
  | clipboard
deriving DecidableEq

/-- What `get_children_from_fs` finds: the bytes from the first block of a directory on, and the mode of a file. -/
structure Disk where
  block : CString → ℕ → Byte
  mode : CString → Word

structure Panel where
  f1Flag : Bool
  f2Flag : PanelMode
  f3Flag : Bool
  initFlag : Bool
  selectedRowIndex : ℤ
  currentDirLen : ℕ
  currentDirPath : CString
  lsFiles : ℕ → Word
  isDir : ℕ → Bool
  clipboard : ℕ → Byte
  cliboardCursor : ℤ × ℤ

def slash : CString := ⟨[47], by decide⟩

/-- `name` in the directory `path`, in an array of 22 bytes. -/
def joinPath (path name : CString) : Except Fault CString :=
  (if path = slash then .ok path else CString.strcat 22 path slash).bind fun path => CString.strcat 22 path name

/-- Entries 2 to 11 of a directory, of 16 bytes each and the name behind the number. -/
def entryName (k : ℕ) : ℕ := 32 + 16 * k + 2

/-- An index into one of the arrays with ten rows. -/
def rowIndex (r : ℤ) : Except Fault ℕ := if 0 ≤ r ∧ r < 10 then .ok r.toNat else .error .badPointer

namespace Panel

def entryColor (mode : Word) : Word :=
  if mode.getLsbD 13 then 0x0600 else if Fs.sIsDir mode then 0x0100 else if mode.getLsbD 6 then 0x0200 else 0x0700

/-- A turn of the loop of `get_children_from_fs`. -/
def listEntry (d : Disk) (m : ℕ → Byte) (k : ℕ) (p : Panel) : Except Fault Panel :=
  (CString.read m (entryName k) 22).bind fun name => (joinPath p.currentDirPath name).bind fun tempName =>
    let mode := d.mode tempName
    if 160 ≤ 16 * k + name.strlen then .error .overrun
    else .ok { p with
      isDir := Function.update p.isDir k (Fs.sIsDir mode)
      lsFiles := fun x =>
        if 16 * k ≤ x ∧ x < 16 * k + name.strlen then entryColor mode ||| (name.char (x - 16 * k)).signExtend 16
        else if x = 16 * k + name.strlen then 0
        else p.lsFiles x
      currentDirLen := p.currentDirLen + if name.strlen = 0 then 0 else 1 }

/-- `get_children_from_fs`; the root directory is the first. -/
def getChildren (d : Disk) (p : Panel) : Except Fault Panel :=
  let m := d.block (if p.initFlag then p.currentDirPath else slash)
  let p := { p with
    initFlag := true
    currentDirLen := 0
    lsFiles := fun x => if x % 16 = 0 then 0 else p.lsFiles x }
  forLoopE (listEntry d m) p 10

/-- `render_border` copies the title to an array of 25 bytes, between brackets. -/
def renderBorder (title : CString) (p : Panel) : Except Fault Panel :=
  if title.strlen + 6 < 25 then .ok p else .error .overrun

/-- A row of the clipboard. -/
def line (p : Panel) (r : ℕ) : Except Fault CString := CString.read p.clipboard (20 * r) (200 - 20 * r)

/-- `cliboard_cursor` at the end of the selected row. -/
def cursorToRow (p : Panel) : Except Fault Panel :=
  ((rowIndex p.selectedRowIndex).bind p.line).map fun s =>
    { p with cliboardCursor := (p.selectedRowIndex, s.strlen) }

def f2Handle (d : Disk) (p : Panel) : Except Fault Panel :=
  match p.f2Flag with
  | .off => .ok { p with selectedRowIndex := 0 }
  | .explorer => (renderBorder p.currentDirPath { p with selectedRowIndex := 0 }).bind (getChildren d)
  | .clipboard => cursorToRow { p with selectedRowIndex := 0 }

def arrowDownHandle (p : Panel) : Except Fault Panel :=
  match p.f2Flag with
  | .off => .ok p
  | .explorer =>
    if p.currentDirLen = 0 then .error .divide
    else .ok { p with selectedRowIndex := (p.selectedRowIndex + 1).tmod p.currentDirLen }
  | .clipboard => cursorToRow { p with selectedRowIndex := (p.selectedRowIndex + 1).tmod 10 }

def arrowUpHandle (p : Panel) : Except Fault Panel :=
  match p.f2Flag with
  | .off => .ok p
  | .explorer =>
    .ok { p with
      selectedRowIndex := if p.selectedRowIndex - 1 < 0 then p.currentDirLen - 1 else p.selectedRowIndex - 1 }
  | .clipboard =>
    cursorToRow { p with selectedRowIndex := if p.selectedRowIndex - 1 < 0 then 9 else p.selectedRowIndex - 1 }

/-- The directory under the arrows, in an array of 15 bytes, put to the path. -/
def below (p : Panel) (r : ℕ) : Except Fault CString :=
  (CString.read (fun x => (p.lsFiles x).setWidth 8) (16 * r) 15).bind (joinPath p.currentDirPath)

/-- The path up to its last slash, with it. -/
def above (p : Panel) : Except Fault CString :=
  let chars := (p.currentDirPath.chars.reverse.dropWhile (· ≠ 47)).reverse
  if chars = [] then .error .overrun
  else .ok ⟨chars, fun h => p.currentDirPath.nulFree (by
    have hmem := (List.dropWhile_sublist _).subset (List.mem_reverse.mp h)
    exact List.mem_reverse.mp hmem)⟩

/-- Another directory in the explorer; the selected row stays. -/
def enter (d : Disk) (p : Panel) (path : CString) : Except Fault Panel :=
  (getChildren d { p with currentDirPath := path }).bind (renderBorder path)

def arrowRightHandle (d : Disk) (p : Panel) : Except Fault Panel :=
  if p.f2Flag = .explorer then
    (rowIndex p.selectedRowIndex).bind fun r => if p.isDir r then (p.below r).bind (p.enter d) else .ok p
  else .ok p

def arrowLeftHandle (d : Disk) (p : Panel) : Except Fault Panel :=
  if p.f2Flag = .explorer ∧ p.currentDirPath ≠ slash then p.above.bind (p.enter d) else .ok p

/-- What is copied to an array of 22 bytes and from there to the read queue; the entry of a directory comes with its
colours. -/
def spaceHandle (p : Panel) : Except Fault Panel :=
  match p.f2Flag with
  | .off => .ok p
  | .explorer => (rowIndex p.selectedRowIndex).bind fun r =>
      ((CString.read (fun x => (p.lsFiles (x / 2)).extractLsb' (8 * (x % 2)) 8) (32 * r) 22).bind
        (joinPath p.currentDirPath)).map fun _ => p
  | .clipboard => ((rowIndex p.selectedRowIndex).bind fun r => CString.read p.clipboard (20 * r) 22).map fun _ => p

def moveCursorCol (pos : ℤ) (p : Panel) : Panel :=
  { p with cliboardCursor := (p.cliboardCursor.1, (p.cliboardCursor.2 + pos).bmod (2 ^ 16)) }

def setClipboard (p : Panel) (a : ℕ) (c : Byte) : Panel := { p with clipboard := Function.update p.clipboard a c }

def printToClb (c : Byte) (p : Panel) : Except Fault Panel :=
  (rowIndex p.selectedRowIndex).bind fun r =>
    if c = 127 then (p.line r).map fun s =>
      if s.strlen = 0 then p else (p.setClipboard (20 * r + s.strlen - 1) 0).moveCursorCol (-1)
    else if 19 < p.cliboardCursor.2 + 1 then .ok p
    else if c = 0 then .ok (p.moveCursorCol 1)
    else (p.line r).bind fun s =>
      if 200 ≤ 20 * r + s.strlen + 1 then .error .overrun
      else .ok (((p.setClipboard (20 * r + s.strlen) c).setClipboard (20 * r + s.strlen + 1) 0).moveCursorCol 1)

section Listing

variable {d : Disk} {m : ℕ → Byte} {p q : Panel} {k : ℕ}

/-- Names among the ten entries. -/
def entries (m : ℕ → Byte) : ℕ := (List.range 10).countP fun k => m (entryName k) ≠ 0

lemma strlen_eq_zero {a n : ℕ} {s : CString} (h : CString.read m a n = .ok s) : s.strlen = 0 ↔ m a = 0 := by
  cases n with
  | zero => cases h
  | succ n =>
    rw [CString.read] at h
    by_cases ha : m a = 0
    · rw [dif_pos ha] at h
      obtain rfl := Except.ok.inj h
      exact iff_of_true rfl ha
    · rw [dif_neg ha] at h
      obtain ⟨t, _, rfl⟩ := map_eq_ok h
      exact iff_of_false (Nat.succ_ne_zero _) ha

lemma entryColor_ne (mode : Word) : entryColor mode ≠ 0 := by
  unfold entryColor
  split_ifs <;> decide

lemma listEntry_ok (h : listEntry d m k p = .ok q) : ∃ i l,
    q = { p with
      isDir := i
      lsFiles := l
      currentDirLen := p.currentDirLen + if m (entryName k) = 0 then 0 else 1 } ∧
    (l (16 * k) = 0 ↔ m (entryName k) = 0) ∧ ∀ x < 16 * k, l x = p.lsFiles x := by
  obtain ⟨name, hname, h⟩ := bind_eq_ok h
  obtain ⟨tempName, _, h⟩ := bind_eq_ok h
  have hzero := strlen_eq_zero hname
  dsimp only at h
  by_cases hroom : 160 ≤ 16 * k + name.strlen
  · rw [if_pos hroom] at h
    cases h
  · rw [if_neg hroom] at h
    obtain rfl := Except.ok.inj h
    simp only [hzero]
    refine ⟨_, _, rfl, ?_, fun x hx => ?_⟩
    · by_cases hname : name.strlen = 0
      · rw [hname, if_neg (by omega), if_pos (Nat.add_zero _).symm]
        exact iff_of_true rfl (hzero.mp hname)
      · rw [if_pos (by omega)]
        exact iff_of_false (fun h => entryColor_ne _ (BitVec.or_eq_zero_iff.mp h).1) fun h => hname (hzero.mpr h)
    · rw [if_neg (by omega), if_neg (by omega)]

lemma entries_succ (m : ℕ → Byte) (n : ℕ) : ((List.range (n + 1)).countP fun k => m (entryName k) ≠ 0) =
    ((List.range n).countP fun k => m (entryName k) ≠ 0) + if m (entryName n) = 0 then 0 else 1 := by
  rw [List.range_succ, List.countP_append, List.countP_singleton]
  by_cases h : m (entryName n) = 0 <;> simp [h]

/-- All that becomes of the panel when it shows a directory. -/
theorem getChildren_ok (h : getChildren d p = .ok q) :
    ∃ i l, q = { p with
      initFlag := true
      isDir := i
      lsFiles := l
      currentDirLen := entries (d.block (if p.initFlag then p.currentDirPath else slash)) } ∧
    ∀ k < 10, l (16 * k) = 0 ↔ d.block (if p.initFlag then p.currentDirPath else slash) (entryName k) = 0 := by
  generalize hm : d.block (if p.initFlag then p.currentDirPath else slash) = m
  unfold getChildren at h
  rw [hm] at h
  refine forLoopE_invariant (P := fun n q => ∃ i l, q = { p with
      initFlag := true
      isDir := i
      lsFiles := l
      currentDirLen := (List.range n).countP fun k => m (entryName k) ≠ 0 } ∧
    ∀ k < n, l (16 * k) = 0 ↔ m (entryName k) = 0) ⟨_, _, rfl, fun k hk => absurd hk (Nat.not_lt_zero k)⟩ ?_ h
  rintro n s s' ⟨i, l, rfl, hl⟩ hs
  obtain ⟨i', l', rfl, hn, hsame⟩ := listEntry_ok hs
  refine ⟨i', l', by rw [entries_succ], fun k hk => ?_⟩
  rcases Nat.lt_succ_iff_lt_or_eq.mp hk with hlt | rfl
  · rw [hsame _ (by omega)]
    exact hl k hlt
  · exact hn

lemma entries_le (m : ℕ → Byte) : entries m ≤ 10 := by
  have hle := List.countP_le_length (p := fun k => decide (m (entryName k) ≠ 0)) (l := List.range 10)
  rwa [List.length_range] at hle

end Listing

end Panel

section Keyboard

def keyMap : List Byte :=
  [0, 27] ++ chars "1234567890+\x27" ++ [127, 9] ++ chars "qwertyuiop\x7d" ++ [0, 10, 0] ++ chars "asdfghjkl|\x7b" ++ [0, 0] ++
    chars "\x27zxcvbnm,.-" ++ [0, 42, 0, 32] ++ List.replicate 16 0 ++ [45, 0, 0, 0, 43] ++ List.replicate 7 0 ++ [60] ++
    List.replicate 10 0

def shiftMap : List Byte :=
  [0, 27] ++ chars "!\"#$%&/()=?\x60" ++ [127, 9] ++ chars "QWERTYUIOP]^" ++ [10, 0] ++ chars "ASDFGHJKL\\[" ++ [0, 0] ++
    chars "*ZXCVBNM;:_" ++ [0, 42, 0, 32] ++ List.replicate 16 0 ++ [45, 0, 0, 0, 43] ++ List.replicate 7 0 ++ [62] ++
    List.replicate 10 0

def altMap : List Byte :=
  [0, 0] ++ [0, 64, 0, 36, 0, 0, 123, 91, 93, 125, 92, 0] ++ [0, 0] ++ List.replicate 11 0 ++ [126, 10, 0] ++
    List.replicate 11 0 ++ [0, 0] ++ List.replicate 11 0 ++ [0, 0, 0, 0] ++ List.replicate 16 0 ++ List.replicate 5 0 ++
    List.replicate 7 0 ++ [124] ++ List.replicate 10 0

/-- The character of a scan code, `mode` being the keys that are held, `none` without one. -/
def doSelf (mode : Byte) (scan : ℕ) : Option Byte :=
  let map := if mode &&& 0x20 ≠ 0 then altMap else if mode &&& 0x03 ≠ 0 then shiftMap else keyMap
  let al := map.getD scan 0
  if al = 0 then none
  else
    let al := if mode &&& 0x4c ≠ 0 ∧ 97 ≤ al.toNat ∧ al.toNat ≤ 122 then al - 32 else al
    let al := if mode &&& 0x0c ≠ 0 ∧ 64 ≤ al.toNat ∧ al.toNat < 96 then al - 64 else al
    some (if mode &&& 0x10 ≠ 0 then al ||| 0x80 else al)

end Keyboard

/-- A key with the keys that are held, or with the disk as it is then. -/
inductive PanelKey
  | self (mode : Byte) (scan : ℕ)
  | space (mode : Byte)
  | f1 (down : Bool)
  | f2 (d : Disk)
  | f3
  | arrowUp
  | arrowDown
  | arrowLeft (d : Disk)
  | arrowRight (d : Disk)

namespace Panel

/-- What a key sends to the clipboard. -/
def typed (p : Panel) : PanelKey → Option Byte
  | .self mode scan => if p.f3Flag then doSelf mode scan else none
  | .space mode => if p.f3Flag ∧ ¬p.f1Flag then doSelf mode 57 else none
  | _ => none

def press (p : Panel) : PanelKey → Except Fault Panel
  | .self mode scan => ((p.typed (.self mode scan)).map (p.printToClb ·)).getD (.ok p)
  | .space mode => if p.f1Flag then p.spaceHandle else ((p.typed (.space mode)).map (p.printToClb ·)).getD (.ok p)
  | .f1 down => .ok { p with f1Flag := down }
  | .f2 d => f2Handle d { p with f2Flag := if p.f2Flag = .explorer then .clipboard else .explorer }
  | .f3 => .ok { p with f3Flag := !p.f3Flag }
  | .arrowUp => if p.f1Flag then p.arrowUpHandle else .ok p
  | .arrowDown => if p.f1Flag then p.arrowDownHandle else .ok p
  | .arrowLeft d => if p.f1Flag then p.arrowLeftHandle d else .ok p
  | .arrowRight d => if p.f1Flag then p.arrowRightHandle d else .ok p

end Panel

/-- As `con_init` leaves it. -/
def initialPanel : Panel where
  f1Flag := false
  f2Flag := .off
  f3Flag := false
  initFlag := false
  selectedRowIndex := 0
  currentDirLen := 0
  currentDirPath := slash
  lsFiles := fun _ => 0
  isDir := fun _ => false
  clipboard := fun _ => 0
  cliboardCursor := (0, 0)

def panelSystem : System Panel PanelKey where
  init p := p = initialPanel
  step p e p' := p.press e = .ok p'

end Tty

end Devos
