import Devos.Basic
import Devos.Library.StringMoves
import Mathlib.Data.Int.Notation

/-! The console: its screen in video memory, its cursor and its escape sequences. A write outside of the
video memory is a fault. -/

namespace Devos.Tty

open StringMoves

abbrev screenStart : ℕ := 0xb8000
abbrev screenEnd : ℕ := 0xc0000
abbrev lines : ℕ := 25
abbrev columns : ℕ := 80
abbrev nPar : ℕ := 16
abbrev toolWidth : ℕ := 22

/-- An `unsigned long`. -/
def w32 (z : ℤ) : ℕ := (z % 2 ^ 32).toNat

lemma w32_eq {z : ℤ} {n : ℕ} (hz : z = n) (hn : n < 2 ^ 32) : w32 z = n := by
  subst hz
  unfold w32
  omega

abbrev Video := ℕ → Byte

def screen : Window Fault := ⟨screenStart, screenEnd, .overrun⟩

def wordByte (w : Word) (i : ℕ) : Byte := if i % 2 = 0 then w.setWidth 8 else (w >>> 8).setWidth 8

def storeWord (a : ℕ) (w : Word) (m : Video) : Except Fault Video := screen.put a 2 (wordByte w) m

def loadWord (a : ℕ) (m : Video) : Word := m (a + 1) ++ m a

/-- A space in the usual colours. -/
def blank : Word := 0x0720

-- `stosl` of 0x07200720
def blanks (i : ℕ) : Byte := wordByte blank i

/-- Characters with their colours, up to a word whose low byte is 0. -/
structure ShortString where
  chars : List Word
  nulFree : ∀ c ∈ chars, c.setWidth 8 ≠ (0 : Byte)

/-- What the file explorer (1) and the clipboard (2) draw over the screen. -/
structure Overlay where
  scruptStateFlag : ℤ
  currentDirPath : CString
  lsFiles : Fin 10 → ShortString
  clipboard : Fin 10 → { s : CString // s.strlen < 20 }

/-- The `state` of `con_write`; 4 is not left standing between two bytes. -/
inductive EscState where
  | s0
  | s1
  | s2
  | s3
  deriving DecidableEq

structure Console where
  origin : ℕ
  scrEnd : ℕ
  pos : ℕ
  x : ℕ
  y : ℕ
  top : ℕ
  bottom : ℕ
  state : EscState
  npar : ℕ
  par : ℕ → ℕ
  ques : Bool
  attr : Byte
  savedX : ℕ
  savedY : ℕ
  video : Video

/-- What `con_write` reads besides its own variables. -/
structure Settings where
  visible : Bool
  eraseChar : Byte
  overlay : Overlay

section Overlays

def storeWords : List (ℕ × Word) → Video → Except Fault Video
  | [], m => .ok m
  | (a, w) :: ws, m => (storeWord a w m).bind (storeWords ws)

def chars (s : String) : List Byte := s.toList.map fun c => BitVec.ofNat 8 c.toNat

def hash : Byte := 0x23

/-- A text of `len` characters in the middle of a row: the place in it of the row's character `k`. -/
def centred (len : ℤ) (k : ℕ) : Option ℕ :=
  if (22 - len).tdiv 2 ≤ k ∧ k < (22 - len).tdiv 2 + len then some (k - max 0 ((22 - len).tdiv 2)).toNat else none

-- `path` has room for 25 characters, which is not checked; the screen gets the first 22 in any case
def firstRow (title : CString) (k : ℕ) : Byte :=
  let path := chars " [ " ++ title.chars ++ chars " ] "
  ((centred path.length k).map fun p => path.getD p 0).getD hash

def borderColor (title : CString) : Word := if title.chars = chars "CLIPBOARD" then 0x0100 else 0x0300

def renderBorder (origin : ℕ) (title : CString) : List (ℕ × Word) :=
  let color := borderColor title
  let toolVmpos := origin + 2 * (columns - toolWidth)
  let rim := color ||| hash.signExtend 16
  ((List.range toolWidth).map fun k => (toolVmpos + 2 * k, color ||| (firstRow title k).signExtend 16)) ++
    ((List.range 11).flatMap fun r =>
      let i := toolVmpos + 2 * columns * (r + 1)
      (i, rim) :: ((List.range (toolWidth - 2)).map fun j => (i + 2 * (j + 1), (0x0020 : Word))) ++
        [(i + 2 * (toolWidth - 1), rim)]) ++
    (List.range toolWidth).map fun j => (toolVmpos + 2 * columns * 12 + 2 * j, rim)

/-- `short_len`, which is -1 for an empty string. -/
def shortLen (s : ShortString) : ℤ := if s.chars = [] then -1 else s.chars.length

/-- What `print_entry` writes at place `i` of a row, if anything. -/
def nameCell (s : ShortString) (i : ℕ) : Option Word :=
  let start := (22 - shortLen s).tdiv 2
  if start ≤ i ∧ i < (22 + shortLen s).tdiv 2 then some (s.chars.getD (i - max 0 start).toNat 0) else none

def printEntry (origin : ℕ) (s : ShortString) (index : ℕ) : List (ℕ × Word) :=
  (List.range (toolWidth - 2)).filterMap fun i =>
    (nameCell s i).map fun w => (origin + columns * 2 * (index + 2) - toolWidth * 2 + 2 + 2 * i, w)

def renderLs (origin : ℕ) (o : Overlay) : List (ℕ × Word) :=
  (List.finRange 10).flatMap fun i => printEntry origin (o.lsFiles i) i

def printClipboard (origin : ℕ) (o : Overlay) : List (ℕ × Word) :=
  (List.finRange 10).flatMap fun i =>
    (o.clipboard i).val.chars.zipIdx.map fun (c, j) =>
      (origin + columns * 4 - toolWidth * 2 + 2 + 2 * columns * i + 2 * j, 0x0700 ||| c.signExtend 16)

def clipboardTitle : CString := ⟨chars "CLIPBOARD", by decide⟩

/-- Neither of the two on the screen, the clipboard empty. -/
def noOverlay : Overlay where
  scruptStateFlag := 0
  currentDirPath := ⟨chars "/", by decide⟩
  lsFiles := fun _ => ⟨[], by simp⟩
  clipboard := fun _ => ⟨CString.empty, by decide⟩

/-- What `scrup` draws again. -/
def Overlay.writes (o : Overlay) (origin : ℕ) : List (ℕ × Word) :=
  if o.scruptStateFlag = 1 then renderBorder origin o.currentDirPath ++ renderLs origin o
  else if o.scruptStateFlag = 2 then renderBorder origin clipboardTitle ++ printClipboard origin o
  else []

end Overlays

namespace Console

def gotoxy (s : Console) (newX newY : ℕ) : Console :=
  if columns ≤ newX ∨ lines ≤ newY then s
  else { s with x := newX, y := newY, pos := w32 (s.origin + (newY * columns + newX) * 2) }

/-- The first values of the console's variables, and the cursor where the BIOS has left it. -/
def conInit (biosX biosY : Byte) (video : Video) : Console :=
  gotoxy
    { origin := screenStart, scrEnd := screenStart + lines * columns * 2, pos := 0, x := 0, y := 0, top := 0,
      bottom := lines, state := .s0, npar := 0, par := fun _ => 0, ques := false, attr := 0x07, savedX := 0,
      savedY := 0, video := video } biosX.toNat biosY.toNat

/-- The screen moves down in video memory, or back to its start. -/
def scrollOrigin (s : Console) : Except Fault Console :=
  let t := { s with
    origin := w32 (s.origin + columns * 2), pos := w32 (s.pos + columns * 2), scrEnd := w32 (s.scrEnd + columns * 2) }
  if screenEnd < t.scrEnd then
    ((screen.moves 4 ((lines - 1) * columns / 2) screenStart t.origin t.video).bind
      (screen.stores 2 blanks columns (screenStart + 4 * ((lines - 1) * columns / 2)))).map fun m =>
        { t with
          video := m
          scrEnd := w32 (t.scrEnd - (t.origin - screenStart))
          pos := w32 (t.pos - (t.origin - screenStart))
          origin := screenStart }
  else
    (screen.stores 4 blanks (columns / 2) (w32 (t.scrEnd - columns * 2)) t.video).map fun m => { t with video := m }

def scrollRegion (s : Console) : Except Fault Console :=
  let n := w32 ((s.bottom - s.top - 1) * columns) / 2
  ((screen.moves 4 n (w32 (s.origin + columns * 2 * s.top)) (w32 (s.origin + columns * 2 * (s.top + 1))) s.video).bind
    (screen.stores 2 blanks columns (w32 (s.origin + columns * 2 * s.top + 4 * n)))).map fun m => { s with video := m }

def redraw (o : Overlay) (s : Console) : Except Fault Console :=
  (storeWords (o.writes s.origin) s.video).map fun m => { s with video := m }

def scrup (o : Overlay) (s : Console) : Except Fault Console :=
  (if s.top = 0 ∧ s.bottom = lines then s.scrollOrigin else s.scrollRegion).bind (redraw o)

def scrdown (s : Console) : Except Fault Console :=
  let n := w32 ((s.bottom - s.top - 1) * columns) / 2
  let edi := w32 (s.origin + columns * 2 * s.bottom - 4)
  ((screen.movesDown 4 n edi (w32 (s.origin + columns * 2 * (s.bottom - 1) - 4)) s.video).bind
    (screen.storesDown 2 blanks columns (w32 (edi - 4 * n + 2)))).map fun m => { s with video := m }

def lf (o : Overlay) (s : Console) : Except Fault Console :=
  if s.y + 1 < s.bottom then .ok { s with y := s.y + 1, pos := w32 (s.pos + columns * 2) } else s.scrup o

def ri (s : Console) : Except Fault Console :=
  if s.top < s.y then .ok { s with y := s.y - 1, pos := w32 (s.pos - columns * 2) } else s.scrdown

def cr (s : Console) : Console := { s with pos := w32 (s.pos - s.x * 2), x := 0 }

def del (s : Console) : Except Fault Console :=
  if s.x ≠ 0 then
    (storeWord (w32 (s.pos - 2)) blank s.video).map fun m => { s with pos := w32 (s.pos - 2), x := s.x - 1, video := m }
  else .ok s

def erase (s : Console) (start count : ℕ) : Except Fault Console :=
  (screen.stores 2 blanks count start s.video).map fun m => { s with video := m }

def csiJ (s : Console) (par : ℕ) : Except Fault Console :=
  match par with
  | 0 => s.erase s.pos (w32 (s.scrEnd - s.pos) / 2)
  | 1 => s.erase s.origin (w32 (s.pos - s.origin) / 2)
  | 2 => s.erase s.origin (columns * lines)
  | _ => .ok s

def csiK (s : Console) (par : ℕ) : Except Fault Console :=
  match par with
  | 0 => if columns ≤ s.x then .ok s else s.erase s.pos (columns - s.x)
  | 1 => s.erase (w32 (s.pos - s.x * 2)) (if s.x < columns then s.x else columns)
  | 2 => s.erase (w32 (s.pos - s.x * 2)) columns
  | _ => .ok s

def attrOf (attr : Byte) (par : ℕ) : Byte :=
  match par with
  | 0 => 0x07
  | 1 => 0x0f
  | 4 => 0x0f
  | 7 => 0x70
  | 27 => 0x07
  | _ => attr

def csiM (s : Console) : Console :=
  { s with attr := (List.range (s.npar + 1)).foldl (fun attr i => attrOf attr (s.par i)) s.attr }

/-- The loop of `insert_char`: `old` goes to `p` and what was there to the next place. -/
def insertFrom : ℕ → ℕ → Word → Video → Except Fault Video
  | 0, _, _, m => .ok m
  | n + 1, p, old, m => (storeWord p old m).bind (insertFrom n (p + 2) (loadWord p m))

def insertChar (s : Console) : Except Fault Console :=
  (insertFrom (columns - s.x) s.pos blank s.video).map fun m => { s with video := m }

def insertLine (s : Console) : Except Fault Console :=
  (scrdown { s with top := s.y, bottom := lines }).map fun t => { t with top := s.top, bottom := s.bottom }

/-- The loop of `delete_char`. -/
def deleteFrom : ℕ → ℕ → Video → Except Fault Video
  | 0, p, m => storeWord p blank m
  | n + 1, p, m => (storeWord p (loadWord (p + 2) m) m).bind (deleteFrom n (p + 2))

def deleteChar (s : Console) : Except Fault Console :=
  if columns ≤ s.x then .ok s
  else (deleteFrom (columns - s.x - 1) s.pos s.video).map fun m => { s with video := m }

def deleteLine (o : Overlay) (s : Console) : Except Fault Console :=
  (scrup o { s with top := s.y, bottom := lines }).map fun t => { t with top := s.top, bottom := s.bottom }

/-- `while (nr--)` -/
def times (f : Console → Except Fault Console) : ℕ → Console → Except Fault Console
  | 0, s => .ok s
  | n + 1, s => (f s).bind (times f n)

/-- How often `csi_at`, `csi_L`, `csi_P` and `csi_M` do their part: once by default, `most` times at most. -/
def count (nr most : ℕ) : ℕ := if most < nr then most else if nr = 0 then 1 else nr

def csiAt (s : Console) (nr : ℕ) : Except Fault Console := times insertChar (count nr columns) s

def csiL (s : Console) (nr : ℕ) : Except Fault Console := times insertLine (count nr lines) s

def csiP (s : Console) (nr : ℕ) : Except Fault Console := times deleteChar (count nr columns) s

def csiLinesOut (o : Overlay) (s : Console) (nr : ℕ) : Except Fault Console := times (deleteLine o) (count nr lines) s

def saveCur (s : Console) : Console := { s with savedX := s.x, savedY := s.y }

def restoreCur (s : Console) : Console :=
  { s with x := s.savedX, y := s.savedY, pos := w32 (s.origin + (s.savedY * columns + s.savedX) * 2) }

/-- `if (par[i]) par[i]--;` -/
def fromOne (n : ℕ) : ℕ := if n ≠ 0 then n - 1 else n

/-- `if (!par[0]) par[0]++;` -/
def atLeastOne (n : ℕ) : ℕ := if n = 0 then n + 1 else n

/-- The last byte of a sequence, `state` 4. Before the parameters are read again they are cleared. -/
def csi (o : Overlay) (c : Byte) (s : Console) : Except Fault Console :=
  let p := s.par 0
  if c = 71 ∨ c = 96 then .ok (s.gotoxy (fromOne p) s.y)                        -- G `
  else if c = 65 then .ok (s.gotoxy s.x (w32 (s.y - atLeastOne p)))             -- A
  else if c = 66 ∨ c = 101 then .ok (s.gotoxy s.x (w32 (s.y + atLeastOne p)))   -- B e
  else if c = 67 ∨ c = 97 then .ok (s.gotoxy (w32 (s.x + atLeastOne p)) s.y)    -- C a
  else if c = 68 then .ok (s.gotoxy (w32 (s.x - atLeastOne p)) s.y)             -- D
  else if c = 69 then .ok (s.gotoxy 0 (w32 (s.y + atLeastOne p)))               -- E
  else if c = 70 then .ok (s.gotoxy 0 (w32 (s.y - atLeastOne p)))               -- F
  else if c = 100 then .ok (s.gotoxy s.x (fromOne p))                           -- d
  else if c = 72 ∨ c = 102 then .ok (s.gotoxy (fromOne (s.par 1)) (fromOne p))  -- H f
  else if c = 74 then s.csiJ p                                                  -- J
  else if c = 75 then s.csiK p                                                  -- K
  else if c = 76 then s.csiL p                                                  -- L
  else if c = 77 then csiLinesOut o s p                                         -- M
  else if c = 80 then s.csiP p                                                  -- P
  else if c = 64 then s.csiAt p                                                 -- @
  else if c = 109 then .ok s.csiM                                               -- m
  else if c = 114 then                                                          -- r
    let newBottom := if s.par 1 = 0 then lines else s.par 1
    if fromOne p < newBottom ∧ newBottom ≤ lines then .ok { s with top := fromOne p, bottom := newBottom } else .ok s
  else if c = 115 then .ok s.saveCur                                            -- s
  else if c = 117 then .ok s.restoreCur                                         -- u
  else .ok s

/-- A printable character. -/
def print (o : Overlay) (c : Byte) (s : Console) : Except Fault Console :=
  (if columns ≤ s.x then lf o { s with x := s.x - columns, pos := w32 (s.pos - columns * 2) } else .ok s).bind fun t =>
    (storeWord t.pos (t.attr ++ c) t.video).map fun m => { t with video := m, pos := w32 (t.pos + 2), x := t.x + 1 }

def tab (o : Overlay) (s : Console) : Except Fault Console :=
  let c := 8 - s.x % 8
  let t := { s with x := s.x + c, pos := w32 (s.pos + c * 2) }
  if columns < t.x then lf o { t with x := t.x - columns, pos := w32 (t.pos - columns * 2) } else .ok t

def plainByte (q : Settings) (c : Byte) (s : Console) : Except Fault Console :=
  if 31 < c.toInt ∧ c.toInt < 127 ∧ q.visible then print q.overlay c s
  else if c = 27 then .ok { s with state := .s1 }
  else if c = 10 ∨ c = 11 ∨ c = 12 then lf q.overlay s
  else if c = 13 then .ok s.cr
  else if c.toInt = q.eraseChar.toNat then s.del
  else if c = 8 then .ok (if s.x ≠ 0 then { s with x := s.x - 1, pos := w32 (s.pos - 2) } else s)
  else if c = 9 then tab q.overlay s
  else .ok s

/-- The byte after ESC. The last two tests are of `x`, the column; the answer to `Z` is `respond`. -/
def escByte (o : Overlay) (c : Byte) (s : Console) : Except Fault Console :=
  let t := { s with state := .s0 }
  if c = 91 then .ok { t with state := .s2 }         -- [
  else if c = 69 then .ok (t.gotoxy 0 (t.y + 1))     -- E
  else if c = 77 then t.ri                           -- M
  else if c = 68 then t.lf o                         -- D
  else if c = 90 then .ok t                          -- Z
  else if t.x = 55 then .ok t.saveCur
  else if t.x = 56 then .ok t.restoreCur
  else .ok t

/-- A byte in `state` 3. -/
def parByte (o : Overlay) (c : Byte) (s : Console) : Except Fault Console :=
  if c = 59 ∧ s.npar < nPar - 1 then .ok { s with npar := s.npar + 1 }
  else if 48 ≤ c.toInt ∧ c.toInt ≤ 57 then
    if s.npar < nPar then
      .ok { s with par := Function.update s.par s.npar (w32 (10 * s.par s.npar + c.toInt - 48)) }
    else .error .overrun
  else csi o c { s with state := .s0 }

/-- One turn of the loop of `con_write`, less `respond`. -/
def conByte (q : Settings) (c : Byte) (s : Console) : Except Fault Console :=
  match s.state with
  | .s0 => s.plainByte q c
  | .s1 => s.escByte q.overlay c
  | .s2 =>
    let t := { s with par := fun i => if i < nPar then 0 else s.par i, npar := 0, state := .s3, ques := c = 63 }
    if c = 63 then .ok t else t.parByte q.overlay c
  | .s3 => s.parByte q.overlay c

end Console

end Devos.Tty
