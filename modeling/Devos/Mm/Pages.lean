import Devos.Basic
import Devos.Library.Longs
import Devos.Library.Loops

/-! `mm/memory.c`: the map of the pages in use, and page tables in the memory they map. Pages are
given by their numbers, `addr >> 12`. The page directory is page 0. -/

namespace Devos.Mm

open Longs Loops

/-- `LOW_MEM` -/
abbrev lowMem : ℕ := 512

/-- `HIGH_MEMORY` -/
abbrev highMemory : ℕ := 2048

/-- `PAGING_PAGES` -/
abbrev pagingPages : ℕ := highMemory - lowMem

section Words

variable (w : ℕ)

-- an entry is the number of its page with `1` for present, `2` for writable and `4` for user in the low bits

def present : Prop := w % 2 = 1

def writable : Prop := w / 2 % 2 = 1

instance : Decidable (present w) := inferInstanceAs (Decidable (_ = _))

instance : Decidable (writable w) := inferInstanceAs (Decidable (_ = _))

/-- `0xfffff000 & w` -/
def frame : ℕ := w / 4096

/-- `w | 2` -/
def allowWrite : ℕ := if writable w then w else w + 2

/-- `w & ~2` -/
def denyWrite : ℕ := if writable w then w - 2 else w

/-- `page | 7` -/
def full (page : ℕ) : ℕ := page * 4096 + 7

end Words

/-- `memMap` is `mem_map`, by page. `lost` has the pages that `do_no_page` takes and then forgets; no code
reads it. -/
structure Pages where
  memMap : ℕ → ℕ
  mem : Memory
  lost : List ℕ

namespace Pages

def setEntry (m : Pages) (t i w : ℕ) : Pages := { m with mem := setLong m.mem t i w }

def setMap (m : Pages) (p k : ℕ) : Pages := { m with memMap := Function.update m.memMap p k }

/-- The scan of `get_free_page`, from the last page down. -/
def lastFree (m : Pages) : ℕ → Option ℕ
  | 0 => none
  | n + 1 => if m.memMap (lowMem + n) = 0 then some (lowMem + n) else m.lastFree n

/-- `get_free_page` marks the page as used and clears it. -/
def getFreePage (m : Pages) : Option (ℕ × Pages) :=
  (m.lastFree pagingPages).map fun p => (p, { m.setMap p 1 with mem := Function.update m.mem p fun _ => 0 })

def freePage (p : ℕ) (m : Pages) : Except Fault Pages :=
  if p < lowMem then .ok m
  else if highMemory < p then .error .panic
  else if m.memMap p = 0 then .error .panic
  else .ok (m.setMap p (m.memMap p - 1))

/-- An entry of a page table goes, and what it refers to. -/
def freeEntry (t e : ℕ) (m : Pages) : Except Fault Pages :=
  (if present (long m.mem t e) then freePage (frame (long m.mem t e)) m else .ok m).map (·.setEntry t e 0)

def freeDir (d : ℕ) (m : Pages) : Except Fault Pages :=
  if present (long m.mem 0 d) then
    let t := frame (long m.mem 0 d)
    (forLoopE (freeEntry t) m 1024).bind fun m => (freePage t m).map (·.setEntry 0 d 0)
  else .ok m

/-- The number of page tables for `size` bytes, `(size + 0x3fffff) >> 22`. -/
def tablesFor (size : ℕ) : ℕ := (size + 0x3fffff) / 2 ^ 22

def freePageTables (start size : ℕ) (m : Pages) : Except Fault Pages :=
  if start % 2 ^ 22 ≠ 0 ∨ start = 0 then .error .panic
  else forLoopE (fun i => freeDir (start / 2 ^ 22 + i)) m (tablesFor size)

/-- One turn of the inner loop of `copy_page_tables`. A page in use by both tables cannot be written from either. -/
def copyEntry (src dst e : ℕ) (m : Pages) : Pages :=
  if present (long m.mem src e) then
    let thisPage := denyWrite (long m.mem src e)
    let m := m.setEntry dst e thisPage
    if lowMem * 4096 < thisPage then
      (m.setEntry src e thisPage).setMap (frame thisPage) ((m.memMap (frame thisPage) + 1) % 2 ^ 16)
    else m
  else m

/-- The outer loop of `copy_page_tables`; `false` when there is no memory for a table. -/
def copyDirs (nr : ℕ) : ℕ → ℕ → ℕ → Pages → Except Fault (Pages × Bool)
  | 0, _, _, m => .ok (m, true)
  | size + 1, src, dst, m =>
    if present (long m.mem 0 dst) then .error .panic
    else if present (long m.mem 0 src) then
      let t := frame (long m.mem 0 src)
      match m.getFreePage with
      | none => .ok (m, false)
      | some (p, m) =>
        copyDirs nr size (src + 1) (dst + 1) (forLoop 0 nr (copyEntry t p) (m.setEntry 0 dst (full p)))
    else copyDirs nr size (src + 1) (dst + 1) m

/-- `copy_page_tables`; of the kernel's space only 640 kB. -/
def copyPageTables (start dest size : ℕ) (m : Pages) : Except Fault (Pages × Bool) :=
  if start % 2 ^ 22 ≠ 0 ∨ dest % 2 ^ 22 ≠ 0 then .error .panic
  else copyDirs (if start = 0 then 0xA0 else 1024) (tablesFor size) (start / 2 ^ 22) (dest / 2 ^ 22) m

/-- `put_page`, whose messages are left out, at entry `e` of table `d`; `none` without memory for the table. -/
def putPage (page d e : ℕ) (m : Pages) : Option Pages :=
  if present (long m.mem 0 d) then some (m.setEntry (frame (long m.mem 0 d)) e (full page))
  else m.getFreePage.map fun (t, m) => (m.setEntry 0 d (full t)).setEntry t e (full page)

def copyPage (m : Pages) (p q : ℕ) : Pages := { m with mem := Function.update m.mem q (m.mem p) }

/-- `un_wp_page`, on entry `e` of the table in page `t`; `false` for `do_exit`, without memory. -/
def unWpPage (t e : ℕ) (m : Pages) : Pages × Bool :=
  let oldPage := frame (long m.mem t e)
  if lowMem ≤ oldPage ∧ m.memMap oldPage = 1 then (m.setEntry t e (allowWrite (long m.mem t e)), true)
  else
    match m.getFreePage with
    | none => (m, false)
    | some (newPage, m) =>
      let m := if lowMem ≤ oldPage then m.setMap oldPage (m.memMap oldPage - 1) else m
      ((m.setEntry t e (full newPage)).copyPage oldPage newPage, true)

def doWpPage (d e : ℕ) (m : Pages) : Pages × Bool := unWpPage (frame (long m.mem 0 d)) e m

def writeVerify (d e : ℕ) (m : Pages) : Pages × Bool :=
  if present (long m.mem 0 d) then
    let t := frame (long m.mem 0 d)
    if present (long m.mem t e) ∧ ¬writable (long m.mem t e) then unWpPage t e m else (m, true)
  else (m, true)

/-- `do_no_page`; `false` for `do_exit`. The page it has taken is not given back when there is none for the table. -/
def doNoPage (d e : ℕ) (m : Pages) : Pages × Bool :=
  match m.getFreePage with
  | none => (m, false)
  | some (tmp, m) =>
    match m.putPage tmp d e with
    | some m => (m, true)
    | none => ({ m with lost := tmp :: m.lost }, false)

end Pages

end Devos.Mm
