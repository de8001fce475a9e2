import Mathlib.Algebra.Group.Nat.Defs
import Mathlib.Logic.Function.Basic
import Mathlib.Data.Nat.Notation
import Mathlib.Data.List.Basic
import Mathlib.Data.Set.Defs
import Mathlib.Tactic.Lemma

/-! From the blocks of a partition to the sectors of the disk, and what a write leaves there when the controller reports
errors. -/

namespace Devos.Kernel

/-- `hd_info[0]`, the only disk. -/
structure HdInfo where
  head : ℕ
  sect : ℕ
  cyl : ℕ

/-- `hd[dev]` -/
structure HdStruct where
  startSect : ℕ
  nrSects : ℕ

/-- The registers of the controller. -/
structure SectorAddress where
  cyl : ℕ
  head : ℕ
  sector : ℕ

section Address

variable (info : HdInfo) (hd : ℕ → HdStruct)

/-- `rw_hd`, to the place of the first of the two sectors; `none` if it does nothing. -/
def rwHd (dev blocknr : ℕ) : Option SectorAddress :=
  let block := 2 * blocknr % 2 ^ 32
  if 5 ≤ dev ∨ (hd dev).nrSects < (block + 2) % 2 ^ 32 then none
  else
    let block := (block + (hd dev).startSect) % 2 ^ 32
    let sec := block % info.sect
    let block := block / info.sect
    some ⟨block / info.head, block % info.head, sec + 1⟩

/-- `hd_out`, `none` if it panics. -/
def hdOut (r : SectorAddress) : Option SectorAddress :=
  if 15 < r.head then none else some ⟨r.cyl % 256 + 256 * (r.cyl / 256 % 256), r.head % 16, r.sector % 256⟩

/-- The sector at which the controller begins. -/
def HdInfo.sectorAt (r : SectorAddress) : ℕ := (r.cyl * info.head + r.head) * info.sect + (r.sector - 1)

/-- The disk as a whole, `hd[0]`, and four partitions of it. -/
structure HdInfo.Fits (info : HdInfo) (hd : ℕ → HdStruct) : Prop where
  head_pos : 0 < info.head
  head_le : info.head ≤ 16
  sect_pos : 0 < info.sect
  sect_lt : info.sect < 256
  cyl_le : info.cyl ≤ 65536
  inside : ∀ dev < 5, (hd dev).startSect + (hd dev).nrSects ≤ info.head * info.sect * info.cyl

end Address

section Interrupts

variable {σ ι ρ : Type*} {intr : σ → ι → σ ⊕ ρ} {s s' : σ} {i : ι} {is : List ι} {r r' : ρ}

/-- The interrupts of a request up to its end, `none` if they are not all of them or too many. -/
def intrRun (intr : σ → ι → σ ⊕ ρ) : σ → List ι → Option ρ
  | _, [] => none
  | s, i :: is =>
    match intr s i with
    | .inl s' => intrRun intr s' is
    | .inr r => if is.isEmpty then some r else none

@[simp] lemma intrRun_nil : intrRun intr s [] = none := rfl

lemma intrRun_next (h : intr s i = .inl s') : intrRun intr s (i :: is) = intrRun intr s' is := by
  rw [intrRun, h]

lemma intrRun_end (h : intr s i = .inr r) : intrRun intr s (i :: is) = some r' ↔ is = [] ∧ r' = r := by
  rw [intrRun, h]
  cases is <;> simp [eq_comm]

end Interrupts

section Writing

variable {D : Type*}

/-- How the interrupt finds the sector that was to be written: as it was to be, or with something in it. -/
inductive DiskReport (D : Type*) where
  | ok
  | error (left : D)

/-- A write under way, with the sector that the controller is at and the data for it. -/
structure DiskWrite (D : Type*) where
  disk : ℕ → D
  nsector : ℕ
  errors : ℕ
  place : ℕ
  data : D

/-- `do_request`: from the first sector, with the first half of the buffer or the second as `nsector` is even or odd. -/
def doWrite (lba : ℕ) (first second : D) (nsector errors : ℕ) (disk : ℕ → D) : DiskWrite D :=
  ⟨disk, nsector, errors, lba, if nsector % 2 = 0 then first else second⟩

/-- `write_intr`, and `bad_rw_intr` with the reset: to the next state, or to the end with `b_uptodate`. -/
def writeIntr (lba : ℕ) (first second : D) (s : DiskWrite D) : DiskReport D → DiskWrite D ⊕ ((ℕ → D) × Bool)
  | .ok =>
    let disk := Function.update s.disk s.place s.data
    if s.nsector - 1 ≠ 0 then .inl ⟨disk, s.nsector - 1, s.errors, s.place + 1, second⟩ else .inr (disk, true)
  | .error left =>
    let disk := Function.update s.disk s.place left
    if 5 ≤ s.errors then .inr (disk, false) else .inl (doWrite lba first second s.nsector (s.errors + 1) disk)

def writeRun (lba : ℕ) (first second : D) : DiskWrite D → List (DiskReport D) → Option ((ℕ → D) × Bool) :=
  intrRun (writeIntr lba first second)

variable {lba e : ℕ} {first second : D} {disk disk' : ℕ → D} {is : List (DiskReport D)}

/-- After an error the request can still come to a good end if it is not the sixth. -/
lemma writeRun_error (s : DiskWrite D) (left : D) :
    writeRun lba first second s (.error left :: is) = some (disk', true) ↔ s.errors < 5 ∧
      writeRun lba first second
        (doWrite lba first second s.nsector (s.errors + 1) (Function.update s.disk s.place left)) is =
          some (disk', true) := by
  by_cases hmany : 5 ≤ s.errors
  · rw [writeRun, intrRun_end (if_pos hmany)]
    exact iff_of_false (fun h => Bool.noConfusion (Prod.mk.inj h.2).2) fun h => absurd h.1 (Nat.not_lt.mpr hmany)
  · rw [writeRun, intrRun_next (if_neg hmany)]
    exact (and_iff_right (Nat.not_le.mp hmany)).symm

/-- The last sector of a request. -/
lemma writeRun_last (s : DiskWrite D) (hs : s.nsector = 1) :
    writeRun lba first second s (.ok :: is) = some (disk', true) ↔
      is = [] ∧ disk' = Function.update s.disk s.place s.data := by
  have hend : writeIntr lba first second s .ok = .inr (Function.update s.disk s.place s.data, true) :=
    if_neg (by rw [hs]; decide)
  rw [writeRun, intrRun_end hend, Prod.mk.injEq, and_iff_left rfl]

/-- Once more from the first sector, with the second half of the buffer. -/
lemma writeRun_retry (he : e ≤ 5) :
    writeRun lba first second (doWrite lba first second 1 e disk) is = some (disk', true) ↔
      ∃ gs : List D, is = gs.map .error ++ [.ok] ∧ e + gs.length ≤ 5 ∧ disk' = Function.update disk lba second := by
  induction is generalizing e disk with
  | nil => simp [writeRun]
  | cons i is ih =>
    cases i with
    | ok =>
      rw [writeRun_last _ rfl]
      constructor
      · rintro ⟨rfl, rfl⟩
        exact ⟨[], rfl, he, rfl⟩
      · rintro ⟨gs, hgs, _, rfl⟩
        cases gs with
        | nil => exact ⟨(List.cons.inj hgs).2, rfl⟩
        | cons g gs => cases (List.cons.inj hgs).1
    | error left =>
      rw [writeRun_error]
      constructor
      · rintro ⟨hlt, hrun⟩
        obtain ⟨gs, rfl, hle, rfl⟩ := (ih (show e + 1 ≤ 5 from hlt)).mp hrun
        exact ⟨left :: gs, rfl, by rw [List.length_cons]; omega, Function.update_idem _ _ _⟩
      · rintro ⟨gs, hgs, hle, rfl⟩
        cases gs with
        | nil => cases (List.cons.inj hgs).1
        | cons g gs =>
          rw [List.length_cons] at hle
          have hlt : e < 5 := by omega
          exact ⟨hlt, (ih hlt).mpr ⟨gs, (List.cons.inj hgs).2, by omega, (Function.update_idem _ _ _).symm⟩⟩

/-- The second sector, after the first has been taken. -/
lemma writeRun_second (he : e ≤ 5) :
    writeRun lba first second ⟨disk, 1, e, lba + 1, second⟩ is = some (disk', true) ↔
      ∃ gs : List D, is = gs.map .error ++ [.ok] ∧ e + gs.length ≤ 5 ∧
        disk' = Function.update (if gs = [] then disk else Function.update disk lba second) (lba + 1)
          (gs.head?.getD second) := by
  cases is with
  | nil => simp [writeRun]
  | cons i is =>
    cases i with
    | ok =>
      rw [writeRun_last _ rfl]
      constructor
      · rintro ⟨rfl, rfl⟩
        exact ⟨[], rfl, he, rfl⟩
      · rintro ⟨gs, hgs, _, rfl⟩
        cases gs with
        | nil => exact ⟨(List.cons.inj hgs).2, rfl⟩
        | cons g gs => cases (List.cons.inj hgs).1
    | error left =>
      have hcomm : Function.update (Function.update disk (lba + 1) left) lba second =
          Function.update (Function.update disk lba second) (lba + 1) left :=
        Function.update_comm (Nat.succ_ne_self lba) _ _ _
      rw [writeRun_error]
      constructor
      · rintro ⟨hlt, hrun⟩
        obtain ⟨gs, rfl, hle, rfl⟩ := (writeRun_retry (show e + 1 ≤ 5 from hlt)).mp hrun
        exact ⟨left :: gs, rfl, by rw [List.length_cons]; omega, hcomm⟩
      · rintro ⟨gs, hgs, hle, rfl⟩
        cases gs with
        | nil => cases (List.cons.inj hgs).1
        | cons g gs =>
          obtain ⟨hg, rfl⟩ := List.cons.inj hgs
          obtain rfl := DiskReport.error.inj hg
          rw [List.length_cons] at hle
          have hlt : e < 5 := by omega
          exact ⟨hlt, (writeRun_retry hlt).mpr ⟨gs, rfl, by omega, hcomm.symm⟩⟩

lemma writeRun_first (he : e ≤ 5) :
    writeRun lba first second (doWrite lba first second 2 e disk) is = some (disk', true) ↔
      ∃ gs₁ gs₂ : List D, is = gs₁.map .error ++ .ok :: (gs₂.map .error ++ [.ok]) ∧
        e + gs₁.length + gs₂.length ≤ 5 ∧
        disk' = Function.update (Function.update disk lba (if gs₂ = [] then first else second)) (lba + 1)
          (gs₂.head?.getD second) := by
  induction is generalizing e disk with
  | nil => simp [writeRun]
  | cons i is ih =>
    cases i with
    | ok =>
      have hrun : writeRun lba first second (doWrite lba first second 2 e disk) (.ok :: is) =
          writeRun lba first second ⟨Function.update disk lba first, 1, e, lba + 1, second⟩ is := rfl
      have hdisk : ∀ gs : List D, (if gs = [] then Function.update disk lba first
          else Function.update (Function.update disk lba first) lba second) =
          Function.update disk lba (if gs = [] then first else second) := by
        intro gs
        split_ifs
        · rfl
        · exact Function.update_idem _ _ _
      rw [hrun, writeRun_second he]
      constructor
      · rintro ⟨gs, rfl, hle, rfl⟩
        exact ⟨[], gs, rfl, hle, by rw [hdisk]⟩
      · rintro ⟨gs₁, gs₂, hgs, hle, rfl⟩
        cases gs₁ with
        | nil => exact ⟨gs₂, (List.cons.inj hgs).2, hle, by rw [hdisk]⟩
        | cons g gs => cases (List.cons.inj hgs).1
    | error left =>
      rw [writeRun_error]
      constructor
      · rintro ⟨hlt, hrun⟩
        obtain ⟨gs₁, gs₂, rfl, hle, rfl⟩ := (ih (show e + 1 ≤ 5 from hlt)).mp hrun
        exact ⟨left :: gs₁, gs₂, rfl, by rw [List.length_cons]; omega,
          congrArg (Function.update · (lba + 1) _) (Function.update_idem _ _ _)⟩
      · rintro ⟨gs₁, gs₂, hgs, hle, rfl⟩
        cases gs₁ with
        | nil => cases (List.cons.inj hgs).1
        | cons g gs =>
          rw [List.length_cons] at hle
          have hlt : e < 5 := by omega
          exact ⟨hlt, (ih hlt).mpr ⟨gs, gs₂, (List.cons.inj hgs).2, by omega,
            congrArg (Function.update · (lba + 1) _) (Function.update_idem _ _ _).symm⟩⟩

/-- A write is reported done exactly after two sectors and no more than five errors. With an error after the first
sector this one has been written again, with the second half of the buffer, and the second one stays as the error has
left it. -/
theorem write_done_iff : writeRun lba first second (doWrite lba first second 2 0 disk) is = some (disk', true) ↔
    ∃ gs₁ gs₂ : List D, is = gs₁.map .error ++ .ok :: (gs₂.map .error ++ [.ok]) ∧ gs₁.length + gs₂.length ≤ 5 ∧
      disk' = Function.update (Function.update disk lba (if gs₂ = [] then first else second)) (lba + 1)
        (gs₂.head?.getD second) := by
  simpa using writeRun_first (e := 0) (Nat.zero_le 5)

end Writing

section Reading

variable {D : Type*}

/-- How the second sector of a read comes: while `read_intr` is at the first, so that its interrupt comes inside the
other, with an error then, or too late. -/
inductive SecondSector where
  | inside
  | error
  | late
  deriving DecidableEq

inductive ReadReport where
  | error
  | ok (second : SecondSector)

/-- The buffer of a request at its end; `nextToo` if the request behind it has been ended as well. -/
structure ReadEnd (D : Type*) where
  first : D
  second : D
  uptodate : Bool
  nextToo : Bool

/-- `read_intr`, and `bad_rw_intr` with the reset, after `errors` errors. -/
def readIntr (lba : ℕ) (disk : ℕ → D) (first second : D) (errors : ℕ) : ReadReport → ℕ ⊕ ReadEnd D
  | .error => if 5 ≤ errors then .inr ⟨first, second, false, false⟩ else .inl (errors + 1)
  | .ok .inside => .inr ⟨disk lba, disk (lba + 1), true, false⟩
  -- the interrupt inside ends this request at the sixth error, and what is left of the other ends the next one
  | .ok .error => if 5 ≤ errors then .inr ⟨disk lba, second, false, true⟩ else .inr ⟨disk lba, second, true, false⟩
  | .ok .late => .inr ⟨disk lba, second, true, false⟩

def readRun (lba : ℕ) (disk : ℕ → D) (first second : D) : ℕ → List ReadReport → Option (ReadEnd D) :=
  intrRun (readIntr lba disk first second)

variable {lba e : ℕ} {first second : D} {disk : ℕ → D} {is : List ReadReport} {r : ReadEnd D}

end Reading

section Partitions

variable {D : Type*} (info : HdInfo) (hd : ℕ → HdStruct)

/-- What is asked of the disk: a buffer with these two halves is to be written, or to be read into. -/
inductive DiskOp (D : Type*) where
  | write (dev blocknr : ℕ) (first second : D)
  | read (dev blocknr : ℕ) (first second : D)

def DiskOp.dev : DiskOp D → ℕ
  | .write dev _ _ _ => dev
  | .read dev _ _ _ => dev

def DiskOp.blocknr : DiskOp D → ℕ
  | .write _ blocknr _ _ => blocknr
  | .read _ blocknr _ _ => blocknr

/-- Requests that meet no error, with second sectors that come in time, and what is read. -/
def diskOp (disk : ℕ → D) : DiskOp D → (ℕ → D) × Option (D × D)
  | .write dev blocknr first second =>
    match (rwHd info hd dev blocknr).bind hdOut with
    | none => (disk, none)
    | some r =>
      let lba := info.sectorAt r
      (((writeRun lba first second (doWrite lba first second 2 0 disk) [.ok, .ok]).map Prod.fst).getD disk, none)
  | .read dev blocknr first second =>
    (disk, ((rwHd info hd dev blocknr).bind hdOut).bind fun r =>
      (readRun (info.sectorAt r) disk first second 0 [.ok .inside]).map fun e => (e.first, e.second))

/-- The same on blocks that each partition has for itself. -/
def blockOp (store : ℕ → ℕ → D × D) : DiskOp D → (ℕ → ℕ → D × D) × Option (D × D)
  | .write dev blocknr first second =>
    (fun d b => if d = dev ∧ b = blocknr then (first, second) else store d b, none)
  | .read dev blocknr _ _ => (store, if 2 * blocknr + 2 ≤ (hd dev).nrSects then some (store dev blocknr) else none)

/-- All that is read in a run. -/
def answers {σ : Type*} (op : σ → DiskOp D → σ × Option (D × D)) : σ → List (DiskOp D) → List (Option (D × D))
  | _, [] => []
  | s, o :: os => (op s o).2 :: answers op (op s o).1 os

variable {info hd}

/-- The registers that `hd_out` gets for a sector of the disk lead back to it. -/
lemma sectorAt_hdOut (h : info.Fits hd) {block : ℕ} (hblock : block < info.head * info.sect * info.cyl) :
    ∃ r, hdOut ⟨block / info.sect / info.head, block / info.sect % info.head, block % info.sect + 1⟩ = some r ∧
      info.sectorAt r = block := by
  have hhead := Nat.mod_lt (block / info.sect) h.head_pos
  have hsec := Nat.mod_lt block h.sect_pos
  have hle := h.head_le
  have hlt := h.sect_lt
  have hcyl : block / info.sect / info.head < 65536 := by
    rw [Nat.div_div_eq_div_mul, Nat.mul_comm info.sect]
    exact Nat.lt_of_lt_of_le (Nat.div_lt_of_lt_mul hblock) h.cyl_le
  have hregister : ∀ c, c < 65536 → c % 256 + 256 * (c / 256 % 256) = c := by omega
  refine ⟨_, if_neg (by dsimp only; omega), ?_⟩
  rw [HdInfo.sectorAt]
  dsimp only
  rw [hregister _ hcyl, Nat.mod_eq_of_lt (show block / info.sect % info.head < 16 by omega),
    Nat.mod_eq_of_lt (show block % info.sect + 1 < 256 by omega), Nat.add_sub_cancel, Nat.div_add_mod',
    Nat.div_add_mod']

/-- The first sector of a block, with both of them inside the partition. -/
lemma rwHd_sectors (h : info.Fits hd) {dev blocknr : ℕ} (hdev : dev < 5) (hroom : 2 * blocknr + 2 ≤ (hd dev).nrSects) :
    ∃ r, (rwHd info hd dev blocknr).bind hdOut = some r ∧ info.sectorAt r = 2 * blocknr + (hd dev).startSect := by
  have hinside := h.inside dev hdev
  have hsize : info.head * info.sect * info.cyl ≤ 16 * 255 * 65536 :=
    Nat.mul_le_mul (Nat.mul_le_mul h.head_le (Nat.le_of_lt_succ h.sect_lt)) h.cyl_le
  have hblock : 2 * blocknr % 2 ^ 32 = 2 * blocknr := Nat.mod_eq_of_lt (by omega)
  have hmod : (2 * blocknr + (hd dev).startSect) % 2 ^ 32 = 2 * blocknr + (hd dev).startSect :=
    Nat.mod_eq_of_lt (by omega)
  rw [rwHd, hblock, if_neg (by omega)]
  dsimp only
  rw [hmod]
  exact sectorAt_hdOut h (by omega)

lemma rwHd_none {dev blocknr : ℕ} (hnr : blocknr < 2 ^ 31 - 1) (hroom : ¬2 * blocknr + 2 ≤ (hd dev).nrSects) :
    rwHd info hd dev blocknr = none := by
  have hblock : 2 * blocknr % 2 ^ 32 = 2 * blocknr := Nat.mod_eq_of_lt (by omega)
  exact if_pos (Or.inr (by omega))

/-- Each block of the partitions has its halves in its two sectors. -/
def Holds (hd : ℕ → HdStruct) (S : Set ℕ) (disk : ℕ → D) (store : ℕ → ℕ → D × D) : Prop :=
  ∀ dev ∈ S, ∀ blocknr, 2 * blocknr + 2 ≤ (hd dev).nrSects → store dev blocknr =
    (disk (2 * blocknr + (hd dev).startSect), disk (2 * blocknr + (hd dev).startSect + 1))

/-- No sector is in two of the partitions. -/
def Apart (hd : ℕ → HdStruct) (S : Set ℕ) : Prop :=
  ∀ d ∈ S, ∀ e ∈ S, d ≠ e → (hd d).startSect + (hd d).nrSects ≤ (hd e).startSect ∨
    (hd e).startSect + (hd e).nrSects ≤ (hd d).startSect

variable {S : Set ℕ} {disk : ℕ → D} {store : ℕ → ℕ → D × D}

lemma diskOp_write (h : info.Fits hd) {dev blocknr : ℕ} (hdev : dev < 5) (hroom : 2 * blocknr + 2 ≤ (hd dev).nrSects)
    (first second : D) : diskOp info hd disk (.write dev blocknr first second) =
      (Function.update (Function.update disk (2 * blocknr + (hd dev).startSect) first)
        (2 * blocknr + (hd dev).startSect + 1) second, none) := by
  obtain ⟨r, hr, hat⟩ := rwHd_sectors h hdev hroom
  rw [diskOp]
  simp only [hr, hat]
  rfl

lemma written_elsewhere {x place : ℕ} {first second : D} (hfirst : x ≠ place) (hsecond : x ≠ place + 1) :
    Function.update (Function.update disk place first) (place + 1) second x = disk x := by
  rw [Function.update_of_ne hsecond, Function.update_of_ne hfirst]

lemma Holds.step (h : Holds hd S disk store) (hfits : info.Fits hd) (hS : ∀ dev ∈ S, dev < 5)
    (hapart : Apart hd S) {o : DiskOp D} (ho : o.dev ∈ S) (hnr : o.blocknr < 2 ^ 31 - 1) :
    (diskOp info hd disk o).2 = (blockOp hd store o).2 ∧
      Holds hd S (diskOp info hd disk o).1 (blockOp hd store o).1 := by
  cases o with
  | write dev blocknr first second =>
    by_cases hroom : 2 * blocknr + 2 ≤ (hd dev).nrSects
    · rw [diskOp_write hfits (hS dev ho) hroom]
      refine ⟨rfl, fun d hd' b hb => ?_⟩
      dsimp only [blockOp]
      by_cases hsame : d = dev ∧ b = blocknr
      · obtain ⟨rfl, rfl⟩ := hsame
        rw [if_pos ⟨rfl, rfl⟩, Function.update_self, Function.update_of_ne (Nat.ne_of_lt (Nat.lt_succ_self _)),
          Function.update_self]
      · have hother : 2 * b + (hd d).startSect + 2 ≤ 2 * blocknr + (hd dev).startSect ∨
            2 * blocknr + (hd dev).startSect + 2 ≤ 2 * b + (hd d).startSect := by
          by_cases hdev : d = dev
          · subst hdev
            have hne : b ≠ blocknr := fun hb => hsame ⟨rfl, hb⟩
            omega
          · have := hapart d hd' dev ho hdev
            omega
        rw [if_neg hsame, written_elsewhere (by omega) (by omega), written_elsewhere (by omega) (by omega)]
        exact h d hd' b hb
    · have hnone : diskOp info hd disk (.write dev blocknr first second) = (disk, none) := by
        rw [diskOp, rwHd_none (show blocknr < 2 ^ 31 - 1 from hnr) hroom]
        rfl
      rw [hnone]
      refine ⟨rfl, fun d hd' b hb => ?_⟩
      dsimp only [blockOp]
      rw [if_neg (by rintro ⟨rfl, rfl⟩; exact hroom hb)]
      exact h d hd' b hb
  | read dev blocknr first second =>
    refine ⟨?_, h⟩
    by_cases hroom : 2 * blocknr + 2 ≤ (hd dev).nrSects
    · obtain ⟨r, hr, hat⟩ := rwHd_sectors hfits (hS dev ho) hroom
      dsimp only [diskOp, blockOp]
      rw [hr, if_pos hroom, h dev ho blocknr hroom, ← hat]
      rfl
    · dsimp only [diskOp, blockOp]
      rw [rwHd_none (show blocknr < 2 ^ 31 - 1 from hnr) hroom, if_neg hroom]
      rfl

/-- Partitions that do not overlap are arrays of blocks: whatever is written and read, each block reads as it was last
written, and outside the partition nothing is read and nothing written. -/
theorem partitions_hold_blocks (hfits : info.Fits hd) (hS : ∀ dev ∈ S, dev < 5) (hapart : Apart hd S)
    (h : Holds hd S disk store) {os : List (DiskOp D)} (hos : ∀ o ∈ os, o.dev ∈ S ∧ o.blocknr < 2 ^ 31 - 1) :
    answers (diskOp info hd) disk os = answers (blockOp hd) store os := by
  induction os generalizing disk store with
  | nil => rfl
  | cons o os ih =>
    obtain ⟨ho, hnr⟩ := hos o List.mem_cons_self
    obtain ⟨hsame, hnext⟩ := h.step hfits hS hapart ho hnr
    rw [answers, answers, hsame, ih hnext fun o ho => hos o (List.mem_cons_of_mem _ ho)]

section Examples

/-- The disk of the configuration with two partitions on it. -/
def smallDisk : HdInfo := ⟨4, 20, 1024⟩

def twoPartitions : ℕ → HdStruct
  | 0 => ⟨0, 81920⟩
  | 1 => ⟨1, 9999⟩
  | 2 => ⟨10000, 20000⟩
  | _ => ⟨0, 0⟩

lemma smallDisk_fits : smallDisk.Fits twoPartitions :=
  ⟨by decide, by decide, by decide, by decide, by decide, by decide⟩

def usedPartitions : Set ℕ := {dev | dev = 1 ∨ dev = 2}

lemma twoPartitions_apart : Apart twoPartitions usedPartitions := by
  rintro d (rfl | rfl) e (rfl | rfl) hne
  · exact absurd rfl hne
  · exact Or.inl (by decide)
  · exact Or.inr (by decide)
  · exact absurd rfl hne

end Examples

theorem partitions_hold_blocks_two : answers (diskOp smallDisk twoPartitions) (fun _ => 0)
      [.write 1 7 10 11, .write 2 7 20 21, .read 1 7 0 0] =
    answers (blockOp twoPartitions) (fun _ _ => ((0 : ℕ), 0)) [.write 1 7 10 11, .write 2 7 20 21, .read 1 7 0 0] :=
  partitions_hold_blocks (S := usedPartitions) smallDisk_fits (by rintro d (rfl | rfl) <;> decide) twoPartitions_apart
    (fun _ _ _ _ => rfl) (by simpa [DiskOp.dev, DiskOp.blocknr] using ⟨Or.inl rfl, Or.inr rfl, Or.inl rfl⟩)

end Partitions

end Devos.Kernel
