import Devos.Basic
import Devos.Library.Loops
import Devos.Library.StringMoves
import Mathlib.Data.List.GetD

/-! From the image that `build` writes to the system in memory: the boot sector reads the floppy track by track and
segment by segment, and then moves all of it down to address zero. -/

namespace Devos.Boot

open Loops

abbrev RealMemory := ℕ → Byte

/-- Of a 1.44Mb disk. -/
abbrev sectors : ℕ := 18

abbrev sysSeg : ℕ := 0x1000

section ReadIt

/-- The registers and variables of `read_it`, of 16 bits each. -/
structure ReadIt where
  es : ℕ
  bx : ℕ
  sread : ℕ
  head : ℕ
  track : ℕ
  mem : RealMemory

/-- `int 0x13` with 2 in `%ah` reads `al` sectors of one track to `es:bx`, unless they go beyond the track or the
segment. -/
def int13 (disk : ℕ → Byte) (al ch cl dh es bx : ℕ) (m : RealMemory) : Option RealMemory :=
  if ch < 80 ∧ dh < 2 ∧ 0 < cl ∧ 0 < al ∧ cl - 1 + al ≤ sectors ∧ bx + 512 * al ≤ 65536 then
    some fun a =>
      if 16 * es + bx ≤ a ∧ a < 16 * es + bx + 512 * al then
        disk (512 * ((ch * 2 + dh) * sectors + (cl - 1)) + (a - (16 * es + bx)))
      else m a
  else none

/-- A turn at `rp_read`; a read that fails is tried again. -/
def rpRead (disk : ℕ → Byte) (endSeg : ℕ) (s : ReadIt) : Pass ReadIt ReadIt :=
  if s.es < endSeg then
    let ax := (65536 + sectors - s.sread) % 65536
    let cx := (ax * 512) % 65536 + s.bx
    let ax := if cx < 65536 ∨ cx % 65536 = 0 then ax else ((65536 - s.bx) % 65536) / 512
    match int13 disk (ax % 256) (s.track % 256) ((s.sread + 1) % 256) (s.head % 2) s.es s.bx s.mem with
    | none => .again s
    | some m =>
      let cx := ax
      let ax := (ax + s.sread) % 65536
      let s :=
        if ax ≠ sectors then { s with sread := ax }
        else if (65536 + 1 - s.head) % 65536 ≠ 0 then { s with head := (65536 + 1 - s.head) % 65536, sread := 0 }
        else { s with track := (s.track + 1) % 65536, head := 0, sread := 0 }
      let bx := s.bx + (cx * 512) % 65536
      if bx < 65536 then .again { s with mem := m, bx := bx }
      else .again { s with mem := m, es := (s.es + 0x1000) % 65536, bx := 0 }
  else .leave s

/-- One sector has been read, the boot sector. -/
def readIt (m : RealMemory) : ReadIt := ⟨sysSeg, 0, 1, 0, 0, m⟩

end ReadIt

section DoMove

/-- A turn at `do_move`, with `%ax` and the memory. -/
def doMove (s : ℕ × RealMemory) : Pass (ℕ × RealMemory) (Except Fault RealMemory) :=
  let ax := (s.1 + 0x1000) % 65536
  if ax = 0x9000 then .leave (.ok s.2)
  else match StringMoves.Window.moves ⟨0, 0x100000, Fault.badPointer⟩ 2 0x8000 (16 * s.1) (16 * ax) s.2 with
    | .ok m => .again (ax, m)
    | .error e => .leave (.error e)

end DoMove

section Build

/-- `((long *) buf)[k]` -/
def longAt (buf : List Byte) (k : ℕ) : BitVec 32 :=
  buf.getD (4 * k + 3) 0 ++ buf.getD (4 * k + 2) 0 ++ buf.getD (4 * k + 1) 0 ++ buf.getD (4 * k) 0

/-- `read` of `bytes` to the start of `buf`. -/
def readTo (buf bytes : List Byte) : List Byte := bytes ++ buf.drop bytes.length

/-- The loop that copies `system`. -/
def copyOut : ℕ → List Byte → List Byte → List Byte
  | 0, _, out => out
  | n + 1, rest, out => if rest = [] then out else copyOut n (rest.drop 1024) (out ++ rest.take 1024)

/-- `build boot system`: what it writes, `none` if it dies. -/
def build (boot system : List Byte) : Option (List Byte) :=
  let buf := readTo (List.replicate 1024 0) (boot.take 32)
  if boot.length < 32 then none
  else if longAt buf 0 ≠ 0x04100301 ∨ longAt buf 1 ≠ 32 then none
  else if longAt buf 3 ≠ 0 ∨ longAt buf 4 ≠ 0 ∨ longAt buf 5 ≠ 0 ∨ longAt buf 7 ≠ 0 then none
  else
    let code := (boot.drop 32).take 1024
    if 510 < code.length then none
    else
      let buf := ((readTo buf code).set 510 0x55).set 511 0xaa
      some (copyOut (system.length + 1) system (buf.take 512) ++ List.replicate 512 0)

end Build

section Reading

variable {disk : ℕ → Byte} {sysSize n : ℕ} {s s' : ReadIt}

/-- With `n` bytes read these lie where they belong, and the next sector is the one behind them. -/
structure Reading (disk : ℕ → Byte) (n : ℕ) (s : ReadIt) : Prop where
  sread_lt : s.sread < 18
  head_lt : s.head < 2
  bx_lt : s.bx < 65536
  whole : s.bx % 512 = 0
  segment : s.es % 0x1000 = 0
  high : s.es ≤ 0x9000
  place : 16 * s.es + s.bx = 65536 + n
  sector : 512 * ((s.track * 2 + s.head) * 18 + s.sread) = 512 + n
  mem : ∀ i < n, s.mem (65536 + i) = disk (512 + i)

/-- How many sectors a turn reads: up to the end of the track or of the segment. -/
def ReadIt.count (s : ReadIt) : ℕ :=
  if (18 - s.sread) * 512 + s.bx ≤ 65536 then 18 - s.sread else (65536 - s.bx) / 512

/-- What a turn has made of the registers and the memory. -/
structure Advance (disk : ℕ → Byte) (n : ℕ) (s s' : ReadIt) : Prop where
  place : 16 * s'.es + s'.bx = 16 * s.es + s.bx + 512 * s.count
  bx : s'.bx = (s.bx + 512 * s.count) % 65536
  sector : (s'.track * 2 + s'.head) * 18 + s'.sread = (s.track * 2 + s.head) * 18 + s.sread + s.count
  sread_lt : s'.sread < 18
  head_lt : s'.head < 2
  mem : ∀ a, s'.mem a = if 16 * s.es + s.bx ≤ a ∧ a < 16 * s.es + s.bx + 512 * s.count
    then disk (512 + n + (a - (16 * s.es + s.bx))) else s.mem a

lemma Reading.count_bounds (h : Reading disk n s) :
    0 < s.count ∧ s.sread + s.count ≤ 18 ∧ s.bx + 512 * s.count ≤ 65536 := by
  have h₁ := h.sread_lt
  have h₂ := h.bx_lt
  have h₃ := h.whole
  unfold ReadIt.count
  split_ifs <;> omega

lemma Reading.track_lt (h : Reading disk n s) (hes : s.es < 0x9000) : s.track < 80 := by
  have h₁ := h.sector
  have h₂ := h.bx_lt
  have h₃ := h.segment
  have h₄ := h.place
  omega

lemma Reading.count_eq (h : Reading disk n s) :
    (if (65536 + sectors - s.sread) % 65536 * 512 % 65536 + s.bx < 65536 ∨
      ((65536 + sectors - s.sread) % 65536 * 512 % 65536 + s.bx) % 65536 = 0 then (65536 + sectors - s.sread) % 65536
      else (65536 - s.bx) % 65536 / 512) = s.count := by
  have h₁ := h.sread_lt
  have h₂ := h.bx_lt
  have hleft : (65536 + sectors - s.sread) % 65536 = 18 - s.sread := by
    simp only [sectors]
    omega
  rw [hleft, ReadIt.count]
  split_ifs <;> omega

lemma Reading.int13_eq (h : Reading disk n s) (hes : s.es < 0x9000) :
    int13 disk (s.count % 256) (s.track % 256) ((s.sread + 1) % 256) (s.head % 2) s.es s.bx s.mem =
      some fun a => if 16 * s.es + s.bx ≤ a ∧ a < 16 * s.es + s.bx + 512 * s.count
        then disk (512 + n + (a - (16 * s.es + s.bx))) else s.mem a := by
  obtain ⟨hpos, htrack, hseg⟩ := h.count_bounds
  have hlt := h.track_lt hes
  have hhead := h.head_lt
  have hsector := h.sector
  have hcount : s.count % 256 = s.count := Nat.mod_eq_of_lt (by omega)
  have htrack' : s.track % 256 = s.track := Nat.mod_eq_of_lt (by omega)
  have hsread : (s.sread + 1) % 256 = s.sread + 1 := Nat.mod_eq_of_lt (by omega)
  have hhead' : s.head % 2 = s.head := Nat.mod_eq_of_lt hhead
  rw [hcount, htrack', hsread, hhead', int13, if_pos ⟨hlt, hhead, by omega, hpos, by simpa using htrack, hseg⟩,
    Nat.add_sub_cancel]
  simp only [sectors, hsector]

lemma Reading.turn (h : Reading disk n s) (hes : s.es < 0x9000) {endSeg : ℕ} (hend : s.es < endSeg) :
    ∃ s', rpRead disk endSeg s = .again s' ∧ Advance disk n s s' := by
  obtain ⟨hpos, htrack, hseg⟩ := h.count_bounds
  have hhead := h.head_lt
  have hsread := h.sread_lt
  have hbx := h.bx_lt
  have hlt := h.track_lt hes
  rw [rpRead, if_pos hend]
  dsimp only
  rw [h.count_eq, h.int13_eq hes]
  dsimp only [sectors]
  -- the end of the track, of the cylinder and of the segment
  split_ifs
  all_goals
    refine ⟨_, rfl, ?_, ?_, ?_, ?_, ?_, fun a => rfl⟩
    all_goals
      dsimp only at *
      omega

/-- The invariant goes on to the bytes of the turn. -/
lemma Reading.advance (h : Reading disk n s) (hes : s.es < 0x9000) (ha : Advance disk n s s') :
    Reading disk (n + 512 * s.count) s' := by
  obtain ⟨hpos, htrack, hseg⟩ := h.count_bounds
  have hplace := h.place
  have hplace' := ha.place
  have hbx := ha.bx
  have hsegment := h.segment
  have hwhole := h.whole
  have hsector := h.sector
  have hsector' := ha.sector
  refine ⟨ha.sread_lt, ha.head_lt, by omega, by omega, by omega, by omega, by omega, by omega, fun i hi => ?_⟩
  rw [ha.mem]
  by_cases hnew : n ≤ i
  · rw [if_pos (by omega)]
    congr 1
    omega
  · rw [if_neg (by omega)]
    exact h.mem i (by omega)

lemma rpRead_leave {endSeg : ℕ} {r : ReadIt} (h : rpRead disk endSeg s = .leave r) : r = s ∧ endSeg ≤ s.es := by
  rw [rpRead] at h
  by_cases hend : s.es < endSeg
  · rw [if_pos hend] at h
    dsimp only at h
    split at h
    · cases h
    · split_ifs at h
  · rw [if_neg hend] at h
    cases h
    exact ⟨rfl, Nat.not_lt.mp hend⟩

lemma reading_start (disk : ℕ → Byte) (m : RealMemory) : Reading disk 0 (readIt m) where
  sread_lt := show 1 < 18 by decide
  head_lt := show 0 < 2 by decide
  bx_lt := show 0 < 65536 by decide
  whole := rfl
  segment := show 0x1000 % 0x1000 = 0 by decide
  high := show 0x1000 ≤ 0x9000 by decide
  place := rfl
  sector := rfl
  mem i hi := absurd hi (Nat.not_lt_zero i)

/-- `read_it` comes to its end, with the sectors behind the first at the segment for the system. -/
theorem readIt_returns (disk : ℕ → Byte) (hmax : sysSize ≤ 0x8000) (m : RealMemory) :
    ∃ s, Returns (rpRead disk (sysSeg + sysSize)) (readIt m) s ∧
      ∀ i < 16 * sysSize, s.mem (65536 + i) = disk (512 + i) := by
  have hstep : ∀ s s', (∃ n, Reading disk n s) → rpRead disk (sysSeg + sysSize) s = .again s' →
      (∃ n, Reading disk n s') ∧ 0x90000 - (16 * s'.es + s'.bx) < 0x90000 - (16 * s.es + s.bx) := by
    rintro s s' ⟨n, h⟩ hs
    have hend : s.es < sysSeg + sysSize := by
      by_contra hend
      rw [rpRead, if_neg hend] at hs
      cases hs
    have hes : s.es < 0x9000 := by
      simp only [sysSeg] at hend
      omega
    obtain ⟨t, ht, ha⟩ := h.turn hes hend
    obtain rfl : t = s' := Pass.again.inj (ht.symm.trans hs)
    have hcount := h.count_bounds
    have hplace := ha.place
    have hseg := h.segment
    refine ⟨⟨_, h.advance hes ha⟩, ?_⟩
    omega
  obtain ⟨s, hs⟩ := iterate_of_variant _ _ hstep
    ⟨0, reading_start disk m⟩ (Nat.lt_succ_self _)
  refine ⟨s, ⟨_, hs⟩, ?_⟩
  refine iterate_invariant (Q := fun s => ∀ i < 16 * sysSize, s.mem (65536 + i) = disk (512 + i))
    (fun s => ∃ n, Reading disk n s) (fun s s' h hb => (hstep s s' h hb).1) ?_ ⟨0, reading_start disk m⟩ hs
  rintro s r ⟨n, h⟩ hb i hi
  obtain ⟨rfl, hend⟩ := rpRead_leave hb
  have hplace := h.place
  simp only [sysSeg] at hend
  exact h.mem i (by omega)

end Reading

section Moving

variable {m₀ m m' : RealMemory} {s s' : ℕ × RealMemory} {k : ℕ}

/-- With `k` segments moved down. -/
structure Moved (m₀ : RealMemory) (k : ℕ) (s : ℕ × RealMemory) : Prop where
  le : k ≤ 8
  ax : s.1 = 0x1000 * k
  below : ∀ a < 65536 * k, s.2 a = m₀ (a + 65536)
  above : ∀ a, 65536 * k ≤ a → s.2 a = m₀ a

lemma Moved.turn (h : Moved m₀ k s) : (k = 8 ∧ doMove s = .leave (.ok s.2)) ∨
    ∃ s', doMove s = .again s' ∧ Moved m₀ (k + 1) s' := by
  have hle := h.le
  have hax := h.ax
  have hmod : (s.1 + 0x1000) % 65536 = 0x1000 * (k + 1) := by omega
  by_cases hk : k = 8
  · refine Or.inl ⟨hk, ?_⟩
    rw [doMove, hmod, if_pos (by omega)]
  · obtain ⟨m, hm, hmem⟩ : ∃ m, StringMoves.Window.moves ⟨0, 0x100000, Fault.badPointer⟩ 2 0x8000 (16 * s.1)
        (16 * (0x1000 * (k + 1))) s.2 = .ok m ∧
        ∀ a, m a = if 16 * s.1 ≤ a ∧ a < 16 * s.1 + 2 * 0x8000 then s.2 (a + 16 * (0x1000 * (k + 1)) - 16 * s.1)
          else s.2 a :=
      ⟨_, StringMoves.Window.moves_eq (Nat.zero_le _) (show 16 * s.1 + 2 * 0x8000 ≤ 0x100000 by omega) (by omega),
        fun _ => rfl⟩
    refine Or.inr ⟨(0x1000 * (k + 1), m), ?_, by omega, rfl, fun a ha => ?_, fun a ha => ?_⟩
    · rw [doMove, hmod, if_neg (by omega), hm]
    · dsimp only
      rw [hmem]
      by_cases hnew : 65536 * k ≤ a
      · rw [if_pos (by omega), show a + 16 * (0x1000 * (k + 1)) - 16 * s.1 = a + 65536 by omega]
        exact h.above _ (by omega)
      · rw [if_neg (by omega)]
        exact h.below a (by omega)
    · dsimp only
      rw [hmem, if_neg (by omega)]
      exact h.above a (by omega)

/-- `do_move` brings the eight segments of the system down to address zero. -/
theorem doMove_returns (m : RealMemory) :
    ∃ m', Returns doMove (0, m) (.ok m') ∧ ∀ a < 0x80000, m' a = m (a + 65536) := by
  have hrun : ∀ j k s, j + k = 8 → Moved m k s →
      ∃ m', Returns doMove s (.ok m') ∧ ∀ a < 0x80000, m' a = m (a + 65536) := by
    intro j
    induction j with
    | zero =>
      intro k s hk h
      obtain ⟨_, hb⟩ | ⟨s', _, h'⟩ := h.turn
      · exact ⟨s.2, returns_leave hb, fun a ha => h.below a (by omega)⟩
      · exact absurd h'.le (by omega)
    | succ j ih =>
      intro k s hk h
      obtain ⟨hk', _⟩ | ⟨s', hb, h'⟩ := h.turn
      · omega
      · obtain ⟨m', hm', hmem⟩ := ih (k + 1) s' (by omega) h'
        exact ⟨m', hm'.again hb, hmem⟩
  exact hrun 8 0 (0, m) rfl ⟨by omega, rfl, fun a ha => absurd ha (by omega), fun _ _ => rfl⟩

end Moving

section Booting

variable {boot system image : List Byte} {disk : ℕ → Byte} {sysSize n : ℕ}

lemma copyOut_eq {rest out : List Byte} (h : rest.length < n) : copyOut n rest out = out ++ rest := by
  induction n generalizing rest out with
  | zero => omega
  | succ n ih =>
    rw [copyOut]
    split_ifs with hnil
    · rw [hnil, List.append_nil]
    · have hpos : 0 < rest.length := List.length_pos_iff.mpr hnil
      rw [ih (by rw [List.length_drop]; omega), List.append_assoc, List.take_append_drop]

lemma length_readTo {buf bytes : List Byte} (h : bytes.length ≤ buf.length) :
    (readTo buf bytes).length = buf.length := by
  rw [readTo, List.length_append, List.length_drop]
  omega

/-- The last two bytes of a boot sector. -/
lemma sector_marked {buf : List Byte} (h : buf.length = 1024) :
    (((buf.set 510 0x55).set 511 0xaa).take 512).length = 512 ∧
      (((buf.set 510 0x55).set 511 0xaa).take 512).getD 510 0 = 0x55 ∧
      (((buf.set 510 0x55).set 511 0xaa).take 512).getD 511 0 = 0xaa := by
  refine ⟨by simp [h], ?_, ?_⟩
  · simp [List.getD_eq_getElem?_getD, h]
  · simp [List.getD_eq_getElem?_getD, h]

/-- One sector that the BIOS takes for a boot sector, the system behind it, and another sector. -/
lemma build_eq (h : build boot system = some image) : ∃ sector : List Byte, sector.length = 512 ∧
    sector.getD 510 0 = 0x55 ∧ sector.getD 511 0 = 0xaa ∧ image = sector ++ system ++ List.replicate 512 0 := by
  unfold build at h
  dsimp only at h
  split_ifs at h with h₁ h₂ h₃ h₄
  obtain rfl := Option.some.inj h
  rw [copyOut_eq (Nat.lt_succ_self _)]
  have hheader : (readTo (List.replicate 1024 0) (boot.take 32)).length = 1024 := by
    rw [length_readTo] <;> rw [List.length_replicate]
    exact (List.length_take_le _ _).trans (by decide)
  have hbuf : (readTo (readTo (List.replicate 1024 0) (boot.take 32)) ((boot.drop 32).take 1024)).length = _ :=
    length_readTo (by rw [hheader]; omega)
  rw [hheader] at hbuf
  obtain ⟨hlength, h55, haa⟩ := sector_marked hbuf
  exact ⟨_, hlength, h55, haa, rfl⟩

/-- A floppy with the image that `build` has made boots, and the system lies at address zero when the processor goes to
protected mode. -/
theorem boot_loads_system (hbuild : build boot system = some image) (hsize : system.length ≤ 16 * sysSize)
    (hmax : sysSize ≤ 0x8000) (hdisk : ∀ i < image.length, disk i = image.getD i 0) (m : RealMemory) :
    disk 510 = 0x55 ∧ disk 511 = 0xaa ∧ ∃ s m', Returns (rpRead disk (sysSeg + sysSize)) (readIt m) s ∧
      Returns doMove (0, s.mem) (.ok m') ∧ ∀ i < system.length, m' i = system.getD i 0 := by
  obtain ⟨sector, hsector, h55, haa, rfl⟩ := build_eq hbuild
  obtain ⟨s, hs, hread⟩ := readIt_returns disk hmax m
  obtain ⟨m', hm', hmove⟩ := doMove_returns s.mem
  rw [List.length_append, List.length_append, hsector, List.length_replicate] at hdisk
  refine ⟨?_, ?_, s, m', hs, hm', fun i hi => ?_⟩
  · rw [hdisk 510 (by omega), List.append_assoc, List.getD_append _ _ _ _ (by omega), h55]
  · rw [hdisk 511 (by omega), List.append_assoc, List.getD_append _ _ _ _ (by omega), haa]
  · rw [hmove i (by omega), Nat.add_comm, hread i (by omega), hdisk (512 + i) (by omega), List.append_assoc,
      List.getD_append_right _ _ _ _ (by omega), hsector, Nat.add_sub_cancel_left, List.getD_append _ _ _ _ hi]

section Examples

/-- A Minix header and two bytes of code. -/
def bootFile : List Byte := [0x01, 0x03, 0x10, 0x04, 32, 0, 0, 0] ++ List.replicate 24 0 ++ [0xeb, 0xfe]

def floppyImage : List Byte := (build bootFile [1, 2, 3]).getD []

lemma build_bootFile : build bootFile [1, 2, 3] = some floppyImage := by decide +kernel

end Examples

theorem boot_loads_system_three :
    floppyImage.getD 510 0 = 0x55 ∧ floppyImage.getD 511 0 = 0xaa ∧
      ∃ s m', Returns (rpRead (floppyImage.getD · 0) (sysSeg + 1)) (readIt fun _ => 0) s ∧
        Returns doMove (0, s.mem) (.ok m') ∧ ∀ i < 3, m' i = ([1, 2, 3] : List Byte).getD i 0 :=
  boot_loads_system build_bootFile (by decide) (by decide) (fun _ _ => rfl) fun _ => 0

end Booting

end Devos.Boot
