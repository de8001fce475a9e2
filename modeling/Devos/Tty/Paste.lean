import Devos.Tty.ListRows

/-! The space key in the file explorer, which sends the selected file's path to the console as if it were typed, and the
room that this and the other joined paths take. -/

namespace Devos.Tty

open Loops Runs

/-- `c>31 && c<127` -/
def printable (c : Byte) : Bool := 31 < c.toInt ∧ c.toInt < 127

namespace Panel

def low (p : Panel) (x : ℕ) : Byte := (p.lsFiles x).setWidth 8

def high (p : Panel) (x : ℕ) : Byte := (p.lsFiles x).extractLsb' 8 8

/-- The rows as `strcat` reads them. -/
def rowByte (p : Panel) (x : ℕ) : Byte := (p.lsFiles (x / 2)).extractLsb' (8 * (x % 2)) 8

/-- What `space_handle` puts into the read queue in the explorer. -/
def pasted (p : Panel) : Except Fault (List Byte) :=
  (rowIndex p.selectedRowIndex).bind fun r =>
    ((CString.read p.rowByte (32 * r) 22).bind (joinPath p.currentDirPath)).map fun s => s.chars.filter printable

/-- The characters of a row. -/
def rowChars (p : Panel) (r : ℕ) : List Byte := CString.charsFrom p.low (16 * r) (160 - 16 * r)

/-- The cells behind a name are 0, and those with a character have a colour that is none. -/
def Coloured (p : Panel) : Prop :=
  ∀ x, p.lsFiles x = 0 ∨ p.low x ≠ 0 ∧ p.high x ≠ 0 ∧ printable (p.high x) = false

/-- All joins in `get_children_from_fs` for a directory. -/
def LookupsFit (m : ℕ → Byte) (path : CString) : Prop :=
  ∀ k < 10, ∃ name temp, CString.read m (entryName k) 22 = .ok name ∧ joinPath path name = .ok temp

section Rows

variable {p q : Panel} {d : Disk} {m : ℕ → Byte} {k r n a x : ℕ} {e : PanelKey} {path : CString}

lemma spaceHandle_eq (hmode : p.f2Flag = .explorer) : p.spaceHandle = p.pasted.map fun _ => p := by
  unfold spaceHandle pasted
  rw [hmode]
  dsimp only
  cases rowIndex p.selectedRowIndex with
  | error f => rfl
  | ok r =>
    change _ = Except.map _ (Except.map _ ((CString.read p.rowByte (32 * r) 22).bind (joinPath p.currentDirPath)))
    change Except.map _ ((CString.read p.rowByte (32 * r) 22).bind (joinPath p.currentDirPath)) = _
    cases (CString.read p.rowByte (32 * r) 22).bind (joinPath p.currentDirPath) <;> rfl

lemma rowByte_low (p : Panel) (x : ℕ) : p.rowByte (2 * x) = p.low x := by
  unfold rowByte low
  rw [Nat.mul_div_cancel_left x (by decide), Nat.mul_mod_right, BitVec.setWidth_eq_extractLsb' (by decide)]

lemma rowByte_high (p : Panel) (x : ℕ) : p.rowByte (2 * x + 1) = p.high x := by
  unfold rowByte high
  have hhalf : (2 * x + 1) / 2 = x := by omega
  have hodd : (2 * x + 1) % 2 = 1 := by omega
  rw [hhalf, hodd]

/-- The colours between the characters are filtered out again. -/
lemma charsFrom_rowByte (h : p.Coloured) (a n : ℕ) :
    (CString.charsFrom p.rowByte (2 * a) (2 * n)).length = 2 * (CString.charsFrom p.low a n).length ∧
      (CString.charsFrom p.rowByte (2 * a) (2 * n)).filter printable = (CString.charsFrom p.low a n).filter printable := by
  induction n generalizing a with
  | zero => exact ⟨rfl, rfl⟩
  | succ n ih =>
    rw [Nat.mul_succ, CString.charsFrom, CString.charsFrom, CString.charsFrom, rowByte_low]
    by_cases hlow : p.low a = 0
    · rw [if_pos hlow, if_pos hlow]
      exact ⟨rfl, rfl⟩
    · obtain hzero | ⟨_, hhigh, hcolour⟩ := h a
      · refine absurd ?_ hlow
        rw [low, hzero]
        rfl
      · obtain ⟨hlength, hfilter⟩ := ih (a + 1)
        rw [if_neg hlow, if_neg hlow, rowByte_high, if_neg hhigh]
        rw [Nat.mul_succ] at hlength hfilter
        refine ⟨?_, ?_⟩
        · rw [List.length_cons, List.length_cons, List.length_cons, hlength]
          omega
        · rw [List.filter_cons, List.filter_cons, List.filter_cons, hcolour, hfilter]
          rfl

lemma signExtend_high (c : Byte) : (c.signExtend 16).extractLsb' 8 8 = if c.msb then 0xff else (0 : Byte) := by
  refine BitVec.eq_of_getLsbD_eq fun i hi => ?_
  have hones : (0xff : Byte) = BitVec.allOnes 8 := rfl
  rw [BitVec.getLsbD_extractLsb', BitVec.getLsbD_signExtend, if_neg (by omega), hones]
  split_ifs with hmsb
  · rw [BitVec.getLsbD_allOnes, hmsb]
    simp [hi, Nat.add_lt_add_left hi 8]
  · simp [hmsb]

lemma cell_high (mode : Word) (c : Byte) :
    (cell mode c).extractLsb' 8 8 ≠ (0 : Byte) ∧ printable ((cell mode c).extractLsb' 8 8) = false := by
  rw [cell, BitVec.extractLsb'_or, signExtend_high]
  cases c.msb with
  | false =>
    unfold entryColor
    split_ifs <;> decide
  | true =>
    unfold entryColor
    split_ifs <;> decide

lemma Coloured.withEntry (h : p.Coloured) : (withEntry d m k p).Coloured := by
  intro x
  unfold Panel.low Panel.high Panel.withEntry
  dsimp only
  split_ifs with hname hstop
  · refine Or.inr ⟨?_, cell_high _ _⟩
    rw [cell_low]
    exact CString.char_ne_zero (by omega)
  · exact Or.inl rfl
  · exact h x

lemma Coloured.getChildren (h : p.Coloured) (hq : getChildren d p = .ok q) : q.Coloured := by
  refine forLoopE_invariant (P := fun _ q => q.Coloured) ?_ ?_ hq
  · intro x
    unfold Panel.low Panel.high
    dsimp only
    split_ifs
    · exact Or.inl rfl
    · exact h x
  · intro n s s' hs hturn
    obtain ⟨_, rfl⟩ := listEntry_withEntry hturn
    exact hs.withEntry

lemma Coloured.congr (h : p.Coloured) (hrows : q.lsFiles = p.lsFiles) : q.Coloured := by
  unfold Coloured Panel.low Panel.high
  rw [hrows]
  exact h

lemma Coloured.press (h : p.Coloured) (hq : p.press e = .ok q) : q.Coloured := by
  rcases press_cases hq with hsame | ⟨d, t, ⟨hrows, _⟩, hlisting⟩
  · exact h.congr hsame.rows
  · exact (h.congr hrows).getChildren hlisting

lemma coloured_of_reach (h : panelSystem.Reach (fun _ _ => True) p) : p.Coloured := by
  refine h.invariant ?_ fun _ _ _ hs _ hq => hs.press hq
  intro s hs
  obtain rfl : s = initialPanel := hs
  exact fun _ => Or.inl rfl

lemma pasted_iff (h : p.Coloured) (hr : rowIndex p.selectedRowIndex = .ok r) :
    p.pasted = .ok ((p.currentDirPath.chars ++ separator p.currentDirPath ++ p.rowChars r).filter printable) ↔
      Joins p.currentDirPath (2 * (p.rowChars r).length) := by
  obtain ⟨_, _, hrow⟩ := rowIndex_ok hr
  obtain ⟨hlength, hfilter⟩ := charsFrom_rowByte h (16 * r) (160 - 16 * r)
  have hplace : 2 * (16 * r) = 32 * r := by omega
  rw [hplace] at hlength hfilter
  unfold pasted rowChars
  rw [hr, ← hlength, List.filter_append, ← hfilter, ← List.filter_append]
  generalize hs : CString.stringAt p.rowByte (32 * r) (2 * (160 - 16 * r)) = s
  have hchars : CString.charsFrom p.rowByte (32 * r) (2 * (160 - 16 * r)) = s.chars := congrArg CString.chars hs
  change ((CString.read p.rowByte (32 * r) 22).bind (joinPath p.currentDirPath)).map _ = _ ↔ _
  rw [CString.read_eq (by omega : 22 ≤ 2 * (160 - 16 * r)), hs, hchars]
  by_cases hjoins : Joins p.currentDirPath s.strlen
  · refine iff_of_true ?_ hjoins
    rw [if_pos (Joins.lt hjoins)]
    change (joinPath p.currentDirPath s).map _ = _
    rw [joinPath_eq, if_pos hjoins]
    rfl
  · refine iff_of_false ?_ hjoins
    split_ifs
    · change ¬(joinPath p.currentDirPath s).map _ = _
      rw [joinPath_eq, if_neg hjoins]
      exact fun hno => by cases hno
    · exact fun hno => by cases hno

lemma exists_below (hr : r < 10) : (∃ path, p.below r = .ok path) ↔
    (p.rowChars r).length < 15 ∧ Joins p.currentDirPath (p.rowChars r).length := by
  unfold below
  rw [CString.read_eq (by omega : 15 ≤ 160 - 16 * r)]
  change (∃ path, (if (p.rowChars r).length < 15 then Except.ok _ else Except.error _).bind _ = _) ↔ _
  by_cases hlen : (p.rowChars r).length < 15
  · rw [if_pos hlen, and_iff_right hlen]
    change (∃ path, joinPath p.currentDirPath _ = _) ↔ Joins p.currentDirPath (CString.stringAt p.low _ _).strlen
    rw [joinPath_eq]
    split_ifs with hjoins
    · exact iff_of_true ⟨_, rfl⟩ hjoins
    · exact iff_of_false (fun hno => by obtain ⟨_, hno⟩ := hno; cases hno) hjoins
  · rw [if_neg hlen]
    exact iff_of_false (fun hno => by obtain ⟨_, hno⟩ := hno; cases hno) fun hno => hlen hno.1

lemma lookupsFit_iff : LookupsFit m path ↔ ∀ k < 10, Joins path (slotName m k).strlen := by
  refine forall₂_congr fun k _ => ?_
  rw [CString.read_eq (Nat.le_refl 22)]
  change (∃ name temp, (if (slotName m k).strlen < 22 then Except.ok (slotName m k) else _) = _ ∧ _) ↔ _
  constructor
  · rintro ⟨name, temp, hname, htemp⟩
    split_ifs at hname
    obtain rfl := Except.ok.inj hname
    rw [joinPath_eq] at htemp
    split_ifs at htemp with hjoins
    exact hjoins
  · intro hjoins
    refine ⟨slotName m k, joined path (slotName m k), if_pos (Joins.lt hjoins), ?_⟩
    rw [joinPath_eq, if_pos hjoins]

lemma spaceHandle_iff (h : p.Coloured) (hmode : p.f2Flag = .explorer) (hr : rowIndex p.selectedRowIndex = .ok r) :
    p.spaceHandle = .ok p ∧
        p.pasted = .ok ((p.currentDirPath.chars ++ separator p.currentDirPath ++ p.rowChars r).filter printable) ↔
      Joins p.currentDirPath (2 * (p.rowChars r).length) := by
  rw [← pasted_iff h hr, spaceHandle_eq hmode]
  refine and_iff_right_of_imp fun hpasted => ?_
  rw [hpasted]
  rfl

end Rows

/-- The space key sends the path of the selected file where twice its name goes behind the directory's path, the right
arrow joins them where the name does and has at most 14 characters, and a listing where all names do. -/
theorem paste_iff {p : Panel} (h : panelSystem.Reach (fun _ _ => True) p) (hmode : p.f2Flag = .explorer) {r : ℕ}
    (hr : rowIndex p.selectedRowIndex = .ok r) :
    (p.spaceHandle = .ok p ∧
        p.pasted = .ok ((p.currentDirPath.chars ++ separator p.currentDirPath ++ p.rowChars r).filter printable) ↔
      Joins p.currentDirPath (2 * (p.rowChars r).length)) ∧
    ((∃ path, p.below r = .ok path) ↔ (p.rowChars r).length < 15 ∧ Joins p.currentDirPath (p.rowChars r).length) ∧
    ∀ m path, LookupsFit m path ↔ ∀ k < 10, Joins path (slotName m k).strlen := by
  obtain ⟨h₀, h₁, hrow⟩ := rowIndex_ok hr
  exact ⟨spaceHandle_iff (coloured_of_reach h) hmode hr, exists_below (by omega), fun m path => lookupsFit_iff⟩

/-- A root directory with a file of `n` letters. -/
def oneName (n : ℕ) : Disk where
  block _ x := if entryName 0 ≤ x ∧ x < entryName 0 + n then 97 else 0
  mode _ := 0o100644

theorem paste_letter : ∃ p, initialPanel.press (.f2 (oneName 1)) = .ok p ∧ p.pasted = .ok [47, 97] := by
  have hshown : ((initialPanel.press (.f2 (oneName 1))).toOption.map fun p =>
      (p.f2Flag, p.currentDirPath, p.selectedRowIndex, p.rowChars 0)) = some (.explorer, slash, 0, [97]) := by
    decide +kernel
  cases hrun : initialPanel.press (.f2 (oneName 1)) with
  | error f =>
    rw [hrun] at hshown
    cases hshown
  | ok p =>
    rw [hrun] at hshown
    simp only [Except.toOption, Option.map_some, Option.some.injEq, Prod.mk.injEq] at hshown
    obtain ⟨hmode, hpath, hsel, hrow⟩ := hshown
    have hr : rowIndex p.selectedRowIndex = .ok 0 := by
      rw [hsel]
      rfl
    have hsent := ((paste_iff (.next (.start rfl) trivial hrun) hmode hr).1.mpr (by rw [hpath, hrow]; decide)).2
    rw [hpath, hrow] at hsent
    exact ⟨p, rfl, hsent⟩

/-- Eleven letters take 22 bytes. -/
theorem paste_overrun : ¬∀ p, panelSystem.Reach (fun _ _ => True) p → p.f2Flag = .explorer →
    ∀ r, rowIndex p.selectedRowIndex = .ok r → p.spaceHandle = .ok p ∧
      p.pasted = .ok ((p.currentDirPath.chars ++ separator p.currentDirPath ++ p.rowChars r).filter printable) := by
  intro hall
  have hshown : ((initialPanel.press (.f2 (oneName 11))).toOption.map fun p =>
      (p.f2Flag, p.currentDirPath, p.selectedRowIndex, (p.rowChars 0).length)) = some (.explorer, slash, 0, 11) := by
    decide +kernel
  cases hrun : initialPanel.press (.f2 (oneName 11)) with
  | error f =>
    rw [hrun] at hshown
    cases hshown
  | ok p =>
    rw [hrun] at hshown
    simp only [Except.toOption, Option.map_some, Option.some.injEq, Prod.mk.injEq] at hshown
    obtain ⟨hmode, hpath, hsel, hrow⟩ := hshown
    have hr : rowIndex p.selectedRowIndex = .ok 0 := by
      rw [hsel]
      rfl
    have hreach : panelSystem.Reach (fun _ _ => True) p := .next (.start rfl) trivial hrun
    have hsent := hall p hreach hmode 0 hr
    rw [spaceHandle_iff (coloured_of_reach hreach) hmode hr, hpath, hrow] at hsent
    exact absurd hsent (by decide)

end Panel

end Devos.Tty
