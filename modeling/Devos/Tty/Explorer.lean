import Devos.Tty.Clipboard

/-! The row that is selected in the file explorer. -/

namespace Devos.Tty.Panel

open Loops Runs

variable {p q : Panel} {d : Disk} {m : ℕ → Byte} {path : CString} {e : PanelKey} {f : Fault}

/-- Entries with a name come first. -/
def Packed (m : ℕ → Byte) : Prop := ∀ i j, i < j → j < 10 → m (entryName j) ≠ 0 → m (entryName i) ≠ 0

/-- The directory has an entry in row `r`, or none at all, and `r` is 0. -/
def Fits (m : ℕ → Byte) (r : ℤ) : Prop := Packed m ∧ (r < entries m ∨ r = 0 ∧ entries m = 0)

/-- Where the explorer looks when F2 brings it up. -/
def shownPath (p : Panel) : CString := if p.initFlag then p.currentDirPath else slash

/-- Names come first in every directory that is shown, the arrows go up and down in one with entries, and a directory
that is entered or left has an entry in the row that is selected, or none at all when this is the first. -/
def Settled (p : Panel) : PanelKey → Prop
  | .f2 d => p.f2Flag ≠ .explorer → Packed (d.block p.shownPath)
  | .arrowUp => p.f1Flag = true → p.f2Flag = .explorer → p.currentDirLen ≠ 0
  | .arrowDown => p.f1Flag = true → p.f2Flag = .explorer → p.currentDirLen ≠ 0
  | .arrowRight d => p.f1Flag = true → p.f2Flag = .explorer → p.isDir p.selectedRowIndex.toNat = true →
      ∀ path, p.below p.selectedRowIndex.toNat = .ok path → Fits (d.block path) p.selectedRowIndex
  | .arrowLeft d => p.f1Flag = true → p.f2Flag = .explorer → p.currentDirPath ≠ slash →
      ∀ path, p.above = .ok path → Fits (d.block path) p.selectedRowIndex
  | _ => True

/-- A row of the arrays; in the explorer one with an entry, or the first when there is none. -/
structure Selected (p : Panel) : Prop where
  nonneg : 0 ≤ p.selectedRowIndex
  lt : p.selectedRowIndex < 10
  initial : p.f2Flag ≠ .off → p.initFlag = true
  listed : p.f2Flag = .explorer → (∀ k < 10, p.lsFiles (16 * k) ≠ 0 ↔ k < p.currentDirLen) ∧ p.currentDirLen ≤ 10 ∧
    (p.selectedRowIndex < p.currentDirLen ∨ p.selectedRowIndex = 0 ∧ p.currentDirLen = 0)

lemma count_packed {P : ℕ → Prop} [DecidablePred P] {n : ℕ} (hP : ∀ i j, i < j → j < n → P j → P i) :
    (List.range n).countP (fun k => P k) ≤ n ∧ ∀ k < n, P k ↔ k < (List.range n).countP fun k => P k := by
  induction n with
  | zero => exact ⟨Nat.zero_le _, fun k hk => absurd hk (Nat.not_lt_zero k)⟩
  | succ n ih =>
    obtain ⟨hle, hiff⟩ := ih fun i j hij hj => hP i j hij (Nat.lt_succ_of_lt hj)
    rw [List.range_succ, List.countP_append, List.countP_singleton]
    by_cases hn : P n
    · have hall : (List.range n).countP (fun k => P k) = n := by
        by_contra hne
        have hlt : (List.range n).countP (fun k => P k) < n := by omega
        exact absurd ((hiff _ hlt).mp (hP _ n hlt (Nat.lt_succ_self n) hn)) (lt_irrefl _)
      rw [hall, decide_eq_true hn, if_pos rfl]
      refine ⟨le_refl _, fun k hk => iff_of_true ?_ hk⟩
      rcases Nat.lt_succ_iff_lt_or_eq.mp hk with hlt | rfl
      · exact hP k n hlt (Nat.lt_succ_self n) hn
      · exact hn
    · rw [decide_eq_false hn, if_neg Bool.false_ne_true, Nat.add_zero]
      refine ⟨Nat.le_succ_of_le hle, fun k hk => ?_⟩
      rcases Nat.lt_succ_iff_lt_or_eq.mp hk with hlt | rfl
      · exact hiff k hlt
      · exact iff_of_false hn (by omega)

lemma Packed.listed (h : Packed m) {k : ℕ} (hk : k < 10) : m (entryName k) ≠ 0 ↔ k < entries m :=
  (count_packed h).2 k hk

/-- The listing of a directory that the selected row fits. -/
lemma Selected.getChildren (h₀ : 0 ≤ p.selectedRowIndex) (h₁ : p.selectedRowIndex < 10)
    (hfits : Fits (d.block p.shownPath) p.selectedRowIndex) (hq : getChildren d p = .ok q) : q.Selected := by
  obtain ⟨i, l, rfl, hl⟩ := getChildren_ok hq
  refine ⟨h₀, h₁, fun _ => rfl, fun _ => ⟨fun k hk => ?_, entries_le _, hfits.2⟩⟩
  exact (not_congr (hl k hk)).trans (hfits.1.listed hk)

lemma Selected.enter (h : p.Selected) (hmode : p.f2Flag = .explorer) (hfits : Fits (d.block path) p.selectedRowIndex)
    (hq : p.enter d path = .ok q) : q.Selected := by
  obtain ⟨t, ht, hq⟩ := bind_eq_ok hq
  rw [renderBorder_ok hq]
  have hpath : ({ p with currentDirPath := path } : Panel).shownPath = path := if_pos (h.initial (hmode.trans_ne (by decide)))
  refine .getChildren (p := { p with currentDirPath := path }) h.nonneg h.lt ?_ ht
  rw [hpath]
  exact hfits

/-- The clipboard and its cursor do not matter. -/
lemma Selected.clip (h : p.Selected) (f : ℕ → Byte) (c : ℤ × ℤ) :
    ({ p with clipboard := f, cliboardCursor := c } : Panel).Selected := ⟨h.nonneg, h.lt, h.initial, h.listed⟩

lemma Selected.cursorToRow (hinit : p.initFlag = true) (hmode : p.f2Flag = .clipboard) (hq : p.cursorToRow = .ok q) :
    q.Selected := by
  obtain ⟨s, hs, rfl⟩ := map_eq_ok hq
  obtain ⟨r, hr, _⟩ := bind_eq_ok hs
  obtain ⟨h₀, h₁, _⟩ := rowIndex_ok hr
  refine ⟨h₀, h₁, fun _ => hinit, fun hexplorer => ?_⟩
  cases hmode.symm.trans hexplorer

lemma Selected.arrowDown (h : p.Selected) (hok : p.f2Flag = .explorer → p.currentDirLen ≠ 0)
    (hq : p.arrowDownHandle = .ok q) : q.Selected := by
  unfold arrowDownHandle at hq
  split at hq
  next =>
    obtain rfl := Except.ok.inj hq
    exact h
  next hmode =>
    rw [if_neg (hok hmode)] at hq
    obtain rfl := Except.ok.inj hq
    obtain ⟨hlisted, hten, _⟩ := h.listed hmode
    have hpos : (0 : ℤ) < p.currentDirLen := by have := hok hmode; omega
    have hsel := h.nonneg
    have hlt := Int.tmod_lt_of_pos (p.selectedRowIndex + 1) hpos
    have hge : 0 ≤ (p.selectedRowIndex + 1).tmod p.currentDirLen := Int.tmod_nonneg _ (by omega)
    exact ⟨hge, by dsimp only; omega, h.initial, fun _ => ⟨hlisted, hten, Or.inl hlt⟩⟩
  next hmode =>
    exact .cursorToRow (p := { p with selectedRowIndex := (p.selectedRowIndex + 1).tmod 10 })
      (h.initial (hmode.trans_ne (by decide))) hmode hq

lemma Selected.arrowUp (h : p.Selected) (hok : p.f2Flag = .explorer → p.currentDirLen ≠ 0)
    (hq : p.arrowUpHandle = .ok q) : q.Selected := by
  unfold arrowUpHandle at hq
  split at hq
  next =>
    obtain rfl := Except.ok.inj hq
    exact h
  next hmode =>
    obtain rfl := Except.ok.inj hq
    obtain ⟨hlisted, hten, hsel⟩ := h.listed hmode
    have hpos := hok hmode
    have hlt := h.lt
    refine ⟨?_, ?_, h.initial, fun _ => ⟨hlisted, hten, Or.inl ?_⟩⟩
    all_goals
      dsimp only
      split_ifs <;> omega
  next hmode =>
    exact .cursorToRow (p := { p with
      selectedRowIndex := if p.selectedRowIndex - 1 < 0 then 9 else p.selectedRowIndex - 1 })
      (h.initial (hmode.trans_ne (by decide))) hmode hq

lemma Selected.arrowRight (h : p.Selected) (hf : p.f1Flag = true) (hok : p.Settled (.arrowRight d))
    (hq : p.arrowRightHandle d = .ok q) : q.Selected := by
  unfold arrowRightHandle at hq
  split_ifs at hq with hmode
  · obtain ⟨r, hr, hq⟩ := bind_eq_ok hq
    obtain ⟨_, _, rfl⟩ := rowIndex_ok hr
    split_ifs at hq with hdir
    · obtain ⟨path, hpath, hq⟩ := bind_eq_ok hq
      exact h.enter hmode (hok hf hmode hdir path hpath) hq
    · obtain rfl := Except.ok.inj hq
      exact h
  · obtain rfl := Except.ok.inj hq
    exact h

lemma Selected.arrowLeft (h : p.Selected) (hf : p.f1Flag = true) (hok : p.Settled (.arrowLeft d))
    (hq : p.arrowLeftHandle d = .ok q) : q.Selected := by
  unfold arrowLeftHandle at hq
  split_ifs at hq with hmode
  · obtain ⟨path, hpath, hq⟩ := bind_eq_ok hq
    exact h.enter hmode.1 (hok hf hmode.1 hmode.2 path hpath) hq
  · obtain rfl := Except.ok.inj hq
    exact h

lemma Selected.f2 (h : p.Selected) (hok : p.Settled (.f2 d)) (hq : p.press (.f2 d) = .ok q) : q.Selected := by
  by_cases hmode : p.f2Flag = .explorer
  · have hclip : f2Handle d { p with f2Flag := .clipboard } = .ok q := by
      rw [← hq, press, if_pos hmode]
    exact .cursorToRow (p := { p with f2Flag := .clipboard, selectedRowIndex := 0 })
      (h.initial (hmode.trans_ne (by decide))) rfl hclip
  · have hshow : f2Handle d { p with f2Flag := .explorer } = .ok q := by
      rw [← hq, press, if_neg hmode]
    obtain ⟨t, ht, hq'⟩ := bind_eq_ok hshow
    rw [renderBorder_ok ht] at hq'
    refine .getChildren (p := { p with f2Flag := .explorer, selectedRowIndex := 0 }) (le_refl _)
      (by decide : (0 : ℤ) < 10) ⟨hok hmode, ?_⟩ hq'
    rcases Nat.eq_zero_or_pos (entries (d.block p.shownPath)) with hzero | hpos
    · exact Or.inr ⟨rfl, hzero⟩
    · exact Or.inl (Int.natCast_pos.mpr hpos)

lemma printToClb_ok {c : Byte} (h : p.printToClb c = .ok q) :
    ∃ f k, q = { p with clipboard := f, cliboardCursor := k } := by
  obtain ⟨r, _, h⟩ := bind_eq_ok h
  split_ifs at h
  · obtain ⟨s, _, rfl⟩ := map_eq_ok h
    split_ifs
    · exact ⟨_, _, rfl⟩
    · exact ⟨_, _, rfl⟩
  · obtain rfl := Except.ok.inj h
    exact ⟨_, _, rfl⟩
  · obtain rfl := Except.ok.inj h
    exact ⟨_, _, rfl⟩
  · obtain ⟨s, _, h⟩ := bind_eq_ok h
    split_ifs at h
    obtain rfl := Except.ok.inj h
    exact ⟨_, _, rfl⟩

lemma Selected.typed (h : p.Selected) (hq : ((p.typed e).map (p.printToClb ·)).getD (.ok p) = .ok q) : q.Selected := by
  cases hc : p.typed e with
  | none =>
    rw [hc] at hq
    obtain rfl := Except.ok.inj hq
    exact h
  | some c =>
    rw [hc] at hq
    obtain ⟨f, k, rfl⟩ := printToClb_ok hq
    exact h.clip f k

theorem Selected.press (h : p.Selected) (hok : p.Settled e) (hq : p.press e = .ok q) : q.Selected := by
  have hsame : ∀ {x : Except Fault Panel}, (if p.f1Flag then x else .ok p) = .ok q →
      (p.f1Flag = true → x = .ok q → q.Selected) → q.Selected := by
    intro x hx hgo
    split_ifs at hx with hf
    · exact hgo hf hx
    · obtain rfl := Except.ok.inj hx
      exact h
  cases e with
  | self mode scan => exact h.typed hq
  | space mode =>
    rw [Panel.press] at hq
    split_ifs at hq
    · rw [spaceHandle_ok hq]
      exact h
    · exact h.typed hq
  | f1 down =>
    obtain rfl := Except.ok.inj hq
    exact ⟨h.nonneg, h.lt, h.initial, h.listed⟩
  | f2 d => exact h.f2 hok hq
  | f3 =>
    obtain rfl := Except.ok.inj hq
    exact ⟨h.nonneg, h.lt, h.initial, h.listed⟩
  | arrowUp => exact hsame hq fun hf => h.arrowUp (hok hf)
  | arrowDown => exact hsame hq fun hf => h.arrowDown (hok hf)
  | arrowLeft d => exact hsame hq fun hf => h.arrowLeft hf hok
  | arrowRight d => exact hsame hq fun hf => h.arrowRight hf hok

lemma selected_of_reach (h : panelSystem.Reach Settled p) : p.Selected := by
  refine h.invariant ?_ fun _ _ _ hs hok hq => hs.press hok hq
  intro s hs
  obtain rfl : s = initialPanel := hs
  exact ⟨le_refl _, by decide, fun hmode => absurd rfl hmode, fun hmode => by cases hmode⟩

section Faults

variable {α β : Type*} {x : Except Fault α}

/-- Nothing goes wrong but the room in an array of characters. -/
def Overruns (x : Except Fault α) : Prop := ∀ f, x = .error f → f = .overrun

lemma Overruns.ok (a : α) : Overruns (.ok a) := fun _ h => by cases h

lemma Overruns.overrun : Overruns (.error .overrun : Except Fault α) := fun _ h => (Except.error.inj h).symm

lemma Overruns.bind {g : α → Except Fault β} (h : Overruns x) (hg : ∀ a, x = .ok a → Overruns (g a)) :
    Overruns (x.bind g) := by
  cases x with
  | error e => exact fun f hf => h f (congrArg _ (Except.error.inj hf))
  | ok a => exact hg a rfl

lemma Overruns.map {g : α → β} (h : Overruns x) : Overruns (x.map g) := by
  cases x with
  | error e => exact fun f hf => h f (congrArg _ (Except.error.inj hf))
  | ok a => exact .ok _

lemma Overruns.ite {c : Prop} [Decidable c] {y : Except Fault α} (hx : c → Overruns x) (hy : ¬c → Overruns y) :
    Overruns (if c then x else y) := by
  split_ifs with hc
  · exact hx hc
  · exact hy hc

lemma overruns_read (a n : ℕ) : Overruns (CString.read m a n) := by
  induction n generalizing a with
  | zero => exact .overrun
  | succ n ih =>
    rw [CString.read]
    split_ifs
    · exact .ok _
    · exact (ih (a + 1)).map

lemma overruns_joinPath (a b : CString) : Overruns (joinPath a b) := by
  have hcat : ∀ a b, Overruns (CString.strcat 22 a b) := fun a b => .ite (fun _ => .ok _) fun _ => .overrun
  exact .bind (.ite (fun _ => .ok _) fun _ => hcat _ _) fun _ _ => hcat _ _

lemma overruns_loop {body : ℕ → Panel → Except Fault Panel} (hbody : ∀ k s, Overruns (body k s)) (n : ℕ) (s : Panel) :
    Overruns (forLoopE body s n) := by
  induction n with
  | zero => exact .ok s
  | succ n ih => exact ih.bind fun _ _ => hbody _ _

lemma overruns_getChildren (d : Disk) (p : Panel) : Overruns (getChildren d p) := by
  refine overruns_loop (fun k s => ?_) 10 _
  exact (overruns_read _ _).bind fun _ _ => (overruns_joinPath _ _).bind fun _ _ => .ite (fun _ => .overrun) fun _ => .ok _

lemma overruns_border (title : CString) (p : Panel) : Overruns (renderBorder title p) :=
  .ite (fun _ => .ok _) fun _ => .overrun

lemma overruns_enter (d : Disk) (p : Panel) (path : CString) : Overruns (p.enter d path) :=
  (overruns_getChildren d _).bind fun _ _ => overruns_border _ _

lemma overruns_index {r : ℤ} (h₀ : 0 ≤ r) (h₁ : r < 10) : Overruns (rowIndex r) := by
  rw [rowIndex, if_pos ⟨h₀, h₁⟩]
  exact .ok _

lemma overruns_cursor (h₀ : 0 ≤ p.selectedRowIndex) (h₁ : p.selectedRowIndex < 10) : Overruns p.cursorToRow :=
  ((overruns_index h₀ h₁).bind fun _ _ => overruns_read _ _).map

lemma Selected.overruns_typed (h : p.Selected) : Overruns (((p.typed e).map (p.printToClb ·)).getD (.ok p)) := by
  cases p.typed e with
  | none => exact .ok p
  | some c =>
    refine (overruns_index h.nonneg h.lt).bind fun r _ => .ite (fun _ => (overruns_read _ _).map) fun _ => ?_
    refine .ite (fun _ => .ok _) fun _ => .ite (fun _ => .ok _) fun _ => ?_
    exact (overruns_read _ _).bind fun _ _ => .ite (fun _ => .overrun) fun _ => .ok _

lemma Selected.overruns_press (h : p.Selected) (hok : p.Settled e) : Overruns (p.press e) := by
  have hindex := overruns_index h.nonneg h.lt
  cases e with
  | self mode scan => exact h.overruns_typed
  | space mode =>
    refine .ite (fun _ => ?_) fun _ => h.overruns_typed
    unfold spaceHandle
    split
    · exact .ok p
    · exact hindex.bind fun _ _ => ((overruns_read _ _).bind fun _ _ => overruns_joinPath _ _).map
    · exact (hindex.bind fun _ _ => overruns_read _ _).map
  | f1 down => exact .ok _
  | f2 d =>
    change Overruns (f2Handle d _)
    unfold f2Handle
    split
    · exact .ok _
    · exact (overruns_border _ _).bind fun _ _ => overruns_getChildren d _
    · exact overruns_cursor (p := { p with f2Flag := _, selectedRowIndex := 0 }) (le_refl _) (by decide : (0 : ℤ) < 10)
  | f3 => exact .ok _
  | arrowUp =>
    refine .ite (fun _ => ?_) fun _ => .ok p
    unfold arrowUpHandle
    split
    · exact .ok p
    · exact .ok _
    · have hlt := h.lt
      refine overruns_cursor ?_ ?_
      all_goals
        dsimp only
        split_ifs <;> omega
  | arrowDown =>
    refine .ite (fun hf => ?_) fun _ => .ok p
    unfold arrowDownHandle
    split
    · exact .ok p
    next hmode => exact .ite (fun hzero => absurd hzero (hok hf hmode)) fun _ => .ok _
    · have hge := h.nonneg
      exact overruns_cursor (Int.tmod_nonneg _ (by omega)) (Int.tmod_lt_of_pos _ (by decide))
  | arrowLeft d =>
    refine .ite (fun _ => .ite (fun _ => ?_) fun _ => .ok p) fun _ => .ok p
    exact .bind (.ite (fun _ => .overrun) fun _ => .ok _) fun _ _ => overruns_enter _ _ _
  | arrowRight d =>
    refine .ite (fun _ => .ite (fun _ => ?_) fun _ => .ok p) fun _ => .ok p
    refine hindex.bind fun r _ => .ite (fun _ => ?_) fun _ => .ok p
    exact ((overruns_read _ _).bind fun _ _ => overruns_joinPath _ _).bind fun _ _ => overruns_enter _ _ _

end Faults

/-- In the explorer the selected row is one of the ten and holds an entry, or is the first when no row does; no key
divides by zero or leaves the ten rows. -/
theorem selection_valid (h : panelSystem.Reach Settled p) :
    (p.f2Flag = .explorer → ∃ r, rowIndex p.selectedRowIndex = .ok r ∧
        (p.lsFiles (16 * r) ≠ 0 ∨ r = 0 ∧ ∀ k < 10, p.lsFiles (16 * k) = 0)) ∧
      ∀ e f, p.Settled e → p.press e = .error f → f = .overrun := by
  have hsel := selected_of_reach h
  refine ⟨fun hmode => ?_, fun e f hok => hsel.overruns_press hok f⟩
  obtain ⟨hlisted, _, hrow⟩ := hsel.listed hmode
  have h₀ := hsel.nonneg
  have h₁ := hsel.lt
  refine ⟨_, if_pos ⟨h₀, h₁⟩, ?_⟩
  rcases hrow with hlt | ⟨hzero, hnone⟩
  · exact Or.inl ((hlisted p.selectedRowIndex.toNat (by omega)).mpr (by omega))
  · refine Or.inr ⟨by rw [hzero]; rfl, fun k hk => ?_⟩
    by_contra hne
    have hlt := (hlisted k hk).mp hne
    omega

lemma packed_twoNames (path : CString) : Packed (twoNames.block path) := by
  intro i j hij _ hj
  have hj' : entryName j = entryName 0 ∨ entryName j = entryName 1 := by
    by_contra hne
    exact hj (if_neg hne)
  have hi : i = 0 := by
    unfold entryName at hj'
    omega
  have hfirst : twoNames.block path (entryName 0) = 97 := by simp [twoNames]
  rw [hi, hfirst]
  decide

/-- F2 shows a root directory of two files. -/
theorem selection_valid_twoNames : ∃ p, initialPanel.press (.f2 twoNames) = .ok p ∧
    ∃ r, rowIndex p.selectedRowIndex = .ok r ∧
      (p.lsFiles (16 * r) ≠ 0 ∨ r = 0 ∧ ∀ k < 10, p.lsFiles (16 * k) = 0) := by
  have hshown : (initialPanel.press (.f2 twoNames)).toOption.map Panel.f2Flag = some .explorer := by decide +kernel
  cases hrun : initialPanel.press (.f2 twoNames) with
  | error f =>
    rw [hrun] at hshown
    cases hshown
  | ok p =>
    have hok : initialPanel.Settled (.f2 twoNames) := fun _ => packed_twoNames _
    rw [hrun] at hshown
    exact ⟨p, rfl, (selection_valid (.next (.start rfl) hok hrun)).1 (Option.some.inj hshown)⟩

/-- Two directories in the root, with one entry each. -/
def twoDirs : Disk where
  block path x := if x = entryName 0 ∨ x = entryName 1 ∧ path = slash then 97 else 0
  mode _ := 0o040755

def emptyRoot : Disk where
  block _ _ := 0
  mode _ := 0o040755

/-- The second row is selected and its directory entered, which has one; and an arrow is used in an empty directory. -/
theorem selection_lost :
    (¬∀ p, panelSystem.Reach (fun _ _ => True) p → p.f2Flag = .explorer →
      ∃ r, rowIndex p.selectedRowIndex = .ok r ∧
        (p.lsFiles (16 * r) ≠ 0 ∨ r = 0 ∧ ∀ k < 10, p.lsFiles (16 * k) = 0)) ∧
      ∃ p, panelSystem.Reach (fun _ _ => True) p ∧ p.press .arrowDown = .error .divide := by
  constructor
  · intro hall
    have hrow : ((presses [.f2 twoDirs, .f1 true, .arrowDown, .arrowRight twoDirs] initialPanel).toOption.map fun p =>
        (p.f2Flag, p.selectedRowIndex, p.lsFiles 16)) = some (.explorer, 1, 0) := by decide +kernel
    cases hrun : presses [.f2 twoDirs, .f1 true, .arrowDown, .arrowRight twoDirs] initialPanel with
    | error f =>
      rw [hrun] at hrow
      cases hrow
    | ok p =>
      rw [hrun] at hrow
      simp only [Except.toOption, Option.map_some, Option.some.injEq, Prod.mk.injEq] at hrow
      obtain ⟨hmode, hsel, hnone⟩ := hrow
      obtain ⟨r, hr, hlisted⟩ := hall p (reach_presses (.start rfl) hrun) hmode
      obtain ⟨_, _, rfl⟩ := rowIndex_ok hr
      rw [hsel] at hlisted
      rcases hlisted with hentry | ⟨hzero, _⟩
      · exact hentry hnone
      · cases hzero
  · have hempty : ((presses [.f2 emptyRoot, .f1 true] initialPanel).toOption.map fun p =>
        (p.f1Flag, p.f2Flag, p.currentDirLen)) = some (true, .explorer, 0) := by decide +kernel
    cases hrun : presses [.f2 emptyRoot, .f1 true] initialPanel with
    | error f =>
      rw [hrun] at hempty
      cases hempty
    | ok p =>
      rw [hrun] at hempty
      simp only [Except.toOption, Option.map_some, Option.some.injEq, Prod.mk.injEq] at hempty
      obtain ⟨hf, hmode, hlen⟩ := hempty
      refine ⟨p, reach_presses (.start rfl) hrun, ?_⟩
      rw [press, if_pos hf, arrowDownHandle, hmode]
      exact if_pos hlen

end Devos.Tty.Panel
