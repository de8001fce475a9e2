import Devos.Tty.Explorer
import Mathlib.Data.List.GetD

/-! The rows of the file explorer: what a listing reads from a directory and puts into each of them. -/

namespace Devos

open Loops

namespace CString

/-- The bytes at `a` up to the first zero byte, `n` of them at most. -/
def charsFrom (m : ℕ → Byte) : ℕ → ℕ → List Byte
  | _, 0 => []
  | a, n + 1 => if m a = 0 then [] else m a :: charsFrom m (a + 1) n

section Reading

variable {m : ℕ → Byte} {a n k : ℕ} {s : CString}

lemma length_charsFrom_le (m : ℕ → Byte) (a n : ℕ) : (charsFrom m a n).length ≤ n := by
  induction n generalizing a with
  | zero => exact Nat.le_refl _
  | succ n ih =>
    rw [charsFrom]
    split_ifs
    · exact Nat.zero_le _
    · exact Nat.succ_le_succ (ih (a + 1))

lemma charsFrom_nulFree (m : ℕ → Byte) (a n : ℕ) : (0 : Byte) ∉ charsFrom m a n := by
  induction n generalizing a with
  | zero => exact List.not_mem_nil
  | succ n ih =>
    rw [charsFrom]
    split_ifs with ha
    · exact List.not_mem_nil
    · exact fun h => (List.mem_cons.mp h).elim (fun h => ha h.symm) (ih (a + 1))

/-- The string of these bytes. -/
def stringAt (m : ℕ → Byte) (a n : ℕ) : CString := ⟨charsFrom m a n, charsFrom_nulFree m a n⟩

lemma read_eq (hk : k ≤ n) :
    read m a k = if (stringAt m a n).strlen < k then .ok (stringAt m a n) else .error .overrun := by
  induction k generalizing a n with
  | zero => rw [read, if_neg (Nat.not_lt_zero _)]
  | succ k ih =>
    obtain ⟨n, rfl⟩ : ∃ l, n = l + 1 := ⟨n - 1, by omega⟩
    rw [read]
    by_cases ha : m a = 0
    · have hempty : stringAt m a (n + 1) = empty := by
        unfold stringAt charsFrom
        simp only [ha, if_true]
        rfl
      rw [dif_pos ha, hempty]
      rfl
    · have hcons : stringAt m a (n + 1) = cons (m a) ha (stringAt m (a + 1) n) := by
        unfold stringAt
        rw [CString.mk.injEq, charsFrom, if_neg ha]
        rfl
      have hlen : (cons (m a) ha (stringAt m (a + 1) n)).strlen = (stringAt m (a + 1) n).strlen + 1 := rfl
      rw [dif_neg ha, hcons, hlen, ih (Nat.le_of_succ_le_succ hk)]
      split_ifs with h h' h'
      · rfl
      · omega
      · omega
      · rfl

/-- The characters are those before the first zero byte, or as many as there may be. -/
lemma charsFrom_eq_iff {cs : List Byte} (hcs : (0 : Byte) ∉ cs) : charsFrom m a n = cs ↔
    cs.length ≤ n ∧ (∀ j < cs.length, m (a + j) = cs.getD j 0) ∧ (cs.length < n → m (a + cs.length) = 0) := by
  induction n generalizing a cs with
  | zero =>
    rw [charsFrom]
    constructor
    · rintro rfl
      simp
    · rintro ⟨hlen, _⟩
      exact (List.eq_nil_of_length_eq_zero (Nat.le_zero.mp hlen)).symm
  | succ n ih =>
    rw [charsFrom]
    cases cs with
    | nil =>
      by_cases ha : m a = 0 <;> simp [ha]
    | cons c cs =>
      have hc : c ≠ 0 := fun h => hcs (h ▸ List.mem_cons_self)
      have hrest : (0 : Byte) ∉ cs := fun h => hcs (List.mem_cons_of_mem _ h)
      have hplace : ∀ j, a + 1 + j = a + (j + 1) := fun j => by omega
      by_cases ha : m a = 0
      · rw [if_pos ha]
        refine iff_of_false (fun h => by cases h) ?_
        rintro ⟨_, hchars, _⟩
        have hfirst := hchars 0 (Nat.succ_pos _)
        exact hc (hfirst.symm.trans ha)
      · rw [if_neg ha, List.cons.injEq, ih hrest]
        constructor
        · rintro ⟨rfl, hlen, hchars, hend⟩
          refine ⟨Nat.succ_le_succ hlen, ?_, fun h => ?_⟩
          · intro j hj
            cases j with
            | zero => rfl
            | succ j =>
              rw [← hplace]
              exact hchars j (Nat.lt_of_succ_lt_succ hj)
          · rw [List.length_cons, ← hplace]
            exact hend (Nat.lt_of_succ_lt_succ h)
        · rintro ⟨hlen, hchars, hend⟩
          refine ⟨hchars 0 (Nat.succ_pos _), Nat.le_of_succ_le_succ hlen, ?_, fun h => ?_⟩
          · intro j hj
            rw [hplace]
            exact hchars (j + 1) (Nat.succ_lt_succ hj)
          · rw [hplace]
            exact hend (Nat.succ_lt_succ h)

lemma char_end (s : CString) : s.char s.strlen = 0 := List.getD_eq_default _ _ (Nat.le_refl s.chars.length)

lemma char_ne_zero (h : k < s.strlen) : s.char k ≠ 0 := by
  rw [char, List.getD_eq_getElem _ _ h]
  exact fun hzero => s.nulFree (hzero ▸ List.getElem_mem h)

end Reading

end CString

namespace Tty

/-- What `joinPath` puts between the path and the name. -/
def separator (path : CString) : List Byte := if path = slash then [] else [47]

/-- `joinPath` of `path` and a name of `n` characters stays in its 22 bytes. -/
def Joins (path : CString) (n : ℕ) : Prop := path.strlen + (separator path).length + n < 22

instance (path : CString) (n : ℕ) : Decidable (Joins path n) := inferInstanceAs (Decidable (_ < _))

lemma separator_nulFree (path : CString) : (0 : Byte) ∉ separator path := by
  unfold separator
  split_ifs <;> decide

/-- What `joinPath` puts together. -/
def joined (path name : CString) : CString :=
  ⟨path.chars ++ separator path ++ name.chars, by
    simp only [List.mem_append, not_or]
    exact ⟨⟨path.nulFree, separator_nulFree path⟩, name.nulFree⟩⟩

lemma joinPath_eq (path name : CString) :
    joinPath path name = if Joins path name.strlen then .ok (joined path name) else .error .overrun := by
  unfold joinPath
  by_cases hroot : path = slash
  · have hsep : separator path = [] := if_pos hroot
    have hjoins : path.strlen + name.strlen < 22 ↔ Joins path name.strlen := by
      rw [Joins, hsep]
      rfl
    have hjoined : path.append name = joined path name := by
      unfold joined CString.append
      simp only [hsep, List.append_nil]
    rw [if_pos hroot]
    change CString.strcat 22 path name = _
    rw [CString.strcat, hjoined]
    exact if_congr hjoins rfl rfl
  · have hsep : separator path = [47] := if_neg hroot
    have hjoins : path.strlen + 1 + name.strlen < 22 ↔ Joins path name.strlen := by
      rw [Joins, hsep]
      rfl
    have hjoined : (path.append slash).append name = joined path name := by
      unfold joined CString.append
      simp only [hsep]
      rfl
    have hlength : (path.append slash).strlen = path.strlen + 1 := List.length_append
    have hone : slash.strlen = 1 := rfl
    rw [if_neg hroot, CString.strcat, hone]
    by_cases hfirst : path.strlen + 1 < 22
    · rw [if_pos hfirst]
      change CString.strcat 22 (path.append slash) name = _
      rw [CString.strcat, hlength, hjoined]
      exact if_congr hjoins rfl rfl
    · rw [if_neg hfirst, if_neg fun h => hfirst (by have hlen := hjoins.mpr h; omega)]
      rfl

/-- What is read as the name of entry `k` of the ten. -/
def slotName (m : ℕ → Byte) (k : ℕ) : CString := CString.stringAt m (entryName k) 22

/-- The name goes behind the path, and into its row or over the end of it, but not of the last row. -/
def Shown (m : ℕ → Byte) (path : CString) (k : ℕ) : Prop :=
  Joins path (slotName m k).strlen ∧ 16 * k + (slotName m k).strlen < 160

instance (m : ℕ → Byte) (path : CString) (k : ℕ) : Decidable (Shown m path k) := inferInstanceAs (Decidable (_ ∧ _))

def Listable (m : ℕ → Byte) (path : CString) : Prop := ∀ k < 10, Shown m path k

instance (m : ℕ → Byte) (path : CString) : Decidable (Listable m path) :=
  inferInstanceAs (Decidable (∀ k < 10, _))

namespace Panel

/-- A character in the colour of its entry. -/
def cell (mode : Word) (c : Byte) : Word := entryColor mode ||| c.signExtend 16

lemma entryColor_low (mode : Word) : (entryColor mode).setWidth 8 = (0 : Byte) := by
  unfold entryColor
  split_ifs <;> decide

lemma signExtend_low (c : Byte) : (c.signExtend 16).setWidth 8 = c := by
  refine BitVec.eq_of_getLsbD_eq fun i hi => ?_
  rw [BitVec.getLsbD_setWidth, BitVec.getLsbD_signExtend, if_pos hi]
  simp [hi, Nat.lt_of_lt_of_le hi (by decide : 8 ≤ 16)]

lemma cell_low (mode : Word) (c : Byte) : (cell mode c).setWidth 8 = c := by
  rw [cell, BitVec.setWidth_or, entryColor_low, signExtend_low]
  exact BitVec.zero_or

/-- The panel behind a turn of the loop. -/
def withEntry (d : Disk) (m : ℕ → Byte) (k : ℕ) (p : Panel) : Panel :=
  let name := slotName m k
  let mode := d.mode (joined p.currentDirPath name)
  { p with
    isDir := Function.update p.isDir k (Fs.sIsDir mode)
    lsFiles := fun x =>
      if 16 * k ≤ x ∧ x < 16 * k + name.strlen then cell mode (name.char (x - 16 * k))
      else if x = 16 * k + name.strlen then 0
      else p.lsFiles x
    currentDirLen := p.currentDirLen + if name.strlen = 0 then 0 else 1 }

section Listing

variable {d : Disk} {m : ℕ → Byte} {p q : Panel} {k n : ℕ}

lemma Joins.lt {path : CString} (h : Joins path n) : n < 22 := by
  unfold Joins at h
  omega

lemma listEntry_eq : listEntry d m k p = if Shown m p.currentDirPath k then .ok (withEntry d m k p) else .error .overrun := by
  unfold listEntry
  rw [CString.read_eq (Nat.le_refl 22)]
  change (if (slotName m k).strlen < 22 then Except.ok (slotName m k) else _).bind _ = _
  by_cases hjoins : Joins p.currentDirPath (slotName m k).strlen
  · rw [if_pos (Joins.lt hjoins)]
    change (joinPath p.currentDirPath (slotName m k)).bind _ = _
    rw [joinPath_eq, if_pos hjoins]
    change (if 160 ≤ 16 * k + (slotName m k).strlen then _ else _) = _
    by_cases hroom : 160 ≤ 16 * k + (slotName m k).strlen
    · rw [if_pos hroom, if_neg fun h => absurd h.2 (by omega)]
    · have hshown : Shown m p.currentDirPath k := ⟨hjoins, by omega⟩
      rw [if_neg hroom, if_pos hshown]
      rfl
  · rw [if_neg fun h : Shown m p.currentDirPath k => hjoins h.1]
    split_ifs
    · change (joinPath p.currentDirPath (slotName m k)).bind _ = _
      rw [joinPath_eq, if_neg hjoins]
      rfl
    · rfl

lemma listEntry_withEntry (h : listEntry d m k p = .ok q) : Shown m p.currentDirPath k ∧ q = withEntry d m k p := by
  rw [listEntry_eq] at h
  split_ifs at h with hshown
  exact ⟨hshown, (Except.ok.inj h).symm⟩

/-- The first `n` rows, and what else is known of their files. -/
structure Lists (d : Disk) (m : ℕ → Byte) (path : CString) (n : ℕ) (q : Panel) : Prop where
  samePath : q.currentDirPath = path
  isDir : ∀ k < n, q.isDir k = Fs.sIsDir (d.mode (joined path (slotName m k)))
  cells : ∀ k < n, ∀ j < 16, j < (slotName m k).strlen →
    q.lsFiles (16 * k + j) = cell (d.mode (joined path (slotName m k))) ((slotName m k).char j)
  stop : ∀ k < n, (slotName m k).strlen < 16 → q.lsFiles (16 * k + (slotName m k).strlen) = 0

lemma Lists.withEntry {path : CString} (h : Lists d m path n p) : Lists d m path (n + 1) (withEntry d m n p) where
  samePath := h.samePath
  isDir k hk := by
    unfold Panel.withEntry
    dsimp only
    rcases Nat.lt_succ_iff_lt_or_eq.mp hk with hlt | rfl
    · rw [Function.update_of_ne hlt.ne]
      exact h.isDir k hlt
    · rw [Function.update_self, h.samePath]
  cells k hk j hj hlen := by
    unfold Panel.withEntry
    dsimp only
    rcases Nat.lt_succ_iff_lt_or_eq.mp hk with hlt | rfl
    · rw [if_neg (by omega), if_neg (by omega)]
      exact h.cells k hlt j hj hlen
    · rw [if_pos (by omega), h.samePath, Nat.add_sub_cancel_left]
  stop k hk hlen := by
    unfold Panel.withEntry
    dsimp only
    rcases Nat.lt_succ_iff_lt_or_eq.mp hk with hlt | rfl
    · rw [if_neg (by omega), if_neg (by omega)]
      exact h.stop k hlt hlen
    · rw [if_neg (by omega), if_pos rfl]

lemma lists_start (d : Disk) (m : ℕ → Byte) (p : Panel) : Lists d m p.currentDirPath 0 p where
  samePath := rfl
  isDir k hk := absurd hk (Nat.not_lt_zero k)
  cells k hk := absurd hk (Nat.not_lt_zero k)
  stop k hk := absurd hk (Nat.not_lt_zero k)

lemma listing_ok (h : forLoopE (listEntry d m) p n = .ok q) :
    (∀ k < n, Shown m p.currentDirPath k) ∧ Lists d m p.currentDirPath n q := by
  refine forLoopE_invariant (P := fun n q => (∀ k < n, Shown m p.currentDirPath k) ∧ Lists d m p.currentDirPath n q)
    ⟨fun k hk => absurd hk (Nat.not_lt_zero k), lists_start d m p⟩ ?_ h
  rintro n s s' ⟨hshown, hs⟩ hturn
  obtain ⟨hn, rfl⟩ := listEntry_withEntry hturn
  rw [hs.samePath] at hn
  refine ⟨fun k hk => ?_, hs.withEntry⟩
  rcases Nat.lt_succ_iff_lt_or_eq.mp hk with hlt | rfl
  · exact hshown k hlt
  · exact hn

lemma exists_listing : (∃ q, forLoopE (listEntry d m) p n = .ok q) ↔ ∀ k < n, Shown m p.currentDirPath k := by
  constructor
  · rintro ⟨q, hq⟩
    exact (listing_ok hq).1
  · intro h
    have hturn : ∀ i (s : Panel), i < n → s.currentDirPath = p.currentDirPath →
        ∃ s', listEntry d m i s = .ok s' ∧ s'.currentDirPath = p.currentDirPath := by
      intro i s hi hs
      rw [listEntry_eq, hs, if_pos (h i hi)]
      exact ⟨_, rfl, hs⟩
    obtain ⟨q, hq, _⟩ := forLoopE_induction (s := p) (P := fun _ s => s.currentDirPath = p.currentDirPath) rfl hturn
    exact ⟨q, hq⟩

theorem getChildren_rows (h : getChildren d p = .ok q) :
    Lists d (d.block p.shownPath) p.currentDirPath 10 q := (listing_ok h).2

lemma exists_getChildren : (∃ q, getChildren d p = .ok q) ↔ Listable (d.block p.shownPath) p.currentDirPath :=
  exists_listing

/-- What `short_to_str` reads from a row with a name of at most 14 characters. -/
lemma Lists.read {path : CString} (h : Lists d m path n q) (hk : k < n) :
    CString.read (fun x => (q.lsFiles x).setWidth 8) (16 * k) 15 =
      if (slotName m k).strlen < 15 then .ok (slotName m k) else .error .overrun := by
  have hlow : ∀ j < 16, j < (slotName m k).strlen → (q.lsFiles (16 * k + j)).setWidth 8 = (slotName m k).char j :=
    fun j hj hlen => by rw [h.cells k hk j hj hlen, cell_low]
  by_cases hlen : (slotName m k).strlen < 15
  · rw [if_pos hlen, CString.read_eq_iff]
    refine ⟨hlen, fun j hj => ?_⟩
    rcases hj.lt_or_eq with hlt | rfl
    · exact hlow j (by omega) hlt
    · dsimp only
      rw [h.stop k hk (by omega), CString.char_end]
      rfl
  · rw [if_neg hlen]
    cases hread : CString.read (fun x => (q.lsFiles x).setWidth 8) (16 * k) 15 with
    | error f => rw [overruns_read _ _ f hread]
    | ok s =>
      have hshort := (CString.read_eq_iff.mp hread).1
      have hstop := (CString.ends_of_read hread).zero
      rw [hlow s.strlen (by omega) (by omega)] at hstop
      exact absurd hstop (CString.char_ne_zero (by omega))

end Listing

section Keys

variable {p q : Panel} {e : PanelKey} {d : Disk} {path : CString}

/-- A listing: the disk, and the panel that it starts from with the path in place. -/
def Relists (p : Panel) (e : PanelKey) (d : Disk) (t : Panel) : Prop :=
  t.lsFiles = p.lsFiles ∧
    (e = .f2 d ∧ t.currentDirPath = p.currentDirPath ∨
      e = .arrowRight d ∧ p.f2Flag = .explorer ∧
        (∃ r, rowIndex p.selectedRowIndex = .ok r ∧ p.isDir r = true ∧ p.below r = .ok t.currentDirPath) ∨
      e = .arrowLeft d ∧ p.above = .ok t.currentDirPath)

/-- Nothing of the explorer but the selected row is another one. -/
structure SameListing (p q : Panel) : Prop where
  path : q.currentDirPath = p.currentDirPath
  rows : q.lsFiles = p.lsFiles
  initFlag : q.initFlag = p.initFlag
  mode : q.f2Flag ≠ .off → p.f2Flag ≠ .off

lemma SameListing.refl (p : Panel) : SameListing p p := ⟨rfl, rfl, rfl, id⟩

lemma enter_ok (h : p.enter d path = .ok q) : getChildren d { p with currentDirPath := path } = .ok q := by
  obtain ⟨t, ht, hborder⟩ := bind_eq_ok h
  rw [renderBorder_ok hborder]
  exact ht

lemma cursorToRow_same (h : p.cursorToRow = .ok q) : SameListing p q := by
  obtain ⟨s, _, rfl⟩ := map_eq_ok h
  exact ⟨rfl, rfl, rfl, id⟩

lemma typed_same (hq : ((p.typed e).map (p.printToClb ·)).getD (.ok p) = .ok q) : SameListing p q := by
  cases hc : p.typed e with
  | none =>
    rw [hc] at hq
    obtain rfl := Except.ok.inj hq
    exact .refl p
  | some c =>
    rw [hc] at hq
    obtain ⟨f, k, rfl⟩ := printToClb_ok hq
    exact ⟨rfl, rfl, rfl, id⟩

lemma arrowDown_same (hq : p.arrowDownHandle = .ok q) : SameListing p q := by
  unfold arrowDownHandle at hq
  split at hq
  · obtain rfl := Except.ok.inj hq
    exact .refl p
  · split_ifs at hq
    obtain rfl := Except.ok.inj hq
    exact ⟨rfl, rfl, rfl, id⟩
  · have hsame := cursorToRow_same hq
    exact ⟨hsame.path, hsame.rows, hsame.initFlag, hsame.mode⟩

lemma arrowUp_same (hq : p.arrowUpHandle = .ok q) : SameListing p q := by
  unfold arrowUpHandle at hq
  split at hq
  · obtain rfl := Except.ok.inj hq
    exact .refl p
  · obtain rfl := Except.ok.inj hq
    exact ⟨rfl, rfl, rfl, id⟩
  · have hsame := cursorToRow_same hq
    exact ⟨hsame.path, hsame.rows, hsame.initFlag, hsame.mode⟩

/-- A key leaves the listing alone or makes another one. -/
theorem press_cases (hq : p.press e = .ok q) :
    SameListing p q ∨ ∃ d t, Relists p e d t ∧ getChildren d t = .ok q := by
  have hsame : ∀ {x : Except Fault Panel}, (if p.f1Flag then x else .ok p) = .ok q → x = .ok q ∨ q = p := by
    intro x hx
    split_ifs at hx
    · exact Or.inl hx
    · exact Or.inr (Except.ok.inj hx).symm
  cases e with
  | self mode scan => exact Or.inl (typed_same hq)
  | space mode =>
    rw [press] at hq
    split_ifs at hq
    · rw [spaceHandle_ok hq]
      exact Or.inl (.refl p)
    · exact Or.inl (typed_same hq)
  | f1 down =>
    obtain rfl := Except.ok.inj hq
    exact Or.inl ⟨rfl, rfl, rfl, id⟩
  | f2 d =>
    by_cases hmode : p.f2Flag = .explorer
    · have hclip : cursorToRow { p with f2Flag := .clipboard, selectedRowIndex := 0 } = .ok q := by
        rw [← hq, press, if_pos hmode]
        rfl
      have hsame := cursorToRow_same hclip
      exact Or.inl ⟨hsame.path, hsame.rows, hsame.initFlag, fun _ => by simp [hmode]⟩
    · have hshow : f2Handle d { p with f2Flag := .explorer } = .ok q := by
        rw [← hq, press, if_neg hmode]
      obtain ⟨t, ht, hq'⟩ := bind_eq_ok hshow
      rw [renderBorder_ok ht] at hq'
      exact Or.inr ⟨d, { p with f2Flag := .explorer, selectedRowIndex := 0 }, ⟨rfl, Or.inl ⟨rfl, rfl⟩⟩, hq'⟩
  | f3 =>
    obtain rfl := Except.ok.inj hq
    exact Or.inl ⟨rfl, rfl, rfl, id⟩
  | arrowUp =>
    rcases hsame hq with h | rfl
    · exact Or.inl (arrowUp_same h)
    · exact Or.inl (.refl q)
  | arrowDown =>
    rcases hsame hq with h | rfl
    · exact Or.inl (arrowDown_same h)
    · exact Or.inl (.refl q)
  | arrowLeft d =>
    rcases hsame hq with h | rfl
    · unfold arrowLeftHandle at h
      split_ifs at h
      · obtain ⟨path, hpath, hq⟩ := bind_eq_ok h
        exact Or.inr ⟨d, { p with currentDirPath := path }, ⟨rfl, Or.inr (Or.inr ⟨rfl, hpath⟩)⟩, enter_ok hq⟩
      · obtain rfl := Except.ok.inj h
        exact Or.inl (.refl p)
    · exact Or.inl (.refl q)
  | arrowRight d =>
    rcases hsame hq with h | rfl
    · unfold arrowRightHandle at h
      split_ifs at h with hmode
      · obtain ⟨r, hr, hq⟩ := bind_eq_ok h
        split_ifs at hq with hdir
        · obtain ⟨path, hpath, hq⟩ := bind_eq_ok hq
          exact Or.inr ⟨d, { p with currentDirPath := path },
            ⟨rfl, Or.inr (Or.inl ⟨rfl, hmode, r, hr, hdir, hpath⟩)⟩, enter_ok hq⟩
        · obtain rfl := Except.ok.inj hq
          exact Or.inl (.refl p)
      · obtain rfl := Except.ok.inj h
        exact Or.inl (.refl p)
    · exact Or.inl (.refl q)

end Keys

end Panel

end Tty

end Devos
