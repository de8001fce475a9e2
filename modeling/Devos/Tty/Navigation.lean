import Devos.Tty.ListRows

/-! The arrows that lead down the directories and up again: where the second of them goes behind the first. -/

namespace Devos.Tty

open Loops Runs

/-- An absolute path with these components. -/
def pathOf : List (List Byte) → List Byte
  | [] => [47]
  | cs => cs.flatMap fun c => 47 :: c

structure Spells (path : CString) (cs : List (List Byte)) : Prop where
  plain : ∀ c ∈ cs, c ≠ [] ∧ (47 : Byte) ∉ c
  chars : path.chars = pathOf cs

section Paths

variable {path name : CString} {cs : List (List Byte)} {c : List Byte}

lemma pathOf_eq (h : cs ≠ []) : pathOf cs = cs.flatMap fun c => 47 :: c := by
  cases cs with
  | nil => exact absurd rfl h
  | cons c cs => rfl

lemma pathOf_concat (cs : List (List Byte)) (c : List Byte) :
    pathOf (cs ++ [c]) = (cs.flatMap fun c => 47 :: c) ++ 47 :: c := by
  rw [pathOf_eq (by simp), List.flatMap_append, List.flatMap_singleton]

lemma spells_slash : Spells slash [] := ⟨fun _ hc => absurd hc List.not_mem_nil, rfl⟩

lemma chars_injective {s t : CString} (h : s.chars = t.chars) : s = t := by
  obtain ⟨chars, hnul⟩ := s
  obtain ⟨chars', hnul'⟩ := t
  cases h
  rfl

lemma Spells.eq_slash_iff (h : Spells path cs) : path = slash ↔ cs = [] := by
  constructor
  · rintro rfl
    by_contra hne
    obtain ⟨pre, c, rfl⟩ := List.eq_nil_or_concat cs |>.resolve_left hne
    have hc := h.plain c (by simp)
    have hchars := h.chars
    rw [List.concat_eq_append, pathOf_concat] at hchars
    have hlength := congrArg List.length hchars
    have hpos := List.length_pos_iff.mpr hc.1
    simp only [slash, List.length_append, List.length_cons, List.length_nil] at hlength
    omega
  · rintro rfl
    exact chars_injective h.chars

lemma Spells.joined (h : Spells path cs) (hname : name.chars ≠ []) (hplain : 47 ∉ name.chars) :
    Spells (joined path name) (cs ++ [name.chars]) := by
  refine ⟨fun c hc => ?_, ?_⟩
  · rcases List.mem_append.mp hc with hc | hc
    · exact h.plain c hc
    · obtain rfl := List.mem_singleton.mp hc
      exact ⟨hname, hplain⟩
  · rw [pathOf_concat]
    change path.chars ++ separator path ++ name.chars = _
    by_cases hroot : cs = []
    · have hslash : path = slash := h.eq_slash_iff.mpr hroot
      rw [separator, if_pos hslash, h.chars, hroot]
      rfl
    · have hslash : path ≠ slash := fun heq => hroot (h.eq_slash_iff.mp heq)
      rw [separator, if_neg hslash, h.chars, pathOf_eq hroot, List.append_assoc]
      rfl

/-- Up to the last slash of all. -/
lemma dropWhile_name (h : 47 ∉ c) (pre : List Byte) :
    ((pre ++ 47 :: c).reverse.dropWhile (· ≠ 47)).reverse = pre ++ [47] := by
  have hall : ∀ b ∈ c.reverse, decide (b ≠ 47) = true := by
    intro b hb
    rw [decide_eq_true_eq]
    rintro rfl
    exact h (List.mem_reverse.mp hb)
  rw [List.reverse_append, List.reverse_cons, List.append_assoc, List.dropWhile_append_of_pos hall]
  simp

end Paths

namespace Panel

variable {p q : Panel} {d : Disk} {cs : List (List Byte)} {c pre : List Byte}

lemma above_of_chars (h : p.currentDirPath.chars = pre ++ 47 :: c) (hc : 47 ∉ c) :
    ∃ path, p.above = .ok path ∧ path.chars = pre ++ [47] := by
  have hup := dropWhile_name hc pre
  rw [← h] at hup
  unfold above
  dsimp only
  rw [if_neg (by rw [hup]; simp)]
  exact ⟨_, rfl, hup⟩

/-- What `short_to_str` finds in a row, if it has at most 14 characters. -/
def rowName (p : Panel) (r : ℕ) : CString := CString.stringAt (fun x => (p.lsFiles x).setWidth 8) (16 * r) 15

lemma below_eq (p : Panel) (r : ℕ) : p.below r = if (p.rowName r).strlen < 15 ∧ Joins p.currentDirPath (p.rowName r).strlen
    then .ok (joined p.currentDirPath (p.rowName r)) else .error .overrun := by
  unfold below
  rw [CString.read_eq (Nat.le_refl 15)]
  change (if (p.rowName r).strlen < 15 then Except.ok (p.rowName r) else _).bind _ = _
  by_cases hlen : (p.rowName r).strlen < 15
  · rw [if_pos hlen]
    change joinPath p.currentDirPath (p.rowName r) = _
    rw [joinPath_eq]
    exact if_congr (iff_and_self.mpr fun _ => hlen) rfl rfl
  · rw [if_neg hlen, if_neg fun h => hlen h.1]
    rfl

/-- No entry of a directory has a slash in its 14 characters. -/
def Plain (d : Disk) : Prop := ∀ path, ∀ k < 10, 47 ∉ CString.charsFrom (d.block path) (entryName k) 14

/-- The row has a name. -/
def Listed (p : Panel) (r : ℕ) : Prop := (p.rowName r).chars ≠ []

/-- Right arrows enter what is listed, and there are no left arrows. -/
def Descends (p : Panel) : PanelKey → Prop
  | .f2 d => Plain d
  | .arrowRight d => Plain d ∧ ∀ r, rowIndex p.selectedRowIndex = .ok r → p.Listed r
  | .arrowLeft _ => False
  | _ => True

structure Navigated (p : Panel) : Prop where
  spells : ∃ cs, Spells p.currentDirPath cs
  plain : ∀ r < 10, (p.rowName r).strlen < 15 → 47 ∉ (p.rowName r).chars
  initFlag : p.f2Flag ≠ .off → p.initFlag = true

section Going

lemma take_charsFrom {m : ℕ → Byte} {a n k : ℕ} (h : n ≤ k) :
    (CString.charsFrom m a k).take n = CString.charsFrom m a n := by
  induction n generalizing a k with
  | zero => rfl
  | succ n ih =>
    obtain ⟨k, rfl⟩ : ∃ l, k = l + 1 := ⟨k - 1, by omega⟩
    rw [CString.charsFrom, CString.charsFrom]
    split_ifs
    · rfl
    · rw [List.take_succ_cons, ih (Nat.le_of_succ_le_succ h)]

lemma Lists.rowName {m : ℕ → Byte} {path : CString} (h : Lists d m path 10 p) {r : ℕ} (hr : r < 10)
    (hlen : (p.rowName r).strlen < 15) : (p.rowName r).chars = CString.charsFrom m (entryName r) 14 := by
  have hread := h.read hr
  have hrow : p.rowName r = slotName m r ∧ (slotName m r).strlen < 15 := by
    rw [CString.read_eq (Nat.le_refl 15)] at hread
    change (if (p.rowName r).strlen < 15 then Except.ok (p.rowName r) else _) = _ at hread
    rw [if_pos hlen] at hread
    split_ifs at hread with hslot
    exact ⟨Except.ok.inj hread, hslot⟩
  have hshort : (CString.charsFrom m (entryName r) 22).length ≤ 14 := Nat.le_of_lt_succ hrow.2
  rw [hrow.1, ← take_charsFrom (by decide : 14 ≤ 22), List.take_of_length_le hshort]
  rfl

lemma Navigated.same (h : p.Navigated) (hsame : SameListing p q) : q.Navigated := by
  have hrow : ∀ r, q.rowName r = p.rowName r := by
    intro r
    unfold rowName
    rw [hsame.rows]
  refine ⟨?_, fun r hr => ?_, fun hmode => ?_⟩
  · rw [hsame.path]
    exact h.spells
  · rw [hrow]
    exact h.plain r hr
  · rw [hsame.initFlag]
    exact h.initFlag (hsame.mode hmode)

lemma Navigated.listing {t : Panel} (hspells : ∃ cs, Spells t.currentDirPath cs) (hd : Plain d)
    (hq : getChildren d t = .ok q) : q.Navigated := by
  have hrows := getChildren_rows hq
  obtain ⟨i, l, hsame, _⟩ := getChildren_ok hq
  refine ⟨?_, fun r hr hlen => ?_, fun _ => ?_⟩
  · rw [hrows.samePath]
    exact hspells
  · rw [hrows.rowName hr hlen]
    exact hd _ r hr
  · rw [hsame]

lemma Navigated.below (h : p.Navigated) {r : ℕ} {path : CString} (hr : r < 10) (hlisted : p.Listed r)
    (hpath : p.below r = .ok path) : ∃ cs, Spells path cs := by
  rw [below_eq] at hpath
  split_ifs at hpath with hfits
  obtain rfl := Except.ok.inj hpath
  obtain ⟨cs, hcs⟩ := h.spells
  exact ⟨_, hcs.joined hlisted (h.plain r hr hfits.1)⟩

lemma Navigated.press {e : PanelKey} (h : p.Navigated) (hok : p.Descends e) (hq : p.press e = .ok q) : q.Navigated := by
  rcases press_cases hq with hsame | ⟨d, t, ⟨_, hkey⟩, hlisting⟩
  · exact h.same hsame
  · rcases hkey with ⟨rfl, hpath⟩ | ⟨rfl, _, r, hr, _, hpath⟩ | ⟨rfl, _⟩
    · exact .listing (by rw [hpath]; exact h.spells) hok hlisting
    · obtain ⟨h₀, h₁, rfl⟩ := rowIndex_ok hr
      exact .listing (h.below (by omega) (hok.2 _ hr) hpath) hok.1 hlisting
    · exact hok.elim

lemma navigated_of_reach (h : panelSystem.Reach Descends p) : p.Navigated := by
  refine h.invariant ?_ fun _ _ _ hs hok hq => hs.press hok hq
  intro s hs
  obtain rfl : s = initialPanel := hs
  refine ⟨⟨[], spells_slash⟩, fun r _ _ => ?_, fun hmode => absurd rfl hmode⟩
  have hnone : (initialPanel.rowName r).chars = [] := by
    change CString.charsFrom (fun _ => (0 : Word).setWidth 8) (16 * r) 15 = []
    rw [CString.charsFrom, if_pos (by decide)]
  rw [hnone]
  exact List.not_mem_nil

lemma enter_spec {path : CString} (h : p.enter d path = .ok q) : q.currentDirPath = path ∧ q.f1Flag = p.f1Flag ∧
    q.f2Flag = p.f2Flag ∧ q.initFlag = true := by
  obtain ⟨i, l, hsame, _⟩ := getChildren_ok (enter_ok h)
  rw [hsame]
  exact ⟨rfl, rfl, rfl, rfl⟩

lemma exists_enter {path : CString} (hinit : p.initFlag = true) :
    (∃ q, p.enter d path = .ok q) ↔ Listable (d.block path) path ∧ path.strlen + 6 < 25 := by
  have hshown : ({ p with currentDirPath := path } : Panel).shownPath = path := if_pos hinit
  have hlisting := exists_getChildren (d := d) (p := { p with currentDirPath := path })
  rw [hshown] at hlisting
  rw [← hlisting]
  constructor
  · rintro ⟨q, hq⟩
    refine ⟨⟨q, enter_ok hq⟩, ?_⟩
    obtain ⟨t, _, hborder⟩ := bind_eq_ok hq
    unfold renderBorder at hborder
    split_ifs at hborder with hlen
    exact hlen
  · rintro ⟨⟨q, hq⟩, hlen⟩
    refine ⟨q, ?_⟩
    unfold enter
    rw [hq]
    exact if_pos hlen

lemma exists_enter_slash (hinit : p.initFlag = true) :
    (∃ q, p.enter d slash = .ok q) ↔ Listable (d.block slash) slash := by
  rw [exists_enter hinit, and_iff_left (by decide)]

lemma right_eq (hf : p.f1Flag = true) (hmode : p.f2Flag = .explorer) {r : ℕ}
    (hr : rowIndex p.selectedRowIndex = .ok r) (hdir : p.isDir r = true) :
    p.press (.arrowRight d) = (p.below r).bind (p.enter d) := by
  rw [Panel.press, if_pos hf, arrowRightHandle, if_pos hmode, hr]
  exact if_pos hdir

lemma left_eq (hf : p.f1Flag = true) (hmode : p.f2Flag = .explorer) (hroot : p.currentDirPath ≠ slash) :
    p.press (.arrowLeft d) = p.above.bind (p.enter d) := by
  rw [Panel.press, if_pos hf, arrowLeftHandle, if_pos ⟨hmode, hroot⟩]

/-- To the directory above, still with the slash behind it. -/
lemma left_spelled (hf : p.f1Flag = true) (hmode : p.f2Flag = .explorer) (h : Spells p.currentDirPath (cs ++ [c])) :
    ∃ up : CString, (∀ d, p.press (.arrowLeft d) = p.enter d up) ∧ up.chars = (cs.flatMap fun c => 47 :: c) ++ [47] ∧
      (cs = [] → up = slash) := by
  have hdeep : p.currentDirPath ≠ slash := by
    intro heq
    have hnil := h.eq_slash_iff.mp heq
    simp at hnil
  obtain ⟨up, hup, hchars⟩ := above_of_chars (by rw [h.chars, pathOf_concat]) (h.plain c (by simp)).2
  refine ⟨up, fun d => ?_, hchars, ?_⟩
  · rw [left_eq hf hmode hdeep, hup]
    rfl
  · rintro rfl
    exact chars_injective hchars

lemma presses_two {e e' : PanelKey} :
    presses [e, e'] p = .ok q ↔ ∃ t, p.press e = .ok t ∧ t.press e' = .ok q := by
  constructor
  · intro h
    obtain ⟨t, ht, h⟩ := bind_eq_ok h
    obtain ⟨u, hu, h⟩ := bind_eq_ok h
    obtain rfl := Except.ok.inj h
    exact ⟨t, ht, hu⟩
  · rintro ⟨t, ht, hq⟩
    rw [presses, ht]
    change (t.press e').bind (presses []) = _
    rw [hq]
    rfl

end Going

/-- A right arrow and then a left one. -/
def GoesBack (d d' : Disk) (p : Panel) : Prop :=
  ∃ q, presses [.arrowRight d, .arrowLeft d'] p = .ok q ∧ q.currentDirPath = p.currentDirPath

/-- A left arrow with each of these disks. -/
def ReachesRoot (ds : List Disk) (p : Panel) : Prop :=
  ∃ q, presses (ds.map .arrowLeft) p = .ok q ∧ q.currentDirPath = slash

section Arrows

variable {d' : Disk} {ds : List Disk} {r : ℕ}

lemma goesBack_iff (h : p.Navigated) (hf : p.f1Flag = true) (hmode : p.f2Flag = .explorer)
    (hr : rowIndex p.selectedRowIndex = .ok r) (hlisted : p.Listed r) (hdir : p.isDir r = true) :
    GoesBack d d' p ↔ p.currentDirPath = slash ∧ (p.rowName r).strlen < 15 ∧
      Listable (d.block (joined slash (p.rowName r))) (joined slash (p.rowName r)) ∧ Listable (d'.block slash) slash := by
  obtain ⟨cs, hcs⟩ := h.spells
  obtain ⟨h₀, h₁, hrow⟩ := rowIndex_ok hr
  have hinit := h.initFlag (by simp [hmode])
  unfold GoesBack
  simp only [presses_two]
  rw [right_eq hf hmode hr hdir, below_eq]
  by_cases hfits : (p.rowName r).strlen < 15 ∧ Joins p.currentDirPath (p.rowName r).strlen
  · have hspell := hcs.joined hlisted (h.plain r (by omega) hfits.1)
    rw [if_pos hfits]
    change (∃ q, (∃ t, p.enter d _ = .ok t ∧ _) ∧ _) ↔ _
    constructor
    · rintro ⟨q, ⟨t, ht, hq⟩, hback⟩
      obtain ⟨hpath, hf', hmode', hinit'⟩ := enter_spec ht
      rw [← hpath] at hspell
      obtain ⟨up, hleft, hchars, _⟩ := left_spelled (hf'.trans hf) (hmode'.trans hmode) hspell
      rw [hleft] at hq
      have hpath' := (enter_spec hq).1
      have hroot : cs = [] := by
        by_contra hne
        rw [← hpath', hback, hcs.chars, pathOf_eq hne] at hchars
        simp at hchars
      have hslash := hcs.eq_slash_iff.mpr hroot
      rw [hslash] at ht hback
      rw [hback] at hpath'
      rw [← hpath'] at hq
      exact ⟨hslash, hfits.1, ((exists_enter hinit).mp ⟨t, ht⟩).1, (exists_enter_slash hinit').mp ⟨q, hq⟩⟩
    · rintro ⟨hslash, hshort, hdown, hup⟩
      rw [hslash] at hspell ⊢
      have hroot := hcs.eq_slash_iff.mp hslash
      have hborder : (joined slash (p.rowName r)).strlen + 6 < 25 := by
        have hlength : (joined slash (p.rowName r)).strlen = 1 + (p.rowName r).strlen := by
          simp [joined, CString.strlen, separator, slash, Nat.add_comm]
        omega
      obtain ⟨t, ht⟩ := (exists_enter hinit).mpr ⟨hdown, hborder⟩
      obtain ⟨hpath, hf', hmode', hinit'⟩ := enter_spec ht
      rw [← hpath] at hspell
      obtain ⟨up, hleft, _, hupslash⟩ := left_spelled (hf'.trans hf) (hmode'.trans hmode) hspell
      obtain ⟨q, hq⟩ := (exists_enter_slash hinit').mpr hup
      refine ⟨q, ⟨t, ht, ?_⟩, (enter_spec hq).1⟩
      rw [hleft, hupslash hroot]
      exact hq
  · rw [if_neg hfits]
    refine iff_of_false ?_ ?_
    · rintro ⟨q, ⟨t, ht, _⟩, _⟩
      cases ht
    · rintro ⟨hslash, hshort, _⟩
      refine hfits ⟨hshort, ?_⟩
      rw [hslash]
      change 1 + 0 + _ < 22
      omega

/-- There is a slash behind the path of a directory. -/
def Stuck (p : Panel) : Prop := ∃ pre, pre ≠ [] ∧ p.currentDirPath.chars = pre ++ [47]

lemma Stuck.ne_slash (h : p.Stuck) : p.currentDirPath ≠ slash := by
  obtain ⟨pre, hpre, hchars⟩ := h
  intro heq
  rw [heq] at hchars
  have hlength := congrArg List.length hchars
  have hpos := List.length_pos_iff.mpr hpre
  simp only [slash, List.length_append, List.length_singleton] at hlength
  omega

lemma Stuck.left (h : p.Stuck) (hq : p.press (.arrowLeft d) = .ok q) : q.Stuck := by
  rcases press_cases hq with hsame | ⟨d', t, ⟨_, hkey⟩, hlisting⟩
  · unfold Stuck
    rw [hsame.path]
    exact h
  · obtain ⟨pre, hpre, hchars⟩ := h
    obtain ⟨path, hup, hsame⟩ := above_of_chars hchars List.not_mem_nil
    refine ⟨pre, hpre, ?_⟩
    rcases hkey with ⟨hno, _⟩ | ⟨hno, _⟩ | ⟨_, hpath⟩
    · cases hno
    · cases hno
    · rw [hup] at hpath
      rw [(getChildren_rows hlisting).samePath, ← Except.ok.inj hpath]
      exact hsame

lemma Stuck.lefts (h : p.Stuck) (hq : presses (ds.map .arrowLeft) p = .ok q) : q.Stuck := by
  induction ds generalizing p with
  | nil =>
    obtain rfl := Except.ok.inj hq
    exact h
  | cons d ds ih =>
    obtain ⟨t, ht, hq⟩ := bind_eq_ok hq
    exact ih (h.left ht) hq

lemma reachesRoot_iff (h : p.Navigated) (hf : p.f1Flag = true) (hmode : p.f2Flag = .explorer)
    (hcs : Spells p.currentDirPath cs) (hlen : ds.length = cs.length) :
    ReachesRoot ds p ↔ cs.length ≤ 1 ∧ ∀ d ∈ ds, Listable (d.block slash) slash := by
  have hinit := h.initFlag (by simp [hmode])
  unfold ReachesRoot
  rcases List.eq_nil_or_concat cs with rfl | ⟨pre, c, rfl⟩
  · obtain rfl := List.eq_nil_of_length_eq_zero hlen
    exact iff_of_true ⟨p, rfl, hcs.eq_slash_iff.mpr rfl⟩ ⟨Nat.zero_le 1, fun d hd => absurd hd List.not_mem_nil⟩
  · rw [List.concat_eq_append] at hcs hlen ⊢
    rw [List.length_append, List.length_singleton] at hlen ⊢
    obtain ⟨d, ds, rfl⟩ : ∃ d ds', ds = d :: ds' := List.exists_cons_of_length_eq_add_one hlen
    obtain ⟨up, hleft, hchars, hupslash⟩ := left_spelled hf hmode hcs
    rw [List.map_cons, presses, hleft]
    by_cases hpre : pre = []
    · rw [hpre, List.length_nil, Nat.zero_add, List.length_cons, Nat.add_eq_right] at hlen
      obtain rfl := List.eq_nil_of_length_eq_zero hlen
      rw [hupslash hpre, hpre, List.length_nil, and_iff_right (by omega)]
      simp only [List.mem_singleton, forall_eq]
      rw [← exists_enter_slash hinit]
      constructor
      · rintro ⟨q, hq, _⟩
        obtain ⟨t, ht, _⟩ := bind_eq_ok hq
        exact ⟨t, ht⟩
      · rintro ⟨t, ht⟩
        rw [ht]
        exact ⟨t, rfl, (enter_spec ht).1⟩
    · have hpos := List.length_pos_iff.mpr hpre
      refine iff_of_false ?_ fun hone => absurd hone.1 (by omega)
      rintro ⟨q, hq, hroot⟩
      obtain ⟨t, ht, hq⟩ := bind_eq_ok hq
      have hstuck : t.Stuck := by
        refine ⟨pre.flatMap fun c => 47 :: c, ?_, by rw [(enter_spec ht).1, hchars]⟩
        obtain ⟨c', rest, rfl⟩ := List.exists_cons_of_ne_nil hpre
        simp
      exact (hstuck.lefts hq).ne_slash hroot

end Arrows

/-- The left arrow undoes the right one in the root directory only, and gets there from its own directories only, where
all that is listed on the way has room. -/
theorem navigation_iff {p : Panel} (h : panelSystem.Reach Descends p) (hf : p.f1Flag = true)
    (hmode : p.f2Flag = .explorer) :
    (∀ r d d', rowIndex p.selectedRowIndex = .ok r → p.Listed r → p.isDir r = true →
      (GoesBack d d' p ↔ p.currentDirPath = slash ∧ (p.rowName r).strlen < 15 ∧
        Listable (d.block (joined slash (p.rowName r))) (joined slash (p.rowName r)) ∧
        Listable (d'.block slash) slash)) ∧
    (∃ cs, Spells p.currentDirPath cs) ∧
    ∀ cs, Spells p.currentDirPath cs → ∀ ds : List Disk, ds.length = cs.length →
      (ReachesRoot ds p ↔ cs.length ≤ 1 ∧ ∀ d ∈ ds, Listable (d.block slash) slash) := by
  have hnav := navigated_of_reach h
  exact ⟨fun r d d' hr hlisted hdir => goesBack_iff hnav hf hmode hr hlisted hdir, hnav.spells,
    fun cs hcs ds hlen => reachesRoot_iff hnav hf hmode hcs hlen⟩

lemma mem_charsFrom {m : ℕ → Byte} {a n : ℕ} {c : Byte} (h : c ∈ CString.charsFrom m a n) : ∃ x, m x = c := by
  induction n generalizing a with
  | zero => exact absurd h List.not_mem_nil
  | succ n ih =>
    rw [CString.charsFrom] at h
    split_ifs at h
    · exact absurd h List.not_mem_nil
    · rcases List.mem_cons.mp h with rfl | h
      · exact ⟨a, rfl⟩
      · exact ih h

lemma plain_twoDirs : Plain twoDirs := by
  intro path k _ hmem
  obtain ⟨x, hx⟩ := mem_charsFrom hmem
  simp only [twoDirs] at hx
  split_ifs at hx
  · cases hx
  · cases hx

lemma listed_iff (p : Panel) (r : ℕ) : p.Listed r ↔ (p.lsFiles (16 * r)).setWidth 8 ≠ (0 : Byte) := by
  change CString.charsFrom _ _ _ ≠ [] ↔ _
  rw [CString.charsFrom]
  split_ifs with hzero
  · exact iff_of_false (fun h => h rfl) fun h => h hzero
  · exact iff_of_true (List.cons_ne_nil _ _) hzero

/-- The root directory is shown, and the first directory in it is entered. -/
lemma reach_entered : ∃ p, panelSystem.Reach Descends p ∧ p.f1Flag = true ∧ p.f2Flag = .explorer ∧
    p.currentDirPath.chars = [47, 97] ∧ rowIndex p.selectedRowIndex = .ok 0 ∧ p.Listed 0 ∧ p.isDir 0 = true := by
  have hshown : ((presses [.f2 twoDirs, .f1 true] initialPanel).toOption.map fun p =>
      (p.selectedRowIndex, (p.lsFiles 0).setWidth 8)) = some (0, (97 : Byte)) := by decide +kernel
  have hentered : ((presses [.f2 twoDirs, .f1 true, .arrowRight twoDirs] initialPanel).toOption.map fun p =>
      (p.f1Flag, p.f2Flag, p.currentDirPath.chars, p.selectedRowIndex, (p.lsFiles 0).setWidth 8, p.isDir 0)) =
      some (true, .explorer, [47, 97], 0, (97 : Byte), true) := by decide +kernel
  cases hrun : presses [.f2 twoDirs, .f1 true, .arrowRight twoDirs] initialPanel with
  | error f =>
    rw [hrun] at hentered
    cases hentered
  | ok p =>
    rw [hrun] at hentered
    simp only [Except.toOption, Option.map_some, Option.some.injEq, Prod.mk.injEq] at hentered
    obtain ⟨hf, hmode, hpath, hsel, hrow, hdir⟩ := hentered
    obtain ⟨s, hs, hrun⟩ := bind_eq_ok hrun
    obtain ⟨t, ht, hrun⟩ := presses_two.mp hrun
    rw [presses, hs] at hshown
    change ((presses [.f1 true] s).toOption.map _) = _ at hshown
    rw [presses, ht] at hshown
    obtain ⟨hsel', hrow'⟩ := Prod.mk.inj (Option.some.inj hshown)
    have hfirst : initialPanel.Descends (.f2 twoDirs) := plain_twoDirs
    have hsecond : s.Descends (.f1 true) := trivial
    have hreach : panelSystem.Reach Descends t := .next (.next (.start rfl) hfirst hs) hsecond ht
    have hindex : rowIndex t.selectedRowIndex = .ok 0 := by
      rw [hsel']
      rfl
    have hdown : t.Descends (.arrowRight twoDirs) := by
      refine ⟨plain_twoDirs, fun r hr => ?_⟩
      obtain rfl := Except.ok.inj (hindex.symm.trans hr)
      rw [listed_iff, hrow']
      decide
    refine ⟨p, .next hreach hdown hrun, hf, hmode, hpath, ?_, ?_, hdir⟩
    · rw [hsel]
      rfl
    · rw [listed_iff, hrow]
      decide

theorem navigation_entered : ∃ p, p.currentDirPath.chars = [47, 97] ∧ ReachesRoot [twoDirs] p := by
  obtain ⟨p, hreach, hf, hmode, hpath, _⟩ := reach_entered
  have hcs : Spells p.currentDirPath [[97]] := ⟨by decide, hpath⟩
  refine ⟨p, hpath, ((navigation_iff hreach hf hmode).2.2 _ hcs [twoDirs] rfl).mpr ⟨le_refl 1, ?_⟩⟩
  intro d hd
  obtain rfl := List.mem_singleton.mp hd
  decide +kernel

/-- From `/a/a` the left arrow goes to `/a/`. -/
theorem navigation_stuck : ¬∀ p, panelSystem.Reach Descends p → p.f1Flag = true → p.f2Flag = .explorer →
    ∀ r d d', rowIndex p.selectedRowIndex = .ok r → p.Listed r → p.isDir r = true → GoesBack d d' p := by
  intro hall
  obtain ⟨p, hreach, hf, hmode, hpath, hsel, hlisted, hdir⟩ := reach_entered
  have hback := hall p hreach hf hmode 0 twoDirs twoDirs hsel hlisted hdir
  rw [goesBack_iff (navigated_of_reach hreach) hf hmode hsel hlisted hdir] at hback
  rw [hback.1] at hpath
  cases hpath

end Panel

end Devos.Tty
