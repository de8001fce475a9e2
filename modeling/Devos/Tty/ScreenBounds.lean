import Devos.Tty.Console
import Devos.Library.Loops

/-! Whatever is written to the console, its cursor stays on the screen and its writes in video memory. -/

namespace Devos.Tty

open StringMoves Loops

namespace Console

structure OnScreen (s : Console) : Prop where
  pos : s.pos = s.origin + 2 * (s.y * columns + s.x)
  x : s.x ≤ columns
  y : s.y < lines
  top : s.top < s.bottom
  bottom : s.bottom ≤ lines
  scrEnd : s.scrEnd = s.origin + 2 * lines * columns
  start : screenStart ≤ s.origin
  stop : s.scrEnd ≤ screenEnd
  npar : s.npar < nPar
  savedX : s.savedX ≤ columns
  savedY : s.savedY < lines

/-- A call with the console `s` comes back with the cursor on the screen, in the middle of the same sequence. -/
def Safe (s : Console) (r : Except Fault Console) : Prop :=
  ∃ t, r = .ok t ∧ OnScreen t ∧ t.state = s.state ∧ t.npar = s.npar

section Operations

variable {s t : Console} {o : Overlay} {n a k : ℕ} {c : Byte} {w : Word} {m : Video} {r : Except Fault Console}

lemma OnScreen.safe (h : OnScreen t) (hstate : t.state = s.state) (hnpar : t.npar = s.npar) : Safe s (.ok t) :=
  ⟨t, rfl, h, hstate, hnpar⟩

lemma Safe.bind {f : Console → Except Fault Console} (h : Safe s r) (hf : ∀ t, OnScreen t → Safe t (f t)) :
    Safe s (r.bind f) := by
  obtain ⟨t, rfl, ht, hstate, hnpar⟩ := h
  obtain ⟨u, hu, hsafe, hstate', hnpar'⟩ := hf t ht
  exact ⟨u, hu, hsafe, hstate'.trans hstate, hnpar'.trans hnpar⟩

lemma OnScreen.setVideo (h : OnScreen s) (m : Video) : OnScreen { s with video := m } :=
  ⟨h.pos, h.x, h.y, h.top, h.bottom, h.scrEnd, h.start, h.stop, h.npar, h.savedX, h.savedY⟩

lemma OnScreen.draw (h : OnScreen s) {v : Except Fault Video} (hv : ∃ m, v = .ok m) :
    Safe s (v.map fun m => { s with video := m }) := by
  obtain ⟨m, rfl⟩ := hv
  exact (h.setVideo m).safe rfl rfl

lemma onScreen_iff : OnScreen s ↔
    s.pos = s.origin + 2 * (s.y * 80 + s.x) ∧ s.x ≤ 80 ∧ s.y < 25 ∧ s.top < s.bottom ∧ s.bottom ≤ 25 ∧
      s.scrEnd = s.origin + 4000 ∧ 753664 ≤ s.origin ∧ s.scrEnd ≤ 786432 ∧ s.npar < 16 ∧ s.savedX ≤ 80 ∧
      s.savedY < 25 := by
  constructor
  · exact fun h => ⟨h.pos, h.x, h.y, h.top, h.bottom, h.scrEnd, h.start, h.stop, h.npar, h.savedX, h.savedY⟩
  · rintro ⟨hpos, hx, hy, htop, hbottom, hend, hstart, hstop, hnpar, hsx, hsy⟩
    exact ⟨hpos, hx, hy, htop, hbottom, hend, hstart, hstop, hnpar, hsx, hsy⟩

lemma storeWord_ok (hlo : screenStart ≤ a) (hhi : a + 2 ≤ screenEnd) : ∃ m', storeWord a w m = .ok m' :=
  ⟨_, Window.put_eq hlo hhi⟩

lemma storeWords_ok {ws : List (ℕ × Word)} (h : ∀ q ∈ ws, screenStart ≤ q.1 ∧ q.1 + 2 ≤ screenEnd) :
    ∃ m', storeWords ws m = .ok m' := by
  induction ws generalizing m with
  | nil => exact ⟨m, rfl⟩
  | cons q ws ih =>
    obtain ⟨hlo, hhi⟩ := h q (by simp)
    obtain ⟨m', hm'⟩ := storeWord_ok (m := m) (w := q.2) hlo hhi
    rw [storeWords, hm']
    exact ih fun p hp => h p (by simp [hp])

lemma gotoxy_onScreen (h : OnScreen s) (newX newY : ℕ) : OnScreen (s.gotoxy newX newY) := by
  unfold gotoxy
  split_ifs with hout
  · exact h
  · rw [onScreen_iff] at h ⊢
    dsimp only [columns, lines] at hout ⊢
    unfold w32
    omega

lemma gotoxy_safe (h : OnScreen s) (newX newY : ℕ) : Safe s (.ok (s.gotoxy newX newY)) := by
  apply (gotoxy_onScreen h newX newY).safe
  all_goals
    unfold gotoxy
    split_ifs <;> rfl

lemma stores_ok (hlo : screenStart ≤ a) (hhi : a + k * n ≤ screenEnd) (f : ℕ → Byte) :
    ∃ m', screen.stores k f n a m = .ok m' := ⟨_, Window.stores_eq hlo hhi⟩

lemma erase_safe (h : OnScreen s) (hlo : screenStart ≤ a) (hhi : a + 2 * n ≤ screenEnd) : Safe s (s.erase a n) :=
  h.draw (stores_ok hlo hhi _)

lemma blanks_mod_four (i : ℕ) : blanks (i % 4) = blanks (i % 2) := by
  unfold blanks wordByte
  have hcell : i % 4 % 2 = i % 2 % 2 := by omega
  rw [hcell]

/-- The screen below the console's next line is a line longer, wherever in video memory it goes. -/
theorem scrollOrigin_spec (h : OnScreen s) :
    ∃ t, s.scrollOrigin = .ok t ∧ OnScreen t ∧
      t = { s with origin := t.origin, pos := t.pos, scrEnd := t.scrEnd, video := t.video } ∧
      (∀ b < 3840, t.video (t.origin + b) = s.video (s.origin + 160 + b)) ∧
      ∀ b < 160, t.video (t.origin + 3840 + b) = blanks (b % 2) := by
  rw [onScreen_iff] at h
  have horigin : w32 (s.origin + columns * 2) = s.origin + 160 := by
    apply w32_eq
    · dsimp only [columns]
      omega
    · omega
  have hpos : w32 (s.pos + columns * 2) = s.pos + 160 := by
    apply w32_eq
    · dsimp only [columns]
      omega
    · omega
  have hend : w32 (s.scrEnd + columns * 2) = s.origin + 4160 := by
    apply w32_eq
    · dsimp only [columns]
      omega
    · omega
  unfold scrollOrigin
  dsimp only
  rw [horigin, hpos, hend]
  split_ifs with hwrap
  · have hend' : w32 (↑(s.origin + 4160) - (↑(s.origin + 160) - screenStart)) = screenStart + 4000 := by
      apply w32_eq
      · dsimp only [screenStart]
        omega
      · decide
    have hpos' : w32 (↑(s.pos + 160) - (↑(s.origin + 160) - screenStart)) = screenStart + (s.pos - s.origin) := by
      apply w32_eq
      · dsimp only [screenStart]
        omega
      · dsimp only [screenStart]
        omega
    dsimp only [columns, lines, screenStart, screenEnd] at hwrap hend' hpos' ⊢
    rw [Window.moves_eq (by decide) (by decide) (by omega), Except.bind, Window.stores_eq (by decide) (by decide),
      Except.map, hend', hpos']
    refine ⟨_, rfl, ?_, rfl, ?_, ?_⟩
    · rw [onScreen_iff]
      dsimp only
      omega
    · intro b hb
      have hcell : 753664 + b + (s.origin + 160) - 753664 = s.origin + 160 + b := by omega
      dsimp only
      rw [if_neg (by omega), if_pos (by omega), hcell]
    · intro b hb
      have hcell : 753664 + 3840 + b - (753664 + 4 * ((25 - 1) * 80 / 2)) = b := by omega
      dsimp only
      rw [if_pos (by omega), hcell]
  · have hlast : w32 (↑(s.origin + 4160) - columns * 2) = s.origin + 4000 := by
      apply w32_eq
      · dsimp only [columns]
        omega
      · omega
    rw [hlast, Window.stores_eq, Except.map]
    · refine ⟨_, rfl, ?_, rfl, ?_, ?_⟩
      · rw [onScreen_iff]
        dsimp only [screenEnd] at hwrap ⊢
        omega
      · intro b hb
        dsimp only
        rw [if_neg (by omega)]
      · intro b hb
        have hcell : s.origin + 160 + 3840 + b - (s.origin + 4000) = b := by omega
        dsimp only [columns]
        rw [if_pos (by omega), hcell, blanks_mod_four]
    all_goals
      dsimp only [columns, screen, screenStart, screenEnd] at hwrap ⊢
      omega

lemma renderBorder_within {title : CString} {q : ℕ × Word} (hq : q ∈ renderBorder a title) :
    a ≤ q.1 ∧ q.1 + 2 ≤ a + 4000 := by
  simp only [renderBorder, List.mem_append, List.mem_map, List.mem_flatMap, List.mem_cons, List.mem_range,
    List.not_mem_nil, or_false, columns, toolWidth] at hq
  rcases hq with (⟨k, hk, rfl⟩ | ⟨i, hi, ((rfl | ⟨j, hj, rfl⟩) | rfl)⟩) | ⟨j, hj, rfl⟩ <;> dsimp only <;> omega

lemma renderLs_within {q : ℕ × Word} (hq : q ∈ renderLs a o) : a ≤ q.1 ∧ q.1 + 2 ≤ a + 4000 := by
  simp only [renderLs, printEntry, List.mem_flatMap, List.mem_filterMap, List.mem_range, Option.map_eq_some_iff,
    columns, toolWidth] at hq
  obtain ⟨index, _, i, hi, _, _, rfl⟩ := hq
  dsimp only
  omega

lemma printClipboard_within {q : ℕ × Word} (hq : q ∈ printClipboard a o) : a ≤ q.1 ∧ q.1 + 2 ≤ a + 4000 := by
  simp only [printClipboard, List.mem_flatMap, List.mem_map, columns, toolWidth] at hq
  obtain ⟨i, _, ⟨c, j⟩, hj, rfl⟩ := hq
  have hlen := List.snd_lt_of_mem_zipIdx hj
  have hfits := (o.clipboard i).property
  unfold CString.strlen at hfits
  dsimp only at hlen ⊢
  omega

lemma writes_within {q : ℕ × Word} (hq : q ∈ o.writes a) : a ≤ q.1 ∧ q.1 + 2 ≤ a + 4000 := by
  unfold Overlay.writes at hq
  split_ifs at hq
  · rcases List.mem_append.mp hq with hq | hq
    · exact renderBorder_within hq
    · exact renderLs_within hq
  · rcases List.mem_append.mp hq with hq | hq
    · exact renderBorder_within hq
    · exact printClipboard_within hq
  · cases hq

lemma redraw_safe (h : OnScreen s) : Safe s (s.redraw o) := by
  apply h.draw
  apply storeWords_ok
  intro q hq
  obtain ⟨hlo, hhi⟩ := writes_within hq
  rw [onScreen_iff] at h
  dsimp only [screenStart, screenEnd]
  omega

lemma OnScreen.linesMoved (h : OnScreen s) :
    w32 ((s.bottom - s.top - 1) * columns) / 2 = 40 * (s.bottom - s.top - 1) := by
  rw [onScreen_iff] at h
  rw [w32_eq (n := (s.bottom - s.top - 1) * 80)]
  · omega
  · dsimp only [columns]
    omega
  · omega

/-- The lines of the scrolling region one up, and a blank line under them. -/
def linesUp (s : Console) : Video := fun b =>
  if s.origin + 160 * (s.bottom - 1) ≤ b ∧ b < s.origin + 160 * s.bottom then
    blanks ((b - (s.origin + 160 * (s.bottom - 1))) % 2)
  else if s.origin + 160 * s.top ≤ b ∧ b < s.origin + 160 * (s.bottom - 1) then s.video (b + 160)
  else s.video b

/-- The lines of the scrolling region one down, and a blank line over them. -/
def linesDown (s : Console) : Video := fun b =>
  if s.origin + 160 * s.top ≤ b ∧ b < s.origin + 160 * (s.top + 1) then
    blanks ((b - (s.origin + 160 * s.top)) % 2)
  else if s.origin + 160 * (s.top + 1) ≤ b ∧ b < s.origin + 160 * s.bottom then s.video (b - 160)
  else s.video b

theorem scrollRegion_eq (h : OnScreen s) : s.scrollRegion = .ok { s with video := s.linesUp } := by
  have hs := h
  rw [onScreen_iff] at hs
  have htop : w32 (s.origin + columns * 2 * s.top) = s.origin + 160 * s.top := by
    apply w32_eq
    · dsimp only [columns]
      omega
    · omega
  have hnext : w32 (s.origin + columns * 2 * (s.top + 1)) = s.origin + 160 * s.top + 160 := by
    apply w32_eq
    · dsimp only [columns]
      omega
    · omega
  have hlast : w32 (s.origin + columns * 2 * s.top + 4 * ↑(40 * (s.bottom - s.top - 1))) =
      s.origin + 160 * (s.bottom - 1) := by
    apply w32_eq
    · dsimp only [columns]
      omega
    · omega
  have hmoved : s.origin + 160 * s.top + 4 * (40 * (s.bottom - s.top - 1)) = s.origin + 160 * (s.bottom - 1) := by omega
  have hrow : s.origin + 160 * (s.bottom - 1) + 2 * columns = s.origin + 160 * s.bottom := by
    dsimp only [columns]
    omega
  unfold scrollRegion
  dsimp only
  rw [h.linesMoved, htop, hnext, hlast, Window.moves_eq, Except.bind, Window.stores_eq, Except.map, hrow, hmoved]
  · congr 2
    funext b
    unfold linesUp
    have hcell : b + (s.origin + 160 * s.top + 160) - (s.origin + 160 * s.top) = b + 160 := by omega
    rw [hcell]
  all_goals
    try dsimp only [columns, screen, screenStart, screenEnd]
    omega

lemma redraw_x (h : redraw o s = .ok t) : t.x = s.x := by
  obtain ⟨m, _, rfl⟩ := map_eq_ok h
  rfl

lemma scrup_safe (h : OnScreen s) : Safe s (scrup o s) := by
  unfold scrup
  split_ifs
  · obtain ⟨t, hr, ht, heq, _⟩ := scrollOrigin_spec h
    rw [hr]
    exact Safe.bind (ht.safe (by rw [heq]) (by rw [heq])) fun u => redraw_safe
  · rw [scrollRegion_eq h]
    exact Safe.bind ((h.setVideo _).safe rfl rfl) fun u => redraw_safe

lemma scrup_x (h : OnScreen s) (hr : scrup o s = .ok t) : t.x = s.x := by
  obtain ⟨u, hu, ht⟩ := bind_eq_ok hr
  have hx : u.x = s.x := by
    split_ifs at hu
    · obtain ⟨v, hv, _, heq, _⟩ := scrollOrigin_spec h
      obtain rfl := Except.ok.inj (hu.symm.trans hv)
      rw [heq]
    · obtain rfl := Except.ok.inj (hu.symm.trans (scrollRegion_eq h))
      rfl
  exact (redraw_x ht).trans hx

theorem scrdown_eq (h : OnScreen s) : s.scrdown = .ok { s with video := s.linesDown } := by
  have hs := h
  rw [onScreen_iff] at hs
  have hdst : w32 (s.origin + columns * 2 * s.bottom - 4) = s.origin + 160 * s.bottom - 4 := by
    apply w32_eq
    · dsimp only [columns]
      omega
    · omega
  have hsrc : w32 (s.origin + columns * 2 * (s.bottom - 1) - 4) = s.origin + 160 * s.bottom - 164 := by
    apply w32_eq
    · dsimp only [columns]
      omega
    · omega
  have hfirst : w32 (↑(s.origin + 160 * s.bottom - 4) - 4 * ↑(40 * (s.bottom - s.top - 1)) + 2) =
      s.origin + 160 * s.top + 158 := by
    apply w32_eq <;> omega
  unfold scrdown
  dsimp only
  rw [h.linesMoved, hdst, hsrc, hfirst, Window.movesDown_eq, Except.bind, Window.storesDown_eq, Except.map]
  · congr 2
    funext b
    unfold linesDown
    dsimp only [columns]
    by_cases hblank : s.origin + 160 * s.top ≤ b ∧ b < s.origin + 160 * (s.top + 1)
    · have hcell : (b + 2 * 80 - (s.origin + 160 * s.top + 158 + 2)) % 2 = (b - (s.origin + 160 * s.top)) % 2 := by
        omega
      rw [if_pos (by omega), if_pos hblank, hcell]
    · rw [if_neg (by omega), if_neg hblank]
      by_cases hmoved : s.origin + 160 * (s.top + 1) ≤ b ∧ b < s.origin + 160 * s.bottom
      · have hcell : b + (s.origin + 160 * s.bottom - 164) - (s.origin + 160 * s.bottom - 4) = b - 160 := by omega
        rw [if_pos (by omega), if_pos hmoved, hcell]
      · rw [if_neg (by omega), if_neg hmoved]
  all_goals
    try dsimp only [columns, screen, screenStart, screenEnd]
    omega

lemma scrdown_safe (h : OnScreen s) : Safe s s.scrdown := by
  rw [scrdown_eq h]
  exact (h.setVideo _).safe rfl rfl

lemma lf_safe (h : OnScreen s) : Safe s (lf o s) := by
  unfold lf
  split_ifs with hy
  · refine ⟨_, rfl, ?_, rfl, rfl⟩
    rw [onScreen_iff] at h ⊢
    dsimp only [columns, lines]
    unfold w32
    omega
  · exact scrup_safe h

lemma lf_x (h : OnScreen s) (hr : lf o s = .ok t) : t.x = s.x := by
  unfold lf at hr
  split_ifs at hr
  · cases hr
    rfl
  · exact scrup_x h hr

lemma ri_safe (h : OnScreen s) : Safe s s.ri := by
  unfold ri
  split_ifs with hy
  · refine ⟨_, rfl, ?_, rfl, rfl⟩
    rw [onScreen_iff] at h ⊢
    dsimp only [columns, lines]
    unfold w32
    omega
  · exact scrdown_safe h

lemma cr_onScreen (h : OnScreen s) : OnScreen s.cr := by
  rw [onScreen_iff] at h ⊢
  unfold cr w32
  dsimp only
  omega

lemma OnScreen.back (h : OnScreen s) (hx : s.x ≠ 0) : w32 (s.pos - 2) = s.origin + 2 * (s.y * 80 + s.x - 1) := by
  rw [onScreen_iff] at h
  apply w32_eq <;> omega

lemma del_safe (h : OnScreen s) : Safe s s.del := by
  unfold del
  split_ifs with hx
  · have hback := h.back hx
    rw [onScreen_iff] at h
    rw [hback]
    obtain ⟨m, hm⟩ := storeWord_ok (a := s.origin + 2 * (s.y * 80 + s.x - 1)) (w := blank) (m := s.video)
      (by dsimp only [screenStart]; omega) (by dsimp only [screenEnd]; omega)
    rw [hm]
    refine ⟨_, rfl, ?_, rfl, rfl⟩
    rw [onScreen_iff]
    dsimp only
    omega
  · exact h.safe rfl rfl

lemma csiJ_safe (h : OnScreen s) (n : ℕ) : Safe s (s.csiJ n) := by
  have hs := h
  rw [onScreen_iff] at hs
  have hafter : w32 (s.scrEnd - s.pos) = s.scrEnd - s.pos := by apply w32_eq <;> omega
  have hbefore : w32 (s.pos - s.origin) = s.pos - s.origin := by apply w32_eq <;> omega
  unfold csiJ
  split
  · rw [hafter]
    apply erase_safe h <;> dsimp only [screenStart, screenEnd] <;> omega
  · rw [hbefore]
    apply erase_safe h <;> dsimp only [screenStart, screenEnd] <;> omega
  · apply erase_safe h <;> dsimp only [screenStart, screenEnd, columns, lines] <;> omega
  · exact h.safe rfl rfl

lemma OnScreen.rowStart (h : OnScreen s) : w32 (s.pos - s.x * 2) = s.origin + 160 * s.y := by
  rw [onScreen_iff] at h
  apply w32_eq <;> omega

lemma csiK_safe (h : OnScreen s) (n : ℕ) : Safe s (s.csiK n) := by
  have hs := h
  rw [onScreen_iff] at hs
  unfold csiK
  split
  · split_ifs with hx
    · exact h.safe rfl rfl
    · apply erase_safe h <;> dsimp only [screenStart, screenEnd, columns] at hx ⊢ <;> omega
  · rw [h.rowStart]
    apply erase_safe h <;> dsimp only [screenStart, screenEnd, columns]
    · omega
    · split_ifs <;> omega
  · rw [h.rowStart]
    apply erase_safe h <;> dsimp only [screenStart, screenEnd, columns] <;> omega
  · exact h.safe rfl rfl

lemma insertFrom_ok (n : ℕ) (hlo : screenStart ≤ a) (hhi : a + 2 * n ≤ screenEnd) :
    ∃ m', insertFrom n a w m = .ok m' := by
  induction n generalizing a w m with
  | zero => exact ⟨m, rfl⟩
  | succ n ih =>
    obtain ⟨m', hm'⟩ := storeWord_ok (m := m) (w := w) hlo (by omega)
    rw [insertFrom, hm']
    exact ih (by omega) (by omega)

lemma insertChar_safe (h : OnScreen s) : Safe s s.insertChar := by
  have hs := h
  rw [onScreen_iff] at hs
  apply h.draw
  apply insertFrom_ok <;> dsimp only [screenStart, screenEnd, columns] <;> omega

lemma deleteFrom_ok (n : ℕ) (hlo : screenStart ≤ a) (hhi : a + 2 * n + 2 ≤ screenEnd) :
    ∃ m', deleteFrom n a m = .ok m' := by
  induction n generalizing a m with
  | zero => exact storeWord_ok hlo (by omega)
  | succ n ih =>
    obtain ⟨m', hm'⟩ := storeWord_ok (m := m) (w := loadWord (a + 2) m) hlo (by omega)
    rw [deleteFrom, hm']
    exact ih (by omega) (by omega)

lemma deleteChar_safe (h : OnScreen s) : Safe s s.deleteChar := by
  have hs := h
  rw [onScreen_iff] at hs
  unfold deleteChar
  split_ifs with hx
  · exact h.safe rfl rfl
  · apply h.draw
    dsimp only [columns] at hx
    apply deleteFrom_ok <;> dsimp only [screenStart, screenEnd, columns] <;> omega

/-- The region of `insert_line` and `delete_line`. -/
lemma OnScreen.fromCursor (h : OnScreen s) : OnScreen { s with top := s.y, bottom := lines } :=
  ⟨h.pos, h.x, h.y, h.y, le_refl _, h.scrEnd, h.start, h.stop, h.npar, h.savedX, h.savedY⟩

lemma Safe.restore (hs : OnScreen s) (h : Safe { s with top := s.y, bottom := lines } r) :
    Safe s (r.map fun t => { t with top := s.top, bottom := s.bottom }) := by
  obtain ⟨t, rfl, ht, hstate, hnpar⟩ := h
  exact ⟨_, rfl, ⟨ht.pos, ht.x, ht.y, hs.top, hs.bottom, ht.scrEnd, ht.start, ht.stop, ht.npar, ht.savedX, ht.savedY⟩,
    hstate, hnpar⟩

lemma insertLine_safe (h : OnScreen s) : Safe s s.insertLine := (scrdown_safe h.fromCursor).restore h

lemma deleteLine_safe (h : OnScreen s) : Safe s (deleteLine o s) := (scrup_safe h.fromCursor).restore h

lemma times_safe {f : Console → Except Fault Console} (hf : ∀ s, OnScreen s → Safe s (f s)) (h : OnScreen s) (n : ℕ) :
    Safe s (times f n s) := by
  induction n generalizing s with
  | zero => exact h.safe rfl rfl
  | succ n ih => exact (hf s h).bind fun t ht => ih ht

lemma restoreCur_onScreen (h : OnScreen s) : OnScreen s.restoreCur := by
  rw [onScreen_iff] at h ⊢
  unfold restoreCur w32
  dsimp only [columns]
  omega

lemma saveCur_onScreen (h : OnScreen s) : OnScreen s.saveCur :=
  ⟨h.pos, h.x, h.y, h.top, h.bottom, h.scrEnd, h.start, h.stop, h.npar, h.x, h.y⟩

lemma csiM_onScreen (h : OnScreen s) : OnScreen s.csiM :=
  ⟨h.pos, h.x, h.y, h.top, h.bottom, h.scrEnd, h.start, h.stop, h.npar, h.savedX, h.savedY⟩

lemma Safe.ite {p : Prop} [Decidable p] {r' : Except Fault Console} (h : p → Safe s r) (h' : ¬p → Safe s r') :
    Safe s (if p then r else r') := by
  split_ifs with hp
  · exact h hp
  · exact h' hp

lemma setRegion_safe (h : OnScreen s) {top bottom : ℕ} (hregion : top < bottom ∧ bottom ≤ lines) :
    Safe s (.ok { s with top := top, bottom := bottom }) :=
  ⟨_, rfl, ⟨h.pos, h.x, h.y, hregion.1, hregion.2, h.scrEnd, h.start, h.stop, h.npar, h.savedX, h.savedY⟩, rfl, rfl⟩

lemma csi_safe (h : OnScreen s) : Safe s (csi o c s) := by
  unfold csi
  dsimp only
  repeat' (with_reducible apply Safe.ite <;> intro hc)
  · exact gotoxy_safe h _ _
  · exact gotoxy_safe h _ _
  · exact gotoxy_safe h _ _
  · exact gotoxy_safe h _ _
  · exact gotoxy_safe h _ _
  · exact gotoxy_safe h _ _
  · exact gotoxy_safe h _ _
  · exact gotoxy_safe h _ _
  · exact gotoxy_safe h _ _
  · exact csiJ_safe h _
  · exact csiK_safe h _
  · exact times_safe (fun _ => insertLine_safe) h _
  · exact times_safe (fun _ => deleteLine_safe) h _
  · exact times_safe (fun _ => deleteChar_safe) h _
  · exact times_safe (fun _ => insertChar_safe) h _
  · exact (csiM_onScreen h).safe rfl rfl
  · exact setRegion_safe h hc
  · exact h.safe rfl rfl
  · exact (saveCur_onScreen h).safe rfl rfl
  · exact (restoreCur_onScreen h).safe rfl rfl
  · exact h.safe rfl rfl

/-- The wrap that a character at the right margin waits for. -/
lemma wrap_onScreen (h : OnScreen s) (hx : columns ≤ s.x) :
    OnScreen { s with x := s.x - columns, pos := w32 (s.pos - columns * 2) } := by
  rw [onScreen_iff] at h ⊢
  dsimp only [columns] at hx ⊢
  unfold w32
  omega

lemma put_safe (h : OnScreen s) (hx : s.x < columns) (w : Word) :
    Safe s ((storeWord s.pos w s.video).map fun m => { s with video := m, pos := w32 (s.pos + 2), x := s.x + 1 }) := by
  rw [onScreen_iff] at h
  dsimp only [columns] at hx
  obtain ⟨m, hm⟩ := storeWord_ok (a := s.pos) (w := w) (m := s.video) (by dsimp only [screenStart]; omega)
    (by dsimp only [screenEnd]; omega)
  rw [hm]
  refine ⟨_, rfl, ?_, rfl, rfl⟩
  rw [onScreen_iff]
  unfold w32
  dsimp only
  omega

lemma print_safe (h : OnScreen s) : Safe s (print o c s) := by
  unfold print
  split_ifs with hx
  · have hwrap := wrap_onScreen h hx
    obtain ⟨t, ht, hsafe, hstate, hnpar⟩ := lf_safe (o := o) hwrap
    have hmargin := h.x
    have htx := lf_x hwrap ht
    obtain ⟨u, hu, hsafe', hstate', hnpar'⟩ := put_safe hsafe (by
      rw [htx]
      dsimp only [columns] at hmargin ⊢
      omega) (t.attr ++ c)
    rw [ht]
    exact ⟨u, hu, hsafe', hstate'.trans hstate, hnpar'.trans hnpar⟩
  · exact put_safe h (Nat.lt_of_not_le hx) _

lemma tab_safe (h : OnScreen s) : Safe s (tab o s) := by
  have hs := h
  rw [onScreen_iff] at hs
  unfold tab
  dsimp only
  apply Safe.ite
  · intro hx
    dsimp only [columns] at hx
    -- the next multiple of 8 passes the margin only from the margin itself
    have hwide : s.x = 80 := by omega
    have hwrap : OnScreen { s with
        x := s.x + (8 - s.x % 8) - columns, pos := w32 (w32 (s.pos + ↑(8 - s.x % 8) * 2) - columns * 2) } := by
      rw [onScreen_iff]
      dsimp only [columns]
      unfold w32
      omega
    obtain ⟨t, ht, hsafe, hstate, hnpar⟩ := lf_safe (o := o) hwrap
    exact ⟨t, ht, hsafe, hstate, hnpar⟩
  · intro hx
    dsimp only [columns] at hx
    refine ⟨_, rfl, ?_, rfl, rfl⟩
    rw [onScreen_iff]
    dsimp only
    unfold w32
    omega

lemma setState_onScreen (h : OnScreen s) (e : EscState) : OnScreen { s with state := e } :=
  ⟨h.pos, h.x, h.y, h.top, h.bottom, h.scrEnd, h.start, h.stop, h.npar, h.savedX, h.savedY⟩

lemma left_safe (h : OnScreen s) :
    Safe s (.ok (if s.x ≠ 0 then { s with x := s.x - 1, pos := w32 (s.pos - 2) } else s)) := by
  split_ifs with hx
  · have hback := h.back hx
    refine ⟨_, rfl, ?_, rfl, rfl⟩
    rw [onScreen_iff] at h ⊢
    dsimp only
    omega
  · exact h.safe rfl rfl

variable {q : Settings}

/-- After a byte the cursor is on the screen, and the place in a sequence is `p`. -/
def Follows (p : EscState × ℕ) (r : Except Fault Console) : Prop :=
  ∃ t, r = .ok t ∧ OnScreen t ∧ (t.state, t.npar) = p

lemma Safe.follows (h : Safe s r) : Follows (s.state, s.npar) r := by
  obtain ⟨t, ht, hsafe, hstate, hnpar⟩ := h
  exact ⟨t, ht, hsafe, by rw [hstate, hnpar]⟩

/-- A byte inside of a sequence that may have parameters, `npar` of them complete. -/
def parNext (npar : ℕ) (c : Byte) : EscState × ℕ :=
  if c = 59 ∧ npar < nPar - 1 then (.s3, npar + 1)
  else if 48 ≤ c.toInt ∧ c.toInt ≤ 57 then (.s3, npar)
  else (.s0, npar)

/-- How the bytes alone, whatever is on the screen, lead through the sequences. -/
def escNext (p : EscState × ℕ) (c : Byte) : EscState × ℕ :=
  match p.1 with
  | .s0 => (if c = 27 then .s1 else .s0, p.2)
  | .s1 => (if c = 91 then .s2 else .s0, p.2)
  | .s2 => if c = 63 then (.s3, 0) else parNext 0 c
  | .s3 => parNext p.2 c

lemma plainByte_follows (h : OnScreen s) (hstate : s.state = .s0) :
    Follows (if c = 27 then .s1 else .s0, s.npar) (plainByte q c s) := by
  by_cases hesc : c = 27
  · have hplain : ¬(31 < c.toInt ∧ c.toInt < 127 ∧ q.visible) := by
      rw [hesc]
      exact fun h => absurd h.1 (by decide)
    unfold plainByte
    rw [if_neg hplain, if_pos hesc, if_pos hesc]
    exact ⟨_, rfl, setState_onScreen h _, rfl⟩
  · have hsafe : Safe s (plainByte q c s) := by
      unfold plainByte
      rw [if_neg hesc]
      repeat' (with_reducible apply Safe.ite <;> intro _)
      · exact print_safe h
      · exact lf_safe h
      · exact (cr_onScreen h).safe rfl rfl
      · exact del_safe h
      · exact left_safe h
      · exact tab_safe h
      · exact h.safe rfl rfl
    rw [if_neg hesc, ← hstate]
    exact hsafe.follows

lemma escByte_follows (h : OnScreen s) :
    Follows (if c = 91 then .s2 else .s0, s.npar) (escByte o c s) := by
  have ht : OnScreen { s with state := .s0 } := setState_onScreen h _
  by_cases hcsi : c = 91
  · unfold escByte
    rw [if_pos hcsi, if_pos hcsi]
    exact ⟨_, rfl, setState_onScreen h _, rfl⟩
  · have hsafe : Safe { s with state := .s0 } (escByte o c s) := by
      unfold escByte
      rw [if_neg hcsi]
      repeat' (with_reducible apply Safe.ite <;> intro _)
      · exact gotoxy_safe ht _ _
      · exact ri_safe ht
      · exact lf_safe ht
      · exact ht.safe rfl rfl
      · exact (saveCur_onScreen ht).safe rfl rfl
      · exact (restoreCur_onScreen ht).safe rfl rfl
      · exact ht.safe rfl rfl
    rw [if_neg hcsi]
    exact hsafe.follows

lemma parByte_follows (h : OnScreen s) (hstate : s.state = .s3) : Follows (parNext s.npar c) (parByte o c s) := by
  unfold parByte parNext
  split_ifs with hnext hdigit hroom
  · have hnpar : s.npar + 1 < nPar := by
      have hlast := hnext.2
      dsimp only [nPar] at hlast ⊢
      omega
    exact ⟨_, rfl, ⟨h.pos, h.x, h.y, h.top, h.bottom, h.scrEnd, h.start, h.stop, hnpar, h.savedX, h.savedY⟩,
      by rw [hstate]⟩
  · exact ⟨_, rfl, ⟨h.pos, h.x, h.y, h.top, h.bottom, h.scrEnd, h.start, h.stop, h.npar, h.savedX, h.savedY⟩,
      by rw [hstate]⟩
  · exact absurd h.npar hroom
  · exact (csi_safe (setState_onScreen h .s0)).follows

theorem conByte_follows (h : OnScreen s) : Follows (escNext (s.state, s.npar) c) (conByte q c s) := by
  unfold conByte escNext
  cases hstate : s.state with
  | s0 => exact plainByte_follows h hstate
  | s1 => exact escByte_follows h
  | s2 =>
    have ht : OnScreen { s with
        par := fun i => if i < nPar then 0 else s.par i, npar := 0, state := .s3, ques := c = 63 } :=
      ⟨h.pos, h.x, h.y, h.top, h.bottom, h.scrEnd, h.start, h.stop, Nat.succ_pos _, h.savedX, h.savedY⟩
    dsimp only
    split_ifs
    · exact ⟨_, rfl, ht, rfl⟩
    · exact parByte_follows ht rfl
  | s3 => exact parByte_follows h hstate

end Operations

lemma conInit_onScreen {biosX biosY : Byte} (hx : biosX.toNat < columns) (hy : biosY.toNat < lines) (m : Video) :
    OnScreen (conInit biosX biosY m) := by
  unfold conInit gotoxy
  rw [if_neg (by omega), onScreen_iff]
  dsimp only [columns, lines, screenStart] at hx hy ⊢
  unfold w32
  omega

/-- The bytes that one call of `con_write` takes from the queue. -/
def conWrite : List (Settings × Byte) → Console → Except Fault Console
  | [], s => .ok s
  | (q, c) :: bytes, s => (conByte q c s).bind (conWrite bytes)

def conWrites : List (List (Settings × Byte)) → Console → Except Fault Console
  | [], s => .ok s
  | bytes :: calls, s => (conWrite bytes s).bind (conWrites calls)

lemma conWrite_onScreen {s : Console} (h : OnScreen s) (bytes : List (Settings × Byte)) :
    ∃ t, conWrite bytes s = .ok t ∧ OnScreen t := by
  induction bytes generalizing s with
  | nil => exact ⟨s, rfl, h⟩
  | cons b bytes ih =>
    obtain ⟨t, ht, hsafe, _⟩ := conByte_follows (c := b.2) (q := b.1) h
    rw [conWrite, ht]
    exact ih hsafe

lemma conWrite_append (bytes rest : List (Settings × Byte)) (s : Console) :
    conWrite (bytes ++ rest) s = (conWrite bytes s).bind (conWrite rest) := by
  induction bytes generalizing s with
  | nil => rfl
  | cons b bytes ih =>
    rw [List.cons_append, conWrite, conWrite]
    cases conByte b.1 b.2 s with
    | error f => rfl
    | ok t => exact ih t

lemma conWrites_eq (calls : List (List (Settings × Byte))) (s : Console) :
    conWrites calls s = conWrite calls.flatten s := by
  induction calls generalizing s with
  | nil => rfl
  | cons bytes calls ih =>
    rw [conWrites, List.flatten_cons, conWrite_append]
    congr 1
    funext t
    exact ih t

/-- After every byte, whatever the calls it came in, the cursor is on the screen and no write has missed it. -/
theorem conWrites_onScreen {s : Console} (h : OnScreen s) {calls : List (List (Settings × Byte))}
    {done rest : List (Settings × Byte)} (hcalls : calls.flatten = done ++ rest) :
    ∃ t, conWrite done s = .ok t ∧ OnScreen t ∧ conWrites calls s = conWrite rest t := by
  obtain ⟨t, ht, hsafe⟩ := conWrite_onScreen h done
  refine ⟨t, ht, hsafe, ?_⟩
  rw [conWrites_eq, hcalls, conWrite_append, ht]
  rfl

theorem conWrites_onScreen_print :
    ∃ t, conWrite [(⟨true, 127, noOverlay⟩, 65)] (conInit 79 24 fun _ => 0) = .ok t ∧ OnScreen t ∧
      conWrites [[(⟨true, 127, noOverlay⟩, 65)], [(⟨true, 127, noOverlay⟩, 66)]] (conInit 79 24 fun _ => 0) =
        conWrite [(⟨true, 127, noOverlay⟩, 66)] t :=
  conWrites_onScreen (conInit_onScreen (by decide) (by decide) _) rfl

end Console

end Devos.Tty
