import Devos.Tty.Panel

/-! The rows of the clipboard and the cursor in them. -/

namespace Devos

namespace Tty

open Loops Runs CString

namespace Panel

variable {p q : Panel} {c : Byte} {r : ℕ}

/-- Rows of at most 19 characters. -/
def Rows (p : Panel) : Prop := ∀ r < 10, ∃ k ≤ 19, Ends p.clipboard (20 * r) k

/-- A write to one row, which ends there. -/
lemma Rows.write (h : p.Rows) {r k : ℕ} (hk : k ≤ 19) {f : ℕ → Byte} (hf : Ends f (20 * r) k)
    (hsame : ∀ a, (a < 20 * r ∨ 20 * r + 20 ≤ a) → f a = p.clipboard a) : ({ p with clipboard := f } : Panel).Rows := by
  intro r' hr'
  by_cases heq : r' = r
  · subst heq
    exact ⟨k, hk, hf⟩
  · obtain ⟨k', hk', hends⟩ := h r' hr'
    exact ⟨k', hk', hends.congr fun j hj => hsame _ (by omega)⟩

/-- The rows, and what the arrows and F2 keep of the selected row and of the cursor. -/
structure Steady (p : Panel) : Prop where
  rows : p.Rows
  selected : p.selectedRowIndex < 10
  listed : p.currentDirLen ≤ 10
  cursor : p.f2Flag = .clipboard → 0 ≤ p.selectedRowIndex ∧ p.cliboardCursor.1 = p.selectedRowIndex ∧
    ∃ k ≤ 19, Ends p.clipboard (20 * p.selectedRowIndex.toNat) k ∧ p.cliboardCursor.2 = k

/-- A character goes to a row with room for it, unless the column of the cursor stops it; and `Ctrl` with `@` does not
go to the clipboard on the screen. -/
def Roomy (p : Panel) (e : PanelKey) : Prop :=
  ∀ c, p.typed e = some c → c ≠ 127 → p.cliboardCursor.2 < 19 →
    if c = 0 then p.f2Flag ≠ .clipboard else ∀ s, p.line p.selectedRowIndex.toNat = .ok s → s.strlen < 19

lemma rowIndex_ok {x : ℤ} (h : rowIndex x = .ok r) : 0 ≤ x ∧ x < 10 ∧ r = x.toNat := by
  unfold rowIndex at h
  split_ifs at h with hx
  exact ⟨hx.1, hx.2, (Except.ok.inj h).symm⟩

lemma Steady.cursorToRow (h : p.Rows) (hlisted : p.currentDirLen ≤ 10) (hq : p.cursorToRow = .ok q) : q.Steady := by
  obtain ⟨s, hs, rfl⟩ := map_eq_ok hq
  obtain ⟨r, hr, hs⟩ := bind_eq_ok hs
  obtain ⟨h₀, h₁, rfl⟩ := rowIndex_ok hr
  refine ⟨h, h₁, hlisted, fun _ => ⟨h₀, rfl, ?_⟩⟩
  obtain ⟨k, hk, hends⟩ := h p.selectedRowIndex.toNat (by omega)
  have hlen := hends.unique (ends_of_read hs)
  exact ⟨k, hk, hends, by rw [hlen]⟩

/-- Away from the clipboard only the selected row and the listing matter. -/
lemma Steady.of_listing (h : p.Rows) (hmode : p.f2Flag ≠ .clipboard) (hsel : p.selectedRowIndex < 10)
    (hlen : p.currentDirLen ≤ 10) : p.Steady := ⟨h, hsel, hlen, fun hclip => absurd hclip hmode⟩

lemma Steady.getChildren {d : Disk} (h : p.Rows) (hmode : p.f2Flag ≠ .clipboard) (hsel : p.selectedRowIndex < 10)
    (hq : getChildren d p = .ok q) : q.Steady := by
  obtain ⟨i, l, rfl, _⟩ := getChildren_ok hq
  exact .of_listing h hmode hsel (entries_le _)

lemma renderBorder_ok {title : CString} (h : renderBorder title p = .ok q) : q = p := by
  unfold renderBorder at h
  split_ifs at h
  exact (Except.ok.inj h).symm

lemma Steady.enter {d : Disk} {path : CString} (h : p.Rows) (hmode : p.f2Flag ≠ .clipboard)
    (hsel : p.selectedRowIndex < 10) (hq : p.enter d path = .ok q) : q.Steady := by
  obtain ⟨t, ht, hq⟩ := bind_eq_ok hq
  obtain rfl := renderBorder_ok hq
  exact .getChildren (p := { p with currentDirPath := path }) h hmode hsel ht

lemma Steady.f2Handle {d : Disk} (h : p.Rows) (hlen : p.currentDirLen ≤ 10) (hq : p.f2Handle d = .ok q) : q.Steady := by
  unfold Panel.f2Handle at hq
  split at hq
  next hmode =>
    obtain rfl := Except.ok.inj hq
    exact .of_listing h (hmode.trans_ne (by decide)) (by decide : (0 : ℤ) < 10) hlen
  next hmode =>
    obtain ⟨t, ht, hq⟩ := bind_eq_ok hq
    rw [renderBorder_ok ht] at hq
    exact .getChildren (p := { p with selectedRowIndex := 0 }) h (hmode.trans_ne (by decide))
      (by decide : (0 : ℤ) < 10) hq
  next => exact .cursorToRow (p := { p with selectedRowIndex := 0 }) h hlen hq

lemma Steady.arrowDown (h : p.Steady) (hq : p.arrowDownHandle = .ok q) : q.Steady := by
  unfold arrowDownHandle at hq
  split at hq
  next =>
    obtain rfl := Except.ok.inj hq
    exact h
  next hmode =>
    split_ifs at hq with hzero
    obtain rfl := Except.ok.inj hq
    refine .of_listing h.rows (hmode.trans_ne (by decide)) ?_ h.listed
    have hlt := Int.tmod_lt_of_pos (p.selectedRowIndex + 1) (by omega : (0 : ℤ) < p.currentDirLen)
    have hlisted := h.listed
    dsimp only
    omega
  next =>
    exact .cursorToRow (p := { p with selectedRowIndex := (p.selectedRowIndex + 1).tmod 10 }) h.rows h.listed hq

lemma Steady.arrowUp (h : p.Steady) (hq : p.arrowUpHandle = .ok q) : q.Steady := by
  unfold arrowUpHandle at hq
  split at hq
  next =>
    obtain rfl := Except.ok.inj hq
    exact h
  next hmode =>
    obtain rfl := Except.ok.inj hq
    refine .of_listing h.rows (hmode.trans_ne (by decide)) ?_ h.listed
    have hsel := h.selected
    have hlisted := h.listed
    dsimp only
    split_ifs <;> omega
  next =>
    exact .cursorToRow (p := { p with
      selectedRowIndex := if p.selectedRowIndex - 1 < 0 then 9 else p.selectedRowIndex - 1 }) h.rows h.listed hq

lemma Steady.arrowRight {d : Disk} (h : p.Steady) (hq : p.arrowRightHandle d = .ok q) : q.Steady := by
  unfold arrowRightHandle at hq
  split_ifs at hq with hmode
  · obtain ⟨r, _, hq⟩ := bind_eq_ok hq
    split_ifs at hq
    · obtain ⟨path, _, hq⟩ := bind_eq_ok hq
      exact .enter h.rows (by rw [hmode]; decide) h.selected hq
    · obtain rfl := Except.ok.inj hq
      exact h
  · obtain rfl := Except.ok.inj hq
    exact h

lemma Steady.arrowLeft {d : Disk} (h : p.Steady) (hq : p.arrowLeftHandle d = .ok q) : q.Steady := by
  unfold arrowLeftHandle at hq
  split_ifs at hq with hmode
  · obtain ⟨path, _, hq⟩ := bind_eq_ok hq
    exact .enter h.rows (by rw [hmode.1]; decide) h.selected hq
  · obtain rfl := Except.ok.inj hq
    exact h

lemma spaceHandle_ok (h : p.spaceHandle = .ok q) : q = p := by
  unfold spaceHandle at h
  split at h
  next => exact (Except.ok.inj h).symm
  next =>
    obtain ⟨r, _, h⟩ := bind_eq_ok h
    obtain ⟨_, _, rfl⟩ := map_eq_ok h
    rfl
  next =>
    obtain ⟨_, _, rfl⟩ := map_eq_ok h
    rfl

lemma bmod_small {x : ℤ} (h₀ : 0 ≤ x) (h₁ : x ≤ 19) : x.bmod (2 ^ 16) = x :=
  Int.bmod_eq_of_le (by omega) (by omega)

lemma ends_backspace {f : ℕ → Byte} {a k : ℕ} (h : Ends f a k) (hk : k ≠ 0) :
    Ends (Function.update f (a + k - 1) 0) a (k - 1) := by
  have hlast : a + (k - 1) = a + k - 1 := by omega
  refine ⟨by rw [hlast, Function.update_self], fun j hj => ?_⟩
  rw [Function.update_of_ne (by omega)]
  exact h.before j (by omega)

lemma ends_append {f : ℕ → Byte} {a k : ℕ} (h : Ends f a k) (hc : c ≠ 0) :
    Ends (Function.update (Function.update f (a + k) c) (a + k + 1) 0) a (k + 1) := by
  refine ⟨by rw [Nat.add_assoc, Function.update_self], fun j hj => ?_⟩
  rw [Function.update_of_ne (by omega)]
  rcases Nat.lt_succ_iff_lt_or_eq.mp hj with hlt | rfl
  · rw [Function.update_of_ne (by omega)]
    exact h.before j hlt
  · rwa [Function.update_self]

/-- The selected row gets another length, and the cursor goes with it. -/
lemma Steady.rewrite (h : p.Steady) {f : ℕ → Byte} {k k' : ℕ} {pos : ℤ} (hsel : 0 ≤ p.selectedRowIndex)
    (hk : Ends p.clipboard (20 * p.selectedRowIndex.toNat) k) (hk' : k' ≤ 19) (hpos : (k : ℤ) + pos = k')
    (hf : Ends f (20 * p.selectedRowIndex.toNat) k')
    (hsame : ∀ a, (a < 20 * p.selectedRowIndex.toNat ∨ 20 * p.selectedRowIndex.toNat + 20 ≤ a) → f a = p.clipboard a) :
    (({ p with clipboard := f } : Panel).moveCursorCol pos).Steady := by
  refine ⟨h.rows.write hk' hf hsame, h.selected, h.listed, fun hmode => ?_⟩
  obtain ⟨_, hrow, l, hl, hends, hcol⟩ := h.cursor hmode
  refine ⟨hsel, hrow, k', hk', hf, ?_⟩
  have hlk := hends.unique hk
  change (p.cliboardCursor.2 + pos).bmod (2 ^ 16) = k'
  rw [hcol, hlk, hpos, bmod_small (by omega) (by omega)]

lemma Steady.printToClb (h : p.Steady) (hroom : c ≠ 127 → p.cliboardCursor.2 < 19 → if c = 0 then p.f2Flag ≠ .clipboard
    else ∀ s, p.line p.selectedRowIndex.toNat = .ok s → s.strlen < 19) (hq : p.printToClb c = .ok q) : q.Steady := by
  obtain ⟨r, hr, hq⟩ := bind_eq_ok hq
  obtain ⟨h₀, h₁, rfl⟩ := rowIndex_ok hr
  obtain ⟨k, hk, hends⟩ := h.rows p.selectedRowIndex.toNat (by omega)
  by_cases hdel : c = 127
  · rw [if_pos hdel] at hq
    obtain ⟨s, hs, rfl⟩ := map_eq_ok hq
    obtain rfl := hends.unique (ends_of_read hs)
    split_ifs with hzero
    · exact h
    · refine h.rewrite h₀ hends (by omega : s.strlen - 1 ≤ 19) (by omega) (ends_backspace hends hzero) fun a ha => ?_
      exact Function.update_of_ne (by omega) _ _
  · rw [if_neg hdel] at hq
    by_cases hstop : 19 < p.cliboardCursor.2 + 1
    · rw [if_pos hstop] at hq
      obtain rfl := Except.ok.inj hq
      exact h
    · rw [if_neg hstop] at hq
      have hroom' := hroom hdel (by omega)
      by_cases hzero : c = 0
      · rw [if_pos hzero] at hq hroom'
        obtain rfl := Except.ok.inj hq
        exact ⟨h.rows, h.selected, h.listed, fun hmode => absurd hmode hroom'⟩
      · rw [if_neg hzero] at hq hroom'
        obtain ⟨s, hs, hq⟩ := bind_eq_ok hq
        obtain rfl := hends.unique (ends_of_read hs)
        have hlt := hroom' s hs
        split_ifs at hq
        obtain rfl := Except.ok.inj hq
        refine h.rewrite h₀ hends (by omega : s.strlen + 1 ≤ 19) (by omega) (ends_append hends hzero) fun a ha => ?_
        exact (Function.update_of_ne (by omega) _ _).trans (Function.update_of_ne (by omega) _ _)

/-- A key without a character for the clipboard, or with one. -/
lemma Steady.typed {e : PanelKey} (h : p.Steady) (hok : p.Roomy e)
    (hq : ((p.typed e).map (p.printToClb ·)).getD (.ok p) = .ok q) : q.Steady := by
  cases hc : p.typed e with
  | none =>
    rw [hc] at hq
    obtain rfl := Except.ok.inj hq
    exact h
  | some c =>
    rw [hc] at hq
    exact h.printToClb (hok c hc) hq

theorem Steady.press {e : PanelKey} (h : p.Steady) (hok : p.Roomy e) (hq : p.press e = .ok q) : q.Steady := by
  have hsame : ∀ {b : Bool} {x : Except Fault Panel}, (if b then x else .ok p) = .ok q → (x = .ok q → q.Steady) → q.Steady := by
    intro b x hx hgo
    split_ifs at hx
    · exact hgo hx
    · obtain rfl := Except.ok.inj hx
      exact h
  cases e with
  | self mode scan => exact h.typed hok hq
  | space mode =>
    rw [Panel.press] at hq
    split_ifs at hq
    · rw [spaceHandle_ok hq]
      exact h
    · exact h.typed hok hq
  | f1 down =>
    obtain rfl := Except.ok.inj hq
    exact ⟨h.rows, h.selected, h.listed, h.cursor⟩
  | f2 d =>
    exact .f2Handle (p := { p with f2Flag := if p.f2Flag = .explorer then .clipboard else .explorer }) h.rows h.listed hq
  | f3 =>
    obtain rfl := Except.ok.inj hq
    exact ⟨h.rows, h.selected, h.listed, h.cursor⟩
  | arrowUp => exact hsame hq h.arrowUp
  | arrowDown => exact hsame hq h.arrowDown
  | arrowLeft d => exact hsame hq h.arrowLeft
  | arrowRight d => exact hsame hq h.arrowRight

/-- One key after the other. -/
def presses : List PanelKey → Panel → Except Fault Panel
  | [], p => .ok p
  | e :: es, p => (p.press e).bind (presses es)

lemma reach_presses {es : List PanelKey} (hp : panelSystem.Reach (fun _ _ => True) p) (h : presses es p = .ok q) :
    panelSystem.Reach (fun _ _ => True) q := by
  induction es generalizing p with
  | nil =>
    obtain rfl := Except.ok.inj h
    exact hp
  | cons e es ih =>
    obtain ⟨t, ht, h⟩ := bind_eq_ok h
    exact ih (.next hp trivial ht) h

/-- A root directory with two files of one letter. -/
def twoNames : Disk where
  block _ x := if x = entryName 0 ∨ x = entryName 1 then 97 else 0
  mode _ := 0o100644

end Panel

end Tty

end Devos
