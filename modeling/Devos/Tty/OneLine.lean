import Devos.Tty.LineCount

/-! How much a call of `tty_read` takes from the secondary queue. -/

namespace Devos.Tty

/-- The terminal as a call of `tty_read` finds it at the top of its loop, and if a signal or its alarm is pending. -/
structure Seen where
  tty : TtyStruct
  signal : Bool

instance (l : Line) (t : TtyStruct) : Decidable (released l t) := inferInstanceAs (Decidable (¬(_ ∨ _ ∧ _ ∧ _)))

section Passes

variable (l : Line)

/-- The inner loop, for `n` turns at most. -/
def copyOut : ℕ → TtyStruct × Reader → TtyStruct × Reader
  | 0, x => x
  | n + 1, (t, r) => if r.stage = .copying then copyOut n (readByte l t r) else (t, r)

/-- A pass of the outer loop. -/
def readPass (s : Seen) (r : Reader) : TtyStruct × Reader :=
  if r.stage = .returned ∨ s.signal then (s.tty, { r with stage := .returned })
  else if released l s.tty then copyOut l ttyBufSize (s.tty, { r with stage := .copying })
  else (s.tty, r)

/-- `tty_read` with what it sees in pass after pass: the terminal before and behind the last pass, and what it has read;
`none` while it waits for more. -/
def ttyRead : List Seen → Reader → Option (TtyStruct × TtyStruct × Reader)
  | [], _ => none
  | s :: ss, r =>
    if (readPass l s r).2.stage = .returned then some (s.tty, readPass l s r) else ttyRead ss (readPass l s r).2

end Passes

/-- What went out of the queue has no newline but as its last character; the reader has nothing else. -/
def OneLine (before after : TtyStruct) (buf : List Byte) : Prop :=
  ∃ taken, before.secondary.held ttyBufSize = taken ++ after.secondary.held ttyBufSize ∧ buf <+: taken ∧
    ∀ pre post, taken = pre ++ 10 :: post → post = []

/-- The call, if it comes back, has taken one line at most. -/
def ReadsOneLine (l : Line) (nr minimum : ℕ) (ss : List Seen) : Prop :=
  ∀ before after r, ttyRead l ss (.start nr minimum) = some (before, after, r) → OneLine before after r.buf

/-- The first newline is the last character of the queue, or the buffer is full with it, or an EOF character ends the
call there or before. -/
def EndsAtLine (l : Line) (nr : ℕ) (q : List Byte) : Prop :=
  ∀ pre post, q = pre ++ 10 :: post → 10 ∉ pre →
    post = [] ∨ nr ≤ pre.length + 1 ∨ ∃ c ∈ pre ++ [10], isChar c l.termios.veof

/-- The terminal from which a call for `nr` characters copies. -/
def copiedFrom (l : Line) (nr : ℕ) (ss : List Seen) : Option TtyStruct :=
  if nr = 0 then none
  else match ss.find? fun s => s.signal ∨ released l s.tty with
    | none => none
    | some s => if s.signal then none else some s.tty

/-- What a call for `nr` characters takes from a queue with these. -/
def takenFrom (l : Line) : ℕ → List Byte → List Byte
  | 0, _ => []
  | _, [] => []
  | nr + 1, c :: q => c :: if isChar c l.termios.veof then [] else takenFrom l nr q

section Taken

variable {l : Line} {nr : ℕ} {q : List Byte} {t : TtyStruct} {r : Reader}

lemma endsAtLine_cons {c : Byte} (hc : c ≠ 10) (heof : ¬isChar c l.termios.veof) :
    EndsAtLine l (nr + 1) (c :: q) ↔ EndsAtLine l nr q := by
  constructor
  · intro h pre post hq hpre
    have hpre' : 10 ∉ c :: pre := fun hmem => (List.mem_cons.mp hmem).elim (fun heq => hc heq.symm) hpre
    rcases h (c :: pre) post (by rw [hq, List.cons_append]) hpre' with hpost | hnr | ⟨d, hd, hend⟩
    · exact Or.inl hpost
    · rw [List.length_cons] at hnr
      exact Or.inr (Or.inl (by omega))
    · rcases List.mem_cons.mp hd with rfl | hd
      · exact absurd hend heof
      · exact Or.inr (Or.inr ⟨d, hd, hend⟩)
  · intro h pre post hq hpre
    cases pre with
    | nil => exact absurd (List.cons.inj hq).1 hc
    | cons d pre =>
      obtain ⟨rfl, hrest⟩ := List.cons.inj hq
      rcases h pre post hrest (fun hmem => hpre (List.mem_cons_of_mem c hmem)) with hpost | hnr | ⟨d, hd, hend⟩
      · exact Or.inl hpost
      · rw [List.length_cons]
        exact Or.inr (Or.inl (by omega))
      · exact Or.inr (Or.inr ⟨d, List.mem_cons_of_mem c hd, hend⟩)

lemma takenFrom_eq_nil : takenFrom l nr q = [] ↔ q = [] ∨ nr = 0 := by
  cases nr with
  | zero => simp [takenFrom]
  | succ nr => cases q <;> simp [takenFrom]

lemma takenFrom_iff : (∀ pre post, takenFrom l nr q = pre ++ 10 :: post → post = []) ↔ EndsAtLine l nr q := by
  induction q generalizing nr with
  | nil =>
    rw [takenFrom_eq_nil.mpr (Or.inl rfl)]
    exact iff_of_true (fun pre post h => by simp at h) (fun pre post h => by simp at h)
  | cons c q ih =>
    cases nr with
    | zero =>
      rw [takenFrom_eq_nil.mpr (Or.inr rfl)]
      exact iff_of_true (fun pre post h => by simp at h) (fun pre post _ _ => Or.inr (Or.inl (Nat.zero_le _)))
    | succ nr =>
      rw [takenFrom]
      by_cases heof : isChar c l.termios.veof
      · rw [if_pos heof]
        refine iff_of_true ?_ ?_
        · intro pre post h
          cases pre with
          | nil => exact (List.cons.inj h).2.symm
          | cons d pre => simp at h
        · intro pre post h _
          refine Or.inr (Or.inr ⟨c, ?_, heof⟩)
          cases pre with
          | nil => simp [(List.cons.inj h).1]
          | cons d pre => simp [(List.cons.inj h).1]
      · rw [if_neg heof]
        by_cases hc : c = 10
        · subst hc
          constructor
          · intro h pre post hq hpre
            have hnone := h [] _ rfl
            rcases takenFrom_eq_nil.mp hnone with rfl | rfl
            · cases pre with
              | nil => exact Or.inl (List.cons.inj hq).2.symm
              | cons d pre => simp at hq
            · exact Or.inr (Or.inl (by omega))
          · intro h
            have hnone : takenFrom l nr q = [] := by
              rw [takenFrom_eq_nil]
              rcases h [] q rfl (by simp) with hq | hnr | ⟨d, hd, hend⟩
              · exact Or.inl hq
              · exact Or.inr (Nat.le_zero.mp (Nat.le_of_succ_le_succ hnr))
              · rw [List.nil_append, List.mem_singleton] at hd
                subst hd
                exact absurd hend heof
            rw [hnone]
            intro pre post hq
            cases pre with
            | nil => exact (List.cons.inj hq).2.symm
            | cons d pre => simp at hq
        · rw [endsAtLine_cons hc heof, ← ih]
          constructor
          · exact fun h pre post hq => h (c :: pre) post (by rw [hq, List.cons_append])
          · intro h pre post hq
            cases pre with
            | nil => exact absurd (List.cons.inj hq).1 hc
            | cons d pre => exact h pre post (List.cons.inj hq).2

lemma copyOut_returned (h : r.stage = .returned) (n : ℕ) : copyOut l n (t, r) = (t, r) := by
  cases n with
  | zero => rfl
  | succ n => rw [copyOut, if_neg (by simp [h])]

lemma readByte_reader {u : TtyStruct} {r' : Reader} (hcanon : l.termios.icanon = true) (hstage : r.stage = .copying)
    (h : readByte l t r = (u, r')) :
    if isChar (t.secondary.cell t.secondary.tail) l.termios.veof then r'.buf = r.buf ∧ r'.stage = .returned
    else r'.buf = r.buf ++ [t.secondary.cell t.secondary.tail] ∧ r'.nr = r.nr - 1 ∧
      r'.stage = if r.nr - 1 = 0 ∨ u.secondary.head = u.secondary.tail then .returned else .copying := by
  unfold readByte at h
  by_cases heof : isChar (t.secondary.cell t.secondary.tail) l.termios.veof
  · rw [if_pos heof]
    simp only [heof, hcanon, and_self, if_true] at h
    obtain ⟨_, rfl⟩ := Prod.mk.inj h
    exact ⟨rfl, rfl⟩
  · rw [if_neg heof]
    simp only [heof, false_and, if_false] at h
    obtain ⟨hu, hr⟩ := Prod.mk.inj h
    rw [hu] at hr
    subst hr
    by_cases hlast : r.nr - 1 = 0 ∨ u.secondary.head = u.secondary.tail
    · have hleave : r.nr - 1 = 0 ∨ if l.termios.icanon then r.buf ++ [t.secondary.cell t.secondary.tail] ≠ []
          else r.minimum ≤ (r.buf ++ [t.secondary.cell t.secondary.tail]).length := by
        simp [hcanon]
      rw [if_pos hlast, if_pos hlast, Reader.leave, if_pos hleave]
      exact ⟨rfl, rfl, rfl⟩
    · rw [if_neg hlast, if_neg hlast]
      exact ⟨rfl, rfl, hstage⟩

/-- The inner loop takes characters until the first EOF character, the end of the queue or the end of the buffer. -/
lemma copyOut_spec (hcanon : l.termios.icanon = true) (n : ℕ) (hinside : t.secondary.Inside ttyBufSize)
    (hne : t.secondary.head ≠ t.secondary.tail) (hn : t.secondary.size ttyBufSize ≤ n) (hnr : 0 < r.nr)
    (hstage : r.stage = .copying) :
    (copyOut l n (t, r)).2.stage = .returned ∧
      t.secondary.held ttyBufSize =
        takenFrom l r.nr (t.secondary.held ttyBufSize) ++ (copyOut l n (t, r)).1.secondary.held ttyBufSize ∧
      ∃ cs, (copyOut l n (t, r)).2.buf = r.buf ++ cs ∧ cs <+: takenFrom l r.nr (t.secondary.held ttyBufSize) := by
  induction n generalizing t r with
  | zero => exact absurd (hinside.size_eq_zero.mp (Nat.le_zero.mp hn)) hne
  | succ n ih =>
    obtain ⟨k, hk⟩ : ∃ k, r.nr = k + 1 := ⟨r.nr - 1, by omega⟩
    have hsize := hinside.size_pop hne
    rw [copyOut, if_pos hstage, hinside.held_pop hne, hk, takenFrom]
    cases hstep : readByte l t r with
    | mk u r' =>
      obtain ⟨hqueue, _⟩ := readByte_spec hstep
      have hreader := readByte_reader hcanon hstage hstep
      have hinside' : u.secondary.Inside ttyBufSize := hqueue ▸ hinside.pop
      rw [← hqueue] at hsize ⊢
      by_cases heof : isChar (t.secondary.cell t.secondary.tail) l.termios.veof
      · rw [if_pos heof] at hreader ⊢
        rw [copyOut_returned hreader.2]
        exact ⟨hreader.2, rfl, [], by rw [hreader.1, List.append_nil], List.nil_prefix⟩
      · rw [if_neg heof] at hreader ⊢
        obtain ⟨hbuf, hleft, hnext⟩ := hreader
        rw [hk, Nat.add_sub_cancel] at hleft hnext
        by_cases hlast : k = 0 ∨ u.secondary.head = u.secondary.tail
        · rw [if_pos hlast] at hnext
          have hnone : takenFrom l k (u.secondary.held ttyBufSize) = [] := by
            rw [takenFrom_eq_nil]
            exact hlast.symm.imp_left hinside'.held_eq_nil
          rw [copyOut_returned hnext, hnone]
          exact ⟨hnext, rfl, [t.secondary.cell t.secondary.tail], hbuf, List.prefix_rfl⟩
        · rw [if_neg hlast] at hnext
          obtain ⟨hk, hne'⟩ := not_or.mp hlast
          obtain ⟨hstage', hheld, cs, hcs, hpre⟩ := ih hinside' hne' (by omega) (by omega) hnext
          rw [hleft] at hheld hpre
          refine ⟨hstage', congrArg (_ :: ·) hheld, t.secondary.cell t.secondary.tail :: cs, ?_, ?_⟩
          · rw [hcs, hbuf, List.append_assoc, List.singleton_append]
          · exact List.cons_prefix_cons.mpr ⟨rfl, hpre⟩

end Taken

section Calls

variable {l : Line} {nr minimum : ℕ} {s : Seen} {ss : List Seen} {r : Reader} {before after : TtyStruct}

lemma oneLine_nothing (t : TtyStruct) : OneLine t t [] := ⟨[], rfl, List.prefix_rfl, by simp⟩

/-- A pass that copies. -/
lemma readPass_copies (hcanon : l.termios.icanon = true) (hinside : s.tty.secondary.Inside ttyBufSize)
    (hsignal : s.signal = false) (hgo : released l s.tty) (hnr : 0 < r.nr) (hstage : r.stage = .waiting)
    (hbuf : r.buf = []) :
    (readPass l s r).2.stage = .returned ∧
      (OneLine s.tty (readPass l s r).1 (readPass l s r).2.buf ↔ EndsAtLine l r.nr (s.tty.secondary.held ttyBufSize)) := by
  have hpass : readPass l s r = copyOut l ttyBufSize (s.tty, { r with stage := .copying }) := by
    rw [readPass, if_neg (by simp [hstage, hsignal]), if_pos hgo]
  have hne : s.tty.secondary.head ≠ s.tty.secondary.tail := fun heq => hgo (Or.inl heq)
  have hsize := Ring.size_lt (Nat.succ_pos _) s.tty.secondary (n := ttyBufSize)
  obtain ⟨hstage', hheld, cs, hcs, hpre⟩ :=
    copyOut_spec (r := { r with stage := .copying }) hcanon ttyBufSize hinside hne hsize.le hnr rfl
  rw [hpass]
  refine ⟨hstage', ?_⟩
  rw [← takenFrom_iff]
  constructor
  · rintro ⟨taken, hheld', _, hend⟩
    rw [hheld] at hheld'
    rw [List.append_cancel_right hheld']
    exact hend
  · intro hend
    refine ⟨_, hheld, ?_, hend⟩
    rw [hcs, hbuf]
    exact hpre

lemma ttyRead_ends (h : (readPass l s r).2.stage = .returned) : ttyRead l (s :: ss) r = some (s.tty, readPass l s r) := by
  rw [ttyRead, if_pos h]

/-- A call that copies nothing. -/
lemma readPass_stops (h : r.stage = .returned ∨ s.signal = true) :
    readPass l s r = (s.tty, { r with stage := .returned }) := by
  rw [readPass, if_pos h]

/-- In canonical mode a call takes one line at most if and only if the queue that it copies from ends it at the line. -/
theorem readsOneLine_iff (hcanon : l.termios.icanon = true) (hinside : ∀ s ∈ ss, s.tty.secondary.Inside ttyBufSize)
    (nr minimum : ℕ) :
    ReadsOneLine l nr minimum ss ↔
      ∀ t, copiedFrom l nr ss = some t → EndsAtLine l nr (t.secondary.held ttyBufSize) := by
  unfold ReadsOneLine
  induction ss with
  | nil =>
    refine iff_of_true (fun before after r h => by cases h) fun t h => ?_
    unfold copiedFrom at h
    split_ifs at h
    cases h
  | cons s ss ih =>
    have ih := ih fun s' hs' => hinside s' (List.mem_cons_of_mem s hs')
    by_cases hstop : nr = 0 ∨ s.signal = true
    · have hpass : readPass l s (.start nr minimum) = (s.tty, { Reader.start nr minimum with stage := .returned }) :=
        readPass_stops (hstop.imp_left fun hnr => if_pos hnr)
      have hends : (readPass l s (.start nr minimum)).2.stage = .returned := congrArg (fun x => x.2.stage) hpass
      have hread : ttyRead l (s :: ss) (.start nr minimum) = some (s.tty, _) := ttyRead_ends hends
      refine iff_of_true ?_ ?_
      · intro before after r h
        rw [hread, hpass] at h
        cases h
        exact oneLine_nothing s.tty
      · intro t h
        unfold copiedFrom at h
        rcases hstop with hnr | hsignal
        · rw [if_pos hnr] at h
          cases h
        · split_ifs at h
          rw [List.find?_cons_of_pos (by simp [hsignal])] at h
          simp [hsignal] at h
    · obtain ⟨hnr, hsignal⟩ := not_or.mp hstop
      have hsignal : s.signal = false := by simpa using hsignal
      have hstage : (Reader.start nr minimum).stage = .waiting := if_neg hnr
      by_cases hgo : released l s.tty
      · have hcopy := readPass_copies (r := .start nr minimum) hcanon (hinside s List.mem_cons_self) hsignal hgo
          (Nat.pos_of_ne_zero hnr) hstage rfl
        have hfrom : copiedFrom l nr (s :: ss) = some s.tty := by
          rw [copiedFrom, if_neg hnr, List.find?_cons_of_pos (by simp [hgo])]
          simp [hsignal]
        rw [ttyRead_ends hcopy.1, hfrom]
        constructor
        · intro h t ht
          cases ht
          exact hcopy.2.mp (h _ _ _ rfl)
        · intro h before after r hr
          obtain ⟨rfl, hpass⟩ := Prod.mk.inj (Option.some.inj hr)
          have hline := hcopy.2.mpr (h _ rfl)
          rw [hpass] at hline
          exact hline
      · have hpass : readPass l s (.start nr minimum) = (s.tty, .start nr minimum) := by
          rw [readPass, if_neg (by simp [hstage, hsignal]), if_neg hgo]
        have hread : ttyRead l (s :: ss) (.start nr minimum) = ttyRead l ss (.start nr minimum) := by
          rw [ttyRead, hpass, if_neg (by simp [hstage])]
        have hfrom : copiedFrom l nr (s :: ss) = copiedFrom l nr ss := by
          unfold copiedFrom
          rw [List.find?_cons_of_neg (by simp [hgo, hsignal])]
        rw [hread, hfrom]
        exact ih

/-- A terminal with what has been typed and copied. -/
def typedAhead (cs : List Byte) : TtyStruct :=
  { cs.foldl TtyStruct.putSecondary (consoleTty []) with data := cs.countP fun c => endsLine quietLine c }

lemma typedAhead_inside (cs : List Byte) : (typedAhead cs).secondary.Inside ttyBufSize := by
  have hinside : ∀ t : TtyStruct, t.secondary.Inside ttyBufSize →
      (cs.foldl TtyStruct.putSecondary t).secondary.Inside ttyBufSize := by
    induction cs with
    | nil => exact fun _ h => h
    | cons c cs ih => exact fun t h => ih _ (h.push c)
  exact hinside (consoleTty []) emptyRing_inside

theorem readsOneLine_typed : ReadsOneLine quietLine 10 1 [⟨typedAhead [97, 10], false⟩] := by
  have hinside : ∀ s ∈ [(⟨typedAhead [97, 10], false⟩ : Seen)], s.tty.secondary.Inside ttyBufSize := by
    intro s hs
    obtain rfl := List.mem_singleton.mp hs
    exact typedAhead_inside [97, 10]
  refine (readsOneLine_iff rfl hinside 10 1).mpr ?_
  intro t ht pre post hq _
  have hheld : (typedAhead [97, 10]).secondary.held ttyBufSize = [97, 10] := by decide
  have hfrom : copiedFrom quietLine 10 [⟨typedAhead [97, 10], false⟩] = some (typedAhead [97, 10]) := rfl
  rw [hfrom] at ht
  cases ht
  rw [hheld] at hq
  left
  cases pre with
  | nil => cases (List.cons.inj hq).1
  | cons c pre =>
    have hrest := (List.cons.inj hq).2
    cases pre with
    | nil => exact (List.cons.inj hrest).2.symm
    | cons d pre => simp at hrest

/-- Two lines typed ahead come out of one call. -/
theorem two_lines_read : ¬∀ l nr minimum ss, l.termios.icanon = true →
    (∀ s ∈ ss, s.tty.secondary.Inside ttyBufSize) → ReadsOneLine l nr minimum ss := by
  intro hall
  have hrun : (ttyRead quietLine [⟨typedAhead [97, 10, 98, 10], false⟩] (.start 10 1)).map (fun x => x.2.2.buf) =
      some [97, 10, 98, 10] := by decide
  obtain ⟨⟨before, after, r⟩, hread, hbuf⟩ := Option.map_eq_some_iff.mp hrun
  have hinside : ∀ s ∈ [(⟨typedAhead [97, 10, 98, 10], false⟩ : Seen)], s.tty.secondary.Inside ttyBufSize := by
    intro s hs
    obtain rfl := List.mem_singleton.mp hs
    exact typedAhead_inside _
  obtain ⟨taken, _, ⟨rest, hpre⟩, hline⟩ := hall _ _ _ _ rfl hinside _ _ _ hread
  have hnone := hline [97] (98 :: 10 :: rest) (by rw [← hpre]; exact congrArg (· ++ rest) hbuf)
  cases hnone

end Calls

end Devos.Tty
