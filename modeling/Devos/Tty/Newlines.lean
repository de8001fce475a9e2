import Devos.Tty.LineCount

/-! Newlines on their way out: `tty_write` puts a carriage return before each of them, and keeps in one flag for
all calls whether it has. -/

namespace Devos.Tty

open Runs

/-- The bits of `c_oflag` that `tty_write` looks at. `lowerBefore` is what `islower` finds in front of its table. -/
structure OutputFlags where
  opost : Bool
  olcuc : Bool
  onlcr : Bool
  ocrnl : Bool
  onlret : Bool
  lowerBefore : Byte → Bool

def OutputFlags.islower (o : OutputFlags) (c : Byte) : Bool :=
  if -1 ≤ c.toInt then 97 ≤ c.toInt ∧ c.toInt ≤ 122 else o.lowerBefore c

def OutputFlags.toupper (o : OutputFlags) (c : Byte) : Byte := if o.islower c then c + (65 - 97) else c

/-- A newline goes out behind a carriage return, and all else as it is. -/
structure OutputFlags.Translates (o : OutputFlags) : Prop where
  opost : o.opost = true
  olcuc : o.olcuc = false
  onlcr : o.onlcr = true
  ocrnl : o.ocrnl = false
  onlret : o.onlret = false

/-- `asleep` is in `sleep_if_full`; a call in `schedule` is `ready`. -/
inductive WriteStage
  | ready
  | asleep
  | returned
  | interrupted
deriving DecidableEq

/-- A call of `tty_write` with what is left of its buffer. The rest is a record: the buffer it was called with, what it
has taken from it and put into the queue, and if that ends between the two characters of a newline. -/
structure WriteCall where
  channel : Fin 3
  buf : List Byte
  stage : WriteStage
  whole : List Byte
  done : List Byte
  sent : List Byte
  half : Bool

/-- The inner loop of `tty_write`. `overran` is a record: if something was put into a full queue. -/
structure Filling where
  queue : Ring Byte
  crFlag : Bool
  call : WriteCall
  overran : Bool

namespace Filling

def full (w : Filling) : Prop := w.queue.size ttyBufSize = ttyBufSize - 1

instance (w : Filling) : Decidable w.full := inferInstanceAs (Decidable (_ = _))

/-- `PUTCH(c,tty->write_q)` -/
def put (w : Filling) (c : Byte) : Filling :=
  { w with
    queue := w.queue.push ttyBufSize c
    call := { w.call with sent := w.call.sent ++ [c] }
    overran := w.overran || decide w.full }

/-- `b++; nr--; cr_flag = 0;` -/
def advance (w : Filling) (c : Byte) (cs : List Byte) : Filling :=
  { w with crFlag := false, call := { w.call with buf := cs, done := w.call.done ++ [c], half := false } }

/-- A turn of the inner loop, with `c` at `b`. -/
def turn (o : OutputFlags) (c : Byte) (cs : List Byte) (w : Filling) : Filling :=
  let d := if o.opost then if c = 13 ∧ o.ocrnl then 10 else if c = 10 ∧ o.onlret then 13 else c else c
  if o.opost ∧ d = 10 ∧ ¬w.crFlag ∧ o.onlcr then
    let w := { w with crFlag := true }.put 13
    { w with call := { w.call with half := true } }
  else (w.advance c cs).put (if o.opost ∧ o.olcuc then o.toupper d else d)

/-- `n` turns at most. -/
def fill (o : OutputFlags) : ℕ → Filling → Filling
  | 0, w => w
  | n + 1, w =>
    match w.call.buf with
    | [] => w
    | c :: cs => if w.full then w else fill o n (w.turn o c cs)

end Filling

/-- All calls of `tty_write` that are on, with the flag they share. -/
structure Writers where
  crFlag : Bool
  queue : Fin 3 → Ring Byte
  call : Fin 64 → Option WriteCall
  overran : Bool

/-- `device` is what else becomes of a write queue. -/
inductive WriteEvent
  | enter (p : Fin 64) (channel : Fin 3) (buf : List Byte)
  | sleep (p : Fin 64)
  | run (p : Fin 64)
  | signal (p : Fin 64)
  | leave (p : Fin 64)
  | device (channel : Fin 3) (q : Ring Byte)

namespace Writers

variable (flags : Fin 3 → OutputFlags)

def set (s : Writers) (p : Fin 64) (c : Option WriteCall) : Writers := { s with call := Function.update s.call p c }

/-- The inner loop, from there to `schedule` or the end. -/
def fill (s : Writers) (p : Fin 64) (c : WriteCall) : Writers :=
  let w := Filling.fill (flags c.channel) ttyBufSize ⟨s.queue c.channel, s.crFlag, c, s.overran⟩
  { crFlag := w.crFlag
    queue := Function.update s.queue c.channel w.queue
    call := Function.update s.call p (some { w.call with stage := if w.call.buf = [] then .returned else .ready })
    overran := w.overran }

/-- `sleep_if_full` lets the call go on. -/
def Room (s : Writers) (c : WriteCall) : Prop :=
  c.stage = .ready ∧ left (s.queue c.channel) ≠ 0 ∨ c.stage = .asleep ∧ 128 ≤ left (s.queue c.channel)

end Writers

/-- From one place where a process sleeps or calls `schedule` to the next. -/
inductive WriteStep (flags : Fin 3 → OutputFlags) : Writers → WriteEvent → Writers → Prop
  | enter {s p ch buf} (h : s.call p = none) : WriteStep flags s (.enter p ch buf)
    (s.set p (some ⟨ch, buf, if buf = [] then .returned else .ready, buf, [], [], false⟩))
  | sleep {s p c} (h : s.call p = some c) (hstage : c.stage = .ready) (hfull : left (s.queue c.channel) = 0) :
    WriteStep flags s (.sleep p) (s.set p (some { c with stage := .asleep }))
  | run {s p c} (h : s.call p = some c) (hroom : s.Room c) : WriteStep flags s (.run p) (s.fill flags p c)
  | signal {s p c} (h : s.call p = some c) (hstage : c.stage = .ready ∨ c.stage = .asleep) :
    WriteStep flags s (.signal p) (s.set p (some { c with stage := .interrupted }))
  | leave {s p c} (h : s.call p = some c) (hstage : c.stage = .returned ∨ c.stage = .interrupted) :
    WriteStep flags s (.leave p) (s.set p none)
  | device {s ch q} (h : q.Inside ttyBufSize) :
    WriteStep flags s (.device ch q) { s with queue := Function.update s.queue ch q }

def writeSystem (flags : Fin 3 → OutputFlags) : System Writers WriteEvent where
  init s := s.crFlag = false ∧ (∀ ch, (s.queue ch).Inside ttyBufSize) ∧ (∀ p, s.call p = none) ∧ s.overran = false
  step := WriteStep flags

/-- A call that goes on at a newline finds the flag set exactly when it has itself put the carriage return of this
newline, and no signal ends it there. -/
def Writers.Tame (flags : Fin 3 → OutputFlags) (s : Writers) : WriteEvent → Prop
  | .run p => ∀ c, s.call p = some c → (flags c.channel).Translates → c.buf.head? = some 10 → s.crFlag = c.half
  | .signal p => ∀ c, s.call p = some c → (flags c.channel).Translates → c.half = false
  | _ => True

def crlf (cs : List Byte) : List Byte := cs.flatMap fun c => if c = 10 then [13, 10] else [c]

lemma crlf_append (as bs : List Byte) : crlf (as ++ bs) = crlf as ++ crlf bs := List.flatMap_append

lemma crlf_singleton {c : Byte} (hc : c ≠ 10) : crlf [c] = [c] := by
  rw [crlf, List.flatMap_singleton, if_neg hc]

section Calls

variable {o : OutputFlags} {c : Byte} {cs : List Byte} {w : Filling} {n : ℕ}

/-- What a call has put is the translation of what it has taken, and perhaps the first half of a newline. -/
structure WriteCall.Clean (a : WriteCall) : Prop where
  whole : a.done ++ a.buf = a.whole
  sent : a.sent = crlf a.done ++ if a.half then [13] else []
  head : a.half = true → a.buf.head? = some 10

namespace Filling

lemma turn_newline (ho : o.Translates) (hflag : w.crFlag = false) :
    w.turn o 10 cs = { ({ w with crFlag := true }.put 13) with
      call := { ({ w with crFlag := true }.put 13).call with half := true } } := by
  simp [turn, ho.opost, ho.onlcr, ho.ocrnl, ho.onlret, hflag]

lemma turn_other (ho : o.Translates) (h : c = 10 → w.crFlag = true) : w.turn o c cs = (w.advance c cs).put c := by
  have hno : ¬(c = 10 ∧ w.crFlag = false) := by
    rintro ⟨hc, hflag⟩
    rw [h hc] at hflag
    cases hflag
  unfold turn
  simp only [ho.opost, ho.olcuc, ho.onlcr, ho.ocrnl, ho.onlret, if_true, Bool.false_eq_true, and_false, if_false]
  exact if_neg (by simpa using hno)

lemma turn_clean (ho : o.Translates) (hbuf : w.call.buf = c :: cs) (h : w.call.Clean)
    (hflag : w.call.buf.head? = some 10 → w.crFlag = w.call.half) :
    (w.turn o c cs).call.Clean ∧ (w.turn o c cs).crFlag = (w.turn o c cs).call.half := by
  rw [hbuf] at hflag
  by_cases hcr : c = 10 ∧ w.crFlag = false
  · obtain ⟨rfl, hcr⟩ := hcr
    have hhalf : w.call.half = false := (hflag rfl).symm.trans hcr
    rw [turn_newline ho hcr]
    refine ⟨⟨h.whole, ?_, fun _ => ?_⟩, rfl⟩
    · have hsent := h.sent
      rw [hhalf] at hsent
      change w.call.sent ++ [13] = crlf w.call.done ++ [13]
      simpa using hsent
    · change w.call.buf.head? = some 10
      rw [hbuf, List.head?_cons]
  · have hother : c = 10 → w.crFlag = true := fun hc => Bool.eq_true_of_not_eq_false fun hflag => hcr ⟨hc, hflag⟩
    rw [turn_other ho hother]
    refine ⟨⟨?_, ?_, fun hhalf => ?_⟩, rfl⟩
    · have hwhole := h.whole
      rw [hbuf] at hwhole
      change (w.call.done ++ [c]) ++ cs = w.call.whole
      simpa using hwhole
    · change w.call.sent ++ [c] = crlf (w.call.done ++ [c]) ++ []
      rw [h.sent, crlf_append]
      by_cases hc : c = 10
      · subst hc
        rw [← hflag rfl, hother rfl]
        simp [crlf]
      · have hhalf : w.call.half = false := by
          by_contra hhalf
          have hhead := h.head (Bool.eq_true_of_not_eq_false hhalf)
          rw [hbuf] at hhead
          exact hc (Option.some.inj hhead)
        rw [hhalf, crlf_singleton hc]
        simp
    · cases hhalf

/-- What every turn keeps. -/
lemma turn_keeps (o : OutputFlags) (c : Byte) (cs : List Byte) (h : w.queue.Inside ttyBufSize) (hroom : ¬w.full) :
    (w.turn o c cs).queue.Inside ttyBufSize ∧ (w.turn o c cs).overran = w.overran ∧
      (w.turn o c cs).queue.size ttyBufSize = w.queue.size ttyBufSize + 1 ∧
      (w.turn o c cs).call.channel = w.call.channel := by
  have hput : ∀ (v : Filling) (d : Byte), v.queue = w.queue → v.overran = w.overran → v.call.channel = w.call.channel →
      (v.put d).queue.Inside ttyBufSize ∧ (v.put d).overran = w.overran ∧
        (v.put d).queue.size ttyBufSize = w.queue.size ttyBufSize + 1 ∧ (v.put d).call.channel = w.call.channel := by
    intro v d hqueue hoverran hchannel
    have hfull : ¬v.full := by rwa [full, hqueue]
    refine ⟨?_, ?_, ?_, hchannel⟩
    · change (v.queue.push ttyBufSize d).Inside _
      rw [hqueue]
      exact h.push d
    · change (v.overran || decide v.full) = _
      rw [decide_eq_false hfull, Bool.or_false, hoverran]
    · change (v.queue.push ttyBufSize d).size _ = _
      rw [hqueue]
      exact h.size_push hroom d
  unfold turn
  dsimp only
  split_ifs
  all_goals exact hput _ _ rfl rfl rfl

lemma fill_keeps (o : OutputFlags) (n : ℕ) (h : w.queue.Inside ttyBufSize) :
    (fill o n w).queue.Inside ttyBufSize ∧ (fill o n w).overran = w.overran ∧
      (fill o n w).call.channel = w.call.channel := by
  induction n generalizing w with
  | zero => exact ⟨h, rfl, rfl⟩
  | succ n ih =>
    rw [fill]
    cases w.call.buf with
    | nil => exact ⟨h, rfl, rfl⟩
    | cons c cs =>
      dsimp only
      split_ifs with hfull
      · exact ⟨h, rfl, rfl⟩
      · obtain ⟨hinside, hoverran, _, hchannel⟩ := turn_keeps o c cs h hfull
        obtain ⟨hinside', hoverran', hchannel'⟩ := ih hinside
        exact ⟨hinside', hoverran'.trans hoverran, hchannel'.trans hchannel⟩

/-- The loop ends because the buffer is empty or the queue is full. -/
lemma fill_ends (o : OutputFlags) (h : w.queue.Inside ttyBufSize) (hn : ttyBufSize - 1 - w.queue.size ttyBufSize < n) :
    (fill o n w).call.buf = [] ∨ (fill o n w).full := by
  induction n generalizing w with
  | zero => omega
  | succ n ih =>
    rw [fill]
    cases hbuf : w.call.buf with
    | nil => exact Or.inl hbuf
    | cons c cs =>
      dsimp only
      split_ifs with hfull
      · exact Or.inr hfull
      · obtain ⟨hinside, _, hsize, _⟩ := turn_keeps o c cs h hfull
        have hlt : (w.turn o c cs).queue.size ttyBufSize < ttyBufSize := Ring.size_lt (by decide) _
        exact ih hinside (by omega)

lemma fill_clean (ho : o.Translates) (n : ℕ) (h : w.call.Clean)
    (hflag : w.call.buf.head? = some 10 → w.crFlag = w.call.half) : (fill o n w).call.Clean := by
  induction n generalizing w with
  | zero => exact h
  | succ n ih =>
    rw [fill]
    cases hbuf : w.call.buf with
    | nil => exact h
    | cons c cs =>
      dsimp only
      split_ifs
      · exact h
      · obtain ⟨hclean, hcr⟩ := turn_clean ho hbuf h hflag
        exact ih hclean fun _ => hcr

end Filling

end Calls

section Runs

variable {flags : Fin 3 → OutputFlags} {s s' : Writers} {e : WriteEvent} {p : Fin 64} {c : WriteCall}

/-- A call that has ended, at the end of its buffer or by a signal, has not ended inside a newline. -/
structure WriteCall.Right (c : WriteCall) : Prop extends c.Clean where
  returned : c.stage = .returned → c.buf = []
  interrupted : c.stage = .interrupted → c.half = false

structure Writers.Right (flags : Fin 3 → OutputFlags) (s : Writers) : Prop where
  inside : ∀ ch, (s.queue ch).Inside ttyBufSize
  overran : s.overran = false
  call : ∀ p c, s.call p = some c → (flags c.channel).Translates → c.Right

namespace Writers

lemma Right.set (h : s.Right flags) {c : Option WriteCall}
    (hc : ∀ a, c = some a → (flags a.channel).Translates → a.Right) : (s.set p c).Right flags := by
  refine ⟨h.inside, h.overran, fun q a ha ho => ?_⟩
  by_cases hq : q = p
  · subst hq
    exact hc a (by simpa [Writers.set] using ha) ho
  · exact h.call q a (by simpa [Writers.set, hq] using ha) ho

lemma Right.fill (h : s.Right flags) (hc : s.call p = some c) (hok : s.Tame flags (.run p)) :
    (s.fill flags p c).Right flags := by
  obtain ⟨hinside, hoverran, hchannel⟩ := Filling.fill_keeps (w := ⟨s.queue c.channel, s.crFlag, c, s.overran⟩)
    (flags c.channel) ttyBufSize (h.inside c.channel)
  refine ⟨fun ch => ?_, hoverran.trans h.overran, fun q a ha ho => ?_⟩
  · by_cases hch : ch = c.channel
    · subst hch
      simpa [Writers.fill] using hinside
    · simpa [Writers.fill, hch] using h.inside ch
  · by_cases hq : q = p
    · subst hq
      simp only [Writers.fill, Function.update_self, Option.some.injEq] at ha
      subst ha
      dsimp only at ho
      rw [hchannel] at ho
      obtain ⟨hwhole, hsent, hhead⟩ := Filling.fill_clean (w := ⟨s.queue c.channel, s.crFlag, c, s.overran⟩) ho
        ttyBufSize (h.call q c hc ho).toClean (hok c hc ho)
      refine ⟨⟨hwhole, hsent, hhead⟩, fun hstage => ?_, fun hstage => ?_⟩
      · by_contra hne
        rw [if_neg hne] at hstage
        cases hstage
      · dsimp only at hstage
        split_ifs at hstage
    · exact h.call q a (by simpa [Writers.fill, hq] using ha) ho

theorem Right.step (h : s.Right flags) (hok : s.Tame flags e) (hs : WriteStep flags s e s') : s'.Right flags := by
  cases hs with
  | enter _ =>
    refine h.set fun a ha _ => ?_
    obtain rfl := Option.some.inj ha
    refine ⟨⟨rfl, rfl, fun hhalf => ?_⟩, fun hstage => ?_, fun _ => rfl⟩
    · cases hhalf
    · by_contra hne
      rw [if_neg hne] at hstage
      cases hstage
  | sleep hc hstage hfull =>
    refine h.set fun a ha ho => ?_
    obtain rfl := Option.some.inj ha
    obtain ⟨hclean, _, _⟩ := h.call _ _ hc ho
    refine ⟨⟨hclean.whole, hclean.sent, hclean.head⟩, fun hstage => ?_, fun hstage => ?_⟩
    · cases hstage
    · cases hstage
  | run hc hroom => exact h.fill hc hok
  | @signal _ c hc hstage =>
    refine h.set fun a ha ho => ?_
    obtain rfl := Option.some.inj ha
    obtain ⟨hclean, _, _⟩ := h.call _ _ hc ho
    refine ⟨⟨hclean.whole, hclean.sent, hclean.head⟩, fun hstage => ?_, fun _ => hok c hc ho⟩
    cases hstage
  | leave hc hstage => exact h.set fun a ha => by cases ha
  | @device ch q hq =>
    refine ⟨fun ch' => ?_, h.overran, h.call⟩
    by_cases hch : ch' = ch
    · subst hch
      simpa using hq
    · simpa [hch] using h.inside ch'

lemma right_of_reach (h : (writeSystem flags).Reach (Tame flags) s) : s.Right flags := by
  refine h.invariant ?_ fun _ _ _ hr hok hs => hr.step hok hs
  intro s hinit
  refine ⟨hinit.2.1, hinit.2.2.2, fun p c hc => ?_⟩
  rw [hinit.2.2.1 p] at hc
  cases hc

end Writers

lemma WriteCall.Clean.isPrefix (h : c.Clean) : c.sent <+: crlf c.whole := by
  rw [h.sent, ← h.whole, crlf_append]
  apply List.prefix_append_right_inj _ |>.mpr
  by_cases hhalf : c.half = true
  · rw [if_pos hhalf]
    obtain ⟨cs, hcs⟩ := List.head?_eq_some_iff.mp (h.head hhalf)
    rw [hcs]
    exact ⟨10 :: crlf cs, rfl⟩
  · rw [if_neg hhalf]
    exact List.nil_prefix

/-- Nothing is put into a full queue; and what a call has put there is the translation of its buffer, if it has been
able to finish, of what it has taken, if a signal has ended it, and else the beginning of the translation. -/
theorem newlines_exact (h : (writeSystem flags).Reach (Writers.Tame flags) s) :
    s.overran = false ∧ ∀ p c, s.call p = some c → (flags c.channel).Translates →
      c.done <+: c.whole ∧ c.sent <+: crlf c.whole ∧ (c.stage = .returned → c.sent = crlf c.whole) ∧
        (c.stage = .interrupted → c.sent = crlf c.done) := by
  have hright := Writers.right_of_reach h
  refine ⟨hright.overran, fun p c hc ho => ?_⟩
  obtain ⟨hclean, hreturned, hinterrupted⟩ := hright.call p c hc ho
  refine ⟨⟨c.buf, hclean.whole⟩, hclean.isPrefix, fun hstage => ?_, fun hstage => ?_⟩
  · have hhalf : ¬c.half = true := by
      intro hhalf
      have hhead := hclean.head hhalf
      rw [hreturned hstage] at hhead
      cases hhead
    have hwhole := hclean.whole
    rw [hreturned hstage, List.append_nil] at hwhole
    rw [hclean.sent, if_neg hhalf, List.append_nil, hwhole]
  · rw [hclean.sent, hinterrupted hstage, if_neg Bool.false_ne_true, List.append_nil]

/-- Three terminals that translate. -/
def consoleFlags (_ : Fin 3) : OutputFlags := ⟨true, false, true, false, false, fun _ => false⟩

lemma translates_console (ch : Fin 3) : (consoleFlags ch).Translates := ⟨rfl, rfl, rfl, rfl, rfl⟩

/-- Write queues up to `head`, of which nothing has gone out yet. -/
def untouched (head : ℕ) : Writers := ⟨false, fun _ => ⟨fun _ => 0, head, 0⟩, fun _ => none, false⟩

lemma reach_untouched {head : ℕ} (hhead : head < ttyBufSize) {ok : Writers → WriteEvent → Prop} :
    (writeSystem flags).Reach ok (untouched head) :=
  .start ⟨rfl, fun _ => ⟨hhead, Nat.succ_pos _⟩, fun _ => rfl, rfl⟩

/-- A call as it begins. -/
def calling (buf : List Byte) : WriteCall := ⟨⟨0, by decide⟩, buf, .ready, buf, [], [], false⟩

/-- A letter and a newline, written into an empty queue. -/
theorem newlines_exact_line :
    ∃ c, (((untouched 0).set 0 (some (calling [97, 10]))).fill consoleFlags 0 (calling [97, 10])).call 0 = some c ∧
      c.sent = crlf [97, 10] := by
  have henter : WriteStep consoleFlags (untouched 0) (.enter 0 0 [97, 10])
      ((untouched 0).set 0 (some (calling [97, 10]))) := WriteStep.enter rfl
  have hcall : ((untouched 0).set 0 (some (calling [97, 10]))).call 0 = some (calling [97, 10]) := rfl
  have hrun : WriteStep consoleFlags ((untouched 0).set 0 (some (calling [97, 10]))) (.run 0)
      (((untouched 0).set 0 (some (calling [97, 10]))).fill consoleFlags 0 (calling [97, 10])) :=
    WriteStep.run hcall (Or.inl ⟨rfl, by decide⟩)
  have hok : ((untouched 0).set 0 (some (calling [97, 10]))).Tame consoleFlags (.run 0) := by
    intro c hc _ hhead
    obtain rfl := Option.some.inj (hcall.symm.trans hc)
    cases hhead
  have hany : (untouched 0).Tame consoleFlags (.enter 0 0 [97, 10]) := trivial
  have hreach := System.Reach.next (M := writeSystem consoleFlags) (.next (reach_untouched (by decide)) hany henter) hok hrun
  exact ⟨_, rfl, ((newlines_exact hreach).2 0 _ rfl (translates_console _)).2.2.1 rfl⟩

/-- Two calls write a newline each. The queue is full behind the carriage return of the first, and the second takes
it for its own. -/
theorem newline_without_return : ¬∀ s, (writeSystem consoleFlags).Reach (fun _ _ => True) s →
    ∀ p c, s.call p = some c → c.stage = .returned → c.sent = crlf c.whole := by
  intro hall
  let s₁ := (untouched 1022).set 0 (some (calling [10]))
  let s₂ := s₁.fill consoleFlags 0 (calling [10])
  let s₃ : Writers := { s₂ with queue := Function.update s₂.queue 0 ⟨fun _ => 0, 0, 0⟩ }
  let s₄ := s₃.set 1 (some (calling [10]))
  have h₁ : WriteStep consoleFlags (untouched 1022) (.enter 0 0 [10]) s₁ := WriteStep.enter rfl
  have h₂ : WriteStep consoleFlags s₁ (.run 0) s₂ := WriteStep.run rfl (Or.inl ⟨rfl, by decide⟩)
  have h₃ : WriteStep consoleFlags s₂ (.device 0 ⟨fun _ => 0, 0, 0⟩) s₃ := WriteStep.device emptyRing_inside
  have h₄ : WriteStep consoleFlags s₃ (.enter 1 0 [10]) s₄ := WriteStep.enter rfl
  have h₅ : WriteStep consoleFlags s₄ (.run 1) (s₄.fill consoleFlags 1 (calling [10])) :=
    WriteStep.run rfl (Or.inl ⟨rfl, by decide⟩)
  have hreach : (writeSystem consoleFlags).Reach (fun _ _ => True) (s₄.fill consoleFlags 1 (calling [10])) :=
    .next (.next (.next (.next (.next (reach_untouched (by decide)) trivial h₁) trivial h₂) trivial h₃) trivial h₄)
      trivial h₅
  have hcall : ∃ c, (s₄.fill consoleFlags 1 (calling [10])).call 1 = some c ∧ c.stage = .returned ∧ c.sent = [10] ∧
      c.whole = [10] := ⟨_, rfl, by decide, by decide, by decide⟩
  obtain ⟨c, hc, hstage, hsent, hwhole⟩ := hcall
  have hright := hall _ hreach 1 c hc hstage
  rw [hsent, hwhole] at hright
  exact absurd hright (by decide)

end Runs

end Devos.Tty
