import Devos.Fs.Getblk

/-! The buffer cache from `buffer_init` on: its queues, and the one buffer of each block. -/

namespace Devos.Fs

open Runs RefCount

namespace Buffers

section Identity

variable {P : Type*} [DecidableEq P] {n : ℕ} {s s' : Buffers P n} {e : BufferEvent P n} {x : P}

lemma Sound.finished_identity (h : Sound s) {r : BlockRequest} {tmp : Fin n} {given : Bool}
    (hx : (s.call x).taken = some tmp) (hs : s.finish x r tmp = .ok (given, s')) :
    s'.pool.bDev = Function.update s.pool.bDev tmp (if given then r.bDev else 0) ∧
      s'.pool.bBlocknr = Function.update s.pool.bBlocknr tmp (if given then r.bBlocknr else 0) ∧
      (given = true → ∀ b, ¬ s.Out b → s.pool.bDev b ≠ 0 → ¬ s.pool.Matches r.dev r.block b) := by
  rcases h.finish (r := r) hx with ⟨c, hfresh, s₁, hrun, _, hpool⟩ | ⟨c, s₁, hrun, _, hpool, _⟩
  · rw [hrun] at hs
    cases hs
    rw [hpool]
    exact ⟨rfl, rfl, fun _ => hfresh⟩
  · rw [hrun] at hs
    cases hs
    rw [hpool]
    refine ⟨Function.update_idem _ _ _, Function.update_idem _ _ _, ?_⟩
    intro hgiven
    cases hgiven

lemma brelse_identity {b : Fin n} (hs : s.brelse x b = .ok s') :
    s'.pool.bDev = s.pool.bDev ∧ s'.pool.bBlocknr = s.pool.bBlocknr := by
  unfold Buffers.brelse BufferPool.brelse at hs
  split_ifs at hs
  · cases hs
  · cases hs
    exact ⟨rfl, rfl⟩

/-- Only the end of a `getblk` that has taken a buffer gives buffers other blocks. -/
theorem Sound.identity [Fintype P] (hn : Fintype.card P < n) (h : Sound s) (hstep : BufferStep s e s') :
    (s'.pool.bDev = s.pool.bDev ∧ s'.pool.bBlocknr = s.pool.bBlocknr ∧ ∀ x r b given, e ≠ .finish x r b given) ∨
      ∃ x r tmp given, e = .finish x r tmp given ∧
        s'.pool.bDev = Function.update s.pool.bDev tmp (if given then r.bDev else 0) ∧
        s'.pool.bBlocknr = Function.update s.pool.bBlocknr tmp (if given then r.bBlocknr else 0) ∧
        (given = true → ∀ b, b ≠ tmp → ¬ s.Out b → s.pool.bDev b ≠ 0 → ¬ s.pool.Matches r.dev r.block b) := by
  cases hstep with
  | @takeClean x r tmp s₁ given _ hx _ hzero _ hs hfinish =>
    obtain ⟨rfl, htook⟩ := h.took hn hx hzero hs
    have htaken : (s.call x).taken = none := by
      rw [hx]
      rfl
    have hcall : ((s.taking x r tmp).call x).taken = some tmp := by
      rw [taking, call_setCall]
      rfl
    obtain ⟨hdev, hblock, hfresh⟩ := htook.finished_identity hcall hfinish
    refine Or.inr ⟨x, r, tmp, given, rfl, hdev, hblock, ?_⟩
    intro hgiven b hne hout
    apply hfresh hgiven b
    rw [out_taking htaken]
    rintro (ho | he)
    · exact hout ho
    · exact hne he
  | @synced x r tmp i given _ hx _ hfinish =>
    have hcall : (s.call x).taken = some tmp := by
      rw [hx]
      rfl
    obtain ⟨hdev, hblock, hfresh⟩ := h.finished_identity hcall hfinish
    exact Or.inr ⟨x, r, tmp, given, rfl, hdev, hblock, fun hgiven b _ hout => hfresh hgiven b hout⟩
  | takeDirty hx _ hzero _ hs =>
    obtain ⟨rfl, _⟩ := h.took hn hx hzero hs
    exact Or.inl ⟨rfl, rfl, by simp⟩
  | changed hx _ _ hs => exact Or.inl ⟨(brelse_identity hs).1, (brelse_identity hs).2, by simp⟩
  | unreadable hx _ _ hs => exact Or.inl ⟨(brelse_identity hs).1, (brelse_identity hs).2, by simp⟩
  | brelse hx _ _ hs => exact Or.inl ⟨(brelse_identity hs).1, (brelse_identity hs).2, by simp⟩
  | _ => exact Or.inl ⟨rfl, rfl, by simp⟩

/-- Devices and blocks that their fields can hold; device 0 is that of free buffers. -/
def Fits (r : BlockRequest) : Prop := r.dev.toNat ≠ 0 ∧ r.dev.toNat < 2 ^ 16 ∧ r.block.toNat < 2 ^ 16

lemma Fits.fields {r : BlockRequest} (h : Fits r) :
    r.bDev.setWidth 32 = r.dev ∧ r.bBlocknr.setWidth 32 = r.block ∧ r.bDev ≠ 0 := by
  obtain ⟨hpos, hdev, hblock⟩ := h
  have hwiden : ∀ y : BitVec 32, y.toNat < 2 ^ 16 → (y.setWidth 16).setWidth 32 = y := by
    intro y hy
    apply BitVec.eq_of_toNat_eq
    simp
    omega
  refine ⟨hwiden r.dev hdev, hwiden r.block hblock, ?_⟩
  intro hzero
  apply hpos
  rw [← hwiden r.dev hdev]
  have hword : r.dev.setWidth 16 = 0#16 := hzero
  simp [hword]

/-- A buffer that is being written out keeps its block till then. -/
def OneBlock (s : Buffers P n) : BufferEvent P n → Prop
  | .hold _ b => users s.held b < 255
  | .finish _ r tmp _ => Fits r ∧ ∀ b, b ≠ tmp → s.Out b → ¬ s.pool.Matches r.dev r.block b
  | _ => True

omit [DecidableEq P] in
lemma OneBlock.notFull (h : OneBlock s e) : NotFull s e := by
  cases e with
  | hold x b => exact h
  | _ => trivial

def Distinct (s : Buffers P n) : Prop :=
  ∀ b d, s.pool.bDev b ≠ 0 → s.pool.bDev b = s.pool.bDev d → s.pool.bBlocknr b = s.pool.bBlocknr d → b = d

lemma Distinct.step [Fintype P] (hn : Fintype.card P < n) (h : Sound s) (hd : Distinct s) (hok : OneBlock s e)
    (hstep : BufferStep s e s') : Distinct s' := by
  rcases h.identity hn hstep with ⟨hdev, hblock, _⟩ | ⟨x, r, tmp, given, rfl, hdev, hblock, hfresh⟩
  · unfold Distinct
    rw [hdev, hblock]
    exact hd
  · obtain ⟨hfdev, hfblock, _⟩ := hok.1.fields
    -- nobody else has the block that the buffer gets
    have hother : ∀ d, d ≠ tmp → given = true → s.pool.bDev d ≠ 0 → s.pool.bDev d = r.bDev →
        s.pool.bBlocknr d ≠ r.bBlocknr := by
      intro d hne hgiven hnz hd₁ hd₂
      have hmatch : s.pool.Matches r.dev r.block d := by
        constructor
        · rw [hd₁, hfdev]
        · rw [hd₂, hfblock]
      by_cases hout : s.Out d
      · exact hok.2 d hne hout hmatch
      · exact hfresh hgiven d hne hout hnz hmatch
    intro b d hb hdevs hblocks
    rw [hdev] at hb hdevs
    rw [hblock] at hblocks
    by_cases hbt : b = tmp
    · by_cases hdt : d = tmp
      · rw [hbt, hdt]
      · rw [hbt, Function.update_self] at hb hdevs hblocks
        rw [Function.update_of_ne hdt] at hdevs hblocks
        cases given with
        | false => exact absurd rfl hb
        | true => exact absurd hblocks.symm (hother d hdt rfl (hdevs ▸ hb) hdevs.symm)
    · rw [Function.update_of_ne hbt] at hb hdevs hblocks
      by_cases hdt : d = tmp
      · rw [hdt, Function.update_self] at hdevs hblocks
        cases given with
        | false => exact absurd hdevs hb
        | true => exact absurd hblocks (hother b hbt rfl hb hdevs)
      · rw [Function.update_of_ne hdt] at hdevs hblocks
        exact hd b d hb hdevs hblocks

/-- What a `getblk` that gives a buffer back has made of it. -/
lemma Sound.gives [Fintype P] (hn : Fintype.card P < n) (h : Sound s) (hok : OneBlock s e)
    (hstep : BufferStep s e s') {r : BlockRequest} {b : Fin n} (hgives : e.Gives r b) :
    s'.pool.Matches r.dev r.block b := by
  obtain ⟨x, rfl | rfl⟩ := hgives
  · cases hstep with
    | hit _ _ hmatch => exact hmatch
  · rcases h.identity hn hstep with ⟨_, _, hno⟩ | ⟨y, r', tmp, given, he, hdev, hblock, _⟩
    · exact absurd rfl (hno x r b true)
    · cases he
      obtain ⟨hfdev, hfblock, _⟩ := hok.1.fields
      rw [BufferPool.Matches, hdev, hblock, Function.update_self, Function.update_self]
      exact ⟨hfdev, hfblock⟩

end Identity

end Buffers

section Runs

variable {P : Type*} [DecidableEq P] {n : ℕ} [NeZero n]

def bufferSystem (P : Type*) [DecidableEq P] (n : ℕ) [NeZero n] : System (Buffers P n) (BufferEvent P n) where
  init s := (∃ junk, s.pool = BufferPool.bufferInit junk) ∧ (∀ x, s.call x = .outside) ∧ s.held = []
  step := BufferStep

namespace Buffers

variable {s : Buffers P n}

lemma sound_of_init (h : (bufferSystem P n).init s) : Sound s := by
  obtain ⟨⟨junk, hpool⟩, hcall, hheld⟩ := h
  have hout : ∀ b, ¬ s.Out b := by
    rintro b ⟨x, hx⟩
    rw [hcall x] at hx
    cases hx
  refine ⟨?_, ?_, ?_, ?_⟩
  · rw [hpool]
    apply (BufferPool.bufferInit_wellFormed junk).out_congr
    intro b
    exact (iff_false_intro (hout b)).symm
  · intro b
    rw [hpool, hheld]
    rfl
  · intro x b hx
    rw [hcall x] at hx
    cases hx
  · exact fun b hb => absurd hb (hout b)

theorem sound_of_reach [Fintype P] (hn : Fintype.card P < n) (h : (bufferSystem P n).Reach NotFull s) : Sound s :=
  System.Reach.invariant (fun _ => sound_of_init) (fun _ _ _ hs hok hstep => hs.step hn hok hstep) h

lemma distinct_of_reach [Fintype P] (hn : Fintype.card P < n) (h : (bufferSystem P n).Reach OneBlock s) :
    Sound s ∧ Distinct s := by
  refine System.Reach.invariant (I := fun s => Sound s ∧ Distinct s) ?_ ?_ h
  · intro s hinit
    refine ⟨sound_of_init hinit, ?_⟩
    obtain ⟨⟨junk, hpool⟩, _, _⟩ := hinit
    intro b d hb
    rw [hpool] at hb
    exact absurd rfl hb
  · intro s e s' hs hok hstep
    exact ⟨hs.1.step hn hok.notFull hstep, hs.2.step hn hs.1 hok hstep⟩

end Buffers

end Runs

lemma nrTasks_lt {start n : ℕ} (hstart : start + 0x8000 ≤ 0x100000) (hn : n = BufferPool.nrBuffers start) :
    Fintype.card (Fin nrTasks) < n := by
  have hle := BufferPool.le_nrBuffers hstart
  have htasks : nrTasks = 64 := rfl
  rw [Fintype.card_fin]
  omega

section Positions

-- the first block that `block_read` and `block_write` ask for, for a position in the file
def blockOfRead (pos : BitVec 32) : BitVec 32 := pos / 1024

def blockOfWrite (pos : BitVec 32) : BitVec 32 := pos.sdiv 1024

lemma blockOfRead_fits_iff (pos : BitVec 32) : (blockOfRead pos).toNat < 2 ^ 16 ↔ pos.toNat < 2 ^ 26 := by
  have hdiv : (blockOfRead pos).toNat = pos.toNat / 1024 := BitVec.toNat_udiv
  rw [hdiv]
  omega

lemma blockOfWrite_fits_iff (pos : BitVec 32) :
    (blockOfWrite pos).toNat < 2 ^ 16 ↔ -1024 < pos.toInt ∧ pos.toInt < 2 ^ 26 := by
  have hdiv : (blockOfWrite pos).toInt = pos.toInt.tdiv 1024 := by
    apply BitVec.toInt_sdiv_of_ne_or_ne
    right
    decide
  have hnat := (blockOfWrite pos).isLt
  have hint := BitVec.toInt_eq_toNat_cond (blockOfWrite pos)
  have hpos := BitVec.toInt_eq_toNat_cond pos
  rcases Int.le_total 0 pos.toInt with hsign | hsign
  · rw [Int.tdiv_eq_ediv_of_nonneg hsign] at hdiv
    split_ifs at hint
    · omega
    · omega
  · have hneg : pos.toInt.tdiv 1024 = -(-pos.toInt / 1024) := by
      rw [← Int.tdiv_eq_ediv_of_nonneg (by omega), Int.neg_tdiv, Int.neg_neg]
    rw [hneg] at hdiv
    split_ifs at hint
    · omega
    · omega

end Positions

section FirstCall

variable {P : Type*} [DecidableEq P] {n : ℕ} [NeZero n]

def bootBuffers (P : Type*) (n : ℕ) [NeZero n] : Buffers P n where
  pool := BufferPool.bufferInit fun _ => 0
  call _ := .outside
  held := []

lemma bootBuffers_init : (bufferSystem P n).init (bootBuffers P n) := ⟨⟨_, rfl⟩, fun _ => rfl, rfl⟩

/-- The first `getblk` after `buffer_init` takes the first buffer. -/
lemma first_getblk [Fintype P] (hn : Fintype.card P < n) (x : P) (r : BlockRequest) :
    ∃ s s' : Buffers P n,
      (∀ ok : Buffers P n → BufferEvent P n → Prop, (∀ s, ok s (.run x)) → (bufferSystem P n).Reach ok s) ∧
      s.pool = (bootBuffers P n).pool ∧ (∀ b, ¬ s.Out b) ∧
      BufferStep s (.finish x r 0 true) s' ∧ s'.pool.bDev 0 = r.bDev ∧ s'.pool.bBlocknr 0 = r.bBlocknr := by
  obtain ⟨s, hreach, hpool, hcall⟩ : ∃ s : Buffers P n,
      (∀ ok : Buffers P n → BufferEvent P n → Prop, (∀ s, ok s (.run x)) → (bufferSystem P n).Reach ok s) ∧
      s.pool = (bootBuffers P n).pool ∧ s.call = Function.update (fun _ => .outside) x (.scanWait r 0) := by
    let s₁ := (bootBuffers P n).setCall x (.lookup r)
    let s₂ := s₁.setCall x (.scan r 0)
    have hcalled : BufferStep (bootBuffers P n) (.run x) s₁ := .getblk rfl
    have hmissed : BufferStep s₁ (.run x) s₂ := .missed (Buffers.call_setCall _ _ _) rfl rfl
    have hunused : BufferStep s₂ (.run x) (s₂.setCall x (.scanWait r 0)) := .unused (Buffers.call_setCall _ _ _) rfl
    refine ⟨s₂.setCall x (.scanWait r 0), fun ok hok => ?_, rfl, ?_⟩
    · exact .next (.next (.next (.start bootBuffers_init) (hok _) hcalled) (hok _) hmissed) (hok _) hunused
    · simp [s₂, s₁, Buffers.setCall, bootBuffers]
  have hs := Buffers.sound_of_reach hn (hreach Buffers.NotFull fun _ => trivial)
  have hx : s.call x = .scanWait r 0 := by rw [hcall, Function.update_self]
  have htaken : (s.call x).taken = none := by
    rw [hx]
    rfl
  have hzero : s.pool.bCount 0 = 0 := by
    rw [hpool]
    rfl
  obtain ⟨htake, htook⟩ := hs.take (r := r) htaken hzero (Buffers.exists_other hn htaken 0)
  have hcall' : ((s.taking x r 0).call x).taken = some 0 := by
    rw [Buffers.taking, Buffers.call_setCall]
    rfl
  have hfree : ∀ b, s.pool.bDev b = 0 := by
    intro b
    rw [hpool]
    rfl
  rcases htook.finish (r := r) hcall' with ⟨c, _, s', hfinish, _⟩ | ⟨c, s', _, _, _, b, _, hdev, _⟩
  · obtain ⟨hdev, hblock, _⟩ := htook.finished_identity hcall' hfinish
    refine ⟨s, s', hreach, hpool, ?_, ?_, ?_, ?_⟩
    · rintro b ⟨y, hy⟩
      rw [hcall] at hy
      by_cases hyx : y = x
      · rw [hyx, Function.update_self] at hy
        cases hy
      · rw [Function.update_of_ne hyx] at hy
        cases hy
    · refine .takeClean hx ?_ hzero ?_ htake hfinish
      · rw [hpool]
        rfl
      · rw [hpool]
        rfl
    · rw [hdev, Function.update_self, if_pos rfl]
    · rw [hblock, Function.update_self, if_pos rfl]
  · exact absurd (hfree b) hdev

end FirstCall

/-- Every buffer that no `getblk` has taken is once on the ring, and on no chain but that of its block. A link is
written through a null pointer whenever a chain gets its first buffer. -/
theorem buffer_queues {start n : ℕ} [NeZero n] (hstart : start + 0x8000 ≤ 0x100000) (hn : n = BufferPool.nrBuffers start)
    {s : Buffers (Fin nrTasks) n} (h : (bufferSystem (Fin nrTasks) n).Reach Buffers.NotFull s) :
    s.pool.WellFormed s.Out ∧
      (∀ a b, ¬ s.Out a → ¬ s.Out b → (s.pool.bNextFree a = some b ↔ s.pool.bPrevFree b = some a)) ∧
      (∀ a b, ¬ s.Out a → ¬ s.Out b → (s.pool.bNext a = some b ↔ s.pool.bPrev b = some a)) ∧
      ∀ e s', BufferStep s e s' → (s'.pool.nullWrites ≠ s.pool.nullWrites ↔ s.StartsChain e) := by
  have htasks := nrTasks_lt hstart hn
  have hs := Buffers.sound_of_reach htasks h
  refine ⟨hs.queues, ?_, ?_, ?_⟩
  · exact fun a b ha hb => hs.queues.free_inverse ha hb
  · exact fun a b ha hb => hs.queues.hash_inverse ha hb
  · exact fun e s' hstep => hs.nullWrites_iff htasks hstep

instance : NeZero (BufferPool.nrBuffers 0) := by
  have hle := BufferPool.le_nrBuffers (show 0 + 0x8000 ≤ 0x100000 by omega)
  exact ⟨by omega⟩

lemma first_startsChain {P : Type*} [DecidableEq P] {n : ℕ} [NeZero n] {s : Buffers P n} {x : P} {r : BlockRequest}
    (hpool : s.pool = (bootBuffers P n).pool) (hr : r.bDev ≠ 0) : s.StartsChain (.finish x r 0 true) := by
  refine ⟨hr, ?_⟩
  intro b _ _ hdev
  rw [hpool] at hdev
  exact absurd rfl hdev

theorem buffer_queues_first :
    ∃ (s s' : Buffers (Fin nrTasks) (BufferPool.nrBuffers 0)) (e : BufferEvent (Fin nrTasks) _),
      BufferStep s e s' ∧ s.pool.WellFormed s.Out ∧ s'.pool.nullWrites ≠ s.pool.nullWrites := by
  have htasks := nrTasks_lt (show 0 + 0x8000 ≤ 0x100000 by omega) rfl
  obtain ⟨s, s', hreach, hpool, _, hstep, _⟩ := first_getblk htasks 1 ⟨0x301, 5, false⟩
  obtain ⟨hwf, _, _, hiff⟩ := buffer_queues (by omega) rfl (hreach _ fun _ => trivial)
  exact ⟨s, s', _, hstep, hwf, (hiff _ _ hstep).mpr (first_startsChain hpool (by decide))⟩

/-- The first `getblk` finds an empty chain. -/
theorem first_getblk_writes_null :
    ¬ ∀ s e s', (bufferSystem (Fin nrTasks) (BufferPool.nrBuffers 0)).Reach (fun _ _ => True) s →
      BufferStep s e s' → s'.pool.nullWrites = s.pool.nullWrites := by
  intro hall
  have htasks := nrTasks_lt (show 0 + 0x8000 ≤ 0x100000 by omega) rfl
  obtain ⟨s, s', hreach, hpool, _, hstep, _⟩ := first_getblk htasks 1 ⟨0x301, 5, false⟩
  have hs := Buffers.sound_of_reach htasks (hreach Buffers.NotFull fun _ => trivial)
  apply (hs.nullWrites_iff htasks hstep).mpr (first_startsChain hpool (by decide))
  exact hall s _ s' (hreach _ fun _ => trivial) hstep

/-- While every `getblk` that takes a buffer asks for a device and a block of 16 bits, which no buffer still has that is
being written out, a block has one buffer, and `getblk` gives it. -/
theorem one_buffer {start n : ℕ} [NeZero n] (hstart : start + 0x8000 ≤ 0x100000) (hn : n = BufferPool.nrBuffers start)
    {s : Buffers (Fin nrTasks) n} (h : (bufferSystem (Fin nrTasks) n).Reach Buffers.OneBlock s) :
    (∀ b d, s.pool.bDev b ≠ 0 → s.pool.bDev b = s.pool.bDev d → s.pool.bBlocknr b = s.pool.bBlocknr d → b = d) ∧
      ∀ e s' r b, s.OneBlock e → BufferStep s e s' → e.Gives r b → s'.pool.Matches r.dev r.block b := by
  have htasks := nrTasks_lt hstart hn
  obtain ⟨hs, hdistinct⟩ := Buffers.distinct_of_reach htasks h
  exact ⟨hdistinct, fun e s' r b hok hstep hgives => hs.gives htasks hok hstep hgives⟩

theorem one_buffer_first :
    ∃ (s s' : Buffers (Fin nrTasks) (BufferPool.nrBuffers 0)) (e : BufferEvent (Fin nrTasks) _),
      BufferStep s e s' ∧ e.Gives ⟨0x301, 5, false⟩ 0 ∧ s'.pool.Matches 0x301 5 0 := by
  have htasks := nrTasks_lt (show 0 + 0x8000 ≤ 0x100000 by omega) rfl
  obtain ⟨s, s', hreach, hpool, hout, hstep, _⟩ := first_getblk htasks 1 ⟨0x301, 5, false⟩
  have hok : s.OneBlock (.finish 1 ⟨0x301, 5, false⟩ 0 true) :=
    ⟨⟨by decide, by decide, by decide⟩, fun b _ hb => absurd hb (hout b)⟩
  have hgives := (one_buffer (by omega) rfl (hreach _ fun _ => trivial)).2 _ _ _ 0 hok hstep ⟨1, Or.inr rfl⟩
  exact ⟨s, s', _, hstep, ⟨1, Or.inr rfl⟩, hgives⟩

/-- `block_read` at the position 2 ^ 26 gets a buffer of block 0. -/
theorem getblk_cuts_block :
    ¬ ∀ s e s' r b, (bufferSystem (Fin nrTasks) (BufferPool.nrBuffers 0)).Reach (fun _ _ => True) s →
      BufferStep s e s' → e.Gives r b → s'.pool.Matches r.dev r.block b := by
  intro hall
  have htasks := nrTasks_lt (show 0 + 0x8000 ≤ 0x100000 by omega) rfl
  obtain ⟨s, s', hreach, _, _, hstep, _, hblock⟩ := first_getblk htasks 1 ⟨0x301, blockOfRead 0x4000000, true⟩
  have hmatch := hall s _ s' _ 0 (hreach _ fun _ => trivial) hstep ⟨1, Or.inr rfl⟩
  rw [BufferPool.Matches, hblock] at hmatch
  exact absurd hmatch.2 (by decide)

end Devos.Fs
