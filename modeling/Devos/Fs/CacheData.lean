import Devos.Fs.BufferCache
import Devos.Library.WriteBack

/-! The data of the buffers and the disk behind them: through the cache a block reads as it was last written, whatever
is evicted and written back in between. -/

namespace Devos.Fs

open Runs RefCount WriteBack

inductive DiskCommand where
  | read
  | write
  deriving DecidableEq

/-- The buffers with their data, the disk, and the transfers that are under way. -/
structure BlockCache (P : Type*) (n : ℕ) (D : Type*) where
  buffers : Buffers P n
  bData : Fin n → D
  disk : Word → Word → D
  io : Fin n → Option DiskCommand

inductive CacheEvent (P : Type*) (n : ℕ) (D : Type*) where
  | step (e : BufferEvent P n)
  | store (b : Fin n) (dev block : Word) (d : D)
  | forget (b : Fin n) (dev block : Word)
  | load (dev block : Word) (d : D)
  | error (b : Fin n)

section Step

variable {P : Type*} [DecidableEq P] {n : ℕ} {D : Type*}

def SameFlags (s s' : BufferPool n) : BufferEvent P n → Prop
  | .finish _ _ _ _ => s'.bLock = s.bLock
  | _ => s'.bLock = s.bLock ∧ s'.bUptodate = s.bUptodate ∧ s'.bDirt = s.bDirt

/-- The step starts and ends no transfer. -/
structure Idle (s s' : Buffers P n) (e : BufferEvent P n) : Prop where
  flags : SameFlags s.pool s'.pool e
  fetch : ∀ x b, s'.call x ≠ .fetch b
  syncWrite : ∀ x r tmp i, s'.call x = .syncWrite r tmp i → s.call x = .syncWrite r tmp i

namespace BlockCache

variable (s : BlockCache P n D)

def start (x : P) (b : Fin n) (cmd : DiskCommand) (c : BufferCall n) : BlockCache P n D :=
  { s with
    buffers := Buffers.setCall { s.buffers with pool := s.buffers.pool.startIO b true } x c
    io := Function.update s.io b (some cmd) }

/-- The end of a transfer, with the flags that the interrupt sets. -/
def done (b : Fin n) (uptodate dirt : Bool) : BlockCache P n D :=
  { s with
    buffers := { s.buffers with pool := (s.buffers.pool.setLock b false).setState b uptodate dirt }
    io := Function.update s.io b none }

def setState (b : Fin n) (uptodate dirt : Bool) : BlockCache P n D :=
  { s with buffers := { s.buffers with pool := s.buffers.pool.setState b uptodate dirt } }

end BlockCache

/-- `bread` goes on from `getblk` without sleeping. A caller who has a buffer changes it and marks it dirty, or marks
it clean as `free_block` does. -/
inductive CacheStep : BlockCache P n D → CacheEvent P n D → BlockCache P n D → Prop
  | idle {s e b'} : BufferStep s.buffers e b' → Idle s.buffers b' e → CacheStep s (.step e) { s with buffers := b' }
  | bread {s e mid x b} : BufferStep s.buffers e mid → mid.call x = .fetch b →
      CacheStep s (.step e) (BlockCache.start { s with buffers := mid } x b .read (.fetchWait b))
  | syncWrite {s x r tmp} {i : Fin n} : s.buffers.call x = .syncWait r tmp i → s.buffers.pool.bLock i = false →
      s.buffers.pool.bDirt i = true → CacheStep s (.step (.run x)) (s.start x i .write (.syncWrite r tmp i))
  -- `sys_sync`
  | write {s x b} : s.buffers.call x = .outside → s.buffers.pool.bLock b = false → s.buffers.pool.bDirt b = true →
      CacheStep s (.step (.run x)) (s.start x b .write .outside)
  | readIntr {s b} : s.io b = some .read → CacheStep s (.step (.disk b))
      { s.done b true false with
        bData := Function.update s.bData b (s.disk (s.buffers.pool.bDev b) (s.buffers.pool.bBlocknr b)) }
  | writeIntr {s b} : s.io b = some .write → CacheStep s (.step (.disk b))
      { s.done b true false with
        disk := fun dev block => if dev = s.buffers.pool.bDev b ∧ block = s.buffers.pool.bBlocknr b then s.bData b
          else s.disk dev block }
  | badRwIntr {s b cmd} : s.io b = some cmd → CacheStep s (.error b) (s.done b false (s.buffers.pool.bDirt b))
  | modify {s x b d} : s.buffers.call x = .outside → (x, b) ∈ s.buffers.held →
      CacheStep s (.store b (s.buffers.pool.bDev b) (s.buffers.pool.bBlocknr b) d)
        { s.setState b true true with bData := Function.update s.bData b d }
  | forget {s x b} : s.buffers.call x = .outside → (x, b) ∈ s.buffers.held →
      CacheStep s (.forget b (s.buffers.pool.bDev b) (s.buffers.pool.bBlocknr b))
        (s.setState b (s.buffers.pool.bUptodate b) false)
  | look {s x b} : s.buffers.call x = .outside → (x, b) ∈ s.buffers.held → s.buffers.pool.bUptodate b = true →
      CacheStep s (.load (s.buffers.pool.bDev b) (s.buffers.pool.bBlocknr b) (s.bData b)) s

/-- Device 0 stands for none. -/
abbrev BlockKey := { dev : Word // dev ≠ 0 } × Word

def blockKey (dev block : Word) : Option BlockKey := if h : dev ≠ 0 then some (⟨dev, h⟩, block) else none

def CacheEvent.access : CacheEvent P n D → Access BlockKey D
  | .store _ dev block d => (blockKey dev block).elim .silent fun k => .store k d
  | .forget _ dev block => (blockKey dev block).elim .silent .forget
  | .load dev block d => (blockKey dev block).elim .silent fun k => .load k d
  | _ => .silent

end Step

namespace BlockCache

variable {P : Type*} [DecidableEq P] {n : ℕ} {D : Type*} {s s' : BlockCache P n D} {m : Mapping BlockKey D}

def Clean (pool : BufferPool n) (b : Fin n) : Prop := pool.bDirt b = false ∧ pool.bLock b = false

/-- `sync_dev` has seen to the buffer that the call has taken when it is behind it. -/
def Passed (pool : BufferPool n) : BufferCall n → Prop
  | .sync _ tmp i => tmp < i → Clean pool tmp
  | .syncWait _ tmp i => tmp < i → Clean pool tmp
  | .syncWrite _ tmp i => (tmp < i → Clean pool tmp) ∧ (tmp = i → pool.bLock tmp = false → pool.bDirt tmp = false)
  | _ => True

/-- A buffer is locked while a transfer of it is under way. -/
structure Transfers (s : BlockCache P n D) : Prop where
  locked : ∀ b, s.buffers.pool.bLock b = (s.io b).isSome
  uptodate : ∀ b cmd, s.io b = some cmd → s.buffers.pool.bUptodate b = decide (cmd = .write)
  dirty : ∀ b, s.buffers.pool.bDirt b = true → s.buffers.pool.bUptodate b = true

structure Settled (s : BlockCache P n D) : Prop extends s.Transfers where
  sound : s.buffers.Sound
  distinct : s.buffers.Distinct
  fetch : ∀ x b, s.buffers.call x ≠ .fetch b
  passed : ∀ x, Passed s.buffers.pool (s.buffers.call x)

def view (s : BlockCache P n D) : Cache (Fin n) BlockKey D where
  holds b key := s.buffers.pool.bDev b = key.1 ∧ s.buffers.pool.bBlocknr b = key.2
  value := s.bData
  valid b := s.buffers.pool.bUptodate b = true
  dirty b := s.buffers.pool.bDirt b = true
  back key := s.disk key.1 key.2

section Passing

variable {pool pool' : BufferPool n} {c : BufferCall n} {b : Fin n}

lemma Passed.congr (h : Passed pool c)
    (hflags : ∀ tmp, c.taken = some tmp → pool'.bDirt tmp = pool.bDirt tmp ∧ pool'.bLock tmp = pool.bLock tmp) :
    Passed pool' c := by
  cases c with
  | sync r tmp i =>
    obtain ⟨hdirt, hlock⟩ := hflags tmp rfl
    intro hi
    rw [Clean, hdirt, hlock]
    exact h hi
  | syncWait r tmp i =>
    obtain ⟨hdirt, hlock⟩ := hflags tmp rfl
    intro hi
    rw [Clean, hdirt, hlock]
    exact h hi
  | syncWrite r tmp i =>
    obtain ⟨hdirt, hlock⟩ := hflags tmp rfl
    rw [Passed, Clean, hdirt, hlock]
    exact h
  | _ => trivial

-- only a dirty buffer is written
lemma Passed.started (h : Passed pool c) (hb : c.taken = some b → pool.bDirt b = true) :
    Passed (pool.startIO b true) c := by
  by_cases htaken : c.taken = some b
  · have hdirt := hb htaken
    have hno : ¬ Clean pool b := by
      rintro ⟨hclean, _⟩
      rw [hdirt] at hclean
      cases hclean
    cases c with
    | sync r tmp i =>
      cases htaken
      exact fun hi => absurd (h hi) hno
    | syncWait r tmp i =>
      cases htaken
      exact fun hi => absurd (h hi) hno
    | syncWrite r tmp i =>
      cases htaken
      refine ⟨fun hi => absurd (h.1 hi) hno, fun _ hclear => ?_⟩
      simp [BufferPool.startIO, BufferPool.setLock] at hclear
    | _ => trivial
  · apply h.congr
    intro tmp htmp
    have hne : tmp ≠ b := by
      rintro rfl
      exact htaken htmp
    exact ⟨rfl, Function.update_of_ne hne _ _⟩

lemma Passed.done (h : Passed pool c) (uptodate : Bool) :
    Passed ((pool.setLock b false).setState b uptodate false) c := by
  by_cases htaken : c.taken = some b
  · have hclean : Clean ((pool.setLock b false).setState b uptodate false) b :=
      ⟨Function.update_self _ _ _, Function.update_self _ _ _⟩
    cases c with
    | sync r tmp i =>
      cases htaken
      exact fun _ => hclean
    | syncWait r tmp i =>
      cases htaken
      exact fun _ => hclean
    | syncWrite r tmp i =>
      cases htaken
      exact ⟨fun _ => hclean, fun _ _ => hclean.1⟩
    | _ => trivial
  · apply h.congr
    intro tmp htmp
    have hne : tmp ≠ b := by
      rintro rfl
      exact htaken htmp
    exact ⟨Function.update_of_ne hne _ _, Function.update_of_ne hne _ _⟩

lemma Passed.of_taken (h : c.taken = none) : Passed pool c := by
  cases c with
  | sync _ _ _ => cases h
  | syncWait _ _ _ => cases h
  | syncWrite _ _ _ => cases h
  | _ => trivial

end Passing

section Steps

variable {b b' : Buffers P n} {e : BufferEvent P n} {x : P}

lemma passed_setCall (h : ∀ y, Passed b.pool (b.call y)) {c : BufferCall n} (hc : Passed b.pool c) (y : P) :
    Passed (b.setCall x c).pool ((b.setCall x c).call y) := by
  by_cases hy : y = x
  · subst hy
    rw [Buffers.call_setCall]
    exact hc
  · rw [Buffers.call_setCall_of_ne b c hy]
    exact h y

/-- The flags after the end of a `getblk` that has taken `tmp`. -/
lemma finished_flags (h : b.Sound) {r : BlockRequest} {tmp : Fin n} {given : Bool}
    (hx : (b.call x).taken = some tmp) (hs : b.finish x r tmp = .ok (given, b')) :
    b'.pool.bUptodate = Function.update b.pool.bUptodate tmp false ∧
      b'.pool.bDirt = Function.update b.pool.bDirt tmp false ∧ b'.pool.bLock = b.pool.bLock := by
  rcases h.finish (r := r) hx with ⟨c, _, s₁, hrun, _, hpool⟩ | ⟨c, s₁, hrun, _, hpool, _⟩
  · rw [hrun] at hs
    cases hs
    rw [hpool]
    exact ⟨rfl, rfl, rfl⟩
  · rw [hrun] at hs
    cases hs
    rw [hpool]
    exact ⟨rfl, rfl, rfl⟩

lemma finished_calls {r : BlockRequest} {tmp : Fin n} {given : Bool} (hs : b.finish x r tmp = .ok (given, b')) :
    (∀ y, y ≠ x → b'.call y = b.call y) ∧ b'.call x = if given then b'.pool.afterGetblk r tmp else .lookup r := by
  unfold Buffers.finish at hs
  cases hf : b.pool.finish r tmp with
  | error f =>
    rw [hf] at hs
    cases hs
  | ok p =>
    obtain ⟨given', pool⟩ := p
    rw [hf] at hs
    cases given' with
    | false =>
      cases hs
      exact ⟨fun y hy => Buffers.call_setCall_of_ne _ _ hy, Buffers.call_setCall _ _ _⟩
    | true =>
      cases hs
      exact ⟨fun y hy => Buffers.call_setCall_of_ne _ _ hy, Buffers.call_setCall _ _ _⟩

lemma finished_passed (h : b.Sound) {r : BlockRequest} {tmp : Fin n} {given : Bool}
    (hp : ∀ y, Passed b.pool (b.call y)) (hx : (b.call x).taken = some tmp)
    (hs : b.finish x r tmp = .ok (given, b')) (y : P) : Passed b'.pool (b'.call y) := by
  obtain ⟨_, hdirt, hlock⟩ := finished_flags h hx hs
  obtain ⟨hother, hcall⟩ := finished_calls hs
  by_cases hy : y = x
  · subst hy
    apply Passed.of_taken
    rw [hcall]
    split_ifs
    · exact (Buffers.after_taken _ r tmp).1
    · rfl
  · rw [hother y hy]
    apply (hp y).congr
    intro t ht
    have hne : t ≠ tmp := by
      rintro rfl
      exact hy (h.out_unique (h.owned y t (Buffers.uses_of_taken ht)) hx)
    rw [hdirt, hlock, Function.update_of_ne hne]
    exact ⟨rfl, rfl⟩

lemma brelse_flags {d : Fin n} (hs : b.brelse x d = .ok b') :
    b'.pool.bDirt = b.pool.bDirt ∧ b'.pool.bLock = b.pool.bLock ∧ b'.call = b.call := by
  unfold Buffers.brelse BufferPool.brelse at hs
  split_ifs at hs
  · cases hs
  · cases hs
    exact ⟨rfl, rfl, rfl⟩

lemma released_passed (hp : ∀ y, Passed b.pool (b.call y)) {d : Fin n} (hs : b.brelse x d = .ok b')
    {c : BufferCall n} (hc : c.taken = none) (y : P) : Passed (b'.setCall x c).pool ((b'.setCall x c).call y) := by
  obtain ⟨hdirt, hlock, hcall⟩ := brelse_flags hs
  apply passed_setCall _ (Passed.of_taken hc)
  intro y
  rw [hcall]
  exact (hp y).congr fun t _ => by rw [hdirt, hlock]; exact ⟨rfl, rfl⟩

lemma taking_passed (hp : ∀ y, Passed b.pool (b.call y)) (r : BlockRequest) (tmp : Fin n) (y : P) :
    Passed (b.taking x r tmp).pool ((b.taking x r tmp).call y) := by
  unfold Buffers.taking
  apply passed_setCall
  · exact fun y => (hp y).congr fun t _ => ⟨rfl, rfl⟩
  · exact fun hi => absurd hi (Nat.not_lt_zero _)

/-- `sync_dev` passes the taken buffer only when it is clean. -/
lemma step_passed [Fintype P] (hn : Fintype.card P < n) (h : b.Sound) (hp : ∀ y, Passed b.pool (b.call y))
    (hfetch : ∀ x d, b.call x ≠ .fetch d) (hstep : BufferStep b e b') (hflags : SameFlags b.pool b'.pool e)
    (hwrite : ∀ x r tmp i, e = .run x → b'.call x = .syncWrite r tmp i → b.call x = .syncWrite r tmp i) (y : P) :
    Passed b'.pool (b'.call y) := by
  cases hstep with
  | getblk _ => exact passed_setCall hp (by trivial) y
  | @lookup x r d hx _ =>
    refine passed_setCall (b := b.hold x d) ?_ (by trivial) y
    exact fun y => (hp y).congr fun t _ => ⟨rfl, rfl⟩
  | hit _ _ _ => exact passed_setCall hp (Passed.of_taken (Buffers.after_taken _ _ _).1) y
  | changed _ _ _ hs => exact released_passed hp hs rfl y
  | missed _ _ _ => exact passed_setCall hp (by trivial) y
  | unused _ _ => exact passed_setCall hp (by trivial) y
  | busy _ _ _ =>
    refine passed_setCall hp ?_ y
    split_ifs <;> trivial
  | wake _ => exact passed_setCall hp (by trivial) y
  | takeDirty hx _ hzero _ hs =>
    obtain ⟨rfl, _⟩ := h.took hn hx hzero hs
    exact taking_passed hp _ _ y
  | takeClean hx _ hzero _ hs hfinish =>
    obtain ⟨rfl, htook⟩ := h.took hn hx hzero hs
    refine finished_passed htook (taking_passed hp _ _) ?_ hfinish y
    rw [Buffers.taking, Buffers.call_setCall]
    rfl
  | @syncSkip x r tmp i hx hdev =>
    have hpassed := hp x
    rw [hx] at hpassed
    refine passed_setCall hp ?_ y
    intro hi
    apply hpassed
    have hne : (tmp : ℕ) ≠ i := fun he => hdev (by rw [Fin.ext he])
    omega
  | @syncWait x r tmp i hx _ =>
    have hpassed := hp x
    rw [hx] at hpassed
    refine passed_setCall hp ?_ y
    exact hpassed
  | @syncClean x r tmp i hx hlock hdirt =>
    have hpassed := hp x
    rw [hx] at hpassed
    refine passed_setCall hp ?_ y
    intro hi
    by_cases he : tmp = i
    · rw [he]
      exact ⟨hdirt, hlock⟩
    · apply hpassed
      have hne : (tmp : ℕ) ≠ i := fun h => he (Fin.ext h)
      omega
  | @syncWrite x r tmp _ i hx _ _ =>
    have hcall := hwrite x r tmp i rfl (Buffers.call_setCall _ _ _)
    rw [hx] at hcall
    cases hcall
  | @syncNext x r tmp i hx hlock =>
    have hpassed := hp x
    rw [hx] at hpassed
    refine passed_setCall hp ?_ y
    intro hi
    by_cases he : tmp = i
    · subst he
      exact ⟨hpassed.2 rfl hlock, hlock⟩
    · apply hpassed.1
      have hne : (tmp : ℕ) ≠ i := fun h => he (Fin.ext h)
      omega
  | synced hx _ hfinish =>
    refine finished_passed h hp ?_ hfinish y
    rw [hx]
    rfl
  | fetch hx => exact absurd hx (hfetch _ _)
  | fetched _ _ _ => exact passed_setCall hp (by trivial) y
  | unreadable _ _ _ hs => exact released_passed hp hs rfl y
  | brelse _ _ _ hs => exact released_passed hp hs rfl y
  | modify _ _ => exact (hp y).congr fun t _ => ⟨congrFun hflags.2.2 t, congrFun hflags.1 t⟩
  | write _ _ _ => exact (hp y).congr fun t _ => ⟨congrFun hflags.2.2 t, congrFun hflags.1 t⟩
  | interrupt _ => exact (hp y).congr fun t _ => ⟨congrFun hflags.2.2 t, congrFun hflags.1 t⟩

lemma fetch_of_setCall {c : BufferCall n} {d : Fin n} {y : P} (hc : ∀ d, c ≠ .fetch d)
    (hx : (b.setCall y c).call x = .fetch d) : b.call x = .fetch d := by
  by_cases hy : x = y
  · subst hy
    rw [Buffers.call_setCall] at hx
    exact absurd hx (hc d)
  · rwa [Buffers.call_setCall_of_ne b c hy] at hx

lemma fetch_of_taking {r : BlockRequest} {tmp d : Fin n} {y z : P} (hx : (b.taking z r tmp).call y = .fetch d) :
    b.call y = .fetch d := by
  unfold Buffers.taking at hx
  exact fetch_of_setCall (by simp) hx

lemma finished_fetch {r : BlockRequest} {tmp d : Fin n} {given : Bool} {y : P}
    (hs : b.finish y r tmp = .ok (given, b')) (hfetch : ∀ x d, b.call x ≠ .fetch d) (hx : b'.call x = .fetch d) :
    x = y ∧ d = tmp ∧ given = true := by
  obtain ⟨hother, hcall⟩ := finished_calls hs
  by_cases hy : x = y
  · subst hy
    rw [hcall] at hx
    unfold BufferPool.afterGetblk at hx
    split_ifs at hx with hgiven
    cases hx
    exact ⟨rfl, rfl, hgiven⟩
  · rw [hother x hy] at hx
    exact absurd hx (hfetch _ _)

/-- A buffer changes its block only while it is clean and no transfer of it is under way. -/
lemma finish_flags [Fintype P] (hn : Fintype.card P < n) (h : b.Sound) (hp : ∀ y, Passed b.pool (b.call y))
    {r : BlockRequest} {tmp : Fin n} {given : Bool} (hstep : BufferStep b (.finish x r tmp given) b') :
    Clean b.pool tmp ∧ b'.pool.bUptodate = Function.update b.pool.bUptodate tmp false ∧
      b'.pool.bDirt = Function.update b.pool.bDirt tmp false ∧ b'.pool.bLock = b.pool.bLock := by
  cases hstep with
  | takeClean hcall hlock hzero hdirt hs hfinish =>
    obtain ⟨rfl, htook⟩ := h.took hn hcall hzero hs
    refine ⟨⟨hdirt, hlock⟩, finished_flags htook ?_ hfinish⟩
    rw [Buffers.taking, Buffers.call_setCall]
    rfl
  | @synced _ _ _ i _ _ hcall hi hfinish =>
    have hpassed := hp x
    rw [hcall] at hpassed
    refine ⟨hpassed (by omega), finished_flags h ?_ hfinish⟩
    rw [hcall]
    rfl

/-- A `bread` that has to read has just got its buffer. -/
lemma fetch_origin [Fintype P] (hn : Fintype.card P < n) (h : b.Sound) (hfetch : ∀ x d, b.call x ≠ .fetch d)
    (hstep : BufferStep b e b') {d : Fin n} (hx : b'.call x = .fetch d) :
    ((∃ r, e = .found x r d) ∧ b'.pool = b.pool ∧ b.pool.bLock d = false ∧ b.pool.bUptodate d = false) ∨
      ∃ r, e = .finish x r d true := by
  cases hstep with
  | getblk _ => exact absurd (fetch_of_setCall (by simp) hx) (hfetch _ _)
  | lookup _ _ => exact absurd (fetch_of_setCall (by simp) hx) (hfetch _ _)
  | @hit y r t hcall hlock hmatch =>
    by_cases hy : x = y
    · subst hy
      rw [Buffers.call_setCall] at hx
      unfold BufferPool.afterGetblk at hx
      split_ifs at hx with hread
      cases hx
      exact Or.inl ⟨⟨r, rfl⟩, rfl, hlock, hread.2⟩
    · rw [Buffers.call_setCall_of_ne b _ hy] at hx
      exact absurd hx (hfetch _ _)
  | changed _ _ _ hs =>
    have hcall := fetch_of_setCall (by simp) hx
    rw [(brelse_flags hs).2.2] at hcall
    exact absurd hcall (hfetch _ _)
  | missed _ _ _ => exact absurd (fetch_of_setCall (by simp) hx) (hfetch _ _)
  | unused _ _ => exact absurd (fetch_of_setCall (by simp) hx) (hfetch _ _)
  | busy _ _ _ =>
    refine absurd (fetch_of_setCall ?_ hx) (hfetch _ _)
    intro d
    split_ifs <;> simp
  | wake _ => exact absurd (fetch_of_setCall (by simp) hx) (hfetch _ _)
  | takeDirty hcall _ hzero _ hs =>
    obtain ⟨rfl, _⟩ := h.took hn hcall hzero hs
    exact absurd (fetch_of_taking hx) (hfetch _ _)
  | takeClean hcall _ hzero _ hs hfinish =>
    obtain ⟨rfl, _⟩ := h.took hn hcall hzero hs
    obtain ⟨rfl, rfl, rfl⟩ := finished_fetch hfinish (fun _ _ hc => hfetch _ _ (fetch_of_taking hc)) hx
    exact Or.inr ⟨_, rfl⟩
  | syncSkip _ _ => exact absurd (fetch_of_setCall (by simp) hx) (hfetch _ _)
  | syncWait _ _ => exact absurd (fetch_of_setCall (by simp) hx) (hfetch _ _)
  | syncClean _ _ _ => exact absurd (fetch_of_setCall (by simp) hx) (hfetch _ _)
  | syncWrite _ _ _ => exact absurd (fetch_of_setCall (by simp) hx) (hfetch _ _)
  | syncNext _ _ => exact absurd (fetch_of_setCall (by simp) hx) (hfetch _ _)
  | synced hcall _ hfinish =>
    obtain ⟨rfl, rfl, rfl⟩ := finished_fetch hfinish hfetch hx
    exact Or.inr ⟨_, rfl⟩
  | fetch _ => exact absurd (fetch_of_setCall (by simp) hx) (hfetch _ _)
  | fetched _ _ _ => exact absurd (fetch_of_setCall (by simp) hx) (hfetch _ _)
  | unreadable _ _ _ hs =>
    have hcall := fetch_of_setCall (by simp) hx
    rw [(brelse_flags hs).2.2] at hcall
    exact absurd hcall (hfetch _ _)
  | brelse _ _ _ hs =>
    have hcall := fetch_of_setCall (by simp) hx
    rw [(brelse_flags hs).2.2] at hcall
    exact absurd hcall (hfetch _ _)
  | modify _ _ => exact absurd hx (hfetch _ _)
  | write _ _ _ => exact absurd hx (hfetch _ _)
  | interrupt _ => exact absurd hx (hfetch _ _)

end Steps

section Transferring

variable {b : Fin n} {x : P} {c : BufferCall n} {cmd : DiskCommand}

lemma Transfers.start (h : s.Transfers) (huptodate : s.buffers.pool.bUptodate b = decide (cmd = .write)) :
    (s.start x b cmd c).Transfers := by
  refine ⟨?_, ?_, h.dirty⟩
  · intro d
    change Function.update s.buffers.pool.bLock b (s.buffers.pool.bLock b || true) d =
      (Function.update s.io b (some cmd) d).isSome
    by_cases hd : d = b
    · subst hd
      simp
    · rw [Function.update_of_ne hd, Function.update_of_ne hd, h.locked d]
  · intro d cmd' hio
    change Function.update s.io b (some cmd) d = some cmd' at hio
    change s.buffers.pool.bUptodate d = _
    by_cases hd : d = b
    · subst hd
      rw [Function.update_self] at hio
      cases hio
      exact huptodate
    · rw [Function.update_of_ne hd] at hio
      exact h.uptodate d cmd' hio

omit [DecidableEq P] in
lemma Transfers.setState (h : s.Transfers) (hclear : s.io b = none) {uptodate dirt : Bool}
    (hdirt : dirt = true → uptodate = true) : (s.setState b uptodate dirt).Transfers := by
  refine ⟨h.locked, ?_, ?_⟩
  · intro d cmd hio
    have hd : d ≠ b := by
      rintro rfl
      rw [show s.io d = some cmd from hio] at hclear
      cases hclear
    exact (Function.update_of_ne hd _ _).trans (h.uptodate d cmd hio)
  · intro d hd
    change Function.update s.buffers.pool.bDirt b dirt d = true at hd
    change Function.update s.buffers.pool.bUptodate b uptodate d = true
    by_cases he : d = b
    · subst he
      rw [Function.update_self] at hd ⊢
      exact hdirt hd
    · rw [Function.update_of_ne he] at hd ⊢
      exact h.dirty d hd

omit [DecidableEq P] in
lemma Transfers.unlock (h : s.Transfers) (b : Fin n) :
    Transfers { s with
      buffers := { s.buffers with pool := s.buffers.pool.setLock b false }
      io := Function.update s.io b none } := by
  refine ⟨?_, ?_, h.dirty⟩
  · intro d
    change Function.update s.buffers.pool.bLock b false d = (Function.update s.io b none d).isSome
    by_cases hd : d = b
    · subst hd
      simp
    · rw [Function.update_of_ne hd, Function.update_of_ne hd, h.locked d]
  · intro d cmd hio
    by_cases hd : d = b
    · subst hd
      simp at hio
    · exact h.uptodate d cmd ((Function.update_of_ne hd _ _).symm.trans hio)

omit [DecidableEq P] in
lemma Transfers.congr (h : s.Transfers) (hbuffers : s'.buffers = s.buffers) (hio : s'.io = s.io) : s'.Transfers := by
  refine ⟨?_, ?_, ?_⟩
  all_goals rw [hbuffers]
  · rw [hio]
    exact h.locked
  · rw [hio]
    exact h.uptodate
  · exact h.dirty

omit [DecidableEq P] in
lemma Transfers.done (h : s.Transfers) : (s.done b true false).Transfers :=
  (h.unlock b).setState (Function.update_self _ _ _) fun hd => by cases hd

lemma Transfers.buffers [Fintype P] (h : s.Transfers) (hn : Fintype.card P < n) (hsound : s.buffers.Sound)
    (hp : ∀ y, Passed s.buffers.pool (s.buffers.call y)) {e : BufferEvent P n} {mid : Buffers P n}
    (hstep : BufferStep s.buffers e mid) (hflags : SameFlags s.buffers.pool mid.pool e) :
    Transfers { s with buffers := mid } := by
  have hlock : mid.pool.bLock = s.buffers.pool.bLock := by
    cases e with
    | finish _ _ _ _ => exact hflags
    | _ => exact hflags.1
  refine ⟨fun d => (congrFun hlock d).trans (h.locked d), ?_, ?_⟩
  · intro d cmd hio
    cases e with
    | finish y r tmp given =>
      obtain ⟨⟨_, hclear⟩, huptodate, _⟩ := finish_flags hn hsound hp hstep
      have hd : d ≠ tmp := by
        rintro rfl
        rw [h.locked, show s.io d = some cmd from hio] at hclear
        cases hclear
      change mid.pool.bUptodate d = _
      rw [huptodate, Function.update_of_ne hd]
      exact h.uptodate d cmd hio
    | _ => exact (congrFun hflags.2.1 d).trans (h.uptodate d cmd hio)
  · intro d hd
    cases e with
    | finish y r tmp given =>
      obtain ⟨_, huptodate, hdirt, _⟩ := finish_flags hn hsound hp hstep
      change mid.pool.bDirt d = true at hd
      change mid.pool.bUptodate d = true
      rw [hdirt] at hd
      rw [huptodate]
      by_cases he : d = tmp
      · subst he
        rw [Function.update_self] at hd
        cases hd
      · rw [Function.update_of_ne he] at hd ⊢
        exact h.dirty d hd
    | _ =>
      exact (congrFun hflags.2.1 d).trans (h.dirty d ((congrFun hflags.2.2 d).symm.trans hd))

end Transferring

section Invariant

variable [Fintype P] {e : BufferEvent P n} {b : Buffers P n}

/-- A caller changes buffers only while they are not locked, and no transfer fails. -/
def Orderly (s : BlockCache P n D) : CacheEvent P n D → Prop
  | .step e => s.buffers.OneBlock e
  | .store b _ _ _ => s.buffers.pool.bLock b = false
  | .forget b _ _ => s.buffers.pool.bLock b = false
  | .load _ _ _ => True
  | .error _ => False

variable {x : P} {d : Fin n}

/-- Between the `getblk` of a `bread` and its `ll_rw_block`. -/
lemma Settled.opened (h : s.Settled) (hn : Fintype.card P < n) (hok : s.buffers.OneBlock e)
    (hstep : BufferStep s.buffers e b) (hx : b.call x = .fetch d) :
    SameFlags s.buffers.pool b.pool e ∧ b.Sound ∧ b.Distinct ∧ b.pool.bLock d = false ∧ b.pool.bUptodate d = false ∧
      (∀ y, Passed b.pool (b.call y)) ∧ ∀ y c, y ≠ x → b.call y ≠ .fetch c := by
  have hsound := h.sound.step hn hok.notFull hstep
  have hmem : (x, d) ∈ b.held := by
    apply hsound.owned
    rw [hx]
    rfl
  have hmore : SameFlags s.buffers.pool b.pool e ∧ b.pool.bLock d = false ∧ b.pool.bUptodate d = false ∧
      ∀ y, e ≠ .run y := by
    rcases fetch_origin hn h.sound h.fetch hstep hx with ⟨⟨r, rfl⟩, hpool, hlock, huptodate⟩ | ⟨r, rfl⟩
    · rw [hpool]
      exact ⟨⟨rfl, rfl, rfl⟩, hlock, huptodate, by simp⟩
    · obtain ⟨hclean, huptodate, _, hlock⟩ := finish_flags hn h.sound h.passed hstep
      refine ⟨hlock, ?_, ?_, by simp⟩
      · rw [hlock]
        exact hclean.2
      · rw [huptodate, Function.update_self]
  obtain ⟨hflags, hlock, huptodate, hrun⟩ := hmore
  refine ⟨hflags, hsound, h.distinct.step hn h.sound hok hstep, hlock, huptodate, ?_, ?_⟩
  · exact step_passed hn h.sound h.passed h.fetch hstep hflags fun y _ _ _ he => absurd he (hrun y)
  · intro y c hy hc
    rcases fetch_origin hn h.sound h.fetch hstep hx with ⟨⟨r, he⟩, _⟩ | ⟨r, he⟩ <;>
      rcases fetch_origin hn h.sound h.fetch hstep hc with ⟨⟨r', he'⟩, _⟩ | ⟨r', he'⟩ <;>
      simp_all

omit [Fintype P] in
lemma setCall_self {b : Buffers P n} {c : BufferCall n} (hx : b.call x = c) : b.setCall x c = b := by
  subst hx
  simp [Buffers.setCall]

lemma Settled.of_step (h : s.Settled) (hn : Fintype.card P < n) (hok : s.buffers.OneBlock e)
    (hstep : BufferStep s.buffers e s'.buffers) (htransfers : s'.Transfers)
    (hfetch : ∀ x b, s'.buffers.call x ≠ .fetch b) (hpassed : ∀ x, Passed s'.buffers.pool (s'.buffers.call x)) :
    s'.Settled :=
  ⟨htransfers, h.sound.step hn hok.notFull hstep, h.distinct.step hn h.sound hok hstep, hfetch, hpassed⟩

omit [DecidableEq P] [Fintype P] in
lemma Settled.clear (h : s.Settled) {b : Fin n} (hlock : s.buffers.pool.bLock b = false) : s.io b = none := by
  rw [h.locked] at hlock
  exact Option.not_isSome_iff_eq_none.mp (by simp [hlock])

omit [Fintype P] in
-- a buffer that its holder changes is not the one that a `getblk` writes out
lemma Settled.held_passed (h : s.Settled) {b : Fin n} (hx : s.buffers.call x = .outside)
    (hheld : (x, b) ∈ s.buffers.held) (uptodate dirt : Bool) (y : P) :
    Passed (s.setState b uptodate dirt).buffers.pool ((s.setState b uptodate dirt).buffers.call y) := by
  apply (h.passed y).congr
  intro tmp htmp
  have hne : tmp ≠ b := by
    rintro rfl
    rw [← h.sound.out_unique hheld htmp, hx] at htmp
    cases htmp
  exact ⟨Function.update_of_ne hne _ _, rfl⟩

theorem Settled.step (h : s.Settled) (hn : Fintype.card P < n) {e : CacheEvent P n D} (hok : s.Orderly e)
    (hstep : CacheStep s e s') : s'.Settled := by
  cases hstep with
  | idle hstep hidle =>
    refine h.of_step hn hok hstep (h.toTransfers.buffers hn h.sound h.passed hstep hidle.flags) hidle.fetch ?_
    exact step_passed hn h.sound h.passed h.fetch hstep hidle.flags fun y r tmp i _ => hidle.syncWrite y r tmp i
  | @bread e mid x b hstep hx =>
    obtain ⟨hflags, hsound, hdistinct, hlock, huptodate, hpassed, hothers⟩ := h.opened hn hok hstep hx
    have htransfers := h.toTransfers.buffers hn h.sound h.passed hstep hflags
    have hfetch : BufferStep mid (.run x)
        (Buffers.setCall { mid with pool := mid.pool.startIO b true } x (.fetchWait b)) := .fetch hx
    have hroom : Buffers.NotFull mid (.run x) := trivial
    refine ⟨htransfers.start huptodate, hsound.step hn hroom hfetch, hdistinct, ?_, ?_⟩
    · intro y c hy
      have hold := fetch_of_setCall (by simp) hy
      by_cases he : y = x
      · subst he
        change (Buffers.setCall _ y _).call y = _ at hy
        rw [Buffers.call_setCall] at hy
        cases hy
      · exact hothers y c he hold
    · apply passed_setCall _ (by trivial)
      intro y
      apply (hpassed y).started
      intro htaken
      have hmem : (x, b) ∈ mid.held := by
        apply hsound.owned
        rw [hx]
        rfl
      rw [← hsound.out_unique hmem htaken, hx] at htaken
      cases htaken
  | @syncWrite x r tmp i hx hlock hdirt =>
    have hwrite : BufferStep s.buffers (.run x)
        (Buffers.setCall { s.buffers with pool := s.buffers.pool.startIO i true } x (.syncWrite r tmp i)) :=
      .syncWrite hx hlock hdirt
    refine h.of_step (e := .run x) hn trivial hwrite (h.toTransfers.start (h.dirty i hdirt)) ?_ ?_
    · exact fun y c hy => h.fetch y c (fetch_of_setCall (by simp) hy)
    · have hpassed := h.passed x
      rw [hx] at hpassed
      apply passed_setCall (fun y => (h.passed y).started fun _ => hdirt)
      have hstarted := hpassed.started (b := i) fun _ => hdirt
      refine ⟨hstarted, ?_⟩
      intro he hclear
      rw [Fin.ext he] at hclear
      simp [BufferPool.startIO, BufferPool.setLock] at hclear
  | @write x b hx hlock hdirt =>
    have hself : (s.start x b .write .outside).buffers =
        { s.buffers with pool := s.buffers.pool.startIO b true } := setCall_self hx
    refine h.of_step (e := .run x) hn trivial ?_ (h.toTransfers.start (h.dirty b hdirt)) ?_ ?_
    · rw [hself]
      exact .write hx hlock hdirt
    · rw [hself]
      exact h.fetch
    · rw [hself]
      exact fun y => (h.passed y).started fun _ => hdirt
  | @readIntr b hio =>
    refine h.of_step (e := .disk b) hn trivial (.interrupt ?_) (h.toTransfers.done.congr rfl rfl) h.fetch
      fun y => (h.passed y).done true
    rw [h.locked, hio]
    rfl
  | @writeIntr b hio =>
    refine h.of_step (e := .disk b) hn trivial (.interrupt ?_) (h.toTransfers.done.congr rfl rfl) h.fetch
      fun y => (h.passed y).done true
    rw [h.locked, hio]
    rfl
  | badRwIntr _ => exact hok.elim
  | @modify x b d hx hheld =>
    have hclear := h.clear hok
    refine h.of_step (e := .run x) hn trivial (.modify hx hheld) ?_ h.fetch (h.held_passed hx hheld true true)
    exact (h.toTransfers.setState hclear fun _ => rfl).congr rfl rfl
  | @forget x b hx hheld =>
    have hclear := h.clear hok
    refine h.of_step (e := .run x) hn trivial (.modify hx hheld) ?_ h.fetch (h.held_passed hx hheld _ false)
    exact h.toTransfers.setState hclear fun hd => by cases hd
  | look _ _ _ => exact h

end Invariant

section Agreement

variable {b : Fin n} {key : BlockKey} {buffers : Buffers P n}

omit [DecidableEq P] in
lemma Settled.view_distinct (h : s.Settled) : s.view.Distinct := by
  refine ⟨fun c c' key hc hc' => ?_, fun c key key' hk hk' => ?_⟩
  · exact h.distinct c c' (by rw [hc.1]; exact key.1.2) (hc.1.trans hc'.1.symm) (hc.2.trans hc'.2.symm)
  · exact Prod.ext (Subtype.ext (hk.1.symm.trans hk'.1)) (hk.2.symm.trans hk'.2)

/-- A buffer takes another block only while it is clean, and is not up to date then. -/
lemma agrees_step [Fintype P] (h : s.view.Agrees m) (hs : s.Settled) (hn : Fintype.card P < n) {e : BufferEvent P n}
    (hstep : BufferStep s.buffers e buffers) (hflags : SameFlags s.buffers.pool buffers.pool e) :
    (view { s with buffers := buffers }).Agrees m := by
  rcases hs.sound.identity hn hstep with ⟨hdev, hblock, hno⟩ | ⟨x, r, tmp, given, rfl, hdev, hblock, _⟩
  · have hsame : buffers.pool.bUptodate = s.buffers.pool.bUptodate ∧ buffers.pool.bDirt = s.buffers.pool.bDirt := by
      cases e with
      | finish x r tmp given => exact absurd rfl (hno x r tmp given)
      | _ => exact hflags.2
    have hview : view { s with buffers := buffers } = s.view := by
      unfold view
      rw [hdev, hblock, hsame.1, hsame.2]
    rwa [hview]
  · obtain ⟨hclean, huptodate, hdirt, _⟩ := finish_flags hn hs.sound hs.passed hstep
    have hholds : ∀ c key, c ≠ tmp → ((view { s with buffers := buffers }).holds c key ↔ s.view.holds c key) := by
      intro c key hc
      change buffers.pool.bDev c = _ ∧ buffers.pool.bBlocknr c = _ ↔ _
      rw [hdev, hblock, Function.update_of_ne hc, Function.update_of_ne hc]
      rfl
    refine h.keep (fun c key hk hvalid => ?_) (fun c key hk hd => ?_) rfl
    · change buffers.pool.bUptodate c = true at hvalid
      rw [huptodate] at hvalid
      have hc : c ≠ tmp := by
        rintro rfl
        rw [Function.update_self] at hvalid
        cases hvalid
      rw [Function.update_of_ne hc] at hvalid
      exact ⟨(hholds c key hc).mp hk, hvalid, rfl⟩
    · have hc : c ≠ tmp := by
        rintro rfl
        exact Bool.false_ne_true (hclean.1.symm.trans hd)
      refine ⟨(hholds c key hc).mpr hk, ?_⟩
      change buffers.pool.bDirt c = true
      rw [hdirt, Function.update_of_ne hc]
      exact hd

lemma update_true {f : Fin n → Bool} {c : Fin n} (h : Function.update f b true c = true) : c = b ∨ f c = true := by
  by_cases hc : c = b
  · exact Or.inl hc
  · exact Or.inr ((Function.update_of_ne hc true f).symm.trans h)

lemma update_dirty {f : Fin n → Bool} {c : Fin n} (h : f c = true) : Function.update f b true c = true := by
  by_cases hc : c = b
  · rw [hc, Function.update_self]
  · rwa [Function.update_of_ne hc]

omit [DecidableEq P] in
lemma key_of_dev (h : s.buffers.pool.bDev b ≠ 0) :
    s.view.holds b (⟨s.buffers.pool.bDev b, h⟩, s.buffers.pool.bBlocknr b) := ⟨rfl, rfl⟩

omit [DecidableEq P] in
lemma ne_of_holds (hdev : s.buffers.pool.bDev b = 0) {c : Fin n} (hc : s.view.holds c key) : c ≠ b := by
  rintro rfl
  exact key.1.2 (hc.1.symm.trans hdev)

omit [DecidableEq P] in
lemma agrees_read (h : s.view.Agrees m) (hs : s.Settled) (hio : s.io b = some .read) :
    (view { s.done b true false with
      bData := Function.update s.bData b (s.disk (s.buffers.pool.bDev b) (s.buffers.pool.bBlocknr b)) }).Agrees m := by
  have hclean : ¬ s.view.dirty b := by
    intro hd
    have huptodate := hs.dirty b hd
    rw [hs.uptodate b _ hio] at huptodate
    cases huptodate
  have hdirty : ∀ c, s.view.dirty c → Function.update s.buffers.pool.bDirt b false c = true := by
    intro c hd
    rwa [Function.update_of_ne]
    rintro rfl
    exact hclean hd
  by_cases hdev : s.buffers.pool.bDev b = 0
  · refine h.keep (fun c key hk hvalid => ?_) (fun c key hk hd => ⟨hk, hdirty c hd⟩) rfl
    have hc := ne_of_holds hdev hk
    exact ⟨hk, (update_true hvalid).resolve_left hc, Function.update_of_ne hc _ _⟩
  · refine (h.load hs.view_distinct (key_of_dev hdev) hclean).keep (fun c key hk hvalid => ?_)
      (fun c key hk hd => ⟨hk, hdirty c hd⟩) rfl
    exact ⟨hk, update_true hvalid, rfl⟩

omit [DecidableEq P] in
lemma agrees_write (h : s.view.Agrees m) (hs : s.Settled) (hio : s.io b = some .write) :
    (view { s.done b true false with
      disk := fun dev block => if dev = s.buffers.pool.bDev b ∧ block = s.buffers.pool.bBlocknr b then s.bData b
        else s.disk dev block }).Agrees m := by
  have huptodate : s.view.valid b := (hs.uptodate b _ hio).trans rfl
  have hvalid : ∀ c, Function.update s.buffers.pool.bUptodate b true c = true → s.view.valid c := by
    intro c hvalid
    rcases update_true hvalid with rfl | hvalid
    · exact huptodate
    · exact hvalid
  by_cases hdev : s.buffers.pool.bDev b = 0
  · refine h.keep (fun c key hk hv => ⟨hk, hvalid c hv, rfl⟩) (fun c key hk hd => ⟨hk, ?_⟩) ?_
    · exact (Function.update_of_ne (ne_of_holds hdev hk) _ _).trans hd
    · funext key
      exact if_neg fun hkey => key.1.2 (hkey.1.trans hdev)
  · refine (h.flush hs.view_distinct (key_of_dev hdev) huptodate).keep (fun c key hk hv => ⟨hk, hvalid c hv, rfl⟩)
      (fun c key hk hd => ⟨hk, (Function.update_of_ne hd.1 _ _).trans hd.2⟩) ?_
    funext key
    change (if key.1.1 = _ ∧ key.2 = _ then _ else _) = Function.update s.view.back _ (s.view.value b) key
    by_cases hkey : key = (⟨s.buffers.pool.bDev b, hdev⟩, s.buffers.pool.bBlocknr b)
    · rw [hkey, if_pos ⟨rfl, rfl⟩, Function.update_self]
      rfl
    · rw [if_neg fun hboth => hkey (Prod.ext (Subtype.ext hboth.1) hboth.2), Function.update_of_ne hkey]
      rfl

omit [DecidableEq P] in
lemma agrees_modify (h : s.view.Agrees m) (hs : s.Settled) (b : Fin n) (d : D) :
    ∃ m', StoreStep m (CacheEvent.access (P := P) (n := n)
        (.store b (s.buffers.pool.bDev b) (s.buffers.pool.bBlocknr b) d)) m' ∧
      (view { s.setState b true true with bData := Function.update s.bData b d }).Agrees m' := by
  by_cases hdev : s.buffers.pool.bDev b = 0
  · refine ⟨m, ?_, h.keep (fun c key hk hvalid => ?_) (fun c key hk hd => ⟨hk, update_dirty hd⟩) rfl⟩
    · rw [CacheEvent.access, blockKey, dif_neg (not_not.mpr hdev)]
      exact .silent
    · have hc := ne_of_holds hdev hk
      exact ⟨hk, (update_true hvalid).resolve_left hc, Function.update_of_ne hc _ _⟩
  · refine ⟨_, ?_, (h.modify hs.view_distinct (key_of_dev hdev) d).keep
      (fun c key hk hvalid => ⟨hk, update_true hvalid, rfl⟩) (fun c key hk hd => ⟨hk, ?_⟩) rfl⟩
    · rw [CacheEvent.access, blockKey, dif_pos hdev]
      exact .store
    · rcases hd with rfl | hd
      · exact Function.update_self _ _ _
      · exact update_dirty hd

omit [DecidableEq P] in
lemma agrees_forget (h : s.view.Agrees m) (b : Fin n) :
    ∃ m', StoreStep m (CacheEvent.access (P := P) (D := D)
        (.forget b (s.buffers.pool.bDev b) (s.buffers.pool.bBlocknr b))) m' ∧
      (view (s.setState b (s.buffers.pool.bUptodate b) false)).Agrees m' := by
  have hvalid : ∀ c, Function.update s.buffers.pool.bUptodate b (s.buffers.pool.bUptodate b) c = true →
      s.view.valid c := by
    intro c hvalid
    rwa [Function.update_eq_self] at hvalid
  by_cases hdev : s.buffers.pool.bDev b = 0
  · refine ⟨m, ?_, h.keep (fun c key hk hv => ⟨hk, hvalid c hv, rfl⟩) (fun c key hk hd => ⟨hk, ?_⟩) rfl⟩
    · rw [CacheEvent.access, blockKey, dif_neg (not_not.mpr hdev)]
      exact .silent
    · exact (Function.update_of_ne (ne_of_holds hdev hk) _ _).trans hd
  · refine ⟨_, ?_, h.forget (k := (⟨s.buffers.pool.bDev b, hdev⟩, s.buffers.pool.bBlocknr b))
      (fun c key _ hk hv => ⟨hk, hvalid c hv, rfl⟩) (fun c key hne hk hd => ⟨hk, ?_⟩) fun _ _ => rfl⟩
    · rw [CacheEvent.access, blockKey, dif_pos hdev]
      exact .forget
    · refine (Function.update_of_ne ?_ _ _).trans hd
      rintro rfl
      exact hne (Prod.ext (Subtype.ext hk.1.symm) hk.2.symm)

theorem agrees_cacheStep [Fintype P] (h : s.view.Agrees m) (hs : s.Settled) (hn : Fintype.card P < n)
    {e : CacheEvent P n D} (hok : s.Orderly e) (hstep : CacheStep s e s') :
    ∃ m', StoreStep m e.access m' ∧ s'.view.Agrees m' := by
  cases hstep with
  | idle hstep hidle => exact ⟨m, .silent, agrees_step h hs hn hstep hidle.flags⟩
  | bread hstep hx =>
    have hmid := agrees_step h hs hn hstep (hs.opened hn hok hstep hx).1
    exact ⟨m, .silent, hmid⟩
  | syncWrite _ _ _ => exact ⟨m, .silent, h⟩
  | write _ _ _ => exact ⟨m, .silent, h⟩
  | readIntr hio => exact ⟨m, .silent, agrees_read h hs hio⟩
  | writeIntr hio => exact ⟨m, .silent, agrees_write h hs hio⟩
  | badRwIntr _ => exact hok.elim
  | modify _ _ => exact agrees_modify h hs _ _
  | forget _ _ => exact agrees_forget h _
  | @look x b _ _ huptodate =>
    refine ⟨m, ?_, h⟩
    by_cases hdev : s.buffers.pool.bDev b = 0
    · rw [CacheEvent.access, blockKey, dif_neg (not_not.mpr hdev)]
      exact .silent
    · rw [CacheEvent.access, blockKey, dif_pos hdev]
      exact .load fun d hm => h.cached b _ d (key_of_dev hdev) huptodate hm

end Agreement

section Runs

variable [NeZero n]

def cacheSystem (P : Type*) [DecidableEq P] (n : ℕ) [NeZero n] (D : Type*) :
    System (BlockCache P n D) (CacheEvent P n D) where
  init s := (bufferSystem P n).init s.buffers ∧ ∀ b, s.io b = none
  step := CacheStep

variable {s s' : BlockCache P n D}

lemma settled_of_init (h : (cacheSystem P n D).init s) : s.Settled := by
  obtain ⟨hinit, hio⟩ := h
  have hsound := Buffers.sound_of_init hinit
  obtain ⟨⟨junk, hpool⟩, hcall, _⟩ := hinit
  refine ⟨⟨?_, ?_, ?_⟩, hsound, ?_, ?_, ?_⟩
  · intro b
    rw [hpool, hio b]
    rfl
  · intro b cmd hb
    rw [hio b] at hb
    cases hb
  · intro b hb
    rw [hpool] at hb
    cases hb
  · intro b d hb
    rw [hpool] at hb
    exact absurd rfl hb
  · intro x b hx
    rw [hcall x] at hx
    cases hx
  · intro x
    rw [hcall x]
    trivial

lemma agrees_of_init (h : (cacheSystem P n D).init s) :
    s.view.Agrees fun key => some (s.disk key.1 key.2) := by
  obtain ⟨⟨⟨junk, hpool⟩, _⟩, _⟩ := h
  refine ⟨fun b key d hk _ _ => ?_, fun key d _ hm => Option.some.inj hm⟩
  have hdev := hk.1
  rw [hpool] at hdev
  exact absurd hdev.symm key.1.2

/-- After `buffer_init`, with the same data in every block of the disk. -/
def bootCache (P : Type*) (n : ℕ) [NeZero n] (d : D) : BlockCache P n D where
  buffers := bootBuffers P n
  bData _ := d
  disk _ _ := d
  io _ := none

lemma bootCache_init (d : D) : (cacheSystem P n D).init (bootCache P n d) := ⟨bootBuffers_init, fun _ => rfl⟩

lemma setCall_idle {b : Buffers P n} {x : P} {c : BufferCall n} (hfetch : ∀ y d, b.call y ≠ .fetch d)
    (hc : c.uses = none ∨ ∃ d, c = .fetchWait d) : Idle b (b.setCall x c) (.run x) ∧
      ∀ y d, (b.setCall x c).call y ≠ .fetch d := by
  have hnot : (∀ d, c ≠ .fetch d) ∧ ∀ r tmp i, c ≠ .syncWrite r tmp i := by
    refine ⟨?_, ?_⟩ <;> rintro _ <;> intros <;> rintro rfl <;> simp [BufferCall.uses] at hc
  have hnext : ∀ y d, (b.setCall x c).call y ≠ .fetch d := fun y d hy => hfetch y d (fetch_of_setCall hnot.1 hy)
  refine ⟨⟨⟨rfl, rfl, rfl⟩, hnext, ?_⟩, hnext⟩
  intro y r tmp i hy
  by_cases hyx : y = x
  · subst hyx
    rw [Buffers.call_setCall] at hy
    exact absurd hy (hnot.2 r tmp i)
  · rwa [Buffers.call_setCall_of_ne b c hyx] at hy

lemma trace_idle {c : BlockCache P n D} {es : List (CacheEvent P n D)} {b' : Buffers P n} {x : P}
    (h : System.Trace (cacheSystem P n D) Orderly s es c) (hstep : BufferStep c.buffers (.run x) b')
    (hidle : Idle c.buffers b' (.run x)) :
    System.Trace (cacheSystem P n D) Orderly s (es ++ [.step (.run x)]) { c with buffers := b' } :=
  h.snoc (a := CacheEvent.step (.run x)) trivial (CacheStep.idle hstep hidle)

/-- A `bread` that has to read, its interrupt, and the look of its caller at the data. -/
lemma bread_look [Fintype P] (hn : Fintype.card P < n) {c : BlockCache P n D} {es : List (CacheEvent P n D)}
    (h : System.Trace (cacheSystem P n D) Orderly s es c) (hs : s.Settled) {e : BufferEvent P n} {mid : Buffers P n}
    (hok : c.buffers.OneBlock e) (hstep : BufferStep c.buffers e mid) {x : P} {b : Fin n} (hx : mid.call x = .fetch b) :
    ∃ e' s', System.Trace (cacheSystem P n D) Orderly s
      (es ++ [.step e] ++ [.step e'] ++ [.step (.run x)] ++ [.load (mid.pool.bDev b) (mid.pool.bBlocknr b) (s'.bData b)])
      s' := by
  have h₁ := h.snoc (a := CacheEvent.step e) hok (CacheStep.bread hstep hx)
  generalize hc₁ : BlockCache.start { c with buffers := mid } x b .read (.fetchWait b) = c₁ at h₁
  have hio : c₁.io b = some .read := by
    rw [← hc₁]
    exact Function.update_self _ _ _
  have h₂ := h₁.snoc (a := CacheEvent.step (.disk b)) trivial (CacheStep.readIntr hio)
  have hs₂ := h₂.invariant (fun _ _ _ hs hok hstep => Settled.step hs hn hok hstep) hs
  have hcall : c₁.buffers.call x = .fetchWait b := by
    rw [← hc₁]
    exact Buffers.call_setCall _ _ _
  have hfetched : BufferStep (c₁.done b true false).buffers (.run x) _ :=
    .fetched hcall (Function.update_self _ _ _) (Function.update_self _ _ _)
  have h₃ := trace_idle h₂ hfetched (setCall_idle hs₂.fetch (Or.inl rfl)).1
  have hheld := hs₂.sound.owned x b (congrArg BufferCall.uses hcall)
  have hlook := CacheStep.look (b := b) (x := x) (s := { c₁.done b true false with
    buffers := (c₁.done b true false).buffers.setCall x .outside
    bData := Function.update c₁.bData b (c₁.disk (c₁.buffers.pool.bDev b) (c₁.buffers.pool.bBlocknr b)) })
    (Buffers.call_setCall _ _ _) hheld (Function.update_self _ _ _)
  have h₄ := h₃.snoc (a := CacheEvent.load _ _ _) trivial hlook
  subst hc₁
  exact ⟨_, _, h₄⟩

/-- The first `bread`, up to the look at the data. -/
lemma first_bread [Fintype P] (hn : Fintype.card P < n) (x : P) (d : D) :
    ∃ (es : List (BufferEvent P n)) (s' : BlockCache P n D), System.Trace (cacheSystem P n D) Orderly (bootCache P n d)
      (es.map CacheEvent.step ++ [.load 0x301 5 (s'.bData 0)]) s' := by
  let r : BlockRequest := ⟨0x301, 5, true⟩
  let b₁ := (bootBuffers P n).setCall x (.lookup r)
  let b₂ := b₁.setCall x (.scan r 0)
  let b₃ := b₂.setCall x (.scanWait r 0)
  obtain ⟨hidle₁, hf₁⟩ : Idle (bootBuffers P n) b₁ (.run x) ∧ _ := setCall_idle (fun _ _ hc => by cases hc) (Or.inl rfl)
  obtain ⟨hidle₂, hf₂⟩ : Idle b₁ b₂ (.run x) ∧ _ := setCall_idle hf₁ (Or.inl rfl)
  obtain ⟨hidle₃, hf₃⟩ : Idle b₂ b₃ (.run x) ∧ _ := setCall_idle hf₂ (Or.inl rfl)
  have h₁ : System.Trace (cacheSystem P n D) Orderly (bootCache P n d) _ { bootCache P n d with buffers := b₁ } :=
    trace_idle .nil (.getblk rfl) hidle₁
  have hmissed : BufferStep b₁ (.run x) b₂ := .missed (Buffers.call_setCall _ _ _) rfl rfl
  have hunused : BufferStep b₂ (.run x) b₃ := .unused (Buffers.call_setCall _ _ _) rfl
  have h₂ := trace_idle h₁ hmissed hidle₂
  have h₃ := trace_idle h₂ hunused hidle₃
  have hs₃ : Settled (D := D) { bootCache P n d with buffers := b₃ } :=
    h₃.invariant (fun _ _ _ hs hok hstep => hs.step hn hok hstep) (settled_of_init (bootCache_init d))
  have hx : b₃.call x = .scanWait r 0 := Buffers.call_setCall _ _ _
  have htaken : (b₃.call x).taken = none := by
    rw [hx]
    rfl
  obtain ⟨htake, htook⟩ := hs₃.sound.take (r := r) htaken rfl (Buffers.exists_other hn htaken 0)
  have hcall : ((b₃.taking x r 0).call x).taken = some 0 := by
    rw [Buffers.taking, Buffers.call_setCall]
    rfl
  rcases htook.finish (r := r) hcall with ⟨c, _, b₄, hfinish, _⟩ | ⟨c, b₄, _, _, _, b, _, hdev, _⟩
  · obtain ⟨hdev, hblock, _⟩ := htook.finished_identity hcall hfinish
    obtain ⟨huptodate, _, _⟩ := finished_flags htook hcall hfinish
    have hfetch : b₄.call x = .fetch 0 := by
      rw [(finished_calls hfinish).2, if_pos rfl, BufferPool.afterGetblk, if_pos]
      exact ⟨rfl, by rw [huptodate, Function.update_self]⟩
    have hok : b₃.OneBlock (.finish x r 0 true) := by
      refine ⟨⟨by decide, by decide, by decide⟩, ?_⟩
      rintro b _ ⟨y, hy⟩
      have hnone : ∀ y, (b₃.call y).taken = none := by
        intro y
        by_cases hyx : y = x
        · rw [hyx, hx]
          rfl
        · simp [b₃, b₂, b₁, Buffers.call_setCall_of_ne _ _ hyx]
          rfl
      rw [hnone y] at hy
      cases hy
    have hgetblk : BufferStep b₃ (.finish x r 0 true) b₄ := .takeClean hx rfl rfl rfl htake hfinish
    obtain ⟨e, s', hread⟩ := bread_look hn h₃ (settled_of_init (bootCache_init d)) hok hgetblk hfetch
    rw [hdev, hblock, Function.update_self, Function.update_self] at hread
    exact ⟨[.run x, .run x, .run x, .finish x r 0 true, e, .run x], s', hread⟩
  · exact absurd rfl hdev

/-- While no two buffers stand for one block, no transfer fails and buffers are changed while they are not locked: what
is read from the buffer of a block is what was last written to it, or what was on the disk at the start. -/
theorem cache_reads_last_written {start : ℕ} (hstart : start + 0x8000 ≤ 0x100000) (hn : n = BufferPool.nrBuffers start)
    {s s' : BlockCache (Fin nrTasks) n D} (hinit : (cacheSystem (Fin nrTasks) n D).init s)
    {es : List (CacheEvent (Fin nrTasks) n D)} (h : System.Trace (cacheSystem (Fin nrTasks) n D) Orderly s es s') :
    s'.view.ReadsLast (fun key => s.disk key.1 key.2) (es.map CacheEvent.access) := by
  have htasks := nrTasks_lt hstart hn
  have hstep : ∀ (c : BlockCache (Fin nrTasks) n D) m e c', c.Settled ∧ c.view.Agrees m → c.Orderly e →
      CacheStep c e c' → ∃ m', StoreStep m e.access m' ∧ c'.Settled ∧ c'.view.Agrees m' := by
    rintro c m e c' ⟨hs, ha⟩ hok hc
    obtain ⟨m', hm, ha'⟩ := agrees_cacheStep ha hs htasks hok hc
    exact ⟨m', hm, hs.step htasks hok hc, ha'⟩
  obtain ⟨m, hm, _, ha⟩ := h.simulates_map (N := storeSystem BlockKey D)
    (R := fun c m => c.Settled ∧ c.view.Agrees m) hstep ⟨settled_of_init hinit, agrees_of_init hinit⟩
  exact ha.readsLast hm

theorem cache_reads_last_written_first :
    ∃ (es : List (CacheEvent (Fin nrTasks) (BufferPool.nrBuffers 0) ℕ)) (s' : BlockCache (Fin nrTasks) _ ℕ),
      (cacheSystem (Fin nrTasks) _ ℕ).Trace Orderly (bootCache _ _ 7) es s' ∧ CacheEvent.load 0x301 5 7 ∈ es := by
  have hstart : 0 + 0x8000 ≤ 0x100000 := by omega
  obtain ⟨es, s', h⟩ := first_bread (nrTasks_lt hstart rfl) (1 : Fin nrTasks) 7
  have hread := cache_reads_last_written hstart rfl (bootCache_init 7) h
  have hdata : s'.bData 0 = 7 := by
    refine hread.first (es.map fun _ => .silent) [] (⟨0x301, by decide⟩, 5) (s'.bData 0) ?_ ?_
    · rw [List.map_append, List.map_map, List.append_nil]
      rfl
    · intro a ha
      obtain ⟨_, _, rfl⟩ := List.mem_map.mp ha
      exact id
  rw [hdata] at h
  exact ⟨_, s', h, List.mem_append_right _ List.mem_cons_self⟩

end Runs

end BlockCache

end Devos.Fs
