import Devos.Fs.BufferQueues
import Devos.Fs.Descriptors
import Devos.Library.RefCount
import Devos.Library.Runs

/-! `getblk`, `bread` and `brelse`. A process may be switched between any two steps; where the code sleeps one step
ends, and what the code does without a check of its own in between is one step. -/

namespace Devos.Fs

open Runs RefCount

/-- A call of `getblk`, or of `bread` when `bread` is set, with its `int` arguments. -/
structure BlockRequest where
  dev : BitVec 32
  block : BitVec 32
  bread : Bool

namespace BlockRequest

variable (r : BlockRequest)

-- the fields have 16 bits
def bDev : Word := r.dev.setWidth 16

def bBlocknr : Word := r.block.setWidth 16

def hash : Fin nrHash := hashFn (r.bDev.setWidth 32) (r.bBlocknr.setWidth 32)

end BlockRequest

inductive BufferCall (n : ℕ) where
  | outside
  | lookup (r : BlockRequest)
  | hashWait (r : BlockRequest) (bh : Fin n)
  | scan (r : BlockRequest) (tmp : Fin n)
  | scanWait (r : BlockRequest) (tmp : Fin n)
  | poolWait (r : BlockRequest)
  -- `sync_dev` at the buffer `i`, in `wait_on_buffer` and in `ll_rw_block`
  | sync (r : BlockRequest) (tmp : Fin n) (i : ℕ)
  | syncWait (r : BlockRequest) (tmp : Fin n) (i : ℕ)
  | syncWrite (r : BlockRequest) (tmp : Fin n) (i : ℕ)
  | fetch (bh : Fin n)
  | fetchWait (bh : Fin n)

namespace BufferCall

variable {n : ℕ}

/-- The buffer that is on no queue because of this call. -/
def taken : BufferCall n → Option (Fin n)
  | .sync _ tmp _ => some tmp
  | .syncWait _ tmp _ => some tmp
  | .syncWrite _ tmp _ => some tmp
  | _ => none

/-- The buffer that the call has counted itself a user of. -/
def uses : BufferCall n → Option (Fin n)
  | .hashWait _ bh => some bh
  | .sync _ tmp _ => some tmp
  | .syncWait _ tmp _ => some tmp
  | .syncWrite _ tmp _ => some tmp
  | .fetch bh => some bh
  | .fetchWait bh => some bh
  | _ => none

end BufferCall

namespace BufferPool

variable {n : ℕ} (s : BufferPool n)

def addUser (b : Fin n) : BufferPool n := { s with bCount := Function.update s.bCount b (s.bCount b + 1) }

def setLock (b : Fin n) (lock : Bool) : BufferPool n := { s with bLock := Function.update s.bLock b lock }

-- `rw_hd` turns blocks down that are not on the disk; else the buffer is locked till the interrupt
def startIO (b : Fin n) (accepted : Bool) : BufferPool n := s.setLock b (s.bLock b || accepted)

def setState (b : Fin n) (uptodate dirt : Bool) : BufferPool n :=
  { s with bUptodate := Function.update s.bUptodate b uptodate, bDirt := Function.update s.bDirt b dirt }

def dropUser (b : Fin n) : BufferPool n := { s with bCount := Function.update s.bCount b (s.bCount b - 1) }

-- from the return of `wait_on_buffer` on
def brelse (b : Fin n) : Except Fault (BufferPool n) :=
  if s.bCount b = 0 then .error .panic else .ok (s.dropUser b)

def assign (tmp : Fin n) (r : BlockRequest) : BufferPool n :=
  { s with
    bDev := Function.update s.bDev tmp r.bDev
    bBlocknr := Function.update s.bBlocknr tmp r.bBlocknr
    bDirt := Function.update s.bDirt tmp false
    bUptodate := Function.update s.bUptodate tmp false }

def vacate (tmp : Fin n) : BufferPool n :=
  { s with
    bDev := Function.update s.bDev tmp 0
    bBlocknr := Function.update s.bBlocknr tmp 0
    bCount := Function.update s.bCount tmp 0 }

/-- `getblk` from "update buffer contents" on; `false` when someone else has beaten it to the block. -/
def finish (r : BlockRequest) (tmp : Fin n) : Except Fault (Bool × BufferPool n) :=
  let s := s.assign tmp r
  match s.findBuffer r.dev r.block with
  | .error f => .error f
  | .ok (some _) => .ok (false, (s.vacate tmp).insertIntoQueues tmp)
  | .ok none => .ok (true, s.insertIntoQueues tmp)

/-- Where the caller of `getblk` goes on: `bread` reads a buffer that is not up to date. -/
def afterGetblk (r : BlockRequest) (b : Fin n) : BufferCall n :=
  if r.bread ∧ s.bUptodate b = false then .fetch b else .outside

end BufferPool

/-- The pool, the calls of the processes, and who has been given which buffers; no code reads `held`. -/
structure Buffers (P : Type*) (n : ℕ) where
  pool : BufferPool n
  call : P → BufferCall n
  held : List (P × Fin n)

namespace Buffers

variable {P : Type*} [DecidableEq P] {n : ℕ} (s : Buffers P n) (x : P)

def setCall (c : BufferCall n) : Buffers P n := { s with call := Function.update s.call x c }

def hold (b : Fin n) : Buffers P n := { s with pool := s.pool.addUser b, held := (x, b) :: s.held }

def drop (b : Fin n) : Buffers P n := { s with pool := s.pool.dropUser b, held := s.held.erase (x, b) }

def brelse (b : Fin n) : Except Fault (Buffers P n) := (s.pool.brelse b).map fun _ => s.drop x b

/-- `getblk` from `tmp->b_count++` on, up to `sync_dev`. -/
def take (r : BlockRequest) (tmp : Fin n) : Except Fault (Buffers P n) :=
  ((s.pool.addUser tmp).removeFromQueues tmp).map fun pool =>
    setCall { s with pool := pool, held := (x, tmp) :: s.held } x (.sync r tmp 0)

def finish (r : BlockRequest) (tmp : Fin n) : Except Fault (Bool × Buffers P n) :=
  (s.pool.finish r tmp).map fun p =>
    if p.1 then (true, setCall { s with pool := p.2 } x (p.2.afterGetblk r tmp))
    else (false, setCall { s with pool := p.2, held := s.held.erase (x, tmp) } x (.lookup r))

def Out (b : Fin n) : Prop := ∃ x, (s.call x).taken = some b

end Buffers

inductive BufferEvent (P : Type*) (n : ℕ) where
  | run (x : P)
  | hold (x : P) (b : Fin n)
  | found (x : P) (r : BlockRequest) (b : Fin n)
  | finish (x : P) (r : BlockRequest) (b : Fin n) (given : Bool)
  | disk (b : Fin n)

/-- The event is the return of a `getblk` with the buffer `b`. -/
def BufferEvent.Gives {P : Type*} {n : ℕ} (e : BufferEvent P n) (r : BlockRequest) (b : Fin n) : Prop :=
  ∃ x, e = .found x r b ∨ e = .finish x r b true

section Step

variable {P : Type*} [DecidableEq P] {n : ℕ}

inductive BufferStep : Buffers P n → BufferEvent P n → Buffers P n → Prop
  | getblk {s x r} : s.call x = .outside → BufferStep s (.run x) (s.setCall x (.lookup r))
  | lookup {s x r b} : s.call x = .lookup r → s.pool.findBuffer r.dev r.block = .ok (some b) →
      BufferStep s (.hold x b) ((s.hold x b).setCall x (.hashWait r b))
  | hit {s x r b} : s.call x = .hashWait r b → s.pool.bLock b = false → s.pool.Matches r.dev r.block b →
      BufferStep s (.found x r b) (s.setCall x (s.pool.afterGetblk r b))
  | changed {s x r b s'} : s.call x = .hashWait r b → s.pool.bLock b = false →
      ¬ s.pool.Matches r.dev r.block b → s.brelse x b = .ok s' → BufferStep s (.run x) (s'.setCall x (.lookup r))
  | missed {s x r tmp} : s.call x = .lookup r → s.pool.findBuffer r.dev r.block = .ok none →
      s.pool.freeList = some tmp → BufferStep s (.run x) (s.setCall x (.scan r tmp))
  | unused {s x r tmp} : s.call x = .scan r tmp → s.pool.bCount tmp = 0 →
      BufferStep s (.run x) (s.setCall x (.scanWait r tmp))
  | busy {s x r tmp t} : s.call x = .scan r tmp ∨ s.call x = .scanWait r tmp ∧ s.pool.bLock tmp = false →
      s.pool.bCount tmp ≠ 0 → s.pool.bNextFree tmp = some t →
      BufferStep s (.run x) (s.setCall x (if s.pool.freeList = some t then .poolWait r else .scan r t))
  | wake {s x r} : s.call x = .poolWait r → BufferStep s (.run x) (s.setCall x (.lookup r))
  | takeDirty {s x r tmp s'} : s.call x = .scanWait r tmp → s.pool.bLock tmp = false → s.pool.bCount tmp = 0 →
      s.pool.bDirt tmp = true → s.take x r tmp = .ok s' → BufferStep s (.run x) s'
  | takeClean {s x r tmp s₁ given s'} : s.call x = .scanWait r tmp → s.pool.bLock tmp = false →
      s.pool.bCount tmp = 0 → s.pool.bDirt tmp = false → s.take x r tmp = .ok s₁ →
      s₁.finish x r tmp = .ok (given, s') → BufferStep s (.finish x r tmp given) s'
  | syncSkip {s x r tmp} {i : Fin n} : s.call x = .sync r tmp i → s.pool.bDev i ≠ s.pool.bDev tmp →
      BufferStep s (.run x) (s.setCall x (.sync r tmp (i + 1)))
  | syncWait {s x r tmp} {i : Fin n} : s.call x = .sync r tmp i → s.pool.bDev i = s.pool.bDev tmp →
      BufferStep s (.run x) (s.setCall x (.syncWait r tmp i))
  | syncClean {s x r tmp} {i : Fin n} : s.call x = .syncWait r tmp i → s.pool.bLock i = false →
      s.pool.bDirt i = false → BufferStep s (.run x) (s.setCall x (.sync r tmp (i + 1)))
  | syncWrite {s x r tmp accepted} {i : Fin n} : s.call x = .syncWait r tmp i → s.pool.bLock i = false →
      s.pool.bDirt i = true →
      BufferStep s (.run x) (Buffers.setCall { s with pool := s.pool.startIO i accepted } x (.syncWrite r tmp i))
  | syncNext {s x r tmp} {i : Fin n} : s.call x = .syncWrite r tmp i → s.pool.bLock i = false →
      BufferStep s (.run x) (s.setCall x (.sync r tmp (i + 1)))
  | synced {s x r tmp i given s'} : s.call x = .sync r tmp i → n ≤ i → s.finish x r tmp = .ok (given, s') →
      BufferStep s (.finish x r tmp given) s'
  | fetch {s x b accepted} : s.call x = .fetch b →
      BufferStep s (.run x) (Buffers.setCall { s with pool := s.pool.startIO b accepted } x (.fetchWait b))
  | fetched {s x b} : s.call x = .fetchWait b → s.pool.bLock b = false → s.pool.bUptodate b = true →
      BufferStep s (.run x) (s.setCall x .outside)
  | unreadable {s x b s'} : s.call x = .fetchWait b → s.pool.bLock b = false → s.pool.bUptodate b = false →
      s.brelse x b = .ok s' → BufferStep s (.run x) (s'.setCall x .outside)
  | brelse {s x b s'} : s.call x = .outside → (x, b) ∈ s.held → s.pool.bLock b = false → s.brelse x b = .ok s' →
      BufferStep s (.run x) (s'.setCall x .outside)
  | modify {s x b uptodate dirt} : s.call x = .outside → (x, b) ∈ s.held →
      BufferStep s (.run x) { s with pool := s.pool.setState b uptodate dirt }
  -- `sys_sync`
  | write {s x b} : s.call x = .outside → s.pool.bLock b = false → s.pool.bDirt b = true →
      BufferStep s (.run x) { s with pool := s.pool.startIO b true }
  | interrupt {s b uptodate dirt} : s.pool.bLock b = true →
      BufferStep s (.disk b) { s with pool := (s.pool.setLock b false).setState b uptodate dirt }

end Step

namespace Buffers

section Invariant

variable {P : Type*} {n : ℕ} {s s' : Buffers P n} {x y : P} {b : Fin n} {c : BufferCall n}

/-- What holds between any two steps: the count of a buffer is the number of its users, and a buffer on no queue
has one user, the call that has taken it. -/
structure Sound (s : Buffers P n) : Prop where
  queues : s.pool.WellFormed s.Out
  count : ∀ b, (s.pool.bCount b).toNat = users s.held b
  owned : ∀ x b, (s.call x).uses = some b → (x, b) ∈ s.held
  alone : ∀ b, s.Out b → users s.held b = 1

lemma uses_of_taken {c : BufferCall n} (h : c.taken = some b) : c.uses = some b := by
  cases c with
  | sync | syncWait | syncWrite => exact h
  | _ => cases h

/-- A change of other data. -/
lemma Sound.setPool (h : Sound s) {pool : BufferPool n} (hl : BufferPool.SameLinks s.pool pool)
    (hdev : pool.bDev = s.pool.bDev) (hblock : pool.bBlocknr = s.pool.bBlocknr)
    (hcount : pool.bCount = s.pool.bCount) : Sound { s with pool := pool } := by
  refine ⟨?_, ?_, h.owned, h.alone⟩
  · apply h.queues.congr hl
    intro b _
    rw [hdev, hblock]
    exact ⟨rfl, rfl⟩
  · intro b
    rw [hcount]
    exact h.count b

lemma Sound.startIO (h : Sound s) (b : Fin n) (accepted : Bool) :
    Sound { s with pool := s.pool.startIO b accepted } :=
  h.setPool ⟨rfl, rfl, rfl, rfl, rfl, rfl⟩ rfl rfl rfl

lemma Sound.count_ne_zero (h : Sound s) (hx : (x, b) ∈ s.held) : s.pool.bCount b ≠ 0 := by
  intro hzero
  have hcount := h.count b
  have hpos := users_pos hx
  rw [hzero] at hcount
  simp at hcount
  omega

lemma Sound.not_out (h : Sound s) (hzero : s.pool.bCount b = 0) : ¬ s.Out b := by
  rintro ⟨y, hy⟩
  exact h.count_ne_zero (h.owned y b (uses_of_taken hy)) hzero

lemma Sound.hold (h : Sound s) (hout : ¬ s.Out b) (hroom : users s.held b < 255) (x : P) : Sound (s.hold x b) := by
  refine ⟨?_, ?_, ?_, ?_⟩
  · apply h.queues.congr
    · exact ⟨rfl, rfl, rfl, rfl, rfl, rfl⟩
    · intro b _
      exact ⟨rfl, rfl⟩
  · intro d
    change (Function.update s.pool.bCount b (s.pool.bCount b + 1) d).toNat = users ((x, b) :: s.held) d
    rw [users_cons]
    by_cases hbd : b = d
    · subst hbd
      have hcount := h.count b
      rw [Function.update_self, if_pos rfl, BitVec.toNat_add]
      simp
      omega
    · rw [Function.update_of_ne (Ne.symm hbd), if_neg hbd]
      exact h.count d
  · intro y d hy
    apply List.mem_cons_of_mem
    exact h.owned y d hy
  · intro d hd
    change users ((x, b) :: s.held) d = 1
    rw [users_cons, if_neg, h.alone d hd]
    rintro rfl
    exact hout hd

variable [DecidableEq P]

@[simp] lemma call_setCall (s : Buffers P n) (x : P) (c : BufferCall n) : (s.setCall x c).call x = c := by
  simp [setCall]

lemma call_setCall_of_ne (s : Buffers P n) (c : BufferCall n) (h : y ≠ x) :
    (s.setCall x c).call y = s.call y := Function.update_of_ne h _ _

lemma out_setCall (h : c.taken = (s.call x).taken) (b : Fin n) : (s.setCall x c).Out b ↔ s.Out b := by
  apply exists_congr
  intro y
  by_cases hy : y = x
  · rw [hy, call_setCall, h]
  · rw [call_setCall_of_ne s c hy]

lemma Sound.setCall (h : Sound s) (huses : ∀ b, c.uses = some b → (x, b) ∈ s.held)
    (htaken : c.taken = (s.call x).taken) : Sound (s.setCall x c) := by
  refine ⟨h.queues.out_congr fun b => (out_setCall htaken b).symm, h.count, ?_, ?_⟩
  · intro y b hy
    by_cases hyx : y = x
    · rw [hyx, call_setCall] at hy
      rw [hyx]
      exact huses b hy
    · rw [call_setCall_of_ne s c hyx] at hy
      exact h.owned y b hy
  · intro b hout
    exact h.alone b ((out_setCall htaken b).mp hout)

lemma Sound.move {c₀ : BufferCall n} (h : Sound s) (hx : s.call x = c₀)
    (huses : ∀ b, c.uses = some b → c₀.uses = some b) (htaken : c.taken = c₀.taken) : Sound (s.setCall x c) := by
  subst hx
  apply h.setCall _ htaken
  intro b hb
  exact h.owned x b (huses b hb)

lemma Sound.out_unique (h : Sound s) (hx : (x, b) ∈ s.held) (hy : (s.call y).taken = some b) : x = y :=
  holder_unique (h.alone b ⟨y, hy⟩) hx (h.owned y b (uses_of_taken hy))

lemma Sound.brelse (h : Sound s) (hx : (x, b) ∈ s.held) : s.brelse x b = .ok (s.drop x b) := by
  rw [Buffers.brelse, BufferPool.brelse, if_neg (h.count_ne_zero hx)]
  rfl

lemma Sound.drop (h : Sound s) (hx : (x, b) ∈ s.held) (htaken : (s.call x).taken = none) (hc : c.uses = none) :
    Sound ((s.drop x b).setCall x c) := by
  have hout : ¬ s.Out b := by
    rintro ⟨y, hy⟩
    rw [← h.out_unique hx hy, htaken] at hy
    cases hy
  have hctaken : c.taken = none := by
    cases hc' : c.taken with
    | none => rfl
    | some d =>
      rw [uses_of_taken hc'] at hc
      cases hc
  have hsame : ∀ d, ((s.drop x b).setCall x c).Out d ↔ s.Out d := by
    intro d
    apply out_setCall
    exact hctaken.trans htaken.symm
  refine ⟨?_, ?_, ?_, ?_⟩
  · apply BufferPool.WellFormed.out_congr _ (fun d => (hsame d).symm)
    apply h.queues.congr
    · exact ⟨rfl, rfl, rfl, rfl, rfl, rfl⟩
    · intro d _
      exact ⟨rfl, rfl⟩
  · intro d
    change (Function.update s.pool.bCount b (s.pool.bCount b - 1) d).toNat = users (s.held.erase (x, b)) d
    have herase := users_erase hx d
    have hd := h.count d
    by_cases hbd : b = d
    · subst hbd
      have hlt := (s.pool.bCount b).isLt
      rw [if_pos rfl] at herase
      rw [Function.update_self, BitVec.toNat_sub]
      simp
      omega
    · rw [Function.update_of_ne (Ne.symm hbd), hd]
      simpa [hbd] using herase.symm
  · intro y d hy
    by_cases hyx : y = x
    · rw [hyx, call_setCall, hc] at hy
      cases hy
    · rw [call_setCall_of_ne _ c hyx] at hy
      apply (List.mem_erase_of_ne _).mpr (h.owned y d hy)
      intro he
      exact hyx (congrArg Prod.fst he)
  · intro d hd
    have hd' := (hsame d).mp hd
    have herase := users_erase hx d
    have hbd : b ≠ d := by
      rintro rfl
      exact hout hd'
    rw [if_neg hbd, h.alone d hd'] at herase
    exact herase

def taking (s : Buffers P n) (x : P) (r : BlockRequest) (tmp : Fin n) : Buffers P n :=
  Buffers.setCall { s with pool := (s.pool.addUser tmp).unlinked tmp, held := (x, tmp) :: s.held } x (.sync r tmp 0)

lemma out_taking {r : BlockRequest} {tmp : Fin n} (htaken : (s.call x).taken = none) (d : Fin n) :
    (s.taking x r tmp).Out d ↔ s.Out d ∨ d = tmp := by
  constructor
  · rintro ⟨y, hy⟩
    by_cases hyx : y = x
    · rw [hyx, taking, call_setCall] at hy
      exact Or.inr (Option.some.inj hy).symm
    · rw [taking, call_setCall_of_ne _ _ hyx] at hy
      exact Or.inl ⟨y, hy⟩
  · rintro (⟨y, hy⟩ | rfl)
    · refine ⟨y, ?_⟩
      rw [taking, call_setCall_of_ne]
      · exact hy
      · rintro rfl
        rw [htaken] at hy
        cases hy
    · refine ⟨x, ?_⟩
      rw [taking, call_setCall]
      rfl

theorem Sound.take (h : Sound s) {r : BlockRequest} {tmp : Fin n} (htaken : (s.call x).taken = none)
    (hzero : s.pool.bCount tmp = 0) (hroom : ∃ d, d ≠ tmp ∧ ¬ s.Out d) :
    s.take x r tmp = .ok (s.taking x r tmp) ∧ Sound (s.taking x r tmp) := by
  have hout := h.not_out hzero
  have hnone : users s.held tmp = 0 := by
    rw [← h.count tmp, hzero]
    rfl
  have hheld := h.hold hout (by omega) x
  obtain ⟨hremove, hwf⟩ := hheld.queues.unlink hout hroom
  constructor
  · have hremove' : (s.pool.addUser tmp).removeFromQueues tmp = .ok ((s.pool.addUser tmp).unlinked tmp) := hremove
    rw [Buffers.take, hremove']
    rfl
  · refine ⟨hwf.out_congr fun d => (out_taking htaken d).symm, hheld.count, ?_, ?_⟩
    · intro y d hy
      by_cases hyx : y = x
      · rw [hyx, taking, call_setCall] at hy
        cases hy
        rw [hyx]
        exact List.mem_cons_self
      · rw [taking, call_setCall_of_ne _ _ hyx] at hy
        exact hheld.owned y d hy
    · intro d hd
      rw [out_taking htaken] at hd
      rcases hd with hd | rfl
      · exact hheld.alone d hd
      · change users ((x, d) :: s.held) d = 1
        rw [users_cons, hnone, if_pos rfl]

lemma finish_spec {pool : BufferPool n} {out : Fin n → Prop} (h : pool.WellFormed out) {tmp : Fin n}
    (htmp : out tmp) (r : BlockRequest) :
    (∃ c, pool.finish r tmp = .ok (true, (pool.assign tmp r).linked tmp c) ∧
      ((pool.assign tmp r).linked tmp c).WellFormed (fun a => out a ∧ a ≠ tmp) ∧
      ∀ b, ¬ out b → pool.bDev b ≠ 0 → ¬ pool.Matches r.dev r.block b) ∨
    ∃ c, pool.finish r tmp = .ok (false, ((pool.assign tmp r).vacate tmp).linked tmp c) ∧
      (((pool.assign tmp r).vacate tmp).linked tmp c).WellFormed (fun a => out a ∧ a ≠ tmp) ∧
      ∃ b, ¬ out b ∧ pool.bDev b ≠ 0 ∧ pool.Matches r.dev r.block b := by
  have hne : ∀ b, ¬ out b → b ≠ tmp := by
    rintro b hb rfl
    exact hb htmp
  have hassign : (pool.assign tmp r).WellFormed out := by
    refine h.congr ⟨rfl, rfl, rfl, rfl, rfl, rfl⟩ ?_
    intro b hb
    exact ⟨Function.update_of_ne (hne b hb) _ _, Function.update_of_ne (hne b hb) _ _⟩
  have hsame : ∀ b, ¬ out b → (pool.assign tmp r).bDev b = pool.bDev b ∧
      (pool.assign tmp r).bBlocknr b = pool.bBlocknr b := by
    intro b hb
    exact ⟨Function.update_of_ne (hne b hb) _ _, Function.update_of_ne (hne b hb) _ _⟩
  unfold BufferPool.finish
  rcases hassign.find r.dev r.block with ⟨b, hfind, hb, hdev, hmatch⟩ | ⟨hfind, hno⟩
  · right
    have hvacate : ((pool.assign tmp r).vacate tmp).WellFormed out := by
      refine hassign.congr ⟨rfl, rfl, rfl, rfl, rfl, rfl⟩ ?_
      intro b hb
      exact ⟨Function.update_of_ne (hne b hb) _ _, Function.update_of_ne (hne b hb) _ _⟩
    obtain ⟨c, hlink, hwf⟩ := hvacate.link htmp
    refine ⟨c, ?_, hwf, b, hb, ?_, ?_⟩
    · simp only [hfind, hlink]
    · rw [(hsame b hb).1] at hdev
      exact hdev
    · rw [BufferPool.Matches, (hsame b hb).1, (hsame b hb).2] at hmatch
      exact hmatch
  · left
    obtain ⟨c, hlink, hwf⟩ := hassign.link htmp
    refine ⟨c, ?_, hwf, ?_⟩
    · simp only [hfind, hlink]
    · intro b hb hdev hmatch
      apply hno b hb
      · rw [(hsame b hb).1]
        exact hdev
      · rw [BufferPool.Matches, (hsame b hb).1, (hsame b hb).2]
        exact hmatch

lemma Sound.out_finish (h : Sound s) {tmp : Fin n} (hx : (s.call x).taken = some tmp) (hc : c.taken = none)
    (pool : BufferPool n) (held : List (P × Fin n)) (d : Fin n) :
    (Buffers.setCall { s with pool := pool, held := held } x c).Out d ↔ s.Out d ∧ d ≠ tmp := by
  constructor
  · rintro ⟨y, hy⟩
    have hyx : y ≠ x := by
      rintro rfl
      rw [call_setCall, hc] at hy
      cases hy
    rw [call_setCall_of_ne _ _ hyx] at hy
    refine ⟨⟨y, hy⟩, ?_⟩
    rintro rfl
    exact hyx (h.out_unique (h.owned x d (uses_of_taken hx)) hy).symm
  · rintro ⟨⟨y, hy⟩, hne⟩
    refine ⟨y, ?_⟩
    rw [call_setCall_of_ne]
    · exact hy
    · rintro rfl
      rw [hx] at hy
      exact hne (Option.some.inj hy).symm

/-- What a call keeps that puts its buffer back on the queues, still in use or not. -/
lemma Sound.putBack (h : Sound s) {tmp : Fin n} (hx : (s.call x).taken = some tmp) (hc : c.taken = none)
    {pool : BufferPool n} {held : List (P × Fin n)} (hwf : pool.WellFormed fun a => s.Out a ∧ a ≠ tmp)
    (hcount : ∀ b, (pool.bCount b).toNat = users held b)
    (hheld : ∀ y b, (y ≠ x ∨ c.uses = some b) → (y, b) ∈ s.held → (y, b) ∈ held)
    (huses : ∀ b, c.uses = some b → b = tmp) (husers : ∀ b, b ≠ tmp → users held b = users s.held b) :
    Sound (Buffers.setCall { s with pool := pool, held := held } x c) := by
  refine ⟨?_, hcount, ?_, ?_⟩
  · exact hwf.out_congr fun d => (h.out_finish hx hc pool held d).symm
  · intro y b hy
    by_cases hyx : y = x
    · rw [hyx, call_setCall] at hy
      rw [hyx]
      apply hheld x b (Or.inr hy)
      rw [huses b hy]
      exact h.owned x tmp (uses_of_taken hx)
    · rw [call_setCall_of_ne _ _ hyx] at hy
      exact hheld y b (Or.inl hyx) (h.owned y b hy)
  · intro b hb
    obtain ⟨hout, hne⟩ := (h.out_finish hx hc pool held b).mp hb
    exact (husers b hne).trans (h.alone b hout)

lemma after_taken (pool : BufferPool n) (r : BlockRequest) (b : Fin n) :
    (pool.afterGetblk r b).taken = none ∧ ∀ d, (pool.afterGetblk r b).uses = some d → d = b := by
  unfold BufferPool.afterGetblk
  split_ifs
  · exact ⟨rfl, fun d hd => (Option.some.inj hd).symm⟩
  · exact ⟨rfl, fun d hd => by cases hd⟩

theorem Sound.finish (h : Sound s) {r : BlockRequest} {tmp : Fin n} (hx : (s.call x).taken = some tmp) :
    (∃ c, (∀ b, ¬ s.Out b → s.pool.bDev b ≠ 0 → ¬ s.pool.Matches r.dev r.block b) ∧
      ∃ s', s.finish x r tmp = .ok (true, s') ∧ Sound s' ∧
        s'.pool = (s.pool.assign tmp r).linked tmp c) ∨
    ∃ c s', s.finish x r tmp = .ok (false, s') ∧ Sound s' ∧
      s'.pool = ((s.pool.assign tmp r).vacate tmp).linked tmp c ∧
      ∃ b, ¬ s.Out b ∧ s.pool.bDev b ≠ 0 ∧ s.pool.Matches r.dev r.block b := by
  have hmem := h.owned x tmp (uses_of_taken hx)
  rcases finish_spec h.queues ⟨x, hx⟩ r with ⟨c, hrun, hwf, hfresh⟩ | ⟨c, hrun, hwf, hfound⟩
  · left
    refine ⟨c, hfresh, _, by rw [Buffers.finish, hrun]; rfl, ?_, rfl⟩
    obtain ⟨htaken, huses⟩ := after_taken ((s.pool.assign tmp r).linked tmp c) r tmp
    apply h.putBack hx htaken hwf h.count
    · exact fun y b _ hy => hy
    · exact huses
    · exact fun b _ => rfl
  · right
    refine ⟨c, _, by rw [Buffers.finish, hrun]; rfl, ?_, rfl, hfound⟩
    apply h.putBack hx rfl hwf
    · intro b
      have herase := users_erase hmem b
      change (Function.update s.pool.bCount tmp 0 b).toNat = _
      by_cases hb : tmp = b
      · subst hb
        rw [h.alone tmp ⟨x, hx⟩, if_pos rfl] at herase
        rw [Function.update_self]
        simp
        omega
      · rw [if_neg hb] at herase
        rw [Function.update_of_ne (Ne.symm hb), h.count b]
        exact herase.symm
    · rintro y b (hyx | hno) hy
      · apply (List.mem_erase_of_ne _).mpr hy
        intro he
        exact hyx (congrArg Prod.fst he)
      · cases hno
    · intro b hb
      cases hb
    · intro b hb
      have herase := users_erase hmem b
      rw [if_neg (Ne.symm hb)] at herase
      exact herase

end Invariant

section Steps

variable {P : Type*} [DecidableEq P] {n : ℕ} {s s' : Buffers P n} {x : P} {e : BufferEvent P n}

/-- The count of a buffer has 8 bits. -/
def NotFull (s : Buffers P n) : BufferEvent P n → Prop
  | .hold _ b => users s.held b < 255
  | _ => True

omit [DecidableEq P] in
/-- While there are fewer processes than buffers the ring never runs out. -/
lemma exists_other [Fintype P] (hn : Fintype.card P < n) (hx : (s.call x).taken = none) (tmp : Fin n) :
    ∃ d, d ≠ tmp ∧ ¬ s.Out d := by
  by_contra hall
  have htaker : ∀ d, ∃ y, (d = tmp ∧ y = x) ∨ (d ≠ tmp ∧ (s.call y).taken = some d) := by
    intro d
    by_cases hd : d = tmp
    · exact ⟨x, Or.inl ⟨hd, rfl⟩⟩
    · have hout : s.Out d := by
        by_contra hout
        exact hall ⟨d, hd, hout⟩
      obtain ⟨y, hy⟩ := hout
      exact ⟨y, Or.inr ⟨hd, hy⟩⟩
  choose taker htaker using htaker
  have hinj : Function.Injective taker := by
    intro d d' he
    rcases htaker d with ⟨hd, hy⟩ | ⟨hd, hy⟩
    · rcases htaker d' with ⟨hd', hy'⟩ | ⟨hd', hy'⟩
      · rw [hd, hd']
      · rw [← he, hy, hx] at hy'
        cases hy'
    · rcases htaker d' with ⟨hd', hy'⟩ | ⟨hd', hy'⟩
      · rw [he, hy', hx] at hy
        cases hy
      · rw [he, hy'] at hy
        exact (Option.some.inj hy).symm
  have hcard := Fintype.card_le_of_injective taker hinj
  rw [Fintype.card_fin] at hcard
  omega

lemma Sound.took [Fintype P] (h : Sound s) (hn : Fintype.card P < n) {r : BlockRequest} {tmp : Fin n}
    (hx : s.call x = .scanWait r tmp) (hzero : s.pool.bCount tmp = 0) (hs : s.take x r tmp = .ok s') :
    s' = s.taking x r tmp ∧ Sound s' := by
  have htaken : (s.call x).taken = none := by
    rw [hx]
    rfl
  obtain ⟨hrun, hsound⟩ := h.take (r := r) htaken hzero (exists_other hn htaken tmp)
  rw [hrun] at hs
  cases hs
  exact ⟨rfl, hsound⟩

lemma Sound.finished (h : Sound s) {r : BlockRequest} {tmp : Fin n} {given : Bool}
    (hx : (s.call x).taken = some tmp) (hs : s.finish x r tmp = .ok (given, s')) : Sound s' := by
  rcases h.finish (r := r) hx with ⟨c, _, s₁, hrun, hsound, _⟩ | ⟨c, s₁, hrun, hsound, _⟩
  · rw [hrun] at hs
    cases hs
    exact hsound
  · rw [hrun] at hs
    cases hs
    exact hsound

lemma Sound.released (h : Sound s) {b : Fin n} {c : BufferCall n} (hheld : (x, b) ∈ s.held)
    (htaken : (s.call x).taken = none) (hc : c.uses = none) (hs : s.brelse x b = .ok s') :
    Sound (s'.setCall x c) := by
  rw [h.brelse hheld] at hs
  cases hs
  exact h.drop hheld htaken hc

theorem Sound.step [Fintype P] (hn : Fintype.card P < n) (h : Sound s) (hok : NotFull s e)
    (hstep : BufferStep s e s') : Sound s' := by
  cases hstep with
  | getblk hx => exact h.move hx (fun _ hb => nomatch hb) rfl
  | @lookup x r b hx hfind =>
    have hout : ¬ s.Out b := by
      rcases h.queues.find r.dev r.block with ⟨d, hrun, hd, _⟩ | ⟨hrun, _⟩
      · rw [hfind] at hrun
        cases hrun
        exact hd
      · rw [hfind] at hrun
        cases hrun
    apply (h.hold hout hok x).setCall
    · intro d hd
      cases hd
      exact List.mem_cons_self
    · change none = (s.call x).taken
      rw [hx]
      rfl
  | @hit x r b hx _ _ =>
    obtain ⟨htaken, huses⟩ := after_taken s.pool r b
    apply h.move hx _ htaken
    intro d hd
    rw [huses d hd]
    rfl
  | changed hx _ _ hs =>
    apply h.released (h.owned _ _ (by rw [hx]; rfl)) (by rw [hx]; rfl) rfl hs
  | missed hx _ _ => exact h.move hx (fun _ hb => nomatch hb) rfl
  | unused hx _ => exact h.move hx (fun _ hb => nomatch hb) rfl
  | @busy x r tmp t hx _ _ =>
    have htaken : (s.call x).taken = none := by
      rcases hx with hx | ⟨hx, _⟩
      · rw [hx]
        rfl
      · rw [hx]
        rfl
    split_ifs
    · exact h.setCall (fun _ hb => nomatch hb) htaken.symm
    · exact h.setCall (fun _ hb => nomatch hb) htaken.symm
  | wake hx => exact h.move hx (fun _ hb => nomatch hb) rfl
  | takeDirty hx _ hzero _ hs => exact (h.took hn hx hzero hs).2
  | takeClean hx _ hzero _ hs hfinish =>
    obtain ⟨rfl, htook⟩ := h.took hn hx hzero hs
    apply htook.finished _ hfinish
    rw [taking, call_setCall]
    rfl
  | syncSkip hx _ => exact h.move hx (fun _ hb => hb) rfl
  | syncWait hx _ => exact h.move hx (fun _ hb => hb) rfl
  | syncClean hx _ _ => exact h.move hx (fun _ hb => hb) rfl
  | syncWrite hx _ _ => exact (h.startIO _ _).move hx (fun _ hb => hb) rfl
  | syncNext hx _ => exact h.move hx (fun _ hb => hb) rfl
  | synced hx _ hfinish =>
    apply h.finished _ hfinish
    rw [hx]
    rfl
  | fetch hx => exact (h.startIO _ _).move hx (fun _ hb => hb) rfl
  | fetched hx _ _ => exact h.move hx (fun _ hb => nomatch hb) rfl
  | unreadable hx _ _ hs => exact h.released (h.owned _ _ (by rw [hx]; rfl)) (by rw [hx]; rfl) rfl hs
  | brelse hx hheld _ hs => exact h.released hheld (by rw [hx]; rfl) rfl hs
  | modify hx hheld => exact h.setPool ⟨rfl, rfl, rfl, rfl, rfl, rfl⟩ rfl rfl rfl
  | write hx _ _ => exact h.setPool ⟨rfl, rfl, rfl, rfl, rfl, rfl⟩ rfl rfl rfl
  | interrupt _ => exact h.setPool ⟨rfl, rfl, rfl, rfl, rfl, rfl⟩ rfl rfl rfl

/-- The event puts a buffer with a device on a hash chain that has no other buffer. -/
def StartsChain (s : Buffers P n) : BufferEvent P n → Prop
  | .finish _ r tmp true => r.bDev ≠ 0 ∧ ∀ b, b ≠ tmp → ¬ s.Out b → s.pool.bDev b ≠ 0 → s.pool.hash b ≠ r.hash
  | _ => False

lemma hash_assign (pool : BufferPool n) (r : BlockRequest) (tmp : Fin n) : (pool.assign tmp r).hash tmp = r.hash := by
  simp [BufferPool.hash, BufferPool.assign, BlockRequest.hash]

lemma Sound.finished_nullWrites (h : Sound s) {r : BlockRequest} {tmp : Fin n} {given : Bool}
    (hx : (s.call x).taken = some tmp) (hs : s.finish x r tmp = .ok (given, s')) :
    s'.pool.nullWrites ≠ s.pool.nullWrites ↔
      given = true ∧ r.bDev ≠ 0 ∧ ∀ b, ¬ s.Out b → s.pool.bDev b ≠ 0 → s.pool.hash b ≠ r.hash := by
  have hnull : ∀ (pool : BufferPool n) (b c : Fin n), (pool.linked b c).nullWrites ≠ pool.nullWrites ↔
      pool.bDev b ≠ 0 ∧ pool.hashTable (pool.hash b) = none := by
    intro pool b c
    simp [BufferPool.linked]
  rcases h.finish (r := r) hx with ⟨c, _, s₁, hrun, _, hpool⟩ | ⟨c, s₁, hrun, _, hpool, _⟩
  · rw [hrun] at hs
    cases hs
    have hdev : (s.pool.assign tmp r).bDev tmp = r.bDev := Function.update_self _ _ _
    have hempty := h.queues.head_none r.hash
    rw [hpool]
    refine (hnull (s.pool.assign tmp r) tmp c).trans ?_
    rw [hdev, hash_assign]
    refine (and_congr_right fun _ => hempty).trans ?_
    exact (and_iff_right rfl).symm
  · rw [hrun] at hs
    cases hs
    have hdev : ((s.pool.assign tmp r).vacate tmp).bDev tmp = 0 := Function.update_self _ _ _
    rw [hpool]
    refine (hnull ((s.pool.assign tmp r).vacate tmp) tmp c).trans ?_
    simp [hdev]

lemma brelse_nullWrites {b : Fin n} (hs : s.brelse x b = .ok s') : s'.pool.nullWrites = s.pool.nullWrites := by
  unfold Buffers.brelse BufferPool.brelse at hs
  split_ifs at hs
  · cases hs
  · cases hs
    rfl

theorem Sound.nullWrites_iff [Fintype P] (hn : Fintype.card P < n) (h : Sound s) (hstep : BufferStep s e s') :
    s'.pool.nullWrites ≠ s.pool.nullWrites ↔ s.StartsChain e := by
  cases hstep with
  | @takeDirty x r tmp _ hx _ hzero _ hs =>
    obtain ⟨rfl, _⟩ := h.took hn hx hzero hs
    simp [taking, StartsChain, Buffers.setCall, BufferPool.unlinked, BufferPool.addUser]
  | @takeClean x r tmp s₁ given _ hx _ hzero _ hs hfinish =>
    obtain ⟨rfl, htook⟩ := h.took hn hx hzero hs
    have htaken : (s.call x).taken = none := by
      rw [hx]
      rfl
    have hcall : ((s.taking x r tmp).call x).taken = some tmp := by
      rw [taking, call_setCall]
      rfl
    refine (htook.finished_nullWrites hcall hfinish).trans ?_
    cases given with
    | false => simp [StartsChain]
    | true =>
      refine (and_iff_right rfl).trans (and_congr_right fun _ => forall_congr' fun b => ?_)
      rw [out_taking htaken, not_or]
      exact ⟨fun hb hne hout => hb ⟨hout, hne⟩, fun hb hout => hb hout.2 hout.1⟩
  | @synced x r tmp i given _ hx _ hfinish =>
    have hcall : (s.call x).taken = some tmp := by
      rw [hx]
      rfl
    refine (h.finished_nullWrites hcall hfinish).trans ?_
    cases given with
    | false => simp [StartsChain]
    | true =>
      refine (and_iff_right rfl).trans (and_congr_right fun _ => forall_congr' fun b => ?_)
      refine ⟨fun hb _ => hb, fun hb hout => hb ?_ hout⟩
      rintro rfl
      exact hout ⟨x, hcall⟩
  | changed hx _ _ hs => simp [StartsChain, Buffers.setCall, brelse_nullWrites hs]
  | unreadable hx _ _ hs => simp [StartsChain, Buffers.setCall, brelse_nullWrites hs]
  | brelse hx hheld _ hs => simp [StartsChain, Buffers.setCall, brelse_nullWrites hs]
  | _ =>
    simp [StartsChain, Buffers.setCall, Buffers.hold, BufferPool.addUser, BufferPool.startIO, BufferPool.setLock,
      BufferPool.setState]

end Steps

end Buffers

end Devos.Fs
