import Devos.Basic
import Devos.Library.Ring
import Devos.Library.Runs
import Mathlib.Tactic.NormNum

/-! Pipes: `read_pipe` and `write_pipe`, switched where they sleep. -/

namespace Devos.Fs

open Runs

/-- A pipe's inode, with the page whose address `i_size` holds. `put` and `taken` are the bytes that
went in and came out so far; no code reads them. -/
structure Pipe where
  page : ℕ → Byte
  head : BitVec 32
  tail : BitVec 32
  iCount : ℕ
  put : List Byte
  taken : List Byte

namespace Pipe

def incPipe (x : BitVec 32) : BitVec 32 := (x + 1) &&& 4095

def size (p : Pipe) : BitVec 32 := (p.head - p.tail) &&& 4095

abbrev Empty (p : Pipe) : Prop := p.head = p.tail

abbrev Full (p : Pipe) : Prop := p.size = 4095

def putByte (p : Pipe) (c : Byte) : Pipe :=
  { p with
    page := Function.update p.page p.head.toNat c
    head := incPipe p.head
    put := p.put ++ [c] }

def takeByte (p : Pipe) : Pipe :=
  { p with
    tail := incPipe p.tail
    taken := p.taken ++ [p.page p.tail.toNat] }

end Pipe

structure Reader where
  pipe : Pipe
  buf : ℕ → Byte
  b : ℕ

def Reader.take (r : Reader) : Reader where
  pipe := r.pipe.takeByte
  buf := Function.update r.buf r.b (r.pipe.page r.pipe.tail.toNat)
  b := r.b + 1

-- `while (count>0 && !(PIPE_EMPTY(*inode)))`
def drain : ℕ → Reader → Reader
  | 0, r => r
  | count + 1, r => if r.pipe.Empty then r else drain count r.take

structure Writer where
  pipe : Pipe
  b : ℕ

def Writer.put (buf : ℕ → Byte) (w : Writer) : Writer := ⟨w.pipe.putByte (buf w.b), w.b + 1⟩

/-- `while (count-->0)` up to the point where the pipe is full; comes back with what is left of the count. -/
def fill (buf : ℕ → Byte) : ℕ → Writer → ℕ × Writer
  | 0, w => (0, w)
  | left + 1, w => if w.pipe.Full then (left + 1, w) else fill buf left (w.put buf)

/-- Where a process stands: asleep in one of the calls, or outside with what its last call gave. -/
inductive Frame where
  | idle
  | reading (buf : ℕ → Byte) (count : ℤ)
  | writing (buf : ℕ → Byte) (b left : ℕ)
  | returned (value : ℤ) (buf : ℕ → Byte) (sigpipe : Bool)

def Frame.Asleep : Frame → Prop
  | .reading _ _ => True
  | .writing _ _ _ => True
  | _ => False

def readPipe (p : Pipe) (buf : ℕ → Byte) (count : ℤ) : Pipe × Frame :=
  if p.Empty then
    if p.iCount ≠ 2 then (p, .returned 0 buf false) else (p, .reading buf count)
  else
    let r := drain count.toNat ⟨p, buf, 0⟩
    (r.pipe, .returned r.b r.buf false)

def writeOn (p : Pipe) (buf : ℕ → Byte) (b left : ℕ) : Pipe × Frame :=
  let (left, w) := fill buf left ⟨p, b⟩
  if left = 0 then (w.pipe, .returned w.b buf false)
  else if w.pipe.iCount ≠ 2 then (w.pipe, .returned w.b buf true)
  else (w.pipe, .writing buf w.b left)

def writePipe (p : Pipe) (buf : ℕ → Byte) (count : ℤ) : Pipe × Frame :=
  if p.iCount ≠ 2 then (p, .returned (-1) buf true) else writeOn p buf 0 count.toNat

def resume (p : Pipe) : Frame → Pipe × Frame
  | .reading buf count => readPipe p buf count
  | .writing buf b left => writeOn p buf b left
  | f => (p, f)

variable {P : Type*} [DecidableEq P]

/-- The processes at one pipe; `moved` has the bytes that the current or last call of each has moved. -/
structure Pipes (P : Type*) where
  pipe : Pipe
  frame : P → Frame
  moved : P → List Byte

/-- What the process `x` leaves when it goes to sleep or returns, its call having moved `before` so far. -/
def Pipes.after (s : Pipes P) (x : P) (before : List Byte) (r : Pipe × Frame) : Pipes P where
  pipe := r.1
  frame := Function.update s.frame x r.2
  moved := Function.update s.moved x
    (before ++ r.1.put.drop s.pipe.put.length ++ r.1.taken.drop s.pipe.taken.length)

inductive PipeEvent (P : Type*) where
  | read (x : P) (buf : ℕ → Byte) (count : ℤ)
  | write (x : P) (buf : ℕ → Byte) (count : ℤ)
  | resume (x : P)
  | close

-- a call runs on the caller's own descriptor, so `i_count` is not 0 then
inductive PipeStep : Pipes P → PipeEvent P → Pipes P → Prop
  | read {s x buf count} : ¬ (s.frame x).Asleep → s.pipe.iCount ≠ 0 →
      PipeStep s (.read x buf count) (s.after x [] (readPipe s.pipe buf count))
  | write {s x buf count} : ¬ (s.frame x).Asleep → s.pipe.iCount ≠ 0 →
      PipeStep s (.write x buf count) (s.after x [] (writePipe s.pipe buf count))
  | resume {s x} : (s.frame x).Asleep → s.pipe.iCount ≠ 0 →
      PipeStep s (.resume x) (s.after x (s.moved x) (Fs.resume s.pipe (s.frame x)))
  | close {s} : s.pipe.iCount ≠ 0 →
      PipeStep s .close { s with pipe := { s.pipe with iCount := s.pipe.iCount - 1 } }

/-- `get_pipe_inode` leaves an empty pipe with a reader and a writer. -/
def pipeSystem (P : Type*) [DecidableEq P] : System (Pipes P) (PipeEvent P) where
  init s := s.pipe.head = 0 ∧ s.pipe.tail = 0 ∧ s.pipe.iCount = 2 ∧ s.pipe.put = [] ∧ s.pipe.taken = [] ∧
    s.frame = (fun _ => .idle) ∧ s.moved = fun _ => []
  step := PipeStep

def Pipe.ring (p : Pipe) : Ring Byte := ⟨p.page, p.head.toNat, p.tail.toNat⟩

/-- Head and tail lie in the page, and what went in is what came out followed by what the page holds. -/
structure Pipe.Fifo (p : Pipe) : Prop where
  inside : p.ring.Inside 4096
  order : p.put = p.taken ++ p.ring.held 4096

section Bytes

variable {p : Pipe}

lemma toNat_and_4095 (x : BitVec 32) : (x &&& 4095).toNat = x.toNat % 4096 := by
  rw [BitVec.toNat_and]
  exact Nat.and_two_pow_sub_one_eq_mod x.toNat 12

lemma toNat_incPipe {x : BitVec 32} (h : x.toNat < 4096) : (Pipe.incPipe x).toNat = (x.toNat + 1) % 4096 := by
  rw [Pipe.incPipe, toNat_and_4095, BitVec.toNat_add]
  change (x.toNat + 1) % 2 ^ 32 % 4096 = _
  rw [Nat.mod_eq_of_lt (show x.toNat + 1 < 2 ^ 32 by omega)]

lemma Pipe.toNat_size (h : p.ring.Inside 4096) : p.size.toNat = p.ring.size 4096 := by
  have hhead : p.head.toNat < 4096 := h.head_lt
  have htail : p.tail.toNat < 4096 := h.tail_lt
  rw [Pipe.size, toNat_and_4095, BitVec.toNat_sub]
  change (2 ^ 32 - p.tail.toNat + p.head.toNat) % 2 ^ 32 % 4096 = (p.head.toNat + 4096 - p.tail.toNat) % 4096
  omega

lemma Pipe.full_iff (h : p.ring.Inside 4096) : p.Full ↔ p.ring.size 4096 = 4095 := by
  rw [← Pipe.toNat_size h, Pipe.Full, ← BitVec.toNat_inj]
  rfl

lemma Pipe.empty_iff : p.Empty ↔ p.ring.head = p.ring.tail := BitVec.toNat_inj.symm

lemma Pipe.ring_putByte (h : p.ring.Inside 4096) (c : Byte) : (p.putByte c).ring = p.ring.push 4096 c := by
  simp only [Pipe.ring, Pipe.putByte, Ring.push, toNat_incPipe h.head_lt]

lemma Pipe.ring_takeByte (h : p.ring.Inside 4096) : p.takeByte.ring = p.ring.pop 4096 := by
  simp only [Pipe.ring, Pipe.takeByte, Ring.pop, toNat_incPipe h.tail_lt]

lemma Pipe.Fifo.putByte (h : p.Fifo) (hfull : ¬ p.Full) (c : Byte) : (p.putByte c).Fifo := by
  have hroom : p.ring.size 4096 ≠ 4096 - 1 := fun hs => hfull ((Pipe.full_iff h.inside).mpr hs)
  constructor
  · rw [Pipe.ring_putByte h.inside]
    exact h.inside.push c
  · rw [Pipe.ring_putByte h.inside, h.inside.held_push hroom, ← List.append_assoc]
    exact congrArg (· ++ [c]) h.order

lemma Pipe.Fifo.takeByte (h : p.Fifo) (hempty : ¬ p.Empty) : p.takeByte.Fifo := by
  have hne : p.ring.head ≠ p.ring.tail := fun he => hempty (Pipe.empty_iff.mpr he)
  constructor
  · rw [Pipe.ring_takeByte h.inside]
    exact h.inside.pop
  · have horder := h.order
    rw [h.inside.held_pop hne] at horder
    rw [Pipe.ring_takeByte h.inside]
    change p.put = p.taken ++ [p.ring.cell p.ring.tail] ++ _
    rw [List.append_assoc, horder]
    rfl

end Bytes

section Loops

variable {p : Pipe} {r : Reader} {w : Writer} {buf : ℕ → Byte} {b : ℕ}

/-- The reader has taken from `p` what it has stored in its buffer. -/
structure Delivered (p : Pipe) (r : Reader) : Prop where
  fifo : r.pipe.Fifo
  put_eq : r.pipe.put = p.put
  taken_eq : r.pipe.taken = p.taken ++ (List.range r.b).map r.buf
  iCount_eq : r.pipe.iCount = p.iCount

lemma Delivered.take (h : Delivered p r) (hempty : ¬ r.pipe.Empty) : Delivered p r.take := by
  refine ⟨h.fifo.takeByte hempty, h.put_eq, ?_, h.iCount_eq⟩
  have hkept : (List.range r.b).map r.take.buf = (List.range r.b).map r.buf := by
    apply List.map_congr_left
    intro k hk
    have hlt := List.mem_range.mp hk
    exact Function.update_of_ne (by omega) _ _
  change r.pipe.taken ++ [_] = p.taken ++ (List.range (r.b + 1)).map r.take.buf
  rw [List.range_succ, List.map_append, hkept, h.taken_eq, List.append_assoc]
  simp [Reader.take]

lemma Delivered.drain (h : Delivered p r) (count : ℕ) : Delivered p (drain count r) := by
  induction count generalizing r with
  | zero => exact h
  | succ count ih =>
    rw [Fs.drain]
    split
    next => exact h
    next hempty => exact ih (h.take hempty)

/-- From the index `b` on, the writer has put into `p` what its buffer has there. -/
structure Filling (p : Pipe) (buf : ℕ → Byte) (b : ℕ) (w : Writer) : Prop where
  fifo : w.pipe.Fifo
  le : b ≤ w.b
  put_eq : w.pipe.put = p.put ++ (List.range' b (w.b - b)).map buf
  taken_eq : w.pipe.taken = p.taken
  iCount_eq : w.pipe.iCount = p.iCount

lemma Filling.put (h : Filling p buf b w) (hfull : ¬ w.pipe.Full) : Filling p buf b (w.put buf) := by
  have hle := h.le
  refine ⟨h.fifo.putByte hfull _, Nat.le_succ_of_le hle, ?_, h.taken_eq, h.iCount_eq⟩
  have hnext : w.b + 1 - b = w.b - b + 1 := by omega
  have hlast : b + (w.b - b) = w.b := by omega
  change w.pipe.put ++ [buf w.b] = p.put ++ (List.range' b (w.b + 1 - b)).map buf
  rw [hnext, List.range'_1_concat, hlast, List.map_append, h.put_eq, List.append_assoc]
  rfl

lemma Filling.fill (h : Filling p buf b w) (left : ℕ) : Filling p buf b (fill buf left w).2 := by
  induction left generalizing w with
  | zero => exact h
  | succ left ih =>
    rw [Fs.fill]
    split
    next => exact h
    next hfull => exact ih (h.put hfull)

end Loops

/-- How a frame agrees with the bytes its call has moved. -/
def Frame.Accounted (iCount : ℕ) (moved : List Byte) : Frame → Prop
  | .idle => True
  | .reading _ _ => moved = []
  | .writing buf b _ => moved = (List.range b).map buf
  | .returned value buf sigpipe =>
    value = moved.length ∧ moved = (List.range moved.length).map buf ∨
      value = -1 ∧ sigpipe = true ∧ moved = [] ∧ iCount ≠ 2

lemma accounted_of_range {iCount b : ℕ} {moved : List Byte} {buf : ℕ → Byte} {sigpipe : Bool}
    (h : moved = (List.range b).map buf) : (Frame.returned b buf sigpipe).Accounted iCount moved := by
  have hlen : moved.length = b := by simp [h]
  exact Or.inl ⟨by rw [hlen], by rw [hlen]; exact h⟩

structure Ran (p : Pipe) (before : List Byte) (r : Pipe × Frame) : Prop where
  fifo : r.1.Fifo
  iCount_eq : r.1.iCount = p.iCount
  accounted : r.2.Accounted p.iCount (before ++ r.1.put.drop p.put.length ++ r.1.taken.drop p.taken.length)

section Calls

variable {p : Pipe} (hp : p.Fifo) (buf : ℕ → Byte)

include hp in
lemma ran_readPipe (count : ℤ) : Ran p [] (readPipe p buf count) := by
  have hsame : ([] : List Byte) ++ p.put.drop p.put.length ++ p.taken.drop p.taken.length = [] := by simp
  unfold readPipe
  split
  · split
    · refine ⟨hp, rfl, ?_⟩
      rw [hsame]
      exact Or.inl ⟨rfl, rfl⟩
    · exact ⟨hp, rfl, hsame⟩
  · have hstart : Delivered p ⟨p, buf, 0⟩ := ⟨hp, rfl, by simp, rfl⟩
    have hr := hstart.drain count.toNat
    refine ⟨hr.fifo, hr.iCount_eq, accounted_of_range ?_⟩
    rw [hr.put_eq, hr.taken_eq, List.drop_length, List.drop_left]
    rfl

include hp in
lemma ran_writeOn (b left : ℕ) : Ran p ((List.range b).map buf) (writeOn p buf b left) := by
  have hstart : Filling p buf b ⟨p, b⟩ := ⟨hp, le_rfl, by simp, rfl, rfl⟩
  have hw := hstart.fill left
  have hle := hw.le
  have hsum : b + ((fill buf left ⟨p, b⟩).2.b - b) = (fill buf left ⟨p, b⟩).2.b := by omega
  have hmoved : (List.range b).map buf ++ (fill buf left ⟨p, b⟩).2.pipe.put.drop p.put.length ++
      (fill buf left ⟨p, b⟩).2.pipe.taken.drop p.taken.length =
        (List.range (fill buf left ⟨p, b⟩).2.b).map buf := by
    rw [hw.put_eq, hw.taken_eq, List.drop_left, List.drop_length, List.append_nil, ← List.map_append,
      List.range_eq_range', ← hsum, List.range_eq_range', ← List.range'_append_1, Nat.zero_add, hsum]
  unfold writeOn
  dsimp only
  split
  · exact ⟨hw.fifo, hw.iCount_eq, accounted_of_range hmoved⟩
  · split
    · exact ⟨hw.fifo, hw.iCount_eq, accounted_of_range hmoved⟩
    · exact ⟨hw.fifo, hw.iCount_eq, hmoved⟩

include hp in
lemma ran_writePipe (count : ℤ) : Ran p [] (writePipe p buf count) := by
  unfold writePipe
  split
  next hclosed => exact ⟨hp, rfl, Or.inr ⟨rfl, rfl, by simp, hclosed⟩⟩
  next => exact ran_writeOn hp buf 0 count.toNat

include hp in
lemma ran_resume {f : Frame} {moved : List Byte} (hf : f.Accounted p.iCount moved) (ha : f.Asleep) :
    Ran p moved (Fs.resume p f) := by
  cases f with
  | idle => exact ha.elim
  | reading buf count =>
    have hnil : moved = [] := hf
    rw [hnil]
    exact ran_readPipe hp buf count
  | writing buf b left =>
    have hbytes : moved = (List.range b).map buf := hf
    rw [hbytes]
    exact ran_writeOn hp buf b left
  | returned value buf sigpipe => exact ha.elim

end Calls

structure PipeInv (s : Pipes P) : Prop where
  fifo : s.pipe.Fifo
  iCount_le : s.pipe.iCount ≤ 2
  accounted : ∀ x, (s.frame x).Accounted s.pipe.iCount (s.moved x)

lemma PipeInv.after {s : Pipes P} (h : PipeInv s) (x : P) {before : List Byte} {r : Pipe × Frame}
    (hr : Ran s.pipe before r) : PipeInv (s.after x before r) := by
  refine ⟨hr.fifo, hr.iCount_eq ▸ h.iCount_le, ?_⟩
  intro y
  change Frame.Accounted r.1.iCount _ _
  rw [hr.iCount_eq]
  by_cases hy : y = x
  · rw [hy]
    simp only [Pipes.after, Function.update_self]
    exact hr.accounted
  · simp only [Pipes.after, Function.update_of_ne hy]
    exact h.accounted y

lemma Frame.Accounted.close {iCount : ℕ} {moved : List Byte} {f : Frame} (h : f.Accounted iCount moved)
    (hle : iCount ≤ 2) : f.Accounted (iCount - 1) moved := by
  cases f with
  | idle => trivial
  | reading => exact h
  | writing => exact h
  | returned =>
    rcases h with h | ⟨hvalue, hsig, hnil, _⟩
    · exact Or.inl h
    · exact Or.inr ⟨hvalue, hsig, hnil, by omega⟩

lemma PipeInv.step {s s' : Pipes P} {e : PipeEvent P} (h : PipeInv s) (hstep : PipeStep s e s') :
    PipeInv s' := by
  cases hstep with
  | read => exact h.after _ (ran_readPipe h.fifo _ _)
  | write => exact h.after _ (ran_writePipe h.fifo _ _)
  | resume ha => exact h.after _ (ran_resume h.fifo (h.accounted _) ha)
  | close =>
    have hle := h.iCount_le
    have hle' : s.pipe.iCount - 1 ≤ 2 := by omega
    exact ⟨⟨h.fifo.inside, h.fifo.order⟩, hle', fun y => (h.accounted y).close hle⟩

lemma pipeInv_of_reach {s : Pipes P} (h : (pipeSystem P).Reach (fun _ _ => True) s) : PipeInv s := by
  refine System.Reach.invariant ?_ (fun _ _ _ hs _ hstep => hs.step hstep) h
  rintro s ⟨hhead, htail, hcount, hput, htaken, hframe, hmoved⟩
  have hring : s.pipe.ring = ⟨s.pipe.page, 0, 0⟩ := by simp [Pipe.ring, hhead, htail]
  have hin : s.pipe.ring.Inside 4096 := by
    rw [hring]
    exact ⟨by norm_num, by norm_num⟩
  refine ⟨⟨hin, ?_⟩, by omega, ?_⟩
  · rw [hput, htaken, hin.held_eq_nil (by rw [hring])]
    rfl
  · intro x
    rw [hframe]
    trivial

/-- The bytes that came out are the first of those that went in, in order; the rest is in the page. A call
that has returned gives the number of bytes it moved, except that a write that found no reader moved
nothing and gives -1 with `SIGPIPE`. -/
theorem pipe_fifo {s : Pipes P} (h : (pipeSystem P).Reach (fun _ _ => True) s) :
    s.pipe.head.toNat < 4096 ∧ s.pipe.tail.toNat < 4096 ∧ s.pipe.put = s.pipe.taken ++ s.pipe.ring.held 4096 ∧
    (s.pipe.ring.held 4096).length ≤ 4095 ∧
    ∀ x value buf sigpipe, s.frame x = .returned value buf sigpipe →
      value = (s.moved x).length ∧ s.moved x = (List.range (s.moved x).length).map buf ∨
      value = -1 ∧ sigpipe = true ∧ s.moved x = [] ∧ s.pipe.iCount ≠ 2 := by
  have hinv := pipeInv_of_reach h
  refine ⟨hinv.fifo.inside.head_lt, hinv.fifo.inside.tail_lt, hinv.fifo.order, ?_, ?_⟩
  · have hsize := Ring.size_lt (show 0 < 4096 by norm_num) s.pipe.ring
    rw [Ring.length_held]
    exact Nat.le_of_lt_succ hsize
  · intro x value buf sigpipe hf
    have hx := hinv.accounted x
    rw [hf] at hx
    exact hx

def emptyPipe : Pipes Unit where
  pipe := ⟨fun _ => 0, 0, 0, 2, [], []⟩
  frame _ := .idle
  moved _ := []

def oneByte : Pipes Unit := emptyPipe.after () [] (writePipe emptyPipe.pipe (fun _ => 7) 1)

def oneByteRead : Pipes Unit := oneByte.after () [] (readPipe oneByte.pipe (fun _ => 0) 4)

lemma reach_emptyPipe : (pipeSystem Unit).Reach (fun _ _ => True) emptyPipe :=
  .start ⟨rfl, rfl, rfl, rfl, rfl, rfl, rfl⟩

theorem pipe_fifo_one_byte : oneByteRead.pipe.taken = [7] ∧ oneByteRead.pipe.tail.toNat < 4096 := by
  have hwrite : (pipeSystem Unit).Reach (fun _ _ => True) oneByte :=
    .next reach_emptyPipe trivial (.write id (by decide))
  have hread : (pipeSystem Unit).Reach (fun _ _ => True) oneByteRead :=
    .next hwrite trivial (.read id (by decide))
  exact ⟨by decide, (pipe_fifo hread).2.1⟩

/-- With no reader left, a write gives -1, which is not the number of bytes it moved. -/
theorem pipe_write_refused :
    ¬ ∀ s : Pipes Unit, (pipeSystem Unit).Reach (fun _ _ => True) s →
      ∀ x value buf sigpipe, s.frame x = .returned value buf sigpipe → value = (s.moved x).length := by
  intro hall
  let s : Pipes Unit := { emptyPipe with pipe := { emptyPipe.pipe with iCount := 1 } }
  have hclose : (pipeSystem Unit).Reach (fun _ _ => True) s :=
    .next reach_emptyPipe trivial (.close (by decide))
  have hstep : PipeStep s (.write () (fun _ => 7) 1) (s.after () [] (writePipe s.pipe (fun _ => 7) 1)) :=
    .write id (by decide)
  have hwrite := System.Reach.next hclose trivial hstep
  have hvalue := hall _ hwrite () (-1) (fun _ => 7) true rfl
  revert hvalue
  decide

end Devos.Fs
