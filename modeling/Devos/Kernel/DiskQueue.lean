import Devos.Basic
import Devos.Library.Pointers
import Mathlib.Logic.Function.Iterate

/-! The queue of requests to the hard disk, changed by `add_request` statement by statement and by the
interrupt of the controller between two of them. -/

namespace Devos.Kernel

open Pointers

inductive DiskCommand where
  | winRead
  | winWrite
  deriving DecidableEq

/-- `hd` is `none` in a free slot, where the source has -1. -/
structure HdRequest where
  hd : Option (Fin 2)
  nsector : ℤ
  sector : ℕ
  head : Fin 16
  cyl : ℕ
  cmd : DiskCommand
  errors : ℕ
  next : Option (Fin 32)

/-- What `do_hd` points to. -/
inductive Handler where
  | readIntr
  | writeIntr
  | doRequest
  deriving DecidableEq

/-- `started` is the request for which the controller has a command that it has not finished. -/
structure Disk where
  request : Fin 32 → HdRequest
  thisRequest : Option (Fin 32)
  sorting : Bool
  doHd : Option Handler
  started : Option (Fin 32)

namespace Disk

def next (d : Disk) (r : Fin 32) : Option (Fin 32) := (d.request r).next

def modify (d : Disk) (r : Fin 32) (f : HdRequest → HdRequest) : Disk :=
  { d with request := Function.update d.request r (f (d.request r)) }

def setNext (d : Disk) (r : Fin 32) (o : Option (Fin 32)) : Disk := d.modify r fun q => { q with next := o }

def drive (q : HdRequest) : ℤ := q.hd.elim (-1) fun hd => hd.val

/-- `IN_ORDER(s1,s2)` -/
def inOrder (s₁ s₂ : HdRequest) : Bool :=
  (drive s₁ < drive s₂ || drive s₁ = drive s₂) &&
    ((s₁.cyl < s₂.cyl || s₁.cyl = s₂.cyl) && ((s₁.head < s₂.head || s₁.head = s₂.head) && s₁.sector < s₂.sector))

def hdOut (d : Disk) (r : Fin 32) (intrAddr : Handler) : Disk := { d with doHd := some intrAddr, started := some r }

/-- `ready` is the answer of the controller when it is to take data. -/
def doRequest (d : Disk) (ready : Bool) : Disk :=
  if d.sorting then d
  else match d.thisRequest with
    | none => { d with doHd := none }
    | some r =>
      match (d.request r).cmd with
      | .winRead => d.hdOut r .readIntr
      -- `reset_hd`, whose interrupt calls `do_request` again
      | .winWrite => if ready then d.hdOut r .writeIntr else d.hdOut r .doRequest

/-- `this_request->hd = -1; this_request=this_request->next;` -/
def pop (d : Disk) (r : Fin 32) : Disk :=
  { d.modify r fun q => { q with hd := none } with thisRequest := d.next r, started := none }

-- the first sector is the end of a read
def readIntr (d : Disk) (r : Fin 32) (ready : Bool) : Disk :=
  if (d.request r).nsector = 2 then
    ((d.modify r fun q => { q with nsector := q.nsector - 1, errors := 0 }).pop r).doRequest ready
  else d

def writeIntr (d : Disk) (r : Fin 32) (ready : Bool) : Disk :=
  if (d.request r).nsector - 1 ≠ 0 then d.modify r fun q => { q with nsector := q.nsector - 1 }
  else ((d.modify r fun q => { q with nsector := q.nsector - 1 }).pop r).doRequest ready

/-- `hd_interrupt` of a controller that reports success. -/
def hdInterrupt (d : Disk) (ready : Bool) : Except Fault Disk :=
  match d.doHd with
  | none => .error .panic
  | some .doRequest => .ok (d.doRequest ready)
  | some .readIntr => match d.thisRequest with
    | none => .error .badPointer
    | some r => .ok (d.readIntr r ready)
  | some .writeIntr => match d.thisRequest with
    | none => .error .badPointer
    | some r => .ok (d.writeIntr r ready)

/-- The interrupt finishes the request that runs. -/
def Completes (d : Disk) : Prop :=
  ∃ r, d.thisRequest = some r ∧ (d.doHd = some .readIntr ∧ (d.request r).nsector = 2 ∨
    d.doHd = some .writeIntr ∧ (d.request r).nsector = 1)

/-- Where `add_request` is: before which of its statements and tests, with its `tmp`. -/
inductive AddPc where
  | check
  | setSorting
  | readHead
  | storeHead
  | testNext (tmp : Fin 32)
  | storeNext (tmp : Fin 32)
  | stepOn (tmp : Fin 32)
  | testLoop (tmp : Fin 32)
  | testOrder (tmp : Fin 32)
  | advance (tmp : Fin 32)
  | linkReq (tmp : Fin 32)
  | linkTmp (tmp : Fin 32)
  | clearSorting
  | testDoHd
  | restart
  | done
  | panicked
  | lost
  deriving DecidableEq

/-- `tmp=tmp->next`, going on with `pc`; `lost` if that is a null pointer. -/
def follow (d : Disk) (tmp : Fin 32) (pc : Fin 32 → AddPc) : AddPc := (d.next tmp).elim .lost pc

/-- One statement or test of `add_request(req)`. -/
def addStep (req : Fin 32) (ready : Bool) : Disk × AddPc → Disk × AddPc
  | (d, .check) => (d, if (d.request req).nsector = 2 then .setSorting else .panicked)
  | (d, .setSorting) => ({ d with sorting := true }, .readHead)
  | (d, .readHead) => (d, d.thisRequest.elim .storeHead .testNext)
  | (d, .storeHead) => ({ d with thisRequest := some req }, .clearSorting)
  | (d, .testNext tmp) => (d, if d.next tmp = none then .storeNext tmp else .stepOn tmp)
  | (d, .storeNext tmp) => (d.setNext tmp (some req), .clearSorting)
  | (d, .stepOn tmp) => (d, d.follow tmp .testLoop)
  | (d, .testLoop tmp) => (d, if d.next tmp = none then .linkReq tmp else .testOrder tmp)
  | (d, .testOrder tmp) =>
    (d, d.follow tmp fun n =>
      if (inOrder (d.request tmp) (d.request req) || !inOrder (d.request tmp) (d.request n)) &&
        inOrder (d.request req) (d.request n) then .linkReq tmp else .advance tmp)
  | (d, .advance tmp) => (d, d.follow tmp .testLoop)
  | (d, .linkReq tmp) => (d.setNext req (d.next tmp), .linkTmp tmp)
  | (d, .linkTmp tmp) => (d.setNext tmp (some req), .clearSorting)
  | (d, .clearSorting) => ({ d with sorting := false }, .testDoHd)
  | (d, .testDoHd) => (d, if d.doHd = none then .restart else .done)
  | (d, .restart) => (d.doRequest ready, .done)
  | (d, .done) => (d, .done)
  | (d, .panicked) => (d, .panicked)
  | (d, .lost) => (d, .lost)

def addRun (req : Fin 32) (ready : Bool) (n : ℕ) : Disk × AddPc → Disk × AddPc := (addStep req ready)^[n]

/-- A request that has been added and not completed. -/
def Waiting (d : Disk) (r : Fin 32) : Prop := (d.request r).hd.isSome

/-- Every request is in the queue, and the controller is at work on the first. -/
def Served (d : Disk) : Prop :=
  (∀ r, d.Waiting r → Reached d.next (fun a => d.thisRequest = some a) r) ∧
    ((∃ r, d.Waiting r) → ∃ r, d.thisRequest = some r ∧ d.started = some r ∧ d.doHd.isSome)

/-- The queue `l` when nothing is being added to it. -/
structure Queue (d : Disk) (l : List (Fin 32)) : Prop where
  chain : Chain d.next d.thisRequest l
  nodup : l.Nodup
  started : d.started = l.head?
  idle : d.doHd = none ↔ l = []
  sorted : d.sorting = false

/-- A request that `rw_abs_hd` is about to add to the queue `l`. -/
structure Fresh (d : Disk) (l : List (Fin 32)) (req : Fin 32) : Prop where
  waiting : ∀ r, d.Waiting r ↔ r = req ∨ r ∈ l
  unlinked : req ∉ l
  next : d.next req = none
  nsector : (d.request req).nsector = 2

section Fields

variable {d d' : Disk} {r x : Fin 32} {o : Option (Fin 32)} {l : List (Fin 32)} {ready : Bool} {f : HdRequest → HdRequest}

lemma modify_self (d : Disk) (r : Fin 32) (f : HdRequest → HdRequest) : (d.modify r f).request r = f (d.request r) :=
  Function.update_self ..

lemma modify_other (hx : x ≠ r) : (d.modify r f).request x = d.request x := Function.update_of_ne hx ..

lemma pop_request (d : Disk) (r : Fin 32) :
    (d.pop r).request = (d.modify r fun q => { q with hd := none }).request := rfl

lemma next_setNext (d : Disk) (r : Fin 32) (o : Option (Fin 32)) : (d.setNext r o).next = Function.update d.next r o := by
  funext x
  by_cases hx : x = r
  · subst hx
    rw [Function.update_self, next, setNext, modify_self]
  · rw [Function.update_of_ne hx, next, setNext, modify_other hx, next]

lemma setNext_self (h : d.next r = o) : d.setNext r o = d := by
  subst h
  exact congrArg (fun f => { d with request := f }) (Function.update_eq_self r d.request)

lemma waiting_setNext (d : Disk) (r x : Fin 32) (o : Option (Fin 32)) : (d.setNext r o).Waiting x ↔ d.Waiting x := by
  by_cases hx : x = r
  · subst hx
    rw [Waiting, setNext, modify_self, Waiting]
  · rw [Waiting, setNext, modify_other hx, Waiting]

lemma doRequest_sorting (h : d.sorting = true) (ready : Bool) : d.doRequest ready = d := by simp [doRequest, h]

/-- The request that runs has been taken off the queue, and the next one is not started yet. -/
structure Popped (d : Disk) (r : Fin 32) (d' : Disk) : Prop where
  next : d'.next = d.next
  waiting : ∀ x, d'.Waiting x ↔ d.Waiting x ∧ x ≠ r
  other : ∀ x, x ≠ r → d'.request x = d.request x
  thisRequest : d'.thisRequest = d.next r
  started : d'.started = none
  sorting : d'.sorting = d.sorting
  doHd : d'.doHd = d.doHd

lemma popped_modify (hf : ∀ q, (f q).next = q.next) : Popped d r ((d.modify r f).pop r) := by
  have hnext : (d.modify r f).next = d.next := by
    funext x
    by_cases hx : x = r
    · subst hx
      rw [next, modify_self, hf, next]
    · rw [next, modify_other hx, next]
  have hother : ∀ x, x ≠ r → ((d.modify r f).pop r).request x = d.request x := by
    intro x hx
    rw [pop_request, modify_other hx, modify_other hx]
  have hself : ((d.modify r f).pop r).request r = { f (d.request r) with hd := none } := by
    rw [pop_request, modify_self, modify_self]
  refine ⟨?_, ?_, hother, ?_, rfl, rfl, rfl⟩
  · funext x
    by_cases hx : x = r
    · rw [hx, next, hself, next]
      exact hf _
    · rw [next, hother x hx, next]
  · intro x
    by_cases hx : x = r
    · rw [hx, Waiting, hself]
      simp
    · rw [Waiting, hother x hx, Waiting]
      simp [hx]
  · exact congrFun hnext r

lemma Completes.interrupt (h : d.Completes) (ready : Bool) :
    ∃ r d', d.thisRequest = some r ∧ Popped d r d' ∧ d.hdInterrupt ready = .ok (d'.doRequest ready) := by
  obtain ⟨r, hr, ⟨hhd, hn⟩ | ⟨hhd, hn⟩⟩ := h
  · refine ⟨r, (d.modify r fun q => { q with nsector := q.nsector - 1, errors := 0 }).pop r, hr, ?_, ?_⟩
    · exact popped_modify fun _ => rfl
    · simp [hdInterrupt, hhd, hr, readIntr, hn]
  · refine ⟨r, (d.modify r fun q => { q with nsector := q.nsector - 1 }).pop r, hr, ?_, ?_⟩
    · exact popped_modify fun _ => rfl
    · simp [hdInterrupt, hhd, hr, writeIntr, hn]

lemma doRequest_none (hsort : d.sorting = false) (h : d.thisRequest = none) (ready : Bool) :
    d.doRequest ready = { d with doHd := none } := by simp [doRequest, hsort, h]

lemma doRequest_some (hsort : d.sorting = false) (h : d.thisRequest = some r) (ready : Bool) :
    ∃ intr, d.doRequest ready = d.hdOut r intr := by
  cases hcmd : (d.request r).cmd with
  | winRead => exact ⟨.readIntr, by simp [doRequest, hsort, h, hcmd]⟩
  | winWrite =>
    cases ready with
    | false => exact ⟨.doRequest, by simp [doRequest, hsort, h, hcmd]⟩
    | true => exact ⟨.writeIntr, by simp [doRequest, hsort, h, hcmd]⟩

lemma doRequest_request (d : Disk) (ready : Bool) : (d.doRequest ready).request = d.request := by
  cases hsort : d.sorting with
  | true => rw [doRequest_sorting hsort]
  | false =>
    cases h : d.thisRequest with
    | none => rw [doRequest_none hsort h]
    | some r =>
      obtain ⟨intr, hout⟩ := doRequest_some hsort h ready
      rw [hout, hdOut]

lemma queue_doRequest (hchain : Chain d.next d.thisRequest l) (hnodup : l.Nodup) (hstart : l = [] → d.started = none)
    (hsort : d.sorting = false) : Queue (d.doRequest ready) l := by
  have hhead := hchain.head
  cases l with
  | nil =>
    rw [doRequest_none hsort hhead]
    exact ⟨hchain, hnodup, hstart rfl, by simp, hsort⟩
  | cons r l =>
    obtain ⟨intr, hout⟩ := doRequest_some hsort hhead ready
    rw [hout]
    exact ⟨hchain, hnodup, rfl, by simp [hdOut], hsort⟩

lemma Queue.interrupt (hq : Queue d l) (hc : d.Completes) (ready : Bool) :
    ∃ r d', d.hdInterrupt ready = .ok d' ∧ d.thisRequest = some r ∧ Queue d' l.tail ∧
      (∀ x, d'.Waiting x ↔ d.Waiting x ∧ x ≠ r) ∧ ∀ x, x ≠ r → d'.request x = d.request x := by
  obtain ⟨r, d', hr, hpop, hrun⟩ := hc.interrupt ready
  refine ⟨r, _, hrun, hr, ?_, ?_, ?_⟩
  · apply queue_doRequest
    · have hchain := hq.chain
      cases l with
      | nil =>
        rw [hr] at hchain
        cases hchain
      | cons a l =>
        obtain ⟨ha, htail⟩ := hchain
        rw [hr] at ha
        cases ha
        rw [hpop.next, hpop.thisRequest]
        exact htail
    · exact hq.nodup.tail
    · exact fun _ => hpop.started
    · exact hpop.sorting.trans hq.sorted
  · intro x
    rw [Waiting, doRequest_request]
    exact hpop.waiting x
  · intro x hx
    rw [doRequest_request]
    exact hpop.other x hx

lemma Queue.served (hq : Queue d l) (hw : ∀ r, d.Waiting r → r ∈ l) : Served d := by
  refine ⟨fun r hr => hq.chain.reached (hw r hr), ?_⟩
  rintro ⟨r, hr⟩
  cases l with
  | nil => cases hw r hr
  | cons a l =>
    refine ⟨a, hq.chain.head, hq.started, ?_⟩
    rw [Option.isSome_iff_ne_none, ne_eq, hq.idle]
    simp

end Fields

/-- `add_request` between `sorting=1` and the statement that links its request. -/
structure Linking (d : Disk) (l : List (Fin 32)) (req : Fin 32) : Prop where
  chain : Chain d.next d.thisRequest l
  nodup : l.Nodup
  started : d.started = l.head?
  idle : d.doHd = none ↔ l = []
  sorting : d.sorting = true
  fresh : Fresh d l req

/-- The request is linked; the controller still knows of the queue `l` only. -/
structure Added (d : Disk) (l : List (Fin 32)) (req : Fin 32) (l' : List (Fin 32)) : Prop where
  chain : Chain d.next d.thisRequest l'
  nodup : l'.Nodup
  waiting : ∀ r, d.Waiting r → r ∈ l'
  started : d.started = l.head?
  idle : d.doHd = none ↔ l = []
  first : l' = [req] ∧ l = [] ∨ l ≠ [] ∧ l'.head? = l.head?

/-- Behind the first entry of `l`, with `rest` to come. -/
def At (l : List (Fin 32)) (tmp : Fin 32) (rest : List (Fin 32)) : Prop := ∃ a m, l = (a :: m) ++ tmp :: rest

/-- What holds before each statement when no interrupt comes. -/
def Adding (l : List (Fin 32)) (req : Fin 32) : Disk × AddPc → Prop
  | (d, .check) => Queue d l ∧ Fresh d l req
  | (d, .setSorting) => Queue d l ∧ Fresh d l req
  | (d, .readHead) => Linking d l req
  | (d, .storeHead) => Linking d l req ∧ l = []
  | (d, .testNext tmp) => Linking d l req ∧ ∃ m, l = tmp :: m
  | (d, .storeNext tmp) => Linking d l req ∧ l = [tmp]
  | (d, .stepOn tmp) => Linking d l req ∧ ∃ b m, l = tmp :: b :: m
  | (d, .testLoop tmp) => Linking d l req ∧ ∃ m, At l tmp m
  | (d, .testOrder tmp) => Linking d l req ∧ ∃ b m, At l tmp (b :: m)
  | (d, .advance tmp) => Linking d l req ∧ ∃ b m, At l tmp (b :: m)
  | (d, .linkReq tmp) => Linking d l req ∧ ∃ m, At l tmp m
  | (d, .linkTmp tmp) => ∃ d₀ m, Linking d₀ l req ∧ At l tmp m ∧ d = d₀.setNext req (d₀.next tmp)
  | (d, .clearSorting) => (∃ l', Added d l req l') ∧ d.sorting = true
  | (d, .testDoHd) => (∃ l', Added d l req l') ∧ d.sorting = false
  | (d, .restart) => Added d l req [req] ∧ l = [] ∧ d.sorting = false
  | (d, .done) => ∃ l', Queue d l' ∧ ∀ r, d.Waiting r → r ∈ l'
  | (_, .panicked) => False
  | (_, .lost) => False

section Adding

variable {d : Disk} {l l' m : List (Fin 32)} {req tmp b : Fin 32} {ready : Bool} {x : Disk × AddPc}

lemma follow_some (h : d.next tmp = some b) (pc : Fin 32 → AddPc) : d.follow tmp pc = pc b := by simp [follow, h]

lemma Linking.next_at (h : Linking d l req) (hat : At l tmp m) : d.next tmp = m.head? := by
  obtain ⟨a, m₁, rfl⟩ := hat
  exact (h.chain.behind).head

lemma At.next (h : At l tmp (b :: m)) : At l b m := by
  obtain ⟨a, m₁, rfl⟩ := h
  exact ⟨a, m₁ ++ [tmp], by simp⟩

/-- `req->next=tmp->next; tmp->next=req;` -/
lemma Linking.insert {l₁ l₂ : List (Fin 32)} (h : Linking d l req) (hl : l = l₁ ++ tmp :: l₂) :
    Added ((d.setNext req (d.next tmp)).setNext tmp (some req)) l req (l₁ ++ tmp :: req :: l₂) := by
  have hreq := h.fresh.unlinked
  have hnodup := h.nodup
  have hchain := h.chain
  rw [hl] at hreq hnodup hchain
  have hmem : ∀ r, r ∈ l₁ ++ tmp :: req :: l₂ ↔ r = req ∨ r ∈ l := by
    intro r
    rw [hl]
    simp only [List.mem_append, List.mem_cons]
    tauto
  refine ⟨?_, ?_, ?_, h.started, h.idle, Or.inr ⟨?_, ?_⟩⟩
  · rw [next_setNext, next_setNext]
    exact hchain.insert hnodup hreq
  · have hperm : (l₁ ++ tmp :: req :: l₂).Perm (req :: (l₁ ++ tmp :: l₂)) := by
      have h₁ : ((l₁ ++ [tmp]) ++ req :: l₂).Perm (req :: ((l₁ ++ [tmp]) ++ l₂)) := List.perm_middle
      simpa using h₁
    rw [hperm.nodup_iff, List.nodup_cons]
    exact ⟨hreq, hnodup⟩
  · intro r hr
    rw [waiting_setNext, waiting_setNext, h.fresh.waiting] at hr
    exact (hmem r).mpr hr
  · simp [hl]
  · rw [hl]
    cases l₁ <;> rfl

lemma Added.queue (h : Added d l req l') (hl : l ≠ []) (hsort : d.sorting = false) : Queue d l' := by
  have hfirst : l'.head? = l.head? := by
    rcases h.first with ⟨_, h₀⟩ | ⟨_, hfirst⟩
    · exact absurd h₀ hl
    · exact hfirst
  have hl' : l' ≠ [] := by
    rintro rfl
    exact hl (List.head?_eq_none_iff.mp hfirst.symm)
  exact ⟨h.chain, h.nodup, h.started.trans hfirst.symm, iff_of_false (fun hnone => hl (h.idle.mp hnone)) hl', hsort⟩

lemma Adding.step (h : Adding l req x) : Adding l req (addStep req ready x) := by
  obtain ⟨d, pc⟩ := x
  cases pc with
  | check =>
    rw [addStep, if_pos h.2.nsector]
    exact h
  | setSorting =>
    obtain ⟨hq, hf⟩ := h
    exact ⟨hq.chain, hq.nodup, hq.started, hq.idle, rfl, ⟨hf.waiting, hf.unlinked, hf.next, hf.nsector⟩⟩
  | readHead =>
    have hlink : Linking d l req := h
    cases l with
    | nil =>
      have hnone := hlink.chain.head
      simp only [addStep, hnone]
      exact ⟨hlink, rfl⟩
    | cons a m =>
      have hsome := hlink.chain.head
      simp only [addStep, hsome]
      exact ⟨hlink, m, rfl⟩
  | storeHead =>
    obtain ⟨hlink, rfl⟩ := h
    refine ⟨⟨[req], ?_, by simp, ?_, hlink.started, hlink.idle, Or.inl ⟨rfl, rfl⟩⟩, hlink.sorting⟩
    · exact ⟨rfl, hlink.fresh.next⟩
    · intro r hr
      have hin := (hlink.fresh.waiting r).mp hr
      simpa using hin
  | testNext tmp =>
    obtain ⟨hlink, m, rfl⟩ := h
    have hnext : d.next tmp = m.head? := hlink.chain.tail.head
    cases m with
    | nil =>
      rw [addStep, if_pos (by simpa using hnext)]
      exact ⟨hlink, rfl⟩
    | cons b m =>
      rw [addStep, if_neg (by simp [hnext])]
      exact ⟨hlink, b, m, rfl⟩
  | storeNext tmp =>
    obtain ⟨hlink, hl⟩ := h
    have hnone : d.next tmp = none := by
      have hchain := hlink.chain
      rw [hl] at hchain
      exact hchain.tail
    have hsame : d.setNext req (d.next tmp) = d := setNext_self (hlink.fresh.next.trans hnone.symm)
    have hl' : l = [] ++ tmp :: [] := hl
    have hadd := hlink.insert hl'
    rw [hsame] at hadd
    exact ⟨⟨_, hadd⟩, hlink.sorting⟩
  | stepOn tmp =>
    obtain ⟨hlink, b, m, rfl⟩ := h
    rw [addStep, follow_some hlink.chain.tail.head]
    exact ⟨hlink, m, tmp, [], rfl⟩
  | testLoop tmp =>
    obtain ⟨hlink, m, hat⟩ := h
    have hnext := hlink.next_at hat
    cases m with
    | nil =>
      rw [addStep, if_pos (by simpa using hnext)]
      exact ⟨hlink, [], hat⟩
    | cons b m =>
      rw [addStep, if_neg (by simp [hnext])]
      exact ⟨hlink, b, m, hat⟩
  | testOrder tmp =>
    obtain ⟨hlink, b, m, hat⟩ := h
    rw [addStep, follow_some (hlink.next_at hat)]
    split_ifs
    · exact ⟨hlink, b :: m, hat⟩
    · exact ⟨hlink, b, m, hat⟩
  | advance tmp =>
    obtain ⟨hlink, b, m, hat⟩ := h
    rw [addStep, follow_some (hlink.next_at hat)]
    exact ⟨hlink, m, hat.next⟩
  | linkReq tmp =>
    obtain ⟨hlink, m, hat⟩ := h
    exact ⟨d, m, hlink, hat, rfl⟩
  | linkTmp tmp =>
    obtain ⟨d₀, m, hlink, ⟨a, m₁, hl⟩, rfl⟩ := h
    exact ⟨⟨_, hlink.insert hl⟩, hlink.sorting⟩
  | clearSorting =>
    obtain ⟨⟨l', hadd⟩, _⟩ := h
    exact ⟨⟨l', hadd.chain, hadd.nodup, hadd.waiting, hadd.started, hadd.idle, hadd.first⟩, rfl⟩
  | testDoHd =>
    obtain ⟨⟨l', hadd⟩, hsort⟩ := h
    rcases hadd.first with ⟨rfl, rfl⟩ | ⟨hl, hfirst⟩
    · rw [addStep, if_pos (hadd.idle.mpr rfl)]
      exact ⟨hadd, rfl, hsort⟩
    · rw [addStep, if_neg fun hnone => hl (hadd.idle.mp hnone)]
      exact ⟨l', hadd.queue hl hsort, hadd.waiting⟩
  | restart =>
    obtain ⟨hadd, rfl, hsort⟩ := h
    refine ⟨[req], queue_doRequest hadd.chain hadd.nodup (by simp) hsort, ?_⟩
    intro r hr
    rw [Waiting, doRequest_request] at hr
    exact hadd.waiting r hr
  | done => exact h
  | panicked => exact h
  | lost => exact h

lemma Adding.run (h : Adding l req x) (n : ℕ) : Adding l req (addRun req ready n x) := by
  induction n with
  | zero => exact h
  | succ n ih =>
    rw [addRun, Function.iterate_succ_apply']
    exact ih.step

/-- `add_request` comes to its end from here. -/
def Ends (req : Fin 32) (ready : Bool) (x : Disk × AddPc) : Prop := ∃ n, (addRun req ready n x).2 = .done

lemma Ends.step (h : Ends req ready (addStep req ready x)) : Ends req ready x := by
  obtain ⟨n, hn⟩ := h
  refine ⟨n + 1, ?_⟩
  rw [addRun, Function.iterate_succ_apply]
  exact hn

lemma ends_done (d : Disk) : Ends req ready (d, .done) := ⟨0, rfl⟩

lemma ends_restart (d : Disk) : Ends req ready (d, .restart) := (ends_done _).step

lemma ends_testDoHd (d : Disk) : Ends req ready (d, .testDoHd) := by
  apply Ends.step
  rw [addStep]
  split_ifs
  · exact ends_restart d
  · exact ends_done d

lemma ends_clearSorting (d : Disk) : Ends req ready (d, .clearSorting) := (ends_testDoHd _).step

lemma ends_linkReq (d : Disk) (tmp : Fin 32) : Ends req ready (d, .linkReq tmp) := (ends_clearSorting _).step.step

/-- The loop goes down the list behind `tmp`. -/
lemma ends_testLoop (h : Chain d.next (d.next tmp) m) : Ends req ready (d, .testLoop tmp) := by
  induction m generalizing tmp with
  | nil =>
    apply Ends.step
    rw [addStep, if_pos (by simpa using h.head)]
    exact ends_linkReq d tmp
  | cons b m ih =>
    have hnext := h.head
    apply Ends.step
    rw [addStep, if_neg (by simp [hnext])]
    apply Ends.step
    rw [addStep, follow_some hnext]
    split_ifs
    · exact ends_linkReq d tmp
    · apply Ends.step
      rw [addStep, follow_some hnext]
      exact ih h.tail

lemma ends_testOrder (h : Chain d.next (d.next tmp) (b :: m)) : Ends req ready (d, .testOrder tmp) := by
  apply Ends.step
  rw [addStep, follow_some h.head]
  split_ifs
  · exact ends_linkReq d tmp
  · apply Ends.step
    rw [addStep, follow_some h.head]
    exact ends_testLoop h.tail

lemma ends_advance (h : Chain d.next (d.next tmp) (b :: m)) : Ends req ready (d, .advance tmp) := by
  apply Ends.step
  rw [addStep, follow_some h.head]
  exact ends_testLoop h.tail

lemma ends_stepOn (h : Chain d.next (d.next tmp) (b :: m)) : Ends req ready (d, .stepOn tmp) := by
  apply Ends.step
  rw [addStep, follow_some h.head]
  exact ends_testLoop h.tail

lemma ends_testNext (h : Chain d.next (d.next tmp) m) : Ends req ready (d, .testNext tmp) := by
  apply Ends.step
  cases m with
  | nil =>
    rw [addStep, if_pos (by simpa using h.head)]
    exact (ends_clearSorting _).step
  | cons b m =>
    rw [addStep, if_neg (by simp [h.head])]
    exact ends_stepOn h

lemma ends_readHead (h : Chain d.next d.thisRequest m) : Ends req ready (d, .readHead) := by
  apply Ends.step
  cases m with
  | nil =>
    have hnone := h.head
    simp only [addStep, hnone]
    exact (ends_clearSorting _).step
  | cons b m =>
    have hsome := h.head
    simp only [addStep, hsome]
    exact ends_testNext h.tail

lemma ends_check (h : Chain d.next d.thisRequest m) (hn : (d.request req).nsector = 2) :
    Ends req ready (d, .check) := by
  apply Ends.step
  rw [addStep, if_pos hn]
  apply Ends.step
  exact ends_readHead h

/-- The controller has nothing to do, and nobody will notice. -/
structure Stalled (d : Disk) (req : Fin 32) : Prop where
  started : d.started = none
  doHd : d.doHd ≠ none
  waiting : d.Waiting req

lemma Stalled.step (h : Stalled x.1 req) (hpc : x.2 ≠ .restart) :
    Stalled (addStep req ready x).1 req ∧ (addStep req ready x).2 ≠ .restart := by
  obtain ⟨d, pc⟩ := x
  have hset : ∀ r o, Stalled (d.setNext r o) req :=
    fun r o => ⟨h.started, h.doHd, (waiting_setNext ..).mpr h.waiting⟩
  have hfollow : ∀ tmp f, (∀ n, f n ≠ .restart) → d.follow tmp f ≠ .restart := by
    intro tmp f hf
    unfold follow
    cases d.next tmp with
    | none => simp
    | some n => exact hf n
  cases pc with
  | restart => exact absurd rfl hpc
  | setSorting => exact ⟨⟨h.started, h.doHd, h.waiting⟩, by simp [addStep]⟩
  | storeHead => exact ⟨⟨h.started, h.doHd, h.waiting⟩, by simp [addStep]⟩
  | clearSorting => exact ⟨⟨h.started, h.doHd, h.waiting⟩, by simp [addStep]⟩
  | storeNext tmp => exact ⟨hset _ _, by simp [addStep]⟩
  | linkReq tmp => exact ⟨hset _ _, by simp [addStep]⟩
  | linkTmp tmp => exact ⟨hset _ _, by simp [addStep]⟩
  | testDoHd =>
    rw [addStep, if_neg h.doHd]
    exact ⟨h, by simp⟩
  | stepOn tmp => exact ⟨h, hfollow _ _ (by simp)⟩
  | advance tmp => exact ⟨h, hfollow _ _ (by simp)⟩
  | testOrder tmp =>
    refine ⟨h, hfollow _ _ ?_⟩
    intro n
    split_ifs <;> simp
  | readHead =>
    refine ⟨h, ?_⟩
    rw [addStep]
    cases d.thisRequest <;> simp
  | check | testNext tmp | testLoop tmp =>
    refine ⟨h, ?_⟩
    rw [addStep]
    split_ifs <;> simp
  | done | panicked | lost => exact ⟨h, by simp [addStep]⟩

lemma Stalled.run (h : Stalled x.1 req) (hpc : x.2 ≠ .restart) (n : ℕ) :
    Stalled (addRun req ready n x).1 req ∧ (addRun req ready n x).2 ≠ .restart := by
  induction n with
  | zero => exact ⟨h, hpc⟩
  | succ n ih =>
    rw [addRun, Function.iterate_succ_apply']
    exact ih.1.step ih.2

lemma Stalled.not_served (h : Stalled d req) : ¬ Served d := by
  rintro ⟨_, hstart⟩
  obtain ⟨r, _, hr, _⟩ := hstart ⟨req, h.waiting⟩
  rw [h.started] at hr
  cases hr

variable (ready) in
/-- From an interrupt while `sorting` is set, the rest of `add_request` still comes to its end. -/
lemma Adding.ends {pc : AddPc} {d' : Disk} {r : Fin 32} (h : Adding l req (d, pc)) (hsort : d.sorting = true)
    (hr : d.thisRequest = some r) (hpop : Popped d r d') : Ends req ready (d', pc) := by
  have hnext := hpop.next
  have hbehind : ∀ {tmp m}, Linking d l req → At l tmp m → Chain d'.next (d'.next tmp) m := by
    intro tmp m hlink hat
    obtain ⟨a, m₁, rfl⟩ := hat
    rw [hnext]
    exact hlink.chain.behind
  have hfirst : ∀ {tmp m}, Linking d l req → l = tmp :: m → Chain d'.next (d'.next tmp) m := by
    rintro tmp m hlink rfl
    rw [hnext]
    exact hlink.chain.tail
  cases pc with
  | check | setSorting =>
    have hoff := h.1.sorted
    rw [hsort] at hoff
    cases hoff
  | readHead =>
    have hlink : Linking d l req := h
    cases l with
    | nil =>
      have hnone := hlink.chain.head
      rw [hr] at hnone
      cases hnone
    | cons a m =>
      have hhead := hlink.chain.head
      rw [hr] at hhead
      cases hhead
      apply ends_readHead (m := m)
      rw [hpop.thisRequest, ← hpop.next]
      exact hfirst hlink rfl
  | storeHead => exact (ends_clearSorting _).step
  | testNext tmp =>
    obtain ⟨hlink, m, hl⟩ := h
    exact ends_testNext (hfirst hlink hl)
  | storeNext tmp => exact (ends_clearSorting _).step
  | stepOn tmp =>
    obtain ⟨hlink, b, m, hl⟩ := h
    exact ends_stepOn (hfirst hlink hl)
  | testLoop tmp =>
    obtain ⟨hlink, m, hat⟩ := h
    exact ends_testLoop (hbehind hlink hat)
  | testOrder tmp =>
    obtain ⟨hlink, b, m, hat⟩ := h
    exact ends_testOrder (hbehind hlink hat)
  | advance tmp =>
    obtain ⟨hlink, b, m, hat⟩ := h
    exact ends_advance (hbehind hlink hat)
  | linkReq tmp => exact ends_linkReq _ _
  | linkTmp tmp => exact (ends_clearSorting _).step
  | clearSorting => exact ends_clearSorting _
  | testDoHd => exact ends_testDoHd _
  | restart => exact ends_restart _
  | done => exact ends_done _
  | panicked | lost => exact h.elim

lemma waiting_step (r : Fin 32) : (addStep req ready x).1.Waiting r ↔ x.1.Waiting r := by
  obtain ⟨d, pc⟩ := x
  cases pc with
  | storeNext | linkReq | linkTmp => exact waiting_setNext ..
  | restart =>
    change (d.doRequest ready).Waiting r ↔ _
    rw [Waiting, doRequest_request, Waiting]
  | _ => exact Iff.rfl

lemma waiting_run (r : Fin 32) (n : ℕ) : (addRun req ready n x).1.Waiting r ↔ x.1.Waiting r := by
  induction n with
  | zero => exact Iff.rfl
  | succ n ih =>
    rw [addRun, Function.iterate_succ_apply']
    exact (waiting_step r).trans ih

lemma Completes.busy (h : d.Completes) : d.doHd ≠ none := by
  obtain ⟨r, _, ⟨h, _⟩ | ⟨h, _⟩⟩ := h <;> simp [h]

lemma Linking.head_mem {r : Fin 32} (h : Linking d l req) (hr : d.thisRequest = some r) : r ∈ l := by
  apply List.mem_of_mem_head?
  rw [← h.chain.head, hr]
  rfl

lemma Added.head_mem {r : Fin 32} (h : Added d l req l') (hr : d.thisRequest = some r) (hbusy : d.doHd ≠ none) :
    r ∈ l := by
  rcases h.first with ⟨_, hl⟩ | ⟨_, hfirst⟩
  · exact absurd (h.idle.mpr hl) hbusy
  · apply List.mem_of_mem_head?
    rw [← hfirst, ← h.chain.head, hr]
    rfl

/-- The request that runs is one of the old ones. -/
lemma Adding.head_mem {pc : AddPc} {r : Fin 32} (h : Adding l req (d, pc)) (hr : d.thisRequest = some r)
    (hbusy : d.doHd ≠ none) (hsort : d.sorting = true) : r ∈ l := by
  cases pc with
  | check | setSorting =>
    have hoff := h.1.sorted
    rw [hsort] at hoff
    cases hoff
  | readHead => exact Linking.head_mem h hr
  | storeHead | testNext | storeNext | stepOn | testLoop | testOrder | advance | linkReq =>
    exact h.1.head_mem hr
  | linkTmp tmp =>
    obtain ⟨d₀, m, hlink, _, rfl⟩ := h
    exact hlink.head_mem hr
  | clearSorting =>
    obtain ⟨⟨l', hadd⟩, _⟩ := h
    exact hadd.head_mem hr hbusy
  | testDoHd =>
    rw [h.2] at hsort
    cases hsort
  | restart =>
    rw [h.2.2] at hsort
    cases hsort
  | done =>
    obtain ⟨l', hq, _⟩ := h
    rw [hq.sorted] at hsort
    cases hsort
  | panicked | lost => exact h.elim

lemma mem_tail {r : Fin 32} {d' : Disk} (hq : Queue d l) (hr : d.thisRequest = some r)
    (hw : ∀ x, d'.Waiting x ↔ d.Waiting x ∧ x ≠ r) (hin : ∀ x, d.Waiting x → x ∈ l) (x : Fin 32) (hx : d'.Waiting x) :
    x ∈ l.tail := by
  obtain ⟨hx, hne⟩ := (hw x).mp hx
  have hmem := hin x hx
  have hhead := hq.chain.head
  rw [hr] at hhead
  cases l with
  | nil => cases hhead
  | cons a m =>
    cases hhead
    exact (List.mem_cons.mp hmem).resolve_left hne

lemma Fresh.interrupted {d' : Disk} {r : Fin 32} (hf : Fresh d l req) (hq : Queue d l) (hr : d.thisRequest = some r)
    (hw : ∀ x, d'.Waiting x ↔ d.Waiting x ∧ x ≠ r) (hsame : ∀ x, x ≠ r → d'.request x = d.request x) :
    Fresh d' l.tail req := by
  have hhead := hq.chain.head
  rw [hr] at hhead
  obtain ⟨m, rfl⟩ : ∃ m, l = r :: m := by
    cases l with
    | nil => cases hhead
    | cons a m =>
      cases hhead
      exact ⟨m, rfl⟩
  have hne : req ≠ r := by
    rintro rfl
    exact hf.unlinked (by simp)
  have hself := hsame req hne
  refine ⟨?_, ?_, ?_, ?_⟩
  · intro x
    have hnot := (List.nodup_cons.mp hq.nodup).1
    rw [hw, hf.waiting, List.tail_cons, List.mem_cons]
    constructor
    · rintro ⟨h | h | h, hx⟩
      · exact Or.inl h
      · exact absurd h hx
      · exact Or.inr h
    · rintro (h | h)
      · exact ⟨Or.inl h, h ▸ hne⟩
      · refine ⟨Or.inr (Or.inr h), ?_⟩
        rintro rfl
        exact hnot h
  · exact fun h => hf.unlinked (List.mem_of_mem_tail h)
  · exact (congrArg HdRequest.next hself).trans hf.next
  · rw [hself]
    exact hf.nsector

/-- From the interrupted state of a sound queue, `add_request` ends with everything served. -/
lemma served_of_adding (h : Adding l req x) (hends : Ends req ready x) :
    ∃ n d', addRun req ready n x = (d', .done) ∧ Served d' := by
  obtain ⟨n, hn⟩ := hends
  refine ⟨n, (addRun req ready n x).1, Prod.ext rfl hn, ?_⟩
  have hdone : Adding l req ((addRun req ready n x).1, .done) := by
    rw [← hn]
    exact h.run n
  obtain ⟨l', hq, hw⟩ := hdone
  exact hq.served hw

end Adding

section Interrupted

variable {d : Disk} {l : List (Fin 32)} {req : Fin 32} {ready ready' : Bool} {pc : AddPc}

variable (ready ready') in
lemma Adding.interrupt_sorting (h : Adding l req (d, pc)) (hc : d.Completes) (hsort : d.sorting = true)
    (hreq : d.Waiting req) (hnot : req ∉ l) :
    ∃ d₂, d.hdInterrupt ready' = .ok d₂ ∧ ∃ n d₃, addRun req ready n (d₂, pc) = (d₃, .done) ∧ ¬ Served d₃ := by
  obtain ⟨r, d₂, hr, hpop, hrun⟩ := hc.interrupt ready'
  have hmem := h.head_mem hr hc.busy hsort
  rw [doRequest_sorting (hpop.sorting.trans hsort)] at hrun
  refine ⟨d₂, hrun, ?_⟩
  obtain ⟨n, hn⟩ := h.ends ready hsort hr hpop
  have hstall : Stalled d₂ req := by
    refine ⟨hpop.started, hpop.doHd ▸ hc.busy, (hpop.waiting req).mpr ⟨hreq, ?_⟩⟩
    rintro rfl
    exact hnot hmem
  have hpc : pc ≠ .restart := by
    rintro rfl
    rw [h.2.2] at hsort
    cases hsort
  exact ⟨n, _, Prod.ext rfl hn, (hstall.run (x := (d₂, pc)) hpc n).1.not_served⟩

variable (ready ready') in
lemma Adding.interrupt_idle (h : Adding l req (d, pc)) (hc : d.Completes) (hsort : d.sorting = false)
    (hreq : d.Waiting req) (hnot : req ∉ l) :
    ∃ d₂, d.hdInterrupt ready' = .ok d₂ ∧ ∃ n d₃, addRun req ready n (d₂, pc) = (d₃, .done) ∧ Served d₃ := by
  have hstart : ∀ hq : Queue d l, Fresh d l req → ∃ d₂, d.hdInterrupt ready' = .ok d₂ ∧
      Queue d₂ l.tail ∧ Fresh d₂ l.tail req := by
    intro hq hf
    obtain ⟨r, d₂, hrun, hr, hq₂, hw, hsame⟩ := hq.interrupt hc ready'
    exact ⟨d₂, hrun, hq₂, hf.interrupted hq hr hw hsame⟩
  have hlinking : ¬ Linking d l req := by
    intro hlink
    rw [hlink.sorting] at hsort
    cases hsort
  cases pc with
  | check =>
    obtain ⟨d₂, hrun, hq₂, hf₂⟩ := hstart h.1 h.2
    refine ⟨d₂, hrun, served_of_adding (l := l.tail) ⟨hq₂, hf₂⟩ ?_⟩
    exact ends_check hq₂.chain hf₂.nsector
  | setSorting =>
    obtain ⟨d₂, hrun, hq₂, hf₂⟩ := hstart h.1 h.2
    refine ⟨d₂, hrun, served_of_adding (l := l.tail) ⟨hq₂, hf₂⟩ ?_⟩
    exact (ends_readHead (d := { d₂ with sorting := true }) hq₂.chain).step
  | readHead => exact (hlinking h).elim
  | storeHead | testNext | storeNext | stepOn | testLoop | testOrder | advance | linkReq => exact (hlinking h.1).elim
  | linkTmp tmp =>
    obtain ⟨d₀, m, hlink, _, rfl⟩ := h
    have hon : d₀.sorting = false := hsort
    rw [hlink.sorting] at hon
    cases hon
  | clearSorting =>
    rw [h.2] at hsort
    cases hsort
  | testDoHd =>
    obtain ⟨⟨l', hadd⟩, _⟩ := h
    have hl : l ≠ [] := fun hnil => hc.busy (hadd.idle.mpr hnil)
    obtain ⟨r, d₂, hrun, hr, hq₂, hw, _⟩ := (hadd.queue hl hsort).interrupt hc ready'
    have hmem := hadd.head_mem hr hc.busy
    have htail := mem_tail (hadd.queue hl hsort) hr hw hadd.waiting
    have hne : req ≠ r := by
      rintro rfl
      exact hnot hmem
    have hleft : d₂.doHd ≠ none := by
      rw [ne_eq, hq₂.idle]
      exact List.ne_nil_of_mem (htail req ((hw req).mpr ⟨hreq, hne⟩))
    refine ⟨d₂, hrun, 1, d₂, ?_, hq₂.served htail⟩
    change addStep req ready (d₂, .testDoHd) = _
    rw [addStep, if_neg hleft]
  | restart => exact absurd (h.1.idle.mpr h.2.1) hc.busy
  | done =>
    obtain ⟨l', hq, hwait⟩ := h
    obtain ⟨r, d₂, hrun, hr, hq₂, hw, _⟩ := hq.interrupt hc ready'
    exact ⟨d₂, hrun, 0, d₂, rfl, hq₂.served (mem_tail hq hr hw hwait)⟩
  | panicked | lost => exact h.elim

/-- The interrupt comes after `k` statements of `add_request`. -/
theorem add_request_interrupted (hq : Queue d l) (hf : Fresh d l req) (k : ℕ) (ready ready' : Bool)
    (hc : (addRun req ready k (d, .check)).1.Completes) :
    ∃ d₂, (addRun req ready k (d, .check)).1.hdInterrupt ready' = .ok d₂ ∧
      ∃ n d₃, addRun req ready n (d₂, (addRun req ready k (d, .check)).2) = (d₃, .done) ∧
        (Served d₃ ↔ (addRun req ready k (d, .check)).1.sorting = false) := by
  have hadding : Adding l req (d, .check) := ⟨hq, hf⟩
  have hrun : Adding l req (addRun req ready k (d, .check)) := hadding.run k
  have hreq : (addRun req ready k (d, .check)).1.Waiting req :=
    (waiting_run req k).mpr ((hf.waiting req).mpr (Or.inl rfl))
  cases hsort : (addRun req ready k (d, .check)).1.sorting with
  | true =>
    obtain ⟨d₂, hint, n, d₃, hend, hnot⟩ := hrun.interrupt_sorting ready ready' hc hsort hreq hf.unlinked
    exact ⟨d₂, hint, n, d₃, hend, iff_of_false hnot (by simp)⟩
  | false =>
    obtain ⟨d₂, hint, n, d₃, hend, hserved⟩ := hrun.interrupt_idle ready ready' hc hsort hreq hf.unlinked
    exact ⟨d₂, hint, n, d₃, hend, iff_of_true hserved rfl⟩

end Interrupted

/-- A read runs, and another one is to be added. -/
def busyDisk : Disk where
  request r := ⟨if r = 0 ∨ r = 1 then some 0 else none, 2, 1, 0, 0, .winRead, 0, none⟩
  thisRequest := some 0
  sorting := false
  doHd := some .readIntr
  started := some 0

lemma busyDisk_queue : Queue busyDisk [0] := ⟨⟨rfl, rfl⟩, by simp, rfl, by simp [busyDisk], rfl⟩

lemma busyDisk_fresh : Fresh busyDisk [0] 1 := by
  refine ⟨?_, by decide, rfl, rfl⟩
  unfold Waiting busyDisk
  decide

lemma busyDisk_completes {k : ℕ} (hk : (addRun 1 true k (busyDisk, .check)).1.request = busyDisk.request)
    (hthis : (addRun 1 true k (busyDisk, .check)).1.thisRequest = some 0)
    (hhd : (addRun 1 true k (busyDisk, .check)).1.doHd = some .readIntr) :
    (addRun 1 true k (busyDisk, .check)).1.Completes := by
  refine ⟨0, hthis, Or.inl ⟨hhd, ?_⟩⟩
  rw [hk]
  rfl

theorem add_request_interrupted_first :
    ∃ d₂, busyDisk.hdInterrupt true = .ok d₂ ∧ ∃ n d₃, addRun 1 true n (d₂, .check) = (d₃, .done) ∧
      (Served d₃ ↔ busyDisk.sorting = false) :=
  add_request_interrupted busyDisk_queue busyDisk_fresh 0 true true (busyDisk_completes rfl rfl rfl)

/-- The read is done when `tmp` is already its slot. -/
theorem interrupt_stalls_disk : ¬ ∀ (d : Disk) (l : List (Fin 32)) (req : Fin 32) (k : ℕ) (ready ready' : Bool)
    (d₂ : Disk) (n : ℕ) (d₃ : Disk), Queue d l → Fresh d l req → (addRun req ready k (d, .check)).1.Completes →
      (addRun req ready k (d, .check)).1.hdInterrupt ready' = .ok d₂ →
      addRun req ready n (d₂, (addRun req ready k (d, .check)).2) = (d₃, .done) → Served d₃ := by
  intro hall
  have hadding : Adding [0] 1 (addRun 1 true 3 (busyDisk, .check)) :=
    Adding.run (x := (busyDisk, .check)) ⟨busyDisk_queue, busyDisk_fresh⟩ 3
  have hc : (addRun 1 true 3 (busyDisk, .check)).1.Completes := busyDisk_completes rfl rfl rfl
  have hreq : (addRun 1 true 3 (busyDisk, .check)).1.Waiting 1 :=
    (waiting_run (x := (busyDisk, .check)) 1 3).mpr ((busyDisk_fresh.waiting 1).mpr (Or.inl rfl))
  obtain ⟨d₂, hint, n, d₃, hend, hnot⟩ := hadding.interrupt_sorting _ _ hc rfl hreq (by decide)
  exact hnot (hall busyDisk [0] 1 3 true true d₂ n d₃ busyDisk_queue busyDisk_fresh hc hint hend)

end Disk

end Devos.Kernel
