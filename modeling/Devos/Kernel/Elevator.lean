import Devos.Kernel.DiskQueue
import Devos.Library.TwoRuns
import Mathlib.Data.List.Infix

/-! The place `add_request` gives to a request in a queue that nothing else changes. -/

namespace Devos.Kernel

open Pointers TwoRuns

namespace Disk

/-- Drive, cylinder, head and sector. -/
abbrev Place := ℤ × ℕ × ℕ × ℕ

def placeOf (q : HdRequest) : Place := (drive q, q.cyl, q.head, q.sector)

/-- What `IN_ORDER` says of the places of two requests. -/
def Before (s t : Place) : Prop := s.1 ≤ t.1 ∧ s.2.1 ≤ t.2.1 ∧ s.2.2.1 ≤ t.2.2.1 ∧ s.2.2.2 < t.2.2.2

instance : DecidableRel Before := fun s t =>
  inferInstanceAs (Decidable (s.1 ≤ t.1 ∧ s.2.1 ≤ t.2.1 ∧ s.2.2.1 ≤ t.2.2.1 ∧ s.2.2.2 < t.2.2.2))

/-- `IN_ORDER` of two slots. -/
def Ahead (d : Disk) (a b : Fin 32) : Prop := inOrder (d.request a) (d.request b) = true

instance (d : Disk) : DecidableRel d.Ahead := fun a b =>
  inferInstanceAs (Decidable (inOrder (d.request a) (d.request b) = true))

section Order

variable {d d' : Disk} {l : List (Fin 32)} {a b : Fin 32}

lemma ahead_iff : d.Ahead a b ↔ Before (placeOf (d.request a)) (placeOf (d.request b)) := by
  simp only [Ahead, inOrder, Before, placeOf, Bool.and_eq_true, Bool.or_eq_true, decide_eq_true_eq,
    Fin.lt_def, Fin.ext_iff]
  omega

end Order

section Runs

variable {d d' : Disk} {l l' l₁ m : List (Fin 32)} {req tmp : Fin 32} {ready : Bool} {x y : Disk × AddPc}

lemma kept_step (r : Fin 32) :
    { (addStep req ready x).1.request r with next := none } = { x.1.request r with next := none } := by
  obtain ⟨d, pc⟩ := x
  have hset : ∀ t o, { (d.setNext t o).request r with next := none } = { d.request r with next := none } := by
    intro t o
    by_cases hr : r = t
    · rw [hr, setNext, modify_self]
    · rw [setNext, modify_other hr]
  cases pc with
  | storeNext | linkReq | linkTmp => exact hset _ _
  | restart =>
    change { (d.doRequest ready).request r with next := none } = _
    rw [doRequest_request]
  | _ => rfl

/-- `add_request` comes from `x` to `y`. -/
def Comes (req : Fin 32) (ready : Bool) (x y : Disk × AddPc) : Prop := ∃ n, addRun req ready n x = y

lemma Comes.step (h : Comes req ready (addStep req ready x) y) : Comes req ready x y := by
  obtain ⟨n, hn⟩ := h
  refine ⟨n + 1, ?_⟩
  rw [addRun, Function.iterate_succ_apply]
  exact hn

lemma Comes.kept (h : Comes req ready x y) (r : Fin 32) :
    { y.1.request r with next := none } = { x.1.request r with next := none } := by
  obtain ⟨n, rfl⟩ := h
  induction n with
  | zero => rfl
  | succ n ih =>
    rw [addRun, Function.iterate_succ_apply']
    exact (kept_step r).trans ih

lemma Comes.ahead (h : Comes req ready x y) : y.1.Ahead = x.1.Ahead := by
  have hplace : ∀ r, placeOf (y.1.request r) = placeOf (x.1.request r) := by
    intro r
    have hkept := congrArg placeOf (h.kept r)
    exact hkept
  funext a b
  rw [eq_iff_iff, ahead_iff, ahead_iff, hplace, hplace]

/-- What `add_request` leaves behind does not depend on how long one looks. -/
lemma Comes.unique {d₁ d₂ : Disk} (h₁ : Comes req ready x (d₁, .done)) (h₂ : Comes req ready x (d₂, .done)) :
    d₁ = d₂ := by
  have hstay : ∀ (d : Disk) k, addRun req ready k (d, .done) = (d, .done) := by
    intro d k
    exact Function.iterate_fixed rfl k
  obtain ⟨n₁, h₁⟩ := h₁
  obtain ⟨n₂, h₂⟩ := h₂
  have h₃ := congrArg (addRun req ready n₂) h₁
  have h₄ := congrArg (addRun req ready n₁) h₂
  rw [hstay, addRun, addRun, ← Function.iterate_add_apply] at h₃
  rw [hstay, addRun, addRun, ← Function.iterate_add_apply, Nat.add_comm, h₃] at h₄
  exact congrArg Prod.fst h₄

end Runs

section Elevators

variable {d : Disk} {l : List (Fin 32)} {req : Fin 32}

end Elevators

end Disk

end Devos.Kernel
