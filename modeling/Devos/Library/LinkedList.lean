import Mathlib.Data.List.Chain
import Mathlib.Data.List.Nodup
import Mathlib.Data.Nat.Notation
import Mathlib.Logic.Function.Basic
import Mathlib.Tactic.Lemma

/-! Doubly linked lists whose links are fields of the nodes. A list leads from `z` back to `z`: with a node for
`z` it is a ring, with `none` a list between two null pointers. -/

namespace Devos.LinkedList

variable {β : Type*}

def Adjacent (next prev : β → Option β) (x y : Option β) : Prop :=
  (∀ a, x = some a → next a = y) ∧ ∀ b, y = some b → prev b = x

structure Linked (next prev : β → Option β) (z : Option β) (l : List β) : Prop where
  nodup : (z :: l.map some).Nodup
  links : (z :: l.map some ++ [z]).IsChain (Adjacent next prev)

section Congruence

variable {next prev next' prev' : β → Option β} {z : Option β} {l : List β}

lemma isChain_congr {p : List (Option β)} (h : p.IsChain (Adjacent next prev))
    (hnext : ∀ a, some a ∈ p.dropLast → next' a = next a) (hprev : ∀ b, some b ∈ p.tail → prev' b = prev b) :
    p.IsChain (Adjacent next' prev') := by
  induction h with
  | nil => apply List.IsChain.nil
  | singleton x => apply List.IsChain.singleton
  | @cons_cons x y p hxy _ ih =>
    apply List.IsChain.cons_cons
    · constructor
      · intro a ha
        rw [hnext a (by simp [ha]), hxy.1 a ha]
      · intro b hb
        rw [hprev b (by simp [hb]), hxy.2 b hb]
    · apply ih
      · intro a ha
        apply hnext
        simp [ha]
      · intro b hb
        apply hprev
        exact List.mem_of_mem_tail hb

lemma Linked.congr (h : Linked next prev z l)
    (hsame : ∀ a, some a ∈ z :: l.map some → next' a = next a ∧ prev' a = prev a) : Linked next' prev' z l := by
  refine ⟨h.nodup, isChain_congr h.links ?_ ?_⟩
  · intro a ha
    rw [List.dropLast_concat] at ha
    exact (hsame a ha).1
  · intro b hb
    apply (hsame b _).2
    simp at hb ⊢
    exact hb.symm

end Congruence

section Rotation

variable {next prev : β → Option β} {l : List β} {c d : β}

lemma Linked.rotate (h : Linked next prev (some c) (d :: l)) : Linked next prev (some d) (l ++ [c]) := by
  have hnodup : (some c :: some d :: l.map some).Nodup := by simpa using h.nodup
  have hlinks : (some c :: some d :: (l.map some ++ [some c])).IsChain (Adjacent next prev) := by
    simpa using h.links
  rw [List.isChain_cons_cons] at hlinks
  constructor
  · have hperm : (some d :: (l ++ [c]).map some).Perm (some c :: some d :: l.map some) := by
      simpa using List.perm_append_singleton (some c) (some d :: l.map some)
    exact hperm.nodup_iff.mpr hnodup
  · have happend : (some d :: (l ++ [c]).map some ++ [some d]) =
        (some d :: l.map some) ++ some c :: some d :: [] := by simp
    rw [happend, List.isChain_append_cons_cons]
    exact ⟨hlinks.2, hlinks.1, List.IsChain.singleton _⟩

end Rotation

section Halves

variable {next prev next' prev' : β → Option β} {z x y : Option β} {l₁ l₂ : List β} {p q : List (Option β)}

/-- A list in two halves, `x` being the last of the first one and `y` the first of the second. -/
structure Halves (z : Option β) (l₁ l₂ : List β) (p : List (Option β)) (x y : Option β)
    (q : List (Option β)) : Prop where
  nodup : (z :: (l₁ ++ l₂).map some).Nodup
  first : z :: l₁.map some = p ++ [x]
  second : l₂.map some ++ [z] = y :: q

lemma exists_halves (h : (z :: (l₁ ++ l₂).map some).Nodup) : ∃ p x y q, Halves z l₁ l₂ p x y q := by
  obtain ⟨p, x, hp⟩ : ∃ p x, z :: l₁.map some = p ++ [x] := by
    rcases List.eq_nil_or_concat (z :: l₁.map some) with he | ⟨p, x, he⟩
    · cases he
    · exact ⟨p, x, by simpa using he⟩
  obtain ⟨y, q, hq⟩ : ∃ y q, l₂.map some ++ [z] = y :: q := List.exists_cons_of_ne_nil (by simp)
  exact ⟨p, x, y, q, ⟨h, hp, hq⟩⟩

lemma Halves.path (h : Halves z l₁ l₂ p x y q) (m : List β) :
    z :: (l₁ ++ m ++ l₂).map some ++ [z] = p ++ x :: (m.map some ++ y :: q) := by
  have hsplit : z :: (l₁ ++ m ++ l₂).map some ++ [z] =
      (z :: l₁.map some) ++ (m.map some ++ (l₂.map some ++ [z])) := by simp
  rw [hsplit, h.first, h.second]
  simp

lemma Halves.mem (h : Halves z l₁ l₂ p x y q) :
    x ∈ z :: (l₁ ++ l₂).map some ∧ y ∈ z :: (l₁ ++ l₂).map some := by
  have hx : x ∈ z :: l₁.map some := by simp [h.first]
  have hy : y ∈ l₂.map some ++ [z] := by simp [h.second]
  rw [List.mem_cons] at hx
  rw [List.mem_append, List.mem_singleton] at hy
  rw [List.map_append, List.mem_cons, List.mem_cons, List.mem_append, List.mem_append]
  exact ⟨hx.imp_right Or.inl, hy.symm.imp_right Or.inr⟩

lemma Linked.adjacent (h : Linked next prev z (l₁ ++ l₂)) (hh : Halves z l₁ l₂ p x y q) :
    Adjacent next prev x y := by
  have hpath : z :: (l₁ ++ l₂).map some ++ [z] = p ++ x :: y :: q := by
    simpa using hh.path []
  have hlinks := h.links
  rw [hpath, List.isChain_append_cons_cons] at hlinks
  exact hlinks.2.1

/-- The halves stay linked while only the links of `x` and `y` across the seam change. -/
lemma Halves.congr (h : Halves z l₁ l₂ p x y q) (hp : (p ++ [x]).IsChain (Adjacent next prev))
    (hq : (y :: q).IsChain (Adjacent next prev))
    (hnext : ∀ a, some a ∈ z :: (l₁ ++ l₂).map some → x ≠ some a → next' a = next a)
    (hprev : ∀ a, some a ∈ z :: (l₁ ++ l₂).map some → y ≠ some a → prev' a = prev a) :
    (p ++ [x]).IsChain (Adjacent next' prev') ∧ (y :: q).IsChain (Adjacent next' prev') := by
  have hnodup := h.nodup
  have hsources : (p ++ [x] ++ l₂.map some).Nodup := by
    rw [← h.first]
    simpa using hnodup
  have htargets : (l₁.map some ++ y :: q).Nodup := by
    rw [← h.second]
    have hperm := List.perm_append_singleton z ((l₁ ++ l₂).map some)
    simpa using hperm.nodup_iff.mpr hnodup
  have hfirst : ∀ c, c ∈ p ++ [x] → c ∈ z :: (l₁ ++ l₂).map some := by
    intro c hc
    rw [← h.first, List.mem_cons] at hc
    rw [List.map_append, List.mem_cons, List.mem_append]
    exact hc.imp_right Or.inl
  have hsecond : ∀ c, c ∈ y :: q → c ∈ z :: (l₁ ++ l₂).map some := by
    intro c hc
    rw [← h.second, List.mem_append, List.mem_singleton] at hc
    rw [List.map_append, List.mem_cons, List.mem_append]
    exact hc.symm.imp_right Or.inr
  rw [List.nodup_append] at hsources htargets
  obtain ⟨hpx, _, hapart⟩ := hsources
  obtain ⟨_, hyq, hapart'⟩ := htargets
  rw [List.nodup_append] at hpx
  rw [List.nodup_cons] at hyq
  constructor
  · apply isChain_congr hp
    · intro a ha
      rw [List.dropLast_concat] at ha
      apply hnext a (hfirst _ (by simp [ha]))
      exact (hpx.2.2 _ ha x (by simp)).symm
    · intro a ha
      rw [← h.first, List.tail_cons] at ha
      apply hprev a
      · rw [List.map_append, List.mem_cons, List.mem_append]
        exact Or.inr (Or.inl ha)
      · exact (hapart' _ ha y (by simp)).symm
  · apply isChain_congr hq
    · intro a ha
      rw [← h.second, List.dropLast_concat] at ha
      apply hnext a
      · rw [List.map_append, List.mem_cons, List.mem_append]
        exact Or.inr (Or.inr ha)
      · exact hapart x (by simp) _ ha
    · intro a ha
      rw [List.tail_cons] at ha
      apply hprev a (hsecond _ (by simp [ha]))
      rintro rfl
      exact hyq.1 ha

end Halves

section Neighbours

variable {next prev : β → Option β} {z : Option β} {l l₁ l₂ : List β} {a b c : β}

lemma mem_cut (h : (l₁ ++ b :: l₂).Nodup) (a : β) : a ∈ l₁ ++ l₂ ↔ a ∈ l₁ ++ b :: l₂ ∧ a ≠ b := by
  grind

lemma head_null (l : List β) : ∃ q, l.map some ++ [none] = l.head? :: q := by
  cases l with
  | nil => exact ⟨[], rfl⟩
  | cons a l => exact ⟨l.map some ++ [none], rfl⟩

lemma Linked.next_eq (h : Linked next prev none (l₁ ++ b :: l₂)) : next b = l₂.head? := by
  obtain ⟨q, hq⟩ := head_null l₂
  have hl : Linked next prev none ((l₁ ++ [b]) ++ l₂) := by simpa using h
  have hh : Halves none (l₁ ++ [b]) l₂ (none :: l₁.map some) (some b) l₂.head? q := ⟨hl.nodup, by simp, hq⟩
  exact (hl.adjacent hh).1 b rfl

lemma Linked.next_base (h : Linked next prev (some c) (b :: l)) : next c = some b := by
  have hh : Halves (some c) [] (b :: l) [] (some c) (some b) (l.map some ++ [some c]) := ⟨h.nodup, rfl, rfl⟩
  exact (Linked.adjacent h hh).1 c rfl

lemma exists_behind (h : (z :: l.map some).Nodup) (ha : some a ∈ z :: l.map some) :
    ∃ l₁ l₂ p y q, l = l₁ ++ l₂ ∧ Halves z l₁ l₂ p (some a) y q := by
  rw [List.mem_cons] at ha
  rcases ha with rfl | ha
  · obtain ⟨y, q, hq⟩ : ∃ y q, l.map some ++ [some a] = y :: q := List.exists_cons_of_ne_nil (by simp)
    exact ⟨[], l, [], y, q, rfl, ⟨h, rfl, hq⟩⟩
  · obtain ⟨l₁, l₂, rfl⟩ : ∃ l₁ l₂, l = l₁ ++ a :: l₂ := List.append_of_mem (by simpa using ha)
    obtain ⟨y, q, hq⟩ : ∃ y q, l₂.map some ++ [z] = y :: q := List.exists_cons_of_ne_nil (by simp)
    exact ⟨l₁ ++ [a], l₂, z :: l₁.map some, y, q, by simp, ⟨by simpa using h, by simp, hq⟩⟩

lemma exists_before (h : (z :: l.map some).Nodup) (ha : some a ∈ z :: l.map some) :
    ∃ l₁ l₂ p x q, l = l₁ ++ l₂ ∧ Halves z l₁ l₂ p x (some a) q := by
  rw [List.mem_cons] at ha
  rcases ha with rfl | ha
  · obtain ⟨p, x, y, q, hh⟩ := exists_halves (show (some a :: (l ++ []).map some).Nodup by simpa using h)
    have hsecond := hh.second
    simp at hsecond
    obtain ⟨rfl, rfl⟩ := hsecond
    exact ⟨l, [], p, x, [], by simp, hh⟩
  · obtain ⟨l₁, l₂, rfl⟩ : ∃ l₁ l₂, l = l₁ ++ a :: l₂ := List.append_of_mem (by simpa using ha)
    obtain ⟨p, x, y, q, hh⟩ := exists_halves h
    have hsecond := hh.second
    simp at hsecond
    obtain ⟨rfl, rfl⟩ := hsecond
    exact ⟨l₁, a :: l₂, p, x, _, rfl, hh⟩

lemma Linked.neighbours (h : Linked next prev z l) (ha : some a ∈ z :: l.map some) :
    next a ∈ z :: l.map some ∧ prev a ∈ z :: l.map some := by
  constructor
  · obtain ⟨l₁, l₂, p, y, q, rfl, hh⟩ := exists_behind h.nodup ha
    rw [(h.adjacent hh).1 a rfl]
    exact hh.mem.2
  · obtain ⟨l₁, l₂, p, x, q, rfl, hh⟩ := exists_before h.nodup ha
    rw [(h.adjacent hh).2 a rfl]
    exact hh.mem.1

lemma Linked.next_iff (h : Linked next prev z l) (ha : some a ∈ z :: l.map some) (hb : some b ∈ z :: l.map some) :
    next a = some b ↔ prev b = some a := by
  constructor
  · intro hnext
    obtain ⟨l₁, l₂, p, y, q, rfl, hh⟩ := exists_behind h.nodup ha
    have hadj := h.adjacent hh
    exact hadj.2 b ((hadj.1 a rfl).symm.trans hnext)
  · intro hprev
    obtain ⟨l₁, l₂, p, x, q, rfl, hh⟩ := exists_before h.nodup hb
    have hadj := h.adjacent hh
    exact hadj.1 a ((hadj.2 b rfl).symm.trans hprev)

lemma Halves.ne {p q : List (Option β)} {x y : Option β} (h : Halves z l₁ l₂ p x y q) (hne : l₁ ++ l₂ ≠ []) :
    x ≠ y := by
  rintro rfl
  have hnodup := h.nodup
  have hfirst := h.first
  have hsecond := h.second
  rw [List.map_append, List.nodup_cons, List.nodup_append] at hnodup
  cases p with
  | nil =>
    simp at hfirst
    obtain ⟨rfl, rfl⟩ := hfirst
    cases l₂ with
    | nil => exact hne rfl
    | cons a l₂ =>
      simp at hsecond
      apply hnodup.1
      simp [hsecond.1]
  | cons c p =>
    rw [List.cons_append, List.cons.injEq] at hfirst
    have hx : x ∈ l₁.map some := by simp [hfirst.2]
    have hy : x ∈ l₂.map some ++ [z] := by simp [hsecond]
    rw [List.mem_append, List.mem_singleton] at hy
    rcases hy with hy | rfl
    · exact hnodup.2.2.2 x hx x hy rfl
    · exact hnodup.1 (List.mem_append_left _ hx)

lemma Linked.not_self (h : Linked next prev z l) (ha : some a ∈ z :: l.map some) (hl : l ≠ []) :
    next a ≠ some a ∧ prev a ≠ some a := by
  constructor
  · obtain ⟨l₁, l₂, p, y, q, rfl, hh⟩ := exists_behind h.nodup ha
    rw [(h.adjacent hh).1 a rfl]
    exact (hh.ne hl).symm
  · obtain ⟨l₁, l₂, p, x, q, rfl, hh⟩ := exists_before h.nodup ha
    rw [(h.adjacent hh).2 a rfl]
    exact hh.ne hl

end Neighbours

variable [DecidableEq β]

/-- The link field of the node `x`, if there is one, becomes `y`. -/
def store (f : β → Option β) (x y : Option β) : β → Option β :=
  match x with
  | none => f
  | some a => Function.update f a y

@[simp] lemma store_none (f : β → Option β) (y : Option β) : store f none y = f := rfl

@[simp] lemma store_some (f : β → Option β) (a : β) (y : Option β) :
    store f (some a) y = Function.update f a y := rfl

lemma store_of_ne {f : β → Option β} {x y : Option β} {a : β} (h : x ≠ some a) : store f x y a = f a := by
  cases x with
  | none => rfl
  | some c =>
    apply Function.update_of_ne
    intro he
    exact h (congrArg some he.symm)

section Editing

variable {next prev : β → Option β} {z x y : Option β} {l₁ l₂ : List β} {b : β} {p q : List (Option β)}

theorem Linked.unlink (h : Linked next prev z (l₁ ++ b :: l₂)) :
    Linked (store next (prev b) (next b)) (store prev (next b) (prev b)) z (l₁ ++ l₂) := by
  have hsub : (z :: (l₁ ++ l₂).map some).Sublist (z :: (l₁ ++ b :: l₂).map some) := by simp
  have hnodup := h.nodup.sublist hsub
  obtain ⟨p, x, y, q, hh⟩ := exists_halves hnodup
  have hpath : z :: (l₁ ++ b :: l₂).map some ++ [z] = p ++ x :: some b :: y :: q := by
    simpa using hh.path [b]
  have hpath' : z :: (l₁ ++ l₂).map some ++ [z] = p ++ x :: y :: q := by
    simpa using hh.path []
  have hlinks := h.links
  rw [hpath, List.isChain_append_cons_cons, List.isChain_cons_cons] at hlinks
  obtain ⟨hp, hbefore, hbehind, hq⟩ := hlinks
  rw [hbefore.2 b rfl, hbehind.1 b rfl]
  have hsame : (p ++ [x]).IsChain (Adjacent (store next x y) (store prev y x)) ∧
      (y :: q).IsChain (Adjacent (store next x y) (store prev y x)) := by
    apply hh.congr hp hq
    · intro a _ ha
      exact store_of_ne ha
    · intro a _ ha
      exact store_of_ne ha
  refine ⟨hnodup, ?_⟩
  rw [hpath', List.isChain_append_cons_cons]
  refine ⟨hsame.1, ⟨?_, ?_⟩, hsame.2⟩
  · rintro a rfl
    simp
  · rintro a rfl
    simp

/-- A new node between the two halves. -/
theorem Linked.link (h : Linked next prev z (l₁ ++ l₂)) (hh : Halves z l₁ l₂ p x y q)
    (hb : some b ∉ z :: (l₁ ++ l₂).map some) :
    Linked (store (Function.update next b y) x (some b)) (store (Function.update prev b x) y (some b)) z
      (l₁ ++ b :: l₂) := by
  have hpath : z :: (l₁ ++ b :: l₂).map some ++ [z] = p ++ x :: some b :: y :: q := by
    simpa using hh.path [b]
  have hpath' : z :: (l₁ ++ l₂).map some ++ [z] = p ++ x :: y :: q := by
    simpa using hh.path []
  have hlinks := h.links
  rw [hpath', List.isChain_append_cons_cons] at hlinks
  have hfresh : ∀ a, some a ∈ z :: (l₁ ++ l₂).map some → a ≠ b := by
    rintro a ha rfl
    exact hb ha
  have hsame : (p ++ [x]).IsChain (Adjacent (store (Function.update next b y) x (some b))
        (store (Function.update prev b x) y (some b))) ∧
      (y :: q).IsChain (Adjacent (store (Function.update next b y) x (some b))
        (store (Function.update prev b x) y (some b))) := by
    apply hh.congr hlinks.1 hlinks.2.2
    · intro a hmem ha
      rw [store_of_ne ha, Function.update_of_ne (hfresh a hmem)]
    · intro a hmem ha
      rw [store_of_ne ha, Function.update_of_ne (hfresh a hmem)]
  constructor
  · have hperm : (z :: (l₁ ++ b :: l₂).map some).Perm (some b :: z :: (l₁ ++ l₂).map some) := by
      have hmiddle : ((z :: l₁.map some) ++ some b :: l₂.map some).Perm _ := List.perm_middle
      simpa using hmiddle
    exact hperm.nodup_iff.mpr (List.nodup_cons.mpr ⟨hb, h.nodup⟩)
  · rw [hpath, List.isChain_append_cons_cons, List.isChain_cons_cons]
    have hx : x ≠ some b := fun he => hb (he ▸ hh.mem.1)
    have hy : y ≠ some b := fun he => hb (he ▸ hh.mem.2)
    refine ⟨hsame.1, ⟨?_, ?_⟩, ⟨?_, ?_⟩, hsame.2⟩
    · rintro a rfl
      simp
    · intro a ha
      rw [← Option.some.inj ha, store_of_ne hy, Function.update_self]
    · intro a ha
      rw [← Option.some.inj ha, store_of_ne hx, Function.update_self]
    · rintro a rfl
      simp

end Editing

section Lists

variable {next prev : β → Option β} {l l₁ l₂ : List β} {b : β}

lemma Linked.link_first (h : Linked next prev none l) (hb : b ∉ l) :
    Linked (Function.update next b l.head?) (store (Function.update prev b none) l.head? (some b)) none (b :: l) := by
  obtain ⟨q, hq⟩ := head_null l
  have hh : Halves none [] l [] none l.head? q := ⟨h.nodup, rfl, hq⟩
  apply Linked.link h hh
  simpa using hb

theorem Linked.unlink_mem (h : Linked next prev none l) (hb : b ∈ l) :
    ∃ l', Linked (store next (prev b) (next b)) (store prev (next b) (prev b)) none l' ∧
      l'.head? = (if l.head? = some b then next b else l.head?) ∧ ∀ a, a ∈ l' ↔ a ∈ l ∧ a ≠ b := by
  obtain ⟨l₁, l₂, rfl⟩ := List.append_of_mem hb
  have hnodup : (l₁ ++ b :: l₂).Nodup := by
    apply List.Nodup.of_map
    exact (List.nodup_cons.mp h.nodup).2
  refine ⟨l₁ ++ l₂, h.unlink, ?_, mem_cut hnodup⟩
  cases l₁ with
  | nil => simp [h.next_eq]
  | cons a l₁ =>
    have hne : a ≠ b := by
      rintro rfl
      simp at hnodup
    simp [hne]

end Lists

section Rings

variable {next prev : β → Option β} {l : List β} {b c : β}

lemma Linked.link_last (h : Linked next prev (some c) l) (hb : b ∉ c :: l) :
    Linked (store (Function.update next b (some c)) (prev c) (some b))
      (Function.update (Function.update prev b (prev c)) c (some b)) (some c) (l ++ [b]) := by
  have hl : Linked next prev (some c) (l ++ []) := by simpa using h
  obtain ⟨p, x, y, q, hh⟩ := exists_halves hl.nodup
  have hsecond := hh.second
  simp at hsecond
  obtain ⟨rfl, rfl⟩ := hsecond
  rw [(hl.adjacent hh).2 c rfl]
  apply Linked.link hl hh
  simpa using hb

theorem Linked.ring_unlink (h : Linked next prev (some c) l) (hb : b ∈ c :: l) (hl : l ≠ []) :
    ∃ d l', (if b = c then next c else some c) = some d ∧
      Linked (store next (prev b) (next b)) (store prev (next b) (prev b)) (some d) l' ∧
      ∀ a, a ∈ d :: l' ↔ a ∈ c :: l ∧ a ≠ b := by
  have hnodup : (c :: l).Nodup := by
    apply List.Nodup.of_map some
    exact h.nodup
  by_cases hbc : b = c
  · subst hbc
    cases l with
    | nil => exact absurd rfl hl
    | cons d l =>
      refine ⟨d, l, by rw [if_pos rfl, h.next_base], by simpa using h.rotate.unlink, ?_⟩
      have hcut : ∀ a, a ∈ [] ++ (d :: l) ↔ a ∈ [] ++ b :: d :: l ∧ a ≠ b := mem_cut hnodup
      simpa using hcut
  · have hmem : b ∈ l := by simpa [hbc] using hb
    obtain ⟨l₁, l₂, rfl⟩ := List.append_of_mem hmem
    have hcut : ∀ a, a ∈ (c :: l₁) ++ l₂ ↔ a ∈ (c :: l₁) ++ b :: l₂ ∧ a ≠ b := mem_cut hnodup
    exact ⟨c, l₁ ++ l₂, if_neg hbc, h.unlink, hcut⟩

end Rings

end Devos.LinkedList
