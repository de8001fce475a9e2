import Devos.Basic
import Devos.Library.Runs

/-! User and group ids over calls of `setuid`, `setgid` and `fork`. -/

namespace Devos.Kernel

open Runs

abbrev eperm : ℤ := 1

structure Ids where
  uid : Word
  euid : Word
  suid : Word
  gid : Word
  egid : Word
  sgid : Word

namespace Ids

def Unprivileged (p : Ids) : Prop := p.euid ≠ 0 ∧ p.uid ≠ 0

instance (p : Ids) : Decidable p.Unprivileged := inferInstanceAs (Decidable (_ ∧ _))

/-- `uid` is an `int`: compared as it is, and cut to 16 bits where it is stored. -/
def sysSetuid (p : Ids) (uid : BitVec 32) : Ids × ℤ :=
  if p.Unprivileged then
    if uid = p.uid.setWidth 32 ∨ p.suid = p.uid then ({ p with euid := uid.setWidth 16 }, 0) else (p, -eperm)
  else ({ p with euid := uid.setWidth 16, uid := uid.setWidth 16 }, 0)

def sysSetgid (p : Ids) (gid : BitVec 32) : Ids × ℤ :=
  if p.Unprivileged then
    if p.gid.setWidth 32 = gid ∨ p.sgid.setWidth 32 = gid then ({ p with egid := gid.setWidth 16 }, 0) else (p, -eperm)
  else ({ p with gid := gid.setWidth 16, egid := gid.setWidth 16 }, 0)

end Ids

/-- The ids of a task, and the slot of the task that has forked it. -/
structure Subject extends Ids where
  father : Option (Fin 64)

abbrev Subjects := Fin 64 → Option Subject

inductive IdCall where
  | setuid (i : Fin 64) (uid : BitVec 32)
  | setgid (i : Fin 64) (gid : BitVec 32)
  | fork (i : Fin 64)

/-- `copy_process` copies the ids with the rest of the task. -/
inductive IdStep (s : Subjects) : IdCall → Subjects → Prop
  | setuid {i p uid} : s i = some p →
      IdStep s (.setuid i uid) (Function.update s i (some { p with toIds := (p.sysSetuid uid).1 }))
  | setgid {i p gid} : s i = some p →
      IdStep s (.setgid i gid) (Function.update s i (some { p with toIds := (p.sysSetgid gid).1 }))
  | fork {i p nr} : s i = some p → nr ≠ 0 → s nr = none →
      IdStep s (.fork i) (Function.update s nr (some { p with father := some i }))
  | noFork {i p} : s i = some p → IdStep s (.fork i) s

/-- Task 0, with all ids 0. -/
def bootSubjects : Subjects := fun i => if i = 0 then some ⟨⟨0, 0, 0, 0, 0, 0⟩, none⟩ else none

def idSystem : System Subjects IdCall where
  init s := s = bootSubjects
  step := IdStep

/-- Task `i`, its children that are among `born`, their children, and so on. -/
inductive Descendant (s : Subjects) (born : Fin 64 → Prop) (i : Fin 64) : Fin 64 → Prop
  | self : Descendant s born i i
  | child {k j q} : Descendant s born i k → born j → s j = some q → q.father = some k → Descendant s born i j

/-- None of the tasks that are born of task `i` by forks among `born` is privileged. -/
def Powerless (s : Subjects) (born : Fin 64 → Prop) (i : Fin 64) : Prop :=
  ∀ j q, Descendant s born i j → s j = some q → q.Unprivileged

namespace Subjects

/-- No saved id has been set, and fathers stay in the table. -/
structure Plain (s : Subjects) : Prop where
  suid : ∀ j q, s j = some q → q.suid = 0
  father : ∀ j q k, s j = some q → q.father = some k → s k ≠ none

section Steps

variable {s s' s'' : Subjects} {i j k : Fin 64} {p q : Subject} {e : IdCall} {born : Fin 64 → Prop}

lemma sysSetuid_suid (p : Ids) (uid : BitVec 32) : (p.sysSetuid uid).1.suid = p.suid := by
  unfold Ids.sysSetuid
  split_ifs <;> rfl

/-- With a saved id of 0 the restricted branch leaves the real id only. -/
lemma sysSetuid_unprivileged {p : Ids} (hsuid : p.suid = 0) (hp : p.Unprivileged) (uid : BitVec 32) :
    (p.sysSetuid uid).1.Unprivileged := by
  obtain ⟨heuid, huid⟩ := hp
  rw [Ids.sysSetuid, if_pos ⟨heuid, huid⟩]
  split_ifs with hsame
  · rcases hsame with rfl | hsaved
    · refine ⟨?_, huid⟩
      rwa [BitVec.setWidth_setWidth_of_le _ (by decide), BitVec.setWidth_eq]
    · exact absurd (hsaved.symm.trans hsuid) huid
  · exact ⟨heuid, huid⟩

lemma sysSetgid_same (p : Ids) (gid : BitVec 32) : (p.sysSetgid gid).1.suid = p.suid ∧
    ((p.sysSetgid gid).1.Unprivileged ↔ p.Unprivileged) := by
  unfold Ids.sysSetgid
  split_ifs <;> exact ⟨rfl, Iff.rfl⟩

/-- Every task after a call is one that was there, perhaps with other ids, or the child of one. -/
lemma step_cases (h : IdStep s e s') :
    (∃ i p p', s i = some p ∧ s' = Function.update s i (some p') ∧ p'.father = p.father ∧ p'.suid = p.suid ∧
      (p.suid = 0 → p.Unprivileged → p'.Unprivileged)) ∨
    (∃ i p nr, s i = some p ∧ s nr = none ∧ s' = Function.update s nr (some { p with father := some i })) ∨ s' = s := by
  cases h with
  | @setuid i p uid hi =>
    exact Or.inl ⟨i, p, _, hi, rfl, rfl, sysSetuid_suid .., fun hsuid hp => sysSetuid_unprivileged hsuid hp uid⟩
  | @setgid i p gid hi =>
    obtain ⟨hsuid, hsame⟩ := sysSetgid_same p.toIds gid
    exact Or.inl ⟨i, p, _, hi, rfl, rfl, hsuid, fun _ hp => hsame.mpr hp⟩
  | @fork i p nr hi _ hnr => exact Or.inr (Or.inl ⟨i, p, nr, hi, hnr, rfl⟩)
  | noFork => exact Or.inr (Or.inr rfl)

lemma step_kept (h : IdStep s e s') (hj : s j ≠ none) : s' j ≠ none := by
  rcases step_cases h with ⟨i, p, p', _, rfl, _⟩ | ⟨i, p, nr, _, _, rfl⟩ | rfl
  · rw [Function.update_apply]
    split_ifs
    · exact Option.some_ne_none _
    · exact hj
  · rw [Function.update_apply]
    split_ifs
    · exact Option.some_ne_none _
    · exact hj
  · exact hj

lemma Plain.step (hs : Plain s) (h : IdStep s e s') : Plain s' := by
  have hkept : ∀ k, s k ≠ none → s' k ≠ none := fun k => step_kept h
  rcases step_cases h with ⟨i, p, p', hi, rfl, hfather, hsuid, _⟩ | ⟨i, p, nr, hi, hnr, rfl⟩ | rfl
  · constructor
    · intro j q hj
      rw [Function.update_apply] at hj
      split_ifs at hj
      · obtain rfl := Option.some.inj hj
        rw [hsuid]
        exact hs.suid i p hi
      · exact hs.suid j q hj
    · intro j q k hj hk
      rw [Function.update_apply] at hj
      split_ifs at hj
      · obtain rfl := Option.some.inj hj
        exact hkept k (hs.father i p k hi (hfather.symm.trans hk))
      · exact hkept k (hs.father j q k hj hk)
  · constructor
    · intro j q hj
      rw [Function.update_apply] at hj
      split_ifs at hj
      · obtain rfl := Option.some.inj hj
        exact hs.suid i p hi
      · exact hs.suid j q hj
    · intro j q k hj hk
      rw [Function.update_apply] at hj
      split_ifs at hj
      · obtain rfl := Option.some.inj hj
        obtain rfl := Option.some.inj hk
        exact hkept i (by rw [hi]; exact Option.some_ne_none p)
      · exact hkept k (hs.father j q k hj hk)
  · exact hs

/-- Task `i` with its descendants is among `D`, and none of these tasks is privileged. -/
structure Confined (born : Fin 64 → Prop) (i : Fin 64) (D : Set (Fin 64)) (s : Subjects) : Prop where
  self : i ∈ D
  child : ∀ j q k, s j = some q → q.father = some k → born j → k ∈ D → j ∈ D
  present : ∀ j ∈ D, s j ≠ none
  unprivileged : ∀ j ∈ D, ∀ q, s j = some q → q.Unprivileged

lemma Confined.powerless {D : Set (Fin 64)} (h : Confined born i D s) : Powerless s born i := by
  intro j q hd hj
  refine h.unprivileged j ?_ q hj
  clear hj
  induction hd with
  | self => exact h.self
  | child _ hborn hj hfather ih => exact h.child _ _ _ hj hfather hborn ih

lemma Confined.step {D : Set (Fin 64)} (h : Confined born i D s) (hs : Plain s) (hstep : IdStep s e s') :
    ∃ D', Confined born i D' s' := by
  have hkept : ∀ k, s k ≠ none → s' k ≠ none := fun k => step_kept hstep
  rcases step_cases hstep with ⟨m, p, p', hm, rfl, hfather, _, hids⟩ | ⟨m, p, nr, hm, hnr, rfl⟩ | rfl
  · refine ⟨D, h.self, ?_, fun j hj => hkept j (h.present j hj), ?_⟩
    · intro j q k hj hk hborn hkD
      rw [Function.update_apply] at hj
      split_ifs at hj with hjm
      · obtain rfl := Option.some.inj hj
        exact h.child j p k (hjm ▸ hm) (hfather.symm.trans hk) hborn hkD
      · exact h.child j q k hj hk hborn hkD
    · intro j hjD q hj
      rw [Function.update_apply] at hj
      split_ifs at hj with hjm
      · obtain rfl := Option.some.inj hj
        exact hids (hs.suid m p hm) (h.unprivileged m (hjm ▸ hjD) p hm)
      · exact h.unprivileged j hjD q hj
  · have hnew : nr ∉ D := fun hmem => h.present nr hmem hnr
    have hm₀ : m ≠ nr := by
      rintro rfl
      rw [hm] at hnr
      cases hnr
    refine ⟨{ j | j ∈ D ∨ j = nr ∧ m ∈ D }, Or.inl h.self, ?_, ?_, ?_⟩
    · intro j q k hj hk hborn hkD
      rw [Function.update_apply] at hj
      split_ifs at hj with hjn
      · obtain rfl := Option.some.inj hj
        obtain rfl := Option.some.inj hk
        exact Or.inr ⟨hjn, hkD.resolve_right fun hmn => hm₀ hmn.1⟩
      · refine Or.inl (h.child j q k hj hk hborn (hkD.resolve_right ?_))
        rintro ⟨rfl, _⟩
        exact hs.father j q k hj hk hnr
    · rintro j (hj | ⟨rfl, _⟩)
      · exact hkept j (h.present j hj)
      · rw [Function.update_self]
        exact Option.some_ne_none _
    · rintro j (hjD | ⟨rfl, hmD⟩) q hj
      · have hjn : j ≠ nr := by
          rintro rfl
          exact hnew hjD
        rw [Function.update_of_ne hjn] at hj
        exact h.unprivileged j hjD q hj
      · rw [Function.update_self] at hj
        obtain rfl := Option.some.inj hj
        exact h.unprivileged m hmD p hm
  · exact ⟨D, h⟩

end Steps

lemma bootSubjects_plain : Plain bootSubjects := by
  have htask : ∀ j q, bootSubjects j = some q → q = ⟨⟨0, 0, 0, 0, 0, 0⟩, none⟩ := by
    intro j q hj
    unfold bootSubjects at hj
    split_ifs at hj
    exact (Option.some.inj hj).symm
  constructor
  · intro j q hj
    rw [htask j q hj]
  · intro j q k hj hk
    rw [htask j q hj] at hk
    cases hk

lemma plain_of_reach {s : Subjects} (h : idSystem.Reach (fun _ _ => True) s) : Plain s := by
  refine h.invariant ?_ fun s e s' hs _ hstep => hs.step hstep
  rintro s rfl
  exact bootSubjects_plain

/-- A task with a real and an effective user id has both from then on, and so has every task that it or one of these
forks. -/
theorem never_regained {s s' : Subjects} {i : Fin 64} {p : Subject} {es : List IdCall}
    (h : idSystem.Reach (fun _ _ => True) s) (hi : s i = some p) (hp : p.Unprivileged)
    (hrun : System.Trace idSystem (fun _ _ => True) s es s') : Powerless s' (fun j => s j = none) i := by
  have hstart : Confined (fun j => s j = none) i {i} s := by
    refine ⟨rfl, ?_, ?_, ?_⟩
    · intro j q k hj _ hborn
      rw [hborn] at hj
      cases hj
    · rintro j rfl
      rw [hi]
      exact Option.some_ne_none p
    · rintro j rfl q hj
      rw [hi] at hj
      obtain rfl := Option.some.inj hj
      exact hp
  obtain ⟨_, D, hD⟩ := hrun.invariant (I := fun t => Plain t ∧ ∃ D, Confined (fun j => s j = none) i D t)
    (fun t e t' ht _ hstep => ⟨ht.1.step hstep, ht.2.elim fun D hD => hD.step ht.1 hstep⟩)
    ⟨plain_of_reach h, _, hstart⟩
  exact hD.powerless

/-- Task 1, which task 0 has forked. -/
def initForked : Subjects := Function.update bootSubjects 1 (some ⟨⟨0, 0, 0, 0, 0, 0⟩, some 0⟩)

def initLeft (s : Subjects) : Subjects := Function.update s 1 (some ⟨⟨5, 5, 0, 0, 0, 0⟩, some 0⟩)

lemma reach_initForked : idSystem.Reach (fun _ _ => True) initForked := by
  have hfork : IdStep bootSubjects (.fork 0) initForked :=
    .fork (p := ⟨⟨0, 0, 0, 0, 0, 0⟩, none⟩) rfl (by decide) rfl
  exact .next (.start rfl) trivial hfork

lemma step_initLeft {s : Subjects} (h : s 1 = some ⟨⟨0, 0, 0, 0, 0, 0⟩, some 0⟩) : IdStep s (.setuid 1 5) (initLeft s) :=
  .setuid h

/-- Task 1 has become user 5 and calls `setuid(0)`. -/
theorem never_regained_setuid : Powerless (initLeft initForked) (fun j => initLeft initForked j = none) 1 := by
  have hleft : IdStep initForked (.setuid 1 5) (initLeft initForked) := step_initLeft rfl
  have hagain : IdStep (initLeft initForked) (.setuid 1 0) (initLeft initForked) := by
    have hcall : IdStep (initLeft initForked) (.setuid 1 0) _ := .setuid rfl
    rwa [initLeft, Function.update_idem] at hcall
  exact never_regained (reach_initForked.next trivial hleft) rfl (by decide) (.single trivial hagain)

/-- A child from before `setuid(5)` has all ids 0 after it. -/
theorem child_still_privileged : ¬∀ s i p es s', idSystem.Reach (fun _ _ => True) s → s i = some p → p.Unprivileged →
    System.Trace idSystem (fun _ _ => True) s es s' → Powerless s' (fun _ => True) i := by
  intro hall
  have hfork : IdStep initForked (.fork 1) (Function.update initForked 2 (some ⟨⟨0, 0, 0, 0, 0, 0⟩, some 1⟩)) :=
    .fork (p := ⟨⟨0, 0, 0, 0, 0, 0⟩, some 0⟩) rfl (by decide) rfl
  have hleft := step_initLeft (s := Function.update initForked 2 (some ⟨⟨0, 0, 0, 0, 0, 0⟩, some 1⟩)) rfl
  have hnone := hall _ 1 _ [] _ ((reach_initForked.next trivial hfork).next trivial hleft) rfl (by decide) .nil
  exact (hnone 2 _ (.child .self trivial rfl rfl) rfl).1 rfl

end Subjects

end Devos.Kernel
