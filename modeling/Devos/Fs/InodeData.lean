import Devos.Fs.InodeTable
import Devos.Library.RefCount
import Devos.Library.WriteBack

/-! The table of inodes as a cache of those on the disk: whoever holds an inode sees it as it was last changed, and what
is not marked dirty is on the disk. -/

namespace Devos.Fs

open Runs WriteBack RefCount

/-- Where a process is in `sync_inodes`. -/
inductive SyncCall where
  | scanning (i : ℕ)
  | writing (i : Fin nrInode)

structure SyncedInodes (P : Type*) where
  inodes : Inodes P
  sync : P → Option SyncCall

section Step

variable {P : Type*} [DecidableEq P]

def InodeEvent.process : InodeEvent P → P
  | .iget x _ _ | .iput x _ | .resume x | .hold x _ | .modify x _ _ | .truncate x _ => x

/-- The calls themselves change no inode, but for the one that `free_inode` clears. -/
def Inodes.Quiet (s : Inodes P) : InodeEvent P → Prop
  | .modify _ _ _ | .truncate _ _ => False
  | .resume x => ∀ k ret, s.call x ≠ .truncating k ret
  | _ => True

def Inodes.name (s : Inodes P) (k : Fin nrInode) : Word × Word := ((s.entry k).iDev, (s.entry k).iNum)

/-- What the processes do, with `sync_inodes` besides. -/
inductive SyncedStep : SyncedInodes P → Access (Word × Word) DInode → SyncedInodes P → Prop
  | call {s s' w e} : InodeStep s e s' → s.Quiet e → w e.process = none → SyncedStep ⟨s, w⟩ .silent ⟨s', w⟩
  | modify {s s' w x k d} : InodeStep s (.modify x k d) s' → SyncedStep ⟨s, w⟩ (.store (s.name k) d) ⟨s', w⟩
  | truncate {s s' w x k ret d} : s.call x = .truncating k ret → InodeStep s (.truncate x d) s' →
      SyncedStep ⟨s, w⟩ (.store (s.name k) d) ⟨s', w⟩
  | free {s s' w x k ret} : s.call x = .truncating k ret → InodeStep s (.resume x) s' →
      SyncedStep ⟨s, w⟩ (.forget (s.name k)) ⟨s', w⟩
  | look {s w x k} : k ∈ s.refs x → SyncedStep ⟨s, w⟩ (.load (s.name k) (s.entry k).dinode) ⟨s, w⟩
  | syncStart {s w x} : s.call x = .outside → w x = none →
      SyncedStep ⟨s, w⟩ .silent ⟨s, Function.update w x (some (.scanning 0))⟩
  | syncNext {s w x} {i : Fin nrInode} : w x = some (.scanning i) → (s.entry i).iLock = false →
      (s.entry i).iDirt = false → SyncedStep ⟨s, w⟩ .silent ⟨s, Function.update w x (some (.scanning (i + 1)))⟩
  | syncWrite {s w x} {i : Fin nrInode} : w x = some (.scanning i) → (s.entry i).iLock = false →
      (s.entry i).iDirt = true →
      SyncedStep ⟨s, w⟩ .silent ⟨s.setLock i true, Function.update w x (some (.writing i))⟩
  | syncWritten {s w x} {i : Fin nrInode} : w x = some (.writing i) →
      SyncedStep ⟨s, w⟩ .silent ⟨s.writeBack i, Function.update w x (some (.scanning (i + 1)))⟩
  | syncEnd {s w x} : w x = some (.scanning nrInode) → SyncedStep ⟨s, w⟩ .silent ⟨s, Function.update w x none⟩

end Step

namespace InodeCall

/-- The entries in whose `i_count` the call is counted. -/
def counted : InodeCall → List (Fin nrInode)
  | .scanWait _ _ e _ => [e]
  | .readLock k | .reading k => [k]
  | .putWait k ret | .putWrite k ret | .truncating k ret => k :: ret.toList
  | _ => []

def locks : InodeCall → Option (Fin nrInode)
  | .emptyWrite _ _ k | .reading k | .putWrite k _ => some k
  | _ => none

end InodeCall

namespace Inodes

section Invariant

variable {P : Type*} (s : Inodes P)

def uses (x : P) : List (Fin nrInode) := s.refs x ++ (s.call x).counted

/-- The lock of an entry is a call's, or that of a `sync_inodes`. -/
def Owns (w : P → Option SyncCall) : P × Bool → Fin nrInode → Prop
  | (x, false), k => (s.call x).locks = some k
  | (x, true), k => w x = some (.writing k)

def Spare (e : Fin nrInode) : Prop :=
  (s.entry e).iDev = 0 ∧ (s.entry e).iLock = false ∧ (s.entry e).iDirt = false ∧ (s.entry e).iCount = 1

def Named (k : Fin nrInode) : Prop := (s.entry k).iDev ≠ 0

/-- What a call relies on while it sleeps. -/
def Fine : InodeCall → Prop
  | .outside => True
  | .emptyWait dev _ _ | .emptyWrite dev _ _ => dev ≠ 0
  | .scanWait dev _ e _ => dev ≠ 0 ∧ s.Spare e
  | .readLock _ => False
  | .reading k => (s.entry k).iCount = 1 ∧ (s.entry k).iDirt = false
  | .putWait _ ret => ∀ i ∈ ret, s.Named i
  | .putWrite k ret | .truncating k ret => s.Named k ∧ ∀ i ∈ ret, s.Named i

variable [Fintype P]

structure Settled (w : P → Option SyncCall) : Prop where
  counts : ∀ k, (s.entry k).iCount.toNat = total s.uses k
  fine : ∀ x, s.Fine (s.call x)
  refs : ∀ x, ∀ k ∈ s.refs x, s.Named k
  locked : ∀ o k, s.Owns w o k → (s.entry k).iLock = true ∧ s.Named k
  alone : ∀ o o' k, s.Owns w o k → s.Owns w o' k → o = o'
  dirty : ∀ k, (s.entry k).iDirt = true → s.Named k

end Invariant

section Changes

variable {P : Type*} {s s' : Inodes P} {w w' : P → Option SyncCall} {x y : P} {k : Fin nrInode}

/-- What others rely on stays if they neither read the entry in nor have it spare. -/
lemma Fine.of_entry {c : InodeCall} (h : s.Fine c) (hentry : ∀ j, j ≠ k → s'.entry j = s.entry j)
    (hread : c ≠ .reading k) (hspare : ∀ dev nr i, c ≠ .scanWait dev nr k i)
    (hnamed : k ∈ c.counted → s.Named k → s'.Named k) : s'.Fine c := by
  have hkeep : ∀ j ∈ c.counted, s.Named j → s'.Named j := by
    intro j hj hn
    by_cases hjk : j = k
    · subst hjk
      exact hnamed hj hn
    · unfold Named
      rwa [hentry j hjk]
  cases c with
  | outside => trivial
  | emptyWait => exact h
  | emptyWrite => exact h
  | scanWait dev nr e i =>
    have he : e ≠ k := by
      rintro rfl
      exact hspare dev nr i rfl
    refine ⟨h.1, ?_⟩
    unfold Spare
    rw [hentry e he]
    exact h.2
  | readLock => exact h
  | reading j =>
    have hj : j ≠ k := by
      rintro rfl
      exact hread rfl
    change (s'.entry j).iCount = 1 ∧ (s'.entry j).iDirt = false
    rw [hentry j hj]
    exact h
  | putWait j ret => exact fun i hi => hkeep i (List.mem_cons_of_mem _ (Option.mem_toList.mpr hi)) (h i hi)
  | putWrite j ret =>
    exact ⟨hkeep j List.mem_cons_self h.1,
      fun i hi => hkeep i (List.mem_cons_of_mem _ (Option.mem_toList.mpr hi)) (h.2 i hi)⟩
  | truncating j ret =>
    exact ⟨hkeep j List.mem_cons_self h.1,
      fun i hi => hkeep i (List.mem_cons_of_mem _ (Option.mem_toList.mpr hi)) (h.2 i hi)⟩

lemma owns_of_call (hcall : ∀ y, y ≠ x → s'.call y = s.call y) {o : P × Bool} (ho : o ≠ (x, false)) {j : Fin nrInode}
    (h : s'.Owns w o j) : s.Owns w o j := by
  obtain ⟨y, b⟩ := o
  cases b with
  | true => exact h
  | false =>
    have hy : y ≠ x := fun he => ho (by rw [he])
    change (s.call y).locks = some j
    rw [← hcall y hy]
    exact h

variable [DecidableEq P] [Fintype P]

lemma Settled.two_users (h : s.Settled w) (hne : x ≠ y) (hx : k ∈ s.uses x) (hy : k ∈ s.uses y) :
    2 ≤ (s.entry k).iCount.toNat := by
  rw [h.counts]
  exact two_le_total hne hx hy

/-- A process changes one entry, and what it holds and locks itself. -/
lemma Settled.change {o : P × Bool} (h : s.Settled w) (hentry : ∀ j, j ≠ k → s'.entry j = s.entry j)
    (hcall : ∀ y, y ≠ o.1 → s'.call y = s.call y) (hrefs : ∀ y, y ≠ o.1 → s'.refs y = s.refs y)
    (howns : ∀ o', o' ≠ o → ∀ j, s'.Owns w' o' j → s.Owns w o' j)
    (hcount : ∀ j, (s'.entry j).iCount.toNat + (s.uses o.1).count j =
      (s.entry j).iCount.toNat + (s'.uses o.1).count j)
    (hother : ∀ y, y ≠ o.1 → s'.Fine (s.call y))
    (hnamed : ∀ y, y ≠ o.1 → k ∈ s.uses y → s.Named k → s'.Named k)
    (hlocked : ∀ o', o' ≠ o → s.Owns w o' k → (s'.entry k).iLock = true ∧ s'.Named k)
    (hlock : ∀ j, s'.Owns w' o j → (s'.entry j).iLock = true ∧ s'.Named j ∧ ∀ o', o' ≠ o → ¬ s.Owns w o' j)
    (hfine : s'.Fine (s'.call o.1)) (hmine : ∀ j ∈ s'.refs o.1, s'.Named j)
    (hdirty : (s'.entry k).iDirt = true → s'.Named k) : s'.Settled w' := by
  have hkeep : ∀ j, j ≠ k → s.Named j → s'.Named j := by
    intro j hj hn
    unfold Named
    rwa [hentry j hj]
  refine ⟨?_, ?_, ?_, ?_, ?_, ?_⟩
  · intro j
    have huses : ∀ y, y ≠ o.1 → s'.uses y = s.uses y := by
      intro y hy
      rw [uses, uses, hrefs y hy, hcall y hy]
    have htotal := total_change huses j
    have hcounts := h.counts j
    have := hcount j
    omega
  · intro y
    by_cases hy : y = o.1
    · rw [hy]
      exact hfine
    · rw [hcall y hy]
      exact hother y hy
  · intro y j hj
    by_cases hy : y = o.1
    · subst hy
      exact hmine j hj
    · rw [hrefs y hy] at hj
      by_cases hjk : j = k
      · subst hjk
        exact hnamed y hy (List.mem_append_left _ hj) (h.refs y j hj)
      · exact hkeep j hjk (h.refs y j hj)
  · intro o' j ho
    by_cases hoo : o' = o
    · subst hoo
      exact ⟨(hlock j ho).1, (hlock j ho).2.1⟩
    · have ho := howns o' hoo j ho
      by_cases hjk : j = k
      · subst hjk
        exact hlocked o' hoo ho
      · rw [hentry j hjk]
        exact ⟨(h.locked o' j ho).1, hkeep j hjk (h.locked o' j ho).2⟩
  · intro o₁ o₂ j ho₁ ho₂
    by_cases h₁ : o₁ = o
    · by_cases h₂ : o₂ = o
      · rw [h₁, h₂]
      · subst h₁
        exact absurd (howns o₂ h₂ j ho₂) ((hlock j ho₁).2.2 o₂ h₂)
    · by_cases h₂ : o₂ = o
      · subst h₂
        exact absurd (howns o₁ h₁ j ho₁) ((hlock j ho₂).2.2 o₁ h₁)
      · exact h.alone o₁ o₂ j (howns o₁ h₁ j ho₁) (howns o₂ h₂ j ho₂)
  · intro j hj
    by_cases hjk : j = k
    · subst hjk
      exact hdirty hj
    · rw [hentry j hjk] at hj
      exact hkeep j hjk (h.dirty j hj)

omit [DecidableEq P] in
/-- An entry that is being read in, or spare, has one user and nothing to be written. -/
lemma Settled.sole (h : s.Settled w) (hy : s.call y = .reading k ∨ ∃ dev nr i, s.call y = .scanWait dev nr k i) :
    k ∈ (s.call y).counted ∧ (s.entry k).iCount = 1 ∧ (s.entry k).iDirt = false := by
  have hfine := h.fine y
  rcases hy with hr | ⟨dev, nr, i, hs⟩
  · rw [hr] at hfine ⊢
    exact ⟨List.mem_cons_self, hfine⟩
  · rw [hs] at hfine ⊢
    exact ⟨List.mem_cons_self, hfine.2.2.2.2, hfine.2.2.2.1⟩

omit [DecidableEq P] in
lemma Settled.unread (h : s.Settled w) (hk : (s.entry k).iCount = 0 ∨ (s.entry k).iDirt = true) (y : P) :
    s.call y ≠ .reading k ∧ ∀ dev nr i, s.call y ≠ .scanWait dev nr k i := by
  have hnot : ¬ (s.call y = .reading k ∨ ∃ dev nr i, s.call y = .scanWait dev nr k i) := by
    intro hy
    obtain ⟨-, hone, hclean⟩ := h.sole hy
    rcases hk with hk | hk
    · rw [hone] at hk
      exact absurd hk (by decide)
    · rw [hclean] at hk
      cases hk
  exact ⟨fun hr => hnot (Or.inl hr), fun dev nr i hs => hnot (Or.inr ⟨dev, nr, i, hs⟩)⟩

lemma Settled.unshared (h : s.Settled w) (hk : k ∈ s.uses x) (hy : y ≠ x) :
    s.call y ≠ .reading k ∧ ∀ dev nr i, s.call y ≠ .scanWait dev nr k i := by
  have hnot : ¬ (s.call y = .reading k ∨ ∃ dev nr i, s.call y = .scanWait dev nr k i) := by
    intro hc
    obtain ⟨hmem, hone, -⟩ := h.sole hc
    have htwo := h.two_users hy (List.mem_append_right _ hmem) hk
    rw [hone] at htwo
    exact absurd htwo (by decide)
  exact ⟨fun hr => hnot (Or.inl hr), fun dev nr i hs => hnot (Or.inr ⟨dev, nr, i, hs⟩)⟩

/-- Nor has its user it in hand already. -/
lemma Settled.unread_of_refs (h : s.Settled w) (hk : k ∈ s.refs x) (y : P) :
    s.call y ≠ .reading k ∧ ∀ dev nr i, s.call y ≠ .scanWait dev nr k i := by
  by_cases hy : y = x
  · subst hy
    have hnot : ¬ (s.call y = .reading k ∨ ∃ dev nr i, s.call y = .scanWait dev nr k i) := by
      intro hc
      obtain ⟨hmem, hone, -⟩ := h.sole hc
      have hle := count_le_total s.uses y k
      have hpos := List.count_pos_iff.mpr hk
      have hpos' := List.count_pos_iff.mpr hmem
      rw [← h.counts, hone, uses, List.count_append] at hle
      change _ ≤ 1 at hle
      omega
    exact ⟨fun hr => hnot (Or.inl hr), fun dev nr i hs => hnot (Or.inr ⟨dev, nr, i, hs⟩)⟩
  · exact h.unshared (List.mem_append_left _ hk) hy

end Changes

section Operations

variable {P : Type*}

/-- The table as a cache. An entry is not valid before it has been read in. -/
def cache (s : Inodes P) : Cache (Fin nrInode) (Word × Word) DInode where
  holds k key := s.name k = key ∧ s.Named k
  value k := (s.entry k).dinode
  valid k := ∀ x, s.call x ≠ .reading k
  dirty k := (s.entry k).iDirt = true
  back key := s.disk key.1 key.2

variable {s s' : Inodes P} {w : P → Option SyncCall} {m : Mapping (Word × Word) DInode} {x : P}
  {k : Fin nrInode} {ret : Option (Fin nrInode)} {dev nr : Word} {c c' : InodeCall}

lemma cache_back (s : Inodes P) (key : Word × Word) : s.cache.back key = s.disk key.1 key.2 := rfl

lemma Sound.distinct (h : Sound s) : s.cache.Distinct := by
  refine ⟨?_, ?_⟩
  · rintro i j key ⟨rfl, hi⟩ ⟨hj, _⟩
    obtain ⟨hdev, hnum⟩ := Prod.mk.inj hj
    exact h.unique i j hi hdev.symm hnum.symm
  · rintro i key key' ⟨rfl, _⟩ ⟨rfl, _⟩
    rfl

/-- Locks, counts and calls do not matter, but for a call that reads an entry in. -/
lemma agrees_of_entry (h : s.cache.Agrees m)
    (hentry : ∀ j, s'.name j = s.name j ∧ (s'.entry j).dinode = (s.entry j).dinode ∧
      (s'.entry j).iDirt = (s.entry j).iDirt)
    (hdisk : s'.disk = s.disk) (hread : ∀ y j, s.call y = .reading j → ∃ z, s'.call z = .reading j) :
    s'.cache.Agrees m := by
  have hholds : ∀ j key, s'.cache.holds j key ↔ s.cache.holds j key := by
    intro j key
    have hname := (hentry j).1
    have hdev := (Prod.mk.inj hname).1
    change s'.name j = key ∧ (s'.entry j).iDev ≠ 0 ↔ s.name j = key ∧ (s.entry j).iDev ≠ 0
    rw [hname, hdev]
  refine h.keep ?_ ?_ ?_
  · intro j key hj hvalid
    refine ⟨(hholds j key).mp hj, fun y hy => ?_, (hentry j).2.1⟩
    obtain ⟨z, hz⟩ := hread y j hy
    exact hvalid z hz
  · intro j key hj hd
    exact ⟨(hholds j key).mpr hj, (hentry j).2.2.trans hd⟩
  · funext key
    change s'.disk key.1 key.2 = s.disk key.1 key.2
    rw [hdisk]

section Updates

variable {e : InodeEntry} (hentry : s'.entry = Function.update s.entry k e)
include hentry

lemma entry_self : s'.entry k = e := by rw [hentry, Function.update_self]

lemma entry_of_ne {j : Fin nrInode} (hj : j ≠ k) : s'.entry j = s.entry j := by
  rw [hentry, Function.update_of_ne hj]

lemma holds_of_ne {j : Fin nrInode} {key : Word × Word} (hj : j ≠ k) : s'.cache.holds j key ↔ s.cache.holds j key := by
  change s'.name j = key ∧ s'.Named j ↔ s.name j = key ∧ s.Named j
  unfold name Named
  rw [entry_of_ne hentry hj]

lemma holds_of_name (hdev : e.iDev = (s.entry k).iDev) (hnum : e.iNum = (s.entry k).iNum) {j : Fin nrInode}
    {key : Word × Word} : s'.cache.holds j key ↔ s.cache.holds j key := by
  by_cases hj : j = k
  · subst hj
    change s'.name j = key ∧ s'.Named j ↔ s.name j = key ∧ s.Named j
    unfold name Named
    rw [entry_self hentry, hdev, hnum]
  · exact holds_of_ne hentry hj

lemma named_of_dev (hdev : e.iDev = (s.entry k).iDev) {j : Fin nrInode} : s'.Named j ↔ s.Named j := by
  unfold Named
  by_cases hj : j = k
  · rw [hj, entry_self hentry, hdev]
  · rw [entry_of_ne hentry hj]

lemma count_of_update (hcount : e.iCount = (s.entry k).iCount) (j : Fin nrInode) :
    (s'.entry j).iCount = (s.entry j).iCount := by
  by_cases hj : j = k
  · rw [hj, entry_self hentry, hcount]
  · rw [entry_of_ne hentry hj]

lemma agrees_of_update (h : s.cache.Agrees m) (hdev : e.iDev = (s.entry k).iDev) (hnum : e.iNum = (s.entry k).iNum)
    (hdinode : e.dinode = (s.entry k).dinode) (hdirt : e.iDirt = (s.entry k).iDirt) (hdisk : s'.disk = s.disk)
    (hread : ∀ y j, s.call y = .reading j → ∃ z, s'.call z = .reading j) : s'.cache.Agrees m := by
  refine agrees_of_entry h (fun j => ?_) hdisk hread
  unfold name
  by_cases hj : j = k
  · rw [hj, entry_self hentry, hdev, hnum]
    exact ⟨rfl, hdinode, hdirt⟩
  · rw [entry_of_ne hentry hj]
    exact ⟨rfl, rfl, rfl⟩

/-- An entry that was not dirty gets another inode, or none, and is not valid before it is read in. -/
lemma agrees_of_unread (h : s.cache.Agrees m) (hclean : (s.entry k).iDirt = false)
    (hout : s'.Named k → ∃ z, s'.call z = .reading k) (hdisk : s'.disk = s.disk)
    (hread : ∀ y j, s.call y = .reading j → ∃ z, s'.call z = .reading j) : s'.cache.Agrees m := by
  refine h.keep (fun j key hj hvalid => ?_) (fun j key hj hd => ?_) ?_
  · have hjk : j ≠ k := by
      rintro rfl
      obtain ⟨z, hz⟩ := hout hj.2
      exact hvalid z hz
    refine ⟨(holds_of_ne hentry hjk).mp hj, fun y hy => ?_, congrArg InodeEntry.dinode (entry_of_ne hentry hjk)⟩
    obtain ⟨z, hz⟩ := hread y j hy
    exact hvalid z hz
  · have hjk : j ≠ k := by
      rintro rfl
      exact Bool.false_ne_true (hclean.symm.trans hd)
    exact ⟨(holds_of_ne hentry hjk).mpr hj, (congrArg InodeEntry.iDirt (entry_of_ne hentry hjk)).trans hd⟩
  · funext key
    change s'.disk key.1 key.2 = s.disk key.1 key.2
    rw [hdisk]

end Updates

variable [DecidableEq P]

lemma call_setCall (s : Inodes P) (x : P) (c : InodeCall) : (s.setCall x c).call x = c := Function.update_self _ _ _

lemma uses_setCall (s : Inodes P) (x : P) (c : InodeCall) : (s.setCall x c).uses x = s.refs x ++ c.counted := by
  rw [uses, call_setCall]
  rfl

lemma setCall_setCall (s : Inodes P) (x : P) (c c' : InodeCall) : (s.setCall x c).setCall x c' = s.setCall x c' := by
  simp [setCall]

lemma setCall_self (s : Inodes P) (x : P) : s.setCall x (s.call x) = s := by
  simp [setCall]

/-- A call that reads nothing in goes on to another place. -/
lemma reading_of_setCall {y : P} {j : Fin nrInode} (hread : ∀ j, c ≠ .reading j)
    (hy : (s.setCall x c).call y = .reading j) : y ≠ x ∧ s.call y = .reading j := by
  by_cases hyx : y = x
  · subst hyx
    rw [call_setCall] at hy
    exact absurd hy (hread j)
  · exact ⟨hyx, (Function.update_of_ne hyx _ _).symm.trans hy⟩

lemma call_of_setCall {t : Inodes P} (hcall : t.call = s.call) {y : P} (hy : y ≠ x) :
    (t.setCall x c').call y = (s.setCall x c).call y := by
  rw [setCall, setCall]
  dsimp only
  rw [Function.update_of_ne hy, Function.update_of_ne hy, hcall]

variable [Fintype P]

structure Kept (s : Inodes P) (w : P → Option SyncCall) (m : Mapping (Word × Word) DInode) : Prop where
  settled : s.Settled w
  agrees : s.cache.Agrees m

lemma Kept.move (h : Kept (s.setCall x c) w m) (hcount : ∀ j, c'.counted.count j = c.counted.count j)
    (hlock : c'.locks = none) (hread : ∀ j, c ≠ .reading j) (hfine : s.Fine c') : Kept (s.setCall x c') w m := by
  refine ⟨h.settled.change (k := 0) (o := (x, false)) (fun _ _ => rfl) (fun _ hy => call_of_setCall rfl hy)
    (fun _ _ => rfl) (fun _ ho _ => owns_of_call (fun _ hy => call_of_setCall rfl hy) ho) (fun j => ?_)
    (fun y _ => h.settled.fine y) (fun _ _ _ hn => hn) (fun o _ ho => h.settled.locked o 0 ho) (fun j hj => ?_) ?_
    (h.settled.refs x) (h.settled.dirty 0), ?_⟩
  · rw [uses_setCall, uses_setCall, List.count_append, List.count_append, hcount]
    rfl
  · change ((s.setCall x c').call x).locks = some j at hj
    rw [call_setCall, hlock] at hj
    cases hj
  · rw [call_setCall]
    exact hfine
  · refine agrees_of_entry h.agrees (fun _ => ⟨rfl, rfl, rfl⟩) rfl fun y j hy => ?_
    obtain ⟨hyx, hy⟩ := reading_of_setCall hread hy
    exact ⟨y, (Function.update_of_ne hyx _ _).trans hy⟩

omit [DecidableEq P] in
/-- Nobody has the lock of an entry that is not locked. -/
lemma Settled.unlocked (h : s.Settled w) (hfree : (s.entry k).iLock = false) (o : P × Bool) : ¬ s.Owns w o k := by
  intro ho
  rw [(h.locked o k ho).1] at hfree
  cases hfree

/-- An inode that is to be written is locked. -/
lemma Kept.lock (h : Kept (s.setCall x c) w m) (hfree : (s.entry k).iLock = false) (hdirt : (s.entry k).iDirt = true)
    (hcount : ∀ j, c'.counted.count j = c.counted.count j) (hread : ∀ j, c ≠ .reading j)
    (hwrite : (∃ dev nr, c' = .emptyWrite dev nr k) ∨ ∃ ret, c' = .putWrite k ret) (hfine : s.Fine c') :
    Kept ((s.setLock k true).setCall x c') w m := by
  have hentry : ((s.setLock k true).setCall x c').entry = Function.update (s.setCall x c).entry k
      { s.entry k with iLock := true } := rfl
  have hnamed : ∀ {j}, ((s.setLock k true).setCall x c').Named j ↔ (s.setCall x c).Named j := named_of_dev hentry rfl
  have hlock : c'.locks = some k := by
    rcases hwrite with ⟨_, _, rfl⟩ | ⟨_, rfl⟩ <;> rfl
  refine ⟨h.settled.change (o := (x, false)) (fun j hj => entry_of_ne hentry hj) (fun _ hy => call_of_setCall rfl hy)
    (fun _ _ => rfl) (fun _ ho _ => owns_of_call (fun _ hy => call_of_setCall rfl hy) ho) (fun j => ?_)
    (fun y hy => ?_) (fun _ _ _ hn => hnamed.mpr hn) (fun o _ ho => absurd ho (h.settled.unlocked hfree o))
    (fun j hj => ?_) ?_ (fun j hj => hnamed.mpr (h.settled.refs x j hj))
    (fun _ => hnamed.mpr (h.settled.dirty k hdirt)), ?_⟩
  · rw [count_of_update hentry rfl, uses_setCall, uses_setCall, List.count_append, List.count_append, hcount]
    rfl
  · obtain ⟨hr, hs⟩ := h.settled.unread (Or.inr hdirt) y
    exact Fine.of_entry (h.settled.fine y) (fun j hj => entry_of_ne hentry hj) hr hs fun _ hn => hnamed.mpr hn
  · change (((s.setLock k true).setCall x c').call x).locks = some j at hj
    rw [call_setCall, hlock] at hj
    obtain rfl := Option.some.inj hj
    refine ⟨by rw [entry_self hentry], hnamed.mpr (h.settled.dirty k hdirt), fun o _ => h.settled.unlocked hfree o⟩
  · rw [call_setCall]
    refine Fine.of_entry (s := s) hfine (fun j hj => entry_of_ne hentry hj) ?_ ?_ fun _ hn => hnamed.mpr hn
    · rintro rfl
      rcases hwrite with ⟨_, _, hw⟩ | ⟨_, hw⟩ <;> cases hw
    · rintro dev nr i rfl
      rcases hwrite with ⟨_, _, hw⟩ | ⟨_, hw⟩ <;> cases hw
  · refine agrees_of_update hentry h.agrees rfl rfl rfl rfl rfl fun y j hy => ?_
    obtain ⟨hyx, hy⟩ := reading_of_setCall hread hy
    exact ⟨y, (Function.update_of_ne hyx _ _).trans hy⟩

lemma toNat_pred {n : Word} (hn : 0 < n.toNat) : (n - 1).toNat + 1 = n.toNat := by bv_omega

lemma toNat_succ {n : Word} (hn : n ≠ 0xffff) : (n + 1).toNat = n.toNat + 1 := by bv_omega

lemma Settled.fine_self (h : (s.setCall x c).Settled w) : s.Fine c := by
  have hfine := h.fine x
  rwa [call_setCall] at hfine

lemma Settled.mem_uses (h : (s.setCall x c).Settled w) (hk : k ∈ c.counted) :
    k ∈ (s.setCall x c).uses x ∧ 0 < (s.entry k).iCount.toNat := by
  have hmem : k ∈ (s.setCall x c).uses x := by
    rw [uses_setCall]
    exact List.mem_append_right _ hk
  have hcount := h.counts k
  exact ⟨hmem, hcount ▸ total_pos hmem⟩

/-- `iput` gives up its own reference and is done. -/
lemma Kept.release (h : Kept (s.setCall x (.putWait k ret)) w m) :
    Kept ((s.setCount k ((s.entry k).iCount - 1)).finish x ret) w m := by
  have hentry : ((s.setCount k ((s.entry k).iCount - 1)).finish x ret).entry =
      Function.update (s.setCall x (.putWait k ret)).entry k { s.entry k with iCount := (s.entry k).iCount - 1 } := rfl
  have hnamed : ∀ {j}, ((s.setCount k ((s.entry k).iCount - 1)).finish x ret).Named j ↔
      (s.setCall x (.putWait k ret)).Named j := named_of_dev hentry rfl
  have hcall : ∀ y, y ≠ x → ((s.setCount k ((s.entry k).iCount - 1)).finish x ret).call y =
      (s.setCall x (.putWait k ret)).call y := fun y hy => call_of_setCall (t := s) rfl hy
  have hself : ((s.setCount k ((s.entry k).iCount - 1)).finish x ret).call x = .outside := Function.update_self _ _ _
  have hrefs : ((s.setCount k ((s.entry k).iCount - 1)).finish x ret).refs x = ret.toList ++ s.refs x :=
    Function.update_self _ _ _
  obtain ⟨hmine, hpos⟩ := h.settled.mem_uses (List.mem_cons_self (a := k))
  refine ⟨h.settled.change (o := (x, false)) (fun j hj => entry_of_ne hentry hj) hcall
    (fun y hy => Function.update_of_ne hy _ _) (fun _ ho _ => owns_of_call hcall ho) (fun j => ?_)
    (fun y hy => ?_) (fun _ _ _ hn => hnamed.mpr hn) (fun o _ ho => ?_) (fun j hj => ?_) ?_ (fun j hj => ?_)
    (fun hd => ?_), ?_⟩
  · rw [uses_setCall, uses, hself, hrefs]
    by_cases hj : j = k
    · have hpred := toNat_pred hpos
      rw [hj, entry_self hentry]
      simp only [InodeCall.counted, List.append_nil, List.count_append, List.count_cons_self]
      change _ = (s.entry k).iCount.toNat + _
      omega
    · rw [entry_of_ne hentry hj]
      simp only [InodeCall.counted, List.append_nil, List.count_append, List.count_cons_of_ne (Ne.symm hj)]
      omega
  · obtain ⟨hr, hs⟩ := h.settled.unshared hmine hy
    exact Fine.of_entry (h.settled.fine y) (fun j hj => entry_of_ne hentry hj) hr hs fun _ hn => hnamed.mpr hn
  · rw [entry_self hentry]
    exact ⟨(h.settled.locked o k ho).1, hnamed.mpr (h.settled.locked o k ho).2⟩
  · change (Inodes.call _ x).locks = some j at hj
    rw [hself] at hj
    cases hj
  · rw [hself]
    trivial
  · rw [hrefs] at hj
    rcases List.mem_append.mp hj with hj | hj
    · exact hnamed.mpr (h.settled.fine_self j (Option.mem_toList.mp hj))
    · exact hnamed.mpr (h.settled.refs x j hj)
  · rw [entry_self hentry] at hd
    exact hnamed.mpr (h.settled.dirty k hd)
  · refine agrees_of_update hentry h.agrees rfl rfl rfl rfl rfl fun y j hy => ?_
    obtain ⟨hyx, hy⟩ := reading_of_setCall (fun _ hc => by cases hc) hy
    exact ⟨y, (hcall y hyx).trans ((Function.update_of_ne hyx _ _).trans hy)⟩

/-- `iget` has found its inode. -/
lemma Kept.take {i i' : Fin nrInode} (h : Kept (s.setCall x (.scanWait dev nr k i')) w m) (hi : s.Is dev nr i)
    (hfree : (s.entry i).iLock = false) (hmax : (s.entry i).iCount ≠ 0xffff) :
    Kept ((s.setCount i ((s.entry i).iCount + 1)).setCall x (.putWait k (some i))) w m := by
  have hentry : ((s.setCount i ((s.entry i).iCount + 1)).setCall x (.putWait k (some i))).entry =
      Function.update (s.setCall x (.scanWait dev nr k i')).entry i
        { s.entry i with iCount := (s.entry i).iCount + 1 } := rfl
  have hnamed : ∀ {j}, ((s.setCount i ((s.entry i).iCount + 1)).setCall x (.putWait k (some i))).Named j ↔
      (s.setCall x (.scanWait dev nr k i')).Named j := named_of_dev hentry rfl
  have hdev : (s.entry i).iDev ≠ 0 := by
    rw [hi.1]
    exact h.settled.fine_self.1
  refine ⟨h.settled.change (o := (x, false)) (fun j hj => entry_of_ne hentry hj) (fun _ hy => call_of_setCall rfl hy)
    (fun _ _ => rfl) (fun _ ho _ => owns_of_call (fun _ hy => call_of_setCall rfl hy) ho) (fun j => ?_)
    (fun y hy => ?_) (fun _ _ _ hn => hnamed.mpr hn) (fun o _ ho => absurd ho (h.settled.unlocked hfree o))
    (fun j hj => ?_) ?_ (fun j hj => hnamed.mpr (h.settled.refs x j hj)) (fun _ => hnamed.mpr hdev), ?_⟩
  · have hlist : (s.refs x ++ [k, i]).count j = (s.refs x ++ [k]).count j + [i].count j := by
      rw [← List.count_append, List.append_assoc]
      rfl
    rw [uses_setCall, uses_setCall]
    change _ + (s.refs x ++ [k]).count j = _ + (s.refs x ++ [k, i]).count j
    by_cases hj : j = i
    · subst hj
      rw [entry_self hentry, toNat_succ hmax, hlist, List.count_singleton_self]
      change _ = (s.entry j).iCount.toNat + _
      omega
    · rw [entry_of_ne hentry hj, hlist, List.count_eq_zero.mpr (mt List.mem_singleton.mp hj)]
      rfl
  · refine Fine.of_entry (h.settled.fine y) (fun j hj => entry_of_ne hentry hj) (fun hr => ?_) (fun dev' nr' j hs => ?_)
      fun _ hn => hnamed.mpr hn
    · refine h.settled.unlocked hfree (y, false) ?_
      change ((s.setCall x (.scanWait dev nr k i')).call y).locks = some i
      rw [hr]
      rfl
    · have hspare := h.settled.fine y
      rw [hs] at hspare
      exact hdev hspare.2.1
  · change (Inodes.call _ x).locks = some j at hj
    rw [call_setCall] at hj
    cases hj
  · rw [call_setCall]
    rintro j hj
    cases hj
    exact hnamed.mpr hdev
  · refine agrees_of_update hentry h.agrees rfl rfl rfl rfl rfl fun y j hy => ?_
    obtain ⟨hyx, hy⟩ := reading_of_setCall (fun _ hc => by cases hc) hy
    exact ⟨y, (Function.update_of_ne hyx _ _).trans hy⟩

/-- The entry that `get_empty_inode` gives. -/
lemma Kept.clear {i : Fin nrInode} (h : Kept (s.setCall x (.emptyWait dev nr k)) w m) (hunused : (s.entry k).iCount = 0)
    (hclean : (s.entry k).iDirt = false) (hfree : (s.entry k).iLock = false) :
    Kept ((s.clear k).setCall x (.scanWait dev nr k i)) w m := by
  have hentry : ((s.clear k).setCall x (.scanWait dev nr k i)).entry =
      Function.update (s.setCall x (.emptyWait dev nr k)).entry k { zeroEntry with iCount := 1 } := rfl
  have hnone : ∀ y, k ∉ (s.setCall x (.emptyWait dev nr k)).uses y := by
    intro y hy
    have hpos := total_pos hy
    rw [← h.settled.counts] at hpos
    change 0 < (s.entry k).iCount.toNat at hpos
    rw [hunused] at hpos
    cases hpos
  have hkeep : ∀ {j}, j ≠ k → (s.setCall x (.emptyWait dev nr k)).Named j →
      ((s.clear k).setCall x (.scanWait dev nr k i)).Named j := by
    intro j hj hn
    unfold Named
    rwa [entry_of_ne hentry hj]
  refine ⟨h.settled.change (o := (x, false)) (fun j hj => entry_of_ne hentry hj) (fun _ hy => call_of_setCall rfl hy)
    (fun _ _ => rfl) (fun _ ho _ => owns_of_call (fun _ hy => call_of_setCall rfl hy) ho) (fun j => ?_)
    (fun y hy => ?_) (fun y _ hk => absurd hk (hnone y)) (fun o _ ho => absurd ho (h.settled.unlocked hfree o))
    (fun j hj => ?_) ?_ (fun j hj => hkeep ?_ (h.settled.refs x j hj)) (fun hd => ?_), ?_⟩
  · rw [uses_setCall, uses_setCall]
    change _ + (s.refs x ++ []).count j = _ + (s.refs x ++ [k]).count j
    by_cases hj : j = k
    · subst hj
      rw [entry_self hentry, List.append_nil, List.count_append, List.count_singleton_self]
      change 1 + _ = (s.entry j).iCount.toNat + _
      rw [hunused, Nat.add_comm]
      exact (Nat.zero_add _).symm
    · rw [entry_of_ne hentry hj, List.append_nil, List.count_append,
        List.count_eq_zero.mpr (mt List.mem_singleton.mp hj)]
      rfl
  · obtain ⟨hr, hs⟩ := h.settled.unread (Or.inl hunused) y
    exact Fine.of_entry (h.settled.fine y) (fun j hj => entry_of_ne hentry hj) hr hs
      fun hk => absurd (List.mem_append_right _ hk) (hnone y)
  · change (Inodes.call _ x).locks = some j at hj
    rw [call_setCall] at hj
    cases hj
  · rw [call_setCall]
    refine ⟨h.settled.fine_self, ?_⟩
    unfold Spare
    rw [entry_self hentry]
    exact ⟨rfl, rfl, rfl, rfl⟩
  · rintro rfl
    exact hnone x (List.mem_append_left _ hj)
  · rw [entry_self hentry] at hd
    cases hd
  · refine agrees_of_unread hentry h.agrees hclean (fun hn => ?_) rfl fun y j hy => ?_
    · unfold Named at hn
      rw [entry_self hentry] at hn
      exact absurd rfl hn
    · obtain ⟨hyx, hy⟩ := reading_of_setCall (fun _ hc => by cases hc) hy
      exact ⟨y, (Function.update_of_ne hyx _ _).trans hy⟩

/-- The empty entry is made the inode's and locked, to be read in. -/
lemma Kept.open {i : Fin nrInode} (h : Kept (s.setCall x (.scanWait dev nr k i)) w m) :
    Kept (((s.assign k dev nr).setLock k true).setCall x (.reading k)) w m := by
  obtain ⟨hdev, hspare⟩ := h.settled.fine_self
  obtain ⟨hempty, hfree, hclean, hone⟩ := hspare
  have hassigned : (s.assign k dev nr).entry k = { s.entry k with iDev := dev, iNum := nr } :=
    Function.update_self _ _ _
  have hentry : (((s.assign k dev nr).setLock k true).setCall x (.reading k)).entry =
      Function.update (s.setCall x (.scanWait dev nr k i)).entry k
        { s.entry k with iDev := dev, iNum := nr, iLock := true } := by
    change Function.update (s.assign k dev nr).entry k { (s.assign k dev nr).entry k with iLock := true } = _
    rw [hassigned]
    exact Function.update_idem _ _ _
  have hnamed : (((s.assign k dev nr).setLock k true).setCall x (.reading k)).Named k := by
    unfold Named
    rwa [entry_self hentry]
  have hkeep : ∀ {j}, (s.setCall x (.scanWait dev nr k i)).Named j →
      (((s.assign k dev nr).setLock k true).setCall x (.reading k)).Named j := by
    intro j hn
    by_cases hj : j = k
    · rwa [hj]
    · unfold Named
      rwa [entry_of_ne hentry hj]
  refine ⟨h.settled.change (o := (x, false)) (fun j hj => entry_of_ne hentry hj) (fun _ hy => call_of_setCall rfl hy)
    (fun _ _ => rfl) (fun _ ho _ => owns_of_call (fun _ hy => call_of_setCall rfl hy) ho) (fun j => ?_)
    (fun y hy => ?_) (fun _ _ _ hn => hkeep hn) (fun o _ ho => absurd ho (h.settled.unlocked hfree o))
    (fun j hj => ?_) ?_ (fun j hj => hkeep (h.settled.refs x j hj)) (fun _ => hnamed), ?_⟩
  · rw [count_of_update hentry rfl, uses_setCall, uses_setCall]
    rfl
  · obtain ⟨hr, hs⟩ := h.settled.unshared (h.settled.mem_uses List.mem_cons_self).1 hy
    exact Fine.of_entry (h.settled.fine y) (fun j hj => entry_of_ne hentry hj) hr hs fun _ _ => hnamed
  · change (Inodes.call _ x).locks = some j at hj
    rw [call_setCall] at hj
    obtain rfl := Option.some.inj hj
    exact ⟨by rw [entry_self hentry], hnamed, fun o _ => h.settled.unlocked hfree o⟩
  · rw [call_setCall]
    change (Inodes.entry _ k).iCount = 1 ∧ (Inodes.entry _ k).iDirt = false
    rw [entry_self hentry]
    exact ⟨hone, hclean⟩
  · refine agrees_of_unread hentry h.agrees hclean (fun _ => ⟨x, call_setCall _ _ _⟩) rfl fun y j hy => ?_
    obtain ⟨hyx, hy⟩ := reading_of_setCall (fun _ hc => by cases hc) hy
    exact ⟨y, (Function.update_of_ne hyx _ _).trans hy⟩

omit [DecidableEq P] [Fintype P] in
lemma agrees_writeBack (h : s.cache.Agrees m) (hs : Sound s) (hn : s.Named k) (hread : ∀ y, s.call y ≠ .reading k) :
    (s.writeBack k).cache.Agrees m := by
  have hentry : (s.writeBack k).entry = Function.update s.entry k { s.entry k with iDirt := false, iLock := false } :=
    rfl
  have hflush := h.flush hs.distinct (c := k) (k := s.name k) ⟨rfl, hn⟩ hread
  have hholds : ∀ {j key}, (s.writeBack k).cache.holds j key ↔ s.cache.holds j key := holds_of_name hentry rfl rfl
  refine hflush.keep (fun j key hj hvalid => ⟨hholds.mp hj, hvalid, ?_⟩) (fun j key hj hd => ⟨hholds.mpr hj, ?_⟩) ?_
  · change (Inodes.entry _ j).dinode = (s.entry j).dinode
    by_cases hjk : j = k
    · rw [hjk, entry_self hentry]
    · rw [entry_of_ne hentry hjk]
  · change (Inodes.entry _ j).iDirt = true
    rw [entry_of_ne hentry hd.1]
    exact hd.2
  · funext key
    change Function.update s.disk (s.name k).1 (Function.update (s.disk (s.name k).1) (s.name k).2 (s.entry k).dinode)
      key.1 key.2 = Function.update (fun key : Word × Word => s.disk key.1 key.2) (s.name k) (s.entry k).dinode key
    by_cases hkey : key = s.name k
    · rw [hkey, Function.update_self, Function.update_self, Function.update_self]
    · rw [Function.update_of_ne hkey]
      by_cases hdev : key.1 = (s.name k).1
      · rw [hdev, Function.update_self, Function.update_of_ne fun hnum => hkey (Prod.ext hdev hnum)]
      · rw [Function.update_of_ne hdev]

omit [DecidableEq P] in
/-- Whoever has the lock of an entry, it is neither read in by another nor spare. -/
lemma Settled.fine_unlocked {t : Inodes P} {e : InodeEntry} {o : P × Bool} {y : P} (h : s.Settled w)
    (ho : s.Owns w o k) (hentry : t.entry = Function.update s.entry k e) (hdev : e.iDev = (s.entry k).iDev)
    (hy : (y, false) ≠ o) : t.Fine (s.call y) := by
  refine Fine.of_entry (h.fine y) (fun j hj => entry_of_ne hentry hj) (fun hr => ?_) (fun dev nr i hi => ?_)
    fun _ hn => (named_of_dev hentry hdev).mpr hn
  · refine hy (h.alone _ _ k ?_ ho)
    change (s.call y).locks = some k
    rw [hr]
    rfl
  · have hspare := h.fine y
    rw [hi] at hspare
    exact Bool.false_ne_true (hspare.2.2.1.symm.trans (h.locked o k ho).1)

/-- The lock is given up when the inode is written back. -/
lemma Kept.writeBack (h : Kept s w m) (hs : Sound s) (hc : (s.call x).locks = some k) (hr : s.call x ≠ .reading k)
    (hcount : ∀ j, c'.counted.count j = (s.call x).counted.count j) (hlock : c'.locks = none)
    (hspare : ∀ dev nr e i, c' ≠ .scanWait dev nr e i) (hread : ∀ j, c' ≠ .reading j) (hfine : s.Fine c') :
    Kept ((s.writeBack k).setCall x c') w m := by
  have hentry : ((s.writeBack k).setCall x c').entry =
      Function.update s.entry k { s.entry k with iDirt := false, iLock := false } := rfl
  have hnamed : ∀ {j}, ((s.writeBack k).setCall x c').Named j ↔ s.Named j := named_of_dev hentry rfl
  have hcall : ∀ y, y ≠ x → ((s.writeBack k).setCall x c').call y = s.call y :=
    fun y hy => Function.update_of_ne hy _ _
  have howns : s.Owns w (x, false) k := hc
  have halone : ∀ o, o ≠ (x, false) → ¬ s.Owns w o k := fun o ho h' => ho (h.settled.alone _ _ k h' howns)
  refine ⟨h.settled.change (o := (x, false)) (fun j hj => entry_of_ne hentry hj) hcall (fun _ _ => rfl)
    (fun _ ho _ => owns_of_call hcall ho) (fun j => ?_)
    (fun y hy => h.settled.fine_unlocked howns hentry rfl fun he => hy (congrArg Prod.fst he))
    (fun _ _ _ hn => hnamed.mpr hn) (fun o ho h' => absurd h' (halone o ho)) (fun j hj => ?_) ?_
    (fun j hj => hnamed.mpr (h.settled.refs x j hj)) (fun hd => ?_), ?_⟩
  · rw [count_of_update hentry rfl, uses_setCall, uses, List.count_append, List.count_append, hcount]
    rfl
  · change (Inodes.call _ x).locks = some j at hj
    rw [call_setCall, hlock] at hj
    cases hj
  · rw [call_setCall]
    exact Fine.of_entry (k := k) hfine (fun j hj => entry_of_ne hentry hj) (hread k) (fun dev nr i => hspare dev nr k i)
      fun _ hn => hnamed.mpr hn
  · rw [entry_self hentry] at hd
    cases hd
  · have hvalid : ∀ y, s.call y ≠ .reading k := by
      intro y hy
      by_cases hyx : y = x
      · exact hr (hyx ▸ hy)
      · refine halone (y, false) (fun he => hyx (congrArg Prod.fst he)) ?_
        change (s.call y).locks = some k
        rw [hy]
        rfl
    refine agrees_of_entry (agrees_writeBack h.agrees hs (h.settled.locked _ k howns).2 hvalid)
      (fun _ => ⟨rfl, rfl, rfl⟩) rfl fun y j hy => ?_
    by_cases hyx : y = x
    · subst hyx
      have hjk : some j = some k := by
        rw [← hc, show s.call y = .reading j from hy]
        rfl
      obtain rfl := Option.some.inj hjk
      exact absurd hy hr
    · exact ⟨y, (hcall y hyx).trans hy⟩

/-- An inode has been read in, and its lock is given up. -/
lemma Kept.readIn (h : Kept s w m) (hs : Sound s) (hc : s.call x = .reading k) :
    Kept ((s.readIn k).finish x (some k)) w m := by
  have hentry : ((s.readIn k).finish x (some k)).entry = Function.update s.entry k
      { s.entry k with dinode := s.disk (s.entry k).iDev (s.entry k).iNum, iLock := false } := rfl
  have hnamed : ∀ {j}, ((s.readIn k).finish x (some k)).Named j ↔ s.Named j := named_of_dev hentry rfl
  have hholds : ∀ {j key}, ((s.readIn k).finish x (some k)).cache.holds j key ↔ s.cache.holds j key :=
    holds_of_name hentry rfl rfl
  have hcall : ∀ y, y ≠ x → ((s.readIn k).finish x (some k)).call y = s.call y :=
    fun y hy => Function.update_of_ne hy _ _
  have hself : ((s.readIn k).finish x (some k)).call x = .outside := Function.update_self _ _ _
  have hrefs : ((s.readIn k).finish x (some k)).refs x = k :: s.refs x := Function.update_self _ _ _
  have howns : s.Owns w (x, false) k := by
    change (s.call x).locks = some k
    rw [hc]
    rfl
  have hclean : (s.entry k).iDirt = false := by
    have hfine := h.settled.fine x
    rw [hc] at hfine
    exact hfine.2
  refine ⟨h.settled.change (o := (x, false)) (fun j hj => entry_of_ne hentry hj) hcall
    (fun y hy => Function.update_of_ne hy _ _) (fun _ ho _ => owns_of_call hcall ho) (fun j => ?_)
    (fun y hy => h.settled.fine_unlocked howns hentry rfl fun he => hy (congrArg Prod.fst he))
    (fun _ _ _ hn => hnamed.mpr hn) (fun o ho h' => absurd (h.settled.alone _ _ k h' howns) ho) (fun j hj => ?_) ?_
    (fun j hj => ?_) (fun hd => ?_), ?_⟩
  · rw [count_of_update hentry rfl, uses, uses, hself, hrefs, hc]
    simp only [InodeCall.counted, List.append_nil, List.count_append, List.count_cons, List.count_nil]
    omega
  · change (Inodes.call _ x).locks = some j at hj
    rw [hself] at hj
    cases hj
  · rw [hself]
    trivial
  · rw [hrefs] at hj
    rcases List.mem_cons.mp hj with rfl | hj
    · exact hnamed.mpr (h.settled.locked _ j howns).2
    · exact hnamed.mpr (h.settled.refs x j hj)
  · rw [entry_self hentry] at hd
    exact absurd hd (by rw [hclean]; exact Bool.false_ne_true)
  · have hload := h.agrees.load hs.distinct (c := k) (k := s.name k) ⟨rfl, (h.settled.locked _ k howns).2⟩
      (by change ¬ (s.entry k).iDirt = true; rw [hclean]; exact Bool.false_ne_true)
    refine hload.keep (fun j key hj hvalid => ⟨hholds.mp hj, ?_, ?_⟩) (fun j key hj hd => ⟨hholds.mpr hj, ?_⟩) rfl
    · by_cases hjk : j = k
      · exact Or.inl hjk
      · refine Or.inr fun y hy => ?_
        by_cases hyx : y = x
        · rw [hyx, hc] at hy
          exact hjk (InodeCall.reading.inj hy).symm
        · exact hvalid y ((hcall y hyx).trans hy)
    · change (Inodes.entry _ j).dinode = Function.update (fun i => (s.entry i).dinode) k _ j
      by_cases hjk : j = k
      · rw [hjk, entry_self hentry, Function.update_self]
        rfl
      · rw [entry_of_ne hentry hjk, Function.update_of_ne hjk]
    · change (Inodes.entry _ j).iDirt = true
      by_cases hjk : j = k
      · subst hjk
        exact absurd hd (by change ¬ (s.entry j).iDirt = true; rw [hclean]; exact Bool.false_ne_true)
      · rw [entry_of_ne hentry hjk]
        exact hd

/-- The last user of an inode without links clears its entry. -/
lemma Kept.erase (h : Kept s w m) (hc : s.call x = .truncating k ret) (hone : ¬ 1 < (s.entry k).iCount)
    (hfree : (s.entry k).iLock = false) : Kept ((s.erase k).finish x ret) w (m.set (s.name k) none) := by
  have hentry : ((s.erase k).finish x ret).entry = Function.update s.entry k zeroEntry := rfl
  have hcall : ∀ y, y ≠ x → ((s.erase k).finish x ret).call y = s.call y :=
    fun y hy => Function.update_of_ne hy _ _
  have hself : ((s.erase k).finish x ret).call x = .outside := Function.update_self _ _ _
  have hrefs : ((s.erase k).finish x ret).refs x = ret.toList ++ s.refs x := Function.update_self _ _ _
  have huses : s.uses x = s.refs x ++ k :: ret.toList := by rw [uses, hc]; rfl
  have hfine : s.Named k ∧ ∀ i ∈ ret, s.Named i := by
    have hfine := h.settled.fine x
    rwa [hc] at hfine
  have hmine : k ∈ s.uses x := by
    rw [huses]
    exact List.mem_append_right _ List.mem_cons_self
  have hcount : (s.entry k).iCount.toNat = 1 ∧ (s.refs x).count k = 0 ∧ ret.toList.count k = 0 := by
    have hle := count_le_total s.uses x k
    rw [huses, List.count_append, List.count_cons_self, ← h.settled.counts] at hle
    have : (s.entry k).iCount.toNat ≤ 1 := by bv_omega
    omega
  have hnone : ∀ y, y ≠ x → k ∉ s.uses y := by
    intro y hy hk
    have htwo := h.settled.two_users hy hk hmine
    omega
  have hkeep : ∀ {j}, j ≠ k → s.Named j → ((s.erase k).finish x ret).Named j := by
    intro j hj hn
    unfold Named
    rwa [entry_of_ne hentry hj]
  refine ⟨h.settled.change (o := (x, false)) (fun j hj => entry_of_ne hentry hj) hcall
    (fun y hy => Function.update_of_ne hy _ _) (fun _ ho _ => owns_of_call hcall ho) (fun j => ?_) (fun y hy => ?_)
    (fun y hy hk => absurd hk (hnone y hy)) (fun o _ ho => absurd ho (h.settled.unlocked hfree o)) (fun j hj => ?_) ?_
    (fun j hj => ?_) (fun hd => ?_), ?_⟩
  · rw [huses, uses, hself, hrefs]
    by_cases hj : j = k
    · rw [hj, entry_self hentry]
      simp only [InodeCall.counted, List.append_nil, List.count_append, List.count_cons_self]
      change 0 + _ = _
      omega
    · rw [entry_of_ne hentry hj]
      simp only [InodeCall.counted, List.append_nil, List.count_append, List.count_cons_of_ne (Ne.symm hj)]
      omega
  · obtain ⟨hr, hi⟩ := h.settled.unshared hmine hy
    exact Fine.of_entry (h.settled.fine y) (fun j hj => entry_of_ne hentry hj) hr hi
      fun hk => absurd (List.mem_append_right _ hk) (hnone y hy)
  · change (Inodes.call _ x).locks = some j at hj
    rw [hself] at hj
    cases hj
  · rw [hself]
    trivial
  · rw [hrefs] at hj
    rcases List.mem_append.mp hj with hj | hj
    · refine hkeep ?_ (hfine.2 j (Option.mem_toList.mp hj))
      rintro rfl
      exact List.count_eq_zero.mp hcount.2.2 hj
    · refine hkeep ?_ (h.settled.refs x j hj)
      rintro rfl
      exact List.count_eq_zero.mp hcount.2.1 hj
  · rw [entry_self hentry] at hd
    cases hd
  · have hne : ∀ {j key}, key ≠ s.name k → s.cache.holds j key → j ≠ k := by
      rintro j key hkey ⟨hj, _⟩ rfl
      exact hkey hj.symm
    refine h.agrees.forget (fun j key hkey hj hvalid => ?_) (fun j key hkey hj hd => ?_) fun _ _ => rfl
    · have hjk : j ≠ k := by
        rintro rfl
        apply hj.2
        rw [entry_self hentry]
        rfl
      refine ⟨(holds_of_ne hentry hjk).mp hj, fun y hy => ?_, congrArg InodeEntry.dinode (entry_of_ne hentry hjk)⟩
      refine hvalid y ((hcall y ?_).trans hy)
      rintro rfl
      rw [hc] at hy
      cases hy
    · have hjk := hne hkey hj
      exact ⟨(holds_of_ne hentry hjk).mpr hj, (congrArg InodeEntry.iDirt (entry_of_ne hentry hjk)).trans hd⟩

/-- A user of an inode changes it. -/
lemma Kept.modify (h : Kept s w m) (hs : Sound s) (x : P) (hn : s.Named k)
    (hnot : ∀ y, s.call y ≠ .reading k ∧ ∀ dev nr i, s.call y ≠ .scanWait dev nr k i) (d : DInode) :
    Kept (s.modify k d) w (m.set (s.name k) (some d)) := by
  have hentry : (s.modify k d).entry = Function.update s.entry k { s.entry k with dinode := d, iDirt := true } := rfl
  have hnamed : ∀ {j}, (s.modify k d).Named j ↔ s.Named j := named_of_dev hentry rfl
  have hholds : ∀ {j key}, (s.modify k d).cache.holds j key ↔ s.cache.holds j key := holds_of_name hentry rfl rfl
  have hfine : ∀ y, (s.modify k d).Fine (s.call y) := fun y =>
    Fine.of_entry (h.settled.fine y) (fun j hj => entry_of_ne hentry hj) (hnot y).1 (hnot y).2 fun _ hn => hnamed.mpr hn
  have hlock : ∀ j, ((s.modify k d).entry j).iLock = (s.entry j).iLock := by
    intro j
    by_cases hj : j = k
    · rw [hj, entry_self hentry]
    · rw [entry_of_ne hentry hj]
  refine ⟨h.settled.change (o := (x, true)) (fun j hj => entry_of_ne hentry hj) (fun _ _ => rfl) (fun _ _ => rfl)
    (fun _ _ _ ho => ho) (fun j => by rw [count_of_update hentry rfl]; rfl) (fun y _ => hfine y)
    (fun _ _ _ hn => hnamed.mpr hn) (fun o _ ho => ?_) (fun j hj => ?_) (hfine x)
    (fun j hj => hnamed.mpr (h.settled.refs x j hj)) (fun _ => hnamed.mpr hn), ?_⟩
  · rw [hlock]
    exact ⟨(h.settled.locked o k ho).1, hnamed.mpr (h.settled.locked o k ho).2⟩
  · rw [hlock]
    have ho : s.Owns w (x, true) j := hj
    exact ⟨(h.settled.locked _ j ho).1, hnamed.mpr (h.settled.locked _ j ho).2,
      fun o hne h' => hne (h.settled.alone o _ j h' ho)⟩
  · have hmod := h.agrees.modify hs.distinct (c := k) (k := s.name k) ⟨rfl, hn⟩ d
    refine hmod.keep (fun j key hj hvalid => ⟨hholds.mp hj, Or.inr hvalid, ?_⟩)
      (fun j key hj hd => ⟨hholds.mpr hj, ?_⟩) rfl
    · change (Inodes.entry _ j).dinode = Function.update (fun i => (s.entry i).dinode) k d j
      by_cases hjk : j = k
      · rw [hjk, entry_self hentry, Function.update_self]
      · rw [entry_of_ne hentry hjk, Function.update_of_ne hjk]
    · change (Inodes.entry _ j).iDirt = true
      by_cases hjk : j = k
      · rw [hjk, entry_self hentry]
      · rw [entry_of_ne hentry hjk]
        exact hd.resolve_left hjk

/-- `get_dir` takes a second reference. -/
lemma Kept.hold {t : Inodes P} (h : Kept s w m) (hc : s.call x = .outside) (hk : k ∈ s.refs x)
    (hmax : (s.entry k).iCount ≠ 0xffff)
    (ht : t = { s.setCount k ((s.entry k).iCount + 1) with refs := Function.update s.refs x (k :: s.refs x) }) :
    Kept t w m := by
  have hentry : t.entry = Function.update s.entry k { s.entry k with iCount := (s.entry k).iCount + 1 } := by
    rw [ht]
    rfl
  have hcall : t.call = s.call := by
    rw [ht]
    rfl
  have hrefs : t.refs = Function.update s.refs x (k :: s.refs x) := by rw [ht]
  have hself : t.refs x = k :: s.refs x := by rw [hrefs, Function.update_self]
  have hnamed : ∀ {j}, t.Named j ↔ s.Named j := named_of_dev hentry rfl
  have hn := h.settled.refs x k hk
  refine ⟨h.settled.change (o := (x, false)) (fun j hj => entry_of_ne hentry hj) (fun y _ => congrFun hcall y)
    (fun y hy => by rw [hrefs, Function.update_of_ne hy]) (fun _ ho _ => owns_of_call (fun y _ => congrFun hcall y) ho)
    (fun j => ?_) (fun y hy => ?_) (fun _ _ _ hn => hnamed.mpr hn) (fun o _ ho => ?_) (fun j hj => ?_) ?_
    (fun j hj => ?_) (fun _ => hnamed.mpr hn), ?_⟩
  · rw [uses, uses, hself, hcall, hc]
    by_cases hj : j = k
    · rw [hj, entry_self hentry, toNat_succ hmax]
      simp only [InodeCall.counted, List.append_nil, List.count_cons_self]
      omega
    · rw [entry_of_ne hentry hj]
      simp only [InodeCall.counted, List.append_nil, List.count_cons_of_ne (Ne.symm hj)]
  · obtain ⟨hr, hi⟩ := h.settled.unread_of_refs hk y
    exact Fine.of_entry (h.settled.fine y) (fun j hj => entry_of_ne hentry hj) hr hi fun _ hn => hnamed.mpr hn
  · rw [entry_self hentry]
    exact ⟨(h.settled.locked o k ho).1, hnamed.mpr hn⟩
  · change (t.call x).locks = some j at hj
    rw [hcall, hc] at hj
    cases hj
  · rw [hcall, hc]
    trivial
  · rw [hself] at hj
    rcases List.mem_cons.mp hj with rfl | hj
    · exact hnamed.mpr hn
    · exact hnamed.mpr (h.settled.refs x j hj)
  · exact agrees_of_update hentry h.agrees rfl rfl rfl rfl (by rw [ht]; rfl) fun y j hy =>
      ⟨y, (congrFun hcall y).trans hy⟩

/-- What `iput` is given it has from the caller. -/
lemma Kept.giveBack (h : Kept s w m) (hc : s.call x = .outside) (hk : k ∈ s.refs x) :
    Kept (Inodes.setCall { s with refs := Function.update s.refs x ((s.refs x).erase k) } x (.putWait k none)) w m := by
  have hself : (Inodes.setCall { s with refs := Function.update s.refs x ((s.refs x).erase k) } x
      (.putWait k none)).refs x = (s.refs x).erase k := Function.update_self _ _ _
  refine ⟨h.settled.change (k := k) (o := (x, false)) (fun _ _ => rfl) (fun y hy => Function.update_of_ne hy _ _)
    (fun y hy => Function.update_of_ne hy _ _)
    (fun _ ho _ => owns_of_call (fun y hy => Function.update_of_ne hy _ _) ho) (fun j => ?_)
    (fun y _ => h.settled.fine y) (fun _ _ _ hn => hn) (fun o _ ho => h.settled.locked o k ho) (fun j hj => ?_) ?_
    (fun j hj => ?_) (h.settled.dirty k), ?_⟩
  · rw [uses, uses_setCall, hc]
    have hcount : (s.refs x).count j = ((s.refs x).erase k ++ [k]).count j := by
      rw [List.count_append]
      by_cases hj : j = k
      · have hpos := List.count_pos_iff.mpr hk
        rw [hj, List.count_erase_self, List.count_singleton_self]
        omega
      · rw [List.count_erase_of_ne hj, List.count_eq_zero.mpr (mt List.mem_singleton.mp hj), Nat.add_zero]
    change _ + (s.refs x ++ []).count j = _ + (Function.update s.refs x ((s.refs x).erase k) x ++ [k]).count j
    rw [Function.update_self, List.append_nil, hcount]
    rfl
  · change (Inodes.call _ x).locks = some j at hj
    rw [call_setCall] at hj
    cases hj
  · rw [call_setCall]
    exact fun _ hi => by cases hi
  · rw [hself] at hj
    exact h.settled.refs x j (List.mem_of_mem_erase hj)
  · refine agrees_of_entry h.agrees (fun _ => ⟨rfl, rfl, rfl⟩) rfl fun y j hy => ⟨y, ?_⟩
    refine (Function.update_of_ne ?_ _ _).trans hy
    rintro rfl
    rw [hc] at hy
    cases hy

section Sync

omit [Fintype P] in
lemma owns_of_sync (hcall : s'.call = s.call) {o : P × Bool} (ho : o ≠ (x, true)) {j : Fin nrInode}
    {b : Option SyncCall} (h : s'.Owns (Function.update w x b) o j) : s.Owns w o j := by
  obtain ⟨y, _ | _⟩ := o
  · change (s.call y).locks = some j
    rw [← hcall]
    exact h
  · have hy : y ≠ x := fun he => ho (by rw [he])
    change Function.update w x b y = _ at h
    rwa [Function.update_of_ne hy] at h

/-- `sync_inodes` goes on without the table being changed. -/
lemma Kept.syncMove (h : Kept s w m) {b : Option SyncCall} (hb : ∀ i, b ≠ some (.writing i)) :
    Kept s (Function.update w x b) m := by
  refine ⟨h.settled.change (k := 0) (o := (x, true)) (fun _ _ => rfl) (fun _ _ => rfl) (fun _ _ => rfl)
    (fun _ ho _ => owns_of_sync rfl ho) (fun _ => rfl) (fun y _ => h.settled.fine y) (fun _ _ _ hn => hn)
    (fun o _ ho => h.settled.locked o 0 ho) (fun j hj => ?_) (h.settled.fine x) (h.settled.refs x)
    (h.settled.dirty 0), h.agrees⟩
  change Function.update w x b x = _ at hj
  rw [Function.update_self] at hj
  exact absurd hj (hb j)

/-- `sync_inodes` comes upon an inode that it has to write. -/
lemma Kept.syncLock (h : Kept s w m) (hfree : (s.entry k).iLock = false) (hdirt : (s.entry k).iDirt = true) :
    Kept (s.setLock k true) (Function.update w x (some (.writing k))) m := by
  have hentry : (s.setLock k true).entry = Function.update s.entry k { s.entry k with iLock := true } := rfl
  have hnamed : ∀ {j}, (s.setLock k true).Named j ↔ s.Named j := named_of_dev hentry rfl
  have hfine : ∀ y, (s.setLock k true).Fine (s.call y) := by
    intro y
    have hnot := h.settled.unread (Or.inr hdirt) y
    exact Fine.of_entry (h.settled.fine y) (fun j hj => entry_of_ne hentry hj) hnot.1 hnot.2 fun _ hn => hnamed.mpr hn
  refine ⟨h.settled.change (o := (x, true)) (fun j hj => entry_of_ne hentry hj) (fun _ _ => rfl) (fun _ _ => rfl)
    (fun _ ho _ => owns_of_sync rfl ho) (fun j => by rw [count_of_update hentry rfl]; rfl) (fun y _ => hfine y)
    (fun _ _ _ hn => hnamed.mpr hn) (fun o _ ho => absurd ho (h.settled.unlocked hfree o)) (fun j hj => ?_) (hfine x)
    (fun j hj => hnamed.mpr (h.settled.refs x j hj)) (fun _ => hnamed.mpr (h.settled.dirty k hdirt)),
    agrees_of_update hentry h.agrees rfl rfl rfl rfl rfl fun y j hy => ⟨y, hy⟩⟩
  change Function.update w x (some (.writing k)) x = _ at hj
  rw [Function.update_self] at hj
  obtain rfl := SyncCall.writing.inj (Option.some.inj hj)
  exact ⟨by rw [entry_self hentry], hnamed.mpr (h.settled.dirty _ hdirt), fun o _ => h.settled.unlocked hfree o⟩

lemma Kept.syncWrite (h : Kept s w m) (hs : Sound s) (hw : w x = some (.writing k)) (i : ℕ) :
    Kept (s.writeBack k) (Function.update w x (some (.scanning i))) m := by
  have hentry : (s.writeBack k).entry = Function.update s.entry k { s.entry k with iDirt := false, iLock := false } :=
    rfl
  have hnamed : ∀ {j}, (s.writeBack k).Named j ↔ s.Named j := named_of_dev hentry rfl
  have howns : s.Owns w (x, true) k := hw
  have hfine : ∀ y, (s.writeBack k).Fine (s.call y) := fun y =>
    h.settled.fine_unlocked howns hentry rfl fun he => Bool.false_ne_true (congrArg Prod.snd he)
  refine ⟨h.settled.change (o := (x, true)) (fun j hj => entry_of_ne hentry hj) (fun _ _ => rfl) (fun _ _ => rfl)
    (fun _ ho _ => owns_of_sync rfl ho) (fun j => by rw [count_of_update hentry rfl]; rfl) (fun y _ => hfine y)
    (fun _ _ _ hn => hnamed.mpr hn) (fun o ho h' => absurd (h.settled.alone _ _ k h' howns) ho) (fun j hj => ?_)
    (hfine x) (fun j hj => hnamed.mpr (h.settled.refs x j hj)) (fun hd => ?_),
    agrees_writeBack h.agrees hs (h.settled.locked _ k howns).2 fun y hy => ?_⟩
  · change Function.update w x (some (.scanning i)) x = _ at hj
    rw [Function.update_self] at hj
    cases hj
  · rw [entry_self hentry] at hd
    cases hd
  · have hother : s.Owns w (y, false) k := by
      change (s.call y).locks = some k
      rw [hy]
      rfl
    exact Bool.false_ne_true (congrArg Prod.snd (h.settled.alone _ _ k hother howns))

end Sync

section Calls

lemma Kept.at_call (h : Kept s w m) (hc : s.call x = c) : Kept (s.setCall x c) w m := by
  rwa [← hc, setCall_self]

lemma Kept.setLast (h : Kept (s.setCall x c) w m) (k : Fin nrInode) :
    Kept (Inodes.setCall { s with last := k } x c) w m :=
  ⟨⟨h.settled.counts, h.settled.fine, h.settled.refs, h.settled.locked, h.settled.alone, h.settled.dirty⟩,
    ⟨h.agrees.cached, h.agrees.stored⟩⟩

lemma Kept.putLoop (h : Kept (s.setCall x (.putWait k ret)) w m) (hfree : (s.entry k).iLock = false)
    (hn : s.Named k) : Kept (s.putLoop x k ret) w m := by
  have hfine : s.Named k ∧ ∀ i ∈ ret, s.Named i := ⟨hn, h.settled.fine_self⟩
  unfold Inodes.putLoop
  split_ifs with hlinks hdirt
  · exact h.move (fun _ => rfl) rfl (fun _ hc => by cases hc) hfine
  · exact h.lock hfree hdirt (fun _ => rfl) (fun _ hc => by cases hc) (Or.inr ⟨ret, rfl⟩) hfine
  · exact h.release

lemma Kept.putReady (h : Kept (s.setCall x (.putWait k ret)) w m) (hfree : (s.entry k).iLock = false)
    (hs : s.putReady x k ret = some s') : Kept s' w m := by
  unfold Inodes.putReady at hs
  split_ifs at hs with hcount hshared
  · cases hs
    exact h.release
  · cases hs
    exact h.putLoop hfree fun hdev => hshared (Or.inl hdev)

lemma Kept.iput (h : Kept (s.setCall x (.putWait k ret)) w m) (hs : s.iput x k ret = some s') : Kept s' w m := by
  unfold Inodes.iput at hs
  split_ifs at hs with hlock
  · cases hs
    exact h
  · exact h.putReady (Bool.eq_false_of_not_eq_true hlock) hs

lemma Kept.scan {i : Fin nrInode} (h : Kept (s.setCall x (.scanWait dev nr k i)) w m)
    (hmax : ∀ i, (s.entry i).iCount ≠ 0xffff) (hs : s.scan x dev nr k = some s') : Kept s' w m := by
  unfold Inodes.scan at hs
  split at hs
  next i hfind =>
    have hi : s.Is dev nr i := by simpa using List.find?_some hfind
    split_ifs at hs with hlock
    · cases hs
      exact h.move (fun _ => rfl) rfl (fun _ hc => by cases hc) h.settled.fine_self
    · exact (h.take hi (Bool.eq_false_of_not_eq_true hlock) (hmax i)).iput hs
  next hnone =>
    have hlock : ((s.assign k dev nr).entry k).iLock = false := by
      rw [show (s.assign k dev nr).entry k = { s.entry k with iDev := dev, iNum := nr } from Function.update_self _ _ _]
      exact h.settled.fine_self.2.2.1
    dsimp only at hs
    rw [hlock] at hs
    cases hs
    exact h.open

lemma Kept.emptyReady {again : Option (Inodes P)} (h : Kept (s.setCall x (.emptyWait dev nr k)) w m)
    (hfree : (s.entry k).iLock = false) (hmax : ∀ i, (s.entry i).iCount ≠ 0xffff)
    (hagain : again = some s' → Kept s' w m) (hs : s.emptyReady x dev nr k again = some s') : Kept s' w m := by
  unfold Inodes.emptyReady at hs
  split_ifs at hs with hdirt hcount
  · cases hs
    exact h.lock hfree hdirt (fun _ => rfl) (fun _ hc => by cases hc) (Or.inl ⟨dev, nr, rfl⟩) h.settled.fine_self
  · refine (h.clear (i := k) hcount (Bool.eq_false_of_not_eq_true hdirt) hfree).scan (fun i => ?_) hs
    have hentry : (s.clear k).entry = Function.update s.entry k { zeroEntry with iCount := 1 } := rfl
    by_cases hi : i = k
    · rw [hi, entry_self hentry]
      decide
    · rw [entry_of_ne hentry hi]
      exact hmax i
  · exact hagain hs

lemma Kept.getEmpty (h : Kept (s.setCall x .outside) w m) (hdev : dev ≠ 0) (hmax : ∀ i, (s.entry i).iCount ≠ 0xffff)
    (hs : s.getEmpty x dev nr = some s') : Kept s' w m := by
  unfold Inodes.getEmpty at hs
  split at hs
  · cases hs
  next k _ =>
    have hwait : Kept (Inodes.setCall { s with last := k } x (.emptyWait dev nr k)) w m :=
      (h.setLast k).move (fun _ => rfl) rfl (fun _ hc => by cases hc) hdev
    dsimp only at hs
    split_ifs at hs with hlock
    · cases hs
      exact hwait
    · exact hwait.emptyReady (Bool.eq_false_of_not_eq_true hlock) hmax (fun hnone => by cases hnone) hs

lemma Kept.resume (h : Kept s w m) (hsound : Sound s) (hmax : ∀ i, (s.entry i).iCount ≠ 0xffff)
    (hquiet : ∀ k ret, s.call x ≠ .truncating k ret) (hs : s.resume x = some s') : Kept s' w m := by
  unfold Inodes.resume at hs
  split at hs
  next => cases hs
  next dev nr k hc =>
    have hout : Kept (s.setCall x .outside) w m :=
      (h.at_call hc).move (fun _ => rfl) rfl (fun _ hc => by cases hc) trivial
    split_ifs at hs with hlock
    · cases hs
      exact h
    · exact (h.at_call hc).emptyReady (Bool.eq_false_of_not_eq_true hlock) hmax
        (hout.getEmpty (h.at_call hc).settled.fine_self hmax) hs
  next dev nr k hc =>
    have hdev : dev ≠ 0 := (h.at_call hc).settled.fine_self
    have hentry : (s.writeBack k).entry = Function.update s.entry k { s.entry k with iDirt := false, iLock := false } :=
      rfl
    have hwait : Kept ((s.writeBack k).setCall x (.emptyWait dev nr k)) w m :=
      h.writeBack hsound (by rw [hc]; rfl) (by rw [hc]; exact fun hr => by cases hr) (fun _ => by rw [hc]; rfl) rfl
        (fun _ _ _ _ hs => by cases hs) (fun _ hr => by cases hr) hdev
    have hmax' : ∀ i, ((s.writeBack k).entry i).iCount ≠ 0xffff := by
      intro i
      rw [count_of_update hentry rfl]
      exact hmax i
    have hout : Kept ((s.writeBack k).setCall x .outside) w m :=
      hwait.move (fun _ => rfl) rfl (fun _ hc => by cases hc) trivial
    exact hwait.emptyReady (by rw [entry_self hentry]) hmax' (hout.getEmpty hdev hmax') hs
  next dev nr k i hc =>
    split_ifs at hs with hlock hi
    · cases hs
      exact h
    · exact ((h.at_call hc).take hi (Bool.eq_false_of_not_eq_true hlock) (hmax i)).iput hs
    · exact (h.at_call hc).scan hmax hs
  next k hc => exact (h.at_call hc).settled.fine_self.elim
  next k hc =>
    cases hs
    exact h.readIn hsound hc
  next k ret hc =>
    split_ifs at hs with hlock
    · cases hs
      exact h
    · exact (h.at_call hc).putReady (Bool.eq_false_of_not_eq_true hlock) hs
  next k ret hc =>
    have hfine := (h.at_call hc).settled.fine_self
    have hentry : (s.writeBack k).entry = Function.update s.entry k { s.entry k with iDirt := false, iLock := false } :=
      rfl
    have hwait : Kept ((s.writeBack k).setCall x (.putWait k ret)) w m :=
      h.writeBack hsound (by rw [hc]; rfl) (by rw [hc]; exact fun hr => by cases hr) (fun _ => by rw [hc]; rfl) rfl
        (fun _ _ _ _ hs => by cases hs) (fun _ hr => by cases hr) hfine.2
    cases hs
    exact hwait.putLoop (by rw [entry_self hentry]) ((named_of_dev hentry rfl).mpr hfine.1)
  next k ret hc => exact absurd hc (hquiet k ret)

lemma Kept.freeInode (h : Kept s w m) (hc : s.call x = .truncating k ret) (hfree : (s.entry k).iLock = false)
    (hs : s.freeInode x k ret = some s') : Kept s' w (m.set (s.name k) none) := by
  unfold Inodes.freeInode at hs
  split_ifs at hs with hdev hshared
  · exact absurd hdev (h.at_call hc).settled.fine_self.1
  · cases hs
    exact h.erase hc hshared hfree

end Calls

end Operations

end Inodes

section Runs

variable {P : Type*} [DecidableEq P] {s s' : SyncedInodes P} {m : Mapping (Word × Word) DInode}

/-- No `i_count` is about to overflow, and no inode is cleared by `free_inode` while another process writes it. -/
def SyncedInodes.Orderly (s : SyncedInodes P) (a : Access (Word × Word) DInode) : Prop :=
  (∀ i, (s.inodes.entry i).iCount ≠ 0xffff) ∧
    ∀ k, a = .forget (s.inodes.name k) → (s.inodes.entry k).iLock = false

def syncedSystem (P : Type*) [DecidableEq P] : System (SyncedInodes P) (Access (Word × Word) DInode) where
  init s := (inodeSystem P).init s.inodes ∧ ∀ x, s.sync x = none
  step := SyncedStep

variable [Fintype P]

lemma Inodes.Kept.call {s s' : Inodes P} {w : P → Option SyncCall} {e : InodeEvent P} (h : s.Kept w m)
    (hsound : s.Sound) (hmax : ∀ i, (s.entry i).iCount ≠ 0xffff) (hquiet : s.Quiet e) (hstep : InodeStep s e s') :
    s'.Kept w m := by
  cases hstep with
  | iget hc hdev hs => exact (h.at_call hc).getEmpty hdev hmax hs
  | iput hc hk hs => exact (h.giveBack hc hk).iput hs
  | resume _ hs => exact h.resume hsound hmax hquiet hs
  | hold hc hk => exact h.hold hc hk (hmax _) rfl
  | modify _ => exact hquiet.elim
  | truncate _ => exact hquiet.elim

lemma synced_step (h : s.inodes.Sound ∧ s.inodes.Kept s.sync m) {a : Access (Word × Word) DInode} (hok : s.Orderly a)
    (hstep : SyncedStep s a s') : ∃ m', StoreStep m a m' ∧ s'.inodes.Sound ∧ s'.inodes.Kept s'.sync m' := by
  obtain ⟨hsound, hkept⟩ := h
  cases hstep with
  | call hstep hquiet _ => exact ⟨m, .silent, hsound.step hstep, hkept.call hsound hok.1 hquiet hstep⟩
  | @modify s s' w x k d hstep =>
    refine ⟨_, .store, hsound.step hstep, ?_⟩
    cases hstep with
    | modify hk =>
      exact hkept.modify hsound x (hkept.settled.refs x k hk) (hkept.settled.unread_of_refs hk) d
  | @truncate s s' w x k ret d hc hstep =>
    refine ⟨_, .store, hsound.step hstep, ?_⟩
    cases hstep with
    | truncate hc' =>
      obtain ⟨rfl, -⟩ := InodeCall.truncating.inj (hc.symm.trans hc')
      have hfine := (hkept.at_call hc).settled.fine_self
      refine hkept.modify hsound x hfine.1 (fun y => ?_) d
      by_cases hy : y = x
      · rw [hy, hc]
        exact ⟨fun hr => by (cases hr), fun _ _ _ hs => by cases hs⟩
      · refine hkept.settled.unshared (List.mem_append_right _ ?_) hy
        rw [hc]
        exact List.mem_cons_self
  | @free s s' w x k ret hc hstep =>
    refine ⟨_, .forget, hsound.step hstep, ?_⟩
    cases hstep with
    | resume _ hs =>
      rw [Inodes.resume, hc] at hs
      exact hkept.freeInode hc (hok.2 k rfl) hs
  | @look s w x k hk =>
    refine ⟨m, .load fun d hm => ?_, hsound, hkept⟩
    exact hkept.agrees.cached k _ d ⟨rfl, hkept.settled.refs x k hk⟩
      (fun y => (hkept.settled.unread_of_refs hk y).1) hm
  | syncStart _ _ => exact ⟨m, .silent, hsound, hkept.syncMove fun _ hb => by cases hb⟩
  | syncNext _ _ _ => exact ⟨m, .silent, hsound, hkept.syncMove fun _ hb => by cases hb⟩
  | syncWrite _ hfree hdirt => exact ⟨m, .silent, hsound.setLock _ _, hkept.syncLock hfree hdirt⟩
  | syncWritten hw => exact ⟨m, .silent, hsound.writeBack _, hkept.syncWrite hsound hw _⟩
  | syncEnd _ => exact ⟨m, .silent, hsound, hkept.syncMove fun _ hb => by cases hb⟩

lemma kept_of_init (h : (syncedSystem P).init s) :
    s.inodes.Sound ∧ s.inodes.Kept s.sync fun key => some (s.inodes.disk key.1 key.2) := by
  obtain ⟨hinit, hsync⟩ := h
  refine ⟨Inodes.sound_of_reach (.start hinit), ?_⟩
  obtain ⟨hentry, hcall, hrefs, -⟩ := hinit
  have hnamed : ∀ k, ¬ s.inodes.Named k := by
    intro k hn
    unfold Inodes.Named at hn
    rw [hentry] at hn
    exact hn rfl
  have howns : ∀ o k, ¬ s.inodes.Owns s.sync o k := by
    rintro ⟨y, _ | _⟩ k ho
    · change (s.inodes.call y).locks = some k at ho
      rw [hcall] at ho
      cases ho
    · change s.sync y = _ at ho
      rw [hsync] at ho
      cases ho
  refine ⟨⟨fun k => ?_, fun x => ?_, fun x k hk => ?_, fun o k ho => absurd ho (howns o k),
    fun o o' k ho => absurd ho (howns o k), fun k hk => ?_⟩, ⟨fun k key d hk => absurd hk.2 (hnamed k), ?_⟩⟩
  · have huses : ∀ x, s.inodes.uses x = [] := by
      intro x
      rw [Inodes.uses, hcall, hrefs]
      rfl
    simp [total, huses, hentry, zeroEntry]
  · rw [hcall]
    trivial
  · rw [hrefs] at hk
    cases hk
  · rw [hentry] at hk
    cases hk
  · exact fun key d _ hm => Option.some.inj hm

/-- Whatever is looked up, given back, reused and synced: who looks at an inode sees what was last written to it, or
what the disk had, and it is on the disk as soon as there is no dirty entry of it. -/
theorem inodes_read_last_written {as : List (Access (Word × Word) DInode)} (hinit : (syncedSystem P).init s)
    (h : (syncedSystem P).Trace SyncedInodes.Orderly s as s') :
    s'.inodes.cache.ReadsLast (fun key => s.inodes.disk key.1 key.2) as := by
  let R : SyncedInodes P → Mapping (Word × Word) DInode → Prop := fun s m => s.inodes.Sound ∧ s.inodes.Kept s.sync m
  have hstep : ∀ s m a s', R s m → s.Orderly a → (syncedSystem P).step s a s' →
      ∃ m', (storeSystem (Word × Word) DInode).step m a m' ∧ R s' m' :=
    fun _ _ _ _ hR hok hstep => synced_step hR hok hstep
  obtain ⟨m, hm, -, hkept⟩ := h.simulates hstep (kept_of_init hinit)
  exact hkept.agrees.readsLast hm

section Examples

def bootInodes : SyncedInodes Unit := ⟨emptyInodes, fun _ => none⟩

def begunInodes : Inodes Unit := (emptyInodes.getEmpty () 1 2).getD emptyInodes

/-- With inode 2 of device 1 in the first entry. -/
def readInodes : Inodes Unit := (begunInodes.resume ()).getD emptyInodes

def changedInodes : Inodes Unit := readInodes.modify 0 ⟨2, []⟩

lemma orderly_of_counts {s : SyncedInodes Unit} {a : Access (Word × Word) DInode}
    (h : ∀ i, (s.inodes.entry i).iCount ≠ 0xffff) (ha : ∀ key, a ≠ .forget key) : s.Orderly a :=
  ⟨h, fun _ hk => absurd hk (ha _)⟩

lemma changedInodes_trace : (syncedSystem Unit).Trace SyncedInodes.Orderly bootInodes
    [.silent, .silent, .store (1, 2) ⟨2, []⟩] ⟨changedInodes, fun _ => none⟩ := by
  have hbegin : InodeStep emptyInodes (.iget () 1 2) begunInodes := .iget rfl (by decide) rfl
  have hread : InodeStep begunInodes (.resume ()) readInodes := resume_step rfl
  have hchange : InodeStep readInodes (.modify () 0 ⟨2, []⟩) changedInodes := .modify List.mem_cons_self
  have hquiet : begunInodes.Quiet (.resume ()) := fun k ret hc => by cases hc
  have hs₁ : SyncedStep bootInodes .silent ⟨begunInodes, fun _ => none⟩ := .call hbegin trivial rfl
  have hs₂ : SyncedStep ⟨begunInodes, fun _ => none⟩ .silent ⟨readInodes, fun _ => none⟩ := .call hread hquiet rfl
  have hs₃ : SyncedStep ⟨readInodes, fun _ => none⟩ (.store (1, 2) ⟨2, []⟩) ⟨changedInodes, fun _ => none⟩ :=
    .modify hchange
  have h₁ := System.Trace.single (M := syncedSystem Unit) (orderly_of_counts (by decide) fun _ ha => by cases ha) hs₁
  have h₂ := h₁.snoc (orderly_of_counts (by decide) fun _ ha => by cases ha) hs₂
  exact h₂.snoc (orderly_of_counts (by decide) fun _ ha => by cases ha) hs₃

def syncBegun : Unit → Option SyncCall := Function.update (fun _ => none) () (some (.scanning 0))

def syncWriting : Unit → Option SyncCall := Function.update syncBegun () (some (.writing 0))

/-- `sync_inodes` as far as the first entry. -/
lemma synced_trace : ∃ w, (syncedSystem Unit).Trace SyncedInodes.Orderly bootInodes
    [.silent, .silent, .store (1, 2) ⟨2, []⟩, .silent, .silent, .silent]
    ⟨(changedInodes.setLock 0 true).writeBack 0, w⟩ := by
  have hs₁ : SyncedStep ⟨changedInodes, fun _ => none⟩ .silent ⟨changedInodes, syncBegun⟩ := .syncStart rfl rfl
  have hs₂ : SyncedStep ⟨changedInodes, syncBegun⟩ .silent ⟨changedInodes.setLock 0 true, syncWriting⟩ :=
    .syncWrite rfl rfl rfl
  have hs₃ : SyncedStep ⟨changedInodes.setLock 0 true, syncWriting⟩ .silent
      ⟨(changedInodes.setLock 0 true).writeBack 0, _⟩ := .syncWritten (x := ()) rfl
  have h₁ := changedInodes_trace.snoc (orderly_of_counts (by decide) fun _ ha => by cases ha) hs₁
  have h₂ := h₁.snoc (orderly_of_counts (by decide) fun _ ha => by cases ha) hs₂
  exact ⟨_, h₂.snoc (orderly_of_counts (by decide) fun _ ha => by cases ha) hs₃⟩

end Examples

/-- A change is on the disk when `sync_inodes` has been at its entry. -/
theorem inodes_read_last_written_synced : ((changedInodes.setLock 0 true).writeBack 0).disk 1 2 = ⟨2, []⟩ := by
  obtain ⟨w, h⟩ := synced_trace
  have hinit : (syncedSystem Unit).init bootInodes := ⟨⟨rfl, rfl, rfl, rfl, rfl, rfl⟩, fun _ => rfl⟩
  have hclean : ∀ k, (((changedInodes.setLock 0 true).writeBack 0).entry k).iDirt = false := by decide
  have hdisk := (inodes_read_last_written hinit h).written [.silent, .silent] [.silent, .silent, .silent] (1, 2) ⟨2, []⟩
    rfl (by simp [Access.Changes]) fun k _ hd => Bool.false_ne_true ((hclean k).symm.trans hd)
  rwa [Inodes.cache_back] at hdisk

end Runs

end Devos.Fs
