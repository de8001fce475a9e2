import Devos.Basic
import Devos.Library.LinkedList
import Devos.Library.Loops
import Mathlib.Data.Fintype.Card
import Mathlib.Data.List.NodupEquivFin
import Mathlib.Data.List.Range

/-! The queues of `buffer.c`: the ring of all buffers and the hash chains, with the unlinking and the linking of
one buffer. -/

namespace Devos.Fs

open LinkedList Loops

abbrev nrHash : ℕ := 307

/-- The fields of the buffer heads besides `b_data` and `b_wait`, and the two heads of queues. `nullWrites` is the
number of links that have been written through a null pointer, which no code reads. -/
structure BufferPool (n : ℕ) where
  bDev : Fin n → Word
  bBlocknr : Fin n → Word
  bUptodate : Fin n → Bool
  bDirt : Fin n → Bool
  bCount : Fin n → Byte
  bLock : Fin n → Bool
  bPrev : Fin n → Option (Fin n)
  bNext : Fin n → Option (Fin n)
  bPrevFree : Fin n → Option (Fin n)
  bNextFree : Fin n → Option (Fin n)
  hashTable : Fin nrHash → Option (Fin n)
  freeList : Option (Fin n)
  nullWrites : ℕ

-- `_hashfn`, on the `int` values of its arguments
def hashFn (dev block : BitVec 32) : Fin nrHash := Fin.ofNat nrHash (dev ^^^ block).toNat

namespace BufferPool

variable {n : ℕ} (s : BufferPool n)

def hash (bh : Fin n) : Fin nrHash := hashFn ((s.bDev bh).setWidth 32) ((s.bBlocknr bh).setWidth 32)

def writesThrough (x : Option (Fin n)) : ℕ := if x = none then s.nullWrites + 1 else s.nullWrites

def setPrev (x y : Option (Fin n)) : BufferPool n :=
  { s with bPrev := store s.bPrev x y, nullWrites := s.writesThrough x }

def setNext (x y : Option (Fin n)) : BufferPool n :=
  { s with bNext := store s.bNext x y, nullWrites := s.writesThrough x }

def setPrevFree (x y : Option (Fin n)) : BufferPool n :=
  { s with bPrevFree := store s.bPrevFree x y, nullWrites := s.writesThrough x }

def setNextFree (x y : Option (Fin n)) : BufferPool n :=
  { s with bNextFree := store s.bNextFree x y, nullWrites := s.writesThrough x }

def setHead (h : Fin nrHash) (x : Option (Fin n)) : BufferPool n :=
  { s with hashTable := Function.update s.hashTable h x }

def removeFromQueues (bh : Fin n) : Except Fault (BufferPool n) :=
  let s := if s.bNext bh = none then s else s.setPrev (s.bNext bh) (s.bPrev bh)
  let s := if s.bPrev bh = none then s else s.setNext (s.bPrev bh) (s.bNext bh)
  let s := if s.hashTable (s.hash bh) = some bh then s.setHead (s.hash bh) (s.bNext bh) else s
  if s.bPrevFree bh = none ∨ s.bNextFree bh = none then .error .panic
  else
    let s := s.setNextFree (s.bPrevFree bh) (s.bNextFree bh)
    let s := s.setPrevFree (s.bNextFree bh) (s.bPrevFree bh)
    .ok (if s.freeList = some bh then { s with freeList := s.bNextFree bh } else s)

def insertIntoQueues (bh : Fin n) : BufferPool n :=
  let s := s.setNextFree (some bh) s.freeList
  let s := s.setPrevFree (some bh) (s.freeList.bind s.bPrevFree)
  let s := s.setNextFree (s.freeList.bind s.bPrevFree) (some bh)
  let s := s.setPrevFree s.freeList (some bh)
  let s := s.setPrev (some bh) none
  let s := s.setNext (some bh) none
  if s.bDev bh = 0 then s
  else
    let s := s.setNext (some bh) (s.hashTable (s.hash bh))
    let s := s.setHead (s.hash bh) (some bh)
    s.setPrev (s.bNext bh) (some bh)

def Matches (dev block : BitVec 32) (b : Fin n) : Prop :=
  (s.bDev b).setWidth 32 = dev ∧ (s.bBlocknr b).setWidth 32 = block

instance (dev block : BitVec 32) (b : Fin n) : Decidable (s.Matches dev block b) :=
  inferInstanceAs (Decidable (_ ∧ _))

def findBody (dev block : BitVec 32) : Option (Fin n) → Pass (Option (Fin n)) (Option (Fin n))
  | none => .leave none
  | some tmp => if s.Matches dev block tmp then .leave (some tmp) else .again (s.bNext tmp)

def findBuffer (dev block : BitVec 32) : Except Fault (Option (Fin n)) :=
  ((iterate (s.findBody dev block) (n + 1) (s.hashTable (hashFn dev block))).map .ok).getD (.error .hang)

/-- The buffers are on the ring and on the chain of their block, except those that are `out`: a `getblk` has taken
them and not put them back yet. -/
structure WellFormed (out : Fin n → Prop) : Prop where
  ring : ∃ c l, s.freeList = some c ∧ Linked s.bNextFree s.bPrevFree (some c) l ∧ ∀ b, b ∈ c :: l ↔ ¬ out b
  chain : ∀ h, ∃ l, s.hashTable h = l.head? ∧ Linked s.bNext s.bPrev none l ∧
    ∀ b, b ∈ l ↔ ¬ out b ∧ s.bDev b ≠ 0 ∧ s.hash b = h
  loose : ∀ b, ¬ out b → s.bDev b = 0 → s.bNext b = none ∧ s.bPrev b = none

/-- Only links have changed. -/
structure SameData (s' : BufferPool n) : Prop where
  bDev : s'.bDev = s.bDev
  bBlocknr : s'.bBlocknr = s.bBlocknr
  bUptodate : s'.bUptodate = s.bUptodate
  bDirt : s'.bDirt = s.bDirt
  bCount : s'.bCount = s.bCount
  bLock : s'.bLock = s.bLock

section Unlinking

variable {s} {out : Fin n → Prop} {b : Fin n}

def unlinked (s : BufferPool n) (b : Fin n) : BufferPool n :=
  { s with
    bNext := store s.bNext (s.bPrev b) (s.bNext b)
    bPrev := store s.bPrev (s.bNext b) (s.bPrev b)
    hashTable := if s.hashTable (s.hash b) = some b then Function.update s.hashTable (s.hash b) (s.bNext b)
      else s.hashTable
    bNextFree := store s.bNextFree (s.bPrevFree b) (s.bNextFree b)
    bPrevFree := store s.bPrevFree (s.bNextFree b) (s.bPrevFree b)
    freeList := if s.freeList = some b then s.bNextFree b else s.freeList }

lemma guarded_setPrev (s : BufferPool n) (x y : Option (Fin n)) :
    (if x = none then s else s.setPrev x y) = { s with bPrev := store s.bPrev x y } := by
  cases x with
  | none => simp
  | some a => simp [setPrev, writesThrough]

lemma guarded_setNext (s : BufferPool n) (x y : Option (Fin n)) :
    (if x = none then s else s.setNext x y) = { s with bNext := store s.bNext x y } := by
  cases x with
  | none => simp
  | some a => simp [setNext, writesThrough]

lemma guarded_setHead (s : BufferPool n) (p : Prop) [Decidable p] (h : Fin nrHash) (y : Option (Fin n)) :
    (if p then s.setHead h y else s) =
      { s with hashTable := if p then Function.update s.hashTable h y else s.hashTable } := by
  split_ifs
  · rfl
  · rfl

lemma guarded_freeList (s : BufferPool n) (p : Prop) [Decidable p] (y : Option (Fin n)) :
    (if p then { s with freeList := y } else s) = { s with freeList := if p then y else s.freeList } := by
  split_ifs
  · rfl
  · rfl

lemma removeFromQueues_eq (hnext : s.bNext b ≠ some b) (hprev : s.bPrev b ≠ some b)
    (hnextFree : s.bNextFree b ≠ none) (hprevFree : s.bPrevFree b ≠ none) (hself : s.bPrevFree b ≠ some b) :
    s.removeFromQueues b = .ok (s.unlinked b) := by
  obtain ⟨x, hx⟩ := Option.ne_none_iff_exists'.mp hprevFree
  obtain ⟨y, hy⟩ := Option.ne_none_iff_exists'.mp hnextFree
  have hxb : b ≠ x := by
    rintro rfl
    exact hself hx
  unfold removeFromQueues unlinked
  simp only [guarded_setPrev, guarded_setNext, guarded_setHead, guarded_freeList, store_of_ne hnext,
    store_of_ne hprev, hash]
  simp [setNextFree, setPrevFree, writesThrough, hx, hy, hxb]
  congr

lemma unlinked_hashTable (s : BufferPool n) (b : Fin n) (k : Fin nrHash) : (s.unlinked b).hashTable k =
    if k = s.hash b ∧ s.hashTable k = some b then s.bNext b else s.hashTable k := by
  change (if s.hashTable (s.hash b) = some b then Function.update s.hashTable (s.hash b) (s.bNext b)
    else s.hashTable) k = _
  by_cases hk : k = s.hash b
  · subst hk
    by_cases hhead : s.hashTable (s.hash b) = some b
    · simp [hhead]
    · simp [hhead]
  · by_cases hhead : s.hashTable (s.hash b) = some b
    · simp [hhead, hk]
    · simp [hhead, hk]

lemma sameData_unlinked (s : BufferPool n) (b : Fin n) : s.SameData (s.unlinked b) :=
  ⟨rfl, rfl, rfl, rfl, rfl, rfl⟩

lemma WellFormed.chained (h : s.WellFormed out) (hb : ¬ out b) (hdev : s.bDev b ≠ 0) :
    ∃ l, s.hashTable (s.hash b) = l.head? ∧ Linked s.bNext s.bPrev none l ∧ b ∈ l ∧
      ∀ a, a ∈ l ↔ ¬ out a ∧ s.bDev a ≠ 0 ∧ s.hash a = s.hash b := by
  obtain ⟨l, hhead, hlinked, hmem⟩ := h.chain (s.hash b)
  exact ⟨l, hhead, hlinked, (hmem b).mpr ⟨hb, hdev, rfl⟩, hmem⟩

lemma WellFormed.neighbour (h : s.WellFormed out) (hb : ¬ out b) {a : Fin n}
    (ha : s.bNext b = some a ∨ s.bPrev b = some a) :
    ¬ out a ∧ s.bDev a ≠ 0 ∧ s.hash a = s.hash b ∧ a ≠ b ∧ s.bDev b ≠ 0 := by
  by_cases hdev : s.bDev b = 0
  · obtain ⟨hnext, hprev⟩ := h.loose b hb hdev
    simp [hnext, hprev] at ha
  · obtain ⟨l, _, hlinked, hbl, hmem⟩ := h.chained hb hdev
    have hnode : some b ∈ none :: l.map some := by simp [hbl]
    have hnear := hlinked.neighbours hnode
    have hself := hlinked.not_self hnode (List.ne_nil_of_mem hbl)
    have hal : a ∈ l ∧ a ≠ b := by
      rcases ha with ha | ha
      · rw [ha] at hnear hself
        exact ⟨by simpa using hnear.1, fun he => hself.1 (congrArg some he)⟩
      · rw [ha] at hnear hself
        exact ⟨by simpa using hnear.2, fun he => hself.2 (congrArg some he)⟩
    obtain ⟨hout, hdev', hhash⟩ := (hmem a).mp hal.1
    exact ⟨hout, hdev', hhash, hal.2, hdev⟩

lemma WellFormed.unlink_chain (h : s.WellFormed out) (hb : ¬ out b) (k : Fin nrHash) :
    ∃ l, (s.unlinked b).hashTable k = l.head? ∧ Linked (s.unlinked b).bNext (s.unlinked b).bPrev none l ∧
      ∀ a, a ∈ l ↔ ¬ (out a ∨ a = b) ∧ s.bDev a ≠ 0 ∧ s.hash a = k := by
  obtain ⟨l, hhead, hlinked, hmem⟩ := h.chain k
  by_cases hbl : b ∈ l
  · obtain ⟨l', hlinked', hhead', hmem'⟩ := hlinked.unlink_mem hbl
    have hk : s.hash b = k := ((hmem b).mp hbl).2.2
    refine ⟨l', ?_, hlinked', ?_⟩
    · rw [hhead', ← hhead, unlinked_hashTable]
      simp [hk]
    · intro a
      rw [hmem' a, hmem a]
      tauto
  · refine ⟨l, ?_, ?_, ?_⟩
    · rw [unlinked_hashTable, if_neg, hhead]
      rintro ⟨_, hfirst⟩
      rw [hhead] at hfirst
      exact hbl (List.mem_of_head? hfirst)
    · apply hlinked.congr
      intro a ha
      have hapart : ¬ (s.bNext b = some a ∨ s.bPrev b = some a) := by
        intro hnear
        obtain ⟨_, _, hhash, _, hdev⟩ := h.neighbour hb hnear
        have hal : a ∈ l := by simpa using ha
        exact hbl ((hmem b).mpr ⟨hb, hdev, hhash.symm.trans ((hmem a).mp hal).2.2⟩)
      rw [not_or] at hapart
      exact ⟨store_of_ne hapart.2, store_of_ne hapart.1⟩
    · intro a
      rw [hmem a]
      constructor
      · rintro ⟨hout, hdev, hhash⟩
        refine ⟨?_, hdev, hhash⟩
        rintro (ho | rfl)
        · exact hout ho
        · exact hbl ((hmem a).mpr ⟨hout, hdev, hhash⟩)
      · rintro ⟨hout, hrest⟩
        exact ⟨fun ho => hout (Or.inl ho), hrest⟩

theorem WellFormed.unlink (h : s.WellFormed out) (hb : ¬ out b) (hroom : ∃ c, c ≠ b ∧ ¬ out c) :
    s.removeFromQueues b = .ok (s.unlinked b) ∧ (s.unlinked b).WellFormed (fun c => out c ∨ c = b) := by
  obtain ⟨c, l, hfree, hring, hmem⟩ := h.ring
  have hbring : b ∈ c :: l := (hmem b).mpr hb
  have hnode : some b ∈ some c :: l.map some := by simpa using hbring
  have hl : l ≠ [] := by
    rintro rfl
    obtain ⟨d, hdb, hd⟩ := hroom
    have hdmem := (hmem d).mpr hd
    simp at hbring hdmem
    exact hdb (hdmem.trans hbring.symm)
  constructor
  · have hnear := hring.neighbours hnode
    apply removeFromQueues_eq
    · intro he
      exact (h.neighbour hb (Or.inl he)).2.2.2.1 rfl
    · intro he
      exact (h.neighbour hb (Or.inr he)).2.2.2.1 rfl
    · intro he
      simp [he] at hnear
    · intro he
      simp [he] at hnear
    · exact (hring.not_self hnode hl).2
  · obtain ⟨d, l', hhead, hring', hmem'⟩ := hring.ring_unlink hbring hl
    refine ⟨⟨d, l', ?_, hring', ?_⟩, h.unlink_chain hb, ?_⟩
    · rw [← hhead]
      change (if s.freeList = some b then s.bNextFree b else s.freeList) = _
      by_cases hbc : b = c
      · simp [hbc, hfree]
      · simp [hbc, hfree, Ne.symm hbc]
    · intro a
      rw [hmem' a, hmem a]
      tauto
    · intro a hout hdev
      obtain ⟨hnext, hprev⟩ := h.loose a (fun ho => hout (Or.inl ho)) hdev
      have hapart : ¬ (s.bNext b = some a ∨ s.bPrev b = some a) := fun hnear => (h.neighbour hb hnear).2.1 hdev
      rw [not_or] at hapart
      exact ⟨(store_of_ne hapart.2).trans hnext, (store_of_ne hapart.1).trans hprev⟩

end Unlinking

section Linking

variable {s} {out : Fin n → Prop} {b c : Fin n}

/-- The buffer at the end of the ring and, when it has a device, at the head of its chain. -/
def linked (s : BufferPool n) (b c : Fin n) : BufferPool n :=
  { s with
    bNext := Function.update s.bNext b (if s.bDev b = 0 then none else s.hashTable (s.hash b))
    bPrev := store (Function.update s.bPrev b none) (if s.bDev b = 0 then none else s.hashTable (s.hash b)) (some b)
    hashTable := if s.bDev b = 0 then s.hashTable else Function.update s.hashTable (s.hash b) (some b)
    bNextFree := store (Function.update s.bNextFree b (some c)) (s.bPrevFree c) (some b)
    bPrevFree := Function.update (Function.update s.bPrevFree b (s.bPrevFree c)) c (some b)
    nullWrites := if s.bDev b ≠ 0 ∧ s.hashTable (s.hash b) = none then s.nullWrites + 1 else s.nullWrites }

lemma insertIntoQueues_eq (hfree : s.freeList = some c) (hc : c ≠ b) (hprev : s.bPrevFree c ≠ none) :
    s.insertIntoQueues b = s.linked b c := by
  obtain ⟨x, hx⟩ := Option.ne_none_iff_exists'.mp hprev
  unfold insertIntoQueues linked
  by_cases hdev : s.bDev b = 0
  · simp [setNextFree, setPrevFree, setPrev, setNext, writesThrough, hfree, hx, hc, hdev]
  · have hdev' : s.bDev b ≠ 0#16 := hdev
    cases hhead : s.hashTable (s.hash b) with
    | none =>
      unfold hash at hhead
      simp [setNextFree, setPrevFree, setPrev, setNext, setHead, writesThrough, hash, hfree, hx, hc, hdev', hhead]
    | some a =>
      unfold hash at hhead
      simp [setNextFree, setPrevFree, setPrev, setNext, setHead, writesThrough, hash, hfree, hx, hc, hdev', hhead]

lemma sameData_linked (s : BufferPool n) (b c : Fin n) : s.SameData (s.linked b c) :=
  ⟨rfl, rfl, rfl, rfl, rfl, rfl⟩

lemma WellFormed.head (h : s.WellFormed out) {k : Fin nrHash} {a : Fin n} (ha : s.hashTable k = some a) :
    ¬ out a ∧ s.bDev a ≠ 0 ∧ s.hash a = k := by
  obtain ⟨l, hhead, _, hmem⟩ := h.chain k
  apply (hmem a).mp
  apply List.mem_of_head?
  rw [← hhead, ha]

lemma WellFormed.head_none (h : s.WellFormed out) (k : Fin nrHash) :
    s.hashTable k = none ↔ ∀ a, ¬ out a → s.bDev a ≠ 0 → s.hash a ≠ k := by
  obtain ⟨l, hhead, _, hmem⟩ := h.chain k
  rw [hhead, List.head?_eq_none_iff, List.eq_nil_iff_forall_not_mem]
  apply forall_congr'
  intro a
  rw [hmem a]
  tauto

/-- The links of the buffers that are not the new head's neighbours stay. -/
lemma linked_links {a : Fin n} (hab : a ≠ b)
    (ha : s.bDev b = 0 ∨ s.hashTable (s.hash b) ≠ some a) :
    (s.linked b c).bNext a = s.bNext a ∧ (s.linked b c).bPrev a = s.bPrev a := by
  constructor
  · exact Function.update_of_ne hab _ _
  · refine Eq.trans (store_of_ne ?_) (Function.update_of_ne hab _ _)
    split_ifs with hdev
    · simp
    · exact ha.resolve_left hdev

lemma WellFormed.link_chain (h : s.WellFormed out) (hb : out b) (k : Fin nrHash) :
    ∃ l, (s.linked b c).hashTable k = l.head? ∧ Linked (s.linked b c).bNext (s.linked b c).bPrev none l ∧
      ∀ a, a ∈ l ↔ ¬ (out a ∧ a ≠ b) ∧ s.bDev a ≠ 0 ∧ s.hash a = k := by
  obtain ⟨l, hhead, hlinked, hmem⟩ := h.chain k
  have hbl : b ∉ l := fun hbl => ((hmem b).mp hbl).1 hb
  by_cases hmine : s.bDev b ≠ 0 ∧ s.hash b = k
  · obtain ⟨hdev, rfl⟩ := hmine
    refine ⟨b :: l, ?_, ?_, ?_⟩
    · simp [linked, show s.bDev b ≠ 0#16 from hdev]
    · have hfirst := hlinked.link_first hbl
      rw [← hhead] at hfirst
      simpa [linked, show s.bDev b ≠ 0#16 from hdev] using hfirst
    · intro a
      rw [List.mem_cons, hmem a]
      by_cases hab : a = b
      · simp [hab, show s.bDev b ≠ 0#16 from hdev]
      · simp [hab]
  · refine ⟨l, ?_, ?_, ?_⟩
    · rw [← hhead]
      change (if s.bDev b = 0 then s.hashTable else Function.update s.hashTable (s.hash b) (some b)) k = _
      split_ifs with hdev
      · rfl
      · apply Function.update_of_ne
        rintro rfl
        exact hmine ⟨hdev, rfl⟩
    · apply hlinked.congr
      intro a ha
      have hal : a ∈ l := by simpa using ha
      have hab : a ≠ b := by
        rintro rfl
        exact hbl hal
      apply linked_links hab
      by_contra hor
      rw [not_or, not_not] at hor
      apply hmine
      exact ⟨hor.1, (h.head hor.2).2.2.symm.trans ((hmem a).mp hal).2.2⟩
    · intro a
      rw [hmem a]
      by_cases hab : a = b
      · subst hab
        simp only [hb, not_true, false_and, ne_eq, and_false, not_false_eq_true, true_and, false_iff]
        exact hmine
      · simp [hab]

theorem WellFormed.link (h : s.WellFormed out) (hb : out b) :
    ∃ c, s.insertIntoQueues b = s.linked b c ∧ (s.linked b c).WellFormed (fun a => out a ∧ a ≠ b) := by
  obtain ⟨c, l, hfree, hring, hmem⟩ := h.ring
  have hbl : b ∉ c :: l := fun hbl => (hmem b).mp hbl hb
  have hc : c ≠ b := by
    rintro rfl
    simp at hbl
  refine ⟨c, insertIntoQueues_eq hfree hc ?_, ⟨⟨c, l ++ [b], hfree, hring.link_last hbl, ?_⟩, h.link_chain hb, ?_⟩⟩
  · intro he
    have hnear := hring.neighbours (show some c ∈ some c :: l.map some by simp)
    simp [he] at hnear
  · intro a
    have ha := hmem a
    rw [← List.cons_append, List.mem_append, ha, List.mem_singleton]
    by_cases hab : a = b
    · simp [hab]
    · simp [hab]
  · intro a hout hdev
    have hdev' : s.bDev a = 0#16 := hdev
    by_cases hab : a = b
    · subst hab
      simp [linked, hdev']
    · have hlinks : (s.linked b c).bNext a = s.bNext a ∧ (s.linked b c).bPrev a = s.bPrev a := by
        apply linked_links hab
        by_contra hor
        rw [not_or, not_not] at hor
        exact (h.head hor.2).2.1 hdev
      rw [hlinks.1, hlinks.2]
      exact h.loose a (fun ho => hout ⟨ho, hab⟩) hdev

end Linking

section Search

variable {s} {out : Fin n → Prop} {dev block : BitVec 32} {l₁ l₂ : List (Fin n)}

lemma iterate_findBody (h : Linked s.bNext s.bPrev none (l₁ ++ l₂)) {fuel : ℕ} (hfuel : l₂.length < fuel) :
    iterate (s.findBody dev block) fuel l₂.head? = some (l₂.find? fun b => s.Matches dev block b) := by
  induction l₂ generalizing l₁ fuel with
  | nil =>
    obtain ⟨k, rfl⟩ := Nat.exists_eq_add_of_lt hfuel
    apply iterate_leave
    rfl
  | cons b l₂ ih =>
    cases fuel with
    | zero => simp at hfuel
    | succ fuel =>
      by_cases hb : s.Matches dev block b
      · rw [List.find?_cons_of_pos (by simpa using hb)]
        apply iterate_leave
        exact if_pos hb
      · rw [List.find?_cons_of_neg (by simpa using hb)]
        have hagain : s.findBody dev block (some b) = .again l₂.head? := by
          rw [← h.next_eq]
          exact if_neg hb
        rw [List.head?_cons, iterate_again hagain]
        have hl : Linked s.bNext s.bPrev none ((l₁ ++ [b]) ++ l₂) := by simpa using h
        apply ih hl
        simpa using hfuel

lemma hash_of_matches {b : Fin n} (hb : s.Matches dev block b) : s.hash b = hashFn dev block := by
  rw [hash, hb.1, hb.2]

/-- `find_buffer` comes to an end, and finds the block exactly when a buffer outside of critical sections has it. -/
theorem WellFormed.find (h : s.WellFormed out) (dev block : BitVec 32) :
    (∃ b, s.findBuffer dev block = .ok (some b) ∧ ¬ out b ∧ s.bDev b ≠ 0 ∧ s.Matches dev block b) ∨
      (s.findBuffer dev block = .ok none ∧ ∀ b, ¬ out b → s.bDev b ≠ 0 → ¬ s.Matches dev block b) := by
  obtain ⟨l, hhead, hlinked, hmem⟩ := h.chain (hashFn dev block)
  have hnodup : l.Nodup := by
    apply List.Nodup.of_map some
    exact (List.nodup_cons.mp hlinked.nodup).2
  have hlen : l.length < n + 1 := by
    have hcard := hnodup.length_le_card
    rw [Fintype.card_fin] at hcard
    omega
  have hrun : s.findBuffer dev block = .ok (l.find? fun b => s.Matches dev block b) := by
    have hl : Linked s.bNext s.bPrev none ([] ++ l) := hlinked
    rw [findBuffer, hhead, iterate_findBody hl hlen]
    rfl
  rw [hrun]
  cases hfind : l.find? fun b => s.Matches dev block b with
  | none =>
    refine Or.inr ⟨rfl, ?_⟩
    intro b hout hdev hb
    have hno := List.find?_eq_none.mp hfind b ((hmem b).mpr ⟨hout, hdev, hash_of_matches hb⟩)
    simp [hb] at hno
  | some b =>
    have hb := List.find?_some hfind
    obtain ⟨hout, hdev, _⟩ := (hmem b).mp (List.mem_of_find?_eq_some hfind)
    exact Or.inl ⟨b, rfl, hout, hdev, by simpa using hb⟩

end Search

section Data

variable {s} {s' : BufferPool n} {out : Fin n → Prop}

structure SameLinks (s s' : BufferPool n) : Prop where
  bPrev : s'.bPrev = s.bPrev
  bNext : s'.bNext = s.bNext
  bPrevFree : s'.bPrevFree = s.bPrevFree
  bNextFree : s'.bNextFree = s.bNextFree
  hashTable : s'.hashTable = s.hashTable
  freeList : s'.freeList = s.freeList

lemma WellFormed.congr (h : s.WellFormed out) (hl : SameLinks s s')
    (hid : ∀ b, ¬ out b → s'.bDev b = s.bDev b ∧ s'.bBlocknr b = s.bBlocknr b) : s'.WellFormed out := by
  refine ⟨?_, ?_, ?_⟩
  · rw [hl.freeList, hl.bNextFree, hl.bPrevFree]
    exact h.ring
  · intro k
    obtain ⟨l, hhead, hlinked, hmem⟩ := h.chain k
    rw [hl.hashTable, hl.bNext, hl.bPrev]
    refine ⟨l, hhead, hlinked, ?_⟩
    intro b
    rw [hmem b]
    apply and_congr_right
    intro hout
    rw [hash, hash, (hid b hout).1, (hid b hout).2]
  · intro b hout hdev
    rw [hl.bNext, hl.bPrev]
    exact h.loose b hout ((hid b hout).1 ▸ hdev)

lemma WellFormed.out_congr {out' : Fin n → Prop} (h : s.WellFormed out) (hiff : ∀ b, out b ↔ out' b) :
    s.WellFormed out' := by
  obtain rfl : out = out' := funext fun b => propext (hiff b)
  exact h

theorem WellFormed.free_inverse (h : s.WellFormed out) {a b : Fin n} (ha : ¬ out a) (hb : ¬ out b) :
    s.bNextFree a = some b ↔ s.bPrevFree b = some a := by
  obtain ⟨c, l, _, hring, hmem⟩ := h.ring
  have hnode : ∀ d, ¬ out d → some d ∈ some c :: l.map some := by
    intro d hd
    simpa using (hmem d).mpr hd
  exact hring.next_iff (hnode a ha) (hnode b hb)

theorem WellFormed.hash_inverse (h : s.WellFormed out) {a b : Fin n} (ha : ¬ out a) (hb : ¬ out b) :
    s.bNext a = some b ↔ s.bPrev b = some a := by
  have hshared : ∀ {a b}, ¬ out a → s.bNext a = some b ∨ s.bPrev a = some b →
      (s.bNext a = some b ↔ s.bPrev b = some a) ∧ (s.bNext b = some a ↔ s.bPrev a = some b) := by
    intro a b ha hab
    obtain ⟨hb, hdevb, hhash, _, hdeva⟩ := h.neighbour ha hab
    obtain ⟨l, _, hlinked, hal, hmem⟩ := h.chained ha hdeva
    have hbl := (hmem b).mpr ⟨hb, hdevb, hhash⟩
    have hnode : ∀ {d}, d ∈ l → some d ∈ none :: l.map some := by
      intro d hd
      simp [hd]
    exact ⟨hlinked.next_iff (hnode hal) (hnode hbl), hlinked.next_iff (hnode hbl) (hnode hal)⟩
  constructor
  · intro hnext
    exact (hshared ha (Or.inl hnext)).1.mp hnext
  · intro hprev
    exact (hshared hb (Or.inr hprev)).2.mpr hprev

end Data

section Initialisation

-- `while ((b -= BLOCK_SIZE) >= (h+1))` on addresses; a buffer head has 32 bytes
def initLoop : ℕ → ℕ → ℕ → ℕ → ℕ
  | 0, _, _, nrBuffers => nrBuffers
  | passes + 1, h, b, nrBuffers =>
    if b - 1024 < h + 32 then nrBuffers
    else initLoop passes (h + 32) (if b - 1024 = 0x100000 then 0xA0000 else b - 1024) (nrBuffers + 1)

def bufferEnd : ℕ := 0x200000

/-- `NR_BUFFERS` for a kernel that ends at the address `start_buffer`. -/
def nrBuffers (startBuffer : ℕ) : ℕ := initLoop (bufferEnd / 1024) startBuffer bufferEnd 0

/-- The pool that `buffer_init` leaves; it does not set the block numbers. The links of the first and the last
buffer, which it sets after the loop, are those that the arithmetic of `Fin n` gives. -/
def bufferInit [NeZero n] (junk : Fin n → Word) : BufferPool n where
  bDev _ := 0
  bBlocknr := junk
  bUptodate _ := false
  bDirt _ := false
  bCount _ := 0
  bLock _ := false
  bPrev _ := none
  bNext _ := none
  bPrevFree h := some (h - 1)
  bNextFree h := some (h + 1)
  hashTable _ := none
  freeList := some 0
  nullWrites := 0

lemma le_initLoop (passes h b k : ℕ) : k ≤ initLoop passes h b k := by
  induction passes generalizing h b k with
  | zero => exact le_rfl
  | succ passes ih =>
    rw [initLoop]
    split_ifs
    · exact le_rfl
    · exact (Nat.le_succ k).trans (ih _ _ _)
    · exact (Nat.le_succ k).trans (ih _ _ _)

/-- The blocks above 1 MB are all buffers. -/
lemma initLoop_high {d passes h b k : ℕ} (hpasses : d ≤ passes) (hh : h + 32 * d ≤ 0x100000)
    (hb : b = 0x100000 + 1024 * d) : k + d ≤ initLoop passes h b k := by
  induction d generalizing passes h b k with
  | zero => exact le_initLoop passes h b k
  | succ d ih =>
    cases passes with
    | zero => omega
    | succ passes =>
      rw [initLoop, if_neg (by omega)]
      by_cases hd : d = 0
      · have hle := le_initLoop passes (h + 32) (if b - 1024 = 0x100000 then 0xA0000 else b - 1024) (k + 1)
        omega
      · rw [if_neg (by omega)]
        have hrest : k + 1 + d ≤ initLoop passes (h + 32) (b - 1024) (k + 1) := by
          apply ih
          · omega
          · omega
          · omega
        omega

lemma le_nrBuffers {startBuffer : ℕ} (h : startBuffer + 0x8000 ≤ 0x100000) : 1024 ≤ nrBuffers startBuffer := by
  have hhigh : 0 + 1024 ≤ initLoop 2048 startBuffer bufferEnd 0 := by
    apply initLoop_high
    · decide
    · omega
    · rfl
  simpa [nrBuffers, bufferEnd] using hhigh

lemma ofNat_succ (m i : ℕ) : Fin.ofNat (m + 1) (i + 1) = Fin.ofNat (m + 1) i + 1 := by
  ext
  simp [Fin.val_add]

lemma bufferInit_linked {m : ℕ} (junk : Fin (m + 1) → Word) :
    Linked (bufferInit junk).bNextFree (bufferInit junk).bPrevFree (some 0)
      ((List.range m).map fun i => Fin.ofNat (m + 1) (i + 1)) := by
  have hall : (some 0 :: ((List.range m).map fun i => Fin.ofNat (m + 1) (i + 1)).map some) =
      (List.range (m + 1)).map fun i => some (Fin.ofNat (m + 1) i) := by
    rw [List.range_succ_eq_map]
    simp
  constructor
  · rw [hall]
    apply List.Nodup.map_on _ List.nodup_range
    intro i hi j hj he
    rw [List.mem_range] at hi hj
    have hval := congrArg Fin.val (Option.some.inj he)
    simpa [Nat.mod_eq_of_lt hi, Nat.mod_eq_of_lt hj] using hval
  · have hpath : some 0 :: ((List.range m).map fun i => Fin.ofNat (m + 1) (i + 1)).map some ++ [some 0] =
        (List.range (m + 1).succ).map fun i => some (Fin.ofNat (m + 1) i) := by
      have hzero : Fin.ofNat (m + 1) (m + 1) = 0 := by
        ext
        simp
      rw [hall, Nat.succ_eq_add_one, List.range_succ (n := m + 1), List.map_append, List.map_singleton, hzero]
    rw [hpath, List.isChain_map, List.isChain_range_succ]
    intro i hi
    rw [Nat.succ_eq_add_one, ofNat_succ]
    constructor
    · intro a ha
      cases ha
      rfl
    · intro a ha
      cases ha
      simp [bufferInit]

lemma bufferInit_wellFormed [hn : NeZero n] (junk : Fin n → Word) : (bufferInit junk).WellFormed fun _ => False := by
  cases n with
  | zero => exact absurd rfl hn.ne
  | succ m =>
    refine ⟨⟨0, _, rfl, bufferInit_linked junk, ?_⟩, ?_, ?_⟩
    · intro b
      have hb : b ∈ (0 : Fin (m + 1)) :: (List.range m).map fun i => Fin.ofNat (m + 1) (i + 1) := by
        induction b using Fin.cases with
        | zero => simp
        | succ i =>
          apply List.mem_cons_of_mem
          rw [List.mem_map]
          refine ⟨i, by simp, ?_⟩
          ext
          simp
      simpa using hb
    · intro k
      refine ⟨[], rfl, ?_, ?_⟩
      · exact ⟨by simp, by simp [Adjacent]⟩
      · intro b
        simp [bufferInit]
    · intro b _ _
      exact ⟨rfl, rfl⟩

end Initialisation

end BufferPool

end Devos.Fs
