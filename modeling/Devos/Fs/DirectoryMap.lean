import Devos.Library.Runs
import Devos.Library.SlotMap
import Devos.Fs.DirectorySlots
import Devos.Fs.Mkdir
import Devos.Fs.PlainFile

/-! A directory over runs of insertions and removals is a map from names to inodes. -/

namespace Devos.Fs

open Runs SlotMap

structure DirState where
  volume : Volume
  dir : MInode

/-- The calls on one directory, with whether they went through; `other` is a call on other files. -/
inductive DirEvent where
  | insert (name : List Byte) (n : Word) (done : Bool)
  | remove (name : List Byte) (done : Bool)
  | other

/-- Between `find_entry` and `add_entry` the callers allocate inodes and blocks for the new file. -/
inductive DirStep : DirState → DirEvent → DirState → Prop
  | inserted {s name n v p w} : findEntry s.volume s.dir name = .ok none → KeepsBlocks s.volume s.dir v →
      AllReadable v s.dir → addEntry v s.dir name = .ok (some p, w) →
      DirStep s (.insert name n true) ⟨p.fill n, p.dir⟩
  | refused {s name n v v' dir'} : findEntry s.volume s.dir name = .ok none → KeepsBlocks s.volume s.dir v →
      AllReadable v s.dir → addEntry v s.dir name = .ok (none, v', dir') →
      DirStep s (.insert name n false) ⟨v', dir'⟩
  | exists {s name n p} : findEntry s.volume s.dir name = .ok (some p) → DirStep s (.insert name n false) s
  | removed {s name block k} : findEntry s.volume s.dir name = .ok (some (block, k)) →
      DirStep s (.remove name true) ⟨s.volume.put block ((s.volume.data block).setWord (8 * k) 0), s.dir⟩
  | absent {s name} : findEntry s.volume s.dir name = .ok none → DirStep s (.remove name false) s
  | other {s v} : KeepsBlocks s.volume s.dir v → AllReadable v s.dir → DirStep s .other ⟨v, s.dir⟩

def directorySystem : System DirState DirEvent where
  init s := Filled s.volume s.dir
  step := DirStep

/-- Names are strings, and the number of an inode is not 0. -/
def DirEvent.Proper : DirEvent → Prop
  | .insert name n _ => name ≠ [] ∧ (∀ c ∈ name, c ≠ 0) ∧ n ≠ 0
  | .remove name _ => name ≠ [] ∧ ∀ c ∈ name, c ≠ 0
  | .other => True

abbrev NameMap := List Byte → Option Word

/-- What a directory is for. -/
def NameMap.after (m : NameMap) : DirEvent → NameMap
  | .insert name n true => Function.update m (name.take nameLen) (some n)
  | .remove name true => Function.update m (name.take nameLen) none
  | _ => m

def DirEvent.key : DirEvent → Option (List Byte)
  | .insert name _ _ => some (name.take nameLen)
  | .remove name _ => some (name.take nameLen)
  | .other => none

namespace DirState

variable (s : DirState)

def slot (i : ℕ) : Option (List Byte × Word) := entrySlot s.volume s.dir i

/-- The inode number that `find_entry` leads to. -/
def lookup (name : List Byte) : Except Fault (Option Word) :=
  (findEntry s.volume s.dir name).map fun r => r.map fun p => entryInode (s.volume.data p.1) p.2

structure IsMap (m : NameMap) : Prop where
  filled : Filled s.volume s.dir
  shows : Shows s.slot m

end DirState

section Steps

variable {s s' : DirState} {m : NameMap} {name : List Byte} {i : ℕ} {v : Volume}

lemma take_proper (h : ∀ c ∈ name, c ≠ 0) : ∀ c ∈ name.take nameLen, c ≠ 0 :=
  fun c hc => h c (List.mem_of_mem_take hc)

lemma take_le (name : List Byte) : (name.take nameLen).length ≤ nameLen := List.length_take_le _ _

lemma slot_match {dir : MInode} (h : ∀ c ∈ name, c ≠ 0) (hi : 16 * i < dir.iSize) :
    matchEntry (name.take nameLen) (stored v dir (i / 64)) (i % 64) ↔
      ∃ n, entrySlot v dir i = some (name.take nameLen, n) ∧ n = entryInode (stored v dir (i / 64)) (i % 64) := by
  rw [matchEntry_iff (take_proper h) (take_le name), entrySlot, if_pos hi, entryOf]
  constructor
  · rintro ⟨hne, hname⟩
    rw [if_pos hne, hname]
    exact ⟨_, rfl, rfl⟩
  · rintro ⟨n, hs, rfl⟩
    split at hs
    next hne => exact ⟨hne, (Prod.mk.inj (Option.some.inj hs)).1⟩
    next => cases hs

lemma slot_lt {dir : MInode} {p : List Byte × Word} (h : entrySlot v dir i = some p) : 16 * i < dir.iSize := by
  rw [entrySlot] at h
  split at h
  next hi => exact hi
  next => cases h

/-- `find_entry` finds the slot of the cut name, or there is none. -/
lemma DirState.IsMap.find (hs : s.IsMap m) (hname : name ≠ []) (h : ∀ c ∈ name, c ≠ 0) :
    (findEntry s.volume s.dir name = .ok none ∧ m (name.take nameLen) = none) ∨
      ∃ i n, findEntry s.volume s.dir name = .ok (some (zoneAt s.volume s.dir (i / 64), i % 64)) ∧
        s.slot i = some (name.take nameLen, n) ∧
        n = entryInode (s.volume.data (zoneAt s.volume s.dir (i / 64))) (i % 64) := by
  rcases findEntry_spec hs.filled hname with ⟨hfind, hno⟩ | ⟨i, hi, hm, hfind⟩
  · refine Or.inl ⟨hfind, hs.shows.eq_none.mpr ?_⟩
    intro i n hslot
    have hi := slot_lt hslot
    refine hno i hi ((slot_match h hi).mpr ⟨n, hslot, ?_⟩)
    have hslot' : entrySlot s.volume s.dir i = some (name.take nameLen, n) := hslot
    rw [entrySlot, if_pos hi, entryOf] at hslot'
    split at hslot'
    · exact (Prod.mk.inj (Option.some.inj hslot')).2.symm
    · cases hslot'
  · obtain ⟨n, hslot, hn⟩ := (slot_match h hi).mp hm
    rw [hs.filled.block hi] at hn
    exact Or.inr ⟨i, n, hfind, hslot, hn⟩

theorem DirState.IsMap.lookup (hs : s.IsMap m) (hname : name ≠ []) (h : ∀ c ∈ name, c ≠ 0) :
    s.lookup name = .ok (m (name.take nameLen)) := by
  rw [DirState.lookup]
  rcases hs.find hname h with ⟨hfind, hm⟩ | ⟨i, n, hfind, hslot, hn⟩
  · rw [hfind, hm]
    rfl
  · rw [hfind, hs.shows.eq_some hslot, hn]
    rfl

/-- Calls on other files leave the directory as it is. -/
lemma filled_other {dir : MInode} (hf : Filled s.volume dir) (hv : KeepsBlocks s.volume dir v)
    (hread : AllReadable v dir) : Filled v dir ∧ entrySlot v dir = entrySlot s.volume dir := by
  have hrefs : ∀ r, refAt v dir r = refAt s.volume dir r := refAt_congr fun r _ h₀ => hv.data r h₀
  have hzone : ∀ k, zoneAt v dir k = zoneAt s.volume dir k := fun k => hrefs _
  refine ⟨⟨⟨?_, ?_, hv.zmap_zero, ?_, ?_⟩, hread, hf.whole, ?_⟩, slot_congr ?_ rfl⟩
  · rw [hv.firstDataZone]
    exact hf.consistent.firstDataZone_pos
  · rw [hv.nZones]
    exact hf.consistent.nZones_lt
  · intro r h₀
    rw [hrefs] at h₀ ⊢
    have hfirst := (hf.consistent.used r h₀).1
    rw [hv.firstDataZone]
    refine ⟨hfirst, ?_⟩
    rw [← bit_eq hf.consistent hfirst]
    exact hv.marked r h₀
  · intro r r' h₀ he
    rw [hrefs] at h₀
    rw [hrefs, hrefs] at he
    exact hf.consistent.distinct r r' h₀ he
  · intro i hi
    rw [hzone]
    exact hf.mapped i hi
  · intro k
    rw [stored, stored, content, content, hzone]
    by_cases h₀ : k < maxBlocks ∧ zoneAt s.volume dir k ≠ 0
    · rw [if_pos h₀, if_pos h₀]
      exact congrArg (fun b => (some b).getD Block.zero) (hv.data _ h₀.2)
    · rw [if_neg h₀, if_neg h₀]

lemma DirState.IsMap.step (hs : s.IsMap m) {e : DirEvent} (he : e.Proper) (hstep : DirStep s e s') :
    s'.IsMap (m.after e) := by
  cases hstep with
  | @inserted name n v p w hfind hv hread hadd =>
    obtain ⟨hname, hchars, hn⟩ := he
    obtain ⟨hfilled, hslots⟩ := filled_other hs.filled hv hread
    have hnone : m (name.take nameLen) = none := by
      rcases hs.find hname hchars with ⟨_, hm⟩ | ⟨i, n, hfound, _⟩
      · exact hm
      · rw [hfind] at hfound
        cases hfound
    rcases addEntry_filled hfilled name with ⟨v', dir', hr, _⟩ | ⟨i, z, v', dir', hr, ht⟩
    · rw [hadd] at hr
      cases hr
    · rw [hadd] at hr
      cases hr
      obtain ⟨hfill, hfree, hslot⟩ := slot_fill hfilled ht (take_proper hchars) (take_le name) hn
      rw [hslots] at hfree hslot
      refine ⟨hfill, ?_⟩
      change Shows (entrySlot _ _) (Function.update m (name.take nameLen) (some n))
      rw [hslot]
      exact hs.shows.insert hfree hnone n
  | @refused name n v v' dir' hfind hv hread hadd =>
    obtain ⟨hfilled, hslots⟩ := filled_other hs.filled hv hread
    rcases addEntry_filled hfilled name with ⟨v'', dir'', hr, hf', hslot⟩ | ⟨i, z, v'', dir'', hr, _⟩
    · rw [hadd] at hr
      cases hr
      refine ⟨hf', ?_⟩
      change Shows (entrySlot v' dir') m
      rw [hslot, hslots]
      exact hs.shows
    · rw [hadd] at hr
      cases hr
  | «exists» hfind => exact hs
  | @removed name block k hfind =>
    obtain ⟨hname, hchars⟩ := he
    rcases hs.find hname hchars with ⟨hnone, _⟩ | ⟨i, n, hfound, hslot, _⟩
    · rw [hfind] at hnone
      cases hnone
    · rw [hfind] at hfound
      cases hfound
      have hi := slot_lt hslot
      refine ⟨hs.filled.put _ _, ?_⟩
      change Shows (entrySlot (s.volume.put _ _) s.dir) (Function.update m (name.take nameLen) none)
      rw [slot_clear hs.filled hi]
      exact hs.shows.erase hslot
  | absent hfind => exact hs
  | other hv hread =>
    obtain ⟨hfilled, hslots⟩ := filled_other hs.filled hv hread
    refine ⟨hfilled, ?_⟩
    change Shows (entrySlot _ s.dir) m
    rw [hslots]
    exact hs.shows

end Steps

lemma map_of_trace {s₀ s : DirState} {m : NameMap} {es : List DirEvent} (h₀ : s₀.IsMap m)
    (h : System.Trace directorySystem (fun _ e => e.Proper) s₀ es s) : s.IsMap (es.foldl NameMap.after m) := by
  induction h with
  | nil => exact h₀
  | snoc _ he hstep ih =>
    rw [List.foldl_append]
    exact ih.step he hstep

lemma after_other {m : NameMap} {e : DirEvent} {c : List Byte} (h : e.key ≠ some c) : m.after e c = m c := by
  cases e with
  | insert name n done =>
    have hc : c ≠ name.take nameLen := fun he => h (congrArg some he.symm)
    cases done with
    | false => rfl
    | true => exact Function.update_of_ne hc _ _
  | remove name done =>
    have hc : c ≠ name.take nameLen := fun he => h (congrArg some he.symm)
    cases done with
    | false => rfl
    | true => exact Function.update_of_ne hc _ _
  | other => rfl

/-- After every run of insertions and removals no name has two live entries, `find_entry` leads to what was
inserted last under the cut name and not removed since, and a further call changes the lookup of its own name
only. -/
theorem directory_is_map {s₀ s : DirState} {m : NameMap} {es : List DirEvent} (h₀ : s₀.IsMap m)
    (h : System.Trace directorySystem (fun _ e => e.Proper) s₀ es s) :
    (∀ i j c a b, s.slot i = some (c, a) → s.slot j = some (c, b) → i = j) ∧
      (∀ name, name ≠ [] → (∀ c ∈ name, c ≠ 0) →
        s.lookup name = .ok (es.foldl NameMap.after m (name.take nameLen)) ∧
          ∃ r, addEntry s.volume s.dir name = .ok r) ∧
      ∀ e s', e.Proper → DirStep s e s' → ∀ name, name ≠ [] → (∀ c ∈ name, c ≠ 0) →
        e.key ≠ some (name.take nameLen) → s'.lookup name = s.lookup name := by
  have hs := map_of_trace h₀ h
  refine ⟨fun i j c a b => hs.shows.once, fun name hname hchars => ⟨hs.lookup hname hchars, ?_⟩, ?_⟩
  · rcases addEntry_filled hs.filled name with ⟨v', dir', hr, _⟩ | ⟨i, z, v', dir', hr, _⟩
    · exact ⟨_, hr⟩
    · exact ⟨_, hr⟩
  · intro e s' he hstep name hname hchars hkey
    rw [(hs.step he hstep).lookup hname hchars, hs.lookup hname hchars, after_other hkey]

section NewDirectory

variable {v : Volume} {dir : MInode} {num parent : Word}

def dotMap (num parent : Word) : NameMap := fun c =>
  if c = [46] then some num else if c = [46, 46] then some parent else none

lemma entryOf_dotEntries (hnum : num ≠ 0) (hparent : parent ≠ 0) :
    entryOf (dotEntries num parent Block.zero) 0 = some ([46], num) ∧
      entryOf (dotEntries num parent Block.zero) 1 = some ([46, 46], parent) := by
  have hfirst : entryInode (Block.zero.setWord (8 * 0) num) 0 = num :=
    (entryInode_setWord (k := 0) (l := 0) Block.zero num (by decide) (by decide)).trans (if_pos rfl)
  have hsecond : ∀ b : Block, entryInode (b.setWord (8 * 1) parent) 1 = parent := fun b =>
    (entryInode_setWord (k := 1) (l := 1) b parent (by decide) (by decide)).trans (if_pos rfl)
  have hnum' : entryInode (dotEntries num parent Block.zero) 0 = num := Eq.trans rfl hfirst
  have hparent' : entryInode (dotEntries num parent Block.zero) 1 = parent :=
    Eq.trans rfl (hsecond (Block.setBytes (Block.zero.setWord 0 num) 2 [46] 2))
  constructor
  · rw [entryOf, hnum', if_pos hnum]
    exact congrArg (fun c => some (c, num)) rfl
  · rw [entryOf, hparent', if_pos hparent]
    exact congrArg (fun c => some (c, parent)) rfl

/-- The directory of `sys_mkdir` has the two names "." and "..". -/
lemma newDirectory_isMap (hf : Filled v dir) (hsize : dir.iSize = 32)
    (hblock : v.data (dir.zone 0) = dotEntries num parent Block.zero) (hnum : num ≠ 0) (hparent : parent ≠ 0) :
    DirState.IsMap ⟨v, dir⟩ (dotMap num parent) := by
  obtain ⟨hdot, hdots⟩ := entryOf_dotEntries hnum hparent
  have hstored : stored v dir 0 = dotEntries num parent Block.zero :=
    (stored_mapped (by decide) (hf.mapped 0 (by omega)).2).trans hblock
  have hslot : ∀ i, entrySlot v dir i = if i = 0 then some ([46], num) else
      if i = 1 then some ([46, 46], parent) else none := by
    intro i
    rw [entrySlot, hsize]
    rcases Nat.lt_or_ge i 2 with hi | hi
    · rcases Nat.lt_succ_iff_lt_or_eq.mp hi with hi' | rfl
      · obtain rfl : i = 0 := by omega
        rw [if_pos (by decide), if_pos rfl, Nat.zero_div, hstored]
        exact hdot
      · rw [if_pos (by decide), if_neg (by decide), if_pos rfl]
        change entryOf (stored v dir 0) 1 = _
        rw [hstored, hdots]
    · rw [if_neg (by omega), if_neg (by omega), if_neg (by omega)]
  refine ⟨hf, ⟨?_, ?_⟩⟩
  · intro i j c a b hi hj
    change entrySlot v dir i = _ at hi
    change entrySlot v dir j = _ at hj
    rw [hslot] at hi hj
    split_ifs at hi with h₁ h₂
    · cases hi
      split_ifs at hj with h₃ h₄
      · rw [h₁, h₃]
      · cases hj
    · cases hi
      split_ifs at hj with h₃ h₄
      · cases hj
      · rw [h₂, h₄]
  · intro c a
    change _ ↔ ∃ i, entrySlot v dir i = some (c, a)
    rw [dotMap]
    constructor
    · intro h
      split_ifs at h with h₁ h₂
      · cases h
        exact ⟨0, by rw [hslot, if_pos rfl, h₁]⟩
      · cases h
        exact ⟨1, by rw [hslot, if_neg (by decide), if_pos rfl, h₂]⟩
    · rintro ⟨i, hi⟩
      rw [hslot] at hi
      split_ifs at hi
      · cases hi
        rfl
      · cases hi
        rfl

def freshDirectory : DirState where
  volume := fullVolume fun _ => dotEntries 1 1 Block.zero
  dir := ⟨0o040755, 32, firstZone 5, 1⟩

lemma freshDirectory_filled : Filled freshDirectory.volume freshDirectory.dir := by
  have hc := consistent_direct (fun _ => dotEntries 1 1 Block.zero) 1 32 rfl rfl (firstZone_injective 5)
  refine ⟨⟨hc.firstDataZone_pos, hc.nZones_lt, hc.zmap_zero, hc.used, hc.distinct⟩, fun _ _ => rfl, ⟨2, rfl⟩, ?_⟩
  intro i hi
  change 16 * i < 32 at hi
  rw [show i / 64 = 0 by omega]
  exact ⟨by decide, by decide⟩

lemma freshDirectory_isMap : freshDirectory.IsMap (dotMap 1 1) :=
  newDirectory_isMap freshDirectory_filled rfl rfl (by decide) (by decide)

theorem directory_is_map_inserted :
    ∃ s, System.Trace directorySystem (fun _ e => e.Proper) freshDirectory [.insert [97] 5 true] s ∧
      s.lookup [97] = .ok (some 5) := by
  have hkeeps : KeepsBlocks freshDirectory.volume freshDirectory.dir freshDirectory.volume :=
    ⟨rfl, rfl, rfl, rfl, fun _ _ => rfl, fun _ _ => rfl⟩
  have hname : ([97] : List Byte) ≠ [] := by decide
  have hchars : ∀ c ∈ ([97] : List Byte), c ≠ 0 := by decide
  have hfind : findEntry freshDirectory.volume freshDirectory.dir [97] = .ok none := by
    rcases freshDirectory_isMap.find hname hchars with ⟨h, _⟩ | ⟨i, n, _, hslot, _⟩
    · exact h
    · exact absurd ((show dotMap 1 1 [97] = none by decide).symm.trans
        (freshDirectory_isMap.shows.eq_some hslot)) nofun
  obtain ⟨p, w, hadd⟩ : ∃ p w, addEntry freshDirectory.volume freshDirectory.dir [97] = .ok (some p, w) :=
    ⟨_, _, rfl⟩
  have hstep : DirStep freshDirectory (.insert [97] 5 true) ⟨p.fill 5, p.dir⟩ :=
    .inserted hfind hkeeps freshDirectory_filled.readable hadd
  have htrace : System.Trace directorySystem (fun _ e => e.Proper) freshDirectory [.insert [97] 5 true]
      ⟨p.fill 5, p.dir⟩ := .snoc .nil ⟨hname, hchars, by decide⟩ hstep
  exact ⟨_, htrace, ((directory_is_map freshDirectory_isMap htrace).2.1 [97] hname hchars).1⟩

end NewDirectory

end Devos.Fs
