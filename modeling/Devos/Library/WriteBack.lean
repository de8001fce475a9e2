import Devos.Library.Runs
import Mathlib.Logic.Function.Basic

/-! A cache that is written back later, and the store that it stands for. -/

namespace Devos.WriteBack

open Runs

/-- What can be seen of a step: a value goes to a key, comes from it, or does not matter any more. -/
inductive Access (K D : Type*)
  | silent
  | store (k : K) (d : D)
  | forget (k : K)
  | load (k : K) (d : D)

/-- `none` where the value does not matter. -/
abbrev Mapping (K D : Type*) := K → Option D

/-- The slots of a cache with what is behind it. -/
structure Cache (C K D : Type*) where
  holds : C → K → Prop
  value : C → D
  valid : C → Prop
  dirty : C → Prop
  back : K → D

variable {C K D : Type*}

section Mapping

variable [DecidableEq K]

def Mapping.set (m : Mapping K D) (k : K) (d : Option D) : Mapping K D := Function.update m k d

inductive StoreStep : Mapping K D → Access K D → Mapping K D → Prop
  | silent {m} : StoreStep m .silent m
  | store {m k d} : StoreStep m (.store k d) (m.set k (some d))
  | forget {m k} : StoreStep m (.forget k) (m.set k none)
  | load {m k d} : (∀ d', m k = some d' → d = d') → StoreStep m (.load k d) m

def storeSystem (K D : Type*) [DecidableEq K] : System (Mapping K D) (Access K D) where
  init _ := True
  step := StoreStep

/-- The access changes what is at the key. -/
def Access.Changes (k : K) : Access K D → Prop
  | .store k' _ | .forget k' => k' = k
  | _ => False

lemma StoreStep.same {m m' : Mapping K D} {a : Access K D} {k : K} (h : StoreStep m a m') (ha : ¬ a.Changes k) :
    m' k = m k := by
  cases h with
  | silent => rfl
  | store => exact Function.update_of_ne (Ne.symm ha) _ _
  | forget => exact Function.update_of_ne (Ne.symm ha) _ _
  | load => rfl

lemma same_of_trace {m m' : Mapping K D} {as : List (Access K D)} {k : K}
    (h : (storeSystem K D).Trace (fun _ _ => True) m as m') (has : ∀ a ∈ as, ¬ a.Changes k) : m' k = m k := by
  induction h with
  | nil => rfl
  | snoc _ _ hstep ih =>
    rw [StoreStep.same hstep (has _ (List.mem_append_right _ (List.mem_singleton.mpr rfl)))]
    exact ih fun a ha => has a (List.mem_append_left _ ha)

lemma stored_last {m m' : Mapping K D} {as bs : List (Access K D)} {k : K} {d : D}
    (h : (storeSystem K D).Trace (fun _ _ => True) m (as ++ [.store k d] ++ bs) m') (hbs : ∀ a ∈ bs, ¬ a.Changes k) :
    m' k = some d := by
  obtain ⟨m₂, h, hsame⟩ := h.of_append
  obtain ⟨m₁, -, -, hstore⟩ := h.of_snoc
  rw [same_of_trace hsame hbs]
  cases hstore
  exact Function.update_self _ _ _

lemma load_eq {m m' : Mapping K D} {as bs : List (Access K D)} {k : K} {d : D}
    (h : (storeSystem K D).Trace (fun _ _ => True) m (as ++ [.load k d] ++ bs) m') :
    ∃ m₁, (storeSystem K D).Trace (fun _ _ => True) m as m₁ ∧ ∀ d', m₁ k = some d' → d = d' := by
  obtain ⟨m₂, h, -⟩ := h.of_append
  obtain ⟨m₁, h, -, hload⟩ := h.of_snoc
  refine ⟨m₁, h, ?_⟩
  cases hload with
  | load hd => exact hd

end Mapping

namespace Cache

/-- No key is in two slots, and no slot has two keys. -/
structure Distinct (v : Cache C K D) : Prop where
  slot : ∀ c c' k, v.holds c k → v.holds c' k → c = c'
  key : ∀ c k k', v.holds c k → v.holds c k' → k = k'

/-- Slots that are valid have the store's values; so has what is behind, but for the keys of dirty slots. -/
structure Agrees (v : Cache C K D) (m : Mapping K D) : Prop where
  cached : ∀ c k d, v.holds c k → v.valid c → m k = some d → v.value c = d
  stored : ∀ k d, (∀ c, v.holds c k → ¬ v.dirty c) → m k = some d → v.back k = d

/-- A key's value is what was stored last, or else what was there at first: when it is loaded, and behind the cache when
no slot is dirty with it. -/
structure ReadsLast (v : Cache C K D) (start : K → D) (as : List (Access K D)) : Prop where
  stored : ∀ bs cs ds k d d', as = bs ++ [.store k d] ++ cs ++ [.load k d'] ++ ds → (∀ a ∈ cs, ¬ a.Changes k) → d' = d
  first : ∀ bs ds k d, as = bs ++ [.load k d] ++ ds → (∀ a ∈ bs, ¬ a.Changes k) → d = start k
  written : ∀ bs cs k d, as = bs ++ [.store k d] ++ cs → (∀ a ∈ cs, ¬ a.Changes k) →
    (∀ c, v.holds c k → ¬ v.dirty c) → v.back k = d
  kept : ∀ k, (∀ a ∈ as, ¬ a.Changes k) → (∀ c, v.holds c k → ¬ v.dirty c) → v.back k = start k

section Operations

variable (v : Cache C K D) (c : C) (k : K)

def load [DecidableEq C] : Cache C K D :=
  { v with value := Function.update v.value c (v.back k), valid := fun c' => c' = c ∨ v.valid c' }

def flush [DecidableEq K] : Cache C K D :=
  { v with back := Function.update v.back k (v.value c), dirty := fun c' => c' ≠ c ∧ v.dirty c' }

def modify [DecidableEq C] (d : D) : Cache C K D :=
  { v with
    value := Function.update v.value c d
    valid := fun c' => c' = c ∨ v.valid c'
    dirty := fun c' => c' = c ∨ v.dirty c' }

end Operations

variable {v v' : Cache C K D} {m : Mapping K D} {c : C} {k : K}

/-- Slots may be emptied, or filled with another key, if they are not dirty and not valid before they are read. -/
lemma Agrees.keep (h : v.Agrees m)
    (hcached : ∀ c k, v'.holds c k → v'.valid c → v.holds c k ∧ v.valid c ∧ v'.value c = v.value c)
    (hdirty : ∀ c k, v.holds c k → v.dirty c → v'.holds c k ∧ v'.dirty c) (hback : v'.back = v.back) :
    v'.Agrees m := by
  refine ⟨fun c k d hk hvalid hm => ?_, fun k d hclean hm => ?_⟩
  · obtain ⟨hk, hvalid, hvalue⟩ := hcached c k hk hvalid
    rw [hvalue]
    exact h.cached c k d hk hvalid hm
  · rw [hback]
    refine h.stored k d (fun c hk hd => ?_) hm
    obtain ⟨hk, hd⟩ := hdirty c k hk hd
    exact hclean c hk hd

/-- The same if what is at one key does not matter any more. -/
lemma Agrees.forget [DecidableEq K] (h : v.Agrees m)
    (hcached : ∀ c k', k' ≠ k → v'.holds c k' → v'.valid c → v.holds c k' ∧ v.valid c ∧ v'.value c = v.value c)
    (hdirty : ∀ c k', k' ≠ k → v.holds c k' → v.dirty c → v'.holds c k' ∧ v'.dirty c)
    (hback : ∀ k', k' ≠ k → v'.back k' = v.back k') : v'.Agrees (m.set k none) := by
  have hset : ∀ k' d, m.set k none k' = some d → k' ≠ k ∧ m k' = some d := by
    intro k' d hm
    by_cases hk : k' = k
    · rw [Mapping.set, hk, Function.update_self] at hm
      cases hm
    · rw [Mapping.set, Function.update_of_ne hk] at hm
      exact ⟨hk, hm⟩
  refine ⟨fun c k' d hk' hvalid hm => ?_, fun k' d hclean hm => ?_⟩
  · obtain ⟨hne, hm⟩ := hset k' d hm
    obtain ⟨hk', hvalid, hvalue⟩ := hcached c k' hne hk' hvalid
    rw [hvalue]
    exact h.cached c k' d hk' hvalid hm
  · obtain ⟨hne, hm⟩ := hset k' d hm
    rw [hback k' hne]
    refine h.stored k' d (fun c hk' hd => ?_) hm
    obtain ⟨hk', hd⟩ := hdirty c k' hne hk' hd
    exact hclean c hk' hd

theorem Agrees.readsLast [DecidableEq K] {start : K → D} {as : List (Access K D)} (h : v.Agrees m)
    (hrun : (storeSystem K D).Trace (fun _ _ => True) (fun k => some (start k)) as m) : v.ReadsLast start as := by
  refine ⟨?_, ?_, ?_, ?_⟩
  · rintro bs cs ds k d d' rfl hcs
    obtain ⟨m₁, hrun, hload⟩ := load_eq hrun
    exact hload d (stored_last hrun hcs)
  · rintro bs ds k d rfl hbs
    obtain ⟨m₁, hrun, hload⟩ := load_eq hrun
    exact hload _ (same_of_trace hrun hbs)
  · rintro bs cs k d rfl hcs hclean
    exact h.stored k d hclean (stored_last hrun hcs)
  · rintro k has hclean
    exact h.stored k _ hclean (same_of_trace hrun has)

lemma Agrees.flush [DecidableEq K] (h : v.Agrees m) (hdistinct : v.Distinct) (hk : v.holds c k) (hvalid : v.valid c) :
    (v.flush c k).Agrees m := by
  refine ⟨h.cached, fun k' d hclean hm => ?_⟩
  change Function.update v.back k (v.value c) k' = d
  by_cases hkey : k' = k
  · rw [hkey, Function.update_self]
    exact h.cached c k d hk hvalid (hkey ▸ hm)
  · rw [Function.update_of_ne hkey]
    refine h.stored k' d (fun c' hk' hd => hclean c' hk' ⟨?_, hd⟩) hm
    rintro rfl
    exact hkey (hdistinct.key c' k' k hk' hk)

variable [DecidableEq C]

lemma Agrees.load (h : v.Agrees m) (hdistinct : v.Distinct) (hk : v.holds c k) (hclean : ¬ v.dirty c) :
    (v.load c k).Agrees m := by
  refine ⟨fun c' k' d hk' hvalid hm => ?_, h.stored⟩
  change Function.update v.value c (v.back k) c' = d
  by_cases hc : c' = c
  · subst hc
    rw [Function.update_self]
    obtain rfl := hdistinct.key c' k k' hk hk'
    refine h.stored k d (fun c hc hd => hclean ?_) hm
    rwa [hdistinct.slot c' c k hk hc]
  · rw [Function.update_of_ne hc]
    exact h.cached c' k' d hk' (hvalid.resolve_left hc) hm

lemma Agrees.modify [DecidableEq K] (h : v.Agrees m) (hdistinct : v.Distinct) (hk : v.holds c k) (d : D) :
    (v.modify c d).Agrees (m.set k (some d)) := by
  refine ⟨fun c' k' d' hk' hvalid hm => ?_, fun k' d' hclean hm => ?_⟩
  · change Function.update v.value c d c' = d'
    by_cases hc : c' = c
    · subst hc
      obtain rfl := hdistinct.key c' k k' hk hk'
      rw [Mapping.set, Function.update_self] at hm
      rw [Function.update_self]
      exact Option.some.inj hm
    · have hkey : k' ≠ k := by
        rintro rfl
        exact hc (hdistinct.slot c' c k' hk' hk)
      rw [Mapping.set, Function.update_of_ne hkey] at hm
      rw [Function.update_of_ne hc]
      exact h.cached c' k' d' hk' (hvalid.resolve_left hc) hm
  · have hkey : k' ≠ k := by
      rintro rfl
      exact hclean c hk (Or.inl rfl)
    rw [Mapping.set, Function.update_of_ne hkey] at hm
    exact h.stored k' d' (fun c' hk' hd => hclean c' hk' (Or.inr hd)) hm

end Cache

end Devos.WriteBack
