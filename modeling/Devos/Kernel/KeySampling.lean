import Devos.Kernel.KeyBuffers

/-! The sampling loop of `rnd_key_gen`, for a key of any length. -/

namespace Devos.Kernel

open Loops Security

/-- The first `len` places of `live` and the first `k` of `drawn` have different elements of `S`. -/
structure Split {α : Type*} (S : Set α) (live : ℕ → α) (len : ℕ) (drawn : ℕ → α) (k : ℕ) : Prop where
  live_mem : ∀ i < len, live i ∈ S
  drawn_mem : ∀ j < k, drawn j ∈ S
  live_inj : ∀ i < len, ∀ i' < len, live i = live i' → i = i'
  drawn_inj : ∀ j < k, ∀ j' < k, drawn j = drawn j' → j = j'
  apart : ∀ i < len, ∀ j < k, live i ≠ drawn j

namespace Split

variable {α : Type*} {S : Set α} {live live' drawn : ℕ → α} {len k i : ℕ}

lemma congr (h : Split S live len drawn k) (hlive : ∀ i < len, live' i = live i) : Split S live' len drawn k := by
  constructor
  · intro i hi
    rw [hlive i hi]
    exact h.live_mem i hi
  · exact h.drawn_mem
  · intro i hi i' hi' heq
    rw [hlive i hi, hlive i' hi'] at heq
    exact h.live_inj i hi i' hi' heq
  · exact h.drawn_inj
  · intro i hi j hj
    rw [hlive i hi]
    exact h.apart i hi j hj

/-- One element is drawn, and the last one that is left takes its place. -/
lemma draw (h : Split S live (len + 1) drawn k) (hi : i < len + 1) :
    Split S (Function.update live i (live len)) len (Function.update drawn k (live i)) (k + 1) := by
  -- the place that an element left over comes from
  let from' (j : ℕ) : ℕ := if j = i then len else j
  have hfrom : ∀ j < len, from' j < len + 1 ∧ from' j ≠ i := by
    intro j hj
    simp only [from']
    split_ifs <;> omega
  have hlive : ∀ j, Function.update live i (live len) j = live (from' j) := by
    intro j
    simp only [from', Function.update_apply]
    split_ifs <;> rfl
  have hdrawn : ∀ j < k, Function.update drawn k (live i) j = drawn j := by
    intro j hj
    rw [Function.update_of_ne hj.ne]
  constructor
  · intro j hj
    rw [hlive]
    exact h.live_mem _ (hfrom j hj).1
  · intro j hj
    rcases Nat.lt_succ_iff_lt_or_eq.mp hj with hlt | rfl
    · rw [hdrawn j hlt]
      exact h.drawn_mem j hlt
    · rw [Function.update_self]
      exact h.live_mem i hi
  · intro j hj j' hj' heq
    rw [hlive, hlive] at heq
    have hsame := h.live_inj _ (hfrom j hj).1 _ (hfrom j' hj').1 heq
    simp only [from'] at hsame
    split_ifs at hsame <;> omega
  · intro j hj j' hj' heq
    rcases Nat.lt_succ_iff_lt_or_eq.mp hj with hlt | rfl <;> rcases Nat.lt_succ_iff_lt_or_eq.mp hj' with hlt' | rfl
    · rw [hdrawn j hlt, hdrawn j' hlt'] at heq
      exact h.drawn_inj j hlt j' hlt' heq
    · rw [hdrawn j hlt, Function.update_self] at heq
      exact absurd heq.symm (h.apart i hi j hlt)
    · rw [hdrawn j' hlt', Function.update_self] at heq
      exact absurd heq (h.apart i hi j' hlt')
    · rfl
  · intro j hj j' hj' heq
    rw [hlive] at heq
    rcases Nat.lt_succ_iff_lt_or_eq.mp hj' with hlt' | rfl
    · rw [hdrawn j' hlt'] at heq
      exact h.apart _ (hfrom j hj).1 j' hlt' heq
    · rw [Function.update_self] at heq
      exact (hfrom j hj).2 (h.live_inj _ (hfrom j hj).1 i hi heq)

end Split

/-- The local variables of `rnd_key_gen`, with the memory that `key` points to. -/
structure Sampling where
  key : ℕ → Byte
  charSet : ℕ → Byte
  setLen : ℕ

namespace Sampling

def start (key : ℕ → Byte) : Sampling := ⟨key, fun k => Sys.charSet.getD k 0, Sys.charSet.length⟩

/-- The positions of `char_set` before its terminator. -/
def Live (s : Sampling) (i : ℕ) : Prop := i < s.setLen

def index (reading : BitVec 32) (s : Sampling) : ℕ := reading.toNat % s.setLen

/-- A turn of the loop, with what `RDTSC` has given. -/
def sample (reading : BitVec 32) (k : ℕ) (s : Sampling) : Except Fault Sampling :=
  if s.setLen = 0 then .error .divide
  else
    let last := s.setLen - 1
    .ok ⟨Function.update s.key k (s.charSet (s.index reading)),
      Function.update (Function.update s.charSet (s.index reading) (s.charSet last)) last 0, last⟩

def samples (readings : ℕ → BitVec 32) (key : ℕ → Byte) (n : ℕ) : Except Fault Sampling :=
  forLoopE (fun k => sample (readings k) k) (start key) n

/-- The loop with its `n` turns, and the terminator behind it. -/
def sampleKey (readings : ℕ → BitVec 32) (key : ℕ → Byte) (n : ℕ) : Except Fault (ℕ → Byte) :=
  (samples readings key n).map fun s => Function.update s.key n 0

/-- After `k` turns. -/
structure Sampled (key : ℕ → Byte) (s : Sampling) (k : ℕ) : Prop where
  setLen : s.setLen + k = Sys.charSet.length
  split : Split {c | c ∈ Sys.charSet} s.charSet s.setLen s.key k
  frame : ∀ i, k ≤ i → s.key i = key i

variable {readings : ℕ → BitVec 32} {key : ℕ → Byte} {n : ℕ}

-- the letters and the digits, by their codes
lemma charSet_nodup : Sys.charSet.Nodup := by
  have hcodes : Sys.charSet.map BitVec.toNat = List.range' 97 26 ++ (List.range' 65 26 ++ List.range' 49 9) := by
    decide
  apply List.Nodup.of_map BitVec.toNat
  rw [hcodes]
  simp only [List.nodup_append, List.mem_append, List.mem_range'_1]
  refine ⟨List.nodup_range', ⟨List.nodup_range', List.nodup_range', fun a ha b hb => ?_⟩, fun a ha b hb => ?_⟩ <;> omega

lemma sampled_start (key : ℕ → Byte) : Sampled key (start key) 0 := by
  have hmem : ∀ i < Sys.charSet.length, Sys.charSet.getD i 0 ∈ Sys.charSet := by
    intro i hi
    rw [List.getD_eq_getElem _ _ hi]
    exact List.getElem_mem hi
  refine ⟨rfl, ⟨hmem, ?_, ?_, ?_, ?_⟩, fun _ _ => rfl⟩
  · exact fun j hj => absurd hj (Nat.not_lt_zero j)
  · intro i hi i' hi' heq
    simp only [start] at hi hi' heq
    rw [List.getD_eq_getElem _ _ hi, List.getD_eq_getElem _ _ hi'] at heq
    exact (List.Nodup.getElem_inj_iff charSet_nodup).mp heq
  · exact fun j hj => absurd hj (Nat.not_lt_zero j)
  · exact fun _ _ j hj => absurd hj (Nat.not_lt_zero j)

lemma Sampled.live {s : Sampling} {k : ℕ} (h : Sampled key s k) (hk : k < Sys.charSet.length)
    (reading : BitVec 32) : s.Live (s.index reading) ∧ s.Live (s.setLen - 1) := by
  have hlen := h.setLen
  constructor
  · exact Nat.mod_lt _ (by omega)
  · change s.setLen - 1 < s.setLen
    omega

lemma Sampled.sample {s : Sampling} {k : ℕ} (h : Sampled key s k) (hk : k < Sys.charSet.length)
    (reading : BitVec 32) : ∃ s', sample reading k s = .ok s' ∧ Sampled key s' (k + 1) := by
  have hlen := h.setLen
  obtain ⟨len, hset⟩ : ∃ len, s.setLen = len + 1 := ⟨s.setLen - 1, by omega⟩
  have hindex : s.index reading < len + 1 := hset ▸ (h.live hk reading).1
  have hsplit := h.split
  rw [hset] at hsplit
  refine ⟨_, if_neg (by omega), ?_, ?_, ?_⟩
  · dsimp only
    omega
  · dsimp only
    rw [hset, Nat.add_sub_cancel]
    apply (hsplit.draw hindex).congr
    intro i hi
    rw [Function.update_of_ne hi.ne]
  · intro i hi
    dsimp only
    rw [Function.update_of_ne (by omega)]
    exact h.frame i (by omega)

lemma samples_spec (readings : ℕ → BitVec 32) (key : ℕ → Byte) (hn : n ≤ Sys.charSet.length) :
    ∃ s, samples readings key n = .ok s ∧ Sampled key s n :=
  forLoopE_induction (P := fun k s => Sampled key s k) (sampled_start key)
    fun k _ hk hs => hs.sample (by omega) (readings k)

/-- Each turn reads characters that are left, and the key has different characters of the set, with the terminator
behind them. -/
theorem sampled_key_distinct (hn : n ≤ Sys.charSet.length) (readings : ℕ → BitVec 32) (key : ℕ → Byte) :
    (∀ k < n, ∃ s, samples readings key k = .ok s ∧ s.Live (s.index (readings k)) ∧ s.Live (s.setLen - 1)) ∧
      ∃ key', sampleKey readings key n = .ok key' ∧ (∀ i < n, key' i ∈ Sys.charSet) ∧
        (∀ i < n, ∀ j < n, key' i = key' j → i = j) ∧ key' n = 0 ∧ ∀ i, n < i → key' i = key i := by
  constructor
  · intro k hk
    obtain ⟨s, hs, hsampled⟩ := samples_spec readings key (show k ≤ _ by omega)
    exact ⟨s, hs, hsampled.live (by omega) (readings k)⟩
  · obtain ⟨s, hs, hsampled⟩ := samples_spec readings key hn
    have hbefore : ∀ i < n, Function.update s.key n 0 i = s.key i := fun i hi => Function.update_of_ne hi.ne _ _
    refine ⟨_, by rw [sampleKey, hs]; rfl, ?_, ?_, Function.update_self _ _ _, ?_⟩
    · intro i hi
      rw [hbefore i hi]
      exact hsampled.split.drawn_mem i hi
    · intro i hi j hj heq
      rw [hbefore i hi, hbefore j hj] at heq
      exact hsampled.split.drawn_inj i hi j hj heq
    · intro i hi
      rw [Function.update_of_ne hi.ne']
      exact hsampled.frame i hi.le

/-- A key with all the characters, from a counter that stands still. -/
theorem sampled_key_distinct_all :
    ∃ key', sampleKey (fun _ => 60) (fun _ => 0) 61 = .ok key' ∧ ∀ i < 61, ∀ j < 61, key' i = key' j → i = j := by
  obtain ⟨_, key', hrun, _, hinj, _⟩ := sampled_key_distinct (n := 61) (by decide) (fun _ => 60) fun _ => 0
  exact ⟨key', hrun, hinj⟩

/-- The array and the memory have the same bytes. -/
structure Agrees (d : Drawing) (s : Sampling) : Prop where
  key : ∀ i < keySize, d.key.get i = s.key i
  charSet : d.charSet = s.charSet
  setLen : d.setLen = s.setLen

lemma Agrees.draw {d d' : Drawing} {s : Sampling} {reading : BitVec 32} {k : ℕ} (h : Agrees d s)
    (hdraw : Kernel.draw reading k d = .ok d') : ∃ s', sample reading k s = .ok s' ∧ Agrees d' s' := by
  obtain ⟨dkey, dset, dlen⟩ := d
  obtain ⟨hkey, hset, hlen⟩ := h
  dsimp only at hkey hset hlen
  subst hset hlen
  unfold Kernel.draw at hdraw
  split_ifs at hdraw with hzero
  obtain ⟨a, hput, rfl⟩ := map_eq_ok hdraw
  refine ⟨_, if_neg hzero, ?_, rfl, rfl⟩
  intro i hi
  by_cases hk : k < keySize
  · rw [KeyArray.put_of_lt hk] at hput
    obtain rfl := Except.ok.inj hput
    dsimp only [index]
    rw [KeyArray.get_update hk hi, Function.update_apply, hkey i hi]
  · rw [KeyArray.put_of_le (not_lt.mp hk)] at hput
    cases hput

/-- A key that fits in the array is the key of the loop with that many turns. -/
theorem rndKeyGen_sampled {level : BitVec 32} {a b : KeyArray} (hrun : rndKeyGen readings level a = .ok b)
    (hkey : ∀ i < keySize, key i = a.get i) :
    ∃ key', sampleKey readings key (keyLength level) = .ok key' ∧ ∀ i < keySize, b.get i = key' i := by
  obtain ⟨d, hdraws, hput⟩ := bind_eq_ok hrun
  have hsim : ∃ s, samples readings key (keyLength level) = .ok s ∧ Agrees d s := by
    apply forLoopE_invariant (P := fun n d => ∃ s, samples readings key n = .ok s ∧ Agrees d s) _ _ hdraws
    · exact ⟨start key, rfl, fun i hi => (hkey i hi).symm, rfl, rfl⟩
    · rintro k d d' ⟨s, hs, hagrees⟩ hdraw
      obtain ⟨s', hs', hagrees'⟩ := hagrees.draw hdraw
      refine ⟨s', ?_, hagrees'⟩
      rw [samples, forLoopE, show forLoopE _ _ k = _ from hs]
      exact hs'
  obtain ⟨s, hs, hagrees⟩ := hsim
  refine ⟨_, by rw [sampleKey, hs]; rfl, ?_⟩
  intro i hi
  by_cases hk : keyLength level < keySize
  · rw [KeyArray.put_of_lt hk] at hput
    obtain rfl := Except.ok.inj hput
    dsimp only
    rw [KeyArray.get_update hk hi, Function.update_apply, hagrees.key i hi]
  · rw [KeyArray.put_of_le (not_lt.mp hk)] at hput
    cases hput

end Sampling

end Devos.Kernel
