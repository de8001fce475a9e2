import Devos.Security.TableCalls

/-! The table as a set of inode numbers: which runs of add and remove calls keep it one. -/

namespace Devos.Security

open LinearProbing Runs

abbrev Contents := Word → Option HKey

def Contents.after (s : Contents) : Call → Contents
  | .add value => if s value.iNum = none then Function.update s value.iNum (some value.hKey) else s
  | .remove n _ => Function.update s n none

structure Session where
  table : HashTable
  contents : Contents

/-- A nonzero number; a removal under the number's own digest; never more than `tableSize - 1`
entries. -/
def Legal (s : Session) (c : Call) : Prop :=
  c.iNum ≠ 0 ∧
    match c with
    | .add value => s.contents value.iNum ≠ none ∨ entries s.table + 1 < tableSize
    | .remove n hashToUse => ∀ h, s.contents n = some h → hashToUse = h

def sessionSystem : System Session Call where
  init s := s = ⟨emptyTable, fun _ => none⟩
  step s c s' := Legal s c ∧ call s.table c = some s'.table ∧ s'.contents = s.contents.after c

def SearchFinds (t : HashTable) (n : Word) : Prop :=
  ∃ z : Fin tableSize, searchFunc t n = some (z : ℤ) ∧ (t z).iNum = n

def Faithful (s : Session) : Prop := ∀ n, n ≠ 0 → (SearchFinds s.table n ↔ s.contents n ≠ none)

/-- The call removes no number whose slot is followed by an entry that the scan would strand. -/
def SafeCall (s : Session) : Call → Prop
  | .add _ => True
  | .remove n _ => ∀ z, (s.table z).iNum = n → Scheme.SkipSafe scheme (view s.table) z

structure Sound (s : Session) : Prop where
  wellProbed : scheme.WellProbed (view s.table)
  holds_iff : ∀ n h, s.contents n = some h ↔ Scheme.Holds (view s.table) ⟨n, h⟩
  free : ∃ z, view s.table z = none

section Finding

variable {t : HashTable} {n : Word}

lemma searchFinds_of_found (hn : n ≠ 0) {z : Fin tableSize} (hz : scheme.Found (view t) n z) :
    SearchFinds t n :=
  ⟨z, searchFunc_found hn hz, ((found_iff hn).mp hz).1⟩

lemma not_searchFinds_of_missing (hn : n ≠ 0) {w : Fin tableSize}
    (hw : scheme.Missing (view t) n w) : ¬ SearchFinds t n := by
  rintro ⟨z, hz, _⟩
  rw [searchFunc_missing hn hw] at hz
  exact errNotFnd_ne z (Option.some.inj hz)

lemma searchFinds_iff (hn : n ≠ 0) (hfree : ∃ z, view t z = none) :
    SearchFinds t n ↔ ∃ z, scheme.Found (view t) n z := by
  obtain ⟨s, hs⟩ := hfree
  rcases found_or_missing hn ⟨s, Or.inr (view_eq_none.mp hs)⟩ with ⟨z, hz⟩ | ⟨w, hw⟩
  · exact iff_of_true (searchFinds_of_found hn hz) ⟨z, hz⟩
  · exact iff_of_false (not_searchFinds_of_missing hn hw)
      (fun ⟨_, hz⟩ => Scheme.found_not_missing hz hw)

end Finding

section Invariant

variable {s : Session}

lemma Sound.contents_none {n : Word} (hs : Sound s) {w : Fin tableSize}
    (hw : scheme.Missing (view s.table) n w) : s.contents n = none := by
  cases hc : s.contents n with
  | none => rfl
  | some h => exact absurd ⟨_, (hs.holds_iff n h).mp hc, rfl⟩ (Scheme.missing_iff hs.wellProbed hw)

lemma Sound.contents_found {n : Word} (hs : Sound s) (hn : n ≠ 0) {z : Fin tableSize}
    (hz : scheme.Found (view s.table) n z) : s.contents n = some (s.table z).hKey := by
  obtain ⟨⟨e, he, rfl⟩, _⟩ := hz
  obtain ⟨_, rfl⟩ := view_eq_some.mp he
  exact (hs.holds_iff _ _).mpr ⟨z, he⟩

lemma Sound.faithful (hs : Sound s) : Faithful s := by
  intro n hn
  rw [searchFinds_iff hn hs.free]
  constructor
  · rintro ⟨z, hz⟩
    rw [hs.contents_found hn hz]
    exact Option.some_ne_none _
  · intro hc
    obtain ⟨f, hf⟩ := hs.free
    rcases found_or_missing hn ⟨f, Or.inr (view_eq_none.mp hf)⟩ with hz | ⟨w, hw⟩
    · exact hz
    · exact absurd (hs.contents_none hw) hc

lemma sound_empty : Sound ⟨emptyTable, fun _ => none⟩ := by
  have hv : ∀ z, view emptyTable z = none := fun _ => rfl
  refine ⟨⟨?_, ?_⟩, ?_, ⟨0, hv 0⟩⟩
  · intro z e hz
    rw [hv] at hz
    cases hz
  · intro z z' e e' hz
    rw [hv] at hz
    cases hz
  · intro n h
    refine iff_of_false (by simp) ?_
    rintro ⟨z, hz⟩
    rw [hv] at hz
    cases hz

lemma Sound.distinct_free (hs : Sound s) (x : Fin tableSize) :
    scheme.Distinct (Function.update (view s.table) x none) := by
  have hback : ∀ z e, Function.update (view s.table) x none z = some e → view s.table z = some e := by
    intro z e hz
    by_cases hzx : z = x
    · rw [hzx, Function.update_self] at hz
      cases hz
    · rwa [Function.update_of_ne hzx] at hz
  intro z z' e e' hz hz'
  exact hs.wellProbed.distinct z z' e e' (hback z e hz) (hback z' e' hz')

lemma Sound.holds_free (hs : Sound s) {n : Word} (hn : n ≠ 0) {x : Fin tableSize}
    (hx : (s.table x).iNum = n) (m : Word) (h : HKey) :
    Function.update s.contents n none m = some h ↔
      Scheme.Holds (Function.update (view s.table) x none) ⟨m, h⟩ := by
  have hvx : view s.table x = some (s.table x) := view_eq_some.mpr ⟨by rwa [hx], rfl⟩
  by_cases hm : m = n
  · subst hm
    rw [Function.update_self]
    refine iff_of_false (by simp) ?_
    rintro ⟨z, hz⟩
    by_cases hzx : z = x
    · rw [hzx, Function.update_self] at hz
      cases hz
    · rw [Function.update_of_ne hzx] at hz
      exact hzx (hs.wellProbed.distinct z x _ _ hz hvx hx.symm)
  · rw [Function.update_of_ne hm, hs.holds_iff]
    constructor
    · rintro ⟨z, hz⟩
      have hzx : z ≠ x := by
        rintro rfl
        rw [hvx] at hz
        apply hm
        rw [← hx, Option.some.inj hz]
      exact ⟨z, by rwa [Function.update_of_ne hzx]⟩
    · rintro ⟨z, hz⟩
      by_cases hzx : z = x
      · rw [hzx, Function.update_self] at hz
        cases hz
      · rw [Function.update_of_ne hzx] at hz
        exact ⟨z, hz⟩

lemma Sound.add {value : EDir} {t' : HashTable} (hs : Sound s) (hl : Legal s (.add value))
    (hc : call s.table (.add value) = some t') : Sound ⟨t', s.contents.after (.add value)⟩ := by
  obtain ⟨hn, hroom⟩ := hl
  rcases call_add hn hc with ⟨w, hw, rfl⟩ | ⟨⟨z, hz⟩, rfl⟩
  · have hnone := hs.contents_none hw
    have hview := view_update s.table w hn
    refine ⟨?_, ?_, ?_⟩
    · change scheme.WellProbed (view (Function.update s.table w value))
      rw [hview]
      exact Scheme.wellProbed_put hs.wellProbed hw
    · intro m h
      have hafter : s.contents.after (.add value) =
          Function.update s.contents value.iNum (some value.hKey) := by
        rw [Contents.after, if_pos hnone]
      change s.contents.after (.add value) m = _ ↔
        Scheme.Holds (view (Function.update s.table w value)) _
      rw [hafter, hview]
      have hold : ∀ z, z ≠ w →
          Function.update (view s.table) w (some value) z = view s.table z :=
        fun z hz => Function.update_of_ne hz _ _
      by_cases hm : m = value.iNum
      · subst hm
        rw [Function.update_self]
        constructor
        · intro hh
          cases hh
          exact ⟨w, Function.update_self w _ _⟩
        · rintro ⟨z, hz⟩
          by_cases hzw : z = w
          · rw [hzw, Function.update_self] at hz
            rw [Option.some.inj hz]
          · rw [hold z hzw] at hz
            exact absurd ⟨_, ⟨z, hz⟩, rfl⟩ (Scheme.missing_iff hs.wellProbed hw)
      · rw [Function.update_of_ne hm, hs.holds_iff]
        constructor
        · rintro ⟨z, hz⟩
          have hzw : z ≠ w := by
            rintro rfl
            rw [hw.1] at hz
            cases hz
          exact ⟨z, by rw [hold z hzw, hz]⟩
        · rintro ⟨z, hz⟩
          by_cases hzw : z = w
          · rw [hzw, Function.update_self] at hz
            exact absurd (congrArg EDir.iNum (Option.some.inj hz)).symm hm
          · rw [hold z hzw] at hz
            exact ⟨z, hz⟩
    · have hlt := hroom.resolve_left (not_not.mpr hnone)
      rw [← entries_update (view_eq_none.mp hw.1) hn] at hlt
      obtain ⟨z, hz⟩ := entries_lt_iff.mp hlt
      exact ⟨z, view_eq_none.mpr hz⟩
  · have hin : s.contents value.iNum ≠ none := by
      have hfound := hs.contents_found hn hz
      change s.contents value.iNum = _ at hfound
      rw [hfound]
      exact Option.some_ne_none _
    have hsame : s.contents.after (.add value) = s.contents := by
      rw [Contents.after, if_neg hin]
    rw [hsame]
    exact hs

lemma Sound.remove_absent {n : Word} {h : HKey} {w : Fin tableSize} (hs : Sound s)
    (hw : scheme.Missing (view s.table) n w) : Sound ⟨s.table, s.contents.after (.remove n h)⟩ := by
  have hsame : s.contents.after (.remove n h) = s.contents := by
    rw [Contents.after, ← hs.contents_none hw, Function.update_eq_self]
  rw [hsame]
  exact hs

lemma Sound.remove {n : Word} {h : HKey} {t' : HashTable} {x : Fin tableSize} (hs : Sound s) (hn : n ≠ 0)
    (hx : (s.table x).iNum = n)
    (hscan : scheme.Scan (Function.update (view s.table) x none) (ahead x 2) (view t')) :
    (Scheme.SkipSafe scheme (view s.table) x → Sound ⟨t', s.contents.after (.remove n h)⟩) ∧
      (¬ Scheme.SkipSafe scheme (view s.table) x →
        ¬ Faithful ⟨t', s.contents.after (.remove n h)⟩) := by
  obtain ⟨f, hf⟩ := hs.free
  have hvx : view s.table x = some (s.table x) := view_eq_some.mpr ⟨by rwa [hx], rfl⟩
  obtain ⟨hdist, hholds⟩ := Scheme.scan_holds (hs.distinct_free x) hscan
  have hrep : ∀ m k, s.contents.after (.remove n h) m = some k ↔ Scheme.Holds (view t') ⟨m, k⟩ :=
    fun m k => (hs.holds_free hn hx m k).trans (hholds _).symm
  obtain ⟨hsafe, hunsafe⟩ := Scheme.scan_after_removal hs.wellProbed (by decide) hvx hf hscan
  refine ⟨fun h => ⟨hsafe h, hrep, scan_end hscan⟩, ?_⟩
  intro h' hfaithful
  obtain ⟨e, hheld, hnext, hgap, hway⟩ := hunsafe h'
  have he : e.iNum ≠ 0 := by
    obtain ⟨h₀, rfl⟩ := view_eq_some.mp hnext
    exact h₀
  have hin : s.contents.after (.remove n h) e.iNum ≠ none := by
    rw [(hrep e.iNum e.hKey).mpr hheld]
    exact Option.some_ne_none _
  have hfinds := (hfaithful e.iNum he).mpr hin
  obtain ⟨z, ⟨e', hz, hkey⟩, hp⟩ := (searchFinds_iff he (scan_end hscan)).mp hfinds
  have hzx := hdist z (ahead x 1) e' e hz hnext hkey
  subst hzx
  obtain ⟨g, hg, _⟩ := hp x hway
  rw [hgap] at hg
  cases hg

lemma Sound.step {c : Call} (hs : Sound s) (hl : Legal s c) :
    ∃ t', call s.table c = some t' ∧ (SafeCall s c → Sound ⟨t', s.contents.after c⟩) ∧
      (¬ SafeCall s c → ¬ Faithful ⟨t', s.contents.after c⟩) := by
  obtain ⟨f, hf⟩ := hs.free
  have hstop : (s.table f).iNum = 0 := view_eq_none.mp hf
  have hn := hl.1
  cases c with
  | add value =>
    have hret : ∃ t', call s.table (.add value) = some t' := by
      rcases found_or_missing hn ⟨f, Or.inr hstop⟩ with ⟨z, hz⟩ | ⟨w, hw⟩
      · exact ⟨_, by rw [call, addFunc_found hn hz, Option.map_some]⟩
      · exact ⟨_, by rw [call, addFunc_missing hn hw, Option.map_some]⟩
    obtain ⟨t', ht'⟩ := hret
    exact ⟨t', ht', fun _ => hs.add hl ht', fun h => absurd trivial h⟩
  | remove n h =>
    change n ≠ 0 at hn
    rcases found_or_missing hn ⟨f, Or.inr hstop⟩ with ⟨z, hz⟩ | ⟨w, hw⟩
    · have hh : (s.table z).hKey = h := (hl.2 _ (hs.contents_found hn hz)).symm
      have hzn := ((found_iff hn).mp hz).1
      obtain ⟨t', hr, hscan⟩ := removeFunc_found hn hz hh
      obtain ⟨hsafe, hunsafe⟩ := hs.remove (h := h) hn hzn hscan
      refine ⟨t', by rw [call, hr, Option.map_some], fun hc => hsafe (hc z hzn), ?_⟩
      intro hc
      apply hunsafe
      intro hskip
      apply hc
      intro z' hz'
      have hz'' : z' = z := hs.wellProbed.distinct z' z (s.table z') (s.table z)
        (view_eq_some.mpr ⟨by rwa [hz'], rfl⟩) (view_eq_some.mpr ⟨by rwa [hzn], rfl⟩)
        (hz'.trans hzn.symm)
      rwa [hz'']
    · refine ⟨s.table, by rw [call, removeFunc_missing hw, Option.map_some],
        fun _ => hs.remove_absent hw, ?_⟩
      intro hc
      refine absurd ?_ hc
      intro z hz
      refine absurd ⟨s.table z, ⟨z, view_eq_some.mpr ⟨?_, rfl⟩⟩, hz⟩
        (Scheme.missing_iff hs.wellProbed hw)
      rw [hz]
      exact hn

end Invariant

lemma sound_of_reach {s : Session} (h : sessionSystem.Reach SafeCall s) : Sound s := by
  refine System.Reach.invariant ?_ ?_ h
  · rintro s rfl
    exact sound_empty
  · rintro s c ⟨t', contents'⟩ hs hok ⟨hl, hc, he⟩
    obtain ⟨t₁, hc₁, hsafe, _⟩ := hs.step hl
    change call s.table c = some t' at hc
    rw [hc₁] at hc
    cases hc
    change contents' = _ at he
    rw [he]
    exact hsafe hok

/-- In runs of safe calls the table is a faithful set, and every legal call from such a state
returns and keeps it one exactly when the call is safe. -/
theorem table_faithful (s : Session) (hs : sessionSystem.Reach SafeCall s) :
    Faithful s ∧ ∀ c, Legal s c →
      ∃ s', sessionSystem.step s c s' ∧ (Faithful s' ↔ SafeCall s c) := by
  refine ⟨(sound_of_reach hs).faithful, ?_⟩
  intro c hl
  obtain ⟨t', hc, hsafe, hunsafe⟩ := (sound_of_reach hs).step hl
  refine ⟨⟨t', s.contents.after c⟩, ⟨hl, hc, rfl⟩, ?_, fun h => (hsafe h).faithful⟩
  intro hf
  by_contra h
  exact hunsafe h hf

def secondEntry : EDir := ⟨60, anyHKey⟩

def session₀ : Session := ⟨emptyTable, fun _ => none⟩

def session₁ : Session :=
  ⟨Function.update emptyTable 60 firstEntry, session₀.contents.after (.add firstEntry)⟩

def session₂ : Session :=
  ⟨Function.update session₁.table 0 secondEntry, session₁.contents.after (.add secondEntry)⟩

lemma session₁_step : sessionSystem.step session₀ (.add firstEntry) session₁ := by
  refine ⟨⟨by decide, Or.inr ?_⟩, rfl, rfl⟩
  change entries emptyTable + 1 < tableSize
  rw [entries_empty]
  decide

lemma session₂_step : sessionSystem.step session₁ (.add secondEntry) session₂ := by
  refine ⟨⟨by decide, Or.inr ?_⟩, rfl, rfl⟩
  change entries (Function.update emptyTable 60 firstEntry) + 1 < tableSize
  rw [entries_update rfl (by decide), entries_empty]
  decide

lemma session₂_reach : sessionSystem.Reach SafeCall session₂ := by
  have h₁ : sessionSystem.Reach SafeCall session₁ :=
    System.Reach.next (a := Call.add firstEntry) (.start rfl) trivial session₁_step
  exact System.Reach.next (a := Call.add secondEntry) h₁ trivial session₂_step

theorem table_faithful_session₂ :
    sessionSystem.Reach SafeCall session₂ ∧ Legal session₂ (.remove 30 anyHKey) ∧
      Faithful session₂ := by
  refine ⟨session₂_reach, ⟨by decide, ?_⟩, (table_faithful session₂ session₂_reach).1⟩
  intro h hh
  cases hh
  rfl

theorem table_loses_entry : ¬ ∀ s, sessionSystem.Reach (fun _ _ => True) s → Faithful s := by
  intro hall
  have hlegal : Legal session₂ (.remove 30 anyHKey) := by
    refine ⟨by decide, ?_⟩
    intro h hh
    cases hh
    rfl
  have hunsafe : ¬ SafeCall session₂ (.remove 30 anyHKey) := by
    intro h
    rcases h 60 rfl secondEntry rfl with hhome | ⟨y, hy, hocc, _⟩
    · exact absurd hhome (by decide)
    · exact hocc 1 (by decide) hy rfl
  obtain ⟨t', hc, _, hnot⟩ := (sound_of_reach session₂_reach).step hlegal
  exact hnot hunsafe (hall _ (.next (session₂_reach.mono fun _ _ _ => trivial) trivial ⟨hlegal, hc, rfl⟩))

end Devos.Security
