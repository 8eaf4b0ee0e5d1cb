import Multiplex.Proofs.Credit
import Multiplex.Proofs.RoundTrip

/-!
What a settings body announces, whatever pairs it is made of, and what two ends make of each other's
idle times.
-/

namespace Multiplex

namespace Settings

theorem encode_pair {k v : Bytes} (hk : k.length = 2) (hv : v.length = 8) :
    Pair.encode ⟨Bytes.toUInt16 k,Bytes.toUInt64 v⟩ = k ++ v := by
  have hkb := Bytes.toWord_lt k
  have hvb := Bytes.toWord_lt v
  rw [hk] at hkb
  rw [hv] at hvb
  rw [Pair.encode,Bytes.ofUInt16,Bytes.toUInt16,UInt16.toNat_ofNat_of_lt' hkb,Bytes.ofUInt64,
    Bytes.toUInt64,UInt64.toNat_ofNat_of_lt' hvb,← hk,← hv,Bytes.ofWord_toWord,Bytes.ofWord_toWord]

theorem flatMap_readPairs {body : Bytes} (h : body.length % pairSize = 0) :
    (readPairs body).flatMap Pair.encode = body := by
  fun_induction readPairs body with
  | case1 k₀ k₁ v₀ v₁ v₂ v₃ v₄ v₅ v₆ v₇ rest ih =>
    have hrest : rest.length % pairSize = 0 := by
      simp only [List.length_cons,pairSize] at h ⊢
      omega
    rw [List.flatMap_cons,encode_pair rfl rfl,ih hrest]
    rfl
  | case2 body hshort =>
    have hlt : body.length < pairSize := by
      by_contra hle
      rcases body with _ | ⟨k₀,_ | ⟨k₁,_ | ⟨v₀,_ | ⟨v₁,_ | ⟨v₂,_ | ⟨v₃,_ | ⟨v₄,_ | ⟨v₅,_ | ⟨v₆,_ |
        ⟨v₇,rest⟩⟩⟩⟩⟩⟩⟩⟩⟩⟩
      all_goals first | exact hshort _ _ _ _ _ _ _ _ _ _ _ rfl | simp [pairSize] at hle
    have : body.length = 0 := by rwa [Nat.mod_eq_of_lt hlt] at h
    exact (List.length_eq_zero_iff.mp this).symm

def lastValue (key : UInt16) (ps : List Pair) : Option UInt64 :=
  (ps.filter (·.key = key)).getLast?.map Pair.value

/-- What pairs announce: of each key the last value, or else the default. -/
def announced (ps : List Pair) : Settings where
  window := (lastValue 0 ps).getD ({} : Settings).window
  maxBidirectional := (lastValue 1 ps).getD ({} : Settings).maxBidirectional
  maxUnidirectional := (lastValue 2 ps).getD ({} : Settings).maxUnidirectional
  idle :=
    (lastValue 3 ps).elim ({} : Settings).idle fun time => if time = 0 then none else some time
  maxFrame := (lastValue 4 ps).getD ({} : Settings).maxFrame

theorem lastValue_append_singleton (key : UInt16) (ps : List Pair) (p : Pair) :
    lastValue key (ps ++ [p]) = if p.key = key then some p.value else lastValue key ps := by
  by_cases h : p.key = key <;> simp [lastValue,h]

theorem foldl_apply (ps : List Pair) : ps.foldl apply {} = announced ps := by
  induction ps using List.reverseRecOn with
  | nil => rfl
  | append_singleton ps p ih =>
    rw [List.foldl_append,ih,List.foldl_cons,List.foldl_nil]
    unfold apply
    split
    all_goals simp_all [announced,lastValue_append_singleton]

theorem length_flatMap_encode (ps : List Pair) :
    (ps.flatMap Pair.encode).length = ps.length * pairSize := by
  have hp (p : Pair) : p.encode.length = pairSize := by simp [Pair.encode,Bytes.ofUInt16,pairSize]
  simp [List.length_flatMap,hp]

theorem decode_flatMap (ps : List Pair) :
    decode (ps.flatMap Pair.encode) = (announced ps).validate := by
  have hl : (ps.flatMap Pair.encode).length % pairSize = 0 := by
    rw [length_flatMap_encode,Nat.mul_mod_left]
  rw [decode,if_pos hl,readPairs_flatMap,foldl_apply]

/-- Only the pairs of the known keys matter, and of these only the last one of each key. -/
theorem decode_congr {ps qs : List Pair} (h : ∀ key ≤ 4, lastValue key ps = lastValue key qs) :
    decode (ps.flatMap Pair.encode) = decode (qs.flatMap Pair.encode) := by
  rw [decode_flatMap,decode_flatMap,announced,announced,h 0 (by decide),h 1 (by decide),
    h 2 (by decide),h 3 (by decide),h 4 (by decide)]

/-- A body is read if it is made of pairs that announce, in the end, what may be announced. Unknown
pairs may stand anywhere, pairs of different keys in any order, and nothing is left of a pair that a
later one overrides. -/
theorem decode_announced :
    (∀ body s, decode body = .ok s ↔ body.length % 10 = 0 ∧
      ∃ ps, body = ps.flatMap Pair.encode ∧ s = announced ps ∧
        1 ≤ s.window.toNat ∧ s.window.toNat ≤ 2 ^ 31 ∧ 1024 ≤ s.maxFrame.toNat) ∧
    (∀ body : Bytes, body.length % 10 = 0 ↔ ∃ ps : List Pair, body = ps.flatMap Pair.encode) ∧
    (∀ ps qs rs : List Pair, (∀ q ∈ qs, 4 < q.key) →
      decode ((ps ++ qs ++ rs).flatMap Pair.encode) = decode ((ps ++ rs).flatMap Pair.encode)) ∧
    (∀ ps qs : List Pair, (∀ key, ps.filter (·.key = key) = qs.filter (·.key = key)) →
      decode (ps.flatMap Pair.encode) = decode (qs.flatMap Pair.encode)) ∧
    ∀ (ps qs rs : List Pair) (p q : Pair), p.key = q.key →
      decode ((ps ++ p :: qs ++ q :: rs).flatMap Pair.encode) =
        decode ((ps ++ qs ++ q :: rs).flatMap Pair.encode) := by
  have hpairs (body : Bytes) :
      body.length % 10 = 0 ↔ ∃ ps : List Pair, body = ps.flatMap Pair.encode := by
    refine ⟨fun h => ⟨readPairs body,(flatMap_readPairs h).symm⟩,?_⟩
    rintro ⟨ps,rfl⟩
    rw [length_flatMap_encode]
    exact Nat.mul_mod_left _ _
  have hvalid (s : Settings) : s.Valid ↔
      1 ≤ s.window.toNat ∧ s.window.toNat ≤ 2 ^ 31 ∧ 1024 ≤ s.maxFrame.toNat := by
    rw [Valid,ne_eq,← UInt64.toNat_inj,UInt64.le_iff_toNat_le,UInt64.le_iff_toNat_le,
      Nat.one_le_iff_ne_zero]
    rfl
  refine ⟨fun body s => ?_,hpairs,fun ps qs rs h => decode_congr fun key hk => ?_,
    fun ps qs h => decode_congr fun key _ => ?_,fun ps qs rs p q h => decode_congr fun key _ => ?_⟩
  · rw [hpairs]
    constructor
    · intro h
      have hb : body.length % 10 = 0 := by
        by_contra hb
        rw [decode,if_neg (show ¬body.length % pairSize = 0 from hb)] at h
        cases h
      obtain ⟨ps,rfl⟩ := (hpairs body).mp hb
      rw [decode_flatMap] at h
      obtain ⟨rfl,hv⟩ := validate_eq_ok_iff.mp h
      exact ⟨⟨ps,rfl⟩,ps,rfl,rfl,(hvalid _).mp hv⟩
    · rintro ⟨-,ps,rfl,rfl,hv⟩
      rw [decode_flatMap]
      exact validate_eq_ok_iff.mpr ⟨rfl,(hvalid _).mpr hv⟩
  · have hnone : qs.filter (·.key = key) = [] := by
      refine List.filter_eq_nil_iff.mpr fun q hq he => UInt16.not_lt.mpr hk ?_
      exact of_decide_eq_true he ▸ h q hq
    rw [lastValue,lastValue,List.filter_append,List.filter_append,List.filter_append,hnone,
      List.append_nil]
  · rw [lastValue,lastValue,h key]
  · by_cases hk : q.key = key
    · simp only [lastValue,List.filter_append,List.filter_cons_of_pos,hk,decide_true,
        List.getLast?_append_of_ne_nil _ (List.cons_ne_nil _ _)]
    · simp [lastValue,h,hk]

/-- A window of zero that is overridden, between pairs of unknown keys and in another order. -/
theorem decode_announced_overridden :
    decode ([⟨9,1⟩,⟨0,0⟩,⟨3,0⟩,⟨0,5⟩].flatMap Pair.encode) =
        decode ([⟨0,5⟩,⟨3,0⟩].flatMap Pair.encode) ∧
      decode ([⟨0,5⟩,⟨3,0⟩].flatMap Pair.encode) = .ok { window := 5, idle := none } := by
  obtain ⟨read,-,unknown,order,overridden⟩ := decode_announced
  refine ⟨?_,(read _ _).mpr ⟨rfl,[⟨0,5⟩,⟨3,0⟩],rfl,rfl,by decide⟩⟩
  refine (unknown [] [⟨9,1⟩] [⟨0,0⟩,⟨3,0⟩,⟨0,5⟩] (by decide)).trans
    ((overridden [] [⟨3,0⟩] [] ⟨0,0⟩ ⟨0,5⟩ rfl).trans (order _ _ fun key => ?_))
  by_cases h : key = 0
  · subst h
    rfl
  · simp [List.filter_cons,Ne.symm h]

theorem negotiatedIdle_comm (s t : Settings) : s.negotiatedIdle t = t.negotiatedIdle s := by
  have hmin (x y : UInt64) : min x y = min y x := by
    change (if x ≤ y then x else y) = if y ≤ x then y else x
    simp only [UInt64.le_iff_toNat_le,← UInt64.toNat_inj]
    split <;> split <;> omega
  unfold negotiatedIdle
  cases s.idle <;> cases t.idle <;> simp [hmin]

theorem negotiatedIdle_heard (s t : Settings) :
    s.negotiatedIdle t.heard = if t.idle = some 0 then s.idle else s.negotiatedIdle t := by
  split
  · rename_i h
    have hnone : t.heard.idle = none := by simp [heard,h,Option.filter]
    unfold negotiatedIdle
    rw [hnone]
    cases s.idle <;> rfl
  · rename_i h
    have hsame : t.heard.idle = t.idle := by
      cases ht : t.idle with
      | none => simp [heard,ht]
      | some time =>
        have hz : time ≠ 0 := fun hz => h (by rw [ht,hz])
        simp [heard,ht,Option.filter,hz]
    unfold negotiatedIdle
    rw [hsame]

theorem negotiatedIdle_zero {s : Settings} (h : s.idle = some 0) (t : Settings) :
    s.negotiatedIdle t = some 0 := by
  have hmin (time : UInt64) : min 0 time = 0 := if_pos (UInt64.le_iff_toNat_le.mpr (Nat.zero_le _))
  unfold negotiatedIdle
  rw [h]
  cases t.idle <;> simp [hmin]

end Settings

namespace Options

/-- The idle time that an end works with, having read what the other one announces. -/
def agreedIdle (own : Options) (inbox : Bytes) : Option (Option UInt64) :=
  match Opening.readSettings own.maxBody inbox with
  | .established peer _ => some (own.settings.negotiatedIdle peer)
  | .next _ | .failed _ => none

theorem Built.agreedIdle {a b : Options} (ha : a.Built) (hb : b.Built)
    (hlt : a.maxFrame.toNat + Frame.streamOverhead < UInt64.size) (rest : Bytes) :
    a.agreedIdle (Frame.encode (.settings b.settings) ++ rest) =
      some (a.settings.negotiatedIdle b.settings.heard) := by
  have hfits := ha.bounded.fits_settings hb.bounded.valid hlt
  rw [Options.agreedIdle,Opening.readSettings,Frame.decode_encode_append hfits]
  rfl

/-- Nothing is agreed on by an end whose bound on frames overflows: it cannot read any settings. -/
theorem agreedIdle_eq_none {a : Options}
    (h : UInt64.size ≤ a.maxFrame.toNat + Frame.streamOverhead) (b : Options) (rest : Bytes) :
    a.agreedIdle (Frame.encode (.settings b.settings) ++ rest) = none := by
  have hread := Frame.decode_settings_of_not_fits (not_fits_settings h b.settings)
    (List.append_nil (Frame.encode (.settings b.settings) ++ rest))
  rw [agreedIdle,Opening.readSettings]
  rcases hread with hd | ⟨e,left,hd⟩ <;> rw [hd]

/-- Two ends that can read settings at all come to the same idle time, the smaller one, unless
exactly one of them is set to zero: it is announced as none, so the end itself gives up at once and
the other one keeps its own time. -/
theorem agreedIdle_eq_iff {a b : Options} (ha : a.Built) (hb : b.Built) (rest rest' : Bytes) :
    let atA := a.agreedIdle (Frame.encode (.settings b.settings) ++ rest)
    let atB := b.agreedIdle (Frame.encode (.settings a.settings) ++ rest')
    (UInt64.size ≤ a.maxFrame.toNat + Frame.streamOverhead → atA = none) ∧
    (UInt64.size ≤ b.maxFrame.toNat + Frame.streamOverhead → atB = none) ∧
    (a.maxFrame.toNat + Frame.streamOverhead < UInt64.size →
      b.maxFrame.toNat + Frame.streamOverhead < UInt64.size →
        ((a.idle = some 0 ↔ b.idle = some 0) →
          atA = some (a.settings.negotiatedIdle b.settings) ∧
          atB = some (a.settings.negotiatedIdle b.settings)) ∧
        (a.idle = some 0 → b.idle ≠ some 0 → atA = some (some 0) ∧ atB = some b.idle) ∧
        (b.idle = some 0 → a.idle ≠ some 0 → atA = some a.idle ∧ atB = some (some 0)) ∧
        (atA = atB ↔ (a.idle = some 0 ↔ b.idle = some 0))) := by
  intro atA atB
  refine ⟨fun h => agreedIdle_eq_none h b rest,fun h => agreedIdle_eq_none h a rest',
    fun hltA hltB => ?_⟩
  have hA : atA =
      some (if b.idle = some 0 then a.idle else a.settings.negotiatedIdle b.settings) := by
    rw [show atA = _ from ha.agreedIdle hb hltA rest,Settings.negotiatedIdle_heard]
    rfl
  have hB : atB =
      some (if a.idle = some 0 then b.idle else a.settings.negotiatedIdle b.settings) := by
    rw [show atB = _ from hb.agreedIdle ha hltB rest',Settings.negotiatedIdle_heard,
      Settings.negotiatedIdle_comm]
    rfl
  have hzeroA (h : a.idle = some 0) : a.settings.negotiatedIdle b.settings = some 0 :=
    Settings.negotiatedIdle_zero h _
  have hzeroB (h : b.idle = some 0) : a.settings.negotiatedIdle b.settings = some 0 := by
    rw [Settings.negotiatedIdle_comm,Settings.negotiatedIdle_zero h]
  rw [hA,hB]
  by_cases h : a.idle = some 0 <;> by_cases h' : b.idle = some 0
  · simp [h,h',hzeroA h]
  · simp [h,h',hzeroA h,Ne.symm h']
  · simp [h,h',hzeroB h']
  · simp [h,h']

theorem agreedIdle_smaller :
    let a : Options := {}
    let b := a.withIdle (some 5)
    a.agreedIdle (Frame.encode (.settings b.settings) ++ []) = some (some 5) ∧
      b.agreedIdle (Frame.encode (.settings a.settings) ++ []) = some (some 5) :=
  ((agreedIdle_eq_iff .default (.idle .default (some 5)) [] []).2.2 (by decide) (by decide)).1
    (by decide)

/-- An end that is to give up after no time at all, and one that never does. -/
theorem exists_agreedIdle_ne : ∃ a b : Options, a.Built ∧ b.Built ∧
    a.agreedIdle (Frame.encode (.settings b.settings) ++ []) = some (some 0) ∧
    b.agreedIdle (Frame.encode (.settings a.settings) ++ []) = some none :=
  have ha : (({} : Options).withIdle (some 0)).Built := .idle .default _
  have hb : (({} : Options).withIdle none).Built := .idle .default _
  ⟨_,_,ha,hb,ha.agreedIdle hb (by decide) [],hb.agreedIdle ha (by decide) []⟩

end Options

end Multiplex
