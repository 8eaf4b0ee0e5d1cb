import Multiplex.Proofs.Soundness

/-!
Streams go on where they are: a stream keeps its id, and what was once said on it, a reset and its
leaving the table stay.
-/

namespace Multiplex

variable {s s' : Stream}

namespace Stream

/-- How a stream goes on that keeps its id. -/
structure Grows (s s' : Stream) : Prop where
  id : s'.id = s.id
  remote : s'.remote = s.remote
  sent : s.ledger.sent ≠ [] → s'.ledger.sent ≠ []
  reset : s.resetCode.isSome → s'.resetCode.isSome
  released : s.released = true → s'.released = true

theorem Grows.refl (s : Stream) : s.Grows s := ⟨rfl,rfl,fun h => h,fun h => h,fun h => h⟩

theorem Grows.trans {s s' s'' : Stream} (h : s.Grows s') (h' : s'.Grows s'') : s.Grows s'' :=
  ⟨h'.id.trans h.id,h'.remote.trans h.remote,fun hx => h'.sent (h.sent hx),
    fun hx => h'.reset (h.reset hx),fun hx => h'.released (h.released hx)⟩

theorem Agrees.grows (h : s.Agrees s') : s.Grows s' :=
  ⟨h.id,h.remote,fun hx => h.sent ▸ hx,fun hx => h.resetCode ▸ hx,
    fun hx => h.released.trans hx⟩

theorem grows_markReset (s : Stream) (unwritten changes : Nat) (code : UInt64) :
    s.Grows ({ s with unwritten, changes }.markReset code) :=
  ⟨rfl,rfl,fun h => h,fun _ => by simp [markReset],fun h => h⟩

theorem grows_afterData (s : Stream) (w : ReceiveWindow) (fin : Bool) (data : Bytes) :
    s.Grows (s.afterData w fin data).2.notify := by
  rw [afterData_snd]
  exact ⟨rfl,rfl,fun h => h,fun h => h,fun h => h⟩

end Stream

namespace Connection

variable {c c' c'' : Connection} {i : Nat}

/-- Streams go on where they are. New ones have no id yet, or it is the peer that opened them. -/
structure Grown (c c' : Connection) : Prop where
  kept : ∀ {i : Nat} {s : Stream}, c.streams[i]? = some s →
    ∃ s', c'.streams[i]? = some s' ∧ s.Grows s'
  new : ∀ {i : Nat} {s' : Stream}, c.streams[i]? = none → c'.streams[i]? = some s' → s'.id.isSome →
    s'.remote = true

theorem Grown.of_eq (h : c'.streams = c.streams) : Grown c c' := by
  refine ⟨fun {i s} hi => ⟨s,by rw [h]; exact hi,.refl s⟩,fun hn hs => ?_⟩
  rw [h,hn] at hs
  cases hs

theorem Grown.trans (h : Grown c c') (h' : Grown c' c'') : Grown c c'' := by
  refine ⟨fun hi => ?_,fun {i s''} hn hs hid => ?_⟩
  · obtain ⟨s',hi',h₁⟩ := h.kept hi
    obtain ⟨s'',hi'',h₂⟩ := h'.kept hi'
    exact ⟨s'',hi'',h₁.trans h₂⟩
  · cases hi' : c'.streams[i]? with
    | none => exact h'.new hi' hs hid
    | some s' =>
      obtain ⟨t,ht,hg⟩ := h'.kept hi'
      cases hs.symm.trans ht
      rw [hg.remote]
      exact h.new hn hi' (hg.id ▸ hid)

theorem Grown.set (hi : c.streams[i]? = some s) (hs : c'.streams = c.streams.set i s')
    (hg : s.Grows s') : Grown c c' := by
  refine ⟨fun {j t} hj => ?_,fun {j t} hn hj => ?_⟩
  · rw [hs,getElem?_set_of hi]
    split
    · rename_i hji
      subst hji
      cases hi.symm.trans hj
      exact ⟨s',rfl,hg⟩
    · exact ⟨t,hj,.refl t⟩
  · rw [hs,getElem?_set_of hi] at hj
    split at hj
    · rename_i hji
      rw [hji,hi] at hn
      cases hn
    · cases hn.symm.trans hj

theorem grown_release (c : Connection) (i : Nat) : Grown c (c.release i) := by
  rcases c.release_cases i with h | ⟨s,_,hi,-,-,-,-,h⟩
  · exact .of_eq (by rw [h])
  · rw [h,setActive_eq]
    exact .set hi rfl ⟨rfl,rfl,id,id,fun _ => rfl⟩

theorem Fell.grown (h : Fell c.streams c'.streams) : Grown c c' := by
  refine ⟨fun {i s} hi => ?_,fun {i s'} hn hs => ?_⟩
  · obtain ⟨s',hi',hidle,hfalls⟩ := (h i).2 s hi
    refine ⟨s',hi',?_⟩
    cases hid : s.id with
    | none =>
      rw [hidle hid]
      exact .refl s
    | some id =>
      obtain ⟨_,_,_,rfl,-⟩ := hfalls (by simp [hid])
      exact ⟨rfl,rfl,fun h => h,fun h => h,fun _ => rfl⟩
  · cases ((h i).1 hn).symm.trans hs

theorem Move.grown (hm : Move c c') (h : c.Sound) : Grown c c' := by
  cases hm with
  | add d =>
    refine ⟨fun {i s} hi => ⟨s,?_,.refl s⟩,fun {i s'} hn hs hid => ?_⟩
    · exact getElem?_append_of_some _ hi
    · rcases getElem?_concat hs with hs | ⟨-,rfl⟩
      · cases hn.symm.trans hs
      · cases hid
  | tend hi ht =>
    rw [enqueueControl?_eq]
    exact .set hi rfl ht.agrees.grows
  | send hi =>
    refine .set hi rfl ⟨rfl,rfl,fun _ => ?_,id,id⟩
    simp [Stream.charge,Stream.noteSent]
  | spend _ hi => exact .set hi rfl ⟨rfl,rfl,id,id,id⟩
  | finish hi =>
    refine .trans (.set hi rfl ?_) (grown_release _ _)
    exact ⟨rfl,rfl,fun _ => by simp [Stream.finish,Stream.noteSent],id,id⟩
  | @reset i s id code wire hi =>
    refine .trans (.set hi rfl (s.grows_markReset s.unwritten s.changes code)) (grown_release _ _)
  | @mark i s code hi => exact .set hi rfl (s.grows_markReset s.unwritten s.changes code)
  | say =>
    rw [enqueueControl_eq]
    exact .of_eq rfl
  | close =>
    rw [enqueueClose_eq]
    exact .of_eq rfl
  | note | wane | shut | complete => exact .of_eq rfl
  | lose e => exact (h.toTabled.fell_failStreams e).grown
  | abort e hp => exact (h.fell_abort e hp).grown

theorem grown_surfaced (c : Connection) (id : StreamId) (metrics : Metrics) (changes : Nat) :
    Grown c { c.surfaced id with metrics, changes } := by
  refine ⟨fun {i s} hi => ⟨s,?_,.refl s⟩,fun {i s'} hn hs hid => ?_⟩
  · exact getElem?_append_of_some _ hi
  · rcases getElem?_concat hs with hs | ⟨-,rfl⟩
    · cases hn.symm.trans hs
    · rfl

theorem Take.grown {f : Frame} (ht : Take f c c') (h : c.Sound) : Grown c c' := by
  induction ht with
  | @data c i s id fin data w hf hi =>
    have hg : Grown c { c.enqueueControl? (s.afterData w fin data).1 with
        streams := c.streams.set i (s.afterData w fin data).2.notify } :=
      .set hi rfl (s.grows_afterData w fin data)
    split
    · exact hg.trans (grown_release _ _)
    · exact hg
  | grant hf hi => exact .set hi rfl ⟨rfl,rfl,id,id,id⟩
  | @reset c i s id wire code unwritten changes hf hi =>
    exact .trans (.set hi rfl (s.grows_markReset unwritten changes code)) (grown_release _ _)
  | refuse =>
    rw [enqueueControl_eq]
    exact .of_eq rfl
  | surface metrics changes hs _ ih =>
    exact (grown_surfaced _ _ metrics changes).trans (ih (h.surface hs metrics changes))
  | drop | pass | idle | close => exact .of_eq rfl
  | stray _ _ hf hi => exact absurd hi (h.no_stray hf)

theorem Moves.grown (hm : Moves c c') (h : c.Sound) : Grown c c' := by
  induction hm with
  | refl => exact .of_eq rfl
  | tail hm hstep ih => exact ih.trans (hstep.grown (Moves.sound hm h))

/-- Whether each stream of `c` that has started goes on in `c'`. -/
def Lasts (c c' : Connection) : Prop :=
  ∀ (i : Nat) (s : Stream), c.streams[i]? = some s → s.id.isSome →
    ∃ s', c'.streams[i]? = some s' ∧ s.Grows s'

theorem Lasts.trans (h : Lasts c c') (h' : Lasts c' c'') : Lasts c c'' := by
  intro i s hi hid
  obtain ⟨s',hi',hg⟩ := h i s hi hid
  obtain ⟨s'',hi'',hg'⟩ := h' i s' hi' (by rw [hg.id]; exact hid)
  exact ⟨s'',hi'',hg.trans hg'⟩

theorem Grown.lasts (h : Grown c c') : Lasts c c' := fun _ _ hi _ => h.kept hi

theorem Start.lasts (hs : Start i c c') : Lasts c c' := by
  obtain ⟨hi,hnone,-,-,-⟩ := hs
  intro j t hj hid
  have hji : j ≠ i := by
    rintro rfl
    cases hi.symm.trans hj
    rw [hnone] at hid
    cases hid
  exact ⟨t,by simpa [started,List.getElem?_set_ne (Ne.symm hji)] using hj,.refl t⟩

end Connection

end Multiplex
