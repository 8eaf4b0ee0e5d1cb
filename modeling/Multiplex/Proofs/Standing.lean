import Multiplex.Proofs.Accepting
import Multiplex.Proofs.Closing

/-!
How each stream stands with the application: what was sent and read on it so far.
-/

namespace Multiplex

/-- How a stream stands with the application. -/
structure Standing where
  direction : Direction
  remote : Bool
  sent : Bytes
  finished : Bool
  read : Bytes
  ended : Bool
  abandoned : Bool
  /-- Whether the stream was ended before its time. -/
  gone : Bool

namespace Standing

variable {a a' : Standing}

/-- Time passes: nothing changes, or the stream is ended before its time. -/
inductive Ages (a : Standing) : Standing → Prop
  | same : Ages a a
  | lost : Ages a { a with gone := true }

theorem Ages.trans {a'' : Standing} (h : a.Ages a') (h' : a'.Ages a'') : a.Ages a'' := by
  cases h with
  | same => exact h'
  | lost =>
    cases h' with
    | same | lost => exact .lost

/-- Whether nothing was done with the stream. -/
structure Untouched (a : Standing) : Prop where
  sent : a.sent = []
  finished : a.finished = false
  read : a.read = []
  ended : a.ended = false
  abandoned : a.abandoned = false

theorem Untouched.ages (h : a.Untouched) (ha : a.Ages a') : a'.Untouched := by
  cases ha with
  | same => exact h
  | lost => exact { h with }

end Standing

namespace Stream

variable {s s' : Stream}

def standing (s : Stream) : Standing where
  direction := s.direction
  remote := s.remote
  sent := Ledger.bytes s.ledger.sent
  finished := s.finQueued
  read := Ledger.bytes s.ledger.taken
  ended := s.ledger.ended
  abandoned := s.abandoned
  gone := s.termination.isSome

/-- Whether nothing is left to read once the end was seen. -/
def Tidy (s : Stream) : Prop := s.ledger.ended = true → s.finReceived = true ∧ s.inbound = []

/-- Time passes for a stream. -/
structure Ages (s s' : Stream) : Prop where
  standing : s.standing.Ages s'.standing
  tidy : s.Tidy → s'.Tidy

theorem Ages.refl (s : Stream) : s.Ages s := ⟨.same,fun h => h⟩

theorem Ages.trans {s'' : Stream} (h : s.Ages s') (h' : s'.Ages s'') : s.Ages s'' :=
  ⟨h.standing.trans h'.standing,fun ht => h'.tidy (h.tidy ht)⟩

theorem ages_of_eq {gone : Bool} (h : s'.standing = { s.standing with gone })
    (hs : s.standing.Ages { s.standing with gone }) (hf : s'.finReceived = s.finReceived)
    (hi : s'.inbound = s.inbound) : s.Ages s' := by
  refine ⟨h ▸ hs,fun ht he => ?_⟩
  have hended : s'.ledger.ended = s.ledger.ended := congrArg Standing.ended h
  rw [hf,hi]
  exact ht (hended.symm.trans he)

theorem ages_markReset (s : Stream) (code : UInt64) : s.Ages (s.markReset code) := by
  have hgone : (s.markReset code).termination.isSome = true := by
    rw [Option.isSome_iff_ne_none,ne_eq,termination_eq_none_iff]
    simp [markReset]
  refine ages_of_eq ?_ .lost rfl rfl
  simp only [standing,hgone]
  rfl

theorem ages_fail (s : Stream) (e : Failure) (released : Bool) :
    s.Ages { s.fail e with released } := by
  have hgone : ({ s.fail e with released } : Stream).termination.isSome = true := by
    rw [Option.isSome_iff_ne_none,ne_eq,termination_eq_none_iff]
    simp [fail]
  refine ages_of_eq ?_ .lost rfl rfl
  simp only [standing,hgone]
  rfl

theorem ages_dispose (s : Stream) (code : UInt64) : s.Ages { s with disposed := some code } := by
  have hgone : ({ s with disposed := some code } : Stream).termination.isSome = true := by
    rw [Option.isSome_iff_ne_none,ne_eq,termination_eq_none_iff]
    simp
  refine ages_of_eq ?_ .lost rfl rfl
  simp only [standing,hgone]

theorem consumed_standing (s : Stream) (len : Nat) : (s.consumed len).2.standing = s.standing := by
  rw [consumed_snd]
  rfl

theorem Tended.ages {e : Effect} (h : s.Tended e s') : s.Ages s' := by
  cases h with
  | signal | retire | grant => exact ages_of_eq rfl .same rfl rfl
  | mark code => exact s.ages_markReset code
  | dispose code => exact s.ages_dispose code
  | receive unended =>
    rw [afterData_snd]
    -- no end was seen before it came
    refine ⟨.same,fun ht he => ?_⟩
    exact absurd ((ht he).1.symm.trans unended) (by decide)

end Stream

namespace Connection

variable {c c' : Connection}

/-- What leaves the stream at place `i` to itself. One that is new there is untouched. -/
structure Leaves (i : Nat) (c c' : Connection) : Prop where
  kept : ∀ {s : Stream}, c.streams[i]? = some s →
    ∃ s', c'.streams[i]? = some s' ∧ s.Ages s'
  new : ∀ {s' : Stream}, c.streams[i]? = none → c'.streams[i]? = some s' → s'.standing.Untouched

section Leaves

variable {i j : Nat} {c'' : Connection}

theorem Leaves.of_eq (h : c'.streams[i]? = c.streams[i]?) : Leaves i c c' := by
  refine ⟨fun {s} hi => ⟨s,h.trans hi,.refl s⟩,fun hn hs => ?_⟩
  rw [h,hn] at hs
  cases hs

theorem Leaves.refl (i : Nat) (c : Connection) : Leaves i c c := .of_eq rfl

theorem Leaves.trans (h : Leaves i c c') (h' : Leaves i c' c'') : Leaves i c c'' := by
  refine ⟨fun hi => ?_,fun {s''} hn hs => ?_⟩
  · obtain ⟨s',hi',ha⟩ := h.kept hi
    obtain ⟨s'',hi'',ha'⟩ := h'.kept hi'
    exact ⟨s'',hi'',ha.trans ha'⟩
  · cases hi' : c'.streams[i]? with
    | none => exact h'.new hi' hs
    | some s' =>
      obtain ⟨t,ht,ha⟩ := h'.kept hi'
      cases hs.symm.trans ht
      exact (h.new hn hi').ages ha.standing

theorem Leaves.of_modify {f : Stream → Stream} (h : c'.streams = c.streams.modify j f)
    (hf : ∀ s, c.streams[j]? = some s → s.Ages (f s)) : Leaves i c c' := by
  refine ⟨fun {s} hi => ?_,fun hn hs => ?_⟩ <;> rw [h,List.getElem?_modify] at *
  · by_cases hj : j = i
    · subst hj
      exact ⟨f s,by simp [hi],hf s hi⟩
    · exact ⟨s,by simp [hi,hj],.refl s⟩
  · simp [hn] at hs

theorem leaves_concat {s : Stream} (hs : s.standing.Untouched) (h : c'.streams = c.streams ++ [s]) :
    Leaves i c c' := by
  refine ⟨fun {t} hi => ⟨t,?_,.refl t⟩,fun {t} hn ht => ?_⟩
  · rw [h]
    exact getElem?_append_of_some _ hi
  · rcases getElem?_concat (h ▸ ht) with ht | ⟨-,rfl⟩
    · cases hn.symm.trans ht
    · exact hs

/-- Whether changes of a kind are no use of the stream at place `i`. -/
def Kind.Leaves (i : Nat) : Kind → Prop
  | .use j | .queue j => j ≠ i
  | _ => True

theorem Change.leaves {k : Kind} {w : Word} (h : Change c k w c') (hk : k.Leaves i) :
    c.Leaves i c' := by
  cases h with
  | note | ring | occupy | vacate | pong | control | say | complete | accept | endInput | turn
  | reason | discard | count => exact .of_eq rfl
  | tend hs => exact .of_modify rfl fun s hi => (hs s hi).ages
  | purge | hail | forget => exact .of_modify rfl fun _ _ => Stream.ages_of_eq rfl .same rfl rfl
  | use | name | queue => exact .of_eq (List.getElem?_modify_ne _ _ hk)
  | add | arrive => exact leaves_concat ⟨rfl,rfl,rfl,rfl,rfl⟩ rfl
  | fail => exact .of_modify rfl fun s _ => s.ages_fail _ _
  | written =>
    refine .of_modify rfl fun s _ => ?_
    dsimp only
    split <;> exact Stream.ages_of_eq rfl .same rfl rfl
  | ship =>
    unfold takeBatch
    split <;> exact .of_eq rfl

theorem Runs.leaves (h : Changes (Kind.Leaves i) c c') : Leaves i c c' :=
  h.keep trivial (.refl i) .trans Change.leaves

end Leaves

/-- Streams of the peer surface, and of those that wait some may be lost. -/
def Musters (c c' : Connection) : Prop :=
  ∃ new, c'.arrivals = c.arrivals ++ new ∧ c'.acceptQueue.Sublist (c.acceptQueue ++ new)

theorem Musters.trans {c'' : Connection} (h : Musters c c') (h' : Musters c' c'') :
    Musters c c'' := by
  obtain ⟨new,ha,hq⟩ := h
  obtain ⟨more,ha',hq'⟩ := h'
  refine ⟨new ++ more,by rw [ha',ha,List.append_assoc],hq'.trans ?_⟩
  rw [← List.append_assoc]
  exact hq.append_right more

theorem Musters.of_roll (h : c'.roll = c.roll) : Musters c c' := by
  simp only [roll,Roll.mk.injEq] at h
  exact ⟨[],by rw [h.1,List.append_nil],by rw [h.2.1,List.append_nil]⟩

theorem Admits.musters (h : Admits c c') : Musters c c' := by
  obtain ⟨new,hn⟩ := h
  simp only [roll,Roll.admitted,Roll.mk.injEq] at hn
  exact ⟨new,hn.1,hn.2.1 ▸ List.Sublist.refl _⟩

theorem Change.musters {k : Kind} {w : Word} (h : Change c k w c') : Musters c c' := by
  cases k with
  | rest | tend | use | queue | add | arrive | ship | fate => exact (h.admits trivial).musters
  | accept =>
    cases h with
    | accept hq => exact ⟨[],(List.append_nil _).symm,(List.append_nil _).symm ▸ hq⟩
  | endInput =>
    obtain ⟨⟩ := h
    exact ⟨[],(List.append_nil _).symm,(List.append_nil _).symm ▸ .refl _⟩

end Connection

namespace Station

open Connection

variable {s : Station} {e : Event}

theorem leaves_act {i : Nat} (h : s.uses i e = false) (out inn : Pipe) :
    Leaves i s.connection (s.act out inn e).1.connection := by
  obtain ⟨c,hm,hc⟩ := s.changes_act out inn e
  have hmeet : Leaves i s.connection c := by cases hm <;> exact .of_eq rfl
  refine hmeet.trans (hc.mono fun k hk => ?_).leaves
  cases k with
  | use j | queue j =>
    rintro rfl
    exact Bool.false_ne_true (h.symm.trans hk)
  | rest | tend | add | arrive | accept | endInput | ship | fate => trivial

theorem musters_act (s : Station) (out inn : Pipe) (e : Event) :
    Musters s.connection (s.act out inn e).1.connection := by
  obtain ⟨c,hm,hc⟩ := s.changes_act out inn e
  have hmeet : Musters s.connection c := by cases hm <;> exact .of_roll rfl
  exact hmeet.trans (hc.keep trivial (fun _ => .of_roll rfl) .trans fun hc _ => hc.musters)

end Station

end Multiplex
