import Multiplex.Proofs.Checking
import Multiplex.Proofs.Transit

/-!
Two ends check each other's identity before anything else crosses the pipes: the check passes at
both ends, or at neither.
-/

namespace Multiplex

theorem Side.other_other (s : Side) : s.other.other = s := by
  cases s <;> rfl

theorem Side.other_ne (s : Side) : s.other ≠ s := by
  cases s <;> decide

theorem Side.forall_of {P : Side → Prop} (s : Side) (h : P s) (h' : P s.other) (t : Side) :
    P t := by
  cases s <;> cases t <;> assumption

structure Introduction where
  check : Side → Check
  /-- Everything that an end has written. -/
  sent : Side → Bytes := fun _ => []
  pipe : Side → Pipe := fun _ => { capacity := 0 }

namespace Introduction

inductive Event
  /-- An end does the next step of its check. Its pipe has `room` for that many bytes more, and of
  what the other end has written `seen` bytes are there to be read. -/
  | advance (s : Side) (seen room : Nat)
  /-- An end whose check has passed writes. -/
  | send (s : Side) (bs : Bytes)
  /-- An end whose check is done lets go of both pipes. -/
  | hangUp (s : Side)
  /-- An end that has rejected the other one lets go of both pipes before it has its verdict. -/
  | leave (s : Side)

def stepped (x : Introduction) (s : Side) (seen : Nat) (p : Opening.Progress) (out inn : Pipe) :
    Introduction where
  check := Function.update x.check s (.of p)
  sent := Function.update x.sent s (x.sent s ++ out.buffer.drop (x.pipe s).buffer.length)
  pipe t := if t = s then out else (x.pipe t).after seen inn

section Stepped

variable (x : Introduction) (s : Side) (seen : Nat) (p : Opening.Progress) (out inn : Pipe)

@[simp] theorem stepped_check : (x.stepped s seen p out inn).check s = .of p :=
  Function.update_self _ _ _

@[simp] theorem stepped_check_other :
    (x.stepped s seen p out inn).check s.other = x.check s.other :=
  Function.update_of_ne s.other_ne _ _

@[simp] theorem stepped_sent : (x.stepped s seen p out inn).sent s =
    x.sent s ++ out.buffer.drop (x.pipe s).buffer.length :=
  Function.update_self _ _ _

@[simp] theorem stepped_sent_other : (x.stepped s seen p out inn).sent s.other = x.sent s.other :=
  Function.update_of_ne s.other_ne _ _

@[simp] theorem stepped_pipe : (x.stepped s seen p out inn).pipe s = out := if_pos rfl

@[simp] theorem stepped_pipe_other :
    (x.stepped s seen p out inn).pipe s.other = (x.pipe s.other).after seen inn :=
  if_neg s.other_ne

end Stepped

section Run

variable (who : Side → Identity) (own : Side → Settings) (maxBody : Nat)

/-- Both ends are about to say who they are. -/
def start : Introduction where
  check s := .first (Opening.start (.identity (who s)) (own s))

def advance (x : Introduction) (s : Side) (seen room : Nat) : Introduction :=
  match x.check s with
  | .pending o =>
    match o.step (.identity (who s)) (own s) maxBody ((x.pipe s).withRoom room)
        ((x.pipe s.other).front seen) with
    | some (p, out, inn) => x.stepped s seen p out inn
    | none => x
  | .passed | .failed _ => x

def send (x : Introduction) (s : Side) (bs : Bytes) : Introduction :=
  if x.check s = .passed ∧ (x.pipe s).closed = false then
    { x with
      sent := Function.update x.sent s (x.sent s ++ bs)
      pipe := Function.update x.pipe s { x.pipe s with buffer := (x.pipe s).buffer ++ bs } }
  else x

def hangUp (x : Introduction) (s : Side) : Introduction :=
  if (x.check s).returned then { x with pipe := fun t => (x.pipe t).close } else x

def leave (x : Introduction) (s : Side) : Introduction :=
  match x.check s with
  | .pending (.answer peer fault) =>
    if (who s).trusts peer then x
    else
      { x with
        check := Function.update x.check s (.of (Opening.settle (who s) (own s) peer fault none))
        pipe := fun t => (x.pipe t).close }
  | _ => x

def act (x : Introduction) : Event → Introduction
  | .advance s seen room => x.advance who own maxBody s seen room
  | .send s bs => x.send s bs
  | .hangUp s => x.hangUp s
  | .leave s => x.leave who own s

def run (x : Introduction) (events : List Event) : Introduction :=
  events.foldl (act who own maxBody) x

end Run

end Introduction

namespace Introduction

variable {who : Side → Identity} {own : Side → Settings} {maxBody : Nat} {x : Introduction}

theorem advance_cases (x : Introduction) (s : Side) (seen room : Nat) :
    x.advance who own maxBody s seen room = x ∨ ∃ o p out inn, x.check s = .pending o ∧
      o.step (.identity (who s)) (own s) maxBody ((x.pipe s).withRoom room)
        ((x.pipe s.other).front seen) = some (p, out, inn) ∧
      x.advance who own maxBody s seen room = x.stepped s seen p out inn := by
  unfold Introduction.advance
  split
  · rename_i o ho
    split
    · rename_i p out inn hstep
      exact .inr ⟨o,p,out,inn,ho,hstep,rfl⟩
    · exact .inl rfl
  · exact .inl rfl
  · exact .inl rfl

/-- What the end `s` keeps to while the two ends check each other. -/
structure Faithful (who : Side → Identity) (x : Introduction) (s : Side) : Prop where
  stands : (x.check s).Stands (who s) (who s.other) (x.sent s)
  /-- The pipes lose nothing and keep the order. -/
  flows : (x.check s).Leaves (who s) (who s.other) (x.pipe s.other).buffer (x.sent s.other)
  /-- An end that is done has heard the verdict of the other one, unless it rejects it. -/
  heard : (x.check s).returned = true → (who s.other).hello <+: x.sent s.other ∧
    ((who s).trusts (who s.other).name = true → (who s.other).greeting (who s) <+: x.sent s.other)
  /-- And it has said all, if anybody waits for it. -/
  said : (x.check s).returned = true → (x.check s.other).returned = false →
    (who s).greeting (who s.other) <+: x.sent s
  /-- An end fails to send its verdict only to one that has rejected it and is gone. -/
  muted : ∀ o, x.check s = .pending o → o.Muted →
    (x.check s.other).returned = true ∧ (who s.other).trusts (who s).name = false
  /-- Nobody lets go of the pipes before its check is done. -/
  held : (x.pipe s).closed = true → ∃ t, (x.check t).returned = true

section Pending

variable {s : Side} {o : Opening}

theorem returned_of_pending (ho : x.check s = .pending o) : (x.check s).returned = false := by
  rw [ho]
  rfl

section

variable (h : ∀ s, Faithful who x s)

include h

/-- If a pipe is let go while an end is not done, the other one is. -/
theorem other_returned (ho : x.check s = .pending o) {t : Side} (ht : (x.pipe t).closed = true) :
    (x.check s.other).returned = true := by
  obtain ⟨r,hr⟩ := (h t).held ht
  have hne : r ≠ s := by
    rintro rfl
    rw [ho] at hr
    cases hr
  have hother : r = s.other := by
    cases r <;> cases s <;> first | rfl | exact absurd rfl hne
  rw [← hother]
  exact hr

/-- All that is yet to come from the other end begins with what it is to say. -/
theorem comes (ho : x.check s = .pending o) :
    ∃ more rest, x.sent s.other ++ more = (who s.other).greeting (who s) ++ rest := by
  cases hother : x.check s.other with
  | pending o' =>
    have hstands := (h s.other).stands
    rw [hother,s.other_other] at hstands
    exact ⟨o'.untold _ _,[],by rw [hstands.2,List.append_nil]⟩
  | passed | failed =>
    have hsaid := (h s.other).said (by rw [hother]; rfl)
    rw [s.other_other] at hsaid
    obtain ⟨rest,hrest⟩ := hsaid (returned_of_pending ho)
    exact ⟨[],rest,by rw [hrest,List.append_nil]⟩

theorem writable (ho : x.check s = .pending o) (room : Nat)
    (hu : 1 < (o.untold (who s) (who s.other)).length) :
    ((x.pipe s).withRoom room).closed = false := by
  by_contra hc
  have hclosed : (x.pipe s).closed = true := Bool.not_eq_false _ ▸ hc
  have hhello := ((h s.other).heard (other_returned h ho hclosed)).1
  have hstands := (h s).stands
  rw [ho] at hstands
  have hlen := congrArg List.length hstands.2
  rw [s.other_other] at hhello
  have hle := hhello.length_le
  simp only [Identity.greeting,List.length_append,List.length_singleton] at hlen
  omega

theorem readable (ho : x.check s = .pending o) (seen : Nat) :
    ((x.pipe s.other).front seen).ended = false := by
  by_contra hc
  have hended := Pipe.ended_of_front (Bool.not_eq_false _ ▸ hc)
  simp only [Pipe.ended,Bool.and_eq_true,List.isEmpty_iff] at hended
  obtain ⟨hclosed,he⟩ := hended
  have hstands := (h s).stands
  have hflows := (h s).flows
  have hsaid := (h s.other).said (other_returned h ho hclosed)
  rw [s.other_other] at hsaid
  rw [ho] at hstands hflows
  rw [he,Check.Leaves,List.append_nil] at hflows
  have hlen := (hsaid (returned_of_pending ho)).length_le
  have htold := Opening.length_told hstands.1
  rw [← hflows,Identity.greeting,List.length_append,List.length_singleton] at hlen
  omega

/-- An end that the other one trusts has sent its verdict by the time the other one is done. -/
theorem untold_eq_nil (ho : x.check s = .pending o) (hs : (x.check s.other).returned = true)
    (ht : (who s.other).trusts (who s).name = true) : o.untold (who s) (who s.other) = [] := by
  have hstands := (h s).stands
  have hheard := ((h s.other).heard hs).2
  rw [s.other_other] at hheard
  rw [ho] at hstands
  have hle := (hheard ht).length_le
  rw [← hstands.2] at hle
  simpa using hle

/-- An end that waits for nothing but a verdict has said all, if anybody listens. -/
theorem sent_eq_greeting (ho : x.check s = .pending o)
    (hu : o.Muted ∨ o.untold (who s) (who s.other) = []) (hs : (x.check s.other).returned = false) :
    x.sent s = (who s).greeting (who s.other) := by
  rcases hu with hm | hu
  · cases (((h s).muted o ho hm).1).symm.trans hs
  · have hstands := (h s).stands
    rw [ho] at hstands
    rw [← hstands.2,hu,List.append_nil]

end

theorem turns_of_step (hwho : ∀ s, (who s).nameBytes.length ≤ Identity.maxName)
    (h : ∀ s, Faithful who x s) (ho : x.check s = .pending o) {seen room : Nat}
    {p : Opening.Progress} {out inn : Pipe}
    (hstep : o.step (.identity (who s)) (own s) maxBody ((x.pipe s).withRoom room)
      ((x.pipe s.other).front seen) = some (p, out, inn)) :
    o.Turns (who s) (who s.other) (x.sent s) ((x.pipe s).withRoom room) out
      ((x.pipe s.other).front seen) inn (.of p) := by
  have hstands := (h s).stands
  have hflows := (h s).flows
  rw [ho] at hstands hflows
  obtain ⟨more,rest,hcomes⟩ := comes h ho
  have hin : o.told (who s.other) ++ (((x.pipe s.other).front seen).buffer ++
      ((x.pipe s.other).buffer.drop seen ++ more)) = (who s.other).greeting (who s) ++ rest := by
    rw [← hcomes,← hflows,← List.append_assoc (Pipe.buffer _),Pipe.front_append_drop,
      List.append_assoc]
  exact Opening.step_turns (hwho s.other) hstands.1 hstands.2 (fun hm => ((h s).muted o ho hm).2)
    (writable h ho room) (readable h ho seen) hin hstep

end Pending

theorem faithful_start (hwho : ∀ s, (who s).nameBytes.length ≤ Identity.maxName) (s : Side) :
    Faithful who (start who own) s := by
  have hcheck : (Introduction.start who own).check s = .pending (.hello (who s).hello) := by
    simp only [start,Opening.start,if_neg (Nat.not_lt.mpr (hwho s)),Check.first]
  have hret := returned_of_pending hcheck
  refine ⟨?_,?_,fun hs => ?_,fun hs => ?_,fun o ho hm => ?_,fun hs => by cases hs⟩
  · rw [hcheck]
    exact ⟨by simp [Opening.Hears,Identity.hello,Identity.magic],rfl⟩
  · rw [hcheck]
    rfl
  · cases hret.symm.trans hs
  · cases hret.symm.trans hs
  · cases hcheck.symm.trans ho
    cases hm

/-- Whatever `s` does, to the other end it only says more and comes to a result. -/
theorem Faithful.other_end {y : Introduction} {s : Side} (h : Faithful who x s.other) (bs : Bytes)
    (hcheck : y.check s.other = x.check s.other) (hsame : y.sent s.other = x.sent s.other)
    (hsent : y.sent s = x.sent s ++ bs) (hpipe : (y.pipe s).buffer = (x.pipe s).buffer ++ bs)
    (hmono : (x.check s).returned = true → (y.check s).returned = true)
    (hheld : (y.pipe s.other).closed = true → ∃ t, (y.check t).returned = true) :
    Faithful who y s.other := by
  have hmore : x.sent s <+: y.sent s := ⟨bs,hsent.symm⟩
  constructor
  case stands =>
    rw [hcheck,hsame]
    exact h.stands
  case flows =>
    have hflows := h.flows.append bs
    rw [s.other_other] at hflows ⊢
    rw [hcheck,hsent,hpipe]
    exact hflows
  case heard =>
    have hheard := h.heard
    rw [s.other_other] at hheard ⊢
    rw [hcheck]
    intro hs
    exact ⟨(hheard hs).1.trans hmore,fun htrust => ((hheard hs).2 htrust).trans hmore⟩
  case said =>
    have hsaid := h.said
    rw [s.other_other] at hsaid ⊢
    rw [hcheck,hsame]
    intro hs hnot
    refine hsaid hs ?_
    cases hx : (x.check s).returned with
    | false => rfl
    | true =>
      cases (hmono hx).symm.trans hnot
  case muted =>
    have hmuted := h.muted
    rw [s.other_other] at hmuted ⊢
    rw [hcheck]
    intro o ho hm
    obtain ⟨hret,htrust⟩ := hmuted o ho hm
    exact ⟨hmono hret,htrust⟩
  case held => exact hheld

section Stepped

variable {s : Side} {o : Opening} {seen room : Nat} {p : Opening.Progress} {out inn : Pipe}

theorem faithful_stepped (h : ∀ s, Faithful who x s) (ho : x.check s = .pending o)
    (hc : out.closed = (x.pipe s).closed)
    (ht : o.Turns (who s) (who s.other) (x.sent s) ((x.pipe s).withRoom room) out
      ((x.pipe s.other).front seen) inn (.of p)) :
    Faithful who (x.stepped s seen p out inn) s := by
  have hflows := (h s).flows
  rw [ho] at hflows
  have hsent : o.told (who s.other) ++ ((x.pipe s.other).front seen).buffer ++
      (x.pipe s.other).buffer.drop seen = x.sent s.other := by
    rw [List.append_assoc,Pipe.front_append_drop]
    exact hflows
  obtain ⟨new,hout,hnew⟩ := ht.writes
  have hdrop : out.buffer.drop (x.pipe s).buffer.length = new := by
    rw [hout]
    exact List.drop_left
  constructor
  case stands =>
    rw [stepped_check,stepped_sent,hdrop]
    exact hnew
  case flows =>
    rw [stepped_check,stepped_sent_other,stepped_pipe_other,← hsent]
    exact ht.reads.append _
  case heard =>
    rw [stepped_check,stepped_sent_other,← hsent]
    intro hret
    have hall := (ht.ends hret).1.trans (List.prefix_append _ ((x.pipe s.other).buffer.drop seen))
    exact ⟨(List.prefix_append _ _).trans hall,fun _ => hall⟩
  case said =>
    rw [stepped_check,stepped_check_other,stepped_sent]
    intro hret hother
    rw [sent_eq_greeting h ho (ht.ends hret).2 hother]
    exact List.prefix_append _ _
  case muted =>
    rw [stepped_check,stepped_check_other]
    -- one that trusts this end would have waited for its verdict
    intro o' ho' hm
    obtain ⟨hclosed,hu⟩ := ht.mutes o' ho' hm
    have hret := other_returned h ho (t := s) hclosed
    refine ⟨hret,?_⟩
    cases htrust : (who s.other).trusts (who s).name with
    | false => rfl
    | true => exact absurd (untold_eq_nil h ho hret htrust) hu
  case held =>
    rw [stepped_pipe,hc]
    intro hclosed
    refine ⟨s.other,?_⟩
    rw [stepped_check_other]
    exact other_returned h ho hclosed

theorem faithful_stepped_other (h : ∀ s, Faithful who x s) (ho : x.check s = .pending o)
    (hc : inn.closed = ((x.pipe s.other).front seen).closed)
    (ht : o.Turns (who s) (who s.other) (x.sent s) ((x.pipe s).withRoom room) out
      ((x.pipe s.other).front seen) inn (.of p)) :
    Faithful who (x.stepped s seen p out inn) s.other := by
  obtain ⟨new,hout,-⟩ := ht.writes
  have hdrop : out.buffer.drop (x.pipe s).buffer.length = new := by
    rw [hout]
    exact List.drop_left
  refine (h s.other).other_end new ?_ ?_ ?_ ?_ ?_ ?_
  · exact stepped_check_other x s seen p out inn
  · exact stepped_sent_other x s seen p out inn
  · rw [stepped_sent,hdrop]
  · rw [stepped_pipe,hout]
    rfl
  · intro hret
    rw [ho] at hret
    cases hret
  · rw [stepped_pipe_other,Pipe.after,hc]
    intro hclosed
    refine ⟨s.other,?_⟩
    rw [stepped_check_other]
    refine other_returned h ho (t := s.other) ?_
    simp only [Pipe.front,Bool.or_eq_true,Bool.and_eq_true] at hclosed
    exact hclosed.elim id And.left

end Stepped

theorem faithful_advance (hwho : ∀ s, (who s).nameBytes.length ≤ Identity.maxName)
    (h : ∀ s, Faithful who x s) (s : Side) (seen room : Nat) :
    ∀ t, Faithful who (x.advance who own maxBody s seen room) t := by
  rcases advance_cases x s seen room with heq | ⟨o,p,out,inn,ho,hstep,heq⟩
  · rw [heq]
    exact h
  · rw [heq]
    have hturns := turns_of_step hwho h ho hstep
    have hplods := Opening.step_plods hstep
    obtain ⟨-,-,hc⟩ := hplods.out
    exact Side.forall_of s (faithful_stepped h ho hc hturns)
      (faithful_stepped_other h ho hplods.inn hturns)

theorem faithful_send (h : ∀ s, Faithful who x s) (s : Side) (bs : Bytes) :
    ∀ t, Faithful who (x.send s bs) t := by
  unfold send
  split
  · rename_i hs
    have hret : (x.check s).returned = true := by
      rw [hs.1]
      rfl
    refine Side.forall_of s ?_ ?_
    · refine ⟨?_,?_,?_,fun _ hother => ?_,fun o ho => ?_,fun _ => ⟨s,hret⟩⟩
      · exact (Check.stands_iff_of_returned hret).mpr
          ((Check.stands_iff_of_returned hret).mp (h s).stands)
      · simp only [Function.update_of_ne s.other_ne]
        exact (h s).flows
      · simp only [Function.update_of_ne s.other_ne]
        exact (h s).heard
      · simp only [Function.update_self]
        exact ((h s).said hret hother).trans (List.prefix_append _ _)
      · exact (h s).muted o ho
    · refine (h s.other).other_end bs rfl ?_ ?_ ?_ id fun _ => ⟨s,hret⟩
      · exact Function.update_of_ne s.other_ne _ _
      · exact Function.update_self _ _ _
      · simp only [Function.update_self]
  · exact h

theorem faithful_hangUp (h : ∀ s, Faithful who x s) (s t : Side) : Faithful who (x.hangUp s) t := by
  unfold hangUp
  split
  · rename_i hs
    exact { h t with held := fun _ => ⟨s,hs⟩ }
  · exact h t

/-- An end that leaves early has said its verdict. That is what the other one will hear. -/
theorem faithful_leave (h : ∀ s, Faithful who x s) (s : Side) :
    ∀ t, Faithful who (x.leave who own s) t := by
  unfold leave
  split
  · rename_i peer fault ho
    split
    · exact h
    · rename_i htrust
      have hstands := (h s).stands
      have hflows := (h s).flows
      rw [ho] at hstands hflows
      obtain rfl := hstands.1
      have hfail : Check.of (Opening.settle (who s) (own s) (who s.other).name fault none) =
          .failed (.authenticationFailed (.untrusted (who s.other).name)) := by
        simp [Opening.settle,htrust,Check.of]
      rw [hfail]
      have hout : (who s).outcome (who s.other) =
          .failed (.authenticationFailed (.untrusted (who s.other).name)) := by
        simp [Identity.outcome,htrust]
      have hsaid : (Opening.answer (who s.other).name fault).Muted ∨
          (Opening.answer (who s.other).name fault).untold (who s) (who s.other) = [] := by
        cases fault with
        | none => exact .inr rfl
        | some f => exact .inl rfl
      refine Side.forall_of s ?_ ?_
      · refine ⟨?_,?_,fun _ => ⟨⟨_,hflows⟩,fun hx => absurd hx htrust⟩,fun _ hother => ?_,?_,?_⟩
        · simp only [Function.update_self]
          exact hout.symm
        · simp only [Function.update_self]
          trivial
        · simp only [Function.update_of_ne s.other_ne] at hother
          exact (sent_eq_greeting h ho hsaid hother).symm ▸ List.prefix_rfl
        · simp only [Function.update_self]
          exact fun o hx => by cases hx
        · exact fun _ => ⟨s,by simp only [Function.update_self]; rfl⟩
      · refine (h s.other).other_end [] ?_ rfl ?_ ?_ ?_ ?_
        · exact Function.update_of_ne s.other_ne _ _
        · exact (List.append_nil _).symm
        · exact (List.append_nil _).symm
        · exact fun _ => by simp only [Function.update_self]; rfl
        · exact fun _ => ⟨s,by simp only [Function.update_self]; rfl⟩
  · exact h

theorem Faithful.check_eq {s : Side} (h : Faithful who x s) (hs : (x.check s).returned = true) :
    x.check s = (who s).outcome (who s.other) := (Check.stands_iff_of_returned hs).mp h.stands

theorem Faithful.trusts_of_passed {s : Side} (h : Faithful who x s) (hs : x.check s = .passed) :
    (who s).trusts (who s.other).name = true ∧ (who s.other).trusts (who s).name = true := by
  have hout := h.check_eq (by rw [hs]; rfl)
  rw [hs] at hout
  exact Identity.outcome_eq_passed.mp hout.symm

theorem faithful_run (hwho : ∀ s, (who s).nameBytes.length ≤ Identity.maxName)
    (own : Side → Settings) (maxBody : Nat) (events : List Event) :
    ∀ s, Faithful who ((start who own).run who own maxBody events) s := by
  refine List.foldlRecOn (motive := fun x => ∀ s, Faithful who x s) events _ (faithful_start hwho)
    fun x h e _ => ?_
  cases e with
  | advance s seen room => exact faithful_advance hwho h s seen room
  | send s bs => exact faithful_send h s bs
  | hangUp s => exact faithful_hangUp h s
  | leave s => exact faithful_leave h s

/-- The end `s` fails before it says anything, and the other one waits for it or has failed too. -/
structure Mute (s : Side) (x : Introduction) : Prop where
  failed : ∃ e, x.check s = .failed e
  silent : (x.pipe s).buffer = []
  other : (x.check s.other).Unanswered

section Mute

variable {s : Side}

theorem Mute.start (hs : Identity.maxName < (who s).nameBytes.length) : Mute s (start who own) := by
  have hcheck : (Introduction.start who own).check s =
      .failed (.connectFailed (.identityTooLong (who s).nameBytes.length)) := by
    simp only [Introduction.start,Opening.start,if_pos hs,Check.first]
  refine ⟨⟨_,hcheck⟩,rfl,?_⟩
  simp only [Introduction.start,Opening.start]
  split <;> trivial

section

variable (h : Mute s x)

include h

theorem Mute.advance (t : Side) (seen room : Nat) :
    Mute s (x.advance who own maxBody t seen room) := by
  rcases advance_cases x t seen room with heq | ⟨o,p,out,inn,ho,hstep,heq⟩
  · rw [heq]
    exact h
  · obtain ⟨e,he⟩ := h.failed
    obtain rfl : t = s.other := by
      cases t <;> cases s <;> first | rfl | (rw [he] at ho; cases ho)
    rw [heq]
    have hother := h.other
    rw [ho] at hother
    have hsilent : ((x.pipe s.other.other).front seen).buffer = [] := by
      rw [s.other_other,Pipe.front,h.silent,List.take_nil]
    obtain ⟨hun,hinn⟩ := Opening.step_unanswered hother hsilent hstep
    have hcheck := stepped_check_other x s.other seen p out inn
    have hpipe := stepped_pipe_other x s.other seen p out inn
    rw [s.other_other] at hcheck hpipe
    refine ⟨⟨e,hcheck.trans he⟩,?_,?_⟩
    · rw [hpipe,Pipe.after,hinn,h.silent,List.drop_nil,List.append_nil]
    · rw [stepped_check]
      exact hun

theorem Mute.unanswered : ∀ t, (x.check t).Unanswered := by
  refine Side.forall_of s ?_ h.other
  obtain ⟨e,he⟩ := h.failed
  rw [he]
  trivial

theorem Mute.not_passed (t : Side) : x.check t ≠ .passed := by
  intro ht
  have hun := h.unanswered t
  rw [ht] at hun
  exact hun

theorem Mute.send (t : Side) (bs : Bytes) : Mute s (x.send t bs) := by
  unfold Introduction.send
  rw [if_neg fun ht => h.not_passed t ht.1]
  exact h

theorem Mute.hangUp (t : Side) : Mute s (x.hangUp t) := by
  unfold Introduction.hangUp
  split
  · exact { h with }
  · exact h

theorem Mute.leave (t : Side) : Mute s (x.leave who own t) := by
  unfold Introduction.leave
  split
  · rename_i ho
    have hun := h.unanswered t
    rw [ho] at hun
    exact hun.elim
  · exact h

end

theorem mute_run (hs : Identity.maxName < (who s).nameBytes.length) (own : Side → Settings)
    (maxBody : Nat) (events : List Event) :
    Mute s ((start who own).run who own maxBody events) := by
  refine List.foldlRecOn events _ (.start hs) fun x h e _ => ?_
  cases e with
  | advance t seen room => exact h.advance t seen room
  | send t bs => exact h.send t bs
  | hangUp t => exact h.hangUp t
  | leave t => exact h.leave t

end Mute

/-- Two ends check each other over pipes that may have any room and deliver in any pieces. If both
names are short enough, an end that is done has passed the check when both trust each other, and has
otherwise failed for lack of trust; it does not matter who rejects whom, nor whether one that
rejects the other lets go of the pipes at once. If a name is too long neither end passes. So it
never happens that one end passes and the other fails. An end that has passed has read what the
other one said for the check, and left in the pipe all that was sent behind it. -/
theorem both_or_neither (who : Side → Identity) (own : Side → Settings) (maxBody : Nat)
    (events : List Event) :
    let x := (start who own).run who own maxBody events
    ((∀ s, (who s).nameBytes.length ≤ Identity.maxName) → ∀ s, (x.check s).returned = true →
      ((∀ t, (who t).trusts (who t.other).name = true) → x.check s = .passed) ∧
      ((∃ t, (who t).trusts (who t.other).name = false) →
        x.check s = .failed (.authenticationFailed
          (if (who s).trusts (who s.other).name then .rejected (who s.other).name (who s).name
          else .untrusted (who s.other).name)))) ∧
    ((∃ s, Identity.maxName < (who s).nameBytes.length) → ∀ s, x.check s ≠ .passed) ∧
    (∀ s, x.check s = .passed → (x.check s.other).returned = true → x.check s.other = .passed) ∧
    ∀ s, x.check s = .passed → x.sent s.other =
      (who s.other).hello ++ (who s.other).verdict (who s).name :: (x.pipe s.other).buffer := by
  intro x
  by_cases hlong : ∃ s, Identity.maxName < (who s).nameBytes.length
  · obtain ⟨s,hs⟩ := hlong
    have hnot : ∀ t, x.check t ≠ .passed := (mute_run hs own maxBody events).not_passed
    exact ⟨fun hwho => absurd (hwho s) (Nat.not_le.mpr hs),fun _ => hnot,
      fun t ht => absurd ht (hnot t),fun t ht => absurd ht (hnot t)⟩
  · have hwho : ∀ s, (who s).nameBytes.length ≤ Identity.maxName := by simpa using hlong
    have h : ∀ s, Faithful who x s := faithful_run hwho own maxBody events
    refine ⟨fun _ s hs => ⟨fun htrust => ?_,?_⟩,fun hx => absurd hx hlong,fun s hs hret => ?_,
      fun s hs => ?_⟩
    · rw [(h s).check_eq hs,Identity.outcome_eq_passed]
      have hother := htrust s.other
      rw [s.other_other] at hother
      exact ⟨htrust s,hother⟩
    · rintro ⟨t,ht⟩
      rw [(h s).check_eq hs]
      apply Identity.outcome_of_not_trusted
      revert t
      refine Side.forall_of s .inl fun ht => .inr ?_
      rw [s.other_other] at ht
      exact ht
    · rw [(h s.other).check_eq hret,s.other_other,Identity.outcome_eq_passed]
      exact ((h s).trusts_of_passed hs).symm
    · have hflows := (h s).flows
      rw [hs] at hflows
      rw [← hflows,Identity.greeting,List.append_assoc]
      rfl

/-- A server leaves as soon as it has rejected a client, and the client cannot even send its
verdict. If it trusts the client, both pass, and what the client sends at once waits in the pipe. A
client whose name is too long gets nowhere. -/
theorem both_or_neither_visits :
    let parts (client : Identity) (trusted : String) : Side → Identity := fun s =>
      if s = .near then client else ⟨"server", fun peer => peer == trusted⟩
    let client : Identity := ⟨"client", fun _ => true⟩
    let visit (who : Side → Identity) (events : List Event) : Introduction :=
      (start who fun _ => {}).run who (fun _ => {}) 99 events
    let meet : List Event := [.advance .near 0 3, .advance .far 0 99, .advance .near 0 99,
      .advance .far 5 0, .advance .far 9 0, .advance .far 9 0, .advance .far 0 1]
    let reply : List Event := [.advance .near 9 0, .advance .near 9 0, .advance .near 9 0,
      .advance .near 0 9, .advance .near 9 0]
    let spurned := visit (parts client "admin") (meet ++ [.leave .far] ++ reply)
    let welcome :=
      visit (parts client "client") (meet ++ reply ++ [.send .near [7], .advance .far 9 0])
    let stranger : Identity := ⟨String.ofList (List.replicate 1025 'x'), fun _ => true⟩
    let unheard :=
      visit (parts stranger "client") [.advance .far 9 9, .hangUp .near, .advance .far 9 9]
    ((∀ s, (parts client "admin" s).nameBytes.length ≤ Identity.maxName) ∧
      (∀ s, (spurned.check s).returned = true) ∧
      spurned.check .near = .failed (.authenticationFailed (.rejected "server" "client")) ∧
      spurned.check .far = .failed (.authenticationFailed (.untrusted "client"))) ∧
    ((∀ s, welcome.check s = .passed) ∧ (welcome.pipe .near).buffer = [7] ∧
      welcome.sent .near = client.hello ++ Identity.accepted :: [7]) ∧
    Identity.maxName < stranger.nameBytes.length ∧ (∀ s, (unheard.check s).returned = true) ∧
      ∀ s, unheard.check s ≠ .passed := by
  intro parts client visit meet reply spurned welcome stranger unheard
  have hshort : ∀ s, (parts client "admin" s).nameBytes.length ≤ Identity.maxName := by
    intro s
    cases s <;> decide +kernel
  have hspurned : ∀ s, (spurned.check s).returned = true := by
    intro s
    cases s <;> decide +kernel
  have hlong : Identity.maxName < stranger.nameBytes.length := by decide +kernel
  obtain ⟨hreject,-⟩ := both_or_neither (parts client "admin") (fun _ => {}) 99
    (meet ++ [.leave .far] ++ reply)
  obtain ⟨-,-,hboth,hread⟩ := both_or_neither (parts client "client") (fun _ => {}) 99
    (meet ++ reply ++ [.send .near [7], .advance .far 9 0])
  have hfar : welcome.check .far = .passed := by decide +kernel
  have hrest : (welcome.pipe .near).buffer = [7] := by decide +kernel
  refine ⟨⟨hshort,hspurned,?_,?_⟩,⟨?_,hrest,?_⟩,hlong,?_,?_⟩
  · exact (hreject hshort .near (hspurned .near)).2 ⟨.far,by decide +kernel⟩
  · exact (hreject hshort .far (hspurned .far)).2 ⟨.far,by decide +kernel⟩
  · exact Side.forall_of .far hfar (hboth .far hfar (by decide +kernel))
  · exact (hread .far hfar).trans (congrArg (client.hello ++ Identity.accepted :: ·) hrest)
  · intro s
    cases s <;> decide +kernel
  · exact (both_or_neither (parts stranger "client") (fun _ => {}) 99 _).2.1 ⟨.near,hlong⟩

end Introduction

end Multiplex
