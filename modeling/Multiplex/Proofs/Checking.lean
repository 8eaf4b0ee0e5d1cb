import Multiplex.Proofs.Greeting
import Multiplex.Proofs.Text

/-!
The check of identities at one end, read against what the peer says: as long as the peer says what
it is to say, the check comes out as the trust of both ends has it.
-/

namespace Multiplex

inductive Check
  | pending (o : Opening)
  | passed
  | failed (e : Failure)
  deriving DecidableEq

namespace Check

/-- What a step of the opening means for the check: it has passed once the settings are next. -/
def of : Opening.Progress → Check
  | .next (.settings _) | .next (.peerSettings _) | .established .. => .passed
  | .next o => .pending o
  | .failed e => .failed e

def first : Except Failure Opening → Check
  | .ok o => .pending o
  | .error e => .failed e

def returned : Check → Bool
  | .pending _ => false
  | .passed | .failed _ => true

end Check

namespace Identity

variable {i j : Identity}

def greeting (i j : Identity) : Bytes := i.hello ++ [i.verdict j.name]

/-- How the check of `j` by `i` comes out. A peer that is not trusted is the first thing that
counts. -/
def outcome (i j : Identity) : Check :=
  if !i.trusts j.name then .failed (.authenticationFailed (.untrusted j.name))
  else if !j.trusts i.name then .failed (.authenticationFailed (.rejected j.name i.name))
  else .passed

theorem returned_outcome (i j : Identity) : (i.outcome j).returned = true := by
  unfold outcome
  split
  · rfl
  · split <;> rfl

theorem outcome_eq_passed :
    i.outcome j = .passed ↔ i.trusts j.name = true ∧ j.trusts i.name = true := by
  unfold outcome
  cases i.trusts j.name <;> cases j.trusts i.name <;> simp

theorem outcome_of_not_trusted (h : i.trusts j.name = false ∨ j.trusts i.name = false) :
    i.outcome j = .failed (.authenticationFailed
      (if i.trusts j.name then .rejected j.name i.name else .untrusted j.name)) := by
  unfold outcome
  cases hi : i.trusts j.name with
  | false => rfl
  | true =>
    have hj : j.trusts i.name = false := h.resolve_left (by simp [hi])
    simp [hj]

theorem length_hello (i : Identity) : i.hello.length = 6 + i.nameBytes.length := by
  simp only [hello,List.length_append,Bytes.length_ofWord,magic,List.length_cons,List.length_nil]
  omega

theorem lossy_nameBytes (i : Identity) : Text.lossy i.nameBytes = i.name :=
  Text.lossy_ofString i.name

end Identity

namespace Opening

def told (j : Identity) : Opening → Bytes
  | .hello _ => []
  | .magic got => got
  | .nameSize got => Identity.magic ++ got
  | .name _ got => Identity.magic ++ (Bytes.ofWord 2 j.nameBytes.length ++ got)
  | .verdict _ | .answer .. | .settings _ | .peerSettings _ => j.hello

def untold (i j : Identity) : Opening → Bytes
  | .hello rest => rest ++ [i.verdict j.name]
  | .magic _ | .nameSize _ | .name .. | .verdict _ | .answer _ (some _) => [i.verdict j.name]
  | .answer _ none | .settings _ | .peerSettings _ => []

/-- Whether an end to which `j` speaks can have come so far and no further. -/
def Hears (j : Identity) : Opening → Prop
  | .hello rest => rest ≠ []
  | .magic got => got.length ≤ 4
  | .nameSize got => got.length ≤ 2
  | .name size got => size = j.nameBytes.length ∧ got.length ≤ size
  | .verdict who | .answer who _ => who = j.name
  | .settings _ | .peerSettings _ => False

theorem length_told {j : Identity} {o : Opening} (h : o.Hears j) :
    (o.told j).length ≤ j.hello.length := by
  rw [j.length_hello]
  match o with
  | .hello _ => exact Nat.zero_le _
  | .magic got => exact (show got.length ≤ 4 from h).trans (by omega)
  | .nameSize got =>
    have hl : got.length ≤ 2 := h
    simp only [told,List.length_append,Identity.magic,List.length_cons,List.length_nil]
    omega
  | .name size got =>
    obtain ⟨rfl,hl⟩ := h
    simp only [told,List.length_append,Bytes.length_ofWord,Identity.magic,List.length_cons,
      List.length_nil]
    omega
  | .verdict _ => exact j.length_hello.le
  | .answer _ _ => exact j.length_hello.le

end Opening

namespace Check

variable (i j : Identity)

/-- Where the check of `j` by `i` stands, when `i` has written `sent`. -/
def Stands (sent : Bytes) (c : Check) : Prop :=
  match c with
  | .pending o => o.Hears j ∧ sent ++ o.untold i j = i.greeting j
  | .passed | .failed _ => c = i.outcome j

/-- What `i` leaves unread of the bytes that `j` has sent. -/
def Leaves (unread sent : Bytes) : Check → Prop
  | .pending o => o.told j ++ unread = sent
  | .passed => j.greeting i ++ unread = sent
  | .failed _ => True

/-- Whether nothing was said to the end yet. -/
def Unanswered : Check → Prop
  | .pending (.hello _) | .pending (.magic []) | .failed _ => True
  | _ => False

variable {i j} {c : Check} {sent unread : Bytes}

theorem stands_iff_of_returned (hc : c.returned = true) : c.Stands i j sent ↔ c = i.outcome j := by
  cases c with
  | pending o => cases hc
  | passed | failed => rfl

theorem Leaves.append (h : c.Leaves i j unread sent) (more : Bytes) :
    c.Leaves i j (unread ++ more) (sent ++ more) := by
  cases c with
  | pending | passed => exact (List.append_assoc _ _ _).symm.trans (congrArg (· ++ more) h)
  | failed e => trivial

end Check

namespace Opening

section Step

variable {i j : Identity} {own : Settings} {maxBody : Nat} {o o' : Opening}
  {out out' inn inn' : Pipe} {p : Progress} {sent more rest : Bytes} {fault : Option PipeFault}
  {who : String}

/-- What a step of the check of `j` by `i` leads to. -/
structure Turns (i j : Identity) (o : Opening) (sent : Bytes) (out out' inn inn' : Pipe)
    (c : Check) :
    Prop where
  writes : ∃ new, out'.buffer = out.buffer ++ new ∧ c.Stands i j (sent ++ new)
  reads : c.Leaves i j inn'.buffer (o.told j ++ inn.buffer)
  /-- The verdict could not be sent. -/
  mutes : ∀ o', c = .pending o' → o'.Muted → out.closed = true ∧ o.untold i j ≠ []
  /-- An end that is done has heard everything. -/
  ends : c.returned = true → j.greeting i <+: o.told j ++ inn.buffer ∧ (o.Muted ∨ o.untold i j = [])

theorem Turns.read (hh : o'.Hears j) (hm : ¬o'.Muted) (hu : o'.untold i j = o.untold i j)
    (hsent : sent ++ o.untold i j = i.greeting j)
    (hbuf : o'.told j ++ inn'.buffer = o.told j ++ inn.buffer) :
    o.Turns i j sent out out inn inn' (.pending o') where
  writes := ⟨[],by rw [List.append_nil],hh,by rw [List.append_nil,hu,hsent]⟩
  reads := hbuf
  mutes o'' heq hmuted := by
    cases heq
    exact absurd hmuted hm
  ends h := by cases h

theorem Turns.write {new : Bytes} (hh : o'.Hears j) (hm : ¬o'.Muted)
    (hout : out'.buffer = out.buffer ++ new) (hu : new ++ o'.untold i j = o.untold i j)
    (hsent : sent ++ o.untold i j = i.greeting j) (htold : o'.told j = o.told j) :
    o.Turns i j sent out out' inn inn (.pending o') where
  writes := ⟨new,hout,hh,by rw [List.append_assoc,hu,hsent]⟩
  reads := congrArg (· ++ inn.buffer) htold
  mutes o'' heq hmuted := by
    cases heq
    exact absurd hmuted hm
  ends h := by cases h

/-- An end that reads the verdict of the other one. Whether it has sent its own makes no difference
if it is rejected anyway. -/
theorem of_settle (h : fault.isSome → j.trusts i.name = false) :
    Check.of (settle i own j.name fault (some (j.verdict i.name))) = i.outcome j := by
  unfold settle Identity.outcome Identity.verdict
  cases i.trusts j.name with
  | false => rfl
  | true =>
    cases hj : j.trusts i.name with
    | false => rfl
    | true =>
      cases fault with
      | none => rfl
      | some f => exact absurd (h rfl) (by simp [hj])

theorem step_turns_verdict (hh : who = j.name)
    (hsent : sent ++ (Opening.verdict who).untold i j = i.greeting j)
    (h : (Opening.verdict who).step (.identity i) own maxBody out inn = some (p, out', inn')) :
    (Opening.verdict who).Turns i j sent out out' inn inn' (Check.of p) := by
  obtain ⟨⟨p,out'⟩,hw,heq⟩ := Option.map_eq_some_iff.mp h
  cases heq
  subst hh
  obtain ⟨new,left,hbuf,-,hsplit,⟨rfl,rfl,hc⟩ | ⟨rfl,hne,hlen⟩ | ⟨rfl,rfl⟩⟩ := writing_spec hw
  · refine ⟨⟨[],by rw [List.append_nil],rfl,?_⟩,rfl,fun _ _ _ => ⟨hc,?_⟩,fun hx => by cases hx⟩
    · rw [List.append_nil]
      exact hsent
    · exact List.cons_ne_nil _ _
  · exact absurd (List.eq_nil_of_length_eq_zero (Nat.le_zero.mp hlen)) hne
  · exact .write rfl (by simp [Muted]) hbuf hsplit hsent rfl

theorem step_turns_answer (hh : who = j.name) (hm : fault.isSome → j.trusts i.name = false)
    (hinn : inn.ended = false) (hin : j.hello ++ (inn.buffer ++ more) = j.greeting i ++ rest)
    (h : (Opening.answer who fault).step (.identity i) own maxBody out inn = some (p, out', inn')) :
    (Opening.answer who fault).Turns i j sent out out' inn inn' (Check.of p) := by
  subst hh
  simp only [step] at h
  split at h
  · rename_i v vs inn' hg
    cases h
    obtain ⟨-,⟨⟨⟩,-⟩ | ⟨_,he,hlen,⟨⟨⟩,-⟩ | ⟨⟨⟩⟩⟩⟩ := Pipe.gather_spec hg
    obtain rfl := List.eq_nil_of_length_eq_zero (by simpa using hlen)
    rw [List.nil_append] at he
    simp only [Identity.greeting,← he,List.append_assoc,List.append_cancel_left_eq] at hin
    obtain rfl := (List.cons.inj hin).1
    have hheard : j.greeting i ++ inn'.buffer = j.hello ++ inn.buffer := by
      rw [← he,Identity.greeting,List.append_assoc]
    have hret := i.returned_outcome j
    rw [of_settle hm]
    refine ⟨⟨[],by rw [List.append_nil],(Check.stands_iff_of_returned hret).mpr rfl⟩,?_,?_,?_⟩
    · cases hout : i.outcome j with
      | pending o =>
        rw [hout] at hret
        cases hret
      | passed => exact hheard
      | failed e => trivial
    · intro o' ho' _
      rw [ho'] at hret
      cases hret
    · refine fun _ => ⟨⟨inn'.buffer,hheard⟩,?_⟩
      cases fault with
      | none => exact .inr rfl
      | some f => exact .inl rfl
  · rename_i hg
    obtain ⟨-,⟨-,he⟩ | ⟨_,-,-,⟨⟨⟩,-⟩ | ⟨⟨⟩⟩⟩⟩ := Pipe.gather_spec hg
    cases hinn.symm.trans he
  · cases h

theorem step_turns (hj : j.nameBytes.length ≤ Identity.maxName) (hh : o.Hears j)
    (hsent : sent ++ o.untold i j = i.greeting j) (hm : o.Muted → j.trusts i.name = false)
    (hout : 1 < (o.untold i j).length → out.closed = false) (hinn : inn.ended = false)
    (hin : o.told j ++ (inn.buffer ++ more) = j.greeting i ++ rest)
    (h : o.step (.identity i) own maxBody out inn = some (p, out', inn')) :
    o.Turns i j sent out out' inn inn' (Check.of p) := by
  have hgone {q : Progress} : ¬(q = handshakeFailed .ended ∧ inn.ended = true) := by simp [hinn]
  match o with
  | .hello left =>
    obtain ⟨⟨p,out'⟩,hw,heq⟩ := Option.map_eq_some_iff.mp h
    cases heq
    have hlen : 1 < ((Opening.hello left).untold i j).length := by
      have := List.length_pos_iff.mpr hh
      simp only [untold,List.length_append,List.length_singleton]
      omega
    obtain ⟨new,left',hbuf,-,hsplit,⟨-,-,hc⟩ | ⟨rfl,hne,-⟩ | ⟨rfl,rfl⟩⟩ := writing_spec hw
    · cases (hout hlen).symm.trans hc
    · exact .write hne id hbuf (by rw [untold,untold,← List.append_assoc,hsplit]) hsent rfl
    · rw [List.append_nil] at hsplit
      exact .write (Nat.zero_le _) id hbuf (by rw [untold,untold,hsplit]) hsent rfl
  | .magic got =>
    obtain ⟨⟨p,inn'⟩,hr,heq⟩ := Option.map_eq_some_iff.mp h
    cases heq
    simp only [told,Identity.greeting,Identity.hello,List.append_assoc] at hin
    obtain ⟨bs,hbuf,-,⟨rfl,hl⟩ | ⟨rfl,rfl⟩⟩ := (reading_piece hh rfl hin hr).resolve_left hgone
    · exact .read hl id rfl hsent hbuf
    · have hnext : readMagic Identity.magic = .next (.nameSize []) := if_pos rfl
      rw [hnext]
      exact .read (Nat.zero_le _) id rfl hsent (by simpa [told] using hbuf)
  | .nameSize got =>
    obtain ⟨⟨p,inn'⟩,hr,heq⟩ := Option.map_eq_some_iff.mp h
    cases heq
    simp only [told,Identity.greeting,Identity.hello,List.append_assoc,
      List.append_cancel_left_eq] at hin
    obtain ⟨bs,hbuf,-,⟨rfl,hl⟩ | ⟨rfl,rfl⟩⟩ :=
      (reading_piece hh (Bytes.length_ofWord 2 _) hin hr).resolve_left hgone
    · exact .read hl id rfl hsent (by simpa [told] using hbuf)
    · have hnext : readNameSize (Bytes.ofWord 2 j.nameBytes.length) =
          .next (.name j.nameBytes.length []) := by
        simp only [readNameSize,Identity.toWord_size hj,if_neg (Nat.not_lt.mpr hj)]
      rw [hnext]
      exact .read ⟨rfl,Nat.zero_le _⟩ id rfl hsent (by simpa [told] using hbuf)
  | .name size got =>
    obtain ⟨⟨p,inn'⟩,hr,heq⟩ := Option.map_eq_some_iff.mp h
    cases heq
    obtain ⟨rfl,hl⟩ := hh
    simp only [told,Identity.greeting,Identity.hello,List.append_assoc,
      List.append_cancel_left_eq] at hin
    obtain ⟨bs,hbuf,-,⟨rfl,hl⟩ | ⟨rfl,rfl⟩⟩ := (reading_piece hl rfl hin hr).resolve_left hgone
    · exact .read ⟨rfl,hl⟩ id rfl hsent (by simpa [told] using hbuf)
    · exact .read j.lossy_nameBytes id rfl hsent (by simpa [told,Identity.hello] using hbuf)
  | .verdict who => exact step_turns_verdict hh hsent h
  | .answer who fault => exact step_turns_answer hh hm hinn hin h

/-- An end to which nothing is said does not get ahead. -/
theorem step_unanswered (ho : (Check.pending o).Unanswered) (he : inn.buffer = [])
    (h : o.step (.identity i) own maxBody out inn = some (p, out', inn')) :
    (Check.of p).Unanswered ∧ inn'.buffer = [] := by
  match o with
  | .hello left =>
    obtain ⟨⟨p,out'⟩,hw,heq⟩ := Option.map_eq_some_iff.mp h
    cases heq
    obtain ⟨_,_,-,-,-,⟨rfl,-⟩ | ⟨rfl,-⟩ | ⟨rfl,-⟩⟩ := writing_spec hw <;> exact ⟨trivial,he⟩
  | .magic [] =>
    simp only [step,reading,Pipe.gather,he] at h
    cases hc : inn.closed with
    | true =>
      rw [hc] at h
      cases h
      exact ⟨trivial,he⟩
    | false =>
      rw [hc] at h
      cases h

end Step

end Opening

end Multiplex
