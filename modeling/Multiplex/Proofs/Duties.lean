import Multiplex.Proofs.Standing

/-!
What a call on a stream comes to, however often it has to wait: a duty that is done in parts,
between which the stream may only age.
-/

namespace Multiplex

variable {i : Nat} {w : Wait}

namespace Standing

variable {part more : Bytes}

def tell (a : Standing) (data : Bytes) : Standing := { a with sent := a.sent ++ data }

def finish (a : Standing) : Standing := { a with finished := true }

def take (a : Standing) (got : Bytes) : Standing := { a with read := a.read ++ got }

def see (a : Standing) : Standing := { a with ended := true }

def readable (a : Standing) : Bool := a.direction = .bidirectional || a.remote

def abandon (a : Standing) : Standing := { a with abandoned := a.abandoned || a.readable }

@[simp]
theorem tell_nil (a : Standing) : a.tell [] = a := by
  simp [tell]

@[simp]
theorem take_nil (a : Standing) : a.take [] = a := by
  simp [take]

theorem ages_tell_nil (a : Standing) : (a.tell []).Ages a := by
  rw [tell_nil]
  exact .same

theorem ages_take_nil (a : Standing) : (a.take []).Ages a := by
  rw [take_nil]
  exact .same

variable {a a' a'' : Standing} {got : Bytes}

theorem Ages.tell (h : a.Ages a') (data : Bytes) : (a.tell data).Ages (a'.tell data) := by
  cases h with
  | same => exact .same
  | lost => exact .lost

theorem Ages.finish (h : a.Ages a') : a.finish.Ages a'.finish := by
  cases h with
  | same => exact .same
  | lost => exact .lost

theorem Ages.take (h : a.Ages a') (got : Bytes) : (a.take got).Ages (a'.take got) := by
  cases h with
  | same => exact .same
  | lost => exact .lost

theorem Ages.see (h : a.Ages a') : a.see.Ages a'.see := by
  cases h with
  | same => exact .same
  | lost => exact .lost

theorem Ages.abandon (h : a.Ages a') : a.abandon.Ages a'.abandon := by
  cases h with
  | same => exact .same
  | lost => exact .lost

theorem Ages.tell_trans (h : (a.tell part).Ages a') (h' : (a'.tell more).Ages a'') :
    (a.tell (part ++ more)).Ages a'' := by
  have hall := (h.tell more).trans h'
  simpa [Standing.tell] using hall

theorem Ages.take_trans (h : (a.take got).Ages a') (h' : (a'.take more).Ages a'') :
    (a.take (got ++ more)).Ages a'' := by
  have hall := (h.take more).trans h'
  simpa [Standing.take] using hall

theorem Ages.take_see_trans (h : (a.take got).Ages a') (h' : (a'.take more).see.Ages a'') :
    (a.take (got ++ more)).see.Ages a'' := by
  have hall := (h.take more).see.trans h'
  simpa [Standing.take] using hall

theorem Ages.present (h : a.Ages a') (hg : a'.gone = false) : a.gone = false := by
  cases h with
  | same => exact hg
  | lost => cases hg

theorem Ages.gone (h : a.Ages a') (hg : a.gone = true) : a'.gone = true := by
  cases h with
  | same => exact hg
  | lost => rfl

theorem Ages.mute_append (h : (a.tell part).Ages a') (mute : a.gone = true → part = [])
    (mute' : a'.gone = true → more = []) (hg : a.gone = true) : part ++ more = [] := by
  rw [mute hg,mute' (h.gone hg),List.append_nil]

theorem Ages.readable (h : a.Ages a') : a'.readable = a.readable := by
  cases h <;> rfl

theorem Ages.abandoned (h : a.Ages a') : a'.abandoned = a.abandoned := by
  cases h <;> rfl

theorem Ages.ended (h : a.Ages a') : a'.ended = a.ended := by
  cases h <;> rfl

theorem Ages.spent_append (h : (a.take got).Ages a') (spent : a.ended = true → got = [])
    (spent' : a'.ended = true → more = []) (he : a.ended = true) : got ++ more = [] := by
  rw [spent he,spent' (h.ended.trans he),List.append_nil]

end Standing

inductive Duty
  | send (data : Bytes)
  | finish
  | flush
  /-- Reading `missing` more bytes, after those in `done`, last byte first. -/
  | gather (missing : Nat) (done : Bytes)
  /-- Reading to the end, after what is in `done`, last byte first. -/
  | drain (done : Bytes)
  | chunk (max : Nat)

namespace Duty

/-- Whether a duty can have to wait. One to read nothing is done at once. -/
def Waits : Duty → Prop
  | .gather missing _ => 0 < missing
  | .send _ | .finish | .flush | .drain _ | .chunk _ => True

/-- What a duty can give in the end, and how the stream stands then. -/
inductive Gives (a a' : Standing) : Duty → Except Failure Answer → Prop
  | sent {data : Bytes} {x : Answer} (present : a.gone = false)
      (h : (a.tell data).Ages a') : Gives a a' (.send data) (.ok x)
  | unsent {part rest : Bytes} {e : Failure} (mute : a.gone = true → part = [])
      (h : (a.tell part).Ages a') : Gives a a' (.send (part ++ rest)) (.error e)
  | finished {x : Answer} (h : a.finish.Ages a') : Gives a a' .finish (.ok x)
  | unfinished {e : Failure} (h : a.Ages a') : Gives a a' .finish (.error e)
  | flushed {r : Except Failure Answer} (h : a.Ages a') : Gives a a' .flush r
  | gathered {missing : Nat} {done got : Bytes} (whole : got.length = missing)
      (h : (a.take got).Ages a') :
      Gives a a' (.gather missing done) (.ok (.bytes (done.reverse ++ got)))
  | short {missing : Nat} {done got : Bytes} (less : got.length < missing)
      (h : (a.take got).see.Ages a') : Gives a a' (.gather missing done) (.error .unexpectedEnd)
  | ungathered {missing : Nat} {done got : Bytes} {e : Failure}
      (lost : a.readable = true → a.abandoned = false → a'.gone = true)
      (h : (a.take got).Ages a') : Gives a a' (.gather missing done) (.error e)
  | drained {done got : Bytes} (present : a.gone = false)
      (spent : a.ended = true → got = []) (h : (a.take got).see.Ages a') :
      Gives a a' (.drain done) (.ok (.bytes (done.reverse ++ got)))
  | undrained {done got : Bytes} {e : Failure}
      (lost : a.readable = true → a.abandoned = false → a'.gone = true)
      (spent : a.ended = true → got = []) (h : (a.take got).Ages a') :
      Gives a a' (.drain done) (.error e)
  | some {max : Nat} {bs : Bytes} (present : a.gone = false)
      (unspent : a.ended = false) (h : (a.take bs).Ages a') :
      Gives a a' (.chunk max) (.ok (.chunk (.some bs)))
  | none {max : Nat} (present : a.gone = false) (h : a.see.Ages a') :
      Gives a a' (.chunk max) (.ok (.chunk .none))
  | failed {max : Nat} {e : Failure}
      (lost : a.readable = true → a.abandoned = false → a'.gone = true) (h : a.Ages a') :
      Gives a a' (.chunk max) (.error e)

/-- What can be left of a duty, and how the stream stands then. -/
inductive Becomes (a a' : Standing) : Duty → Duty → Prop
  | send {part rest : Bytes} (mute : a.gone = true → part = [])
      (h : (a.tell part).Ages a') : Becomes a a' (.send (part ++ rest)) (.send rest)
  | finish (h : a.Ages a') : Becomes a a' .finish .finish
  | flush (h : a.Ages a') : Becomes a a' .flush .flush
  | gather {missing : Nat} {done got : Bytes} (h : (a.take got).Ages a') :
      Becomes a a' (.gather (got.length + missing) done) (.gather missing (got.reverse ++ done))
  | drain {done got : Bytes} (spent : a.ended = true → got = [])
      (h : (a.take got).Ages a') : Becomes a a' (.drain done) (.drain (got.reverse ++ done))
  | chunk {max : Nat} (h : a.Ages a') : Becomes a a' (.chunk max) (.chunk max)

variable {t t' t'' : Duty} {a a' a'' : Standing} {r : Except Failure Answer}

theorem becomes_of_ages (t : Duty) (h : a.Ages a') : t.Becomes a a' t := by
  cases t with
  | send data => exact Becomes.send (fun _ => rfl) (a.ages_tell_nil.trans h)
  | finish => exact .finish h
  | flush => exact .flush h
  | gather missing done =>
    have hgather : Becomes a a' (.gather ([].length + missing) done) _ :=
      .gather (a.ages_take_nil.trans h)
    simpa using hgather
  | drain done =>
    have hdrain : Becomes a a' (.drain done) _ := .drain (fun _ => rfl) (a.ages_take_nil.trans h)
    simpa using hdrain
  | chunk max => exact .chunk h

theorem becomes_self (t : Duty) (a : Standing) : t.Becomes a a t := becomes_of_ages t .same

theorem Becomes.trans (h : t.Becomes a a' t') (h' : t'.Becomes a' a'' t'') :
    t.Becomes a a'' t'' := by
  cases h with
  | @send part rest mute h =>
    generalize ht : Duty.send rest = t' at h'
    cases h' with
    | @send part' rest' mute' h' =>
      cases ht
      rw [← List.append_assoc]
      exact .send (h.mute_append mute mute') (h.tell_trans h')
    | finish | flush | gather | drain | chunk => cases ht
  | finish h =>
    cases h' with
    | finish h' => exact .finish (h.trans h')
  | flush h =>
    cases h' with
    | flush h' => exact .flush (h.trans h')
  | @gather missing done got h =>
    generalize ht : Duty.gather missing (got.reverse ++ done) = t' at h'
    cases h' with
    | @gather missing' done' got' h' =>
      cases ht
      have hgather : Becomes a a'' (.gather ((got ++ got').length + missing') done) _ :=
        .gather (h.take_trans h')
      simpa [Nat.add_assoc] using hgather
    | send | finish | flush | drain | chunk => cases ht
  | @drain done got spent h =>
    generalize ht : Duty.drain (got.reverse ++ done) = t' at h'
    cases h' with
    | @drain done' got' spent' h' =>
      cases ht
      have hdrain : Becomes a a'' (.drain done) _ :=
        .drain (h.spent_append spent spent') (h.take_trans h')
      simpa using hdrain
    | send | finish | flush | gather | chunk => cases ht
  | chunk h =>
    cases h' with
    | chunk h' => exact .chunk (h.trans h')

theorem Becomes.gives (h : t.Becomes a a' t') (h' : t'.Gives a' a'' r) : t.Gives a a'' r := by
  cases h with
  | @send part rest mute h =>
    generalize ht : Duty.send rest = t' at h'
    cases h' with
    | @sent data x present h' =>
      cases ht
      exact .sent (h.present present) (h.tell_trans h')
    | @unsent part' rest' e mute' h' =>
      cases ht
      rw [← List.append_assoc]
      exact .unsent (h.mute_append mute mute') (h.tell_trans h')
    | _ => cases ht
  | finish h =>
    cases h' with
    | finished h' => exact .finished (h.finish.trans h')
    | unfinished h' => exact .unfinished (h.trans h')
  | flush h =>
    cases h' with
    | flushed h' => exact .flushed (h.trans h')
  | @gather missing done got h =>
    generalize ht : Duty.gather missing (got.reverse ++ done) = t' at h'
    cases h' with
    | @gathered _ _ got' whole h' =>
      cases ht
      have hlen : (got ++ got').length = got.length + missing := by simp [whole]
      have hgather : Gives a a'' (.gather (got.length + missing) done) _ :=
        .gathered hlen (h.take_trans h')
      simpa using hgather
    | @short _ _ got' less h' =>
      cases ht
      refine .short ?_ (h.take_see_trans h')
      rw [List.length_append]
      omega
    | @ungathered _ _ got' e lost h' =>
      cases ht
      exact .ungathered (fun hr ha => lost (h.readable.trans hr) (h.abandoned.trans ha))
        (h.take_trans h')
    | _ => cases ht
  | @drain done got spent h =>
    generalize ht : Duty.drain (got.reverse ++ done) = t' at h'
    cases h' with
    | @drained _ got' present spent' h' =>
      cases ht
      have hdrain : Gives a a'' (.drain done) _ :=
        .drained (h.present present) (h.spent_append spent spent') (h.take_see_trans h')
      simpa using hdrain
    | @undrained _ got' e lost spent' h' =>
      cases ht
      refine .undrained (fun hr ha => lost ?_ ?_) (h.spent_append spent spent') (h.take_trans h')
      · exact h.readable.trans hr
      · exact h.abandoned.trans ha
    | _ => cases ht
  | chunk h =>
    cases h' with
    | some present unspent h' =>
      exact .some (h.present present) (h.ended.symm.trans unspent) ((h.take _).trans h')
    | none present h' => exact .none (h.present present) (h.see.trans h')
    | failed lost h' =>
      exact .failed (fun hr ha => lost (h.readable.trans hr) (h.abandoned.trans ha)) (h.trans h')

end Duty

def StreamCall.duty? : StreamCall → Option Duty
  | .write data => some (.send data)
  | .finish => some .finish
  | .flush => some .flush
  | .read (.exact missing []) => some (.gather missing [])
  | .read (.toEnd done) => some (.drain done)
  | .read (.chunk max) => some (.chunk max)
  | .writeFinish _ | .read (.upTo _) | .read (.exact _ (_ :: _)) => none

/-- What is waited for so as to go on with a duty on the stream at place `i`. -/
inductive Wait.Awaits (i : Nat) : Wait → Duty → Prop
  | slot {data : Bytes} (some : data ≠ []) : Awaits i (.slot i data false) (.send data)
  | credit {data : Bytes} (some : data ≠ []) : Awaits i (.credit i data false) (.send data)
  | finish : Awaits i (.slot i [] true) .finish
  | flush : Awaits i (.written i) .flush
  | gather {missing : Nat} (some : 0 < missing) (done : Bytes) :
      Awaits i (.data i (.exact missing done)) (.gather missing done)
  | drain (done : Bytes) : Awaits i (.data i (.toEnd done)) (.drain done)
  | chunk (max : Nat) : Awaits i (.data i (.chunk max)) (.chunk max)

variable {t : Duty}

theorem Wait.Awaits.meant (h : w.Awaits i t) : w.Meant := by
  intro j data fin hw
  cases h with
  | slot some =>
    cases hw
    exact .inl some
  | finish =>
    cases hw
    exact .inr rfl
  | credit | flush | gather | drain | chunk => cases hw

theorem Wait.Awaits.stream? (h : w.Awaits i t) : w.stream? = some i := by
  cases h <;> rfl

theorem Wait.Awaits.waits (h : w.Awaits i t) : t.Waits := by
  cases h with
  | gather some => exact some
  | slot | credit | finish | flush | drain | chunk => trivial

namespace Connection

def Stands (c : Connection) (i : Nat) (a : Standing) : Prop :=
  ∃ s, c.streams[i]? = some s ∧ s.standing = a ∧ s.Tidy

section Stands

variable {j : Nat} {c c' : Connection} {a : Standing}

theorem Stands.leaves (h : c.Stands i a) (hl : Leaves i c c') :
    ∃ a', a.Ages a' ∧ c'.Stands i a' := by
  obtain ⟨s,hi,rfl,ht⟩ := h
  obtain ⟨s',hi',ha⟩ := hl.kept hi
  exact ⟨s'.standing,ha.standing,s',hi',rfl,ha.tidy ht⟩

theorem Stands.modify (h : c.Stands i a) {f : Stream → Stream} {a' : Standing}
    (hf : ∀ s : Stream, s.standing = a → (f s).standing = a')
    (ht : ∀ s : Stream, s.Tidy → (f s).Tidy) : (c.modify i f).Stands i a' := by
  obtain ⟨s,hi,hs,htidy⟩ := h
  exact ⟨f s,getElem?_modify_self hi f,hf s hs,ht s htidy⟩

theorem Stands.of_streams (h : c.Stands i a) (hs : c'.streams = c.streams) : c'.Stands i a := by
  obtain ⟨s,hi,ha⟩ := h
  exact ⟨s,hs ▸ hi,ha⟩

end Stands

/-- What a look at the data of a stream shows, and how the stream stands then. -/
inductive Looks (limit : Option Nat) (a : Standing) : Look (Option Bytes) → Standing → Prop
  | nothing : Looks limit a none a
  | error {e : Failure} (lost : a.readable = true → a.abandoned = false → a.gone = true) :
      Looks limit a (some (.error e)) a
  | chunk {bs : Bytes} (present : a.gone = false) (unspent : a.ended = false)
      (fits : ∀ max, limit = some max → bs.length ≤ max) :
      Looks limit a (some (.ok (some bs))) (a.take bs)
  | ended (present : a.gone = false) : Looks limit a (some (.ok none)) a.see

theorem takeChunk_le {s s₁ : Stream} {max : Nat} {chunk : Bytes}
    (h : s.takeChunk (some max) = some (chunk, s₁)) : chunk.length ≤ max := by
  unfold Stream.takeChunk at h
  split at h
  · cases h
  · rename_i hlimit
    cases hlimit
  · rename_i hlimit
    cases hlimit
    split at h
    · rename_i hle
      cases h
      exact hle
    · cases h
      exact List.length_take_le max _

section Looks

variable {j : Nat} {c c' : Connection} {a : Standing} {id : StreamId} {data : Bytes}

section

variable (h : c.Stands i a)

include h

theorem Stands.looks {limit : Option Nat} {l : Look (Option Bytes)}
    (hl : c.lookData i limit = (l, c')) : ∃ a', Looks limit a l a' ∧ c'.Stands i a' := by
  obtain ⟨s,hi,rfl,htidy⟩ := h
  have hlook := c.dataLook i limit
  rw [hl] at hlook
  have hpresent (hr : s.readError = none) : s.standing.gone = false := by
    simp [Stream.standing,(Stream.readError_eq_none_iff.mp hr).2.1]
  cases hlook with
  | missing hi' => cases hi.symm.trans hi'
  | failed hi' hr =>
    cases hi.symm.trans hi'
    refine ⟨_,.error fun hside hab => ?_,s,hi,rfl,htidy⟩
    cases hterm : s.termination with
    | none =>
      have hnone := Stream.readError_eq_none_iff.mpr ⟨hside,hterm,hab⟩
      cases hr.symm.trans hnone
    | some e => simp [Stream.standing,hterm]
  | nothing => exact ⟨_,.nothing,s,hi,rfl,htidy⟩
  | ended hi' hr ht hf =>
    cases hi.symm.trans hi'
    have hin : s.inbound = [] := Stream.takeChunk_eq_none_iff.mp ht
    exact ⟨_,.ended (hpresent hr),_,getElem?_modify_self hi _,rfl,fun _ => ⟨hf,hin⟩⟩
  | @chunk _ s₁ chunk hi' hr ht =>
    cases hi.symm.trans hi'
    -- a chunk is there, so the end was not seen
    have hunspent : s.ledger.ended = false := by
      by_contra he
      have hin := (htidy (by simpa using he)).2
      cases (Stream.takeChunk_eq_none_iff.mpr hin).symm.trans ht
    have hstand : ((s₁.noteTaken chunk).consumed chunk.length).2.standing =
        s.standing.take chunk := by
      rw [Stream.consumed_standing]
      obtain ⟨inbound,rfl,-⟩ := Stream.takeChunk_spec ht
      simp only [Stream.standing,Stream.noteTaken,Standing.take,Ledger.bytes_cons]
      rfl
    unfold without
    generalize (s₁.noteTaken chunk).consumed chunk.length = r at hstand
    refine ⟨_,.chunk (hpresent hr) hunspent fun max hm => ?_,r.2,?_,hstand,fun he => ?_⟩
    · subst hm
      exact takeChunk_le ht
    · rw [enqueueControl?_eq]
      exact getElem?_modify_self hi _
    · have hended : r.2.ledger.ended = s.ledger.ended := congrArg Standing.ended hstand
      rw [hended,hunspent] at he
      cases he

theorem Stands.lookCredit {wanted : UInt64} {l : Look Nat} (hl : c.lookCredit i wanted = (l, c')) :
    c'.Stands i a := by
  by_cases hok : ∃ n, l = some (.ok n)
  · obtain ⟨n,rfl⟩ := hok
    obtain ⟨s,-,-,-,-,-,rfl⟩ := lookCredit_eq_ok hl
    exact h.modify (fun _ hs => hs) fun _ ht => ht
  · rw [lookCredit_of_not_ok hl fun n hn => hok ⟨n,hn⟩]
    exact h

theorem Stands.lookSlot {l : Look StreamId} (hl : c.lookSlot i = (l, c')) : c'.Stands i a := by
  rcases lookSlot_cases hl with ⟨rfl,-⟩ | ⟨_,s,id,-,-,-,hi,-,hi',-,-,-⟩
  · exact h
  · obtain ⟨t,ht,hs⟩ := h
    cases hi.symm.trans ht
    exact ⟨_,hi',hs⟩

theorem Stands.present (hw : c.writeError i = none) : a.gone = false ∧ a.finished = false := by
  obtain ⟨s,hi,rfl,-⟩ := h
  simp only [writeError,hi] at hw
  obtain ⟨-,hd,he,hr,hf⟩ := Stream.writeError_eq_none_iff.mp hw
  have hterm := Stream.termination_eq_none_iff.mpr ⟨hd,he,hr⟩
  exact ⟨by simp [Stream.standing,hterm],hf⟩

theorem Stands.queue {fin : Bool} (hq : c.queue i id data fin = .ok c') :
    a.gone = false ∧ a.finished = false ∧
      ∃ a', ({ a.tell data with finished := fin } : Standing).Ages a' ∧ c'.Stands i a' := by
  have hpresent := h.present
  obtain ⟨s,hi,rfl,htidy⟩ := h
  simp only [writeError,hi] at hpresent
  have hqueue := c.queues i id data fin
  rw [hq] at hqueue
  cases hqueue with
  | queued hi' hw hp =>
    cases hi.symm.trans hi'
    refine ⟨(hpresent hw).1,(hpresent hw).2,?_⟩
    have hput : (c.modify i fun s => { s with finQueued := fin }.noteSent data).Stands i
        { s.standing.tell data with finished := fin } := by
      refine ⟨_,getElem?_modify_self hi _,?_,htidy⟩
      simp only [Stream.standing,Stream.noteSent,Standing.tell,Ledger.bytes_cons]
      rfl
    have hqueued :
        (c.enqueued i id data fin).Stands i { s.standing.tell data with finished := fin } :=
      (hput.modify (f := fun s => { s with unwritten := s.unwritten + 1 }) (fun _ hs => hs)
        fun _ ht => ht).of_streams rfl
    split
    · exact hqueued.leaves (Runs.maybeRelease .refl trivial).leaves
    · exact ⟨_,.same,hqueued⟩

theorem Stands.queue_data (hq : c.queue i id data false = .ok c') :
    a.gone = false ∧ ∃ a', (a.tell data).Ages a' ∧ c'.Stands i a' := by
  obtain ⟨present,hf,a',hages,hs⟩ := h.queue hq
  have heq : ({ a.tell data with finished := false } : Standing) = a.tell data := by
    rw [← hf]
    rfl
  exact ⟨present,a',heq ▸ hages,hs⟩

theorem Stands.queue_end (hq : c.queue i id [] true = .ok c') :
    ∃ a', a.finish.Ages a' ∧ c'.Stands i a' := by
  obtain ⟨-,-,a',hages,hs⟩ := h.queue hq
  rw [Standing.tell_nil] at hages
  exact ⟨a',hages,hs⟩

end

end Looks

end Connection

namespace Duty

variable {data : Bytes}

open Connection

/-- What working on a duty leads to: a result, or a wait for the rest. -/
inductive Comes (i : Nat) (t : Duty) (a : Standing) : Outcome × Connection → Prop
  | done {r : Except Failure Answer} {a' : Standing} {c : Connection} (h : t.Gives a a' r)
      (hs : c.Stands i a') : Comes i t a (.done r, c)
  | wait {w : Wait} {t' : Duty} {a' : Standing} {c : Connection} (hw : w.Awaits i t')
      (h : t.Becomes a a' t') (hs : c.Stands i a') : Comes i t a (.wait w, c)

theorem Comes.after {i : Nat} {t t' : Duty} {a a' : Standing} {r : Outcome × Connection}
    (h : t'.Comes i a' r) (hb : t.Becomes a a' t') : t.Comes i a r := by
  cases h with
  | done h hs => exact .done (hb.gives h) hs
  | wait hw h hs => exact .wait hw (hb.trans h) hs

theorem gives_unsent (a : Standing) (data : Bytes) (e : Failure) :
    Gives a a (.send data) (.error e) :=
  .unsent (fun _ => rfl) a.ages_tell_nil

variable {c : Connection} {t : Duty} {a : Standing}

theorem comes_readOn {goal : ReadGoal} (hw : (Wait.data i goal).Awaits i t) (hs : c.Stands i a)
    (fuel : Nat) : t.Comes i a (c.readOn false i fuel goal) := by
  induction fuel generalizing c goal t a with
  | zero => exact .wait hw (becomes_self t a) hs
  | succ fuel ih =>
    unfold readOn
    cases hl : c.lookData i goal.limit with
    | mk l c₁ =>
      obtain ⟨a',hlook,hs'⟩ := hs.looks hl
      cases hw with
      | @gather missing some done =>
        cases hlook with
        | nothing => exact .wait (.gather some done) (becomes_self _ a) hs'
        | error lost => exact .done (.ungathered lost a.ages_take_nil) hs'
        | @chunk bs present unspent fits =>
          have hfits : bs.length ≤ missing := fits missing rfl
          dsimp only
          split
          · rename_i hle
            have hall : Gives a (a.take bs) (.gather missing done)
                (.ok (.bytes (done.reverse ++ bs))) := .gathered (by omega) .same
            rw [List.reverseAux_eq,List.reverse_append,List.reverse_reverse]
            exact .done hall hs'
          · rename_i hlt
            have hpart : Becomes a (a.take bs) (.gather (bs.length + (missing - bs.length)) done)
                (.gather (missing - bs.length) (bs.reverse ++ done)) := .gather .same
            rw [Nat.add_sub_cancel' hfits] at hpart
            rw [List.reverseAux_eq]
            exact (ih (.gather (Nat.sub_pos_of_lt (Nat.not_le.mp hlt)) _) hs').after hpart
        | ended present =>
          have hnone : ([] : Bytes).length < missing := some
          exact .done (.short hnone a.ages_take_nil.see) hs'
      | drain done =>
        cases hlook with
        | nothing => exact .wait (.drain done) (becomes_self _ a) hs'
        | error lost => exact .done (.undrained lost (fun _ => rfl) a.ages_take_nil) hs'
        | @chunk bs present unspent fits =>
          have hspent (he : a.ended = true) : bs = [] := by
            cases unspent.symm.trans he
          have hpart : Becomes a (a.take bs) (.drain done) (.drain (bs.reverse ++ done)) :=
            .drain hspent .same
          dsimp only
          rw [List.reverseAux_eq]
          exact (ih (.drain _) hs').after hpart
        | ended present =>
          have hall : Gives a a.see (.drain done) (.ok (.bytes (done.reverse ++ []))) :=
            .drained present (fun _ => rfl) a.ages_take_nil.see
          rw [List.append_nil] at hall
          exact .done hall hs'
      | chunk max =>
        cases hlook with
        | nothing => exact .wait (.chunk max) (becomes_self _ a) hs'
        | error lost => exact .done (.failed lost .same) hs'
        | chunk present unspent fits => exact .done (.some present unspent .same) hs'
        | ended present => exact .done (.none present .same) hs'

theorem comes_send (hs : c.Stands i a) (hd : data ≠ []) (id : StreamId) (fuel : Nat)
    (hf : data.length ≤ fuel) : (Duty.send data).Comes i a (c.send false i id false fuel data) := by
  induction fuel generalizing c a data with
  | zero => exact absurd (List.length_eq_zero_iff.mp (by omega)) hd
  | succ fuel ih =>
    cases data with
    | nil => exact absurd rfl hd
    | cons b bs =>
      unfold Connection.send
      split
      · rename_i c₁ hl
        exact .wait (.credit hd) (becomes_self _ a) (hs.lookCredit hl)
      · rename_i e c₁ hl
        exact .done (gives_unsent a _ e) (hs.lookCredit hl)
      · rename_i n c₁ hl
        have hs₁ := hs.lookCredit hl
        obtain ⟨_,_,_,hpos,_⟩ := lookCredit_eq_ok hl
        cases hq : c₁.queue i id ((b :: bs).take n) false with
        | error e => exact .done (gives_unsent a _ e) hs₁
        | ok c₂ =>
          obtain ⟨present,a',hages,hs₂⟩ := hs₁.queue_data hq
          have hpart : Becomes a a' (.send ((b :: bs).take n ++ (b :: bs).drop n))
              (.send ((b :: bs).drop n)) := .send (by simp [present]) hages
          rw [List.take_append_drop] at hpart
          by_cases hrest : (b :: bs).drop n = []
          · have hall : (b :: bs).take n = b :: bs := by
              have := List.take_append_drop n (b :: bs)
              rwa [hrest,List.append_nil] at this
            rw [hall] at hages
            have hdone : c₂.send false i id false fuel ((b :: bs).drop n) = c₂.succeed .unit := by
              rw [hrest]
              cases fuel <;> rfl
            simp only [hdone]
            exact .done (.sent present hages) hs₂
          · have hlen : ((b :: bs).drop n).length ≤ fuel := by
              rw [List.length_drop]
              omega
            exact (ih hs₂ hrest hlen).after hpart

theorem comes_startAndSend (hs : c.Stands i a) (hd : data ≠ []) :
    (Duty.send data).Comes i a (c.startAndSend false i data false) := by
  unfold Connection.startAndSend
  split
  · rename_i hl
    exact .wait (.slot hd) (becomes_self _ a) (hs.lookSlot hl)
  · rename_i hl
    exact .done (gives_unsent a data _) (hs.lookSlot hl)
  · rename_i id c₁ hl
    have hsend : c₁.sendOn false i id data false = c₁.send false i id false data.length data := by
      cases data <;> rfl
    rw [hsend]
    exact comes_send (hs.lookSlot hl) hd id _ le_rfl

theorem comes_startAndEnd (hs : c.Stands i a) :
    Duty.finish.Comes i a (c.startAndSend false i [] true) := by
  unfold Connection.startAndSend
  split
  · rename_i hl
    exact .wait .finish (becomes_self _ a) (hs.lookSlot hl)
  · rename_i hl
    exact .done (.unfinished .same) (hs.lookSlot hl)
  · rename_i id c₁ hl
    have hs₁ := hs.lookSlot hl
    change Duty.finish.Comes i a (c₁.queueEnd i id)
    unfold Connection.queueEnd
    cases hq : c₁.queue i id [] true with
    | error e => exact .done (.unfinished .same) hs₁
    | ok c₂ =>
      obtain ⟨a',hages,hs₂⟩ := hs₁.queue_end hq
      exact .done (.finished hages) hs₂

theorem comes_flush (hs : c.Stands i a) : Duty.flush.Comes i a (c.resume false (.written i)) := by
  unfold Connection.resume
  dsimp only
  split
  · exact .wait .flush (becomes_self _ a) hs
  · exact .done (.flushed .same) hs
  · exact .done (.flushed .same) hs

theorem comes_resume {w : Wait} (hw : w.Awaits i t) (hs : c.Stands i a) :
    t.Comes i a (c.resume false w) := by
  cases hw with
  | slot some => exact comes_startAndSend hs some
  | @credit data some =>
    unfold Connection.resume
    dsimp only
    split
    · exact comes_send hs some _ _ le_rfl
    · exact .done (gives_unsent a data _) hs
  | finish => exact comes_startAndEnd hs
  | flush => exact comes_flush hs
  | gather some done => exact comes_readOn (.gather some done) hs _
  | drain done => exact comes_readOn (.drain done) hs _
  | chunk max => exact comes_readOn (.chunk max) hs _

theorem comes_call {k : StreamCall} (hk : k.duty? = some t) (hs : c.Stands i a) :
    t.Comes i a (c.call false (k.on i)) := by
  cases k with
  | write data =>
    cases hk
    have hpresent := hs.present
    unfold StreamCall.on Connection.call
    dsimp only
    split
    · exact .done (gives_unsent a _ _) hs
    · rename_i hw
      exact .done (.sent (hpresent hw).1 a.ages_tell_nil) hs
    · exact comes_startAndSend hs (List.cons_ne_nil _ _)
  | writeFinish data => cases hk
  | finish =>
    cases hk
    unfold StreamCall.on Connection.call
    dsimp only
    split
    · rename_i hf
      obtain ⟨s,hi,rfl,htidy⟩ := hs
      have heq : s.standing.finish = s.standing := by
        simp only [finQueued,hi] at hf
        simp [Standing.finish,Stream.standing,hf]
      exact .done (.finished (heq.symm ▸ .same)) ⟨s,hi,rfl,htidy⟩
    · split
      · exact .done (.unfinished .same) hs
      · exact comes_startAndEnd hs
  | flush =>
    cases hk
    exact comes_flush hs
  | read goal =>
    cases goal with
    | upTo max => cases hk
    | chunk max =>
      cases hk
      exact comes_readOn (.chunk max) hs _
    | toEnd done =>
      cases hk
      exact comes_readOn (.drain done) hs _
    | exact missing done =>
      cases done with
      | cons b bs => cases hk
      | nil =>
        cases hk
        cases missing with
        | zero => exact .done (.gathered rfl a.ages_take_nil) hs
        | succ missing => exact comes_readOn (.gather missing.succ_pos []) hs _

end Duty

namespace Connection

variable {j : Nat} {c c' : Connection}

section Others

theorem ne_of_place {here : Option Nat} (hj : here ≠ some j) (place : here = some i) : i ≠ j := by
  rintro rfl
  exact hj place

theorem leaves_resume (cancelled : Bool) {w : Wait} (hw : w.stream? ≠ some j) :
    Leaves j c (c.resume cancelled w).2 :=
  (Runs.resume (ne_of_place hw) (ne_of_place hw) (fun _ => trivial) trivial cancelled).leaves

theorem leaves_call (cancelled : Bool) {k : Call} (hk : k.stream? ≠ some j) :
    Leaves j c (c.call cancelled k).2 :=
  (Runs.call (ne_of_place hk) (ne_of_place hk) (fun _ => trivial) trivial trivial cancelled).leaves

theorem Stands.abandonReads {a : Standing} (h : c.Stands i a) :
    (c.abandonReads i).Stands i a.abandon := by
  obtain ⟨s,hi,rfl,htidy⟩ := h
  have hstand : s.standing.abandon =
      { s.standing with abandoned := s.abandoned || s.hasReadSide } :=
    rfl
  unfold Connection.abandonReads
  simp only [hi]
  rw [hstand]
  split
  · rename_i hside
    have hkept : (s.abandoned || s.hasReadSide) = s.abandoned := by
      cases hh : s.hasReadSide <;> cases ha : s.abandoned <;> simp_all
    rw [hkept]
    exact ⟨s,hi,rfl,htidy⟩
  · rename_i hside
    have hread : (s.abandoned || s.hasReadSide) = true := by
      cases hh : s.hasReadSide <;> simp_all
    have hkept := Stream.consumed_standing { s with abandoned := true, inbound := [] }
      s.inbound.flatten.length
    have hagrees := Stream.consumed_agrees { s with abandoned := true, inbound := [] }
      s.inbound.flatten.length
    have hin := Stream.consumed_inbound { s with abandoned := true, inbound := [] }
      s.inbound.flatten.length
    rw [hread]
    refine ⟨_,getElem?_modify_self (s := s) ?_ _,hkept,fun he => ⟨?_,hin⟩⟩
    · rw [enqueueControl?_eq]
      exact hi
    · have hended := congrArg Standing.ended hkept
      exact hagrees.finReceived.trans (htidy (hended.symm.trans he)).1

end Others

end Connection

end Multiplex
