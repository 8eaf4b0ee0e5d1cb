import Multiplex.Proofs.Edits

/-!
The frames of a stream that have yet to be written: what a stream counts, and a flush goes by, is
how many of them the writer holds or has yet to take.
-/

namespace Multiplex

/-- The frames among `qs` that the stream at place `i` sent. -/
def sentBy (i : Nat) (qs : List Outgoing) : List Outgoing := qs.filter fun q => q.owner = some i

def spell (qs : List Outgoing) : Bytes := qs.flatMap (·.frame.encode)

section SentBy

variable {i j : Nat} (ps qs : List Outgoing)

@[simp]
theorem sentBy_append : sentBy i (ps ++ qs) = sentBy i ps ++ sentBy i qs := List.filter_append ..

@[simp]
theorem sentBy_control (fs : List Frame) : sentBy i (fs.map (⟨·, none⟩)) = [] := by
  simp [sentBy]

theorem sentBy_without : sentBy i (qs.filter fun q => q.owner ≠ some j) =
    if j = i then [] else sentBy i qs := by
  rw [sentBy,List.filter_filter]
  split
  · rename_i h
    subst h
    simp
  · rename_i h
    refine List.filter_congr fun q _ => ?_
    by_cases hq : q.owner = some i
    · simp [hq,Ne.symm h]
    · simp [hq]

theorem length_without : qs.length - (qs.filter fun q => q.owner ≠ some i).length =
    (sentBy i qs).length := by
  have hsplit := List.length_eq_length_filter_add (l := qs) fun q => q.owner = some i
  rw [hsplit]
  simp [sentBy]

theorem count_owners : (qs.filterMap (·.owner)).count i = (sentBy i qs).length := by
  induction qs with
  | nil => rfl
  | cons q qs ih =>
    cases ho : q.owner with
    | none => simpa [sentBy,ho] using ih
    | some j =>
      by_cases hj : j = i
      · subst hj
        simpa [sentBy,ho] using ih
      · simpa [sentBy,ho,hj] using ih

end SentBy

namespace Connection

variable {here : Option Nat} {i : Nat} {s : Stream} {c c' : Connection}

def written (c : Connection) : List Outgoing := c.journal.taken.reverse.take c.metrics.framesSent

def held (c : Connection) : List Outgoing := c.journal.taken.reverse.drop c.metrics.framesSent

/-- The frames of a stream that were queued and not taken back. -/
def kept (c : Connection) (i : Nat) : List Outgoing :=
  sentBy i (c.journal.taken.reverse ++ c.dataQueue)

/-- Those of them that have yet to be written. -/
def left (c : Connection) (i : Nat) : List Outgoing := sentBy i (c.held ++ c.dataQueue)

theorem kept_eq (c : Connection) (i : Nat) : c.kept i = sentBy i c.written ++ c.left i := by
  have hsplit : c.journal.taken.reverse = c.written ++ c.held := (List.take_append_drop ..).symm
  rw [kept,left,hsplit,List.append_assoc,sentBy_append]

theorem Entries.written (h : Entries here c c') : c'.written = c.written := by
  rw [Connection.written,h.taken.1,h.taken.2,Connection.written]

theorem Entries.held (h : Entries here c c') : c'.held = c.held := by
  rw [Connection.held,h.taken.1,h.taken.2,Connection.held]

/-- What streams count is what the writer has yet to write for them. Frames are taken back from
streams only that were reset or have failed. -/
structure Pending (c : Connection) : Prop where
  placed : ∀ q ∈ c.journal.data, ∀ i, q.owner = some i → i < c.streams.length
  bound : c.metrics.framesSent ≤ c.journal.taken.length
  order : ∀ i, c.kept i <+: (c.queuedFor i).reverse
  whole : ∀ {i : Nat} {s : Stream}, c.streams[i]? = some s → s.error = none → s.resetCode = none →
    c.kept i = (c.queuedFor i).reverse
  count : ∀ {i : Nat} {s : Stream}, c.streams[i]? = some s → c.phase ≠ .closed ∨ s.error = none →
    s.unwritten = (c.left i).length
  covered : ∀ {i : Nat} {s : Stream}, c.streams[i]? = some s →
    (sentBy i c.dataQueue).length ≤ s.unwritten
  short : c.metrics.shortfall = 0

theorem noteOff_eq {n : Nat} (h : n ≤ c.unwritten i) : c.noteOff i n = c := by
  rw [noteOff,Nat.sub_eq_zero_of_le h]
  rfl

namespace Pending

theorem fresh (role : Role) (options : Options) (codes : CodeSpace) :
    (Connection.fresh role options codes).Pending :=
  ⟨by simp [Connection.fresh],le_rfl,fun _ => List.prefix_rfl,by simp [Connection.fresh],
    by simp [Connection.fresh],by simp [Connection.fresh],rfl⟩

section

variable (h : c.Pending)

include h

theorem vacant (hi : c.streams.length ≤ i) :
    c.queuedFor i = [] ∧ c.kept i = [] ∧ c.left i = [] := by
  have hqueued : c.queuedFor i = [] := by
    refine List.filter_eq_nil_iff.mpr fun q hq ho => ?_
    have hlt := h.placed q hq i (by simpa using ho)
    omega
  have hkept : c.kept i = [] := by
    have horder := h.order i
    rw [hqueued] at horder
    exact List.prefix_nil.mp horder
  rw [kept_eq] at hkept
  exact ⟨hqueued,by rw [kept_eq,hkept],(List.append_eq_nil_iff.mp hkept).2⟩

theorem sentBy_vacant (hi : c.streams.length ≤ i) : sentBy i c.dataQueue = [] := by
  have hleft := (h.vacant hi).2.2
  rw [left,sentBy_append] at hleft
  exact (List.append_eq_nil_iff.mp hleft).2

/-- What is taken back from a stream was counted. -/
theorem covers (i : Nat) : (sentBy i c.dataQueue).length ≤ c.unwritten i := by
  unfold unwritten
  split
  · rename_i hi
    exact h.covered hi
  · rename_i hi
    rw [h.sentBy_vacant (List.getElem?_eq_none_iff.mp hi),List.length_nil]

theorem unwritten_eq (live : c.phase ≠ .closed) (i : Nat) : c.unwritten i = (c.left i).length := by
  unfold unwritten
  split
  · rename_i hi
    exact h.count hi (.inl live)
  · rename_i hi
    rw [(h.vacant (List.getElem?_eq_none_iff.mp hi)).2.2,List.length_nil]

theorem tended (aside : Aside c c') (grown : c.streams.length ≤ c'.streams.length)
    (tend : ∀ i s', c'.streams[i]? = some s' → (∃ s, c.streams[i]? = some s ∧
      s.Keeps (c.phase = .closed ∧ c.dataQueue = []) s') ∨
        c.streams.length ≤ i ∧ s'.unwritten = 0) : c'.Pending := by
  have hqueued (i : Nat) : c'.queuedFor i = c.queuedFor i := by
    rw [queuedFor,aside.queued,queuedFor]
  have hkept (i : Nat) : c'.kept i = c.kept i := by
    rw [kept,aside.taken,aside.dataQueue,kept]
  have hsent : c'.metrics.framesSent = c.metrics.framesSent := congrArg Prod.fst aside.written
  have hleft (i : Nat) : c'.left i = c.left i := by
    rw [left,held,aside.taken,hsent,aside.dataQueue,left,held]
  refine ⟨fun q hq i ho => ?_,?_,fun i => ?_,fun {i s'} hs he hr => ?_,fun {i s'} hs he => ?_,
    fun {i s'} hs => ?_,(congrArg Prod.snd aside.written).trans h.short⟩
  · rw [aside.queued] at hq
    exact (h.placed q hq i ho).trans_le grown
  · rw [aside.taken,hsent]
    exact h.bound
  · rw [hkept,hqueued]
    exact h.order i
  · rw [hkept,hqueued]
    obtain ⟨s,hi,hk⟩ | ⟨hi,-⟩ := tend i s' hs
    · exact h.whole hi (hk.error he) (hk.reset hr)
    · obtain ⟨hq,hk,-⟩ := h.vacant hi
      rw [hq,hk,List.reverse_nil]
  · rw [hleft]
    obtain ⟨s,hi,hk⟩ | ⟨hi,hzero⟩ := tend i s' hs
    · have hlive := he.imp_left (mt aside.closed)
      obtain hu | ⟨⟨closed,-⟩,hlost⟩ := hk.counted
      · exact hu.trans (h.count hi (hlive.imp_right hk.error))
      · rw [he.resolve_left fun hx => hx (aside.closed closed)] at hlost
        cases hlost
    · rw [(h.vacant hi).2.2,hzero,List.length_nil]
  · rw [aside.dataQueue]
    obtain ⟨s,hi,hk⟩ | ⟨hi,-⟩ := tend i s' hs
    · obtain hu | ⟨⟨-,empty⟩,-⟩ := hk.counted
      · rw [hu]
        exact h.covered hi
      · rw [empty]
        exact Nat.zero_le _
    · rw [h.sentBy_vacant hi]
      exact Nat.zero_le _

theorem say (f : Frame) : (c.append ⟨f, none⟩).Pending := by
  have hkept (i : Nat) : (c.append ⟨f, none⟩).kept i = c.kept i := by
    simp [kept,append,Journal.noteData,sentBy]
  have hqueued (i : Nat) : (c.append ⟨f, none⟩).queuedFor i = c.queuedFor i :=
    (Edit.say f).queuedFor i
  have hleft (i : Nat) : (c.append ⟨f, none⟩).left i = c.left i := by
    simp [left,held,append,Journal.noteData,sentBy]
  have hwaits (i : Nat) : sentBy i (c.append ⟨f, none⟩).dataQueue = sentBy i c.dataQueue := by
    simp [append,sentBy]
  refine ⟨fun q hq i ho => ?_,h.bound,fun i => ?_,fun {i s} hs he hr => ?_,fun {i s} hs he => ?_,
    fun {i s} hs => ?_,h.short⟩
  · rcases List.mem_cons.mp hq with rfl | hq
    · cases ho
    · exact h.placed q hq i ho
  · rw [hkept,hqueued]
    exact h.order i
  · rw [hkept,hqueued]
    exact h.whole hs he hr
  · rw [hleft]
    exact h.count hs he
  · rw [hwaits]
    exact h.covered hs

theorem purge (hreset : ∀ s, c.streams[i]? = some s → s.resetCode.isSome) :
    (c.purge i).Pending := by
  have hmetrics : (c.purge i).metrics = c.metrics := by
    simp only [Connection.purge,length_without,noteOff_eq (h.covers i),Connection.modify]
  have hwaits (j : Nat) :
      sentBy j (c.purge i).dataQueue = if i = j then [] else sentBy j c.dataQueue :=
    sentBy_without ..
  have hkept (j : Nat) : (c.purge i).kept j =
      sentBy j c.journal.taken.reverse ++ if i = j then [] else sentBy j c.dataQueue := by
    rw [kept,sentBy_append,hwaits]
    rfl
  have hleft (j : Nat) : (c.purge i).left j =
      sentBy j c.held ++ if i = j then [] else sentBy j c.dataQueue := by
    rw [left,sentBy_append,hwaits]
    rfl
  have hall (j : Nat) : c.kept j = sentBy j c.journal.taken.reverse ++ sentBy j c.dataQueue :=
    sentBy_append ..
  have hrest (j : Nat) : c.left j = sentBy j c.held ++ sentBy j c.dataQueue := sentBy_append ..
  have hother {j : Nat} (hj : j ≠ i) : (c.purge i).streams[j]? = c.streams[j]? := by
    simp [Connection.purge,noteOff,Connection.modify,Ne.symm hj]
  have hself {s : Stream} (hs : (c.purge i).streams[i]? = some s) : ∃ t, c.streams[i]? = some t ∧
      s = { t with unwritten := t.unwritten - (sentBy i c.dataQueue).length } := by
    cases hi : c.streams[i]? with
    | none => simp [Connection.purge,noteOff,Connection.modify,hi] at hs
    | some t =>
      refine ⟨t,rfl,?_⟩
      rw [← length_without]
      exact (Option.some.inj ((getElem?_modify_self (c := c.noteOff i _) hi _).symm.trans hs)).symm
  refine ⟨fun q hq j ho => ?_,h.bound,fun j => ?_,fun {j s} hs he hr => ?_,fun {j s} hs he => ?_,
    fun {j s} hs => ?_,by rw [hmetrics,h.short]⟩
  · have hlt := h.placed q hq j ho
    simpa [Connection.purge,noteOff,Connection.modify] using hlt
  · have horder := h.order j
    rw [hall] at horder
    rw [hkept]
    split
    · rw [List.append_nil]
      exact (List.prefix_append _ _).trans horder
    · exact horder
  · by_cases hj : j = i
    · subst hj
      obtain ⟨t,ht,rfl⟩ := hself hs
      have hx := hreset t ht
      rw [show t.resetCode = none from hr] at hx
      cases hx
    · rw [hkept,if_neg (Ne.symm hj),← hall]
      exact h.whole (hother hj ▸ hs) he hr
  · by_cases hj : j = i
    · subst hj
      obtain ⟨t,ht,rfl⟩ := hself hs
      have hcount := h.count ht he
      rw [hrest,List.length_append] at hcount
      rw [hleft,if_pos rfl,List.append_nil]
      exact Nat.sub_eq_of_eq_add hcount
    · rw [hleft,if_neg (Ne.symm hj),← hrest]
      exact h.count (hother hj ▸ hs) he
  · rw [hwaits]
    split
    · exact Nat.zero_le _
    · rename_i hj
      exact h.covered (hother (Ne.symm hj) ▸ hs)

theorem discard (closed : c.phase = .closed)
    (hfail : ∀ q ∈ c.dataQueue, ∀ i, q.owner = some i → c.Failed i) :
    ({ c with dataQueue := [] } : Connection).Pending := by
  -- a stream that has not failed has nothing in the queue
  have hnone {i : Nat} {s : Stream} (hi : c.streams[i]? = some s) (he : s.error = none) :
      sentBy i c.dataQueue = [] := by
    refine List.filter_eq_nil_iff.mpr fun q hq ho => ?_
    have hx := hfail q hq i (by simpa using ho) s hi
    rw [he] at hx
    cases hx
  have hall (i : Nat) : c.kept i = sentBy i c.journal.taken.reverse ++ sentBy i c.dataQueue :=
    sentBy_append ..
  have hkept (i : Nat) : ({ c with dataQueue := [] } : Connection).kept i =
      sentBy i c.journal.taken.reverse := by
    simp [kept]
  refine ⟨h.placed,h.bound,fun i => ?_,fun {i s} hs he hr => ?_,fun {i s} hs he => ?_,
    fun _ => Nat.zero_le _,h.short⟩
  · have horder := h.order i
    rw [hall] at horder
    rw [hkept]
    exact (List.prefix_append _ _).trans horder
  · have hwhole := h.whole hs he hr
    rw [hall,hnone hs he,List.append_nil] at hwhole
    rw [hkept]
    exact hwhole
  · have he := he.resolve_left fun hlive => hlive closed
    have hcount := h.count hs (.inr he)
    rw [left,sentBy_append,hnone hs he] at hcount
    rw [left,sentBy_append]
    exact hcount

theorem edit (he : Edit c c') : c'.Pending := by
  cases he with
  | rest aside streams =>
    refine h.tended aside (by rw [streams]) fun i s hs => .inl ⟨s,streams ▸ hs,?_⟩
    exact Stream.keeps_of_eq rfl rfl rfl
  | @tend i f hf =>
    refine h.tended ⟨rfl,rfl,rfl,rfl,id⟩ (by simp [Connection.modify]) fun j s' hs => .inl ?_
    by_cases hj : j = i
    · subst hj
      cases hx : c.streams[j]? with
      | none => simp [modify_of_none hx,hx] at hs
      | some s =>
        rw [getElem?_modify_self hx] at hs
        cases hs
        exact ⟨s,rfl,hf s hx⟩
    · refine ⟨s',?_,Stream.keeps_of_eq rfl rfl rfl⟩
      simpa [Connection.modify,Ne.symm hj] using hs
  | @add s hzero =>
    refine h.tended ⟨rfl,rfl,rfl,rfl,id⟩ (by simp) fun j s' hs => ?_
    rcases getElem?_concat hs with hs | ⟨hj,rfl⟩
    · exact .inl ⟨s',hs,Stream.keeps_of_eq rfl rfl rfl⟩
    · exact .inr ⟨hj.ge,hzero⟩
  | say f => exact h.say f
  | purge hreset => exact h.purge hreset
  | discard closed hfail => exact h.discard closed hfail

theorem queue (hi : c.streams[i]? = some s) (lasting : s.error = none)
    (unreset : s.resetCode = none) (f : Frame) : (c.enqueueData i f).Pending := by
  have hsent (j : Nat) : sentBy j [⟨f, some i⟩] = if i = j then [⟨f, some i⟩] else [] := by
    by_cases hj : i = j <;> simp [sentBy,hj]
  have hqueue : (c.enqueueData i f).dataQueue = c.dataQueue ++ [⟨f, some i⟩] := rfl
  have hkept (j : Nat) : (c.enqueueData i f).kept j =
      c.kept j ++ if i = j then [⟨f, some i⟩] else [] := by
    rw [kept,hqueue,← List.append_assoc,sentBy_append,hsent]
    rfl
  have hleft (j : Nat) : (c.enqueueData i f).left j =
      c.left j ++ if i = j then [⟨f, some i⟩] else [] := by
    rw [left,hqueue,← List.append_assoc,sentBy_append,hsent]
    rfl
  have hqueued (j : Nat) : ((c.enqueueData i f).queuedFor j).reverse =
      (c.queuedFor j).reverse ++ if i = j then [⟨f, some i⟩] else [] := by
    by_cases hj : i = j <;>
      simp [queuedFor,enqueueData,append,Journal.noteData,Connection.modify,hj]
  have hother {j : Nat} (hj : i ≠ j) : (c.enqueueData i f).streams[j]? = c.streams[j]? := by
    simp [enqueueData,append,Connection.modify,hj]
  have hself {t : Stream} (ht : (c.enqueueData i f).streams[i]? = some t) :
      t = { s with unwritten := s.unwritten + 1 } :=
    (Option.some.inj ((getElem?_modify_self hi _).symm.trans ht)).symm
  refine ⟨fun q hq j ho => ?_,h.bound,fun j => ?_,fun {j t} ht he hr => ?_,fun {j t} ht he => ?_,
    fun {j t} ht => ?_,h.short⟩
  · have hlt : j < c.streams.length := by
      rcases List.mem_cons.mp hq with rfl | hq
      · cases ho
        exact (List.getElem?_eq_some_iff.mp hi).1
      · exact h.placed q hq j ho
    simpa [enqueueData,append,Connection.modify] using hlt
  · rw [hkept,hqueued]
    by_cases hj : i = j
    · subst hj
      rw [h.whole hi lasting unreset]
    · rw [if_neg hj,List.append_nil,List.append_nil]
      exact h.order j
  · rw [hkept,hqueued]
    by_cases hj : i = j
    · subst hj
      rw [h.whole hi lasting unreset]
    · rw [h.whole (hother hj ▸ ht) he hr]
  · rw [hleft,List.length_append]
    by_cases hj : i = j
    · subst hj
      rw [hself ht,if_pos rfl,← h.count hi (.inr lasting)]
      rfl
    · rw [if_neg hj,h.count (hother hj ▸ ht) he]
      rfl
  · rw [hqueue,sentBy_append,hsent,List.length_append]
    by_cases hj : i = j
    · subst hj
      rw [hself ht,if_pos rfl]
      exact Nat.succ_le_succ (h.covered hi)
    · rw [if_neg hj]
      exact h.covered (hother hj ▸ ht)

theorem entry (he : Entry here c c') : c'.Pending := by
  cases he with
  | edit he => exact h.edit he
  | queue _ hi lasting unreset f => exact h.queue hi lasting unreset f

theorem entries (he : Entries here c c') : c'.Pending := by
  induction he with
  | refl => exact h
  | tail _ he ih => exact ih.entry he

theorem takeBatch {b : Batch} (hb : c.takeBatch = (some b, c')) :
    c'.Pending ∧ c'.written = c.written ∧ c'.held = c.held ++ b.frames ∧
      ∀ i, c'.queuedFor i = c.queuedFor i := by
  obtain ⟨n,hframes,rfl⟩ := takeBatch_spec hb
  have htaken : (c.journal.noteTaken b.frames).taken.reverse =
      c.journal.taken.reverse ++ b.frames := by
    simp [Journal.noteTaken,List.reverseAux_eq]
  have hbound : c.metrics.framesSent ≤ c.journal.taken.reverse.length := by
    rw [List.length_reverse]
    exact h.bound
  have hwaits (i : Nat) (rest : List Outgoing) :
      sentBy i (rest ++ b.frames ++ c.dataQueue.drop (n - c.controlQueue.length)) =
        sentBy i (rest ++ c.dataQueue) := by
    rw [List.append_assoc,sentBy_append,sentBy_append,hframes,sentBy_append,sentBy_control,
      List.nil_append,← sentBy_append,List.take_append_drop,← sentBy_append]
  generalize hc : ({ c with
    controlQueue := c.controlQueue.drop n
    dataQueue := c.dataQueue.drop (n - c.controlQueue.length)
    journal := c.journal.noteTaken b.frames } : Connection) = c'
  have hheld : c'.held = c.held ++ b.frames := by
    rw [← hc,held,htaken,List.drop_append_of_le_length hbound]
    rfl
  have hkept (i : Nat) : c'.kept i = c.kept i := by
    rw [← hc,kept,htaken,hwaits]
    rfl
  have hleft (i : Nat) : c'.left i = c.left i := by
    rw [left,hheld,← hc,hwaits]
    rfl
  have hqueued (i : Nat) : c'.queuedFor i = c.queuedFor i := by
    rw [← hc]
    rfl
  have hstreams : c'.streams = c.streams := by rw [← hc]
  refine ⟨⟨?_,?_,fun i => ?_,fun {i s} hs he hr => ?_,fun {i s} hs he => ?_,fun {i s} hs => ?_,?_⟩,
    ?_,hheld,hqueued⟩
  · rw [hstreams,← hc]
    exact h.placed
  · have hle := h.bound
    rw [← hc]
    simp only [Journal.noteTaken,List.reverseAux_eq,List.length_append]
    omega
  · rw [hkept,hqueued]
    exact h.order i
  · rw [hkept,hqueued]
    exact h.whole (hstreams ▸ hs) he hr
  · rw [hleft]
    rw [← hc] at he
    exact h.count (hstreams ▸ hs) he
  · rw [← hc]
    exact (((List.drop_sublist _ _).filter _).length_le).trans (h.covered (hstreams ▸ hs))
  · rw [← hc]
    exact h.short
  · rw [← hc,written,htaken,List.take_append_of_le_length hbound]
    rfl

end

end Pending

theorem Pending.flush (h : c.Pending) (hi : c.streams[i]? = some s) (cancelled : Bool) :
    (c.resume cancelled (.written i)).1 =
      match s.error, c.left i, s.resetCode with
      | some e, _, _ => .done (.error e)
      | none, [], _ => .done (.ok .unit)
      | none, _ :: _, some code => .done (.error (.streamAborted code))
      | none, _ :: _, none => (c.suspend cancelled (.written i)).1 := by
  unfold resume
  simp only [lookWritten,hi]
  cases he : s.error with
  | some e => rfl
  | none =>
    have hcount := h.count hi (.inr he)
    cases hleft : c.left i with
    | nil =>
      rw [hleft,List.length_nil] at hcount
      simp only [hcount,if_true]
      rfl
    | cons q qs =>
      rw [hleft,List.length_cons] at hcount
      rw [if_neg (by omega)]
      cases hr : s.resetCode <;> rfl

theorem Pending.flush_succeeds (h : c.Pending) (i : Nat) (cancelled : Bool) :
    (∃ a, (c.resume cancelled (.written i)).1 = .done (.ok a)) ↔
      ∃ s, c.streams[i]? = some s ∧ s.error = none ∧ c.left i = [] := by
  cases hi : c.streams[i]? with
  | none => simp [resume,lookWritten,hi,fail]
  | some s =>
    rw [h.flush hi]
    cases he : s.error with
    | some e => simp [he]
    | none =>
      cases hleft : c.left i with
      | nil => simp [he]
      | cons q qs => cases hr : s.resetCode <;> cases cancelled <;> simp [suspend]

theorem Pending.flush_discarded (h : c.Pending) (i : Nat) (cancelled : Bool)
    (hx : c.kept i ≠ (c.queuedFor i).reverse) :
    (∃ e, (c.resume cancelled (.written i)).1 = .done (.error e)) ∨
      ∃ s, c.streams[i]? = some s ∧ s.error = none ∧ s.resetCode.isSome ∧ c.left i = [] := by
  cases hi : c.streams[i]? with
  | none =>
    obtain ⟨hqueued,hkept,-⟩ := h.vacant (List.getElem?_eq_none_iff.mp hi)
    exact absurd (by rw [hkept,hqueued,List.reverse_nil]) hx
  | some s =>
    rw [h.flush hi]
    cases he : s.error with
    | some e => exact .inl ⟨e,rfl⟩
    | none =>
      cases hr : s.resetCode with
      | none => exact absurd (h.whole hi he hr) hx
      | some code =>
        cases hleft : c.left i with
        | nil => exact .inr ⟨s,rfl,he,by rw [hr]; rfl,rfl⟩
        | cons q qs => exact .inl ⟨_,rfl⟩

theorem unwritten_frameWritten (c : Connection) (j i : Nat) :
    (c.frameWritten j).unwritten i = c.unwritten i - if j = i then 1 else 0 := by
  simp only [unwritten,frameWritten,noteOff,Connection.modify,List.getElem?_modify]
  cases c.streams[i]? with
  | none => simp
  | some s =>
    by_cases hj : j = i
    · by_cases hu : s.unwritten - 1 = 0 <;> simp [hj,hu,Stream.notify]
    · simp [hj]

/-- What frames that reach the pipe do to the streams that sent them. If all were counted, nothing
but the streams changes. -/
theorem foldl_frameWritten (l : List Nat) (c : Connection) (h : ∀ i, l.count i ≤ c.unwritten i) :
    l.foldl frameWritten c = { c with streams := (l.foldl frameWritten c).streams } ∧
      (l.foldl frameWritten c).streams.length = c.streams.length ∧
      ∀ {i : Nat} {s : Stream}, (l.foldl frameWritten c).streams[i]? = some s →
        ∃ t, c.streams[i]? = some t ∧ s.error = t.error ∧ s.resetCode = t.resetCode ∧
          s.unwritten = t.unwritten - l.count i := by
  induction l generalizing c with
  | nil => exact ⟨rfl,rfl,fun hs => ⟨_,hs,rfl,rfl,rfl⟩⟩
  | cons j l ih =>
    have hone : c.noteOff j 1 = c := by
      refine noteOff_eq ?_
      have hj := h j
      rw [List.count_cons_self] at hj
      omega
    have hrest (i : Nat) : l.count i ≤ (c.frameWritten j).unwritten i := by
      have hi := h i
      rw [unwritten_frameWritten]
      rw [List.count_cons] at hi
      by_cases hj : j = i
      · simp [hj] at hi ⊢
        omega
      · simpa [hj] using hi
    obtain ⟨heq,hlength,hall⟩ := ih (c.frameWritten j) hrest
    have hwritten : c.frameWritten j = { c with streams := (c.frameWritten j).streams } := by
      unfold frameWritten
      rw [hone]
      rfl
    refine ⟨?_,?_,fun {i s} hs => ?_⟩
    · rw [List.foldl_cons]
      generalize (l.foldl frameWritten (c.frameWritten j)).streams = streams at heq
      rw [heq,hwritten]
    · rw [List.foldl_cons,hlength]
      simp [frameWritten,noteOff,Connection.modify]
    · obtain ⟨t,ht,he,hr,hu⟩ := hall hs
      by_cases hj : j = i
      · subst hj
        cases hx : c.streams[j]? with
        | none => simp [frameWritten,noteOff,Connection.modify,hx] at ht
        | some u =>
          rw [frameWritten,getElem?_modify_self (c := c.noteOff j 1) hx] at ht
          cases ht
          refine ⟨u,rfl,?_,?_,?_⟩
          · rw [he]
            dsimp only
            split <;> rfl
          · rw [hr]
            dsimp only
            split <;> rfl
          · rw [hu,List.count_cons_self]
            dsimp only
            split <;> simp only [Stream.notify] <;> omega
      · refine ⟨t,?_,he,hr,?_⟩
        · simpa [frameWritten,noteOff,Connection.modify,hj] using ht
        · rw [hu,List.count_cons_of_ne hj]

theorem Pending.batchWritten (h : c.Pending) {b : Batch} (hb : c.held = b.frames)
    (live : c.phase ≠ .closed) :
    (c.batchWritten b).Pending ∧ (c.batchWritten b).written = c.written ++ b.frames ∧
      (c.batchWritten b).held = [] ∧ ∀ i, (c.batchWritten b).queuedFor i = c.queuedFor i := by
  have hlength : c.metrics.framesSent + b.frames.length = c.journal.taken.reverse.length := by
    have hle := h.bound
    rw [← hb,held,List.length_drop,List.length_reverse]
    omega
  obtain ⟨metrics,hc,hsent,hshort⟩ : ∃ metrics : Metrics,
      c.batchWritten b = (b.frames.filterMap (·.owner)).foldl frameWritten { c with metrics } ∧
        metrics.framesSent = c.metrics.framesSent + b.frames.length ∧
        metrics.shortfall = c.metrics.shortfall := ⟨_,rfl,rfl,rfl⟩
  have hcovers (i : Nat) : (b.frames.filterMap (·.owner)).count i ≤ c.unwritten i := by
    rw [h.unwritten_eq live,left,hb,sentBy_append,List.length_append,count_owners]
    exact Nat.le_add_right ..
  obtain ⟨hfold,hgrown,hcount⟩ :=
    foldl_frameWritten (b.frames.filterMap (·.owner)) { c with metrics } hcovers
  generalize ((b.frames.filterMap (·.owner)).foldl frameWritten { c with metrics }).streams =
    streams
    at hfold hgrown hcount
  rw [hc,hfold]
  have hheld : ({ c with metrics, streams } : Connection).held = [] := by
    rw [held,hsent,hlength]
    exact List.drop_length
  have hexact {i : Nat} {s : Stream} (hs : streams[i]? = some s) :
      s.unwritten = (sentBy i c.dataQueue).length := by
    obtain ⟨t,ht,-,-,hu⟩ := hcount hs
    have hleft := h.count ht (.inl live)
    rw [left,hb,sentBy_append,List.length_append] at hleft
    rw [hu,hleft,count_owners]
    exact Nat.add_sub_cancel_left ..
  refine ⟨⟨?_,?_,h.order,fun {i s} hs he hr => ?_,fun {i s} hs _ => ?_,fun hs => (hexact hs).ge,
    hshort.trans h.short⟩,?_,hheld,fun _ => rfl⟩
  · intro q hq i ho
    exact (h.placed q hq i ho).trans_eq hgrown.symm
  · rw [hsent,hlength,List.length_reverse]
  · obtain ⟨t,ht,hte,htr,-⟩ := hcount hs
    exact h.whole ht (hte ▸ he) (htr ▸ hr)
  · rw [left,hheld,List.nil_append]
    exact hexact hs
  · have hall : c.journal.taken.reverse = c.written ++ b.frames := by
      rw [← hb]
      exact (List.take_append_drop ..).symm
    rw [written,hsent,hlength,List.take_length,hall]

end Connection

end Multiplex
