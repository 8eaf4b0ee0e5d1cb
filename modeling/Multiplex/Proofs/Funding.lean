import Multiplex.Proofs.Closing
import Multiplex.Proofs.StreamChanges

/-!
What streams send against what the peer lets them.
-/

namespace Multiplex

def Frame.data : Frame → Bytes
  | .stream _ _ data => data
  | _ => []

def Outgoing.load (q : Outgoing) : Nat := q.frame.data.length

theorem SendCredit.grant_le (c : SendCredit) (n : UInt64) :
    (c.grant n).available.toNat ≤ c.available.toNat + n.toNat := by
  have hlt : min (c.available.toNat + n.toNat) (UInt64.size - 1) < UInt64.size :=
    lt_of_le_of_lt (min_le_right _ _) (by decide)
  rw [grant,UInt64.toNat_ofNat_of_lt' hlt]
  exact min_le_left _ _

theorem Stream.afterData_credit (s : Stream) (w : ReceiveWindow) (fin : Bool) (data : Bytes) :
    (s.afterData w fin data).2.id = s.id ∧ (s.afterData w fin data).2.credit = s.credit := by
  rw [afterData_snd]
  exact ⟨rfl,rfl⟩

namespace Connection

/-- How many bytes of data the stream at place `i` has ever queued. -/
def spent (c : Connection) (i : Nat) : Nat := ((c.queuedFor i).map Outgoing.load).sum

def allowance (c : Connection) (s : Stream) : Nat :=
  c.peer.window.toNat + s.id.elim 0 fun id => Frame.creditOf id c.journal.heard

/-- What streams have sent and may still send is within what the peer has let them. Credit that is
left once the connection is closed counts for nothing. -/
structure Funded (c : Connection) : Prop where
  early : c.phase = .connecting → c.streams = []
  placed : ∀ q ∈ c.journal.data, ∀ i, q.owner = some i → i < c.streams.length
  sized : ∀ q ∈ c.journal.data, q.owner.isSome → q.load ≤ c.peer.maxFrame.toNat
  named : ∀ id i, (id, i) ∈ c.table → ∃ s, c.streams[i]? = some s ∧ s.id = some id
  within : ∀ {i : Nat} {s : Stream}, c.streams[i]? = some s → c.spent i ≤ c.allowance s
  covered : c.phase ≠ .closed → ∀ {i : Nat} {s : Stream}, c.streams[i]? = some s →
    c.spent i + s.credit.available.toNat ≤ c.allowance s

/-- Streams that neither start nor spend nor earn anything. -/
structure Idle (c c' : Connection) : Prop where
  length : c'.streams.length = c.streams.length
  each : ∀ (i : Nat) (s' : Stream), c'.streams[i]? = some s' →
    ∃ s, c.streams[i]? = some s ∧ s'.id = s.id ∧ (c'.phase ≠ .closed → s'.credit = s.credit)

/-- What spends nothing and earns nothing. -/
structure Thrifty (c c' : Connection) : Prop where
  idle : Idle c c'
  phase : c.phase.Fades c'.phase
  peer : c'.peer = c.peer
  data : ∃ fs : List Frame, c'.journal.data = fs.map (⟨·, none⟩) ++ c.journal.data
  heard : c.journal.heard <:+ c'.journal.heard
  table : c'.table.Sublist c.table

section Thrifty

variable {c c' c'' : Connection} {i : Nat} {s s' : Stream}

theorem idle_of_eq (h : c'.streams = c.streams) : Idle c c' :=
  ⟨by rw [h],fun _ s hs => ⟨s,h ▸ hs,rfl,fun _ => rfl⟩⟩

theorem set_cases (hi : c.streams[i]? = some s) {j : Nat} {t : Stream}
    (ht : (c.streams.set i s')[j]? = some t) : j = i ∧ t = s' ∨ j ≠ i ∧ c.streams[j]? = some t := by
  rw [getElem?_set_of hi] at ht
  split at ht <;> rename_i hj
  · exact .inl ⟨hj,(Option.some.inj ht).symm⟩
  · exact .inr ⟨hj,ht⟩

theorem idle_set (hi : c.streams[i]? = some s) (h : c'.streams = c.streams.set i s')
    (hid : s'.id = s.id) (hc : c'.phase ≠ .closed → s'.credit = s.credit) : Idle c c' := by
  refine ⟨by simp [h],fun j t ht => ?_⟩
  rcases set_cases hi (h ▸ ht) with ⟨rfl,rfl⟩ | ⟨-,ht⟩
  · exact ⟨s,hi,hid,hc⟩
  · exact ⟨t,ht,rfl,fun _ => rfl⟩

theorem idle_lapsed (h : Lapsed c.streams c'.streams) : Idle c c' := by
  refine ⟨?_,fun i s' hs => ?_⟩
  · have hle (i : Nat) : c'.streams.length ≤ i ↔ c.streams.length ≤ i := by
      obtain ⟨f,hf,-⟩ := h i
      rw [← List.getElem?_eq_none_iff,hf,Option.map_eq_none_iff,List.getElem?_eq_none_iff]
    have h₁ := hle c.streams.length
    have h₂ := hle c'.streams.length
    omega
  · obtain ⟨f,hf,hl⟩ := h i
    rw [hf] at hs
    obtain ⟨s,hi,rfl⟩ := Option.map_eq_some_iff.mp hs
    obtain ⟨_,_,_,_,heq,-⟩ := hl s
    exact ⟨s,hi,by rw [heq],fun _ => by rw [heq]⟩

theorem Thrifty.of_idle (h : Idle c c') (hphase : c.phase.Fades c'.phase) (hpeer : c'.peer = c.peer)
    (hdata : c'.journal.data = c.journal.data) (hheard : c'.journal.heard = c.journal.heard)
    (htable : c'.table = c.table) : Thrifty c c' :=
  ⟨h,hphase,hpeer,⟨[],hdata⟩,hheard ▸ List.suffix_rfl,htable ▸ .refl _⟩

theorem thrifty_of_eq (hstreams : c'.streams = c.streams) (hphase : c'.phase = c.phase)
    (hpeer : c'.peer = c.peer) (hdata : c'.journal.data = c.journal.data)
    (hheard : c'.journal.heard = c.journal.heard) (htable : c'.table = c.table) : Thrifty c c' :=
  .of_idle (idle_of_eq hstreams) (hphase ▸ .refl _) hpeer hdata hheard htable

theorem thrifty_release (c : Connection) (i : Nat) : Thrifty c (c.release i) := by
  have heq := c.release_eq i
  have hrest : c.phase.Fades (c.release i).phase ∧ (c.release i).peer = c.peer ∧
      (c.release i).journal = c.journal := by
    rw [heq]
    exact ⟨.refl _,rfl,rfl⟩
  obtain ⟨hphase,hpeer,hjournal⟩ := hrest
  rcases c.release_cases i with hx | ⟨s,id,hi,-,-,-,-,hx⟩
  · rw [hx]
    exact thrifty_of_eq rfl rfl rfl rfl rfl rfl
  · refine ⟨?_,hphase,hpeer,⟨[],by rw [hjournal]; rfl⟩,by rw [hjournal],?_⟩
    · rw [hx,setActive_eq]
      exact idle_set hi rfl rfl fun _ => rfl
    · rw [hx,setActive_eq]
      exact List.filter_sublist

theorem thrifty_abort (c : Connection) (e : Failure) : Thrifty c (c.abort e) := by
  by_cases hp : c.phase = .closed
  · rw [Connection.abort,if_pos hp]
    exact thrifty_of_eq rfl rfl rfl rfl rfl rfl
  · refine ⟨idle_lapsed (lapsed_abort c e),(fades_abort c e).phase,(kept_abort c e).peer,
      ⟨[],?_⟩,?_,?_⟩ <;> rw [abort_eq c e hp]
    · rfl
    · simp

end Thrifty

namespace Funded

variable {c c' : Connection} {i size : Nat} {s s' : Stream} {f : Frame} {id : StreamId}
  {meant : Prop}

theorem fresh (role : Role) (options : Options) (codes : CodeSpace) :
    (Connection.fresh role options codes).Funded :=
  ⟨fun _ => rfl,by simp [Connection.fresh],by simp [Connection.fresh],by simp [Connection.fresh],
    by simp [Connection.fresh],fun _ => by simp [Connection.fresh]⟩

section

variable (h : c.Funded)

include h

theorem vacant (hi : c.streams.length ≤ i) : c.spent i = 0 := by
  have hnone : c.queuedFor i = [] := by
    refine List.filter_eq_nil_iff.mpr fun q hq ho => ?_
    have hlt := h.placed q hq i (by simpa using ho)
    omega
  rw [spent,hnone]
  rfl

theorem named_set (hi : c.streams[i]? = some s) (hid : s'.id = s.id) (id : StreamId) (j : Nat)
    (hm : (id, j) ∈ c.table) : ∃ t, (c.streams.set i s')[j]? = some t ∧ t.id = some id := by
  obtain ⟨t,ht,htid⟩ := h.named id j hm
  rw [getElem?_set_of hi]
  split <;> rename_i hj
  · subst hj
    cases hi.symm.trans ht
    exact ⟨s',rfl,hid.trans htid⟩
  · exact ⟨t,ht,htid⟩

theorem thrifty (ht : Thrifty c c') : c'.Funded := by
  obtain ⟨fs,hdata⟩ := ht.data
  have hspent (i : Nat) : c'.spent i = c.spent i := by
    have hnone : (fs.map fun f => (⟨f, none⟩ : Outgoing)).filter (fun q => q.owner = some i) = [] :=
      List.filter_eq_nil_iff.mpr (by simp)
    rw [spent,queuedFor,hdata,List.filter_append,hnone,List.nil_append]
    rfl
  have hmem {q : Outgoing} (hq : q ∈ c'.journal.data) (ho : q.owner.isSome) :
      q ∈ c.journal.data := by
    rw [hdata] at hq
    rcases List.mem_append.mp hq with hq | hq
    · obtain ⟨f,-,rfl⟩ := List.mem_map.mp hq
      cases ho
    · exact hq
  have hallow {s s' : Stream} (hid : s'.id = s.id) : c.allowance s ≤ c'.allowance s' := by
    unfold allowance
    rw [ht.peer,hid]
    refine Nat.add_le_add_left ?_ _
    cases s.id with
    | none => exact le_rfl
    | some id =>
      obtain ⟨more,hmore⟩ := ht.heard
      simp only [Option.elim_some,← hmore,Frame.creditOf_append]
      omega
  refine ⟨fun hp => ?_,fun q hq i ho => ?_,fun q hq ho => ?_,fun id i hm => ?_,fun {i s'} hs => ?_,
    fun hp i s' hs => ?_⟩
  · rw [← List.length_eq_zero_iff,ht.idle.length,List.length_eq_zero_iff]
    refine h.early ?_
    by_contra hx
    exact ht.phase.not_connecting hx hp
  · rw [ht.idle.length]
    exact h.placed q (hmem hq (by rw [ho]; rfl)) i ho
  · rw [ht.peer]
    exact h.sized q (hmem hq ho) ho
  · obtain ⟨s,hi,hid⟩ := h.named id i (ht.table.subset hm)
    have hlt := (List.getElem?_eq_some_iff.mp hi).1
    rw [← ht.idle.length] at hlt
    obtain ⟨t,ht',heq,-⟩ := ht.idle.each i _ (List.getElem?_eq_getElem hlt)
    cases hi.symm.trans ht'
    exact ⟨_,List.getElem?_eq_getElem hlt,heq.trans hid⟩
  · obtain ⟨s,hi,hid,-⟩ := ht.idle.each i s' hs
    rw [hspent]
    exact (h.within hi).trans (hallow hid)
  · obtain ⟨s,hi,hid,hcredit⟩ := ht.idle.each i s' hs
    rw [hspent,hcredit hp]
    exact (h.covered (ht.phase.not_closed hp) hi).trans (hallow hid)

theorem add (hp : c.phase = .active) (hs : c'.streams = c.streams ++ [s])
    (hcredit : s.credit = ⟨c.peer.window⟩) (hphase : c'.phase = c.phase) (hpeer : c'.peer = c.peer)
    (hjournal : c'.journal = c.journal)
    (named : ∀ id i, (id, i) ∈ c'.table → ∃ t, c'.streams[i]? = some t ∧ t.id = some id) :
    c'.Funded := by
  have hspent (i : Nat) : c'.spent i = c.spent i := by
    rw [spent,queuedFor,hjournal]
    rfl
  have hallow (t : Stream) : c'.allowance t = c.allowance t := by
    unfold allowance
    rw [hpeer,hjournal]
  have hcases {i : Nat} {t : Stream} (ht : c'.streams[i]? = some t) :
      c.streams[i]? = some t ∨ t = s ∧ c.spent i = 0 := by
    rcases getElem?_concat (hs ▸ ht) with ht | ⟨hi,heq⟩
    · exact .inl ht
    · exact .inr ⟨heq,h.vacant hi.ge⟩
  refine ⟨fun hx => ?_,fun q hq i ho => ?_,fun q hq ho => ?_,named,fun {i t} ht => ?_,
    fun hx i t ht => ?_⟩
  · rw [hphase,hp] at hx
    cases hx
  · rw [hjournal] at hq
    have hlt := h.placed q hq i ho
    rw [hs,List.length_append]
    omega
  · rw [hjournal] at hq
    rw [hpeer]
    exact h.sized q hq ho
  · rw [hspent,hallow]
    rcases hcases ht with ht | ⟨-,hzero⟩
    · exact h.within ht
    · omega
  · rw [hspent,hallow]
    rcases hcases ht with ht | ⟨rfl,hzero⟩
    · exact h.covered (hphase ▸ hx) ht
    · rw [hcredit,hzero,Nat.zero_add]
      exact Nat.le_add_right _ _

theorem send {q : Outgoing} (hi : c.streams[i]? = some s) (hp : c.phase ≠ .closed)
    (hq : q.owner = some i) (hid : s'.id = s.id) (size : q.load ≤ c.peer.maxFrame.toNat)
    (credit : q.load + s'.credit.available.toNat ≤ s.credit.available.toNat) :
    ({ c with streams := c.streams.set i s' }.append q).Funded := by
  have hlt := (List.getElem?_eq_some_iff.mp hi).1
  have hcovered := h.covered hp hi
  have hallow (t : Stream) :
      ({ c with streams := c.streams.set i s' }.append q).allowance t = c.allowance t := rfl
  have hsame : c.allowance s' = c.allowance s := by rw [allowance,hid,allowance]
  have hspent (j : Nat) : ({ c with streams := c.streams.set i s' }.append q).spent j =
      c.spent j + if j = i then q.load else 0 := by
    by_cases hj : j = i
    · subst hj
      simp [spent,queuedFor,append,Journal.noteData,hq]
      omega
    · simp [spent,queuedFor,append,Journal.noteData,hq,hj,Ne.symm hj]
  refine ⟨fun hx => ?_,fun q' hq' j ho => ?_,fun q' hq' ho => ?_,h.named_set hi hid,
    fun {j t} ht => ?_,fun _ j t ht => ?_⟩
  · have hnil := h.early hx
    rw [hnil] at hlt
    cases hlt
  · have hj : j < c.streams.length := by
      rcases List.mem_cons.mp hq' with rfl | hq'
      · cases hq.symm.trans ho
        exact hlt
      · exact h.placed q' hq' j ho
    simpa [append] using hj
  · rcases List.mem_cons.mp hq' with rfl | hq'
    · exact size
    · exact h.sized q' hq' ho
  · rw [hspent,hallow]
    rcases set_cases hi ht with ⟨rfl,rfl⟩ | ⟨hj,ht⟩
    · rw [hsame,if_pos rfl]
      omega
    · rw [if_neg hj]
      exact h.within ht
  · rw [hspent,hallow]
    rcases set_cases hi ht with ⟨rfl,rfl⟩ | ⟨hj,ht⟩
    · rw [hsame,if_pos rfl]
      omega
    · rw [if_neg hj]
      exact h.covered hp ht

theorem move (hm : Move c c') : c'.Funded := by
  have hfades := hm.wears.phase
  have hpeer := hm.kept.peer
  cases hm with
  | note | shut | complete | wane =>
    exact h.thrifty (.of_idle (idle_of_eq rfl) hfades hpeer rfl rfl rfl)
  | add d hp =>
    refine h.add hp rfl rfl rfl rfl rfl fun id i hx => ?_
    obtain ⟨t,ht,hid⟩ := h.named id i hx
    exact ⟨t,getElem?_append_of_some _ ht,hid⟩
  | @tend i s s' update hi ht =>
    obtain ⟨k,-,heq⟩ :=
      ({ c with streams := c.streams.set i s' } : Connection).enqueueControl?_cases update
    rw [heq] at hfades hpeer ⊢
    exact h.thrifty (.of_idle (idle_set hi rfl ht.agrees.id fun _ => ht.agrees.credit) hfades hpeer
      rfl rfl rfl)
  | @send i s id data hi hid hw hp credit size =>
    refine h.send hi hp rfl rfl size ?_
    have hlen : (UInt64.ofNat data.length).toNat = data.length :=
      UInt64.toNat_ofNat_of_lt' (lt_of_le_of_lt credit s.credit.available.toNat_lt)
    have hle : UInt64.ofNat data.length ≤ s.credit.available := by
      rw [UInt64.le_iff_toNat_le,hlen]
      exact credit
    simp only [Outgoing.load,Frame.data,Stream.charge,Stream.noteSent,
      UInt64.toNat_sub_of_le _ _ hle,hlen]
    omega
  | spend credit hi hid hw hp =>
    exact h.thrifty (.of_idle (idle_set hi rfl rfl fun hx => absurd hp hx) hfades hpeer rfl rfl rfl)
  | @finish i s id hi hid hw hp =>
    refine Funded.thrifty ?_ (thrifty_release _ i)
    refine h.send hi hp rfl rfl (Nat.zero_le _) ?_
    simp [Outgoing.load,Frame.data,Stream.finish,Stream.noteSent]
  | @reset i s id code wire hi hid live =>
    refine Funded.thrifty ?_ (thrifty_release _ i)
    obtain ⟨k,-,heq⟩ := c.enqueueControl_cases (.reset id wire)
    rw [heq]
    exact h.thrifty (.of_idle (idle_set hi rfl rfl fun _ => rfl) (.refl _) rfl rfl rfl rfl)
  | mark code hi =>
    exact h.thrifty (.of_idle (idle_set hi rfl rfl fun _ => rfl) hfades hpeer rfl rfl rfl)
  | @say f =>
    obtain ⟨k,-,heq⟩ := c.enqueueControl_cases f
    rw [heq] at hfades hpeer ⊢
    exact h.thrifty (.of_idle (idle_of_eq rfl) hfades hpeer rfl rfl rfl)
  | close code =>
    unfold enqueueClose
    split
    · exact h
    · exact h.thrifty ⟨idle_of_eq rfl,.refl _,rfl,⟨[_],rfl⟩,List.suffix_rfl,.refl _⟩
  | lose e =>
    refine h.thrifty ⟨idle_lapsed (lapsed_failStreams c e),hfades,hpeer,⟨[],?_⟩,?_,?_⟩ <;>
      rw [failStreams_eq]
    · rfl
    · simp
  | abort e => exact h.thrifty (thrifty_abort c e)

theorem moves (hm : Moves c c') : c'.Funded := by
  induction hm with
  | refl => exact h
  | tail _ hm ih => exact ih.move hm

theorem start (hs : Start i c c') : c'.Funded := by
  obtain ⟨hi,hid,-,hp,-⟩ := hs
  rename_i s
  have hlt := (List.getElem?_eq_some_iff.mp hi).1
  -- what came in for the id before the stream has it counts from now on
  have hallow (id : StreamId) : c.allowance s ≤ c.allowance { s with id := some id } := by
    rw [allowance,hid,allowance]
    exact Nat.add_le_add_left (Nat.zero_le _) _
  have hcases {j : Nat} {t : Stream} (ht : (c.started i s).streams[j]? = some t) :
      (∃ u, c.streams[j]? = some u ∧ t.credit = u.credit ∧ c.allowance u ≤ c.allowance t) := by
    simp only [started] at ht
    by_cases hj : j = i
    · subst hj
      cases (List.getElem?_set_self hlt).symm.trans ht
      exact ⟨s,hi,rfl,hallow _⟩
    · rw [List.getElem?_set_ne (Ne.symm hj)] at ht
      exact ⟨t,ht,rfl,le_rfl⟩
  refine ⟨fun hx => ?_,fun q hq j ho => ?_,h.sized,fun id j hm => ?_,fun {j t} ht => ?_,
    fun hx j t ht => ?_⟩
  · rw [show (c.started i s).phase = c.phase from rfl,hp] at hx
    cases hx
  · have hj := h.placed q hq j ho
    simpa [started] using hj
  · rcases List.mem_append.mp hm with hm | hm
    · obtain ⟨t,ht,htid⟩ := h.named id j hm
      have hj : j ≠ i := by
        rintro rfl
        cases hi.symm.trans ht
        cases hid.symm.trans htid
      exact ⟨t,by simpa [started,Ne.symm hj] using ht,htid⟩
    · cases List.mem_singleton.mp hm
      exact ⟨_,List.getElem?_set_self hlt,rfl⟩
  · obtain ⟨u,hu,-,hle⟩ := hcases ht
    exact (h.within hu).trans hle
  · obtain ⟨u,hu,hcredit,hle⟩ := hcases ht
    rw [hcredit]
    exact (h.covered hx hu).trans hle

theorem surface (id : StreamId) (metrics : Metrics) (changes : Nat) (hp : c.phase = .active) :
    ({ c.surfaced id with metrics, changes } : Connection).Funded := by
  refine h.add hp rfl rfl rfl rfl rfl fun id' i hm => ?_
  rcases List.mem_append.mp hm with hm | hm
  · obtain ⟨t,ht,htid⟩ := h.named id' i hm
    exact ⟨t,getElem?_append_of_some _ ht,htid⟩
  · cases List.mem_singleton.mp hm
    exact ⟨_,List.getElem?_concat_length,rfl⟩

theorem hear (f : Frame) (size : Nat) : (c.hear f size).Funded :=
  h.thrifty ⟨idle_of_eq rfl,.refl _,rfl,⟨[],rfl⟩,List.suffix_cons _ _,.refl _⟩

theorem take (hf : f.kind ≠ .windowUpdate) (ht : Take f c c') : c'.Funded := by
  induction ht with
  | @data c i s id fin data w hfind hi reads unended room =>
    obtain ⟨hid,hcredit⟩ := s.afterData_credit w fin data
    have htaken : ({ c.enqueueControl? (s.afterData w fin data).1 with
        streams := c.streams.set i (s.afterData w fin data).2.notify } : Connection).Funded := by
      obtain ⟨k,-,heq⟩ := c.enqueueControl?_cases (s.afterData w fin data).1
      rw [heq]
      exact h.thrifty ⟨idle_set hi rfl hid fun _ => hcredit,.refl _,rfl,⟨[],rfl⟩,List.suffix_rfl,
        .refl _⟩
    split
    · exact htaken.thrifty (thrifty_release _ i)
    · exact htaken
  | grant => exact absurd rfl hf
  | @reset c i s id wire code unwritten changes hfind hi =>
    refine Funded.thrifty ?_ (thrifty_release _ i)
    exact h.thrifty (.of_idle (idle_set hi rfl rfl fun _ => rfl) (.refl _) rfl rfl rfl rfl)
  | @refuse c id =>
    obtain ⟨k,-,heq⟩ := (c.reached id).enqueueControl_cases
      (.reset id (c.codes.toWire (c.codes.resetCode .refused)))
    rw [heq]
    exact h.thrifty (thrifty_of_eq rfl rfl rfl rfl rfl rfl)
  | surface metrics changes hs _ ih => exact ih (h.surface _ metrics changes hs.active) hf
  | @close c wire code hc =>
    refine h.thrifty (.of_idle (idle_of_eq rfl) ?_ rfl rfl rfl rfl)
    split
    · rename_i hp
      simp [hp,Phase.Fades]
    · exact .refl _
  | drop | idle => exact h
  | pass | stray => exact h.thrifty (thrifty_of_eq rfl rfl rfl rfl rfl rfl)

end

theorem mem_table_of_find? (h : c.find? id = some i) : (id, i) ∈ c.table := by
  obtain ⟨entry,he,rfl⟩ := Option.map_eq_some_iff.mp h
  have hid : entry.1 = id := by simpa using List.find?_some he
  rw [← hid]
  exact List.mem_of_find?_eq_some he

section

variable (h : c.Funded)

include h

/-- Credit that comes in for a stream is credit that it may spend, up to what a word holds. -/
theorem grant {n : UInt64} (hf : c.find? id = some i) (hi : c.streams[i]? = some s) :
    ({ c.hear (.windowUpdate id n) size with
      streams := c.streams.set i { s with credit := s.credit.grant n } } : Connection).Funded := by
  have hlt := (List.getElem?_eq_some_iff.mp hi).1
  have hid : s.id = some id := by
    obtain ⟨t,ht,hid⟩ := h.named id i (mem_table_of_find? hf)
    cases hi.symm.trans ht
    exact hid
  have hheard := h.hear (.windowUpdate id n) size
  have hallow : (c.hear (.windowUpdate id n) size).allowance s = c.allowance s + n.toNat := by
    simp only [allowance,hid,Option.elim_some,Connection.hear,Journal.noteHeard,Frame.creditOf_cons,
      Frame.granted,if_true]
    omega
  have hgrant := s.credit.grant_le n
  refine ⟨fun hx => ?_,fun q hq j ho => ?_,hheard.sized,h.named_set hi rfl,fun {j t} ht => ?_,
    fun hp j t ht => ?_⟩
  · rw [h.early hx] at hlt
    cases hlt
  · have hj := h.placed q hq j ho
    simpa using hj
  · rcases set_cases hi ht with ⟨rfl,rfl⟩ | ⟨-,ht⟩
    · have hwithin : (c.hear (.windowUpdate id n) size).spent j ≤ _ := hheard.within (s := s) hi
      exact hwithin
    · exact hheard.within ht
  · rcases set_cases hi ht with ⟨rfl,rfl⟩ | ⟨-,ht⟩
    · have hcovered := h.covered hp hi
      change c.spent j + (s.credit.grant n).available.toNat ≤
        (c.hear (.windowUpdate id n) size).allowance s
      omega
    · exact hheard.covered hp ht

theorem hearing (ht : Take f (c.hear f size) c') : c'.Funded := by
  by_cases hf : f.kind = .windowUpdate
  · cases f with
    | windowUpdate id n =>
      cases ht with
      | grant hfind hi => exact h.grant hfind hi
      | surface _ _ hs => exact absurd rfl hs.kind
      | drop | idle => exact h.hear _ _
      | stray =>
        exact (h.hear (.windowUpdate id n) size).thrifty (thrifty_of_eq rfl rfl rfl rfl rfl rfl)
    | stream | reset | ping | pong | settings | close => cases hf
  · exact (h.hear f size).take hf ht

theorem breach {v : Violation} (hb : Breach v f c c') : c'.Funded := by
  induction hb with
  | surface metrics changes hs _ ih => exact ih (h.surface _ metrics changes hs.active)
  | beyondLimit =>
    exact h.thrifty (thrifty_of_eq rfl rfl rfl rfl rfl rfl)
  | neverOpened | data | duplicateClose | lateSettings => exact h

theorem establish (hp : c.phase = .connecting) (peer : Settings) :
    ({ c with peer, phase := .active } : Connection).Funded := by
  have hnil := h.early hp
  have hnone {q : Outgoing} (hq : q ∈ c.journal.data) {i : Nat} (ho : q.owner = some i) :
      False := by
    have hlt := h.placed q hq i ho
    rw [hnil] at hlt
    cases hlt
  have hempty {i : Nat} {s : Stream} (hs : c.streams[i]? = some s) : False := by
    rw [hnil] at hs
    cases hs
  refine ⟨nofun,h.placed,fun q hq ho => ?_,h.named,fun hs => (hempty hs).elim,
    fun _ _ _ hs => (hempty hs).elim⟩
  obtain ⟨i,hi⟩ := Option.isSome_iff_exists.mp ho
  exact (hnone hq hi).elim

theorem deed (hd : Deed meant c c') : c'.Funded := by
  cases hd with
  | move hm => exact h.move hm
  | start hs hm => exact (h.start hs).moves hm
  | take _ _ ht => exact h.hearing ht
  | breach _ hb => exact ((h.hear _ _).breach hb).thrifty (thrifty_abort _ _)
  | endReads | shutOff =>
    exact h.thrifty (thrifty_of_eq rfl rfl rfl rfl rfl rfl)
  | abort e => exact h.thrifty (thrifty_abort c e)
  | ship hb =>
    obtain ⟨n,-,rfl⟩ := takeBatch_spec hb
    exact h.thrifty (thrifty_of_eq rfl rfl rfl rfl rfl rfl)
  | establish peer valid hp => exact h.establish hp peer

theorem deeds (hd : Deeds meant c c') : c'.Funded := by
  induction hd with
  | refl => exact h
  | tail _ hd ih => exact ih.deed hd

end

end Funded

end Connection

theorem Station.Fresh.funded {s : Station} (h : s.Fresh) (steps : List Station.Step) :
    (s.run steps).connection.Funded := (h.connection Connection.Funded.fresh).deeds (h.deeds steps)

end Multiplex
