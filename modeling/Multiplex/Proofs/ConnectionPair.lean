import Multiplex.Proofs.Journal
import Multiplex.Proofs.StreamDirection

/-!
Two connections that face each other, with the frames that have left each of them and that the other
has not taken over yet.
-/

namespace Multiplex

namespace Frame

variable {f : Frame}

def Lawful (maxFrame : Nat) : Frame → Prop
  | .stream _ _ data => data.length ≤ maxFrame ∧ data.length ≤ Settings.greatestWindow.toNat
  | .settings _ => False
  | _ => True

theorem Lawful.heard {n : Nat} (h : f.Lawful n) : f.heard = f := by
  cases f with
  | settings => exact h.elim
  | stream | windowUpdate | reset | ping | pong | close => rfl

end Frame

namespace Connection

variable {c d c' : Connection} {w v : List Frame}

/-- Every frame that has left a connection, in `wire`, or waits in it, oldest first. -/
def outline (c : Connection) (wire : List Frame) : List Frame :=
  wire ++ (c.controlQueue ++ c.dataQueue.map (·.frame))

def trail (c : Connection) (id : StreamId) (wire : List Frame) : List Frame :=
  about id (c.outline wire)

theorem trail_eq (c : Connection) (id : StreamId) (wire : List Frame) :
    c.trail id wire = (c.part id).trail (about id wire) := by
  simp [trail,outline,Part.trail,part]

/-- The connection `c`, seen with its peer `d`; `w` has left `c` and `v` has left `d`. -/
structure Faces (c : Connection) (w : List Frame) (d : Connection) (v : List Frame) : Prop where
  sound : c.Sound
  role : d.role = c.role.other
  met : c.phase = .active ∨ c.streams ≠ [] →
    c.peer = d.options.settings.heard ∧ d.options.settings.Valid
  reach : ∀ e, c.nextRemote.get e ≤ d.nextLocal.get e
  lawful : ∀ f ∈ c.outline w, f.Lawful d.options.maxFrame.toNat
  /-- CLOSE is said once. -/
  closes : (c.outline w).countP Frame.isClose + d.closeReceived.isSome.toNat ≤ c.closeSent.toNat
  way : ∀ id, Way id d.options.window.toNat (c.site id).opener (decide (c.phase = .active))
    (c.seat id) (c.trail id w) (d.seat id) (d.trail id v)

/-- Two connections that face each other. -/
structure Bond (c : Connection) (w : List Frame) (d : Connection) (v : List Frame) : Prop where
  near : Faces c w d v
  far : Faces d v c w

theorem Faces.opener (h : Faces c w d v) (id : StreamId) :
    (d.site id).opener = !(c.site id).opener := by
  have hr := h.role
  simp only [site,hr]
  cases id.initiator <;> cases c.role <;> decide

/-- What a connection has done on its own account. -/
structure Acts (c c' : Connection) : Prop where
  sound : c'.Sound
  role : c'.role = c.role
  options : c'.options = c.options
  peer : c'.peer = c.peer
  nextRemote : c'.nextRemote = c.nextRemote
  nextLocal : ∀ e, c.nextLocal.get e ≤ c'.nextLocal.get e
  closeReceived : c'.closeReceived = c.closeReceived
  active : c'.phase = .active → c.phase = .active
  streams : c'.streams ≠ [] → c.phase = .active ∨ c.streams ≠ []
  turns : ∀ id, Turns c c' id
  queued : ∀ q ∈ c'.dataQueue, q ∈ c.dataQueue ∨ (∃ code, q.frame = .close code) ∨
    ∃ id fin data s, q.frame = .stream id fin data ∧ c.seat id = .taken s ∧ s.released = false ∧
      data.length ≤ s.credit.available.toNat ∧ data.length ≤ c.peer.maxFrame.toNat
  closes : c'.dataQueue.countP (·.frame.isClose) + c.closeSent.toNat ≤
    c.dataQueue.countP (·.frame.isClose) + c'.closeSent.toNat

theorem Acts.of_enters (h : c.Sound) (sound : c'.Sound) (site : c.SameSite c')
    (pursues : Pursues c c') (active : c'.phase = .active → c.phase = .active)
    (turns : ∀ id, Turns c c' id) (he : Enters none c c') : Acts c c' := by
  refine ⟨sound,site.role,site.options,site.peer,site.nextRemote,fun e => by rw [site.nextLocal],
    pursues.closeReceived,active,pursues.streams,turns,fun q hq => ?_,?_⟩
  · cases he with
    | requeue hr =>
      rw [hr.data] at hq
      exact .inl (List.mem_of_mem_filter hq)
    | append owner hd _ _ _ queued =>
      rw [hd] at hq
      refine (List.mem_append.mp hq).imp_right fun hq => ?_
      rw [List.mem_singleton.mp hq]
      rcases queued with ⟨code,rfl,-⟩ | ⟨id,fin,data,i,s,rfl,hi,hid,hw,credit,size⟩
      · exact .inl ⟨code,rfl⟩
      · exact .inr ⟨id,fin,data,s,rfl,(seat_eq_taken_iff h.toRegistry).mpr ⟨hid,i,hi⟩,
          (h.held hi hid).sound.live hw,credit,size⟩
    | discard hd =>
      rw [hd] at hq
      cases hq
  · have hle : c.closeSent.toNat ≤ c'.closeSent.toNat := Bool.toNat_le_toNat pursues.closeSent
    cases he with
    | requeue hr =>
      rw [hr.data]
      exact Nat.add_le_add List.filter_sublist.countP_le hle
    | append owner hd _ _ _ queued =>
      rw [hd,List.countP_append]
      rcases queued with ⟨code,rfl,hc,hc'⟩ | ⟨id,fin,data,i,s,rfl,-⟩
      · simp [Frame.isClose,hc,hc']
      · simpa [Frame.isClose] using hle
    | discard hd =>
      rw [hd]
      exact Nat.add_le_add (Nat.zero_le _) hle

theorem Sound.acts_abort (h : c.Sound) (e : Failure) (hp : c.phase ≠ .closed) :
    Acts c (c.abort e) :=
  .of_enters h (h.abort e hp) (abort_site e hp) (h.pursues_abort e hp)
    (by rw [abort_phase]; rintro ⟨⟩) (h.turns_abort e hp) (enters_abort e hp)

theorem Move.acts (hm : Move c c') (h : c.Sound) : Acts c c' :=
  .of_enters h (hm.sound h) hm.site (hm.pursues h) hm.active (hm.turns h) (hm.enters h)

theorem Start.acts {i : Nat} (hs : Start i c c') (h : c.Sound) (hn : c'.Numbered) : Acts c c' := by
  have hsound := hs.sound h hn
  have hturns := hs.turns h hn
  obtain ⟨hi,hid,hw,hp,hl⟩ := hs
  refine ⟨hsound,rfl,rfl,rfl,rfl,?_,rfl,fun _ => hp,fun _ => .inl hp,hturns,fun _ => .inl,le_rfl⟩
  intro e
  simp only [started,PerDirection.get_set]
  split
  · rename_i he
    rw [he]
    omega
  · exact le_rfl

theorem countP_outline (c : Connection) (h : c.Queued) (w : List Frame) :
    (c.outline w).countP Frame.isClose =
      w.countP Frame.isClose + c.dataQueue.countP (·.frame.isClose) := by
  have hk : c.controlQueue.countP Frame.isClose = 0 := by
    rw [List.countP_eq_zero]
    intro f hf hx
    have := h.control f hf
    cases f <;> simp [Frame.isClose,Frame.Overtakes] at hx this
  simp only [outline,List.countP_append,hk,List.countP_map]
  simp [Function.comp_def]

theorem Bond.act (h : Bond c w d v) (ha : Acts c c') : Bond c' w d v := by
  have hn := h.near
  have hf := h.far
  have hsite (id : StreamId) : c'.site id = c.site id := by
    simp only [site,ha.role,ha.options,ha.peer]
  have hmet : c'.phase = .active ∨ c'.streams ≠ [] → c.phase = .active ∨ c.streams ≠ [] := by
    rintro (hx | hx)
    · exact .inl (ha.active hx)
    · exact ha.streams hx
  refine ⟨⟨ha.sound,by rw [ha.role]; exact hn.role,?_,?_,?_,?_,?_⟩,
    ⟨hf.sound,by rw [ha.role]; exact hf.role,?_,?_,?_,?_,?_⟩⟩
  · intro hx
    rw [ha.peer]
    exact hn.met (hmet hx)
  · intro e
    rw [ha.nextRemote]
    exact hn.reach e
  · intro f hx
    simp only [outline,List.mem_append,List.mem_map] at hx
    rcases hx with hx | hx | ⟨q,hq,rfl⟩
    · exact hn.lawful f (List.mem_append_left _ hx)
    · have := ha.sound.control f hx
      cases f <;> trivial
    · rcases ha.queued q hq with hq | ⟨code,hq⟩ | ⟨id,fin,data,s,hq,hs,hl,hc,hsz⟩
      · refine hn.lawful _ (List.mem_append_right _ (List.mem_append_right _ ?_))
        exact List.mem_map_of_mem hq
      · rw [hq]
        trivial
      · have hne : c.streams ≠ [] := by
          intro he
          obtain ⟨-,i,hi⟩ := (seat_eq_taken_iff hn.sound.toRegistry).mp hs
          rw [he] at hi
          cases hi
        obtain ⟨hpeer,hv⟩ := hn.met (.inr hne)
        have hheld := (hn.way id).flow.held (by simp [hs,Seat.outflow,hl])
        simp only [hs,Seat.outflow] at hheld
        rw [hpeer] at hsz
        rw [hq]
        refine ⟨hsz,?_⟩
        have hw := hv.2.1
        rw [UInt64.le_iff_toNat_le] at hw
        change d.options.window.toNat ≤ _ at hw
        omega
  · have h₁ := hn.closes
    have h₂ := ha.closes
    rw [countP_outline _ hn.sound.toQueued] at h₁
    rw [countP_outline _ ha.sound.toQueued]
    omega
  · intro id
    have hw := hn.way id
    rw [trail_eq] at hw
    rw [trail_eq,hsite]
    rcases ha.turns id with he | hs
    · rw [he,show c'.seat id = c.seat id from congrArg Part.seat he]
      exact hw.calm_le (by simpa using ha.active)
    · exact hw.step_sender hs (hn.sound.part id) (by simpa using ha.active) fun hx => by
        have hp := (hn.met (.inl (ha.active (by simpa using hx)))).1
        simp only [site,hp]
        rfl
  · intro hx
    rw [ha.options]
    exact hf.met hx
  · intro e
    exact (hf.reach e).trans (ha.nextLocal e)
  · rw [ha.options]
    exact hf.lawful
  · rw [ha.closeReceived]
    exact hf.closes
  · intro id
    have hw := hf.way id
    rw [c.trail_eq] at hw
    rw [c'.trail_eq,ha.options]
    rcases ha.turns id with he | hs
    · rw [he,show c'.seat id = c.seat id from congrArg Part.seat he]
      exact hw
    · refine hw.step_receiver hs (hn.sound.part id) ?_ (hn.opener id) ?_
      · rw [← hsite]
        exact ha.sound.part id
      · intro hu
        have := (hn.way id).silent hu
        rwa [trail_eq] at this

end Connection

end Multiplex
