import Multiplex.Proofs.Funding
import Multiplex.Proofs.Register

/-!
How writes are split into frames: what a write has queued is at all times a first part of its data,
cut into pieces that the peer takes.
-/

namespace Multiplex

/-- Whether a frame is a piece of data, or else, with `fin`, the end of a stream. -/
def Frame.Piece (fin : Bool) (f : Frame) : Prop :=
  (∃ id piece, piece ≠ [] ∧ f = .stream id false piece) ∨ fin = true ∧ ∃ id, f = .stream id true []

/-- The stream that a call sends on, the data that it sends, and whether it ends the stream. -/
def Call.sends? : Call → Option (Nat × Bytes × Bool)
  | .write i data => some (i, data, false)
  | .writeFinish i data => some (i, data, true)
  | .finish i => some (i, [], true)
  | _ => none

def Record.payload (x : Record) : Bytes := x.queued.flatMap Frame.data

namespace Connection

variable {c c' : Connection} {i : Nat} {id : StreamId} {data : Bytes} {fin : Bool} {w : Wait}
  {k : Call}

/-- What running a call to send `data` does: it queues `frames`, and leaves `rest` of the data. -/
structure Sends (i : Nat) (data : Bytes) (fin : Bool) (c : Connection) (turn : Outcome × Connection)
    (frames : List Frame) (rest : Bytes) : Prop where
  queued : turn.2.queuedFor i = (frames.map (⟨·, some i⟩)).reverse ++ c.queuedFor i
  split : frames.flatMap Frame.data ++ rest = data
  pieces : ∀ f ∈ frames, f.Piece fin
  waits : ∀ w, turn.1 = .wait w → w = .credit i rest fin ∨ w = .slot i rest fin
  whole : ∀ a, turn.1 = .done (.ok a) → rest = []
  short : fin = false → data ≠ [] → rest = [] → turn.1 = .done (.ok .unit)

theorem Sends.since {turn : Outcome × Connection} {frames : List Frame} {rest : Bytes}
    (h : Sends i data fin c turn frames rest) : turn.2.queuedSince c i = frames := by
  rw [queuedSince,h.queued,List.reverse_append,List.drop_left' List.length_reverse,
    List.reverse_reverse,List.map_map]
  exact List.map_id _

theorem sends_fail (hq : c'.queuedFor i = c.queuedFor i) (e : Failure) :
    Sends i data fin c (c'.fail e) [] data :=
  ⟨hq,rfl,nofun,nofun,nofun,fun _ hne hnil => absurd hnil hne⟩

theorem sends_succeed (hq : c'.queuedFor i = c.queuedFor i) :
    Sends i [] fin c (c'.succeed .unit) [] [] :=
  ⟨hq,rfl,nofun,nofun,fun _ _ => rfl,fun _ hne _ => absurd rfl hne⟩

theorem sends_suspend (h : Edits c c') (cancelled : Bool)
    (hw : w = .credit i data fin ∨ w = .slot i data fin) :
    Sends i data fin c (c'.suspend cancelled w) [] data := by
  refine ⟨Edits.queuedFor (Runs.suspend h (fun _ => trivial) cancelled w) i,rfl,nofun,
    fun w' hw' => ?_,fun a ha => ?_,fun _ hne hnil => absurd hnil hne⟩
  · unfold suspend at hw'
    split at hw'
    · cases hw'
    · cases hw'
      exact hw
  · unfold suspend at ha
    split at ha <;> cases ha

theorem queuedFor_queue (h : c.queue i id data fin = .ok c') :
    c'.queuedFor i = ⟨.stream id fin data, some i⟩ :: c.queuedFor i := by
  have hput : (c.enqueued i id data fin).queuedFor i =
      ⟨.stream id fin data, some i⟩ :: c.queuedFor i := by
    simp [queuedFor,enqueued,enqueueData,append,Journal.noteData,Connection.modify]
  have hqueue := c.queues i id data fin
  rw [h] at hqueue
  cases hqueue with
  | queued =>
    split
    · exact (Edits.queuedFor (Runs.maybeRelease .refl trivial) i).trans hput
    · exact hput

section

variable (c)

theorem sends_queueEnd (i : Nat) (id : StreamId) :
    ∃ frames, Sends i [] true c (c.queueEnd i id) frames [] := by
  unfold queueEnd
  split
  · rename_i hq
    refine ⟨[.stream id true []],queuedFor_queue hq,rfl,fun f hf => ?_,nofun,fun _ _ => rfl,nofun⟩
    exact .inr ⟨rfl,id,List.mem_singleton.mp hf⟩
  · exact ⟨[],sends_fail rfl _⟩

theorem sends_sendEnd (i : Nat) : ∃ frames, Sends i [] true c (c.sendEnd i) frames [] := by
  unfold sendEnd
  split
  · exact ⟨[],sends_fail rfl _⟩
  · split
    · exact ⟨[],sends_succeed rfl⟩
    · split
      · exact ⟨[],sends_fail rfl _⟩
      · exact ⟨[],sends_fail rfl _⟩
      · exact c.sends_queueEnd i _

/-- Sending takes pieces off the front of the data for as long as there is credit. -/
theorem sends_send (cancelled : Bool) (i : Nat) (id : StreamId) (fin : Bool) {fuel : Nat}
    {data : Bytes} (h : data.length ≤ fuel) :
    ∃ frames rest, Sends i data fin c (c.send cancelled i id fin fuel data) frames rest := by
  have hend (c : Connection) : ∃ frames rest,
      Sends i [] fin c (if fin then c.sendEnd i else c.succeed .unit) frames rest := by
    cases fin with
    | true =>
      obtain ⟨frames,hs⟩ := c.sends_sendEnd i
      exact ⟨frames,[],hs⟩
    | false => exact ⟨[],[],sends_succeed rfl⟩
  induction fuel generalizing c data with
  | zero =>
    obtain rfl := List.length_eq_zero_iff.mp (Nat.le_zero.mp h)
    exact hend c
  | succ fuel ih =>
    cases data with
    | nil => exact hend c
    | cons b bs =>
      have hlook := (edits_looks (some i)).credit rfl c
        (UInt64.ofNat (min (b :: bs).length c.peer.maxFrame.toNat))
      unfold send
      split <;> rename_i hl <;> rw [hl] at hlook
      · exact ⟨[],_,sends_suspend hlook cancelled (.inl rfl)⟩
      · exact ⟨[],_,sends_fail (hlook.queuedFor i) _⟩
      · rename_i n c₁
        obtain ⟨-,-,-,hn,-,-,-⟩ := lookCredit_eq_ok hl
        split
        · exact ⟨[],_,sends_fail (hlook.queuedFor i) _⟩
        · rename_i c₂ hq
          have hlen : ((b :: bs).drop n).length ≤ fuel := by
            rw [List.length_drop]
            omega
          obtain ⟨frames,rest,hs⟩ := ih c₂ hlen
          refine ⟨.stream id false ((b :: bs).take n) :: frames,rest,?_,?_,?_,hs.waits,hs.whole,?_⟩
          · rw [hs.queued,queuedFor_queue hq,hlook.queuedFor i]
            simp
          · rw [List.flatMap_cons,List.append_assoc,hs.split,Frame.data,List.take_append_drop]
          · refine List.forall_mem_cons.mpr ⟨.inl ⟨id,_,?_,rfl⟩,hs.pieces⟩
            obtain ⟨n,rfl⟩ := Nat.exists_eq_succ_of_ne_zero hn.ne'
            exact List.cons_ne_nil _ _
          · rintro rfl - hnil
            by_cases hdrop : (b :: bs).drop n = []
            · rw [hdrop]
              cases fuel <;> rfl
            · exact hs.short rfl hdrop hnil

theorem sends_startAndSend (cancelled : Bool) (i : Nat) (data : Bytes) (fin : Bool) :
    ∃ frames rest, Sends i data fin c (c.startAndSend cancelled i data fin) frames rest := by
  have hlook := (edits_looks (some i)).slot rfl c
  unfold startAndSend
  split <;> rename_i hl <;> rw [hl] at hlook
  · exact ⟨[],_,sends_suspend hlook cancelled (.inr rfl)⟩
  · exact ⟨[],_,sends_fail (hlook.queuedFor i) _⟩
  · rename_i id c₁
    have hon : ∃ frames rest,
        Sends i data fin c₁ (c₁.sendOn cancelled i id data fin) frames rest := by
      unfold sendOn
      split
      · obtain ⟨frames,hs⟩ := c₁.sends_queueEnd i id
        exact ⟨frames,[],hs⟩
      · exact c₁.sends_send cancelled i id _ le_rfl
    obtain ⟨frames,rest,hs⟩ := hon
    exact ⟨frames,rest,{ hs with queued := by rw [hs.queued,hlook.queuedFor i] }⟩

theorem sends_resume (cancelled : Bool) (hw : w = .credit i data fin ∨ w = .slot i data fin) :
    ∃ frames rest, Sends i data fin c (c.resume cancelled w) frames rest := by
  rcases hw with rfl | rfl
  · unfold resume
    dsimp only
    split
    · exact c.sends_send cancelled i _ fin le_rfl
    · exact ⟨[],_,sends_fail rfl _⟩
  · exact c.sends_startAndSend cancelled i data fin

theorem sends_call (cancelled : Bool) (hk : k.sends? = some (i, data, fin)) :
    ∃ frames rest, Sends i data fin c (c.call cancelled k) frames rest := by
  cases c.taken k with
  | succeed needless eq =>
    rw [eq cancelled]
    cases needless with
    | write | finish =>
      cases hk
      exact ⟨[],_,sends_succeed rfl⟩
    | upTo | exact => cases hk
  | refused _ eq =>
    rw [eq cancelled]
    exact ⟨[],_,sends_fail rfl _⟩
  | look begins eq =>
    rw [eq cancelled]
    cases begins with
    | write | writeFinish | finish =>
      cases hk
      exact c.sends_startAndSend cancelled _ _ _
    | flush | read | accept | ping | close | closed => cases hk

theorem mute_resume (cancelled : Bool) (hw : w.mute = true) :
    (∀ i, (c.resume cancelled w).2.queuedFor i = c.queuedFor i) ∧
      ∀ w', (c.resume cancelled w).1 = .wait w' → w'.mute = true := by
  cases (edits_looks w.stream?).resolves hw c fun _ _ _ hq => .accepted trivial hq with
  | fail run _ eq | succeed run eq =>
    rw [eq cancelled]
    exact ⟨run.queuedFor,nofun⟩
  | wait run stalls eq =>
    refine ⟨?_,fun w' hw' => (stalls_of_resume (Prod.ext hw' rfl)).mute hw⟩
    rw [eq cancelled]
    exact Edits.queuedFor (Runs.suspend run (fun _ => trivial) cancelled _)

theorem mute_call (cancelled : Bool) (hk : k.sends? = none) :
    (∀ i, (c.call cancelled k).2.queuedFor i = c.queuedFor i) ∧
      ∀ w, (c.call cancelled k).1 = .wait w → w.mute = true := by
  cases c.taken k with
  | succeed _ eq | refused _ eq =>
    rw [eq cancelled]
    exact ⟨fun _ => rfl,nofun⟩
  | look begins eq =>
    rw [eq cancelled]
    cases begins with
    | write | writeFinish | finish => cases hk
    | flush | read | accept | closed => exact c.mute_resume cancelled rfl
    | ping now =>
      obtain ⟨hq,hw⟩ := mute_resume (c.enqueueControl (.ping (pingPayload now))) cancelled
        (w := .pong c.metrics.pongs) rfl
      exact ⟨fun i => (hq i).trans (Edits.queuedFor (Runs.enqueueControl .refl _) i),hw⟩
    | @close code =>
      obtain ⟨hq,hw⟩ := mute_resume (c.beginClose code) cancelled (w := .closed) rfl
      exact ⟨fun i => (hq i).trans
        (Edits.queuedFor (Runs.beginClose (fun _ => trivial) trivial trivial _) i),hw⟩

end

end Connection

namespace Record

open Connection

variable {x : Record} {i : Nat} {data rest : Bytes} {fin : Bool}

theorem stream?_of_sends? {k : Call} (h : k.sends? = some (i, data, fin)) : k.stream? = some i := by
  cases k with
  | write | writeFinish | finish =>
    cases h
    rfl
  | flush | read | accept | ping | close | closed => cases h

/-- What has come of a call to send `data` that has `rest` of it left. -/
structure Sent (i : Nat) (data : Bytes) (fin : Bool) (x : Record) (wait? : Option Wait)
    (rest : Bytes) : Prop where
  split : x.payload ++ rest = data
  pieces : ∀ f ∈ x.queued, f.Piece fin
  whole : ∀ a, x.result = some (.ok a) → rest = []
  short : fin = false → data ≠ [] → rest = [] → x.result = some (.ok .unit)
  waits : ∀ w, wait? = some w →
    x.result = none ∧ (w = .credit i rest fin ∨ w = .slot i rest fin)

theorem Sent.after {w? : Option Wait} (h : x.Sent i data fin w? rest) (hi : x.call.stream? = some i)
    {c : Connection} {turn : Outcome × Connection} {frames : List Frame} {rest' : Bytes}
    (hs : Sends i rest fin c turn frames rest') (hrest : data ≠ [] → fin = false → rest ≠ []) :
    (x.after c turn).Sent i data fin turn.1.wait? rest' := by
  have hqueued : (x.after c turn).queued = x.queued ++ frames := by
    simp [Record.after,hi,hs.since]
  have hresult : (x.after c turn).result = turn.1.result? := rfl
  refine ⟨?_,?_,fun a ha => ?_,fun hfin hne hnil => ?_,fun w hw => ?_⟩
  · rw [payload,hqueued,List.flatMap_append,List.append_assoc,hs.split]
    exact h.split
  · rw [hqueued]
    exact List.forall_mem_append.mpr ⟨h.pieces,hs.pieces⟩
  · rw [hresult] at ha
    obtain ⟨o,c'⟩ := turn
    cases o with
    | wait => cases ha
    | done result =>
      cases ha
      exact hs.whole a rfl
  · rw [hresult,hs.short hfin (hrest hne hfin) hnil]
    rfl
  · obtain ⟨o,c'⟩ := turn
    cases o with
    | done => cases hw
    | wait w' =>
      cases hw
      exact ⟨rfl,hs.waits w rfl⟩

end Record

namespace Register

variable {x : Record}

open Station Connection Record

/-- What holds of the records of calls that send. -/
def Splits (x : Record) (wait? : Option Wait) : Prop :=
  ∀ {i data fin}, x.call.sends? = some (i, data, fin) → ∃ rest, x.Sent i data fin wait? rest

theorem splits_lasting : Lasting Splits where
  call c cancelled k i data fin hk := by
    obtain ⟨frames,rest,hs⟩ := c.sends_call cancelled hk
    have hnew : ({ call := k } : Record).Sent i data fin none data :=
      ⟨rfl,nofun,nofun,fun _ hne hnil => absurd hnil hne,nofun⟩
    exact ⟨rest,hnew.after (stream?_of_sends? hk) hs fun hne _ => hne⟩
  look {x w} c cancelled h i data fin hk := by
    obtain ⟨rest,hx⟩ := h hk
    obtain ⟨hnone,hw⟩ := hx.waits w rfl
    obtain ⟨frames,rest',hs⟩ := c.sends_resume cancelled hw
    refine ⟨rest',hx.after (stream?_of_sends? hk) hs fun hne hfin hnil => ?_⟩
    cases (hx.short hfin hne hnil).symm.trans hnone
  cancel {x w} c h i data fin hk := by
    obtain ⟨rest,hx⟩ := h hk
    obtain ⟨hnone,hw⟩ := hx.waits w rfl
    have hs : Sends i rest fin c (c.suspend true w) [] rest := sends_suspend .refl true hw
    refine ⟨rest,hx.after (stream?_of_sends? hk) hs fun hne hfin hnil => ?_⟩
    cases (hx.short hfin hne hnil).symm.trans hnone
  drop {x w} h i data fin hk := by
    obtain ⟨rest,hx⟩ := h hk
    exact ⟨rest,{ hx with waits := nofun }⟩

/-- What holds of the records of all other calls. -/
def Mute (x : Record) (wait? : Option Wait) : Prop :=
  x.call.sends? = none → x.queued = [] ∧ ∀ w, wait? = some w → w.mute = true

theorem queued_after_same {c : Connection} {turn : Outcome × Connection}
    (h : ∀ i, turn.2.queuedFor i = c.queuedFor i) : (x.after c turn).queued = x.queued := by
  cases hi : x.call.stream? with
  | none => simp [Record.after,hi]
  | some i => simp [Record.after,hi,queuedSince_same (h i)]

theorem mute_lasting : Lasting Mute where
  call c cancelled k hk := by
    obtain ⟨hq,hw⟩ := c.mute_call cancelled hk
    exact ⟨queued_after_same hq,fun w h => hw w (Outcome.eq_wait h)⟩
  look {x w} c cancelled h hk := by
    obtain ⟨hnil,hmute⟩ := h hk
    obtain ⟨hq,hw⟩ := c.mute_resume cancelled (hmute w rfl)
    exact ⟨(queued_after_same hq).trans hnil,fun w h => hw w (Outcome.eq_wait h)⟩
  cancel {x w} c h hk :=
    ⟨(queued_after_same (Edits.queuedFor (Runs.cancel (fun _ => trivial) w))).trans (h hk).1,nofun⟩
  drop {x w} h hk := ⟨(h hk).1,nofun⟩

theorem Fresh.funded {r : Register} (h : r.Fresh) (steps : List Step) :
    (r.run steps).station.connection.Funded := by
  rw [run_station]
  exact h.station.funded steps

theorem Fresh.length_le {r : Register} (h : r.Fresh) {steps : List Step} {i : Nat} {f : Frame}
    (hx : x ∈ (r.run steps).records) (hi : x.call.stream? = some i) (hf : f ∈ x.queued) :
    f.data.length ≤ (r.run steps).station.connection.peer.maxFrame.toNat := by
  have hperm := h.frames steps i
  obtain ⟨q,hq,rfl⟩ := List.mem_map.mp (hperm.mem_iff.mpr (mem_frames hx hi hf))
  obtain ⟨hmem,ho⟩ := List.mem_filter.mp hq
  have ho' : q.owner = some i := by simpa using ho
  exact (h.funded steps).sized q hmem (by rw [ho']; rfl)

variable (role : Role) (options : Options) (codes : CodeSpace) (channel : Channel)

/-- How writes are split, whatever the peer and the other calls on the end do. What a call has
queued so far is a first part of its data, in pieces that are not empty and that the peer takes; it
is all of the data if the call has succeeded, and, where there was data to write, only then. No
other calls queue anything, and a stream queues nothing but what its calls do. All that a stream has
queued is within the window that it began with and the credit that came in for it. -/
theorem writes_split (steps : List Step) :
    let r := (fresh role options codes channel).run steps
    let c := r.station.connection
    r.station = (Station.fresh role options codes channel).run steps ∧
    (∀ x ∈ r.records, ∀ i data fin, x.call.sends? = some (i, data, fin) →
      x.payload <+: data ∧ (∀ a, x.result = some (.ok a) → x.payload = data) ∧
      (fin = false → data ≠ [] → x.payload = data → x.result = some (.ok .unit)) ∧
      ∀ f ∈ x.queued, f.Piece fin ∧ f.data.length ≤ c.peer.maxFrame.toNat) ∧
    (∀ x ∈ r.records, x.call.sends? = none → x.queued = []) ∧
    (∀ i, ((c.queuedFor i).map (·.frame)).Perm (frames r.records i)) ∧
    ∀ i s, c.streams[i]? = some s → c.spent i ≤ c.allowance s := by
  intro r c
  have hfresh := Fresh.intro role options codes channel
  refine ⟨run_station _ steps,fun x hx i data fin hk => ?_,fun x hx hk => ?_,hfresh.frames steps,
    fun i s hi => ?_⟩
  · obtain ⟨w?,hq⟩ := (hfresh.follows splits_lasting steps).each hx
    obtain ⟨rest,hs⟩ := hq hk
    have hrest (h : x.payload = data) : rest = [] := by
      have hsplit := hs.split
      rwa [h,List.append_right_eq_self] at hsplit
    have hi := stream?_of_sends? hk
    refine ⟨⟨rest,hs.split⟩,fun a ha => ?_,fun hfin hne h => hs.short hfin hne (hrest h),fun f hf =>
      ⟨hs.pieces f hf,hfresh.length_le hx hi hf⟩⟩
    rw [← hs.split,hs.whole a ha,List.append_nil]
  · obtain ⟨w?,hq⟩ := (hfresh.follows mute_lasting steps).each hx
    exact (hq hk).1
  · exact (hfresh.funded steps).within hi

/-- Two writes on a stream that begins with credit for four bytes; the peer then grants more than a
word holds, and both look again. -/
def shared : List Step :=
  meeting { window := 4 } ++ [.quiet (.create .unidirectional),
    .quiet (.call false (.write 0 [1, 2, 3, 4, 5, 6])), .quiet (.call false (.write 0 [7, 8])),
    .hearing [.windowUpdate ⟨2⟩ 3, .windowUpdate ⟨2⟩ 18446744073709551615],
    .quiet (.look false 1), .quiet (.look false 0)]

/-- The first write has the credit of the window, and the second overtakes the rest of it. -/
theorem writes_split_shared :
    let r := (fresh .client {} .direct .plain).run shared
    r.station.connection.queuedFor 0 = [⟨.stream ⟨2⟩ false [5, 6], some 0⟩,
      ⟨.stream ⟨2⟩ false [7, 8], some 0⟩, ⟨.stream ⟨2⟩ false [1, 2, 3, 4], some 0⟩] ∧
    ∃ x y, r.records = [x, y] ∧ x.call = .write 0 [1, 2, 3, 4, 5, 6] ∧
      x.queued = [.stream ⟨2⟩ false [1, 2, 3, 4], .stream ⟨2⟩ false [5, 6]] ∧
      x.result = some (.ok .unit) ∧ y.call = .write 0 [7, 8] ∧
      y.queued = [.stream ⟨2⟩ false [7, 8]] ∧ y.result = some (.ok .unit) := by
  intro r
  obtain ⟨-,hsplit,-,-,-⟩ := writes_split .client {} .direct .plain shared
  have hrecords : r.records.map (fun x => (x.call, x.queued)) =
      [(.write 0 [1, 2, 3, 4, 5, 6], [.stream ⟨2⟩ false [1, 2, 3, 4], .stream ⟨2⟩ false [5, 6]]),
        (.write 0 [7, 8], [.stream ⟨2⟩ false [7, 8]])] := by decide +kernel
  obtain ⟨x,ys,hr,hx,hys⟩ := List.map_eq_cons_iff.mp hrecords
  obtain ⟨y,zs,rfl,hy,hzs⟩ := List.map_eq_cons_iff.mp hys
  obtain rfl := List.map_eq_nil_iff.mp hzs
  obtain ⟨hxc,hxq⟩ := Prod.mk.inj hx
  obtain ⟨hyc,hyq⟩ := Prod.mk.inj hy
  obtain ⟨-,-,hxok,-⟩ := hsplit x (by rw [show Register.records _ = _ from hr]; simp) 0 _ false
    (by rw [hxc]; rfl)
  obtain ⟨-,-,hyok,-⟩ := hsplit y (by rw [show Register.records _ = _ from hr]; simp) 0 _ false
    (by rw [hyc]; rfl)
  exact ⟨by decide +kernel,x,y,hr,hxc,hxq,hxok rfl nofun (by rw [Record.payload,hxq]; rfl),hyc,hyq,
    hyok rfl nofun (by rw [Record.payload,hyq]; rfl)⟩

/-- An empty write has nothing left to send at once, and fails all the same on a stream that was
finished. -/
theorem empty_write_fails :
    let r := (fresh .client {} .direct .plain).run (meeting {} ++ [.quiet (.create .unidirectional),
      .quiet (.call false (.finish 0)), .quiet (.call false (.write 0 []))])
    ∃ x ∈ r.records, x.call = .write 0 [] ∧ x.payload = [] ∧
      x.result = some (.error .writesClosed) := by
  intro r
  have hrecord : r.records[1]?.map (fun x => (x.call, x.payload, x.result)) =
      some (.write 0 [], [], some (.error .writesClosed)) := by decide +kernel
  obtain ⟨x,hx,heq⟩ := Option.map_eq_some_iff.mp hrecord
  obtain ⟨hc,hpr⟩ := Prod.mk.inj heq
  obtain ⟨hp,hr⟩ := Prod.mk.inj hpr
  exact ⟨x,List.mem_of_getElem? hx,hc,hp,hr⟩

end Register

end Multiplex
