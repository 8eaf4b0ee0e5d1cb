import Multiplex.Proofs.Wire
import Multiplex.Rpc.Dispatch

/-!
Services that are functions of a request and its payload, and what the work on one stream comes to:
nothing is on the wire but the reply that the function gives, unless the stream is gone.
-/

namespace Multiplex.Rpc

structure Seen where
  bytes : Bytes := []
  /-- The end too. -/
  whole : Bool := false
  /-- The payload is not completed. -/
  attached : Bool := true
  /-- A read failed. -/
  lost : Bool := false

/-- Whether a payload may be the one that a service sees. -/
def Seen.Fits (v : Seen) (data : Bytes) : Prop :=
  v.bytes <+: data ∧ (v.whole = true → data = v.bytes)

namespace Process

variable {β γ : Type}

/-- Whether a process gives `f` of its payload, however it reads it. It leaves the stream alone
otherwise. After a read that failed it may give anything. -/
def Computes (f : Bytes → β) : Process β → Seen → Prop
  | .done b, v => v.lost = true ∨ ∀ data, v.Fits data → f data = b
  | .note _ next, v | .pause _ next, v | .guard _ next, v | .unguard next, v => next.Computes f v
  | .call _ _, _ => False
  | .chunk _ next, v =>
    if v.attached then
      (v.whole = false →
        ∀ bs, (next (.ok (some bs))).Computes f { v with bytes := v.bytes ++ bs }) ∧
        (next (.ok none)).Computes f { v with whole := true } ∧
        ∀ e, (next (.error e)).Computes f { v with lost := true }
    else (next (.ok none)).Computes f v
  | .all next, v =>
    if v.attached then
      (∀ bs, (v.whole = true → bs = []) →
        (next (.ok bs)).Computes f
          { v with bytes := v.bytes ++ bs, whole := true, attached := false }) ∧
        ∀ e, (next (.error e)).Computes f { v with lost := true }
    else (next (.ok [])).Computes f v
  | .complete next, v => next.Computes f { v with attached := false }

theorem Computes.map {f : Bytes → β} {p : Process β} {v : Seen} (h : p.Computes f v) (g : β → γ) :
    (p.bind fun b => .done (g b)).Computes (fun data => g (f data)) v := by
  induction p generalizing v with
  | done b => exact h.imp id fun hd data hfits => congrArg g (hd data hfits)
  | note e next ih => exact ih h
  | pause w next ih => exact ih h
  | guard e next ih => exact ih h
  | unguard next ih => exact ih h
  | complete next ih => exact ih h
  | call k next ih => exact h
  | chunk max next ih =>
    unfold Computes at h
    unfold Process.bind Computes
    split
    · rename_i ha
      rw [if_pos ha] at h
      exact ⟨fun hw bs => ih _ (h.1 hw bs),ih _ h.2.1,fun e => ih _ (h.2.2 e)⟩
    · rename_i ha
      rw [if_neg ha] at h
      exact ih _ h
  | all next ih =>
    unfold Computes at h
    unfold Process.bind Computes
    split
    · rename_i ha
      rw [if_pos ha] at h
      exact ⟨fun bs hw => ih _ (h.1 bs hw),fun e => ih _ (h.2 e)⟩
    · rename_i ha
      rw [if_neg ha] at h
      exact ih _ h

end Process

/-- What a service does with a request: a function of path, operation, whether it is one-way, fields
and payload. -/
abbrev Behaviour := String → String → Bool → Fields RequestKey → Bytes → Except Fault Reply

/-- The reply to a request with a given payload. -/
def Behaviour.reply (F : Behaviour) (r : Incoming) (data : Bytes) : Reply :=
  .ofOutcome (F r.path r.operation r.oneway r.fields data)

/-- Whether a service behaves as `F`. -/
def Service.Computes (s : Service) (F : Behaviour) : Prop :=
  ∀ r, (s r).Computes (F r.path r.operation r.oneway r.fields) {}

/-- The service that reads all of the payload first. -/
def Behaviour.service (F : Behaviour) : Service := fun r =>
  .all fun
    | .ok data => .done (F r.path r.operation r.oneway r.fields data)
    | .error e => .done (.error (.ofError e))

theorem Behaviour.computes_service (F : Behaviour) : F.service.Computes F := by
  intro r
  refine ⟨fun bs _ => .inr fun data hfits => ?_,fun e => .inl rfl⟩
  rw [hfits.2 rfl,List.nil_append]

/-- Whether a stream stands as a service has seen it, after a header of the bytes `base`. -/
structure Sees (base : Bytes) (d : Direction) (v : Seen) (q : Post) : Prop where
  direction : q.standing.direction = d
  silent : q.standing.Silent
  heard : base <+: q.standing.read
  read : v.lost = false → q.standing.read = base ++ v.bytes
  ended : v.lost = false → q.standing.ended = v.whole
  attached : q.attached = v.attached
  lost : v.lost = true → q.standing.gone = true
  readable : q.standing.readable = true
  abandoned : q.attached = true → q.standing.abandoned = false

/-- Whether a stream stands as one whose service has not answered. -/
structure Hearing (base : Bytes) (d : Direction) (q : Post) : Prop where
  direction : q.standing.direction = d
  silent : q.standing.Silent
  heard : base <+: q.standing.read

section Services

variable {β : Type} {base : Bytes} {d : Direction} {v : Seen} {q : Post} {a a' : Standing}
  {b : Bool}

theorem Sees.hearing (h : Sees base d v q) : Hearing base d q :=
  { h with }

theorem Sees.ages (h : Sees base d v ⟨a,b⟩) (ha : a.Ages a') : Sees base d v ⟨a',b⟩ := by
  cases ha with
  | same => exact h
  | lost =>
    exact { h with lost := fun _ => rfl }

theorem steady_hearing (base : Bytes) (d : Direction) : Steady (Hearing base d) := by
  intro q q' h ha
  have hreads := ha.standing.reads
  refine ⟨hreads.direction.trans h.direction,h.silent.ages ha.standing,?_⟩
  rw [hreads.read,List.append_nil]
  exact h.heard

theorem Sees.kept (h : Sees base d v q) (present : q.standing.gone = false) : v.lost = false := by
  cases hl : v.lost with
  | false => rfl
  | true => exact absurd (present.symm.trans (h.lost hl)) Bool.false_ne_true

theorem Sees.take (h : Sees base d v ⟨a,true⟩) (bs : Bytes) :
    Sees base d { v with bytes := v.bytes ++ bs } ⟨a.take bs,true⟩ := by
  refine { h with heard := h.heard.trans (List.prefix_append _ _), read := fun hl => ?_ }
  have hread : a.read = base ++ v.bytes := h.read hl
  simp [Standing.take,hread]

theorem Sees.see (h : Sees base d v ⟨a,true⟩) : Sees base d { v with whole := true } ⟨a.see,true⟩ :=
  { h with ended := fun _ => rfl }

theorem Sees.complete (h : Sees base d v q) :
    Sees base d { v with attached := false } q.complete := by
  obtain ⟨a,b⟩ := q
  cases b with
  | true =>
    exact { h with attached := rfl, abandoned := fun hn => by cases hn }
  | false => exact { h with attached := rfl }

theorem Sees.fail (h : Sees base d v ⟨a,true⟩) {got : Bytes} (ha : (a.take got).Ages a')
    (lost : a.readable = true → a.abandoned = false → a'.gone = true) :
    Sees base d { v with lost := true } ⟨a',true⟩ := by
  have hlater : Sees base d { v with bytes := v.bytes ++ got } ⟨a',true⟩ := (h.take got).ages ha
  exact ⟨hlater.direction,hlater.silent,hlater.heard,by simp,by simp,hlater.attached,
    fun _ => lost h.readable (h.abandoned rfl),hlater.readable,hlater.abandoned⟩

/-- A service that is a function of its payload says nothing, and gives what fits all that it has
seen. -/
theorem Process.Computes.sure {f : Bytes → β} {p : Process β} (h : p.Computes f v)
    (hq : Sees base d v q) :
    p.Sure (Hearing base d) (fun b q => ∃ v, Sees base d v q ∧
      (v.lost = true ∨ ∀ data, v.Fits data → f data = b)) q := by
  induction p generalizing v q with
  | done b => exact ⟨v,hq,h⟩
  | note e next ih => exact ih h hq
  | pause w next ih => exact ⟨hq.hearing,ih h hq⟩
  | guard e next ih => exact ih h hq
  | unguard next ih => exact ih h hq
  | complete next ih => exact ih h hq.complete
  | call k next ih => exact h.elim
  | chunk max next ih =>
    obtain ⟨a,b⟩ := q
    have hatt : v.attached = b := hq.attached.symm
    unfold Computes at h
    unfold Sure
    cases b with
    | false =>
      rw [if_neg (by simp [hatt])] at h
      exact ih _ h hq
    | true =>
      rw [if_pos hatt] at h
      obtain ⟨hsome,hnone,herror⟩ := h
      refine ⟨fun r a' hg => ?_,fun t' a' hb _ => ?_⟩
      · cases hg with
        | @some _ bs present unspent hages =>
          have hsees : Sees base d { v with bytes := v.bytes ++ bs } ⟨a',true⟩ :=
            (hq.take bs).ages hages
          have hmore := hsome ((hq.ended (hq.kept present)).symm.trans unspent) bs
          exact ih _ hmore hsees
        | none present hages =>
          have hsees : Sees base d { v with whole := true } ⟨a',true⟩ := hq.see.ages hages
          exact ih _ hnone hsees
        | failed lost hages => exact ih _ (herror _) (hq.fail (a.ages_take_nil.trans hages) lost)
      · cases hb with
        | chunk hages => exact steady_hearing base d _ _ hq.hearing ⟨hages,rfl⟩
  | all next ih =>
    obtain ⟨a,b⟩ := q
    have hatt : v.attached = b := hq.attached.symm
    unfold Computes at h
    unfold Sure
    cases b with
    | false =>
      rw [if_neg (by simp [hatt])] at h
      exact ih _ h hq
    | true =>
      rw [if_pos hatt] at h
      obtain ⟨hok,herror⟩ := h
      refine ⟨fun r a' hg => ?_,fun t' a' hb _ => ?_⟩
      · cases hg with
        | @drained _ got present spent hages =>
          have hsees : Sees base d { v with bytes := v.bytes ++ got, whole := true } ⟨a',true⟩ :=
            (hq.take got).see.ages hages
          refine ⟨fun bs hbs => ?_,fun e he => ?_⟩
          · cases hbs
            exact ih _
              (hok got fun hw => spent ((hq.ended (hq.kept present)).trans hw)) hsees.complete
          · cases he
        | undrained lost spent hages =>
          refine ⟨fun bs hbs => ?_,fun e he => ?_⟩
          · cases hbs
          · cases he
            exact ih _ (herror _) (hq.fail hages lost)
      · cases hb with
        | @drain _ got spent hages =>
          have hsees : Sees base d { v with bytes := v.bytes ++ got } ⟨a',true⟩ :=
            (hq.take got).ages hages
          exact hsees.hearing

end Services

/-- What a request that was heard has come to: nothing is on the wire, or a reply is that fits all
of the payload that was read. -/
structure Account (F : Behaviour) (max : Nat) (r : Incoming) (base : Bytes) (a : Standing) :
    Prop where
  heard : base <+: a.read
  answer : a.Silent ∨ ∃ reply, Posted (Reply.header reply).encode max reply.payload a ∧
    ∀ data, a.read <+: base ++ data → (a.ended = true → a.read = base ++ data) →
      F.reply r data = reply

inductive Served (F : Behaviour) (max : Nat) (peer : String) (a : Standing) : Option Incoming → Prop
  | unheard (silent : a.Silent) : Served F max peer a none
  | heard {h : RequestHeader} {base : Bytes} (heads : Heads RequestHeader.reader h base)
      (account : Account F max (Dispatch.incoming peer (a.direction = .unidirectional) h) base a) :
      Served F max peer a (some (Dispatch.incoming peer (a.direction = .unidirectional) h))

section Served

variable {F : Behaviour} {max : Nat} {peer : String} {run : Option Incoming} {a a' : Standing}
  {base : Bytes} {d : Direction} {v : Seen} {q : Post} {h : RequestHeader}

theorem Served.of_eq (hs : Served F max peer a run) (hd : a'.direction = a.direction)
    (hsent : a'.sent = a.sent) (hfin : a'.finished = a.finished) (hread : a'.read = a.read)
    (hend : a'.ended = a.ended) : Served F max peer a' run := by
  cases hs with
  | unheard silent => exact .unheard ⟨hsent.trans silent.1,hfin.trans silent.2⟩
  | heard heads account =>
    rw [← hd] at account ⊢
    refine .heard heads ⟨hread ▸ account.heard,?_⟩
    rcases account.answer with silent | ⟨reply,posted,fits⟩
    · exact .inl ⟨hsent.trans silent.1,hfin.trans silent.2⟩
    · refine .inr ⟨reply,posted.of_eq hsent hfin,fun data hp he => ?_⟩
      rw [hread] at hp he
      exact fits data hp fun hended => he (hend.trans hended)

theorem Served.ages (hs : Served F max peer a run) (ha : a.Ages a') : Served F max peer a' run := by
  cases ha <;> exact hs.of_eq rfl rfl rfl rfl rfl

theorem Served.complete (hs : Served F max peer q.standing run) :
    Served F max peer q.complete.standing run := by
  unfold Post.complete
  split
  · exact hs.of_eq rfl rfl rfl rfl rfl
  · exact hs

theorem Hearing.served (F : Behaviour) (max : Nat) (peer : String) (hh : Hearing base d q)
    (heads : Heads RequestHeader.reader h base) :
    Served F max peer q.standing (some (Dispatch.incoming peer (d = .unidirectional) h)) := by
  obtain rfl := hh.direction
  exact .heard heads ⟨hh.heard,.inl hh.silent⟩

/-- What is sent of a reply is an answer, if the reply fits what the service has seen. -/
theorem Sees.served_of_posts {reply : Reply} (hv : Sees base d v q)
    (heads : Heads RequestHeader.reader h base)
    (fits : v.lost = true ∨
      ∀ data, v.Fits data → F.reply (Dispatch.incoming peer (d = .unidirectional) h) data = reply)
    (hp : Posts q.standing reply.header.encode max reply.payload a) :
    Served F max peer a (some (Dispatch.incoming peer (d = .unidirectional) h)) := by
  have hreads := hp.reads
  have hread : a.read = q.standing.read := hreads.read.trans (List.append_nil _)
  obtain rfl := hreads.direction.trans hv.direction
  refine .heard heads ⟨hread ▸ hv.heard,?_⟩
  cases hl : v.lost with
  | true => exact .inl (hp.mute hv.silent (hv.lost hl))
  | false =>
    refine .inr ⟨reply,hp.posted hv.silent,fun data hdata hended => ?_⟩
    rw [hread,hv.read hl] at hdata hended
    rw [hreads.ended,hv.ended hl] at hended
    have hfits : v.Fits data :=
      ⟨(List.prefix_append_right_inj base).mp hdata,
        fun hw => (List.append_cancel_left (hended hw)).symm⟩
    exact fits.resolve_left (by simp [hl]) data hfits

end Served

namespace Dispatch

variable {d : Dispatch} {r : Dispatch × Scene} {work : Halted (Except Error RequestHeader)}
  {t' : Terms}

def begun (peer : String) : Halted (Except Error RequestHeader) × Scene → Option Incoming
  | (.done (.ok h), s) => some (incoming peer (isOneway s) h)
  | (.done (.error _), _) | (.calling .., _) | (.paused .., _) => none

def startRun (t : Terms) (m : Moment) (peer : String) (s : Scene) : Option Incoming :=
  begun peer ((receiveHeader RequestHeader.reader t.maxHeader).run m s)

def resumeRun (m : Moment) (peer : String) (d : Dispatch) (s : Scene) : Option Incoming :=
  match d with
  | .heading work => (work.resume m s).bind (begun peer)
  | .serving .. | .responding _ | .over => none

/-- Whether the header of a request was read, and nothing else. -/
def Headed (r : Except Error RequestHeader) (q : Post) : Prop :=
  q.attached = false ∧ q.standing.Silent ∧
    ∀ h, r = .ok h → ∃ base, Heads RequestHeader.reader h base ∧
      q.standing.read = base ∧ q.standing.ended = false ∧ q.standing.abandoned = false ∧
        q.standing.readable = true

/-- Whether a reply fits what its service has seen of the request. -/
def Replied (F : Behaviour) (r : Incoming) (base : Bytes) (d : Direction) (reply : Reply)
    (q : Post) :
    Prop :=
  ∃ v, Sees base d v q ∧ (v.lost = true ∨ ∀ data, v.Fits data → F.reply r data = reply)

/-- Whether the work on the stream at place `k` is on its way. -/
def Stage (F : Behaviour) (max : Nat) (peer : String) (k : Nat) (run : Option Incoming) (q : Post) :
    Dispatch → Prop
  | .heading work => run = none ∧ work.Sure k (On false Standing.Silent) Headed q
  | .serving work oneway deadline =>
    ∃ h base d, (h.fields.getWord? .deadline = none → deadline = none) ∧
      oneway = decide (d = Direction.unidirectional) ∧ Heads RequestHeader.reader h base ∧
        run = some (incoming peer oneway h) ∧
        work.Sure k (Hearing base d) (Replied F (incoming peer oneway h) base d) q
  | .responding work =>
    work.Sure k (fun q => Served F max peer q.standing run)
      (fun _ q => Served F max peer q.standing run) q
  | .over => True

/-- Whether the work on the stream at place `k` is what it should be. -/
structure Follows (F : Behaviour) (max : Nat) (peer : String) (k : Nat) (run : Option Incoming)
    (d : Dispatch) (q : Post) : Prop where
  served : Served F max peer q.standing run
  stage : d.Stage F max peer k run q

def Goes (F : Behaviour) (max : Nat) (peer : String) (k : Nat) (run : Option Incoming)
    (c : Connection) (r : Dispatch × Scene) : Prop :=
  ∃ q, r.1.Follows F max peer k run q ∧ r.2.At k q ∧ c.Works k r.2.connection

variable {F : Behaviour} {max k : Nat} {peer : String} {run : Option Incoming} {q q' : Post}
  {c : Connection} {s : Scene} {m : Moment} {t : Terms}

theorem steady_headed (r : Except Error RequestHeader) : Steady (Headed r) := by
  intro q q' h hq
  obtain ⟨hatt,hsilent,hok⟩ := h
  refine ⟨hq.attached.trans hatt,hsilent.ages hq.standing,fun x hx => ?_⟩
  obtain ⟨base,heads,hread,hended,habandoned,hreadable⟩ := hok x hx
  have hreads := hq.standing.reads
  refine ⟨base,heads,?_,hreads.ended.trans hended,hreads.abandoned.trans habandoned,
    hq.standing.readable.trans hreadable⟩
  rw [hreads.read,hread,List.append_nil]

theorem steady_replied (r : Incoming) (base : Bytes) (d : Direction) (reply : Reply) :
    Steady (Replied F r base d reply) := by
  intro q q' h hq
  obtain ⟨v,hv,hfits⟩ := h
  obtain ⟨a',b'⟩ := q'
  obtain rfl := hq.attached
  exact ⟨v,hv.ages hq.standing,hfits⟩

theorem Follows.ages (h : d.Follows F max peer k run q) (hq : q.Ages q') :
    d.Follows F max peer k run q' := by
  refine ⟨h.served.ages hq.standing,?_⟩
  have hstage := h.stage
  cases d with
  | heading work =>
    exact ⟨hstage.1,hstage.2.ages hq (steady_on false fun _ _ hs ha => hs.ages ha) steady_headed⟩
  | serving work oneway deadline =>
    obtain ⟨x,base,d,hnone,hone,heads,hrun,hsure⟩ := hstage
    exact ⟨x,base,d,hnone,hone,heads,hrun,
      hsure.ages hq (steady_hearing base d) (steady_replied _ base d)⟩
  | responding work =>
    exact Halted.Sure.ages hstage hq (fun _ _ hs ha => hs.ages ha.standing)
      fun _ _ _ hs ha => hs.ages ha.standing
  | _ => trivial

theorem Goes.after {c' : Connection} (h : Goes F max peer k run c' r) (hw : c.Works k c') :
    Goes F max peer k run c r := by
  obtain ⟨q,hf,hat,hworks⟩ := h
  exact ⟨q,hf,hat,hw.trans hworks⟩

theorem goes_finish (hs : s.At k q) (h : Served F max peer q.standing run) :
    Goes F max peer k run s.connection (finish s) := by
  have hdrop : Scene.At { s with log := s.log ++ s.guards, guards := [] } k q :=
    { hs with }
  obtain ⟨hend,hw⟩ := hdrop.complete
  have hleft : s.drop.At k q.complete := hend
  have hfinish : finish s =
      (.over,{ s.drop with connection := s.drop.connection.disposeStream k }) := by
    unfold finish
    dsimp only
    rw [hleft.stream]
  have hdispose :=
    (Connection.Runs.disposeStream (c := s.drop.connection) (i := k) trivial).leaves (i := k)
  obtain ⟨q',hq,hat⟩ := hleft.leaves hdispose
  rw [hfinish]
  exact ⟨q',⟨h.complete.ages hq.standing,trivial⟩,hat,
    hw.trans (Connection.works_disposeStream k s.drop.connection)⟩

theorem goes_reset (hs : s.At k q) (h : Served F max peer q.standing run) (code : UInt64) :
    Goes F max peer k run s.connection
      (finish { s with connection := s.connection.reset s.stream code }) := by
  obtain rfl := hs.stream
  have hreset : s.connection.Leaves s.stream (s.connection.reset s.stream code) :=
    (Connection.Runs.reset trivial code).leaves
  obtain ⟨q',hq,hat⟩ := hs.leaves hreset
  have hworks := Connection.works_reset s.stream s.connection code
  exact (goes_finish hat (h.ages hq.standing)).after hworks

theorem goes_afterResponding {work : Halted (Except Error Unit)}
    (h : Course k (fun q => Served F max peer q.standing run)
      (fun _ q => Served F max peer q.standing run) c (work, s) q) :
    Goes F max peer k run c (afterResponding work s) := by
  cases work with
  | done r =>
    cases r with
    | ok x => exact (goes_finish h.scene h.sure).after h.works
    | error e => exact (goes_reset h.scene h.sure _).after h.works
  | calling | paused => exact ⟨q,⟨h.sure.1,h.sure⟩,h.scene,h.works⟩

section Serving

variable {base : Bytes} {d : Direction} {h : RequestHeader} {oneway : Bool}

theorem goes_answer {reply : Reply} (hs : s.At k q) (heads : Heads RequestHeader.reader h base)
    (hone : oneway = decide (d = .unidirectional))
    (hr : Replied F (incoming peer oneway h) base d reply q) (hm : m.givenUp = false) :
    Goes F t.maxHeader peer k (some (incoming peer oneway h)) s.connection
      (answer t m oneway reply s) := by
  obtain ⟨v,hv,hfits⟩ := hr
  rw [hone] at hfits
  unfold answer
  split
  · have hlog : Scene.At { s with log := s.log ++ Event.told reply.drop } k q :=
      { hs with }
    have hserved := hv.hearing.served F t.maxHeader peer heads
    rw [← hone] at hserved
    exact goes_finish hlog hserved
  · have hsure := (Process.sure_respond q.standing q.attached reply t.maxHeader).mono
      (fun _ hp => hv.served_of_posts heads hfits hp.2)
      (fun _ _ hp => hv.served_of_posts heads hfits hp.2)
    rw [← hone] at hsure
    obtain ⟨q',hc⟩ := hsure.run hs hm
    exact goes_afterResponding hc

theorem goes_afterServing {work : Halted Reply} {deadline : Option Nat}
    (hd : h.fields.getWord? .deadline = none → deadline = none)
    (heads : Heads RequestHeader.reader h base) (hone : oneway = decide (d = .unidirectional))
    (hc : Course k (Hearing base d) (Replied F (incoming peer oneway h) base d) c (work, s) q)
    (hm : m.givenUp = false) :
    Goes F t.maxHeader peer k (some (incoming peer oneway h)) c
      (afterServing t m work oneway deadline s) := by
  have hserved (hh : Hearing base d q) :
      Served F t.maxHeader peer q.standing (some (incoming peer oneway h)) := by
    rw [hone]
    exact hh.served F t.maxHeader peer heads
  cases work with
  | done reply =>
    obtain ⟨hat,hw⟩ := hc.scene.complete
    obtain ⟨v,hv,hfits⟩ := hc.sure
    have hreplied : Replied F (incoming peer oneway h) base d reply q.complete :=
      ⟨_,hv.complete,hfits⟩
    exact (goes_answer hat heads hone hreplied hm).after (hc.works.trans hw)
  | calling w next =>
    exact ⟨q,⟨hserved hc.sure.1,h,base,d,hd,hone,heads,rfl,hc.sure⟩,hc.scene,hc.works⟩
  | paused w next =>
    exact ⟨q,⟨hserved hc.sure.1,h,base,d,hd,hone,heads,rfl,hc.sure⟩,hc.scene,hc.works⟩

end Serving

theorem isOneway_eq (hs : s.At k q) :
    isOneway s = decide (q.standing.direction = .unidirectional) := by
  obtain ⟨st,hst,hstanding,-⟩ := hs.stands
  unfold isOneway
  rw [hs.stream,hst,← hstanding]
  rfl

theorem goes_afterHeading (hf : t.service.Computes F)
    (hc : Course k (On false Standing.Silent) Headed c (work, s) q) (hm : m.givenUp = false) :
    Goes F t.maxHeader peer k (begun peer (work, s)) c (afterHeading t m peer work s) := by
  cases work with
  | calling | paused => exact ⟨q,⟨.unheard hc.sure.1.2,rfl,hc.sure⟩,hc.scene,hc.works⟩
  | done r =>
    cases r with
    | error e => exact (goes_reset hc.scene (.unheard hc.sure.2.1) _).after hc.works
    | ok h =>
      obtain ⟨hatt,hsilent,hok⟩ := hc.sure
      obtain ⟨base,heads,hread,hended,habandoned,hreadable⟩ := hok h rfl
      have hone := isOneway_eq hc.scene
      have hat : Scene.At { s with payload := .ofStream s.stream } k ⟨q.standing,true⟩ := by
        refine ⟨hc.scene.stream,hc.scene.stands,fun _ => ?_,fun hn => by cases hn⟩
        rw [← hc.scene.stream]
        rfl
      have hsees : Sees base q.standing.direction {} ⟨q.standing,true⟩ := by
        refine ⟨rfl,hsilent,hread ▸ List.prefix_rfl,fun _ => ?_,fun _ => hended,rfl,by simp,
          hreadable,fun _ => habandoned⟩
        simpa using hread
      have hcomputes := (hf (incoming peer (isOneway s) h)).map Reply.ofOutcome
      obtain ⟨q',hc'⟩ := (hcomputes.sure hsees).run hat hm
      have hdeadline (hn : h.fields.getWord? .deadline = none) :
          ((h.fields.getWord? .deadline).map fun time => m.now + time.toNat) = none := by
        rw [hn]
        rfl
      exact (goes_afterServing hdeadline heads hone hc' hm).after hc.works

theorem goes_start {a : Standing} (hf : t.service.Computes F) (hs : s.At k ⟨a,false⟩)
    (ha : a.Untouched) (hr : a.remote = true) (hm : m.givenUp = false) :
    Goes F t.maxHeader peer k (startRun t m peer s) s.connection (start t m peer s) := by
  have hsilent : a.Silent := ⟨ha.sent,ha.finished⟩
  have hsafe (got : Bytes) (a' : Standing)
      (h : (a.take got).Ages a' ∨ (a.take got).see.Ages a') : a'.Silent := by
    have htake : (a.take got).Silent := hsilent
    have hsee : (a.take got).see.Silent := hsilent
    exact h.elim htake.ages hsee.ages
  have hheaded (r : Except Error RequestHeader) (q : Post)
      (h : On false Standing.Silent q ∧
        ∀ x, r = .ok x → ∃ bytes, Heads RequestHeader.reader x bytes ∧ a.Reads bytes q.standing) :
      Headed r q := by
    refine ⟨h.1.1,h.1.2,fun x hx => ?_⟩
    obtain ⟨bytes,heads,hreads⟩ := h.2 x hx
    refine ⟨bytes,heads,?_,hreads.ended.trans ha.ended,hreads.abandoned.trans ha.abandoned,?_⟩
    · rw [hreads.read,ha.read,List.nil_append]
    · simp [Standing.readable,hreads.remote,hr]
  have hsure :=
    (Process.sure_receiveHeader (b := false) RequestHeader.reader t.maxHeader hsafe).mono
      (fun _ h => h) hheaded
  obtain ⟨q',hc⟩ := hsure.run hs hm
  exact goes_afterHeading hf hc hm

/-- The work on a stream goes on, if the request that was heard has no deadline. -/
theorem Follows.resume (hf : t.service.Computes F) (h : d.Follows F t.maxHeader peer k run q)
    (hs : s.At k q) (hm : m.givenUp = false)
    (hu : ∀ r, run = some r → r.fields.getWord? .deadline = none)
    (hr : d.resume t m peer s = some r) :
    Goes F t.maxHeader peer k (run.or (d.resumeRun m peer s)) s.connection r := by
  have hstage := h.stage
  cases d with
  | heading work =>
    obtain ⟨rfl,hsure⟩ := hstage
    obtain ⟨x,hx,rfl⟩ := Option.map_eq_some_iff.mp hr
    obtain ⟨q',hc⟩ := hsure.resume hs hm hx
    have hgoes : Goes F t.maxHeader peer k (begun peer x) s.connection
        (afterHeading t m peer x.1 x.2) :=
      goes_afterHeading hf hc hm
    simpa [resumeRun,hx] using hgoes
  | serving work oneway deadline =>
    obtain ⟨x,base,d,hnone,hone,heads,rfl,hsure⟩ := hstage
    obtain rfl := hnone (hu _ rfl)
    simp only [Dispatch.resume] at hr
    cases hwork : work.resume m s with
    | none =>
      rw [hwork] at hr
      cases hr
    | some y =>
      rw [hwork] at hr
      cases hr
      obtain ⟨q',hc⟩ := hsure.resume hs hm hwork
      exact goes_afterServing hnone heads hone hc hm
  | responding work =>
    obtain ⟨x,hx,rfl⟩ := Option.map_eq_some_iff.mp hr
    obtain ⟨q',hc⟩ := Halted.Sure.resume hstage hs hm hx
    have hgoes := goes_afterResponding hc
    simpa [resumeRun] using hgoes
  | _ => cases hr

/-- Terms that differ in their services only agree on everything but the request that is served. -/
theorem afterHeading_congr (hmax : t.maxHeader = t'.maxHeader)
    (h : ∀ r, begun peer (work, s) = some r → t.service r = t'.service r) :
    afterHeading t m peer work s = afterHeading t' m peer work s := by
  obtain ⟨service,max⟩ := t
  obtain ⟨service',max'⟩ := t'
  obtain rfl := hmax
  cases work with
  | calling | paused => rfl
  | done r =>
    cases r with
    | error e => rfl
    | ok x =>
      have hservice : service (incoming peer (isOneway s) x) =
          service' (incoming peer (isOneway s) x) := h _ rfl
      simp only [afterHeading,contained]
      rw [hservice]
      rfl

/-- A service is asked for nothing when the work begins but for the request that is recorded. -/
theorem start_congr (hmax : t.maxHeader = t'.maxHeader)
    (h : ∀ r, startRun t m peer s = some r → t.service r = t'.service r) :
    start t m peer s = start t' m peer s := by
  unfold start
  rw [← hmax]
  exact afterHeading_congr hmax h

theorem resume_congr (hmax : t.maxHeader = t'.maxHeader)
    (h : ∀ r, d.resumeRun m peer s = some r → t.service r = t'.service r) :
    d.resume t m peer s = d.resume t' m peer s := by
  cases d with
  | heading work =>
    apply Option.map_congr
    intro x hx
    exact afterHeading_congr hmax fun r hr => h r (by simpa [resumeRun,hx] using hr)
  | serving work oneway deadline =>
    obtain ⟨service,max⟩ := t
    obtain ⟨service',max'⟩ := t'
    obtain rfl := hmax
    rfl
  | responding | _ => rfl

end Dispatch

end Multiplex.Rpc
