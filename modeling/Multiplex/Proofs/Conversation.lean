import Multiplex.Proofs.Calling
import Multiplex.Proofs.Delivery
import Multiplex.Proofs.ProcessCalls
import Multiplex.Proofs.Serving
import Multiplex.Rpc.Deployment.Serving

/-!
A client and a server over two pipes, with any number of requests at a time and everything that can
happen to them, in any order. Nobody gives up, and nothing is disposed of before it is done.
-/

namespace Multiplex

namespace Duplex

def withConnection (x : Duplex) : Side → Connection → Duplex
  | .near, c => { x with near := x.near.withConnection c }
  | .far, c => { x with far := x.far.withConnection c }

end Duplex

namespace Rpc

/-- Where the work on a request has come to. -/
inductive Progress
  | sending (i : Invocation)
  | returned (result : Except Error Unit) (request : Request)
  | reading (goal : Option Nat) (r : Reading)

namespace Progress

def ofInvoked : Invoked → Progress
  | .waiting i => .sending i
  | .finished result request => .returned result request

def request : Progress → Request
  | .sending i => i.request
  | .returned _ request => request
  | .reading _ r => r.request

/-- What the invocation gave, once it has returned. Only a response is read. -/
def result? : Progress → Option (Except Error Unit)
  | .sending _ => none
  | .returned result _ => some result
  | .reading .. => some (.ok ())

end Progress

/-- A request of the client, on its way. -/
structure Errand where
  plea : Plea
  place : Option Nat
  progress : Progress
  taken : Taken := {}

/-- What the client can do about a request that was sent. -/
inductive Errand.Act
  | proceed
  | read (goal : Option Nat)
  | dispose

namespace Errand

def start (max : Nat) (m : Moment) (p : Plea) (c : Connection) : Errand × Connection :=
  let (state, s) := Invocation.start max m p.request { connection := c }
  ({ plea := p
     place := if c.streams.length < s.connection.streams.length then some c.streams.length else none
     progress := .ofInvoked state }, s.connection)

def afterRead (e : Errand) (goal : Option Nat) : ReadState → Errand
  | .waiting r => { e with progress := .reading goal r }
  | .finished result request =>
    { e with progress := .returned (.ok ()) request, taken := e.taken.add goal result }

def scene (e : Errand) (c : Connection) : Scene := { connection := c, stream := e.place.getD 0 }

def act (m : Moment) (e : Errand) (c : Connection) : Act → Errand × Connection
  | .proceed =>
    match e.progress with
    | .sending i =>
      match i.resume m { connection := c } with
      | some (state, s) => ({ e with progress := .ofInvoked state }, s.connection)
      | none => (e, c)
    | .reading goal r =>
      match r.resume m (e.scene c) with
      | some (state, s) => (e.afterRead goal state, s.connection)
      | none => (e, c)
    | .returned .. => (e, c)
  | .read goal =>
    match e.progress with
    | .returned _ request =>
      match request.response, request.disposed with
      | some response, false =>
        let (state, s) := Reading.start goal m request response (e.scene c)
        (e.afterRead goal state, s.connection)
      | _, _ => (e, c)
    | .sending _ | .reading .. => (e, c)
  | .dispose =>
    match e.progress with
    | .returned result request =>
      ({ e with progress := .returned result request.dispose.2 },
        (Scene.release { connection := c } request.dispose.1).connection)
    | .sending _ | .reading .. => (e, c)

end Errand

/-- The server's work on a stream that it has accepted. -/
structure Labor where
  stream : Nat
  payload : Payload
  guards : List Event
  dispatch : Dispatch
  runs : List Incoming

namespace Labor

def scene (l : Labor) (c : Connection) : Scene :=
  { connection := c, stream := l.stream, payload := l.payload, guards := l.guards }

def start (t : Terms) (m : Moment) (peer : String) (stream : Nat) (c : Connection) :
    Labor × Connection :=
  let (dispatch, s) := Dispatch.start t m peer { connection := c, stream }
  ({ stream, payload := s.payload, guards := s.guards, dispatch
     runs := (Dispatch.startRun t m peer { connection := c, stream }).toList }, s.connection)

def resume (t : Terms) (m : Moment) (peer : String) (l : Labor) (c : Connection) :
    Labor × Connection :=
  match l.dispatch.resume t m peer (l.scene c) with
  | some (dispatch, s) =>
    ({ l with
       payload := s.payload, guards := s.guards, dispatch
       runs := l.runs ++ (l.dispatch.resumeRun m peer (l.scene c)).toList }, s.connection)
  | none => (l, c)

end Labor

/-- A client and a server, with all requests between them. -/
structure Conversation where
  duplex : Duplex
  serving : ServingStage := .connecting
  errands : List Errand := []
  labors : List Labor := []

/-- When something happens, and which gates are open then. -/
structure Instant where
  now : Nat := 0
  gates : List String := []

/-- Nobody gives up. -/
def Instant.moment (t : Instant) : Moment := ⟨t.now, t.gates, false⟩

/-- What can happen in a conversation. -/
inductive Happening
  | connect (side : Side)
  | pull (side : Side) (seen room : Nat)
  | push (side : Side) (room : Nat)
  | invoke (p : Plea)
  | tend (n : Nat) (a : Errand.Act)
  | accept
  | serve (n : Nat)

namespace Conversation

/-- How a conversation is set up. -/
structure Setup where
  duplex : Duplex.Setup
  /-- The most bytes that a header may have at the client. -/
  maxHeader : Nat
  terms : Terms
  /-- What the server calls the client. -/
  peer : String

def Setup.withService (y : Setup) (service : Service) : Setup :=
  { y with terms := { y.terms with service } }

def start (y : Setup) : Conversation := { duplex := .start y.duplex }

def connection (x : Conversation) (side : Side) : Connection := x.duplex.connection side

def accept (y : Setup) (m : Moment) (x : Conversation) : Conversation :=
  match x.serving with
  | .connecting =>
    match x.duplex.far.endpoint.connected with
    | some (.ok _) => { x with serving := .accepting none }
    | _ => x
  | .accepting z =>
    match Deployment.callOrWake (x.connection .far) .accept z with
    | none => x
    | some (.wait z, c) =>
      { x with
        duplex := x.duplex.withConnection .far c
        serving := .accepting (some ⟨z, c.signal z⟩) }
    | some (.done (.ok (.stream i)), c) =>
      let (l, c) := Labor.start y.terms m y.peer i c
      { x with
        duplex := x.duplex.withConnection .far c
        serving := .accepting none
        labors := x.labors ++ [l] }
    | some (.done _, c) =>
      { x with duplex := x.duplex.withConnection .far c, serving := .ending none }
  | .ending _ => x

def step (y : Setup) (x : Conversation) (t : Instant) : Happening → Conversation
  | .connect side => { x with duplex := x.duplex.act (side, .connect t.now) }
  | .pull side seen room => { x with duplex := x.duplex.act (side, .pull t.now seen room) }
  | .push side room => { x with duplex := x.duplex.act (side, .push room) }
  | .invoke p =>
    let (e, c) := Errand.start y.maxHeader t.moment p (x.connection .near)
    { x with duplex := x.duplex.withConnection .near c, errands := x.errands ++ [e] }
  | .tend n a =>
    match x.errands[n]? with
    | none => x
    | some e =>
      let (e, c) := e.act t.moment (x.connection .near) a
      { x with duplex := x.duplex.withConnection .near c, errands := x.errands.set n e }
  | .accept => x.accept y t.moment
  | .serve n =>
    match x.labors[n]? with
    | none => x
    | some l =>
      let (l, c) := l.resume y.terms t.moment y.peer (x.connection .far)
      { x with duplex := x.duplex.withConnection .far c, labors := x.labors.set n l }

def run (y : Setup) (x : Conversation) (steps : List (Instant × Happening)) : Conversation :=
  steps.foldl (fun x e => x.step y e.1 e.2) x

end Conversation

end Rpc

/-- Whether `s` is the other end of `t`, and gave it all that was read there. -/
structure Stream.Feeds (s t : Stream) : Prop where
  known : s.id.isSome
  id : s.id = t.id
  direction : s.direction = t.direction
  order : t.standing.read <+: s.standing.sent
  ended : t.standing.ended = true → t.standing.read = s.standing.sent ∧ s.standing.finished = true

theorem Stream.Feeds.sent_ne_nil {s t : Stream} (h : s.Feeds t) (hr : t.standing.read ≠ []) :
    s.standing.sent ≠ [] := by
  intro hnil
  have horder := h.order
  rw [hnil,List.prefix_nil] at horder
  exact hr horder

namespace Connection

variable {c d : Connection} {w v : List Frame}

theorem Accord.strides {c' : Connection} (h : Accord c w d v) (hs : Strides c c')
    (hn : c'.Numbered) : Accord c' w d v := by
  induction hs with
  | refl => exact h
  | tail _ he ih =>
    have ha := ih (hn.of_later he.later)
    exact ha.evolves he ha.ready hn

theorem Registry.read_eq (h : c.Registry) {i : Nat} {s : Stream} {id : StreamId}
    (hi : c.streams[i]? = some s) (hid : s.id = some id) :
    c.bytesRead id = s.standing.read ∧ c.endSeen id = s.standing.ended := by
  have hrecord : c.record id = some s := (record_eq_some_iff h).mpr ⟨hid,i,hi⟩
  simp [bytesRead,endSeen,hrecord,Stream.standing]

theorem Accord.feeds (h : Accord c w d v) {j : Nat} {t : Stream} (hj : d.streams[j]? = some t)
    (hr : t.standing.read ≠ []) : ∃ (i : Nat) (s : Stream), c.streams[i]? = some s ∧ s.Feeds t := by
  have hnear : c.Registry := h.sound.toRegistry
  have hfar : d.Registry := h.symm.sound.toRegistry
  cases hid : t.id with
  | none =>
    have hledger := (hfar.idle hj hid).1.ledger
    exact absurd (by simp [Stream.standing,hledger,Ledger.bytes]) hr
  | some id =>
    obtain ⟨hread,hseen⟩ := hfar.read_eq hj hid
    have hprefix : d.bytesRead id <+: c.bytesSent id :=
      (hfar.bytesRead_prefix id).trans (h.near.bytesReceived_prefix id)
    cases hs : c.record id with
    | none =>
      -- Nothing was sent on a stream that is not there.
      have hnil : t.standing.read = [] := by simpa [bytesSent,hs,hread] using hprefix
      exact absurd hnil hr
    | some s =>
      have hsent : c.bytesSent id = s.standing.sent := by simp [bytesSent,hs,Stream.standing]
      have hfinished : c.endSent id = s.standing.finished := by simp [endSent,hs,Stream.standing]
      obtain ⟨hsid,i,hi⟩ := (record_eq_some_iff hnear).mp hs
      refine ⟨i,s,hi,by simp [hsid],hsid.trans hid.symm,?_,?_,fun he => ?_⟩
      · exact (hnear.held hi hsid).direction.trans (hfar.held hj hid).direction.symm
      · rwa [← hread,← hsent]
      · obtain ⟨hb,hf⟩ := hfar.bytesRead_of_endSeen (hseen.trans he)
        obtain ⟨hb',hq⟩ := h.near.bytesReceived_of_fin hf
        exact ⟨by rw [← hread,← hsent,hb,hb'],hfinished.symm.trans hq⟩

end Connection

namespace Duplex

variable {side : Side}

open Connection

variable {names : Option (Identity × Identity)} {own peer : Options} {x : Duplex} {c : Connection}

theorem withConnection_self (x : Duplex) (side : Side) :
    x.withConnection side (x.connection side) = x := by
  cases side <;> rfl

theorem Staged.withConnection (h : x.Staged) (hd : (x.connection side).Drifts c) :
    (x.withConnection side c).Staged := by
  cases side with
  | near => exact ⟨h.near.fade hd.fades,h.far⟩
  | far => exact ⟨h.near,h.far.fade hd.fades⟩

theorem Numbered.of_withConnection (h : (x.withConnection side c).Numbered)
    (hd : (x.connection side).Drifts c) : x.Numbered := by
  cases side with
  | near => exact ⟨h.1.of_later hd.later,h.2⟩
  | far => exact ⟨h.1,h.2.of_later hd.later⟩

theorem Coherent.withNear (h : Coherent names own peer x) (hs : (x.connection .near).Strides c)
    (hn : c.Numbered) : Coherent names own peer (x.withConnection .near c) := by
  obtain ⟨w,v,hj⟩ := h.joint
  have hd := hs.drifts
  exact ⟨⟨w,v,hj.fade (hj.accord.strides hs hn) hd.fades⟩,h.near,h.far,hd.later.options.trans h.own,
    h.peer⟩

theorem Coherent.withConnection (h : Coherent names own peer x) (hs : (x.connection side).Strides c)
    (hn : c.Numbered) : Coherent names own peer (x.withConnection side c) := by
  cases side with
  | near => exact h.withNear hs hn
  | far =>
    have hc := (h.swap.withNear hs hn).swap
    have hnames : (names.map Prod.swap).map Prod.swap = names := by
      cases names <;> rfl
    rwa [hnames] at hc

end Duplex

namespace Rpc

open Connection

theorem Errand.drifts_start (max : Nat) (m : Moment) (p : Plea) (c : Connection) :
    c.Drifts (Errand.start max m p c).2 :=
  Invocation.drifts_start m max p.request (s := { connection := c }) (.refl c)

theorem Errand.drifts_act (m : Moment) (e : Errand) (c : Connection) (a : Act) :
    c.Drifts (e.act m c a).2 := by
  cases a with
  | proceed =>
    unfold act
    dsimp only
    split
    · split
      · rename_i hr
        exact Invocation.drifts_resume m (s := { connection := c }) (.refl c) hr
      · exact .refl c
    · split
      · rename_i hr
        exact Reading.drifts_resume m (s := e.scene c) (.refl c) hr
      · exact .refl c
    · exact .refl c
  | read goal =>
    unfold act
    dsimp only
    split
    · split
      · exact Reading.drifts_start m goal _ _ (s := e.scene c) (.refl c)
      · exact .refl c
    · exact .refl c
    · exact .refl c
  | dispose =>
    unfold act
    dsimp only
    split
    · exact Scene.drifts_release (s := { connection := c }) (.refl c) _
    · exact .refl c
    · exact .refl c

theorem Labor.drifts_start (t : Terms) (m : Moment) (peer : String) (i : Nat) (c : Connection) :
    c.Drifts (Labor.start t m peer i c).2 :=
  Dispatch.drifts_start m t peer (s := { connection := c, stream := i }) (.refl c)

theorem Labor.drifts_resume (t : Terms) (m : Moment) (peer : String) (l : Labor) (c : Connection) :
    c.Drifts (l.resume t m peer c).2 := by
  unfold resume
  split
  · rename_i hr
    exact Dispatch.drifts_resume m t peer (s := l.scene c) (.refl c) hr
  · exact .refl c

namespace Conversation

variable {y : Setup} {x : Conversation} {d d' : Duplex}

/-- Whether something happened to one end, or calls were made there. -/
inductive Shifts (x : Duplex) : Duplex → Prop
  | act (e : Side × Multiplex.Event) : Shifts x (x.act e)
  | calls {side : Side} {c : Connection} (h : (x.connection side).Drifts c) :
      Shifts x (x.withConnection side c)

theorem Shifts.refl (x : Duplex) : Shifts x x := by
  have hsame : Shifts x (x.withConnection .near (x.connection .near)) := .calls (.refl _)
  rwa [x.withConnection_self] at hsame

theorem shifts_accept (y : Setup) (m : Moment) (x : Conversation) :
    Shifts x.duplex (x.accept y m).duplex := by
  unfold accept
  split
  · split <;> exact .refl _
  · split
    · exact .refl _
    · rename_i hr
      exact .calls (drifts_callOrWake hr)
    · rename_i i c hr
      exact .calls ((drifts_callOrWake hr).trans (Labor.drifts_start y.terms m y.peer i c))
    · rename_i hr
      exact .calls (drifts_callOrWake hr)
  · exact .refl _

theorem shifts_step (y : Setup) (x : Conversation) (t : Instant) (h : Happening) :
    Shifts x.duplex (x.step y t h).duplex := by
  cases h with
  | connect | pull | push => exact .act _
  | invoke p =>
    have hd := Errand.drifts_start y.maxHeader t.moment p (x.connection .near)
    exact .calls hd
  | tend n a =>
    unfold step
    dsimp only
    split
    · exact .refl _
    · rename_i e he
      have hd := e.drifts_act t.moment (x.connection .near) a
      exact .calls hd
  | accept => exact shifts_accept y _ x
  | serve n =>
    unfold step
    dsimp only
    split
    · exact .refl _
    · rename_i l hl
      have hd := l.drifts_resume y.terms t.moment y.peer (x.connection .far)
      exact .calls hd

theorem Shifts.staged (h : Shifts d d') (hs : d.Staged) : d'.Staged := by
  cases h with
  | act e => exact hs.act e
  | calls hd => exact hs.withConnection hd

theorem Shifts.numbered (h : Shifts d d') (hs : d.Staged) (hn : d'.Numbered) : d.Numbered := by
  cases h with
  | act e => exact hn.of_act hs
  | calls hd => exact hn.of_withConnection hd

theorem run_append (y : Setup) (x : Conversation) (steps : List (Instant × Happening))
    (e : Instant × Happening) : x.run y (steps ++ [e]) = (x.run y steps).step y e.1 e.2 := by
  simp [run]

theorem staged_run (y : Setup) (steps : List (Instant × Happening)) :
    ((start y).run y steps).duplex.Staged := by
  induction steps using List.reverseRecOn with
  | nil => exact Duplex.staged_run y.duplex []
  | append_singleton steps e ih =>
    rw [run_append]
    exact (shifts_step y _ e.1 e.2).staged ih

end Conversation

section Record

variable {y : Conversation.Setup} {x : Conversation} {service : Service} {m : Moment}
  {c : Connection}

theorem Dispatch.resume_ne_none {d : Dispatch} {s : Scene} {r : Incoming} {t : Terms}
    {peer : String} (h : d.resumeRun m peer s = some r) : d.resume t m peer s ≠ none := by
  cases d with
  | heading work =>
    obtain ⟨z,hz,-⟩ := Option.bind_eq_some_iff.mp h
    simp [Dispatch.resume,hz]
  | _ => cases h

theorem Labor.start_congr {i : Nat}
    (h : ∀ r ∈ (Labor.start y.terms m y.peer i c).1.runs, y.terms.service r = service r) :
    Labor.start y.terms m y.peer i c = Labor.start (y.withService service).terms m y.peer i c := by
  have hsame : Dispatch.start y.terms m y.peer { connection := c, stream := i } =
      Dispatch.start (y.withService service).terms m y.peer { connection := c, stream := i } :=
    Dispatch.start_congr rfl fun r hr => h r (by simp [Labor.start,hr])
  unfold Labor.start
  rw [hsame]
  rfl

theorem Labor.resume_congr {l : Labor}
    (h : ∀ r ∈ (l.resume y.terms m y.peer c).1.runs, y.terms.service r = service r) :
    l.resume y.terms m y.peer c = l.resume (y.withService service).terms m y.peer c := by
  have hsame : l.dispatch.resume y.terms m y.peer (l.scene c) =
      l.dispatch.resume (y.withService service).terms m y.peer (l.scene c) := by
    refine Dispatch.resume_congr rfl fun r hr => h r ?_
    unfold Labor.resume
    split
    · simp [hr]
    · rename_i hnone
      exact absurd hnone (Dispatch.resume_ne_none hr)
  unfold Labor.resume
  rw [hsame]

namespace Conversation

theorem runs_step (y : Setup) (x : Conversation) (t : Instant) (e : Happening) {l : Labor}
    {r : Incoming} (hl : l ∈ x.labors) (hr : r ∈ l.runs) :
    ∃ l' ∈ (x.step y t e).labors, r ∈ l'.runs := by
  cases e with
  | connect | pull | push | invoke => exact ⟨l,hl,hr⟩
  | tend n a =>
    unfold step
    dsimp only
    split <;> exact ⟨l,hl,hr⟩
  | accept =>
    unfold step accept
    dsimp only
    split
    · split <;> exact ⟨l,hl,hr⟩
    · split
      · exact ⟨l,hl,hr⟩
      · exact ⟨l,hl,hr⟩
      · exact ⟨l,List.mem_append_left _ hl,hr⟩
      · exact ⟨l,hl,hr⟩
    · exact ⟨l,hl,hr⟩
  | serve n =>
    unfold step
    dsimp only
    split
    · exact ⟨l,hl,hr⟩
    · rename_i l₀ hl₀
      obtain ⟨n',hn'⟩ := List.mem_iff_getElem?.mp hl
      by_cases hn : n' = n
      · subst hn
        cases hl₀.symm.trans hn'
        refine ⟨_,List.mem_set (List.getElem?_eq_some_iff.mp hn').1 _,?_⟩
        unfold Labor.resume
        split
        · exact List.mem_append_left _ hr
        · exact hr
      · refine ⟨l,List.mem_iff_getElem?.mpr ⟨n',?_⟩,hr⟩
        rwa [List.getElem?_set_ne (Ne.symm hn)]

theorem step_congr (t : Instant) (e : Happening)
    (h : ∀ l ∈ (x.step y t e).labors, ∀ r ∈ l.runs, y.terms.service r = service r) :
    x.step y t e = x.step (y.withService service) t e := by
  cases e with
  | connect | pull | push | invoke | tend => rfl
  | accept =>
    revert h
    unfold step accept
    dsimp only
    split
    · exact fun _ => rfl
    · split
      · exact fun _ => rfl
      · exact fun _ => rfl
      · intro h
        dsimp only at h ⊢
        have hsame := Labor.start_congr (h _ (List.mem_append_right _ (List.mem_singleton_self _)))
        rw [hsame]
        rfl
      · exact fun _ => rfl
    · exact fun _ => rfl
  | serve n =>
    revert h
    unfold step
    dsimp only
    split
    · exact fun _ => rfl
    · rename_i l hl
      intro h
      have hsame := Labor.resume_congr
        (h _ (List.mem_set (List.getElem?_eq_some_iff.mp hl).1 _))
      rw [hsame]
      rfl

/-- A service is asked for nothing but the requests on record: one that agrees on them leads to the
same conversation. -/
theorem run_congr (y : Setup) (service : Service) (steps : List (Instant × Happening))
    (h : ∀ l ∈ ((start y).run y steps).labors, ∀ r ∈ l.runs, y.terms.service r = service r) :
    (start y).run y steps = (start y).run (y.withService service) steps := by
  induction steps using List.reverseRecOn with
  | nil => rfl
  | append_singleton steps e ih =>
    rw [run_append] at h ⊢
    rw [run_append,← ih ?_,step_congr e.1 e.2 h]
    intro l hl r hr
    obtain ⟨l',hl',hr'⟩ := runs_step y _ e.1 e.2 hl hr
    exact h l' hl' r hr'

end Conversation

end Record

end Rpc

end Multiplex
