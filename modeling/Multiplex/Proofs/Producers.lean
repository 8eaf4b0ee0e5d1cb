import Multiplex.Rpc.Dispatch
import Multiplex.Rpc.Invocation
import Mathlib.Data.List.Induction

/-!
Whoever produces a payload is told once that it is no longer needed. Four ways of using a request
let a producer down; there is no other.
-/

namespace Multiplex.Rpc

variable {s s' : Scene} {said es : List Event} {α : Type}

def Event.completed? : Event → Option String
  | .completed name => some name
  | .before .. | .after .. | .faulted .. | .entered _ | .endOfPayload | .sawCancellation | .failed _
  | .body _ | .dropped => none

/-- The producers that were told, in the order of the log. -/
def completions (log : List Event) : List String := log.filterMap Event.completed?

@[simp]
theorem completions_nil : completions [] = [] := rfl

@[simp]
theorem completions_append (log more : List Event) :
    completions (log ++ more) = completions log ++ completions more :=
  List.filterMap_append

@[simp]
theorem completions_told (names : List String) : completions (Event.told names) = names := by
  unfold completions Event.told
  induction names with
  | nil => rfl
  | cons name names ih => simpa [Event.completed?] using ih

namespace Process

variable {β : Type} {fs : List Event} {p : Process α}

/-- A process that leaves its payload alone, and what it notes on its way, whichever it takes. -/
inductive Tells : List Event → Process α → Prop
  | done (a : α) : Tells [] (.done a)
  | note {es : List Event} {next : Process α} (e : Event) (h : Tells es next) :
      Tells (e :: es) (.note e next)
  | pause {es : List Event} {next : Process α} (p : Pause) (h : Tells es next) :
      Tells es (.pause p next)
  | call {es : List Event} {next : Except Failure Answer → Process α} (c : StreamCall)
      (h : ∀ r, Tells es (next r)) : Tells es (.call c next)

theorem Tells.bind {es : List Event} {f : α → Process β} (hp : Tells es p)
    (hf : ∀ a, Tells fs (f a)) : Tells (es ++ fs) (p.bind f) := by
  induction hp with
  | done a => exact hf a
  | note e _ ih => exact .note e ih
  | pause p _ ih => exact .pause p ih
  | call c _ ih => exact .call c ih

theorem Tells.andThen {p : Process (Except Error α)} {f : α → Process (Except Error β)}
    (hp : Tells [] p) (hf : ∀ a, Tells [] (f a)) : Tells [] (p.andThen f) := by
  change Tells ([] ++ []) (p.bind _)
  apply hp.bind
  intro r
  cases r with
  | ok a => exact hf a
  | error e => exact .done _

theorem Tells.notes (h : Tells fs p) (es : List Event) : Tells (es ++ fs) (.notes es p) := by
  induction es with
  | nil => exact h
  | cons e es ih => exact .note e ih

end Process

/-- What a process that was stopped still notes. -/
def Halted.Tells {α : Type} (es : List Event) : Halted α → Prop
  | .done _ => es = []
  | .calling _ next => ∀ r, (next r).Tells es
  | .paused _ next => next.Tells es

/-- The scene after something was noted in it; the connection may be another one. -/
structure Scene.Notes (s : Scene) (said : List Event) (s' : Scene) : Prop where
  log : s'.log = s.log ++ said
  guards : s'.guards = s.guards
  payload : s'.payload = s.payload
  stream : s'.stream = s.stream

theorem Scene.Notes.of_connection (s : Scene) (connection : Connection) :
    s.Notes [] { s with connection } := by
  constructor <;> simp

theorem Scene.Notes.trans {s'' : Scene} {more : List Event} (h : s.Notes said s')
    (h' : s'.Notes more s'') : s.Notes (said ++ more) s'' := by
  refine ⟨?_,h'.guards.trans h.guards,h'.payload.trans h.payload,h'.stream.trans h.stream⟩
  rw [h'.log,h.log,List.append_assoc]

/-- A process that was run has noted some of what it notes, and the rest is still to come. -/
theorem Process.Tells.run {p : Process α} (h : p.Tells es) (m : Moment) (s : Scene) :
    ∃ said rest, es = said ++ rest ∧ s.Notes said (p.run m s).2 ∧ (p.run m s).1.Tells rest := by
  induction h generalizing s with
  | done a => exact ⟨[],[],rfl,.of_connection s s.connection,rfl⟩
  | @note es next e _ ih =>
    obtain ⟨said,rest,rfl,hn,ht⟩ := ih (s.note e)
    refine ⟨e :: said,rest,rfl,?_,ht⟩
    have hfirst : s.Notes [e] (s.note e) := ⟨rfl,rfl,rfl,rfl⟩
    exact hfirst.trans hn
  | @pause es next p hnext ih =>
    unfold Process.run
    split
    · exact ih s
    · exact ⟨[],es,rfl,.of_connection s s.connection,hnext⟩
  | @call es next c hnext ih =>
    unfold Process.run
    split
    · rename_i r connection _
      obtain ⟨said,rest,he,hn,ht⟩ := ih r { s with connection }
      exact ⟨said,rest,he,(Scene.Notes.of_connection s connection).trans hn,ht⟩
    · exact ⟨[],es,rfl,.of_connection s _,hnext⟩

theorem Halted.Tells.resume {h h' : Halted α} {m : Moment} (ht : h.Tells es)
    (hx : h.resume m s = some (h', s')) :
    ∃ said rest, es = said ++ rest ∧ s.Notes said s' ∧ h'.Tells rest := by
  cases h with
  | done a => cases hx
  | calling w next =>
    unfold Halted.resume at hx
    dsimp only at hx
    split at hx
    · cases hx
    · rename_i r connection _
      obtain ⟨said,rest,he,hn,hrest⟩ := (ht r).run m { s with connection }
      rw [Option.some.inj hx] at hn hrest
      exact ⟨said,rest,he,(Scene.Notes.of_connection s connection).trans hn,hrest⟩
    · cases hx
      exact ⟨[],es,rfl,.of_connection s _,ht⟩
  | paused hold next =>
    unfold Halted.resume at hx
    dsimp only at hx
    split at hx
    · have hrun := Process.Tells.run ht m s
      rwa [Option.some.inj hx] at hrun
    · cases hx

section Parts

theorem tells_ask (c : StreamCall) : (Process.ask c).Tells [] := by
  refine .call c fun r => ?_
  cases r <;> exact .done _

theorem tells_sendHeader (text : Bytes) (max : Nat) : (sendHeader text max).Tells [] := by
  unfold sendHeader
  split
  · exact tells_ask _
  · exact .done _

theorem tells_sendSteps (failure : Option String) (steps : List SourceStep) :
    (sendSteps failure steps).Tells [] := by
  induction steps with
  | nil =>
    unfold sendSteps
    split <;> exact .done _
  | cons step rest ih =>
    cases step with
    | chunk data => exact (tells_ask _).andThen fun _ => ih
    | gate name => exact .pause _ ih

theorem tells_sendSource (source : Option Source) : (sendSource source).Tells [] := by
  cases source with
  | none => exact .done _
  | some s => exact tells_sendSteps _ _

theorem tells_receiveExact (count : Nat) : (receiveExact count).Tells [] := by
  refine .call _ fun r => ?_
  split <;> exact .done _

theorem tells_receiveHeader {α : Type} (reader : Json.Reader α) (max : Nat) :
    (receiveHeader reader max).Tells [] := by
  refine (tells_receiveExact _).andThen fun length => ?_
  dsimp only
  split
  · exact .done _
  · refine (tells_receiveExact _).andThen fun text => ?_
    split <;> exact .done _

/-- The caller's part leaves its producer alone: it is told when the exchange is over. -/
theorem tells_exchange (header : RequestHeader) (source : Option Source) (oneway : Bool)
    (max : Nat) :
    (exchange header source oneway max).Tells [] := by
  refine (tells_sendHeader _ _).andThen fun _ => (tells_sendSource _).andThen fun _ =>
    (tells_ask _).andThen fun _ => ?_
  split
  · exact (tells_ask _).andThen fun _ => .done _
  · exact (tells_receiveHeader _ _).andThen fun _ => .done _

/-- The server's part tells the producer of a reply once, on every way. -/
theorem tells_respond (reply : Reply) (max : Nat) :
    (respond reply max).Tells (Event.told reply.drop) := by
  have hrest (sent : Except Error Unit) : Process.Tells (Event.told reply.drop ++ [])
      (.notes (Event.told reply.drop) <| (Process.done sent).andThen fun _ =>
        (Process.ask .finish).andThen fun _ => Process.ask .flush) :=
    .notes (.andThen (.done sent) fun _ => (tells_ask _).andThen fun _ => tells_ask _) _
  have hsend :=
    (tells_sendHeader reply.header.encode max).andThen fun _ => tells_sendSource reply.payload
  have hboth := hsend.bind hrest
  rwa [List.nil_append,List.append_nil] at hboth

end Parts

/-- Nobody watches the payload of the response. -/
def Request.Unwatched (r : Request) : Prop := ∀ x ∈ r.response, x.payload.watchers = []

/-- A request in the hands of its owner. -/
inductive Holder
  | idle (r : Request)
  | invoking (i : Invocation)
  | dropped

/-- What the owner of a request can do with it. What else goes on at its connection shows in the
connection that an invocation finds. -/
inductive Act
  | withPayload (s : Source)
  | setPayload (s : Source)
  | setField (key : RequestKey) (value : Bytes)
  | setFeatures (features : Features)
  | invoke (maxHeader : Nat) (m : Moment) (connection : Connection)
  | resume (m : Moment) (connection : Connection)
  /-- The invocation is given up. The request stays. -/
  | abandon
  | dispose
  | drop (connection : Connection)

namespace Holder

def held : Holder → List String
  | .idle r => Source.told r.payload
  | .invoking i => Source.told i.source
  | .dropped => []

/-- Where an invocation leaves its request, and the producers it told. -/
def settle : Invoked × Scene → Holder × List String
  | (.waiting i, s) => (.invoking i, completions s.log)
  | (.finished _ r, s) => (.idle r, completions s.log)

/-- What an act leads to, and the producers that are told. While it is invoked, a request can only
be waited for, given up or dropped. -/
def step : Holder → Act → Holder × List String
  | .idle r, .withPayload s => (.idle (r.withPayload s), [])
  | .idle r, .setPayload s =>
    match r.setPayload s with
    | .ok (told, r) => (.idle r, told)
    | .error _ => (.idle r, [])
  | .idle r, .setField key value =>
    match r.setField key value with
    | .ok r => (.idle r, [])
    | .error _ => (.idle r, [])
  | .idle r, .setFeatures features => (.idle { r with features }, [])
  | .idle r, .invoke maxHeader m connection =>
    settle (Invocation.start maxHeader m r { connection })
  | .idle r, .dispose => (.idle r.dispose.2, r.dispose.1.told)
  | .idle r, .drop _ => (.dropped, r.dispose.1.told)
  | .invoking i, .resume m connection =>
    match i.resume m { connection } with
    | some x => settle x
    | none => (.invoking i, [])
  | .invoking i, .abandon => (.idle i.request, [])
  | .invoking i, .drop connection => (.dropped, completions (i.drop { connection }).log)
  | h, _ => (h, [])

def hands : Holder → Act → List String
  | .idle _, .withPayload s | .idle _, .setPayload s => s.name.toList
  | _, _ => []

/-- The producers that an act lets down: they are never told. -/
def loses : Holder → Act → List String
  /- Another one takes the place of the first. -/
  | .idle r, .withPayload _ => Source.told r.payload
  /- It comes too late to be sent. -/
  | .idle r, .setPayload s => if r.disposed || r.sent then s.name.toList else []
  /- It came after the request was disposed of. -/
  | .idle r, .drop _ => if r.disposed then Source.told r.payload else []
  /- The invocation that was to send it is given up. -/
  | .invoking i, .abandon | .invoking i, .drop _ => Source.told i.source
  | _, _ => []

/-- What is true of a request, and of an invocation, at any time. -/
def Sound : Holder → Prop
  | .idle r => r.Unwatched
  | .invoking i => i.request.Unwatched ∧ i.request.payload = none ∧ i.work.Tells []
  | .dropped => True

end Holder

namespace Request

variable {r r' : Request} {x : Response}

theorem setPayload_eq (r : Request) (s : Source) :
    r.setPayload s = if r.disposed then .error .requestDisposed
      else if r.sent then .error .requestAlreadySent
      else .ok (Source.told r.payload, r.withPayload s) := by
  unfold setPayload checkUnsent
  split
  · rfl
  · split <;> rfl

theorem setField_eq_ok {key : RequestKey} {value : Bytes} (h : r.setField key value = .ok r') :
    r' = { r with fields := r.fields.set key value } := by
  unfold setField at h
  cases hc : r.checkUnsent with
  | error e =>
    rw [hc] at h
    cases h
  | ok u =>
    rw [hc] at h
    cases h
    rfl

theorem beginSend_eq_ok {source : Option Source} (h : r.beginSend = .ok (source, r')) :
    source = r.payload ∧ r' = { r with sent := true, payload := none } := by
  unfold beginSend at h
  cases hc : r.checkUnsent with
  | error e =>
    rw [hc] at h
    cases h
  | ok u =>
    rw [hc] at h
    cases h
    exact ⟨rfl,rfl⟩

theorem released_told (a b : Released) : (a ++ b).told = a.told ++ b.told := rfl

theorem Response.dispose_told (h : x.payload.watchers = []) :
    x.dispose.1.told = [] ∧ x.dispose.2.payload.watchers = [] := by
  unfold Response.dispose
  split
  · exact ⟨rfl,h⟩
  · exact ⟨h,rfl⟩

theorem Unwatched.dispose (h : r.Unwatched) :
    r.dispose.1.told = (if r.disposed then [] else Source.told r.payload) ∧
      r.dispose.2.payload = (if r.disposed then r.payload else none) ∧ r.dispose.2.Unwatched := by
  unfold Request.dispose
  split
  · exact ⟨rfl,rfl,h⟩
  · dsimp only
    split
    · rename_i x hx
      obtain ⟨htold,hwatch⟩ := Response.dispose_told (h x hx)
      refine ⟨?_,rfl,?_⟩
      · rw [released_told,htold,List.append_nil]
      · intro y hy
        cases hy
        exact hwatch
    · rename_i hx
      refine ⟨rfl,rfl,?_⟩
      intro y hy
      cases (show r.response = some y from hy).symm.trans hx

theorem Unwatched.setResponse (h : r.Unwatched) (hx : x.payload.watchers = []) :
    (r.setResponse x).2.1.told = [] ∧ (r.setResponse x).2.2.payload = r.payload ∧
      (r.setResponse x).2.2.Unwatched := by
  unfold Request.setResponse
  split
  · exact ⟨(Response.dispose_told hx).1,rfl,h⟩
  · refine ⟨?_,rfl,?_⟩
    · dsimp only
      split
      · rename_i y hy
        exact (Response.dispose_told (h y hy)).1
      · rfl
    · intro y hy
      cases hy
      exact hx

end Request

/-- What an invocation comes to: its request is sound, and whoever was to be told is told or
held. -/
structure Settled (source : Option Source) (x : Invoked × Scene) : Prop where
  sound : (Holder.settle x).1.Sound
  told : (Holder.settle x).2 ++ (Holder.settle x).1.held = Source.told source

namespace Invocation

variable {i : Invocation} {r : Request}

theorem settled_of_told {result : Except Error Unit} (hr : r.Unwatched) (hp : r.payload = none)
    (hl : completions s.log = Source.told i.source) : Settled i.source (.finished result r, s) := by
  refine ⟨hr,?_⟩
  simp only [Holder.settle,Holder.held,hl,hp]
  exact List.append_nil _

theorem settled_conclude (outcome : Except Error (Option ResponseHeader)) (hr : i.request.Unwatched)
    (hp : i.request.payload = none) (hl : s.log = []) :
    Settled i.source (i.conclude outcome s) := by
  have htold : completions (s.log ++ Event.told (Source.told i.source)) = Source.told i.source := by
    simp [hl]
  unfold conclude
  dsimp only
  split
  · rename_i h
    obtain ⟨hnone,hpayload,hunwatched⟩ := hr.setResponse
      (x := { status := h.status, errorMessage := h.errorMessage, fields := h.fields
              payload := .ofStream i.stream }) rfl
    refine settled_of_told hunwatched (hpayload.trans hp) ?_
    simp [Scene.release,hl,hnone]
  · exact settled_of_told hr hp htold
  · exact settled_of_told hr hp htold

theorem settled_afterWork (hr : i.request.Unwatched) (hp : i.request.payload = none)
    (hw : i.work.Tells []) (hl : s.log = []) : Settled i.source (i.afterWork s) := by
  unfold afterWork
  split
  · exact settled_conclude _ hr hp hl
  · refine ⟨⟨hr,hp,hw⟩,?_⟩
    simp only [Holder.settle,hl,completions_nil,List.nil_append]
    rfl

theorem settled_start (hr : r.Unwatched) (maxHeader : Nat) (m : Moment) (connection : Connection) :
    Settled r.payload (start maxHeader m r { connection }) := by
  unfold start
  dsimp only
  split
  · exact ⟨hr,rfl⟩
  · split
    · exact ⟨hr,rfl⟩
    · rename_i source request hsend
      obtain ⟨rfl,rfl⟩ := Request.beginSend_eq_ok hsend
      split
      · refine ⟨hr,?_⟩
        simp only [Holder.settle,Holder.held,List.nil_append,completions_told]
        exact List.append_nil _
      · rename_i stream c _
        obtain ⟨said,rest,he,hn,ht⟩ := (tells_exchange ⟨_,_,_⟩ r.payload r.oneway maxHeader).run m
          ({ connection := c, stream } : Scene)
        obtain ⟨rfl,rfl⟩ := List.append_eq_nil_iff.mp he.symm
        exact settled_afterWork (i := ⟨_,_,_,_,_⟩) hr rfl ht hn.log

theorem settled_resume {m : Moment} {connection : Connection} {x : Invoked × Scene}
    (hr : i.request.Unwatched) (hp : i.request.payload = none) (hw : i.work.Tells [])
    (hx : i.resume m { connection } = some x) : Settled i.source x := by
  unfold resume at hx
  dsimp only at hx
  split at hx
  · rename_i work s hwork
    cases hx
    obtain ⟨said,rest,he,hn,ht⟩ := hw.resume hwork
    obtain ⟨rfl,rfl⟩ := List.append_eq_nil_iff.mp he.symm
    exact settled_afterWork (i := { i with work }) hr hp ht hn.log
  · split at hx
    · cases hx
      exact settled_conclude _ hr hp rfl
    · cases hx
  · cases hx

end Invocation

namespace Holder

/-- One act keeps a request sound, and every producer that was held or is handed over is told, lost
or held. -/
theorem Sound.step {h : Holder} (hs : h.Sound) (a : Act) : (h.step a).1.Sound ∧
      ((h.step a).2 ++ h.loses a ++ (h.step a).1.held).Perm (h.held ++ h.hands a) := by
  have hquiet {h : Holder} {told : List String} {h' : Holder} (ht : told ++ h'.held = h.held) :
      (told ++ [] ++ h'.held).Perm (h.held ++ []) := by
    rw [List.append_nil,List.append_nil,ht]
  cases h with
  | dropped => cases a <;> exact ⟨trivial,.refl _⟩
  | idle r =>
    cases a with
    | withPayload s => exact ⟨hs,.refl _⟩
    | setPayload s =>
      simp only [Holder.step,loses,hands,Request.setPayload_eq]
      cases hd : r.disposed with
      | true => exact ⟨hs,List.perm_append_comm⟩
      | false =>
        cases hx : r.sent with
        | true => exact ⟨hs,List.perm_append_comm⟩
        | false => exact ⟨hs,by simp [held,Request.withPayload,Source.told,Source.complete]⟩
    | setField key value =>
      simp only [Holder.step,loses,hands]
      split
      · rename_i r' hr
        rw [Request.setField_eq_ok hr]
        exact ⟨hs,hquiet rfl⟩
      · exact ⟨hs,hquiet rfl⟩
    | invoke maxHeader m connection =>
      obtain ⟨hsound,htold⟩ := Invocation.settled_start hs maxHeader m connection
      exact ⟨hsound,hquiet htold⟩
    | dispose =>
      obtain ⟨htold,hpayload,hunwatched⟩ := Request.Unwatched.dispose hs
      have hsame : r.dispose.1.told ++ Source.told r.dispose.2.payload = Source.told r.payload := by
        rw [htold,hpayload]
        cases r.disposed with
        | true => rfl
        | false => exact List.append_nil _
      exact ⟨hunwatched,hquiet hsame⟩
    | drop connection =>
      obtain ⟨htold,-,-⟩ := Request.Unwatched.dispose hs
      refine ⟨trivial,?_⟩
      simp only [Holder.step,loses,held,hands,htold]
      cases hd : r.disposed <;> simp
    | setFeatures | resume | abandon => exact ⟨hs,hquiet rfl⟩
  | invoking i =>
    obtain ⟨hr,hp,hw⟩ := hs
    have hnone : Source.told i.request.payload = [] := by rw [hp]; rfl
    cases a with
    | resume m connection =>
      simp only [Holder.step,loses,hands]
      split
      · rename_i x hx
        obtain ⟨hsound,htold⟩ := Invocation.settled_resume hr hp hw hx
        exact ⟨hsound,hquiet htold⟩
      · exact ⟨⟨hr,hp,hw⟩,hquiet rfl⟩
    | abandon =>
      refine ⟨hr,?_⟩
      simp only [Holder.step,loses,held,hands,hnone]
      exact .refl _
    | drop connection =>
      obtain ⟨htold,-,-⟩ := hr.dispose
      have hsilent : completions (i.drop { connection }).log = [] := by
        simp [Invocation.drop,Invocation.leave,Scene.release,htold,hnone]
      refine ⟨trivial,?_⟩
      simp only [Holder.step,loses,held,hands,hsilent]
      exact .refl _
    | withPayload | setPayload | setField | setFeatures | invoke | dispose =>
      exact ⟨⟨hr,hp,hw⟩,hquiet rfl⟩

end Holder

/-- A request with all that was handed over to it. -/
structure Custody where
  holder : Holder
  handed : List String := []
  told : List String := []
  lost : List String := []

namespace Custody

def step (x : Custody) (a : Act) : Custody where
  holder := (x.holder.step a).1
  handed := x.handed ++ x.holder.hands a
  told := x.told ++ (x.holder.step a).2
  lost := x.lost ++ x.holder.loses a

def run (address : Address) (operation : String) (oneway : Bool) (acts : List Act) : Custody :=
  acts.foldl step { holder := .idle { address, operation, oneway } }

/-- Nobody who was handed over is forgotten, or told twice. -/
def Balanced (x : Custody) : Prop :=
  x.holder.Sound ∧ (x.told ++ x.lost ++ x.holder.held).Perm x.handed

theorem Balanced.step {x : Custody} (h : x.Balanced) (a : Act) : (x.step a).Balanced := by
  obtain ⟨hsound,hperm⟩ := h
  obtain ⟨hsound',hstep⟩ := hsound.step a
  refine ⟨hsound',?_⟩
  apply List.perm_iff_count.mpr
  intro name
  have hbefore := List.perm_iff_count.mp hperm name
  have hact := List.perm_iff_count.mp hstep name
  simp only [Custody.step,List.count_append] at hbefore hact ⊢
  omega

theorem balanced_run (address : Address) (operation : String) (oneway : Bool) (acts : List Act) :
    (run address operation oneway acts).Balanced := by
  induction acts using List.reverseRecOn with
  | nil => exact ⟨by simp [run,Holder.Sound,Request.Unwatched],.refl _⟩
  | append_singleton acts a ih =>
    unfold run at ih ⊢
    rw [List.foldl_append]
    exact ih.step a

end Custody

/-- Sets one producer after another, and gives those that are told meanwhile. -/
def Reply.load (r : Reply) : List Source → List String × Reply
  | [] => ([], r)
  | s :: rest =>
    let (told, r) := r.withPayload s
    let (more, r) := r.load rest
    (told ++ more, r)

theorem Reply.load_told (r : Reply) (sources : List Source) :
    (r.load sources).1 ++ (r.load sources).2.drop = r.drop ++ sources.flatMap (·.name.toList) := by
  induction sources generalizing r with
  | nil => simp [load]
  | cons s rest ih =>
    simp only [load,withPayload,List.append_assoc,ih]
    rfl

/-- What is told besides when a scene is dropped. -/
def Scene.leftovers (s : Scene) : List String := completions s.guards ++ s.payload.watchers

theorem Scene.Notes.completions_eq {rest : List Event} (hn : s.Notes said s') :
    completions (s'.log ++ rest) ++ s'.leftovers =
      completions (s.log ++ (said ++ rest)) ++ s.leftovers := by
  simp [Scene.leftovers,hn.log,hn.guards,hn.payload]

namespace Dispatch

variable {names : List String} {x : Dispatch × Scene}

/-- The work on a stream goes on, if it can. What else happened at the connection shows in it. -/
def proceed (t : Terms) (peer : String) (x : Dispatch × Scene) (look : Moment × Connection) :
    Dispatch × Scene :=
  (x.1.resume t look.1 peer { x.2 with connection := look.2 }).getD x

/-- A reply is under way: whoever is not told yet will be. -/
def Delivers (names : List String) : Dispatch × Scene → Prop
  | (.over, s) => completions s.log = names
  | (.responding work, s) =>
    ∃ rest, work.Tells rest ∧ completions (s.log ++ rest) ++ s.leftovers = names
  | (.heading _, _) | (.serving .., _) => False

theorem delivers_finish (s : Scene) : Delivers (completions s.log ++ s.leftovers) (finish s) := by
  simp [Delivers,finish,Scene.drop,Scene.complete,Scene.leftovers,Payload.complete]

theorem delivers_afterResponding {work : Halted (Except Error Unit)} {rest : List Event}
    (h : work.Tells rest) :
    Delivers (completions (s.log ++ rest) ++ s.leftovers) (afterResponding work s) := by
  cases work with
  | done r =>
    obtain rfl := h
    rw [List.append_nil]
    cases r with
    | ok u => exact delivers_finish s
    | error e =>
      exact delivers_finish
        { s with connection := s.connection.reset s.stream Code.internalError.value }
  | calling | paused => exact ⟨rest,h,rfl⟩

theorem delivers_answer (t : Terms) (m : Moment) (oneway : Bool) (reply : Reply) (s : Scene) :
    Delivers (completions s.log ++ reply.drop ++ s.leftovers) (answer t m oneway reply s) := by
  unfold answer
  split
  · have hfinish : Delivers (completions (s.log ++ Event.told reply.drop) ++ s.leftovers)
        (finish { s with log := s.log ++ Event.told reply.drop }) := delivers_finish _
    rw [completions_append,completions_told] at hfinish
    exact hfinish
  · obtain ⟨said,rest,he,hn,ht⟩ := (tells_respond reply t.maxHeader).run m s
    have hafter := delivers_afterResponding ht (s := ((respond reply t.maxHeader).run m s).2)
    rw [hn.completions_eq,← he,completions_append,completions_told] at hafter
    exact hafter

theorem Delivers.proceed (h : Delivers names x) (t : Terms) (peer : String)
    (look : Moment × Connection) : Delivers names (proceed t peer x look) := by
  obtain ⟨d,s⟩ := x
  cases d with
  | heading | serving => exact h.elim
  | responding work =>
    unfold Dispatch.proceed Dispatch.resume
    dsimp only
    obtain ⟨rest,ht,hnames⟩ := h
    cases hx : work.resume look.1 { s with connection := look.2 } with
    | none => exact ⟨rest,ht,hnames⟩
    | some y =>
      obtain ⟨work',s'⟩ := y
      obtain ⟨said,rest',rfl,hn,ht'⟩ := ht.resume hx
      have hafter := delivers_afterResponding ht' (s := s')
      rw [hn.completions_eq] at hafter
      rw [← hnames]
      exact hafter
  | _ => exact h

/-- The work on a stream goes on with every look. -/
def goOn (t : Terms) (peer : String) (looks : List (Moment × Connection)) (x : Dispatch × Scene) :
    Dispatch × Scene :=
  looks.foldl (proceed t peer) x

theorem Delivers.goOn (h : Delivers names x) (t : Terms) (peer : String)
    (looks : List (Moment × Connection)) : Delivers names (goOn t peer looks x) := by
  induction looks generalizing x with
  | nil => exact h
  | cons look looks ih => exact ih (h.proceed t peer look)

theorem Delivers.completions_eq (h : Delivers names x) (ho : x.1 = .over) :
    completions x.2.log = names := by
  obtain ⟨d,s⟩ := x
  obtain rfl := ho
  exact h

/-- A service that is given up may reply at the last moment; the producer of that reply is told. -/
theorem delivers_expire (t : Terms) (m : Moment) (oneway : Bool) {work : Halted Reply}
    {reply : Reply}
    {s' : Scene} (h : work.resume { m with givenUp := true } s = some (.done reply, s')) :
    Delivers (completions s'.log ++ s'.payload.watchers ++ reply.drop ++ completions s'.guards)
      (expire t m work oneway s) := by
  unfold expire
  rw [h]
  have hanswer := delivers_answer t m oneway .deadlineExceeded
    { s'.complete with log := s'.complete.log ++ Event.told reply.drop }
  simpa [Scene.complete,Payload.complete,Scene.leftovers,Reply.drop,Reply.deadlineExceeded,
    Reply.failure,Source.told] using hanswer

end Dispatch

/-- Every producer that is handed over with a request is told exactly once by the time the request
is dropped, except for those that are lost: `withPayload` takes another one, `setPayload` comes too
late, the request was disposed of before, or the invocation that was to send it is given up. Every
producer that is handed over with a reply is told exactly once by the time the reply is dropped,
whether it was replaced, was sent as far as possible, or came too late. -/
theorem producers_told_once (address : Address) (operation : String) (oneway : Bool)
    (acts : List Act)
    (r : Reply) (sources : List Source) (hr : r.payload = none) (t : Terms) (peer : String)
    (m : Moment) (unheard : Bool) (looks : List (Moment × Connection)) (s : Scene) :
    let x := Custody.run address operation oneway acts
    let loaded := r.load sources
    let delivered := Dispatch.goOn t peer looks (Dispatch.answer t m unheard loaded.2 s)
    (x.told ++ x.lost ++ x.holder.held).Perm x.handed ∧
    (x.holder = .dropped → (x.told ++ x.lost).Perm x.handed) ∧
    loaded.1 ++ loaded.2.drop = sources.flatMap (·.name.toList) ∧
    (delivered.1 = .over →
      completions delivered.2.log = completions s.log ++ loaded.2.drop ++ s.leftovers) ∧
    ∀ (work : Halted Reply) (s' : Scene),
      work.resume { m with givenUp := true } s = some (.done loaded.2, s') →
      let late := Dispatch.goOn t peer looks (Dispatch.expire t m work unheard s)
      late.1 = .over → completions late.2.log =
        completions s'.log ++ s'.payload.watchers ++ loaded.2.drop ++ completions s'.guards := by
  intro x loaded delivered
  obtain ⟨-,hperm⟩ := Custody.balanced_run address operation oneway acts
  have hload := r.load_told sources
  have hdrop : r.drop = [] := by rw [Reply.drop,hr]; rfl
  rw [hdrop,List.nil_append] at hload
  have hanswer := Dispatch.delivers_answer t m unheard loaded.2 s
  refine ⟨hperm,fun hdropped => ?_,hload,(hanswer.goOn t peer looks).completions_eq,?_⟩
  · have hheld : x.holder.held = [] := by rw [hdropped]; rfl
    rwa [hheld,List.append_nil] at hperm
  · intro work s' hwork
    exact ((Dispatch.delivers_expire t m unheard hwork).goOn t peer looks).completions_eq

/-- A request that is given three producers, is disposed of, and is given two more. -/
def handovers : List Act :=
  [.withPayload { name := some "first" }, .withPayload { name := some "second" },
    .setPayload { name := some "third" }, .setField .idempotent [1], .dispose,
    .setPayload { name := some "fourth" }, .withPayload { name := some "fifth" },
    .drop { role := .client, options := {}, codes := .direct }]

theorem producers_told_once_handovers :
    let x := Custody.run (.ofPath "/greeter") "greet" false handovers
    let loaded := Reply.load {} [{ name := some "old" }, { name := some "new" }]
    (({} : Reply).payload = none ∧ x.holder = .dropped) ∧
      x.told = ["second", "third"] ∧ x.lost = ["first", "fourth", "fifth"] ∧
      (x.told ++ x.lost).Perm x.handed ∧ loaded.1 ++ loaded.2.drop = ["old", "new"] := by
  intro x loaded
  have htold := producers_told_once (.ofPath "/greeter") "greet" false handovers {}
    [{ name := some "old" }, { name := some "new" }] rfl
    ⟨fun _ => .done (.ok {}), 100⟩ "peer" ⟨0, [], false⟩ false []
    { connection := { role := .server, options := {}, codes := .direct } }
  exact ⟨⟨rfl,rfl⟩,rfl,rfl,htold.2.1 rfl,htold.2.2.1⟩

/-- A producer that another one takes the place of is never told. -/
theorem withPayload_forgets :
    let x := Custody.run (.ofPath "/greeter") "greet" false
      [.withPayload { name := some "first" }, .withPayload { name := some "second" },
        .drop { role := .client, options := {}, codes := .direct }]
    x.holder = .dropped ∧ x.handed = ["first", "second"] ∧ x.told = ["second"] :=
  ⟨rfl,rfl,rfl⟩

end Multiplex.Rpc
