import Multiplex.Proofs.Producers
import Mathlib.Data.List.Basic

/-!
A request owns one response at most. A response that another one replaces, or that comes too late,
is let go, and whoever is registered with its payload is told once.
-/

namespace Multiplex.Rpc

/-- A response, and everybody who was registered with its payload. -/
structure Held where
  response : Response
  names : List String

namespace Held

variable {h h' h'' : Held} {said more : List String}

def told (h : Held) : List String := if h.response.payload.isCompleted then h.names else []

def watch (h : Held) (name : String) : List String × Held :=
  let (released, payload) := h.response.payload.watch name
  (released.told, ⟨{ h.response with payload }, h.names ++ [name]⟩)

def dispose (h : Held) : List String × Held :=
  (h.response.dispose.1.told, ⟨h.response.dispose.2, h.names⟩)

/-- Everybody waits for a payload that is not completed, and nobody for one that is. -/
structure Fair (h : Held) : Prop where
  waiting : h.response.payload.watchers = if h.response.payload.isCompleted then [] else h.names
  completed : h.response.disposed = true → h.response.payload.isCompleted = true

/-- A change of a response: those who are told by it come after those who have been told. -/
structure Says (h : Held) (said : List String) (h' : Held) : Prop where
  fair : h'.Fair
  told : h'.told = h.told ++ said

theorem Says.trans (hs : h.Says said h') (hs' : h'.Says more h'') : h.Says (said ++ more) h'' :=
  ⟨hs'.fair,by rw [hs'.told,hs.told,List.append_assoc]⟩

theorem Fair.silent (hf : h.Fair) : h.Says [] h := ⟨hf,(List.append_nil _).symm⟩

theorem Fair.watch (hf : h.Fair) (name : String) : h.Says (h.watch name).1 (h.watch name).2 := by
  unfold Held.watch Payload.watch
  cases hc : h.response.payload.isCompleted with
  | true =>
    refine ⟨⟨?_,fun _ => hc⟩,?_⟩
    · simpa [hc] using hf.waiting
    · simp [told,hc]
  | false =>
    have hopen (ws : List String) :
        Payload.isCompleted ⟨h.response.payload.content, ws⟩ = false := hc
    have hw := hf.waiting
    rw [hc] at hw
    refine ⟨⟨?_,fun hd => absurd (hf.completed hd) (by simp [hc])⟩,?_⟩
    · simp [hopen,hw]
    · simp [told,hopen]

theorem Fair.complete (hf : h.Fair) {x : Response} (hx : x.payload = ⟨.completed, []⟩) :
    h.Says h.response.payload.watchers ⟨x, h.names⟩ := by
  have hc : x.payload.isCompleted = true := by rw [hx]; rfl
  refine ⟨⟨?_,fun _ => hc⟩,?_⟩
  · rw [if_pos hc,hx]
  rw [hf.waiting]
  cases hp : h.response.payload.isCompleted <;> simp [told,hc,hp]

theorem Fair.dispose (hf : h.Fair) : h.Says h.dispose.1 h.dispose.2 := by
  unfold Held.dispose Response.dispose
  cases hd : h.response.disposed with
  | true => exact hf.silent
  | false => exact hf.complete rfl

end Held

theorem Response.disposed_dispose (x : Response) : x.dispose.2.disposed = true := by
  unfold Response.dispose
  split
  · assumption
  · rfl

theorem Request.disposed_dispose (r : Request) : r.dispose.2.disposed = true := by
  unfold Request.dispose
  split
  · assumption
  · split <;> rfl

theorem Held.Fair.told_of_disposed {h : Held} (hf : h.Fair) (hd : h.response.disposed = true) :
    h.told = h.names :=
  if_pos (hf.completed hd)

/-- A response as its maker hands it over: some are registered with its payload, and it may have
been read or disposed of already. -/
structure Offer where
  status : Status
  errorMessage : Option String := none
  fields : Fields ResponseKey := Fields.empty
  content : Content
  names : List String := []
  disposed : Bool := false

namespace Held

def watchAll (h : Held) : List String → List String × Held
  | [] => ([], h)
  | name :: names =>
    let (told, h) := h.watch name
    let (more, h) := h.watchAll names
    (told ++ more, h)

theorem Fair.watchAll {h : Held} (hf : h.Fair) (names : List String) :
    h.Says (h.watchAll names).1 (h.watchAll names).2 := by
  induction names generalizing h with
  | nil => exact hf.silent
  | cons name names ih =>
    have hfirst := hf.watch name
    exact hfirst.trans (ih hfirst.fair)

theorem names_watchAll (h : Held) (names : List String) :
    (h.watchAll names).2.names = h.names ++ names := by
  induction names generalizing h with
  | nil => exact (List.append_nil _).symm
  | cons name names ih =>
    simp only [Held.watchAll,ih,Held.watch,List.append_assoc,List.singleton_append]

end Held

namespace Offer

def blank (o : Offer) : Held where
  response :=
    { status := o.status, errorMessage := o.errorMessage, fields := o.fields,
      payload := ⟨o.content, []⟩ }
  names := []

/-- What is handed over, and those who were told before that. -/
def prepare (o : Offer) : List String × Held :=
  let (told, h) := o.blank.watchAll o.names
  if o.disposed then (told ++ h.dispose.1, h.dispose.2) else (told, h)

theorem prepared (o : Offer) : o.blank.Says o.prepare.1 o.prepare.2 := by
  have hblank : o.blank.Fair := ⟨(ite_self []).symm,by simp [blank]⟩
  have hwatched := hblank.watchAll o.names
  unfold prepare
  cases o.disposed with
  | true => exact hwatched.trans hwatched.fair.dispose
  | false => exact hwatched

theorem fair_prepare (o : Offer) : o.prepare.2.Fair := o.prepared.fair

theorem told_prepare (o : Offer) : o.prepare.2.told = o.prepare.1 := by
  have hblank : o.blank.told = [] := ite_self []
  rw [o.prepared.told,hblank,List.nil_append]

theorem names_prepare (o : Offer) : o.prepare.2.names = o.names := by
  unfold prepare
  cases o.disposed <;> exact o.blank.names_watchAll o.names

end Offer

/-- The books on all responses so far: who was told is told by a producer that was let go or by a
completed payload, each in turn. -/
structure Accounts (log registered producers : List String) (held : List Held) : Prop where
  told : log.Perm (producers ++ held.flatMap Held.told)
  order : ∀ h ∈ held, h.told.Sublist log
  names : (held.flatMap Held.names).Perm registered

namespace Accounts

variable {log registered producers : List String} {held held' held'' : List Held}

theorem perm (ha : Accounts log registered producers held) (hp : held.Perm held') :
    Accounts log registered producers held' where
  told := ha.told.trans ((hp.flatMap_right _).append_left _)
  order h hh := ha.order h (hp.mem_iff.mpr hh)
  names := (hp.flatMap_right _).symm.trans ha.names

theorem add (ha : Accounts log registered producers held) (h : Held) :
    Accounts (log ++ h.told) (registered ++ h.names) producers (held ++ [h]) where
  told := by
    have htold := ha.told.append_right h.told
    simpa using htold
  order k hk := by
    rcases List.mem_append.mp hk with hk | hk
    · exact (ha.order k hk).trans (List.sublist_append_left _ _)
    · rw [List.mem_singleton.mp hk]
      exact List.sublist_append_right _ _
  names := by
    have hnames := ha.names.append_right h.names
    simpa using hnames

theorem change {h h' : Held} {said more : List String}
    (ha : Accounts log registered producers (held ++ [h])) (hs : h.Says said h')
    (hn : h'.names = h.names ++ more) :
    Accounts (log ++ said) (registered ++ more) producers (held ++ [h']) where
  told := by
    have htold := ha.told.append_right said
    simpa [hs.told] using htold
  order k hk := by
    rcases List.mem_append.mp hk with hk | hk
    · exact (ha.order k (List.mem_append_left _ hk)).trans (List.sublist_append_left _ _)
    · rw [List.mem_singleton.mp hk,hs.told]
      exact (ha.order h (by simp)).append (.refl _)
  names := by
    have hnames := ha.names.append_right more
    simpa [hn] using hnames

theorem produce (ha : Accounts log registered [] held) (names : List String) :
    Accounts (log ++ names) registered names held where
  told := (ha.told.append_right names).trans List.perm_append_comm
  order h hh := (ha.order h hh).trans (List.sublist_append_left _ _)
  names := ha.names

theorem swap (ha : Accounts log registered producers (held ++ held' ++ held'')) :
    Accounts log registered producers (held ++ held'' ++ held') := by
  apply ha.perm
  rw [List.append_assoc,List.append_assoc]
  exact List.perm_append_comm.append_left held

end Accounts

/-- What is left of a process that reads: it is done, or completes the payload and is done. -/
inductive Process.Last {α : Type} : Process α → Prop
  | done (a : α) : Last (.done a)
  | complete (a : α) : Last (.complete (.done a))

/-- A payload is read: nobody hears of it, or it is completed and all those who wait are told. -/
inductive Scene.Reads (s s' : Scene) : Prop
  | silent (watchers : s'.payload.watchers = s.payload.watchers)
      (completed : s'.payload.isCompleted = s.payload.isCompleted) (log : s'.log = s.log)
  | complete (payload : s'.payload = ⟨.completed, []⟩)
      (log : s'.log = s.log ++ Event.told s.payload.watchers)

theorem Scene.reads_complete (s : Scene) : s.Reads s.complete := .complete rfl rfl

/-- Where a read has come to. Before it is over, the payload is as it was. -/
inductive Scene.Looks {α : Type} (s : Scene) : Halted α × Scene → Prop
  | done (a : α) {s' : Scene} (reads : s.Reads s') : Looks s (.done a, s')
  | waits (w : Suspended) {next : Except Failure Answer → Process α} {s' : Scene}
      (last : ∀ r, (next r).Last) (payload : s'.payload = s.payload) (log : s'.log = s.log) :
      Looks s (.calling w next, s')

theorem Process.Last.run {α : Type} {p : Process α} (h : p.Last) (m : Moment) (s : Scene) :
    s.Looks (p.run m s) := by
  cases h with
  | done a => exact .done a (.silent rfl rfl rfl)
  | complete a => exact .done a s.reads_complete

theorem Payload.takeChunk_watchers (p : Payload) (max : Nat) :
    (p.takeChunk max).2.watchers = p.watchers ∧
      (p.takeChunk max).2.isCompleted = p.isCompleted := by
  obtain ⟨content,watchers⟩ := p
  unfold takeChunk
  split
  · rename_i hc
    obtain rfl := hc
    split <;> exact ⟨rfl,rfl⟩
  · exact ⟨rfl,rfl⟩
  · exact ⟨rfl,rfl⟩
  · exact ⟨rfl,rfl⟩

namespace Reading

variable {m : Moment} {x : Halted (Except Error (Option Bytes)) × Scene} {connection : Connection}

/-- A read that waits has only its last step before it. -/
def Fit (r : Reading) : Prop := ∃ w next, r.work = .calling w next ∧ ∀ x, (next x).Last

theorem looks_process (max : Option Nat) (m : Moment) (s : Scene) :
    s.Looks ((process max).run m s) := by
  cases max with
  | none =>
    simp only [process,Process.run]
    split
    · split
      · split
        · rename_i connection _ bs _
          exact .done _ (.complete rfl rfl)
        · exact .done _ (.silent rfl rfl rfl)
      · refine .waits _ (fun r => ?_) rfl rfl
        unfold Process.afterAll
        split
        · exact .complete _
        · exact .done _
    · exact .done _ s.reads_complete
    · exact .done _ s.reads_complete
  | some max =>
    obtain ⟨hwatchers,hcompleted⟩ := s.payload.takeChunk_watchers max
    simp only [process,Process.run]
    split
    · split
      · exact .done _ (.silent rfl rfl rfl)
      · exact .waits _ (fun r => .done _) rfl rfl
    · exact .done _ (.silent hwatchers hcompleted rfl)
    · exact .done _ (.silent hwatchers hcompleted rfl)

theorem Fit.looks {r : Reading} (hr : r.Fit) {s : Scene} (h : r.work.resume m s = some x) :
    s.Looks x := by
  obtain ⟨w,next,hw,hlast⟩ := hr
  rw [hw] at h
  unfold Halted.resume at h
  dsimp only at h
  split at h
  · cases h
  · cases h
    rename_i result connection _
    have hnext := (hlast result).run m { s with connection }
    generalize (next result).run m { s with connection } = x at hnext
    cases hnext with
    | done a reads =>
      cases reads with
      | silent watchers completed log => exact .done a (.silent watchers completed log)
      | complete payload log => exact .done a (.complete payload log)
    | waits w last payload log => exact .waits w last payload log
  · cases h
    exact .waits _ hlast rfl rfl

/-- What a read makes of a request: it waits and nothing has happened, or it is over and the payload
may have been completed. -/
inductive Settles (r : Request) (h : Held) : ReadState × Scene → Prop
  | waiting {work : Halted (Except Error (Option Bytes))} {s : Scene} (fit : Fit ⟨r, work⟩)
      (silent : completions s.log = []) : Settles r h (.waiting ⟨r, work⟩, s)
  | finished (result : Except Error (Option Bytes)) {h' : Held} {s : Scene} {said : List String}
      (log : completions s.log = said) (change : h.Says said h') (names : h'.names = h.names)
      (keeps : h.response.disposed = true → h'.response.disposed = true) :
      Settles r h (.finished result { r with response := some h'.response }, s)

variable {r : Request} {h : Held}

theorem settles_afterWork (hr : r.response = some h.response) (hf : h.Fair)
    (hx : Scene.Looks { connection, payload := h.response.payload } x) :
    Settles r h (afterWork ⟨r, x.1⟩ h.response.payload x.2) := by
  cases hx with
  | waits w last payload log => exact .waiting ⟨w,_,rfl,last⟩ (by rw [log]; rfl)
  | @done a s' reads =>
    have hchange :
        h.Says (completions s'.log) ⟨{ h.response with payload := s'.payload }, h.names⟩ := by
      cases reads with
      | complete payload log =>
        rw [log,List.nil_append,completions_told]
        exact hf.complete payload
      | silent watchers completed log =>
        rw [log]
        refine ⟨⟨?_,?_⟩,?_⟩
        · rw [watchers,hf.waiting,completed]
        · intro hd
          rw [completed]
          exact hf.completed hd
        · simp only [Held.told,completed]
          exact (List.append_nil _).symm
    have hend (t : Scene) (ht : t.log = s'.log) : Settles r h (.finished a
        { r with response := some { h.response with payload := s'.payload } }, t) :=
      .finished a (by rw [ht]) hchange rfl id
    unfold afterWork
    simp only [Halted.result?,hr,Option.map_some]
    split
    · exact hend _ rfl
    · exact hend _ rfl

theorem settles_start (hr : r.response = some h.response) (hf : h.Fair) (max : Option Nat)
    (m : Moment)
    (connection : Connection) : Settles r h (start max m r h.response { connection }) := by
  unfold start
  split
  · have hsame :=
      Settles.finished (r := r) (s := { connection }) (.error .requestDisposed) rfl hf.silent rfl
        (id : h.response.disposed = true → _)
    rwa [← hr] at hsame
  · exact settles_afterWork hr hf (looks_process max m _)

theorem settles_resume {work : Halted (Except Error (Option Bytes))}
    (hr : r.response = some h.response) (hf : h.Fair) (hfit : Fit ⟨r, work⟩) {x : ReadState × Scene}
    (hx : resume m ⟨r, work⟩ { connection } = some x) : Settles r h x := by
  unfold resume at hx
  simp only [hr] at hx
  split at hx
  · rename_i work' s' hwork
    cases hx
    exact settles_afterWork hr hf (hfit.looks hwork)
  · cases hx

end Reading

/-- What the owner of a request can do with it and with its response. What else goes on at the
connection shows in the connection that a read finds. -/
inductive Use
  | offer (o : Offer)
  | watch (name : String)
  | disposeResponse
  | read (max : Option Nat) (m : Moment) (connection : Connection)
  | resume (m : Moment) (connection : Connection)
  /-- The read is given up. The request stays. -/
  | abandon
  | dispose
  | drop (connection : Connection)

/-- Where a request is. -/
inductive Tenure.Stage
  | idle (r : Request)
  | reading (r : Reading)
  | dropped

def Tenure.Stage.request? : Tenure.Stage → Option Request
  | .idle r => some r
  | .reading x => some x.request
  | .dropped => none

/-- A request with everything it was offered. -/
structure Tenure where
  stage : Tenure.Stage
  /-- Who was registered with the payload of its response. -/
  names : List String := []
  /-- Responses it does not hold, as they were left. -/
  past : List Held := []
  log : List String := []
  /-- Everybody who was registered with the payload of some response. -/
  registered : List String := []

namespace Tenure

def attached (t : Tenure) : Option Held :=
  (t.stage.request?.bind (·.response)).map fun x => ⟨x, t.names⟩

def held (t : Tenure) : List Held := t.past ++ t.attached.toList

def closed (t : Tenure) : Bool := (t.stage.request?.map (·.disposed)).getD true

def producers (source : Option Source) (t : Tenure) : List String :=
  if t.closed then Source.told source else []

def hear (t : Tenure) (told : List String) : Tenure := { t with log := t.log ++ told }

def vacate (t : Tenure) (r : Request) : Tenure :=
  { t with
    stage := .idle { r with response := none }
    names := []
    past := t.past ++ (t.attached.map (·.dispose.2)).toList
    log := t.log ++ (t.attached.map (·.dispose.1)).getD [] }

def attach (t : Tenure) (r : Request) (h : Held) : Tenure :=
  { t with
    stage := .idle { r with response := some h.response }
    names := h.names
    registered := t.registered ++ h.names }

/-- Sets the response. What the request does not take or no longer holds is let go. -/
def offer (t : Tenure) (r : Request) (o : Offer) : Tenure :=
  let (told, h) := o.prepare
  let (result, released, r) := r.setResponse h.response
  let log := t.log ++ told ++ released.told
  let registered := t.registered ++ h.names
  match result with
  | .ok () =>
    { stage := .idle r, names := h.names, log, registered
      past := t.past ++ (t.attached.map (·.dispose.2)).toList }
  | .error _ => { t with stage := .idle r, log, registered, past := t.past ++ [h.dispose.2] }

def settle (t : Tenure) : ReadState × Scene → Tenure
  | (.waiting x, s) => { t.hear (completions s.log) with stage := .reading x }
  | (.finished _ r, s) => { t.hear (completions s.log) with stage := .idle r }

def alter (t : Tenure) (r : Request) (f : Held → List String × Held) : Tenure :=
  match r.response with
  | none => t
  | some x =>
    let (told, h) := f ⟨x, t.names⟩
    { t.hear told with stage := .idle { r with response := some h.response }, names := h.names }

def close (t : Tenure) : Tenure := { t with stage := .dropped, names := [], past := t.held }

def useIdle (t : Tenure) (r : Request) : Use → Tenure
  | .offer o => t.offer r o
  | .watch name =>
    let registered := if r.response.isSome then t.registered ++ [name] else t.registered
    { t.alter r (·.watch name) with registered }
  | .disposeResponse => t.alter r Held.dispose
  | .read max m connection =>
    match r.response with
    | some x => t.settle (Reading.start max m r x { connection })
    | none => t
  | .dispose => { t.hear r.dispose.1.told with stage := .idle r.dispose.2 }
  | .drop _ => { t.hear r.dispose.1.told with stage := .idle r.dispose.2 : Tenure }.close
  | .resume .. | .abandon => t

/-- While it is read from, a response can only be waited for, given up or dropped. -/
def useReading (t : Tenure) (x : Reading) : Use → Tenure
  | .resume m connection =>
    match x.resume m { connection } with
    | some y => t.settle y
    | none => t
  | .abandon => { t with stage := .idle x.request }
  | .drop connection =>
    { t.hear (completions (x.drop { connection }).log) with
      stage := .idle x.request.dispose.2 : Tenure }.close
  | .offer _ | .watch _ | .disposeResponse | .read .. | .dispose => t

def step (t : Tenure) (u : Use) : Tenure :=
  match t.stage with
  | .idle r => t.useIdle r u
  | .reading x => t.useReading x u
  | .dropped => t

/-- The life of a request that has no response yet. -/
def run (r : Request) (uses : List Use) : Tenure :=
  uses.foldl step { stage := .idle { r with response := none, disposed := false } }

end Tenure

/-- What is true of a request and its response at any time. -/
structure Request.Keeps (source : Option Source) (r : Request) : Prop where
  payload : r.payload = if r.disposed then none else source
  response : r.disposed = true → ∀ x ∈ r.response, x.disposed = true

namespace Tenure

variable {t : Tenure} {source : Option Source} {r : Request} {x : Response} {more : List String}

/-- What is true at any time: what is not held was let go, and the books balance. -/
structure Sound (source : Option Source) (t : Tenure) : Prop where
  accounts : Accounts t.log t.registered (t.producers source) t.held
  past : ∀ h ∈ t.past, h.Fair ∧ h.response.disposed = true
  attached : ∀ h ∈ t.attached, h.Fair
  request : ∀ r, t.stage.request? = some r → r.Keeps source
  reading : ∀ x, t.stage = .reading x → x.Fit

theorem attached_eq (hr : t.stage.request? = some r) (hx : r.response = some x) :
    t.attached = some ⟨x, t.names⟩ := by
  simp [attached,hr,hx]

theorem attached_eq_none (hr : t.stage.request? = some r) (hx : r.response = none) :
    t.attached = none := by
  simp [attached,hr,hx]

theorem producers_eq (hr : t.stage.request? = some r) :
    t.producers source = if r.disposed then Source.told source else [] := by
  simp [producers,closed,hr]

section

variable (hs : t.Sound source)

include hs

theorem Sound.pass (stage : Stage) (hr : stage.request? = t.stage.request?)
    (hx : ∀ x, stage = .reading x → x.Fit) : Sound source { t with stage } where
  accounts := by
    have ha := hs.accounts
    unfold held Tenure.attached producers closed at ha ⊢
    rwa [hr]
  past := hs.past
  attached := by
    have ha := hs.attached
    unfold Tenure.attached at ha ⊢
    rwa [hr]
  request q hq := hs.request q (hr.symm.trans hq)
  reading := hx

theorem Sound.change (hr : t.stage.request? = some r) {h : Held} {said : List String}
    (hx : r.response = some x) (hc : Held.Says ⟨x, t.names⟩ said h) (hn : h.names = t.names ++ more)
    (hk : x.disposed = true → h.response.disposed = true) :
    Sound source
      { t with
        stage := .idle { r with response := some h.response }
        names := h.names
        log := t.log ++ said
        registered := t.registered ++ more } where
  accounts := by
    have ha := hs.accounts
    rw [held,attached_eq hr hx,producers_eq hr] at ha
    exact ha.change hc hn
  past := hs.past
  attached k hk := by
    cases hk
    exact hc.fair
  request q hq := by
    cases hq
    obtain ⟨hp,hd⟩ := hs.request r hr
    refine ⟨hp,fun hdisposed y hy => ?_⟩
    cases hy
    exact hk (hd hdisposed x hx)
  reading y hy := by cases hy

theorem Sound.settle (hr : t.stage.request? = some r) (hx : r.response = some x)
    {y : ReadState × Scene} (hy : Reading.Settles r ⟨x, t.names⟩ y) :
    (t.settle y).Sound source := by
  cases hy with
  | @waiting work s fit silent =>
    have hpass := hs.pass (.reading ⟨r, work⟩) hr.symm (by
      intro z hz
      cases hz
      exact fit)
    simpa [Tenure.settle,hear,silent] using hpass
  | @finished result h' s said log change names keeps =>
    have hsame : h'.names = t.names ++ [] := by rw [names,List.append_nil]
    have hchange := hs.change hr hx change hsame keeps
    simpa [Tenure.settle,hear,log,names] using hchange

theorem Sound.alter (hr : t.stage.request? = some r) {f : Held → List String × Held}
    (hx : r.response = some x)
    (hf : ∀ h : Held, h.Fair → h.Says (f h).1 (f h).2) (hn : ∀ h, (f h).2.names = h.names ++ more)
    (hk : ∀ h : Held, h.response.disposed = true → (f h).2.response.disposed = true) :
    Sound source { t.alter r f with registered := t.registered ++ more } := by
  have hfair := hs.attached ⟨x, t.names⟩ (attached_eq hr hx)
  have hchange := hs.change hr hx (hf _ hfair) (hn _) (hk ⟨x, t.names⟩)
  simpa only [Tenure.alter,hx,hear] using hchange

theorem Sound.dispose (hr : t.stage.request? = some r) :
    Sound source { t.hear r.dispose.1.told with stage := .idle r.dispose.2 } := by
  unfold Request.dispose
  cases hd : r.disposed with
  | true =>
    have hpass := hs.pass (.idle r) hr.symm (by simp)
    simpa [hear] using hpass
  | false =>
    have hpayload := (hs.request r hr).payload
    have ha := hs.accounts
    rw [producers_eq hr] at ha
    simp only [hd,Bool.false_eq_true,if_false] at ha hpayload ⊢
    have htold := ha.produce (Source.told source)
    cases hx : r.response with
    | none =>
      rw [held,attached_eq_none hr hx] at htold
      refine ⟨by
          simpa [hear,hpayload,held,Tenure.attached,Stage.request?,hx,producers,closed] using htold,
        hs.past,by simp [Tenure.attached,Stage.request?],?_,by simp⟩
      intro q hq
      cases hq
      exact ⟨rfl,by simp⟩
    | some x =>
      have hfair := hs.attached ⟨x, t.names⟩ (attached_eq hr hx)
      rw [held,attached_eq hr hx] at htold
      have hchange := htold.change hfair.dispose (List.append_nil _).symm
      refine ⟨?_,hs.past,?_,?_,by simp⟩
      · simpa [hear,hpayload,held,Tenure.attached,Stage.request?,producers,closed,Held.dispose,
          Request.released_told] using hchange
      · intro h hh
        cases hh
        exact hfair.dispose.fair
      · intro q hq
        cases hq
        refine ⟨rfl,fun _ y hy => ?_⟩
        cases hy
        exact x.disposed_dispose

theorem Sound.close (hr : t.stage = .idle r) (hd : r.disposed = true) : t.close.Sound source where
  accounts := by
    have ha := hs.accounts
    rw [producers_eq (show t.stage.request? = some r by rw [hr]; rfl),if_pos hd] at ha
    simpa [Tenure.close,held,Tenure.attached,Stage.request?,producers,closed] using ha
  past h hh := by
    rcases List.mem_append.mp hh with hh | hh
    · exact hs.past h hh
    · have hattached : h ∈ t.attached := Option.mem_toList.mp hh
      refine ⟨hs.attached h hattached,?_⟩
      unfold Tenure.attached at hattached
      rw [hr] at hattached
      obtain ⟨x,hx,rfl⟩ := Option.map_eq_some_iff.mp hattached
      exact (hs.request r (by rw [hr]; rfl)).response hd x hx
  attached := by simp [Tenure.close,Tenure.attached,Stage.request?]
  request := by simp [Tenure.close,Stage.request?]
  reading := by simp [Tenure.close]

end

theorem offer_eq (hr : t.stage = .idle r) (hd : r.disposed = false) (o : Offer) :
    t.offer r o = ((t.hear o.prepare.1).vacate r).attach r o.prepare.2 := by
  have hattached : t.attached = r.response.map fun x => ⟨x, t.names⟩ := by
    rw [Tenure.attached,hr]
    rfl
  have hattached' : (t.hear o.prepare.1).attached = t.attached := rfl
  simp only [offer,Request.setResponse,hd,vacate,attach,hattached',hattached,Bool.false_eq_true,
    if_false]
  cases r.response <;> rfl

theorem offer_eq_of_disposed (hr : t.stage = .idle r) (hd : r.disposed = true) (o : Offer) :
    t.offer r o =
      { t with
        log := t.log ++ o.names
        registered := t.registered ++ o.names
        past := t.past ++ [o.prepare.2.dispose.2] } := by
  have htold : o.prepare.1 ++ o.prepare.2.dispose.1 = o.names := by
    have hf := o.fair_prepare.dispose
    rw [← o.told_prepare,← hf.told,hf.fair.told_of_disposed (Response.disposed_dispose _)]
    exact o.names_prepare
  simp only [offer,Request.setResponse,hd,if_true,o.names_prepare,List.append_assoc]
  rw [← htold,← hr]
  rfl

section

variable (hs : t.Sound source)

include hs

/-- What happens to the books when one response takes the place of another. -/
theorem Sound.replace (o : Offer) :
    Accounts (t.log ++ o.prepare.1 ++ (t.attached.map (·.dispose.1)).getD [])
      (t.registered ++ o.prepare.2.names) (t.producers source)
      (t.past ++ (t.attached.map (·.dispose.2)).toList ++ [o.prepare.2]) := by
  have hadd := hs.accounts.add o.prepare.2
  rw [o.told_prepare] at hadd
  unfold held at hadd
  cases hx : t.attached with
  | none =>
    rw [hx] at hadd
    simpa using hadd
  | some k =>
    rw [hx] at hadd
    have hk := (hs.attached k hx).dispose
    have hbooks := (hadd.swap.change hk (List.append_nil _).symm).swap
    rwa [List.append_nil] at hbooks

theorem Sound.offer (hr : t.stage = .idle r) (o : Offer) : (t.offer r o).Sound source := by
  have hreq : t.stage.request? = some r := by rw [hr]; rfl
  cases hd : r.disposed with
  | true =>
    rw [offer_eq_of_disposed hr hd]
    have hdispose := o.fair_prepare.dispose
    have hdisposed : o.prepare.2.dispose.2.response.disposed = true := Response.disposed_dispose _
    refine { hs with accounts := ?_, past := ?_ }
    · have hadd := hs.accounts.add o.prepare.2
      rw [o.told_prepare] at hadd
      have hbooks := (hadd.change hdispose (List.append_nil _).symm).swap
      rw [List.append_assoc,← o.told_prepare,← hdispose.told,
        hdispose.fair.told_of_disposed hdisposed,
        List.append_nil,Held.dispose,o.names_prepare] at hbooks
      rw [Held.dispose,o.names_prepare]
      exact hbooks
    · intro h hh
      rcases List.mem_append.mp hh with hh | hh
      · exact hs.past h hh
      · rw [List.mem_singleton.mp hh]
        exact ⟨hdispose.fair,hdisposed⟩
  | false =>
    rw [offer_eq hr hd]
    refine ⟨?_,?_,?_,?_,by simp [attach]⟩
    · have hbooks := hs.replace o
      rw [producers_eq hreq] at hbooks
      exact hbooks
    · intro h hh
      rcases List.mem_append.mp hh with hh | hh
      · exact hs.past h hh
      · obtain ⟨k,hk,rfl⟩ := Option.map_eq_some_iff.mp (Option.mem_toList.mp hh)
        exact ⟨(hs.attached k hk).dispose.fair,Response.disposed_dispose _⟩
    · intro h hh
      cases hh
      exact o.fair_prepare
    · intro q hq
      cases hq
      exact ⟨(hs.request r hreq).payload,by simp [hd]⟩

theorem Sound.useIdle (hr : t.stage = .idle r) (u : Use) : (t.useIdle r u).Sound source := by
  have hreq : t.stage.request? = some r := by rw [hr]; rfl
  cases u with
  | offer o => exact hs.offer hr o
  | watch name =>
    cases hx : r.response with
    | none => simpa [Tenure.useIdle,Tenure.alter,hx] using hs
    | some x =>
      have halter := hs.alter hreq hx (fun h hf => hf.watch name) (fun h => rfl) (fun h => id)
      simpa [Tenure.useIdle,hx] using halter
  | disposeResponse =>
    cases hx : r.response with
    | none => simpa [Tenure.useIdle,Tenure.alter,hx] using hs
    | some x =>
      have halter := hs.alter hreq hx (fun h hf => hf.dispose) (fun h => (List.append_nil _).symm)
        (fun h _ => h.response.disposed_dispose)
      simpa [Tenure.useIdle,Tenure.alter,hear,hx] using halter
  | read max m connection =>
    simp only [Tenure.useIdle]
    split
    · rename_i x hx
      have hfair := hs.attached ⟨x, t.names⟩ (attached_eq hreq hx)
      exact hs.settle hreq hx (Reading.settles_start (h := ⟨x, t.names⟩) hx hfair max m connection)
    · exact hs
  | dispose => exact hs.dispose hreq
  | drop connection => exact (hs.dispose hreq).close rfl r.disposed_dispose
  | resume | abandon => exact hs

theorem Sound.useReading {x : Reading} (hx : t.stage = .reading x) (u : Use) :
    (t.useReading x u).Sound source := by
  have hreq : t.stage.request? = some x.request := by rw [hx]; rfl
  cases u with
  | resume m connection =>
    simp only [Tenure.useReading]
    split
    · rename_i y hy
      cases hresponse : x.request.response with
      | none => simp [Reading.resume,hresponse] at hy
      | some k =>
        have hfair := hs.attached ⟨k, t.names⟩ (attached_eq hreq hresponse)
        exact hs.settle hreq hresponse
          (Reading.settles_resume (h := ⟨k, t.names⟩) hresponse hfair (hs.reading x hx) hy)
    · exact hs
  | abandon => exact hs.pass (.idle x.request) hreq.symm (by simp)
  | drop connection =>
    have hlog : completions (x.drop { connection }).log = x.request.dispose.1.told := by
      simp [Reading.drop,Scene.release]
    have hclose := (hs.dispose hreq).close rfl x.request.disposed_dispose
    rw [← hlog] at hclose
    exact hclose
  | offer | watch | disposeResponse | read | dispose => exact hs

theorem Sound.step (u : Use) : (t.step u).Sound source := by
  unfold Tenure.step
  cases hstage : t.stage with
  | idle r => exact hs.useIdle hstage u
  | reading x => exact hs.useReading hstage u
  | dropped => exact hs

end

theorem sound_run (r : Request) (uses : List Use) : (run r uses).Sound r.payload := by
  induction uses using List.reverseRecOn with
  | nil =>
    refine ⟨⟨.refl _,by simp [held,run,attached,Stage.request?],.refl _⟩,by simp [run],
      by simp [run,attached,Stage.request?],?_,by simp [run]⟩
    intro q hq
    cases hq
    exact ⟨rfl,by simp⟩
  | append_singleton uses u ih =>
    unfold run at ih ⊢
    rw [List.foldl_append]
    exact ih.step u

end Tenure

/-- Whatever is done with a request, every response it was offered is disposed of, except for the
one it holds. Those who were told are those registered with a completed payload, each of them once
and in the order of the registrations; when the request is dropped, that is everybody. A response
that replaces another one becomes the current one after the other was disposed of and everybody
registered with it was told. One that comes after the request was disposed of is disposed of at
once. -/
theorem responses_told_once (r : Request) (uses : List Use) :
    let t := Tenure.run r uses
    (∀ h ∈ t.held, h.response.disposed = false → t.attached = some h) ∧
    t.log.Perm (t.producers r.payload ++ t.held.flatMap Held.told) ∧
    (t.held.flatMap Held.names).Perm t.registered ∧
    (∀ h ∈ t.held, h.told.Sublist t.log) ∧
    (t.stage = .dropped → t.log.Perm (Source.told r.payload ++ t.registered)) ∧
    ∀ (q : Request) (o : Offer), t.stage = .idle q →
      (q.disposed = false →
        let vacant := (t.hear o.prepare.1).vacate q
        vacant.attached = none ∧ (∀ h ∈ t.attached, h.dispose.2 ∈ vacant.past) ∧
        (∀ h ∈ vacant.past,
          h.response.disposed = true ∧ h.told = h.names ∧ h.names.Sublist vacant.log) ∧
        t.step (.offer o) = vacant.attach q o.prepare.2) ∧
      (q.disposed = true →
        (q.setResponse o.prepare.2.response).1 = .error .requestDisposed ∧
        o.prepare.2.dispose.2.response.disposed = true ∧
        t.step (.offer o) =
          { t with
            log := t.log ++ o.names
            registered := t.registered ++ o.names
            past := t.past ++ [o.prepare.2.dispose.2] }) := by
  intro t
  have hs : t.Sound r.payload := Tenure.sound_run r uses
  refine ⟨?_,hs.accounts.told,hs.accounts.names,hs.accounts.order,?_,?_⟩
  · intro h hh hd
    rcases List.mem_append.mp hh with hh | hh
    · cases ((hs.past h hh).2).symm.trans hd
    · exact Option.mem_toList.mp hh
  · intro hdropped
    have hheld : t.held = t.past := by
      simp [Tenure.held,Tenure.attached,hdropped,Tenure.Stage.request?]
    have hproducers : t.producers r.payload = Source.told r.payload := by
      simp [Tenure.producers,Tenure.closed,hdropped,Tenure.Stage.request?]
    have hall : t.held.flatMap Held.told = t.held.flatMap Held.names := by
      rw [hheld]
      refine List.flatMap_congr fun h hh => ?_
      exact (hs.past h hh).1.told_of_disposed (hs.past h hh).2
    have htold := hs.accounts.told
    rw [hproducers,hall] at htold
    exact htold.trans (hs.accounts.names.append_left _)
  · intro q o hq
    have hstep : t.step (.offer o) = t.offer q o := by
      rw [Tenure.step,hq]
      rfl
    have hnext := hs.offer hq o
    refine ⟨fun hd => ?_,fun hd => ?_⟩
    · rw [Tenure.offer_eq hq hd] at hnext hstep
      refine ⟨rfl,?_,?_,hstep⟩
      · intro h hh
        have hmem : h.dispose.2 ∈ (t.attached.map (·.dispose.2)).toList := by
          simp [Option.mem_def.mp hh]
        exact List.mem_append_right _ hmem
      · intro h hh
        obtain ⟨hfair,hdisposed⟩ := hnext.past h hh
        have hall := hfair.told_of_disposed hdisposed
        have horder := hnext.accounts.order h (List.mem_append_left _ hh)
        rw [hall] at horder
        exact ⟨hdisposed,hall,horder⟩
    · refine ⟨?_,Response.disposed_dispose _,hstep.trans (Tenure.offer_eq_of_disposed hq hd o)⟩
      simp [Request.setResponse,hd]

/-- A request whose first response is replaced; the second one is disposed of, and a third one comes
too late. -/
def replacements : List Use :=
  [.offer { status := .ok, content := .buffered [[1, 2]], names := ["first", "second"] },
    .watch "third", .offer { status := .ok, content := .stream 4, names := ["fourth"] },
    .disposeResponse, .watch "fifth", .dispose,
    .offer { status := .ok, content := .buffered [], names := ["sixth"] },
    .drop { role := .client, options := {}, codes := .direct }]

theorem responses_told_once_replacements :
    let t := Tenure.run { address := .ofPath "/greeter", payload := some { name := some "own" } }
      replacements
    t.stage = .dropped ∧
      t.log = ["first", "second", "third", "fourth", "fifth", "own", "sixth"] ∧
      t.log.Perm ("own" :: t.registered) := by
  intro t
  have hall := responses_told_once
    { address := .ofPath "/greeter", payload := some { name := some "own" } } replacements
  exact ⟨rfl,rfl,hall.2.2.2.2.1 rfl⟩

end Multiplex.Rpc
