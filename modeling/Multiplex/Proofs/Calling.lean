import Multiplex.Proofs.Wire
import Multiplex.Rpc.Invocation

/-!
What a caller's work on one request comes to: what is on the wire of it, what came back, and what
was read of the response.
-/

namespace Multiplex

namespace Connection

variable {c c' : Connection} {d : Direction} {k : Nat}

theorem works_createStream (h : c.createStream d = .ok (k, c')) : Works k c c' :=
  ⟨.single (Station.moves_createStream h).evolves,fun _ _ => (Runs.createStream trivial h).leaves,
    (Runs.createStream trivial h).roll⟩

theorem stands_createStream (h : c.createStream d = .ok (k, c')) :
    k = c.streams.length ∧ ∃ a, c'.Stands k a ∧ a.Untouched ∧ a.direction = d := by
  unfold createStream at h
  split at h
  · cases h
    refine ⟨rfl,_,⟨.fresh d false c.options c.peer,by simp,rfl,?_⟩,
      ⟨rfl,rfl,rfl,rfl,rfl⟩,rfl⟩
    exact fun hended => by cases hended
  · cases h
  · cases h
  · cases h

end Connection

namespace Rpc

/-- A request as it is made. It has no deadline, neither as a feature nor as a field. -/
structure Plea where
  server : Option String := none
  path : String
  operation : String
  oneway : Bool := false
  features : Features := Features.empty
  fields : Fields RequestKey := Fields.empty
  payload : Option Source := none
  timeless : features.get .deadline = none
  undated : fields.get .deadline = none

namespace Plea

def request (p : Plea) : Request where
  address := ⟨p.server, normalizePath p.path⟩
  operation := p.operation
  oneway := p.oneway
  features := p.features
  fields := p.fields
  payload := p.payload

def sent (p : Plea) : Request := { p.request with sent := true, payload := none }

def header (p : Plea) : RequestHeader := { p with path := normalizePath p.path }

def direction (p : Plea) : Direction := if p.oneway then .unidirectional else .bidirectional

/-- Whether the request is on the wire of its stream, or a part of it, or nothing. -/
def Posted (p : Plea) (max : Nat) (a : Standing) : Prop :=
  PostedOn p.direction p.header.encode max p.payload a

theorem getWord?_header (p : Plea) : p.header.fields.getWord? .deadline = none := by
  simp [header,Fields.getWord?,p.undated]

end Plea

/-- What was read of a response. -/
structure Taken where
  bytes : Bytes := []
  /-- The end too. -/
  whole : Bool := false

/-- Adds what a read of at most `goal` bytes gave, or of everything. -/
def Taken.add (v : Taken) (goal : Option Nat) : Except Error (Option Bytes) → Taken
  | .ok (some bs) => ⟨v.bytes ++ bs, v.whole || goal.isNone⟩
  | .ok none => ⟨v.bytes, true⟩
  | .error _ => v

/-- Whether a payload is still on the stream at place `k`, or is not any more. -/
structure Payload.Lies (payload : Payload) (k : Nat) (attached : Bool) : Prop where
  stream : attached = true → payload.content = .stream k
  done : attached = false → payload.content = .completed ∨ payload.content = .buffered []

/-- Whether a response to `p` stands as was read of it, after a header of the bytes `base`. -/
structure Hears (p : Plea) (max : Nat) (base : Bytes) (v : Taken) (a : Standing) : Prop where
  posted : p.Posted max a
  readable : a.readable = true
  heard : base ++ v.bytes <+: a.read
  whole : v.whole = true → a.ended = true ∧ a.read = base ++ v.bytes

structure Holds (p : Plea) (max : Nat) (base : Bytes) (v : Taken) (q : Post) : Prop where
  hears : Hears p max base v q.standing
  exact : q.standing.gone = true ∨ q.standing.read = base ++ v.bytes
  attached : q.attached = true → q.standing.abandoned = false
  detached : q.attached = false → v.whole = true

/-- Whether a response has the given header. -/
def Response.Matches (x : Response) (h : ResponseHeader) : Prop :=
  x.status = h.status ∧ x.errorMessage = h.errorMessage ∧ x.fields = h.fields

/-- What came of a request that is not under way: there is no response to it, or one of which `v`
was read. -/
inductive Returned (p : Plea) (max k : Nat) (v : Taken) (q : Post) :
    Except Error Unit → Request → Prop
  | unanswered {result : Except Error Unit} {request : Request} (posted : p.Posted max q.standing)
      (missing : request.response = none) (oneway : result = .ok () → p.oneway = true) :
      Returned p max k v q result request
  | answered {request : Request} {response : Response} {h : ResponseHeader} {base : Bytes}
      (oneway : p.oneway = false) (answer : request.response = some response)
      (heads : Heads ResponseHeader.reader h base) (same : response.Matches h)
      (hears : Hears p max base v q.standing)
      (holds : request.disposed = false → Holds p max base v q ∧ response.disposed = false ∧
        response.payload.Lies k q.attached) : Returned p max k v q (.ok ()) request

section Standing

variable {p : Plea} {max k : Nat} {base : Bytes} {v : Taken} {a a' : Standing} {q q' : Post}
  {result : Except Error Unit} {request : Request}

theorem Hears.of_eq (h : Hears p max base v a) (hd : a'.direction = a.direction)
    (hsent : a'.sent = a.sent) (hfin : a'.finished = a.finished) (hread : a'.read = a.read)
    (hend : a'.ended = a.ended) (hr : a'.readable = a.readable) : Hears p max base v a' := by
  refine ⟨h.posted.of_eq hd hsent hfin,hr.trans h.readable,hread ▸ h.heard,fun hw => ?_⟩
  rw [hend,hread]
  exact h.whole hw

theorem Hears.ages (h : Hears p max base v a) (ha : a.Ages a') : Hears p max base v a' := by
  cases ha <;> exact h.of_eq rfl rfl rfl rfl rfl rfl

theorem Hears.take (h : Hears p max base v a) (got : Bytes) (hs : a.ended = true → got = []) :
    Hears p max base v (a.take got) := by
  refine ⟨h.posted.of_eq rfl rfl rfl,h.readable,h.heard.trans (List.prefix_append _ _),fun hw => ?_⟩
  obtain ⟨hended,hread⟩ := h.whole hw
  refine ⟨hended,?_⟩
  simp [Standing.take,hs hended,hread]

theorem Holds.read_eq (h : Holds p max base v q) (present : q.standing.gone = false) :
    q.standing.read = base ++ v.bytes := by
  refine h.exact.resolve_left ?_
  rw [present]
  exact Bool.false_ne_true

theorem steady_holds (p : Plea) (max : Nat) (base : Bytes) (v : Taken) :
    Steady (Holds p max base v) := by
  intro q q' h ha
  have hreads := ha.standing.reads
  refine ⟨h.hears.ages ha.standing,?_,fun hatt => ?_,fun hdet => h.detached (ha.attached ▸ hdet)⟩
  · rw [hreads.read,List.append_nil]
    exact h.exact.imp ha.standing.gone id
  · exact hreads.abandoned.trans (h.attached (ha.attached ▸ hatt))

theorem Returned.ages (h : Returned p max k v q result request) (ha : q.Ages q') :
    Returned p max k v q' result request := by
  cases h with
  | unanswered posted missing oneway => exact .unanswered (posted.later ha.standing) missing oneway
  | @answered request response h base oneway answer heads same hears holds =>
    refine .answered oneway answer heads same (hears.ages ha.standing) fun hd => ?_
    obtain ⟨hholds,hdisposed,hlies⟩ := holds hd
    exact ⟨steady_holds p max base v q q' hholds ha,hdisposed,ha.attached.symm ▸ hlies⟩

end Standing

namespace Reading

variable {p : Plea} {max k : Nat} {base : Bytes} {v : Taken} {q : Post} {goal : Option Nat}

theorem sure_chunk (size : Nat) (h : Holds p max base v q) :
    (process (some size)).Sure (On q.attached (Hears p max base v))
      (fun r => Holds p max base (v.add (some size) r)) q := by
  obtain ⟨a,b⟩ := q
  have hhears : Hears p max base v a := h.hears
  unfold process Process.Sure
  cases b with
  | false =>
    refine ⟨{ hhears with whole := fun _ => ?_ },h.exact,h.attached,fun _ => rfl⟩
    exact hhears.whole (h.detached rfl)
  | true =>
    refine ⟨fun r a' hg => ?_,fun t' a' hb _ => ?_⟩
    · cases hg with
      | @some _ bs present unspent hages =>
        have hexact : a.read = base ++ v.bytes := h.read_eq present
        have hread : (a.take bs).read = base ++ (v.bytes ++ bs) := by
          simp [Standing.take,hexact]
        have hpart : v.whole = false := by
          cases hw : v.whole with
          | false => rfl
          | true => exact absurd (unspent.symm.trans (hhears.whole hw).1) Bool.false_ne_true
        have hholds : Holds p max base ⟨v.bytes ++ bs,v.whole || false⟩ ⟨a.take bs,true⟩ := by
          refine ⟨⟨hhears.posted,hhears.readable,?_,fun hw => ?_⟩,.inr hread,h.attached,by simp⟩
          · rw [hread]
          · simp [hpart] at hw
        exact steady_holds p max base _ _ _ hholds ⟨hages,rfl⟩
      | none present hages =>
        have hexact : a.read = base ++ v.bytes := h.read_eq present
        have hholds : Holds p max base ⟨v.bytes,true⟩ ⟨a.see,true⟩ :=
          ⟨{ hhears with whole := fun _ => ⟨rfl,hexact⟩ },h.exact,h.attached,
            by simp⟩
        exact steady_holds p max base _ _ _ hholds ⟨hages,rfl⟩
      | failed lost hages => exact steady_holds p max base _ _ _ h ⟨hages,rfl⟩
    · cases hb with
      | chunk hages => exact ⟨rfl,hhears.ages hages⟩

theorem sure_all (h : Holds p max base v q) :
    (process none).Sure (On q.attached (Hears p max base v))
      (fun r => Holds p max base (v.add none r)) q := by
  obtain ⟨a,b⟩ := q
  have hhears : Hears p max base v a := h.hears
  unfold process Process.Sure
  cases b with
  | false =>
    have hsame : v.add none (.ok (some [])) = ⟨v.bytes,true⟩ := by simp [Taken.add]
    change Holds p max base (v.add none (.ok (some []))) ⟨a,false⟩
    rw [hsame]
    refine ⟨{ hhears with whole := fun _ => ?_ },h.exact,h.attached,fun _ => rfl⟩
    exact hhears.whole (h.detached rfl)
  | true =>
    refine ⟨fun r a' hg => ?_,fun t' a' hb _ => ?_⟩
    · cases hg with
      | @drained _ got present spent hages =>
        have hexact : a.read = base ++ v.bytes := h.read_eq present
        have hread : (a.take got).read = base ++ (v.bytes ++ got) := by
          simp [Standing.take,hexact]
        have hholds : Holds p max base ⟨v.bytes ++ got,true⟩ ⟨(a.take got).see.abandon,false⟩ :=
          ⟨⟨hhears.posted,hhears.readable,hread ▸ List.prefix_rfl,fun _ => ⟨rfl,hread⟩⟩,.inr hread,
            (by intro hn; cases hn),fun _ => rfl⟩
        have hadd : v.add none (.ok (some got)) = ⟨v.bytes ++ got,true⟩ := by simp [Taken.add]
        refine ⟨fun bs hbs => ?_,fun e he => by cases he⟩
        cases hbs
        change Holds p max base (v.add none (.ok (some got))) ⟨a'.abandon,false⟩
        rw [hadd]
        exact steady_holds p max base _ _ _ hholds ⟨hages.abandon,rfl⟩
      | @undrained _ got e lost spent hages =>
        refine ⟨(by intro bs hbs; cases hbs),fun e he => ?_⟩
        cases he
        have hgone := lost hhears.readable (h.attached rfl)
        have habandoned : a'.abandoned = false := hages.abandoned.trans (h.attached rfl)
        exact ⟨(hhears.take got spent).ages hages,.inl hgone,fun _ => habandoned,by simp⟩
    · cases hb with
      | @drain _ got spent hages => exact ⟨rfl,(hhears.take got spent).ages hages⟩

end Reading

namespace Invocation

/-- What an exchange gives. -/
def Answered (p : Plea) (max : Nat) (r : Except Error (Option ResponseHeader)) (q : Post) : Prop :=
  On false (p.Posted max) q ∧ (r = .ok none → p.oneway = true) ∧
    ∀ h, r = .ok (some h) → p.oneway = false ∧ ∃ base, Heads ResponseHeader.reader h base ∧
      q.standing.read = base ∧ q.standing.abandoned = false ∧ q.standing.readable = true

/-- Whether an invocation is on its way with `p` on the stream at place `k`. -/
structure Follows (p : Plea) (max k : Nat) (i : Invocation) (q : Post) : Prop where
  request : i.request = p.sent
  stream : i.stream = k
  deadline : i.deadline = none
  posted : On false (p.Posted max) q
  sure : i.work.Sure k (On false (p.Posted max)) (Answered p max) q

end Invocation

def Invoked.Follows (p : Plea) (max k : Nat) (q : Post) : Invoked → Prop
  | .waiting i => i.Follows p max k q
  | .finished result request => Returned p max k {} q result request

namespace Invocation

def Goes (p : Plea) (max k : Nat) (c : Connection) (r : Invoked × Scene) : Prop :=
  ∃ q, r.1.Follows p max k q ∧ r.2.connection.Stands k q.standing ∧ c.Works k r.2.connection

variable {p : Plea} {max k : Nat} {q q' : Post} {c : Connection} {s : Scene} {m : Moment}
  {i : Invocation}

theorem steady_answered (p : Plea) (max : Nat) (r : Except Error (Option ResponseHeader)) :
    Steady (Answered p max r) := by
  intro q q' h ha
  obtain ⟨hposted,hnone,hsome⟩ := h
  refine ⟨⟨ha.attached.trans hposted.1,hposted.2.later ha.standing⟩,hnone,fun x hx => ?_⟩
  obtain ⟨hone,base,heads,hread,habandoned,hreadable⟩ := hsome x hx
  have hreads := ha.standing.reads
  refine ⟨hone,base,heads,?_,hreads.abandoned.trans habandoned,
    ha.standing.readable.trans hreadable⟩
  rw [hreads.read,hread,List.append_nil]

theorem Follows.ages (h : i.Follows p max k q) (ha : q.Ages q') : i.Follows p max k q' := by
  have hsteady : Steady (On false (p.Posted max)) := steady_on false fun _ _ hp ha => hp.later ha
  exact ⟨h.request,h.stream,h.deadline,hsteady q q' h.posted ha,
    h.sure.ages ha hsteady (steady_answered p max)⟩

theorem goes_leave {result : Except Error Unit} (hstream : i.stream = k)
    (hs : s.At k q) (hposted : p.Posted max q.standing) (hone : result = .ok () → p.oneway = true) :
    Goes p max k s.connection (.finished result p.sent, i.leave s) := by
  have hdispose :=
    (Connection.Runs.disposeStream (c := s.connection) (i := k) trivial).leaves (i := k)
  obtain ⟨a',hages,hstands⟩ := hs.stands.leaves hdispose
  refine ⟨⟨a',false⟩,.unanswered (hposted.later hages) rfl hone,?_,?_⟩
  · rw [leave,hstream]
    exact hstands
  · rw [leave,hstream]
    exact Connection.works_disposeStream k s.connection

theorem goes_conclude {outcome : Except Error (Option ResponseHeader)} (hr : i.request = p.sent)
    (hstream : i.stream = k) (hs : s.At k q) (h : Answered p max outcome q) :
    Goes p max k s.connection (i.conclude outcome s) := by
  obtain ⟨hposted,hnone,hsome⟩ := h
  have hlog : Scene.At { s with log := s.log ++ Event.told (Source.told i.source) } k q :=
    { hs with }
  unfold conclude
  rw [hr,hstream]
  cases outcome with
  | error e => exact goes_leave hstream hlog hposted.2 (by simp)
  | ok x =>
    cases x with
    | none => exact goes_leave hstream hlog hposted.2 fun _ => hnone rfl
    | some h =>
      obtain ⟨hone,base,heads,hread,habandoned,hreadable⟩ := hsome h rfl
      have hread' : q.standing.read = base ++ [] := by rw [hread,List.append_nil]
      have hholds : Holds p max base {} ⟨q.standing,true⟩ := by
        refine ⟨⟨hposted.2,hreadable,hread' ▸ List.prefix_rfl,by simp⟩,.inr hread',
          fun _ => habandoned,by simp⟩
      refine ⟨⟨q.standing,true⟩,?_,hs.stands,.refl k _⟩
      exact .answered hone rfl heads ⟨rfl,rfl,rfl⟩ hholds.hears
        fun _ => ⟨hholds,rfl,fun _ => rfl,by simp⟩

theorem goes_afterWork {work : Halted (Except Error (Option ResponseHeader))}
    (hr : i.request = p.sent) (hstream : i.stream = k) (hd : i.deadline = none)
    (hwork : i.work = work)
    (h : Course k (On false (p.Posted max)) (Answered p max) c (work, s) q) :
    Goes p max k c (i.afterWork s) := by
  unfold afterWork
  rw [hwork]
  cases work with
  | done outcome =>
    obtain ⟨q',hf,hstands,hworks⟩ := goes_conclude hr hstream h.scene h.sure
    exact ⟨q',hf,hstands,h.works.trans hworks⟩
  | calling w next =>
    exact ⟨q,⟨hr,hstream,hd,h.sure.1,hwork ▸ h.sure⟩,h.scene.stands,h.works⟩
  | paused w next =>
    exact ⟨q,⟨hr,hstream,hd,h.sure.1,hwork ▸ h.sure⟩,h.scene.stands,h.works⟩

theorem Follows.resume {r : Invoked × Scene} (h : i.Follows p max k q)
    (hc : c.Stands k q.standing) (hm : m.givenUp = false)
    (hr : i.resume m { connection := c } = some r) : Goes p max k c r := by
  have hat : Scene.At { connection := c, stream := i.stream } k q := by
    refine ⟨h.stream,hc,fun hn => ?_,fun _ => .inr rfl⟩
    cases h.posted.1.symm.trans hn
  obtain ⟨request,stream,source,deadline,work⟩ := i
  obtain rfl := h.deadline
  unfold Invocation.resume at hr
  dsimp only at hr
  cases hwork : work.resume m { connection := c, stream := stream } with
  | none =>
    rw [hwork] at hr
    cases hr
  | some x =>
    rw [hwork] at hr
    cases hr
    obtain ⟨q',hcourse⟩ := h.sure.resume hat hm hwork
    exact goes_afterWork h.request h.stream rfl rfl hcourse

theorem goes_start (p : Plea) (max : Nat) (c : Connection) (hm : m.givenUp = false) :
    ((start max m p.request { connection := c }).2.connection = c ∧
      ∃ e, (start max m p.request { connection := c }).1 = .finished (.error e) p.sent) ∨
    Goes p max c.streams.length c (start max m p.request { connection := c }) := by
  have hbudget : p.request.features.get .deadline = none := p.timeless
  have hsend : p.request.beginSend = .ok (p.payload,p.sent) := rfl
  unfold start
  rw [hbudget,hsend]
  dsimp only
  rw [if_neg (by simp)]
  have hdirection : (if p.sent.oneway then Direction.unidirectional else .bidirectional) =
      p.direction := rfl
  rw [hdirection]
  cases hcreate : c.createStream p.direction with
  | error f => exact .inl ⟨rfl,_,rfl⟩
  | ok x =>
    obtain ⟨k,c'⟩ := x
    obtain ⟨rfl,a,hstands,huntouched,hdir⟩ := Connection.stands_createStream hcreate
    have hat : Scene.At { connection := c', stream := c.streams.length } c.streams.length
        ⟨a,false⟩ := ⟨rfl,hstands,(by intro hn; cases hn),fun _ => .inr rfl⟩
    have hsure := Process.sure_exchange (b := false) p.header p.payload p.oneway max
      ⟨huntouched.sent,huntouched.finished⟩
    rw [hdir] at hsure
    have hanswered (r : Except Error (Option ResponseHeader)) (q : Post)
        (h : On false (p.Posted max) q ∧ (r = .ok none → p.oneway = true) ∧
          ∀ h, r = .ok (some h) → p.oneway = false ∧
            ∃ bytes, Heads ResponseHeader.reader h bytes ∧ a.Reads bytes q.standing) :
        Answered p max r q := by
      refine ⟨h.1,h.2.1,fun x hx => ?_⟩
      obtain ⟨hone,base,heads,hreads⟩ := h.2.2 x hx
      refine ⟨hone,base,heads,?_,hreads.abandoned.trans huntouched.abandoned,?_⟩
      · rw [hreads.read,huntouched.read,List.nil_append]
      · simp [Standing.readable,hreads.direction,hdir,Plea.direction,hone]
    obtain ⟨q,hcourse⟩ := (hsure.mono (fun _ h => h) hanswered).run hat hm
    refine .inr ?_
    have hcreated := hcourse.after (Connection.works_createStream hcreate)
    exact goes_afterWork rfl rfl rfl rfl hcreated

end Invocation

namespace Reading

/-- Whether a read of a response is on its way. -/
structure Follows (p : Plea) (max k : Nat) (goal : Option Nat) (v : Taken) (response : Response)
    (h : ResponseHeader) (base : Bytes) (r : Reading) (q : Post) : Prop where
  oneway : p.oneway = false
  answer : r.request.response = some response
  heads : Heads ResponseHeader.reader h base
  same : response.Matches h
  undisposed : r.request.disposed = false ∧ response.disposed = false
  lies : response.payload.Lies k q.attached
  hears : Hears p max base v q.standing
  sure : r.work.Sure k (On q.attached (Hears p max base v))
    (fun x => Holds p max base (v.add goal x)) q

end Reading

def ReadState.Follows (p : Plea) (max k : Nat) (goal : Option Nat) (v : Taken) (q : Post) :
    ReadState → Prop
  | .waiting r => ∃ response h base, r.Follows p max k goal v response h base q
  | .finished result request => Returned p max k (v.add goal result) q (.ok ()) request

namespace Reading

def Goes (p : Plea) (max k : Nat) (goal : Option Nat) (v : Taken) (c : Connection)
    (r : ReadState × Scene) : Prop :=
  ∃ q, r.1.Follows p max k goal v q ∧ r.2.connection.Stands k q.standing ∧ c.Works k r.2.connection

variable {p : Plea} {max k : Nat} {goal : Option Nat} {v : Taken} {response : Response}
  {h : ResponseHeader} {base : Bytes} {q q' : Post} {c : Connection} {s : Scene} {m : Moment}
  {r : Reading}

theorem Follows.ages (hf : r.Follows p max k goal v response h base q) (ha : q.Ages q') :
    r.Follows p max k goal v response h base q' := by
  have hsteady : Steady (On q.attached (Hears p max base v)) :=
    steady_on q.attached fun _ _ hh ha => hh.ages ha
  refine { hf with
    lies := ha.attached.symm ▸ hf.lies
    hears := hf.hears.ages ha.standing
    sure := ?_ }
  rw [ha.attached]
  exact hf.sure.ages ha hsteady fun x => steady_holds p max base (v.add goal x)

theorem sure_process (goal : Option Nat) (hq : Holds p max base v q) :
    (process goal).Sure (On q.attached (Hears p max base v))
      (fun x => Holds p max base (v.add goal x)) q := by
  cases goal with
  | none => exact sure_all hq
  | some size => exact sure_chunk size hq

theorem goes_afterWork {b : Bool} (hone : p.oneway = false)
    (hsome : r.request.response = some response)
    (heads : Heads ResponseHeader.reader h base) (hsame : response.Matches h)
    (hd : r.request.disposed = false ∧ response.disposed = false) (hl : response.payload.Lies k b)
    (hcourse : Course k (On b (Hears p max base v)) (fun x => Holds p max base (v.add goal x)) c
      (r.work, s) q) : Goes p max k goal v c (r.afterWork response.payload s) := by
  obtain ⟨request,work⟩ := r
  have hwaiting (hx : On b (Hears p max base v) q) :
      Follows p max k goal v response h base ⟨request,work⟩ q := by
    obtain ⟨rfl,hhears⟩ := hx
    exact ⟨hone,hsome,heads,hsame,hd,hl,hhears,hcourse.sure⟩
  unfold afterWork
  cases work with
  | calling w next =>
    exact ⟨q,⟨response,h,base,hwaiting hcourse.sure.1⟩,hcourse.scene.stands,hcourse.works⟩
  | paused w next =>
    exact ⟨q,⟨response,h,base,hwaiting hcourse.sure.1⟩,hcourse.scene.stands,hcourse.works⟩
  | done result =>
    have hholds : Holds p max base (v.add goal result) q := hcourse.sure
    have hlies : s.payload.Lies k q.attached := ⟨hcourse.scene.attached,hcourse.scene.detached⟩
    have hreturned : Returned p max k (v.add goal result) q (.ok ())
        { request with
          response := request.response.map fun x => { x with payload := s.payload } } := by
      rw [hsome]
      exact .answered hone rfl heads hsame hholds.hears fun _ => ⟨hholds,hd.2,hlies⟩
    dsimp only [Halted.result?]
    split
    · rename_i i hbefore hafter
      have hi : i = k := by
        cases b with
        | true => exact Content.stream.inj (hbefore.symm.trans (hl.stream rfl))
        | false => rcases hl.done rfl with hx | hx <;> simp [hx] at hbefore
      subst hi
      have hdispose :=
        (Connection.Runs.disposeStream (c := s.connection) (i := i) trivial).leaves (i := i)
      obtain ⟨a',hages,hstands⟩ := hcourse.scene.stands.leaves hdispose
      exact ⟨⟨a',q.attached⟩,hreturned.ages ⟨hages,rfl⟩,hstands,
        hcourse.works.trans (Connection.works_disposeStream i s.connection)⟩
    · exact ⟨q,hreturned,hcourse.scene.stands,hcourse.works⟩

theorem goes_start {request : Request} {result : Except Error Unit}
    (hr : Returned p max k v q result request) (hsome : request.response = some response)
    (hd : request.disposed = false) (hc : c.Stands k q.standing) (hm : m.givenUp = false) :
    Goes p max k goal v c (start goal m request response { connection := c, stream := k }) := by
  cases hr with
  | unanswered posted missing oneway => simp [missing] at hsome
  | @answered _ response' h base oneway answer heads same hears holds =>
    obtain rfl := Option.some.inj (answer.symm.trans hsome)
    obtain ⟨hholds,hdisposed,hlies⟩ := holds hd
    have hat : Scene.At { connection := c, stream := k, payload := response'.payload } k q :=
      ⟨rfl,hc,hlies.stream,hlies.done⟩
    obtain ⟨q',hcourse⟩ := (sure_process goal hholds).run hat hm
    unfold start
    rw [if_neg (by simp [hdisposed])]
    exact goes_afterWork oneway hsome heads same ⟨hd,hdisposed⟩ hlies hcourse

theorem Follows.resume {x : ReadState × Scene} (hf : r.Follows p max k goal v response h base q)
    (hc : c.Stands k q.standing) (hm : m.givenUp = false)
    (hr : r.resume m { connection := c, stream := k } = some x) : Goes p max k goal v c x := by
  have hat : Scene.At { connection := c, stream := k, payload := response.payload } k q :=
    ⟨rfl,hc,hf.lies.stream,hf.lies.done⟩
  unfold Reading.resume at hr
  rw [hf.answer] at hr
  dsimp only at hr
  cases hwork : r.work.resume m { connection := c, stream := k, payload := response.payload } with
  | none =>
    rw [hwork] at hr
    cases hr
  | some y =>
    rw [hwork] at hr
    cases hr
    obtain ⟨q',hcourse⟩ := hf.sure.resume hat hm hwork
    exact goes_afterWork (r := { r with work := y.1 }) hf.oneway hf.answer hf.heads hf.same
      hf.undisposed hf.lies hcourse

end Reading

theorem Returned.dispose {p : Plea} {max k : Nat} {v : Taken} {q : Post}
    {result : Except Error Unit} {request : Request} {c : Connection}
    (h : Returned p max k v q result request) (hc : c.Stands k q.standing) :
    ∃ q', Returned p max k v q' result request.dispose.2 ∧
      (Scene.release { connection := c } request.dispose.1).connection.Stands k q'.standing ∧
      c.Works k (Scene.release { connection := c } request.dispose.1).connection := by
  unfold Request.dispose
  cases hd : request.disposed with
  | true => exact ⟨q,h,hc,.refl k c⟩
  | false =>
    rw [if_neg Bool.false_ne_true]
    cases h with
    | unanswered posted missing oneway =>
      simp only [missing]
      exact ⟨q,.unanswered posted rfl oneway,hc,.refl k c⟩
    | @answered _ response h base oneway answer heads same hears holds =>
      obtain ⟨hholds,hdisposed,hlies⟩ := holds hd
      have hreturned {q' : Post} (hh : Hears p max base v q'.standing) :
          Returned p max k v q' (.ok ())
            { request with disposed := true, payload := none
                           response := some response.dispose.2 } := by
        refine .answered oneway rfl heads ?_ hh (by simp)
        simpa [Response.Matches,Response.dispose,hdisposed] using same
      have hrelease : (Scene.release { connection := c }
          ({ told := Source.told request.payload } ++ response.dispose.1)).connection =
            response.dispose.1.streams.foldl
              (fun c i => (c.abandonReads i).disposeStream i) c := rfl
      simp only [answer]
      rw [hrelease]
      cases hatt : q.attached with
      | true =>
        have hcontent := hlies.stream hatt
        have hstreams : response.dispose.1.streams = [k] := by
          simp [Response.dispose,hdisposed,Payload.complete,hcontent]
        have hdispose :=
          (Connection.Runs.disposeStream (c := c.abandonReads k) (i := k) trivial).leaves (i := k)
        obtain ⟨a',hages,hstands⟩ := hc.abandonReads.leaves hdispose
        have habandon : Hears p max base v q.standing.abandon :=
          hears.of_eq rfl rfl rfl rfl rfl rfl
        rw [hstreams]
        exact ⟨⟨a',false⟩,hreturned (habandon.ages hages),hstands,
          (Connection.works_abandonReads k c).trans (Connection.works_disposeStream k _)⟩
      | false =>
        have hstreams : response.dispose.1.streams = [] := by
          rcases hlies.done hatt with hcontent | hcontent <;>
            simp [Response.dispose,hdisposed,Payload.complete,hcontent]
        rw [hstreams]
        exact ⟨q,hreturned hears,hc,.refl k c⟩

end Rpc

end Multiplex
