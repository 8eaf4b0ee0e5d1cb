import Multiplex.Rpc.Handler

/-!
How middlewares nest around a service. Layers do not wait, so a composed service does what the inner
one does, with notes on both sides, however often it is resumed.
-/

namespace Multiplex.Rpc

variable {s t : Service}

namespace Process

variable {α β γ : Type}

def carry (g : Event → Event) (k : α → Process β) : Process α → Process β
  | .done a => k a
  | .note e next => .note (g e) (next.carry g k)
  | .pause p next => .pause p (next.carry g k)
  | .call c next => .call c fun r => (next r).carry g k
  | .chunk max next => .chunk max fun r => (next r).carry g k
  | .all next => .all fun r => (next r).carry g k
  | .complete next => .complete (next.carry g k)
  | .guard e next => .guard (g e) (next.carry g k)
  | .unguard next => .unguard (next.carry g k)

theorem carry_id (k : α → Process β) (p : Process α) : p.carry id k = p.bind k := by
  induction p with
  | done a => rfl
  | note e next ih => exact congrArg (note e) ih
  | pause h next ih => exact congrArg (pause h) ih
  | call c next ih => exact congrArg (call c) (funext ih)
  | chunk max next ih => exact congrArg (chunk max) (funext ih)
  | all next ih => exact congrArg all (funext ih)
  | complete next ih => exact congrArg complete ih
  | guard e next ih => exact congrArg (guard e) ih
  | unguard next ih => exact congrArg unguard ih

theorem carry_carry (g g' : Event → Event) (k : α → Process β) (k' : β → Process γ)
    (p : Process α) : (p.carry g k).carry g' k' = p.carry (g' ∘ g) fun a => (k a).carry g' k' := by
  induction p with
  | done a => rfl
  | note e next ih => exact congrArg (note _) ih
  | pause h next ih => exact congrArg (pause h) ih
  | call c next ih => exact congrArg (call c) (funext ih)
  | chunk max next ih => exact congrArg (chunk max) (funext ih)
  | all next ih => exact congrArg all (funext ih)
  | complete next ih => exact congrArg complete ih
  | guard e next ih => exact congrArg (guard _) ih
  | unguard next ih => exact congrArg unguard ih

theorem bind_bind (k : α → Process β) (l : β → Process γ) (p : Process α) :
    (p.bind k).bind l = p.bind fun a => (k a).bind l := by
  simpa only [carry_id,Function.id_comp] using carry_carry id id k l p

theorem bind_done (p : Process α) : p.bind done = p := by
  induction p with
  | done a => rfl
  | note e next ih => exact congrArg (note e) ih
  | pause h next ih => exact congrArg (pause h) ih
  | call c next ih => exact congrArg (call c) (funext ih)
  | chunk max next ih => exact congrArg (chunk max) (funext ih)
  | all next ih => exact congrArg all (funext ih)
  | complete next ih => exact congrArg complete ih
  | guard e next ih => exact congrArg (guard e) ih
  | unguard next ih => exact congrArg unguard ih

theorem bind_notes (es : List Event) (p : Process α) (k : α → Process β) :
    (notes es p).bind k = notes es (p.bind k) := by
  induction es with
  | nil => rfl
  | cons e es ih => exact congrArg (note e) ih

theorem notes_append (es fs : List Event) (p : Process α) :
    notes (es ++ fs) p = notes es (notes fs p) := List.foldr_append

theorem run_notes (es : List Event) (p : Process α) (m : Moment) (s : Scene) :
    (notes es p).run m s = p.run m { s with log := s.log ++ es } := by
  induction es generalizing s with
  | nil => simp [notes]
  | cons e es ih =>
    have h : (notes (e :: es) p).run m s = (notes es p).run m (s.note e) := rfl
    rw [h,ih,Scene.note,List.append_assoc,List.singleton_append]

end Process

def Scene.carry (g : Event → Event) (s : Scene) : Scene :=
  { s with guards := s.guards.map g, log := s.log.map g }

def Halted.carry {α β : Type} (m : Moment) (g : Event → Event) (k : α → Process β) :
    Halted α × Scene → Halted β × Scene
  | (.done a, s) => (k a).run m (s.carry g)
  | (.calling w next, s) => (.calling w fun r => (next r).carry g k, s.carry g)
  | (.paused h next, s) => (.paused h (next.carry g k), s.carry g)

/-- A later look at a process, after its connection has changed. -/
structure Visit where
  moment : Moment
  meanwhile : Connection → Connection

def Halted.visit {α : Type} (x : Halted α × Scene) (v : Visit) : Halted α × Scene :=
  let s := { x.2 with connection := v.meanwhile x.2.connection }
  (x.1.resume v.moment s).getD (x.1,s)

def Process.visits {α : Type} (p : Process α) (m : Moment) (s : Scene) (vs : List Visit) :
    Halted α × Scene :=
  vs.foldl Halted.visit (p.run m s)

theorem Process.visits_notes {α : Type} (es : List Event) (p : Process α) (m : Moment) (s : Scene)
    (vs : List Visit) :
    (notes es p).visits m s vs = p.visits m { s with log := s.log ++ es } vs := by
  rw [visits,run_notes,visits]

section Carry

variable {α β : Type} {g : Event → Event}

theorem Scene.carry_id (s : Scene) : s.carry id = s := by simp [carry]

theorem Scene.carry_note (g : Event → Event) (s : Scene) (e : Event) :
    (s.note e).carry g = (s.carry g).note (g e) := by
  simp [carry,note]

variable (hg : ∀ name, g (.completed name) = .completed name)
include hg

theorem Scene.carry_complete (s : Scene) : s.complete.carry g = (s.carry g).complete := by
  simp [carry,complete,Event.told,hg]

theorem Process.run_carry (k : α → Process β) (m : Moment) (p : Process α) (s : Scene) :
    (p.carry g k).run m (s.carry g) = Halted.carry m g k (p.run m s) := by
  induction p generalizing s with
  | done a => rfl
  | note e next ih =>
    rw [run,← ih,Scene.carry_note]
    rfl
  | pause p next ih =>
    simp only [carry,run]
    split
    · exact ih s
    · rfl
  | call c next ih =>
    simp only [carry,run,Scene.carry]
    rcases s.connection.call m.givenUp (c.on s.stream) with ⟨⟨r⟩ | ⟨w⟩,connection⟩
    · exact ih r { s with connection }
    · rfl
  | chunk max next ih =>
    simp only [carry,run,Scene.carry]
    cases s.payload.content with
    | stream i =>
      dsimp only
      rcases s.connection.call m.givenUp (.read i (.chunk max)) with ⟨⟨r⟩ | ⟨w⟩,connection⟩
      · exact ih (chunkRead r) { s with connection }
      · rfl
    | buffered | completed => exact ih _ { s with payload := (s.payload.takeChunk max).2 }
  | all next ih =>
    have complete (bs : Bytes) (s : Scene) :
        ((next (.ok bs)).carry g k).run m (s.carry g).complete =
          Halted.carry m g k ((next (.ok bs)).run m s.complete) := by
      rw [← Scene.carry_complete hg]
      exact ih _ _
    simp only [carry,run]
    rw [show (s.carry g).payload = s.payload from rfl,
      show (s.carry g).connection = s.connection from rfl]
    cases s.payload.content with
    | stream i =>
      dsimp only
      rcases s.connection.call m.givenUp (.read i (.toEnd [])) with ⟨⟨r⟩ | ⟨w⟩,connection⟩
      · dsimp only
        cases bytesRead r with
        | ok bs => exact complete bs { s with connection }
        | error e => exact ih (.error e) { s with connection }
      · refine Prod.ext (congrArg (Halted.calling _) (funext fun r => ?_)) rfl
        simp only [afterAll]
        cases bytesRead r <;> rfl
    | buffered | completed => exact complete _ s
  | complete next ih =>
    rw [run,← ih,Scene.carry_complete hg]
    rfl
  | guard e next ih => exact ih { s with guards := e :: s.guards }
  | unguard next ih =>
    rw [run,← ih,carry,run]
    simp [Scene.carry]

/-- Going on with notes and a result does not have to wait, so it may come before a visit as well as
after it. -/
theorem Halted.visit_carry (es : α → List Event) (f : α → β) (m : Moment) (x : Halted α × Scene)
    (v : Visit) :
    visit (carry m g (fun a => .notes (es a) (.done (f a))) x) v =
      carry m g (fun a => .notes (es a) (.done (f a))) (visit x v) := by
  have any (m' : Moment) (y : Halted α × Scene) :
      carry m g (fun a => .notes (es a) (.done (f a))) y =
        carry m' g (fun a => .notes (es a) (.done (f a))) y := by
    obtain ⟨_ | _ | _,s⟩ := y
    · simp only [carry,Process.run_notes,Process.run]
    · rfl
    · rfl
  rw [any v.moment (visit x v)]
  obtain ⟨a | ⟨w,next⟩ | ⟨h,next⟩,s⟩ := x
  · simp only [carry,Process.run_notes]
    rfl
  · have hc : (s.carry g).connection = s.connection := rfl
    rw [carry.eq_2]
    rcases hw : (v.meanwhile s.connection).wake v.moment.givenUp w with _ | ⟨⟨r⟩ | ⟨w⟩,connection⟩
    · simp only [visit,resume,hc,hw]
      rfl
    · simp only [visit,resume,hc,hw,Option.getD_some]
      exact Process.run_carry hg _ v.moment (next r) { s with connection }
    · simp only [visit,resume,hc,hw]
      rfl
  · rw [carry.eq_3]
    by_cases ho : h.over v.moment
    · simp only [visit,resume,if_pos ho,Option.getD_some]
      exact Process.run_carry hg _ v.moment next { s with connection := v.meanwhile s.connection }
    · simp only [visit,resume,if_neg ho]
      rfl

theorem Process.visits_carry (es : α → List Event) (f : α → β) (m : Moment) (p : Process α)
    (s : Scene) (vs : List Visit) :
    (p.carry g fun a => .notes (es a) (.done (f a))).visits m (s.carry g) vs =
      Halted.carry m g (fun a => .notes (es a) (.done (f a))) (p.visits m s vs) := by
  rw [visits,visits,run_carry hg,List.foldl_hom _ fun x v => Halted.visit_carry hg es f m x v]

end Carry

/-- What a layer does with a request. -/
inductive Ruling
  | pass (r : Incoming)
  | settle (o : Except Fault Reply)

/-- A middleware that notes what passes it in both directions. -/
structure Layer where
  before : Incoming → Event
  ruling : Incoming → Ruling
  after : Incoming → Except Fault Reply → Event
  /-- What it makes of what came back. -/
  revise : Incoming → Except Fault Reply → Except Fault Reply

namespace Layer

variable {ls : List Layer} {r r' : Incoming}

def middleware (l : Layer) : Middleware := fun next r =>
  .note (l.before r) <|
    Process.bind (match l.ruling r with
      | .pass r' => next r'
      | .settle o => .done o) fun o => .note (l.after r o) (.done (l.revise r o))

/-- The layers a request gets to, outermost first, and how each of them sees it. -/
def entered : List Layer → Incoming → List (Layer × Incoming)
  | [], _ => []
  | l :: ls, r => (l,r) :: match l.ruling r with
    | .pass r' => entered ls r'
    | .settle _ => []

/-- The request behind all layers, if it gets there. -/
def passOn : List Layer → Incoming → Option Incoming
  | [], r => some r
  | l :: ls, r => match l.ruling r with
    | .pass r' => passOn ls r'
    | .settle _ => none

def core (target : Service) : List Layer → Incoming → Process (Except Fault Reply)
  | [], r => target r
  | l :: ls, r => match l.ruling r with
    | .pass r' => core target ls r'
    | .settle o => .done o

def befores (es : List (Layer × Incoming)) : List Event := es.map fun (l,r) => l.before r

/-- The outcome outside, for an outcome inside. -/
def outcome : List (Layer × Incoming) → Except Fault Reply → Except Fault Reply
  | [], o => o
  | (l,r) :: es, o => l.revise r (outcome es o)

/-- What is noted on the way out, innermost first. -/
def afters : List (Layer × Incoming) → Except Fault Reply → List Event
  | [], _ => []
  | (l,r) :: es, o => afters es o ++ [l.after r (outcome es o)]

theorem compose_layers (ls : List Layer) (target : Service) (r : Incoming) :
    compose (ls.map middleware) target r =
      .notes (befores (entered ls r)) ((core target ls r).bind fun o =>
        .notes (afters (entered ls r) o) (.done (outcome (entered ls r) o))) := by
  induction ls generalizing r with
  | nil => exact (Process.bind_done _).symm
  | cons l ls ih =>
    have h : compose ((l :: ls).map middleware) target r =
        l.middleware (compose (ls.map middleware) target) r := rfl
    rw [h,middleware]
    cases hr : l.ruling r with
    | pass r' =>
      simp only [entered,core,hr,befores,afters,outcome,List.map_cons,ih r',Process.bind_notes,
        Process.bind_bind,Process.notes_append]
      rfl
    | settle o => simp [entered,core,hr,befores,afters,outcome,Process.notes,Process.bind]

theorem passed (h : passOn ls r = some r') (target : Service) :
    (entered ls r).map Prod.fst = ls ∧ core target ls r = target r' := by
  induction ls generalizing r with
  | nil =>
    cases h
    exact ⟨rfl,rfl⟩
  | cons l ls ih =>
    cases hr : l.ruling r with
    | pass r'' =>
      simp only [passOn,hr] at h
      simpa [entered,core,hr] using ih h
    | settle o => simp [passOn,hr] at h

theorem settled {passed rest : List Layer} {l : Layer} {o : Except Fault Reply}
    (h : passOn passed r = some r') (hl : l.ruling r' = .settle o) (target : Service) :
    (entered (passed ++ l :: rest) r).map Prod.fst = passed ++ [l] ∧
      core target (passed ++ l :: rest) r = .done o := by
  induction passed generalizing r with
  | nil =>
    cases h
    simp [entered,core,hl]
  | cons p passed ih =>
    cases hr : p.ruling r with
    | pass r'' =>
      simp only [passOn,hr] at h
      simpa [entered,core,hr] using ih h
    | settle o => simp [passOn,hr] at h

theorem exists_settled (h : passOn ls r = none) :
    ∃ passed l rest r' o, ls = passed ++ l :: rest ∧ passOn passed r = some r' ∧
      l.ruling r' = .settle o := by
  induction ls generalizing r with
  | nil => cases h
  | cons l ls ih =>
    cases hr : l.ruling r with
    | pass r'' =>
      simp only [passOn,hr] at h
      obtain ⟨passed,k,rest,r',o,rfl,hp,hk⟩ := ih h
      exact ⟨l :: passed,k,rest,r',o,rfl,by simp [passOn,hr,hp],hk⟩
    | settle o => exact ⟨[],l,ls,r,o,rfl,rfl,hr⟩

end Layer

/-- An event without the text of a fault. -/
def Event.mute : Event → Event
  | .faulted name _ => .faulted name ⟨""⟩
  | e => e

def Process.mute (p : Process (Except Fault Reply)) : Process (Option Reply) :=
  p.carry Event.mute fun o => .done o.toOption

/-- Two services that do the same but for the text of their faults. -/
def Service.Alike (s t : Service) : Prop := ∀ r, (s r).mute = (t r).mute

/-- Outside, nothing but the notes can tell two such services apart. -/
theorem Service.Alike.carry_contained (h : s.Alike t) (r : Incoming) :
    (contained s r).carry Event.mute .done = (contained t r).carry Event.mute .done := by
  have out (s : Service) : (contained s r).carry Event.mute .done =
      (s r).mute.carry id fun o => .done (o.getD .internalError) := by
    rw [contained,Process.mute,← Process.carry_id,Process.carry_carry,Process.carry_carry]
    congr 1
    funext o
    cases o <;> rfl
  rw [out,out,h r]

theorem Service.Alike.visits_contained (h : s.Alike t) (r : Incoming) (m : Moment) {a b : Scene}
    (hab : a.carry Event.mute = b.carry Event.mute) (vs : List Visit) :
    ((contained s r).visits m a vs).1.result? = ((contained t r).visits m b vs).1.result? ∧
      ((contained s r).visits m a vs).2.carry Event.mute =
        ((contained t r).visits m b vs).2.carry Event.mute := by
  have hv (s : Service) (a : Scene) := Process.visits_carry (g := Event.mute) (fun _ => rfl)
    (fun _ => []) id m (contained s r) a vs
  have out (x : Halted Reply × Scene) :
      (Halted.carry m Event.mute (fun a => .notes [] (.done (id a))) x).1.result? = x.1.result? ∧
        (Halted.carry m Event.mute (fun a => .notes [] (.done (id a))) x).2 =
          x.2.carry Event.mute := by
    obtain ⟨_ | _ | _,_⟩ := x <;> exact ⟨rfl,rfl⟩
  have hc : (contained s r).carry Event.mute (fun a => .notes [] (.done (id a))) =
      (contained t r).carry Event.mute fun a => .notes [] (.done (id a)) := h.carry_contained r
  have he := hv s a
  rw [hab,hc,hv t b] at he
  rw [← (out _).1,← (out _).2,← he]
  exact out _

/-- Requests pass the layers inwards in their order and come back in the reverse one, each of them
noting both once. The first layer that settles a request itself turns it back, and nothing behind it
happens. If none does, the target works as it would alone, on what the layers made of the request.
What is contained gives the same reply whatever the text of a fault is. -/
theorem compose_nests (ls : List Layer) (target : Service) (r : Incoming) (m : Moment) (s : Scene) :
    let through := compose (ls.map Layer.middleware) target r
    let entered := Layer.entered ls r
    (∀ passed l rest r' o, ls = passed ++ l :: rest → Layer.passOn passed r = some r' →
      l.ruling r' = .settle o →
        entered.map Prod.fst = passed ++ [l] ∧
        through.run m s = (.done (Layer.outcome entered o),
          { s with log := s.log ++ Layer.befores entered ++ Layer.afters entered o })) ∧
    (∀ r', Layer.passOn ls r = some r' →
      entered.map Prod.fst = ls ∧ ∀ vs,
        let inner := (target r').visits m { s with log := s.log ++ Layer.befores entered } vs
        (through.visits m s vs).1.result? = inner.1.result?.map (Layer.outcome entered) ∧
        (through.visits m s vs).2 =
          { inner.2 with log := inner.2.log ++ inner.1.result?.elim [] (Layer.afters entered) }) ∧
    (Layer.passOn ls r = none → ∃ passed l rest r' o,
      ls = passed ++ l :: rest ∧ Layer.passOn passed r = some r' ∧ l.ruling r' = .settle o) ∧
    ∀ t t' : Service, t.Alike t' → ∀ (s' : Scene), s.carry Event.mute = s'.carry Event.mute →
      ∀ vs,
        ((contained t r).visits m s vs).1.result? = ((contained t' r).visits m s' vs).1.result? ∧
        ((contained t r).visits m s vs).2.carry Event.mute =
          ((contained t' r).visits m s' vs).2.carry Event.mute := by
  intro through entered
  have hthrough : through = _ := Layer.compose_layers ls target r
  refine ⟨fun passed l rest r' o hls hp hl => ?_,fun r' hp => ?_,Layer.exists_settled,
    fun t t' h s' hs vs => h.visits_contained r m hs vs⟩
  · subst hls
    obtain ⟨he,hc⟩ := Layer.settled hp hl target
    refine ⟨he,?_⟩
    rw [hthrough,hc,Process.run_notes,Process.bind,Process.run_notes]
    rfl
  · obtain ⟨he,hc⟩ := Layer.passed hp target
    refine ⟨he,fun vs => ?_⟩
    have hv := Process.visits_carry (g := id) (fun _ => rfl) (Layer.afters entered)
      (Layer.outcome entered) m (target r') { s with log := s.log ++ Layer.befores entered } vs
    rw [Process.carry_id,Scene.carry_id] at hv
    rw [hthrough,hc,Process.visits_notes,hv]
    rcases (target r').visits m { s with log := s.log ++ Layer.befores entered } vs with
      ⟨o | _ | _,t⟩
    · simp [Halted.carry,Process.run_notes,Scene.carry_id,Process.run,Halted.result?]
    · simp [Halted.carry,Scene.carry_id,Halted.result?]
    · simp [Halted.carry,Scene.carry_id,Halted.result?]

def Layer.recorder (name : String) : Layer where
  before r := .before name r.path
  ruling := .pass
  after _
    | .ok reply => .after name reply.status
    | .error f => .faulted name f
  revise _ o := o

def Layer.guard (name operation : String) (f : Fault) : Layer :=
  { recorder name with
    ruling := fun r => if r.operation = operation then .settle (.error f) else .pass r }

theorem Layer.middleware_recorder (name : String) :
    (recorder name).middleware = Treatment.pass.middleware name := by
  funext next r
  refine congrArg (Process.note _) (congrArg (Process.bind (next r)) (funext fun o => ?_))
  cases o <;> rfl

theorem compose_nests_guarded :
    let layers := [Treatment.pass.middleware "A",(Layer.guard "B" "admin" ⟨"no"⟩).middleware,
      Treatment.pass.middleware "C"]
    let failing (text : String) : Service := Handler.service ⟨"svc",[],.fault ⟨text⟩⟩
    let request (operation : String) : Incoming := { path := "/svc", operation }
    let moment : Moment := ⟨0,[],false⟩
    let scene : Scene := { connection := { role := .server, options := {}, codes := Code.space } }
    let result (text : String) :=
      ((contained (compose (layers.take 1) (failing text)) (request "read")).visits moment
        scene []).1.result?
    ((compose layers (failing "x") (request "admin")).run moment scene).2.log =
      [.before "A" "/svc",.before "B" "/svc",.faulted "B" ⟨"no"⟩,.faulted "A" ⟨"no"⟩] ∧
    ((compose layers (failing "x") (request "read")).visits moment scene []).2.log =
      [.before "A" "/svc",.before "B" "/svc",.before "C" "/svc",
        .entered ⟨"svc",(request "read").text,false,.empty,.empty⟩,.faulted "C" ⟨"x"⟩,
        .faulted "B" ⟨"x"⟩,.faulted "A" ⟨"x"⟩] ∧
    result "x" = result "y" := by
  intro layers failing request moment scene result
  have hl : layers =
      [.recorder "A",.guard "B" "admin" ⟨"no"⟩,.recorder "C"].map Layer.middleware := by
    simp only [layers,List.map_cons,List.map_nil,Layer.middleware_recorder]
  rw [hl]
  obtain ⟨admin,-,-,-⟩ := compose_nests [.recorder "A",.guard "B" "admin" ⟨"no"⟩,.recorder "C"]
    (failing "x") (request "admin") moment scene
  obtain ⟨-,read,-,alike⟩ := compose_nests [.recorder "A",.guard "B" "admin" ⟨"no"⟩,.recorder "C"]
    (failing "x") (request "read") moment scene
  obtain ⟨-,hadmin⟩ := admin [.recorder "A"] _ _ (request "admin") (.error ⟨"no"⟩) rfl rfl rfl
  obtain ⟨-,hread⟩ := read (request "read") rfl
  refine ⟨congrArg (·.2.log) hadmin,congrArg Scene.log (hread []).2,
    (alike _ _ (fun r => rfl) scene rfl []).1⟩

end Multiplex.Rpc
