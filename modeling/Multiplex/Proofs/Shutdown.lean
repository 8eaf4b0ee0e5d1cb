import Multiplex.Proofs.ProcessCalls
import Multiplex.Rpc.Deployment.Script
import Mathlib.Data.List.Induction
import Mathlib.Data.Option.Basic

/-!
Shutting a server down is final. A connection leaves the registry only once it is closed, and when a
shutdown has ended, in whatever way, all connections that were ever in the registry are closed, and
nobody who comes later gets there. Nothing is assumed of those at the other ends of the links.
-/

namespace Multiplex

namespace Endpoint

variable {e e' : Endpoint} {now : Nat} {out inn out' inn' : Pipe}

/-- Whether the connection is closed if it could not be opened. -/
def Resigned (e : Endpoint) : Prop :=
  ∀ f, e.connected = some (.error f) → e.connection.phase = .closed

/-- How an end goes on: once closed, it stays so. -/
structure Endures (e e' : Endpoint) : Prop where
  closed : e.connection.phase = .closed → e'.connection.phase = .closed
  resigned : e.Resigned → e'.Resigned

theorem Endures.refl (e : Endpoint) : e.Endures e := ⟨fun h => h,fun h => h⟩

theorem Endures.trans {e'' : Endpoint} (h : e.Endures e') (h' : e'.Endures e'') : e.Endures e'' :=
  ⟨fun hc => h'.closed (h.closed hc),fun hr => h'.resigned (h.resigned hr)⟩

theorem Endures.of_connected (hc : e.connection.phase = .closed → e'.connection.phase = .closed)
    (hs : e'.connected = e.connected) : e.Endures e' :=
  ⟨hc,fun hr f hf => hc (hr f (hs ▸ hf))⟩

theorem endures_failConnect (e : Endpoint) (f : Failure) : e.Endures (e.failConnect f) := by
  have hclosed : (e.failConnect f).connection.phase = .closed := Connection.abort_phase ..
  exact ⟨fun _ => hclosed,fun _ _ _ => hclosed⟩

theorem Pulls.endures (h : Pulls e now out inn e' out' inn') : e.Endures e' := by
  cases h with
  | leave closed =>
    refine ⟨fun _ => ?_,fun _ _ _ => ?_⟩ <;> rw [letGo_connection] <;> exact closed
  | refuse | late => exact e.endures_failConnect _
  | establish live =>
    refine ⟨fun hc => absurd hc live,fun _ f hf => ?_⟩
    cases hf
  | next live | takeIn live | endInput live | idle live | beat live =>
    exact .of_connected (fun hc => absurd hc live) rfl

theorem Pushes.endures (h : Pushes e out e' out') : e.Endures e' := by
  cases h with
  | broken => exact .of_connected (fun _ => Connection.abort_phase ..) rfl
  | complete live | write live | ship live | shut live =>
    exact .of_connected (fun hc => absurd hc live) rfl

end Endpoint

namespace Link

variable {l l' : Link}

/-- What stands at the far end goes on: an end of a connection endures, and nobody stays nobody. -/
def Keeps (l l' : Link) : Prop :=
  Option.Rel Endpoint.Endures (l.endpoint? .far) (l'.endpoint? .far)

theorem rel_endures_refl (e? : Option Endpoint) : Option.Rel Endpoint.Endures e? e? := by
  cases e? with
  | none => exact .none
  | some e => exact .some (.refl e)

theorem keeps_far {f : Endpoint → Endpoint} (h : ∀ e, l.endpoint? .far = some e → e.Endures (f e)) :
    l.Keeps (l.modifyEndpoint .far f) := by
  obtain ⟨near,far,forth,back⟩ := l
  cases far with
  | endpoint e => exact .some (h e rfl)
  | bare b => exact .none

theorem keeps_pull {now : Nat} (h : l.pull now .far = some l') : l.Keeps l' := by
  obtain ⟨r,hr,rfl⟩ := Option.map_eq_some_iff.mp h
  obtain ⟨near,far,forth,back⟩ := l
  cases far with
  | endpoint e =>
    obtain ⟨x,hx,rfl⟩ := Option.map_eq_some_iff.mp hr
    exact .some (Endpoint.pulls_of_pull hx).endures
  | bare b =>
    obtain ⟨x,hx,rfl⟩ := Option.map_eq_some_iff.mp hr
    exact .none

theorem keeps_push (h : l.push .far = some l') : l.Keeps l' := by
  obtain ⟨r,hr,rfl⟩ := Option.map_eq_some_iff.mp h
  obtain ⟨near,far,forth,back⟩ := l
  cases far with
  | endpoint e =>
    obtain ⟨x,hx,rfl⟩ := Option.map_eq_some_iff.mp hr
    exact .some (Endpoint.pushes_of_push hx).endures
  | bare b =>
    obtain ⟨x,hx,rfl⟩ := Option.map_eq_some_iff.mp hr
    exact .none

end Link

namespace Rpc

open Connection

/-- Whether a served connection whose end is awaited waits for just that. -/
def Serving.Staged (s : Serving) : Prop := ∀ z, s.stage = .ending (some z) → z.wait = .closed

namespace Deployment

variable {d d' d'' : Deployment} {link : Nat}

/-- The links of the connections in the registry. -/
def places (d : Deployment) : List Nat := d.server.servings.map (·.link)

def core (d : Deployment) :
    List Link × Bool × List Serving × List Operation × List (Nat × Result) :=
  (d.links, d.server.stopping, d.server.servings, d.operations, d.finished)

/-- What leaves the registry, and all that shuts the server down, as they are. -/
structure Quiet (d d' : Deployment) : Prop where
  far : ∀ i, Option.Rel Endpoint.Endures (d.endpoint? i .far) (d'.endpoint? i .far)
  stopping : d.server.stopping = true → d'.server.stopping = true
  places : d'.places = d.places
  staged : (∀ s ∈ d.server.servings, s.Staged) → ∀ s ∈ d'.server.servings, s.Staged
  operations : d'.operations = d.operations
  finished : d'.finished = d.finished

namespace Quiet

variable {i : Nat} {e : Endpoint}

theorem of_far (h : Quiet d d') (he : d'.endpoint? i .far = some e) :
    ∃ e₀, d.endpoint? i .far = some e₀ ∧ e₀.Endures e := by
  have hfar := h.far i
  rw [he] at hfar
  generalize d.endpoint? i .far = e? at hfar
  cases hfar with
  | some hx => exact ⟨_,rfl,hx⟩

theorem to_far (h : Quiet d d') (he : d.endpoint? i .far = some e) :
    ∃ e', d'.endpoint? i .far = some e' ∧ e.Endures e' := by
  have hfar := h.far i
  rw [he] at hfar
  generalize d'.endpoint? i .far = e? at hfar
  cases hfar with
  | some hx => exact ⟨_,rfl,hx⟩

theorem trans (h : Quiet d d') (h' : Quiet d' d'') : Quiet d d'' where
  far i := by
    have hfar := h.far i
    have hfar' := h'.far i
    generalize d.endpoint? i .far = a at hfar
    generalize d'.endpoint? i .far = b at hfar hfar'
    generalize d''.endpoint? i .far = c at hfar'
    cases hfar with
    | none => exact hfar'
    | some hx =>
      cases hfar' with
      | some hx' => exact .some (hx.trans hx')
  stopping hs := h'.stopping (h.stopping hs)
  places := h'.places.trans h.places
  staged hs := h'.staged (h.staged hs)
  operations := h'.operations.trans h.operations
  finished := h'.finished.trans h.finished

theorem same (h : d'.core = d.core) : Quiet d d' := by
  simp only [core,Prod.mk.injEq] at h
  obtain ⟨hlinks,hstopping,hservings,hoperations,hfinished⟩ := h
  refine ⟨fun i => ?_,fun hs => hstopping.trans hs,congrArg (List.map _) hservings,
    fun hs => hservings ▸ hs,hoperations,hfinished⟩
  rw [endpoint?,endpoint?,hlinks]
  exact Link.rel_endures_refl _

theorem refl (d : Deployment) : Quiet d d := same rfl

theorem modifyLink {f : Link → Link} (hf : ∀ l, d.links[link]? = some l → l.Keeps (f l)) :
    Quiet d (d.modifyLink link f) := by
  refine { Quiet.refl d with far := fun i => ?_ }
  rw [endpoint?,endpoint?,Deployment.modifyLink,List.getElem?_modify]
  cases hi : d.links[i]? with
  | none => exact .none
  | some l =>
    by_cases hij : link = i
    · subst hij
      simpa [Link.Keeps] using hf l hi
    · simpa [hij] using Link.rel_endures_refl _

/-- Nothing changes at the far end of a link. -/
theorem beside {f : Link → Link} (hf : ∀ l, (f l).far = l.far) : Quiet d (d.modifyLink link f) := by
  refine modifyLink fun l _ => ?_
  rw [Link.Keeps,Link.endpoint?,Link.endpoint?,Link.party,Link.party,hf]
  exact Link.rel_endures_refl _

theorem served {c c' : Connection} (hc : d.connection? link .far = some c) (h : c.Drifts c') :
    Quiet d (d.modifyConnection link .far fun _ => c') := by
  refine modifyLink fun l hl => Link.keeps_far fun e he => .of_connected (fun hp => ?_) rfl
  have hsame : e.connection = c := by simpa [connection?,hl,Link.connection?,he] using hc
  exact h.fades.phase.closed (hsame ▸ hp)

end Quiet

section Server

variable (d)

theorem quiet_keepDispatching {c : Connection} {x : Dispatching} (dispatch : Dispatch) {s : Scene}
    (hc : d.connection? x.link .far = some c) (h : c.Drifts s.connection) :
    Quiet d (d.keepDispatching x dispatch s) :=
  (Quiet.served hc h).trans (.same rfl)

theorem quiet_dispatch (link : Nat) (peer : String) (stream : Nat) :
    Quiet d (d.dispatch link peer stream) := by
  unfold dispatch
  split
  · exact .refl d
  · rename_i c hc
    exact quiet_keepDispatching (x := ⟨link,peer,stream,_,_,_⟩) d _ hc
      (Dispatch.drifts_start _ _ peer (.refl c))

theorem quiet_wakeDispatching {x : Dispatching} (h : d.wakeDispatching x = some d') :
    Quiet d d' := by
  unfold wakeDispatching at h
  split at h
  · cases h
  · rename_i c hc
    obtain ⟨r,hr,rfl⟩ := Option.map_eq_some_iff.mp h
    exact quiet_keepDispatching d _ hc (Dispatch.drifts_resume _ _ x.peer (.refl c) hr)

theorem quiet_setStage {stage : ServingStage} (link : Nat)
    (h : ∀ z, stage = .ending (some z) → z.wait = .closed) : Quiet d (d.setStage link stage) := by
  refine { Quiet.refl d with places := ?_, staged := fun hs s hm => ?_ }
  · simp only [places,setStage,modifyServer,List.map_map]
    refine List.map_congr_left fun s _ => ?_
    simp only [Function.comp_apply]
    split <;> rfl
  · obtain ⟨t,ht,rfl⟩ := List.mem_map.mp hm
    split
    · exact h
    · exact hs t ht

theorem quiet_foldl {f : Deployment → Nat → Deployment} (hf : ∀ d i, Quiet d (f d i))
    (l : List Nat) : Quiet d (l.foldl f d) := by
  induction l generalizing d with
  | nil => exact .refl d
  | cons i l ih => exact (hf d i).trans (ih (f d i))

theorem quiet_hangUp (link : Nat) : Quiet d (d.modifyLink link Link.hangUp) := .beside fun _ => rfl

theorem quiet_stopAccepting : Quiet d d.stopAccepting ∧ d.stopAccepting.server.stopping = true := by
  have hdrop (d : Deployment) (i : Nat) : Quiet d (d.dropListener i) := by
    have hunbind : Quiet d { d with network := (d.network.unbind i).2 } := .same rfl
    exact (hunbind.trans (quiet_foldl _ quiet_hangUp _)).trans (.same rfl)
  have hstop : Quiet d (d.modifyServer fun s => { s with stopping := true }) :=
    { Quiet.refl d with stopping := fun _ => rfl }
  have hall : Quiet (d.modifyServer fun s => { s with stopping := true }) d.stopAccepting :=
    quiet_foldl _ hdrop _
  exact ⟨hstop.trans hall,hall.stopping rfl⟩

theorem quiet_beginClosing (link : Nat) : Quiet d (d.beginClosing link).2 := by
  unfold beginClosing
  split
  · exact .refl d
  · rename_i c hc
    have hcall := drifts_call c false (.close Code.noError.value)
    split <;> rename_i heq <;> rw [heq] at hcall <;> exact .served hc hcall

theorem quiet_beginClosings (links : List Nat) : Quiet d (beginClosings links d).2 := by
  induction links generalizing d with
  | nil => exact .refl d
  | cons link links ih => exact (d.quiet_beginClosing link).trans (ih _)

theorem quiet_wakeClosings {closing closing' : List (Nat × Suspended)}
    (h : d.wakeClosings closing = some (closing', d')) : Quiet d d' := by
  induction closing generalizing closing' with
  | nil => cases h
  | cons x closing ih =>
    obtain ⟨link,z⟩ := x
    have hserved {outcome : Outcome} {c' : Connection}
        (hw : (d.connection? link .far).bind (·.wake false z) = some (outcome, c')) :
        Quiet d (d.modifyConnection link .far fun _ => c') := by
      obtain ⟨c,hc,hwake⟩ := Option.bind_eq_some_iff.mp hw
      exact .served hc (drifts_wake hwake)
    unfold wakeClosings at h
    split at h
    · rename_i hw
      cases h
      exact hserved hw
    · rename_i hw
      cases h
      exact hserved hw
    · obtain ⟨r,hr,heq⟩ := Option.map_eq_some_iff.mp h
      cases heq
      exact ih hr

theorem far_modifyLink {d : Deployment} {i : Nat} {f : Endpoint → Endpoint} {e : Endpoint}
    (h : (d.modifyLink i (·.modifyEndpoint .far f)).endpoint? i .far = some e) :
    ∃ e₀, d.endpoint? i .far = some e₀ ∧ e = f e₀ := by
  obtain ⟨l,hl,he⟩ := Option.bind_eq_some_iff.mp h
  obtain ⟨l,hl',rfl⟩ : ∃ l', d.links[i]? = some l' ∧ l'.modifyEndpoint .far f = l := by
    simpa [modifyLink] using hl
  obtain ⟨near,far,forth,back⟩ := l
  cases far with
  | endpoint e₀ =>
    cases he
    exact ⟨e₀,by simp [endpoint?,hl',Link.endpoint?,Link.party],rfl⟩
  | bare b => cases he

theorem quiet_disposeServed (links : List Nat) : Quiet d (d.disposeServed links) := by
  refine quiet_foldl d (fun d link => ?_) links
  refine .modifyLink fun l _ => Link.keeps_far fun e _ => .of_connected (fun _ => ?_) rfl
  exact Connection.abort_phase ..

theorem closed_disposeServed {links : List Nat} {i : Nat} {e : Endpoint} (hi : i ∈ links)
    (h : (d.disposeServed links).endpoint? i .far = some e) : e.connection.phase = .closed := by
  induction links generalizing d with
  | nil => cases hi
  | cons link links ih =>
    rcases List.mem_cons.mp hi with rfl | hi
    · obtain ⟨e₀,h₀,he⟩ := (quiet_disposeServed _ links).of_far h
      obtain ⟨e₁,-,rfl⟩ := far_modifyLink h₀
      exact he.closed (Connection.abort_phase ..)
    · exact ih _ hi h

end Server

/-- Whether the server is stopping, and all connections that it ever took over are closed. -/
def Final (d : Deployment) : Prop :=
  d.server.stopping = true ∧ ∀ i e, d.endpoint? i .far = some e → e.connection.phase = .closed

/-- Whether an operation shuts the server down, with all connections that are in the registry. -/
structure Shutting (d : Deployment) (o : Operation) : Prop where
  alone : o.link = none
  stopping : d.server.stopping = true
  task : ∃ links closing deadline, o.task = .shutDown links closing deadline ∧
    ∀ i ∈ d.places, i ∈ links

/-- What holds whatever has happened. -/
structure Orderly (d : Deployment) : Prop where
  /-- A connection that is no longer in the registry is closed. -/
  served : ∀ {i : Nat} {e : Endpoint}, d.endpoint? i .far = some e →
    i ∈ d.places ∨ e.connection.phase = .closed
  there : ∀ {i : Nat}, i ∈ d.places → ∃ e, d.endpoint? i .far = some e
  resigned : ∀ {i : Nat} {e : Endpoint}, d.endpoint? i .far = some e → e.Resigned
  staged : ∀ s ∈ d.server.servings, s.Staged
  under : ∀ o ∈ d.operations, d.Shutting o
  past : d.finished ≠ [] → d.Final

/-- What becomes of the connections: they endure, and while the server is stopping no others come to
the registry. -/
structure Carries (d d' : Deployment) : Prop where
  far : ∀ {i : Nat} {e : Endpoint}, d.endpoint? i .far = some e →
    ∃ e', d'.endpoint? i .far = some e' ∧ e.Endures e'
  stopping : d.server.stopping = true → d'.server.stopping = true
  old : d.server.stopping = true → ∀ {i : Nat} {e' : Endpoint}, d'.endpoint? i .far = some e' →
    ∃ e, d.endpoint? i .far = some e
  places : d.server.stopping = true → ∀ i ∈ d'.places, i ∈ d.places

theorem Carries.trans (h : d.Carries d') (h' : d'.Carries d'') : d.Carries d'' where
  far he := by
    obtain ⟨e',he',hx⟩ := h.far he
    obtain ⟨e'',he'',hx'⟩ := h'.far he'
    exact ⟨e'',he'',hx.trans hx'⟩
  stopping hs := h'.stopping (h.stopping hs)
  old hs _ _ he := by
    obtain ⟨e',he'⟩ := h'.old (h.stopping hs) he
    exact h.old hs he'
  places hs i hi := h.places hs i (h'.places (h.stopping hs) i hi)

theorem Quiet.carries (h : Quiet d d') : d.Carries d' := by
  refine ⟨h.to_far,h.stopping,fun _ _ _ he => ?_,fun _ i hi => h.places ▸ hi⟩
  obtain ⟨e,he,-⟩ := h.of_far he
  exact ⟨e,he⟩

/-- What happens elsewhere than on the links. -/
theorem Carries.of_links (hl : d'.links = d.links) (hs : d'.server.stopping = d.server.stopping)
    (hp : ∀ i ∈ d'.places, i ∈ d.places) : d.Carries d' := by
  have hsame (i : Nat) : d'.endpoint? i .far = d.endpoint? i .far := by
    rw [endpoint?,hl,endpoint?]
  exact ⟨fun he => ⟨_,(hsame _).trans he,.refl _⟩,hs.trans,
    fun _ _ _ he => ⟨_,(hsame _).symm.trans he⟩,fun _ => hp⟩

theorem Final.carries (h : d.Final) (hc : d.Carries d') : d'.Final := by
  refine ⟨hc.stopping h.1,fun i e' he' => ?_⟩
  obtain ⟨e,he⟩ := hc.old h.1 he'
  obtain ⟨e'',h'',hx⟩ := hc.far he
  rw [he'] at h''
  cases h''
  exact hx.closed (h.2 i e he)

structure Advances (d d' : Deployment) : Prop where
  orderly : d'.Orderly
  carries : d.Carries d'

theorem Advances.andThen (h : Advances d d') (h' : d'.Orderly → Advances d' d'') :
    Advances d d'' :=
  ⟨(h' h.orderly).orderly,h.carries.trans (h' h.orderly).carries⟩

theorem Shutting.subset {o : Operation} (h : d.Shutting o)
    (hs : d.server.stopping = true → d'.server.stopping = true)
    (hp : ∀ i ∈ d'.places, i ∈ d.places) : d'.Shutting o := by
  obtain ⟨links,closing,deadline,ht,hl⟩ := h.task
  exact ⟨h.alone,hs h.stopping,links,closing,deadline,ht,fun i hi => hl i (hp i hi)⟩

/-- The connection at the far end of a link is registered. -/
def registered (d : Deployment) (link : Nat) (peer : String) (e : Endpoint) : Deployment :=
  (d.modifyLink link (·.setParty (.endpoint e) .far)).modifyServer fun s =>
    { s with servings := s.servings ++ [{ link, peer }] }

theorem far_registered (d : Deployment) (peer : String) (e : Endpoint) (hlt : link < d.links.length)
    (i : Nat) : (d.registered link peer e).endpoint? i .far =
      if i = link then some e else d.endpoint? i .far := by
  unfold endpoint? registered modifyServer modifyLink
  rw [List.getElem?_modify]
  by_cases hi : i = link
  · subst hi
    rw [List.getElem?_eq_getElem hlt]
    simp [Link.endpoint?,Link.setParty,Link.party]
  · simp [hi,Ne.symm hi]

theorem places_registered (d : Deployment) (peer : String) (e : Endpoint) :
    (d.registered link peer e).places = d.places ++ [link] := by
  simp [places,registered,modifyServer,modifyLink]

/-- What waits for the end of a connection ends when it is closed. -/
theorem closes_callOrWake {c c' : Connection} {z : Option Suspended} {outcome : Outcome}
    (hz : ∀ w, z = some w → w.wait = .closed)
    (h : callOrWake c .closed z = some (outcome, c')) :
    c' = c ∧ (outcome = .wait .closed ∨ (∃ r, outcome = .done r) ∧ c.phase = .closed) := by
  have hsame : (outcome, c') = c.resume false .closed := by
    cases z with
    | none => exact (Option.some.inj h).symm
    | some w =>
      rw [← hz w rfl]
      exact eq_resume_of_wake h
  simp only [resume,lookClosed] at hsame
  by_cases hp : c.phase = .closed
  · simp only [hp,if_true] at hsame
    cases he : c.error <;> simp only [he] at hsame <;> cases hsame <;>
      exact ⟨rfl,.inr ⟨⟨_,rfl⟩,hp⟩⟩
  · simp only [hp,if_false] at hsame
    cases hsame
    exact ⟨rfl,.inl rfl⟩

namespace Orderly

theorem quiet (h : d.Orderly) (hq : Quiet d d') : Advances d d' where
  carries := hq.carries
  orderly :=
    { served := fun he => by
        obtain ⟨e₀,h₀,hx⟩ := hq.of_far he
        rw [hq.places]
        exact (h.served h₀).imp_right hx.closed
      there := fun hi => by
        rw [hq.places] at hi
        obtain ⟨e,he⟩ := h.there hi
        obtain ⟨e',he',-⟩ := hq.to_far he
        exact ⟨e',he'⟩
      resigned := fun he => by
        obtain ⟨e₀,h₀,hx⟩ := hq.of_far he
        exact hx.resigned (h.resigned h₀)
      staged := hq.staged h.staged
      under := fun o ho => by
        rw [hq.operations] at ho
        exact (h.under o ho).subset hq.stopping fun i hi => hq.places ▸ hi
      past := fun hf => by
        rw [hq.finished] at hf
        exact (h.past hf).carries hq.carries }

theorem removeServing (h : d.Orderly)
    (hc : ∀ e, d.endpoint? link .far = some e → e.connection.phase = .closed) :
    Advances d (d.removeServing link) := by
  have hplaces : ∀ i ∈ (d.removeServing link).places, i ∈ d.places :=
    fun _ hi => (List.filter_sublist.map _).subset hi
  refine ⟨{ h with
    served := fun {i e} he => ?_
    there := fun {i} hi => h.there (hplaces i hi)
    staged := fun s hs => h.staged s (List.mem_of_mem_filter hs)
    under := fun o ho => (h.under o ho).subset (fun hs => hs) hplaces },
    .of_links rfl rfl hplaces⟩
  by_cases hi : i = link
  · subst hi
    exact .inr (hc e he)
  · refine (h.served he).imp_left fun hm => ?_
    obtain ⟨s,hs,rfl⟩ := List.mem_map.mp hm
    exact List.mem_map_of_mem (List.mem_filter.mpr ⟨hs,by simpa using hi⟩)

theorem leave (h : d.Orderly) (hq : Quiet d d')
    (hc : ∀ e, d'.endpoint? link .far = some e → e.connection.phase = .closed) :
    Advances d (d'.removeServing link) :=
  (h.quiet hq).andThen fun h => h.removeServing hc

theorem register (h : d.Orderly) (hs : d.server.stopping = false) (hlt : link < d.links.length)
    (vacant : d.endpoint? link .far = none) (peer : String) {e : Endpoint} (he : e.Resigned) :
    Advances d (d.registered link peer e) := by
  have hfar := d.far_registered peer e hlt
  have hstopped : ¬d.server.stopping = true := by simp [hs]
  refine ⟨{ h with
    served := fun {i x} hx => ?_
    there := fun {i} hm => ?_
    resigned := fun {i x} hx => ?_
    staged := fun s hm => ?_
    under := fun o ho => absurd (h.under o ho).stopping hstopped
    past := fun hf => absurd (h.past hf).1 hstopped },
    ⟨fun {i x} hx => ⟨x,?_,.refl x⟩,fun hx => absurd hx hstopped,fun hx => absurd hx hstopped,
      fun hx => absurd hx hstopped⟩⟩
  · rw [hfar] at hx
    rw [places_registered,List.mem_append]
    split at hx
    · rename_i hi
      exact .inl (.inr (List.mem_singleton.mpr hi))
    · exact (h.served hx).imp_left .inl
  · rw [hfar]
    split
    · exact ⟨e,rfl⟩
    · rename_i hi
      rw [places_registered,List.mem_append,List.mem_singleton] at hm
      exact h.there (hm.resolve_right hi)
  · rw [hfar] at hx
    split at hx
    · cases hx
      exact he
    · exact h.resigned hx
  · rcases List.mem_append.mp hm with hm | hm
    · exact h.staged s hm
    · rw [List.mem_singleton.mp hm]
      intro z hz
      cases hz
  · rw [hfar,if_neg]
    · exact hx
    · rintro rfl
      rw [vacant] at hx
      cases hx

theorem serve (h : d.Orderly) (hlt : link < d.links.length)
    (vacant : d.endpoint? link .far = none) (peer : String) : Advances d (d.serve link peer) := by
  unfold Deployment.serve
  split
  · exact h.quiet (d.quiet_hangUp link)
  · rename_i hs
    dsimp only
    split
    · exact h.quiet (.refl d)
    · rename_i e he
      refine h.register (by simpa using hs) hlt vacant peer fun f hf => ?_
      cases Endpoint.connects_of_connect he with
      | start => cases hf
      | fail => exact abort_phase ..

theorem wakeServing (h : d.Orderly) {s : Serving} (hs : s ∈ d.server.servings)
    (hw : d.wakeServing s = some d') : Advances d d' := by
  unfold Deployment.wakeServing at hw
  split at hw
  · cases hw
  · rename_i e he
    have hc : d.connection? s.link .far = some e.connection := by
      obtain ⟨l,hl,hx⟩ := Option.bind_eq_some_iff.mp he
      simp [connection?,hl,Link.connection?,hx]
    dsimp only at hw
    split at hw
    · split at hw
      · cases hw
        exact h.quiet (quiet_setStage d _ (by simp))
      · rename_i f hf
        cases hw
        refine h.leave (.refl d) fun e' he' => ?_
        rw [he] at he'
        cases he'
        exact h.resigned he f hf
      · split at hw
        · cases hw
          refine h.leave (.modifyLink fun l hl => Link.keeps_far fun e _ => e.endures_failConnect _)
            fun e' he' => ?_
          obtain ⟨e₀,-,rfl⟩ := far_modifyLink he'
          exact abort_phase ..
        · cases hw
    · obtain ⟨⟨outcome,c⟩,hr,rfl⟩ := Option.map_eq_some_iff.mp hw
      have hkeep (stage : ServingStage) (hz : ∀ z, stage ≠ .ending (some z)) :
          Quiet d ((d.modifyConnection s.link .far fun _ => c).setStage s.link stage) :=
        (Quiet.served hc (drifts_callOrWake hr)).trans
          (quiet_setStage _ _ fun z hx => absurd hx (hz z))
      split <;> rename_i heq <;> cases heq
      · exact h.quiet (hkeep _ (by simp))
      · exact h.quiet ((hkeep (.accepting none) (by simp)).trans (quiet_dispatch ..))
      · exact h.quiet (hkeep _ (by simp))
    · rename_i z hz
      obtain ⟨⟨outcome,c⟩,hr,rfl⟩ := Option.map_eq_some_iff.mp hw
      obtain ⟨rfl,hcases⟩ :=
        closes_callOrWake (fun w hx => h.staged s hs w (hz.trans (hx ▸ rfl))) hr
      have hquiet : Quiet d (d.modifyConnection s.link .far fun _ => e.connection) :=
        .served hc (.refl _)
      rcases hcases with rfl | ⟨⟨r,rfl⟩,hp⟩
      · refine h.quiet (hquiet.trans (quiet_setStage _ _ fun z hx => ?_))
        cases hx
        rfl
      · refine h.leave hquiet fun e' he' => ?_
        obtain ⟨e₀,-,rfl⟩ := far_modifyLink he'
        exact hp

theorem finish (h : d.Orderly) (hf : d.Final) {o : Ticket} (ho : o.link = none) (r : Result) :
    Advances d (d.finish o r) := by
  unfold Deployment.finish remove
  simp only [ho]
  exact ⟨{ h with
    under := fun x hx =>
      (h.under x (List.mem_of_mem_filter hx)).subset (fun hs => hs) fun _ hi => hi
    past := fun _ => hf },.of_links rfl rfl fun _ hi => hi⟩

/-- All connections are closed once those in the registry were disposed of. -/
theorem finishShutDown (h : d.Orderly) (hs : d.server.stopping = true) {links : List Nat}
    (hl : ∀ i ∈ d.places, i ∈ links) {o : Ticket} (ho : o.link = none) (r : Result) :
    Advances d (d.finishShutDown o links r) := by
  have hq := d.quiet_disposeServed links
  refine (h.quiet hq).andThen fun h' => h'.finish ⟨hq.stopping hs,fun i e he => ?_⟩ ho r
  by_cases hi : i ∈ links
  · exact d.closed_disposeServed hi he
  · obtain ⟨e₀,h₀,hx⟩ := hq.of_far he
    exact hx.closed ((h.served h₀).resolve_left fun hm => hi (hl i hm))

theorem keep (h : d.Orderly) (hs : d.server.stopping = true) {links : List Nat}
    (hl : ∀ i ∈ d.places, i ∈ links) (closing : List (Nat × Suspended)) (deadline : Nat)
    {o : Ticket} (ho : o.link = none) :
    Advances d (d.keep o (.shutDown links closing deadline)) := by
  refine ⟨{ h with under := fun x hx => ?_ },.of_links rfl rfl fun _ hi => hi⟩
  rcases List.mem_append.mp hx with hx | hx
  · exact (h.under x (List.mem_of_mem_filter hx)).subset (fun hs => hs) fun _ hi => hi
  · rw [List.mem_singleton.mp hx]
    exact ⟨ho,hs,links,closing,deadline,rfl,hl⟩

theorem startShutDown (h : d.Orderly) {o : Ticket} (ho : o.link = none) :
    Advances d (d.startShutDown o) := by
  obtain ⟨hq,hs⟩ := d.quiet_stopAccepting
  refine (h.quiet hq).andThen fun h => ?_
  unfold Deployment.startShutDown
  dsimp only
  split
  · exact h.finishShutDown hs (fun _ hi => hi) ho _
  · split
    · exact h.finishShutDown hs (fun _ hi => hi) ho _
    · have hclose := d.stopAccepting.quiet_beginClosings d.stopAccepting.places
      refine (h.quiet hclose).andThen fun h =>
        h.keep (hclose.stopping hs) (fun i hi => ?_) _ _ ho
      rwa [hclose.places] at hi

theorem wakeOperation (h : d.Orderly) {o : Operation} (ho : o ∈ d.operations)
    (hw : d.wakeOperation o = some d') : Advances d d' := by
  obtain ⟨halone,hs,links,closing,deadline,ht,hl⟩ := h.under o ho
  unfold Deployment.wakeOperation at hw
  simp only [ht] at hw
  split at hw
  · rename_i hx
    cases hw
    have hq := d.quiet_wakeClosings hx
    exact (h.quiet hq).andThen fun h => h.keep (hq.stopping hs) (hq.places ▸ hl) _ _ halone
  · split at hw
    · cases hw
      exact h.finishShutDown hs hl halone _
    · split at hw
      · cases hw
        exact h.finishShutDown hs hl halone _
      · split at hw
        · cases hw
          exact h.finishShutDown hs hl halone _
        · cases hw

end Orderly

/-- Anything that can happen next. -/
inductive Move
  /-- There is a new link, with nobody at its far end. -/
  | link (near : Party) (forth back : Pipe)
  /-- Whoever is at the near end does something, to the pipes as well. -/
  | play (link : Nat) (near : Party) (forth back : Pipe)
  /-- Time passes, addresses are bound and called, gates are opened and tokens fired. -/
  | pass (clock : Nat) (network : Network Nat) (listeners : List Nat) (gates fired : List String)
  /-- A connection is handed to the server. -/
  | serve (link : Nat) (peer : String)
  /-- Somebody is accepted, even if the server was told to stop meanwhile. -/
  | accept (i : Nat)
  | pull (link : Nat)
  | push (link : Nat)
  | serving (n : Nat)
  | dispatching (n : Nat)
  /-- Somebody begins to close a connection. -/
  | close (link : Nat)
  | shutDown (label : Nat) (token : Option String)
  | operation (n : Nat)

/-- Hands a connection over. Nobody hands over the same one twice. -/
def handOver (d : Deployment) (link : Nat) (peer : String) : Deployment :=
  if d.links[link]?.any fun l => (l.endpoint? .far).isNone then d.serve link peer else d

def move (d : Deployment) : Move → Deployment
  | .link near forth back => (d.addLink ⟨near, nobody, forth, back⟩).2
  | .play link near forth back => d.modifyLink link fun l => { l with near, forth, back }
  | .pass clock network listeners gates fired =>
    { d with clock, network, gates, fired }.modifyServer fun s => { s with listeners }
  | .serve link peer => d.handOver link peer
  | .accept i =>
    match d.network.accept i with
    | some (.ok ((link, peer), network)) => { d with network }.handOver link peer
    | some (.error _) | none => d
  | .pull link => d.modifyLink link fun l => (l.pull d.clock .far).getD l
  | .push link => d.modifyLink link fun l => (l.push .far).getD l
  | .serving n => (d.server.servings[n]?.bind d.wakeServing).getD d
  | .dispatching n => (d.server.dispatchings[n]?.bind d.wakeDispatching).getD d
  | .close link => (d.beginClosing link).2
  | .shutDown label token => d.startShutDown { label, token }
  | .operation n => (d.operations[n]?.bind d.wakeOperation).getD d

def moves (d : Deployment) (ms : List Move) : Deployment := ms.foldl move d

theorem Orderly.handOver (h : d.Orderly) (link : Nat) (peer : String) :
    Advances d (d.handOver link peer) := by
  unfold Deployment.handOver
  split
  · rename_i hv
    rw [Option.any_eq_true] at hv
    obtain ⟨l,hl,hnone⟩ := hv
    refine h.serve (List.getElem?_eq_some_iff.mp hl).1 ?_ peer
    simpa [endpoint?,hl] using hnone
  · exact h.quiet (.refl d)

theorem quiet_addLink (d : Deployment) (near : Party) (forth back : Pipe) :
    Quiet d (d.addLink ⟨near, nobody, forth, back⟩).2 := by
  refine { Quiet.refl d with far := fun i => ?_ }
  rw [endpoint?,endpoint?,addLink]
  by_cases hi : i < d.links.length
  · rw [List.getElem?_append_left hi]
    exact Link.rel_endures_refl _
  · rw [List.getElem?_eq_none (Nat.not_lt.mp hi),List.getElem?_append_right (Nat.not_lt.mp hi),
      List.getElem?_singleton]
    split <;> exact .none

theorem Orderly.getD {d? : Option Deployment} (h : d.Orderly)
    (hd : ∀ d', d? = some d' → Advances d d') : Advances d (d?.getD d) := by
  cases d? with
  | none => exact h.quiet (.refl d)
  | some d' => exact hd d' rfl

theorem Orderly.move (h : d.Orderly) (m : Move) : Advances d (d.move m) := by
  cases m with
  | link near forth back => exact h.quiet (d.quiet_addLink near forth back)
  | play => exact h.quiet (.beside fun _ => rfl)
  | pass => exact h.quiet (.same rfl)
  | serve link peer => exact h.handOver link peer
  | accept i =>
    unfold Deployment.move
    dsimp only
    split
    · rename_i link peer network ha
      have hq : Quiet d { d with network } := .same rfl
      exact (h.quiet hq).andThen fun h => h.handOver link peer
    · exact h.quiet (.refl d)
    · exact h.quiet (.refl d)
  | pull link =>
    refine h.quiet (.modifyLink fun l _ => ?_)
    cases hp : l.pull d.clock .far with
    | none => exact Link.rel_endures_refl _
    | some l' => exact Link.keeps_pull hp
  | push link =>
    refine h.quiet (.modifyLink fun l _ => ?_)
    cases hp : l.push .far with
    | none => exact Link.rel_endures_refl _
    | some l' => exact Link.keeps_push hp
  | serving n =>
    refine h.getD fun d' hd => ?_
    obtain ⟨s,hs,hw⟩ := Option.bind_eq_some_iff.mp hd
    exact h.wakeServing (List.mem_of_getElem? hs) hw
  | dispatching n =>
    refine h.getD fun d' hd => ?_
    obtain ⟨x,-,hw⟩ := Option.bind_eq_some_iff.mp hd
    exact h.quiet (d.quiet_wakeDispatching hw)
  | close link => exact h.quiet (d.quiet_beginClosing link)
  | shutDown label token => exact h.startShutDown rfl
  | operation n =>
    refine h.getD fun d' hd => ?_
    obtain ⟨o,ho,hw⟩ := Option.bind_eq_some_iff.mp hd
    exact h.wakeOperation (List.mem_of_getElem? ho) hw

theorem Orderly.moves (h : d.Orderly) (ms : List Move) : Advances d (d.moves ms) := by
  induction ms generalizing d with
  | nil => exact h.quiet (.refl d)
  | cons m ms ih => exact (h.move m).andThen fun h => ih h

/-- A server that nobody has used yet. -/
def unused (server : Server) (buffer : Nat) : Deployment where
  server := { server with stopping := false, listeners := [], servings := [], dispatchings := [] }
  buffer

theorem orderly_unused (server : Server) (buffer : Nat) : (unused server buffer).Orderly := by
  constructor <;> intros <;> contradiction

def Closed (d : Deployment) (i : Nat) : Prop :=
  ∃ c, d.connection? i .far = some c ∧ c.phase = .closed

theorem closed_of_far {i : Nat} {e : Endpoint} (he : d.endpoint? i .far = some e)
    (hc : e.connection.phase = .closed) : d.Closed i := by
  obtain ⟨l,hl,hx⟩ := Option.bind_eq_some_iff.mp he
  exact ⟨e.connection,by simp [connection?,hl,Link.connection?,hx],hc⟩

/-- Of all that can happen: a connection leaves the registry only once it is closed. When a shutdown
has ended, no other comes to the registry, and all that were ever there are closed. -/
theorem shutdown_final (server : Server) (buffer : Nat) (ms : List Move) :
    let start := unused server buffer
    let d := start.moves ms
    (∀ m, ∀ i ∈ d.places, i ∈ (d.move m).places ∨ (d.move m).Closed i) ∧
      (d.finished ≠ [] → ∀ more,
        (∀ i ∈ (d.moves more).places, i ∈ d.places) ∧
        ∀ before after, before ++ after = ms ++ more → ∀ i ∈ (start.moves before).places,
          (d.moves more).Closed i) := by
  intro start d
  have hstart := orderly_unused server buffer
  have horderly := (hstart.moves ms).orderly
  refine ⟨fun m i hi => ?_,fun hf more => ?_⟩
  · have hmove := horderly.move m
    obtain ⟨e,he⟩ := horderly.there hi
    obtain ⟨e',he',-⟩ := hmove.carries.far he
    exact (hmove.orderly.served he').imp_right (closed_of_far he')
  · have hfinal := horderly.past hf
    have hcarries := (horderly.moves more).carries
    refine ⟨hcarries.places hfinal.1,fun before after hsplit i hi => ?_⟩
    have hbefore := (hstart.moves before).orderly
    obtain ⟨e,he⟩ := hbefore.there hi
    obtain ⟨e',he',-⟩ := (hbefore.moves after).carries.far he
    have hsame : (start.moves before).moves after = d.moves more := by
      simp only [d,Deployment.moves,← List.foldl_append,hsplit]
    rw [hsame] at he'
    exact closed_of_far he' ((hfinal.carries hcarries).2 i e' he')

/-- A peer that never answers a CLOSE, and a shutdown that runs out of time. -/
def silentPeer : List Move :=
  let hello := Frame.encode (.settings {})
  [.link nobody { capacity := 100 } { capacity := 100 }, .serve 0 "peer", .pull 0, .pull 0,
    .play 0 nobody { capacity := 100, buffer := hello } { capacity := 100 }, .pull 0, .serving 0,
    .shutDown 7 none, .pass 3 {} [] [] [], .operation 0]

/-- Somebody comes when it is over. -/
def latecomer : List Move :=
  [.link nobody { capacity := 100 } { capacity := 100 }, .serve 1 "late", .serving 0]

def porter : Server where
  terms := { service := fun _ => .done (.ok {}), maxHeader := 100 }
  options := {}
  channel := .plain
  shutdownTimeout := 3

theorem shutdown_final_timeout :
    let d := (unused porter 100).moves silentPeer
    ((unused porter 100).moves (silentPeer.take 7)).places = [0] ∧ d.finished.map (·.1) = [7] ∧
      (∀ i ∈ (d.moves latecomer).places, i ∈ d.places) ∧ (d.moves latecomer).Closed 0 := by
  intro d
  have hregistered : ((unused porter 100).moves (silentPeer.take 7)).places = [0] := by
    decide +kernel
  have hended : d.finished.map (·.1) = [7] := by decide +kernel
  obtain ⟨-,hfinal⟩ := shutdown_final porter 100 silentPeer
  have hsome : d.finished ≠ [] := by
    intro hnil
    rw [hnil] at hended
    cases hended
  obtain ⟨hplaces,hclosed⟩ := hfinal hsome latecomer
  refine ⟨hregistered,hended,hplaces,?_⟩
  exact hclosed (silentPeer.take 7) (silentPeer.drop 7 ++ latecomer)
    (by rw [← List.append_assoc,List.take_append_drop]) 0 (by rw [hregistered]; decide)

end Deployment

end Rpc

end Multiplex
