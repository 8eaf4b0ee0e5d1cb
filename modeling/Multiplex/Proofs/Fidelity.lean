import Multiplex.Proofs.Keeping

/-!
A service that is a function of its requests is run for each request at most once, and what comes
back to the client is what the function gives for its own request.
-/

namespace Multiplex

namespace Rpc

variable {e : Errand} {l : Labor} {r : Incoming}

open Connection

/-- Whether the request `p` is what was read from a stream, with a header of the bytes `base`. -/
structure Plea.Reaches (p : Plea) (max : Nat) (base : Bytes) (a : Standing) : Prop where
  oneway : decide (a.direction = .unidirectional) = p.oneway
  framed : frameHeader p.header.encode max = .ok base
  order : a.read <+: base ++ Source.data p.payload
  whole : a.ended = true → a.read = base ++ Source.data p.payload ∧ Source.failure? p.payload = none

section Ends

variable {α : Type} {reader : Json.Reader α} {x : α} {p : Plea} {max : Nat} {text base : Bytes}
  {source : Option Source} {s t : Stream}

theorem Heads.ne_nil {bytes : Bytes} (h : Heads reader x base) (hb : base <+: bytes) :
    bytes ≠ [] := by
  obtain ⟨length,body,rfl,hlength,-⟩ := h
  have hle := hb.length_le
  intro hnil
  simp only [hnil,List.length_nil,List.length_append,hlength,lengthSize] at hle
  omega

/-- What was read after a header at one end of a stream is what was sent after it at the other. -/
theorem Posted.heard (hp : Posted text max source s.standing) (hf : s.Feeds t)
    (heads : Heads reader x base) (hb : base <+: t.standing.read) :
    Json.whole reader text = some x ∧ frameHeader text max = .ok base ∧
      t.standing.read <+: base ++ Source.data source ∧
      (t.standing.ended = true →
        t.standing.read = base ++ Source.data source ∧ Source.failure? source = none) := by
  have hsent : base <+: s.standing.sent := hb.trans hf.order
  rcases hp with silent | ⟨framed,hframed,hpart,hwhole⟩
  · exact absurd silent.1 (heads.ne_nil hsent)
  · obtain ⟨rfl,hread⟩ := heads.eq_framed hframed (hsent.trans hpart)
    refine ⟨hread,hframed,hf.order.trans hpart,fun hended => ?_⟩
    obtain ⟨hall,hfinished⟩ := hf.ended hended
    obtain ⟨hsent,hfailure⟩ := hwhole hfinished
    exact ⟨hall.trans hsent,hfailure⟩

theorem Plea.decide_direction (p : Plea) : decide (p.direction = .unidirectional) = p.oneway := by
  unfold Plea.direction
  cases p.oneway <;> rfl

theorem Plea.Posted.reaches {h : RequestHeader} (hp : p.Posted max s.standing) (hf : s.Feeds t)
    (heads : Heads RequestHeader.reader h base) (hb : base <+: t.standing.read) :
    h = p.header ∧ p.Reaches max base t.standing := by
  obtain ⟨hheader,hframed,hpart,hwhole⟩ := hp.2.heard hf heads hb
  rw [RequestHeader.whole_encode] at hheader
  have hdirection : t.standing.direction = p.direction := hf.direction.symm.trans hp.1
  refine ⟨(Option.some.inj hheader).symm,?_,hframed,hpart,hwhole⟩
  rw [hdirection]
  exact p.decide_direction

end Ends

namespace Progress.Follows

variable {p : Plea} {max k : Nat} {v : Taken} {q : Post} {x : Progress}

theorem posted (h : x.Follows p max k v q) : p.Posted max q.standing := by
  cases x with
  | sending i => exact h.2.posted.2
  | returned result request =>
    cases h with
    | unanswered posted missing oneway => exact posted
    | answered oneway answer heads same hears holds => exact hears.posted
  | reading goal r =>
    obtain ⟨response,header,base,hf⟩ := h
    exact hf.hears.posted

theorem response (h : x.Follows p max k v q) (hone : p.oneway = false)
    (hr : x.result? = some (.ok ())) :
    ∃ response header base, x.request.response = some response ∧
      Heads ResponseHeader.reader header base ∧ response.Matches header ∧
        Hears p max base v q.standing := by
  cases x with
  | sending i => cases hr
  | returned result request =>
    cases h with
    | unanswered posted missing oneway =>
      have htrue := oneway (Option.some.inj hr)
      cases hone.symm.trans htrue
    | answered oneway answer heads same hears holds => exact ⟨_,_,_,answer,heads,same,hears⟩
  | reading goal r =>
    obtain ⟨response,header,base,hf⟩ := h
    exact ⟨response,header,base,hf.answer,hf.heads,hf.same,hf.hears⟩

theorem no_response (h : x.Follows p max k v q) (hone : p.oneway = true) :
    x.request.response = none := by
  have habsurd (hfalse : p.oneway = false) : x.request.response = none := by
    cases hone.symm.trans hfalse
  cases x with
  | sending i =>
    rw [Progress.request,h.2.request]
    rfl
  | returned result request =>
    cases h with
    | unanswered posted missing oneway => exact missing
    | answered oneway answer heads same hears holds => exact habsurd oneway
  | reading goal r =>
    obtain ⟨response,header,base,hf⟩ := h
    exact habsurd hf.oneway

end Progress.Follows

namespace Conversation

variable {n : Nat}

/-- What stays true of a conversation whose service behaves as `F`. -/
structure Kept (F : Behaviour) (y : Setup) (x : Conversation) : Prop where
  coherent : Duplex.Coherent y.duplex.names y.duplex.near y.duplex.far x.duplex
  near : Housed Errand.place (Errand.Kept y.maxHeader) (x.connection .near) x.errands
  far : Housed (fun l => some l.stream) (Labor.Kept F y.terms.maxHeader y.peer) (x.connection .far)
    x.labors
  lined : Lined (x.connection .far) (x.labors.map (·.stream))
  waits : ∀ z, x.serving = .accepting (some z) → z.wait = .peerStream

variable {F : Behaviour} {y : Setup} {x : Conversation} {m : Moment}

theorem Kept.posted (h : Kept F y x) {n k : Nat} {s : Stream} (he : x.errands[n]? = some e)
    (hplace : e.place = some k) (hs : (x.connection .near).streams[k]? = some s) :
    e.plea.Posted y.maxHeader s.standing := by
  cases h.near.kept he with
  | unsent place progress missing => simp [hplace] at place
  | @sent k' q place stands follows =>
    cases hplace.symm.trans place
    obtain ⟨s',hs',hq,-⟩ := stands
    cases hs'.symm.trans hs
    rw [hq]
    exact follows.posted

theorem Kept.served (h : Kept F y x) {t : Stream} (hl : x.labors[n]? = some l)
    (ht : (x.connection .far).streams[l.stream]? = some t) :
    ∃ run, l.runs = Option.toList run ∧ Served F y.terms.maxHeader y.peer t.standing run := by
  obtain ⟨run,q,hruns,hat,hfollows⟩ := h.far.kept hl
  obtain ⟨t',ht',hq,-⟩ := hat.stands
  cases ht'.symm.trans ht
  refine ⟨run,hruns,?_⟩
  rw [hq]
  exact hfollows.served

/-- What a service was run with is the request of an errand, which is at the other end of the
stream. -/
theorem Kept.origin (h : Kept F y x) {t : Stream} (hl : x.labors[n]? = some l) (hr : r ∈ l.runs)
    (ht : (x.connection .far).streams[l.stream]? = some t) :
    ∃ (n' i : Nat) (e : Errand) (s : Stream) (base : Bytes), x.errands[n']? = some e ∧
      e.place = some i ∧ (x.connection .near).streams[i]? = some s ∧ s.Feeds t ∧
      r = Dispatch.incoming y.peer e.plea.oneway e.plea.header ∧
      e.plea.Reaches y.maxHeader base t.standing ∧
      Account F y.terms.maxHeader r base t.standing := by
  obtain ⟨run,hruns,hserved⟩ := h.served hl ht
  cases hserved with
  | unheard silent => simp [hruns] at hr
  | @heard header base heads account =>
    have hread := heads.ne_nil account.heard
    obtain ⟨w,v,haccord,-⟩ := h.coherent.facing .near
    obtain ⟨i,s,hs,hfeeds⟩ := haccord.feeds ht hread
    obtain ⟨n',e,he,hplace⟩ := h.near.busy hs (hfeeds.sent_ne_nil hread)
    obtain ⟨rfl,hreaches⟩ := (h.posted he hplace hs).reaches hfeeds heads account.heard
    have hrun : r = Dispatch.incoming y.peer (t.standing.direction = .unidirectional)
        e.plea.header := by simpa [hruns] using hr
    rw [hrun]
    refine ⟨n',i,e,s,base,he,hplace,hs,hfeeds,?_,hreaches,account⟩
    rw [hreaches.oneway]

theorem kept_start (F : Behaviour) (y : Setup) : Kept F y (start y) := by
  refine ⟨Duplex.coherent_start y.duplex,.nil rfl,.nil rfl,⟨.nil,?_⟩,?_⟩
  · intro k hk
    cases hk
  · intro z hz
    cases hz

section

variable (h : Kept F y x)

include h

theorem Kept.act (hs : x.duplex.Staged) (side : Side) {e : Multiplex.Event} (he : e.Stirring)
    (hn : (x.duplex.act (side, e)).Numbered) :
    Kept F y { x with duplex := x.duplex.act (side, e) } := by
  have hnear := x.duplex.stirs_act he side .near
  have hfar := x.duplex.stirs_act he side .far
  exact ⟨h.coherent.act hs (side,e) hn,h.near.leaves (Errand.lasting _) hnear.leaves,
    h.far.leaves (Labor.lasting _ _ _) hfar.leaves,h.lined.musters hfar.musters,h.waits⟩

theorem Kept.invoke (hm : m.givenUp = false) (p : Plea)
    (hn : (Errand.start y.maxHeader m p (x.connection .near)).2.Numbered) :
    Kept F y { x with
      duplex := x.duplex.withConnection .near (Errand.start y.maxHeader m p (x.connection .near)).2
      errands := x.errands ++ [(Errand.start y.maxHeader m p (x.connection .near)).1] } := by
  obtain ⟨home,hgoes,hnew⟩ := Errand.goes_start p y.maxHeader (x.connection .near) hm
  refine ⟨h.coherent.withConnection hgoes.strides hn,?_,h.far,h.lined,h.waits⟩
  refine h.near.push (Errand.lasting _) hgoes.kept (fun e he k hk hx => ?_) ?_
  · obtain ⟨n,hn⟩ := List.mem_iff_getElem?.mp he
    cases h.near.kept hn with
    | unsent place progress missing => simp [hk] at place
    | @sent k' q place stands follows =>
      cases hk.symm.trans place
      obtain ⟨s,hs,-⟩ := stands
      have hlt := (List.getElem?_eq_some_iff.mp hs).1
      have hle := hnew k (hgoes.place.symm.trans hx)
      omega
  · rw [hgoes.place]
    exact hgoes.others

theorem Kept.tend (hm : m.givenUp = false) (he : x.errands[n]? = some e) (a : Errand.Act)
    (hn : (e.act m (x.connection .near) a).2.Numbered) :
    Kept F y { x with
      duplex := x.duplex.withConnection .near (e.act m (x.connection .near) a).2
      errands := x.errands.set n (e.act m (x.connection .near) a).1 } := by
  have hgoes := (h.near.kept he).act hm a
  exact ⟨h.coherent.withConnection hgoes.strides hn,
    h.near.set (Errand.lasting _) he hgoes.kept hgoes.place hgoes.others,h.far,h.lined,h.waits⟩

theorem Kept.serve (hf : y.terms.service.Computes F) (hm : m.givenUp = false)
    (hl : x.labors[n]? = some l) (hn : (l.resume y.terms m y.peer (x.connection .far)).2.Numbered) :
    Kept F y { x with
      duplex := x.duplex.withConnection .far (l.resume y.terms m y.peer (x.connection .far)).2
      labors := x.labors.set n (l.resume y.terms m y.peer (x.connection .far)).1 } := by
  have hkept := h.far.kept hl
  have hundated (r : Incoming) (hr : r ∈ l.runs) : r.fields.getWord? .deadline = none := by
    obtain ⟨run,q,-,hat,-⟩ := hkept
    obtain ⟨t,ht,-⟩ := hat.stands
    obtain ⟨n',i,e,s,base,-,-,-,-,rfl,-⟩ := h.origin hl hr ht
    exact e.plea.getWord?_header
  obtain ⟨hkept',hw,hstream⟩ := hkept.resume hf hm hundated
  have hothers (k : Nat) (hk : some l.stream ≠ some k) :
      Leaves k (x.connection .far) (l.resume y.terms m y.peer (x.connection .far)).2 :=
    hw.others k fun hx => hk (congrArg some hx.symm)
  refine ⟨h.coherent.withConnection hw.strides hn,h.near,
    h.far.set (Labor.lasting _ _ _) hl hkept' (congrArg some hstream) hothers,?_,h.waits⟩
  rw [Labor.map_stream_set hl hstream]
  exact h.lined.of_roll hw.roll

theorem Kept.begin (hf : y.terms.service.Computes F) (hm : m.givenUp = false) {i : Nat}
    {rest : List Nat} {c : Connection} (hq : (x.connection .far).acceptQueue = i :: rest)
    (hc : c = { x.connection .far with acceptQueue := rest }) (hs : (x.connection .far).Strides c)
    (hn : (Labor.start y.terms m y.peer i c).2.Numbered) :
    Kept F y { x with
      duplex := x.duplex.withConnection .far (Labor.start y.terms m y.peer i c).2
      serving := .accepting none
      labors := x.labors ++ [(Labor.start y.terms m y.peer i c).1] } := by
  have hstreams : c.streams = (x.connection .far).streams := by rw [hc]
  obtain ⟨s,hi,hremote⟩ := mem_arrivals.mp (h.lined.arrived i (by simp [hq]))
  -- Nobody works on a stream that is still in the queue.
  have hfree (l : Labor) (hl : l ∈ x.labors) : some l.stream ≠ some i := by
    intro hx
    have hnodup := h.lined.nodup
    rw [hq] at hnodup
    have hmem : i ∈ x.labors.map (·.stream) := List.mem_map.mpr ⟨l,hl,Option.some.inj hx⟩
    exact (List.nodup_cons.mp hnodup).1 (List.mem_append_right _ hmem)
  have hi' : c.streams[i]? = some s := by rw [hstreams,hi]
  obtain ⟨hkept,hw⟩ := Labor.goes_start hf y.peer hi' (h.far.idle hi hfree) hremote hm
  have hleaves (k : Nat) (hk : some i ≠ some k) :
      Leaves k (x.connection .far) (Labor.start y.terms m y.peer i c).2 := by
    have hsame : Leaves k (x.connection .far) c := .of_eq (by rw [hstreams])
    exact hsame.trans (hw.others k fun hx => hk (congrArg some hx.symm))
  have hlined : Lined c (x.labors.map (·.stream) ++ [i]) := by
    rw [hc]
    exact h.lined.take hq
  refine ⟨h.coherent.withConnection (hs.trans hw.strides) hn,h.near,?_,?_,by simp⟩
  · exact h.far.push (Labor.lasting _ _ _) hkept
      (fun l hl k hk hx => hfree l hl (hk.trans hx.symm)) hleaves
  · rw [List.map_append]
    exact hlined.of_roll hw.roll

theorem Kept.accept (hf : y.terms.service.Computes F) (hm : m.givenUp = false)
    (hn : (x.accept y m).duplex.Numbered) : Kept F y (x.accept y m) := by
  revert hn
  unfold Conversation.accept
  split
  · intro hn
    split
    · exact { h with waits := by simp }
    · exact h
  · rename_i z hserving
    have hz (w : Suspended) (hw : z = some w) : w.wait = .peerStream :=
      h.waits w (hserving.trans (congrArg _ hw))
    cases hr : Deployment.callOrWake (x.connection .far) .accept z with
    | none => exact fun _ => h
    | some r =>
      obtain ⟨haccepts,hstrides⟩ := accepts_callOrWake hz hr
      cases haccepts with
      | wait =>
        intro hn
        refine ⟨h.coherent.withConnection hstrides hn.2,h.near,h.far,h.lined,?_⟩
        intro w hw
        cases hw
        rfl
      | fail e =>
        intro hn
        exact ⟨h.coherent.withConnection hstrides hn.2,h.near,h.far,h.lined,by simp⟩
      | stream queue left => exact fun hn => h.begin hf hm queue left hstrides hn.2
  · exact fun _ => h

theorem Kept.step (hf : y.terms.service.Computes F) (hs : x.duplex.Staged) (t : Instant)
    (e : Happening) (hn : (x.step y t e).duplex.Numbered) : Kept F y (x.step y t e) := by
  have hm : t.moment.givenUp = false := rfl
  cases e with
  | connect side => exact h.act hs side (.connect t.now) hn
  | pull side seen room => exact h.act hs side (.pull t.now seen room) hn
  | push side room => exact h.act hs side (.push room) hn
  | invoke p => exact h.invoke hm p hn.1
  | accept => exact h.accept hf hm hn
  | tend n a =>
    unfold Conversation.step at hn ⊢
    dsimp only at hn ⊢
    cases he : x.errands[n]? with
    | none => exact h
    | some e =>
      rw [he] at hn
      exact h.tend hm he a hn.1
  | serve n =>
    unfold Conversation.step at hn ⊢
    dsimp only at hn ⊢
    cases hl : x.labors[n]? with
    | none => exact h
    | some l =>
      rw [hl] at hn
      exact h.serve hf hm hl hn.2

end

/-- A conversation stays in order, as long as neither end has used up its stream ids. -/
theorem kept_run (hf : y.terms.service.Computes F) (steps : List (Instant × Happening))
    (hn : ((start y).run y steps).duplex.Numbered) : Kept F y ((start y).run y steps) := by
  induction steps using List.reverseRecOn with
  | nil => exact kept_start F y
  | append_singleton steps e ih =>
    rw [run_append] at hn ⊢
    have hs := staged_run y steps
    exact (ih ((shifts_step y _ e.1 e.2).numbered hs hn)).step hf hs e.1 e.2 hn

end Conversation

def Plea.answer (F : Behaviour) (p : Plea) : Reply :=
  .ofOutcome (F (normalizePath p.path) p.operation p.oneway p.fields (Source.data p.payload))

/-- Whether a service that was run with `r` got the request `p`. From its stream came `read`, the
header and then the payload, and the end too where `ended`. -/
structure Plea.Given (p : Plea) (max : Nat) (r : Incoming) (read : Bytes) (ended : Bool) :
    Prop where
  path : r.path = normalizePath p.path
  operation : r.operation = p.operation
  oneway : r.oneway = p.oneway
  fields : r.fields = p.fields
  payload : ∃ header got, frameHeader p.header.encode max = .ok header ∧ read = header ++ got ∧
    got <+: Source.data p.payload ∧ (ended = true → got = Source.data p.payload)

/-- Whether a response is what `F` gives for `p`, with `v` of its payload read. -/
structure Plea.Answered (F : Behaviour) (p : Plea) (x : Response) (v : Taken) : Prop where
  status : x.status = (p.answer F).status
  errorMessage : x.errorMessage = (p.answer F).errorMessage
  fields : x.fields = (p.answer F).fields
  payload : v.bytes <+: Source.data (p.answer F).payload
  whole : v.whole = true → v.bytes = Source.data (p.answer F).payload

namespace Conversation

variable {id : StreamId}

def id? (x : Conversation) (e : Errand) : Option StreamId :=
  e.place.bind fun k => (x.connection .near).streams[k]?.bind (·.id)

def laborsOn (x : Conversation) (id : StreamId) : List Labor :=
  x.labors.filter fun l => (x.connection .far).streams[l.stream]?.bind (·.id) = some id

/-- The requests that the service was run with for a stream. -/
def runs (x : Conversation) (id : StreamId) : List Incoming := (x.laborsOn id).flatMap (·.runs)

/-- Whether a conversation keeps all requests apart, and answers each as `F` does. -/
structure Faithful (F : Behaviour) (y : Setup) (x : Conversation) : Prop where
  once : ∀ id, (x.runs id).length ≤ 1
  own : ∀ {id : StreamId} {r : Incoming}, r ∈ x.runs id →
    ∃ (n : Nat) (e : Errand), x.errands[n]? = some e ∧ x.id? e = some id ∧
      (∀ (n' : Nat) (e' : Errand), x.errands[n']? = some e' → x.id? e' = some id → n' = n) ∧
      e.plea.Given y.maxHeader r ((x.connection .far).bytesRead id) ((x.connection .far).endSeen id)
  answered : ∀ {n : Nat} {e : Errand}, x.errands[n]? = some e → e.plea.oneway = false →
    e.progress.result? = some (.ok ()) →
      ∃ response, e.progress.request.response = some response ∧ e.plea.Answered F response e.taken
  oneway : ∀ {n : Nat} {e : Errand}, x.errands[n]? = some e → e.plea.oneway = true →
    e.progress.request.response = none

variable {F : Behaviour} {y : Setup} {x : Conversation}

theorem mem_laborsOn : l ∈ x.laborsOn id ↔ (∃ n : Nat, x.labors[n]? = some l) ∧
      ∃ t, (x.connection .far).streams[l.stream]? = some t ∧ t.id = some id := by
  rw [laborsOn,List.mem_filter,decide_eq_true_eq,Option.bind_eq_some_iff,List.mem_iff_getElem?]

section

variable (h : Kept F y x)

include h

theorem Kept.registry (side : Side) : (x.connection side).Registry := by
  obtain ⟨w,v,haccord,-⟩ := h.coherent.facing side
  exact haccord.sound.toRegistry

theorem Kept.length_laborsOn (id : StreamId) : (x.laborsOn id).length ≤ 1 := by
  have hnodup : ((x.laborsOn id).map (·.stream)).Nodup := by
    have hall := (List.nodup_append.mp h.lined.nodup).2.1
    exact hall.sublist (List.filter_sublist.map _)
  have hsame (l l' : Labor) (hl : l ∈ x.laborsOn id) (hl' : l' ∈ x.laborsOn id) :
      l.stream = l'.stream := by
    obtain ⟨-,t,ht,hid⟩ := mem_laborsOn.mp hl
    obtain ⟨-,t',ht',hid'⟩ := mem_laborsOn.mp hl'
    exact (h.registry .far).unique ht ht' (by simp [hid]) (hid.trans hid'.symm)
  cases hls : x.laborsOn id with
  | nil => simp
  | cons l rest =>
    cases rest with
    | nil => simp
    | cons l' rest =>
      rw [hls] at hnodup hsame
      have hmem : l.stream ∈ (l' :: rest).map (·.stream) := by
        simp [hsame l l' (by simp) (by simp)]
      exact absurd hmem (List.nodup_cons.mp hnodup).1

theorem Kept.length_runs (id : StreamId) : (x.runs id).length ≤ 1 := by
  have hlength := h.length_laborsOn id
  unfold runs
  cases hls : x.laborsOn id with
  | nil => simp
  | cons l rest =>
    have hrest : rest = [] := by
      rw [hls,List.length_cons] at hlength
      exact List.eq_nil_of_length_eq_zero (by omega)
    obtain ⟨⟨n,hn⟩,-⟩ := mem_laborsOn.mp (hls ▸ List.mem_cons_self : l ∈ x.laborsOn id)
    obtain ⟨run,q,hruns,-⟩ := h.far.kept hn
    rw [hrest,List.flatMap_singleton,hruns]
    cases run <;> simp

theorem Kept.id?_inj {n n' : Nat} {e e' : Errand} (he : x.errands[n]? = some e)
    (he' : x.errands[n']? = some e') (hid : x.id? e = some id) (hid' : x.id? e' = some id) :
    n' = n := by
  simp only [id?,Option.bind_eq_some_iff] at hid hid'
  obtain ⟨k,hk,s,hs,hid⟩ := hid
  obtain ⟨k',hk',s',hs',hid'⟩ := hid'
  obtain rfl := (h.registry .near).unique hs' hs (by simp [hid']) (hid'.trans hid.symm)
  exact h.near.apart he' he hk' hk

theorem Kept.given (hr : r ∈ x.runs id) :
    ∃ (n : Nat) (e : Errand), x.errands[n]? = some e ∧ x.id? e = some id ∧
      e.plea.Given y.maxHeader r ((x.connection .far).bytesRead id)
        ((x.connection .far).endSeen id) := by
  obtain ⟨l,hmem,hr⟩ := List.mem_flatMap.mp hr
  obtain ⟨⟨n,hl⟩,t,ht,hid⟩ := mem_laborsOn.mp hmem
  obtain ⟨n',i,e,s,base,he,hplace,hs,hfeeds,rfl,hreaches,haccount⟩ := h.origin hl hr ht
  obtain ⟨hread,hseen⟩ := (h.registry .far).read_eq ht hid
  obtain ⟨got,hgot⟩ := haccount.heard
  have horder := hreaches.order
  have hwhole := hreaches.whole
  rw [← hgot] at horder hwhole
  refine ⟨n',e,he,?_,rfl,rfl,rfl,rfl,base,got,hreaches.framed,hread.trans hgot.symm,
    (List.prefix_append_right_inj base).mp horder,fun hended => ?_⟩
  · simp [id?,hplace,hs,hfeeds.id,hid]
  · exact List.append_cancel_left (hwhole (hseen.symm.trans hended)).1

/-- What a response begins with, and what was read of it, is what `F` gives for the request of the
errand. -/
theorem Kept.answered {n k : Nat} {s : Stream} {header : ResponseHeader} {base : Bytes}
    (he : x.errands[n]? = some e) (hplace : e.place = some k)
    (hs : (x.connection .near).streams[k]? = some s)
    (heads : Heads ResponseHeader.reader header base)
    (hears : Hears e.plea y.maxHeader base e.taken s.standing) :
    header = (e.plea.answer F).header ∧ e.taken.bytes <+: Source.data (e.plea.answer F).payload ∧
      (e.taken.whole = true → e.taken.bytes = Source.data (e.plea.answer F).payload) := by
  have hbase : base <+: s.standing.read := (List.prefix_append _ _).trans hears.heard
  have hread := heads.ne_nil hbase
  obtain ⟨w,v,haccord,-⟩ := h.coherent.facing .far
  obtain ⟨i,t,ht,hfeeds⟩ := haccord.feeds hs hread
  have hsent := hfeeds.sent_ne_nil hread
  obtain ⟨n',l,hl,hstream⟩ := h.far.busy ht hsent
  cases hstream
  obtain ⟨run,hruns,hserved⟩ := h.served hl ht
  cases hserved with
  | unheard silent => exact absurd silent.1 hsent
  | heard _ _ =>
    obtain ⟨n₁,i₁,e₁,s₁,base₁,he₁,hplace₁,hs₁,hfeeds₁,hr,hreaches,haccount⟩ :=
      h.origin hl (by rw [hruns]; exact List.mem_singleton_self _) ht
    -- The stream has two ends only, so the request is that of the same errand.
    obtain rfl := (h.registry .near).unique hs₁ hs hfeeds₁.known (hfeeds₁.id.trans hfeeds.id)
    obtain rfl := h.near.apart he₁ he hplace₁ hplace
    obtain rfl := Option.some.inj (he₁.symm.trans he)
    rcases haccount.answer with silent | ⟨reply,posted,fits⟩
    · exact absurd silent.1 hsent
    · have hreply : e₁.plea.answer F = reply := by
        rw [← fits _ hreaches.order fun hended => (hreaches.whole hended).1,hr]
        rfl
      obtain ⟨hheader,-,hpart,hall⟩ := posted.heard hfeeds heads hbase
      rw [ResponseHeader.whole_encode] at hheader
      rw [hreply]
      refine ⟨(Option.some.inj hheader).symm,?_,fun hw => ?_⟩
      · exact (List.prefix_append_right_inj base).mp (hears.heard.trans hpart)
      · obtain ⟨hended,hexact⟩ := hears.whole hw
        exact List.append_cancel_left (hexact.symm.trans (hall hended).1)

theorem Kept.faithful : Faithful F y x := by
  refine ⟨h.length_runs,fun hr => ?_,fun {n e} he hone hresult => ?_,fun {n e} he hone => ?_⟩
  · obtain ⟨n,e,he,hid,hgiven⟩ := h.given hr
    exact ⟨n,e,he,hid,fun n' e' he' hid' => h.id?_inj he he' hid hid',hgiven⟩
  · cases h.near.kept he with
    | unsent place progress missing => simp [progress,Progress.result?] at hresult
    | @sent k q place stands follows =>
      obtain ⟨response,header,base,hresponse,heads,hsame,hears⟩ := follows.response hone hresult
      obtain ⟨s,hs,hq,-⟩ := stands
      rw [← hq] at hears
      obtain ⟨rfl,hpart,hwhole⟩ := h.answered he place hs heads hears
      exact ⟨response,hresponse,hsame.1,hsame.2.1,hsame.2.2,hpart,hwhole⟩
  · cases h.near.kept he with
    | unsent place progress missing =>
      rw [progress]
      exact missing
    | sent place stands follows => exact follows.no_response hone

theorem Kept.mem_runs (hl : l ∈ x.labors) (hr : r ∈ l.runs) : ∃ id, r ∈ x.runs id := by
  have hmem : l.stream ∈ x.labors.map (·.stream) := List.mem_map_of_mem hl
  obtain ⟨t,ht,hremote⟩ := mem_arrivals.mp (h.lined.arrived _ (List.mem_append_right _ hmem))
  cases hid : t.id with
  | none =>
    have hlocal := ((h.registry .far).idle ht hid).2
    cases hremote.symm.trans hlocal
  | some id =>
    have hon : l ∈ x.laborsOn id :=
      mem_laborsOn.mpr ⟨List.mem_iff_getElem?.mp hl,t,ht,hid⟩
    exact ⟨id,List.mem_flatMap.mpr ⟨l,hon,hr⟩⟩

end

/-- Whatever a client and a server do, and in whatever order: the service is run at most once for
each request, with what was asked for, and nothing else; a request that returns has the answer to
it; and a one-way request has none. -/
theorem run_faithful (F : Behaviour) (y : Setup) (hf : y.terms.service.Computes F)
    (steps : List (Instant × Happening)) (hn : ((start y).run y steps).duplex.Numbered) :
    Faithful F y ((start y).run y steps) ∧
      ∀ service : Service,
        (∀ id, ∀ r ∈ ((start y).run y steps).runs id, y.terms.service r = service r) →
        (start y).run y steps = (start y).run (y.withService service) steps := by
  have hkept := kept_run hf steps hn
  refine ⟨hkept.faithful,fun service h => run_congr y service steps fun l hl r hr => ?_⟩
  obtain ⟨id,hid⟩ := hkept.mem_runs hl hr
  exact h id r hid

/-- Sends the payload back, and one byte more. -/
def echo : Behaviour := fun _ _ _ _ data =>
  .ok { status := .applicationError, payload := some { steps := [.chunk data, .chunk [7]] } }

def Setup.plain : Setup := ⟨.plain, 1024, ⟨echo.service, 1024⟩, "client"⟩

/-- A request in two chunks and a one-way request, both under way at the same time. -/
def crossing : List (Instant × Happening) :=
  [.connect .near, .connect .far, .pull .near 0 64, .pull .far 0 64, .pull .near 64 0,
    .pull .far 64 0, .accept, .accept,
    .invoke { path := "a", operation := "o",
              payload := some { steps := [.chunk [1, 2], .chunk [3]] }
              timeless := rfl, undated := rfl },
    .invoke { path := "/b", operation := "o", oneway := true
              payload := some { steps := [.chunk [9]] }, timeless := rfl, undated := rfl },
    .push .near 256, .push .near 256, .tend 1 .proceed, .pull .far 256 0, .accept, .accept,
    .serve 1, .serve 0, .push .far 256, .push .far 256, .pull .near 256 0, .tend 0 .proceed,
    .tend 0 (.read (some 2)), .tend 0 (.read none)].map ({}, ·)

theorem run_faithful_crossing : ((start .plain).run .plain crossing).duplex.Numbered ∧
      (((start .plain).run .plain crossing).errands.map fun e => e.taken.bytes) =
        [[1, 2, 3, 7], []] ∧
      (((start .plain).run .plain crossing).runs ⟨0⟩).map (·.path) = ["/a"] ∧
      (((start .plain).run .plain crossing).runs ⟨2⟩).map (·.path) = ["/b"] ∧
      Faithful echo .plain ((start .plain).run .plain crossing) := by
  have hn : ((start .plain).run .plain crossing).duplex.Numbered := by decide +kernel
  have hf := run_faithful echo .plain (Behaviour.computes_service echo) crossing hn
  exact ⟨hn,by decide +kernel,by decide +kernel,by decide +kernel,hf.1⟩

end Conversation

end Rpc

end Multiplex
