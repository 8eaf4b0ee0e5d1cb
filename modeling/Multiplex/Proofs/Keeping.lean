import Multiplex.Proofs.Conversation

/-!
What stays true of a conversation: every worker is alone with its stream and has come to what it
should, and no other stream was touched.
-/

namespace Multiplex

open Connection

/-- Whether each worker is kept as `kept` says and has its place to itself. Nobody touched what is
in no place of theirs. -/
structure Housed {α : Type} (place : α → Option Nat) (kept : Connection → α → Prop) (c : Connection)
    (xs : List α) : Prop where
  kept : ∀ {n : Nat} {x : α}, xs[n]? = some x → kept c x
  apart : ∀ {n n' k : Nat} {x x' : α}, xs[n]? = some x → xs[n']? = some x' → place x = some k →
    place x' = some k → n = n'
  idle : ∀ {k : Nat} {s : Stream}, c.streams[k]? = some s → (∀ x ∈ xs, place x ≠ some k) →
    s.standing.Untouched

/-- Whether a worker is kept as long as its own place is left alone. -/
def Lasting {α : Type} (place : α → Option Nat) (kept : Connection → α → Prop) : Prop :=
  ∀ {c c' : Connection} {x : α}, kept c x → (∀ k, place x = some k → Leaves k c c') → kept c' x

theorem Connection.Leaves.untouched {k : Nat} {c c' : Connection} {s' : Stream} (h : Leaves k c c')
    (hs' : c'.streams[k]? = some s')
    (ht : ∀ {s : Stream}, c.streams[k]? = some s → s.standing.Untouched) :
    s'.standing.Untouched := by
  cases hs : c.streams[k]? with
  | none => exact h.new hs hs'
  | some s =>
    obtain ⟨s₁,hs₁,ha⟩ := h.kept hs
    cases hs₁.symm.trans hs'
    exact (ht hs).ages ha.standing

namespace Housed

variable {α : Type} {place : α → Option Nat} {kept : Connection → α → Prop} {c c' : Connection}
  {xs : List α} {x x' : α} {n : Nat}

theorem nil (h : c.streams = []) : Housed place kept c [] := by
  refine ⟨fun hn => ?_,fun hn => ?_,fun hs => ?_⟩
  · simp at hn
  · simp at hn
  · simp [h] at hs

section

variable (h : Housed place kept c xs)

include h

theorem busy {k : Nat} {s : Stream} (hs : c.streams[k]? = some s) (hsent : s.standing.sent ≠ []) :
    ∃ (n : Nat) (x : α), xs[n]? = some x ∧ place x = some k := by
  have hnot : ¬∀ x ∈ xs, place x ≠ some k := fun hfree => hsent (h.idle hs hfree).sent
  push Not at hnot
  obtain ⟨x,hmem,hplace⟩ := hnot
  obtain ⟨n,hn⟩ := List.mem_iff_getElem?.mp hmem
  exact ⟨n,x,hn,hplace⟩

theorem leaves (hk : Lasting place kept) (hl : ∀ k, Leaves k c c') : Housed place kept c' xs :=
  ⟨fun hn => hk (h.kept hn) fun k _ => hl k,h.apart,
    fun hs hfree => (hl _).untouched hs fun hs => h.idle hs hfree⟩

theorem set (hk : Lasting place kept) (hn : xs[n]? = some x) (hx : kept c' x')
    (hp : place x' = place x) (hl : ∀ k, place x ≠ some k → Leaves k c c') :
    Housed place kept c' (xs.set n x') := by
  have hold {m : Nat} {z : α} (hz : (xs.set n x')[m]? = some z) :
      z = x' ∧ m = n ∨ m ≠ n ∧ xs[m]? = some z := by
    rw [List.getElem?_set] at hz
    split at hz
    · rename_i hm
      split at hz
      · exact .inl ⟨(Option.some.inj hz).symm,hm.symm⟩
      · cases hz
    · rename_i hm
      exact .inr ⟨fun hx => hm hx.symm,hz⟩
  -- A place is that of the same worker before and after.
  have hbefore {m k : Nat} {z : α} (hz : (xs.set n x')[m]? = some z) (hk : place z = some k) :
      ∃ z₀, xs[m]? = some z₀ ∧ place z₀ = some k := by
    rcases hold hz with ⟨rfl,rfl⟩ | ⟨-,hm⟩
    · exact ⟨x,hn,hp.symm.trans hk⟩
    · exact ⟨z,hm,hk⟩
  refine ⟨fun {m z} hz => ?_,fun {m m' k z z'} hz hz' hk hk' => ?_,fun {k s} hs hfree => ?_⟩
  · rcases hold hz with ⟨rfl,rfl⟩ | ⟨hm,hz⟩
    · exact hx
    · exact hk (h.kept hz) fun k hz' => hl k fun hx => hm (h.apart hz hn hz' hx)
  · obtain ⟨z₀,hz₀,hk₀⟩ := hbefore hz hk
    obtain ⟨z₁,hz₁,hk₁⟩ := hbefore hz' hk'
    exact h.apart hz₀ hz₁ hk₀ hk₁
  · have hlt : n < xs.length := (List.getElem?_eq_some_iff.mp hn).1
    have hfree₀ (z : α) (hz : z ∈ xs) : place z ≠ some k := by
      obtain ⟨m,hm⟩ := List.mem_iff_getElem?.mp hz
      intro hzk
      by_cases hmn : m = n
      · subst hmn
        cases hm.symm.trans hn
        exact hfree x' (List.mem_set hlt x') (hp.trans hzk)
      · refine hfree z (List.mem_iff_getElem?.mpr ⟨m,?_⟩) hzk
        rwa [List.getElem?_set_ne (Ne.symm hmn)]
    exact (hl k (hfree₀ x (List.mem_of_getElem? hn))).untouched hs fun hs => h.idle hs hfree₀

theorem push (hk : Lasting place kept) (hx : kept c' x)
    (hfree : ∀ z ∈ xs, ∀ k, place z = some k → place x ≠ some k)
    (hl : ∀ k, place x ≠ some k → Leaves k c c') : Housed place kept c' (xs ++ [x]) := by
  have hold {m : Nat} {z : α} (hz : (xs ++ [x])[m]? = some z) :
      xs[m]? = some z ∨ z = x ∧ m = xs.length := (getElem?_concat hz).imp_right And.symm
  have hnew {m k : Nat} {z : α} (hz : xs[m]? = some z) (hzk : place z = some k)
      (hxk : place x = some k) : False :=
    hfree z (List.mem_of_getElem? hz) k hzk hxk
  refine ⟨fun {m z} hz => ?_,fun {m m' k z z'} hz hz' hzk hzk' => ?_,fun {k s} hs hno => ?_⟩
  · rcases hold hz with hz | ⟨rfl,-⟩
    · exact hk (h.kept hz) fun k hzk => hl k fun hxk => hnew hz hzk hxk
    · exact hx
  · rcases hold hz with hold₁ | ⟨rfl,rfl⟩
    · rcases hold hz' with hold₂ | ⟨rfl,rfl⟩
      · exact h.apart hold₁ hold₂ hzk hzk'
      · exact (hnew hold₁ hzk hzk').elim
    · rcases hold hz' with hold₂ | ⟨rfl,rfl⟩
      · exact (hnew hold₂ hzk' hzk).elim
      · rfl
  · have hfree₀ (z : α) (hz : z ∈ xs) : place z ≠ some k := hno z (List.mem_append_left _ hz)
    exact (hl k (hno x (by simp))).untouched hs fun hs => h.idle hs hfree₀

end

end Housed

namespace Rpc

section Errands

/-- Whether the work on a request has come to what it should, with `v` of the response read. -/
def Progress.Follows (p : Plea) (max k : Nat) (v : Taken) (q : Post) : Progress → Prop
  | .sending i => v = {} ∧ i.Follows p max k q
  | .returned result request => Returned p max k v q result request
  | .reading goal r => ∃ response h base, r.Follows p max k goal v response h base q

/-- Whether an errand is in order: it got no stream, or it goes on with its stream. -/
inductive Errand.Kept (max : Nat) (c : Connection) (e : Errand) : Prop
  | unsent {error : Error} {request : Request} (place : e.place = none)
      (progress : e.progress = .returned (.error error) request) (missing : request.response = none)
  | sent {k : Nat} {q : Post} (place : e.place = some k) (stands : c.Stands k q.standing)
      (follows : e.progress.Follows e.plea max k e.taken q)

variable {p : Plea} {max k : Nat} {v : Taken} {q q' : Post} {c c' : Connection} {e : Errand}
  {m : Moment}

theorem Progress.Follows.ages {x : Progress} (h : x.Follows p max k v q) (ha : q.Ages q') :
    x.Follows p max k v q' := by
  cases x with
  | sending i => exact ⟨h.1,h.2.ages ha⟩
  | returned result request => exact Returned.ages h ha
  | reading goal r =>
    obtain ⟨response,x,base,hf⟩ := h
    exact ⟨response,x,base,hf.ages ha⟩

theorem Errand.lasting (max : Nat) : Lasting Errand.place (Errand.Kept max) := by
  intro c c' e h hl
  cases h with
  | unsent place progress missing => exact .unsent place progress missing
  | sent place stands follows =>
    obtain ⟨a',ha,hs⟩ := stands.leaves (hl _ place)
    exact .sent (q := ⟨a',_⟩) place hs (follows.ages ⟨ha,rfl⟩)

theorem Invoked.Follows.progress {x : Invoked} (h : x.Follows p max k q) :
    (Progress.ofInvoked x).Follows p max k {} q := by
  cases x with
  | waiting i => exact ⟨rfl,h⟩
  | finished result request => exact h

/-- How an errand came along: it is in order, and only its own stream was worked on. -/
structure Errand.Goes (max : Nat) (home : Option Nat) (c : Connection) (r : Errand × Connection) :
    Prop where
  kept : r.1.Kept max r.2
  place : r.1.place = home
  strides : c.Strides r.2
  others : ∀ k, home ≠ some k → Leaves k c r.2

theorem Errand.goes_of_works {home : Option Nat} {r : Errand × Connection} (hh : home = some k)
    (hp : r.1.place = home) (hs : r.2.Stands k q.standing)
    (hf : r.1.progress.Follows r.1.plea max k r.1.taken q) (hw : c.Works k r.2) :
    Errand.Goes max home c r := by
  refine ⟨.sent (hp.trans hh) hs hf,hp,hw.strides,fun j hj => hw.others j fun hjk => ?_⟩
  exact hj (hh.trans (congrArg some hjk.symm))

theorem Errand.Kept.rest (h : e.Kept max c) : Errand.Goes max e.place c (e, c) :=
  ⟨h,rfl,.refl,fun j _ => .refl j c⟩

theorem Errand.goes_start (p : Plea) (max : Nat) (c : Connection) (hm : m.givenUp = false) :
    ∃ home, Errand.Goes max home c (Errand.start max m p c) ∧
      ∀ k, home = some k → c.streams.length ≤ k := by
  unfold Errand.start
  dsimp only
  rcases Invocation.goes_start p max c hm with ⟨hsame,error,hfinished⟩ | ⟨q,hf,hs,hw⟩
  · have hprogress : Progress.ofInvoked (Invocation.start max m p.request { connection := c }).1 =
        .returned (.error error) p.sent := by rw [hfinished]; rfl
    rw [hsame]
    rw [if_neg (by simp)]
    exact ⟨none,⟨.unsent rfl hprogress rfl,rfl,.refl,fun j _ => .refl j c⟩,by simp⟩
  · have hlt : c.streams.length <
        (Invocation.start max m p.request { connection := c }).2.connection.streams.length := by
      obtain ⟨s,hs,-⟩ := hs
      exact (List.getElem?_eq_some_iff.mp hs).1
    refine ⟨some c.streams.length,Errand.goes_of_works rfl ?_ hs hf.progress hw,by simp⟩
    simp [hlt]

theorem Errand.goes_afterRead {goal : Option Nat} {r : ReadState × Scene}
    (hplace : e.place = some k) (h : Reading.Goes e.plea max k goal e.taken c r) :
    Errand.Goes max e.place c (e.afterRead goal r.1, r.2.connection) := by
  obtain ⟨q,hf,hs,hw⟩ := h
  obtain ⟨state,s⟩ := r
  cases state with
  | waiting | finished => exact Errand.goes_of_works hplace rfl hs hf hw

theorem Request.dispose_of_unanswered {request : Request} (h : request.response = none) :
    request.dispose.1.streams = [] ∧ request.dispose.2.response = none := by
  unfold Request.dispose
  split
  · exact ⟨rfl,h⟩
  · simp [h]

theorem Errand.Kept.act (h : e.Kept max c) (hm : m.givenUp = false) (a : Act) :
    Errand.Goes max e.place c (e.act m c a) := by
  have hrest := h.rest
  cases h with
  | unsent place progress missing =>
    cases a with
    | proceed =>
      simp only [Errand.act,progress]
      exact hrest
    | read goal =>
      simp only [Errand.act,progress,missing]
      exact hrest
    | dispose =>
      obtain ⟨hstreams,hnone⟩ := Request.dispose_of_unanswered missing
      simp only [Errand.act,progress,Scene.release,hstreams,List.foldl_nil]
      exact ⟨.unsent place rfl hnone,rfl,.refl,fun j _ => .refl j c⟩
  | @sent k q place stands follows =>
    have hscene : e.scene c = { connection := c, stream := k } := by simp [Errand.scene,place]
    cases a with
    | proceed =>
      unfold Errand.act
      dsimp only
      split
      · rename_i i hprogress
        rw [hprogress] at follows
        split
        · rename_i state s hr
          obtain ⟨q',hf,hs,hw⟩ := follows.2.resume stands hm hr
          refine Errand.goes_of_works place rfl hs ?_ hw
          rw [follows.1]
          exact hf.progress
        · exact hrest
      · rename_i goal r hprogress
        rw [hprogress] at follows
        obtain ⟨response,x,base,hf⟩ := follows
        split
        · rename_i state s hr
          rw [hscene] at hr
          exact Errand.goes_afterRead place (hf.resume stands hm hr)
        · exact hrest
      · exact hrest
    | read goal =>
      unfold Errand.act
      dsimp only
      split
      · rename_i result request hprogress
        rw [hprogress] at follows
        split
        · rename_i response hresponse hdisposed
          rw [hscene]
          exact Errand.goes_afterRead place
            (Reading.goes_start follows hresponse hdisposed stands hm)
        · exact hrest
      · exact hrest
      · exact hrest
    | dispose =>
      unfold Errand.act
      dsimp only
      split
      · rename_i result request hprogress
        rw [hprogress] at follows
        obtain ⟨q',hf,hs,hw⟩ := Returned.dispose follows stands
        exact Errand.goes_of_works place rfl hs hf hw
      · exact hrest
      · exact hrest

end Errands

section Labors

variable {F : Behaviour} {max i : Nat} {peer : String} {t : Terms} {m : Moment} {c c' : Connection}
  {l : Labor}

/-- Whether the work on a stream is in order. The service was run once at most. -/
def Labor.Kept (F : Behaviour) (max : Nat) (peer : String) (c : Connection) (l : Labor) : Prop :=
  ∃ run q, l.runs = Option.toList run ∧ (l.scene c).At l.stream q ∧
    l.dispatch.Follows F max peer l.stream run q

theorem Labor.lasting (F : Behaviour) (max : Nat) (peer : String) :
    Lasting (fun l => some l.stream) (Labor.Kept F max peer) := by
  intro c c' l h hl
  obtain ⟨run,q,hruns,hat,hf⟩ := h
  obtain ⟨q',hq,hat'⟩ := hat.leaves (hl _ rfl)
  exact ⟨run,q',hruns,hat',hf.ages hq⟩

theorem Labor.goes_start {s : Stream} (hf : t.service.Computes F) (peer : String)
    (hs : c.streams[i]? = some s) (ht : s.standing.Untouched) (hr : s.remote = true)
    (hm : m.givenUp = false) :
    (Labor.start t m peer i c).1.Kept F t.maxHeader peer (Labor.start t m peer i c).2 ∧
      c.Works i (Labor.start t m peer i c).2 := by
  have hstands : c.Stands i s.standing := by
    refine ⟨s,hs,rfl,fun hended => ?_⟩
    have hopen : s.ledger.ended = false := ht.ended
    cases hopen.symm.trans hended
  have hat : Scene.At { connection := c, stream := i } i ⟨s.standing,false⟩ :=
    ⟨rfl,hstands,(by intro hn; cases hn),fun _ => .inr rfl⟩
  have hgoes : Dispatch.Goes F t.maxHeader peer i
      (Dispatch.startRun t m peer { connection := c, stream := i }) c
      (Dispatch.start t m peer { connection := c, stream := i }) :=
    Dispatch.goes_start hf hat ht hr hm
  obtain ⟨q,hfollows,hat',hw⟩ := hgoes
  exact ⟨⟨_,q,rfl,{ hat' with stream := rfl },hfollows⟩,hw⟩

theorem Labor.map_stream_set {labors : List Labor} {n : Nat} {l' : Labor} (hl : labors[n]? = some l)
    (hs : l'.stream = l.stream) : (labors.set n l').map (·.stream) = labors.map (·.stream) := by
  rw [List.map_set,hs]
  apply List.ext_getElem?
  intro k
  rw [List.getElem?_set]
  split
  · rename_i hk
    subst hk
    obtain ⟨hlt,heq⟩ := List.getElem?_eq_some_iff.mp hl
    simp [hlt,heq]
  · rfl

theorem Dispatch.Follows.resumeRun_eq_none {d : Dispatch} {r : Incoming} {q : Post} {s : Scene}
    (h : d.Follows F max peer i (some r) q) : d.resumeRun m peer s = none := by
  have hstage := h.stage
  cases d with
  | heading work => cases hstage.1
  | _ => rfl

theorem Labor.Kept.resume (h : l.Kept F t.maxHeader peer c) (hf : t.service.Computes F)
    (hm : m.givenUp = false) (hu : ∀ r ∈ l.runs, r.fields.getWord? .deadline = none) :
    (l.resume t m peer c).1.Kept F t.maxHeader peer (l.resume t m peer c).2 ∧
      c.Works l.stream (l.resume t m peer c).2 ∧ (l.resume t m peer c).1.stream = l.stream := by
  unfold Labor.resume
  split
  · rename_i d s hr
    obtain ⟨run,q,hruns,hat,hfollows⟩ := h
    have hundated (r : Incoming) (hrun : run = some r) : r.fields.getWord? .deadline = none :=
      hu r (by simp [hruns,hrun])
    obtain ⟨q',hfollows',hat',hw⟩ := hfollows.resume hf hat hm hundated hr
    refine ⟨⟨_,q',?_,{ hat' with stream := rfl },hfollows'⟩,hw,rfl⟩
    cases run with
    | none => simp [hruns]
    | some r => simp [hruns,hfollows.resumeRun_eq_none]
  · exact ⟨h,.refl _ c,rfl⟩

end Labors

end Rpc

section Queue

variable {c c' : Connection} {taken : List Nat}

namespace Connection

theorem mem_arrivals {k : Nat} :
    k ∈ c.arrivals ↔ ∃ s : Stream, c.streams[k]? = some s ∧ s.remote = true := by
  simp [arrivals,List.mem_zipIdx_iff_getElem?]

/-- Whether the streams in the queue and those that were taken from it are different ones of the
peer. -/
structure Lined (c : Connection) (taken : List Nat) : Prop where
  nodup : (c.acceptQueue ++ taken).Nodup
  arrived : ∀ k ∈ c.acceptQueue ++ taken, k ∈ c.arrivals

theorem Lined.musters (h : Lined c taken) (hm : Musters c c') : Lined c' taken := by
  obtain ⟨new,harrivals,hqueue⟩ := hm
  have hnodup := c'.arrivals_nodup
  rw [harrivals] at hnodup
  obtain ⟨-,hnew,hfresh⟩ := List.nodup_append.mp hnodup
  have hsub : (c'.acceptQueue ++ taken).Sublist ((c.acceptQueue ++ new) ++ taken) :=
    hqueue.append_right taken
  have hperm : ((c.acceptQueue ++ new) ++ taken).Perm ((c.acceptQueue ++ taken) ++ new) := by
    rw [List.append_assoc,List.append_assoc]
    exact List.perm_append_comm.append_left c.acceptQueue
  have hall : ((c.acceptQueue ++ new) ++ taken).Nodup :=
    hperm.nodup_iff.mpr (List.nodup_append.mpr ⟨h.nodup,hnew,fun k hk => hfresh k (h.arrived k hk)⟩)
  refine ⟨hall.sublist hsub,fun k hk => ?_⟩
  have hmem := hperm.mem_iff.mp (hsub.subset hk)
  rw [harrivals,List.mem_append]
  exact (List.mem_append.mp hmem).imp (h.arrived k) id

theorem Lined.of_roll (h : Lined c taken) (hr : c'.roll = c.roll) : Lined c' taken :=
  h.musters (.of_roll hr)

theorem Lined.take {i : Nat} {rest : List Nat} (h : Lined c taken)
    (hq : c.acceptQueue = i :: rest) :
    Lined { c with acceptQueue := rest } (taken ++ [i]) := by
  have hperm : (rest ++ (taken ++ [i])).Perm (c.acceptQueue ++ taken) := by
    rw [hq,← List.append_assoc]
    exact List.perm_append_comm
  exact ⟨hperm.nodup_iff.mpr h.nodup,fun k hk => h.arrived k (hperm.mem_iff.mp hk)⟩

/-- What looking for a stream of the peer gives. -/
inductive Accepts (c : Connection) : Outcome × Connection → Prop
  | stream {i : Nat} {rest : List Nat} {c' : Connection} (queue : c.acceptQueue = i :: rest)
      (left : c' = { c with acceptQueue := rest }) : Accepts c (.done (.ok (.stream i)), c')
  | wait : Accepts c (.wait .peerStream, c)
  | fail (e : Failure) : Accepts c (.done (.error e), c)

theorem accepts_resume (c : Connection) : Accepts c (c.resume false .peerStream) := by
  unfold resume lookPeerStream
  cases hq : c.acceptQueue with
  | cons i rest => exact .stream hq rfl
  | nil =>
    cases c.phase with
    | active => exact .wait
    | connecting | closing | closed => exact .fail _

theorem accepts_callOrWake {z : Option Suspended} {r : Outcome × Connection}
    (hz : ∀ w, z = some w → w.wait = .peerStream)
    (h : Rpc.Deployment.callOrWake c .accept z = some r) : Accepts c r ∧ c.Strides r.2 := by
  have hsame : r = c.resume false .peerStream := by
    cases z with
    | none => exact (Option.some.inj h).symm
    | some w =>
      rw [← hz w rfl]
      exact eq_resume_of_wake h
  have hmeant : Wait.Meant .peerStream := by simp [Wait.Meant]
  subst hsame
  exact ⟨c.accepts_resume,.single ((evolves_resume c false .peerStream).mono fun hr => ⟨hr,hmeant⟩)⟩

end Connection

end Queue

/-- Events in which an end acts of its own accord. -/
inductive Event.Stirring : Event → Prop
  | connect (now : Nat) : Stirring (.connect now)
  | pull (now seen room : Nat) : Stirring (.pull now seen room)
  | push (room : Nat) : Stirring (.push room)

/-- What an end does of its own accord: it uses no stream, and streams of the peer surface. -/
structure Connection.Stirs (c c' : Connection) : Prop where
  leaves : ∀ i, Leaves i c c'
  musters : Musters c c'

theorem Station.stirs_act (s : Station) (out inn : Pipe) {e : Event} (he : e.Stirring) :
    Stirs s.connection (s.act out inn e).1.connection :=
  ⟨fun _ => leaves_act (by cases he <;> rfl) out inn,s.musters_act out inn e⟩

theorem Duplex.stirs_act (x : Duplex) {e : Event} (he : e.Stirring) (side place : Side) :
    Stirs (x.connection place) ((x.act (side, e)).connection place) := by
  cases side with
  | near =>
    cases place with
    | near => exact x.near.stirs_act x.forth x.back he
    | far => exact ⟨fun i => .refl i _,.of_roll rfl⟩
  | far =>
    cases place with
    | near => exact ⟨fun i => .refl i _,.of_roll rfl⟩
    | far => exact x.far.stirs_act x.back x.forth he

end Multiplex
