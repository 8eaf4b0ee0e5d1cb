import Multiplex.Proofs.Duties
import Multiplex.Proofs.Nesting
import Multiplex.Rpc.Exchange

/-!
What a process makes of its own stream, whatever happens around it: what it may have said at any
time, and how the stream stands when it is done.
-/

namespace Multiplex

namespace Connection

def Strides : Connection → Connection → Prop :=
  Relation.ReflTransGen fun c c' : Connection => Evolves c.Ready c c'

/-- What is done for the stream at place `i`: other streams are left alone. -/
structure Works (i : Nat) (c c' : Connection) : Prop where
  strides : Strides c c'
  others : ∀ j, j ≠ i → Leaves j c c'
  roll : c'.roll = c.roll

namespace Works

variable {i : Nat} {c c' c'' : Connection}

theorem refl (i : Nat) (c : Connection) : Works i c c := ⟨.refl,fun j _ => .refl j c,rfl⟩

theorem trans (h : Works i c c') (h' : Works i c' c'') : Works i c c'' :=
  ⟨h.strides.trans h'.strides,fun j hj => (h.others j hj).trans (h'.others j hj),
    h'.roll.trans h.roll⟩

end Works

variable {i : Nat} {c : Connection}

theorem works_call (k : StreamCall) : Works i c (c.call false (k.on i)).2 := by
  have hplace : (k.on i).stream? = some i := by cases k <;> rfl
  refine ⟨.single (evolves_call c false _),fun j hj => leaves_call false ?_,?_⟩
  · rw [hplace]
    exact fun h => hj (Option.some.inj h).symm
  · cases k <;> exact c.roll_call false (by simp [StreamCall.on]) (by simp [StreamCall.on])

theorem works_resume {w : Wait} {t : Duty} (hw : w.Awaits i t) :
    Works i c (c.resume false w).2 := by
  refine ⟨.single ((evolves_resume c false w).mono fun hr => ⟨hr,hw.meant⟩),
    fun j hj => leaves_resume false ?_,c.roll_resume false ?_⟩
  · rw [hw.stream?]
    exact fun h => hj (Option.some.inj h).symm
  · cases hw <;> simp

theorem eq_resume_of_wake {w : Suspended} {r : Outcome × Connection} (h : c.wake false w = some r) :
    r = c.resume false w.wait := by
  unfold wake at h
  split at h
  · exact (Option.some.inj h).symm
  · cases h

theorem works_abandonReads (i : Nat) (c : Connection) : Works i c (c.abandonReads i) :=
  ⟨.single (moves_abandonReads c i).evolves,fun _ hj => (Runs.abandonReads hj.symm).leaves,
    (Runs.abandonReads trivial).roll⟩

theorem works_disposeStream (i : Nat) (c : Connection) : Works i c (c.disposeStream i) :=
  ⟨.single (moves_disposeStream c i).evolves,fun _ _ => (Runs.disposeStream trivial).leaves,
    (Runs.disposeStream trivial).roll⟩

theorem works_reset (i : Nat) (c : Connection) (code : UInt64) : Works i c (c.reset i code) :=
  ⟨.single (moves_reset c i code).evolves,fun _ _ => (Runs.reset trivial code).leaves,
    (Runs.reset trivial code).roll⟩

end Connection

/-- Whatever a duty gives satisfies `next`, and the stream is `safe` while it waits. -/
def Duty.Leads (safe : Standing → Prop) (t : Duty) (a : Standing)
    (next : Except Failure Answer → Standing → Prop) : Prop :=
  (∀ r a', t.Gives a a' r → next r a') ∧ ∀ t' a', t.Becomes a a' t' → t'.Waits → safe a'

section Leads

variable {safe safe' : Standing → Prop} {t t' : Duty} {a a' : Standing}
  {next next' : Except Failure Answer → Standing → Prop}

theorem Duty.Leads.becomes (h : t.Leads safe a next) (hb : t.Becomes a a' t') :
    t'.Leads safe a' next :=
  ⟨fun r _ hg => h.1 r _ (hb.gives hg),fun t'' _ hb' hw => h.2 t'' _ (hb.trans hb') hw⟩

theorem Duty.Leads.mono (h : t.Leads safe a next) (hs : ∀ a, safe a → safe' a)
    (hn : ∀ r a, next r a → next' r a) : t.Leads safe' a next' :=
  ⟨fun r a' hg => hn r a' (h.1 r a' hg),fun t' a' hb hw => hs a' (h.2 t' a' hb hw)⟩

theorem Duty.Leads.comes {i : Nat} {r : Outcome × Connection} (h : t.Leads safe a next)
    (hc : t.Comes i a r) :
    ∃ a', r.2.Stands i a' ∧ (∀ x, r.1 = .done x → next x a') ∧
      ∀ w, r.1 = .wait w → safe a' ∧ ∃ t', w.Awaits i t' ∧ t'.Leads safe a' next := by
  cases hc with
  | done hg hs =>
    refine ⟨_,hs,fun x hx => ?_,fun w hw => by cases hw⟩
    cases hx
    exact h.1 _ _ hg
  | wait hw hb hs =>
    refine ⟨_,hs,(by intro x hx; cases hx),fun w hw' => ?_⟩
    cases hw'
    exact ⟨h.2 _ _ hb hw.waits,_,hw,h.becomes hb⟩

end Leads

namespace Rpc

structure Post where
  standing : Standing
  attached : Bool

namespace Post

structure Ages (q q' : Post) : Prop where
  standing : q.standing.Ages q'.standing
  attached : q'.attached = q.attached

def complete (q : Post) : Post := if q.attached then ⟨q.standing.abandon, false⟩ else q

theorem Ages.complete {q q' : Post} (h : q.Ages q') : q.complete.Ages q'.complete := by
  unfold Post.complete
  rw [h.attached]
  split
  · exact ⟨h.standing.abandon,rfl⟩
  · exact h

end Post

/-- Whether what is true of a process stays true when time passes. -/
def Steady (safe : Post → Prop) : Prop := ∀ q q', safe q → Post.Ages q q' → safe q'

variable {α β : Type} {safe safe' : Post → Prop}

def Process.Sure (safe : Post → Prop) (post : α → Post → Prop) : Process α → Post → Prop
  | .done a, q => post a q
  | .note _ next, q | .guard _ next, q | .unguard next, q => next.Sure safe post q
  | .pause _ next, q => safe q ∧ next.Sure safe post q
  | .call k next, q =>
    ∃ t, k.duty? = some t ∧
      t.Leads (fun a => safe ⟨a, q.attached⟩) q.standing fun r a =>
        (next r).Sure safe post ⟨a, q.attached⟩
  | .chunk max next, q =>
    if q.attached then
      (Duty.chunk max).Leads (fun a => safe ⟨a, true⟩) q.standing fun r a =>
        (next (chunkRead r)).Sure safe post ⟨a, true⟩
    else (next (.ok none)).Sure safe post q
  | .all next, q =>
    if q.attached then
      (Duty.drain []).Leads (fun a => safe ⟨a, true⟩) q.standing fun r a =>
        (∀ bs, bytesRead r = .ok bs → (next (.ok bs)).Sure safe post ⟨a.abandon, false⟩) ∧
          ∀ e, bytesRead r = .error e → (next (.error e)).Sure safe post ⟨a, true⟩
    else (next (.ok [])).Sure safe post q
  | .complete next, q => next.Sure safe post q.complete

def Halted.Sure (i : Nat) (safe : Post → Prop) (post : α → Post → Prop) : Halted α → Post → Prop
  | .done a, q => post a q
  | .paused _ next, q => safe q ∧ next.Sure safe post q
  | .calling w next, q =>
    safe q ∧ ∃ t, w.wait.Awaits i t ∧
      t.Leads (fun a => safe ⟨a, q.attached⟩) q.standing fun r a =>
        (next r).Sure safe post ⟨a, q.attached⟩

/-- Whether a scene is that of a process on the stream at place `i`. -/
structure Scene.At (s : Scene) (i : Nat) (q : Post) : Prop where
  stream : s.stream = i
  stands : s.connection.Stands i q.standing
  attached : q.attached = true → s.payload.content = .stream i
  detached : q.attached = false → s.payload.content = .completed ∨ s.payload.content = .buffered []

namespace Process.Sure

variable {post post' : α → Post → Prop} {p : Process α} {q q' : Post}

theorem bind {f : α → Process β} {post' : β → Post → Prop} (h : p.Sure safe post q)
    (hs : ∀ q, safe q → safe' q) (hf : ∀ a q, post a q → (f a).Sure safe' post' q) :
    (p.bind f).Sure safe' post' q := by
  induction p generalizing q with
  | done a => exact hf a q h
  | note e next ih | guard e next ih | unguard next ih | complete next ih => exact ih h
  | pause w next ih => exact ⟨hs q h.1,ih h.2⟩
  | call k next ih =>
    obtain ⟨t,hk,hl⟩ := h
    exact ⟨t,hk,hl.mono (fun _ => hs _) fun r a hn => ih r hn⟩
  | chunk max next ih =>
    obtain ⟨a,_ | _⟩ := q
    · exact ih _ h
    · exact Duty.Leads.mono h (fun _ => hs _) fun r a hn => ih _ hn
  | all next ih =>
    obtain ⟨a,_ | _⟩ := q
    · exact ih _ h
    · exact Duty.Leads.mono h (fun _ => hs _) fun r a hn =>
        ⟨fun bs hb => ih _ (hn.1 bs hb),fun e he => ih _ (hn.2 e he)⟩

theorem mono (h : p.Sure safe post q) (hs : ∀ q, safe q → safe' q)
    (hp : ∀ a q, post a q → post' a q) : p.Sure safe' post' q := by
  rw [← p.bind_done]
  exact h.bind hs hp

theorem andThen {p : Process (Except Error α)} {f : α → Process (Except Error β)}
    {post : Except Error α → Post → Prop} {post' : Except Error β → Post → Prop}
    (h : p.Sure safe post q) (hs : ∀ q, safe q → safe' q)
    (hok : ∀ a q, post (.ok a) q → (f a).Sure safe' post' q)
    (herror : ∀ e q, post (.error e) q → post' (.error e) q) :
    (p.andThen f).Sure safe' post' q := by
  refine h.bind hs fun r q hr => ?_
  cases r with
  | ok a => exact hok a q hr
  | error e => exact herror e q hr

theorem ages (h : p.Sure safe post q) (hq : q.Ages q') (hs : Steady safe)
    (hp : ∀ a, Steady (post a)) : p.Sure safe post q' := by
  induction p generalizing q q' with
  | done a => exact hp a q q' h hq
  | note e next ih | guard e next ih | unguard next ih => exact ih h hq
  | complete next ih => exact ih h hq.complete
  | pause w next ih => exact ⟨hs q q' h.1 hq,ih h.2 hq⟩
  | call k next ih =>
    obtain ⟨t,hk,hl⟩ := h
    rw [Process.Sure,hq.attached]
    exact ⟨t,hk,hl.becomes (t.becomes_of_ages hq.standing)⟩
  | chunk max next ih | all next ih =>
    obtain ⟨a,b⟩ := q
    obtain ⟨a',b'⟩ := q'
    obtain rfl := hq.attached
    cases b' with
    | false => exact ih _ h hq
    | true => exact Duty.Leads.becomes h (Duty.becomes_of_ages _ hq.standing)

theorem afterAll {next : Except Error Bytes → Process α} {r : Except Failure Answer} {a : Standing}
    (hok : ∀ bs, bytesRead r = .ok bs → (next (.ok bs)).Sure safe post ⟨a.abandon, false⟩)
    (herror : ∀ e, bytesRead r = .error e → (next (.error e)).Sure safe post ⟨a, true⟩) :
    (Process.afterAll next r).Sure safe post ⟨a, true⟩ := by
  unfold Process.afterAll
  cases hb : bytesRead r with
  | ok bs => exact hok bs hb
  | error e => exact herror e hb

theorem notes (es : List Event) (h : p.Sure safe post q) :
    (Process.notes es p).Sure safe post q := by
  induction es with
  | nil => exact h
  | cons e es ih => exact ih

end Process.Sure

/-- How a process came along on the stream at place `i`: where it is, and how things stand there. -/
structure Course (i : Nat) (safe : Post → Prop) (post : α → Post → Prop) (c : Connection)
    (r : Halted α × Scene) (q : Post) : Prop where
  sure : r.1.Sure i safe post q
  scene : r.2.At i q
  works : c.Works i r.2.connection

section Run

variable {i : Nat} {post : α → Post → Prop} {s : Scene} {q : Post} {m : Moment} {c : Connection}
  {r : Halted α × Scene} {h : Halted α}

theorem Course.after {c' : Connection} (h : Course i safe post c' r q) (hw : c.Works i c') :
    Course i safe post c r q :=
  ⟨h.sure,h.scene,hw.trans h.works⟩

theorem Scene.At.connection (h : s.At i q) {a : Standing} (hc : c.Stands i a) :
    Scene.At { s with connection := c } i ⟨a,q.attached⟩ :=
  { h with stands := hc }

theorem Scene.At.leaves (h : s.At i q) (hl : Connection.Leaves i s.connection c) :
    ∃ q', q.Ages q' ∧ Scene.At { s with connection := c } i q' := by
  obtain ⟨a',ha,hc⟩ := h.stands.leaves hl
  exact ⟨⟨a',q.attached⟩,⟨ha,rfl⟩,h.connection hc⟩

theorem Scene.At.complete (h : s.At i q) :
    s.complete.At i q.complete ∧ s.connection.Works i s.complete.connection := by
  cases ha : q.attached with
  | true =>
    have hcontent := h.attached ha
    have hconn : s.complete.connection = s.connection.abandonReads i := by
      simp [Scene.complete,Payload.complete,hcontent]
    have hq : q.complete = ⟨q.standing.abandon,false⟩ := by simp [Post.complete,ha]
    rw [hq,hconn]
    refine ⟨⟨h.stream,?_,(by intro hn; cases hn),fun _ => .inl rfl⟩,
      Connection.works_abandonReads i s.connection⟩
    rw [hconn]
    exact h.stands.abandonReads
  | false =>
    have hconn : s.complete.connection = s.connection := by
      rcases h.detached ha with hcontent | hcontent <;>
        simp [Scene.complete,Payload.complete,hcontent]
    have hq : q.complete = q := by simp [Post.complete,ha]
    rw [hq,hconn]
    refine ⟨⟨h.stream,hconn ▸ h.stands,fun hn => ?_,fun _ => .inl rfl⟩,.refl i _⟩
    cases ha.symm.trans hn

theorem Scene.At.course_complete (h : s.At i q)
    (hr : s.complete.At i q.complete → ∃ q', Course i safe post s.complete.connection r q') :
    ∃ q', Course i safe post s.connection r q' := by
  obtain ⟨hat,hw⟩ := h.complete
  obtain ⟨q',hc⟩ := hr hat
  exact ⟨q',hc.after hw⟩

/-- Where a process is after a call: it goes on with what the call gave, or waits with it. -/
def Process.afterCall (m : Moment) (next : Except Failure Answer → Process α) (s : Scene) :
    Outcome × Connection → Halted α × Scene
  | (.done r, connection) => (next r).run m { s with connection }
  | (.wait w, connection) => (.calling ⟨w, connection.signal w⟩ next, { s with connection })

theorem Process.run_call (k : StreamCall) (next : Except Failure Answer → Process α) :
    (Process.call k next).run m s =
      afterCall m next s (s.connection.call m.givenUp (k.on s.stream)) := by
  rw [Process.run]
  obtain ⟨o,c⟩ := s.connection.call m.givenUp (k.on s.stream)
  cases o <;> rfl

theorem Process.run_chunk (max : Nat) (next : Except Error (Option Bytes) → Process α)
    (hi : s.payload.content = .stream i) :
    (Process.chunk max next).run m s = afterCall m (fun r => next (chunkRead r)) s
      (s.connection.call m.givenUp (.read i (.chunk max))) := by
  rw [Process.run,hi]
  dsimp only
  obtain ⟨o,c⟩ := s.connection.call m.givenUp (.read i (.chunk max))
  cases o <;> rfl

theorem Process.run_all (next : Except Error Bytes → Process α)
    (hi : s.payload.content = .stream i) :
    (Process.all next).run m s = afterCall m (afterAll next) s
      (s.connection.call m.givenUp (.read i (.toEnd []))) := by
  rw [Process.run,hi]
  dsimp only
  obtain ⟨o,c⟩ := s.connection.call m.givenUp (.read i (.toEnd []))
  cases o with
  | done r =>
    dsimp only [afterCall,afterAll]
    cases bytesRead r <;> rfl
  | wait w => rfl

theorem Halted.resume_calling (w : Suspended) (next : Except Failure Answer → Process α) :
    (Halted.calling w next).resume m s =
      (s.connection.wake m.givenUp w).map (Process.afterCall m next s) := by
  dsimp only [Halted.resume]
  cases s.connection.wake m.givenUp w with
  | none => rfl
  | some r =>
    obtain ⟨o,c⟩ := r
    cases o <;> rfl

theorem Scene.At.course_afterCall {t : Duty} {next : Except Failure Answer → Process α}
    {r : Outcome × Connection} (hs : s.At i q) (hc : t.Comes i q.standing r)
    (hw : s.connection.Works i r.2)
    (hl : t.Leads (fun a => safe ⟨a, q.attached⟩) q.standing fun x a =>
      (next x).Sure safe post ⟨a, q.attached⟩)
    (hn : ∀ (x : Except Failure Answer) (s : Scene) (q : Post), (next x).Sure safe post q →
      s.At i q → ∃ q', Course i safe post s.connection ((next x).run m s) q') :
    ∃ q', Course i safe post s.connection (Process.afterCall m next s r) q' := by
  obtain ⟨a',hstand,hdone,hwait⟩ := hl.comes hc
  have hat := hs.connection hstand
  obtain ⟨o,c⟩ := r
  cases o with
  | done x =>
    obtain ⟨q',hc⟩ := hn x _ _ (hdone x rfl) hat
    exact ⟨q',hc.after hw⟩
  | wait w => exact ⟨⟨a',q.attached⟩,hwait w rfl,hat,hw⟩

theorem Process.Sure.run {p : Process α} (h : p.Sure safe post q) (hs : s.At i q)
    (hm : m.givenUp = false) : ∃ q', Course i safe post s.connection (p.run m s) q' := by
  induction p generalizing s q with
  | done a => exact ⟨q,h,hs,.refl i _⟩
  | note e next ih => exact ih (s := s.note e) h ⟨hs.1,hs.2,hs.3,hs.4⟩
  | guard e next ih => exact ih (s := { s with guards := e :: s.guards }) h ⟨hs.1,hs.2,hs.3,hs.4⟩
  | unguard next ih => exact ih (s := { s with guards := s.guards.tail }) h ⟨hs.1,hs.2,hs.3,hs.4⟩
  | pause w next ih =>
    unfold Process.run
    split
    · exact ih h.2 hs
    · exact ⟨q,h,hs,.refl i _⟩
  | complete next ih => exact hs.course_complete (ih h)
  | call k next ih =>
    obtain ⟨t,hk,hl⟩ := h
    obtain rfl := hs.stream
    rw [Process.run_call,hm]
    exact hs.course_afterCall (Duty.comes_call hk hs.stands) (Connection.works_call k) hl
      fun x s q hx hat => ih x hx hat
  | chunk max next ih =>
    obtain ⟨a,b⟩ := q
    cases b with
    | true =>
      rw [Process.run_chunk max next (hs.attached rfl),hm]
      exact hs.course_afterCall (Duty.comes_call (k := .read (.chunk max)) rfl hs.stands)
        (Connection.works_call (.read (.chunk max))) h fun x s q hx hat => ih _ hx hat
    | false =>
      rw [Process.run]
      rcases hs.detached rfl with hcontent | hcontent
      all_goals
        have htake : s.payload.takeChunk max = (none,s.payload) := by
          simp [Payload.takeChunk,hcontent]
        rw [hcontent]
        rw [htake]
        exact ih _ h hs
  | all next ih =>
    obtain ⟨a,b⟩ := q
    cases b with
    | true =>
      rw [Process.run_all next (hs.attached rfl),hm]
      refine hs.course_afterCall (Duty.comes_call (k := .read (.toEnd [])) rfl hs.stands)
        (Connection.works_call (.read (.toEnd [])))
        (Duty.Leads.mono h (fun _ h => h) fun x a hn => ?_)
        fun x s q hx hat => ?_
      · exact .afterAll hn.1 hn.2
      · unfold Process.afterAll at hx ⊢
        split at hx
        · exact hat.course_complete (ih _ hx)
        · exact ih _ hx hat
    | false =>
      rw [Process.run]
      rcases hs.detached rfl with hcontent | hcontent
      all_goals
        have htake : s.payload.takeAll.1 = [] := by simp [Payload.takeAll,hcontent]
        rw [hcontent]
        rw [htake]
        exact hs.course_complete (ih _ h)

theorem Halted.Sure.resume (hp : h.Sure i safe post q) (hs : s.At i q) (hm : m.givenUp = false)
    (hr : h.resume m s = some r) : ∃ q', Course i safe post s.connection r q' := by
  cases h with
  | done a => cases hr
  | paused hold next =>
    dsimp only [Halted.resume] at hr
    split at hr
    · cases hr
      exact hp.2.run hs hm
    · cases hr
  | calling w next =>
    obtain ⟨-,t,haw,hl⟩ := hp
    rw [Halted.resume_calling,hm] at hr
    obtain ⟨x,hwake,rfl⟩ := Option.map_eq_some_iff.mp hr
    rw [Connection.eq_resume_of_wake hwake]
    exact hs.course_afterCall (Duty.comes_resume haw hs.stands) (Connection.works_resume haw) hl
      fun x s q hx hat => hx.run hat hm

theorem Halted.Sure.ages {q' : Post} (hp : h.Sure i safe post q) (hq : q.Ages q') (hs : Steady safe)
    (hl : ∀ a, Steady (post a)) : h.Sure i safe post q' := by
  cases h with
  | done a => exact hl a q q' hp hq
  | paused hold next => exact ⟨hs q q' hp.1 hq,hp.2.ages hq hs hl⟩
  | calling w next =>
    obtain ⟨hsafe,t,haw,hleads⟩ := hp
    refine ⟨hs q q' hsafe hq,t,haw,?_⟩
    rw [hq.attached]
    exact hleads.becomes (t.becomes_of_ages hq.standing)

end Run

end Rpc

end Multiplex
