import Multiplex.Proofs.Draining
import Multiplex.Proofs.Greeting
import Multiplex.Proofs.Lifecycle

/-!
What it means that an end has closed in order: one CLOSE went each way, and all that it had queued
was written before it shut its pipe down.
-/

namespace Multiplex

open Connection

namespace Endpoint

variable {e e' : Endpoint} {out out' inn inn' : Pipe} {now : Nat}

/-- What a step of an end is to its writer. -/
inductive Scribes (e : Endpoint) (out inn : Pipe) (e' : Endpoint) (out' : Pipe) : Prop
  /-- Nothing. This is where the end of the input is noted. -/
  | rest (taken : e'.connection.journal.taken = e.connection.journal.taken)
      (shut : e'.connection.writesShut = e.connection.writesShut)
      (reads : e'.connection.readEnded = e.connection.readEnded ∨ inn.ended = true)
      (same : ∀ r', e'.stage = .running r' → ∃ r, e.stage = .running r ∧ r'.batch = r.batch)
      (gone : e.stage = .gone → e'.stage = .gone) (buffer : out'.buffer = out.buffer)
      (closed : out'.closed = out.closed)
  /-- The opening goes on. -/
  | greet (early : e.connection.phase = .connecting) (hold : Withholds e.connection e'.connection)
      (fresh : ∀ r', e'.stage = .running r' → r'.batch = none) (here : e.stage ≠ .gone) (bs : Bytes)
      (buffer : out'.buffer = out.buffer ++ bs) (closed : out'.closed = out.closed)
  /-- The pipes are let go. -/
  | leave (hold : Withholds e.connection e'.connection) (gone : e'.stage = .gone)
      (buffer : out'.buffer = out.buffer)
  | write {r r' : Running} {b : Batch} {bs rest : Bytes} (live : e.connection.phase ≠ .closed)
      (stage : e.stage = .running r) (batch : r.batch = some b)
      (hold : Withholds e.connection e'.connection) (stage' : e'.stage = .running r')
      (bytes : b.bytes = bs ++ rest) (left : r'.batch.elim [] (·.bytes) = rest)
      (buffer : out'.buffer = out.buffer ++ bs) (closed : out'.closed = out.closed)
  | ship {r r' : Running} {b : Batch} (live : e.connection.phase ≠ .closed)
      (stage : e.stage = .running r) (batch : r.batch = none)
      (taken : e.connection.takeBatch = (some b, e'.connection)) (stage' : e'.stage = .running r')
      (batch' : r'.batch = some b) (buffer : out'.buffer = out.buffer)
      (closed : out'.closed = out.closed)
  | shut {r : Running} (live : e.connection.phase ≠ .closed) (stage : e.stage = .running r)
      (batch : r.batch = none) (ready : e.connection.readyToShut = true)
      (connection : e'.connection = e.connection.writesShutDown) (stage' : e'.stage = .running r)
      (buffer : out'.buffer = out.buffer) (closed : out'.closed = true)

namespace Scribes

theorem refl (e : Endpoint) (out inn : Pipe) : Scribes e out inn e out :=
  .rest rfl rfl (.inl rfl) (fun r hr => ⟨r,hr,rfl⟩) id rfl rfl

theorem hold {c : Connection} {connected : Option (Except Failure Settings)}
    (h : Withholds e.connection c) (buffer : out'.buffer = out.buffer)
    (closed : out'.closed = out.closed) :
    Scribes e out inn { e with connection := c, connected } out' :=
  .rest h.taken h.writesShut (.inl h.readEnded) (fun r hr => ⟨r,hr,rfl⟩) id buffer closed

theorem rerun {r r' : Running} {c : Connection} (hr : e.stage = .running r)
    (hb : r'.batch = r.batch) (taken : c.journal.taken = e.connection.journal.taken)
    (shut : c.writesShut = e.connection.writesShut)
    (reads : c.readEnded = e.connection.readEnded ∨ inn.ended = true) :
    Scribes e out inn { e with connection := c, stage := .running r' } out := by
  refine .rest taken shut reads (fun r₁ hr₁ => ?_) (fun hg => ?_) rfl rfl
  · cases hr₁
    exact ⟨r,hr,hb⟩
  · cases hr.symm.trans hg

theorem room {n : Nat} {inn₀ : Pipe} (h : Scribes e (out.withRoom n) inn₀ e' out')
    (hend : inn₀.ended = true → inn.ended = true) : Scribes e out inn e' out' := by
  cases h with
  | rest taken shut reads same gone buffer closed =>
    exact .rest taken shut (reads.imp id hend) same gone buffer closed
  | greet early hold fresh here bs buffer closed =>
    exact .greet early hold fresh here bs buffer closed
  | leave hold gone buffer => exact .leave hold gone buffer
  | write live stage batch hold stage' bytes left buffer closed =>
    exact .write live stage batch hold stage' bytes left buffer closed
  | ship live stage batch taken stage' batch' buffer closed =>
    exact .ship live stage batch taken stage' batch' buffer closed
  | shut live stage batch ready connection stage' buffer closed =>
    exact .shut live stage batch ready connection stage' buffer closed

end Scribes

theorem Pulls.scribes (h : e.Staged) (hx : Pulls e now out inn e' out' inn') :
    Scribes e out inn e' out' := by
  cases hx with
  | leave =>
    unfold Endpoint.letGo
    split <;> exact .leave (.refl _) rfl rfl
  | next live stage step =>
    obtain ⟨bs,hb,hc⟩ := (Opening.step_plods step).out
    exact .greet (h.opening stage live).1 (.refl _) (by simp) (by simp [stage]) bs hb hc
  | refuse live stage step =>
    obtain ⟨bs,hb,hc⟩ := (Opening.step_plods step).out
    exact .greet (h.opening stage live).1 (kept_abort _ _).withholds (by simp [failConnect,stage])
      (by simp [stage]) bs hb hc
  | @establish _ _ peer inbox _ _ live stage step =>
    obtain ⟨bs,hb,hc⟩ := (Opening.step_plods step).out
    have hw := withholds_receive { e.connection with peer, phase := .active } now inbox
    refine .greet (h.opening stage live).1 { hw with } ?_ (by simp [stage])
      bs hb hc
    intro r' hr'
    cases hr'
    rfl
  | late | idle => exact .hold (kept_abort _ _).withholds rfl rfl
  | @takeIn r _ _ stage =>
    have hw := e.connection.withholds_receive now (r.inbox ++ inn.buffer)
    exact .rerun stage rfl hw.taken hw.writesShut (.inl hw.readEnded)
  | endInput _ stage _ ended =>
    rcases moves_endOfInput e.connection with hm | ⟨-,hm⟩
    · have hw := Moves.kept hm
      exact .rerun stage rfl hw.taken hw.writesShut (.inr ended)
    · have hw := Moves.kept hm
      exact .rerun stage rfl hw.taken hw.writesShut (.inr ended)
  | beat _ stage =>
    have hw := (Move.say (c := e.connection) (.inl ⟨pingPayload now,rfl⟩)).kept
    exact .rerun stage rfl hw.taken hw.writesShut (.inl hw.readEnded)

theorem Pushes.scribes (h : Pushes e out e' out') : Scribes e out inn e' out' := by
  cases h with
  | broken => exact .hold (kept_abort _ _).withholds rfl rfl
  | @complete _ b _ live stage batch written =>
    obtain ⟨bs,he,hbuf,hc,-⟩ := Pipe.write_spec written
    exact .write live stage batch (Moves.kept (moves_batchWritten _ b)).withholds rfl he rfl hbuf hc
  | write live stage batch written =>
    obtain ⟨bs,he,hbuf,hc,-⟩ := Pipe.write_spec written
    exact .write live stage batch (.refl _) rfl he rfl hbuf hc
  | ship live stage batch taken => exact .ship live stage batch taken rfl rfl rfl rfl
  | shut live stage batch ready => exact .shut live stage batch ready rfl stage rfl rfl

end Endpoint

namespace Station

open Endpoint

variable {s : Station} {e : Endpoint}

theorem Serves.scribes (h : Serves s e) (out inn : Pipe) : Scribes s.endpoint out inn e out := by
  cases h with
  | evolve h => exact .hold h.withholds rfl rfl
  | cancel => exact .hold (kept_abort _ _).withholds rfl rfl
  | connect h =>
    cases connects_of_connect h with
    | start _ stage => exact .rest rfl rfl (.inl rfl) (by simp) (by simp [stage]) rfl rfl
    | fail => exact .hold (kept_abort _ _).withholds rfl rfl

theorem act_scribes (h : s.endpoint.Staged) (out inn : Pipe) (e : Event) :
    Scribes s.endpoint out inn (s.act out inn e).1.endpoint (s.act out inn e).2.1 := by
  have ha := s.acted out inn e
  generalize s.act out inn e = r at ha
  cases ha with
  | rest => exact .refl _ _ _
  | leave => exact .leave (.refl _) rfl rfl
  | pull hx => exact (hx.scribes h).room Pipe.ended_of_front
  | push hx => exact hx.scribes.room id
  | serve => exact (s.serve_serves e).scribes out inn

def wrote (s : Station) (t : Step) : Bytes :=
  (s.act t.out t.inn t.event).2.1.buffer.drop t.out.buffer.length

def output (s : Station) : List Step → Bytes
  | [] => []
  | t :: steps => s.wrote t ++ output (s.step t) steps

theorem output_append (s : Station) (steps more : List Step) :
    s.output (steps ++ more) = s.output steps ++ (s.run steps).output more := by
  induction steps generalizing s with
  | nil => rfl
  | cons t steps ih =>
    rw [List.cons_append,output,output,ih,List.append_assoc]
    rfl

theorem output_concat (s : Station) (steps : List Step) (t : Step) :
    s.output (steps ++ [t]) = s.output steps ++ (s.run steps).wrote t := by
  rw [output_append,output,output,List.append_nil]

theorem wrote_of_eq {s : Station} {t : Step} {bs : Bytes}
    (h : (s.act t.out t.inn t.event).2.1.buffer = t.out.buffer ++ bs) : s.wrote t = bs := by
  rw [wrote,h,List.drop_left]

theorem act_buffer (h : s.endpoint.Staged) (t : Step) :
    (s.act t.out t.inn t.event).2.1.buffer = t.out.buffer ++ s.wrote t := by
  have happend (bs : Bytes) (hb : (s.act t.out t.inn t.event).2.1.buffer = t.out.buffer ++ bs) :
      (s.act t.out t.inn t.event).2.1.buffer = t.out.buffer ++ s.wrote t := by
    rw [wrote_of_eq hb,hb]
  cases act_scribes h t.out t.inn t.event with
  | greet _ _ _ _ bs buffer => exact happend bs buffer
  | write _ _ _ _ _ _ _ buffer => exact happend _ buffer
  | rest _ _ _ _ _ buffer => exact happend [] (by simpa using buffer)
  | leave _ _ buffer => exact happend [] (by simpa using buffer)
  | ship _ _ _ _ _ _ buffer => exact happend [] (by simpa using buffer)
  | shut _ _ _ _ _ _ buffer => exact happend [] (by simpa using buffer)

end Station

namespace Endpoint

variable {e e' : Endpoint} {out out' inn : Pipe} {written : Bytes}

/-- What the frames are on the wire that the writer took. -/
def spelled (e : Endpoint) : Bytes := e.connection.journal.wire.flatMap Frame.encode

/-- The writer has written what it took, up to what is left of its batch. -/
structure Penned (e : Endpoint) (written : Bytes) : Prop where
  running : ∀ r, e.stage = .running r → e.spelled <:+ written ++ r.batch.elim [] (·.bytes)
  early : e.connection.phase = .connecting → e.connection.journal.taken = []
  shut : e.connection.writesShut = true →
    e.spelled <:+ written ∧ ∀ r, e.stage = .running r → r.batch = none

theorem spelled_of_eq (h : e'.connection.journal.taken = e.connection.journal.taken) :
    e'.spelled = e.spelled := by
  unfold spelled Journal.wire
  rw [h]

theorem spelled_of_taken {b : Batch} (h : e.connection.takeBatch = (some b, e'.connection)) :
    e'.spelled = e.spelled ++ b.bytes := by
  obtain ⟨_,-,hc⟩ := takeBatch_spec h
  unfold spelled
  rw [hc,Journal.wire_noteTaken,List.flatMap_append,← takeBatch_bytes h]

theorem writesShutDown_journal (c : Connection) : c.writesShutDown.journal = c.journal := by
  unfold writesShutDown finishIfClosed
  split <;> rfl

theorem writesShutDown_writesShut (c : Connection) : c.writesShutDown.writesShut = true := by
  unfold writesShutDown finishIfClosed
  split <;> rfl

theorem Penned.of_running {r : Running} (stage : e.stage = .running r)
    (run : e.spelled <:+ written ++ r.batch.elim [] (·.bytes))
    (late : e.connection.phase ≠ .connecting)
    (idle : e.connection.writesShut = true → r.batch = none) : Penned e written := by
  refine ⟨fun r' hr' => ?_,fun hx => absurd hx late,fun hx => ?_⟩
  · cases stage.symm.trans hr'
    exact run
  · rw [idle hx,Option.elim_none,List.append_nil] at run
    refine ⟨run,fun r' hr' => ?_⟩
    cases stage.symm.trans hr'
    exact idle hx

/-- What a step of the end writes is the next part of what its writer took. -/
theorem Penned.scribes {bs : Bytes} (h : Penned e written) (hs : Scribes e out inn e' out')
    (hst : e.Staged)
    (hback : e'.connection.phase = .connecting → e.connection.phase = .connecting)
    (hempty : e.connection.writesShut = true →
      e.connection.controlQueue = [] ∧ e.connection.dataQueue = [])
    (hb : out'.buffer = out.buffer ++ bs) : Penned e' (written ++ bs) := by
  have hnone (hx : out'.buffer = out.buffer) : bs = [] := by
    rw [hx] at hb
    exact List.self_eq_append_right.mp hb
  have hlate {r : Running} (hr : e.stage = .running r) : e'.connection.phase ≠ .connecting :=
    fun hx => hst.established r hr (hback hx)
  cases hs with
  | rest taken shut _ same _ buffer =>
    rw [hnone buffer,List.append_nil]
    refine ⟨fun r' hr' => ?_,fun hx => taken.trans (h.early (hback hx)),fun hx => ?_⟩
    · obtain ⟨r,hr,hbatch⟩ := same r' hr'
      rw [spelled_of_eq taken,hbatch]
      exact h.running r hr
    · obtain ⟨hsuffix,hidle⟩ := h.shut (shut.symm.trans hx)
      rw [spelled_of_eq taken]
      refine ⟨hsuffix,fun r' hr' => ?_⟩
      obtain ⟨r,hr,hbatch⟩ := same r' hr'
      exact hbatch.trans (hidle r hr)
  | greet early hold fresh =>
    have hspelled : e'.spelled = [] := by
      rw [spelled_of_eq hold.taken]
      simp [spelled,Journal.wire,h.early early]
    refine ⟨fun r' _ => ?_,fun hx => hold.taken.trans (h.early (hback hx)),fun _ => ?_⟩
    · rw [hspelled]
      exact List.nil_suffix
    · rw [hspelled]
      exact ⟨List.nil_suffix,fresh⟩
  | leave hold gone buffer =>
    rw [hnone buffer,List.append_nil]
    refine ⟨fun r' hr' => ?_,fun hx => hold.taken.trans (h.early (hback hx)),fun hx => ?_⟩
    · cases gone.symm.trans hr'
    · rw [spelled_of_eq hold.taken]
      refine ⟨(h.shut (hold.writesShut.symm.trans hx)).1,fun r' hr' => ?_⟩
      cases gone.symm.trans hr'
  | write live stage batch hold stage' bytes left buffer =>
    obtain rfl := List.append_cancel_left (buffer.symm.trans hb)
    have hrun := h.running _ stage
    rw [batch,Option.elim_some,bytes,← left,← List.append_assoc,← spelled_of_eq hold.taken] at hrun
    refine .of_running stage' hrun (hlate stage) fun hx => ?_
    have hidle := (h.shut (hold.writesShut.symm.trans hx)).2 _ stage
    cases batch.symm.trans hidle
  | ship live stage batch taken stage' batch' buffer =>
    rw [hnone buffer,List.append_nil]
    refine .of_running stage' ?_ (hlate stage) fun hx => ?_
    · obtain ⟨before,hbefore⟩ := h.running _ stage
      rw [batch,Option.elim_none,List.append_nil] at hbefore
      rw [spelled_of_taken taken,batch',Option.elim_some]
      exact ⟨before,by rw [← List.append_assoc,hbefore]⟩
    · obtain ⟨_,_,_,hc⟩ := takeBatch_eq taken
      rw [hc] at hx
      obtain ⟨hk,hd⟩ := hempty hx
      simp [takeBatch,queuesEmpty,hk,hd] at taken
  | shut live stage batch ready connection stage' buffer =>
    rw [hnone buffer,List.append_nil]
    have hspelled : e'.spelled = e.spelled := by
      unfold spelled
      rw [connection,writesShutDown_journal]
    refine .of_running stage' ?_ (hlate stage) fun _ => batch
    rw [hspelled]
    exact h.running _ stage

theorem Penned.mute (h : Penned e written) (hs : Scribes e out inn e' out')
    (hd : e.connection.Drained) (hsound : e.connection.Sound)
    (hw : e.connection.writesShut = true) : out'.buffer = out.buffer := by
  obtain ⟨hshut,hk,hq⟩ := hd.shut hw
  cases hs with
  | rest _ _ _ _ _ buffer => exact buffer
  | leave _ _ buffer => exact buffer
  | ship _ _ _ _ _ _ buffer => exact buffer
  | shut _ _ _ _ _ _ buffer => exact buffer
  | greet early =>
    rcases hsound.shut hshut with hx | hx <;> rw [early] at hx <;> cases hx
  | write _ stage batch =>
    cases ((h.shut hw).2 _ stage).symm.trans batch

section

variable (hs : Scribes e out inn e' out')

include hs

/-- An end that has let go of its pipes, and has not shut its writer down before, never does. -/
theorem Scribes.forsaken (h : e.stage = .gone ∧ e.connection.writesShut = false) :
    e'.stage = .gone ∧ e'.connection.writesShut = false := by
  obtain ⟨hg,hw⟩ := h
  cases hs with
  | rest _ shut _ _ gone => exact ⟨gone hg,shut.trans hw⟩
  | leave hold gone => exact ⟨gone,hold.writesShut.trans hw⟩
  | greet _ _ _ here => exact absurd hg here
  | write _ stage => rw [hg] at stage; cases stage
  | ship _ stage => rw [hg] at stage; cases stage
  | shut _ stage => rw [hg] at stage; cases stage

theorem Scribes.closing (h : out'.closed ≠ out.closed) :
    e'.stage = .gone ∨ e'.connection.writesShut = true := by
  cases hs with
  | leave _ gone => exact .inl gone
  | shut _ _ _ _ connection =>
    rw [connection]
    exact .inr (writesShutDown_writesShut _)
  | rest _ _ _ _ _ _ closed => exact absurd closed h
  | greet _ _ _ _ _ _ closed => exact absurd closed h
  | write _ _ _ _ _ _ _ _ closed => exact absurd closed h
  | ship _ _ _ _ _ _ _ closed => exact absurd closed h

theorem Scribes.shuts (hw : e.connection.writesShut = false)
    (hw' : e'.connection.writesShut = true) : out'.closed = true ∧ out'.buffer = out.buffer := by
  have hsame (same : e'.connection.writesShut = e.connection.writesShut) : False := by
    rw [same,hw] at hw'
    cases hw'
  cases hs with
  | shut _ _ _ _ _ _ buffer closed => exact ⟨closed,buffer⟩
  | ship _ _ _ taken =>
    obtain ⟨_,_,_,hc⟩ := takeBatch_eq taken
    rw [hc,hw] at hw'
    cases hw'
  | rest _ same => exact (hsame same).elim
  | greet _ hold => exact (hsame hold.writesShut).elim
  | leave hold => exact (hsame hold.writesShut).elim
  | write _ _ _ hold => exact (hsame hold.writesShut).elim

theorem Scribes.ends (hr : e.connection.readEnded = false) (hr' : e'.connection.readEnded = true) :
    inn.ended = true := by
  have hsame (same : e'.connection.readEnded = e.connection.readEnded) : inn.ended = true := by
    rw [same,hr] at hr'
    cases hr'
  cases hs with
  | rest _ _ reads => exact reads.elim hsame id
  | greet _ hold => exact hsame hold.readEnded
  | leave hold => exact hsame hold.readEnded
  | write _ _ _ hold => exact hsame hold.readEnded
  | ship _ _ _ taken =>
    obtain ⟨_,_,_,hc⟩ := takeBatch_eq taken
    exact hsame (by rw [hc])
  | shut _ _ _ ready connection =>
    rw [connection] at hsame
    exact hsame (Moves.fades (moves_writesShutDown ready)).readEnded

end

end Endpoint

namespace Station

open Endpoint

theorem turning (s : Station) (flag : Station → Bool) (steps : List Step) (h₀ : flag s = false)
    (h₁ : flag (s.run steps) = true) :
    ∃ before t after, steps = before ++ t :: after ∧ flag (s.run before) = false ∧
      flag (s.run (before ++ [t])) = true := by
  induction steps using List.reverseRecOn with
  | nil =>
    rw [run,List.foldl_nil,h₀] at h₁
    cases h₁
  | append_singleton steps t ih =>
    cases hx : flag (s.run steps) with
    | false => exact ⟨steps,t,[],rfl,hx,h₁⟩
    | true =>
      obtain ⟨before,u,after,rfl,hb,ha⟩ := ih hx
      exact ⟨before,u,after ++ [t],by simp,hb,ha⟩

namespace Fresh

variable {s : Station} (h : s.Fresh)

include h

theorem drained {steps : List Step} (hn : (s.run steps).connection.Numbered) :
    (s.run steps).connection.Drained :=
  (h.deeds steps).drained (h.connection drained_fresh) (h.connection sound_fresh) hn

theorem penned {steps : List Step} (hn : (s.run steps).connection.Numbered) :
    Penned (s.run steps).endpoint (s.output steps) := by
  induction steps using List.reverseRecOn with
  | nil =>
    cases h
    exact ⟨nofun,fun _ => rfl,nofun⟩
  | append_singleton steps t ih =>
    have hn' := h.numbered hn
    have hstaged := h.staged steps
    have hdrained := h.drained hn'
    have hrank := (h.deeds_more steps [t]).rank_le
    rw [output_concat]
    rw [run_concat] at hrank ⊢
    refine (ih hn').scribes (act_scribes hstaged t.out t.inn t.event) hstaged (fun hx => ?_)
      (fun hw => (hdrained.shut hw).2) (act_buffer hstaged t)
    change (s.run steps).connection.phase.rank ≤ _ at hrank
    change ((s.run steps).step t).connection.phase = _ at hx
    rw [hx] at hrank
    exact Phase.rank_eq_zero.mp (Nat.le_zero.mp hrank)

theorem output_of_shut (steps more : List Step) (hn : (s.run (steps ++ more)).connection.Numbered)
    (hw : (s.run steps).connection.writesShut = true) : (s.run steps).output more = [] := by
  induction more using List.reverseRecOn with
  | nil => rfl
  | append_singleton more t ih =>
    rw [← List.append_assoc] at hn
    have hn' := h.numbered hn
    have hmute := (h.penned hn').mute
      (act_scribes (h.staged (steps ++ more)) t.out t.inn t.event) (h.drained hn') (h.sound hn')
      ((h.deeds_more steps more).shut hw)
    rw [output_concat,ih hn',← run_append,List.nil_append]
    exact wrote_of_eq (by rw [hmute,List.append_nil])

theorem forsaken (steps more : List Step)
    (hs : (s.run steps).endpoint.stage = .gone ∧ (s.run steps).connection.writesShut = false) :
    (s.run (steps ++ more)).connection.writesShut = false := by
  have hboth : (s.run (steps ++ more)).endpoint.stage = .gone ∧
      (s.run (steps ++ more)).connection.writesShut = false := by
    induction more using List.reverseRecOn with
    | nil =>
      rw [List.append_nil]
      exact hs
    | append_singleton more t ih =>
      rw [← List.append_assoc,run_concat]
      exact (act_scribes (h.staged (steps ++ more)) t.out t.inn t.event).forsaken ih
  exact hboth.2

/-- Up to the step that shuts the writer down, the pipe is as it was. -/
theorem closed_of_unshut {before : List Step} (p : List Step) (u : Step) (q : List Step)
    (hsplit : before = p ++ u :: q) (more : List Step)
    (hb : (s.run before).connection.writesShut = false)
    (hw : (s.run (before ++ more)).connection.writesShut = true) :
    ((s.run p).act u.out u.inn u.event).2.1.closed = u.out.closed := by
  by_contra hx
  subst hsplit
  have hstep : p ++ u :: q = (p ++ [u]) ++ q := by simp
  have hunshut : (s.run (p ++ [u])).connection.writesShut = false := by
    by_contra hy
    rw [hstep,(h.deeds_more (p ++ [u]) q).shut (by simpa using hy)] at hb
    cases hb
  rcases (act_scribes (h.staged p) u.out u.inn u.event).closing hx with hg | hy
  · have hforsaken := h.forsaken (p ++ [u]) (q ++ more) ⟨by rw [run_concat]; exact hg,hunshut⟩
    rw [← List.append_assoc,← hstep,hw] at hforsaken
    cases hforsaken
  · rw [run_concat] at hunshut
    exact absurd (hy.symm.trans hunshut) (by simp)

/-- What an end has written by the time its writer shuts down is all that the writer took. -/
theorem shutdown (steps more : List Step) (hn : (s.run (steps ++ more)).connection.Numbered)
    (hw : (s.run steps).connection.writesShut = true) :
    ∃ before t after, steps = before ++ t :: after ∧
      (∀ p u q, before = p ++ u :: q →
        ((s.run p).act u.out u.inn u.event).2.1.closed = u.out.closed) ∧
      ((s.run before).act t.out t.inn t.event).2.1.closed = true ∧
      (s.run steps).endpoint.spelled <:+ s.output before ∧
      (s.run before).output (t :: after ++ more) = [] := by
  obtain ⟨before,t,after,rfl,hb,ha⟩ :=
    turning s (·.connection.writesShut) steps (by cases h; rfl) hw
  have hsplit : before ++ t :: after = (before ++ [t]) ++ after := by simp
  have hscribes := act_scribes (h.staged before) t.out t.inn t.event
  rw [run_concat] at ha
  obtain ⟨hclosed,hbuffer⟩ := hscribes.shuts hb ha
  have hwrote : (s.run before).wrote t = [] := wrote_of_eq (by rw [hbuffer,List.append_nil])
  have hn₁ := h.numbered hn
  rw [hsplit] at hn₁
  have hn₂ := h.numbered hn₁
  refine ⟨before,t,after,rfl,fun p u q hp => ?_,hclosed,?_,?_⟩
  · exact h.closed_of_unshut p u q hp (t :: after) hb hw
  · -- nothing is taken after the shutdown
    have htaken := (h.deeds_more (before ++ [t]) after).taken (h.drained hn₂) (h.sound hn₂) hn₁
      (by rw [run_concat]; exact ha)
    have hpenned := (h.penned hn₂).shut (by rw [run_concat]; exact ha)
    rw [output_concat,hwrote,List.append_nil] at hpenned
    have hsame : (s.run (before ++ t :: after)).endpoint.spelled =
        (s.run (before ++ [t])).endpoint.spelled := by
      rw [hsplit]
      exact congrArg (fun taken => (taken.reverse.map (·.frame)).flatMap Frame.encode) htaken
    rw [hsame]
    exact hpenned.1
  · have hrest := h.output_of_shut (before ++ [t]) (after ++ more)
      (by rw [← List.append_assoc,← hsplit]; exact hn) (by rw [run_concat]; exact ha)
    rw [run_concat] at hrest
    rw [List.cons_append,output,hwrote,hrest]
    rfl

theorem ended (steps : List Step) (hr : (s.run steps).connection.readEnded = true) :
    ∃ before t after, steps = before ++ t :: after ∧
      (s.run before).connection.readEnded = false ∧ t.inn.ended = true := by
  obtain ⟨before,t,after,rfl,hb,ha⟩ :=
    turning s (·.connection.readEnded) steps (by cases h; rfl) hr
  rw [run_concat] at ha
  have hscribes := act_scribes (h.staged before) t.out t.inn t.event
  exact ⟨before,t,after,rfl,hb,hscribes.ends hb ha⟩

end Fresh

variable (role : Role) (options : Options) (codes : CodeSpace) (channel : Channel)

/-- A connection that is closed without an error has said CLOSE once and has heard it once, with the
end of its input. No stream is in use, and nothing waits: what was queued was written, and only then
the pipe was shut down, except for frames of streams that were reset. From then on nothing is queued
or written. -/
theorem graceful_closed (steps more : List Step)
    (hn : ((fresh role options codes channel).run steps).connection.Numbered)
    (hg : ((fresh role options codes channel).run steps).connection.Graceful) :
    let s := fresh role options codes channel
    let c := (s.run steps).connection
    let later := (s.run (steps ++ more)).connection
    (c.journal.wire.countP Frame.isClose = 1 ∧ c.journal.hearing.countP Frame.isClose = 1) ∧
    (c.readEnded = true ∧ ∃ before t after, steps = before ++ t :: after ∧
      (s.run before).connection.readEnded = false ∧ t.inn.ended = true) ∧
    (c.table = [] ∧ c.controlQueue = [] ∧ c.dataQueue = []) ∧
    (∃ ks ds, c.Account ks ds ∧ (∀ f x, (f, x) ∈ ks → x = .taken) ∧
      ∀ q x, (q, x) ∈ ds → x = .taken ∨ x = .purged ∧ c.TakenBack q) ∧
    (∃ before t after, steps = before ++ t :: after ∧
      (∀ p u q, before = p ++ u :: q →
        ((s.run p).act u.out u.inn u.event).2.1.closed = u.out.closed) ∧
      ((s.run before).act t.out t.inn t.event).2.1.closed = true ∧
      c.journal.wire.flatMap Frame.encode <:+ s.output before ∧
      (s.run before).output (t :: after ++ more) = []) ∧
    later.journal.control = c.journal.control ∧ later.journal.data = c.journal.data ∧
    later.journal.wire = c.journal.wire ∧ later.controlQueue = [] ∧ later.dataQueue = [] := by
  intro s c later
  have hfresh : s.Fresh := .intro role options codes channel
  have hsound : c.Sound := hfresh.sound hn
  have hdrained : c.Drained := hfresh.drained hn
  obtain ⟨ks,ds,haccount⟩ : c.Accounted :=
    (accounted_fresh role options codes).deeds (hfresh.deeds steps)
      (sound_fresh role options codes) hn
  have hmore : Deeds _ c later := hfresh.deeds_more steps more
  obtain ⟨hw,hr⟩ := hdrained.done hg.1 hg.2
  obtain ⟨-,hk,hd⟩ := hdrained.shut hw
  -- a closed connection opens no streams
  have hn' : later.Numbered := by
    unfold Numbered
    rw [(hmore.frozen (.inr hg.1)).1.nextLocal]
    exact hn
  have hhushed := hmore.hushed hsound hn' (.inl hg.1)
  refine ⟨hg.closes hdrained haccount,⟨hr,hfresh.ended steps hr⟩,
    ⟨hsound.still (.inl hg.1),hk,hd⟩,⟨ks,ds,haccount,hg.fates hdrained haccount⟩,
    hfresh.shutdown steps more hn' hw,hhushed.control,hhushed.data,?_,?_,?_⟩
  · unfold Journal.wire
    rw [hmore.taken hdrained hsound hn' hw]
  · exact List.sublist_nil.mp (hk ▸ hhushed.controlQueue)
  · exact List.sublist_nil.mp (hd ▸ hhushed.dataQueue)

/-- Two streams are opened. The second is reset with its data still queued, and the first ends only
after this end has closed. -/
def farewell : List Step :=
  meeting {} ++ [.quiet (.create .unidirectional), .quiet (.create .unidirectional),
    .quiet (.call false (.write 0 [1])), .quiet (.call false (.write 1 [2])), .quiet (.reset 1 7),
    .quiet (.call false (.close 0)), .quiet (.call false (.finish 0)), .quiet (.push 64),
    .quiet (.push 64), .hearing [.close 0], .quiet (.push 64), .quiet (.push 64),
    ⟨{ capacity := 0 }, { capacity := 0, closed := true }, .pull 0 0 0⟩]

theorem graceful_closed_farewell :
    let s := fresh .client {} .direct .plain
    let c := (s.run farewell).connection
    let more := [.quiet (.create .bidirectional), .quiet (.push 64)]
    let later := (s.run (farewell ++ more)).connection
    c.Numbered ∧ c.Graceful ∧
      c.journal.data.reverse.map (·.frame) =
        [.stream ⟨2⟩ false [1], .stream ⟨6⟩ false [2], .close 0, .stream ⟨2⟩ true []] ∧
      c.journal.wire = [.reset ⟨6⟩ 7, .stream ⟨2⟩ false [1], .close 0, .stream ⟨2⟩ true []] ∧
      (∃ before t after, farewell = before ++ t :: after ∧
        (s.run before).connection.readEnded = false ∧ t.inn.ended = true) ∧
      later.journal.wire = c.journal.wire ∧ later.controlQueue = [] ∧ later.dataQueue = [] := by
  intro s c more later
  have hn : c.Numbered := by decide +kernel
  have hg : c.Graceful := by constructor <;> decide +kernel
  have hclosed := graceful_closed .client {} .direct .plain farewell more hn hg
  obtain ⟨-,⟨-,hended⟩,-,-,-,-,-,hwire,hk,hd⟩ := hclosed
  exact ⟨hn,hg,by decide +kernel,by decide +kernel,hended,hwire,hk,hd⟩

end Station

end Multiplex
