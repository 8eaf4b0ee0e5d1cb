import Multiplex.Proofs.Graceful
import Multiplex.Proofs.Pending

/-!
What a flush of a stream says: what has been written to the pipe is the frames that count as written
and a part of those that the writer holds.
-/

namespace Multiplex

open Connection

namespace Endpoint

def Unready (e : Endpoint) : Prop := e.connection.phase ≠ .closed ∧ ∀ r, e.stage ≠ .running r

/-- What a step of an end is to the frames that its streams queue. At most the stream `here` queues
any. -/
inductive Dispatches (here : Option Nat) (e : Endpoint) (out : Pipe) (e' : Endpoint) (out' : Pipe) :
    Prop
  | rest (entries : Entries here e.connection e'.connection)
      (same : ∀ r', e'.stage = .running r' → ∃ r, e.stage = .running r ∧ r'.batch = r.batch)
      (back : e'.Unready → ∀ r, e.stage ≠ .running r) (buffer : out'.buffer = out.buffer)
  /-- The opening goes on. -/
  | greet (early : e.Unready) (entries : Entries here e.connection e'.connection)
      (fresh : ∀ r', e'.stage = .running r' → r'.batch = none) (bs : Bytes)
      (buffer : out'.buffer = out.buffer ++ bs)
  | ship {r r' : Running} {b : Batch} (stage : e.stage = .running r) (batch : r.batch = none)
      (taken : e.connection.takeBatch = (some b, e'.connection)) (stage' : e'.stage = .running r')
      (batch' : r'.batch = some b) (buffer : out'.buffer = out.buffer)
  | write {r r' : Running} {b : Batch} {bs rest : Bytes} (stage : e.stage = .running r)
      (batch : r.batch = some b) (bytes : b.bytes = bs ++ rest)
      (connection : e'.connection = e.connection) (stage' : e'.stage = .running r')
      (batch' : r'.batch = some { b with bytes := rest }) (buffer : out'.buffer = out.buffer ++ bs)
  /-- The last of a batch is written. -/
  | complete {r r' : Running} {b : Batch} (live : e.connection.phase ≠ .closed)
      (stage : e.stage = .running r) (batch : r.batch = some b)
      (connection : e'.connection = e.connection.batchWritten b) (stage' : e'.stage = .running r')
      (batch' : r'.batch = none) (buffer : out'.buffer = out.buffer ++ b.bytes)

section Dispatches

variable {here : Option Nat} {e e' : Endpoint} {out out' inn inn' : Pipe} {now : Nat}
  {c : Connection}

theorem dispatches_refl (e : Endpoint) (out : Pipe) : Dispatches here e out e out :=
  .rest .refl (fun r hr => ⟨r,hr,rfl⟩) (·.2) rfl

theorem Dispatches.hold {connected : Option (Except Failure Settings)}
    (h : Entries here e.connection c) (out : Pipe) :
    Dispatches here e out { e with connection := c, connected } out :=
  .rest h (fun r hr => ⟨r,hr,rfl⟩) (·.2) rfl

theorem Dispatches.rerun {r r' : Running} (h : Entries here e.connection c)
    (hr : e.stage = .running r) (out : Pipe) (hb : r'.batch = r.batch) :
    Dispatches here e out { e with connection := c, stage := .running r' } out := by
  refine .rest h (fun r₁ hr₁ => ?_) (fun hx => absurd rfl (hx.2 r')) rfl
  cases hr₁
  exact ⟨r,hr,hb⟩

theorem Dispatches.leave (hc : e'.connection = e.connection) (gone : e'.stage = .gone)
    (h : e.connection.phase = .closed ∨ ∀ r, e.stage ≠ .running r)
    (buffer : out'.buffer = out.buffer) : Dispatches here e out e' out' := by
  refine .rest (hc ▸ .refl) (fun r hr => ?_) (fun hx => h.resolve_left (hc ▸ hx.1)) buffer
  cases gone.symm.trans hr

theorem Pulls.dispatches (h : Pulls e now out inn e' out' inn') :
    Dispatches here e out e' out' := by
  have hreceive (c : Connection) (inbox : Bytes) : Entries here c (c.receive now inbox).1 :=
    (Runs.receive (fun _ => trivial) trivial trivial trivial now inbox).entries
  cases h with
  | leave closed =>
    unfold Endpoint.letGo
    split <;> exact .leave rfl rfl (.inl closed) rfl
  | next live stage step =>
    obtain ⟨bs,hb,-⟩ := (Opening.step_plods step).out
    exact .greet ⟨live,by simp [stage]⟩ .refl (by simp) bs hb
  | refuse live stage step =>
    obtain ⟨bs,hb,-⟩ := (Opening.step_plods step).out
    exact .greet ⟨live,by simp [stage]⟩ (Runs.abort trivial trivial _).entries
      (by simp [failConnect,stage]) bs hb
  | @establish _ _ peer inbox _ _ live stage step =>
    obtain ⟨bs,hb,-⟩ := (Opening.step_plods step).out
    have hmeet : Entries here e.connection { e.connection with peer, phase := .active } :=
      .single (.edit (.rest ⟨rfl,rfl,rfl,rfl,fun h => absurd h live⟩ rfl))
    refine .greet ⟨live,by simp [stage]⟩ ?_ ?_ bs hb
    · exact hmeet.trans (hreceive _ inbox)
    · intro r' hr'
      cases hr'
      rfl
  | late | idle => exact .hold (Runs.abort trivial trivial _).entries out
  | takeIn _ stage => exact .rerun (hreceive _ _) stage out (by rfl)
  | endInput _ stage =>
    exact .rerun (Runs.endOfInput trivial trivial trivial).entries stage out (by rfl)
  | beat _ stage => exact .rerun (Runs.enqueueControl .refl _).entries stage out (by rfl)

theorem Pushes.dispatches (h : Pushes e out e' out') : Dispatches here e out e' out' := by
  cases h with
  | broken => exact .hold (Runs.abort trivial trivial _).entries out
  | complete live stage batch written =>
    obtain ⟨bs,he,hbuf,-⟩ := Pipe.write_spec written
    rw [List.append_nil] at he
    exact .complete live stage batch rfl rfl rfl (he ▸ hbuf)
  | write _ stage batch written =>
    obtain ⟨bs,he,hbuf,-⟩ := Pipe.write_spec written
    exact .write stage batch he rfl rfl rfl hbuf
  | ship _ stage batch taken => exact .ship stage batch taken rfl rfl rfl
  | shut => exact .rest (Runs.writesShutDown trivial).entries (fun r' hr' => ⟨r',hr',rfl⟩) (·.2) rfl

theorem Dispatches.room {n : Nat} (h : Dispatches here e (out.withRoom n) e' out') :
    Dispatches here e out e' out' := by
  cases h with
  | rest entries same back buffer => exact .rest entries same back buffer
  | greet early entries fresh bs buffer => exact .greet early entries fresh bs buffer
  | ship stage batch taken stage' batch' buffer =>
    exact .ship stage batch taken stage' batch' buffer
  | write stage batch bytes connection stage' batch' buffer =>
    exact .write stage batch bytes connection stage' batch' buffer
  | complete live stage batch connection stage' batch' buffer =>
    exact .complete live stage batch connection stage' batch' buffer

end Dispatches

/-- What has been written is, after the greeting, the frames that count as written and a part of
those that the writer holds; the rest of these is in its batch. -/
structure Dispatched (e : Endpoint) (bytes : Bytes) : Prop where
  pending : e.connection.Pending
  early : e.Unready → e.connection.journal.taken = []
  wire : ∃ head part rest, bytes = head ++ spell e.connection.written ++ part ∧
    spell e.connection.held = part ++ rest ∧ ∀ r, e.stage = .running r →
      e.connection.held = r.batch.elim [] (·.frames) ∧ rest = r.batch.elim [] (·.bytes)

namespace Dispatched

variable {here : Option Nat} {e e' : Endpoint} {out out' : Pipe} {bytes bs : Bytes}

theorem of_running {r : Running} (head part rest : Bytes) (pending : e.connection.Pending)
    (stage : e.stage = .running r) (spelled : bytes = head ++ spell e.connection.written ++ part)
    (split : spell e.connection.held = part ++ rest)
    (batch : e.connection.held = r.batch.elim [] (·.frames) ∧ rest = r.batch.elim [] (·.bytes)) :
    Dispatched e bytes := by
  refine ⟨pending,fun hx => absurd stage (hx.2 r),head,part,rest,spelled,split,fun r' hr' => ?_⟩
  cases stage.symm.trans hr'
  exact batch

/-- A step writes the next part of what the writer holds. -/
theorem step (h : Dispatched e bytes) (hd : Dispatches here e out e' out')
    (hb : out'.buffer = out.buffer ++ bs) : Dispatched e' (bytes ++ bs) := by
  have hnone (hx : out'.buffer = out.buffer) : bytes ++ bs = bytes := by
    rw [hx] at hb
    rw [List.self_eq_append_right.mp hb,List.append_nil]
  obtain ⟨head,part,rest,hbytes,hsplit,hrun⟩ := h.wire
  cases hd with
  | rest entries same back buffer =>
    rw [hnone buffer]
    refine ⟨h.pending.entries entries,fun hx => ?_,head,part,rest,?_,?_,fun r' hr' => ?_⟩
    · exact entries.taken.1.trans (h.early ⟨mt entries.closed hx.1,back hx⟩)
    · rw [entries.written]
      exact hbytes
    · rw [entries.held]
      exact hsplit
    · obtain ⟨r,hr,hbatch⟩ := same r' hr'
      rw [entries.held,hbatch]
      exact hrun r hr
  | greet early entries fresh bs' buffer =>
    -- no frame was taken yet
    have htaken : e'.connection.journal.taken = [] := entries.taken.1.trans (h.early early)
    have hwritten : e'.connection.written = [] := by
      rw [written,htaken,List.reverse_nil,List.take_nil]
    have hheld : e'.connection.held = [] := by rw [held,htaken,List.reverse_nil,List.drop_nil]
    refine ⟨h.pending.entries entries,fun _ => htaken,bytes ++ bs,[],[],?_,?_,fun r' hr' => ?_⟩
    · simp [hwritten,spell]
    · simp [hheld,spell]
    · rw [fresh r' hr']
      exact ⟨hheld,rfl⟩
  | @ship r r' b stage batch taken stage' batch' buffer =>
    rw [hnone buffer]
    obtain ⟨hp,hwritten,hheld,-⟩ := h.pending.takeBatch taken
    obtain ⟨hidle,-⟩ := hrun r stage
    rw [batch,Option.elim_none] at hidle
    rw [hidle,List.nil_append] at hheld
    have hpart : part = [] := by
      rw [hidle] at hsplit
      exact (List.append_eq_nil_iff.mp hsplit.symm).1
    have hspell : b.bytes = spell b.frames := by
      rw [takeBatch_bytes taken,List.flatMap_map]
      rfl
    refine of_running head [] b.bytes hp stage' ?_ ?_ ?_
    · rw [hwritten,hbytes,hpart]
    · rw [hheld,hspell,List.nil_append]
    · rw [batch']
      exact ⟨hheld,rfl⟩
  | @write r r' b bs' rest' stage batch bytes' connection stage' batch' buffer =>
    obtain rfl := List.append_cancel_left (buffer.symm.trans hb)
    obtain ⟨hframes,hrest⟩ := hrun r stage
    rw [batch,Option.elim_some] at hframes hrest
    refine of_running head (part ++ bs') rest' (connection ▸ h.pending) stage' ?_ ?_ ?_
    · rw [connection,hbytes,List.append_assoc]
    · rw [connection,hsplit,hrest,bytes',List.append_assoc]
    · rw [connection,batch']
      exact ⟨hframes,rfl⟩
  | @complete r r' b live stage batch connection stage' batch' buffer =>
    obtain rfl := List.append_cancel_left (buffer.symm.trans hb)
    obtain ⟨hframes,hrest⟩ := hrun r stage
    rw [batch,Option.elim_some] at hframes hrest
    obtain ⟨hp,hwritten,hheld,-⟩ := h.pending.batchWritten hframes live
    rw [← connection] at hp hwritten hheld
    refine of_running head [] [] hp stage' ?_ ?_ ?_
    · have hspell : spell (e.connection.written ++ b.frames) =
          spell e.connection.written ++ spell b.frames := List.flatMap_append
      rw [hwritten,hspell,← hframes,hsplit,hrest,hbytes]
      simp
    · simp [hheld,spell]
    · rw [batch']
      exact ⟨hheld,rfl⟩

theorem queuedFor_cases (h : Dispatched e bytes) (hd : Dispatches here e out e' out') :
    Entries here e.connection e'.connection ∨
      ∀ i, e'.connection.queuedFor i = e.connection.queuedFor i := by
  cases hd with
  | rest entries => exact .inl entries
  | greet _ entries => exact .inl entries
  | ship _ _ taken => exact .inr (h.pending.takeBatch taken).2.2.2
  | write _ _ _ connection => exact .inr fun i => by rw [connection]
  | @complete r _ b live stage batch connection =>
    obtain ⟨_,_,_,-,-,hrun⟩ := h.wire
    have hframes := (hrun r stage).1
    rw [batch,Option.elim_some] at hframes
    rw [connection]
    exact .inr (h.pending.batchWritten hframes live).2.2.2

end Dispatched

end Endpoint

namespace Station

open Endpoint

variable {s : Station}

def speaker (s : Station) : Event → Option Nat
  | .call _ k => k.stream?
  | .look _ n => s.waits[n]?.bind fun p => p.wait.stream?
  | _ => none

theorem dispatches_serve (s : Station) (e : Event) (out : Pipe) :
    Dispatches (s.speaker e) s.endpoint out (s.serve e).endpoint out := by
  have hold {here : Option Nat} {c : Connection} (h : Entries here s.endpoint.connection c) :
      Dispatches here s.endpoint out { s.endpoint with connection := c } out := .hold h out
  have hs := s.served e
  generalize s.serve e = s' at hs
  cases hs with
  | rest | drop => exact dispatches_refl _ out
  | connect hx =>
    cases connects_of_connect hx with
    | start _ stage => exact .rest .refl (by simp) (fun _ => by simp [stage]) rfl
    | fail => exact .hold (Runs.abort trivial trivial _).entries out
  | cancelConnect => exact .hold (Runs.abort trivial trivial _).entries out
  | create hx => exact hold (Runs.createStream trivial hx).entries
  | call cancelled k =>
    rw [settle_endpoint]
    exact hold (entries_call _ cancelled k)
  | @look cancelled _ p hp =>
    rw [settle_endpoint,speaker,hp]
    exact hold (entries_resume _ cancelled p.wait)
  | cancel => exact hold (Runs.cancel (fun _ => trivial) _).entries
  | abandonReads i => exact hold (Runs.abandonReads trivial).entries
  | reset i code => exact hold (Runs.reset trivial code).entries
  | disposeStream i => exact hold (Runs.disposeStream trivial).entries
  | dispose => exact hold (Runs.abort trivial trivial _).entries

theorem act_dispatches (s : Station) (out inn : Pipe) (e : Event) :
    Dispatches (s.speaker e) s.endpoint out (s.act out inn e).1.endpoint (s.act out inn e).2.1 := by
  have ha := s.acted out inn e
  generalize s.act out inn e = r at ha
  cases ha with
  | rest => exact dispatches_refl _ out
  | leave stage => exact .leave rfl rfl (.inr (by simp [stage])) rfl
  | pull hx => exact hx.dispatches.room
  | push hx => exact hx.dispatches.room
  | serve => exact dispatches_serve s e out

namespace Fresh

variable {s : Station} (h : s.Fresh)

include h

theorem dispatched (steps : List Step) : Dispatched (s.run steps).endpoint (s.output steps) := by
  induction steps using List.reverseRecOn with
  | nil =>
    cases h
    exact ⟨.fresh ..,fun _ => rfl,[],[],[],rfl,rfl,by simp [run,fresh,ofConnection]⟩
  | append_singleton steps t ih =>
    rw [output_concat,run_concat]
    exact ih.step (act_dispatches _ t.out t.inn t.event) (act_buffer (h.staged steps) t)

theorem pending (steps : List Step) : (s.run steps).connection.Pending :=
  (h.dispatched steps).pending

/-- What was queued for a stream stays on record, and a step adds to that of one stream only. -/
theorem queuedFor_step (steps : List Step) (t : Step) (i : Nat) :
    let c := (s.run steps).connection
    let c' := (s.run (steps ++ [t])).connection
    c.queuedFor i <:+ c'.queuedFor i ∧
      ((s.run steps).speaker t.event ≠ some i → c'.queuedFor i = c.queuedFor i) := by
  rw [run_concat]
  rcases (h.dispatched steps).queuedFor_cases (act_dispatches _ t.out t.inn t.event) with hx | hx
  · exact ⟨hx.queuedFor i,hx.queuedFor_of_ne⟩
  · exact ⟨(hx i).symm ▸ List.suffix_rfl,fun _ => hx i⟩

theorem queuedFor_more (steps more : List Step) (i : Nat) :
    (s.run steps).connection.queuedFor i <:+ (s.run (steps ++ more)).connection.queuedFor i := by
  induction more using List.reverseRecOn with
  | nil => rw [List.append_nil]
  | append_singleton more t ih =>
    rw [← List.append_assoc]
    exact ih.trans (h.queuedFor_step (steps ++ more) t i).1

end Fresh

variable (role : Role) (options : Options) (codes : CodeSpace) (channel : Channel)

/-- What a flush says, when it is called and whenever it looks again. It succeeds exactly if the
stream has not failed and none of its frames is with the writer or waits for it. All that the stream
had queued before the call has then been written, unless the stream was reset: frames that a reset
took back are not missed. If frames of the stream were discarded, the flush fails but for that
case. -/
theorem flush_written (steps more : List Step) (i : Nat) (cancelled : Bool) :
    let s := fresh role options codes channel
    let c := (s.run (steps ++ more)).connection
    c.call cancelled (.flush i) = c.resume cancelled (.written i) ∧
    (∃ head part, s.output (steps ++ more) = head ++ spell c.written ++ part) ∧
    sentBy i c.written ++ c.left i <+: (c.queuedFor i).reverse ∧
    ((∃ a, (c.resume cancelled (.written i)).1 = .done (.ok a)) ↔
      ∃ stream, c.streams[i]? = some stream ∧ stream.error = none ∧ c.left i = []) ∧
    (∀ a, (c.resume cancelled (.written i)).1 = .done (.ok a) →
      ((s.run steps).connection.queuedFor i).reverse <+: sentBy i c.written ∨
        ∃ stream, c.streams[i]? = some stream ∧ stream.resetCode.isSome) ∧
    (sentBy i c.written ++ c.left i ≠ (c.queuedFor i).reverse →
      (∃ e, (c.resume cancelled (.written i)).1 = .done (.error e)) ∨
        ∃ stream, c.streams[i]? = some stream ∧ stream.error = none ∧ stream.resetCode.isSome ∧
          c.left i = []) := by
  intro s c
  have hfresh : s.Fresh := .intro role options codes channel
  have hd := hfresh.dispatched (steps ++ more)
  have hmore : (s.run steps).connection.queuedFor i <:+ c.queuedFor i :=
    hfresh.queuedFor_more steps more i
  have hp : c.Pending := hfresh.pending (steps ++ more)
  obtain ⟨head,part,-,hbytes,-,-⟩ := hd.wire
  rw [← kept_eq]
  refine ⟨rfl,⟨head,part,hbytes⟩,hp.order i,hp.flush_succeeds i cancelled,fun a ha => ?_,
    hp.flush_discarded i cancelled⟩
  obtain ⟨stream,hi,he,hleft⟩ := (hp.flush_succeeds i cancelled).mp ⟨a,ha⟩
  cases hr : stream.resetCode with
  | some code => exact .inr ⟨stream,hi,by rw [hr]; rfl⟩
  | none =>
    have hwhole := hp.whole hi he hr
    rw [kept_eq,hleft,List.append_nil] at hwhole
    rw [hwhole]
    exact .inl (List.reverse_prefix.mpr hmore)

/-- A stream is created and written to. -/
def letter : List Step :=
  meeting {} ++ [.quiet (.create .unidirectional), .quiet (.call false (.write 0 [1, 2, 3]))]

/-- The writer takes a batch and writes it. -/
def posting : List Step :=
  [⟨{ capacity := 0 }, { capacity := 0 }, .push 0⟩,
    ⟨{ capacity := 0 }, { capacity := 0 }, .push 64⟩]

/-- Once the writer has written the frame, a flush succeeds. -/
theorem flush_written_letter :
    let s := fresh .client {} .direct .plain
    let c := (s.run (letter ++ posting)).connection
    (∃ a, (c.resume false (.written 0)).1 = .done (.ok a)) ∧
      c.written = [⟨.stream ⟨2⟩ false [1, 2, 3], some 0⟩] ∧
      ((s.run letter).connection.queuedFor 0).reverse <+: sentBy 0 c.written := by
  intro s c
  obtain ⟨-,-,-,hiff,hok,-⟩ := flush_written .client {} .direct .plain letter posting 0 false
  have hwritten : c.written = [⟨.stream ⟨2⟩ false [1, 2, 3], some 0⟩] := by decide +kernel
  have hstream : c.streams[0]?.map (fun t => (t.error, t.resetCode)) = some (none, none) := by
    decide +kernel
  obtain ⟨t,ht,hboth⟩ := Option.map_eq_some_iff.mp hstream
  obtain ⟨he,hr⟩ := Prod.mk.inj hboth
  obtain ⟨a,ha⟩ := hiff.mpr ⟨t,ht,he,by decide +kernel⟩
  refine ⟨⟨a,ha⟩,hwritten,(hok a ha).resolve_right ?_⟩
  rintro ⟨t',ht',hx⟩
  cases ht.symm.trans ht'
  rw [hr] at hx
  cases hx

/-- A stream is reset before the writer has taken its frame: nothing of it is ever written, and a
flush succeeds all the same. -/
theorem flush_misses_reset :
    let s := fresh .client {} .direct .plain
    let c := (s.run (letter ++ [.quiet (.reset 0 7)] ++ posting)).connection
    c.queuedFor 0 = [⟨.stream ⟨2⟩ false [1, 2, 3], some 0⟩] ∧ sentBy 0 c.written = [] ∧
      c.left 0 = [] ∧
      ∃ a, (c.call false (.flush 0)).1 = .done (.ok a) := by
  intro s c
  have hstream : c.streams[0]?.map (·.error) = some none := by decide +kernel
  obtain ⟨t,ht,he⟩ := Option.map_eq_some_iff.mp hstream
  have hp : c.Pending := (Fresh.intro ..).pending _
  have hleft : c.left 0 = [] := by decide +kernel
  exact ⟨by decide +kernel,by decide +kernel,hleft,(hp.flush_succeeds 0 false).mpr ⟨t,ht,he,hleft⟩⟩

end Station

end Multiplex
