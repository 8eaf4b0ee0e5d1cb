import Multiplex.Proofs.Looking
import Multiplex.Proofs.EndpointSteps

/-!
What each function of a connection does, as a sequence of changes of a few kinds, and whom the
changes have to be told. A relation that can be chained, and that holds of the kinds of change a
function is made of, holds of what it does.
-/

namespace Multiplex

namespace Stream

variable {s s' : Stream}

/-- What a change of a stream is to the calls that wait on it: nothing, something they are yet to be
told, or something they are told of. -/
inductive Effect
  | quiet
  | late
  | told

variable {e : Effect}

/-- What becomes of a stream of its own accord. -/
inductive Tended (s : Stream) : Effect → Stream → Prop
  | signal : Tended s .told s.notify
  | mark (code : UInt64) : Tended s .late (s.markReset code)
  | retire : Tended s .quiet { s with released := true }
  | dispose (code : UInt64) : Tended s .late { s with disposed := some code }
  | grant (credit : SendCredit) : Tended s .told { s with credit }.notify
  | receive (unended : s.finReceived = false) (window : ReceiveWindow) (fin : Bool) (data : Bytes) :
      Tended s .told (s.afterData window fin data).2.notify

/-- What a call does to its stream, but for its id and for the frames that it queues. What is sent
is queued before. -/
inductive Used (s : Stream) : Effect → Stream → Prop
  | spend {credit : SendCredit} (h : s.credit.available = 0 → credit.available = 0) :
      Used s .quiet { s with credit }
  | send (queued : s.unwritten ≠ 0) (fin : Bool) (data : Bytes) :
      Used s .quiet ({ s with finQueued := fin }.noteSent data)
  | take {rest : Stream} {limit : Option Nat} {chunk : Bytes}
      (h : s.takeChunk limit = some (chunk, rest)) :
      Used s .quiet ((rest.noteTaken chunk).consumed chunk.length).2
  | see : Used s .quiet s.noteEnd
  | abandon (len : Nat) :
      Used s .told ({ s with abandoned := true, inbound := [] }.consumed len).2.notify

/-- The stream does not fail, none of its frames is queued or taken back, and it stays reset. -/
structure Abides (s s' : Stream) : Prop where
  remote : s'.remote = s.remote
  error : s'.error = s.error
  unwritten : s'.unwritten = s.unwritten
  reset : s'.resetCode = none → s.resetCode = none

theorem Tended.abides (h : s.Tended e s') : s.Abides s' := by
  cases h with
  | signal | retire | dispose | grant => exact ⟨rfl,rfl,rfl,fun h => h⟩
  | mark code => exact ⟨rfl,rfl,rfl,by simp [markReset]⟩
  | receive =>
    rw [afterData_snd]
    exact ⟨rfl,rfl,rfl,fun h => h⟩

theorem Used.abides (h : s.Used e s') : s.Abides s' := by
  cases h with
  | spend | send | see => exact ⟨rfl,rfl,rfl,fun h => h⟩
  | take ht =>
    obtain ⟨_,rfl,-⟩ := takeChunk_spec ht
    rw [consumed_snd]
    exact ⟨rfl,rfl,rfl,fun h => h⟩
  | abandon =>
    rw [consumed_snd]
    exact ⟨rfl,rfl,rfl,fun h => h⟩

end Stream

/-- The frames that were written, and by how much streams counted too few. -/
def Metrics.dispatch (m : Metrics) : Nat × Nat := (m.framesSent, m.shortfall)

def Metrics.answers (m : Metrics) : Nat × Option Nat × List (Nat × UInt64) :=
  (m.pongs, m.roundTrip, m.echoes)

namespace Connection

/-- The kinds of change to a connection. -/
inductive Kind
  /-- What concerns no stream. -/
  | rest
  | tend (i : Nat)
  | use (i : Nat)
  | queue (i : Nat)
  | add
  | arrive
  | accept
  | endInput
  | ship
  /-- What becomes of the connection as a whole. -/
  | fate

/-- What a change is to the calls that wait. -/
inductive Word
  /-- Nothing has come that they wait for. -/
  | none
  /-- Those on the stream at place `i` have to be told. -/
  | late (i : Nat)
  /-- Those on the connection have to be told. -/
  | lag
  | tell (i : Nat)
  | ring

namespace Word

def ofEffect (i : Nat) : Stream.Effect → Word
  | .quiet => .none
  | .late => .late i
  | .told => .tell i

/-- The streams whose calls have to be told, if before the change these were the `owed`. -/
def owes (owed : Nat → Prop) : Word → Nat → Prop
  | .none, j | .lag, j | .ring, j => owed j
  | .late i, j => owed j ∨ j = i
  | .tell i, j => owed j ∧ j ≠ i

/-- Whether the calls on the connection have to be told, if before the change they had to be. -/
def lags (lag : Prop) : Word → Prop
  | .none | .late _ | .tell _ => lag
  | .lag => True
  | .ring => False

theorem owes_or (w : Word) {owed owed' : Nat → Prop} {j : Nat}
    (h : w.owes (fun j => owed j ∨ owed' j) j) : owed j ∨ w.owes owed' j := by
  cases w with
  | none | lag | ring => exact h
  | late i => exact or_assoc.mp h
  | tell i => exact h.1.imp_right fun hj => ⟨hj,h.2⟩

theorem lags_or (w : Word) {lag lag' : Prop} (h : w.lags (lag ∨ lag')) : lag ∨ w.lags lag' := by
  cases w with
  | none | late | tell => exact h
  | lag => exact .inr trivial
  | ring => exact h.elim

@[simp]
theorem lags_ofEffect (i : Nat) (e : Stream.Effect) (lag : Prop) :
    (ofEffect i e).lags lag = lag := by
  cases e <;> rfl

end Word

/-- Whether as many streams of this end are in use as the peer takes. -/
def Full (c : Connection) (d : Direction) : Prop :=
  (c.peer.maxStreams d).toNat ≤ c.activeLocal.get d

inductive Change (c : Connection) : Kind → Word → Connection → Prop
  | note {metrics : Metrics} {table : List (StreamId × Nat)}
      {nextLocal nextRemote activeRemote : PerDirection Nat} {closeSent shutdownWrites : Bool}
      {heard : List Frame} (h : metrics.dispatch = c.metrics.dispatch)
      (hp : metrics.answers = c.metrics.answers) :
      Change c .rest .none { c with
        metrics, table, nextLocal, nextRemote, activeRemote, closeSent, shutdownWrites,
        journal := { c.journal with heard } }
  | ring : Change c .rest .ring c.notify
  | occupy (d : Direction) :
      Change c .rest .none (c.setActive false d (· + 1))
  | vacate {table : List (StreamId × Nat)}
      {activeLocal activeRemote : PerDirection Nat} :
      Change c .rest .lag { c with table, activeLocal, activeRemote }
  | pong (now : Nat) (v : UInt64) : Change c .rest .ring (c.handle now (.pong v)).2
  | control (f : Frame) :
      Change c .rest .none { c with
        controlQueue := c.controlQueue ++ [f], journal := c.journal.noteControl f }
  | say (f : Frame) : Change c .rest .none (c.append ⟨f, none⟩)
  | complete (h : c.writesShut = true) :
      Change c .rest .lag { c with phase := .closed }
  | tend {i : Nat} {e : Stream.Effect} {f : Stream → Stream}
      (h : ∀ s, c.streams[i]? = some s → s.Tended e (f s)) :
      Change c (.tend i) (.ofEffect i e) (c.modify i f)
  | purge {i : Nat} (h : ∀ s, c.streams[i]? = some s → s.resetCode.isSome) :
      Change c (.tend i) (.late i) (c.purge i)
  | use {i : Nat} {e : Stream.Effect} {f : Stream → Stream}
      (h : ∀ s, c.streams[i]? = some s → s.Used e (f s)) :
      Change c (.use i) (.ofEffect i e) (c.modify i f)
  | name {i : Nat} (h : ∀ s, c.streams[i]? = some s → ¬c.Full s.direction)
      (id : StreamId) : Change c (.use i) .none (c.modify i fun s => { s with id := some id })
  | queue {i : Nat} {s : Stream} (hi : c.streams[i]? = some s)
      (lasting : s.error = none) (unreset : s.resetCode = none) (f : Frame) :
      Change c (.queue i) .none (c.enqueueData i f)
  | add (d : Direction) :
      Change c .add .none { c with streams := c.streams ++ [.fresh d false c.options c.peer] }
  | arrive (id : StreamId) :
      Change c .arrive .lag { c with
        streams := c.streams ++
          [{ Stream.fresh id.direction true c.options c.peer with id := some id }]
        acceptQueue := c.acceptQueue ++ [c.streams.length] }
  | accept {rest : List Nat} (h : rest.Sublist c.acceptQueue) :
      Change c .accept .none { c with acceptQueue := rest }
  | endInput : Change c .endInput .none { c with readEnded := true }
  | ship : Change c .ship .none c.takeBatch.2
  | count {metrics : Metrics} (hp : metrics.answers = c.metrics.answers) :
      Change c .ship .none { c with metrics }
  | written (i : Nat) : Change c .ship .none (c.frameWritten i)
  | turn {phase : Phase} (lasting : c.phase = .closed → phase = .closed) :
      Change c .fate .lag { c with phase }
  | reason {closeReceived : Option UInt64} {closedLocally writesShut : Bool}
      {error : Option Failure} :
      Change c .fate .none { c with closeReceived, closedLocally, writesShut, error }
  | fail {i : Nat} {e : Failure} {r : Stream → Bool}
      (lasting : ∀ s, s.released = true → r s = true) :
      Change c .fate (.late i) (c.modify i fun s => { s.fail e with released := r s })
  | hail (i : Nat) : Change c .fate (.tell i) (c.notifyStream i)
  | discard (closed : c.phase = .closed) (h : ∀ q ∈ c.dataQueue, ∀ i,
      q.owner = some i → ∀ s, c.streams[i]? = some s → s.error.isSome) :
      Change c .fate .none { c with controlQueue := [], dataQueue := [] }
  | forget {i : Nat} (closed : c.phase = .closed) (empty : c.dataQueue = [])
      (h : ∀ s, c.streams[i]? = some s → s.error.isSome) :
      Change c .fate (.tell i) (c.modify i fun s => { s with unwritten := 0 }.notify)

/-- What is done to streams in two steps can be done to all of them one step after the other. -/
theorem foldl_modify_comp (l : List Nat) (f g : Stream → Stream) (h : ∀ s, f (g s) = g (f s))
    (ss : List Stream) : l.foldl (fun ss j => ss.modify j fun s => g (f s)) ss =
      l.foldl (fun ss j => ss.modify j g) (l.foldl (fun ss j => ss.modify j f) ss) := by
  have hswap (ss : List Stream) (i j : Nat) :
      (ss.modify i g).modify j f = (ss.modify j f).modify i g := by
    refine List.ext_getElem? fun k => ?_
    cases hk : ss[k]? <;> by_cases hi : i = k <;> by_cases hj : j = k <;> simp [hk,hi,hj,h]
  have hpast (ss : List Stream) (i : Nat) (l : List Nat) :
      l.foldl (fun ss j => ss.modify j f) (ss.modify i g) =
        (l.foldl (fun ss j => ss.modify j f) ss).modify i g := by
    induction l generalizing ss with
    | nil => rfl
    | cons j l ih => rw [List.foldl_cons,hswap,ih,List.foldl_cons]
  induction l generalizing ss with
  | nil => rfl
  | cons i l ih =>
    have hboth : (ss.modify i fun s => g (f s)) = (ss.modify i f).modify i g :=
      (List.modify_modify_eq ..).symm
    rw [List.foldl_cons,hboth,ih,hpast,List.foldl_cons,List.foldl_cons]

theorem markReset_isSome (c : Connection) (i : Nat) (code : UInt64) (s : Stream)
    (h : (c.modify i (·.markReset code)).streams[i]? = some s) : s.resetCode.isSome := by
  cases hi : c.streams[i]? with
  | none => simp [modify_of_none hi,hi] at h
  | some t =>
    rw [getElem?_modify_self hi] at h
    cases h
    simp [Stream.markReset]

/-- Whether there is no stream at place `i` that has not failed. -/
def Failed (c : Connection) (i : Nat) : Prop := ∀ s, c.streams[i]? = some s → s.error.isSome

theorem failed_modify_fail (c : Connection) (i j : Nat) (e : Failure) (h : j = i ∨ c.Failed j) :
    (c.modify i (·.fail e)).Failed j := by
  intro s hs
  cases hj : c.streams[j]? with
  | none => simp [Connection.modify,List.getElem?_modify,hj] at hs
  | some t =>
    by_cases hij : j = i
    · subst hij
      rw [getElem?_modify_self hj] at hs
      cases hs
      simp [Stream.fail]
    · have hsame : t = s := by simpa [Connection.modify,Ne.symm hij,hj] using hs
      exact h.resolve_left hij s (hsame ▸ hj)

/-- Whether no call can wait on the stream at place `i`: nobody has accepted it, or it is not
there. -/
def Unowned (c : Connection) (i : Nat) : Prop := i ∈ c.acceptQueue ∨ c.streams[i]? = none

variable {P : Kind → Prop} {c c' c'' : Connection} {i : Nat} {w : Word} {k : Kind}
  {late late' : Nat → Prop} {lag lag' : Prop}

theorem unowned_of_modify {j : Nat} {f : Stream → Stream} (h : (c.modify j f).Unowned i) :
    c.Unowned i :=
  h.imp_right fun hi => by simpa [Connection.modify,List.getElem?_modify] using hi

theorem unowned_of_concat {s : Stream} {rest : List Nat}
    (hr : ∀ j ∈ rest, j ∈ c.acceptQueue ∨ j = c.streams.length)
    (h : ({ c with streams := c.streams ++ [s], acceptQueue := rest } : Connection).Unowned i) :
    c.Unowned i := by
  rcases h with hi | hi
  · exact (hr i hi).imp_right fun he => List.getElem?_eq_none he.ge
  · rw [List.getElem?_eq_none_iff,List.length_append] at hi
    exact .inr (List.getElem?_eq_none (by omega))

theorem Change.unowned (h : Change c k w c') (hi : c'.Unowned i) : c.Unowned i := by
  cases h with
  | note | ring | occupy | vacate | pong | control | say | complete | endInput | count | turn
  | reason | discard => exact hi
  | tend | purge | use | name | queue | written | fail | hail | forget => exact unowned_of_modify hi
  | add => exact unowned_of_concat (fun _ => .inl) hi
  | arrive => exact unowned_of_concat (fun _ hj => by simpa using hj) hi
  | accept hr => exact hi.imp_left fun hi => hr.subset hi
  | ship =>
    unfold takeBatch at hi
    split at hi <;> exact hi

/-- Changes of the kinds in `P`, and such as concern no stream. Whatever comes with them is told in
the end, except to those who wait on streams that are `late` and, with `lag`, on the connection. -/
inductive Runs (P : Kind → Prop) : (Nat → Prop) → Prop → Connection → Connection → Prop
  | refl {late : Nat → Prop} {lag : Prop} {c : Connection} : Runs P late lag c c
  | tail {late late' : Nat → Prop} {lag lag' : Prop} {k : Kind} {w : Word} {c c' c'' : Connection}
      (h : Runs P late lag c c') (hk : k = .rest ∨ P k) (hc : Change c' k w c'')
      (hl : ∀ j, w.owes late j → late' j ∨ c.Unowned j) (hg : w.lags lag → lag') :
      Runs P late' lag' c c''

/-- Changes of the kinds in `P` that are all told. -/
abbrev Changes (P : Kind → Prop) : Connection → Connection → Prop := Runs P (fun _ => False) False

namespace Runs

theorem keep {R : Connection → Connection → Prop} (rest : P .rest) (refl : ∀ c, R c c)
    (trans : ∀ {c c' c'' : Connection}, R c c' → R c' c'' → R c c'')
    (each : ∀ {k : Kind} {w : Word} {c c' : Connection}, Change c k w c' → P k → R c c')
    (h : Runs P late lag c c') : R c c' := by
  induction h with
  | refl => exact refl _
  | tail _ hk hc _ _ ih =>
    refine trans ih (each hc ?_)
    rcases hk with rfl | hk
    · exact rest
    · exact hk

theorem unowned (h : Runs P late lag c c') (hi : c'.Unowned i) : c.Unowned i := by
  induction h with
  | refl => exact hi
  | tail _ _ hc _ _ ih => exact ih (hc.unowned hi)

theorem join (h : Runs P late lag c c') (h' : Runs P late' lag' c' c'') :
    Runs P (fun j => late j ∨ late' j) (lag ∨ lag') c c'' := by
  induction h' with
  | refl =>
    cases h with
    | refl => exact .refl
    | tail h hk hc hl hg =>
      exact .tail h hk hc (fun j hj => (hl j hj).imp_left .inl) fun hx => .inl (hg hx)
  | @tail _ _ _ _ _ w _ _ _ _ hk hc hl hg ih =>
    refine .tail (ih h) hk hc (fun j hj => ?_) fun hx => (w.lags_or hx).imp_right hg
    rcases w.owes_or hj with hj | hj
    · exact .inl (.inl hj)
    · exact (hl j hj).imp .inr h.unowned

section

variable (h : Runs P late lag c c')

include h

theorem mono {P' : Kind → Prop} (hp : ∀ k, P k → P' k) : Runs P' late lag c c' := by
  induction h with
  | refl => exact .refl
  | tail _ hk hc hl hg ih => exact .tail ih (hk.imp_right (hp _)) hc hl hg

theorem owe (hl : ∀ j, late j → late' j ∨ c.Unowned j) (hg : lag → lag') :
    Runs P late' lag' c c' := by
  cases h with
  | refl => exact .refl
  | tail h hk hc hl' hg' =>
    refine .tail h hk hc (fun j hj => ?_) fun hx => hg (hg' hx)
    rcases hl' j hj with hj | hj
    · exact hl j hj
    · exact .inr hj

theorem trans (h' : Changes P c' c'') : Runs P late lag c c'' :=
  (h.join h').owe (fun _ hj => .inl (hj.resolve_right id)) fun hx => hx.resolve_right id

theorem rest (hc : Change c' .rest .none c'') : Runs P late lag c c'' :=
  .tail h (.inl rfl) hc (fun _ => .inl) id

theorem step (hk : P k) (hc : Change c' k .none c'') : Runs P late lag c c'' :=
  .tail h (.inr hk) hc (fun _ => .inl) id

/-- The calls on the connection are told of what they were not told before. -/
theorem notify : Runs P late lag' c c'.notify :=
  .tail h (.inl rfl) .ring (fun _ => .inl) False.elim

/-- Something has come that the calls on the connection have to be told. -/
theorem lags (hk : k = .rest ∨ P k) (hc : Change c' k .lag c'') : Runs P late True c c'' :=
  .tail h hk hc (fun _ => .inl) id

theorem tend (ht : P (.tend i)) {e : Stream.Effect} {f : Stream → Stream}
    (hf : ∀ s : Stream, s.Tended e (f s))
    (hl : ∀ j, (Word.ofEffect i e).owes late j → late' j ∨ c.Unowned j) :
    Runs P late' lag c (c'.modify i f) :=
  .tail h (.inr ht) (.tend fun s _ => hf s) hl (by simp)

theorem enqueueControl? (f : Option Frame) : Runs P late lag c (c'.enqueueControl? f) := by
  cases f with
  | none => exact h
  | some f =>
    unfold Connection.enqueueControl? Connection.enqueueControl
    dsimp only
    split
    · exact h
    · exact h.rest (.control f)

theorem enqueueControl (f : Frame) : Runs P late lag c (c'.enqueueControl f) :=
  h.enqueueControl? (some f)

theorem enqueueClose (code : UInt64) : Runs P late lag c (c'.enqueueClose code) := by
  unfold Connection.enqueueClose
  split
  · exact h
  · exact (h.rest (.say _)).rest (.note rfl rfl)

theorem finishIfClosed : Runs P late lag c c'.finishIfClosed := by
  unfold Connection.finishIfClosed
  split
  · rename_i hc
    simp only [Bool.and_eq_true] at hc
    exact (h.lags (.inl rfl) (.complete hc.1.2)).notify
  · exact h

end

theorem closing : ClosingLaw (Changes P) where
  refl _ := .refl
  trans := .trans
  answer _ code _ := enqueueClose .refl code
  shut _ _ _ _ _ := rest .refl (.note rfl rfl)
  finish _ _ := finishIfClosed .refl

section

variable (h : Runs P late lag c c')

include h

theorem progressClose : Runs P late lag c c'.progressClose :=
  h.trans (closing.progressClose c')

theorem maybeRelease (ht : P (.tend i)) : Runs P late lag c (c'.maybeRelease i) := by
  unfold Connection.maybeRelease
  split
  · exact h
  · split
    · exact h
    · split
      · exact h
      · apply progressClose
        rw [setActive_eq]
        -- a place has become free, of which the connection tells next
        have hout : Runs P late lag c (c'.modify i fun s => { s with released := true }) :=
          h.tend ht (fun _ => .retire) fun _ => .inl
        exact (hout.lags (.inl rfl) .vacate).notify

/-- Takes back what a stream has queued that was reset, and tells so. -/
theorem takeBack (ht : P (.tend i)) (hl : ∀ j, late j → late' j ∨ j = i ∨ c.Unowned j)
    (hr : ∀ s, c'.streams[i]? = some s → s.resetCode.isSome) :
    Runs P late' lag c (((c'.purge i).countReset.notifyStream i).maybeRelease i) := by
  have hpurge : Runs P (fun j => late j ∨ j = i) lag c (c'.purge i) :=
    .tail h (.inr ht) (.purge hr) (fun _ => .inl) id
  have hcount : Runs P _ lag c (c'.purge i).countReset := hpurge.rest (.note rfl rfl)
  refine (hcount.tend ht (fun _ => .signal) fun j hj => ?_).maybeRelease ht
  rcases hj with ⟨hj | hj,hji⟩
  · exact (hl j hj).imp_right fun hx => hx.resolve_left hji
  · exact absurd hj hji

/-- Streams that have not started, or are not in use any more, are not told. -/
theorem sendReset (ht : P (.tend i)) (hl : late i ∨ c.Unowned i) (code : UInt64) :
    Runs P late lag c (c'.sendReset i code) := by
  have hmark : Runs P late lag c (c'.modify i (·.markReset code)) := by
    refine h.tend ht (fun _ => .mark code) fun j hj => ?_
    rcases hj with hj | rfl
    · exact .inl hj
    · exact hl
  have hsome := markReset_isSome c' i code
  unfold Connection.sendReset
  generalize c'.modify i (·.markReset code) = x at hmark hsome
  dsimp only
  split
  · exact hmark
  · split
    · exact hmark
    · split
      · exact hmark
      · refine (hmark.enqueueControl _).takeBack ht (fun _ => .inl) fun s hs => hsome s ?_
        rwa [enqueueControl_eq] at hs

end

theorem receiveReset (ht : P (.tend i)) (code : UInt64) : Changes P c (c.receiveReset i code) := by
  have hmark : Runs P (· = i) False c (c.modify i (·.markReset code)) :=
    tend .refl ht (fun _ => .mark code) fun _ hj => .inl (hj.resolve_left id)
  exact hmark.takeBack ht (fun _ hj => .inr (.inl hj)) (markReset_isSome c i code)

/-- A stream that can be reset tells whatever was yet to be told on it. -/
theorem reset_live {s : Stream} (h : Runs P (· = i) False c c') (ht : P (.tend i)) (code : UInt64)
    (hi : c'.streams[i]? = some s)
    (hl : (s.resetCode.isSome || s.error.isSome || s.released) = false) :
    Changes P c (c'.reset i code) := by
  simp only [Connection.reset,hi,hl,Bool.false_eq_true,if_false]
  split
  · rw [modify_notify]
    have hmark : Runs P (· = i) False c (c'.modify i (·.markReset code)) :=
      h.tend ht (fun _ => .mark code) fun _ hj => .inl (hj.elim id id)
    exact hmark.tend ht (fun _ => .signal) fun _ hj => absurd hj.1 hj.2
  · exact (h.sendReset ht (.inl rfl) code).tend ht (fun _ => .signal) fun _ hj => absurd hj.1 hj.2

theorem reset (ht : P (.tend i)) (code : UInt64) : Changes P c (c.reset i code) := by
  cases hi : c.streams[i]? with
  | none =>
    simp only [Connection.reset,hi]
    exact .refl
  | some s =>
    cases hl : s.resetCode.isSome || s.error.isSome || s.released with
    | true =>
      simp only [Connection.reset,hi,hl,if_true]
      exact .refl
    | false => exact reset_live .refl ht code hi hl

theorem disposeStream (ht : P (.tend i)) : Changes P c (c.disposeStream i) := by
  unfold Connection.disposeStream
  split
  · exact .refl
  · rename_i s hi
    split
    · exact .refl
    · have hmark : Runs P (· = i) False c _ :=
        tend .refl ht (fun _ => .dispose (c.codes.resetCode .disposed))
          fun _ hj => .inl (hj.resolve_left id)
      split
      · exact hmark.tend ht (fun _ => .signal) fun _ hj => absurd hj.1 hj.2
      · rename_i hl
        refine hmark.reset_live ht _ (getElem?_modify_self hi _) ?_
        simp only [Bool.or_eq_true,not_or,Bool.not_eq_true] at hl
        simp [hl.1.1.1,hl.1.2,hl.2]

theorem cancel (ht : ∀ i, P (.tend i)) (w : Wait) : Changes P c (c.cancel w) := by
  cases w with
  | credit | written | data => exact reset (ht _) _
  | slot | peerStream | pong | closed => exact .refl

theorem suspend (h : Changes P c c') (ht : ∀ i, P (.tend i)) (cancelled : Bool) (w : Wait) :
    Changes P c (c'.suspend cancelled w).2 := by
  unfold Connection.suspend
  split
  · exact h.trans (cancel ht w)
  · exact h

/-- Nobody has the streams that are refused. -/
theorem refusePending (h : Runs P late lag c c') (ha : P .accept)
    (ht : ∀ j ∈ c'.acceptQueue, P (.tend j)) : Runs P late lag c c'.refusePending := by
  have hfold (code : UInt64) (l : List Nat) (hl : ∀ j ∈ l, P (.tend j) ∧ c.Unowned j)
      (x : Connection) (hx : Runs P late lag c x) :
      Runs P late lag c (l.foldl (fun c j => c.sendReset j code) x) := by
    induction l generalizing x with
    | nil => exact hx
    | cons j l ih =>
      obtain ⟨htend,hfree⟩ := hl j List.mem_cons_self
      exact ih (fun j hj => hl j (.tail _ hj)) _ (hx.sendReset htend (.inr hfree) code)
  exact hfold _ _ (fun j hj => ⟨ht j hj,h.unowned (.inl hj)⟩) _
    (h.step ha (.accept (List.nil_sublist _)))

theorem beginClose (ht : ∀ i, P (.tend i)) (ha : P .accept) (hf : P .fate) (code : UInt64) :
    Changes P c (c.beginClose code) := by
  refine closing.beginClose (fun x => step .refl hf .reason) code fun hlive x hx => ?_
  have hsame : Changes P x x := .refl
  have hwane : Runs P _ True x { x with phase := .closing } :=
    hsame.lags (.inr hf) (.turn fun hy => absurd (hx ▸ hy) hlive)
  exact (hwane.refusePending ha fun j _ => ht j).notify

theorem receiveClose (hf : P .fate) {code : UInt64} (h : c.receiveClose code = .ok c') :
    Changes P c c' := by
  unfold Connection.receiveClose at h
  split at h
  · cases h
  · cases h
    apply progressClose
    have hreason : Changes P c { c with closeReceived := some code } := step .refl hf .reason
    split
    · rename_i hactive
      refine (hreason.lags (.inr hf) (.turn fun hclosed => ?_)).notify
      cases (show c.phase = .active from hactive).symm.trans hclosed
    · exact hreason.notify

theorem failStreams (h : Runs P late lag c c') (ha : P .accept) (hf : P .fate) (e : Failure) :
    Runs P late lag' c (c'.failStreams e) := by
  have hfold (l : List (StreamId × Nat)) (x : Connection) (hx : Runs P late lag c x) :
      Runs P late lag c (l.foldl (fun c entry =>
        c.modify entry.2 fun s => { s.fail e with released := true }.notify) x) := by
    induction l generalizing x with
    | nil => exact hx
    | cons entry l ih =>
      refine ih _ ?_
      dsimp only
      rw [modify_notify]
      have hfail : Runs P (fun j => late j ∨ j = entry.2) lag c
          (x.modify entry.2 fun s => { s.fail e with released := true }) :=
        .tail hx (.inr hf) (.fail fun _ _ => rfl) (fun _ => .inl) id
      exact .tail hfail (.inr hf) (.hail _) (fun _ hj => .inl (hj.1.resolve_right hj.2)) id
  have hout := (hfold c'.table c' h).step ha (.accept (List.nil_sublist _))
  exact (hout.lags (.inl rfl) .vacate).notify

theorem failAll (hf : P .fate) (e : Failure) (l : List Nat) {x : Connection}
    (hx : Runs P late lag c x) (hl : ∀ j ∈ l, late j) (closed : x.phase = .closed) :
    let y := l.foldl (fun c j => c.modify j (·.fail e)) x
    Runs P late lag c y ∧ y.phase = .closed ∧ y.dataQueue = x.dataQueue ∧
      ∀ j, j ∈ l ∨ x.Failed j → y.Failed j := by
  induction l generalizing x with
  | nil => exact ⟨hx,closed,rfl,fun j hj => hj.resolve_left List.not_mem_nil⟩
  | cons a l ih =>
    have hfail : Runs P late lag c (x.modify a (·.fail e)) := by
      refine .tail hx (.inr hf) (.fail (r := (·.released)) fun _ hs => hs) (fun j hj => .inl ?_) id
      rcases hj with hj | rfl
      · exact hj
      · exact hl j List.mem_cons_self
    obtain ⟨h,hp,hq,hfailed⟩ := ih hfail (fun j hj => hl j (.tail _ hj)) closed
    refine ⟨h,hp,hq,fun j hj => hfailed j ?_⟩
    rcases hj with hj | hj
    · rcases List.mem_cons.mp hj with rfl | hj
      · exact .inr (failed_modify_fail x j j e (.inl rfl))
      · exact .inl hj
    · exact .inr (failed_modify_fail x a j e (.inr hj))

theorem forgetAll (hf : P .fate) (l : List Nat) {x : Connection}
    (hx : Runs P (fun j => late j ∨ j ∈ l) lag c x) (closed : x.phase = .closed)
    (empty : x.dataQueue = []) (failed : ∀ j ∈ l, x.Failed j) :
    Runs P late lag c
      (l.foldl (fun c j => c.modify j fun s => { s with unwritten := 0 }.notify) x) := by
  induction l generalizing x with
  | nil => exact hx.owe (fun j hj => .inl (hj.resolve_right List.not_mem_nil)) id
  | cons a l ih =>
    refine ih ?_ closed empty ?_
    · refine .tail hx (.inr hf) (.forget closed empty (failed a List.mem_cons_self))
        (fun j hj => .inl (hj.1.imp_right fun hm => ?_)) id
      exact (List.mem_cons.mp hm).resolve_left hj.2
    intro j hj s hs
    have hf := failed j (.tail _ hj)
    cases hx : x.streams[j]? with
    | none => simp [Connection.modify,List.getElem?_modify,hx] at hs
    | some t =>
      have herror : s.error = t.error := by
        by_cases ha : a = j <;> simp [Connection.modify,ha,hx] at hs <;> rw [← hs]
        rfl
      exact herror ▸ hf t hx

theorem abort (ha : P .accept) (hf : P .fate) (e : Failure) : Changes P c (c.abort e) := by
  unfold Connection.abort
  split
  · exact .refl
  · dsimp only
    have hreason : Changes P c { c with error := some e } := step .refl hf .reason
    have hclose : Runs P _ True c { c with phase := .closed, error := some e } :=
      hreason.lags (.inr hf) (.turn fun _ => rfl)
    have hend : Changes P c _ := hclose.failStreams ha hf e
    have hclosed : ({ c with phase := .closed, error := some e }.failStreams e).phase =
        .closed := by
      rw [failStreams_eq]
    generalize { c with phase := .closed, error := some e }.failStreams e = x at hend hclosed
    have howe : Runs P (fun j => False ∨ j ∈ x.dataQueue.filterMap (·.owner)) False c x :=
      hend.owe (fun _ => .inl ∘ .inl) id
    obtain ⟨h,hp,hq,hfail⟩ := failAll hf e _ howe (fun _ => .inr) hclosed
    have hdiscard := h.step hf (.discard hp fun q hm i ho =>
      hfail i (.inl (List.mem_filterMap.mpr ⟨q,hq ▸ hm,ho⟩)))
    -- what the streams count is forgotten last, when nothing waits to be taken back any more
    have hforget := forgetAll hf _ hdiscard hp rfl fun j hj => hfail j (.inl hj)
    have hcomp := foldl_modify_comp (x.dataQueue.filterMap (·.owner)) (·.fail e)
      (fun s => { s with unwritten := 0 }.notify) (fun _ => rfl) x.streams
    simp only [foldl_modify_eq _ _ fun j => j] at hforget ⊢
    rwa [← hcomp] at hforget

theorem endOfInput (ha : P .accept) (hf : P .fate) (he : P .endInput) :
    Changes P c c.endOfInput := by
  unfold Connection.endOfInput
  split
  · exact .refl
  · split
    · have hend : Changes P c { c with readEnded := true } := step .refl he .endInput
      exact (hend.failStreams ha hf _).progressClose
    · exact abort ha hf _

theorem writesShutDown (hf : P .fate) : Changes P c c.writesShutDown :=
  finishIfClosed (step .refl hf .reason)

theorem batchWritten (hs : P .ship) (b : Batch) : Changes P c (c.batchWritten b) := by
  have hfold (l : List Nat) (x : Connection) (hx : Changes P c x) :
      Changes P c (l.foldl frameWritten x) := by
    induction l generalizing x with
    | nil => exact hx
    | cons j l ih => exact ih _ (hx.step hs (.written j))
  exact hfold _ _ (step .refl hs (.count rfl))

theorem surface (ha : P .arrive) (id : StreamId) : Changes P c (c.surface id).2 := by
  have hsame : Changes P c c := .refl
  have harrive := hsame.lags (.inr ha) (.arrive id)
  unfold Connection.surface addStream
  dsimp only
  rw [setActive_eq]
  exact notify (harrive.rest (.note rfl rfl))

/-- What is put in the place of a stream is the same stream, changed. -/
theorem replace {k : Kind} (hk : P k) {s s' : Stream} (update : Option Frame)
    (hi : c.streams[i]? = some s) (hc : ∀ x : Connection, (∀ t, x.streams[i]? = some t → s = t) →
      Change x k (.tell i) (x.modify i fun _ => s')) :
    Changes P c ((c.enqueueControl? update).modify i fun _ => s') := by
  refine .tail (enqueueControl? .refl update) (.inr hk) (hc _ fun t ht => ?_)
    (fun _ hj => .inl hj.1) id
  rw [enqueueControl?_eq] at ht
  exact Option.some.inj (hi.symm.trans ht)

theorem receiveData (ht : P (.tend i)) {id : StreamId} {fin : Bool} {data : Bytes}
    (h : c.receiveData i id fin data = .ok c') : Changes P c c' := by
  cases receives h with
  | missing => exact .refl
  | @taken s window x hi unended he =>
    have hput : Changes P c x := by
      rw [← he]
      exact replace ht _ hi fun _ hx =>
        .tend (e := .told) fun t ht => hx t ht ▸ .receive unended window fin data
    split
    · exact hput.maybeRelease ht
    · exact hput

theorem frames (ht : ∀ i, P (.tend i)) (ha : P .arrive) (hf : P .fate) : FrameLaw (Changes P) where
  refl _ := .refl
  trans := .trans
  skip _ _ := rest .refl (.note rfl rfl)
  say _ f := enqueueControl .refl f
  surface _ := surface ha
  data := receiveData (ht _)
  grant _ i _ := tend .refl (ht i) (fun _ => .grant _) fun _ hj => .inl hj.1
  reset _ i code := receiveReset (ht i) code
  pong c now v :=
    have hsame : Changes P c c := .refl
    .tail hsame (.inl rfl) (.pong now v) (fun _ => .inl) False.elim
  close := receiveClose hf

theorem receive (ht : ∀ i, P (.tend i)) (hr : P .arrive) (ha : P .accept) (hf : P .fate) (now : Nat)
    (inbox : Bytes) : Changes P c (c.receive now inbox).1 :=
  (frames ht hr hf).receive (fun _ _ _ => rest .refl (.note rfl rfl))
    (fun _ => abort ha hf) c now inbox

theorem accepted (ha : P .accept) {rest : List Nat} (hq : c.acceptQueue = i :: rest) :
    Changes P c { c with acceptQueue := rest } :=
  step .refl ha (.accept (hq ▸ List.sublist_cons_self i rest))

theorem createStream (ha : P .add) {d : Direction} (h : c.createStream d = .ok (i, c')) :
    Changes P c c' := by
  unfold Connection.createStream at h
  split at h
  · cases h
    exact step .refl ha (.add d)
  · cases h
  · cases h
  · cases h

theorem abandonReads (hu : P (.use i)) : Changes P c (c.abandonReads i) := by
  unfold Connection.abandonReads
  split
  · exact .refl
  · rename_i hi
    split
    · exact .refl
    · exact replace hu _ hi fun x hx => .use (e := .told) fun t ht => hx t ht ▸ .abandon _

section Calls

variable {here : Option Nat} (hu : ∀ {i : Nat}, here = some i → P (.use i))

include hu

theorem looks : LookLaw here (Changes P) where
  refl _ := .refl
  trans := .trans
  start {i c c' s} place hi ho := by
    unfold tryOpen at ho
    split at ho
    · cases ho
    · rename_i hroom
      cases ho
      have hname (id : StreamId) : Changes P c (c.modify i fun s => { s with id := some id }) := by
        refine step .refl (hu place) (.name (fun t ht => ?_) id)
        cases hi.symm.trans ht
        exact hroom
      exact ((hname _).rest (.occupy s.direction)).rest (.note rfl rfl)
  spend place hi hz := by
    refine step .refl (hu place) (.use (e := .quiet) fun t ht => .spend fun hc => absurd ?_ hz)
    cases hi.symm.trans ht
    -- without credit nothing could have been taken
    simp only [SendCredit.consume,hc]
    exact UInt64.le_zero_iff.mp Std.min_le_right
  take place hi ht := by
    refine (step .refl (hu place) (.use (e := .quiet) fun t hs => ?_)).enqueueControl? _
    cases hi.symm.trans hs
    exact .take ht
  see place _ := step .refl (hu place) (.use (e := .quiet) fun _ _ => .see)

variable (hq : ∀ {i : Nat}, here = some i → P (.queue i)) (ht : ∀ i, P (.tend i))

include hq ht

theorem sends : SendLaw here (Changes P) where
  toLookLaw := looks hu
  put {i c s} place hi hw id data fin := by
    -- what is queued is queued by a stream that has neither failed nor been reset
    obtain ⟨-,-,herror,hreset,-⟩ := Stream.writeError_eq_none_iff.mp hw
    have hput : Changes P c (c.enqueueData i (.stream id fin data)) :=
      step .refl (hq place) (.queue hi herror hreset _)
    have hswap : c.enqueued i id data fin = (c.enqueueData i (.stream id fin data)).modify i
        fun s => { s with finQueued := fin }.noteSent data := by
      simp only [enqueued,enqueueData,append,Connection.modify,List.modify_modify_eq]
      rfl
    rw [hswap]
    refine hput.step (hu place) (.use (e := .quiet) fun t hs => .send ?_ fin data)
    have hself := getElem?_modify_self hi fun s => { s with unwritten := s.unwritten + 1 }
    cases hself.symm.trans hs
    exact Nat.succ_ne_zero _
  release _ _ := maybeRelease .refl (ht _)

theorem calls (cancelled : Bool) : CallLaw cancelled here (Changes P) where
  toSendLaw := sends hu hq ht
  suspend _ w := suspend .refl ht cancelled w

end Calls

theorem resume {w : Wait} (hu : ∀ {i}, w.stream? = some i → P (.use i))
    (hq : ∀ {i}, w.stream? = some i → P (.queue i)) (ht : ∀ i, P (.tend i)) (ha : P .accept)
    (cancelled : Bool) : Changes P c (c.resume cancelled w).2 :=
  (calls hu hq ht cancelled).resume c fun _ _ _ hq => .accepted ha hq

theorem call {k : Call} (hu : ∀ {i}, k.stream? = some i → P (.use i))
    (hq : ∀ {i}, k.stream? = some i → P (.queue i)) (ht : ∀ i, P (.tend i)) (ha : P .accept)
    (hf : P .fate) (cancelled : Bool) : Changes P c (c.call cancelled k).2 :=
  (calls hu hq ht cancelled).call c (fun _ _ _ hq => .accepted ha hq)
    (fun _ _ => .enqueueControl .refl _) fun code _ => .beginClose ht ha hf code

end Runs

/-- What an end does of its own accord, without being asked by the application. -/
def Kind.Own : Kind → Prop
  | .use _ | .queue _ => False
  | _ => True

end Connection

namespace Endpoint

open Connection

variable {e e' : Endpoint} {out inn out' inn' : Pipe} {now : Nat}

/-- The connection that a step of an end begins with. It is established before, if the opening is
done. -/
inductive Meets (e : Endpoint) : Connection → Prop
  | same : Meets e e.connection
  | meet {o : Opening} {deadline : Nat} (live : e.connection.phase ≠ .closed)
      (stage : e.stage = .opening o deadline) (peer : Settings) :
      Meets e { e.connection with peer, phase := .active }

theorem changes_connect (hx : e.connect now = .ok e') :
    Changes Kind.Own e.connection e'.connection := by
  cases connects_of_connect hx with
  | start => exact .refl
  | fail => exact .abort trivial trivial _

theorem Pulls.changes (h : Pulls e now out inn e' out' inn') :
    ∃ c, e.Meets c ∧ Changes Kind.Own c e'.connection := by
  cases h with
  | leave =>
    rw [letGo_connection]
    exact ⟨_,.same,.refl⟩
  | next => exact ⟨_,.same,.refl⟩
  | refuse | late | idle => exact ⟨_,.same,.abort trivial trivial _⟩
  | establish live stage =>
    exact ⟨_,.meet live stage _,.receive (fun _ => trivial) trivial trivial trivial now _⟩
  | takeIn => exact ⟨_,.same,.receive (fun _ => trivial) trivial trivial trivial now _⟩
  | endInput => exact ⟨_,.same,.endOfInput trivial trivial trivial⟩
  | beat => exact ⟨_,.same,.enqueueControl .refl _⟩

theorem Pushes.changes (h : Pushes e out e' out') :
    Changes Kind.Own e.connection e'.connection := by
  cases h with
  | broken => exact .abort trivial trivial _
  | complete => exact .batchWritten trivial _
  | write => exact .refl
  | ship _ _ _ taken =>
    have hbatch := Change.ship (c := e.connection)
    rw [taken] at hbatch
    exact .step (k := .ship) .refl trivial hbatch
  | shut => exact .writesShutDown trivial

end Endpoint

namespace Station

open Connection

variable {s : Station} {e : Event}

def uses (s : Station) (i : Nat) : Event → Bool
  | .call _ k => k.stream? = some i
  | .look _ n => s.waits[n]?.any fun p => p.wait.stream? = some i
  | .abandonReads k => k = i
  | .connect _ | .cancelConnect | .abandonConnect | .create _ | .cancel _ | .drop _ | .reset ..
  | .disposeStream _ | .dispose | .pull .. | .push _ => false

/-- The kinds of change that an event can bring. -/
def Brings (s : Station) (e : Event) : Kind → Prop
  | .use i | .queue i => s.uses i e = true
  | _ => True

theorem brings_of_own {c c' : Connection} (h : Changes Kind.Own c c') :
    Changes (s.Brings e) c c' := by
  refine h.mono fun k hk => ?_
  cases k with
  | use | queue => exact hk.elim
  | rest | tend | add | arrive | accept | endInput | ship | fate => trivial

theorem changes_serve (s : Station) (e : Event) :
    Changes (s.Brings e) s.connection (s.serve e).connection := by
  have hs := s.served e
  generalize s.serve e = s' at hs
  cases hs with
  | rest | drop => exact .refl
  | connect hx => exact brings_of_own (Endpoint.changes_connect hx)
  | cancelConnect | dispose => exact .abort trivial trivial _
  | create hx => exact .createStream trivial hx
  | call cancelled k =>
    rw [settle_connection]
    have hk {i : Nat} (hi : k.stream? = some i) : s.uses i (.call cancelled k) = true := by
      simpa [uses] using hi
    exact .call hk hk (fun _ => trivial) trivial trivial cancelled
  | @look cancelled n p hp =>
    rw [settle_connection]
    have hw {i : Nat} (hi : p.wait.stream? = some i) : s.uses i (.look cancelled n) = true := by
      simpa [uses,hp] using hi
    exact .resume hw hw (fun _ => trivial) trivial cancelled
  | cancel => exact .cancel (fun _ => trivial) _
  | abandonReads k => exact .abandonReads (by simp [Brings,uses])
  | reset k code => exact .reset trivial code
  | disposeStream k => exact .disposeStream trivial

theorem changes_act (s : Station) (out inn : Pipe) (e : Event) :
    ∃ c, s.endpoint.Meets c ∧ Changes (s.Brings e) c (s.act out inn e).1.connection := by
  have ha := s.acted out inn e
  generalize s.act out inn e = r at ha
  cases ha with
  | rest | leave => exact ⟨_,.same,.refl⟩
  | pull hx =>
    obtain ⟨c,hm,hc⟩ := hx.changes
    exact ⟨c,hm,brings_of_own hc⟩
  | push hx => exact ⟨_,.same,brings_of_own hx.changes⟩
  | serve => exact ⟨_,.same,s.changes_serve e⟩

end Station

end Multiplex
