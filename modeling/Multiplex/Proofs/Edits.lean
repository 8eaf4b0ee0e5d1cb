import Multiplex.Proofs.Closing

/-!
What becomes of the frames that streams queue until the writer takes them. Only calls that write
queue any.
-/

namespace Multiplex

namespace Stream

/-- How a stream changes while none of its frames is queued, written or taken back. What it counts
matters until it fails and all is `lost`. -/
structure Keeps (lost : Prop) (s s' : Stream) : Prop where
  error : s'.error = none → s.error = none
  counted : s'.unwritten = s.unwritten ∨ lost ∧ s'.error.isSome
  reset : s'.resetCode = none → s.resetCode = none

variable {lost : Prop} {s s' : Stream}

theorem keeps_of_eq (he : s'.error = s.error) (hu : s'.unwritten = s.unwritten)
    (hr : s'.resetCode = s.resetCode) : s.Keeps lost s' :=
  ⟨fun h => he ▸ h,.inl hu,fun h => hr ▸ h⟩

theorem keeps_fail (s : Stream) (e : Failure) (released : Bool) :
    s.Keeps lost { s.fail e with released } :=
  ⟨by simp [fail],.inl rfl,fun h => h⟩

theorem Abides.keeps (h : s.Abides s') : s.Keeps lost s' :=
  ⟨fun he => h.error ▸ he,.inl h.unwritten,h.reset⟩

end Stream

namespace Connection

/-- What leaves the queue of data and the record of it alone. -/
structure Aside (c c' : Connection) : Prop where
  dataQueue : c'.dataQueue = c.dataQueue
  queued : c'.journal.data = c.journal.data
  taken : c'.journal.taken = c.journal.taken
  written : c'.metrics.dispatch = c.metrics.dispatch
  closed : c.phase = .closed → c'.phase = .closed

/-- One change that queues no frame of a stream. -/
inductive Edit (c : Connection) : Connection → Prop
  | rest {c' : Connection} (aside : Aside c c') (streams : c'.streams = c.streams) : Edit c c'
  | tend {i : Nat} {f : Stream → Stream}
      (h : ∀ s, c.streams[i]? = some s → s.Keeps (c.phase = .closed ∧ c.dataQueue = []) (f s)) :
      Edit c (c.modify i f)
  | add {s : Stream} (h : s.unwritten = 0) :
      Edit c { c with streams := c.streams ++ [s] }
  | say (f : Frame) : Edit c (c.append ⟨f, none⟩)
  | purge {i : Nat} (h : ∀ s, c.streams[i]? = some s → s.resetCode.isSome) :
      Edit c (c.purge i)
  | discard (closed : c.phase = .closed) (h : ∀ q ∈ c.dataQueue, ∀ i,
      q.owner = some i → ∀ s, c.streams[i]? = some s → s.error.isSome) :
      Edit c { c with dataQueue := [] }

/-- One change that queues a frame of the stream `here`, which can be written, or none. -/
inductive Entry (here : Option Nat) (c : Connection) : Connection → Prop
  | edit {c' : Connection} (h : Edit c c') : Entry here c c'
  | queue {i : Nat} {s : Stream} (place : here = some i)
      (hi : c.streams[i]? = some s) (lasting : s.error = none) (unreset : s.resetCode = none)
      (f : Frame) : Entry here c (c.enqueueData i f)

abbrev Entries (here : Option Nat) : Connection → Connection → Prop :=
  Relation.ReflTransGen (Entry here)

theorem Edit.queuedFor {c c' : Connection} (h : Edit c c') (i : Nat) :
    c'.queuedFor i = c.queuedFor i := by
  cases h with
  | rest aside => rw [Connection.queuedFor,aside.queued,Connection.queuedFor]
  | say f => simp [Connection.queuedFor,append,Journal.noteData]
  | tend | add | purge | discard => rfl

section Entries

variable {here : Option Nat} {c c' : Connection}

theorem Entries.taken (h : Entries here c c') : c'.journal.taken = c.journal.taken ∧
    c'.metrics.framesSent = c.metrics.framesSent := by
  induction h with
  | refl => exact ⟨rfl,rfl⟩
  | tail _ he ih =>
    cases he with
    | queue => exact ih
    | edit he =>
      cases he with
      | rest aside =>
        exact ⟨aside.taken.trans ih.1,(congrArg Prod.fst aside.written).trans ih.2⟩
      | tend | add | say | purge | discard => exact ih

theorem Entries.closed (h : Entries here c c') (hc : c.phase = .closed) : c'.phase = .closed := by
  induction h with
  | refl => exact hc
  | tail _ he ih =>
    cases he with
    | queue => exact ih
    | edit he =>
      cases he with
      | rest aside => exact aside.closed ih
      | tend | add | say | purge | discard => exact ih

theorem Entries.queuedFor (h : Entries here c c') (i : Nat) : c.queuedFor i <:+ c'.queuedFor i := by
  induction h with
  | refl => exact List.suffix_rfl
  | tail _ he ih =>
    cases he with
    | edit he =>
      rw [he.queuedFor]
      exact ih
    | queue => exact ih.trans ((List.suffix_cons _ _).filter _)

theorem Entries.queuedFor_of_ne (h : Entries here c c') {i : Nat} (hi : here ≠ some i) :
    c'.queuedFor i = c.queuedFor i := by
  induction h with
  | refl => rfl
  | tail _ he ih =>
    rw [← ih]
    cases he with
    | edit he => exact he.queuedFor i
    | @queue j _ place =>
      have hj : j ≠ i := fun hj => hi (hj ▸ place)
      simp [Connection.queuedFor,enqueueData,append,Journal.noteData,Connection.modify,hj]

/-- Whether changes of a kind queue frames of the stream `here` alone. -/
def Kind.Enters (here : Option Nat) : Kind → Prop
  | .queue i => here = some i
  | .ship => False
  | _ => True

theorem Change.entries {k : Kind} {w : Word} (h : Change c k w c') (hk : k.Enters here) :
    Entries here c c' := by
  have hrest {x y : Connection} (aside : Aside x y) (streams : y.streams = x.streams) :
      Entries here x y := .single (.edit (.rest aside streams))
  cases h with
  | note hm => exact hrest ⟨rfl,rfl,rfl,hm,id⟩ rfl
  | ring | occupy | vacate | pong | control | accept | endInput | reason =>
    exact hrest ⟨rfl,rfl,rfl,rfl,id⟩ rfl
  | complete => exact hrest ⟨rfl,rfl,rfl,rfl,fun _ => rfl⟩ rfl
  | turn lasting => exact hrest ⟨rfl,rfl,rfl,rfl,lasting⟩ rfl
  | say => exact .single (.edit (.say _))
  | tend hs => exact .single (.edit (.tend fun s hi => (hs s hi).abides.keeps))
  | use hs => exact .single (.edit (.tend fun s hi => (hs s hi).abides.keeps))
  | purge hr => exact .single (.edit (.purge hr))
  | queue hi lasting unreset f => exact .single (.queue hk hi lasting unreset f)
  | add => exact .single (.edit (.add rfl))
  | arrive => exact .trans (.single (.edit (.add rfl))) (hrest ⟨rfl,rfl,rfl,rfl,id⟩ rfl)
  | fail => exact .single (.edit (.tend fun s _ => s.keeps_fail _ _))
  | hail | name => exact .single (.edit (.tend fun _ _ => Stream.keeps_of_eq rfl rfl rfl))
  | discard closed hq =>
    exact .trans (.single (.edit (.discard closed hq))) (hrest ⟨rfl,rfl,rfl,rfl,id⟩ rfl)
  | forget closed empty hfail =>
    exact .single (.edit (.tend fun s hi => ⟨id,.inr ⟨⟨closed,empty⟩,hfail s hi⟩,id⟩))
  | ship | count | written => exact hk.elim

theorem Runs.entries (h : Changes (Kind.Enters here) c c') : Entries here c c' :=
  h.keep trivial (fun _ => .refl) .trans Change.entries

theorem entries_resume (c : Connection) (cancelled : Bool) (w : Wait) :
    Entries w.stream? c (c.resume cancelled w).2 :=
  (Runs.resume (fun _ => trivial) id (fun _ => trivial) trivial cancelled).entries

theorem entries_call (c : Connection) (cancelled : Bool) (k : Call) :
    Entries k.stream? c (c.call cancelled k).2 :=
  (Runs.call (fun _ => trivial) id (fun _ => trivial) trivial trivial cancelled).entries

abbrev Edits : Connection → Connection → Prop := Changes (Kind.Enters none)

theorem Edits.queuedFor (h : Edits c c') (i : Nat) : c'.queuedFor i = c.queuedFor i :=
  h.entries.queuedFor_of_ne (Option.some_ne_none i).symm

theorem edits_looks (here : Option Nat) : LookLaw here Edits := Runs.looks fun _ => trivial

end Entries

end Connection

end Multiplex
